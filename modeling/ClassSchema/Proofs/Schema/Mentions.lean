import ClassSchema.Proofs.OrderedMaps
import ClassSchema.Proofs.Schema.Recursive
import ClassSchema.Proofs.Schema.Meeting

/-!
# Bodies before references

A document mentions a class in two ways: by its body, which is an object or the
constants of an enum, or by a reference to its key.  A body shows a title only, so
whose body it is follows from where it stands: the document is read along the
types of the model, from the class that was compiled down.

The mentions are listed in document order, each body before what it encloses.
`Tells` goes through such a list with the visited set that belongs to it: a body
is that of a class not yet visited and makes it visited, and a reference is to a
key that was visited.  The values of a map stand outside of all this; a class is
referred to there whether it has a body or not.

## Main results

* `CompilesFields.tells`: the properties that fields come to are told in the
  order of the visited set.
* `Model.bodies_before_references`: in the document of a class, no key has two
  bodies, what is referred to was visited or has its body before, and the bodies
  are what the visited set has gained.
-/

namespace ClassSchema

/-! ## What a document mentions -/

/-- How a document mentions a class. -/
inductive Mention where
  /-- The body of the class with this key. -/
  | body (key : Json)
  /-- A reference to this key. -/
  | reference (key : String)

/-- The keys whose bodies are mentioned, in order. -/
def Mention.bodies : List Mention → List Json
  | [] => []
  | .body key :: rest => key :: bodies rest
  | .reference _ :: rest => bodies rest

/-- The type of the items of an array or a list. -/
def FieldType.item? (type : FieldType) : Option FieldType :=
  type.element?.or (type.argument? 0)

/-- The type of the values of a map. -/
def FieldType.value? (type : FieldType) : Option FieldType := type.argument? 1

/-- The declared type of the field with this name. -/
def Entity.typeOf? (entity : Entity) (name : String) : Option FieldType :=
  (entity.fields.find? (·.name = name)).map (·.type)

/-- The class that a type refers to. -/
def Model.classAt (model : Model) : Option FieldType → Option Entity
  | some (.reference target) => model[target]?
  | _ => none

/-- The key of the class that a type refers to, or null, which is the key of no class. -/
def Model.keyAt (model : Model) (type : Option FieldType) : Json :=
  ((model.classAt type).map (·.key)).getD .null

namespace Schema

mutual

/-- The mentions in the schema of a type, in document order.  References that are the values of a
map are left out. -/
def mentions (model : Model) (type : Option FieldType) : Schema → List Mention
  | reference key => [.reference key]
  | enumeration _ _ => [.body (model.keyAt type)]
  | object _ properties =>
      .body (model.keyAt type) :: propertyMentions model (model.classAt type) properties
  | bare _ => []
  | array items => mentions model (type.bind (·.item?)) items
  | map (reference _) => []
  | map values => mentions model (type.bind (·.value?)) values

/-- The mentions in the properties of a class. -/
def propertyMentions (model : Model) (entity : Option Entity) :
    List (String × Described Schema) → List Mention
  | [] => []
  | (name, ⟨content, _⟩) :: rest =>
      mentions model (entity.bind (·.typeOf? name)) content ++
        propertyMentions model entity rest

end

end Schema

/-! ## Mentions and the visited set -/

/-- Mentions in the order in which the classes are met: a body makes a new key visited, and what
is referred to was visited before. -/
def Tells : Visited → List Mention → Visited → Prop
  | visited, [], visited' => visited' = visited
  | visited, .body key :: rest, visited' =>
      visited.has key = false ∧ Tells (key :: visited) rest visited'
  | visited, .reference key :: rest, visited' =>
      visited.has (.str key) = true ∧ Tells visited rest visited'

namespace Tells

theorem append {visited visited₁ visited' : Visited} {mentions others : List Mention}
    (h : Tells visited mentions visited₁) (h' : Tells visited₁ others visited') :
    Tells visited (mentions ++ others) visited' := by
  induction mentions generalizing visited with
  | nil =>
      cases h
      exact h'
  | cons mention rest ih =>
      cases mention with
      | body key => exact ⟨h.1, ih h.2⟩
      | reference key => exact ⟨h.1, ih h.2⟩

/-- The keys of the bodies are what the visited set has gained, the last one in front. -/
theorem visited_eq {visited visited' : Visited} {mentions : List Mention}
    (h : Tells visited mentions visited') :
    visited' = (Mention.bodies mentions).reverse ++ visited := by
  induction mentions generalizing visited with
  | nil => exact h
  | cons mention rest ih =>
      cases mention with
      | body key => simp [Mention.bodies, ih h.2]
      | reference key => exact ih h.2

/-- A body is that of a class that was not visited. -/
theorem fresh {visited visited' : Visited} {mentions : List Mention}
    (h : Tells visited mentions visited') :
    ∀ key ∈ Mention.bodies mentions, visited.has key = false := by
  induction mentions generalizing visited with
  | nil => simp [Mention.bodies]
  | cons mention rest ih =>
      cases mention with
      | body first =>
          intro key hMem
          rcases List.mem_cons.mp hMem with rfl | hMem
          · exact h.1
          · have hLater := ih h.2 key hMem
            simp only [Visited.has_cons, Bool.or_eq_false_iff] at hLater
            exact hLater.2
      | reference key => exact ih h.2

/-- No two bodies have the same key. -/
theorem pairwise {visited visited' : Visited} {mentions : List Mention}
    (h : Tells visited mentions visited') :
    (Mention.bodies mentions).Pairwise (fun first later => first.sameKey later = false) := by
  induction mentions generalizing visited with
  | nil => exact .nil
  | cons mention rest ih =>
      cases mention with
      | body first =>
          refine .cons (fun later hMem => ?_) (ih h.2)
          have hLater := h.2.fresh later hMem
          simp only [Visited.has_cons, Bool.or_eq_false_iff] at hLater
          exact hLater.1
      | reference key => exact ih h.2

/-- What is referred to was visited, or its body is mentioned before. -/
theorem has_of_reference {visited visited' : Visited} {before after : List Mention} {key : String}
    (h : Tells visited (before ++ .reference key :: after) visited') :
    visited.has (.str key) = true ∨ Visited.has (Mention.bodies before) (.str key) = true := by
  induction before generalizing visited with
  | nil => exact .inl h.1
  | cons mention rest ih =>
      cases mention with
      | body first =>
          simp only [Mention.bodies, Visited.has_cons, Bool.or_eq_true]
          rcases ih h.2 with hHas | hBody
          · simp only [Visited.has_cons, Bool.or_eq_true] at hHas
            rcases hHas with hFirst | hOld
            · exact .inr (.inl hFirst)
            · exact .inl hOld
          · exact .inr (.inr hBody)
      | reference other => exact ih h.2

end Tells

/-! ## Classes, types and fields -/

section Meeting

variable {model : Model} {visited visited' : Visited} {opened : Opened}

/-- What a type that is met tells: its schema with all that it mentions, or the class that it
refers to, whose body comes next. -/
inductive Meets (model : Model) (type : Option FieldType) (visited : Visited) :
    Opened → Visited → Prop where
  | closed {schema : Schema} {visited' : Visited} :
      Tells visited (schema.mentions model type) visited' →
      Meets model type visited (.closed schema) visited'
  | pending {entity : Entity} : model.classAt type = some entity → entity ∈ model →
      visited.has entity.key = false →
      Meets model type visited (.pending entity.simpleName entity.fields) (entity.key :: visited)

theorem Meets.of_openClass {number : Nat}
    (h : model.openClass number visited = (.ok opened, visited')) :
    Meets model (some (.reference number)) visited opened visited' := by
  have keyAt : ∀ {entity : Entity}, model[number]? = some entity →
      model.keyAt (some (.reference number)) = entity.key := by
    intro entity found
    simp [Model.keyAt, Model.classAt, found]
  cases Model.openClass_eq_ok_iff.mp h with
  | missing => exact .closed rfl
  | known _ hKey known => exact .closed ⟨hKey ▸ known, rfl⟩
  | constants found _ fresh _ =>
      refine .closed ?_
      rw [Schema.mentions, keyAt found]
      exact ⟨fresh, rfl⟩
  | fields found _ fresh _ => exact .pending found (List.mem_of_getElem? found) fresh

theorem Meets.of_openType {type : FieldType}
    (h : model.openType type visited = (.ok opened, visited')) :
    Meets model (some type) visited opened visited' := by
  rcases Model.openType_cases h with ⟨target, ⟨_, _⟩, hClass⟩ | ⟨rfl, ⟨kind, _, rfl⟩, _⟩
  · exact .of_openClass hClass
  · exact .closed rfl

/-- A type whose schema is fixed mentions no class. -/
private theorem mentions_of_shape {type : FieldType} {schema : Schema}
    (h : model.shape type = .ok (.fixed schema)) : schema.mentions model (some type) = [] := by
  cases Model.unwraps_of_shape h with
  | map _ _ _ hValues =>
      rcases Model.valueSchema_cases hValues with ⟨_, _, _, _, _, _, rfl⟩ | ⟨_, _, rfl⟩
      · rfl
      · rfl
  | whole => rfl

/-- What is compiled as a sequence is an array or a list. -/
theorem Model.item_of_shape {type element : FieldType}
    (h : model.shape type = .ok (.listOf element)) : type.item? = some element := by
  cases Model.unwraps_of_shape h with
  | array | list => rfl

/-- A field that is met: in its place, a schema mentions what it mentions on its own. -/
theorem Meets.of_openField {field : Field} {slot : Slot}
    (h : model.openField field visited = (.ok (opened, slot), visited')) :
    ∃ type : Option FieldType, Meets model type visited opened visited' ∧
      ∀ schema : Schema, (slot.fill schema).content.mentions model (some field.type) =
        schema.mentions model type := by
  obtain ⟨shape, listed, description, hShape, opensAs, -, rfl⟩ := Model.exists_opensAs h
  cases opensAs with
  | fixed schema =>
      refine ⟨some field.type, .closed ?_, fun _ => rfl⟩
      rw [mentions_of_shape hShape]
      rfl
  | @expand target _ _ hClass =>
      refine ⟨some (.reference target), .of_openClass hClass, fun schema => ?_⟩
      rw [Model.reference_of_shape hShape]
      rfl
  | @listOf element _ _ hType =>
      refine ⟨some element, .of_openType hType, fun schema => ?_⟩
      simp [Slot.fill, Schema.mentions, Model.item_of_shape hShape]

end Meeting

/-! ## Fields, one after the other -/

/-- No class has two fields of one name. -/
def Model.DistinctFields (model : Model) : Prop :=
  ∀ entity ∈ model, (entity.fields.map (·.name)).Nodup

/-- A field is found by its name. -/
theorem Entity.typeOf?_eq {entity : Entity} (distinct : (entity.fields.map (·.name)).Nodup)
    {field : Field} (mem : field ∈ entity.fields) :
    entity.typeOf? field.name = some field.type := by
  have found : ∀ fields : List Field, (fields.map (·.name)).Nodup → field ∈ fields →
      fields.find? (·.name = field.name) = some field := by
    intro fields hNodup hMem
    induction fields with
    | nil => cases hMem
    | cons first rest ih =>
        obtain ⟨hFirst, hRest⟩ := List.nodup_cons.mp hNodup
        rcases List.mem_cons.mp hMem with rfl | hMem
        · simp
        · have hNe : first.name ≠ field.name := by
            intro hEq
            exact hFirst (List.mem_map.mpr ⟨field, hMem, hEq.symm⟩)
          simp [hNe, ih hRest hMem]
  rw [Entity.typeOf?, found _ distinct mem]
  rfl

/-- The property of a field goes to the end, and the properties of the fields behind it follow. -/
private theorem exists_added {model : Model} {entity : Entity} {field : Field}
    {property : Property} {properties properties' : List (String × Property)}
    {visited visited₁ visited' : Visited}
    (declared : entity.typeOf? field.name = some field.type)
    (fresh : field.name ∉ OrderedMap.keys properties)
    (first : Tells visited (property.content.mentions model (some field.type)) visited₁)
    (rest : ∃ added, properties' = OrderedMap.put field.name property properties ++ added ∧
      Tells visited₁ (Schema.propertyMentions model (some entity) added) visited') :
    ∃ added, properties' = properties ++ added ∧
      Tells visited (Schema.propertyMentions model (some entity) added) visited' := by
  obtain ⟨added, hProperties, hTells⟩ := rest
  rw [OrderedMap.put_of_notMem fresh, List.append_assoc] at hProperties
  refine ⟨(field.name, property) :: added, hProperties, ?_⟩
  rw [Schema.propertyMentions, Option.bind_some, declared]
  exact first.append hTells

/-- A body tells its class, and then what its properties tell. -/
private theorem tells_object {model : Model} {type : Option FieldType} {entity : Entity}
    {visited visited' : Visited} {title : String} {properties : List (String × Property)}
    (hClass : model.classAt type = some entity) (fresh : visited.has entity.key = false)
    (h : Tells (entity.key :: visited) (Schema.propertyMentions model (some entity) properties)
      visited') :
    Tells visited ((Schema.object title properties).mentions model type) visited' := by
  rw [Schema.mentions, hClass, Model.keyAt, hClass]
  exact ⟨fresh, h⟩

/-- The names of the fields that are left are still new when the first one has its property. -/
private theorem fresh_put {field : Field} {fields : List Field} {property : Property}
    {properties : List (String × Property)}
    (names : ((field :: fields).map (·.name)).Nodup)
    (fresh : ∀ other ∈ field :: fields, other.name ∉ OrderedMap.keys properties) :
    ∀ other ∈ fields,
      other.name ∉ OrderedMap.keys (OrderedMap.put field.name property properties) := by
  intro other hMem
  have hNe : other.name ≠ field.name := by
    intro hEq
    exact (List.nodup_cons.mp names).1 (List.mem_map.mpr ⟨other, hMem, hEq⟩)
  rw [OrderedMap.keys_put, if_neg (fresh field (by simp))]
  simp [fresh other (by simp [hMem]), hNe]

/-- **Properties tell their classes in order.**  Fields with names of their own add properties
behind those that are there, and what the added ones mention takes the visited set from where it
was to where it ends. -/
theorem CompilesFields.tells {model : Model} (distinct : model.DistinctFields)
    {fields : List Field} {properties properties' : List (String × Property)}
    {visited visited' : Visited}
    (h : CompilesFields model fields properties visited properties' visited') {entity : Entity}
    (declared : ∀ field ∈ fields, entity.typeOf? field.name = some field.type)
    (names : (fields.map (·.name)).Nodup)
    (fresh : ∀ field ∈ fields, field.name ∉ OrderedMap.keys properties) :
    ∃ added, properties' = properties ++ added ∧
      Tells visited (Schema.propertyMentions model (some entity) added) visited' := by
  induction h generalizing entity with
  | done => exact ⟨[], by simp, rfl⟩
  | closed opened _ ih =>
      have hName := Recursive.name_of_openField model opened
      obtain ⟨type, meets, mentions⟩ := Meets.of_openField opened
      obtain ⟨tells⟩ := meets
      rw [hName] at ih
      refine exists_added (declared _ (by simp)) (fresh _ (by simp)) (mentions _ ▸ tells) ?_
      exact ih (fun field hMem => declared field (by simp [hMem])) (List.nodup_cons.mp names).2
        (fresh_put names fresh)
  | nested opened inner _ ihInner ih =>
      have hName := Recursive.name_of_openField model opened
      obtain ⟨type, meets, mentions⟩ := Meets.of_openField opened
      cases meets with
      | pending hClass hMem hFresh =>
          obtain ⟨added, rfl, hBody⟩ := ihInner
            (fun field => Entity.typeOf?_eq (distinct _ hMem)) (distinct _ hMem)
            (by simp [OrderedMap.keys])
          rw [hName] at ih
          refine exists_added (declared _ (by simp)) (fresh _ (by simp)) ?_
            (ih (fun field hMem => declared field (by simp [hMem])) (List.nodup_cons.mp names).2
              (fresh_put names fresh))
          rw [mentions]
          exact tells_object hClass hFresh hBody

/-- What was met is told to its end. -/
theorem Finishes.tells {model : Model} (distinct : model.DistinctFields) {opened : Opened}
    {type : Option FieldType} {schema : Schema} {visited visited₁ visited' : Visited}
    (meets : Meets model type visited opened visited₁)
    (h : Finishes model opened visited₁ schema visited') :
    Tells visited (schema.mentions model type) visited' := by
  cases h with
  | closed =>
      obtain ⟨tells⟩ := meets
      exact tells
  | pending fields =>
      cases meets with
      | pending hClass hMem hFresh =>
          obtain ⟨added, rfl, hBody⟩ := fields.tells distinct
            (fun field => Entity.typeOf?_eq (distinct _ hMem)) (distinct _ hMem)
            (by simp [OrderedMap.keys])
          exact tells_object hClass hFresh hBody

/-! ## The document of a class -/

/-- **Bodies come before references.**  Let no class have two fields of one name.  On a model of
texts every class has a document, whatever was visited before.  In the document of a class no key
has two bodies, and none has a body that was visited before; a key that is referred to outside of
a map was visited before, or its body stands before the reference or around it; and the visited set
has gained exactly the keys with a body, in document order. -/
theorem Model.bodies_before_references {model : Model} (distinct : model.DistinctFields)
    (number : Nat) (visited : Visited) :
    (model.Textual →
      ∃ schema visited', model.compileClass number visited = (.ok schema, visited')) ∧
    ∀ schema visited', model.compileClass number visited = (.ok schema, visited') →
      let mentions := schema.mentions model (some (.reference number))
      (Mention.bodies mentions).Pairwise (fun first later => first.sameKey later = false) ∧
      (∀ key ∈ Mention.bodies mentions, visited.has key = false) ∧
      (∀ before key after, mentions = before ++ .reference key :: after →
        visited.has (.str key) = true ∨
          Visited.has (Mention.bodies before) (.str key) = true) ∧
      visited' = (Mention.bodies mentions).reverse ++ visited := by
  refine ⟨fun textual => Recursive.exists_compileClass textual number visited, ?_⟩
  intro schema visited' h mentions
  obtain ⟨opened, visited₁, hOpened, hFinishes⟩ := Model.compileClass_eq_ok_iff.mp h
  have tells := hFinishes.tells distinct (.of_openClass hOpened)
  refine ⟨tells.pairwise, tells.fresh, ?_, tells.visited_eq⟩
  intro before key after hMentions
  change Tells visited mentions visited' at tells
  rw [hMentions] at tells
  exact tells.has_of_reference

/-- Orders and their customers know each other; customers and items share an address, and an item
is met through a list, through an array of its own class and as the value of a map. -/
def orders : Model :=
  [⟨"Order", .str "s.Order", .bool false, .bool false, [],
    [⟨"customer", .reference 1, .null, .bool false⟩,
     ⟨"items", .parameterized "java.util.List" [.reference 2], .null, .bool false⟩,
     ⟨"byCode", .parameterized "java.util.Map" [.scalar "java.lang.String", .reference 2], .null,
       .bool false⟩]⟩,
   ⟨"Customer", .str "s.Customer", .bool false, .bool false, [],
    [⟨"home", .reference 3, .null, .bool false⟩, ⟨"last", .reference 0, .null, .bool false⟩]⟩,
   ⟨"Item", .str "s.Item", .bool false, .bool false, [],
    [⟨"from", .reference 3, .null, .bool false⟩,
     ⟨"spares", .array (.reference 2), .null, .bool false⟩]⟩,
   ⟨"Address", .str "s.Address", .bool false, .bool false, [], []⟩]

/-- The document of an order. -/
def orderSchema : Schema :=
  .object "Order"
    [("customer", ⟨.object "Customer"
      [("home", ⟨.object "Address" [], none⟩), ("last", ⟨.reference "s.Order", none⟩)], none⟩),
     ("items", ⟨.array (.object "Item"
      [("from", ⟨.reference "s.Address", none⟩),
       ("spares", ⟨.array (.reference "s.Item"), none⟩)]), none⟩),
     ("byCode", ⟨.map (.reference "s.Item"), none⟩)]

theorem compile_orders :
    orders.compileClass 0 [] =
      (.ok orderSchema,
        [.str "s.Item", .str "s.Address", .str "s.Customer", .str "s.Order"]) :=
  Model.compileClass_eq_ok_iff.mpr ⟨_, _, rfl, .pending
    (.nested rfl (.nested rfl (.done _ _) (.closed rfl (.done _ _)))
      (.nested rfl (.closed rfl (.closed rfl (.done _ _))) (.closed rfl (.done _ _))))⟩

/-- The order is referred to inside of its body, the address behind its own, and the item once
inside; the value of the map is not told. -/
theorem bodies_of_orders :
    orders.DistinctFields ∧
      orderSchema.mentions orders (some (.reference 0)) =
        [.body (.str "s.Order"), .body (.str "s.Customer"), .body (.str "s.Address"),
         .reference "s.Order", .body (.str "s.Item"), .reference "s.Address",
         .reference "s.Item"] ∧
      Visited.has [.str "s.Order", .str "s.Customer", .str "s.Address", .str "s.Item"]
        (.str "s.Address") = true := by
  have distinct : orders.DistinctFields := by simp [Model.DistinctFields, orders]
  have told := (Model.bodies_before_references distinct 0 []).2 _ _ compile_orders
  refine ⟨distinct, rfl, ?_⟩
  have hAddress := told.2.2.1
    [.body (.str "s.Order"), .body (.str "s.Customer"), .body (.str "s.Address"),
     .reference "s.Order", .body (.str "s.Item")] "s.Address" [.reference "s.Item"] rfl
  rcases hAddress with hVisited | hBody
  · cases hVisited
  · exact hBody

end ClassSchema
