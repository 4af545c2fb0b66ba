import ClassSchema.Model.Document
import ClassSchema.Model.Entries
import ClassSchema.Proofs.Results
import Mathlib.Data.List.Induction

/-!
# Models written as documents

A model is written as the document that lists its classes in order, each with all
its members, and that refers to a class by its key.  What is read from this
document is the model itself: a reference leads back to the number it was written
for.

The table for references holds keys and simple names together, and the simple name
of one class may be the key of another.  A key always wins, since a class takes its
key away from whoever has it, while a simple name is only taken where it is free.
So a key leads to the last class that has it.

## Main results

* `Model.get?_numbersOf`: the number that a key leads to.
* `Model.typeOf_toNode`: a type is read from its node.
* `Model.ofDocument_toDocument`: a model is read from its document.
-/

namespace ClassSchema

/-! ## Writing -/

/-- The key of a class by its number, or null if there is no such class. -/
def Model.keyOf (model : Model) (number : Nat) : Json :=
  ((model[number]?).map (·.key)).getD .null

mutual

/-- The node of a type. -/
def FieldType.toNode (model : Model) : FieldType → Json
  | .scalar name => .obj [("kind", .str "scalar"), ("name", .str name)]
  | .array element => .obj [("kind", .str "array"), ("element", element.toNode model)]
  | .parameterized name arguments =>
      .obj [("kind", .str "parameterized"), ("qualifiedName", .str name),
        ("typeArgs", .arr (FieldType.toNodes model arguments))]
  | .reference target => .obj [("kind", .str "class"), ("ref", model.keyOf target)]

/-- The nodes of types. -/
def FieldType.toNodes (model : Model) : List FieldType → List Json
  | [] => []
  | type :: rest => type.toNode model :: FieldType.toNodes model rest

end

/-- The node of a field. -/
def Field.toNode (model : Model) (field : Field) : Json :=
  .obj [("name", .str field.name), ("docComment", field.docComment), ("static", field.isStatic),
    ("type", field.type.toNode model)]

/-- The node of a class. -/
def Entity.toNode (model : Model) (entity : Entity) : Json :=
  .obj [("qualifiedName", entity.qualifiedName), ("simpleName", .str entity.simpleName),
    ("isEnum", entity.isEnum), ("isInterface", entity.isInterface),
    ("enumConstants", .arr entity.enumConstants),
    ("fields", .arr (entity.fields.map (·.toNode model)))]

/-- A class without its fields. -/
def Entity.withoutFields (entity : Entity) : Entity := { entity with fields := [] }

theorem Entity.key_withoutFields (entity : Entity) : entity.withoutFields.key = entity.key := rfl

namespace Model

/-- The document of a model: its classes in order. -/
def toDocument (model : Model) : Json :=
  .obj [("classes", .arr (model.map (·.toNode model)))]

/-- The classes of a model have keys of their own, and its fields refer to no other classes. -/
structure Writable (model : Model) : Prop where
  /-- Every class has something that can be a key. -/
  keyed : ∀ entity ∈ model, entity.key.isKey = true
  /-- No two classes have the same key. -/
  distinct : (model.map (·.key)).Nodup
  /-- The types of fields refer to classes of the model, however deep, and by a text. -/
  closed : ∀ entity ∈ model, ∀ field ∈ entity.fields, ∀ target ∈ field.type.targets,
    ∃ key, model.keyOf target = .str key

/-! ## The table for references -/

/-- A name that is taken stays with whoever has it where another one is taken if it is free. -/
private theorem get?_put_free {numbers : OrderedMap Nat} {name : String} {known : Nat}
    (h : numbers.get? name = some known) (simpleName : String) (number : Nat) :
    (if (numbers.get? simpleName).isSome then numbers
      else numbers.put simpleName number).get? name = some known := by
  split
  · exact h
  · next hFree =>
      have hNe : simpleName ≠ name := by
        rintro rfl
        simp [h] at hFree
      rw [OrderedMap.get?_put, if_neg hNe, h]

/-- A class takes its key, whoever had it. -/
theorem get?_enter_key (numbers : OrderedMap Nat) (number : Nat) {entity : Entity} {key : String}
    (h : entity.key = .str key) : (enter numbers number entity).get? key = some number := by
  simp only [enter, h]
  exact get?_put_free (by rw [OrderedMap.get?_put, if_pos rfl]) _ _

/-- A class takes no name that is taken, its key apart. -/
theorem get?_enter_of_get? {numbers : OrderedMap Nat} {name : String} {known : Nat}
    (h : numbers.get? name = some known) (number : Nat) {entity : Entity}
    (other : entity.key ≠ .str name) : (enter numbers number entity).get? name = some known := by
  refine get?_put_free ?_ _ _
  split
  · next key hKey =>
      have hNe : key ≠ name := fun hSame => other (hSame ▸ hKey)
      rw [OrderedMap.get?_put, if_neg hNe, h]
  · exact h

/-- The classes of a list are entered one after the other. -/
theorem numbersOf_concat (entities : List Entity) (entity : Entity) :
    numbersOf (entities ++ [entity]) = enter (numbersOf entities) entities.length entity := by
  simp [numbersOf, List.zipIdx_append]

/-- **A key leads to the last class that has it**, whatever simple names there are. -/
theorem get?_numbersOf {entities : List Entity} {number : Nat} {entity : Entity} {key : String}
    (found : entities[number]? = some entity) (hKey : entity.key = .str key)
    (last : ∀ later other, number < later → entities[later]? = some other →
      other.key ≠ .str key) :
    (numbersOf entities).get? key = some number := by
  induction entities using List.reverseRecOn with
  | nil => simp at found
  | append_singleton entities newest ih =>
      rw [numbersOf_concat]
      rcases Nat.lt_trichotomy number entities.length with hLess | rfl | hMore
      · have hNewest : newest.key ≠ .str key := last entities.length newest hLess (by simp)
        rw [List.getElem?_append_left hLess] at found
        refine get?_enter_of_get? (ih found fun later other hLater hOther => ?_) _ hNewest
        have hLength := (List.getElem?_eq_some_iff.mp hOther).1
        exact last later other hLater (by rw [List.getElem?_append_left hLength, hOther])
      · obtain rfl : newest = entity := by simpa using found
        exact get?_enter_key _ _ hKey
      · have hLength := (List.getElem?_eq_some_iff.mp found).1
        simp at hLength
        omega

/-! ## Reading what was written -/

theorem FieldType.exists_toNode (model : Model) (type : FieldType) :
    ∃ members, type.toNode model = .obj members := by
  cases type <;> exact ⟨_, by rw [FieldType.toNode]⟩

mutual

/-- **A type is read from its node** where the key of each class that it refers to leads there. -/
theorem typeOf_toNode (model : Model) (numbers : OrderedMap Nat) :
    (type : FieldType) →
      (∀ target ∈ type.targets, ∃ key, model.keyOf target = .str key ∧
        numbers.get? key = some target) →
      typeOf numbers (type.toNode model) = .ok type
  | .scalar name, _ => by
      simp [FieldType.toNode, typeOf, memberOr, OrderedMap.get?, requiredText, required, Except.map]
  | .array element, found => by
      have read := typeOf_toNode model numbers element found
      obtain ⟨members, hNode⟩ := FieldType.exists_toNode model element
      rw [hNode] at read
      simp [FieldType.toNode, typeOf, memberOr, OrderedMap.get?, hNode, read, Except.map]
  | .parameterized name arguments, found => by
      have read := typesOf_toNodes model numbers arguments found
      simp [FieldType.toNode, typeOf, memberOr, OrderedMap.get?, requiredText, required, read,
        Except.map]
  | .reference target, found => by
      obtain ⟨key, hKey, hNumber⟩ := found target (by simp [FieldType.targets])
      simp [FieldType.toNode, typeOf, memberOr, OrderedMap.get?, requiredText, required, hKey,
        hNumber]

theorem typesOf_toNodes (model : Model) (numbers : OrderedMap Nat) :
    (types : List FieldType) →
      (∀ target ∈ FieldType.targetsOf types, ∃ key, model.keyOf target = .str key ∧
        numbers.get? key = some target) →
      typesOf numbers (FieldType.toNodes model types) = .ok types
  | [], _ => by simp [FieldType.toNodes, typesOf]
  | type :: rest, found => by
      have first := typeOf_toNode model numbers type fun target mem =>
        found target (by simp [FieldType.targetsOf, mem])
      have others := typesOf_toNodes model numbers rest fun target mem =>
        found target (by simp [FieldType.targetsOf, mem])
      simp [FieldType.toNodes, typesOf, first, others, Except.map]

end

/-- A field is read from its node where its type is. -/
theorem fieldOf_toNode (model : Model) {numbers : OrderedMap Nat} {field : Field}
    (found : ∀ target ∈ field.type.targets, ∃ key, model.keyOf target = .str key ∧
      numbers.get? key = some target) :
    fieldOf numbers (field.toNode model) = .ok field := by
  have read := typeOf_toNode model numbers field.type found
  obtain ⟨members, hNode⟩ := FieldType.exists_toNode model field.type
  rw [hNode] at read
  simp [Field.toNode, fieldOf, membersOf, requiredText, requiredType, required, memberOr,
    OrderedMap.get?, hNode, read, bind, Except.bind, pure, Except.pure]

/-- The first pass reads everything but the fields. -/
theorem header_toNode (model : Model) {entity : Entity} (h : entity.key.isKey = true) :
    header (entity.toNode model) = .ok entity.withoutFields := by
  have hKey : ({ entity with fields := [] } : Entity).key.isKey = true := h
  simp [Entity.withoutFields, Entity.toNode, header, membersOf, requiredText, required,
    optionalList, memberOr, OrderedMap.get?, bind, Except.bind, pure, Except.pure, hKey]

/-- The second pass reads the fields. -/
theorem complete_toNode (model : Model) {numbers : OrderedMap Nat} {entity : Entity}
    (found : ∀ field ∈ entity.fields, ∀ target ∈ field.type.targets,
      ∃ key, model.keyOf target = .str key ∧ numbers.get? key = some target) :
    complete numbers entity.withoutFields (entity.toNode model) = .ok entity := by
  have read : (entity.fields.map (·.toNode model)).mapM (fieldOf numbers) =
      .ok (entity.fields.map id) :=
    mapM_map_eq_ok fun field mem => fieldOf_toNode model (found field mem)
  simp [Entity.withoutFields, Entity.toNode, complete, membersOf, optionalList, OrderedMap.get?,
    read, bind, Except.bind, pure, Except.pure]

/-- In a model with distinct keys, the key of a class leads to this class. -/
theorem get?_numbersOf_keyOf {model : Model} (distinct : (model.map (·.key)).Nodup)
    {number : Nat} {key : String} (hKey : model.keyOf number = .str key) :
    (numbersOf (model.map (·.withoutFields))).get? key = some number := by
  have hFirst : (model.map (·.key))[number]? = some (.str key) := by
    cases hFound : model[number]? with
    | none => simp [keyOf, hFound] at hKey
    | some entity => simpa [keyOf, hFound] using hKey
  obtain ⟨entity, hEntity, hText⟩ : ∃ entity, model[number]? = some entity ∧
      entity.key = .str key := by simpa using hFirst
  have hFound : (model.map (·.withoutFields))[number]? = some entity.withoutFields := by
    simp [hEntity]
  refine get?_numbersOf hFound hText ?_
  intro later other hLater hOther hSame
  obtain ⟨written, hWritten, rfl⟩ : ∃ written, model[later]? = some written ∧
      written.withoutFields = other := by simpa using hOther
  have hSecond : (model.map (·.key))[later]? = some (.str key) := by
    rw [Entity.key_withoutFields] at hSame
    simp [hWritten, hSame]
  have hNumber := (List.getElem?_eq_some_iff.mp hFirst).1
  have hEqual : number = later :=
    (List.getElem?_inj hNumber distinct).mp (hFirst.trans hSecond.symm)
  omega

/-- **A model is read from its document**: the same classes in the same order, each with the
same fields, and every reference back at the class it was written for. -/
theorem ofDocument_toDocument {model : Model} (writable : model.Writable) :
    ofDocument model.toDocument = .ok model := by
  have headers : (model.map (·.toNode model)).mapM header =
      .ok (model.map (·.withoutFields)) :=
    mapM_map_eq_ok fun entity mem => header_toNode model (writable.keyed entity mem)
  have classes : (model.map fun entity => (entity.withoutFields, entity.toNode model)).mapM
      (fun entry => complete (numbersOf (model.map (·.withoutFields))) entry.1 entry.2) =
        .ok (model.map id) := by
    refine mapM_map_eq_ok fun entity mem => complete_toNode model fun field hField target hTarget => ?_
    obtain ⟨key, hKey⟩ := writable.closed entity mem field hField target hTarget
    exact ⟨key, hKey, get?_numbersOf_keyOf writable.distinct hKey⟩
  rw [List.map_id] at classes
  simp [ofDocument, toDocument, OrderedMap.get?, headers, List.zip_map', classes, bind, Except.bind]

end Model

/-- The simple name of the first class is the key of the second one, and each refers to the
other. -/
def twoNodes : Model :=
  [⟨"Node", .str "a.Node", .bool false, .bool false, [],
    [⟨"plain", .reference 1, .str "the one without a package", .bool false⟩,
     ⟨"grid", .array (.array (.reference 0)), .null, .bool true⟩]⟩,
   ⟨"Node", .null, .bool false, .bool false, [],
    [⟨"colors", .parameterized "java.util.Map"
        [.scalar "java.lang.String", .parameterized "java.util.List" [.reference 2]],
      .null, .bool false⟩,
     ⟨"packaged", .reference 0, .null, .bool false⟩]⟩,
   ⟨"Color", .str "b.Color", .bool true, .bool false, [.str "RED", .str "BLUE"], []⟩]

theorem twoNodes_writable : twoNodes.Writable where
  keyed := by simp [twoNodes, Entity.key, Json.truthy, Json.isKey]
  distinct := by simp [twoNodes, Entity.key, Json.truthy]
  closed := by
    simp [twoNodes, FieldType.targets, FieldType.targetsOf, Model.keyOf, Entity.key, Json.truthy]

/-- `Node` alone leads to the class without a package, though the other one came first. -/
theorem ofDocument_twoNodes :
    twoNodes.Writable ∧ Model.ofDocument twoNodes.toDocument = .ok twoNodes :=
  ⟨twoNodes_writable, Model.ofDocument_toDocument twoNodes_writable⟩

end ClassSchema
