import ClassSchema.Proofs.Schema.Readability

/-!
# Kinds of fields

The kind of a type is looked up by its name alone.  A field shows more of some types: of an
array, a list or a map it also shows the items or the values.  Which types are unwrapped in
this way is decided by guards of their own, on the tables of containers, the number of type
arguments, and what these are.

The two agree.  Unwrapping adds to the plain schema of a type and changes nothing about it, and
what it adds shows the kind of the type inside in the same way.  Classes of the model are left
out on both levels, since they are shown by their bodies or by references.

## Main results

* `Names.kind_of_mem_lists`, `Names.kind_of_mem_maps`: the tables of names agree.
* `Model.compileField_refines`: a field shows the kind of its type, and so do the items and values
  inside it.
-/

namespace ClassSchema

/-! ## Tables of names -/

/-- What is unwrapped as a list is an array by its name. -/
theorem Names.kind_of_mem_lists {name : String} (h : name ∈ lists) : kind name = .array := by
  revert name
  decide

/-- What is unwrapped as a map is an object by its name. -/
theorem Names.kind_of_mem_maps {name : String} (h : name ∈ maps) : kind name = .object := by
  revert name
  decide

/-! ## Kinds that are shown -/

namespace Model

/-- The members of a schema name the kind that a type has as a whole. -/
def Shows (model : Model) (type : FieldType) (members : List (String × Json)) : Prop :=
  ∃ kind, model.resolveKind type = .ok kind ∧
    OrderedMap.get? members "type" = some (.str kind.word)

/-- A schema inside another one shows the kind of its type, unless this is a class of the model. -/
def ShowsInside (model : Model) (type : FieldType) (schema : Json) : Prop :=
  model.isModelClass type ≠ .ok true → ∃ members, schema = .obj members ∧ model.Shows type members

/-- The members of a schema refine the plain schema of a type. -/
structure Refines (model : Model) (type : FieldType) (members : List (String × Json)) : Prop where
  /-- The kind is that of the type as a whole. -/
  kind : model.Shows type members
  /-- There are items exactly for a type unwrapped as a sequence, and they show their kind. -/
  items : Option.Rel model.ShowsInside type.listed? (OrderedMap.get? members "items")
  /-- There are values exactly for a type that is unwrapped as a map, and they show their kind. -/
  values : Option.Rel model.ShowsInside type.mapped?
    (OrderedMap.get? members "additionalProperties")

variable {model : Model} {type : FieldType}

/-- A bare schema shows its kind and nothing inside. -/
theorem shows_bare {kind : Kind} (h : model.resolveKind type = .ok kind) :
    model.Shows type (Schema.bare kind).members :=
  ⟨kind, h, by rw [Schema.members]; rfl⟩

/-- What stands for a type inside another one is a class of the model or shows its kind. -/
theorem showsInside_bare {kind : Kind} (h : model.resolveKind type = .ok kind) :
    model.ShowsInside type (Schema.bare kind).toJson :=
  fun _ => ⟨_, rfl, shows_bare h⟩

/-- What stands for a class of the model shows what its body shows, or is a reference. -/
theorem showsInside_of_refersTo {target : Nat} (h : RefersTo model type target) (schema : Json) :
    model.ShowsInside type schema :=
  fun outside => absurd (isModelClass_eq_true_iff.mpr ⟨target, h⟩) outside

theorem showsInside_of_valueSchema {values : Schema} (h : model.valueSchema type = .ok values) :
    model.ShowsInside type values.toJson := by
  rcases valueSchema_cases h with ⟨_, _, _, refers, _, _, rfl⟩ | ⟨kind, hKind, rfl⟩
  · exact showsInside_of_refersTo refers _
  · exact showsInside_bare hKind

theorem showsInside_of_openType {visited visited₁ visited' : Visited} {opened : Opened}
    {schema : Schema} (h : model.openType type visited = (.ok opened, visited₁))
    (finishes : Finishes model opened visited₁ schema visited') :
    model.ShowsInside type schema.toJson := by
  rcases openType_cases h with ⟨_, refers, _⟩ | ⟨_, ⟨kind, hKind, rfl⟩, _⟩
  · exact showsInside_of_refersTo refers _
  · cases finishes
    exact showsInside_bare hKind

/-- What is taken as a class is a class of the model. -/
theorem Unwraps.isModelClass {target : Nat} (h : model.Unwraps type (.expand target)) :
    model.isModelClass type = .ok true := by
  cases h with
  | expand _ hClass => exact hClass

/-- A type that is unwrapped as a sequence of items is an array by its name. -/
theorem Unwraps.refines_array {element : FieldType} (h : model.Unwraps type (.listOf element))
    {items : Schema} (inside : model.ShowsInside element items.toJson) :
    model.Refines type (Schema.array items).members := by
  rw [Schema.members]
  cases h with
  | array => exact ⟨⟨.array, rfl, rfl⟩, .some inside, .none⟩
  | @list name _ hList =>
      have hKind : model.resolveKind (.parameterized name [element]) = .ok .array :=
        congrArg Except.ok (Names.kind_of_mem_lists hList)
      refine ⟨⟨.array, hKind, rfl⟩, ?_, .none⟩
      simp only [FieldType.listed?, if_pos hList]
      exact .some inside

/-- A type whose schema is fixed is shown as a whole, or is a map and an object by its name. -/
theorem Unwraps.refines_fixed {schema : Schema} (h : model.Unwraps type (.fixed schema)) :
    model.Refines type schema.members := by
  cases h with
  | @map name key value values hMap hKey hValue hValues =>
      have hKind : model.resolveKind (.parameterized name [key, value]) = .ok .object :=
        congrArg Except.ok (Names.kind_of_mem_maps hMap)
      rw [Schema.members]
      refine ⟨⟨.object, hKind, rfl⟩, .none, ?_⟩
      simp only [FieldType.mapped?, if_pos (And.intro hMap (And.intro hKey hValue))]
      exact .some (showsInside_of_valueSchema hValues)
  | whole unlisted unmapped hKind =>
      have shows := shows_bare hKind
      rw [Schema.members] at shows ⊢
      exact ⟨shows, by rw [unlisted]; exact .none, by rw [unmapped]; exact .none⟩

/-! ## Descriptions -/

/-- A description hides no other member. -/
theorem get?_withDescription (members : List (String × Json)) (description : Option String)
    {name : String} (h : name ≠ "description") :
    OrderedMap.get? (Schema.withDescription members description) name =
      OrderedMap.get? members name := by
  cases description with
  | none => rfl
  | some text =>
      unfold Schema.withDescription
      induction members with
      | nil => simp [OrderedMap.get?, Ne.symm h]
      | cons member rest ih => simp only [List.cons_append, OrderedMap.get?, ih]

theorem Refines.withDescription {members : List (String × Json)} (h : model.Refines type members)
    (description : Option String) :
    model.Refines type (Schema.withDescription members description) := by
  obtain ⟨⟨kind, hKind, hType⟩, items, values⟩ := h
  refine ⟨⟨kind, hKind, ?_⟩, ?_, ?_⟩
  · rwa [get?_withDescription members description (by decide)]
  · rwa [get?_withDescription members description (by decide)]
  · rwa [get?_withDescription members description (by decide)]

/-! ## Fields -/

/-- A field that can be read has a property if all fields behind it can be read. -/
theorem exists_property_of_canRead {field : Field} (canRead : model.CanRead field)
    (behind : ReadableFrom model (LeadsTo model field.type)) (visited : Visited) :
    ∃ property visited', model.compileField field visited = (.ok property, visited') := by
  obtain ⟨⟨opened, slot⟩, hOk⟩ := exists_ok_of_isOk ((isOk_openField_iff visited).mpr canRead)
  have hField : model.openField field visited = (.ok (opened, slot), _) := Prod.ext hOk rfl
  rcases openField_cases hField with ⟨target, leads, hClass⟩ | ⟨_, ⟨schema, rfl⟩, _⟩
  · obtain ⟨schema, visited', hFinishes⟩ := exists_finishes hClass
      (behind.allOpen.mono (fun _ mem => mem) fun root hRoot =>
        ⟨root, (leads root).mpr hRoot, .refl⟩)
    exact ⟨_, visited', compileField_eq_ok_iff.mpr ⟨_, _, _, _, hField, hFinishes, rfl⟩⟩
  · exact ⟨_, _, compileField_eq_ok_iff.mpr
      ⟨_, _, _, _, hField, .closed schema _, rfl⟩⟩

/-- **Unwrapping only refines.**  Where the type of a field is not a class of the model, its
property shows the kind of the type as a whole, whichever way it was made.  There are items or
values exactly where the type is unwrapped, and they show the kind of the type inside, unless it is
a class of the model.  A field has a property if all names and comments that are looked at are texts
or missing. -/
theorem compileField_refines {field : Field} (outside : model.isModelClass field.type ≠ .ok true)
    (visited : Visited) :
    (∀ property visited', model.compileField field visited = (.ok property, visited') →
      model.Refines field.type property.members) ∧
    (model.Readable → model.CanRead field →
      ∃ property visited', model.compileField field visited = (.ok property, visited')) := by
  refine ⟨fun property visited' h => ?_, fun readable canRead =>
    exists_property_of_canRead canRead (readable.readableFrom _) visited⟩
  obtain ⟨opened, slot, visited₁, schema, hField, hFinishes, rfl⟩ := compileField_eq_ok_iff.mp h
  obtain ⟨shape, listed, description, hShape, opensAs, -, rfl⟩ := exists_opensAs hField
  have unwraps := unwraps_of_shape hShape
  cases opensAs with
  | fixed fixed =>
      cases hFinishes
      exact unwraps.refines_fixed.withDescription description
  | expand => exact absurd unwraps.isModelClass outside
  | listOf hType =>
      exact (unwraps.refines_array (showsInside_of_openType hType hFinishes)).withDescription
        description

end Model

/-- A class of the standard library that has the name of a container, and a class with a list of
it. -/
def shelf : Model :=
  [⟨"HashSet", .str "java.util.HashSet", .bool false, .bool false, [], []⟩,
   ⟨"Shelf", .str "l.Shelf", .bool false, .bool false, [],
    [⟨"tags", .parameterized "java.util.List" [.reference 0], .str "/** Its tags. */",
      .bool false⟩]⟩]

/-- A list is unwrapped by its name, and its items have the kind that the name of their class stands
for. -/
theorem compileField_shelf :
    shelf.isModelClass (.parameterized "java.util.List" [.reference 0]) ≠ .ok true ∧
      shelf.compileField ⟨"tags", .parameterized "java.util.List" [.reference 0],
          .str "/** Its tags. */", .bool false⟩ [.str "l.Shelf"] =
        (.ok ⟨.array (.bare .array), some "Its tags."⟩, [.str "l.Shelf"]) ∧
      shelf.Refines (.parameterized "java.util.List" [.reference 0])
        [("type", .str "array"), ("items", .obj [("type", .str "array")]),
         ("description", .str "Its tags.")] := by
  have outside : shelf.isModelClass (.parameterized "java.util.List" [.reference 0]) ≠
      .ok true := by
    simp [Model.isModelClass]
  have compiled : shelf.compileField ⟨"tags", .parameterized "java.util.List" [.reference 0],
      .str "/** Its tags. */", .bool false⟩ [.str "l.Shelf"] =
        (.ok ⟨.array (.bare .array), some "Its tags."⟩, [.str "l.Shelf"]) := by
    have description : Comment.clean "/** Its tags. */" = "Its tags." := by cbv
    refine Model.compileField_eq_ok_iff.mpr ⟨_, ⟨"tags", true, some "Its tags."⟩, _, _, ?_,
      .closed _ _, rfl⟩
    rw [← description]
    rfl
  have refines := (Model.compileField_refines outside [.str "l.Shelf"]).1 _ _ compiled
  simp only [Property.members, Schema.members] at refines
  exact ⟨outside, compiled, refines⟩

end ClassSchema
