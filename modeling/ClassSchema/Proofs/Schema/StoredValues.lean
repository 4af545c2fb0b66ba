import ClassSchema.Proofs.Java.SkippedStatics
import ClassSchema.Proofs.Json.ReadValues
import ClassSchema.Proofs.Model.Reading
import ClassSchema.Proofs.Schema.Forms

/-!
# Values in a document

A document consists of texts and of objects whose names are distinct, apart from the constants
of enums, which are copied from the model as they are.  So a document can be stored if the
constants of its model can.

A model that was read has constants that were read, and a model that was built has names there,
so the constants of all models that a conversion comes to can be stored.

## Main results

* `Model.storable_of_ofBytes`, `Java.storable_buildModel`: constants that were read, or built.
* `Model.storable_of_compileClass`: the document of a class can be stored.
-/

namespace ClassSchema

open Json

/-- The constants of all enums can be stored. -/
def Model.Storable (model : Model) : Prop :=
  ∀ entity ∈ model, ∀ constant ∈ entity.enumConstants, constant.Every IsStorable

/-! ## Constants -/

/-- The constants of a class stand in its node. -/
theorem Model.DescribesHeader.storable {node : Json} {entity : Entity}
    (h : DescribesHeader node entity) (storable : node.Every IsStorable) :
    ∀ constant ∈ entity.enumConstants, constant.Every IsStorable := by
  cases h with
  | intro _ hConstants =>
      intro constant mem
      rcases hConstants with ⟨-, hNone⟩ | hFound
      · rw [hNone] at mem
        cases mem
      · exact everyItem_iff.mp (storable.2.of_get? hFound).2 constant mem

/-- **The constants of a model that was read** can be stored. -/
theorem Model.storable_of_ofBytes {bytes : List Nat} {model : Model}
    (h : ofBytes bytes = .ok model) : model.Storable := by
  unfold ofBytes at h
  split at h
  · cases h
  · unfold ofText at h
    split at h
    · cases h
    · next hParse =>
        split at h
        · cases h
        · next hDocument =>
            cases h
            intro entity mem
            cases (ofDocument_eq_ok_iff.mp hDocument).1 with
            | intro hNodes hClasses =>
                obtain ⟨index, hEntity⟩ := List.mem_iff_getElem?.mp mem
                obtain ⟨node, hNode, hClass⟩ := exists_item hClasses hEntity
                have hClassNodes := EveryMember.of_get? (storable_of_parse hParse).2 hNodes
                exact hClass.withoutFields.storable
                  (everyItem_iff.mp hClassNodes.2 node (List.mem_of_getElem? hNode))

/-- **The constants of a model that was built** are names. -/
theorem Java.storable_buildModel (sources : List Java.SourceFile) (includeStatic : Bool) :
    (Java.buildModel sources includeStatic).model.Storable := by
  intro entity mem constant hConstant
  obtain ⟨built, hBuilt, rfl⟩ := List.mem_map.mp mem
  obtain ⟨registered, hRegistered, rfl⟩ := List.mem_map.mp hBuilt
  obtain ⟨_, hEntity⟩ := Registry.entity_of_mem_foldl_add hRegistered
  have hNames : constant ∈ registered.entity.enumConstants := hConstant
  rw [hEntity, entityOf] at hNames
  obtain ⟨name, -, rfl⟩ := List.mem_map.mp hNames
  trivial

/-! ## Documents -/

section Documents

variable {model : Model}

theorem Model.storable_of_classAt (h : model.Storable) {type : FieldType} {entity : Entity}
    (hClass : model.classAt (some type) = some entity) :
    (arr entity.enumConstants).Every IsStorable := by
  have mem : entity ∈ model := by
    cases type <;> simp only [Model.classAt] at hClass
    · cases hClass
    · cases hClass
    · cases hClass
    · exact List.mem_of_getElem? hClass
  exact storable_arr (h entity mem)

/-- The parts of a node can be stored, and so can those of a property. -/
theorem IsProperty.storable (h : model.Storable) {field : Field}
    {members : List (String × Json)} (isProperty : IsProperty model field members) :
    (obj members).Every IsStorable := by
  refine ⟨?_, ?_⟩
  · cases isProperty.isDraft7 with
    | object nodup _ => exact nodup
  induction isProperty using IsProperty.rec
    (motive_1 := fun _ _ members _ => EveryMember IsStorable members)
    (motive_2 := fun _ members _ => EveryMember IsStorable members) with
  | reference => exact ⟨trivial, trivial⟩
  | enumeration hClass _ =>
      exact ⟨trivial, trivial, model.storable_of_classAt h hClass, trivial⟩
  | object _ _ names _ ih =>
      exact ⟨trivial, trivial, storable_obj (names ▸ nodup_eraseDups _) ih, trivial⟩
  | bare _ => exact ⟨trivial, trivial⟩
  | @array _ _ form _ _ _ items ih =>
      exact ⟨trivial, storable_obj (items.keys_eq ▸ form.nodup_names) ih, trivial⟩
  | @map _ _ form _ _ _ values ih =>
      exact ⟨trivial, storable_obj (values.keys_eq ▸ form.nodup_names) ih, trivial⟩
  | nil => trivial
  | cons _ isProperty _ ihProperty ihRest =>
      refine ⟨⟨?_, ihProperty⟩, ihRest⟩
      cases isProperty.isDraft7 with
      | object nodup _ => exact nodup
  | plain _ _ ih => exact ih
  | described _ _ ih => exact everyMember_append.mpr ⟨ih, trivial, trivial⟩

/-- **The document of a class can be stored** if the constants of the model can. -/
theorem Model.storable_of_compileClass (h : model.Storable) {number : Nat}
    {visited visited' : Visited} {schema : Schema}
    (compiled : model.compileClass number visited = (.ok schema, visited')) :
    schema.toJson.Every IsStorable := by
  obtain ⟨form, -, hNode⟩ := Model.isNode_of_compileClass compiled
  exact @IsProperty.storable model h ⟨"", .reference number, .null, .null⟩ schema.members
    (.plain rfl hNode)

end Documents

end ClassSchema
