import ClassSchema.Proofs.Model.References
import ClassSchema.Proofs.RelatedLists

/-!
# Documents that describe a model

A document is a type model if it has the documented shape: a list of classes, each an
object with a simple name and at most lists where lists are expected; fields with a name
and a type; types of four kinds, as deep as one likes, that refer to classes of the
document only.  `WellFormed` says this of a document alone.  `Describes` says which
model a document of this shape describes, part by part.

## Main results

* `Model.exists_describes_iff`: a document describes a model if it is well-formed.
* `Model.Describes.isKey`: the classes that are described have keys.
-/

namespace ClassSchema

namespace Model

/-! ## The documented shape -/

/-- A list among the members of a node, empty where it is left out. -/
def ListMember (members : List (String × Json)) (name : String) (items : List Json) : Prop :=
  OrderedMap.get? members name = none ∧ items = [] ∨
    OrderedMap.get? members name = some (.arr items)

/-- A well-formed type; `names` are those that can be referred to. -/
inductive WellFormedType (names : String → Prop) : Json → Prop
  | name (text : String) : WellFormedType names (.str text)
  | scalar {members : List (String × Json)} {text : String} :
      OrderedMap.get? members "kind" = some (.str "scalar") →
      OrderedMap.get? members "name" = some (.str text) → WellFormedType names (.obj members)
  | array {members : List (String × Json)} {node : Json} :
      OrderedMap.get? members "kind" = some (.str "array") →
      OrderedMap.get? members "element" = some node → WellFormedType names node →
      WellFormedType names (.obj members)
  | parameterized {members : List (String × Json)} {text : String} {nodes : List Json} :
      OrderedMap.get? members "kind" = some (.str "parameterized") →
      OrderedMap.get? members "qualifiedName" = some (.str text) →
      ListMember members "typeArgs" nodes → (∀ node ∈ nodes, WellFormedType names node) →
      WellFormedType names (.obj members)
  | reference {members : List (String × Json)} {text : String} :
      OrderedMap.get? members "kind" = some (.str "class") →
      OrderedMap.get? members "ref" = some (.str text) → names text →
      WellFormedType names (.obj members)

/-- A well-formed field: an object with a name and a type. -/
inductive WellFormedField (names : String → Prop) : Json → Prop
  | intro {members : List (String × Json)} {text : String} {node : Json} :
      OrderedMap.get? members "name" = some (.str text) →
      OrderedMap.get? members "type" = some node → WellFormedType names node →
      WellFormedField names (.obj members)

/-- A well-formed class: an object with a simple name, and with constants and fields in lists. -/
inductive WellFormedClass (names : String → Prop) : Json → Prop
  | intro {members : List (String × Json)} {text : String} {constants nodes : List Json} :
      OrderedMap.get? members "simpleName" = some (.str text) →
      ListMember members "enumConstants" constants → ListMember members "fields" nodes →
      (∀ node ∈ nodes, WellFormedField names node) → WellFormedClass names (.obj members)

/-- The simple name of a class, and its qualified name if that is a text and not empty. -/
def NodeBears (node : Json) (name : String) : Prop :=
  ∃ members, node = .obj members ∧
    (OrderedMap.get? members "simpleName" = some (.str name) ∨
      name ≠ "" ∧ OrderedMap.get? members "qualifiedName" = some (.str name))

/-- A well-formed document: an object with a list of classes.  Classes anywhere in the list can be
referred to. -/
inductive WellFormed : Json → Prop
  | intro {members : List (String × Json)} {nodes : List Json} :
      OrderedMap.get? members "classes" = some (.arr nodes) →
      (∀ node ∈ nodes, WellFormedClass (fun name => ∃ other ∈ nodes, NodeBears other name) node) →
      WellFormed (.obj members)

/-- The qualified name of a class is no list and no object, unless it is empty. -/
def KeyedNode (node : Json) : Prop :=
  ∀ members name, node = .obj members → OrderedMap.get? members "qualifiedName" = some name →
    name.isKey = true ∨ name.truthy = false

/-- No class of a document has a qualified name that is unfit for a key. -/
def Keyed (document : Json) : Prop :=
  ∀ members nodes, document = .obj members →
    OrderedMap.get? members "classes" = some (.arr nodes) → ∀ node ∈ nodes, KeyedNode node

/-! ## What a document describes

`leads` says which class a reference leads to.
-/

/-- The type that a node describes. -/
inductive DescribesType (leads : String → Nat → Prop) : Json → FieldType → Prop
  | name (text : String) : DescribesType leads (.str text) (.scalar text)
  | scalar {members : List (String × Json)} {text : String} :
      OrderedMap.get? members "kind" = some (.str "scalar") →
      OrderedMap.get? members "name" = some (.str text) →
      DescribesType leads (.obj members) (.scalar text)
  | array {members : List (String × Json)} {node : Json} {element : FieldType} :
      OrderedMap.get? members "kind" = some (.str "array") →
      OrderedMap.get? members "element" = some node → DescribesType leads node element →
      DescribesType leads (.obj members) (.array element)
  | parameterized {members : List (String × Json)} {text : String} {nodes : List Json}
      {arguments : List FieldType} :
      OrderedMap.get? members "kind" = some (.str "parameterized") →
      OrderedMap.get? members "qualifiedName" = some (.str text) →
      ListMember members "typeArgs" nodes → List.Forall₂ (DescribesType leads) nodes arguments →
      DescribesType leads (.obj members) (.parameterized text arguments)
  | reference {members : List (String × Json)} {text : String} {number : Nat} :
      OrderedMap.get? members "kind" = some (.str "class") →
      OrderedMap.get? members "ref" = some (.str text) → leads text number →
      DescribesType leads (.obj members) (.reference number)

/-- The field that a node describes. -/
inductive DescribesField (leads : String → Nat → Prop) : Json → Field → Prop
  | intro {members : List (String × Json)} {text : String} {node : Json} {type : FieldType} :
      OrderedMap.get? members "name" = some (.str text) →
      OrderedMap.get? members "type" = some node → DescribesType leads node type →
      DescribesField leads (.obj members) {
        name := text
        type
        docComment := memberOr .null "docComment" members
        isStatic := memberOr (.bool false) "static" members }

/-- The class that a node describes, without its fields. -/
inductive DescribesHeader : Json → Entity → Prop
  | intro {members : List (String × Json)} {text : String} {constants : List Json} :
      OrderedMap.get? members "simpleName" = some (.str text) →
      ListMember members "enumConstants" constants →
      DescribesHeader (.obj members) {
        simpleName := text
        qualifiedName := memberOr .null "qualifiedName" members
        isEnum := memberOr (.bool false) "isEnum" members
        isInterface := memberOr (.bool false) "isInterface" members
        enumConstants := constants
        fields := [] }

/-- The class that a node describes. -/
inductive DescribesClass (leads : String → Nat → Prop) : Json → Entity → Prop
  | intro {members : List (String × Json)} {nodes : List Json} {header : Entity}
      {fields : List Field} :
      DescribesHeader (.obj members) header → ListMember members "fields" nodes →
      List.Forall₂ (DescribesField leads) nodes fields →
      DescribesClass leads (.obj members) { header with fields }

/-- The model that a document describes: its classes in order. -/
inductive Describes : Json → Model → Prop
  | intro {members : List (String × Json)} {nodes : List Json} {model : Model} :
      OrderedMap.get? members "classes" = some (.arr nodes) →
      List.Forall₂ (DescribesClass (Means model)) nodes model → Describes (.obj members) model

/-! ## Types -/

section Types

variable {leads : String → Nat → Prop} {node : Json}

/-- A node that describes a type is well-formed. -/
theorem DescribesType.wellFormedType {type : FieldType} (h : DescribesType leads node type) :
    WellFormedType (fun name => ∃ number, leads name number) node := by
  induction h using DescribesType.rec
    (motive_2 := fun nodes _ _ => ∀ node ∈ nodes,
      WellFormedType (fun name => ∃ number, leads name number) node) with
  | name text => exact .name text
  | scalar hKind hName => exact .scalar hKind hName
  | array hKind hElement _ ih => exact .array hKind hElement ih
  | parameterized hKind hName hArguments _ ih => exact .parameterized hKind hName hArguments ih
  | reference hKind hReference hLeads => exact .reference hKind hReference ⟨_, hLeads⟩
  | nil =>
      rename_i mem
      cases mem
  | cons _ _ ih ihRest =>
      rename_i mem
      rcases List.mem_cons.mp mem with rfl | mem
      · exact ih
      · exact ihRest _ mem

/-- A well-formed node describes a type. -/
theorem WellFormedType.exists_describesType
    (h : WellFormedType (fun name => ∃ number, leads name number) node) :
    ∃ type, DescribesType leads node type := by
  induction h with
  | name text => exact ⟨_, .name text⟩
  | scalar hKind hName => exact ⟨_, .scalar hKind hName⟩
  | array hKind hElement _ ih =>
      obtain ⟨element, hDescribes⟩ := ih
      exact ⟨_, .array hKind hElement hDescribes⟩
  | parameterized hKind hName hArguments _ ih =>
      obtain ⟨arguments, hDescribes⟩ := exists_forall₂ ih
      exact ⟨_, .parameterized hKind hName hArguments hDescribes⟩
  | reference hKind hReference hLeads =>
      obtain ⟨number, hNumber⟩ := hLeads
      exact ⟨_, .reference hKind hReference hNumber⟩

end Types

/-! ## Classes -/

section Classes

variable {leads : String → Nat → Prop} {node : Json} {entity first : Entity}

theorem DescribesHeader.withoutFields_eq (h : DescribesHeader node first) (fields : List Field) :
    { first with fields }.withoutFields = first := by
  cases h
  rfl

/-- A node describes at most one header. -/
theorem DescribesHeader.unique {other : Entity} (h : DescribesHeader node first)
    (h' : DescribesHeader node other) : first = other := by
  obtain ⟨hText, hConstants⟩ := h
  obtain ⟨hText', hConstants'⟩ := h'
  obtain rfl := Json.str.inj (Option.some.inj (hText.symm.trans hText'))
  rcases hConstants with ⟨hNone, rfl⟩ | hFound <;>
    rcases hConstants' with ⟨hNone', rfl⟩ | hFound' <;> simp_all

/-- The header of a class is described with it. -/
theorem DescribesClass.withoutFields (h : DescribesClass leads node entity) :
    DescribesHeader node entity.withoutFields := by
  obtain ⟨hHeader, _, _⟩ := h
  rw [hHeader.withoutFields_eq]
  exact hHeader

/-- The names that classes bear are those that their nodes bear. -/
theorem DescribesHeader.bears_iff {node : Json} {first : Entity} {name : String}
    (h : DescribesHeader node first) : NodeBears node name ↔ Bears first name := by
  cases h with
  | @intro members text constants hText =>
      have hNode : NodeBears (.obj members) name ↔ text = name ∨
          name ≠ "" ∧ OrderedMap.get? members "qualifiedName" = some (.str name) := by
        simp [NodeBears, hText]
      rw [hNode]
      cases hQualified : OrderedMap.get? members "qualifiedName" with
      | none => simp [Bears, Entity.key, memberOr, hQualified, Json.truthy]
      | some value =>
          cases value with
          | str qualified =>
              by_cases hEmpty : qualified = ""
              · simp [Bears, Entity.key, memberOr, hQualified, Json.truthy, hEmpty, eq_comm]
              · simp only [Bears, Entity.key, memberOr, hQualified, Json.truthy]
                grind
          | _ =>
              simp only [Bears, Entity.key, memberOr, hQualified, Option.getD_some]
              split <;> simp

/-- The names that can be referred to are those that references mean something by. -/
theorem exists_nodeBears_iff {nodes : List Json} {headers : List Entity}
    (h : List.Forall₂ DescribesHeader nodes headers) :
    (fun name => ∃ node ∈ nodes, NodeBears node name) =
      fun name => ∃ number, Means headers name number := by
  funext name
  rw [eq_iff_iff, exists_means_iff]
  induction h with
  | nil => simp
  | cons hHeader _ ih => simp [hHeader.bears_iff, ih]

theorem DescribesField.wellFormedField {leads : String → Nat → Prop} {node : Json} {field : Field}
    (h : DescribesField leads node field) :
    WellFormedField (fun name => ∃ number, leads name number) node := by
  obtain ⟨hText, hNode, hType⟩ := h
  exact .intro hText hNode hType.wellFormedType

theorem WellFormedField.exists_describesField {leads : String → Nat → Prop} {node : Json}
    (h : WellFormedField (fun name => ∃ number, leads name number) node) :
    ∃ field, DescribesField leads node field := by
  obtain ⟨hText, hNode, hType⟩ := h
  obtain ⟨type, hDescribes⟩ := hType.exists_describesType
  exact ⟨_, .intro hText hNode hDescribes⟩

theorem DescribesClass.wellFormedClass {leads : String → Nat → Prop} {node : Json} {entity : Entity}
    (h : DescribesClass leads node entity) :
    WellFormedClass (fun name => ∃ number, leads name number) node := by
  obtain ⟨⟨hText, hConstants⟩, hNodes, hFields⟩ := h
  refine .intro hText hConstants hNodes fun node mem => ?_
  obtain ⟨field, hField⟩ := exists_of_forall₂ hFields mem
  exact hField.wellFormedField

theorem WellFormedClass.exists_describesClass {leads : String → Nat → Prop} {node : Json}
    (h : WellFormedClass (fun name => ∃ number, leads name number) node) :
    ∃ entity, DescribesClass leads node entity := by
  obtain ⟨hText, hConstants, hNodes, hFields⟩ := h
  obtain ⟨fields, hDescribes⟩ := exists_forall₂ fun node mem =>
    (hFields node mem).exists_describesField
  exact ⟨_, .intro (.intro hText hConstants) hNodes hDescribes⟩

end Classes

/-! ## Documents -/

/-- **A document describes a model** exactly if it is well-formed. -/
theorem exists_describes_iff {document : Json} :
    (∃ model, Describes document model) ↔ WellFormed document := by
  constructor
  · rintro ⟨model, hNodes, hDescribes⟩
    rename_i members nodes
    have hHeaders : List.Forall₂ DescribesHeader nodes (model.map (·.withoutFields)) := by
      rw [List.forall₂_map_right_iff]
      exact hDescribes.imp fun _ _ hClass => hClass.withoutFields
    refine .intro hNodes fun node mem => ?_
    rw [exists_nodeBears_iff hHeaders, means_withoutFields]
    obtain ⟨entity, hClass⟩ := exists_of_forall₂ hDescribes mem
    exact hClass.wellFormedClass
  · rintro ⟨hNodes, hClasses⟩
    rename_i members nodes
    obtain ⟨headers, hHeaders⟩ : ∃ headers, List.Forall₂ DescribesHeader nodes headers := by
      refine exists_forall₂ fun node mem => ?_
      obtain ⟨hText, hConstants, _, _⟩ := hClasses node mem
      exact ⟨_, .intro hText hConstants⟩
    rw [exists_nodeBears_iff hHeaders] at hClasses
    obtain ⟨model, hDescribes⟩ := exists_forall₂ fun node mem =>
      (hClasses node mem).exists_describesClass
    have hSame : headers = model.map (·.withoutFields) := by
      refine Relator.RightUnique.forall₂ (fun _ _ _ first second => first.unique second) hHeaders ?_
      rw [List.forall₂_map_right_iff]
      exact hDescribes.imp fun _ _ hClass => hClass.withoutFields
    rw [hSame, means_withoutFields] at hDescribes
    exact ⟨model, .intro hNodes hDescribes⟩

/-- A class has a key if its node has none that is unfit. -/
theorem isKey_of_keyedNode {members : List (String × Json)} {entity : Entity}
    (keyed : KeyedNode (.obj members))
    (h : entity.qualifiedName = memberOr .null "qualifiedName" members) :
    entity.key.isKey = true := by
  by_cases hTruthy : entity.qualifiedName.truthy = true
  · rw [Entity.key_eq_qualifiedName hTruthy]
    rw [h] at hTruthy ⊢
    unfold memberOr at hTruthy ⊢
    cases hFound : OrderedMap.get? members "qualifiedName" with
    | none => rfl
    | some value =>
        simp only [hFound, Option.getD_some] at hTruthy ⊢
        exact (keyed members value rfl hFound).resolve_right (by simp [hTruthy])
  · rw [Entity.key_eq_simpleName (by simpa using hTruthy)]
    rfl

/-- The classes that a document describes have keys if none of its nodes has one that is unfit. -/
theorem Describes.isKey {document : Json} {model : Model} (h : Describes document model)
    (keyed : Keyed document) : ∀ entity ∈ model, entity.key.isKey = true := by
  obtain ⟨hNodes, hDescribes⟩ := h
  have hBoth := (List.forall₂_and_left _ _).mpr ⟨keyed _ _ rfl hNodes, hDescribes⟩
  refine (forall₂_and_right (r := DescribesClass (Means model))).mp (hBoth.imp ?_) |>.2
  rintro node entity ⟨hKeyed, hClass⟩
  refine ⟨hClass, ?_⟩
  obtain ⟨⟨_, _⟩, _, _⟩ := hClass
  exact isKey_of_keyedNode hKeyed rfl

end Model

end ClassSchema
