import ClassSchema.Proofs.Model.Reading

/-!
# Where references point

A document may refer to a class anywhere in the type of a field: as the type itself, as the
element of an array in it, or as an argument of a container, and so on.  A place says which
field that is, and which steps lead from its type to the reference.

The model that is read has its references at the same places, and each of them points to the
class that its name means: to the last class that has the name as its key, and only if there
is none, to the first one that is called so.

## Main results

* `Model.DescribesType.exists_points`, `Model.DescribesType.exists_refers`: references
  inside of the type of a field.
* `Model.references_resolved`: all references of a document.
-/

namespace ClassSchema

namespace Model

/-! ## Places -/

/-- A step into a type: to the element of an array, or to an argument of a container. -/
inductive TypeStep where
  | element
  | argument (index : Nat)

/-- Where a type stands in a document or in a model. -/
structure Place where
  /-- The number of a class. -/
  owner : Nat
  /-- The number of one of its fields. -/
  field : Nat
  /-- The steps from the type of the field. -/
  steps : List TypeStep

/-- Steps lead from a type node to a reference by a name. -/
inductive NodeRefers (text : String) : Json → List TypeStep → Prop
  | here {members : List (String × Json)} :
      OrderedMap.get? members "kind" = some (.str "class") →
      OrderedMap.get? members "ref" = some (.str text) → NodeRefers text (.obj members) []
  | element {members : List (String × Json)} {node : Json} {steps : List TypeStep} :
      OrderedMap.get? members "kind" = some (.str "array") →
      OrderedMap.get? members "element" = some node → NodeRefers text node steps →
      NodeRefers text (.obj members) (.element :: steps)
  | argument {members : List (String × Json)} {nodes : List Json} {index : Nat} {node : Json}
      {steps : List TypeStep} :
      OrderedMap.get? members "kind" = some (.str "parameterized") →
      OrderedMap.get? members "typeArgs" = some (.arr nodes) → nodes[index]? = some node →
      NodeRefers text node steps → NodeRefers text (.obj members) (.argument index :: steps)

/-- Steps lead from a type to a reference to a class. -/
inductive TypePoints (number : Nat) : FieldType → List TypeStep → Prop
  | here : TypePoints number (.reference number) []
  | element {element : FieldType} {steps : List TypeStep} :
      TypePoints number element steps → TypePoints number (.array element) (.element :: steps)
  | argument {name : String} {arguments : List FieldType} {index : Nat} {argument : FieldType}
      {steps : List TypeStep} :
      arguments[index]? = some argument → TypePoints number argument steps →
      TypePoints number (.parameterized name arguments) (.argument index :: steps)

/-- A document refers to a class by a name at a place. -/
inductive Refers (text : String) : Json → Place → Prop
  | intro {members ownerMembers fieldMembers : List (String × Json)}
      {nodes fieldNodes : List Json} {node : Json} {place : Place} :
      OrderedMap.get? members "classes" = some (.arr nodes) →
      nodes[place.owner]? = some (.obj ownerMembers) →
      OrderedMap.get? ownerMembers "fields" = some (.arr fieldNodes) →
      fieldNodes[place.field]? = some (.obj fieldMembers) →
      OrderedMap.get? fieldMembers "type" = some node → NodeRefers text node place.steps →
      Refers text (.obj members) place

/-- A model refers to the class with a number at a place. -/
def Points (number : Nat) (model : Model) (place : Place) : Prop :=
  ∃ entity field, model[place.owner]? = some entity ∧ entity.fields[place.field]? = some field ∧
    TypePoints number field.type place.steps

/-! ## Inside of a type -/

namespace ListMember

variable {members : List (String × Json)} {name : String} {items : List Json}

/-- A list that is there is the one that is read. -/
theorem eq_of_arr (h : ListMember members name items) {found : List Json}
    (hFound : OrderedMap.get? members name = some (.arr found)) : items = found := by
  rcases h with ⟨hNone, _⟩ | hSome
  · cases hNone.symm.trans hFound
  · exact Json.arr.inj (Option.some.inj (hSome.symm.trans hFound))

/-- A list with an item in it is there. -/
theorem arr_of_getElem? (h : ListMember members name items) {index : Nat} {item : Json}
    (hItem : items[index]? = some item) : OrderedMap.get? members name = some (.arr items) := by
  rcases h with ⟨_, rfl⟩ | hSome
  · cases hItem
  · exact hSome

end ListMember

section Types

variable {leads : String → Nat → Prop} {node : Json} {type : FieldType} {steps : List TypeStep}

/-- A reference in a type node is one in the type that the node describes. -/
theorem DescribesType.exists_points {text : String} (h : DescribesType leads node type)
    (hRefers : NodeRefers text node steps) :
    ∃ number, TypePoints number type steps ∧ leads text number := by
  induction hRefers generalizing type with
  | here hKind hText =>
      cases h with
      | reference hKind' hText' hLeads =>
          obtain rfl := Json.str.inj (Option.some.inj (hText.symm.trans hText'))
          exact ⟨_, .here, hLeads⟩
      | _ => simp_all
  | element hKind hElement _ ih =>
      cases h with
      | array hKind' hElement' hDescribes =>
          obtain rfl := Option.some.inj (hElement.symm.trans hElement')
          obtain ⟨number, hPoints, hLeads⟩ := ih hDescribes
          exact ⟨number, .element hPoints, hLeads⟩
      | _ => simp_all
  | @argument members nodes index inner _ hKind hNodes hNode _ ih =>
      cases h with
      | parameterized hKind' hName hList hDescribes =>
          obtain rfl := hList.eq_of_arr hNodes
          obtain ⟨argument, hArgument, hInner⟩ := exists_result hDescribes hNode
          obtain ⟨number, hPoints, hLeads⟩ := ih hInner
          exact ⟨number, .argument hArgument hPoints, hLeads⟩
      | _ => simp_all

/-- A reference in a type that a node describes is one in the node. -/
theorem DescribesType.exists_refers {number : Nat} (h : DescribesType leads node type)
    (hPoints : TypePoints number type steps) :
    ∃ text, NodeRefers text node steps ∧ leads text number := by
  induction hPoints generalizing node with
  | here =>
      cases h with
      | reference hKind hText hLeads => exact ⟨_, .here hKind hText, hLeads⟩
  | element _ ih =>
      cases h with
      | array hKind hElement hDescribes =>
          obtain ⟨text, hRefers, hLeads⟩ := ih hDescribes
          exact ⟨text, .element hKind hElement hRefers, hLeads⟩
  | @argument name arguments index argument _ hArgument _ ih =>
      cases h with
      | parameterized hKind hName hList hDescribes =>
          obtain ⟨inner, hInner, hNode⟩ := exists_item hDescribes hArgument
          obtain ⟨text, hRefers, hLeads⟩ := ih hNode
          exact ⟨text, .argument hKind (hList.arr_of_getElem? hInner) hInner hRefers, hLeads⟩

/-- Steps lead to one reference at most. -/
theorem TypePoints.unique {number other : Nat} (h : TypePoints number type steps)
    (h' : TypePoints other type steps) : number = other := by
  induction h with
  | here =>
      cases h'
      rfl
  | element _ ih =>
      cases h' with
      | element hPoints => exact ih hPoints
  | argument hArgument _ ih =>
      cases h' with
      | argument hArgument' hPoints =>
          obtain rfl := Option.some.inj (hArgument.symm.trans hArgument')
          exact ih hPoints

end Types

theorem Points.unique {number other : Nat} {model : Model} {place : Place}
    (h : Points number model place) (h' : Points other model place) : number = other := by
  obtain ⟨entity, field, hEntity, hField, hPoints⟩ := h
  obtain ⟨entity', field', hEntity', hField', hPoints'⟩ := h'
  obtain rfl := Option.some.inj (hEntity.symm.trans hEntity')
  obtain rfl := Option.some.inj (hField.symm.trans hField')
  exact hPoints.unique hPoints'

/-! ## In a document -/

/-- The key of a class as its node tells it: the qualified name, or the simple name where that one
is missing or counts as false. -/
def nodeKey (members : List (String × Json)) : Json :=
  let name := memberOr .null "qualifiedName" members
  if name.truthy then name else memberOr .null "simpleName" members

/-- A class has the key and the simple name that its node tells. -/
inductive IsNamedBy : Json → Entity → Prop
  | intro {members : List (String × Json)} {entity : Entity} :
      entity.key = nodeKey members →
      OrderedMap.get? members "simpleName" = some (.str entity.simpleName) →
      IsNamedBy (.obj members) entity

/-- What becomes of the references of a document. -/
structure ResolvesReferences (nodes : List Json) (document : Json) (model : Model) : Prop where
  /-- The classes are those of the document, in order and under their names. -/
  named : List.Forall₂ IsNamedBy nodes model
  /-- A reference points to the class that its name means. -/
  points : ∀ text place, Refers text document place →
    ∃ number, Points number model place ∧ Means model text number
  /-- Every reference of the model is one of the document. -/
  refers : ∀ number place, Points number model place →
    ∃ text, Refers text document place ∧ Means model text number
  /-- It points to a class of the model. -/
  listed : ∀ number place, Points number model place → number < model.length
  /-- Where the name is the key of a class, it does not point to another one that is called so. -/
  keyed : ∀ text number place, Refers text document place → Points number model place →
    (∃ entity ∈ model, entity.key = .str text) →
    ∃ entity, model[number]? = some entity ∧ entity.key = .str text

section Documents

variable {node document : Json} {entity : Entity} {model : Model}

/-- A class has the names that its node tells. -/
theorem DescribesClass.isNamedBy {leads : String → Nat → Prop}
    (h : DescribesClass leads node entity) : IsNamedBy node entity := by
  obtain ⟨⟨hText, _⟩, _, _⟩ := h
  refine .intro ?_ hText
  simp only [Entity.key, nodeKey, memberOr, hText, Option.getD_some]
  rfl

/-- What a name means that is the key of a class has this key. -/
theorem Means.key_eq {text : String} {number : Nat} (h : Means model text number)
    (hKey : ∃ entity ∈ model, entity.key = .str text) :
    ∃ entity, model[number]? = some entity ∧ entity.key = .str text := by
  obtain ⟨keyed, mem, hKeyed⟩ := hKey
  cases h with
  | byKey hFound hSame _ => exact ⟨_, hFound, hSame⟩
  | bySimpleName _ _ _ noKey => exact absurd hKeyed (noKey keyed mem)

/-- The references of a document are among those of the model that it describes. -/
theorem Describes.exists_points (h : Describes document model) {text : String} {place : Place}
    (hRefers : Refers text document place) :
    ∃ number, Points number model place ∧ Means model text number := by
  obtain ⟨hNodes, hOwner, hFields, hField, hType, hNode⟩ := hRefers
  obtain ⟨hNodes', hDescribes⟩ := h
  obtain rfl := Json.arr.inj (Option.some.inj (hNodes.symm.trans hNodes'))
  obtain ⟨entity, hEntity, hClass⟩ := exists_result hDescribes hOwner
  obtain ⟨_, hList, hEach⟩ := hClass
  obtain rfl := hList.eq_of_arr hFields
  obtain ⟨field, hFound, hDescribed⟩ := exists_result hEach hField
  obtain ⟨_, hType', hInner⟩ := hDescribed
  obtain rfl := Option.some.inj (hType.symm.trans hType')
  obtain ⟨number, hPoints, hMeans⟩ := hInner.exists_points hNode
  exact ⟨number, ⟨_, _, hEntity, hFound, hPoints⟩, hMeans⟩

/-- The references of a model are among those of a document that describes it. -/
theorem Describes.exists_refers (h : Describes document model) {number : Nat} {place : Place}
    (hPoints : Points number model place) :
    ∃ text, Refers text document place ∧ Means model text number := by
  obtain ⟨entity, field, hEntity, hField, hType⟩ := hPoints
  obtain ⟨hNodes, hDescribes⟩ := h
  obtain ⟨owner, hOwner, hClass⟩ := exists_item hDescribes hEntity
  obtain ⟨_, hList, hEach⟩ := hClass
  obtain ⟨inner, hInner, hDescribed⟩ := exists_item hEach hField
  obtain ⟨_, hNode, hNodeType⟩ := hDescribed
  obtain ⟨text, hRefers, hMeans⟩ := hNodeType.exists_refers hType
  exact ⟨text, .intro hNodes hOwner (hList.arr_of_getElem? hInner) hInner hNode hRefers, hMeans⟩

/-- **Every reference of a document that is read points to the class that its name means**, however
deep it is in the type of a field: to the last class with this key or, without one, to the first
class with this simple name.  The model refers to classes nowhere else. -/
theorem references_resolved (h : ofDocument document = .ok model) :
    ∃ members nodes, document = .obj members ∧
      OrderedMap.get? members "classes" = some (.arr nodes) ∧
      ResolvesReferences nodes document model := by
  obtain ⟨hDescribes, _⟩ := ofDocument_eq_ok_iff.mp h
  obtain ⟨members, nodes, rfl, hNodes, hClasses⟩ : ∃ members nodes, document = .obj members ∧
      OrderedMap.get? members "classes" = some (.arr nodes) ∧
      List.Forall₂ (DescribesClass (Means model)) nodes model := by
    obtain ⟨hNodes, hClasses⟩ := hDescribes
    exact ⟨_, _, rfl, hNodes, hClasses⟩
  refine ⟨members, nodes, rfl, hNodes, ?_⟩
  constructor
  · exact hClasses.imp fun _ _ hClass => hClass.isNamedBy
  · exact fun text place hRefers => hDescribes.exists_points hRefers
  · exact fun number place hPoints => hDescribes.exists_refers hPoints
  · intro number place hPoints
    obtain ⟨text, _, hMeans⟩ := hDescribes.exists_refers hPoints
    exact hMeans.lt_length
  · intro text number place hRefers hPoints hKey
    obtain ⟨other, hOther, hMeans⟩ := hDescribes.exists_points hRefers
    obtain rfl := hPoints.unique hOther
    exact hMeans.key_eq hKey

end Documents

/-! ### A simple name that is the key of another class -/

/-- A class called `Node` with an array of references by this name, a class with the key `Node` and
a map that refers to `Leaf`, and two classes that are called so. -/
def leafDocument : Json :=
  .obj [("classes", .arr [
    .obj [("qualifiedName", .str "a.Node"), ("simpleName", .str "Node"), ("fields", .arr [
      .obj [("name", .str "next"), ("type", .obj [("kind", .str "array"),
        ("element", .obj [("kind", .str "class"), ("ref", .str "Node")])])]])],
    .obj [("qualifiedName", .str "Node"), ("simpleName", .str "Leaf"), ("fields", .arr [
      .obj [("name", .str "links"), ("type", .obj [("kind", .str "parameterized"),
        ("qualifiedName", .str "java.util.Map"), ("typeArgs", .arr [.str "java.lang.String",
          .obj [("kind", .str "class"), ("ref", .str "Leaf")]])])]])],
    .obj [("qualifiedName", .str "b.Leaf"), ("simpleName", .str "Leaf")]])]

/-- The classes of the document. -/
def leafModel : Model :=
  [⟨"Node", .str "a.Node", .bool false, .bool false, [],
     [⟨"next", .array (.reference 1), .null, .bool false⟩]⟩,
   ⟨"Leaf", .str "Node", .bool false, .bool false, [],
     [⟨"links", .parameterized "java.util.Map" [.scalar "java.lang.String", .reference 1], .null,
       .bool false⟩]⟩,
   ⟨"Leaf", .str "b.Leaf", .bool false, .bool false, [], []⟩]

private theorem ofDocument_leafDocument : ofDocument leafDocument = .ok leafModel := by
  have node : Means leafModel "Node" 1 :=
    get?_numbersOf_eq_some_iff.mp (by decide)
  have leaf : Means leafModel "Leaf" 1 :=
    get?_numbersOf_eq_some_iff.mp (by decide)
  refine ofDocument_eq_ok_iff.mpr ⟨.intro rfl (.cons ?_ (.cons ?_ (.cons ?_ .nil))), by decide⟩
  · refine .intro (.intro rfl (.inl ⟨rfl, rfl⟩)) (.inr rfl) (.cons ?_ .nil)
    exact .intro rfl rfl (.array rfl rfl (.reference rfl rfl node))
  · refine .intro (.intro rfl (.inl ⟨rfl, rfl⟩)) (.inr rfl) (.cons ?_ .nil)
    refine .intro rfl rfl (.parameterized rfl rfl (.inr rfl) (.cons (.name _) (.cons ?_ .nil)))
    exact .reference rfl rfl leaf
  · exact .intro (.intro rfl (.inl ⟨rfl, rfl⟩)) (.inl ⟨rfl, rfl⟩) .nil

/-- The array does not refer to the class that is called `Node` but to the one with this key, and
the map to the first of the classes that are called `Leaf`. -/
theorem references_of_leafDocument :
    ofDocument leafDocument = .ok leafModel ∧
      (∃ number entity, Points number leafModel ⟨0, 0, [.element]⟩ ∧
        leafModel[number]? = some entity ∧ entity.key = .str "Node") ∧
      ∃ number, Points number leafModel ⟨1, 0, [.argument 1]⟩ ∧ Means leafModel "Leaf" number := by
  obtain ⟨members, nodes, -, -, resolves⟩ := references_resolved ofDocument_leafDocument
  have hNode : Refers "Node" leafDocument ⟨0, 0, [.element]⟩ :=
    .intro rfl rfl rfl rfl rfl (.element rfl rfl (.here rfl rfl))
  have hLeaf : Refers "Leaf" leafDocument ⟨1, 0, [.argument 1]⟩ :=
    .intro rfl rfl rfl rfl rfl (.argument rfl rfl rfl (.here rfl rfl))
  obtain ⟨number, hPoints, _⟩ := resolves.points _ _ hNode
  obtain ⟨entity, hEntity, hKey⟩ :=
    resolves.keyed _ _ _ hNode hPoints ⟨_, List.mem_cons_of_mem _ List.mem_cons_self, rfl⟩
  exact ⟨ofDocument_leafDocument, ⟨number, entity, hPoints, hEntity, hKey⟩,
    resolves.points _ _ hLeaf⟩

end Model

end ClassSchema
