import ClassSchema.Proofs.Model.Shape
import ClassSchema.Proofs.Results

/-!
# Reading a document

Reading accepts exactly the well-formed documents, and the model that is read is the one
that is described.  A qualified name that is a list or an object and not empty is the one
thing that reading refuses though the shape does not exclude it, since it is unfit for a
key.

## Main results

* `Model.typeOf_eq_ok_iff`: the type that is read from a node.
* `Model.ofDocument_eq_ok_iff`: the model that is read from a document.
* `Model.FailsByShape.ofDocument`: a document is refused only for its shape.
* `Model.ofDocument_outcome`: reading accepts the well-formed documents and no others.
-/

namespace ClassSchema

namespace Model

/-! ## Reading members -/

section Members

variable {part : Part} {member text : String} {members : List (String × Json)}

theorem membersOf_eq_ok_iff {node : Json} :
    membersOf part node = .ok members ↔ node = .obj members := by
  cases node <;> simp [membersOf]

theorem requiredText_eq_ok_iff :
    requiredText part member members = .ok text ↔
      OrderedMap.get? members member = some (.str text) := by
  unfold requiredText required
  cases OrderedMap.get? members member with
  | none => simp
  | some value => cases value <;> simp

theorem optionalList_eq_ok_iff {items : List Json} :
    optionalList part member members = .ok items ↔ ListMember members member items := by
  unfold optionalList ListMember
  cases OrderedMap.get? members member with
  | none => simp [eq_comm]
  | some value => cases value <;> simp

/-- A node that can describe a type is a name or an object. -/
def IsNameOrObject (node : Json) : Prop :=
  (∃ text, node = .str text) ∨ ∃ members, node = .obj members

theorem requiredType_eq_ok_iff {node : Json} :
    requiredType part member members = .ok node ↔
      OrderedMap.get? members member = some node ∧ IsNameOrObject node := by
  unfold requiredType required IsNameOrObject
  cases OrderedMap.get? members member with
  | none => simp
  | some value => cases value <;> simp <;> grind

theorem memberOr_eq_str_iff :
    memberOr .null member members = .str text ↔
      OrderedMap.get? members member = some (.str text) := by
  unfold memberOr
  cases OrderedMap.get? members member <;> simp

end Members

/-! ## Equations -/

section Equations

variable (numbers : OrderedMap Nat) {members : List (String × Json)}

theorem typeOf_name (text : String) : typeOf numbers (.str text) = .ok (.scalar text) := by
  rw [typeOf]

theorem typeOf_scalar (h : OrderedMap.get? members "kind" = some (.str "scalar")) :
    typeOf numbers (.obj members) = (requiredText .scalarType "name" members).map .scalar := by
  rw [typeOf]
  simp only [memberOr, h, Option.getD_some]

theorem typeOf_array (h : OrderedMap.get? members "kind" = some (.str "array")) :
    typeOf numbers (.obj members) =
      (requiredType .arrayType "element" members >>= typeOf numbers).map .array := by
  rw [typeOf]
  simp only [memberOr, h, Option.getD_some, requiredType, required]
  split <;> simp [*, bind, Except.bind, typeOf_name, Except.map]

theorem typesOf_eq_mapM (nodes : List Json) :
    typesOf numbers nodes = nodes.mapM (typeOf numbers) := by
  induction nodes with
  | nil =>
      rw [typesOf]
      rfl
  | cons node rest ih =>
      rw [typesOf, List.mapM_cons, ih]
      cases typeOf numbers node with
      | error e => rfl
      | ok type => cases rest.mapM (typeOf numbers) <;> rfl

theorem typeOf_parameterized (h : OrderedMap.get? members "kind" = some (.str "parameterized")) :
    typeOf numbers (.obj members) = (do
      let name ← requiredText .parameterizedType "qualifiedName" members
      let nodes ← optionalList .parameterizedType "typeArgs" members
      (nodes.mapM (typeOf numbers)).map (.parameterized name)) := by
  rw [typeOf]
  simp only [memberOr, h, Option.getD_some, optionalList, typesOf_eq_mapM]
  cases requiredText .parameterizedType "qualifiedName" members with
  | error e => rfl
  | ok name =>
      dsimp only [bind, Except.bind]
      split <;> simp [*, Except.map, pure, Except.pure]

theorem typeOf_class (h : OrderedMap.get? members "kind" = some (.str "class")) :
    typeOf numbers (.obj members) = (do
      let reference ← requiredText .classType "ref" members
      match numbers.get? reference with
      | some number => .ok (.reference number)
      | none => .error (.unknownClass reference)) := by
  rw [typeOf]
  simp only [memberOr, h, Option.getD_some]
  cases requiredText .classType "ref" members <;> rfl

theorem typeOf_other (other : ∀ kind, OrderedMap.get? members "kind" = some (.str kind) →
      kind ∉ ["scalar", "array", "parameterized", "class"]) :
    typeOf numbers (.obj members) = .error (.unknownKind (memberOr .null "kind" members)) := by
  rw [typeOf]
  split
  case h_5 => rfl
  all_goals
    next hKind => simpa using other _ (memberOr_eq_str_iff.mp hKind)

theorem typeOf_neither {node : Json} (h : ¬ IsNameOrObject node) :
    typeOf numbers node = .error (.unexpectedType node) := by
  rw [typeOf]
  · exact fun text hText => h (.inl ⟨text, hText⟩)
  · exact fun members hMembers => h (.inr ⟨members, hMembers⟩)

end Equations

/-- A type node is a name, an object of one of four kinds, or nothing that is known.  The types
inside it come first. -/
@[elab_as_elim]
theorem typeNode_induction {motive : Json → Prop} (name : ∀ text, motive (.str text))
    (scalar : ∀ members, OrderedMap.get? members "kind" = some (.str "scalar") →
      motive (.obj members))
    (array : ∀ members, OrderedMap.get? members "kind" = some (.str "array") →
      (∀ node, OrderedMap.get? members "element" = some node → motive node) →
      motive (.obj members))
    (parameterized : ∀ members, OrderedMap.get? members "kind" = some (.str "parameterized") →
      (∀ nodes, ListMember members "typeArgs" nodes → ∀ node ∈ nodes, motive node) →
      motive (.obj members))
    (reference : ∀ members, OrderedMap.get? members "kind" = some (.str "class") →
      motive (.obj members))
    (other : ∀ members, (∀ kind, OrderedMap.get? members "kind" = some (.str kind) →
      kind ∉ ["scalar", "array", "parameterized", "class"]) → motive (.obj members))
    (neither : ∀ node, ¬ IsNameOrObject node → motive node) (node : Json) : motive node := by
  -- the types inside a node are found among its members, so they are smaller than the node
  induction hSize : sizeOf node using Nat.strongRecOn generalizing node with
  | _ size ih =>
      cases node with
      | str text => exact name text
      | obj members =>
          have hMembers : sizeOf members < size := by
            rw [← hSize]
            simp
          by_cases hScalar : OrderedMap.get? members "kind" = some (.str "scalar")
          · exact scalar members hScalar
          by_cases hArray : OrderedMap.get? members "kind" = some (.str "array")
          · refine array members hArray fun inner hElement => ih _ ?_ inner rfl
            exact Nat.lt_trans (sizeOf_lt_of_get? hElement) hMembers
          by_cases hParameterized :
              OrderedMap.get? members "kind" = some (.str "parameterized")
          · refine parameterized members hParameterized fun nodes hNodes inner mem => ?_
            refine ih _ ?_ inner rfl
            rcases hNodes with ⟨_, rfl⟩ | hFound
            · cases mem
            · have hItem := List.sizeOf_lt_of_mem mem
              have hList := sizeOf_lt_of_get? hFound
              simp at hList
              omega
          by_cases hClass : OrderedMap.get? members "kind" = some (.str "class")
          · exact reference members hClass
          · refine other members fun kind hKind => ?_
            simp_all
      | _ => exact neither _ (by simp [IsNameOrObject])

/-! ## Types -/

section Types

variable {leads : String → Nat → Prop} {node : Json}

theorem DescribesType.isNameOrObject {type : FieldType} (h : DescribesType leads node type) :
    IsNameOrObject node := by
  cases h with
  | name text => exact .inl ⟨text, rfl⟩
  | _ => exact .inr ⟨_, rfl⟩

variable {numbers : OrderedMap Nat}
  (table : ∀ name number, numbers.get? name = some number ↔ leads name number)

include table in
/-- What is read from a node is the type that it describes. -/
theorem describesType_of_typeOf {type : FieldType} (h : typeOf numbers node = .ok type) :
    DescribesType leads node type := by
  induction node using typeNode_induction generalizing type with
  | name text =>
      rw [typeOf_name] at h
      cases h
      exact .name text
  | scalar members hKind =>
      rw [typeOf_scalar numbers hKind, map_eq_ok_iff] at h
      obtain ⟨text, hText, rfl⟩ := h
      exact .scalar hKind (requiredText_eq_ok_iff.mp hText)
  | array members hKind ih =>
      rw [typeOf_array numbers hKind, map_eq_ok_iff] at h
      obtain ⟨element, hElement, rfl⟩ := h
      obtain ⟨node, hNode, hType⟩ := bind_eq_ok_iff.mp hElement
      have hFound := (requiredType_eq_ok_iff.mp hNode).1
      exact .array hKind hFound (ih node hFound hType)
  | parameterized members hKind ih =>
      rw [typeOf_parameterized numbers hKind] at h
      obtain ⟨text, hText, h⟩ := bind_eq_ok_iff.mp h
      obtain ⟨nodes, hNodes, h⟩ := bind_eq_ok_iff.mp h
      obtain ⟨arguments, hArguments, rfl⟩ := map_eq_ok_iff.mp h
      have hList := optionalList_eq_ok_iff.mp hNodes
      have hRead := (List.forall₂_and_left _ _).mpr ⟨ih nodes hList, mapM_eq_ok_iff.mp hArguments⟩
      exact .parameterized hKind (requiredText_eq_ok_iff.mp hText) hList
        (hRead.imp fun _ _ hBoth => hBoth.1 hBoth.2)
  | reference members hKind =>
      rw [typeOf_class numbers hKind] at h
      obtain ⟨text, hText, h⟩ := bind_eq_ok_iff.mp h
      cases hNumber : numbers.get? text with
      | none => simp [hNumber] at h
      | some number =>
          obtain rfl : FieldType.reference number = type := by simpa [hNumber] using h
          exact .reference hKind (requiredText_eq_ok_iff.mp hText) ((table text number).mp hNumber)
  | other members hOther =>
      rw [typeOf_other numbers hOther] at h
      cases h
  | neither node hNeither =>
      rw [typeOf_neither numbers hNeither] at h
      cases h

include table in
/-- **The type that is read from a node** is the one that it describes. -/
theorem typeOf_eq_ok_iff {type : FieldType} :
    typeOf numbers node = .ok type ↔ DescribesType leads node type := by
  refine ⟨describesType_of_typeOf table, fun h => ?_⟩
  induction h using DescribesType.rec
    (motive_2 := fun nodes types _ =>
      List.Forall₂ (fun node type => typeOf numbers node = .ok type) nodes types) with
  | name text => exact typeOf_name numbers text
  | scalar hKind hName =>
      rw [typeOf_scalar numbers hKind, requiredText_eq_ok_iff.mpr hName]
      rfl
  | array hKind hElement hDescribes ih =>
      rw [typeOf_array numbers hKind,
        requiredType_eq_ok_iff.mpr ⟨hElement, hDescribes.isNameOrObject⟩]
      exact map_eq_ok_iff.mpr ⟨_, ih, rfl⟩
  | parameterized hKind hName hArguments _ ih =>
      rw [typeOf_parameterized numbers hKind, requiredText_eq_ok_iff.mpr hName,
        optionalList_eq_ok_iff.mpr hArguments]
      exact map_eq_ok_iff.mpr ⟨_, mapM_eq_ok_iff.mpr ih, rfl⟩
  | reference hKind hReference hLeads =>
      rw [typeOf_class numbers hKind, requiredText_eq_ok_iff.mpr hReference]
      simp [bind, Except.bind, (table _ _).mpr hLeads]
  | nil => exact .nil
  | cons _ _ ih ihRest => exact .cons ih ihRest

include table in
/-- The field that is read from a node is the one that it describes. -/
theorem fieldOf_eq_ok_iff {field : Field} :
    fieldOf numbers node = .ok field ↔ DescribesField leads node field := by
  simp only [fieldOf, bind_eq_ok_iff, membersOf_eq_ok_iff, requiredText_eq_ok_iff,
    requiredType_eq_ok_iff, typeOf_eq_ok_iff table]
  constructor
  · rintro ⟨members, rfl, text, hText, inner, ⟨hInner, _⟩, type, hType, hField⟩
    obtain rfl := Except.ok.inj hField
    exact .intro hText hInner hType
  · rintro ⟨hText, hInner, hType⟩
    exact ⟨_, rfl, _, hText, _, ⟨hInner, hType.isNameOrObject⟩, _, hType, rfl⟩

end Types

/-! ## Classes -/

section Classes

variable {leads : String → Nat → Prop} {node : Json} {entity first : Entity}

/-- The first pass reads the header of a class that has a key. -/
theorem header_eq_ok_iff :
    header node = .ok first ↔ DescribesHeader node first ∧ first.key.isKey = true := by
  simp only [header, bind_eq_ok_iff, membersOf_eq_ok_iff, requiredText_eq_ok_iff,
    optionalList_eq_ok_iff]
  constructor
  · rintro ⟨members, rfl, text, hText, constants, hConstants, hHeader⟩
    split at hHeader
    · next hKey =>
        obtain rfl := Except.ok.inj hHeader
        exact ⟨.intro hText hConstants, hKey⟩
    · cases hHeader
  · rintro ⟨⟨hText, hConstants⟩, hKey⟩
    exact ⟨_, rfl, _, hText, _, hConstants, if_pos hKey⟩

/-- The second pass reads the fields of a class. -/
theorem complete_eq_ok_iff {numbers : OrderedMap Nat}
    (table : ∀ name number, numbers.get? name = some number ↔ leads name number) :
    complete numbers first node = .ok entity ↔ ∃ members nodes fields, node = .obj members ∧
      ListMember members "fields" nodes ∧ List.Forall₂ (DescribesField leads) nodes fields ∧
      entity = { first with fields } := by
  simp only [complete, bind_eq_ok_iff, membersOf_eq_ok_iff, optionalList_eq_ok_iff, mapM_eq_ok_iff,
    fieldOf_eq_ok_iff table]
  constructor
  · rintro ⟨members, rfl, nodes, hNodes, fields, hFields, hEntity⟩
    exact ⟨members, nodes, fields, rfl, hNodes, hFields, (Except.ok.inj hEntity).symm⟩
  · rintro ⟨members, nodes, fields, rfl, hNodes, hFields, rfl⟩
    exact ⟨members, rfl, nodes, hNodes, fields, hFields, rfl⟩

/-- **Both passes together read the class that a node describes**, if it has a key. -/
theorem header_complete_iff {numbers : OrderedMap Nat}
    (table : ∀ name number, numbers.get? name = some number ↔ leads name number) :
    header node = .ok first ∧ complete numbers first node = .ok entity ↔
      (DescribesClass leads node entity ∧ entity.key.isKey = true) ∧
        first = entity.withoutFields := by
  rw [header_eq_ok_iff, complete_eq_ok_iff table]
  constructor
  · rintro ⟨⟨hHeader, hKey⟩, members, nodes, fields, rfl, hNodes, hFields, rfl⟩
    exact ⟨⟨.intro hHeader hNodes hFields, hKey⟩, (hHeader.withoutFields_eq fields).symm⟩
  · rintro ⟨⟨hClass, hKey⟩, rfl⟩
    refine ⟨⟨hClass.withoutFields, hKey⟩, ?_⟩
    obtain ⟨hHeader, hNodes, hFields⟩ := hClass
    rw [hHeader.withoutFields_eq]
    exact ⟨_, _, _, rfl, hNodes, hFields, rfl⟩

/-- The classes of a list are read in two passes. -/
theorem passes_iff {numbers : OrderedMap Nat}
    (table : ∀ name number, numbers.get? name = some number ↔ leads name number)
    {nodes : List Json} {headers model : List Entity} :
    nodes.mapM header = .ok headers ∧
      (headers.zip nodes).mapM (fun entry => complete numbers entry.1 entry.2) = .ok model ↔
    List.Forall₂ (fun node entity => DescribesClass leads node entity ∧ entity.key.isKey = true)
      nodes model ∧ headers = model.map (·.withoutFields) := by
  simp only [mapM_eq_ok_iff]
  -- both passes go over the same nodes, so the induction takes one node off each of them
  induction nodes generalizing headers model with
  | nil =>
      constructor
      · rintro ⟨⟨⟩, ⟨⟩⟩
        exact ⟨.nil, rfl⟩
      · rintro ⟨⟨⟩, rfl⟩
        exact ⟨.nil, .nil⟩
  | cons node rest ih =>
      constructor
      · rintro ⟨_ | ⟨hHeader, hHeaders⟩, hModel⟩
        rw [List.zip_cons_cons] at hModel
        obtain _ | ⟨hComplete, hCompletes⟩ := hModel
        obtain ⟨hClass, rfl⟩ := (header_complete_iff table).mp ⟨hHeader, hComplete⟩
        obtain ⟨hClasses, rfl⟩ := ih.mp ⟨hHeaders, hCompletes⟩
        exact ⟨.cons hClass hClasses, rfl⟩
      · rintro ⟨_ | ⟨hClass, hClasses⟩, rfl⟩
        obtain ⟨hHeader, hComplete⟩ := (header_complete_iff table).mpr ⟨hClass, rfl⟩
        obtain ⟨hHeaders, hCompletes⟩ := ih.mpr ⟨hClasses, rfl⟩
        exact ⟨.cons hHeader hHeaders, .cons hComplete hCompletes⟩

end Classes

/-! ## Documents -/

section Documents

variable {document : Json} {model : Model}

theorem ofDocument_classes {members : List (String × Json)} {nodes : List Json}
    (h : OrderedMap.get? members "classes" = some (.arr nodes)) :
    ofDocument (.obj members) = (do
      let headers ← nodes.mapM header
      (headers.zip nodes).mapM fun entry => complete (numbersOf headers) entry.1 entry.2) := by
  simp only [ofDocument, h]

theorem ofDocument_noClasses (h : ∀ members nodes, document = .obj members →
      OrderedMap.get? members "classes" ≠ some (.arr nodes)) :
    ofDocument document = .error .noClasses := by
  unfold ofDocument
  split
  · next members =>
      split
      · next nodes hFound => exact absurd hFound (h members nodes rfl)
      · rfl
  · rfl

/-- **The model that is read from a document** is the one that it describes, if all classes have
keys. -/
theorem ofDocument_eq_ok_iff :
    ofDocument document = .ok model ↔
      Describes document model ∧ ∀ entity ∈ model, entity.key.isKey = true := by
  constructor
  · intro h
    by_cases hClasses : ∃ members nodes, document = .obj members ∧
        OrderedMap.get? members "classes" = some (.arr nodes)
    · obtain ⟨members, nodes, rfl, hNodes⟩ := hClasses
      rw [ofDocument_classes hNodes] at h
      obtain ⟨headers, hHeaders, hModel⟩ := bind_eq_ok_iff.mp h
      obtain ⟨hRead, rfl⟩ :=
        (passes_iff fun _ _ => get?_numbersOf_eq_some_iff).mp ⟨hHeaders, hModel⟩
      rw [means_withoutFields] at hRead
      obtain ⟨hDescribes, hKeys⟩ := forall₂_and_right.mp hRead
      exact ⟨.intro hNodes hDescribes, hKeys⟩
    · rw [ofDocument_noClasses fun members nodes hMembers hNodes =>
        hClasses ⟨members, nodes, hMembers, hNodes⟩] at h
      cases h
  · rintro ⟨⟨hNodes, hDescribes⟩, hKeys⟩
    rw [ofDocument_classes hNodes]
    refine bind_eq_ok_iff.mpr ⟨model.map (·.withoutFields), ?_⟩
    have table : ∀ name number, (numbersOf (model.map (·.withoutFields))).get? name = some number ↔
        Means model name number := by
      simp only [get?_numbersOf_eq_some_iff, means_withoutFields, implies_true]
    exact (passes_iff table).mpr ⟨forall₂_and_right.mpr ⟨hDescribes, hKeys⟩, rfl⟩

end Documents

/-! ## Failures -/

/-- Whether an error says that a document is out of shape.  The other one says that a name is unfit
for a key. -/
def DocumentError.concernsShape : DocumentError → Bool
  | noKey _ => false
  | _ => true

/-- A reading fails only where something is out of shape. -/
def FailsByShape {α : Type} (result : Except DocumentError α) : Prop :=
  ∀ error, result = .error error → error.concernsShape = true

namespace FailsByShape

variable {α β : Type}

theorem ok (value : α) : FailsByShape (.ok value) := by
  intro error h
  cases h

theorem error {found : DocumentError} (h : found.concernsShape = true) :
    FailsByShape (.error found : Except DocumentError α) := by
  intro error hError
  cases hError
  exact h

/-- A step and what follows on it. -/
theorem bind {result : Except DocumentError α} {next : α → Except DocumentError β}
    (first : FailsByShape result)
    (second : ∀ value, result = .ok value → FailsByShape (next value)) :
    FailsByShape (result >>= next) := by
  cases result with
  | error found => exact .error (first found rfl)
  | ok value => exact second value rfl

theorem map {result : Except DocumentError α} (f : α → β) (h : FailsByShape result) :
    FailsByShape (result.map f) := by
  cases result with
  | error found => exact .error (h found rfl)
  | ok value => exact .ok _

theorem mapM {read : α → Except DocumentError β} {items : List α}
    (h : ∀ item ∈ items, FailsByShape (read item)) : FailsByShape (items.mapM read) := by
  induction items with
  | nil => exact .ok []
  | cons item rest ih =>
      rw [List.mapM_cons]
      refine (h item (by simp)).bind fun first _ => ?_
      exact (ih fun other mem => h other (by simp [mem])).bind fun others _ => .ok _

theorem membersOf (part : Part) (node : Json) : FailsByShape (membersOf part node) := by
  cases node with
  | obj members => exact .ok members
  | _ => exact .error rfl

theorem requiredText (part : Part) (member : String) (members : List (String × Json)) :
    FailsByShape (requiredText part member members) := by
  unfold Model.requiredText required
  cases OrderedMap.get? members member with
  | none => exact .error rfl
  | some value =>
      cases value with
      | str text => exact .ok text
      | _ => exact .error rfl

theorem requiredType (part : Part) (member : String) (members : List (String × Json)) :
    FailsByShape (requiredType part member members) := by
  unfold Model.requiredType required
  cases OrderedMap.get? members member with
  | none => exact .error rfl
  | some value =>
      cases value with
      | str text => exact .ok _
      | obj inner => exact .ok _
      | _ => exact .error rfl

theorem optionalList (part : Part) (member : String) (members : List (String × Json)) :
    FailsByShape (optionalList part member members) := by
  unfold Model.optionalList
  cases OrderedMap.get? members member with
  | none => exact .ok []
  | some value =>
      cases value with
      | arr items => exact .ok items
      | _ => exact .error rfl

/-- **A type is refused only for its shape.** -/
theorem typeOf (numbers : OrderedMap Nat) (node : Json) : FailsByShape (typeOf numbers node) := by
  induction node using typeNode_induction with
  | name text =>
      rw [typeOf_name]
      exact .ok _
  | scalar members hKind =>
      rw [typeOf_scalar numbers hKind]
      exact (requiredText _ _ _).map _
  | array members hKind ih =>
      rw [typeOf_array numbers hKind]
      refine ((requiredType _ _ _).bind fun node hNode => ?_).map _
      exact ih node (requiredType_eq_ok_iff.mp hNode).1
  | parameterized members hKind ih =>
      rw [typeOf_parameterized numbers hKind]
      refine (requiredText _ _ _).bind fun name _ => ?_
      refine (optionalList _ _ _).bind fun nodes hNodes => ?_
      exact (mapM (ih nodes (optionalList_eq_ok_iff.mp hNodes))).map _
  | reference members hKind =>
      rw [typeOf_class numbers hKind]
      refine (requiredText _ _ _).bind fun reference _ => ?_
      split
      · exact .ok _
      · exact .error rfl
  | other members hOther =>
      rw [typeOf_other numbers hOther]
      exact .error rfl
  | neither node hNeither =>
      rw [typeOf_neither numbers hNeither]
      exact .error rfl

theorem fieldOf (numbers : OrderedMap Nat) (node : Json) :
    FailsByShape (fieldOf numbers node) := by
  refine (membersOf _ _).bind fun members _ => (requiredText _ _ _).bind fun name _ => ?_
  exact (requiredType _ _ _).bind fun inner _ => (typeOf _ _).bind fun type _ => .ok _

/-- A class with a qualified name that is fit for a key is refused only for its shape. -/
theorem header {node : Json} (keyed : KeyedNode node) : FailsByShape (header node) := by
  refine (membersOf _ _).bind fun members hMembers => (requiredText _ _ _).bind fun name _ => ?_
  refine (optionalList _ _ _).bind fun constants _ => ?_
  obtain rfl := membersOf_eq_ok_iff.mp hMembers
  dsimp only
  rw [if_pos (isKey_of_keyedNode keyed rfl)]
  exact .ok _

theorem complete (numbers : OrderedMap Nat) (entity : Entity) (node : Json) :
    FailsByShape (complete numbers entity node) := by
  refine (membersOf _ _).bind fun members _ => (optionalList _ _ _).bind fun nodes _ => ?_
  exact (mapM fun node _ => fieldOf numbers node).bind fun fields _ => .ok _

/-- **A document is refused only for its shape**, if its classes can have keys. -/
theorem ofDocument {document : Json} (keyed : Keyed document) :
    FailsByShape (ofDocument document) := by
  by_cases hClasses : ∃ members nodes, document = .obj members ∧
      OrderedMap.get? members "classes" = some (.arr nodes)
  · obtain ⟨members, nodes, rfl, hNodes⟩ := hClasses
    rw [ofDocument_classes hNodes]
    refine (mapM fun node mem => header (keyed members nodes rfl hNodes node mem)).bind ?_
    exact fun headers _ => mapM fun entry _ => complete _ entry.1 entry.2
  · rw [ofDocument_noClasses fun members nodes hMembers hNodes =>
      hClasses ⟨members, nodes, hMembers, hNodes⟩]
    exact .error rfl

end FailsByShape

/-! ## All of it together -/

/-- **Reading accepts exactly the well-formed documents.**  Where no class has a qualified name
that is unfit for a key, a model is read from a document if and only if it is well-formed, the
model is the one that the document describes, and any other document is refused because it is out
of shape. -/
theorem ofDocument_outcome {document : Json} (keyed : Keyed document) :
    ((∃ model, ofDocument document = .ok model) ↔ WellFormed document) ∧
    (∀ model, ofDocument document = .ok model ↔ Describes document model) ∧
    (¬ WellFormed document →
      ∃ error, ofDocument document = .error error ∧ error.concernsShape = true) := by
  have shape := FailsByShape.ofDocument keyed
  have reads : ∀ model, ofDocument document = .ok model ↔ Describes document model := by
    intro model
    rw [ofDocument_eq_ok_iff]
    exact ⟨fun h => h.1, fun h => ⟨h, h.isKey keyed⟩⟩
  have accepts : (∃ model, ofDocument document = .ok model) ↔ WellFormed document := by
    simp only [reads, exists_describes_iff]
  refine ⟨accepts, reads, fun malformed => ?_⟩
  cases hOutcome : ofDocument document with
  | ok model => exact absurd (accepts.mp ⟨model, hOutcome⟩) malformed
  | error found => exact ⟨found, rfl, shape found hOutcome⟩

/-- An order with a customer, who comes behind it, and with lists of parts. -/
def orderDocument (customerName : Json) : Json :=
  .obj [("classes", .arr [
    .obj [("qualifiedName", .str "shop.Order"), ("simpleName", .str "Order"), ("fields", .arr [
      .obj [("name", .str "customer"),
        ("type", .obj [("kind", .str "class"), ("ref", .str "Customer")])],
      .obj [("name", .str "parts"),
        ("type", .obj [("kind", .str "array"), ("element", .obj [("kind", .str "parameterized"),
          ("qualifiedName", .str "java.util.List"), ("typeArgs", .arr [.str "int"])])])]])],
    .obj [("qualifiedName", customerName), ("simpleName", .str "Customer"), ("fields", .arr [
      .obj [("name", .str "name"), ("type", .str "java.lang.String")]])]])]

/-- The classes of the document. -/
def orderModel (customerName : Json) : Model :=
  [⟨"Order", .str "shop.Order", .bool false, .bool false, [],
     [⟨"customer", .reference 1, .null, .bool false⟩,
      ⟨"parts", .array (.parameterized "java.util.List" [.scalar "int"]), .null, .bool false⟩]⟩,
   ⟨"Customer", customerName, .bool false, .bool false, [],
     [⟨"name", .scalar "java.lang.String", .null, .bool false⟩]⟩]

/-- The order refers to its customer by the simple name, since there is no other one. -/
theorem describes_orderDocument {customerName : Json} (unnamed : customerName.truthy = false) :
    Describes (orderDocument customerName) (orderModel customerName) := by
  have customer : Means (orderModel customerName) "Customer" 1 := by
    refine .byKey rfl (Entity.key_eq_simpleName unnamed) fun later other hLater hFound => ?_
    have hLength := (List.getElem?_eq_some_iff.mp hFound).1
    have hModel : (orderModel customerName).length = 2 := rfl
    omega
  refine .intro rfl (.cons ?_ (.cons ?_ .nil))
  · refine .intro (.intro rfl (.inl ⟨rfl, rfl⟩)) (.inr rfl) (.cons ?_ (.cons ?_ .nil))
    · exact .intro rfl rfl (.reference rfl rfl customer)
    · refine .intro rfl rfl (.array rfl rfl (.parameterized rfl rfl (.inr rfl) ?_))
      exact .cons (.name "int") .nil
  · refine .intro (.intro rfl (.inl ⟨rfl, rfl⟩)) (.inr rfl) (.cons ?_ .nil)
    exact .intro rfl rfl (.name "java.lang.String")

theorem ofDocument_eq_orderModel {customerName : Json} (unnamed : customerName.truthy = false) :
    ofDocument (orderDocument customerName) = .ok (orderModel customerName) := by
  refine ofDocument_eq_ok_iff.mpr ⟨describes_orderDocument unnamed, ?_⟩
  simp only [orderModel, List.forall_mem_cons, List.not_mem_nil, false_implies, implies_true,
    and_true]
  exact ⟨rfl, by rw [Entity.key_eq_simpleName unnamed]; rfl⟩

/-- The order is read, with a reference to a class that comes later. -/
theorem ofDocument_orderDocument :
    Keyed (orderDocument .null) ∧ WellFormed (orderDocument .null) ∧
      ofDocument (orderDocument .null) = .ok (orderModel .null) := by
  have keyed : Keyed (orderDocument .null) := by
    intro members nodes hMembers hNodes node mem inner name hNode hName
    obtain rfl := Json.obj.inj hMembers
    obtain rfl := Json.arr.inj (Option.some.inj hNodes)
    simp only [List.mem_cons, List.not_mem_nil, or_false] at mem
    rcases mem with rfl | rfl <;> obtain rfl := Json.obj.inj hNode <;>
      exact .inl (Option.some.inj hName ▸ rfl)
  have describes := describes_orderDocument (rfl : Json.null.truthy = false)
  obtain ⟨accepts, reads, _⟩ := ofDocument_outcome keyed
  have hRead := (reads _).mpr describes
  exact ⟨keyed, accepts.mp ⟨_, hRead⟩, hRead⟩

end Model

end ClassSchema
