import ClassSchema.Proofs.Model.Reading

/-!
# Why a document is refused

A document that is out of shape is refused as such.  There is one other reason: the first
pass enters every class under its key, and a list or an object cannot serve as a key.  So a
class whose qualified name is one of these ends the reading, unless something in front of it
is out of shape.  What stands behind it, and the fields of all classes, are not looked at any
more.

## Main results

* `Model.ofDocument_eq_noKey_iff`: when a key that cannot be one ends the reading.
* `Model.read_or_refused_for_shape_iff`: a document is read, or refused for its shape, exactly if
  that does not happen.
* `Model.refused_for_list_name`: a document that is refused though it is in shape.
-/

namespace ClassSchema

namespace Model

/-! ## What the first pass comes to -/

/-- A class that the first pass enters: it has a simple name, its constants are a list, and its
qualified name is fit for a key. -/
inductive EntersClass : Json → Prop
  | intro {members : List (String × Json)} {text : String} {constants : List Json} :
      OrderedMap.get? members "simpleName" = some (.str text) →
      ListMember members "enumConstants" constants → KeyedNode (.obj members) →
      EntersClass (.obj members)

/-- A class that the first pass cannot enter though it is in shape so far: its qualified name is a
list or an object, and not an empty one. -/
inductive UnfitClass : Json → Json → Prop
  | intro {members : List (String × Json)} {text : String} {constants : List Json} {name : Json} :
      OrderedMap.get? members "simpleName" = some (.str text) →
      ListMember members "enumConstants" constants →
      OrderedMap.get? members "qualifiedName" = some name → name.isKey = false →
      name.truthy = true → UnfitClass (.obj members) name

/-- The first pass comes to a class with an unfit key, having entered all classes before it. -/
inductive MeetsUnfitKey : Json → Json → Prop
  | intro {members : List (String × Json)} {before behind : List Json} {node name : Json} :
      OrderedMap.get? members "classes" = some (.arr (before ++ node :: behind)) →
      (∀ other ∈ before, EntersClass other) → UnfitClass node name →
      MeetsUnfitKey (.obj members) name

/-! ## Errors in a row -/

namespace FailsByShape

variable {α β : Type} {name : Json}

theorem ne_noKey {result : Except DocumentError α} (h : FailsByShape result) :
    result ≠ .error (.noKey name) :=
  fun hError => absurd (h _ hError) (by simp [DocumentError.concernsShape])

/-- A step that is refused only for its shape does not end with a key itself. -/
theorem bind_eq_noKey_iff {result : Except DocumentError α} {next : α → Except DocumentError β}
    (h : FailsByShape result) :
    (result >>= next) = .error (.noKey name) ↔
      ∃ first, result = .ok first ∧ next first = .error (.noKey name) := by
  rw [bind_eq_error_iff, or_iff_right h.ne_noKey]

end FailsByShape

/-! ## One class -/

section Header

variable {node name : Json} {members : List (String × Json)}

/-- The key of a class is unfit exactly if its qualified name is. -/
theorem DescribesHeader.key_unfit_iff {entity : Entity}
    (hHeader : DescribesHeader (.obj members) entity) :
    entity.key = name ∧ name.isKey = false ↔
      OrderedMap.get? members "qualifiedName" = some name ∧ name.isKey = false ∧
        name.truthy = true := by
  have h : entity.qualifiedName = (OrderedMap.get? members "qualifiedName").getD .null := by
    cases hHeader
    rfl
  by_cases hTruthy : entity.qualifiedName.truthy = true
  · rw [Entity.key_eq_qualifiedName hTruthy]
    cases hFound : OrderedMap.get? members "qualifiedName" with
    | none => simp [h, hFound, Json.truthy] at hTruthy
    | some found =>
        rw [hFound, Option.getD_some] at h
        rw [h] at hTruthy ⊢
        rw [Option.some.injEq]
        constructor
        · rintro ⟨rfl, hUnfit⟩
          exact ⟨rfl, hUnfit, hTruthy⟩
        · rintro ⟨hSame, hUnfit, _⟩
          exact ⟨hSame, hUnfit⟩
  · rw [Entity.key_eq_simpleName (by simpa using hTruthy)]
    constructor
    · rintro ⟨rfl, hUnfit⟩
      cases hUnfit
    · rintro ⟨hFound, _, hTrue⟩
      rw [hFound, Option.getD_some] at h
      exact absurd (h ▸ hTrue) hTruthy

/-- A class is entered exactly if its header is read. -/
theorem exists_header_iff : (∃ first, header node = .ok first) ↔ EntersClass node := by
  simp only [header_eq_ok_iff]
  constructor
  · rintro ⟨_, ⟨hText, hConstants⟩, hKey⟩
    have hHeader := DescribesHeader.intro hText hConstants
    refine .intro hText hConstants fun members found hMembers hFound => ?_
    obtain rfl := Json.obj.inj hMembers
    by_contra hUnfit
    rw [not_or, Bool.not_eq_true, Bool.not_eq_false] at hUnfit
    obtain ⟨hSame, hNoKey⟩ := hHeader.key_unfit_iff.mpr ⟨hFound, hUnfit⟩
    rw [hSame, hNoKey] at hKey
    cases hKey
  · rintro ⟨hText, hConstants, keyed⟩
    exact ⟨_, .intro hText hConstants, isKey_of_keyedNode keyed rfl⟩

/-- **A key ends the reading of a header** exactly if it is unfit for one and the header is in shape
otherwise. -/
theorem header_eq_noKey_iff : header node = .error (.noKey name) ↔ UnfitClass node name := by
  simp only [header, (FailsByShape.membersOf _ _).bind_eq_noKey_iff,
    (FailsByShape.requiredText _ _ _).bind_eq_noKey_iff,
    (FailsByShape.optionalList _ _ _).bind_eq_noKey_iff, membersOf_eq_ok_iff,
    requiredText_eq_ok_iff, optionalList_eq_ok_iff]
  constructor
  · rintro ⟨members, rfl, text, hText, constants, hConstants, hHeader⟩
    split at hHeader
    · cases hHeader
    · next hKey =>
        obtain rfl := DocumentError.noKey.inj (Except.error.inj hHeader)
        have hDescribes := DescribesHeader.intro hText hConstants
        obtain ⟨hFound, hUnfit, hTruthy⟩ := hDescribes.key_unfit_iff.mp ⟨rfl, by simpa using hKey⟩
        exact .intro hText hConstants hFound hUnfit hTruthy
  · rintro ⟨hText, hConstants, hFound, hUnfit, hTruthy⟩
    have hDescribes := DescribesHeader.intro hText hConstants
    obtain ⟨hKey, _⟩ := hDescribes.key_unfit_iff.mpr ⟨hFound, hUnfit, hTruthy⟩
    refine ⟨_, rfl, _, hText, _, hConstants, ?_⟩
    rw [hKey, if_neg (by simp [hUnfit])]
    rfl

end Header

/-! ## All classes -/

section Documents

variable {document : Json}

/-- **When a key ends the reading of a document**, and which one does. -/
theorem ofDocument_eq_noKey_iff {name : Json} :
    ofDocument document = .error (.noKey name) ↔ MeetsUnfitKey document name := by
  constructor
  · intro h
    by_cases hClasses : ∃ members nodes, document = .obj members ∧
        OrderedMap.get? members "classes" = some (.arr nodes)
    · obtain ⟨members, nodes, rfl, hNodes⟩ := hClasses
      rw [ofDocument_classes hNodes] at h
      cases hHeaders : nodes.mapM header with
      | ok headers =>
          rw [hHeaders] at h
          have hComplete : FailsByShape ((headers.zip nodes).mapM fun entry =>
              complete (numbersOf headers) entry.1 entry.2) :=
            .mapM fun entry _ => .complete _ entry.1 entry.2
          exact absurd h hComplete.ne_noKey
      | error found =>
          rw [hHeaders] at h
          obtain rfl := Except.error.inj h
          obtain ⟨before, node, behind, rfl, entered, hUnfit⟩ := mapM_eq_error_iff.mp hHeaders
          exact .intro hNodes (fun other mem => exists_header_iff.mp (entered other mem))
            (header_eq_noKey_iff.mp hUnfit)
    · rw [ofDocument_noClasses fun members nodes hMembers hNodes =>
        hClasses ⟨members, nodes, hMembers, hNodes⟩] at h
      cases h
  · rintro ⟨hNodes, entered, hUnfit⟩
    rw [ofDocument_classes hNodes, mapM_eq_error_iff.mpr ⟨_, _, _, rfl,
      fun other mem => exists_header_iff.mpr (entered other mem), header_eq_noKey_iff.mpr hUnfit⟩]
    rfl

/-- **A document is read, or refused for its shape, unless a key ends the reading.**  It does where
the first pass comes to a class with an unfit qualified name and has entered all classes in front
of it, and the refusal then tells this name. -/
theorem read_or_refused_for_shape_iff (document : Json) :
    (((∃ model, ofDocument document = .ok model) ∨
        ∃ error, ofDocument document = .error error ∧ error.concernsShape = true) ↔
      ¬ ∃ name, MeetsUnfitKey document name) ∧
    ∀ name, ofDocument document = .error (.noKey name) ↔ MeetsUnfitKey document name := by
  refine ⟨?_, fun name => ofDocument_eq_noKey_iff⟩
  simp only [← ofDocument_eq_noKey_iff]
  cases ofDocument document with
  | ok model => simp
  | error found => cases found <;> simp [DocumentError.concernsShape]

/-- A class whose qualified name is a list of its parts. -/
def listNamedDocument : Json :=
  .obj [("classes", .arr [
    .obj [("simpleName", .str "Order"), ("qualifiedName", .arr [.str "shop", .str "Order"])]])]

/-- **The document is refused, and not for its shape.** -/
theorem refused_for_list_name :
    ofDocument listNamedDocument = .error (.noKey (.arr [.str "shop", .str "Order"])) ∧
      ¬ ((∃ model, ofDocument listNamedDocument = .ok model) ∨
        ∃ error, ofDocument listNamedDocument = .error error ∧ error.concernsShape = true) ∧
      (DocumentError.noKey (.arr [.str "shop", .str "Order"])).message =
        "unhashable type: 'list'" := by
  have hRefused : ofDocument listNamedDocument =
      .error (.noKey (.arr [.str "shop", .str "Order"])) := rfl
  refine ⟨hRefused, ?_, rfl⟩
  rw [hRefused]
  simp [DocumentError.concernsShape]

end Documents

end Model

end ClassSchema
