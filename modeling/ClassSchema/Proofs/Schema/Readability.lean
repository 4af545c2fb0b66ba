import ClassSchema.Proofs.Results
import ClassSchema.Proofs.Schema.Reachability
import ClassSchema.Proofs.Schema.Recursive

/-!
# Models that compile

A document may give a class a name, and a field a comment, that is neither a text nor
missing.  Such a value does no harm as long as nothing looks into it: the name of a class
is looked at where a field refers to the class, the comment of a field where the field
is compiled.

Whether a field can be met therefore shows in the field and in the classes that it
consults, and it is the same at every visited set.  A class compiles if the fields of
all classes behind it can be met.  Nothing is asked of the keys of different classes
here; two classes may share one.

## Main results

* `Model.isOk_openField_iff`: which fields can be met.
* `Model.exists_schema_of_reachable`: a class compiles if all fields behind it can be met.
* `Model.all_compile_iff`: all classes of a model compile exactly if it is readable.
-/

namespace ClassSchema

/-- The name of the class is looked at where a field has the type.  The value of a map counts only
if its keys can be those of an object. -/
inductive FieldType.Consults : FieldType → Nat → Prop
  | reference (target : Nat) : Consults (.reference target) target
  | array (target : Nat) : Consults (.array (.reference target)) target
  | list {name : String} (target : Nat) : name ∈ Names.lists →
      Consults (.parameterized name [.reference target]) target
  | map {name : String} {key : FieldType} (target : Nat) : name ∈ Names.maps →
      key.isClassLike = true → Consults (.parameterized name [key, .reference target]) target

namespace Model

/-- The name of a class can be looked at. -/
def Spells (model : Model) (target : Nat) : Prop :=
  ∀ entity, model[target]? = some entity → entity.qualifiedName.IsTextual

/-- A field can be read: its comment is a text or missing, and so are the names that it consults. -/
def CanRead (model : Model) (field : Field) : Prop :=
  field.docComment.IsTextual ∧ ∀ target, field.type.Consults target → model.Spells target

/-- All fields that are compiled for some class can be read.  Those of enums are not compiled. -/
def Readable (model : Model) : Prop :=
  ∀ entity ∈ model, entity.isEnum.truthy = false → ∀ field ∈ entity.fields, model.CanRead field

/-! ## Names and kinds -/

section Names

variable {model : Model}

theorem isOk_isStandard_iff {entity : Entity} :
    entity.isStandard.isOk = true ↔ entity.qualifiedName.IsTextual := by
  unfold Entity.isStandard Json.IsTextual
  cases entity.qualifiedName <;> simp [Except.isOk, Except.toBool]

/-- A class can be told from the standard ones if its name can be looked at. -/
theorem isOk_expandable_iff {type : FieldType} :
    (model.expandable type).isOk = true ↔ ∀ target, type = .reference target →
      model.Spells target := by
  cases type with
  | reference target =>
      unfold expandable isModelClass Spells
      cases hFound : model[target]? with
      | none => simp [hFound, Except.isOk, Except.toBool]
      | some entity =>
          have hStandard : entity.isStandard.isOk = true ↔ entity.qualifiedName.IsTextual :=
            isOk_isStandard_iff
          cases hAnswer : entity.isStandard with
          | error e =>
              simpa [hAnswer, hFound, Except.map, Except.isOk, Except.toBool] using hStandard
          | ok answer =>
              cases answer <;>
                simpa [hAnswer, hFound, Except.map, Except.isOk, Except.toBool] using hStandard
  | _ => simp [expandable, isModelClass, Except.isOk, Except.toBool]

/-- A type has a kind if no name has to be looked at that cannot be. -/
theorem isOk_kindOf {type : FieldType}
    (h : ∀ target, type = .reference target → model.Spells target) :
    (model.kindOf type).isOk = true := by
  cases type with
  | reference target =>
      have spells := h target rfl
      unfold kindOf resolveKind typeName
      cases hFound : model[target]? with
      | none => simp [hFound, Except.isOk, Except.toBool]
      | some entity =>
          rcases spells entity hFound with hNull | ⟨name, hName⟩
          · simp [hFound, hNull, Except.isOk, Except.toBool]
          · simp [hFound, hName, Except.isOk, Except.toBool]
  | _ => simp [kindOf, resolveKind, typeName, Except.isOk, Except.toBool]

/-- The element of a sequence can be met if its name can be looked at. -/
theorem isOk_openType_iff {type : FieldType} (visited : Visited) :
    (model.openType type visited).1.isOk = true ↔ ∀ target, type = .reference target →
      model.Spells target := by
  rw [← isOk_expandable_iff]
  unfold openType
  cases hExpandable : model.expandable type with
  | error e => exact Iff.rfl
  | ok answer =>
      refine iff_of_true ?_ rfl
      have spells := isOk_expandable_iff.mp (by rw [hExpandable]; rfl)
      rcases expandable_cases hExpandable with ⟨target, rfl, refers⟩ | ⟨rfl, _⟩
      · obtain ⟨opened, visited', hClass⟩ := refers.exists_openClass visited
        simp only [hClass]
        rfl
      · simp only [isOk_map, isOk_kindOf spells]

end Names

/-! ## Fields -/

section Fields

variable {model : Model} (visited : Visited)

/-- The type of a field can be met. -/
def CanOpen (model : Model) (type : FieldType) : Prop :=
  ∃ shape, model.shape type = .ok shape ∧ (model.openShape shape visited).1.isOk = true

/-- A sequence can be met if its element can. -/
theorem canOpen_iff_of_listOf {type element : FieldType}
    (h : model.shape type = .ok (.listOf element)) :
    model.CanOpen visited type ↔ ∀ target, element = .reference target → model.Spells target := by
  rw [← isOk_openType_iff visited]
  have hShape : (model.openShape (.listOf element) visited).1.isOk =
      (model.openType element visited).1.isOk := isOk_map _ _
  rw [← hShape]
  constructor
  · rintro ⟨shape, hFound, hOpen⟩
    obtain rfl := Except.ok.inj (h.symm.trans hFound)
    exact hOpen
  · exact fun hOpen => ⟨_, h, hOpen⟩

/-- A schema that depends on no class can be met if it is there. -/
theorem canOpen_iff_of_fixed {type : FieldType} {result : Except CompileError Schema}
    (h : model.shape type = result.map .fixed) :
    model.CanOpen visited type ↔ result.isOk = true := by
  constructor
  · rintro ⟨shape, hFound, _⟩
    rw [← isOk_map Shape.fixed, ← h, hFound]
    rfl
  · intro hOk
    obtain ⟨schema, rfl⟩ := exists_ok_of_isOk hOk
    exact ⟨.fixed schema, h, rfl⟩

/-- A class can be met if its name can be looked at. -/
theorem canOpen_reference_iff {target : Nat} :
    model.CanOpen visited (.reference target) ↔ model.Spells target := by
  have hSpells : (model.expandable (.reference target)).isOk = true ↔ model.Spells target := by
    simp [isOk_expandable_iff]
  rw [← hSpells]
  constructor
  · rintro ⟨shape, hShape, _⟩
    simp only [Model.shape] at hShape
    cases hExpandable : model.expandable (.reference target) with
    | error e => simp [hExpandable] at hShape
    | ok answer => rfl
  · intro hOk
    obtain ⟨answer, hAnswer⟩ := exists_ok_of_isOk hOk
    rcases expandable_cases hAnswer with ⟨found, rfl, refers⟩ | ⟨rfl, _⟩
    · obtain ⟨opened, visited', hClass⟩ := refers.exists_openClass visited
      refine ⟨.expand found, refers.shape_eq, ?_⟩
      simp only [openShape, hClass]
      rfl
    · have hShape : model.shape (.reference target) =
          (model.kindOf (.reference target)).map .fixed := by simp [shape, hAnswer]
      refine (canOpen_iff_of_fixed visited hShape).mpr (isOk_kindOf ?_)
      rintro other ⟨⟩
      exact hSpells.mp hOk

/-- The values of a map have a schema if their name can be looked at. -/
theorem isOk_valueSchema_iff {type : FieldType} :
    (model.valueSchema type).isOk = true ↔ ∀ target, type = .reference target →
      model.Spells target := by
  rw [← isOk_expandable_iff]
  unfold valueSchema
  cases hExpandable : model.expandable type with
  | error e => exact Iff.rfl
  | ok answer =>
      refine iff_of_true ?_ rfl
      have spells := isOk_expandable_iff.mp (by rw [hExpandable]; rfl)
      rcases expandable_cases hExpandable with ⟨target, rfl, refers⟩ | ⟨rfl, _⟩
      · obtain ⟨entity, found, standard⟩ := refers.found
        obtain ⟨key, hKey⟩ := key_of_isStandard standard
        simp only [found, hKey]
        rfl
      · exact isOk_kindOf spells

/-- **A type can be met if all names that it consults can be looked at**, at any visited set. -/
theorem canOpen_iff {type : FieldType} :
    model.CanOpen visited type ↔ ∀ target, type.Consults target → model.Spells target := by
  -- a kind that no class decides is always there
  have plain : ∀ {type : FieldType}, model.shape type = (model.kindOf type).map .fixed →
      (∀ target, type ≠ .reference target) → (∀ target, ¬ type.Consults target) →
        (model.CanOpen visited type ↔ ∀ target, type.Consults target → model.Spells target) := by
    intro type hShape noReference none
    refine iff_of_true ?_ fun target hConsults => absurd hConsults (none target)
    exact (canOpen_iff_of_fixed visited hShape).mpr
      (isOk_kindOf fun target hType => absurd hType (noReference target))
  match type with
  | .scalar name =>
      refine plain rfl (by simp) ?_
      rintro target ⟨⟩
  | .array element =>
      rw [canOpen_iff_of_listOf visited rfl]
      constructor
      · rintro h _ ⟨⟩
        exact h _ rfl
      · rintro h target rfl
        exact h target (.array target)
  | .reference target =>
      rw [canOpen_reference_iff visited]
      constructor
      · rintro h _ ⟨⟩
        exact h
      · exact fun h => h target (.reference target)
  | .parameterized name [] =>
      refine plain rfl (by simp) ?_
      rintro target ⟨⟩
  | .parameterized name [item] =>
      by_cases hList : name ∈ Names.lists
      · have hShape : model.shape (.parameterized name [item]) = .ok (.listOf item) := by
          simp only [shape, if_pos hList]
        rw [canOpen_iff_of_listOf visited hShape]
        constructor
        · rintro h _ ⟨⟩
          exact h _ rfl
        · rintro h target rfl
          exact h target (.list target hList)
      · refine plain (by simp only [shape, if_neg hList]) (by simp) ?_
        rintro target ⟨⟩
        next hMem => exact hList hMem
  | .parameterized name [key, value] =>
      by_cases hMap : name ∈ Names.maps ∧ key.isClassLike ∧ value.isClassLike
      · have hShape : model.shape (.parameterized name [key, value]) =
            ((model.valueSchema value).map .map).map .fixed := by
          simp only [shape, if_pos hMap]
          cases model.valueSchema value <;> rfl
        rw [canOpen_iff_of_fixed visited hShape, isOk_map, isOk_valueSchema_iff]
        constructor
        · rintro h _ ⟨⟩
          exact h _ rfl
        · rintro h target rfl
          exact h target (.map target hMap.1 hMap.2.1)
      · refine plain (by simp only [shape, if_neg hMap]) (by simp) ?_
        rintro target ⟨⟩
        next hName hKey => exact hMap ⟨hName, hKey, rfl⟩
  | .parameterized name (first :: second :: third :: rest) =>
      refine plain rfl (by simp) ?_
      rintro target ⟨⟩

/-- **Which fields can be met**: those that can be read, at any visited set. -/
theorem isOk_openField_iff {field : Field} :
    (model.openField field visited).1.isOk = true ↔ model.CanRead field := by
  have hComment : (descriptionOf field.docComment).isOk = true ↔ field.docComment.IsTextual := by
    unfold descriptionOf Json.IsTextual
    cases field.docComment <;> simp [Except.isOk, Except.toBool]
  unfold CanRead
  rw [← hComment, ← canOpen_iff visited, and_comm]
  unfold openField CanOpen
  cases hShape : model.shape field.type with
  | error e => simp [Except.isOk, Except.toBool]
  | ok shape =>
      rcases hOpen : model.openShape shape visited with ⟨e | ⟨opened, listed⟩, visited'⟩
      · simp [hOpen, Except.isOk, Except.toBool]
      · cases hDescription : descriptionOf field.docComment <;>
          simp [hOpen, Except.isOk, Except.toBool]

end Fields

/-! ## Classes -/

section Classes

variable {model : Model} {visited visited' : Visited}

/-- All fields of the classes that can be reached, and that are not enums, can be read. -/
def ReadableFrom (model : Model) (roots : Nat → Prop) : Prop :=
  ∀ (number : Nat) (entity : Entity), model[number]? = some entity →
    ReachableFrom model [] roots number → entity.isEnum.truthy = false →
      ∀ field ∈ entity.fields, model.CanRead field

/-- In a readable model, everything can be read from everywhere. -/
theorem Readable.readableFrom (h : model.Readable) (roots : Nat → Prop) :
    ReadableFrom model roots :=
  fun _ entity found _ notEnum => h entity (List.mem_of_getElem? found) notEnum

/-- Fields that are compiled can be read. -/
theorem canRead_of_compilesFields {fields : List Field}
    {properties properties' : List (String × Property)}
    (h : CompilesFields model fields properties visited properties' visited') :
    ∀ field ∈ fields, model.CanRead field := by
  induction h with
  | done => simp
  | closed opened _ ih | nested opened _ _ _ ih =>
      exact List.forall_mem_cons.mpr ⟨(isOk_openField_iff _).mp (by rw [opened]; rfl), ih⟩

/-- Fields that can be read can be met. -/
theorem opens_of_canRead {fields : List Field} (h : ∀ field ∈ fields, model.CanRead field) :
    Opens model fields := by
  intro field mem
  obtain ⟨⟨opened, slot⟩, hOk⟩ := exists_ok_of_isOk ((isOk_openField_iff []).mpr (h field mem))
  exact ⟨[], opened, slot, _, Prod.ext hOk rfl⟩

/-- Where all fields can be read, all classes open theirs. -/
theorem ReadableFrom.allOpen {roots : Nat → Prop} (h : ReadableFrom model roots) :
    AllOpen model visited roots := by
  intro number entity found reachable _ notEnum
  have fromNone : ReachableFrom model [] roots number :=
    Explores.reachable_mono (List.nil_subset _) (fun root hRoot => ⟨root, hRoot, .refl⟩) reachable
  exact opens_of_canRead (h number entity found fromNone notEnum)

/-- **A class compiles if all fields behind it can be read.** -/
theorem exists_schema_of_reachable {number : Nat} {entity : Entity}
    (found : model[number]? = some entity) (isKey : entity.key.isKey = true)
    (behind : ReadableFrom model (· = number)) :
    ∃ schema, (model.compileClass number []).1 = .ok schema := by
  obtain ⟨opened, visited₁, hClass⟩ := @exists_openClass_of_fresh _ _ _ [] found isKey rfl
  obtain ⟨schema, visited', hFinishes⟩ := exists_finishes hClass behind.allOpen
  exact ⟨schema, by rw [compileClass_eq_ok_iff.mpr ⟨opened, visited₁, hClass, hFinishes⟩]⟩

/-- The fields of a class that compiles can be read, unless it is an enum. -/
theorem canRead_of_compileClass {number : Nat} {entity : Entity} {schema : Schema}
    (found : model[number]? = some entity) (notEnum : entity.isEnum.truthy = false)
    (h : (model.compileClass number []).1 = .ok schema) :
    ∀ field ∈ entity.fields, model.CanRead field := by
  obtain ⟨opened, visited₁, hClass, hFinishes⟩ :=
    compileClass_eq_ok_iff.mp (Prod.ext h rfl : model.compileClass number [] = (.ok schema, _))
  cases openClass_eq_ok_iff.mp hClass with
  | missing hNone =>
      rw [hNone] at found
      cases found
  | known _ _ known => cases known
  | constants hFound _ _ isEnum =>
      rw [hFound] at found
      cases found
      rw [isEnum] at notEnum
      cases notEnum
  | fields hFound =>
      rw [hFound] at found
      cases found
      cases hFinishes with
      | pending hFields => exact canRead_of_compilesFields hFields

/-- **All classes compile exactly if all their fields can be read**, where the classes have keys. -/
theorem all_compile_iff (keys : ∀ entity ∈ model, entity.key.isKey = true) :
    (∀ number < model.length, ∃ schema, (model.compileClass number []).1 = .ok schema) ↔
      model.Readable := by
  constructor
  · intro all entity mem notEnum
    obtain ⟨number, hNumber, rfl⟩ := List.getElem_of_mem mem
    obtain ⟨schema, hSchema⟩ := all number hNumber
    exact canRead_of_compileClass (List.getElem?_eq_getElem hNumber) notEnum hSchema
  · intro readable number hNumber
    exact exists_schema_of_reachable (List.getElem?_eq_getElem hNumber)
      (keys _ (List.getElem_mem hNumber)) (readable.readableFrom _)

end Classes

end Model

end ClassSchema
