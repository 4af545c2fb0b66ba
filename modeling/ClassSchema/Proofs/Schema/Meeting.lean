import ClassSchema.Proofs.Results
import ClassSchema.Proofs.Schema.Expansion

/-!
# Meeting classes, types and fields

A type leads to a class if it is that class, an array of it, or a list of it;
maps, arrays of arrays and anything deeper lead nowhere.

To meet a type or a field is to open it: the class that it leads to is put into
the visited set, or is known already.  Whatever is not led to a class leaves the
visited set alone.

What the type of a field is taken for is said once, by `Model.Unwraps`, and what a
class gives that is met by `Model.OpensClass`.  Nothing else has to be known of
how fields are compiled.

## Main results

* `Model.unwraps_of_shape`: what can become of the type of a field.
* `Model.openClass_eq_ok_iff`, `Model.openType_cases`, `Model.openField_cases`: all
  that can happen when a class, a type or a field is met.
* `Model.exists_openField`: whether a field can be met does not depend on the
  visited set.
-/

namespace ClassSchema

namespace Model

/-! ## Edges -/

/-- A type is a class of the model that is not from the standard packages. -/
inductive RefersTo (model : Model) : FieldType → Nat → Prop where
  | reference {target : Nat} {entity : Entity} (found : model[target]? = some entity)
      (standard : entity.isStandard = .ok false) : RefersTo model (.reference target) target

/-- The type of a field is a class, an array of it, or a list of it. -/
inductive LeadsTo (model : Model) : FieldType → Nat → Prop where
  | direct {type : FieldType} {target : Nat} :
      RefersTo model type target → LeadsTo model type target
  | array {element : FieldType} {target : Nat} :
      RefersTo model element target → LeadsTo model (.array element) target
  | list {name : String} {item : FieldType} {target : Nat} : name ∈ Names.lists →
      RefersTo model item target → LeadsTo model (.parameterized name [item]) target

variable {model : Model}

theorem RefersTo.found {type : FieldType} {target : Nat} (h : RefersTo model type target) :
    ∃ entity, model[target]? = some entity ∧ entity.isStandard = .ok false := by
  cases h with
  | reference found standard => exact ⟨_, found, standard⟩

theorem LeadsTo.found {type : FieldType} {target : Nat} (h : LeadsTo model type target) :
    ∃ entity, model[target]? = some entity ∧ entity.isStandard = .ok false := by
  cases h with
  | direct hRefers => exact hRefers.found
  | array hRefers => exact hRefers.found
  | list _ hRefers => exact hRefers.found

/-- A class whose name can be compared has a text for a key. -/
theorem key_of_isStandard {entity : Entity} {answer : Bool}
    (h : entity.isStandard = .ok answer) : ∃ key, entity.key = .str key := by
  unfold Entity.isStandard at h
  unfold Entity.key
  split at h
  · next hNull => exact ⟨entity.simpleName, by simp [hNull, Json.truthy]⟩
  · next name hName =>
      by_cases hEmpty : name = ""
      · exact ⟨entity.simpleName, by simp [hName, hEmpty, Json.truthy]⟩
      · exact ⟨name, by simp [hName, hEmpty, Json.truthy]⟩
  · cases h

end Model

open Model

/-! ## What a type is taken for -/

/-- The type of the items that are shown: those of any array, and of a list with one argument. -/
def FieldType.listed? : FieldType → Option FieldType
  | .array element => some element
  | .parameterized name [item] => if name ∈ Names.lists then some item else none
  | _ => none

/-- The type of the values that are shown: those of a map with two arguments, neither of them an
array or primitive. -/
def FieldType.mapped? : FieldType → Option FieldType
  | .parameterized name [key, value] =>
      if name ∈ Names.maps ∧ key.isClassLike ∧ value.isClassLike then some value else none
  | _ => none

/-- How the type of a field is taken: as a sequence, as a map, as a class, or as a whole. -/
inductive Model.Unwraps (model : Model) : FieldType → Shape → Prop where
  | array (element : FieldType) : Unwraps model (.array element) (.listOf element)
  | list {name : String} (item : FieldType) : name ∈ Names.lists →
      Unwraps model (.parameterized name [item]) (.listOf item)
  | map {name : String} {key value : FieldType} {values : Schema} :
      name ∈ Names.maps → key.isClassLike = true → value.isClassLike = true →
      model.valueSchema value = .ok values →
      Unwraps model (.parameterized name [key, value]) (.fixed (.map values))
  | expand {type : FieldType} (target : Nat) : model.isModelClass type = .ok true →
      Unwraps model type (.expand target)
  | whole {type : FieldType} {kind : Kind} : type.listed? = none → type.mapped? = none →
      model.resolveKind type = .ok kind → Unwraps model type (.fixed (.bare kind))

section Types

variable {model : Model} {type : FieldType} {schema : Schema}

/-- Only a text can be referred to. -/
theorem referenceTo_eq_ok_iff {key : Json} :
    referenceTo key = .ok schema ↔ ∃ text, key = .str text ∧ schema = .reference text := by
  cases key <;> simp [referenceTo, eq_comm]

theorem Model.kindOf_eq_ok_iff :
    model.kindOf type = .ok schema ↔
      ∃ kind, model.resolveKind type = .ok kind ∧ schema = .bare kind := by
  unfold kindOf
  cases model.resolveKind type with
  | error e => simp
  | ok kind => simp [eq_comm]

/-- The classes of the model are those that types refer to. -/
theorem Model.isModelClass_eq_true_iff :
    model.isModelClass type = .ok true ↔ ∃ target, RefersTo model type target := by
  constructor
  · intro h
    cases type with
    | reference target =>
        simp only [isModelClass] at h
        rcases found : model[target]? with _ | entity
        · simp [found] at h
        · simp only [found] at h
          obtain ⟨answer, standard, hAnswer⟩ := map_eq_ok_iff.mp h
          obtain rfl : answer = false := by simpa using hAnswer
          exact ⟨target, .reference found standard⟩
    | _ => cases h
  · rintro ⟨_, found, standard⟩
    simp [isModelClass, found, standard, Except.map]

/-- A type either is a class that is expanded, or it leads to none. -/
theorem Model.expandable_cases {answer : Option Nat} (h : model.expandable type = .ok answer) :
    (∃ target, answer = some target ∧ RefersTo model type target) ∨
      (answer = none ∧ ∀ target, ¬ RefersTo model type target) := by
  unfold expandable at h
  split at h
  · cases h
  · next hClass =>
      cases h
      refine .inr ⟨rfl, fun target refers => ?_⟩
      rw [isModelClass_eq_true_iff.mpr ⟨target, refers⟩] at hClass
      cases hClass
  · next hClass =>
      obtain ⟨target, refers⟩ := isModelClass_eq_true_iff.mp hClass
      cases refers with
      | reference found standard =>
          cases h
          exact .inl ⟨target, rfl, .reference found standard⟩

/-- A type has at most one class that it refers to. -/
theorem Model.RefersTo.unique {target other : Nat} (h : RefersTo model type target)
    (h' : RefersTo model type other) : other = target := by
  cases h
  cases h'
  rfl

/-- A class leads to no other class than itself. -/
theorem Model.RefersTo.eq_of_leadsTo {target other : Nat} (h : RefersTo model type target)
    (leads : LeadsTo model type other) : other = target := by
  cases leads with
  | direct refers => exact h.unique refers
  | array => cases h
  | list => cases h

/-- A class of the model is taken as a class. -/
theorem Model.RefersTo.shape_eq {target : Nat} (h : RefersTo model type target) :
    model.shape type = .ok (.expand target) := by
  have hClass := isModelClass_eq_true_iff.mpr ⟨target, h⟩
  cases h
  simp only [shape, expandable, hClass]

/-- The values of a map are a reference to the class that their type refers to, or have a kind. -/
theorem Model.valueSchema_cases (h : model.valueSchema type = .ok schema) :
    (∃ target entity key, RefersTo model type target ∧ model[target]? = some entity ∧
        entity.key = .str key ∧ schema = .reference key) ∨
      ∃ kind, model.resolveKind type = .ok kind ∧ schema = .bare kind := by
  unfold valueSchema at h
  rcases hExpandable : model.expandable type with error | answer
  · simp [hExpandable] at h
  · rw [hExpandable] at h
    rcases expandable_cases hExpandable with ⟨target, rfl, refers⟩ | ⟨rfl, _⟩
    · obtain ⟨entity, found, _⟩ := refers.found
      simp only [found] at h
      obtain ⟨key, hKey, rfl⟩ := referenceTo_eq_ok_iff.mp h
      exact .inl ⟨target, entity, key, refers, found, hKey, rfl⟩
    · exact .inr (kindOf_eq_ok_iff.mp h)

/-- **What can become of the type of a field.** -/
theorem Model.unwraps_of_shape {shape : Shape} (h : model.shape type = .ok shape) :
    model.Unwraps type shape := by
  -- a type that no guard picks out is taken as a whole
  have whole : ∀ {type : FieldType}, type.listed? = none → type.mapped? = none →
      (model.kindOf type).map Shape.fixed = .ok shape → model.Unwraps type shape := by
    intro type unlisted unmapped hShape
    obtain ⟨schema, hKind, rfl⟩ := map_eq_ok_iff.mp hShape
    obtain ⟨kind, hResolve, rfl⟩ := kindOf_eq_ok_iff.mp hKind
    exact .whole unlisted unmapped hResolve
  match type, h with
  | .scalar name, h => exact whole rfl rfl h
  | .array element, h =>
      cases h
      exact .array element
  | .reference target, h =>
      simp only [Model.shape] at h
      split at h
      · cases h
      · next hExpandable =>
          cases h
          rcases expandable_cases hExpandable with ⟨_, _, refers⟩ | ⟨hNone, _⟩
          · exact .expand _ (isModelClass_eq_true_iff.mpr ⟨_, refers⟩)
          · cases hNone
      · exact whole rfl rfl h
  | .parameterized name [], h => exact whole rfl rfl h
  | .parameterized name [item], h =>
      by_cases hList : name ∈ Names.lists
      · simp only [Model.shape, if_pos hList] at h
        cases h
        exact .list item hList
      · simp only [Model.shape, if_neg hList] at h
        exact whole (by simp [FieldType.listed?, hList]) rfl h
  | .parameterized name [key, value], h =>
      by_cases hMap : name ∈ Names.maps ∧ key.isClassLike ∧ value.isClassLike
      · simp only [Model.shape, if_pos hMap] at h
        obtain ⟨values, hValue, rfl⟩ := map_eq_ok_iff.mp h
        exact .map hMap.1 hMap.2.1 hMap.2.2 hValue
      · simp only [Model.shape, if_neg hMap] at h
        exact whole rfl (by simp only [FieldType.mapped?, if_neg hMap]) h
  | .parameterized name (first :: second :: third :: rest), h => exact whole rfl rfl h

/-- How a field is compiled decides where its type leads. -/
theorem Model.shape_cases {shape : Shape} (h : model.shape type = .ok shape) :
    (∃ target, shape = .expand target ∧ RefersTo model type target) ∨
      (∃ element, shape = .listOf element ∧
        ∀ target, LeadsTo model type target ↔ RefersTo model element target) ∨
      (∃ schema, shape = .fixed schema ∧ ∀ target, ¬ LeadsTo model type target) := by
  cases unwraps_of_shape h with
  | array element =>
      refine .inr (.inl ⟨element, rfl, fun target => ⟨?_, .array⟩⟩)
      rintro (⟨⟨⟩⟩ | refers)
      exact refers
  | list item hList =>
      refine .inr (.inl ⟨item, rfl, fun target => ⟨?_, .list hList⟩⟩)
      rintro (⟨⟨⟩⟩ | _ | ⟨_, refers⟩)
      exact refers
  | map =>
      refine .inr (.inr ⟨_, rfl, ?_⟩)
      rintro target ⟨⟨⟩⟩
  | expand target hClass =>
      obtain ⟨found, refers⟩ := isModelClass_eq_true_iff.mp hClass
      obtain rfl : found = target := by simpa [refers.shape_eq] using h
      exact .inl ⟨found, rfl, refers⟩
  | whole unlisted _ _ =>
      refine .inr (.inr ⟨_, rfl, ?_⟩)
      intro target leads
      cases leads with
      | direct refers => simp [refers.shape_eq] at h
      | array => cases unlisted
      | list hList => simp [FieldType.listed?, hList] at unlisted

/-- Only a type that stands for a class is taken as that class. -/
theorem Model.reference_of_shape {target : Nat} (h : model.shape type = .ok (.expand target)) :
    type = .reference target := by
  rcases shape_cases h with ⟨_, hSame, refers⟩ | ⟨_, hSame, _⟩ | ⟨_, hSame, _⟩ <;> cases hSame
  cases refers
  rfl

end Types

/-! ## What happens when something is met -/

/-- What a class gives that is met, and which classes are visited then: a class that is missing
gives the kind of an object, one that is visited a reference, and any other one its body. -/
inductive Model.OpensClass (model : Model) (number : Nat) (visited : Visited) :
    Opened → Visited → Prop where
  | missing : model[number]? = none →
      OpensClass model number visited (.closed (.bare .object)) visited
  | known {entity : Entity} {key : String} : model[number]? = some entity →
      entity.key = .str key → visited.has entity.key = true →
      OpensClass model number visited (.closed (.reference key)) visited
  | constants {entity : Entity} : model[number]? = some entity → entity.key.isKey = true →
      visited.has entity.key = false → entity.isEnum.truthy = true →
      OpensClass model number visited
        (.closed (.enumeration entity.simpleName entity.enumConstants)) (entity.key :: visited)
  | fields {entity : Entity} : model[number]? = some entity → entity.key.isKey = true →
      visited.has entity.key = false → entity.isEnum.truthy = false →
      OpensClass model number visited
        (.pending entity.simpleName entity.fields) (entity.key :: visited)

section Cases

variable {model : Model} {visited visited₁ visited' : Visited} {opened : Opened}

/-- **What happens when a class is met.** -/
theorem Model.openClass_eq_ok_iff {number : Nat} :
    model.openClass number visited = (.ok opened, visited') ↔
      model.OpensClass number visited opened visited' := by
  constructor
  · intro h
    unfold openClass at h
    split at h
    · next hNone =>
        cases h
        exact .missing hNone
    · next entity found =>
        split at h
        · cases h
        · next hKey =>
            have isKey : entity.key.isKey = true := by simpa using hKey
            split at h
            · next hHas =>
                obtain ⟨hOpened, rfl⟩ := Prod.mk.inj h
                obtain ⟨schema, hReference, rfl⟩ := map_eq_ok_iff.mp hOpened
                obtain ⟨key, hText, rfl⟩ := referenceTo_eq_ok_iff.mp hReference
                exact .known found hText hHas
            · next hHas =>
                have fresh : visited.has entity.key = false := by simpa using hHas
                split at h
                · next isEnum =>
                    cases h
                    exact .constants found isKey fresh isEnum
                · next notEnum =>
                    cases h
                    exact .fields found isKey fresh (by simpa using notEnum)
  · intro h
    cases h with
    | missing hNone => simp [openClass, hNone]
    | @known entity key found hText hHas =>
        rw [hText] at hHas
        have isKey : (Json.str key).isKey = true := rfl
        simp [openClass, found, hText, isKey, hHas, referenceTo, Except.map]
    | constants found isKey fresh isEnum => simp [openClass, found, isKey, fresh, isEnum]
    | fields found isKey fresh notEnum => simp [openClass, found, isKey, fresh, notEnum]

/-- A class is met only if its key can be one. -/
theorem Model.isKey_of_openClass {number : Nat} {entity : Entity}
    (found : model[number]? = some entity)
    (h : model.openClass number visited = (.ok opened, visited')) : entity.key.isKey = true := by
  cases openClass_eq_ok_iff.mp h with
  | missing hNone =>
      rw [hNone] at found
      cases found
  | known hFound hText =>
      rw [hFound] at found
      cases found
      rw [hText]
      rfl
  | constants hFound isKey | fields hFound isKey =>
      rw [hFound] at found
      cases found
      exact isKey

/-- A type as the element of a sequence either meets its class, or has a kind and changes
nothing. -/
theorem Model.openType_cases {type : FieldType}
    (h : model.openType type visited = (.ok opened, visited')) :
    (∃ target, RefersTo model type target ∧
        model.openClass target visited = (.ok opened, visited')) ∨
      (visited' = visited ∧
        (∃ kind, model.resolveKind type = .ok kind ∧ opened = .closed (.bare kind)) ∧
        ∀ target, ¬ RefersTo model type target) := by
  unfold openType at h
  rcases hExpandable : model.expandable type with error | answer
  · simp [hExpandable] at h
  · rw [hExpandable] at h
    rcases expandable_cases hExpandable with ⟨target, rfl, refers⟩ | ⟨rfl, none⟩
    · exact .inl ⟨target, refers, h⟩
    · obtain ⟨hOpened, rfl⟩ := Prod.mk.inj h
      obtain ⟨schema, hKind, rfl⟩ := map_eq_ok_iff.mp hOpened
      obtain ⟨kind, hResolve, rfl⟩ := kindOf_eq_ok_iff.mp hKind
      exact .inr ⟨rfl, ⟨kind, hResolve, rfl⟩, none⟩

/-- What is met of a field whose shape is known: nothing, a class, or the element of a sequence. -/
inductive Model.OpensAs (model : Model) (visited : Visited) :
    Shape → Bool → Opened → Visited → Prop where
  | fixed (schema : Schema) : OpensAs model visited (.fixed schema) false (.closed schema) visited
  | expand {target : Nat} {opened : Opened} {visited' : Visited} :
      model.openClass target visited = (.ok opened, visited') →
      OpensAs model visited (.expand target) false opened visited'
  | listOf {element : FieldType} {opened : Opened} {visited' : Visited} :
      model.openType element visited = (.ok opened, visited') →
      OpensAs model visited (.listOf element) true opened visited'

/-- A field that is met has a shape and a description, and what its shape meets goes to the place
under its name. -/
theorem Model.exists_opensAs {field : Field} {slot : Slot}
    (h : model.openField field visited = (.ok (opened, slot), visited')) :
    ∃ shape listed description, model.shape field.type = .ok shape ∧
      model.OpensAs visited shape listed opened visited' ∧
      descriptionOf field.docComment = .ok description ∧
      slot = ⟨field.name, listed, description⟩ := by
  unfold openField at h
  rcases hShape : model.shape field.type with error | shape
  · simp [hShape] at h
  · simp only [hShape] at h
    rcases hOpened : model.openShape shape visited with ⟨error | ⟨opened', listed⟩, visited₁⟩
    · simp [hOpened] at h
    · simp only [hOpened] at h
      rcases hDescription : descriptionOf field.docComment with error | description
      · simp [hDescription] at h
      · simp only [hDescription, Prod.mk.injEq, Except.ok.injEq] at h
        obtain ⟨⟨rfl, rfl⟩, rfl⟩ := h
        refine ⟨shape, listed, description, rfl, ?_, rfl, rfl⟩
        cases shape with
        | fixed schema =>
            cases hOpened
            exact .fixed schema
        | expand target =>
            rcases hClass : model.openClass target visited with ⟨error | opened₁, visited₂⟩ <;>
              simp [openShape, hClass, Except.map] at hOpened
            obtain ⟨⟨rfl, rfl⟩, rfl⟩ := hOpened
            exact .expand hClass
        | listOf element =>
            rcases hType : model.openType element visited with ⟨error | opened₁, visited₂⟩ <;>
              simp [openShape, hType, Except.map] at hOpened
            obtain ⟨⟨rfl, rfl⟩, rfl⟩ := hOpened
            exact .listOf hType

/-- A field either meets the class that its type leads to or changes nothing. -/
theorem Model.openField_cases {field : Field} {slot : Slot}
    (h : model.openField field visited = (.ok (opened, slot), visited')) :
    (∃ target, (∀ other, LeadsTo model field.type other ↔ other = target) ∧
        model.openClass target visited = (.ok opened, visited')) ∨
      (visited' = visited ∧ (∃ schema, opened = .closed schema) ∧
        ∀ target, ¬ LeadsTo model field.type target) := by
  obtain ⟨shape, listed, description, hShape, opensAs, -⟩ := exists_opensAs h
  rcases shape_cases hShape with ⟨target, rfl, refers⟩ | ⟨element, rfl, leads⟩ |
    ⟨schema, rfl, none⟩
  · cases opensAs with
    | expand hClass =>
        refine .inl ⟨target, fun other => ⟨?_, ?_⟩, hClass⟩
        · exact fun leads => refers.eq_of_leadsTo leads
        · rintro rfl
          exact .direct refers
  · cases opensAs with
    | listOf hType =>
        rcases openType_cases hType with ⟨target, refers, hClass⟩ | ⟨rfl, ⟨kind, _, rfl⟩, none⟩
        · refine .inl ⟨target, fun other => ?_, hClass⟩
          rw [leads]
          exact ⟨fun refers' => refers.unique refers', fun hEq => hEq ▸ refers⟩
        · exact .inr ⟨rfl, ⟨_, rfl⟩, fun target hLeads => none target ((leads target).mp hLeads)⟩
  · cases opensAs with
    | fixed => exact .inr ⟨rfl, ⟨schema, rfl⟩, none⟩

/-- Meeting a class loses no visited key. -/
theorem Model.openClass_subset {number : Nat}
    (h : model.openClass number visited = (.ok opened, visited')) : visited ⊆ visited' := by
  cases openClass_eq_ok_iff.mp h with
  | missing | known => exact fun _ mem => mem
  | constants | fields => exact List.subset_cons_self _ _

/-- Meeting a field loses no visited key. -/
theorem Model.openField_subset {field : Field} {slot : Slot}
    (h : model.openField field visited = (.ok (opened, slot), visited')) : visited ⊆ visited' := by
  rcases openField_cases h with ⟨_, _, hClass⟩ | ⟨rfl, _, _⟩
  · exact openClass_subset hClass
  · exact fun _ mem => mem

/-- Compiling fields loses no visited key. -/
theorem CompilesFields.subset {fields : List Field}
    {properties properties' : List (String × Property)}
    (h : CompilesFields model fields properties visited properties' visited') :
    visited ⊆ visited' := by
  induction h with
  | done => exact fun _ mem => mem
  | closed opened _ ih => exact fun _ mem => ih (openField_subset opened mem)
  | nested opened _ _ ihInner ih =>
      exact fun _ mem => ih (ihInner (openField_subset opened mem))

end Cases

/-! ## What can be met -/

section Success

variable {model : Model}

/-- A class that is not visited can be met. -/
theorem Model.exists_openClass_of_fresh {number : Nat} {entity : Entity} {visited : Visited}
    (found : model[number]? = some entity) (isKey : entity.key.isKey = true)
    (fresh : visited.has entity.key = false) :
    ∃ opened visited', model.openClass number visited = (.ok opened, visited') := by
  cases isEnum : entity.isEnum.truthy with
  | true => exact ⟨_, _, openClass_eq_ok_iff.mpr (.constants found isKey fresh isEnum)⟩
  | false => exact ⟨_, _, openClass_eq_ok_iff.mpr (.fields found isKey fresh isEnum)⟩

/-- A class with a text for a key can be met at any visited set. -/
theorem Model.exists_openClass {number : Nat} (visited : Visited)
    (text : ∀ entity, model[number]? = some entity → ∃ key, entity.key = .str key) :
    ∃ opened visited', model.openClass number visited = (.ok opened, visited') := by
  rcases found : model[number]? with _ | entity
  · exact ⟨_, _, openClass_eq_ok_iff.mpr (.missing found)⟩
  · obtain ⟨key, hKey⟩ := text entity found
    cases hHas : visited.has entity.key with
    | true => exact ⟨_, _, openClass_eq_ok_iff.mpr (.known found hKey hHas)⟩
    | false => exact exists_openClass_of_fresh found (by rw [hKey]; rfl) hHas

theorem Model.RefersTo.exists_openClass {type : FieldType} {target : Nat} (visited : Visited)
    (h : RefersTo model type target) :
    ∃ opened visited', model.openClass target visited = (.ok opened, visited') := by
  refine Model.exists_openClass visited fun entity found => ?_
  obtain ⟨other, foundOther, standard⟩ := h.found
  rw [found] at foundOther
  cases foundOther
  exact key_of_isStandard standard

/-- A type that was met once can be met at any visited set. -/
theorem Model.exists_openType {type : FieldType} {visited visited' : Visited} {opened : Opened}
    (h : model.openType type visited = (.ok opened, visited')) (other : Visited) :
    ∃ opened other', model.openType type other = (.ok opened, other') := by
  unfold openType at h ⊢
  rcases hExpandable : model.expandable type with error | answer
  · simp [hExpandable] at h
  · rw [hExpandable] at h
    rcases expandable_cases hExpandable with ⟨target, rfl, refers⟩ | ⟨rfl, _⟩
    · exact refers.exists_openClass other
    · obtain ⟨schema, hKind, -⟩ := map_eq_ok_iff.mp (Prod.mk.inj h).1
      exact ⟨.closed schema, other, Prod.ext (map_eq_ok_iff.mpr ⟨schema, hKind, rfl⟩) rfl⟩

/-- A field that was met once can be met at any visited set. -/
theorem Model.exists_openField {field : Field} {visited visited' : Visited} {opened : Opened}
    {slot : Slot} (h : model.openField field visited = (.ok (opened, slot), visited'))
    (other : Visited) :
    ∃ opened slot other', model.openField field other = (.ok (opened, slot), other') := by
  unfold openField at h ⊢
  rcases hShape : model.shape field.type with error | shape
  · simp [hShape] at h
  · simp only [hShape] at h ⊢
    have hOther : ∃ opened listed other',
        model.openShape shape other = (.ok (opened, listed), other') := by
      rcases shape_cases hShape with ⟨target, rfl, refers⟩ | ⟨element, rfl, _⟩ | ⟨schema, rfl, _⟩
      · obtain ⟨opened₁, other', hClass⟩ := refers.exists_openClass other
        exact ⟨opened₁, false, other', by simp [openShape, hClass, Except.map]⟩
      · rcases hType : model.openType element visited with ⟨error | opened₁, visited₁⟩
        · simp [openShape, hType, Except.map] at h
        · obtain ⟨opened₂, other', hType'⟩ := exists_openType hType other
          exact ⟨opened₂, true, other', by simp [openShape, hType', Except.map]⟩
      · exact ⟨.closed schema, false, other, rfl⟩
    obtain ⟨opened₁, listed, other', hOpened⟩ := hOther
    rcases hDescription : descriptionOf field.docComment with error | description
    · rcases hFirst : model.openShape shape visited with ⟨_ | ⟨_, _⟩, _⟩ <;>
        simp [hFirst, hDescription] at h
    · exact ⟨opened₁, ⟨field.name, listed, description⟩, other', by simp [hOpened]⟩

end Success

end ClassSchema
