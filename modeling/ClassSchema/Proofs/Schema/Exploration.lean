import Mathlib.Logic.Relation
import ClassSchema.Proofs.Schema.Meeting

/-!
# What a stretch of compiling explores

Compiling is a depth-first search: it follows the fields of classes and leaves
the keys of what it met in the visited set.

The argument about it is the one about white paths.  `Explores` lists what a
stretch of compiling does to the visited set, and stretches compose.  Two of its
parts pull in opposite directions: no key is added that cannot be reached, and
whatever is added has its own neighbours in the set in the end.

## Main results

* `Explores.mem_iff`: the keys behind a stretch of compiling.
* `CompilesFields.explores`, `Finishes.explores`: compiling is such a stretch.
-/

namespace ClassSchema

open Relation (ReflTransGen)

namespace Model

/-! ## Reachability -/

/-- One of the fields leads to the class. -/
def FieldsLeadTo (model : Model) (fields : List Field) (target : Nat) : Prop :=
  ∃ field ∈ fields, LeadsTo model field.type target

/-- A class is passed through: it is no enum, its key is not visited, and one of its fields leads
to the next class. -/
def Passes (model : Model) (visited : Visited) (number next : Nat) : Prop :=
  ∃ entity, model[number]? = some entity ∧ visited.has entity.key = false ∧
    entity.isEnum.truthy = false ∧ FieldsLeadTo model entity.fields next

/-- A class can be reached from a root over classes that are passed through. -/
def ReachableFrom (model : Model) (visited : Visited) (roots : Nat → Prop) (number : Nat) : Prop :=
  ∃ root, roots root ∧ ReflTransGen (Passes model visited) root number

/-- No two classes have the same key. -/
def DistinctKeys (model : Model) : Prop :=
  ∀ ⦃number other : Nat⦄ ⦃entity otherEntity : Entity⦄, model[number]? = some entity →
    model[other]? = some otherEntity → entity.key.sameKey otherEntity.key = true → number = other

end Model

open Model

/-! ## Visited sets -/

namespace Visited

theorem has_iff {visited : Visited} {key : Json} :
    visited.has key = true ↔ ∃ known ∈ visited, known.sameKey key = true := by
  simp [has]

/-- A larger set has more keys. -/
theorem has_mono {visited visited' : Visited} (h : visited ⊆ visited') {key : Json}
    (known : visited.has key = true) : visited'.has key = true := by
  obtain ⟨found, hMem, hSame⟩ := has_iff.mp known
  exact has_iff.mpr ⟨found, h hMem, hSame⟩

theorem not_has_mono {visited visited' : Visited} (h : visited ⊆ visited') {key : Json}
    (fresh : visited'.has key = false) : visited.has key = false := by
  rw [← Bool.not_eq_true] at fresh ⊢
  exact fun known => fresh (has_mono h known)

end Visited

/-! ## What a stretch of compiling does

The relation between the visited sets before and behind it.  Which fields were
compiled shows only in the roots they lead to.
-/

/-- A class opens its fields: each of them can be met, at some visited set at least. -/
def Model.Opens (model : Model) (fields : List Field) : Prop :=
  ∀ field ∈ fields, ∃ visited opened slot visited',
    model.openField field visited = (.ok (opened, slot), visited')

/-- Compiling started from the roots and turned one visited set into another. -/
structure Explores (model : Model) (roots : Nat → Prop) (visited visited' : Visited) : Prop where
  /-- No key is lost. -/
  mono : visited ⊆ visited'
  /-- A key is added only for a class that can be reached and was not visited. -/
  sound : ∀ key ∈ visited', key ∈ visited ∨ ∃ (number : Nat) (entity : Entity),
    model[number]? = some entity ∧ ReachableFrom model visited roots number ∧
      visited.has key = false ∧ entity.key = key
  /-- The roots are visited. -/
  covers : ∀ (root : Nat) (entity : Entity), roots root → model[root]? = some entity →
    visited'.has entity.key = true
  /-- What the fields of an added class lead to is visited. -/
  closed : ∀ (number : Nat) (entity : Entity), model[number]? = some entity →
    visited'.has entity.key = true → visited.has entity.key = false →
    entity.isEnum.truthy = false → ∀ (next : Nat) (other : Entity),
      FieldsLeadTo model entity.fields next → model[next]? = some other → visited'.has other.key = true
  /-- The fields of an added class could be met. -/
  opens : ∀ (number : Nat) (entity : Entity), model[number]? = some entity →
    visited'.has entity.key = true → visited.has entity.key = false →
    entity.isEnum.truthy = false → Opens model entity.fields

namespace Explores

variable {model : Model} {roots roots' : Nat → Prop} {visited visited₁ visited' : Visited}

/-- Nothing happens where all roots are visited. -/
theorem unchanged (h : ∀ (root : Nat) (entity : Entity), roots root →
    model[root]? = some entity → visited.has entity.key = true) :
    Explores model roots visited visited where
  mono := fun _ hMem => hMem
  sound := fun _ hMem => .inl hMem
  covers := h
  closed := by
    intro number entity _ known fresh
    simp [known] at fresh
  opens := by
    intro number entity _ known fresh
    simp [known] at fresh

/-- Only the roots themselves matter. -/
theorem congr (h : ∀ root, roots root ↔ roots' root)
    (explores : Explores model roots visited visited') :
    Explores model roots' visited visited' := by
  have hRoots : roots = roots' := funext fun root => propext (h root)
  exact hRoots ▸ explores

/-- A larger visited set leaves fewer classes to pass through. -/
theorem reachable_mono (h : visited ⊆ visited₁) {number : Nat}
    (hRoots : ∀ root, roots root → ReachableFrom model visited roots' root)
    (reachable : ReachableFrom model visited₁ roots number) :
    ReachableFrom model visited roots' number := by
  obtain ⟨root, hRoot, path⟩ := reachable
  obtain ⟨origin, hOrigin, start⟩ := hRoots root hRoot
  refine ⟨origin, hOrigin, start.trans (ReflTransGen.mono ?_ _ _ path)⟩
  rintro a b ⟨entity, found, fresh, notEnum, leads⟩
  exact ⟨entity, found, Visited.not_has_mono h fresh, notEnum, leads⟩

/-- Two stretches, one behind the other. -/
theorem trans (first : Explores model roots visited visited₁)
    (second : Explores model roots' visited₁ visited') :
    Explores model (fun root => roots root ∨ roots' root) visited visited' where
  mono := fun _ hMem => second.mono (first.mono hMem)
  sound := by
    intro key hMem
    rcases second.sound key hMem with hOld | ⟨number, entity, found, reachable, fresh, hKey⟩
    · rcases first.sound key hOld with hOlder | ⟨number, entity, found, reachable, fresh, hKey⟩
      · exact .inl hOlder
      · refine .inr ⟨number, entity, found, ?_, fresh, hKey⟩
        exact reachable_mono (fun _ h => h) (fun root hRoot => ⟨root, .inl hRoot, .refl⟩) reachable
    · refine .inr ⟨number, entity, found, ?_, Visited.not_has_mono first.mono fresh, hKey⟩
      exact reachable_mono first.mono (fun root hRoot => ⟨root, .inr hRoot, .refl⟩) reachable
  covers := by
    rintro root entity (hRoot | hRoot) found
    · exact Visited.has_mono second.mono (first.covers root entity hRoot found)
    · exact second.covers root entity hRoot found
  closed := by
    intro number entity found known fresh notEnum next other leads foundNext
    cases hMiddle : visited₁.has entity.key with
    | true =>
        exact Visited.has_mono second.mono
          (first.closed number entity found hMiddle fresh notEnum next other leads foundNext)
    | false =>
        exact second.closed number entity found known hMiddle notEnum next other leads foundNext
  opens := by
    intro number entity found known fresh notEnum
    cases hMiddle : visited₁.has entity.key with
    | true => exact first.opens number entity found hMiddle fresh notEnum
    | false => exact second.opens number entity found known hMiddle notEnum

/-! ### Meeting a class -/

variable {number : Nat} {entity : Entity}

/-- If one key is added and it is that of a class that was missing, the class is the one added. -/
private theorem eq_of_new (distinct : DistinctKeys model) (found : model[number]? = some entity)
    {other : Nat} {otherEntity : Entity} (foundOther : model[other]? = some otherEntity)
    (fresh : visited.has otherEntity.key = false)
    (known : Visited.has (entity.key :: visited) otherEntity.key = true) :
    other = number ∧ otherEntity = entity := by
  rw [Visited.has_cons, fresh, Bool.or_false] at known
  have hNumber : number = other := distinct found foundOther known
  rw [← hNumber, found] at foundOther
  exact ⟨hNumber.symm, (Option.some.inj foundOther).symm⟩

/-- A class that is not visited is added, and then its fields are compiled. -/
theorem added (distinct : DistinctKeys model) (found : model[number]? = some entity)
    (isKey : entity.key.isKey = true) (fresh : visited.has entity.key = false)
    (inner : Explores model
      (fun next => entity.isEnum.truthy = false ∧ FieldsLeadTo model entity.fields next)
      (entity.key :: visited) visited')
    (opens : entity.isEnum.truthy = false → Opens model entity.fields) :
    Explores model (· = number) visited visited' where
  mono := fun _ hMem => inner.mono (List.mem_cons_of_mem _ hMem)
  sound := by
    intro key hMem
    rcases inner.sound key hMem with hOld | ⟨next, other, foundNext, reachable, freshKey, hKey⟩
    · rcases List.mem_cons.mp hOld with rfl | hOlder
      · exact .inr ⟨number, entity, found, ⟨number, rfl, .refl⟩, fresh, rfl⟩
      · exact .inl hOlder
    · have hSub : visited ⊆ entity.key :: visited := List.subset_cons_self _ _
      refine .inr ⟨next, other, foundNext, ?_, Visited.not_has_mono hSub freshKey, hKey⟩
      refine reachable_mono hSub ?_ reachable
      rintro root ⟨notEnum, leads⟩
      exact ⟨number, rfl, .single ⟨entity, found, fresh, notEnum, leads⟩⟩
  covers := by
    rintro root other rfl foundRoot
    rw [found] at foundRoot
    cases foundRoot
    refine Visited.has_mono inner.mono ?_
    rw [Visited.has_cons, Json.sameKey_self isKey, Bool.true_or]
  closed := by
    intro other otherEntity foundOther knownOther freshOther notEnum next target leads foundNext
    cases hMiddle : Visited.has (entity.key :: visited) otherEntity.key with
    | true =>
        obtain ⟨rfl, rfl⟩ := eq_of_new distinct found foundOther freshOther hMiddle
        exact inner.covers next target ⟨notEnum, leads⟩ foundNext
    | false =>
        exact inner.closed other otherEntity foundOther knownOther hMiddle notEnum next target
          leads foundNext
  opens := by
    intro other otherEntity foundOther knownOther freshOther notEnum
    cases hMiddle : Visited.has (entity.key :: visited) otherEntity.key with
    | true =>
        obtain ⟨rfl, rfl⟩ := eq_of_new distinct found foundOther freshOther hMiddle
        exact opens notEnum
    | false => exact inner.opens other otherEntity foundOther knownOther hMiddle notEnum

/-! ### White paths -/

/-- A class that can be reached is visited in the end. -/
theorem has_of_reachable (explores : Explores model roots visited visited')
    (reachable : ReachableFrom model visited roots number) (found : model[number]? = some entity) :
    visited'.has entity.key = true := by
  obtain ⟨root, hRoot, path⟩ := reachable
  induction path generalizing entity with
  | refl => exact explores.covers root entity hRoot found
  | tail _ hPasses ih =>
      obtain ⟨before, foundBefore, fresh, notEnum, leads⟩ := hPasses
      exact explores.closed _ before foundBefore (ih foundBefore) fresh notEnum _ entity leads found

/-- **Visited keys are reachable keys.**  Behind a stretch, the visited set holds what it held
before and the keys, if they are new, of the classes that can be reached. -/
theorem mem_iff (distinct : DistinctKeys model) (explores : Explores model roots visited visited')
    (key : Json) :
    key ∈ visited' ↔ key ∈ visited ∨ ∃ (number : Nat) (entity : Entity),
      model[number]? = some entity ∧ ReachableFrom model visited roots number ∧
        visited.has key = false ∧ entity.key = key := by
  constructor
  · exact explores.sound key
  · rintro (hOld | ⟨number, entity, found, reachable, fresh, rfl⟩)
    · exact explores.mono hOld
    · obtain ⟨known, hMem, hSame⟩ :=
        Visited.has_iff.mp (explores.has_of_reachable reachable found)
      rcases explores.sound known hMem with hOld | ⟨other, otherEntity, foundOther, _, _, rfl⟩
      · have hKnown : visited.has entity.key = true := Visited.has_iff.mpr ⟨known, hOld, hSame⟩
        simp [hKnown] at fresh
      · obtain rfl := distinct foundOther found hSame
        rw [found] at foundOther
        cases foundOther
        exact hMem

end Explores

/-! ## Compiling explores -/

section Compiling

variable {model : Model} {visited visited₁ visited' : Visited} {opened : Opened}

/-- What follows a class that is met: nothing where it is known, and its fields where they are
compiled. -/
theorem Explores.of_openClass (distinct : DistinctKeys model) {number : Nat}
    (h : model.openClass number visited = (.ok opened, visited₁))
    (inner : match opened with
      | .closed _ => visited' = visited₁
      | .pending _ fields =>
          Explores model (FieldsLeadTo model fields) visited₁ visited' ∧ Opens model fields) :
    Explores model (· = number) visited visited' := by
  cases openClass_eq_ok_iff.mp h with
  | missing hNone =>
      obtain rfl : visited' = visited := inner
      refine .unchanged ?_
      rintro root entity rfl found
      rw [hNone] at found
      cases found
  | known hFound _ known =>
      obtain rfl : visited' = visited := inner
      refine .unchanged ?_
      rintro root other rfl found
      rw [hFound] at found
      cases found
      exact known
  | @constants entity hFound isKey fresh isEnum =>
      obtain rfl : visited' = entity.key :: visited := inner
      refine .added distinct hFound isKey fresh (.unchanged ?_) (by simp [isEnum])
      rintro root other ⟨notEnum, _⟩
      simp [isEnum] at notEnum
  | fields hFound isKey fresh notEnum =>
      obtain ⟨explores, opens⟩ := inner
      refine .added distinct hFound isKey fresh (explores.congr fun root => ?_) fun _ => opens
      simp [notEnum]

theorem fieldsLeadTo_cons (field : Field) (fields : List Field) (target : Nat) :
    FieldsLeadTo model (field :: fields) target ↔
      LeadsTo model field.type target ∨ FieldsLeadTo model fields target := by
  simp [FieldsLeadTo]

/-- **Compiling fields explores what they lead to.**  One case for each way a field is met. -/
theorem CompilesFields.explores (distinct : DistinctKeys model) {fields : List Field}
    {properties properties' : List (String × Property)}
    (h : CompilesFields model fields properties visited properties' visited') :
    Explores model (FieldsLeadTo model fields) visited visited' ∧ Opens model fields := by
  induction h with
  | done properties visited =>
      refine ⟨.unchanged ?_, by simp [Opens]⟩
      rintro root entity ⟨field, hMem, _⟩
      cases hMem
  | closed opened _ ih =>
      refine ⟨?_, List.forall_mem_cons.mpr ⟨⟨_, _, _, _, opened⟩, ih.2⟩⟩
      rcases openField_cases opened with ⟨target, leads, hClass⟩ | ⟨rfl, _, none⟩
      · refine ((Explores.of_openClass distinct hClass rfl).trans ih.1).congr fun root => ?_
        rw [fieldsLeadTo_cons, leads]
      · refine ih.1.congr fun root => ?_
        simp [fieldsLeadTo_cons, none]
  | nested opened _ _ ihInner ih =>
      refine ⟨?_, List.forall_mem_cons.mpr ⟨⟨_, _, _, _, opened⟩, ih.2⟩⟩
      rcases openField_cases opened with ⟨target, leads, hClass⟩ | ⟨_, ⟨schema, hClosed⟩, _⟩
      · refine ((Explores.of_openClass distinct hClass ihInner).trans ih.1).congr fun root => ?_
        rw [fieldsLeadTo_cons, leads]
      · cases hClosed

/-- Compiling what was met explores the class that was met. -/
theorem Finishes.explores (distinct : DistinctKeys model) {number : Nat} {schema : Schema}
    (h : model.openClass number visited = (.ok opened, visited₁))
    (finishes : Finishes model opened visited₁ schema visited') :
    Explores model (· = number) visited visited' := by
  refine .of_openClass distinct h ?_
  cases finishes with
  | closed => rfl
  | pending hFields => exact hFields.explores distinct

end Compiling

end ClassSchema
