import ClassSchema.Proofs.Schema.Exploration

/-!
# Visited keys are reachable keys

This file says which keys are visited in the end without mentioning any order:
those that were visited at the start, and the keys of the classes that can be
reached over classes that are neither enums nor visited at the start.

Whether a field can be met does not depend on the visited set, so steps that
succeed in one order succeed in every other order, unless two of them would be
the first to meet the same class without a comparable name.

## Main results

* `Steps.exists_of_perm`: steps that succeed in one order succeed in any other.
* `visited_eq_reachable`: the visited set is reachability, and the order of the
  steps does not matter.
-/

namespace ClassSchema

open Model

/-! ## Compiling succeeds where all fields can be met

Whether a field can be met does not depend on the visited set, so it is enough
that the fields of the classes that can be reached were met some time.
-/

section Success

variable {model : Model}

/-- All classes that can be reached, and would be opened, open their fields. -/
def Model.AllOpen (model : Model) (visited : Visited) (roots : Nat → Prop) : Prop :=
  ∀ (number : Nat) (entity : Entity), model[number]? = some entity →
    ReachableFrom model visited roots number → visited.has entity.key = false →
    entity.isEnum.truthy = false → Opens model entity.fields

theorem Model.AllOpen.mono {visited visited₁ : Visited} {roots roots' : Nat → Prop}
    (all : AllOpen model visited roots') (h : visited ⊆ visited₁)
    (hRoots : ∀ root, roots root → ReachableFrom model visited roots' root) :
    AllOpen model visited₁ roots := by
  intro number entity found reachable fresh notEnum
  exact all number entity found (Explores.reachable_mono h hRoots reachable)
    (Visited.not_has_mono h fresh) notEnum

/-- Fields can be compiled if they and those of all classes behind them can be met.  The induction
is on a bound for the work in classes that are not visited. -/
theorem exists_compilesFields (bound : Nat) {visited : Visited}
    (bounded : Walk.unmet visited model < bound) {fields : List Field} (opens : Opens model fields)
    (all : AllOpen model visited (FieldsLeadTo model fields))
    (properties : List (String × Property)) :
    ∃ properties' visited',
      CompilesFields model fields properties visited properties' visited' := by
  induction bound generalizing visited fields properties with
  | zero => omega
  | succ bound ihBound =>
      induction fields generalizing visited properties with
      | nil => exact ⟨properties, visited, .done properties visited⟩
      | cons field fields ihFields =>
          obtain ⟨⟨_, _, _, _, hOnce⟩, opensRest⟩ := List.forall_mem_cons.mp opens
          obtain ⟨opened, slot, visited₁, hField⟩ := exists_openField hOnce visited
          have hWork := Walk.openField_work hField
          have rest : ∀ {visited₂ : Visited}, visited ⊆ visited₂ →
              AllOpen model visited₂ (FieldsLeadTo model fields) := fun hSub =>
            all.mono hSub fun root leads =>
              ⟨root, (fieldsLeadTo_cons field fields root).mpr (.inr leads), .refl⟩
          cases opened with
          | closed schema =>
              have hBound : Walk.unmet visited₁ model < bound + 1 := by
                simp only [Walk.Opened.work] at hWork
                omega
              obtain ⟨properties', visited', hRest⟩ := ihFields hBound opensRest
                (rest (openField_subset hField))
                (OrderedMap.put slot.name (slot.fill schema) properties)
              exact ⟨properties', visited', .closed hField hRest⟩
          | pending title inner =>
              simp only [Walk.Opened.work] at hWork
              rcases openField_cases hField with ⟨target, leads, hClass⟩ | ⟨_, ⟨_, hClosed⟩, _⟩
              · have hRoot : FieldsLeadTo model (field :: fields) target :=
                  (fieldsLeadTo_cons field fields target).mpr (.inl ((leads target).mpr rfl))
                cases openClass_eq_ok_iff.mp hClass with
                | @fields entity hFound _ fresh notEnum =>
                  have hSub : visited ⊆ entity.key :: visited := List.subset_cons_self _ _
                  have hBound : Walk.unmet (entity.key :: visited) model < bound := by omega
                  obtain ⟨innerProperties, visited₂, hInner⟩ :=
                    ihBound hBound
                      (all target entity hFound ⟨target, hRoot, .refl⟩ fresh notEnum)
                      (all.mono hSub fun root leads' =>
                        ⟨target, hRoot, .single ⟨entity, hFound, fresh, notEnum, leads'⟩⟩) []
                  have hUnmet := hInner.unmet_le
                  have hSub₂ : visited ⊆ visited₂ := fun _ hMem => hInner.subset (hSub hMem)
                  have hBound₂ : Walk.unmet visited₂ model < bound + 1 := by omega
                  obtain ⟨properties', visited', hRest⟩ :=
                    ihFields hBound₂ opensRest (rest hSub₂)
                      (OrderedMap.put slot.name
                        (slot.fill (.object entity.simpleName innerProperties)) properties)
                  exact ⟨properties', visited', .nested hField hInner hRest⟩
              · cases hClosed

/-- A class that is met can be compiled if all classes behind it open their fields. -/
theorem exists_finishes {number : Nat} {visited visited₁ : Visited} {opened : Opened}
    (h : model.openClass number visited = (.ok opened, visited₁))
    (all : AllOpen model visited (· = number)) :
    ∃ schema visited', Finishes model opened visited₁ schema visited' := by
  cases opened with
  | closed schema => exact ⟨schema, visited₁, .closed schema visited₁⟩
  | pending title fields =>
      cases openClass_eq_ok_iff.mp h with
      | @fields entity hFound _ fresh notEnum =>
          obtain ⟨properties, visited', hFields⟩ :=
            exists_compilesFields _ (Nat.lt_succ_self _)
              (all number entity hFound ⟨number, rfl, .refl⟩ fresh notEnum)
              (all.mono (List.subset_cons_self entity.key visited) fun root leads =>
                ⟨number, rfl, .single ⟨entity, hFound, fresh, notEnum, leads⟩⟩) []
          exact ⟨_, visited', .pending hFields⟩

end Success

/-! ## Steps

A converter is asked for the schemas of classes, fields and types, one after the
other, with one visited set.
-/

/-- What a converter is asked for. -/
inductive Step where
  /-- The schema of a class. -/
  | ofClass (number : Nat)
  /-- The property of a field. -/
  | ofField (field : Field)
  /-- The schema of a type as the element of a sequence. -/
  | ofType (type : FieldType)

namespace Step

/-- The step gives a schema and changes the visited set. -/
def Succeeds (model : Model) (visited visited' : Visited) : Step → Prop
  | ofClass number => ∃ schema, model.compileClass number visited = (.ok schema, visited')
  | ofField field => ∃ property, model.compileField field visited = (.ok property, visited')
  | ofType type => ∃ schema, model.compileType type visited = (.ok schema, visited')

/-- The step starts at the class. -/
def StartsAt (model : Model) (target : Nat) : Step → Prop
  | ofClass number => target = number
  | ofField field => LeadsTo model field.type target
  | ofType type => RefersTo model type target

/-- A step explores what it starts at. -/
theorem explores {model : Model} (distinct : DistinctKeys model) {step : Step}
    {visited visited' : Visited} (h : step.Succeeds model visited visited') :
    Explores model (step.StartsAt model ·) visited visited' := by
  have nowhere : ∀ {roots : Nat → Prop} {opened : Opened} {schema closed : Schema}
      {visited₁ : Visited}, Finishes model opened visited₁ schema visited' →
      visited₁ = visited → opened = .closed closed → (∀ root, ¬ roots root) →
        Explores model roots visited visited' := by
    rintro roots opened schema closed visited₁ hFinishes rfl rfl none
    cases hFinishes
    exact .unchanged fun root _ hRoot _ => absurd hRoot (none root)
  cases step with
  | ofClass number =>
      obtain ⟨schema, hSchema⟩ := h
      obtain ⟨opened, visited₁, hClass, hFinishes⟩ := compileClass_eq_ok_iff.mp hSchema
      exact hFinishes.explores distinct hClass
  | ofField field =>
      obtain ⟨property, hProperty⟩ := h
      obtain ⟨opened, slot, visited₁, schema, hField, hFinishes, _⟩ :=
        compileField_eq_ok_iff.mp hProperty
      rcases openField_cases hField with ⟨target, leads, hClass⟩ | ⟨hSame, ⟨closed, hClosed⟩, none⟩
      · refine (hFinishes.explores distinct hClass).congr fun root => ?_
        exact (leads root).symm
      · exact nowhere hFinishes hSame hClosed none
  | ofType type =>
      obtain ⟨schema, hSchema⟩ := h
      obtain ⟨opened, visited₁, hType, hFinishes⟩ := compileType_eq_ok_iff.mp hSchema
      rcases openType_cases hType with ⟨target, refers, hClass⟩ | ⟨hSame, ⟨_, _, hClosed⟩, none⟩
      · refine (hFinishes.explores distinct hClass).congr fun root => ?_
        exact ⟨fun hEq => hEq ▸ refers, fun refers' => refers.unique refers'⟩
      · exact nowhere hFinishes hSame hClosed none

/-- The class of a step that starts at it through a type has a text for a key. -/
theorem text_of_startsAt {model : Model} {step : Step} {target : Nat} {entity : Entity}
    (starts : step.StartsAt model target) (found : model[target]? = some entity) :
    step = ofClass target ∨ ∃ key, entity.key = .str key := by
  have text : (∃ other, model[target]? = some other ∧ other.isStandard = .ok false) →
      ∃ key, entity.key = .str key := by
    rintro ⟨other, foundOther, standard⟩
    rw [found] at foundOther
    cases foundOther
    exact key_of_isStandard standard
  cases step with
  | ofClass number => exact .inl (congrArg ofClass (Eq.symm starts))
  | ofField field => exact .inr (text (LeadsTo.found starts))
  | ofType type => exact .inr (text (RefersTo.found starts))

/-- A step that succeeded once succeeds at any visited set, if the class it asks for has a text
for a key or is not visited, and all classes behind it open their fields. -/
theorem exists_succeeds {model : Model} {step : Step}
    {once once' visited : Visited} (h : step.Succeeds model once once')
    (ready : ∀ (number : Nat) (entity : Entity), step = ofClass number →
      model[number]? = some entity →
        (∃ key, entity.key = .str key) ∨ visited.has entity.key = false)
    (all : AllOpen model visited (step.StartsAt model ·)) :
    ∃ visited', step.Succeeds model visited visited' := by
  cases step with
  | ofClass number =>
      obtain ⟨_, hOnce⟩ := h
      obtain ⟨_, _, hOnce, _⟩ := compileClass_eq_ok_iff.mp hOnce
      have hClass : ∃ opened visited₁,
          model.openClass number visited = (.ok opened, visited₁) := by
        rcases hFound : model[number]? with _ | entity
        · exact exists_openClass visited (by simp [hFound])
        · rcases ready number entity rfl hFound with text | fresh
          · refine exists_openClass visited fun other found => ?_
            rw [hFound] at found
            cases found
            exact text
          · exact exists_openClass_of_fresh hFound (isKey_of_openClass hFound hOnce) fresh
      obtain ⟨opened, visited₁, hClass⟩ := hClass
      obtain ⟨schema, visited', hFinishes⟩ := exists_finishes hClass all
      exact ⟨visited', schema, compileClass_eq_ok_iff.mpr ⟨_, _, hClass, hFinishes⟩⟩
  | ofField field =>
      obtain ⟨_, hOnce⟩ := h
      obtain ⟨_, _, _, _, hOnce, _, _⟩ := compileField_eq_ok_iff.mp hOnce
      obtain ⟨opened, slot, visited₁, hField⟩ := exists_openField hOnce visited
      rcases openField_cases hField with ⟨target, leads, hClass⟩ | ⟨_, ⟨schema, rfl⟩, _⟩
      · obtain ⟨schema, visited', hFinishes⟩ := exists_finishes hClass
          (all.mono (fun _ hMem => hMem) fun root hRoot =>
            ⟨root, (leads root).mpr hRoot, .refl⟩)
        exact ⟨visited', _, compileField_eq_ok_iff.mpr ⟨_, _, _, _, hField, hFinishes, rfl⟩⟩
      · exact ⟨visited₁, _, compileField_eq_ok_iff.mpr
          ⟨_, _, _, _, hField, .closed schema visited₁, rfl⟩⟩
  | ofType type =>
      obtain ⟨_, hOnce⟩ := h
      obtain ⟨_, _, hOnce, _⟩ := compileType_eq_ok_iff.mp hOnce
      obtain ⟨opened, visited₁, hType⟩ := exists_openType hOnce visited
      rcases openType_cases hType with ⟨target, refers, hClass⟩ | ⟨_, ⟨kind, _, rfl⟩, _⟩
      · obtain ⟨schema, visited', hFinishes⟩ := exists_finishes hClass
          (all.mono (fun _ hMem => hMem) fun root hRoot => ⟨root, hRoot ▸ refers, .refl⟩)
        exact ⟨visited', _, compileType_eq_ok_iff.mpr ⟨_, _, hType, hFinishes⟩⟩
      · exact ⟨visited₁, _, compileType_eq_ok_iff.mpr ⟨_, _, hType, .closed (.bare kind) visited₁⟩⟩

/-- Two steps ask for one class whose key is no text; then the second one fails. -/
def Clash (model : Model) (step other : Step) : Prop :=
  ∃ (number : Nat) (entity : Entity), model[number]? = some entity ∧
    (¬ ∃ key, entity.key = .str key) ∧ step = ofClass number ∧ other = ofClass number

/-- A class whose key is no text can only be asked for while it is not visited. -/
theorem fresh_of_succeeds {model : Model} {visited visited' : Visited} {number : Nat}
    {entity : Entity} (found : model[number]? = some entity)
    (noText : ¬ ∃ key, entity.key = .str key)
    (h : (ofClass number).Succeeds model visited visited') : visited.has entity.key = false := by
  obtain ⟨schema, hSchema⟩ := h
  obtain ⟨opened, visited₁, hClass, _⟩ := compileClass_eq_ok_iff.mp hSchema
  cases openClass_eq_ok_iff.mp hClass with
  | missing hNone =>
      rw [hNone] at found
      cases found
  | known hFound hText =>
      rw [hFound] at found
      cases found
      exact absurd ⟨_, hText⟩ noText
  | constants hFound _ fresh | fields hFound _ fresh =>
      rw [hFound] at found
      cases found
      exact fresh

/-- A class whose key is no text is visited by no step but the one that asks for it. -/
theorem fresh_behind {model : Model} (distinct : DistinctKeys model) {step : Step}
    {visited visited' : Visited} (h : step.Succeeds model visited visited') {number : Nat}
    {entity : Entity} (found : model[number]? = some entity)
    (noText : ¬ ∃ key, entity.key = .str key) (fresh : visited.has entity.key = false)
    (notAsked : step ≠ ofClass number) : visited'.has entity.key = false := by
  rw [← Bool.not_eq_true]
  intro known
  obtain ⟨key, hMem, hSame⟩ := Visited.has_iff.mp known
  rcases (explores distinct h).sound key hMem with
    hOld | ⟨other, otherEntity, foundOther, reachable, _, rfl⟩
  · have knownBefore : visited.has entity.key = true := Visited.has_iff.mpr ⟨key, hOld, hSame⟩
    simp [knownBefore] at fresh
  · -- the step added the key itself, so it asked for this very class or was led to it
    obtain rfl := distinct foundOther found hSame
    obtain ⟨root, starts, path⟩ := reachable
    rcases path.cases_tail with rfl | ⟨_, _, _, _, _, _, _, _, leads⟩
    · rcases text_of_startsAt starts found with hStep | text
      · exact notAsked hStep
      · exact noText text
    · obtain ⟨leadEntity, foundLead, standard⟩ := leads.found
      rw [found] at foundLead
      cases foundLead
      exact noText (key_of_isStandard standard)

end Step

/-- Steps that succeed one after the other, with one visited set. -/
inductive Steps (model : Model) : List Step → Visited → Visited → Prop where
  | none (visited : Visited) : Steps model [] visited visited
  | more {step : Step} {steps : List Step} {visited visited₁ visited' : Visited} :
      step.Succeeds model visited visited₁ → Steps model steps visited₁ visited' →
      Steps model (step :: steps) visited visited'

namespace Steps

variable {model : Model} {steps : List Step} {visited visited' : Visited}

/-- A sequence of steps explores what the steps start at. -/
theorem explores (distinct : DistinctKeys model) (h : Steps model steps visited visited') :
    Explores model (fun target => ∃ step ∈ steps, step.StartsAt model target)
      visited visited' := by
  induction h with
  | none =>
      refine .unchanged ?_
      rintro root entity ⟨step, hMem, _⟩
      cases hMem
  | more succeeds _ ih =>
      refine ((Step.explores distinct succeeds).trans ih).congr fun root => ?_
      simp

/-- Each step succeeds at some visited set. -/
theorem exists_of_mem (h : Steps model steps visited visited') {step : Step} (mem : step ∈ steps) :
    ∃ before behind, step.Succeeds model before behind := by
  induction h with
  | none => cases mem
  | more succeeds _ ih =>
      rcases List.mem_cons.mp mem with rfl | mem
      · exact ⟨_, _, succeeds⟩
      · exact ih mem

/-- The classes that steps ask for, and whose keys are no texts, are not visited beforehand. -/
theorem fresh_of_mem (distinct : DistinctKeys model) (h : Steps model steps visited visited')
    {number : Nat} {entity : Entity} (mem : Step.ofClass number ∈ steps)
    (found : model[number]? = some entity) (noText : ¬ ∃ key, entity.key = .str key) :
    visited.has entity.key = false := by
  induction h with
  | none => cases mem
  | more succeeds _ ih =>
      rcases List.mem_cons.mp mem with rfl | mem
      · exact Step.fresh_of_succeeds found noText succeeds
      · exact Visited.not_has_mono (Step.explores distinct succeeds).mono (ih mem)

/-- No class whose key is no text is asked for twice. -/
theorem pairwise_not_clash (distinct : DistinctKeys model)
    (h : Steps model steps visited visited') :
    steps.Pairwise fun step other => ¬ Step.Clash model step other := by
  induction h with
  | none => exact .nil
  | more succeeds hRest ih =>
      refine .cons ?_ ih
      rintro other mem ⟨number, entity, found, noText, rfl, rfl⟩
      have known := (Step.explores distinct succeeds).covers number entity rfl found
      have fresh := fresh_of_mem distinct hRest mem found noText
      simp [known] at fresh

/-- Steps succeed one after the other if each succeeds alone, no two of them clash, and all
classes behind them open their fields. -/
theorem exists_of_all (distinct : DistinctKeys model)
    (each : ∀ step ∈ steps, ∃ before behind, step.Succeeds model before behind)
    (noClash : steps.Pairwise fun step other => ¬ Step.Clash model step other)
    (fresh : ∀ (number : Nat) (entity : Entity), .ofClass number ∈ steps →
      model[number]? = some entity → (¬ ∃ key, entity.key = .str key) →
        visited.has entity.key = false)
    (all : AllOpen model visited fun target => ∃ step ∈ steps, step.StartsAt model target) :
    ∃ visited', Steps model steps visited visited' := by
  induction steps generalizing visited with
  | nil => exact ⟨visited, .none visited⟩
  | cons step steps ih =>
      obtain ⟨before, behind, hOnce⟩ := each step (by simp)
      obtain ⟨noClashFirst, noClashRest⟩ := List.pairwise_cons.mp noClash
      have ready : ∀ (number : Nat) (entity : Entity), step = .ofClass number →
          model[number]? = some entity →
            (∃ key, entity.key = .str key) ∨ visited.has entity.key = false := by
        intro number entity hStep found
        by_cases text : ∃ key, entity.key = .str key
        · exact .inl text
        · exact .inr (fresh number entity (by simp [hStep]) found text)
      obtain ⟨visited₁, succeeds⟩ := Step.exists_succeeds hOnce ready
        (all.mono (fun _ hMem => hMem) fun root starts => ⟨root, ⟨step, by simp, starts⟩, .refl⟩)
      have freshRest : ∀ (number : Nat) (entity : Entity), .ofClass number ∈ steps →
          model[number]? = some entity → (¬ ∃ key, entity.key = .str key) →
            visited₁.has entity.key = false := by
        intro number entity mem found noText
        apply Step.fresh_behind distinct succeeds found noText
        · exact fresh number entity (List.mem_cons_of_mem _ mem) found noText
        · intro hStep
          exact noClashFirst _ mem ⟨number, entity, found, noText, hStep, rfl⟩
      obtain ⟨visited', hRest⟩ := ih (fun other mem => each other (List.mem_cons_of_mem _ mem))
        noClashRest freshRest (all.mono (Step.explores distinct succeeds).mono
          fun root ⟨other, mem, starts⟩ =>
            ⟨root, ⟨other, List.mem_cons_of_mem _ mem, starts⟩, .refl⟩)
      exact ⟨visited', .more succeeds hRest⟩

/-- Steps that succeed in one order succeed in any other. -/
theorem exists_of_perm (distinct : DistinctKeys model) (h : Steps model steps visited visited')
    {others : List Step} (perm : others.Perm steps) :
    ∃ behind, Steps model others visited behind := by
  have explores := h.explores distinct
  refine exists_of_all distinct ?_ ?_ ?_ ?_
  · exact fun step mem => h.exists_of_mem (perm.mem_iff.mp mem)
  · refine (perm.pairwise_iff ?_).mpr (h.pairwise_not_clash distinct)
    rintro step other noClash ⟨number, entity, found, noText, hStep, hOther⟩
    exact noClash ⟨number, entity, found, noText, hOther, hStep⟩
  · exact fun number entity mem => h.fresh_of_mem distinct (perm.mem_iff.mp mem)
  · intro number entity found reachable fresh notEnum
    have reachable' : ReachableFrom model visited
        (fun target => ∃ step ∈ steps, step.StartsAt model target) number :=
      Explores.reachable_mono (fun _ hMem => hMem)
        (fun root ⟨step, mem, starts⟩ => ⟨root, ⟨step, perm.mem_iff.mp mem, starts⟩, .refl⟩)
        reachable
    exact explores.opens number entity found (explores.has_of_reachable reachable' found) fresh
      notEnum

end Steps

/-- **Visited sets are reachability, in any order.**  Steps that succeed add to the visited set the
keys, as far as they are new, of the classes that can be reached from where the steps start; and
the same steps in any other order succeed as well and end with the same set. -/
theorem visited_eq_reachable {model : Model} (distinct : DistinctKeys model) {steps : List Step}
    {visited visited' : Visited} (h : Steps model steps visited visited') :
    (∀ key, key ∈ visited' ↔ key ∈ visited ∨ ∃ (number : Nat) (entity : Entity),
      model[number]? = some entity ∧
        ReachableFrom model visited (fun target => ∃ step ∈ steps, step.StartsAt model target)
          number ∧
        visited.has key = false ∧ entity.key = key) ∧
    ∀ others : List Step, others.Perm steps →
      ∃ behind, Steps model others visited behind ∧ ∀ key, key ∈ behind ↔ key ∈ visited' := by
  have explores := h.explores distinct
  refine ⟨explores.mem_iff distinct, ?_⟩
  intro others perm
  obtain ⟨behind, hOthers⟩ := h.exists_of_perm distinct perm
  refine ⟨behind, hOthers, fun key => ?_⟩
  have sameRoots : ∀ target, (∃ step ∈ others, step.StartsAt model target) ↔
      ∃ step ∈ steps, step.StartsAt model target := by
    intro target
    simp only [perm.mem_iff]
  have exploresOthers := (hOthers.explores distinct).congr sameRoots
  rw [exploresOthers.mem_iff distinct, explores.mem_iff distinct]

/-- Shelves with books, books with a shelf, and authors to whom only a map leads. -/
def shelves : Model :=
  [⟨"Shelf", .str "l.Shelf", .bool false, .bool false, [],
    [⟨"books", .parameterized "java.util.List" [.reference 1], .null, .bool false⟩,
     ⟨"index", .parameterized "java.util.Map" [.scalar "java.lang.String", .reference 2], .null,
       .bool false⟩]⟩,
   ⟨"Book", .str "l.Book", .bool false, .bool false, [],
    [⟨"shelf", .reference 0, .null, .bool false⟩]⟩,
   ⟨"Author", .str "l.Author", .bool false, .bool false, [], []⟩]

/-- The class of shelves, and then a list of authors. -/
def shelfSteps : List Step :=
  [.ofClass 0, .ofField ⟨"authors", .array (.reference 2), .null, .bool false⟩]

theorem shelves_distinctKeys : DistinctKeys shelves := by
  intro number other entity otherEntity found foundOther same
  match number, other with
  | 0, 0 | 1, 1 | 2, 2 => rfl
  | 0, 1 | 0, 2 | 1, 0 | 1, 2 | 2, 0 | 2, 1 =>
      cases found
      cases foundOther
      simp [Entity.key, Json.truthy] at same
  | _ + 3, _ => simp [shelves] at found
  | _, _ + 3 => simp [shelves] at foundOther

theorem shelfSteps_succeed :
    Steps shelves shelfSteps [] [.str "l.Author", .str "l.Book", .str "l.Shelf"] := by
  have ofShelf : (Step.ofClass 0).Succeeds shelves [] [.str "l.Book", .str "l.Shelf"] :=
    ⟨_, Model.compileClass_eq_ok_iff.mpr ⟨_, _, rfl,
      .pending (.nested rfl (.closed rfl (.done _ _)) (.closed rfl (.done _ _)))⟩⟩
  have ofAuthors : (Step.ofField ⟨"authors", .array (.reference 2), .null, .bool false⟩).Succeeds
      shelves [.str "l.Book", .str "l.Shelf"] [.str "l.Author", .str "l.Book", .str "l.Shelf"] :=
    ⟨_, Model.compileField_eq_ok_iff.mpr ⟨_, _, _, _, rfl, .pending (.done _ _), rfl⟩⟩
  exact .more ofShelf (.more ofAuthors (.none _))

/-- The map adds no author, the array does, and it may come first. -/
theorem visited_shelves :
    DistinctKeys shelves ∧
      Steps shelves shelfSteps [] [.str "l.Author", .str "l.Book", .str "l.Shelf"] ∧
      (∃ (number : Nat) (entity : Entity), shelves[number]? = some entity ∧
        ReachableFrom shelves []
          (fun target => ∃ step ∈ shelfSteps, step.StartsAt shelves target) number ∧
        entity.key = .str "l.Book") ∧
      ∃ behind, Steps shelves shelfSteps.reverse [] behind ∧
        ∀ key, key ∈ behind ↔ key ∈ [.str "l.Author", .str "l.Book", Json.str "l.Shelf"] := by
  have both := visited_eq_reachable shelves_distinctKeys shelfSteps_succeed
  refine ⟨shelves_distinctKeys, shelfSteps_succeed, ?_, both.2 _ (List.reverse_perm _)⟩
  rcases (both.1 (.str "l.Book")).mp (by simp) with
    hOld | ⟨number, entity, found, reachable, _, hKey⟩
  · cases hOld
  · exact ⟨number, entity, found, reachable, hKey⟩

end ClassSchema
