import ClassSchema.Proofs.Schema.Reachability

/-!
# Keys out of reach

The visited set decides about the classes that are met and about nothing else.  So keys
that no class has that can be reached might as well be visited beforehand.

Two walks over the same fields, of which the second one starts with more visited keys,
stay in step.  Whatever the first one meets can be reached, so no membership test tells
them apart; and they add the same keys.  A map refers to the class of its values without
looking at the visited set, and takes no part in this.

## Main results

* `Walk.InStep.step`, `Walk.InStep.run`: a step keeps two walks in step, and so they come
  to the same result.
* `unreachable_keys_irrelevant`: keys out of reach change no schema and no error.
-/

namespace ClassSchema

open Relation (ReflTransGen)
open Model

/-! ## More visited keys -/

/-- A visited set with the keys of two others. -/
def Visited.IsUnion (union visited more : Visited) : Prop :=
  ∀ key, union.has key = (visited.has key || more.has key)

namespace Visited.IsUnion

variable {union visited more : Visited}

theorem append (visited more : Visited) : IsUnion (visited ++ more) visited more :=
  fun _ => List.any_append

theorem cons (h : union.IsUnion visited more) (key : Json) :
    IsUnion (key :: union) (key :: visited) more := by
  intro other
  rw [has_cons, has_cons, h other, Bool.or_assoc]

/-- A key that is not among the additional ones is looked up in either set. -/
theorem has_eq (h : union.IsUnion visited more) {key : Json} (off : more.has key = false) :
    union.has key = visited.has key := by
  rw [h key, off, Bool.or_false]

end Visited.IsUnion

/-- Two outcomes with the same result, of which the second one has additional visited keys. -/
structure SameUpTo {α : Type} (more : Visited) (outcome wide : Except CompileError α × Visited) :
    Prop where
  /-- The schema or the error is the same. -/
  result : wide.1 = outcome.1
  /-- The additional keys are left over. -/
  visited : wide.2.IsUnion outcome.2 more

theorem SameUpTo.exists_eq {α : Type} {more : Visited}
    {outcome wide : Except CompileError α × Visited} (h : SameUpTo more outcome wide) :
    ∃ result visited union, outcome = (result, visited) ∧ wide = (result, union) ∧
      union.IsUnion visited more :=
  ⟨outcome.1, outcome.2, wide.2, rfl, Prod.ext h.result rfl, h.visited⟩

/-- None of the classes has one of the additional keys. -/
def Model.KeepsOff (model : Model) (more : Visited) (targets : Nat → Prop) : Prop :=
  ∀ (target : Nat) (entity : Entity), targets target → model[target]? = some entity →
    more.has entity.key = false

theorem Model.KeepsOff.mono {model : Model} {more : Visited} {targets targets' : Nat → Prop}
    (h : KeepsOff model more targets) (sub : ∀ target, targets' target → targets target) :
    KeepsOff model more targets' :=
  fun target entity mem => h target entity (sub target mem)

/-! ## Meeting classes, types and fields -/

section Meeting

variable {model : Model} {union visited more : Visited}

theorem Model.openClass_sameUpTo (h : union.IsUnion visited more) {number : Nat}
    (off : KeepsOff model more (· = number)) :
    SameUpTo more (model.openClass number visited) (model.openClass number union) := by
  unfold openClass
  rcases found : model[number]? with _ | entity
  · exact ⟨rfl, h⟩
  · simp only [h.has_eq (off number entity rfl found)]
    split
    · exact ⟨rfl, h⟩
    split
    · exact ⟨rfl, h⟩
    split
    · exact ⟨rfl, h.cons entity.key⟩
    · exact ⟨rfl, h.cons entity.key⟩

theorem Model.openType_sameUpTo (h : union.IsUnion visited more) {type : FieldType}
    (off : KeepsOff model more (RefersTo model type)) :
    SameUpTo more (model.openType type visited) (model.openType type union) := by
  unfold openType
  rcases hExpandable : model.expandable type with error | answer
  · exact ⟨rfl, h⟩
  · rcases expandable_cases hExpandable with ⟨target, rfl, refers⟩ | ⟨rfl, _⟩
    · exact openClass_sameUpTo h (off.mono fun _ same => same ▸ refers)
    · exact ⟨rfl, h⟩

theorem Model.openShape_sameUpTo (h : union.IsUnion visited more) {type : FieldType}
    {shape : Shape} (hShape : model.shape type = .ok shape)
    (off : KeepsOff model more (LeadsTo model type)) :
    SameUpTo more (model.openShape shape visited) (model.openShape shape union) := by
  rcases shape_cases hShape with ⟨target, rfl, refers⟩ | ⟨element, rfl, leads⟩ | ⟨_, rfl, _⟩
  · obtain ⟨hResult, hVisited⟩ :=
      openClass_sameUpTo h (off.mono fun _ same => same ▸ .direct refers)
    exact ⟨by simp only [openShape, hResult], hVisited⟩
  · obtain ⟨hResult, hVisited⟩ :=
      openType_sameUpTo h (off.mono fun target refers => (leads target).mpr refers)
    exact ⟨by simp only [openShape, hResult], hVisited⟩
  · exact ⟨rfl, h⟩

theorem Model.openField_sameUpTo (h : union.IsUnion visited more) {field : Field}
    (off : KeepsOff model more (LeadsTo model field.type)) :
    SameUpTo more (model.openField field visited) (model.openField field union) := by
  unfold openField
  rcases hShape : model.shape field.type with error | shape
  · exact ⟨rfl, h⟩
  · obtain ⟨result, visited', union', hMet, hWide, hUnion⟩ :=
      (openShape_sameUpTo h hShape off).exists_eq
    simp only [hMet, hWide]
    rcases result with error | ⟨opened, listed⟩
    · exact ⟨rfl, hUnion⟩
    · rcases descriptionOf field.docComment with error | description
      · exact ⟨rfl, hUnion⟩
      · exact ⟨rfl, hUnion⟩

end Meeting

/-! ## Walks in step -/

section Steps

variable {model : Model} {start more : Visited} {roots : Nat → Prop}

/-- All that the fields lead to can be reached from the roots. -/
def Model.FieldsReach (model : Model) (start : Visited) (roots : Nat → Prop)
    (fields : List Field) : Prop :=
  ∀ target, FieldsLeadTo model fields target → ReachableFrom model start roots target

/-- The fields of a class that is met reach no further than the class. -/
theorem Model.fieldsReach_of_openClass {visited visited' : Visited} {number : Nat} {title : String}
    {fields : List Field} (grown : start ⊆ visited)
    (reachable : ReachableFrom model start roots number)
    (h : model.openClass number visited = (.ok (.pending title fields), visited')) :
    FieldsReach model start roots fields := by
  obtain ⟨root, hRoot, path⟩ := reachable
  cases openClass_eq_ok_iff.mp h with
  | fields found _ fresh notEnum =>
      intro target leads
      exact ⟨root, hRoot,
        path.tail ⟨_, found, Visited.not_has_mono grown fresh, notEnum, leads⟩⟩

/-- Two walks over the same fields, of which the second one has additional visited keys; and all
that is left to be compiled can be reached. -/
structure Walk.InStep (model : Model) (start more : Visited) (roots : Nat → Prop)
    (walk wide : Walk) : Prop where
  /-- The same class is being compiled. -/
  current : wide.current = walk.current
  /-- The same classes are around it. -/
  outer : wide.outer = walk.outer
  /-- The additional keys are visited in the second walk only. -/
  union : wide.visited.IsUnion walk.visited more
  /-- No class became unvisited. -/
  grown : start ⊆ walk.visited
  /-- The fields of the innermost class lead to what can be reached. -/
  reach : FieldsReach model start roots walk.current.fields
  /-- So do those of the classes around it. -/
  reachOuter : ∀ entry ∈ walk.outer, FieldsReach model start roots entry.2.fields

/-- What two walks in step come to with one step. -/
inductive Walk.StepsAlike (model : Model) (start more : Visited) (roots : Nat → Prop) :
    StepResult → StepResult → Prop where
  | running {walk wide : Walk} : Walk.InStep model start more roots walk wide →
      StepsAlike model start more roots (.running walk) (.running wide)
  | finished (schema : Schema) {visited union : Visited} : union.IsUnion visited more →
      StepsAlike model start more roots (.finished schema visited) (.finished schema union)
  | failed (error : CompileError) {visited union : Visited} : union.IsUnion visited more →
      StepsAlike model start more roots (.failed error visited) (.failed error union)

/-- **A step keeps two walks in step.** -/
theorem Walk.InStep.step (off : KeepsOff model more (ReachableFrom model start roots))
    {walk wide : Walk} (h : Walk.InStep model start more roots walk wide) :
    Walk.StepsAlike model start more roots (walk.step model) (wide.step model) := by
  obtain ⟨⟨title, fields, properties⟩, outer', visited⟩ := walk
  obtain ⟨current', outer, union⟩ := wide
  obtain ⟨hCurrent, hOuter, hUnion, grown, reach, reachOuter⟩ := h
  dsimp only at hCurrent hOuter hUnion grown reach reachOuter
  subst hCurrent hOuter
  cases fields with
  | nil =>
      cases outer with
      | nil => exact .finished _ hUnion
      | cons entry outer =>
          obtain ⟨reachEntry, reachRest⟩ := List.forall_mem_cons.mp reachOuter
          exact .running ⟨rfl, rfl, hUnion, grown, reachEntry, reachRest⟩
  | cons field fields =>
      have reachField : ∀ target, LeadsTo model field.type target →
          ReachableFrom model start roots target :=
        fun target leads => reach target ((fieldsLeadTo_cons field fields target).mpr (.inl leads))
      have reachRest : FieldsReach model start roots fields :=
        fun target leads => reach target ((fieldsLeadTo_cons field fields target).mpr (.inr leads))
      obtain ⟨result, visited', union', hMet, hWide, hUnion'⟩ :=
        (openField_sameUpTo hUnion (off.mono reachField)).exists_eq
      simp only [Walk.step, hMet, hWide]
      rcases result with error | ⟨opened, slot⟩
      · exact .failed error hUnion'
      · have grown' : start ⊆ visited' := fun _ mem => openField_subset hMet (grown mem)
        cases opened with
        | closed schema =>
            exact .running ⟨rfl, rfl, hUnion', grown', reachRest, reachOuter⟩
        | pending innerTitle inner =>
            have reachInner : FieldsReach model start roots inner := by
              rcases openField_cases hMet with ⟨target, leads, hClass⟩ | ⟨_, ⟨_, hClosed⟩, _⟩
              · exact fieldsReach_of_openClass grown
                  (reachField target ((leads target).mpr rfl)) hClass
              · cases hClosed
            exact .running ⟨rfl, rfl, hUnion', grown', reachInner,
              List.forall_mem_cons.mpr ⟨reachRest, reachOuter⟩⟩

/-- **Walks in step come to the same result.**  The induction is on the work that is left. -/
theorem Walk.InStep.run (off : KeepsOff model more (ReachableFrom model start roots))
    {walk wide : Walk} (h : Walk.InStep model start more roots walk wide) :
    SameUpTo more (Walk.run model walk) (Walk.run model wide) := by
  induction hWork : walk.weight model using Nat.strongRecOn generalizing walk wide with
  | _ work ih =>
      have hStep := h.step off
      rw [Walk.run_eq model walk, Walk.run_eq model wide]
      generalize hNext : walk.step model = next at hStep
      generalize wide.step model = wideNext at hStep
      cases hStep with
      | running hInStep => exact ih _ (hWork ▸ Walk.weight_step hNext) hInStep rfl
      | finished schema hUnion => exact ⟨rfl, hUnion⟩
      | failed error hUnion => exact ⟨rfl, hUnion⟩

/-- What was met is compiled to the same. -/
theorem Model.finish_sameUpTo (off : KeepsOff model more (ReachableFrom model start roots))
    {union visited : Visited} (h : union.IsUnion visited more) (grown : start ⊆ visited)
    {opened : Opened}
    (reach : ∀ title fields, opened = .pending title fields →
      FieldsReach model start roots fields) :
    SameUpTo more (model.finish opened visited) (model.finish opened union) := by
  cases opened with
  | closed schema => exact ⟨rfl, h⟩
  | pending title fields =>
      exact Walk.InStep.run off ⟨rfl, rfl, h, grown, reach title fields rfl, by simp⟩

end Steps

/-! ## Classes, fields and types -/

section Compiling

variable {model : Model} {union visited more : Visited}

theorem Model.compileClass_sameUpTo (h : union.IsUnion visited more) {number : Nat}
    (off : KeepsOff model more (ReachableFrom model visited (· = number))) :
    SameUpTo more (model.compileClass number visited) (model.compileClass number union) := by
  have hOpened := openClass_sameUpTo h (off.mono fun target same => ⟨target, same, .refl⟩)
  unfold compileClass
  obtain ⟨result, visited', union', hMet, hWide, hUnion⟩ := hOpened.exists_eq
  simp only [hMet, hWide]
  rcases result with error | opened
  · exact ⟨rfl, hUnion⟩
  · refine finish_sameUpTo off hUnion (openClass_subset hMet) ?_
    rintro title fields rfl
    exact fieldsReach_of_openClass (List.Subset.refl visited) ⟨number, rfl, .refl⟩ hMet

theorem Model.compileField_sameUpTo (h : union.IsUnion visited more) {field : Field}
    (off : KeepsOff model more (ReachableFrom model visited (LeadsTo model field.type))) :
    SameUpTo more (model.compileField field visited) (model.compileField field union) := by
  have hOpened := openField_sameUpTo h (off.mono fun target leads => ⟨target, leads, .refl⟩)
  unfold compileField
  obtain ⟨result, visited', union', hMet, hWide, hUnion⟩ := hOpened.exists_eq
  simp only [hMet, hWide]
  rcases result with error | ⟨opened, slot⟩
  · exact ⟨rfl, hUnion⟩
  · have hFinished : SameUpTo more (model.finish opened visited') (model.finish opened union') := by
      refine finish_sameUpTo off hUnion (openField_subset hMet) ?_
      rintro title fields rfl
      rcases openField_cases hMet with ⟨target, leads, hClass⟩ | ⟨_, ⟨_, hClosed⟩, _⟩
      · exact fieldsReach_of_openClass (List.Subset.refl visited)
          ⟨target, (leads target).mpr rfl, .refl⟩ hClass
      · cases hClosed
    exact ⟨congrArg (Except.map slot.fill) hFinished.result, hFinished.visited⟩

theorem Model.compileType_sameUpTo (h : union.IsUnion visited more) {type : FieldType}
    (off : KeepsOff model more (ReachableFrom model visited (RefersTo model type))) :
    SameUpTo more (model.compileType type visited) (model.compileType type union) := by
  have hOpened := openType_sameUpTo h (off.mono fun target refers => ⟨target, refers, .refl⟩)
  unfold compileType
  obtain ⟨result, visited', union', hMet, hWide, hUnion⟩ := hOpened.exists_eq
  simp only [hMet, hWide]
  rcases result with error | opened
  · exact ⟨rfl, hUnion⟩
  · rcases openType_cases hMet with ⟨target, refers, hClass⟩ | ⟨rfl, ⟨kind, _, rfl⟩, _⟩
    · refine finish_sameUpTo off hUnion (openClass_subset hClass) ?_
      rintro title fields rfl
      exact fieldsReach_of_openClass (List.Subset.refl visited) ⟨target, refers, .refl⟩ hClass
    · exact ⟨rfl, hUnion⟩

/-- **Keys out of reach are irrelevant.**  Additional visited keys, none of which a class has that
can be reached over classes that are neither visited nor enums, change neither the schema nor the
error of a class, a field or a type, and are left over besides the keys that are visited without
them. -/
theorem unreachable_keys_irrelevant (h : union.IsUnion visited more) :
    (∀ number, KeepsOff model more (ReachableFrom model visited (· = number)) →
      SameUpTo more (model.compileClass number visited) (model.compileClass number union)) ∧
    (∀ field : Field,
      KeepsOff model more (ReachableFrom model visited (LeadsTo model field.type)) →
        SameUpTo more (model.compileField field visited) (model.compileField field union)) ∧
    ∀ type, KeepsOff model more (ReachableFrom model visited (RefersTo model type)) →
      SameUpTo more (model.compileType type visited) (model.compileType type union) :=
  ⟨fun _ off => compileClass_sameUpTo h off, fun _ off => compileField_sameUpTo h off,
    fun _ off => compileType_sameUpTo h off⟩

end Compiling

/-! ### An author who is visited before the shelves -/

/-- A shelf leads to its books only, and a book to its shelf. -/
theorem reachable_from_shelf {number : Nat}
    (h : ReachableFrom shelves [] (· = 0) number) : number = 0 ∨ number = 1 := by
  obtain ⟨root, rfl, path⟩ := h
  induction path with
  | refl => exact .inl rfl
  | @tail current next _ passes ih =>
      obtain ⟨entity, found, _, _, field, mem, leads⟩ := passes
      rcases ih with rfl | rfl
      · cases found
        simp only [List.mem_cons, List.not_mem_nil, or_false] at mem
        rcases mem with rfl | rfl
        · rcases leads with ⟨⟨⟩⟩ | _ | ⟨_, ⟨⟩⟩
          exact .inr rfl
        · rcases leads with ⟨⟨⟩⟩
      · cases found
        obtain rfl := List.mem_singleton.mp mem
        rcases leads with ⟨⟨⟩⟩
        exact .inl rfl

theorem shelves_keepsOff :
    KeepsOff shelves [.str "l.Author"] (ReachableFrom shelves [] (· = 0)) := by
  intro target entity reachable found
  rcases reachable_from_shelf reachable with rfl | rfl <;> (cases found; decide)

/-- The schema of a shelf: its books with references back to it, and an index of authors. -/
def shelfSchema : Schema :=
  .object "Shelf"
    [("books", ⟨.array (.object "Book" [("shelf", ⟨.reference "l.Shelf", none⟩)]), none⟩),
     ("index", ⟨.map (.reference "l.Author"), none⟩)]

theorem compile_shelf :
    shelves.compileClass 0 [] = (.ok shelfSchema, [.str "l.Book", .str "l.Shelf"]) :=
  Model.compileClass_eq_ok_iff.mpr ⟨_, _, rfl,
    .pending (.nested rfl (.closed rfl (.done _ _)) (.closed rfl (.done _ _)))⟩

/-- The index refers to the author, visited or not. -/
theorem compile_shelf_behind_author :
    Visited.IsUnion [.str "l.Author"] [] [.str "l.Author"] ∧
      KeepsOff shelves [.str "l.Author"] (ReachableFrom shelves [] (· = 0)) ∧
      ∃ visited, shelves.compileClass 0 [.str "l.Author"] = (.ok shelfSchema, visited) ∧
        visited.IsUnion [.str "l.Book", .str "l.Shelf"] [.str "l.Author"] := by
  have hUnion : Visited.IsUnion [.str "l.Author"] [] [.str "l.Author"] :=
    Visited.IsUnion.append [] [.str "l.Author"]
  obtain ⟨result, visited, union, hAlone, hBehind, hVisited⟩ :=
    ((unreachable_keys_irrelevant hUnion).1 0 shelves_keepsOff).exists_eq
  obtain ⟨rfl, rfl⟩ := Prod.mk.inj (compile_shelf.symm.trans hAlone)
  exact ⟨hUnion, shelves_keepsOff, union, hBehind, hVisited⟩

end ClassSchema
