import ClassSchema.Proofs.OrderedMaps
import ClassSchema.Proofs.Publish.Stopping

/-!
# What a run does with each entry

A run that does not fail has one result for each entry that is asked for, in order: the
key of the class and its schema at an empty visited set.  This depends on the model and
on the entry alone, so neither the other entries nor the filter show in a result.

The run reports each of these entries once.  A class that is no enum and has no fields
gets a remark; any other class gets its document, printed or saved to a file.  Which of
the two cases it is, the run reads off the compiled schema.

## Main results

* `definesContent_iff`: the schemas with something to say are those of enums and of
  classes with fields.
* `select_cases`: which entries are selected.
* `Publishes.reportsOn`: each entry is reported once.
* `Publishes.written`: the files at the end are those of the saved documents.
* `publish_accounts`: a run either accounts for each entry or has a reason to stop.
-/

namespace ClassSchema

/-! ## Classes with something to say -/

/-- Compiled fields leave properties behind. -/
theorem CompilesFields.ne_nil {model : Model} {fields : List Field}
    {properties properties' : List (String × Property)} {visited visited' : Visited}
    (h : CompilesFields model fields properties visited properties' visited')
    (some : properties ≠ [] ∨ fields ≠ []) : properties' ≠ [] := by
  induction h with
  | done => simpa using some
  | closed _ _ ih => exact ih (.inl (OrderedMap.put_ne_nil _ _ _))
  | nested _ _ _ _ ih => exact ih (.inl (OrderedMap.put_ne_nil _ _ _))

/-- An object says something if it has properties. -/
theorem Schema.definesContent_object (title : String) (properties : List (String × Property)) :
    definesContent (object title properties).members = true ↔ properties ≠ [] := by
  cases properties with
  | nil => simp [definesContent, members, propertyMembers, OrderedMap.get?, Json.truthy]
  | cons pair rest => simp [definesContent, members, propertyMembers, OrderedMap.get?, Json.truthy]

/-- Whether a class is an enum or has fields. -/
def Entity.HasContent (entity : Entity) : Prop :=
  entity.isEnum.truthy = true ∨ entity.fields ≠ []

namespace Publish

/-- **Which classes have something to say**: enums and classes with fields. -/
theorem definesContent_iff {model : Model} {number : Nat} {entity : Entity} {schema : Schema}
    (found : model[number]? = some entity)
    (compiled : (model.compileClass number []).1 = .ok schema) :
    Schema.definesContent schema.members = true ↔ entity.HasContent := by
  obtain ⟨visited', hCompiled⟩ : ∃ visited', model.compileClass number [] = (.ok schema, visited') :=
    ⟨_, Prod.ext compiled rfl⟩
  obtain ⟨opened, visited₁, hClass, hFinishes⟩ := Model.compileClass_eq_ok_iff.mp hCompiled
  cases Model.openClass_eq_ok_iff.mp hClass with
  | missing hNone =>
      rw [hNone] at found
      cases found
  -- nothing was visited, so the class is no reference
  | known _ _ known => cases known
  | constants hFound _ _ isEnum =>
      rw [hFound] at found
      cases found
      cases hFinishes
      exact iff_of_true rfl (.inl isEnum)
  | fields hFound _ _ notEnum =>
      rw [hFound] at found
      cases found
      cases hFinishes with
      | pending hFields =>
          rw [Schema.definesContent_object]
          constructor
          · intro hProperties
            refine .inr fun hNone => hProperties ?_
            rw [hNone] at hFields
            cases hFields
            rfl
          · rintro (isEnum | hSome)
            · rw [notEnum] at isEnum
              cases isEnum
            · exact hFields.ne_nil (.inr hSome)

/-! ## Results and reports -/

/-- The result for a class by itself: its key, and its schema at an empty visited set. -/
def alone? (model : Model) (number : Nat) : Option Published :=
  match model[number]?, (model.compileClass number []).1 with
  | some entity, .ok schema => some ⟨entity.key, schema⟩
  | _, _ => none

/-- The report on an entry: a remark on a class without content; else its document, which is
printed, or saved under the simple name or the key of the class. -/
inductive ReportsOn (model : Model) (destination : Destination) (number : Nat) : Report → Prop
  | remarked {entity : Entity} {schema : Schema} : model[number]? = some entity →
      (model.compileClass number []).1 = .ok schema → ¬ entity.HasContent →
      ReportsOn model destination number (.remarked entity schema)
  | printed {entity : Entity} {schema : Schema} : model[number]? = some entity →
      (model.compileClass number []).1 = .ok schema → entity.HasContent →
      destination = .console → ReportsOn model destination number (.printed entity schema)
  | saved {document : Document} : model[number]? = some document.entity →
      (model.compileClass number []).1 = .ok document.schema → document.entity.HasContent →
      destination = .directory document.directory →
      document.name = document.entity.simpleName ∨ document.entity.key = .str document.name →
      ReportsOn model destination number (.saved document)

/-- A report holds the result for its class. -/
theorem ReportsOn.alone {model : Model} {destination : Destination} {number : Nat}
    {report : Report} (h : ReportsOn model destination number report) :
    alone? model number = some report.published := by
  cases h with
  | remarked found compiled | printed found compiled | saved found compiled =>
      simp only [alone?, found, compiled]
      rfl

section Runs

variable {model : Model} {destination : Destination} {taken : List String} {numbers : List Nat}
  {workspace : Workspace} {reports : List Report} {outcome : Outcome}

/-- **Each entry is reported once**, in order, by a run that does not fail. -/
theorem Publishes.reportsOn
    (run : Publishes model destination taken numbers workspace reports outcome)
    (present : ∀ number ∈ numbers, (model[number]?).isSome) {results : List Published}
    {after : Workspace} (h : outcome = .ok results after) :
    List.Forall₂ (ReportsOn model destination) numbers reports := by
  induction run generalizing results after with
  | done => exact .nil
  | absent hFound =>
      have hSome := present _ List.mem_cons_self
      simp [hFound] at hSome
  | uncompiled | undelivered => cases h
  | @told _ _ number _ _ _ entity schema report _ outcome hFound hCompile delivers _ ih =>
      cases outcome with
      | error failure later => cases h
      | ok others later =>
          have content := definesContent_iff hFound hCompile
          refine .cons ?_ (ih (fun other mem => present other (List.mem_cons_of_mem _ mem)) rfl)
          cases delivers with
          | remarked hNone => exact .remarked hFound hCompile (by simp [← content, hNone])
          | printed hSome hConsole =>
              exact .printed hFound hCompile (content.mp hSome) hConsole
          | saved hSome hDirectory hName =>
              exact .saved hFound hCompile (content.mp hSome) hDirectory
                ((documentName_eq_ok_iff.mp hName).imp And.left And.left)

/-- **The files at the end** are those at the start with the saved documents written to them, one
after the other. -/
theorem Publishes.written
    (run : Publishes model destination taken numbers workspace reports outcome) :
    (documents reports).foldlM (fun files document => files.write document.path document.content)
      workspace.files = .ok (Session.final outcome).files := by
  induction run with
  | done | uncompiled | undelivered => rfl
  | absent _ _ ih => exact ih
  | told _ _ delivers _ ih =>
      rw [final_after]
      cases delivers with
      | remarked => exact ih
      | printed => exact ih
      | saved _ _ _ hWrite => exact (congrArg (· >>= _) hWrite).trans ih

end Runs

/-! ## Whole runs -/

/-- Whether an entry is asked for: it is no interface and has the name, if there is one. -/
def wanted (model : Model) (className : Option String) (number : Nat) : Bool :=
  model.isConcrete number &&
    match className with
    | none => true
    | some name => name = "" || model.isNamed name number

/-- **What is selected**: the entries that are asked for, unless there is a name that none has. -/
theorem select_cases (model : Model) (entries : List Nat) (className : Option String) :
    (model.select entries className = .ok (entries.filter (wanted model className)) ∧
      ∀ name, className = some name → name ≠ "" →
        entries.filter (wanted model (some name)) ≠ []) ∨
    ∃ name, className = some name ∧ name ≠ "" ∧ entries.filter (wanted model (some name)) = [] ∧
      model.select entries className = .error ⟨name⟩ := by
  have named : ∀ name, name ≠ "" → (model.concrete entries).filter (model.isNamed name) =
      entries.filter (wanted model (some name)) := by
    intro name hName
    rw [Model.concrete, List.filter_filter]
    exact List.filter_congr fun number _ => by simp [wanted, hName, Bool.and_comm]
  unfold Model.select
  split
  · refine .inl ⟨congrArg _ (List.filter_congr fun number _ => ?_), nofun⟩
    simp [wanted]
  · next name =>
      split
      · next hEmpty =>
          refine .inl ⟨congrArg _ (List.filter_congr fun number _ => ?_), ?_⟩
          · simp [wanted, hEmpty]
          · rintro other ⟨⟩ hName
            exact absurd hEmpty hName
      · next hName =>
          rw [named name hName]
          split
          · next hNone => exact .inr ⟨name, rfl, hName, hNone, rfl⟩
          · next hSome =>
              refine .inl ⟨rfl, ?_⟩
              rintro other ⟨⟩ _
              exact hSome

/-- What a run that does not fail does with the entries that are asked for. -/
structure Accounted (model : Model) (entries : List Nat) (request : Request)
    (workspace : Workspace) (results : List Published) (after : Workspace)
    (said : List Report) : Prop where
  /-- A name that is asked for is that of some entry. -/
  matched : ∀ name, request.className = some name → name ≠ "" →
    entries.filter (wanted model (some name)) ≠ []
  /-- There is one result for each of them, in order, which depends on no other one. -/
  results : results.map some =
    (entries.filter (wanted model request.className)).map (alone? model)
  /-- There is one report on each of them, in order. -/
  reports : List.Forall₂ (ReportsOn model request.destination)
    (entries.filter (wanted model request.className)) said
  /-- What is printed is what the reports say. -/
  printed : after.printed = workspace.printed ++ String.join (said.map (·.text))
  /-- The documents that were saved are written to their files, and nothing else is. -/
  written : ∃ prepared, prepare request.destination workspace = .ok () prepared ∧
    (documents said).foldlM (fun files document => files.write document.path document.content)
      prepared.files = .ok after.files

/-- A run that does not fail accounts for the entries. -/
theorem exists_accounted {model : Model} {entries : List Nat} {request : Request}
    {workspace after : Workspace} {results : List Published}
    (h : publish model entries request workspace = .ok results after) :
    ∃ reports, Accounted model entries request workspace results after reports := by
  obtain ⟨reports, publication⟩ := exists_publication model entries request workspace
  have printed := publication.printed
  rw [h] at publication printed
  generalize hOutcome : EStateM.Result.ok results after = outcome at publication
  cases publication with
  | unprepared | unselected => cases hOutcome
  | ran hPrepare hSelect run =>
      obtain ⟨hChosen, matched⟩ | ⟨_, _, _, _, hNone⟩ :=
        select_cases model entries request.className
      case inr => cases hSelect.symm.trans hNone
      obtain rfl := Except.ok.inj (hSelect.symm.trans hChosen)
      have present : ∀ number ∈ entries.filter (wanted model request.className),
          (model[number]?).isSome := by
        intro number mem
        have hConcrete := (Model.mem_of_mem_select hSelect mem).2
        unfold Model.isConcrete at hConcrete
        split at hConcrete
        · next hFound => rw [hFound]; rfl
        · cases hConcrete
      have hReports := run.reportsOn present hOutcome.symm
      have hResults := (run.complete hOutcome.symm).2
      have written := run.written
      rw [← hOutcome] at written
      refine ⟨reports, matched, ?_, hReports, printed, _, hPrepare, written⟩
      rw [hResults, List.map_map, ← List.forall₂_eq_eq_eq, List.forall₂_map_left_iff,
        List.forall₂_map_right_iff]
      exact hReports.flip.imp fun _ _ hReport => hReport.alone.symm

/-- Results of a run with a filter are among those of any run without one. -/
theorem Accounted.sublist {model : Model} {entries : List Nat} {request : Request}
    {destination : Destination} {workspace after workspace' after' : Workspace}
    {results all : List Published} {reports reports' : List Report}
    (h : Accounted model entries request workspace results after reports)
    (h' : Accounted model entries ⟨destination, none⟩ workspace' all after' reports') :
    results.Sublist all := by
  have hFilter : (entries.filter (wanted model request.className)).Sublist
      (entries.filter (wanted model none)) := by
    refine List.monotone_filter_right _ fun number hWanted => ?_
    simp only [wanted, Bool.and_eq_true] at hWanted ⊢
    exact ⟨hWanted.1, trivial⟩
  have hResults : (results.map some).Sublist (all.map some) := by
    rw [h.results, h'.results]
    exact hFilter.map _
  simpa using hResults.filterMap id

/-- **A run accounts for every entry**, unless it has a reason to stop: there is a result and a
report for each entry that is asked for, in order, and nothing else.  The results with a filter are
among those without one, wherever the documents go. -/
theorem publish_accounts (model : Model) (entries : List Nat) (request : Request)
    (workspace : Workspace) :
    (∃ failure after, publish model entries request workspace = .error failure after ∧
      Stops model entries request workspace failure after) ∨
    ∃ results after reports, publish model entries request workspace = .ok results after ∧
      Accounted model entries request workspace results after reports ∧
      ∀ destination workspace' all after',
        publish model entries ⟨destination, none⟩ workspace' = .ok all after' →
          results.Sublist all := by
  cases h : publish model entries request workspace with
  | error failure after => exact .inl ⟨failure, after, rfl, publish_stops h⟩
  | ok results after =>
      obtain ⟨reports, accounted⟩ := exists_accounted h
      refine .inr ⟨results, after, reports, rfl, accounted, ?_⟩
      intro destination workspace' all after' hAll
      obtain ⟨reports', accounted'⟩ := exists_accounted hAll
      exact accounted.sublist accounted'

end Publish

end ClassSchema
