import ClassSchema.Publish.Documents

/-!
# Reports of a run

A run that publishes entries says one thing about each: that it has no document, the
document itself, or the file that it was saved to.  `Publishes` follows the run entry
by entry, with the names that are taken, and collects what it says.  A run can stop at
an entry that does not compile or cannot be delivered; then it has said nothing about
this entry and changed nothing for it.

## Main results

* `exists_publishes`: every run has reports.
* `Publishes.printed`: what a run prints is what its reports say.
* `Publishes.entities`, `Publishes.complete`: the reports are about the selected entries in
  order, and about all of them unless the run fails.
-/

namespace ClassSchema.Publish

/-- A document that was saved to a file in a directory. -/
structure Document where
  /-- The class. -/
  entity : Entity
  /-- Its schema. -/
  schema : Schema
  /-- The directory. -/
  directory : String
  /-- The name of the document. -/
  name : String

namespace Document

/-- The file of a document. -/
def path (document : Document) : String := documentPath document.directory document.name

/-- The bytes of a document. -/
def content (document : Document) : List Nat :=
  Text.encode document.schema.toJson.pretty.toList

end Document

/-- What is said about an entry. -/
inductive Report where
  /-- It has no document. -/
  | remarked (entity : Entity) (schema : Schema)
  /-- Its document is printed. -/
  | printed (entity : Entity) (schema : Schema)
  /-- Its document is saved. -/
  | saved (document : Document)

namespace Report

/-- The class that a report is about. -/
def entity : Report → Entity
  | remarked entity _ => entity
  | printed entity _ => entity
  | saved document => document.entity

/-- The schema of the class. -/
def schema : Report → Schema
  | remarked _ schema => schema
  | printed _ schema => schema
  | saved document => document.schema

/-- The text that is printed. -/
def text : Report → String
  | remarked entity _ => emptyRemark entity ++ "\n"
  | printed _ schema => schema.toJson.pretty ++ "\n"
  | saved document => "Schema saved to: " ++ document.path ++ "\n"

/-- The document that was saved, if any was. -/
def document? : Report → Option Document
  | saved document => some document
  | _ => none

/-- The result for the class. -/
def published (report : Report) : Published := ⟨report.entity.key, report.schema⟩

end Report

/-- The documents that were saved. -/
def documents (reports : List Report) : List Document := reports.filterMap Report.document?

/-! ## Single entries -/

/-- What delivering a schema says, which names are taken then, and what it changes. -/
inductive Delivers (destination : Destination) (taken : List String) (entity : Entity)
    (schema : Schema) (workspace : Workspace) : Report → List String → Workspace → Prop
  | remarked : Schema.definesContent schema.members = false →
      Delivers destination taken entity schema workspace (.remarked entity schema) taken
        { workspace with printed := workspace.printed ++ emptyRemark entity ++ "\n" }
  | printed : Schema.definesContent schema.members = true → destination = .console →
      Delivers destination taken entity schema workspace (.printed entity schema) taken
        { workspace with printed := workspace.printed ++ schema.toJson.pretty ++ "\n" }
  | saved {directory name : String} {files : FileTree} :
      Schema.definesContent schema.members = true → destination = .directory directory →
      documentName taken entity = .ok name →
      workspace.files.write (documentPath directory name)
        (Text.encode schema.toJson.pretty.toList) = .ok files →
      Delivers destination taken entity schema workspace
        (.saved ⟨entity, schema, directory, name⟩) (name :: taken)
        { workspace with
          files
          printed := workspace.printed ++
            ("Schema saved to: " ++ documentPath directory name) ++ "\n" }

/-- A delivery either says something or fails without a trace. -/
theorem deliver_cases (destination : Destination) (taken : List String) (entity : Entity)
    (schema : Schema) (workspace : Workspace) :
    (∃ report taken' after, deliver destination taken entity schema workspace =
        .ok taken' after ∧ Delivers destination taken entity schema workspace report taken' after) ∨
      ∃ failure, deliver destination taken entity schema workspace = .error failure workspace := by
  cases hContent : Schema.definesContent schema.members with
  | false =>
      refine .inl ⟨_, _, _, ?_, .remarked hContent⟩
      simp [deliver, hContent, Session.printLine, bind, EStateM.bind, pure, EStateM.pure]
  | true =>
      cases destination with
      | console =>
          refine .inl ⟨_, _, _, ?_, .printed hContent rfl⟩
          simp [deliver, hContent, Session.printLine, bind, EStateM.bind, pure, EStateM.pure]
      | directory directory =>
          cases hName : documentName taken entity with
          | error key =>
              refine .inr ⟨.documentName key, ?_⟩
              simp [deliver, hContent, hName, Session.orFail, bind, EStateM.bind]
          | ok name =>
              cases hWrite : workspace.files.write (documentPath directory name)
                  (Text.encode schema.toJson.pretty.toList) with
              | error e =>
                  refine .inr ⟨.file e, ?_⟩
                  simp [deliver, hContent, hName, hWrite, Session.orFail, Session.writeFile, bind,
                    EStateM.bind]
              | ok files =>
                  refine .inl ⟨_, _, _, ?_, .saved hContent rfl hName hWrite⟩
                  simp [deliver, hContent, hName, hWrite, Session.orFail, Session.writeFile,
                    Session.printLine, bind, EStateM.bind, pure, EStateM.pure]

section Delivered

variable {destination : Destination} {taken taken' : List String} {entity : Entity}
  {schema : Schema} {workspace after : Workspace} {report : Report}

/-- A report is about what is delivered. -/
theorem Delivers.about
    (h : Delivers destination taken entity schema workspace report taken' after) :
    report.entity = entity ∧ report.schema = schema := by
  cases h <;> exact ⟨rfl, rfl⟩

/-- What is printed is what the report says. -/
theorem Delivers.printed_eq
    (h : Delivers destination taken entity schema workspace report taken' after) :
    after.printed = workspace.printed ++ report.text := by
  cases h <;> exact String.append_assoc

end Delivered

/-! ## Runs -/

/-- What a run of `publishAll` answers. -/
abbrev Outcome := EStateM.Result Failure Workspace (List Published)

/-- An outcome with one more result in front. -/
def Outcome.after (first : Published) : Outcome → Outcome
  | .ok others workspace => .ok (first :: others) workspace
  | .error failure workspace => .error failure workspace

@[simp] theorem final_after (first : Published) (outcome : Outcome) :
    Session.final (outcome.after first) = Session.final outcome := by
  cases outcome <;> rfl

/-- A run over entries with names that are taken, what it says, and how it ends. -/
inductive Publishes (model : Model) (destination : Destination) :
    List String → List Nat → Workspace → List Report → Outcome → Prop
  | done {taken : List String} {workspace : Workspace} :
      Publishes model destination taken [] workspace [] (.ok [] workspace)
  | absent {taken : List String} {number : Nat} {rest : List Nat} {workspace : Workspace}
      {reports : List Report} {outcome : Outcome} :
      model[number]? = none →
      Publishes model destination taken rest workspace reports outcome →
      Publishes model destination taken (number :: rest) workspace reports outcome
  | uncompiled {taken : List String} {number : Nat} {rest : List Nat} {workspace : Workspace}
      {entity : Entity} {error : CompileError} :
      model[number]? = some entity → (model.compileClass number []).1 = .error error →
      Publishes model destination taken (number :: rest) workspace []
        (.error (.compile error) workspace)
  | undelivered {taken : List String} {number : Nat} {rest : List Nat} {workspace : Workspace}
      {entity : Entity} {schema : Schema} {failure : Failure} :
      model[number]? = some entity → (model.compileClass number []).1 = .ok schema →
      deliver destination taken entity schema workspace = .error failure workspace →
      Publishes model destination taken (number :: rest) workspace [] (.error failure workspace)
  | told {taken taken' : List String} {number : Nat} {rest : List Nat}
      {workspace after : Workspace} {entity : Entity} {schema : Schema} {report : Report}
      {reports : List Report} {outcome : Outcome} :
      model[number]? = some entity → (model.compileClass number []).1 = .ok schema →
      Delivers destination taken entity schema workspace report taken' after →
      Publishes model destination taken' rest after reports outcome →
      Publishes model destination taken (number :: rest) workspace (report :: reports)
        (outcome.after report.published)

/-- **Every run has reports.** -/
theorem exists_publishes (model : Model) (destination : Destination) (taken : List String)
    (numbers : List Nat) (workspace : Workspace) :
    ∃ reports, Publishes model destination taken numbers workspace reports
      (publishAll model destination taken numbers workspace) := by
  induction numbers generalizing taken workspace with
  | nil => exact ⟨[], .done⟩
  | cons number rest ih =>
      cases hFound : model[number]? with
      | none =>
          obtain ⟨reports, run⟩ := ih taken workspace
          have hRun : publishAll model destination taken (number :: rest) workspace =
              publishAll model destination taken rest workspace := by
            simp [publishAll, hFound]
          exact ⟨reports, hRun ▸ .absent hFound run⟩
      | some entity =>
          cases hCompile : (model.compileClass number []).1 with
          | error e =>
              have hRun : publishAll model destination taken (number :: rest) workspace =
                  .error (.compile e) workspace := by
                simp [publishAll, hFound, hCompile, Session.orFail, bind, EStateM.bind]
              exact ⟨[], hRun ▸ .uncompiled hFound hCompile⟩
          | ok schema =>
              rcases deliver_cases destination taken entity schema workspace with
                ⟨report, taken', after, hDeliver, delivers⟩ | ⟨failure, hDeliver⟩
              · obtain ⟨reports, run⟩ := ih taken' after
                have hRun : publishAll model destination taken (number :: rest) workspace =
                    Outcome.after report.published
                      (publishAll model destination taken' rest after) := by
                  obtain ⟨rfl, rfl⟩ := delivers.about
                  simp only [publishAll, hFound, hCompile, Session.orFail, bind, EStateM.bind,
                    hDeliver]
                  cases publishAll model destination taken' rest after <;> rfl
                exact ⟨report :: reports, hRun ▸ .told hFound hCompile delivers run⟩
              · have hRun : publishAll model destination taken (number :: rest) workspace =
                    .error failure workspace := by
                  simp [publishAll, hFound, hCompile, Session.orFail, bind, EStateM.bind, hDeliver]
                exact ⟨[], hRun ▸ .undelivered hFound hCompile hDeliver⟩

section Runs

variable {model : Model} {destination : Destination} {taken : List String} {numbers : List Nat}
  {workspace : Workspace} {reports : List Report} {outcome : Outcome}

/-- **What a run prints is what its reports say.** -/
theorem Publishes.printed
    (run : Publishes model destination taken numbers workspace reports outcome) :
    (Session.final outcome).printed =
      workspace.printed ++ String.join (reports.map (·.text)) := by
  induction run with
  | done | uncompiled | undelivered => simp [Session.final, String.join]
  | absent _ _ ih => exact ih
  | told _ _ delivers _ ih =>
      rw [final_after, ih, delivers.printed_eq, List.map_cons, String.join_cons,
        String.append_assoc]

/-- The reports are about the first of the classes that are there. -/
theorem Publishes.entities
    (run : Publishes model destination taken numbers workspace reports outcome) :
    reports.map (·.entity) <+: numbers.filterMap (model[·]?) := by
  induction run with
  | done | uncompiled | undelivered => simp
  | absent hFound _ ih => simpa [List.filterMap_cons, hFound] using ih
  | told hFound _ delivers _ ih => simpa [List.filterMap_cons, hFound, delivers.about.1] using ih

/-- A run that does not fail reports every class, and answers with what it reports. -/
theorem Publishes.complete
    (run : Publishes model destination taken numbers workspace reports outcome)
    {results : List Published} {after : Workspace} (h : outcome = .ok results after) :
    reports.map (·.entity) = numbers.filterMap (model[·]?) ∧
      results = reports.map (·.published) := by
  induction run generalizing results after with
  | done => simpa using (EStateM.Result.ok.inj h).1.symm
  | uncompiled | undelivered => cases h
  | absent hFound _ ih => simpa [List.filterMap_cons, hFound] using ih h
  | @told _ _ _ _ _ _ _ _ _ _ outcome hFound _ delivers _ ih =>
      cases outcome with
      | error failure later => cases h
      | ok others later =>
          obtain ⟨hEntities, hResults⟩ := ih rfl
          have hFirst := (EStateM.Result.ok.inj h).1
          simp [hFound, delivers.about.1, hEntities, ← hFirst, hResults]

end Runs

/-! ## The whole publication -/

/-- A publication: it stops before the first entry, or its run over the selected entries says
what it says. -/
inductive Publication (model : Model) (entries : List Nat) (request : Request)
    (workspace : Workspace) : List Report → Outcome → Prop
  | unprepared {failure : Failure} {after : Workspace} :
      prepare request.destination workspace = .error failure after →
      Publication model entries request workspace [] (.error failure after)
  | unselected {error : Model.ClassNotFound} {after : Workspace} :
      prepare request.destination workspace = .ok () after →
      model.select entries request.className = .error error →
      Publication model entries request workspace [] (.error (.notFound error) after)
  | ran {after : Workspace} {selected : List Nat} {reports : List Report} {outcome : Outcome} :
      prepare request.destination workspace = .ok () after →
      model.select entries request.className = .ok selected →
      Publishes model request.destination [] selected after reports outcome →
      Publication model entries request workspace reports outcome

/-- Every publication has reports. -/
theorem exists_publication (model : Model) (entries : List Nat) (request : Request)
    (workspace : Workspace) :
    ∃ reports, Publication model entries request workspace reports
      (publish model entries request workspace) := by
  cases hPrepare : prepare request.destination workspace with
  | error failure after =>
      have hRun : publish model entries request workspace = .error failure after := by
        simp [publish, bind, EStateM.bind, hPrepare]
      exact ⟨[], hRun ▸ .unprepared hPrepare⟩
  | ok prepared after =>
      cases hSelect : model.select entries request.className with
      | error e =>
          have hRun : publish model entries request workspace = .error (.notFound e) after := by
            simp [publish, bind, EStateM.bind, hPrepare, hSelect, Session.orFail]
          exact ⟨[], hRun ▸ .unselected hPrepare hSelect⟩
      | ok selected =>
          obtain ⟨reports, run⟩ := exists_publishes model request.destination [] selected after
          have hRun : publish model entries request workspace =
              publishAll model request.destination [] selected after := by
            simp [publish, bind, EStateM.bind, hPrepare, hSelect, Session.orFail]
          exact ⟨reports, hRun ▸ .ran hPrepare hSelect run⟩

/-- Making the directory prints nothing. -/
theorem printed_prepare (destination : Destination) (workspace : Workspace) :
    (Session.final (prepare destination workspace)).printed = workspace.printed := by
  cases destination with
  | console => rfl
  | directory path =>
      simp only [prepare, Session.prepareDirectory]
      split
      · rfl
      · split <;> rfl

/-- What a publication prints is what its reports say. -/
theorem Publication.printed {model : Model} {entries : List Nat} {request : Request}
    {workspace : Workspace} {reports : List Report} {outcome : Outcome}
    (h : Publication model entries request workspace reports outcome) :
    (Session.final outcome).printed =
      workspace.printed ++ String.join (reports.map (·.text)) := by
  have silent := printed_prepare request.destination workspace
  cases h with
  | unprepared hPrepare =>
      rw [hPrepare] at silent
      simpa [Session.final, String.join] using silent
  | unselected hPrepare _ =>
      rw [hPrepare] at silent
      simpa [Session.final, String.join] using silent
  | ran hPrepare _ run =>
      rw [hPrepare] at silent
      rw [run.printed, ← silent]
      rfl

end ClassSchema.Publish
