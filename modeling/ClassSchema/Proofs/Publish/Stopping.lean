import ClassSchema.Proofs.Model.Reading
import ClassSchema.Proofs.Publish.Reports
import ClassSchema.Proofs.Schema.Readability

/-!
# What stops a run

A run that publishes entries stops for one of five reasons.  Two lie before the first
entry: the directory cannot be made, or no entry has the name that was asked for.  The
others are about one of the selected entries: it does not compile, its document would
have to be named by a key that is no text, or the document cannot be written.

A model that was read from a document compiles where no field consults a name, or has a
comment, that is neither a text nor missing.  Reading does not look at these values, and
a model with such a value can stop a run in front of the entries that are left.

## Main results

* `publish_stops`: a run that fails has one of the five reasons.
* `ofDocument_compiles_iff`: which models compile, and what stops their runs.
* `orderModel_stops`: a name that is neither a text nor missing stops a run.
-/

namespace ClassSchema

namespace Publish

open Model (ofDocument orderDocument orderModel)

/-! ## Single entries -/

/-- What can stop a run at an entry. -/
inductive StopsAt (model : Model) (destination : Destination) (number : Nat) (entity : Entity) :
    Failure → Workspace → Prop
  | uncompiled {error : CompileError} {after : Workspace} :
      (model.compileClass number []).1 = .error error →
      StopsAt model destination number entity (.compile error) after
  | unnamed {directory : String} {after : Workspace} : destination = .directory directory →
      (∀ text, entity.key ≠ .str text) →
      StopsAt model destination number entity (.documentName entity.key) after
  | unwritten {directory name : String} {schema : Schema} {error : FileError} {after : Workspace} :
      destination = .directory directory → (model.compileClass number []).1 = .ok schema →
      after.files.write (documentPath directory name)
        (Text.encode schema.toJson.pretty.toList) = .error error →
      StopsAt model destination number entity (.file error) after

section Entries

variable {destination : Destination} {taken : List String} {entity : Entity} {schema : Schema}
  {workspace after : Workspace} {failure : Failure}

/-- A delivery fails because its document has no name or cannot be written. -/
theorem deliver_stops {model : Model} {number : Nat}
    (compiled : (model.compileClass number []).1 = .ok schema)
    (h : deliver destination taken entity schema workspace = .error failure after) :
    StopsAt model destination number entity failure after := by
  cases hContent : Schema.definesContent schema.members with
  | false =>
      simp [deliver, hContent, Session.printLine, bind, EStateM.bind, pure, EStateM.pure] at h
  | true =>
      cases destination with
      | console =>
          simp [deliver, hContent, Session.printLine, bind, EStateM.bind, pure, EStateM.pure] at h
      | directory directory =>
          cases hName : documentName taken entity with
          | error key =>
              obtain ⟨rfl, noText, -⟩ := documentName_eq_error_iff.mp hName
              obtain ⟨rfl, rfl⟩ : .documentName entity.key = failure ∧ workspace = after := by
                simpa [deliver, hContent, hName, Session.orFail, bind, EStateM.bind] using h
              exact .unnamed rfl noText
          | ok name =>
              cases hWrite : workspace.files.write (documentPath directory name)
                  (Text.encode schema.toJson.pretty.toList) with
              | error error =>
                  obtain ⟨rfl, rfl⟩ : .file error = failure ∧ workspace = after := by
                    simpa [deliver, hContent, hName, hWrite, Session.orFail, Session.writeFile,
                      bind, EStateM.bind] using h
                  exact .unwritten rfl compiled hWrite
              | ok files =>
                  simp [deliver, hContent, hName, hWrite, Session.orFail, Session.writeFile,
                    Session.printLine, bind, EStateM.bind, pure, EStateM.pure] at h

end Entries

/-! ## Runs -/

/-- What can stop a run over the entries of a model. -/
inductive Stops (model : Model) (entries : List Nat) (request : Request) (workspace : Workspace) :
    Failure → Workspace → Prop
  | unprepared {error : FileError} {after : Workspace} :
      prepare request.destination workspace = .error (.file error) after →
      Stops model entries request workspace (.file error) after
  | unselected {error : Model.ClassNotFound} {after : Workspace} :
      prepare request.destination workspace = .ok () after →
      model.select entries request.className = .error error →
      Stops model entries request workspace (.notFound error) after
  | atEntry {selected : List Nat} {number : Nat} {entity : Entity} {failure : Failure}
      {after : Workspace} :
      model.select entries request.className = .ok selected → number ∈ selected →
      model[number]? = some entity → StopsAt model request.destination number entity failure after →
      Stops model entries request workspace failure after

/-- A run over entries that fails was stopped at one of them. -/
theorem Publishes.stops {model : Model} {destination : Destination} {taken : List String}
    {numbers : List Nat} {workspace after : Workspace} {reports : List Report} {outcome : Outcome}
    {failure : Failure}
    (run : Publishes model destination taken numbers workspace reports outcome)
    (h : outcome = .error failure after) :
    ∃ number ∈ numbers, ∃ entity, model[number]? = some entity ∧
      StopsAt model destination number entity failure after := by
  induction run with
  | done => cases h
  | absent _ _ ih =>
      obtain ⟨number, mem, stops⟩ := ih h
      exact ⟨number, List.mem_cons_of_mem _ mem, stops⟩
  | uncompiled hFound hCompile =>
      cases h
      exact ⟨_, List.mem_cons_self, _, hFound, .uncompiled hCompile⟩
  | undelivered hFound hCompile hDeliver =>
      cases h
      exact ⟨_, List.mem_cons_self, _, hFound, deliver_stops hCompile hDeliver⟩
  | @told _ _ _ _ _ _ _ _ _ _ outcome _ _ _ _ ih =>
      cases outcome with
      | ok others later => cases h
      | error found later =>
          cases h
          obtain ⟨number, mem, stops⟩ := ih rfl
          exact ⟨number, List.mem_cons_of_mem _ mem, stops⟩

/-- Only the file system can keep a directory from being made. -/
theorem prepare_eq_error {destination : Destination} {workspace after : Workspace}
    {failure : Failure} (h : prepare destination workspace = .error failure after) :
    ∃ error, failure = .file error := by
  cases destination with
  | console => cases h
  | directory path =>
      simp only [prepare, Session.prepareDirectory] at h
      split at h
      · cases h
      · split at h
        · cases h
        · cases h
          exact ⟨_, rfl⟩

/-- **What stops a run.** -/
theorem publish_stops {model : Model} {entries : List Nat} {request : Request}
    {workspace after : Workspace} {failure : Failure}
    (h : publish model entries request workspace = .error failure after) :
    Stops model entries request workspace failure after := by
  obtain ⟨reports, publication⟩ := exists_publication model entries request workspace
  rw [h] at publication
  generalize hOutcome : EStateM.Result.error failure after = outcome at publication
  cases publication with
  | unprepared hPrepare =>
      cases hOutcome
      obtain ⟨error, rfl⟩ := prepare_eq_error hPrepare
      exact .unprepared hPrepare
  | unselected hPrepare hSelect =>
      cases hOutcome
      exact .unselected hPrepare hSelect
  | ran hPrepare hSelect run =>
      obtain ⟨number, mem, entity, hFound, stops⟩ := run.stops hOutcome.symm
      exact .atEntry hSelect mem hFound stops

/-- A run is stopped by no entry that does not compile where all of them do. -/
theorem Stops.ne_compile {model : Model} {entries : List Nat} {request : Request}
    {workspace after : Workspace} {failure : Failure}
    (h : Stops model entries request workspace failure after)
    (all : ∀ number ∈ entries, (model[number]?).isSome →
      ∃ schema, (model.compileClass number []).1 = .ok schema) (error : CompileError) :
    failure ≠ .compile error := by
  rintro rfl
  cases h with
  | atEntry hSelect mem hFound stops =>
      cases stops with
      | uncompiled hError =>
          obtain ⟨schema, hSchema⟩ :=
            all _ (Model.mem_of_mem_select hSelect mem).1 (by rw [hFound]; rfl)
          rw [hSchema] at hError
          cases hError

/-! ## Models from documents -/

/-- **When the model of a document compiles.**  A class compiles if all fields of the classes
behind it can be read; all classes compile exactly if the model is readable.  Then a run over all
classes is stopped only by the file system, by a name that no class has, or by a class whose
document would have to be named by a key that is no text. -/
theorem ofDocument_compiles_iff {document : Json} {model : Model}
    (h : ofDocument document = .ok model) :
    (∀ number < model.length, model.ReadableFrom (· = number) →
      ∃ schema, (model.compileClass number []).1 = .ok schema) ∧
    ((∀ number < model.length, ∃ schema, (model.compileClass number []).1 = .ok schema) ↔
      model.Readable) ∧
    (model.Readable → ∀ request workspace failure after,
      publish model (List.range model.length) request workspace = .error failure after →
        Stops model (List.range model.length) request workspace failure after ∧
          ∀ error, failure ≠ .compile error) := by
  have keys := (Model.ofDocument_eq_ok_iff.mp h).2
  have all := Model.all_compile_iff keys
  refine ⟨fun number hNumber behind => ?_, all, ?_⟩
  · exact Model.exists_schema_of_reachable (List.getElem?_eq_getElem hNumber)
      (keys _ (List.getElem_mem hNumber)) behind
  · intro readable request workspace failure after hStop
    have stops := publish_stops hStop
    refine ⟨stops, stops.ne_compile fun number mem _ => ?_⟩
    exact all.mpr readable number (List.mem_range.mp mem)

/-- An order whose customer has no qualified name can be read. -/
theorem readable_orderModel : (orderModel .null).Readable := by
  have noComment : ∀ entity ∈ orderModel .null, ∀ field ∈ entity.fields,
      field.docComment.IsTextual := by
    simp [orderModel, Json.IsTextual]
  have spells : ∀ target, (orderModel .null).Spells target := by
    intro target entity hFound
    have mem := List.mem_of_getElem? hFound
    simp only [orderModel, List.mem_cons, List.not_mem_nil, or_false] at mem
    rcases mem with rfl | rfl
    · exact .inr ⟨_, rfl⟩
    · exact .inl rfl
  exact fun entity mem _ field hField => ⟨noComment entity mem field hField, fun _ _ => spells _⟩

/-- Both classes of the order compile. -/
theorem orderModel_compiles :
    ofDocument (orderDocument .null) = .ok (orderModel .null) ∧
      ∀ number < (orderModel .null).length,
        ∃ schema, ((orderModel .null).compileClass number []).1 = .ok schema := by
  have hRead := Model.ofDocument_eq_orderModel (rfl : Json.null.truthy = false)
  exact ⟨hRead, (ofDocument_compiles_iff hRead).2.1.mpr readable_orderModel⟩

/-- A qualified name that is false is as good as none for the key of the customer, but it is
neither a text nor missing where the order refers to the customer.  The order does not compile,
and the run stops in front of it. -/
theorem orderModel_stops :
    ofDocument (orderDocument (.bool false)) = .ok (orderModel (.bool false)) ∧
      (¬ ∃ schema, ((orderModel (.bool false)).compileClass 0 []).1 = .ok schema) ∧
      ∀ workspace, ∃ error, publish (orderModel (.bool false))
        (List.range (orderModel (.bool false)).length) ⟨.console, none⟩ workspace =
          .error (.compile error) workspace := by
  have uncompiled : ¬ ∃ schema, ((orderModel (.bool false)).compileClass 0 []).1 = .ok schema := by
    rintro ⟨schema, hSchema⟩
    have canRead := Model.canRead_of_compileClass (rfl : (orderModel (.bool false))[0]? = some _)
      rfl hSchema _ List.mem_cons_self
    rcases canRead.2 1 (.reference 1) _ rfl with hNull | ⟨text, hText⟩
    · cases hNull
    · cases hText
  refine ⟨Model.ofDocument_eq_orderModel rfl, uncompiled, fun workspace => ?_⟩
  cases hCompile : ((orderModel (.bool false)).compileClass 0 []).1 with
  | ok schema => exact absurd ⟨schema, hCompile⟩ uncompiled
  | error error =>
      refine ⟨error, ?_⟩
      have hSelect : (orderModel (.bool false)).select
          (List.range (orderModel (.bool false)).length) none = .ok [0, 1] := rfl
      have hFound : (orderModel (.bool false))[0]? = some (orderModel (.bool false))[0] := rfl
      simp only [publish, prepare, hSelect, Session.orFail, publishAll, hFound, hCompile, bind,
        EStateM.bind, pure, EStateM.pure]

end Publish

end ClassSchema
