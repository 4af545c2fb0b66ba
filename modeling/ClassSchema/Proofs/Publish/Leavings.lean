import ClassSchema.Proofs.Publish.Frames
import ClassSchema.Proofs.Publish.Sources

/-!
# What a conversion leaves behind

A conversion reads its inputs first, which changes nothing.  Then it makes the directory, if
there is to be one, and delivers one document after the other.  Wherever it fails, there are
reports of what was delivered before, and what was printed and written is what they say.

## Main results

* `exists_leaves_publish`: what a publication leaves behind.
* `exists_leaves_convertDocument`, `exists_leaves_convertModel`, `exists_leaves_convertSources`:
  what a conversion leaves behind.
-/

namespace ClassSchema.Publish

open Session

/-- What some reports leave behind, however the conversion that made them ended: their texts are
printed, and their documents are written to the files that were there, with a directory for them or
not.  Temporary files are left alone. -/
structure Leaves (request : Request) (workspace after : Workspace) (reports : List Report) :
    Prop where
  /-- What is printed is what the reports say. -/
  printed : after.printed = workspace.printed ++ String.join (reports.map (·.text))
  /-- Their documents are written, one after the other. -/
  written : ∃ files, (files = workspace.files ∨
      files = (final (prepare request.destination workspace)).files) ∧
    (documents reports).foldlM (fun files document => files.write document.path document.content)
      files = .ok after.files
  /-- The temporary files are as they were. -/
  scratch : after.scratch = workspace.scratch

/-- Before the first report nothing is left behind. -/
theorem Leaves.nothing (request : Request) (workspace : Workspace) :
    Leaves request workspace workspace [] :=
  ⟨by simp [String.join], ⟨workspace.files, .inl rfl, rfl⟩, rfl⟩

/-- **What a publication leaves behind**, however it ends. -/
theorem exists_leaves_publish (model : Model) (entries : List Nat) (request : Request)
    (workspace : Workspace) :
    ∃ reports, Leaves request workspace (final (publish model entries request workspace))
      reports := by
  obtain ⟨reports, publication⟩ := exists_publication model entries request workspace
  refine ⟨reports, publication.printed, ⟨_, .inr rfl, ?_⟩,
    (framed_publish model entries request).scratch workspace⟩
  generalize publish model entries request workspace = outcome at publication
  cases publication with
  | unprepared hPrepare => rw [hPrepare]; rfl
  | unselected hPrepare _ => rw [hPrepare]; rfl
  | ran hPrepare _ run =>
      rw [hPrepare]
      exact run.written

/-- A conversion that reads something first, and changes nothing by this. -/
private theorem exists_leaves_bind {α : Type} {read : Session α}
    {next : α → Session (List Published)} {request : Request} {workspace : Workspace}
    (reads : final (read workspace) = workspace)
    (hNext : ∀ value, ∃ reports, Leaves request workspace (final (next value workspace)) reports) :
    ∃ reports, Leaves request workspace (final ((read >>= next) workspace)) reports := by
  simp only [bind, EStateM.bind]
  cases hRead : read workspace with
  | error failure after =>
      rw [hRead] at reads
      exact ⟨[], (show after = workspace from reads) ▸ Leaves.nothing request workspace⟩
  | ok value after =>
      rw [hRead] at reads
      exact (show after = workspace from reads) ▸ hNext value

theorem final_orFail {ε α : Type} (wrap : ε → Failure) (result : Except ε α)
    (workspace : Workspace) : final (orFail wrap result workspace) = workspace := by
  cases result <;> rfl

theorem final_readSources (paths : List String) (workspace : Workspace) :
    final (readSources paths workspace) = workspace := by
  rcases readSources_cases paths workspace with
    ⟨_, -, hRead⟩ | ⟨_, _, _, _, _, -, -, -, hRead⟩ <;> rw [hRead] <;> rfl

/-! ## Conversions -/

theorem exists_leaves_convertDocument (request : Request) (bytes : List Nat)
    (workspace : Workspace) :
    ∃ reports, Leaves request workspace (final (convertDocument request bytes workspace))
      reports :=
  exists_leaves_bind (final_orFail ..) fun _ => exists_leaves_publish ..

theorem exists_leaves_convertModel (path : String) (request : Request) (workspace : Workspace) :
    ∃ reports, Leaves request workspace (final (convertModel path request workspace)) reports :=
  exists_leaves_bind (final_orFail ..) fun _ => exists_leaves_convertDocument ..

theorem exists_leaves_convertSources (paths : List String) (includeStatic : Bool)
    (request : Request) (workspace : Workspace) :
    ∃ reports, Leaves request workspace
      (final (convertSources paths includeStatic request workspace)) reports :=
  exists_leaves_bind (final_readSources ..) fun _ => exists_leaves_publish ..

end ClassSchema.Publish
