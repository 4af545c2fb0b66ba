import ClassSchema.Publish.Conversion

/-!
# What a session depends on

A session of a conversion looks at the files and at nothing else.  What was printed before it
stays in front of what it prints, and the temporary files are as they were, whether the session
ends with a result or with a failure.  So two sessions that begin with the same files do the
same, wherever their inputs came from.

## Main results

* `Framed.bind`: a session behind another one.
* `Framed.scratch`: what is left alone.
* `framed_convertDocument`, `framed_convertModel`, `framed_convertSources`: conversions look at
  the files alone.
-/

namespace ClassSchema

namespace Session

variable {α β ε : Type}

/-- The end of a session, given what it comes to. -/
def ending (result : Except ε α) (workspace : Workspace) : EStateM.Result ε Workspace α :=
  match result with
  | .ok value => .ok value workspace
  | .error failure => .error failure workspace

@[simp] theorem final_ending (result : Except ε α) (workspace : Workspace) :
    final (ending result workspace) = workspace := by
  cases result <;> rfl

/-- A session that looks at the files alone: they determine what it comes to, the files at its end,
and the text that it prints. -/
def Framed (session : SessionRaising ε α) : Prop :=
  ∀ files, ∃ result files' text, ∀ printed scratch,
    session ⟨files, printed, scratch⟩ = ending result ⟨files', printed ++ text, scratch⟩

namespace Framed

/-- A session that prints nothing. -/
private theorem of_silent {session : Session α}
    (h : ∀ files, ∃ result files', ∀ printed scratch,
      session ⟨files, printed, scratch⟩ = ending result ⟨files', printed, scratch⟩) :
    Framed session := by
  intro files
  obtain ⟨result, files', hEnd⟩ := h files
  exact ⟨result, files', "", fun printed scratch => by rw [hEnd, String.append_empty]⟩

theorem pure (value : α) : Framed (Pure.pure value : Session α) :=
  of_silent fun files => ⟨.ok value, files, fun _ _ => rfl⟩

/-- **Two sessions**, one behind the other. -/
theorem bind {first : Session α} {next : α → Session β} (hFirst : Framed first)
    (hNext : ∀ value, Framed (next value)) : Framed (first >>= next) := by
  intro files
  obtain ⟨result, files₁, text₁, hFirst⟩ := hFirst files
  cases result with
  | error failure =>
      refine ⟨.error failure, files₁, text₁, fun printed scratch => ?_⟩
      simp only [Bind.bind, EStateM.bind, hFirst, ending]
  | ok value =>
      obtain ⟨result, files₂, text₂, hNext⟩ := hNext value files₁
      refine ⟨result, files₂, text₁ ++ text₂, fun printed scratch => ?_⟩
      simp only [Bind.bind, EStateM.bind, hFirst, ending, hNext, String.append_assoc]

theorem orFail (wrap : ε → Failure) (result : Except ε α) : Framed (orFail wrap result) := by
  refine of_silent fun files => ?_
  cases result with
  | ok value => exact ⟨.ok value, files, fun _ _ => rfl⟩
  | error e => exact ⟨.error (wrap e), files, fun _ _ => rfl⟩

theorem printLine (line : String) : Framed (printLine line : Session Unit) :=
  fun files => ⟨.ok (), files, line ++ "\n", fun printed scratch => by
    rw [← String.append_assoc]
    rfl⟩

theorem readFile (path : String) : Framed (readFile path) :=
  fun files => orFail .file (files.read path) files

theorem writeFile (path text : String) : Framed (writeFile path text) := by
  refine of_silent fun files => ?_
  cases hWrite : files.write path (Text.encode text.toList) with
  | ok new => exact ⟨.ok (), new, fun _ _ => by simp only [Session.writeFile, hWrite, ending]⟩
  | error e =>
      exact ⟨.error (.file e), files, fun _ _ => by simp only [Session.writeFile, hWrite, ending]⟩

theorem prepareDirectory (path : String) : Framed (prepareDirectory path) := by
  refine of_silent fun files => ?_
  unfold Session.prepareDirectory
  by_cases hPresent : files.isPresent path = true
  · simp only [hPresent, if_true]
    exact ⟨.ok (), files, fun _ _ => rfl⟩
  · simp only [hPresent]
    cases FileTree.ensureDirectories path files with
    | ok made new => exact ⟨.ok (), new, fun _ _ => rfl⟩
    | error e new => exact ⟨.error (.file e), new, fun _ _ => rfl⟩

/-- The temporary files are left alone. -/
theorem scratch {session : SessionRaising ε α} (h : Framed session) (workspace : Workspace) :
    (final (session workspace)).scratch = workspace.scratch := by
  obtain ⟨result, files, text, hSession⟩ := h workspace.files
  rw [hSession workspace.printed workspace.scratch, final_ending]

end Framed

end Session

namespace Publish

open Session

/-! ## Publications -/

theorem framed_deliver (destination : Destination) (taken : List String) (entity : Entity)
    (schema : Schema) : Framed (deliver destination taken entity schema) := by
  unfold deliver
  split
  · cases destination with
    | console => exact .bind (.printLine _) fun _ => .pure _
    | directory path =>
        exact .bind (.orFail _ _) fun _ => .bind (.writeFile _ _) fun _ =>
          .bind (.printLine _) fun _ => .pure _
  · exact .bind (.printLine _) fun _ => .pure _

theorem framed_publishAll (model : Model) (destination : Destination) (taken : List String)
    (numbers : List Nat) : Framed (publishAll model destination taken numbers) := by
  induction numbers generalizing taken with
  | nil => exact .pure _
  | cons number rest ih =>
      unfold publishAll
      split
      · exact ih taken
      · exact .bind (.orFail _ _) fun _ => .bind (framed_deliver _ _ _ _) fun taken =>
          .bind (ih taken) fun _ => .pure _

theorem framed_publish (model : Model) (entries : List Nat) (request : Request) :
    Framed (publish model entries request) := by
  have prepared : Framed (prepare request.destination) := by
    cases request.destination with
    | console => exact .pure _
    | directory path => exact .prepareDirectory path
  exact .bind prepared fun _ => .bind (.orFail _ _) fun _ => framed_publishAll _ _ _ _

/-! ## Conversions -/

theorem framed_convertDocument (request : Request) (bytes : List Nat) :
    Framed (convertDocument request bytes) :=
  .bind (.orFail _ _) fun _ => framed_publish _ _ _

theorem framed_convertModel (path : String) (request : Request) :
    Framed (convertModel path request) :=
  .bind (.readFile path) fun _ => framed_convertDocument _ _

theorem framed_readSources (paths : List String) : Framed (readSources paths) := by
  induction paths with
  | nil => exact .pure _
  | cons path rest ih =>
      have read : Framed (readSource path) := .bind (.readFile path) fun _ => .orFail _ _
      exact .bind read fun _ => .bind ih fun _ => .pure _

theorem framed_convertSources (paths : List String) (includeStatic : Bool) (request : Request) :
    Framed (convertSources paths includeStatic request) :=
  .bind (framed_readSources paths) fun _ => framed_publish _ _ _

end Publish

end ClassSchema
