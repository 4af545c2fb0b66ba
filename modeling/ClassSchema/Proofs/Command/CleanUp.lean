import ClassSchema.Proofs.Command.Announced
import ClassSchema.Proofs.Publish.Leavings

/-!
# How a command line ends

A command line that selects a conversion ends like the conversion: with status 0 if it comes to a
result, and with status 1 and a complaint if it fails.  What was printed and written before a
failure stays, and the complaint is the last thing that is printed.  This holds for any functions
that convert, as long as they look at the files alone; what they raise may be worded in ways that
no text of characters can hold, and then the complaint ends in front of the wording.

A temporary file is made for a model on the standard input and for nothing else, and it is gone
at the end, however the conversion ends.

A line that asks for the version gets it and no conversion, even if it goes on with a command.

## Main results

* `Selects.run_eq`: a selected conversion is announced, run and reported.
* `Selects.run_leaves`: what was printed and written for a conversion of this library.
* `run_cleans_up`: how any command line ends.
-/

namespace ClassSchema.Command

open Session

variable {ε : Type} {conversions : Conversions ε}

/-- Conversions that look at the files alone. -/
structure Conversions.Framed (conversions : Conversions ε) : Prop where
  sources : ∀ paths includeStatic request,
    Session.Framed (conversions.sources paths includeStatic request)
  model : ∀ path request, Session.Framed (conversions.model path request)
  document : ∀ request bytes, Session.Framed (conversions.document request bytes)

/-- The conversions of this library look at the files alone. -/
theorem Conversions.framed_standard : Conversions.standard.Framed where
  sources := Publish.framed_convertSources
  model := Publish.framed_convertModel
  document := Publish.framed_convertDocument

/-- The conversion that an invocation selects, together with the request and with what is printed
in front.  Help, the version and a misuse select none, whatever else is on the line. -/
inductive Selects (conversions : Conversions ε) (input : List Char) (workspace : Workspace) :
    Invocation → Request → String → SessionRaising ε (List Published) → Prop
  | sources {paths : List String} {includeStatic : Bool} {request : Request} :
      Selects conversions input workspace (.convertSources paths includeStatic request) request
        (announcement .sources (Text.quotedList paths) request.destination)
        (conversions.sources paths includeStatic request)
  | file {path : String} {request : Request} :
      Selects conversions input workspace (.convertModel (some path) request) request
        (announcement .model path request.destination) (conversions.model path request)
  | standardInput {request : Request} :
      Selects conversions input workspace (.convertModel none request) request
        (announcement .model workspace.scratch.name request.destination)
        (conversions.document request (Text.encode input))

/-- The temporary files behind an invocation: one more was made for the standard input. -/
def Invocation.scratchBehind (scratch : Scratch) : Invocation → Scratch
  | convertModel none _ => { scratch with made := scratch.made + 1 }
  | _ => scratch

section Selected

variable {input : List Char} {workspace : Workspace} {invocation : Invocation} {request : Request}
  {announced : String}

theorem Selects.framed {conversion : SessionRaising ε (List Published)}
    (h : Selects conversions input workspace invocation request announced conversion)
    (framed : conversions.Framed) : Session.Framed conversion := by
  cases h with
  | sources => exact framed.sources _ _ _
  | file => exact framed.model _ _
  | standardInput => exact framed.document _ _

/-- **A selected conversion is announced, run and reported.** -/
theorem Selects.run_eq {conversion : SessionRaising ε (List Published)}
    (h : Selects conversions input workspace invocation request announced conversion)
    {result : Except ε (List Published)} {files : FileTree} {text : String}
    (run : ∀ printed scratch, conversion ⟨workspace.files, printed, scratch⟩ =
      ending result ⟨files, printed ++ text, scratch⟩) :
    invocation.runWith conversions input workspace =
      report conversions.wording (ending result ⟨files, workspace.printed ++ announced ++ text,
        invocation.scratchBehind workspace.scratch⟩) := by
  cases h with
  | sources =>
      exact congrArg (report _) ((conversions.runSources_eq ..).trans (run _ _))
  | file => exact congrArg (report _) ((conversions.runModel_eq ..).trans (run _ _))
  | standardInput => exact congrArg (report _) (conversions.runStandardInput_eq run)

/-- What was printed and written by the end of a conversion of this library is what some reports
say. -/
private theorem Selects.exists_leaves {conversion : Session (List Published)}
    (h : Selects .standard input workspace invocation request announced conversion)
    (begun : Workspace) :
    ∃ reports, Publish.Leaves request begun (final (conversion begun)) reports := by
  cases h with
  | sources => exact Publish.exists_leaves_convertSources ..
  | file => exact Publish.exists_leaves_convertModel ..
  | standardInput => exact Publish.exists_leaves_convertDocument ..

/-- **What a run leaves behind** if it selects a conversion of this library.  Behind the
announcement stand the texts of some reports and, if the conversion failed, a complaint; the files
are those from before and the documents of these reports. -/
theorem Selects.run_leaves {words : List String} {conversion : Session (List Published)}
    (h : Selects .standard input workspace (parse words) request announced conversion) :
    ∃ result after reports, conversion (workspace.saying announced) = ending result after ∧
      Publish.Leaves request (workspace.saying announced) after reports ∧
      (run words input workspace).workspace.files = after.files ∧
      (run words input workspace).workspace.printed =
        workspace.printed ++ announced ++ String.join (reports.map (·.text)) ++
          closing Failure.wording result := by
  obtain ⟨result, files, text, hRun⟩ := h.framed Conversions.framed_standard workspace.files
  have ended : conversion (workspace.saying announced) =
      ending result ⟨files, workspace.printed ++ announced ++ text, workspace.scratch⟩ := hRun _ _
  obtain ⟨reports, leaves⟩ := h.exists_leaves (workspace.saying announced)
  rw [ended, final_ending] at leaves
  have printed : workspace.printed ++ announced ++ text =
      workspace.printed ++ announced ++ String.join (reports.map (·.text)) := leaves.printed
  refine ⟨result, _, reports, ended, leaves, ?_, ?_⟩
  · rw [run, runWith, h.run_eq hRun, report_ending]
    rfl
  · rw [run, runWith, h.run_eq hRun, report_ending, ← printed]
    rfl

end Selected

/-- How a command line ends if its conversion begins in one workspace and comes to an end. -/
structure EndsLike (wording : ε → List Nat) (begun : Workspace)
    (ended : EStateM.Result ε Workspace (List Published)) (outcome : Outcome) : Prop where
  /-- What was printed before the conversion stays in front. -/
  kept : ∃ text, (final ended).printed = begun.printed ++ text
  /-- The files are as the conversion left them. -/
  files : outcome.workspace.files = (final ended).files
  /-- The status tells whether there is a result. -/
  status : outcome.status = 0 ↔ ∃ results after, ended = .ok results after
  /-- Behind a result nothing is printed. -/
  printed : ∀ results after, ended = .ok results after → outcome.workspace.printed = after.printed
  /-- Behind an error the status is 1. -/
  failed : ∀ error after, ended = .error error after → outcome.status = 1
  /-- The wording of the error is printed if it is made of characters. -/
  worded : ∀ error after message, ended = .error error after →
    wording error = Text.codePoints message →
      outcome.workspace.printed = after.printed ++ "Error:  " ++ message ++ "\n"
  /-- Otherwise nothing of it is printed. -/
  unworded : ∀ error after, ended = .error error after →
    (∀ message, wording error ≠ Text.codePoints message) →
      outcome.workspace.printed = after.printed ++ "Error:  "

/-- The report on a conversion does not depend on the temporary files. -/
private theorem endsLike_report {wording : ε → List Nat} {begun : Workspace}
    {result : Except ε (List Published)} {files : FileTree} {text : String}
    {scratch scratch' : Scratch} :
    EndsLike wording begun (ending result ⟨files, begun.printed ++ text, scratch⟩)
      (report wording (ending result ⟨files, begun.printed ++ text, scratch'⟩)) := by
  have kept : ∃ more, (final (ending result ⟨files, begun.printed ++ text, scratch⟩)).printed =
      begun.printed ++ more := ⟨text, by rw [final_ending]⟩
  cases result with
  | ok results =>
      refine ⟨kept, rfl, iff_of_true rfl ⟨_, _, rfl⟩, ?_, ?_, ?_, ?_⟩
      · rintro results after ⟨⟩
        rfl
      · rintro error after ⟨⟩
      · rintro error after message ⟨⟩
      · rintro error after ⟨⟩
  | error error =>
      refine ⟨kept, rfl, iff_of_false Nat.one_ne_zero ?_, ?_, ?_, ?_, ?_⟩
      · rintro ⟨results, after, ⟨⟩⟩
      · rintro results after ⟨⟩
      · rintro error after ⟨⟩
        rfl
      · rintro error after message ⟨⟩ hWording
        simp only [ending, report, hWording, complaint_codePoints, String.append_assoc]
      · rintro error after ⟨⟩ hWording
        simp only [ending, report, complaint_of_ne hWording]

/-- The temporary files behind an invocation. -/
private theorem scratch_runWith (framed : conversions.Framed) (input : List Char)
    (workspace : Workspace) (invocation : Invocation) :
    (invocation.runWith conversions input workspace).workspace.scratch =
      invocation.scratchBehind workspace.scratch := by
  have selected : ∀ request announced conversion,
      Selects conversions input workspace invocation request announced conversion →
        (invocation.runWith conversions input workspace).workspace.scratch =
          invocation.scratchBehind workspace.scratch := by
    intro request announced conversion selects
    obtain ⟨result, files, text, hRun⟩ := selects.framed framed workspace.files
    rw [selects.run_eq hRun, report_ending]
    rfl
  cases invocation with
  | misuse | help | version => rfl
  | convertSources => exact selected _ _ _ .sources
  | convertModel path request =>
      cases path with
      | some path => exact selected _ _ _ .file
      | none => exact selected _ _ _ .standardInput

/-- **How any command line ends**, whatever functions convert.  The temporary files are as before;
one was made and removed if the line asks for the conversion of the standard input, and none
otherwise.  A line that selects no conversion changes no file and does not end with status 1.  A
line that selects one ends like that conversion, begun behind the announcement. -/
theorem run_cleans_up (conversions : Conversions ε) (framed : conversions.Framed)
    (words : List String) (input : List Char) (workspace : Workspace) :
    (runWith conversions words input workspace).workspace.scratch.present =
      workspace.scratch.present ∧
    (∀ request, parse words = .convertModel none request →
      (runWith conversions words input workspace).workspace.scratch.made =
        workspace.scratch.made + 1) ∧
    ((∀ request, parse words ≠ .convertModel none request) →
      (runWith conversions words input workspace).workspace.scratch.made =
        workspace.scratch.made) ∧
    ((∀ request announced conversion,
        ¬ Selects conversions input workspace (parse words) request announced conversion) →
      (runWith conversions words input workspace).workspace.files = workspace.files ∧
        (runWith conversions words input workspace).status ≠ 1) ∧
    ∀ request announced conversion,
      Selects conversions input workspace (parse words) request announced conversion →
        EndsLike conversions.wording (workspace.saying announced)
          (conversion (workspace.saying announced))
          (runWith conversions words input workspace) := by
  rw [runWith, scratch_runWith framed]
  generalize parse words = invocation
  refine ⟨?_, ?_, ?_, ?_, ?_⟩
  · unfold Invocation.scratchBehind
    split <;> rfl
  · rintro request rfl
    rfl
  · intro other
    unfold Invocation.scratchBehind
    split
    · next request => exact absurd rfl (other request)
    · rfl
  · intro none
    cases invocation with
    | misuse | help | version => exact ⟨rfl, nofun⟩
    | convertSources => exact absurd .sources (none _ _ _)
    | convertModel path request =>
        cases path with
        | some path => exact absurd .file (none _ _ _)
        | none => exact absurd .standardInput (none _ _ _)
  · intro request announced conversion selects
    obtain ⟨result, files, text, hRun⟩ := selects.framed framed workspace.files
    have ended : conversion (workspace.saying announced) =
        ending result ⟨files, (workspace.saying announced).printed ++ text, workspace.scratch⟩ :=
      hRun _ _
    rw [selects.run_eq hRun, ended]
    exact endsLike_report

/-- A day, and a page whose only comment is a number. -/
def diaryText : String :=
  "\x7b\"classes\": [" ++
    "\x7b\"simpleName\": \"Day\", \"isEnum\": true, \"enumConstants\": [\"SUN\"]\x7d, " ++
    "\x7b\"simpleName\": \"Page\", \"fields\": [" ++
    "\x7b\"name\": \"x\", \"type\": \"int\", \"docComment\": 7\x7d]\x7d]\x7d"

/-- A workspace without files, in which three temporary files were made and one is left. -/
def diaryWorkspace : Workspace := ⟨FileTree.empty ["w"], "", ⟨"/tmp/m", [[1]], 3⟩⟩

/-- The document of the day is saved before the page fails.  It stays, the message stands behind the
report on it, and only the temporary file that was there before is left. -/
theorem diary_cleaned_up :
    parse ["m2jsons", "--out", "o"] = .convertModel none ⟨.directory "o", none⟩ ∧
    (run ["m2jsons", "--out", "o"] diaryText.toList diaryWorkspace).workspace.scratch.present =
      [[1]] ∧
    (run ["m2jsons", "--out", "o"] diaryText.toList diaryWorkspace).workspace.scratch.made = 4 ∧
    EndsLike Failure.wording
      (diaryWorkspace.saying (announcement .model "/tmp/m" (.directory "o")))
      (Publish.convertDocument ⟨.directory "o", none⟩ (Text.encode diaryText.toList)
        (diaryWorkspace.saying (announcement .model "/tmp/m" (.directory "o"))))
      (run ["m2jsons", "--out", "o"] diaryText.toList diaryWorkspace) ∧
    (run ["m2jsons", "--out", "o"] diaryText.toList diaryWorkspace).status = 1 ∧
    (run ["m2jsons", "--out", "o"] diaryText.toList diaryWorkspace).workspace.printed =
      "Executing Convert a JSON type model to JSON schema with input /tmp/m and output o\n" ++
        "Schema saved to: o/Day.json\n" ++
        "Error:  expected string or bytes-like object, got 'int'\n" ∧
    (run ["m2jsons", "--out", "o"] diaryText.toList diaryWorkspace).workspace.files.isPresent
      "o/Day.json" = true := by
  have words : parse ["m2jsons", "--out", "o"] = .convertModel none ⟨.directory "o", none⟩ := by
    decide +kernel
  have selects : Selects .standard diaryText.toList diaryWorkspace
      (parse ["m2jsons", "--out", "o"]) ⟨.directory "o", none⟩
      (announcement .model "/tmp/m" (.directory "o"))
      (Publish.convertDocument ⟨.directory "o", none⟩ (Text.encode diaryText.toList)) :=
    words ▸ .standardInput
  unfold run
  obtain ⟨present, made, -, -, ends⟩ :=
    run_cleans_up .standard Conversions.framed_standard ["m2jsons", "--out", "o"] diaryText.toList
      diaryWorkspace
  refine ⟨words, present, made _ words, ends _ _ _ selects, ?_⟩
  decide +kernel

/-- A page with a field of a kind that is half of a surrogate pair. -/
def halfText : String :=
  "\x7b\"classes\": [\x7b\"simpleName\": \"Page\", \"fields\": [" ++
    "\x7b\"name\": \"x\", \"type\": \x7b\"kind\": \"\\ud800\"\x7d\x7d]\x7d]\x7d"

/-- Two lines do not end like their conversions with the wording of an error.

The first one asks for the version and goes on with the conversion of a file that is missing.
Without its first word it would end with a complaint and status 1.  With this word the version is
printed, and the status says success, although the conversion has no result.

The second one fails with a wording that holds half of a surrogate pair, and the complaint ends in
front of it. -/
theorem ends_unlike_conversion :
    (parse ["--version", "m2jsons", "missing.json"] =
        settle true false (parseTask .model ["missing.json"]) ∧
      Selects .standard [] diaryWorkspace (parseTask .model ["missing.json"]) ⟨.console, none⟩ ""
        (Publish.convertModel "missing.json" ⟨.console, none⟩) ∧
      ¬ ((run ["--version", "m2jsons", "missing.json"] [] diaryWorkspace).status = 0 ↔
        ∃ results after, Publish.convertModel "missing.json" ⟨.console, none⟩ diaryWorkspace =
          .ok results after) ∧
      (run ["--version", "m2jsons", "missing.json"] [] diaryWorkspace).workspace.printed =
        "classtojsons 0.1.0\n" ∧
      (run ["m2jsons", "missing.json"] [] diaryWorkspace).status = 1 ∧
      (run ["m2jsons", "missing.json"] [] diaryWorkspace).workspace.printed =
        "Error:  [Errno 2] No such file or directory: 'missing.json'\n") ∧
    (run ["m2jsons"] halfText.toList diaryWorkspace).status = 1 ∧
    (run ["m2jsons"] halfText.toList diaryWorkspace).workspace.printed = "Error:  " := by
  have task : parseTask .model ["missing.json"] =
      .convertModel (some "missing.json") ⟨.console, none⟩ := by decide +kernel
  have status : (run ["--version", "m2jsons", "missing.json"] [] diaryWorkspace).status = 0 := by
    decide +kernel
  have fails : Publish.convertModel "missing.json" ⟨.console, none⟩ diaryWorkspace =
      .error (.file (.failed .missing "missing.json")) diaryWorkspace := rfl
  refine ⟨⟨by decide +kernel, task ▸ .file, fun same => ?_, by decide +kernel⟩, by decide +kernel⟩
  obtain ⟨results, after, hResult⟩ := same.mp status
  cases fails.symm.trans hResult

end ClassSchema.Command
