import ClassSchema.Command.Help
import ClassSchema.Publish.Conversion

/-!
# Running a command line

Running an invocation changes the workspace and ends with an exit status: 0 for
success, 1 for a conversion that failed, 2 for a misuse.  The wording of an error
is the last thing that is printed.  A model from the standard input goes through
a temporary file.

The commands know their conversions by name only, so a run is described for any
functions that convert; `Conversions.standard` are those of this library.  What
they raise is worded in code points, and the standard output takes characters
only.  If a wording cannot be printed, the program stops in front of it; the
status is that of a failure all the same.
-/

namespace ClassSchema.Command

/-- The functions that the commands call, and the wording of the errors that they raise. -/
structure Conversions (ε : Type) where
  /-- Converts Java sources, with or without their static fields. -/
  sources : List String → Bool → Request → SessionRaising ε (List Published)
  /-- Converts the model in a file. -/
  model : String → Request → SessionRaising ε (List Published)
  /-- Converts the model in a temporary file, whose bytes are given. -/
  document : Request → List Nat → SessionRaising ε (List Published)
  /-- The wording of an error in code points. -/
  wording : ε → List Nat

/-- The conversions of this library. -/
def Conversions.standard : Conversions Failure where
  sources := Publish.convertSources
  model := Publish.convertModel
  document := Publish.convertDocument
  wording := Failure.wording

/-- Where the model of a conversion comes from. -/
def announce {ε : Type} (task : Task) (input : String) : Destination → SessionRaising ε Unit
  | .console => return ()
  | .directory path =>
      Session.printLine ("Executing " ++ task.description ++ " with input " ++ input
        ++ " and output " ++ path)

namespace Conversions

variable {ε : Type}

/-- Converts Java sources. -/
def runSources (conversions : Conversions ε) (paths : List String) (includeStatic : Bool)
    (request : Request) : SessionRaising ε (List Published) := do
  announce .sources (Text.quotedList paths) request.destination
  conversions.sources paths includeStatic request

/-- Converts the model in a file. -/
def runModel (conversions : Conversions ε) (path : String) (request : Request) :
    SessionRaising ε (List Published) := do
  announce .model path request.destination
  conversions.model path request

/-- Converts the model on the standard input. -/
def runStandardInput (conversions : Conversions ε) (input : List Char) (request : Request) :
    SessionRaising ε (List Published) :=
  Session.withTemporary (Text.encode input) fun bytes => do
    announce .model (← get).scratch.name request.destination
    conversions.document request bytes

end Conversions

/-- An exit status, and the workspace at the end. -/
structure Outcome where
  /-- The exit status. -/
  status : Nat
  /-- The workspace at the end. -/
  workspace : Workspace
  deriving Repr

/-- What is printed about an error: a word, and the wording if it can be printed. -/
def complaint (wording : List Nat) : String :=
  match Text.ofCodePoints? wording with
  | some message => "Error:  " ++ message ++ "\n"
  | none => "Error:  "

theorem complaint_codePoints (message : String) :
    complaint (Text.codePoints message) = "Error:  " ++ message ++ "\n" := by
  simp only [complaint, Text.ofCodePoints?_codePoints]

theorem complaint_of_ne {wording : List Nat} (h : ∀ message, wording ≠ Text.codePoints message) :
    complaint wording = "Error:  " := by
  unfold complaint
  split
  · next message hMessage => exact absurd (Text.ofCodePoints?_eq_some_iff.mp hMessage) (h message)
  · rfl

/-- Prints the wording of an error. -/
def report {ε α : Type} (wording : ε → List Nat) : EStateM.Result ε Workspace α → Outcome
  | .ok _ workspace => ⟨0, workspace⟩
  | .error e workspace =>
      ⟨1, { workspace with printed := workspace.printed ++ complaint (wording e) }⟩

/-- Prints lines. -/
def showLines (lines : List String) (workspace : Workspace) : Outcome :=
  ⟨0, { workspace with printed := workspace.printed ++ String.join (lines.map (· ++ "\n")) }⟩

/-- Does what an invocation asks for, with the given conversions. -/
def Invocation.runWith {ε : Type} (conversions : Conversions ε) (input : List Char)
    (workspace : Workspace) : Invocation → Outcome
  | misuse => ⟨2, workspace⟩
  | help topic => showLines (helpText topic) workspace
  | version => showLines [programName ++ " " ++ programVersion] workspace
  | convertSources paths includeStatic request =>
      report conversions.wording (conversions.runSources paths includeStatic request workspace)
  | convertModel (some path) request =>
      report conversions.wording (conversions.runModel path request workspace)
  | convertModel none request =>
      report conversions.wording (conversions.runStandardInput input request workspace)

/-- Does what an invocation asks for. -/
def Invocation.run (input : List Char) (workspace : Workspace) (invocation : Invocation) :
    Outcome :=
  invocation.runWith .standard input workspace

/-- Does what a command line asks for, with the given conversions; `input` is the text on the
standard input. -/
def runWith {ε : Type} (conversions : Conversions ε) (words : List String) (input : List Char)
    (workspace : Workspace) : Outcome :=
  (parse words).runWith conversions input workspace

/-- Does what a command line asks for; `input` is the text on the standard input. -/
def run (words : List String) (input : List Char) (workspace : Workspace) : Outcome :=
  runWith .standard words input workspace

end ClassSchema.Command
