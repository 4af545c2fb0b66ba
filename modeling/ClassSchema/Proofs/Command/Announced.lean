import ClassSchema.Command.Run
import ClassSchema.Proofs.Publish.Frames

/-!
# Conversions from the command line

A conversion from the command line announces itself, unless its documents are printed, and then
converts.  The announcement names the input; nothing else does, since a conversion looks at the
files alone.  A temporary file stands beside the files, and the conversion of the standard input
leaves none behind.

## Main results

* `runSources_eq`, `runModel_eq`: an announcement and a conversion.
* `runStandardInput_eq`: the same with a temporary file, which is gone at the end.
* `report_ending`: what becomes of the end of a conversion.
-/

namespace ClassSchema

/-- A workspace in which one more text was printed. -/
def Workspace.saying (workspace : Workspace) (text : String) : Workspace :=
  { workspace with printed := workspace.printed ++ text }

@[simp] theorem Workspace.saying_empty (workspace : Workspace) :
    workspace.saying "" = workspace := by
  simp [saying]

namespace Command

open Session

/-- What is printed in front of a conversion. -/
def announcement (task : Task) (input : String) : Destination → String
  | .console => ""
  | .directory path =>
      "Executing " ++ task.description ++ " with input " ++ input ++ " and output " ++ path ++ "\n"

theorem announce_eq {ε : Type} (task : Task) (input : String) (destination : Destination)
    (workspace : Workspace) :
    (announce task input destination : SessionRaising ε Unit) workspace =
      .ok () (workspace.saying (announcement task input destination)) := by
  cases destination with
  | console => rw [announcement, Workspace.saying_empty]; rfl
  | directory path =>
      simp only [announce, printLine, Workspace.saying, announcement, String.append_assoc]

/-- An announcement, and what comes behind it. -/
private theorem announce_bind {ε α : Type} (task : Task) (input : String)
    (destination : Destination) (next : SessionRaising ε α) (workspace : Workspace) :
    (announce task input destination >>= fun _ => next) workspace =
      next (workspace.saying (announcement task input destination)) := by
  simp only [bind, EStateM.bind, announce_eq]

namespace Conversions

variable {ε : Type} (conversions : Conversions ε)

theorem runSources_eq (paths : List String) (includeStatic : Bool) (request : Request)
    (workspace : Workspace) :
    conversions.runSources paths includeStatic request workspace =
      conversions.sources paths includeStatic request
        (workspace.saying (announcement .sources (Text.quotedList paths) request.destination)) :=
  announce_bind ..

theorem runModel_eq (path : String) (request : Request) (workspace : Workspace) :
    conversions.runModel path request workspace =
      conversions.model path request
        (workspace.saying (announcement .model path request.destination)) :=
  announce_bind ..

/-- **The conversion of the standard input** does what its bytes and the files determine.  A
temporary file was made for it, and is gone. -/
theorem runStandardInput_eq {input : List Char} {request : Request} {workspace : Workspace}
    {result : Except ε (List Published)} {files : FileTree} {text : String}
    (h : ∀ printed scratch,
      conversions.document request (Text.encode input) ⟨workspace.files, printed, scratch⟩ =
        ending result ⟨files, printed ++ text, scratch⟩) :
    conversions.runStandardInput input request workspace =
      ending result
        ⟨files, workspace.printed ++
            announcement .model workspace.scratch.name request.destination ++ text,
          { workspace.scratch with made := workspace.scratch.made + 1 }⟩ := by
  have use : (do
      announce .model (← get).scratch.name request.destination
      conversions.document request (Text.encode input) : SessionRaising ε (List Published))
        { workspace with scratch := workspace.scratch.make (Text.encode input) } =
      ending result
        ⟨files, workspace.printed ++
            announcement .model workspace.scratch.name request.destination ++ text,
          workspace.scratch.make (Text.encode input)⟩ :=
    (announce_bind ..).trans (h _ _)
  simp only [runStandardInput, withTemporary, use]
  cases result <;> rfl

end Conversions

/-- What is printed at the end of a conversion. -/
def closing {ε α : Type} (wording : ε → List Nat) : Except ε α → String
  | .ok _ => ""
  | .error error => complaint (wording error)

/-- **What becomes of the end of a conversion**: a status, and a complaint if it failed. -/
theorem report_ending {ε α : Type} (wording : ε → List Nat) (result : Except ε α)
    (workspace : Workspace) :
    report wording (ending result workspace) =
      ⟨if result.isOk then 0 else 1, workspace.saying (closing wording result)⟩ := by
  cases result with
  | ok value => rw [closing, Workspace.saying_empty]; rfl
  | error error => rfl

end Command

end ClassSchema
