import ClassSchema.Proofs.Command.Announced
import ClassSchema.Proofs.Command.ModelLines
import ClassSchema.Proofs.Text.Utf8

/-!
# Models on the standard input

A model can be given in a file or on the standard input, and this makes no difference but for
the name of the input in the announcement.  The text goes through a temporary file, so it is
encoded and decoded once more, and its line ends may have become line feeds already on the way.

## Main results

* `ofBytes_encode`: of a text, the model depends on its lines only.
* `standard_input_like_file`: a model on the standard input is converted like one in a file.
-/

namespace ClassSchema

/-- A model does not depend on how the lines of its text end. -/
theorem Model.ofBytes_encode (text : List Char) :
    Model.ofBytes (Text.encode text) = Model.ofText (Text.unifyNewlines text) := by
  rw [Model.ofBytes, Text.readText_encode]

/-- Neither does what is published. -/
theorem Publish.convertDocument_encode {text input : List Char}
    (same : Text.unifyNewlines input = Text.unifyNewlines text) (request : Request) :
    convertDocument request (Text.encode input) = convertDocument request (Text.encode text) := by
  simp only [convertDocument, Model.ofBytes_encode, same]

namespace Command

open Session

/-- Two runs that end in the same way and with the same files, and print the same text behind their
announcements. -/
structure SameBehind (workspace : Workspace) (announced announced' : String)
    (outcome outcome' : Outcome) : Prop where
  /-- The exit status is the same. -/
  status : outcome.status = outcome'.status
  /-- So are the files. -/
  files : outcome.workspace.files = outcome'.workspace.files
  /-- So is what is printed behind the announcements. -/
  printed : ∃ text, outcome.workspace.printed = workspace.printed ++ announced ++ text ∧
    outcome'.workspace.printed = workspace.printed ++ announced' ++ text

/-- Conversions that come to the same with the same files print the same at their ends. -/
private theorem sameBehind_of_ending {ε α : Type} (wording : ε → List Nat) (result : Except ε α)
    (workspace : Workspace) (files : FileTree) (announced announced' text : String)
    (scratch scratch' : Scratch) :
    SameBehind workspace announced announced'
      (report wording (ending result ⟨files, workspace.printed ++ announced ++ text, scratch⟩))
      (report wording
        (ending result ⟨files, workspace.printed ++ announced' ++ text, scratch'⟩)) := by
  simp only [report_ending, Workspace.saying]
  refine ⟨rfl, rfl, text ++ closing wording result, ?_, ?_⟩ <;> simp only [String.append_assoc]

/-- A model in a file is read before anything else. -/
private theorem convertModel_eq {workspace : Workspace} {path : String} {bytes : List Nat}
    (file : workspace.files.read path = .ok bytes) (request : Request) :
    Publish.convertModel path request workspace =
      Publish.convertDocument request bytes workspace := by
  simp only [Publish.convertModel, bind, EStateM.bind, readFile, orFail, file]

/-- **A model on the standard input is converted like one in a file.**  There are command lines for
all directories and all classes.  If two of them ask for the same, one from the standard input and
one from a file, and the file holds the text of the standard input, then they end with the same
status and the same files, and print the same behind their announcements, be it the reports, the
documents or the message of any failure.  Line ends need not be the same. -/
theorem standard_input_like_file :
    (∀ out className path,
      parse (modelLine out className path) = .convertModel path ⟨.ofPath? out, className⟩) ∧
    ∀ (words words' : List String) (request : Request) (path : String)
      (text input input' : List Char) (workspace : Workspace),
      parse words = .convertModel none request →
      parse words' = .convertModel (some path) request →
      workspace.files.read path = .ok (Text.encode text) →
      Text.unifyNewlines input = Text.unifyNewlines text →
        SameBehind workspace (announcement .model workspace.scratch.name request.destination)
          (announcement .model path request.destination)
          (run words input workspace) (run words' input' workspace) := by
  refine ⟨parse_modelLine, ?_⟩
  intro words words' request path text input input' workspace hInput hFile file same
  obtain ⟨result, files, printed, h⟩ :=
    Publish.framed_convertDocument request (Text.encode text) workspace.files
  have fromInput := @Conversions.runStandardInput_eq _ .standard input request workspace _ _ _
    (Publish.convertDocument_encode same request ▸ h)
  have fromFile : Conversions.standard.runModel path request workspace =
      ending result ⟨files, workspace.printed ++ announcement .model path request.destination ++
        printed, workspace.scratch⟩ := by
    rw [Conversions.runModel_eq]
    exact (convertModel_eq (by exact file) request).trans (h _ _)
  simp only [run, runWith, hInput, hFile, Invocation.runWith, fromInput, fromFile]
  exact sameBehind_of_ending ..

/-- A point with a coordinate; `lineEnd` is what ends the lines. -/
def pointText (lineEnd : String) : String :=
  "\x7b\"classes\": [" ++ lineEnd ++
    " \x7b\"simpleName\": \"Point\", " ++
    "\"fields\": [\x7b\"name\": \"x\", \"type\": \"int\"\x7d]\x7d" ++ lineEnd ++ "]\x7d" ++ lineEnd

/-- A workspace with a point in a file whose lines end with carriage returns and line feeds. -/
def pointWorkspace : Workspace :=
  ⟨(FileTree.empty ["w"]).put ["w", "m.json"] (.file (Text.encode (pointText "\r\n").toList)), "",
    ⟨"/tmp/m", [], 0⟩⟩

/-- A point is converted alike from the standard input and from the file, into a directory that is
made for it. -/
theorem point_like_file :
    parse ["m2jsons", "--class", "Point", "--out", "o"] =
      .convertModel none ⟨.directory "o", some "Point"⟩ ∧
    parse ["m2jsons", "m.json", "--cl=Point", "--out=o"] =
      .convertModel (some "m.json") ⟨.directory "o", some "Point"⟩ ∧
    pointWorkspace.files.read "m.json" = .ok (Text.encode (pointText "\r\n").toList) ∧
    Text.unifyNewlines (pointText "\n").toList = Text.unifyNewlines (pointText "\r\n").toList ∧
    SameBehind pointWorkspace (announcement .model "/tmp/m" (.directory "o"))
      (announcement .model "m.json" (.directory "o"))
      (run ["m2jsons", "--class", "Point", "--out", "o"] (pointText "\n").toList pointWorkspace)
      (run ["m2jsons", "m.json", "--cl=Point", "--out=o"] [] pointWorkspace) ∧
    (run ["m2jsons", "m.json", "--cl=Point", "--out=o"] [] pointWorkspace).workspace.printed =
      "Executing Convert a JSON type model to JSON schema with input m.json and output o\n" ++
        "Schema saved to: o/Point.json\n" := by
  have words : parse ["m2jsons", "--class", "Point", "--out", "o"] =
      .convertModel none ⟨.directory "o", some "Point"⟩ := by decide +kernel
  have words' : parse ["m2jsons", "m.json", "--cl=Point", "--out=o"] =
      .convertModel (some "m.json") ⟨.directory "o", some "Point"⟩ := by decide +kernel
  have file : pointWorkspace.files.read "m.json" = .ok (Text.encode (pointText "\r\n").toList) :=
    rfl
  have same : Text.unifyNewlines (pointText "\n").toList =
      Text.unifyNewlines (pointText "\r\n").toList := by decide +kernel
  exact ⟨words, words', file, same,
    standard_input_like_file.2 _ _ _ _ _ _ [] _ words words' file same, by decide +kernel⟩

end Command

end ClassSchema
