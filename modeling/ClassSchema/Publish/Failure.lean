import ClassSchema.Files.Tree
import ClassSchema.Java.Source
import ClassSchema.Model.Document
import ClassSchema.Model.Entries
import ClassSchema.Schema.Compile

/-!
# Failures of a conversion

A conversion reads files, loads a model, selects entries, compiles them and
writes documents.  Each of these can fail, and a failure keeps its cause.

The wording of a failure is a list of code points.  It is the message, and behind
it stands a text that was refused because it is not made of characters.
-/

namespace ClassSchema

/-- Why a conversion stops. -/
inductive Failure where
  /-- A file cannot be read or written, or a directory cannot be made. -/
  | file (error : FileError)
  /-- A file holds no model. -/
  | load (error : Model.LoadError)
  /-- A file holds no source. -/
  | source (error : Java.SourceError)
  /-- No entry has the name that was asked for. -/
  | notFound (error : Model.ClassNotFound)
  /-- An entry has no schema. -/
  | compile (error : CompileError)
  /-- A document would have to be named by a key that is no text. -/
  | documentName (key : Json)
  deriving Repr

/-- The wording of a failure. -/
def Failure.message : Failure → String
  | file error => error.message
  | load error => error.message
  | source error => error.message
  | notFound error => error.message
  | compile error => error.message
  | documentName key => "unsupported operand type(s) for +: '" ++ key.kindName ++ "' and 'str'"

/-- The text that was refused because it is not made of characters. -/
def Failure.refused : Failure → List Nat
  | load (.malformed (.malformed (.loneSurrogate points) _)) => points
  | _ => []

/-- The wording of a failure in code points. -/
def Failure.wording (failure : Failure) : List Nat :=
  Text.codePoints failure.message ++ failure.refused

end ClassSchema
