import ClassSchema.Publish.Failure

/-!
# Workspaces

What a conversion can see and change: the files, the text that was printed so
far, and the temporary files.  A session is a sequence of changes that can stop
with a failure.  What was changed before a failure stays changed.

## Main results

* `present_withTemporary`: a temporary file is gone at the end, however its use
  ends.
-/

namespace ClassSchema

/-- The temporary files. -/
structure Scratch where
  /-- How a temporary file is called in messages. -/
  name : String
  /-- The contents of those that are there, newest first. -/
  present : List (List Nat)
  /-- How many were ever made. -/
  made : Nat
  deriving Repr

namespace Scratch

/-- Makes a temporary file. -/
def make (scratch : Scratch) (content : List Nat) : Scratch :=
  { scratch with present := content :: scratch.present, made := scratch.made + 1 }

/-- Removes the newest temporary file. -/
def remove (scratch : Scratch) : Scratch := { scratch with present := scratch.present.tail }

end Scratch

/-- What a conversion can see and change. -/
structure Workspace where
  /-- The files. -/
  files : FileTree
  /-- What was printed so far. -/
  printed : String
  /-- The temporary files. -/
  scratch : Scratch
  deriving Repr

/-- A sequence of changes that can stop with an error. -/
abbrev SessionRaising (ε : Type) := EStateM ε Workspace

/-- A sequence of changes that can stop with a failure. -/
abbrev Session := SessionRaising Failure

namespace Session

/-- Stops unless there is a result. -/
def orFail {ε α : Type} (wrap : ε → Failure) (result : Except ε α) : Session α := fun workspace =>
  match result with
  | .ok value => .ok value workspace
  | .error e => .error (wrap e) workspace

/-- Prints a line. -/
def printLine {ε : Type} (line : String) : SessionRaising ε Unit := fun workspace =>
  .ok () { workspace with printed := workspace.printed ++ line ++ "\n" }

/-- The bytes of a file. -/
def readFile (path : String) : Session (List Nat) := fun workspace =>
  orFail .file (workspace.files.read path) workspace

/-- Writes a text to a file. -/
def writeFile (path text : String) : Session Unit := fun workspace =>
  match workspace.files.write path (Text.encode text.toList) with
  | .ok files => .ok () { workspace with files }
  | .error e => .error (.file e) workspace

/-- Makes a directory and the parents that it lacks, unless the path leads somewhere. -/
def prepareDirectory (path : String) : Session Unit := fun workspace =>
  if workspace.files.isPresent path then .ok () workspace
  else
    match FileTree.ensureDirectories path workspace.files with
    | .ok () files => .ok () { workspace with files }
    | .error e files => .error (.file e) { workspace with files }

/-! ## Temporary files -/

/-- The workspace in which a session ended. -/
def final {ε α : Type} : EStateM.Result ε Workspace α → Workspace
  | .ok _ workspace => workspace
  | .error _ workspace => workspace

/-- Uses a temporary file with the given bytes, and removes it however that ends. -/
def withTemporary {ε α : Type} (content : List Nat) (use : List Nat → SessionRaising ε α) :
    SessionRaising ε α :=
  fun workspace =>
    match use content { workspace with scratch := workspace.scratch.make content } with
    | .ok value workspace => .ok value { workspace with scratch := workspace.scratch.remove }
    | .error e workspace => .error e { workspace with scratch := workspace.scratch.remove }

/-- A temporary file is gone at the end, provided that its use leaves the temporary files alone. -/
theorem present_withTemporary {ε α : Type} (content : List Nat)
    (use : List Nat → SessionRaising ε α)
    (h : ∀ workspace, (final (use content workspace)).scratch = workspace.scratch)
    (workspace : Workspace) :
    (final (withTemporary content use workspace)).scratch.present
      = workspace.scratch.present := by
  have kept := h { workspace with scratch := workspace.scratch.make content }
  unfold withTemporary
  split <;> next hUse => rw [hUse] at kept; simp only [final] at kept ⊢; rw [kept]; rfl

end Session

end ClassSchema
