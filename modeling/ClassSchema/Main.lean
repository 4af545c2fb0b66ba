import ClassSchema.Command.Run

/-!
# The program

The outer layer reads the files and directories that the command line names into
a workspace, runs the command line in it, prints what was printed, and writes
what has changed.
-/

namespace ClassSchema.Program

/-- The locations that are passed when names are followed. -/
def visited (start : Location) (names : List String) : List Location :=
  let step (state : Location × List Location) (name : String) : Location × List Location :=
    let next :=
      if name = "" ∨ name = "." then state.1
      else if name = ".." then state.1.dropLast
      else state.1 ++ [name]
    (next, next :: state.2)
  (names.foldl step (start, [])).2.reverse

/-- The path of a location. -/
def pathOf (location : Location) : String := "/" ++ "/".intercalate location

/-- What stands at a path. -/
def probe (path : String) : IO (Option Node) := do
  try
    let content ← IO.FS.readBinFile path
    return some (.file (content.toList.map UInt8.toNat))
  catch
    | .noFileOrDirectory .. => return none
    | _ => return some .directory

/-- The paths that an invocation names. -/
def pathsOf : Command.Invocation → List String
  | .convertSources paths _ ⟨destination, _⟩ => paths ++ directoryOf destination
  | .convertModel path ⟨destination, _⟩ => path.toList ++ directoryOf destination
  | _ => []
where
  /-- The directory of a destination. -/
  directoryOf : Destination → List String
    | .console => []
    | .directory path => [path]

/-- The files that an invocation can see. -/
def load (invocation : Command.Invocation) : IO FileTree := do
  let current := (Path.names (← IO.currentDir).toString).filter (· ≠ "")
  let mut tree := FileTree.empty current
  for path in pathsOf invocation do
    for location in visited (tree.start path) (Path.names path) do
      if let some node ← probe (pathOf location) then
        unless location.isEmpty do
          tree := tree.put location node
  return tree

/-- Writes what is new in a tree. -/
def save (old new : FileTree) : IO Unit := do
  for (location, node) in new.entries do
    if old.node location ≠ some node then
      match node with
      | .directory => IO.FS.createDirAll (pathOf location)
      | .file content =>
          IO.FS.writeBinFile (pathOf location) ⟨(content.map UInt8.ofNat).toArray⟩

/-- All that can be read from a stream. -/
partial def readAll (stream : IO.FS.Stream) (text : String) : IO String := do
  let line ← stream.getLine
  if line.isEmpty then return text else readAll stream (text ++ line)

/-- The text on the standard input if an invocation needs it. -/
def inputFor : Command.Invocation → IO String
  | .convertModel none _ => do readAll (← IO.getStdin) ""
  | _ => return ""

end ClassSchema.Program

open ClassSchema in
/-- Runs the command line. -/
def main (words : List String) : IO UInt32 := do
  let invocation := Command.parse words
  let files ← Program.load invocation
  let input ← Program.inputFor invocation
  let outcome := invocation.run input.toList ⟨files, "", ⟨"the standard input", [], 0⟩⟩
  IO.print outcome.workspace.printed
  Program.save files outcome.workspace.files
  return UInt32.ofNat outcome.status
