import ClassSchema.Files.Path
import ClassSchema.OrderedMap
import ClassSchema.Text.Encoding
import ClassSchema.Text.Quoted

/-!
# File trees

A tree holds files and directories under their locations.  A location is the
list of names that lead to it from the root; the root is a directory.  A path is
followed name by name, and only directories can be passed: an empty name and a
single dot stay, two dots go back, any other name has to be there.

An operation that fails leaves the tree alone.  Making a directory with its
parents is a sequence of operations, so those that came before a failure stay.

## Main results

* `node_put`: a change is seen at its location and nowhere else.
* `read_write`: what was written to a path is read from it.
-/

namespace ClassSchema

/-! ## Errors -/

/-- Why an operation on files fails. -/
inductive FileProblem where
  /-- There is nothing of that name. -/
  | missing
  /-- There is something of that name already. -/
  | present
  /-- What should be passed, or used as a directory, is a file. -/
  | notDirectory
  /-- What should be read or written is a directory. -/
  | isDirectory
  /-- A name, or the path as a whole, is too long. -/
  | nameTooLong
  deriving DecidableEq, Repr

namespace FileProblem

/-- The number under which a problem is known. -/
def number : FileProblem → Nat
  | missing => 2
  | present => 17
  | notDirectory => 20
  | isDirectory => 21
  | nameTooLong => 36

/-- The wording of a problem. -/
def wording : FileProblem → String
  | missing => "No such file or directory"
  | present => "File exists"
  | notDirectory => "Not a directory"
  | isDirectory => "Is a directory"
  | nameTooLong => "File name too long"

end FileProblem

/-- Why a path cannot be used. -/
inductive FileError where
  /-- The operation on the path fails. -/
  | failed (problem : FileProblem) (path : String)
  /-- The path holds a character that no name can hold. -/
  | nullByte
  deriving DecidableEq, Repr

/-- The wording of an error. -/
def FileError.message : FileError → String
  | failed problem path =>
      "[Errno " ++ toString problem.number ++ "] " ++ problem.wording ++ ": " ++ Text.quoted path
  | nullByte => "embedded null byte"

/-! ## Trees -/

/-- The names that lead from the root to a place, outermost first. -/
abbrev Location := List String

/-- What stands at a location. -/
inductive Node where
  /-- A file with its bytes. -/
  | file (content : List Nat)
  /-- A directory. -/
  | directory
  deriving DecidableEq, Repr

/-- Files and directories, and the directory in which relative paths start. -/
structure FileTree where
  /-- What stands where; the root is left out. -/
  entries : OrderedMap Node Location
  /-- Where relative paths start. -/
  current : Location
  deriving Repr

namespace FileTree

/-- The most bytes that a name can have. -/
def maxName : Nat := 255

/-- The most bytes that a path can have. -/
def maxPath : Nat := 4095

/-- What stands at a location. -/
def node (tree : FileTree) : Location → Option Node
  | [] => some .directory
  | location => OrderedMap.get? tree.entries location

/-- Puts a file or a directory at a location. -/
def put (tree : FileTree) (location : Location) (node : Node) : FileTree :=
  { tree with entries := OrderedMap.put location node tree.entries }

@[simp] theorem current_put (tree : FileTree) (location : Location) (node : Node) :
    (tree.put location node).current = tree.current := rfl

/-- A change is seen at its location and nowhere else. -/
theorem node_put (tree : FileTree) {location : Location} (h : location ≠ []) (new : Node)
    (other : Location) :
    (tree.put location new).node other = if location = other then some new else tree.node other := by
  cases other with
  | nil => simp [node, h]
  | cons name rest => simp [node, put, OrderedMap.get?_put]

/-- The locations that are passed on the way to a location, and this one. -/
def wayTo (location : Location) : List Location :=
  (List.range location.length).map fun index => location.take (index + 1)

/-- Puts directories all along the way to a location. -/
def withDirectories (tree : FileTree) (location : Location) : FileTree :=
  (wayTo location).foldl (fun tree directory => tree.put directory .directory) tree

/-- A tree with nothing but the directories that lead to the current one. -/
def empty (current : Location) : FileTree := withDirectories ⟨[], current⟩ current

/-- Puts a file at a location, and directories all along the way to it. -/
def withFile (tree : FileTree) (location : Location) (content : List Nat) : FileTree :=
  (tree.withDirectories location.dropLast).put location (.file content)

/-- The files of a tree with their contents. -/
def files (tree : FileTree) : List (Location × List Nat) :=
  tree.entries.filterMap fun entry => match entry.2 with
    | .file content => some (entry.1, content)
    | .directory => none

/-! ## Following a path -/

/-- The location that a name in a directory stands for, whether or not something is there. -/
def child (tree : FileTree) (location : Location) (name : String) :
    Except FileProblem Location :=
  match tree.node location with
  | none => .error .missing
  | some (.file _) => .error .notDirectory
  | some .directory =>
      if name = "" ∨ name = "." then .ok location
      else if name = ".." then .ok location.dropLast
      else if maxName < (Text.encode name.toList).length then .error .nameTooLong
      else .ok (location ++ [name])

/-- Follows one name to something that is there. -/
def enter (tree : FileTree) (location : Location) (name : String) :
    Except FileProblem Location := do
  let next ← tree.child location name
  match tree.node next with
  | none => .error .missing
  | some _ => .ok next

/-- Follows several names. -/
def follow (tree : FileTree) (location : Location) (names : List String) :
    Except FileProblem Location :=
  names.foldlM tree.enter location

/-- Where a path starts. -/
def start (tree : FileTree) (path : String) : Location :=
  if Path.isAbsolute path then [] else tree.current

/-- The location of a path that leads somewhere. -/
def locate (tree : FileTree) (path : String) : Except FileProblem Location :=
  tree.follow (tree.start path) (Path.names path)

/-- What is wrong with a text that cannot be a path. -/
def refusal (path : String) : Option FileError :=
  if path.toList.contains '\x00' then some .nullByte
  else if path = "" then some (.failed .missing path)
  else if maxPath < (Text.encode path.toList).length then some (.failed .nameTooLong path)
  else none

/-- Refuses texts that cannot be paths before a use of the path is tried. -/
def attempt {α : Type} (path : String) (use : Except FileProblem α) : Except FileError α :=
  match refusal path, use with
  | some e, _ => .error e
  | none, .ok value => .ok value
  | none, .error problem => .error (.failed problem path)

theorem attempt_eq_ok_iff {α : Type} {path : String} {use : Except FileProblem α} {value : α} :
    attempt path use = .ok value ↔ refusal path = none ∧ use = .ok value := by
  unfold attempt
  split <;> simp_all

/-- What a path leads to. -/
def find (tree : FileTree) (path : String) : Except FileError Node :=
  attempt path do
    match tree.node (← tree.locate path) with
    | some node => .ok node
    | none => .error .missing

/-- Whether a path leads somewhere. -/
def isPresent (tree : FileTree) (path : String) : Bool :=
  match tree.find path with
  | .ok _ => true
  | .error _ => false

/-- Whether a path leads to a directory. -/
def isDirectory (tree : FileTree) (path : String) : Bool :=
  match tree.find path with
  | .ok .directory => true
  | _ => false

/-! ## Reading and writing -/

/-- The bytes of the file that a path leads to. -/
def read (tree : FileTree) (path : String) : Except FileError (List Nat) :=
  match tree.find path with
  | .ok (.file content) => .ok content
  | .ok .directory => .error (.failed .isDirectory path)
  | .error e => .error e

/-- Writes a file in a directory; the file may be there or not. -/
def writeIn (tree : FileTree) (directory : Location) (name : String) (content : List Nat) :
    Except FileProblem FileTree := do
  let location ← tree.child directory name
  match tree.node location with
  | some .directory => .error .isDirectory
  | _ => .ok (tree.put location (.file content))

/-- Writes the file that a path leads to; its directory has to be there. -/
def write (tree : FileTree) (path : String) (content : List Nat) : Except FileError FileTree :=
  attempt path do
    let directory ← tree.follow (tree.start path) (Path.names path).dropLast
    tree.writeIn directory ((Path.names path).getLast (Path.names_ne_nil path)) content

/-- Whether a tree has all of another one, and directories where that one has them. -/
def Extends (new old : FileTree) : Prop :=
  ∀ location node, old.node location = some node →
    ∃ node', new.node location = some node' ∧ (node = .directory → node' = .directory)

/-- A name stands for the same location in a larger tree. -/
theorem Extends.child {new old : FileTree} (larger : new.Extends old) {location next : Location}
    {name : String} (h : old.child location name = .ok next) :
    new.child location name = .ok next := by
  unfold FileTree.child at h
  split at h
  · cases h
  · cases h
  · next hNode =>
      obtain ⟨node', hNew, hDirectory⟩ := larger _ _ hNode
      rw [hDirectory rfl] at hNew
      simpa only [FileTree.child, hNew] using h

/-- A name leads to the same location in a larger tree. -/
theorem Extends.enter {new old : FileTree} (larger : new.Extends old) {location next : Location}
    {name : String} (h : old.enter location name = .ok next) :
    new.enter location name = .ok next := by
  unfold FileTree.enter at h ⊢
  cases hChild : old.child location name with
  | error problem => rw [hChild] at h; cases h
  | ok place =>
      rw [hChild] at h
      rw [larger.child hChild]
      simp only [bind, Except.bind] at h ⊢
      split at h
      · cases h
      · next hNode =>
          obtain ⟨node', hNew, _⟩ := larger _ _ hNode
          rw [hNew]
          exact h

/-- Names lead to the same location in a larger tree. -/
theorem Extends.follow {new old : FileTree} (larger : new.Extends old) {names : List String}
    {location next : Location} (h : old.follow location names = .ok next) :
    new.follow location names = .ok next := by
  induction names generalizing location with
  | nil => exact h
  | cons name rest ih =>
      simp only [FileTree.follow, List.foldlM_cons] at h ih ⊢
      cases hEnter : old.enter location name with
      | error problem => rw [hEnter] at h; cases h
      | ok middle =>
          rw [hEnter] at h
          rw [larger.enter hEnter]
          exact ih h

/-- A tree grows by a file that replaces no directory. -/
theorem extends_put {tree : FileTree} {location : Location} (content : List Nat)
    (h : tree.node location ≠ some .directory) :
    (tree.put location (.file content)).Extends tree := by
  have notRoot : location ≠ [] := by
    rintro rfl
    exact h rfl
  intro other node hNode
  by_cases hSame : location = other
  · subst hSame
    refine ⟨.file content, by rw [node_put tree notRoot, if_pos rfl], fun hDirectory => ?_⟩
    exact absurd (hDirectory ▸ hNode) h
  · exact ⟨node, by rw [node_put tree notRoot, if_neg hSame, hNode], id⟩

/-- What was written to a path is read from it. -/
theorem read_write {tree new : FileTree} {path : String} {content : List Nat}
    (h : tree.write path content = .ok new) : new.read path = .ok content := by
  obtain ⟨hPath, h⟩ := attempt_eq_ok_iff.mp h
  cases hFollow : tree.follow (tree.start path) (Path.names path).dropLast with
  | error problem => rw [hFollow] at h; cases h
  | ok directory =>
  rw [hFollow] at h
  simp only [bind, Except.bind, writeIn] at h
  split at h
  · cases h
  next location hChild =>
  split at h
  · cases h
  next hNode =>
  cases h
  have larger := extends_put content hNode
  have notRoot : location ≠ [] := by
    rintro rfl
    exact hNode rfl
  have hWritten : (tree.put location (.file content)).node location = some (.file content) := by
    rw [node_put tree notRoot, if_pos rfl]
  have hEnter : (tree.put location (.file content)).enter directory
      ((Path.names path).getLast (Path.names_ne_nil path)) = .ok location := by
    simp only [enter, larger.child hChild, bind, Except.bind, hWritten]
  have hLocate : (tree.put location (.file content)).locate path = .ok location := by
    unfold locate
    rw [← List.dropLast_concat_getLast (Path.names_ne_nil path)]
    simp only [FileTree.follow, List.foldlM_append]
    have := larger.follow hFollow
    simp only [FileTree.follow] at this
    rw [show (tree.put location (.file content)).start path = tree.start path from rfl, this]
    simp only [bind, Except.bind, List.foldlM_cons, List.foldlM_nil, hEnter]
    rfl
  have hFind : (tree.put location (.file content)).find path = .ok (.file content) := by
    refine attempt_eq_ok_iff.mpr ⟨hPath, ?_⟩
    simp only [hLocate, bind, Except.bind, hWritten]
  simp only [read, hFind]

/-! ## Directories -/

/-- Makes a directory in a directory, where nothing of that name may be. -/
def makeIn (tree : FileTree) (directory : Location) (name : String) :
    Except FileProblem FileTree := do
  let location ← tree.child directory name
  match tree.node location with
  | some _ => .error .present
  | none => .ok (tree.put location .directory)

/-- Makes the directory that a path names; slashes at the end of the path do not count. -/
def makeDirectory (tree : FileTree) (path : String) : Except FileError FileTree :=
  attempt path do
    let trimmed := String.ofList (Path.trimEnd path.toList)
    let directory ← tree.follow (tree.start path) (Path.names trimmed).dropLast
    tree.makeIn directory ((Path.names trimmed).getLast (Path.names_ne_nil trimmed))

/-- The parents of a path, outermost first, from the first one on that is not there. -/
def missingParents (tree : FileTree) (path : List Char) : List (List Char) :=
  if Path.parent path = [] then []
  else if tree.isPresent (String.ofList (Path.parent path)) then []
  else tree.missingParents (Path.parent path) ++ [Path.parent path]
termination_by path.length
decreasing_by exact Path.length_parent_lt (by assumption)

/-- Makes a directory unless it is there. -/
def ensureDirectory (path : String) : EStateM FileError FileTree Unit := fun tree =>
  match tree.makeDirectory path with
  | .ok tree => .ok () tree
  | .error e => if tree.isDirectory path then .ok () tree else .error e tree

/-- Makes a directory that holds others unless something of its name is there.  If that is a file,
the failure shows one name further on. -/
def ensureParent (path : String) : EStateM FileError FileTree Unit := fun tree =>
  match ensureDirectory path tree with
  | .error (.failed .present _) tree => .ok () tree
  | result => result

/-- Makes a directory and the parents that it lacks.  A single dot in a directory that was lacking
needs nothing more. -/
def ensureDirectories (path : String) : EStateM FileError FileTree Unit := fun tree =>
  let isNamed (path : List Char) : Bool := Path.lastName path != ['.']
  match tree.missingParents path.toList with
  | [] => ensureDirectory path tree
  | first :: others => (do
      ensureParent (String.ofList first)
      (others.filter isNamed).forM fun path => ensureParent (String.ofList path)
      if isNamed path.toList then ensureDirectory path) tree

end FileTree

end ClassSchema
