import ClassSchema.Text.Separated

/-!
# Paths

A path is a text of names with slashes between them.  It starts at the root if
its first character is a slash, and in the current directory otherwise.  Empty
names are allowed; they stay where they are.

## Main results

* `join_names`: a path is its names joined by slashes.
* `length_parent_lt`: a path that has a parent is longer than it.
-/

namespace ClassSchema.Path

/-- The names of a path, in the order in which they are followed. -/
def names (path : String) : List String :=
  (Separated.split '/' path.toList).map String.ofList

/-- A path is its names joined by slashes. -/
theorem join_names (path : String) :
    String.ofList (Separated.join '/' ((names path).map String.toList)) = path := by
  simp [names, Function.comp_def, Separated.join_split]

theorem names_ne_nil (path : String) : names path ≠ [] := by
  simp [names, Separated.split_ne_nil]

/-- Whether a path starts at the root. -/
def isAbsolute (path : String) : Bool := path.toList.head? == some '/'

/-- The path of a name inside a directory; an absolute one is outside of it. -/
def join (directory name : String) : String :=
  if isAbsolute name then name
  else if directory.toList.getLast? == some '/' || directory.isEmpty then directory ++ name
  else directory ++ "/" ++ name

/-! ## Parents -/

/-- A text without the slashes at its end. -/
def trimEnd (path : List Char) : List Char := (path.reverse.dropWhile (· = '/')).reverse

/-- The part behind the last slash. -/
def lastPart (path : List Char) : List Char := (path.reverse.takeWhile (· ≠ '/')).reverse

/-- The part up to the last slash, this one included. -/
def leadingPart (path : List Char) : List Char := (path.reverse.dropWhile (· ≠ '/')).reverse

/-- The part up to the last slash, less the slashes at its end unless it holds nothing else. -/
def firstPart (path : List Char) : List Char :=
  if (trimEnd (leadingPart path)).isEmpty then leadingPart path else trimEnd (leadingPart path)

theorem length_trimEnd_le (path : List Char) : (trimEnd path).length ≤ path.length := by
  simpa [trimEnd] using (List.dropWhile_sublist (· = '/') (l := path.reverse)).length_le

/-- A path is what stands up to its last slash, and the rest. -/
theorem leadingPart_append_lastPart (path : List Char) :
    leadingPart path ++ lastPart path = path := by
  unfold leadingPart lastPart
  rw [← List.reverse_append, List.takeWhile_append_dropWhile, List.reverse_reverse]

theorem length_firstPart_le (path : List Char) :
    (firstPart path).length + (lastPart path).length ≤ path.length := by
  have parts := congrArg List.length (leadingPart_append_lastPart path)
  have trimmed := length_trimEnd_le (leadingPart path)
  rw [List.length_append] at parts
  unfold firstPart
  split <;> omega

/-- The path of the directory that holds the last name; empty if the path has no other name. -/
def parent (path : List Char) : List Char :=
  if lastPart path ≠ [] then firstPart path
  else if lastPart (firstPart path) ≠ [] then firstPart (firstPart path)
  else []

/-- The last name of a path; slashes at the end do not count. -/
def lastName (path : List Char) : List Char :=
  if lastPart path ≠ [] then lastPart path else lastPart (firstPart path)

/-- A path that has a parent is longer than it. -/
theorem length_parent_lt {path : List Char} (h : parent path ≠ []) :
    (parent path).length < path.length := by
  have outer := length_firstPart_le path
  have inner := length_firstPart_le (firstPart path)
  revert h
  unfold parent
  split
  · next hLast =>
      have := List.length_pos_iff.mpr hLast
      omega
  · split
    · next hLast =>
        have := List.length_pos_iff.mpr hLast
        omega
    · simp

end ClassSchema.Path
