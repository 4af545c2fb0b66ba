import ClassSchema.Text.Separated

/-!
# Dotted names

A qualified name is a sequence of segments with dots between them.  Every text
has at least one segment, and segments may be empty.

## Main results

* `join_segments`: a name is its segments joined by dots.
-/

namespace ClassSchema.Dotted

/-- The segments of a name. -/
def segments (name : String) : List String :=
  (Separated.split '.' name.toList).map String.ofList

/-- A name is its segments joined by dots. -/
theorem join_segments (name : String) :
    String.ofList (Separated.join '.' ((segments name).map String.toList)) = name := by
  simp [segments, Function.comp_def, Separated.join_split]

/-- The last segment of a name. -/
def last (name : String) : String := (segments name).getLast?.getD ""

/-- A name inside the namespace of another one; the empty name has no namespace. -/
def qualify (parent name : String) : String :=
  if parent = "" then name else parent ++ "." ++ name

end ClassSchema.Dotted
