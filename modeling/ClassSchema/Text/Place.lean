/-!
# Places in a text

A message points at a character by its offset, its line and its column.  Only a
line feed ends a line; lines and columns count from one, offsets from zero, and
all three count characters.
-/

namespace ClassSchema.Text

/-- A position between two characters of a text. -/
structure Place where
  /-- Characters before this place. -/
  offset : Nat
  /-- Line feeds before this place, plus one. -/
  line : Nat
  /-- Characters since the last line feed, plus one. -/
  column : Nat
  deriving DecidableEq, Repr

namespace Place

/-- The place before the first character. -/
def start : Place := ⟨0, 1, 1⟩

/-- The place behind one more character. -/
def step (place : Place) (c : Char) : Place :=
  if c = '\n' then ⟨place.offset + 1, place.line + 1, 1⟩
  else ⟨place.offset + 1, place.line, place.column + 1⟩

/-- The place behind a stretch of text. -/
def advance (place : Place) (text : List Char) : Place := text.foldl step place

theorem step_offset (place : Place) (c : Char) : (place.step c).offset = place.offset + 1 := by
  unfold step; split <;> rfl

theorem advance_append (place : Place) (front back : List Char) :
    place.advance (front ++ back) = (place.advance front).advance back :=
  List.foldl_append

/-- An offset counts the characters walked over. -/
theorem advance_offset (place : Place) (text : List Char) :
    (place.advance text).offset = place.offset + text.length := by
  induction text generalizing place with
  | nil => rfl
  | cons c rest ih =>
      show ((place.step c).advance rest).offset = _
      rw [ih, step_offset, List.length_cons]
      omega

/-- A line number counts the line feeds walked over. -/
theorem advance_line (place : Place) (text : List Char) :
    (place.advance text).line = place.line + text.count '\n' := by
  induction text generalizing place with
  | nil => rfl
  | cons c rest ih =>
      show ((place.step c).advance rest).line = _
      rw [ih]
      by_cases h : c = '\n'
      · subst h
        simp [step]
        omega
      · simp [step, h]

end Place

end ClassSchema.Text
