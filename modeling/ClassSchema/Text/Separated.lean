/-!
# Parts of a text

A character that separates cuts a text into parts.  A text that does not hold it
is one part, and parts may be empty: two neighbouring separators have an empty
part between them.

## Main results

* `join_split`: a text is its parts with separators between them.
-/

namespace ClassSchema.Separated

/-- The parts of a text between its separators. -/
def split (separator : Char) : List Char → List (List Char)
  | [] => [[]]
  | c :: rest =>
      if c = separator then [] :: split separator rest
      else
        match split separator rest with
        | [] => [[c]]
        | part :: parts => (c :: part) :: parts

/-- Parts with separators between them. -/
def join (separator : Char) : List (List Char) → List Char
  | [] => []
  | [part] => part
  | part :: parts => part ++ separator :: join separator parts

theorem split_ne_nil (separator : Char) (text : List Char) : split separator text ≠ [] := by
  cases text with
  | nil => simp [split]
  | cons c rest =>
      simp only [split]
      split
      · simp
      · split <;> simp

/-- A text is its parts with separators between them. -/
theorem join_split (separator : Char) (text : List Char) :
    join separator (split separator text) = text := by
  induction text with
  | nil => rfl
  | cons c rest ih =>
      simp only [split]
      split
      · next hSeparator =>
          subst hSeparator
          cases hRest : split c rest with
          | nil => exact absurd hRest (split_ne_nil c rest)
          | cons part parts => rw [hRest] at ih; simp [join, ih]
      · split
        · next hNil => exact absurd hNil (split_ne_nil separator rest)
        · next part parts hRest =>
            rw [hRest] at ih
            cases parts with
            | nil => simpa [join] using ih
            | cons second others => simpa [join] using ih

end ClassSchema.Separated
