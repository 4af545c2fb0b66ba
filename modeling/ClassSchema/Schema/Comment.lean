import ClassSchema.Text.Blank

/-!
# The text of a doc comment

A description is the text of a doc comment without its delimiters and without
the star that begins each continuation line.  A star is taken for such a mark
wherever it stands, together with the blanks before it.

The opening delimiter is a slash and a run of stars, the closing one a run of
stars and a slash; blanks around them do not count.  Where both are there the
text lies between them, and in `/***/` they share the run.  Where only one is
there it is taken off alone.
-/

namespace ClassSchema.Comment

open ClassSchema.Text

/-- A text behind an opening delimiter, with the number of stars in the delimiter. -/
def afterOpening (text : List Char) : Option (Nat × List Char) :=
  match trimLeft text with
  | '/' :: '*' :: rest => some ((rest.takeWhile (· = '*')).length + 1, rest.dropWhile (· = '*'))
  | _ => none

/-- A text before a closing delimiter. -/
def beforeClosing (text : List Char) : Option (List Char) :=
  match text.reverse.dropWhile isBlank with
  | '/' :: '*' :: rest => some (rest.dropWhile (· = '*')).reverse
  | _ => none

/-- A text without the delimiters it has. -/
def withoutDelimiters (text : List Char) : List Char :=
  match afterOpening text with
  | none => (beforeClosing text).getD text
  | some (stars, rest) =>
      match beforeClosing rest with
      | some inner => inner
      | none => if stars ≥ 2 ∧ trimRight rest = ['/'] then [] else rest

/-- Removes every star and the blanks right before it.  `pending` holds the blanks read last, last
one first. -/
def withoutStarsFrom (pending : List Char) : List Char → List Char
  | [] => pending.reverse
  | c :: rest =>
      if c = '*' then withoutStarsFrom [] rest
      else if isBlank c then withoutStarsFrom (c :: pending) rest
      else pending.reverse ++ c :: withoutStarsFrom [] rest

/-- Removes every star and the blanks right before it. -/
def withoutStars (text : List Char) : List Char := withoutStarsFrom [] text

/-- The text of a comment. -/
def cleanChars (comment : List Char) : List Char :=
  trim (withoutStars (trim (withoutDelimiters comment)))

/-- The text of a comment. -/
def clean (comment : String) : String := String.ofList (cleanChars comment.toList)

end ClassSchema.Comment
