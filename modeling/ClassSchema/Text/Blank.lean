import ClassSchema.Text.CharSet

/-!
# Blank characters

The 29 characters that Unicode counts as white space, the four information
separators included.  Trimming a doc comment removes these; what may stand
between two tokens of a source is a smaller set of five.
-/

namespace ClassSchema.Text

/-- The blank code points. -/
def blankRanges : CharSet :=
  [(9, 13), (28, 32), (133, 133), (160, 160), (5760, 5760), (8192, 8202), (8232, 8233),
   (8239, 8239), (8287, 8287), (12288, 12288)]

/-- A character that counts as white space. -/
def isBlank (c : Char) : Bool := blankRanges.contains c.toNat

/-- Drops the blanks at the front. -/
def trimLeft (text : List Char) : List Char := text.dropWhile isBlank

/-- Drops the blanks at the back. -/
def trimRight (text : List Char) : List Char := (text.reverse.dropWhile isBlank).reverse

/-- Drops the blanks at both ends. -/
def trim (text : List Char) : List Char := trimRight (trimLeft text)

end ClassSchema.Text
