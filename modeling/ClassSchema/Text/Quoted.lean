import ClassSchema.Text.Hex
import ClassSchema.Text.Printable

/-!
# Quoted text in messages

A message shows a piece of text between quotes so that every character of it can
be told apart.  The quotes are single ones unless the text holds a single quote
and no double one.  A backslash and the quote in use are escaped, as are all
characters that are not printable.
-/

namespace ClassSchema.Text

/-- The quotation mark for a text: double only if that saves escaping. -/
def quoteFor (text : List Char) : Char :=
  if text.contains '\'' && !text.contains '"' then '"' else '\''

/-- The escape of a character by its code point, as short as it fits. -/
def codePointEscape (c : Char) : List Char :=
  if c.toNat < 0x100 then '\\' :: 'x' :: hexPadded 2 c.toNat
  else if c.toNat < 0x10000 then '\\' :: 'u' :: hexPadded 4 c.toNat
  else '\\' :: 'U' :: hexPadded 8 c.toNat

/-- One character inside a pair of `quote` marks. -/
def quotedChar (quote c : Char) : List Char :=
  if c = quote ∨ c = '\\' then ['\\', c]
  else if c = '\n' then ['\\', 'n']
  else if c = '\r' then ['\\', 'r']
  else if c = '\t' then ['\\', 't']
  else if isPrintable c then [c]
  else codePointEscape c

/-- A text between quotation marks, every character of it visible. -/
def quoted (text : String) : String :=
  let quote := quoteFor text.toList
  String.ofList (quote :: text.toList.flatMap (quotedChar quote) ++ [quote])

/-- A list of texts as a message shows it: quoted, between brackets. -/
def quotedList (texts : List String) : String :=
  "[" ++ ", ".intercalate (texts.map quoted) ++ "]"

end ClassSchema.Text
