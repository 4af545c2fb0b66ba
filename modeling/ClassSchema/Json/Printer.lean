import ClassSchema.Json.Basic
import ClassSchema.Number.Shortest
import ClassSchema.Text.Hex

/-!
# Writing JSON

There are two layouts.  On one line, items are separated by a comma and a blank.
Indented, each item stands on a line of its own, four columns further in than
its container, and an empty container stays on one line.

The text is ASCII: every other character is escaped, in two halves above the
basic plane.
-/

namespace ClassSchema.Json

/-- How reals that are no finite numbers are spelled in JSON. -/
def realFormat : Number.RealFormat := ⟨"NaN", "Infinity"⟩

/-- The escape of one 16-bit unit. -/
def unitEscape (unit : Nat) : List Char := '\\' :: 'u' :: Text.hexPadded 4 unit

/-- One character between quotes. -/
def escapedChar (c : Char) : List Char :=
  if c = '"' then ['\\', '"']
  else if c = '\\' then ['\\', '\\']
  else if c = '\n' then ['\\', 'n']
  else if c = '\r' then ['\\', 'r']
  else if c = '\t' then ['\\', 't']
  else if c = '\x08' then ['\\', 'b']
  else if c = '\x0c' then ['\\', 'f']
  else if ' ' ≤ c ∧ c ≤ '~' then [c]
  else if c.toNat < 0x10000 then unitEscape c.toNat
  else
    let offset := c.toNat - 0x10000
    unitEscape (0xD800 + offset / 0x400) ++ unitEscape (0xDC00 + offset % 0x400)

/-- A text between quotes. -/
def quotedText (text : String) : List Char := '"' :: text.toList.flatMap escapedChar ++ ['"']

/-- The digits of an integer. -/
def intText (n : Int) : List Char :=
  (if n < 0 then ['-'] else []) ++ Nat.toDigits 10 n.natAbs

/-- The text of a value that holds no others. -/
def scalarText : Json → List Char
  | null => ['n', 'u', 'l', 'l']
  | bool value => if value then ['t', 'r', 'u', 'e'] else ['f', 'a', 'l', 's', 'e']
  | int value => intText value
  | real value => realFormat.format value
  | str value => quotedText value
  | arr _ => []
  | obj _ => []

/-! ## On one line -/

mutual

/-- The text of a value on one line. -/
def print : Json → List Char
  | arr items => '[' :: printItems true items ++ [']']
  | obj members => '\x7b' :: printMembers true members ++ ['\x7d']
  | scalar => scalarText scalar

/-- The items of a list; all but the first are preceded by a comma. -/
def printItems (first : Bool) : List Json → List Char
  | [] => []
  | item :: rest => (if first then [] else [',', ' ']) ++ print item ++ printItems false rest

/-- The members of an object; all but the first are preceded by a comma. -/
def printMembers (first : Bool) : List (String × Json) → List Char
  | [] => []
  | (name, value) :: rest =>
      (if first then [] else [',', ' ']) ++ quotedText name ++ ':' :: ' ' :: print value
        ++ printMembers false rest

end

/-! ## Indented -/

/-- The start of a line at a depth of nesting. -/
def newLine (depth : Nat) : List Char := '\n' :: List.replicate (4 * depth) ' '

mutual

/-- The indented text of a value that stands at a depth of nesting. -/
def printIndented (depth : Nat) : Json → List Char
  | arr [] => ['[', ']']
  | obj [] => ['\x7b', '\x7d']
  | arr items => '[' :: indentedItems (depth + 1) true items ++ newLine depth ++ [']']
  | obj members =>
      '\x7b' :: indentedMembers (depth + 1) true members ++ newLine depth ++ ['\x7d']
  | scalar => scalarText scalar

/-- The items of a list, each on a line of its own. -/
def indentedItems (depth : Nat) (first : Bool) : List Json → List Char
  | [] => []
  | item :: rest =>
      (if first then [] else [',']) ++ newLine depth ++ printIndented depth item
        ++ indentedItems depth false rest

/-- The members of an object, each on a line of its own. -/
def indentedMembers (depth : Nat) (first : Bool) : List (String × Json) → List Char
  | [] => []
  | (name, value) :: rest =>
      (if first then [] else [',']) ++ newLine depth ++ quotedText name ++ ':' :: ' '
        :: printIndented depth value ++ indentedMembers depth false rest

end

/-- A value as text on one line. -/
def compact (value : Json) : String := String.ofList value.print

/-- A value as indented text. -/
def pretty (value : Json) : String := String.ofList (value.printIndented 0)

end ClassSchema.Json
