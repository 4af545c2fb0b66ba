import ClassSchema.Json.Basic
import ClassSchema.Text.CodePoint
import ClassSchema.Text.Hex
import ClassSchema.Text.Place

/-!
# Reading JSON

The reader follows the standard and stops at the first character that cannot be
part of a JSON text.  Beyond the standard it knows three spellings of reals that
are no finite numbers.  A number with neither fraction nor exponent is an
integer; integers of more than 4300 digits are refused.  Of members with the
same name the first one gives the place and the last one the value.

Escapes can spell half of a surrogate pair that stands alone.  While a text is
read, it is a list of code points, so such a half is kept apart from all
characters and from other halves.  Values hold texts of characters only; a text
with a half is refused, and the fault shows it as it was read.

A fault carries how many characters are left at the place where it was noticed,
so reading needs no counters; the place is worked out for the message only.
-/

namespace ClassSchema.Json

/-- What is wrong with a JSON text. -/
inductive Cause where
  | expectingValue
  | expectingName
  | expectingColon
  | expectingComma
  | extraData
  | unterminatedString
  | controlCharacter
  | invalidEscape
  | invalidUnicodeEscape
  | byteOrderMark
  /-- A text has these code points, of which one is half of a surrogate pair. -/
  | loneSurrogate (points : List Nat)
  deriving DecidableEq, Repr

namespace Cause

/-- The wording of a cause. -/
def message : Cause → String
  | expectingValue => "Expecting value"
  | expectingName => "Expecting property name enclosed in double quotes"
  | expectingColon => "Expecting ':' delimiter"
  | expectingComma => "Expecting ',' delimiter"
  | extraData => "Extra data"
  | unterminatedString => "Unterminated string starting at"
  | controlCharacter => "Invalid control character at"
  | invalidEscape => "Invalid \\escape"
  | invalidUnicodeEscape => "Invalid \\uXXXX escape"
  | byteOrderMark => "Unexpected UTF-8 BOM (decode using utf-8-sig)"
  | loneSurrogate _ => "Lone surrogate in string starting at"

end Cause

/-- Why a text could not be read, while reading. -/
inductive Fault where
  /-- A cause, noticed with so many characters left. -/
  | malformed (cause : Cause) (left : Nat)
  /-- An integer of so many digits. -/
  | tooManyDigits (count : Nat)
  deriving DecidableEq, Repr

/-- Why a text is no JSON value. -/
inductive ReadError where
  /-- A cause, at a place of the text. -/
  | malformed (cause : Cause) (place : Text.Place)
  /-- An integer of so many digits. -/
  | tooManyDigits (count : Nat)
  deriving DecidableEq, Repr

/-- The most digits of an integer. -/
def maxDigits : Nat := 4300

namespace ReadError

/-- The wording of an error. -/
def message : ReadError → String
  | malformed cause place =>
      cause.message ++ ": line " ++ toString place.line ++ " column " ++ toString place.column
        ++ " (char " ++ toString place.offset ++ ")"
  | tooManyDigits count =>
      "Exceeds the limit (" ++ toString maxDigits
        ++ " digits) for integer string conversion: value has " ++ toString count
        ++ " digits; use sys.set_int_max_str_digits() to increase the limit"

end ReadError

/-- A fault at the front of what is left. -/
def fail {α : Type} (cause : Cause) (rest : List Char) : Except Fault (α × List Char) :=
  .error (.malformed cause rest.length)

/-- The four characters that may stand between the parts of a JSON text. -/
def isSpace (c : Char) : Bool := c = ' ' || c = '\t' || c = '\n' || c = '\r'

/-- Drops the white space at the front. -/
def skipSpace (text : List Char) : List Char := text.dropWhile isSpace

/-! ## Strings -/

/-- The character that a short escape stands for. -/
def shortEscape : Char → Option Char
  | '"' => some '"'
  | '\\' => some '\\'
  | '/' => some '/'
  | 'b' => some '\x08'
  | 'f' => some '\x0c'
  | 'n' => some '\n'
  | 'r' => some '\r'
  | 't' => some '\t'
  | _ => none

/-- The number that four hexadecimal digits spell. -/
def hexUnit (a b c d : Char) : Option Nat := do
  let a ← Text.hexValue a
  let b ← Text.hexValue b
  let c ← Text.hexValue c
  let d ← Text.hexValue d
  return ((a * 16 + b) * 16 + c) * 16 + d

/-- Puts the two halves of an escaped character together; the answer is a list of code points. -/
def joinHalves : List Nat → List Nat
  | [] => []
  | high :: low :: rest =>
      if 0xD800 ≤ high ∧ high < 0xDC00 ∧ 0xDC00 ≤ low ∧ low < 0xE000 then
        (0x10000 + (high - 0xD800) * 0x400 + (low - 0xDC00)) :: joinHalves rest
      else high :: joinHalves (low :: rest)
  | [unit] => [unit]

/-- Reads up to the closing quote.  `opening` is the text from the opening quote on, and `done`
holds the units read, last one first. -/
def stringBody (opening : List Char) (done : List Nat) : List Char → Except Fault (String × List Char)
  | [] => fail .unterminatedString opening
  | '"' :: rest =>
      let points := joinHalves done.reverse
      match Text.ofCodePoints? points with
      | some text => .ok (text, rest)
      | none => fail (.loneSurrogate points) opening
  | ['\\'] => fail .unterminatedString opening
  | '\\' :: 'u' :: a :: b :: c :: d :: next :: rest =>
      match hexUnit a b c d with
      | some unit => stringBody opening (unit :: done) (next :: rest)
      | none => fail .invalidUnicodeEscape ('u' :: a :: b :: c :: d :: next :: rest)
  | '\\' :: 'u' :: rest => fail .invalidUnicodeEscape ('u' :: rest)
  | '\\' :: c :: rest =>
      match shortEscape c with
      | some c => stringBody opening (c.toNat :: done) rest
      | none => fail .invalidEscape ('\\' :: c :: rest)
  | c :: rest =>
      if c.toNat ≤ 0x1F then fail .controlCharacter (c :: rest)
      else stringBody opening (c.toNat :: done) rest

/-- Reads a string whose opening quote has been read. -/
def string (rest : List Char) : Except Fault (String × List Char) :=
  stringBody ('"' :: rest) [] rest

/-! ## Numbers -/

/-- Splits off the decimal digits at the front. -/
def digits (text : List Char) : List Char × List Char := text.span Char.isDigit

/-- The number that decimal digits spell. -/
def digitsValue (digits : List Char) : Nat :=
  digits.foldl (fun value c => value * 10 + (c.toNat - '0'.toNat)) 0

/-- The digits after a point, if at least one follows it. -/
def fractionPart : List Char → List Char × List Char
  | '.' :: rest =>
      let (fraction, after) := digits rest
      if fraction.isEmpty then ([], '.' :: rest) else (fraction, after)
  | rest => ([], rest)

/-- A sign and the rest. -/
def sign : List Char → Bool × List Char
  | '-' :: rest => (true, rest)
  | '+' :: rest => (false, rest)
  | rest => (false, rest)

/-- An exponent, if at least one digit belongs to it. -/
def exponentPart (text : List Char) : Option Int × List Char :=
  match text with
  | [] => (none, [])
  | mark :: rest =>
      if mark = 'e' ∨ mark = 'E' then
        let (negative, rest) := sign rest
        let (size, after) := digits rest
        if size.isEmpty then (none, text)
        else (some (if negative then -(digitsValue size : Int) else digitsValue size), after)
      else (none, text)

/-- The integer part: a zero, or digits that start with none. -/
def integerPart (text : List Char) : List Char × List Char :=
  match text with
  | '0' :: rest => (['0'], rest)
  | _ => digits text

/-- Reads a number; `start` is the text at its first character, its sign included. -/
def number (start : List Char) : Except Fault (Json × List Char) :=
  let (negative, unsigned) := match start with
    | '-' :: rest => (true, rest)
    | rest => (false, rest)
  let (whole, afterWhole) := integerPart unsigned
  if whole.isEmpty then fail .expectingValue start
  else
    let (fraction, afterFraction) := fractionPart afterWhole
    let (exponent, rest) := exponentPart afterFraction
    if fraction.isEmpty ∧ exponent.isNone then
      if whole.length > maxDigits then .error (.tooManyDigits whole.length)
      else
        let size : Int := digitsValue whole
        .ok (.int (if negative then -size else size), rest)
    else
      let value := digitsValue (whole ++ fraction)
      .ok (.real (.ofDecimal negative value (exponent.getD 0 - fraction.length)), rest)

/-! ## Values -/

/-- The values that are spelled as words. -/
def words : List (List Char × Json) :=
  [(['n', 'u', 'l', 'l'], .null),
   (['t', 'r', 'u', 'e'], .bool true),
   (['f', 'a', 'l', 's', 'e'], .bool false),
   (['N', 'a', 'N'], .real .nan),
   (['I', 'n', 'f', 'i', 'n', 'i', 't', 'y'], .real (.infinity false)),
   (['-', 'I', 'n', 'f', 'i', 'n', 'i', 't', 'y'], .real (.infinity true))]

/-- Reads a value that holds no others. -/
def scalar (text : List Char) : Except Fault (Json × List Char) :=
  match words.find? fun word => word.1.isPrefixOf text with
  | some (word, value) => .ok (value, text.drop word.length)
  | none => number text

mutual

/-- Reads a value that starts at the first character. -/
def value (fuel : Nat) (text : List Char) : Except Fault (Json × List Char) :=
  match fuel with
  | 0 => fail .expectingValue text
  | fuel + 1 =>
      match text with
      | '"' :: rest => do
          let (content, rest) ← string rest
          return (.str content, rest)
      | '[' :: rest =>
          match skipSpace rest with
          | ']' :: rest => return (.arr [], rest)
          | rest => do
              let (list, rest) ← items fuel rest
              return (.arr list, rest)
      | '\x7b' :: rest =>
          match skipSpace rest with
          | '\x7d' :: rest => return (.obj [], rest)
          | rest => do
              let (pairs, rest) ← members fuel rest
              return (.obj (OrderedMap.ofPairs pairs), rest)
      | text => scalar text

/-- Reads the items of a list and its closing bracket. -/
def items (fuel : Nat) (text : List Char) : Except Fault (List Json × List Char) :=
  match fuel with
  | 0 => fail .expectingValue text
  | fuel + 1 => do
      let (item, rest) ← value fuel text
      match skipSpace rest with
      | ']' :: rest => return ([item], rest)
      | ',' :: rest => do
          let (others, rest) ← items fuel (skipSpace rest)
          return (item :: others, rest)
      | rest => fail .expectingComma rest

/-- Reads the members of an object and its closing brace. -/
def members (fuel : Nat) (text : List Char) : Except Fault (List (String × Json) × List Char) :=
  match fuel with
  | 0 => fail .expectingName text
  | fuel + 1 =>
      match text with
      | '"' :: rest => do
          let (name, rest) ← string rest
          match skipSpace rest with
          | ':' :: rest => do
              let (content, rest) ← value fuel (skipSpace rest)
              match skipSpace rest with
              | '\x7d' :: rest => return ([(name, content)], rest)
              | ',' :: rest => do
                  let (others, rest) ← members fuel (skipSpace rest)
                  return ((name, content) :: others, rest)
              | rest => fail .expectingComma rest
          | rest => fail .expectingColon rest
      | text => fail .expectingName text

end

/-- Reads a text that is one value and white space around it. -/
def document (text : List Char) : Except Fault Json := do
  if text.head? = some '\uFEFF' then throw (.malformed .byteOrderMark text.length)
  let (content, rest) ← value (2 * text.length + 2) (skipSpace text)
  let rest := skipSpace rest
  if rest.isEmpty then return content else throw (.malformed .extraData rest.length)

/-- The value that a text spells. -/
def parse (text : List Char) : Except ReadError Json :=
  match document text with
  | .ok content => .ok content
  | .error (.tooManyDigits count) => .error (.tooManyDigits count)
  | .error (.malformed cause left) =>
      .error (.malformed cause (Text.Place.start.advance (text.take (text.length - left))))

end ClassSchema.Json
