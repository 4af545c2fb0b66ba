import ClassSchema.Java.Reading
import ClassSchema.Java.Recognizer
import ClassSchema.Text.Decoding
import ClassSchema.Text.Quoted

/-!
# Reading a source

A source is cut into tokens, the tokens are checked against the grammar, and an
accepted source is read.  Of a bad token and a character that starts no token the
one that comes first is reported.

## Main results

* `parse_isOk_iff`: a text is a source exactly when it can be cut to its end and
  the recognizer accepts the tokens.
-/

namespace ClassSchema.Java

open ClassSchema.Text

/-- The declarations of a source. -/
def parse (source : List Char) : Except SyntaxError SourceFile :=
  let (tokens, obstacle) := tokenize source
  match recognize tokens obstacle with
  | .error e => .error e
  | .ok () => .ok (readSource tokens)

/-- Whether a text is a source depends on the recognizer alone. -/
theorem parse_isOk_iff (source : List Char) :
    (∃ file, parse source = .ok file)
      ↔ recognize (tokenize source).1 (tokenize source).2 = .ok () := by
  unfold parse
  cases h : recognize (tokenize source).1 (tokenize source).2 <;> simp [h]

/-! ## Messages -/

/-- How many characters on either side of an error are shown at most. -/
def contextSpan : Nat := 40

/-- A token as a message shows it. -/
def Token.described (token : Token) : String :=
  "Token('" ++ token.terminal.name ++ "', " ++ quoted token.text ++ ")"

/-- The column behind a character; a tab leads to the next multiple of eight. -/
def columnAfter (column : Nat) (c : Char) : Nat :=
  if c = '\t' then column + (8 - column % 8)
  else if c = '\n' ∨ c = '\r' then 0
  else column + 1

/-- The width of a text. -/
def expandedWidth (text : List Char) : Nat :=
  let step (state : Nat × Nat) (c : Char) : Nat × Nat :=
    let column := columnAfter state.2 c
    if c = '\t' then (state.1 + (column - state.2), column) else (state.1 + 1, column)
  (text.foldl step (0, 0)).1

/-- The line around an offset, cut to a span on either side, with a mark below the offset. -/
def contextOf (source : List Char) (offset : Nat) : String :=
  let before := ((source.take offset).drop (offset - contextSpan)).reverse.takeWhile (· ≠ '\n')
  let before := before.reverse
  let after := ((source.drop offset).take contextSpan).takeWhile (· ≠ '\n')
  let mark := List.replicate (expandedWidth before) ' '
  String.ofList (before ++ after ++ '\n' :: mark ++ ['^', '\n'])

namespace SyntaxError

/-- What precedes the terminals that would have been right. -/
def expected : String := "Expected one of: \n"

/-- The wording of an error. -/
def message (source : List Char) : SyntaxError → String
  | unexpectedToken token =>
      "Unexpected token " ++ token.described ++ " at line " ++ toString token.place.line
        ++ ", column " ++ toString token.place.column ++ ".\n" ++ expected
  | unexpectedCharacter obstacle previous =>
      "No terminal matches '" ++ String.singleton obstacle.char
        ++ "' in the current parser context, at line " ++ toString obstacle.place.line
        ++ " col " ++ toString obstacle.place.column ++ "\n\n"
        ++ contextOf source obstacle.place.offset ++ expected
        ++ match previous with
          | none => ""
          | some token => "\nPrevious tokens: " ++ token.described ++ "\n"
  | unexpectedEnd => "Unexpected end-of-input. " ++ expected

end SyntaxError

/-! ## Files -/

/-- Why a file holds no source. -/
inductive SourceError where
  /-- The bytes are no text. -/
  | undecodable (fault : DecodingFault)
  /-- The text is no source. -/
  | syntaxError (source : List Char) (error : SyntaxError)
  deriving Repr

/-- The wording of an error. -/
def SourceError.message : SourceError → String
  | undecodable fault => fault.message
  | syntaxError source error => error.message source

/-- The declarations of a file; an empty file has none to speak of. -/
def parseBytes (encoding : Encoding) (bytes : List Nat) :
    Except SourceError (Option SourceFile) :=
  match readText encoding bytes with
  | .error fault => .error (.undecodable fault)
  | .ok text =>
      if text.isEmpty then .ok none
      else
        match parse text with
        | .error e => .error (.syntaxError text e)
        | .ok file => .ok (some file)

end ClassSchema.Java
