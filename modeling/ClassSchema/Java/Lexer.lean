import ClassSchema.Java.Token
import ClassSchema.Text.Blank
import ClassSchema.Text.Word

/-!
# From characters to tokens

A source is cut into lexemes from left to right: tokens, comments and white
space.  What starts at a character depends on that character and what follows
it, never on what came before.  Where nothing can start the cutting stops.

A word is a keyword only as a whole.  A dollar sign is no word character but may
stand in a name, so `final$x` is the modifier `final` and the name `$x`.

A literal may hold escapes but no line end; only a text block may, and it ends at
the first three quotes.  A comment that is not closed is no comment: its slash is
an operator.

## Main results

* `lexemesFrom_texts`: the lexemes of a source are the source, up to the place
  where the cutting stops.
-/

namespace ClassSchema.Java

open ClassSchema.Text

/-! ## What starts at a character

`matchAt c rest` looks at the text `c :: rest` and answers what starts there and
how many characters of `rest` belong to it.
-/

/-- The kinds of lexemes. -/
inductive LexemeKind where
  | token (terminal : Terminal)
  /-- A comment that documents what follows it. -/
  | docComment
  /-- Any other comment. -/
  | comment
  /-- White space. -/
  | blank
  deriving DecidableEq, Repr

/-- The words that are no names. -/
def keywords : List (String × Terminal) :=
  [("package", .packageWord), ("import", .importWord), ("class", .classWord),
   ("interface", .interfaceWord), ("enum", .enumWord), ("extends", .extendsWord),
   ("implements", .implementsWord), ("super", .superWord), ("static", .staticWord),
   ("public", .modifier), ("protected", .modifier), ("private", .modifier),
   ("final", .modifier), ("transient", .modifier), ("volatile", .modifier),
   ("abstract", .modifier), ("synchronized", .modifier), ("native", .modifier),
   ("strictfp", .modifier), ("default", .modifier), ("sealed", .modifier)]

/-- The one modifier that is two words with a hyphen between them. -/
def nonSealed : String := "non-sealed"

/-- The punctuation that the grammar mentions. -/
def punctuation : List (Char × Terminal) :=
  [(';', .semicolon), ('.', .dot), ('*', .star), ('@', .atSign), (',', .comma),
   ('\x7b', .leftBrace), ('\x7d', .rightBrace), ('=', .equalSign), ('<', .lessThan),
   ('>', .moreThan), ('?', .questionMark), ('&', .ampersand), ('[', .leftBracket),
   (']', .rightBracket), ('(', .leftParen), (')', .rightParen)]

/-- White space between tokens. -/
def isLayout (c : Char) : Bool :=
  c = ' ' || c = '\t' || c = '\x0c' || c = '\r' || c = '\n'

/-- A character that continues a name. -/
def isNamePart (c : Char) : Bool := isWord c || c = '$'

/-- A character that starts a name. -/
def isNameStart (c : Char) : Bool := (isWord c && !isDigit c) || c = '$'

/-- A character that continues a number. -/
def isNumberPart (c : Char) : Bool := isWord c || c = '.'

/-- A character that is an operator by itself. -/
def isOperator (c : Char) : Bool :=
  !isBlank c && !isWord c && c ≠ '$' && c ≠ '"' && c ≠ '\''
    && (punctuation.lookup c).isNone

/-- How many characters at the front satisfy a test. -/
def run (test : Char → Bool) (text : List Char) : Nat := (text.takeWhile test).length

/-- How many characters there are up to the end of the first occurrence of `mark`. -/
def through (mark : List Char) : List Char → Option Nat
  | [] => none
  | c :: rest =>
      if mark.isPrefixOf (c :: rest) then some mark.length
      else (through mark rest).map (· + 1)

/-- How many characters there are up to the closing quote of a literal. -/
def throughQuote (quote : Char) : List Char → Option Nat
  | [] => none
  | c :: rest =>
      if c = quote then some 1
      else if c = '\n' then none
      else if c = '\\' then
        match rest with
        | [] => none
        | escaped :: rest =>
            if escaped = '\n' then none else (throughQuote quote rest).map (· + 2)
      else (throughQuote quote rest).map (· + 1)

/-- The modifier with a hyphen, behind its first character. -/
def matchNonSealed (c : Char) (rest : List Char) : Option Nat :=
  if nonSealed.toList.isPrefixOf (c :: rest)
      ∧ run isWord ((c :: rest).drop nonSealed.length) = 0 then
    some (nonSealed.length - 1)
  else none

/-- A keyword, or the modifier with a hyphen. -/
def matchKeyword (c : Char) (rest : List Char) : Option (LexemeKind × Nat) :=
  match matchNonSealed c rest with
  | some more => some (.token .modifier, more)
  | none =>
      match keywords.lookup (String.ofList ((c :: rest).takeWhile isWord)) with
      | some terminal => some (.token terminal, run isWord rest)
      | none => none

/-- A text block, three quotes at either end. -/
def matchTextBlock (c : Char) (rest : List Char) : Option (LexemeKind × Nat) :=
  match c, rest with
  | '"', '"' :: '"' :: rest =>
      (through ['"', '"', '"'] rest).map fun more => (.token .textBlock, more + 2)
  | _, _ => none

/-- A comment; `rest` follows a slash. -/
def matchComment (rest : List Char) : Option (LexemeKind × Nat) :=
  match rest with
  | '/' :: rest => some (.comment, run (· ≠ '\n') rest + 1)
  | '*' :: '*' :: '/' :: _ => some (.comment, 3)
  | '*' :: '*' :: rest =>
      (through ['*', '/'] rest).map fun more => (.docComment, more + 2)
  | '*' :: rest => (through ['*', '/'] rest).map fun more => (.comment, more + 1)
  | _ => none

/-- What starts at a character that starts neither a keyword nor a text block. -/
def matchOther (c : Char) (rest : List Char) : Option (LexemeKind × Nat) :=
  if isNameStart c then some (.token .identifier, run isNamePart rest)
  else if isDigit c then some (.token .number, run isNumberPart rest)
  else if isLayout c then some (.blank, run isLayout rest)
  else if c = '"' then (throughQuote '"' rest).map fun more => (.token .stringLiteral, more)
  else if c = '\'' then (throughQuote '\'' rest).map fun more => (.token .charLiteral, more)
  else
    match punctuation.lookup c with
    | some terminal => some (.token terminal, 0)
    | none => if isOperator c then some (.token .operator, 0) else none

/-- What starts at a character, and how many characters behind it belong to it. -/
def matchAt (c : Char) (rest : List Char) : Option (LexemeKind × Nat) :=
  (matchTextBlock c rest).or <|
    (matchKeyword c rest).or <|
      ((if c = '/' then matchComment rest else none)).or (matchOther c rest)

/-! ## Lexemes -/

/-- A piece of a source. -/
structure Lexeme where
  /-- What it is. -/
  kind : LexemeKind
  /-- Its characters. -/
  text : List Char
  /-- Where it starts. -/
  place : Place
  deriving DecidableEq, Repr

/-- A character at which nothing can start. -/
structure Obstacle where
  /-- The character. -/
  char : Char
  /-- Where it stands. -/
  place : Place
  deriving DecidableEq, Repr

/-- Cuts a text that starts at a place. -/
def lexemesFrom (place : Place) (text : List Char) : List Lexeme × Option Obstacle :=
  match text with
  | [] => ([], none)
  | c :: rest =>
      match matchAt c rest with
      | none => ([], some ⟨c, place⟩)
      | some (kind, more) =>
          let lexeme := c :: rest.take more
          let (lexemes, obstacle) := lexemesFrom (place.advance lexeme) (rest.drop more)
          (⟨kind, lexeme, place⟩ :: lexemes, obstacle)
termination_by text.length
decreasing_by
  simp only [List.length_cons, List.length_drop]
  omega

/-- The lexemes of a text make up the text, up to the first obstacle. -/
theorem lexemesFrom_texts (place : Place) (text : List Char) :
    ∃ left, ((lexemesFrom place text).1.flatMap (·.text)) ++ left = text
      ∧ (left = [] ↔ (lexemesFrom place text).2 = none) := by
  fun_induction lexemesFrom place text with
  | case1 => exact ⟨[], rfl, by simp⟩
  | case2 place c rest _ => exact ⟨c :: rest, rfl, by simp⟩
  | case3 place c rest kind more _ lexeme lexemes obstacle split ih =>
      obtain ⟨left, texts, ends⟩ := ih
      rw [split] at texts ends
      refine ⟨left, ?_, ends⟩
      simp only [List.flatMap_cons, List.append_assoc]
      rw [texts]
      simp [lexeme]

/-! ## Tokens -/

/-- The tokens among lexemes; `doc` is the doc comment read last, if only white space followed
it. -/
def tokensOf (doc : Option String) : List Lexeme → List Token
  | [] => []
  | lexeme :: rest =>
      match lexeme.kind with
      | .token terminal =>
          ⟨terminal, String.ofList lexeme.text, lexeme.place, doc⟩ :: tokensOf none rest
      | .docComment => tokensOf (some (String.ofList lexeme.text)) rest
      | .comment => tokensOf none rest
      | .blank => tokensOf doc rest

/-- The tokens of a source up to the first obstacle, and that obstacle. -/
def tokenize (source : List Char) : List Token × Option Obstacle :=
  let (lexemes, obstacle) := lexemesFrom Place.start source
  (tokensOf none lexemes, obstacle)

end ClassSchema.Java
