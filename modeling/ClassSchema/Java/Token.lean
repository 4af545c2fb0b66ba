import ClassSchema.Text.Place

/-!
# Tokens of a Java source

The grammar of declarations is stated over the classes of tokens, the terminals:
a dozen keywords, one class for all modifiers but `static`, names, literals, one
class for all operators that the grammar does not mention, and the punctuation
that it does.

A token also carries the doc comment in front of it, if nothing but white space
lies between the two.
-/

namespace ClassSchema.Java

open ClassSchema.Text (Place)

/-- The classes of tokens. -/
inductive Terminal where
  | packageWord
  | importWord
  | classWord
  | interfaceWord
  | enumWord
  | extendsWord
  | implementsWord
  | superWord
  | staticWord
  | modifier
  | identifier
  | number
  | textBlock
  | stringLiteral
  | charLiteral
  | operator
  | semicolon
  | dot
  | star
  | atSign
  | comma
  | leftBrace
  | rightBrace
  | equalSign
  | lessThan
  | moreThan
  | questionMark
  | ampersand
  | leftBracket
  | rightBracket
  | leftParen
  | rightParen
  deriving DecidableEq, Repr

namespace Terminal

/-- The name of a terminal in messages. -/
def name : Terminal → String
  | packageWord => "PACKAGE"
  | importWord => "IMPORT"
  | classWord => "CLASS"
  | interfaceWord => "INTERFACE"
  | enumWord => "ENUM"
  | extendsWord => "EXTENDS"
  | implementsWord => "IMPLEMENTS"
  | superWord => "SUPER"
  | staticWord => "STATIC"
  | modifier => "MODIFIER"
  | identifier => "IDENT"
  | number => "NUMBER"
  | textBlock => "TEXT_BLOCK"
  | stringLiteral => "STRING"
  | charLiteral => "CHAR_LIT"
  | operator => "OP"
  | semicolon => "SEMICOLON"
  | dot => "DOT"
  | star => "STAR"
  | atSign => "AT"
  | comma => "COMMA"
  | leftBrace => "LBRACE"
  | rightBrace => "RBRACE"
  | equalSign => "EQUAL"
  | lessThan => "LESSTHAN"
  | moreThan => "MORETHAN"
  | questionMark => "QMARK"
  | ampersand => "AMPERSAND"
  | leftBracket => "LSQB"
  | rightBracket => "RSQB"
  | leftParen => "LPAR"
  | rightParen => "RPAR"

/-- Every terminal. -/
def all : List Terminal :=
  [packageWord, importWord, classWord, interfaceWord, enumWord, extendsWord, implementsWord,
   superWord, staticWord, modifier, identifier, number, textBlock, stringLiteral, charLiteral,
   operator, semicolon, dot, star, atSign, comma, leftBrace, rightBrace, equalSign, lessThan,
   moreThan, questionMark, ampersand, leftBracket, rightBracket, leftParen, rightParen]

theorem mem_all (terminal : Terminal) : terminal ∈ all := by
  cases terminal <;> decide

end Terminal

/-- A token of a source. -/
structure Token where
  /-- Its class. -/
  terminal : Terminal
  /-- Its characters. -/
  text : String
  /-- Where it starts. -/
  place : Place
  /-- The doc comment right in front of it. -/
  doc : Option String
  deriving DecidableEq, Repr

end ClassSchema.Java
