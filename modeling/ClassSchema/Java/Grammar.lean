import ClassSchema.Java.Token

/-!
# The grammar of declarations

The grammar is data: every rule has a body that is built of terminals, rules,
sequences, choices, optional parts and repetitions.  Only declarations are
described; a body of code is any sequence of tokens with balanced parentheses
and braces.

`Derives` says which sequences of terminals a body stands for.  The grammar is
ambiguous, and nothing here prefers one derivation to another.

## Main results

* `Rule.nullable_eq`: the rules that stand for no terminals at all are known
  without a search.
-/

namespace ClassSchema.Java

/-- The rules of the grammar. -/
inductive Rule where
  | compilationUnit
  | packageDeclaration
  | importDeclaration
  | typeDeclaration
  | classDeclaration
  | interfaceDeclaration
  | enumDeclaration
  | recordDeclaration
  | classHeader
  | classBody
  | member
  | enumBody
  | enumConstants
  | enumConstant
  | enumMembers
  | fieldDeclaration
  | declarator
  | methodDeclaration
  | initializer
  | compactConstructor
  | modifiers
  | annotationUse
  | type
  | classType
  | typeSegment
  | typeArguments
  | typeArgument
  | typeParameters
  | typeParameter
  | dimension
  | qualifiedName
  | parenGroup
  | block
  | expressionItem
  | looseToken
  deriving DecidableEq, Repr

/-- What the body of a rule is built of. -/
inductive Expr where
  | terminal (terminal : Terminal)
  | rule (rule : Rule)
  | sequence (first second : Expr)
  | choice (left right : Expr)
  | optional (part : Expr)
  /-- Any number of parts, none included. -/
  | many (part : Expr)
  deriving DecidableEq, Repr

namespace Expr

instance : Coe Terminal Expr := ⟨terminal⟩

instance : Coe Rule Expr := ⟨rule⟩

/-- One part and any number of further ones. -/
def some (part : Expr) : Expr := sequence part (many part)

/-- One part and any number of further ones, each behind a separator. -/
def separatedBy (separator part : Expr) : Expr := sequence part (many (sequence separator part))

/-- Parts one after the other. -/
def chain : List Expr → Expr → Expr
  | [], last => last
  | part :: rest, last => sequence part (chain rest last)

/-- One of several parts. -/
def oneOf : List Expr → Expr → Expr
  | [], last => last
  | part :: rest, last => choice part (oneOf rest last)

end Expr

open ClassSchema.Java.Expr ClassSchema.Java.Terminal in
/-- The body of a rule. -/
def Rule.body : Rule → Expr
  | compilationUnit =>
      chain [optional packageDeclaration, many importDeclaration] (many typeDeclaration)
  | packageDeclaration => chain [modifiers, packageWord, qualifiedName] semicolon
  | importDeclaration =>
      chain [importWord, optional staticWord, qualifiedName, optional (sequence dot star)]
        semicolon
  | typeDeclaration =>
      oneOf [classDeclaration, interfaceDeclaration, enumDeclaration, recordDeclaration] semicolon
  | classDeclaration =>
      chain [modifiers, classWord, identifier, optional typeParameters, many classHeader] classBody
  | interfaceDeclaration =>
      chain [modifiers, optional atSign, interfaceWord, identifier, optional typeParameters,
        many classHeader] classBody
  | enumDeclaration => chain [modifiers, enumWord, identifier, many classHeader] enumBody
  | recordDeclaration =>
      chain [modifiers, identifier, identifier, optional typeParameters, parenGroup,
        many classHeader] classBody
  | classHeader =>
      sequence (oneOf [extendsWord, implementsWord] identifier) (separatedBy comma type)
  | classBody => chain [leftBrace, many member] rightBrace
  | member =>
      oneOf [fieldDeclaration, methodDeclaration, initializer, compactConstructor,
        classDeclaration, interfaceDeclaration, enumDeclaration, recordDeclaration] semicolon
  | enumBody => chain [leftBrace, optional enumConstants, optional enumMembers] rightBrace
  | enumConstants => sequence (separatedBy comma enumConstant) (optional comma)
  | enumConstant =>
      chain [many annotationUse, identifier, optional parenGroup] (optional classBody)
  | enumMembers => sequence semicolon (many member)
  | fieldDeclaration => chain [modifiers, type, separatedBy comma declarator] semicolon
  | declarator =>
      chain [identifier, optional (some dimension)]
        (optional (sequence equalSign (some expressionItem)))
  | methodDeclaration =>
      chain [modifiers, optional typeParameters, optional type, identifier, parenGroup,
        many looseToken] (choice block semicolon)
  | initializer => sequence (optional staticWord) block
  | compactConstructor => chain [modifiers, identifier] block
  | modifiers => many (oneOf [annotationUse, modifier] staticWord)
  | annotationUse => chain [atSign, qualifiedName] (optional parenGroup)
  | type => sequence classType (optional (some dimension))
  | classType => separatedBy dot typeSegment
  | typeSegment => chain [many annotationUse, identifier] (optional typeArguments)
  | typeArguments => chain [lessThan, optional (separatedBy comma typeArgument)] moreThan
  | typeArgument =>
      choice type
        (sequence questionMark (optional (sequence (choice extendsWord superWord) type)))
  | typeParameters => chain [lessThan, separatedBy comma typeParameter] moreThan
  | typeParameter =>
      chain [many annotationUse, identifier]
        (optional (sequence extendsWord (separatedBy ampersand type)))
  | dimension => chain [many annotationUse, leftBracket] rightBracket
  | qualifiedName => separatedBy dot identifier
  | parenGroup => chain [leftParen, many (choice expressionItem semicolon)] rightParen
  | block => chain [leftBrace, many (choice expressionItem semicolon)] rightBrace
  | expressionItem => oneOf [block, parenGroup] looseToken
  | looseToken =>
      oneOf [identifier, number, stringLiteral, textBlock, charLiteral, operator, modifier,
        staticWord, packageWord, importWord, classWord, interfaceWord, enumWord, extendsWord,
        implementsWord, superWord, comma, dot, lessThan, moreThan, leftBracket, rightBracket,
        equalSign, questionMark, atSign, ampersand] star

/-! ## What a body stands for -/

/-- The sequences of terminals that a body stands for. -/
inductive Derives : Expr → List Terminal → Prop where
  | terminal (t : Terminal) : Derives (.terminal t) [t]
  | rule {r : Rule} {word : List Terminal} : Derives r.body word → Derives (.rule r) word
  | sequence {first second : Expr} {front back : List Terminal} :
      Derives first front → Derives second back → Derives (.sequence first second) (front ++ back)
  | left {left right : Expr} {word : List Terminal} :
      Derives left word → Derives (.choice left right) word
  | right {left right : Expr} {word : List Terminal} :
      Derives right word → Derives (.choice left right) word
  | absent {part : Expr} : Derives (.optional part) []
  | present {part : Expr} {word : List Terminal} :
      Derives part word → Derives (.optional part) word
  | none {part : Expr} : Derives (.many part) []
  | more {part : Expr} {front back : List Terminal} :
      Derives part front → Derives (.many part) back → Derives (.many part) (front ++ back)

/-- A sequence of terminals is a source of the language. -/
def IsSentence (word : List Terminal) : Prop := Derives (.rule .compilationUnit) word

/-- A sequence of terminals can be continued to a source of the language. -/
def IsViable (word : List Terminal) : Prop := ∃ rest, IsSentence (word ++ rest)

/-! ## Bodies that may be empty -/

/-- Whether a rule stands for no terminals, among others. -/
def Rule.nullable : Rule → Bool
  | compilationUnit => true
  | modifiers => true
  | _ => false

/-- Whether a body stands for no terminals, among others. -/
def Expr.nullable : Expr → Bool
  | terminal _ => false
  | rule r => r.nullable
  | sequence first second => first.nullable && second.nullable
  | choice left right => left.nullable || right.nullable
  | optional _ => true
  | many _ => true

/-- The table of the rules agrees with their bodies. -/
theorem Rule.nullable_eq (r : Rule) : r.nullable = r.body.nullable := by
  cases r <;> rfl

end ClassSchema.Java
