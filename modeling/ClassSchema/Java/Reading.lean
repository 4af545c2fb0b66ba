import ClassSchema.Java.Outline

/-!
# From outlines to declarations

The members of an outline are read one by one.  Modifiers and annotations come
first; then a keyword says that a type is declared, and anything else is a field
if it is a type, followed by declarators.  Methods, constructors, initializers
and records are none of these and are passed over.

Reading asks no more than it needs: it is meant for sources that the recognizer
accepts, and takes what it finds where it expects it.

An initializer may hold commas, so a list of declarators can be cut in several
ways.  The cut with the most declarators is taken.
-/

namespace ClassSchema.Java

/-! ## Types -/

/-- The number of pairs of brackets at the front, annotations between them left out.  `keep` is
what follows the pair read last. -/
def readDimensionsFrom (keep : List Node) : List Node → Nat × List Node
  | .annotationUse _ _ :: rest => readDimensionsFrom keep rest
  | .word left :: .word right :: rest =>
      if left.terminal = .leftBracket ∧ right.terminal = .rightBracket then
        let (count, after) := readDimensionsFrom rest rest
        (count + 1, after)
      else (0, keep)
  | _ => (0, keep)

/-- The number of pairs of brackets at the front. -/
def readDimensions (nodes : List Node) : Nat × List Node := readDimensionsFrom nodes nodes

/-- What an argument without an upper bound is taken for. -/
def anyType : TypeName := ⟨"Object", [], 0⟩

mutual

/-- Reads a type: names with dots between them, arguments, and dimensions. -/
def readTypeFrom (fuel : Nat) (nodes : List Node) : Option (TypeName × List Node) :=
  match fuel with
  | 0 => none
  | fuel + 1 =>
      match dropAnnotations nodes with
      | .word name :: rest =>
          if name.terminal ≠ .identifier then none
          else do
            let (arguments, rest) ← readArgumentsFrom fuel rest
            match rest with
            | .word dot :: after =>
                if dot.terminal = .dot then
                  let (last, rest) ← readTypeFrom fuel after
                  return ({ last with name := name.text ++ "." ++ last.name }, rest)
                else
                  let (dimensions, rest) := readDimensions rest
                  return (⟨name.text, arguments, dimensions⟩, rest)
            | rest =>
                let (dimensions, rest) := readDimensions rest
                return (⟨name.text, arguments, dimensions⟩, rest)
      | _ => none

/-- Reads type arguments, if there are any. -/
def readArgumentsFrom (fuel : Nat) (nodes : List Node) : Option (List TypeName × List Node) :=
  match fuel with
  | 0 => none
  | fuel + 1 =>
      match nodes with
      | .word opening :: rest =>
          if opening.terminal ≠ .lessThan then some ([], nodes)
          else
            match rest with
            | .word closing :: after =>
                if closing.terminal = .moreThan then some ([], after)
                else readArgumentListFrom fuel rest
            | rest => readArgumentListFrom fuel rest
      | nodes => some ([], nodes)

/-- Reads type arguments up to the closing bracket. -/
def readArgumentListFrom (fuel : Nat) (nodes : List Node) : Option (List TypeName × List Node) :=
  match fuel with
  | 0 => none
  | fuel + 1 => do
      let (argument, rest) ← readArgumentFrom fuel nodes
      match rest with
      | .word separator :: rest =>
          match separator.terminal with
          | .moreThan => return ([argument], rest)
          | .comma => do
              let (others, rest) ← readArgumentListFrom fuel rest
              return (argument :: others, rest)
          | _ => none
      | _ => none

/-- Reads a type argument.  Of a wildcard only the upper bound counts. -/
def readArgumentFrom (fuel : Nat) (nodes : List Node) : Option (TypeName × List Node) :=
  match fuel with
  | 0 => none
  | fuel + 1 =>
      match nodes with
      | .word mark :: rest =>
          if mark.terminal ≠ .questionMark then readTypeFrom fuel nodes
          else
            match rest with
            | .word bound :: after =>
                match bound.terminal with
                | .extendsWord => readTypeFrom fuel after
                | .superWord => (readTypeFrom fuel after).map fun lower => (anyType, lower.2)
                | _ => some (anyType, rest)
            | rest => some (anyType, rest)
      | nodes => readTypeFrom fuel nodes

end

/-- Reads a type.  Each item is looked at by four functions at most. -/
def readType (nodes : List Node) : Option (TypeName × List Node) :=
  readTypeFrom (4 * nodes.length + 4) nodes

/-- The names of the type parameters between angle brackets that are nested `depth` deep;
`isNext` says whether the next name is that of a parameter. -/
def readTypeParamsFrom (depth : Nat) (isNext : Bool) : List Node → List String
  | [] => []
  | .word token :: rest =>
      match token.terminal with
      | .identifier =>
          if isNext then token.text :: readTypeParamsFrom depth false rest
          else readTypeParamsFrom depth false rest
      | .lessThan => readTypeParamsFrom (depth + 1) isNext rest
      | .moreThan => if depth = 1 then [] else readTypeParamsFrom (depth - 1) isNext rest
      | .comma => readTypeParamsFrom depth (depth = 1) rest
      | _ => readTypeParamsFrom depth isNext rest
  | _ :: rest => readTypeParamsFrom depth isNext rest

/-- The names of the type parameters, if there are any. -/
def readTypeParams : List Node → List String
  | .word token :: rest =>
      if token.terminal = .lessThan then readTypeParamsFrom 1 true rest else []
  | _ => []

/-! ## Modifiers -/

/-- The modifiers at the front, and what follows them and the annotations between them. -/
def readModifiers : List Node → List String × List Node
  | .annotationUse _ _ :: rest => readModifiers rest
  | .word token :: rest =>
      if token.terminal = .modifier ∨ token.terminal = .staticWord then
        let (modifiers, after) := readModifiers rest
        (token.text :: modifiers, after)
      else ([], .word token :: rest)
  | nodes => ([], nodes)

/-! ## Declarators -/

/-- Cuts items at their commas. -/
def splitCommas : List Node → List (List Node)
  | [] => [[]]
  | node :: rest =>
      if node.isWord .comma then [] :: splitCommas rest
      else
        match splitCommas rest with
        | [] => [[node]]
        | part :: parts => (node :: part) :: parts

/-- The name and the dimensions of a declarator. -/
structure Declarator where
  /-- The name. -/
  name : String
  /-- The dimensions behind it. -/
  dimensions : Nat
  deriving Repr

/-- What can begin at the start of a part between commas. -/
inductive Opening where
  /-- A declarator without an initializer, which is the whole part. -/
  | plain (declarator : Declarator)
  /-- A declarator with an initializer, of which the part holds something or nothing. -/
  | assigned (declarator : Declarator) (hasItems : Bool)
  /-- No declarator. -/
  | other
  deriving Repr

/-- What begins at the start of a part between commas. -/
def openingOf : List Node → Opening
  | .word name :: rest =>
      if name.terminal ≠ .identifier then .other
      else
        let (dimensions, rest) := readDimensions rest
        let declarator := ⟨name.text, dimensions⟩
        match rest with
        | [] => .plain declarator
        | node :: items =>
            if node.isWord .equalSign then .assigned declarator (!items.isEmpty) else .other
  | _ => .other

/-- The longest of several lists, the first of them if there are more. -/
def longest : List (Option (List Declarator)) → Option (List Declarator)
  | [] => none
  | none :: rest => longest rest
  | some declarators :: rest =>
      match longest rest with
      | none => some declarators
      | some others => if others.length > declarators.length then some others else some declarators

/-- The most declarators that parts can be cut into: for all parts, for all but the first, and so
on to no parts. -/
def bestCuts : List Opening → List (Option (List Declarator))
  | [] => [some []]
  | opening :: rest =>
      let later := bestCuts rest
      let here := match opening with
        | .other => none
        | .plain declarator => (longest (later.take 1)).map (declarator :: ·)
        | .assigned declarator true => (longest later).map (declarator :: ·)
        | .assigned declarator false => (longest (later.drop 1)).map (declarator :: ·)
      here :: later

/-- The declarators of a field. -/
def readDeclarators (nodes : List Node) : Option (List Declarator) :=
  longest ((bestCuts ((splitCommas nodes).map openingOf)).take 1)

/-! ## Members -/

/-- What a member declares. -/
inductive Member where
  | package (name : String)
  | importing (imported : Import)
  | type (declaration : TypeDecl)
  | fields (declarations : List FieldDecl)
  /-- Nothing that counts. -/
  | nothing
  deriving Repr

/-- The names among items, dots between them. -/
def readName (nodes : List Node) : String :=
  ".".intercalate <| nodes.filterMap fun node => match node with
    | .word token => if token.terminal = .identifier then some token.text else none
    | _ => none

/-- The first pair of braces, read as the body of a class or of an enum. -/
def readBody (isEnum : Bool) (nodes : List Node) : Body :=
  (nodes.findSome? fun node => match node with
    | .braces asClass asEnum => some (if isEnum then asEnum else asClass)
    | _ => none).getD .empty

/-- A type declaration behind its keyword. -/
def readTypeDecl (kind : DeclKind) (modifiers : List String) (nodes : List Node) : Member :=
  match nodes with
  | .word name :: rest =>
      let body := readBody (kind = .enumDecl) rest
      .type {
        kind
        name := name.text
        typeParams := if kind = .enumDecl then [] else readTypeParams rest
        modifiers
        fields := body.fields
        enumConstants := body.enumConstants
        types := body.types }
  | _ => .nothing

/-- The fields that a type and declarators declare. -/
def readFields (modifiers : List String) (doc : Option String) (nodes : List Node) : Member :=
  match readType nodes with
  | none => .nothing
  | some (type, rest) =>
      match readDeclarators rest with
      | none => .nothing
      | some declarators =>
          .fields <| declarators.map fun declarator => {
            name := declarator.name
            type := { type with dimensions := type.dimensions + declarator.dimensions }
            docComment := doc
            modifiers }

/-- What a member declares. -/
def readMember (nodes : List Node) : Member :=
  let doc := (nodes.head?.map Node.doc).getD none
  let (modifiers, nodes) := readModifiers nodes
  match nodes with
  | .word token :: rest =>
      match token.terminal with
      | .packageWord => .package (readName rest)
      | .importWord => .importing {
          name := readName rest
          isStatic := rest.any (·.isWord .staticWord)
          isWildcard := rest.any (·.isWord .star) }
      | .classWord => readTypeDecl .classDecl modifiers rest
      | .interfaceWord => readTypeDecl .interfaceDecl modifiers rest
      | .enumWord => readTypeDecl .enumDecl modifiers rest
      | .atSign => readTypeDecl .interfaceDecl modifiers (rest.drop 1)
      | _ => readFields modifiers doc nodes
  | nodes => readFields modifiers doc nodes

/-! ## Bodies and sources -/

/-- The declarations of members. -/
def bodyOf (members : List Member) : Body where
  fields := members.flatMap fun
    | .fields declarations => declarations
    | _ => []
  enumConstants := []
  types := members.filterMap fun
    | .type declaration => some declaration
    | _ => none

/-- The declarations that the content of a class body makes. -/
def readClassBody (nodes : List Node) : Body := bodyOf ((splitMembers nodes).map readMember)

/-- The name of a constant of an enum. -/
def readConstant (nodes : List Node) : Option String :=
  match dropAnnotations nodes with
  | .word name :: _ => some name.text
  | _ => none

/-- The declarations that the content of an enum body makes: constants up to the first semicolon,
members behind it. -/
def readEnumBody (nodes : List Node) : Body :=
  let constants := nodes.takeWhile (!·.isWord .semicolon)
  let members := (nodes.dropWhile (!·.isWord .semicolon)).drop 1
  { readClassBody members with
    enumConstants := (splitCommas constants).filterMap readConstant }

/-- Puts braces with a content behind the items of an outline. -/
def pushBraces (content : List Node) (level : List Node) : List Node :=
  .braces (readClassBody content) (readEnumBody content) :: level

/-- The outline of tokens.  `level` holds the items inside the innermost open bracket and `outer`
those inside the brackets around it, the last ones first. -/
def outlineFrom (level : List Node) (outer : List (List Node)) : List Token → List Node
  | [] => level.reverse
  | token :: rest =>
      match token.terminal with
      | .leftParen => outlineFrom [] (level :: outer) rest
      | .leftBrace => outlineFrom [] (level :: outer) rest
      | .rightParen =>
          match outer with
          | [] => outlineFrom level [] rest
          | around :: outer => outlineFrom (pushParens around) outer rest
      | .rightBrace =>
          match outer with
          | [] => outlineFrom level [] rest
          | around :: outer => outlineFrom (pushBraces level.reverse around) outer rest
      | _ => outlineFrom (pushWord token level) outer rest

/-- The outline of tokens. -/
def outline (tokens : List Token) : List Node := outlineFrom [] [] tokens

/-- The declarations that members at top level make. -/
def sourceOf (members : List Member) : SourceFile where
  package := (members.findSome? fun
    | .package name => some name
    | _ => none).getD ""
  imports := members.filterMap fun
    | .importing imported => some imported
    | _ => none
  types := (bodyOf members).types

/-- The declarations that tokens make. -/
def readSource (tokens : List Token) : SourceFile :=
  sourceOf ((splitMembers (outline tokens)).map readMember)

end ClassSchema.Java
