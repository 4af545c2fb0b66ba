import ClassSchema.Java.Declaration
import ClassSchema.Java.Token

/-!
# Outlines

An outline is what a reader of declarations sees of a list of tokens: the words
one by one, every annotation with its arguments as one item, every pair of
parentheses as one item, whatever it holds, and every pair of braces as one item
that remembers only the declarations that its content would make.

Members follow each other in an outline without separators of their own.  A
member ends at a semicolon, or with a pair of braces; braces belong to an
initializer, and do not end the member, if an equals sign was met before any
parentheses.
-/

namespace ClassSchema.Java

/-- The declarations that the content of a pair of braces makes. -/
structure Body where
  /-- The fields. -/
  fields : List FieldDecl
  /-- The constants of an enum. -/
  enumConstants : List String
  /-- The types. -/
  types : List TypeDecl
  deriving Repr

namespace Body

/-- No declarations. -/
def empty : Body := ⟨[], [], []⟩

end Body

/-- An item of an outline. -/
inductive Node where
  | word (token : Token)
  /-- An annotation that starts with a token; `isOpen` says whether more of its name or its
  arguments may follow. -/
  | annotationUse (start : Token) (isOpen : Bool)
  | parens
  /-- Braces, read as the body of a class and as the body of an enum. -/
  | braces (asClass asEnum : Body)
  deriving Repr

namespace Node

/-- The doc comment right in front of an item. -/
def doc : Node → Option String
  | word token => token.doc
  | annotationUse start _ => start.doc
  | _ => none

/-- Whether an item is a word of a class. -/
def isWord (terminal : Terminal) : Node → Bool
  | word token => token.terminal = terminal
  | _ => false

end Node

/-! ## Annotations -/

/-- Puts a word behind the items of an outline, the last of which comes first.  A name behind an
at sign starts an annotation, and a dot and a name continue one. -/
def pushWord (token : Token) (level : List Node) : List Node :=
  if token.terminal = .identifier then
    match level with
    | .word dot :: .annotationUse start true :: below =>
        if dot.terminal = .dot then .annotationUse start true :: below
        else if dot.terminal = .atSign then
          .annotationUse dot true :: .annotationUse start true :: below
        else .word token :: level
    | .word sign :: below =>
        if sign.terminal = .atSign then .annotationUse sign true :: below
        else .word token :: level
    | level => .word token :: level
  else .word token :: level

/-- Puts parentheses behind the items of an outline.  Behind an annotation they are its
arguments. -/
def pushParens (level : List Node) : List Node :=
  match level with
  | .annotationUse start true :: below => .annotationUse start false :: below
  | level => .parens :: level

/-- The items behind the annotations at the front. -/
def dropAnnotations : List Node → List Node
  | .annotationUse _ _ :: rest => dropAnnotations rest
  | nodes => nodes

/-! ## Members -/

/-- What braces mean at a place in a member. -/
inductive Phase where
  /-- They end the member. -/
  | open
  /-- They belong to an initializer. -/
  | initializer
  /-- They are the body of what the parentheses declare. -/
  | parameters
  deriving DecidableEq, Repr

/-- Cuts an outline into members.  `current` holds the items of the member that has begun, the
last one first. -/
def splitMembersFrom (phase : Phase) (current : List Node) : List Node → List (List Node)
  | [] => if current.isEmpty then [] else [current.reverse]
  | node :: rest =>
      match node with
      | .word token =>
          match token.terminal, phase with
          | .semicolon, _ => current.reverse :: splitMembersFrom .open [] rest
          | .equalSign, .open => splitMembersFrom .initializer (node :: current) rest
          | _, phase => splitMembersFrom phase (node :: current) rest
      | .parens =>
          splitMembersFrom (if phase = .open then .parameters else phase) (node :: current) rest
      | .braces _ _ =>
          if phase = .initializer then splitMembersFrom phase (node :: current) rest
          else (node :: current).reverse :: splitMembersFrom .open [] rest
      | .annotationUse _ _ => splitMembersFrom phase (node :: current) rest

/-- Cuts an outline into members; the semicolons that end them are left out. -/
def splitMembers (nodes : List Node) : List (List Node) := splitMembersFrom .open [] nodes

end ClassSchema.Java
