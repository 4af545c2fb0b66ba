import ClassSchema.Java.Reading
import ClassSchema.Proofs.Java.Derivations

/-!
# What derivations mean

A derivation is turned into declarations from below.  Every rule makes a value of
what its parts have made; what it needs it picks by its kind, the first name or the
first body for example, wherever in the list that stands.  Methods, initializers,
records, annotations and code make a value that says nothing, and rules that only
group others hand on the values of their parts.

Punctuation leaves no value.  Only the star of an import does, since it is all that
tells an import of everything under a name.

A rule that misses what it needs fails, and with it the derivation.  This does not
happen: `Expr.shows` reads off a body what is among its values in every derivation,
and the rules need no more than that.

## Main results

* `Derivation.exists_values`: every derivation means something.
-/

namespace ClassSchema.Java

/-- What a part of a derivation has been made into. -/
inductive Value where
  | token (token : Token)
  /-- Something that is passed over. -/
  | nothing
  | name (name : String)
  /-- The names of type parameters, or those of the constants of an enum. -/
  | names (names : List String)
  | dimension
  /-- A name and type arguments between the dots of a type. -/
  | segment (name : String) (arguments : List TypeName)
  | type (type : TypeName)
  | types (types : List TypeName)
  | declarator (declarator : Declarator)
  | fields (fields : List FieldDecl)
  | body (body : Body)
  | declaration (declaration : TypeDecl)
  | importing (imported : Import)
  | package (name : String)
  | file (file : SourceFile)

/-! ## Picking values -/

namespace Value

/-- The text of a token of a class. -/
def text? (t : Terminal) : Value → Option String
  | token found => if found.terminal = t then some found.text else none
  | _ => none

/-- Whether a value is a token of a class. -/
def isToken (t : Terminal) : Value → Bool
  | token found => found.terminal = t
  | _ => false

/-- The text of a modifier. -/
def modifier? : Value → Option String
  | token found =>
      if found.terminal = .modifier ∨ found.terminal = .staticWord then some found.text else none
  | _ => none

def name? : Value → Option String
  | name text => some text
  | _ => none

def names? : Value → Option (List String)
  | names texts => some texts
  | _ => none

def isDimension : Value → Bool
  | dimension => true
  | _ => false

def segment? : Value → Option (String × List TypeName)
  | segment text arguments => some (text, arguments)
  | _ => none

def type? : Value → Option TypeName
  | type found => some found
  | _ => none

def types? : Value → Option (List TypeName)
  | types found => some found
  | _ => none

def declarator? : Value → Option Declarator
  | declarator found => some found
  | _ => none

/-- The fields of a declaration of fields, and none of anything else. -/
def declaredFields : Value → List FieldDecl
  | fields found => found
  | _ => []

def body? : Value → Option Body
  | body found => some found
  | _ => none

def declaration? : Value → Option TypeDecl
  | declaration found => some found
  | _ => none

def importing? : Value → Option Import
  | importing found => some found
  | _ => none

def package? : Value → Option String
  | package text => some text
  | _ => none

def file? : Value → Option SourceFile
  | file found => some found
  | _ => none

end Value

/-! ## Rules -/

/-- Whether a terminal leaves a value. -/
def Terminal.isKept : Terminal → Bool
  | semicolon | dot | atSign | comma | leftBrace | rightBrace | equalSign | lessThan | moreThan
  | questionMark | ampersand | leftBracket | rightBracket | leftParen | rightParen => false
  | _ => true

/-- The body that the values of members make. -/
def bodyOfValues (values : List Value) : Body where
  fields := values.flatMap Value.declaredFields
  enumConstants := []
  types := values.filterMap Value.declaration?

/-- The source that the values of what stands in it make. -/
def sourceOfValues (values : List Value) : SourceFile where
  package := (values.findSome? Value.package?).getD ""
  imports := values.filterMap Value.importing?
  types := values.filterMap Value.declaration?

/-- A declared type.  Its name is the first one, and its body the first body. -/
def declarationOfValues (kind : DeclKind) (values : List Value) : Option TypeDecl := do
  let name ← values.findSome? (Value.text? .identifier)
  let body ← values.findSome? Value.body?
  return {
    kind
    name
    typeParams := (values.findSome? Value.names?).getD []
    modifiers := values.filterMap Value.modifier?
    fields := body.fields
    enumConstants := body.enumConstants
    types := body.types }

/-- The fields that a type and declarators declare. -/
def fieldsOfValues (doc : Option String) (values : List Value) : Option (List FieldDecl) := do
  let type ← values.findSome? Value.type?
  return (values.filterMap Value.declarator?).map fun declarator => {
    name := declarator.name
    type := { type with dimensions := type.dimensions + declarator.dimensions }
    docComment := doc
    modifiers := values.filterMap Value.modifier? }

/-- What a rule makes of the values of its parts; `doc` is the comment in front of it. -/
@[simp] def Rule.make (doc : Option String) (values : List Value) : Rule → Option (List Value)
  | compilationUnit => some [.file (sourceOfValues values)]
  | packageDeclaration => do
      let name ← values.findSome? Value.name?
      return [.package name]
  | importDeclaration => do
      let name ← values.findSome? Value.name?
      return [.importing {
        name
        isStatic := values.any (Value.isToken .staticWord)
        isWildcard := values.any (Value.isToken .star) }]
  | typeDeclaration | member | modifiers | expressionItem | looseToken => some values
  | classDeclaration => do return [.declaration (← declarationOfValues .classDecl values)]
  | interfaceDeclaration => do return [.declaration (← declarationOfValues .interfaceDecl values)]
  | enumDeclaration => do return [.declaration (← declarationOfValues .enumDecl values)]
  | recordDeclaration | classHeader | methodDeclaration | initializer | compactConstructor
  | annotationUse | parenGroup | block => some [.nothing]
  | classBody | enumMembers => some [.body (bodyOfValues values)]
  | enumBody => some [.body {
      (values.findSome? Value.body?).getD .empty with
      enumConstants := (values.findSome? Value.names?).getD [] }]
  | enumConstants | typeParameters => some [.names (values.filterMap Value.name?)]
  | enumConstant | typeParameter => do
      let name ← values.findSome? (Value.text? .identifier)
      return [.name name]
  | fieldDeclaration => do return [.fields (← fieldsOfValues doc values)]
  | declarator => do
      let name ← values.findSome? (Value.text? .identifier)
      return [.declarator ⟨name, values.countP Value.isDimension⟩]
  | type => do
      let type ← values.findSome? Value.type?
      return [.type { type with dimensions := values.countP Value.isDimension }]
  | classType => do
      let segments := values.filterMap Value.segment?
      let last ← segments.getLast?
      return [.type ⟨".".intercalate (segments.map (·.1)), last.2, 0⟩]
  | typeSegment => do
      let name ← values.findSome? (Value.text? .identifier)
      return [.segment name ((values.findSome? Value.types?).getD [])]
  | typeArguments => some [.types (values.filterMap Value.type?)]
  -- Only an upper bound narrows what an argument stands for.
  | typeArgument => some [.type <|
      if values.any (Value.isToken .superWord) then anyType
      else (values.findSome? Value.type?).getD anyType]
  | dimension => some [.dimension]
  | qualifiedName => some [.name (".".intercalate (values.filterMap (Value.text? .identifier)))]

namespace Derivation

/-- The comment in front of the first token of a derivation. -/
def doc {e : Expr} (d : Derivation e) : Option String := d.tokens.head?.bind Token.doc

/-- The values of a derivation. -/
@[simp] def values {e : Expr} : Derivation e → Option (List Value)
  | terminal token _ => some (if token.terminal.isKept then [.token token] else [])
  | @rule r body => do r.make body.doc (← body.values)
  | sequence front back => do return (← front.values) ++ (← back.values)
  | left chosen => chosen.values
  | right chosen => chosen.values
  | absent => some []
  | present one => one.values
  | none => some []
  | more one others => do return (← one.values) ++ (← others.values)

/-- The declarations that a derivation of a source means. -/
def file? (d : Derivation (.rule .compilationUnit)) : Option SourceFile := do
  (← d.values).findSome? Value.file?

end Derivation

/-! ## Every derivation means something -/

/-- The kinds of values that rules need. -/
inductive Value.Kind where
  | identifier
  | name
  | segment
  | type
  | body
  deriving DecidableEq

/-- Whether a value is of a kind. -/
def Value.is : Value.Kind → Value → Bool
  | .identifier, value => value.isToken .identifier
  | .name, value => value.name?.isSome
  | .segment, value => value.segment?.isSome
  | .type, value => value.type?.isSome
  | .body, value => value.body?.isSome

/-- The kind of the value that a rule makes, if it is one that is needed. -/
def Rule.makes : Rule → Option Value.Kind
  | qualifiedName => some .name
  | typeSegment => some .segment
  | classType | type => some .type
  | classBody | enumBody => some .body
  | _ => none

/-- Whether a value of a kind is among the values of every derivation of a body. -/
def Expr.shows (kind : Value.Kind) : Expr → Bool
  | terminal t => kind = .identifier && t = .identifier
  | rule r => r.makes = .some kind
  | sequence first second => first.shows kind || second.shows kind
  | choice left right => left.shows kind && right.shows kind
  | optional _ => false
  | many _ => false

private theorem exists_findSome? {α β : Type} {pick : α → Option β} {is : α → Bool}
    {list : List α} (h : ∃ a ∈ list, is a = true) (hPick : ∀ a, is a = true → (pick a).isSome) :
    ∃ b, list.findSome? pick = some b := by
  obtain ⟨a, mem, hIs⟩ := h
  rw [← Option.isSome_iff_exists, List.findSome?_isSome_iff]
  exact ⟨a, mem, hPick a hIs⟩

private theorem isSome_text? {t : Terminal} {value : Value} (h : value.isToken t = true) :
    (value.text? t).isSome := by
  cases value with
  | token found =>
      simp only [Value.isToken, decide_eq_true_eq] at h
      simp [Value.text?, h]
  | _ => cases h

/-- A rule makes its value if its parts show what it needs. -/
private theorem Rule.exists_make (r : Rule) (doc : Option String) {values : List Value}
    (h : ∀ kind, r.body.shows kind = true → ∃ value ∈ values, value.is kind = true) :
    ∃ made, r.make doc values = some made ∧
      ∀ kind, r.makes = some kind → ∃ value ∈ made, value.is kind = true := by
  have found : ∀ {α : Type} (kind : Value.Kind) (pick : Value → Option α),
      (∀ value, value.is kind = true → (pick value).isSome) → r.body.shows kind = true →
        ∃ a, values.findSome? pick = some a :=
    fun kind _ hPick hShows => exists_findSome? (h kind hShows) hPick
  have name := found .identifier (Value.text? .identifier) fun _ => isSome_text?
  have qualified := found .name Value.name? fun _ => id
  have type := found .type Value.type? fun _ => id
  have body := found .body Value.body? fun _ => id
  cases r
  case packageDeclaration | importDeclaration =>
    obtain ⟨text, hName⟩ := qualified rfl
    simp [make, makes, hName]
  case classDeclaration | interfaceDeclaration | enumDeclaration =>
    obtain ⟨text, hName⟩ := name rfl
    obtain ⟨inner, hBody⟩ := body rfl
    simp [make, makes, declarationOfValues, hName, hBody]
  case enumConstant | typeParameter | declarator =>
    obtain ⟨text, hName⟩ := name rfl
    simp [make, makes, hName]
  case typeSegment =>
    obtain ⟨text, hName⟩ := name rfl
    simp [make, makes, hName, Value.is, Value.segment?]
  case fieldDeclaration =>
    obtain ⟨fieldType, hType⟩ := type rfl
    simp [make, makes, fieldsOfValues, hType]
  case type =>
    obtain ⟨inner, hType⟩ := type rfl
    simp [make, makes, hType, Value.is, Value.type?]
  case classType =>
    obtain ⟨value, mem, hSegment⟩ := h .segment rfl
    obtain ⟨segment, hValue⟩ := Option.isSome_iff_exists.mp hSegment
    have hMem : segment ∈ values.filterMap Value.segment? :=
      List.mem_filterMap.mpr ⟨value, mem, hValue⟩
    obtain ⟨last, hLast⟩ : ∃ last, (values.filterMap Value.segment?).getLast? = some last := by
      rw [← Option.isSome_iff_exists, List.getLast?_isSome]
      exact List.ne_nil_of_mem hMem
    simp [make, makes, hLast, Value.is, Value.type?]
  all_goals simp [make, makes, Value.is, Value.name?, Value.body?]

/-- **Every derivation means something**, and its values show what its body shows. -/
theorem Derivation.exists_values {e : Expr} (d : Derivation e) :
    ∃ values, d.values = some values ∧
      ∀ kind, e.shows kind = true → ∃ value ∈ values, value.is kind = true := by
  induction d with
  | @terminal t token h =>
      refine ⟨_, rfl, fun kind hShows => ?_⟩
      simp only [Expr.shows, Bool.and_eq_true, decide_eq_true_eq] at hShows
      obtain ⟨rfl, rfl⟩ := hShows
      simp [Terminal.isKept, Value.is, Value.isToken, h]
  | @rule r body ih =>
      obtain ⟨inner, hInner, shows⟩ := ih
      obtain ⟨made, hMade, makes⟩ := r.exists_make body.doc shows
      refine ⟨made, ?_, fun kind hShows => makes kind (of_decide_eq_true hShows)⟩
      rw [values, hInner]
      exact hMade
  | sequence front back ihFront ihBack =>
      obtain ⟨first, hFirst, showsFirst⟩ := ihFront
      obtain ⟨second, hSecond, showsSecond⟩ := ihBack
      refine ⟨first ++ second, by simp [values, hFirst, hSecond], fun kind hShows => ?_⟩
      rcases Bool.or_eq_true_iff.mp hShows with hShows | hShows
      · obtain ⟨value, mem, hIs⟩ := showsFirst kind hShows
        exact ⟨value, List.mem_append_left _ mem, hIs⟩
      · obtain ⟨value, mem, hIs⟩ := showsSecond kind hShows
        exact ⟨value, List.mem_append_right _ mem, hIs⟩
  | left chosen ih =>
      obtain ⟨inner, hInner, shows⟩ := ih
      exact ⟨inner, hInner, fun kind hShows => shows kind (Bool.and_eq_true_iff.mp hShows).1⟩
  | right chosen ih =>
      obtain ⟨inner, hInner, shows⟩ := ih
      exact ⟨inner, hInner, fun kind hShows => shows kind (Bool.and_eq_true_iff.mp hShows).2⟩
  | absent | none => exact ⟨[], rfl, by simp [Expr.shows]⟩
  | present one ih =>
      obtain ⟨inner, hInner, _⟩ := ih
      exact ⟨inner, hInner, by simp [Expr.shows]⟩
  | more one others ihOne ihOthers =>
      obtain ⟨first, hFirst, _⟩ := ihOne
      obtain ⟨second, hSecond, _⟩ := ihOthers
      exact ⟨first ++ second, by simp [values, hFirst, hSecond], by simp [Expr.shows]⟩

namespace Derivation

theorem values_kept {t : Terminal} {token : Token} (h : token.terminal = t)
    (hKept : t.isKept = true) : (terminal token h).values = some [.token token] := by
  subst h
  simp [hKept]

theorem values_dropped {t : Terminal} {token : Token} (h : token.terminal = t)
    (hKept : t.isKept = false) : (terminal token h).values = some [] := by
  subst h
  simp [hKept]

theorem values_rule {r : Rule} {body : Derivation r.body} {inner made : List Value}
    (hInner : body.values = some inner) (hMade : r.make body.doc inner = some made) :
    (rule body).values = some made := by
  rw [values, hInner]
  exact hMade

theorem values_sequence {first second : Expr} {front : Derivation first}
    {back : Derivation second} {values others : List Value} (hFront : front.values = some values)
    (hBack : back.values = some others) :
    (sequence front back).values = some (values ++ others) := by
  simp [hFront, hBack]

theorem values_left {left right : Expr} {chosen : Derivation left} {values : List Value}
    (h : chosen.values = some values) :
    (.left chosen : Derivation (.choice left right)).values = some values := h

theorem values_right {left right : Expr} {chosen : Derivation right} {values : List Value}
    (h : chosen.values = some values) :
    (.right chosen : Derivation (.choice left right)).values = some values := h

theorem values_present {part : Expr} {one : Derivation part} {values : List Value}
    (h : one.values = some values) : (present one).values = some values := h

theorem values_more {part : Expr} {one : Derivation part} {rest : Derivation (.many part)}
    {values others : List Value} (hOne : one.values = some values)
    (hRest : rest.values = some others) : (more one rest).values = some (values ++ others) := by
  simp [hOne, hRest]

end Derivation

/-- Whether a rule makes nothing of its parts. -/
def Rule.isPassed : Rule → Bool
  | recordDeclaration | classHeader | methodDeclaration | initializer | compactConstructor
  | annotationUse | parenGroup | block => true
  | _ => false

theorem Derivation.values_of_isPassed {r : Rule} (h : r.isPassed = true)
    (d : Derivation (.rule r)) : d.values = some [.nothing] := by
  obtain ⟨body, rfl⟩ := d.exists_rule
  obtain ⟨inner, hInner, _⟩ := body.exists_values
  refine values_rule hInner ?_
  cases r <;> first | rfl | cases h

end ClassSchema.Java
