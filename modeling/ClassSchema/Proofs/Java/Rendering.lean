import ClassSchema.Proofs.Java.MemberKinds
import ClassSchema.Proofs.Java.Spelling
import ClassSchema.Text.Dotted

/-!
# Writing declarations down

The canonical tokens of a source: the package, the imports, and every declared type
with its modifiers, keyword, name, type parameters, constants, fields and nested
types in this order.  A field is its doc comment, modifiers, type and name; the
constants of an enum are always followed by a semicolon.

A source is writable if its names are names for the lexer, its modifiers are
modifiers, its doc comments are doc comments, and nothing is given to a declaration
that its kind has no place for.

## Main results

* `SourceFile.IsWritable.isWritten`: the tokens of a writable source can be spelled.
-/

namespace ClassSchema.Java

/-! ## Tokens -/

/-- The text of a terminal that has one text only. -/
def Terminal.text : Terminal → String
  | packageWord => "package"
  | importWord => "import"
  | classWord => "class"
  | interfaceWord => "interface"
  | enumWord => "enum"
  | staticWord => "static"
  | semicolon => ";"
  | dot => "."
  | star => "*"
  | comma => ","
  | leftBrace => "\x7b"
  | rightBrace => "\x7d"
  | lessThan => "<"
  | moreThan => ">"
  | leftBracket => "["
  | rightBracket => "]"
  | _ => ""

/-- The token of such a terminal. -/
def Terminal.token (terminal : Terminal) : Token := .plain terminal terminal.text

/-- The token of a name without dots. -/
def nameToken (name : String) : Token := .plain .identifier name

/-- Parts with a separator between them. -/
def listed (separator : Terminal) : List (List Token) → List Token
  | [] => []
  | part :: rest => part ++ rest.flatMap (separator.token :: ·)

/-- A list in angle brackets; an empty list is left out. -/
def angled : List (List Token) → List Token
  | [] => []
  | parts => Terminal.lessThan.token :: listed .comma parts ++ [Terminal.moreThan.token]

/-- A name with dots. -/
def dottedTokens (name : String) : List Token :=
  listed .dot ((Dotted.segments name).map fun segment => [nameToken segment])

/-- The dimensions of an array. -/
def dimensionTokens (dimensions : Nat) : List Token :=
  (List.replicate dimensions [Terminal.leftBracket.token, Terminal.rightBracket.token]).flatten

mutual

/-- The tokens of a type. -/
def TypeName.tokens : TypeName → List Token
  | ⟨name, arguments, dimensions⟩ =>
      dottedTokens name ++ (angled (tokensOfEach arguments) ++ dimensionTokens dimensions)

/-- The tokens of types, one by one. -/
def TypeName.tokensOfEach : List TypeName → List (List Token)
  | [] => []
  | type :: rest => type.tokens :: tokensOfEach rest

end

/-- The token of a modifier. -/
def modifierToken (modifier : String) : Token :=
  .plain (if modifier = "static" then .staticWord else .modifier) modifier

/-- Puts a doc comment in front of tokens. -/
def withDoc (doc : Option String) : List Token → List Token
  | [] => []
  | token :: rest => { token with doc } :: rest

/-- The tokens of a field before its semicolon. -/
def FieldDecl.headTokens (field : FieldDecl) : List Token :=
  withDoc field.docComment
    (field.modifiers.map modifierToken ++ (field.type.tokens ++ [nameToken field.name]))

/-- The tokens of a field. -/
def FieldDecl.tokens (field : FieldDecl) : List Token :=
  field.headTokens ++ [Terminal.semicolon.token]

/-- The keyword of a kind. -/
def DeclKind.terminal : DeclKind → Terminal
  | classDecl => .classWord
  | interfaceDecl => .interfaceWord
  | enumDecl => .enumWord

/-- What precedes the body of a declared type. -/
def headerTokens (kind : DeclKind) (name : String) (typeParams modifiers : List String) :
    List Token :=
  modifiers.map modifierToken ++ (kind.terminal.token :: nameToken name ::
    angled (typeParams.map fun param => [nameToken param]))

/-- The constants of an enum. -/
def constantTokens (constants : List String) : List Token :=
  listed .comma (constants.map fun constant => [nameToken constant])

/-- The content of the body of a kind, given its constants and its members. -/
def contentTokens (kind : DeclKind) (constants : List String) (members : List (List Token)) :
    List Token :=
  match kind with
  | .enumDecl => constantTokens constants ++ (Terminal.semicolon.token :: members.flatten)
  | _ => members.flatten

mutual

/-- The tokens of a declared type. -/
def TypeDecl.tokens : TypeDecl → List Token
  | ⟨kind, name, typeParams, modifiers, fields, enumConstants, types⟩ =>
      headerTokens kind name typeParams modifiers ++ (Terminal.leftBrace.token ::
        contentTokens kind enumConstants (fields.map FieldDecl.tokens ++ tokensOfEach types) ++
          [Terminal.rightBrace.token])

/-- The tokens of declared types, one by one. -/
def TypeDecl.tokensOfEach : List TypeDecl → List (List Token)
  | [] => []
  | decl :: rest => decl.tokens :: tokensOfEach rest

end

/-- The tokens of an import before its semicolon. -/
def Import.headTokens (imported : Import) : List Token :=
  Terminal.importWord.token ::
    ((if imported.isStatic then [Terminal.staticWord.token] else []) ++
      (dottedTokens imported.name ++
        (if imported.isWildcard then [Terminal.dot.token, Terminal.star.token] else [])))

/-- The tokens of an import. -/
def Import.tokens (imported : Import) : List Token :=
  imported.headTokens ++ [Terminal.semicolon.token]

/-- The tokens of a package; the empty name has none. -/
def packageTokens (name : String) : List (List Token) :=
  if name = "" then []
  else [Terminal.packageWord.token :: dottedTokens name ++ [Terminal.semicolon.token]]

/-- The members of a source. -/
def SourceFile.parts (file : SourceFile) : List (List Token) :=
  packageTokens file.package ++
    (file.imports.map Import.tokens ++ file.types.map TypeDecl.tokens)

/-- The tokens of a source. -/
def SourceFile.tokens (file : SourceFile) : List Token := file.parts.flatten

/-- **A source as it is written.** -/
def SourceFile.rendered (file : SourceFile) : List Char := spell file.tokens

theorem TypeName.tokensOfEach_eq (types : List TypeName) :
    TypeName.tokensOfEach types = types.map TypeName.tokens := by
  induction types with
  | nil => rfl
  | cons type types ih => rw [tokensOfEach, ih, List.map_cons]

theorem TypeDecl.tokensOfEach_eq (decls : List TypeDecl) :
    TypeDecl.tokensOfEach decls = decls.map TypeDecl.tokens := by
  induction decls with
  | nil => rfl
  | cons decl decls ih => rw [tokensOfEach, ih, List.map_cons]

/-! ## What can be written -/

/-- A word that is read as a name. -/
def IsName (name : String) : Prop := IsLexeme (.token .identifier) name

/-- Names with dots between them. -/
def IsDottedName (name : String) : Prop := ∀ segment ∈ Dotted.segments name, IsName segment

/-- A word that is read as a modifier. -/
def IsModifier (modifier : String) : Prop :=
  modifier = "static" ∨ IsLexeme (.token .modifier) modifier

instance (name : String) : Decidable (IsName name) :=
  inferInstanceAs (Decidable (IsLexeme _ name))

instance (name : String) : Decidable (IsDottedName name) :=
  inferInstanceAs (Decidable (∀ segment ∈ Dotted.segments name, IsName segment))

instance (modifier : String) : Decidable (IsModifier modifier) :=
  inferInstanceAs (Decidable (_ ∨ _))

/-- A type with names that can be written. -/
inductive TypeName.IsWritable : TypeName → Prop where
  | intro {name : String} {arguments : List TypeName} {dimensions : Nat} :
      IsDottedName name → (∀ argument ∈ arguments, argument.IsWritable) →
      IsWritable ⟨name, arguments, dimensions⟩

/-- A field that can be written. -/
structure FieldDecl.IsWritable (field : FieldDecl) : Prop where
  name : IsName field.name
  type : field.type.IsWritable
  docComment : ∀ doc ∈ field.docComment, IsLexeme .docComment doc
  modifiers : ∀ modifier ∈ field.modifiers, IsModifier modifier

/-- A declared type, apart from the types in it. -/
structure TypeDecl.IsShaped (decl : TypeDecl) : Prop where
  name : IsName decl.name
  typeParams : ∀ param ∈ decl.typeParams, IsName param
  modifiers : ∀ modifier ∈ decl.modifiers, IsModifier modifier
  fields : ∀ field ∈ decl.fields, field.IsWritable
  enumConstants : ∀ constant ∈ decl.enumConstants, IsName constant
  /-- Enums have no type parameters. -/
  enum : decl.kind = .enumDecl → decl.typeParams = []
  /-- Only enums have constants. -/
  other : decl.kind ≠ .enumDecl → decl.enumConstants = []

/-- A declared type that can be written. -/
inductive TypeDecl.IsWritable : TypeDecl → Prop where
  | intro {decl : TypeDecl} :
      decl.IsShaped → (∀ inner ∈ decl.types, inner.IsWritable) → decl.IsWritable

/-- A source that can be written. -/
structure SourceFile.IsWritable (file : SourceFile) : Prop where
  package : file.package = "" ∨ IsDottedName file.package
  imports : ∀ imported ∈ file.imports, IsDottedName imported.name
  types : ∀ decl ∈ file.types, decl.IsWritable

/-! ## Written tokens -/

/-- The terminals that can stand inside a statement or a header without an annotation. -/
def Terminal.isFlat (terminal : Terminal) : Bool :=
  !terminal.isBracket && terminal ≠ .atSign && terminal ≠ .semicolon && terminal ≠ .equalSign

/-- A token of a header. -/
structure Token.IsItem (token : Token) : Prop where
  isWritten : token.IsWritten
  isFlat : token.terminal.isFlat = true

theorem Terminal.isWritten_token {terminal : Terminal} (h : terminal.text ≠ "") :
    terminal.token.IsWritten := by
  refine ⟨?_, (fun _ mem => nomatch mem), rfl⟩
  cases terminal <;> first
    | exact absurd rfl h
    | exact .inl ⟨rfl, by decide +kernel⟩
    | exact .inr ⟨_, by decide, rfl⟩

theorem Terminal.isItem_token {terminal : Terminal} (h : terminal.text ≠ "")
    (hFlat : terminal.isFlat = true) : terminal.token.IsItem :=
  ⟨isWritten_token h, hFlat⟩

theorem isItem_nameToken {name : String} (h : IsName name) : (nameToken name).IsItem :=
  ⟨⟨.inl ⟨rfl, h⟩, (fun _ mem => nomatch mem), rfl⟩, rfl⟩

theorem isItem_modifierToken {modifier : String} (h : IsModifier modifier) :
    (modifierToken modifier).IsItem := by
  unfold modifierToken
  by_cases hStatic : modifier = "static"
  · rw [if_pos hStatic, hStatic]
    exact @Terminal.isItem_token .staticWord (by decide) rfl
  · rw [if_neg hStatic]
    have hModifier : IsLexeme (.token .modifier) modifier := h.resolve_left hStatic
    exact ⟨⟨.inl ⟨rfl, hModifier⟩, (fun _ mem => nomatch mem), rfl⟩, rfl⟩

theorem isItem_listed {separator : Terminal} (hText : separator.text ≠ "")
    (hFlat : separator.isFlat = true) {parts : List (List Token)}
    (h : ∀ part ∈ parts, ∀ token ∈ part, token.IsItem) :
    ∀ token ∈ listed separator parts, token.IsItem := by
  cases parts with
  | nil =>
      intro token mem
      cases mem
  | cons part parts =>
      obtain ⟨hPart, each⟩ := List.forall_mem_cons.mp h
      rw [listed, List.forall_mem_append]
      refine ⟨hPart, ?_⟩
      intro token mem
      obtain ⟨other, hOther, mem⟩ := List.mem_flatMap.mp mem
      rcases List.mem_cons.mp mem with rfl | mem
      · exact Terminal.isItem_token hText hFlat
      · exact each other hOther token mem

theorem isItem_angled {parts : List (List Token)}
    (h : ∀ part ∈ parts, ∀ token ∈ part, token.IsItem) :
    ∀ token ∈ angled parts, token.IsItem := by
  cases parts with
  | nil =>
      intro token mem
      cases mem
  | cons part parts =>
      rw [angled, List.forall_mem_append, List.forall_mem_cons, List.forall_mem_singleton]
      · exact ⟨⟨Terminal.isItem_token (by decide) rfl, isItem_listed (by decide) rfl h⟩,
          Terminal.isItem_token (by decide) rfl⟩
      · intro hNil
        cases hNil

theorem isItem_names {names : List String} (h : ∀ name ∈ names, IsName name) :
    ∀ part ∈ names.map fun name => [nameToken name], ∀ token ∈ part, token.IsItem := by
  rw [List.forall_mem_map]
  intro name mem
  rw [List.forall_mem_singleton]
  exact isItem_nameToken (h name mem)

theorem isItem_constantTokens {constants : List String}
    (h : ∀ constant ∈ constants, IsName constant) :
    ∀ token ∈ constantTokens constants, token.IsItem :=
  isItem_listed (by decide) rfl (isItem_names h)

theorem isItem_dottedTokens {name : String} (h : IsDottedName name) :
    ∀ token ∈ dottedTokens name, token.IsItem :=
  isItem_listed (by decide) rfl (isItem_names h)

theorem isItem_modifiers {modifiers : List String}
    (h : ∀ modifier ∈ modifiers, IsModifier modifier) :
    ∀ token ∈ modifiers.map modifierToken, token.IsItem := by
  rw [List.forall_mem_map]
  exact fun modifier mem => isItem_modifierToken (h modifier mem)

theorem isItem_dimensionTokens (dimensions : Nat) :
    ∀ token ∈ dimensionTokens dimensions, token.IsItem := by
  have hPair : ∀ token ∈ [Terminal.leftBracket.token, Terminal.rightBracket.token],
      token.IsItem := by
    rw [List.forall_mem_cons, List.forall_mem_singleton]
    exact ⟨Terminal.isItem_token (by decide) rfl, Terminal.isItem_token (by decide) rfl⟩
  intro token mem
  obtain ⟨pair, mem_pair, mem⟩ := List.mem_flatten.mp mem
  rw [List.eq_of_mem_replicate mem_pair] at mem
  exact hPair token mem

theorem TypeName.IsWritable.isItem {type : TypeName} (h : type.IsWritable) :
    ∀ token ∈ type.tokens, token.IsItem := by
  induction h with
  | @intro name arguments dimensions hName _ ih =>
      rw [tokens, tokensOfEach_eq, List.forall_mem_append, List.forall_mem_append]
      refine ⟨isItem_dottedTokens hName, isItem_angled ?_, isItem_dimensionTokens dimensions⟩
      rw [List.forall_mem_map]
      exact ih

theorem isItem_withDoc {doc : Option String} (hDoc : ∀ text ∈ doc, IsLexeme .docComment text)
    {tokens : List Token} (h : ∀ token ∈ tokens, token.IsItem) :
    ∀ token ∈ withDoc doc tokens, token.IsItem := by
  cases tokens with
  | nil => exact h
  | cons token rest =>
      obtain ⟨hToken, hRest⟩ := List.forall_mem_cons.mp h
      rw [withDoc, List.forall_mem_cons]
      exact ⟨⟨⟨hToken.isWritten.text, hDoc, hToken.isWritten.place⟩, hToken.isFlat⟩, hRest⟩

theorem FieldDecl.IsWritable.isItem {field : FieldDecl} (h : field.IsWritable) :
    ∀ token ∈ field.headTokens, token.IsItem := by
  apply isItem_withDoc h.docComment
  rw [List.forall_mem_append, List.forall_mem_append, List.forall_mem_singleton]
  exact ⟨isItem_modifiers h.modifiers, h.type.isItem, isItem_nameToken h.name⟩

theorem TypeDecl.IsShaped.isItem {decl : TypeDecl} (h : decl.IsShaped) :
    ∀ token ∈ headerTokens decl.kind decl.name decl.typeParams decl.modifiers, token.IsItem := by
  rw [headerTokens, List.forall_mem_append, List.forall_mem_cons, List.forall_mem_cons]
  refine ⟨isItem_modifiers h.modifiers, ?_, isItem_nameToken h.name,
    isItem_angled (isItem_names h.typeParams)⟩
  cases decl.kind <;> exact Terminal.isItem_token (by decide) rfl

private theorem isWritten_of_isItem {tokens : List Token} (h : ∀ token ∈ tokens, token.IsItem) :
    ∀ token ∈ tokens, token.IsWritten := fun token mem => (h token mem).isWritten

theorem isWritten_content {decl : TypeDecl} (h : decl.IsShaped)
    {members : List (List Token)}
    (hMembers : ∀ member ∈ members, ∀ token ∈ member, token.IsWritten) :
    ∀ token ∈ contentTokens decl.kind decl.enumConstants members, token.IsWritten := by
  have hFlatten : ∀ token ∈ members.flatten, token.IsWritten := by
    intro token mem
    obtain ⟨member, mem_member, mem⟩ := List.mem_flatten.mp mem
    exact hMembers member mem_member token mem
  cases decl.kind with
  | enumDecl =>
      rw [contentTokens, List.forall_mem_append, List.forall_mem_cons]
      refine ⟨?_, Terminal.isWritten_token (by decide), hFlatten⟩
      exact isWritten_of_isItem (isItem_constantTokens h.enumConstants)
  | classDecl => exact hFlatten
  | interfaceDecl => exact hFlatten

theorem FieldDecl.IsWritable.isWritten {field : FieldDecl} (h : field.IsWritable) :
    ∀ token ∈ field.tokens, token.IsWritten := by
  rw [tokens, List.forall_mem_append, List.forall_mem_singleton]
  exact ⟨isWritten_of_isItem h.isItem, Terminal.isWritten_token (by decide)⟩

theorem TypeDecl.IsWritable.isWritten {decl : TypeDecl} (h : decl.IsWritable) :
    ∀ token ∈ decl.tokens, token.IsWritten := by
  induction h with
  | @intro decl hShaped _ ih =>
      obtain ⟨kind, name, typeParams, modifiers, fields, enumConstants, types⟩ := decl
      rw [tokens, tokensOfEach_eq, List.forall_mem_append, List.forall_mem_append,
        List.forall_mem_cons, List.forall_mem_singleton]
      refine ⟨isWritten_of_isItem hShaped.isItem, ⟨Terminal.isWritten_token (by decide), ?_⟩,
        Terminal.isWritten_token (by decide)⟩
      apply isWritten_content hShaped
      intro member mem
      rcases List.mem_append.mp mem with mem | mem
      · obtain ⟨field, hField, rfl⟩ := List.mem_map.mp mem
        exact (hShaped.fields field hField).isWritten
      · obtain ⟨inner, hInner, rfl⟩ := List.mem_map.mp mem
        exact ih inner hInner

theorem isWritten_package {name : String} (h : name = "" ∨ IsDottedName name) :
    ∀ part ∈ packageTokens name, ∀ token ∈ part, token.IsWritten := by
  unfold packageTokens
  by_cases hEmpty : name = ""
  · rw [if_pos hEmpty]
    intro part mem
    cases mem
  · rw [if_neg hEmpty, List.forall_mem_singleton, List.forall_mem_append, List.forall_mem_cons,
      List.forall_mem_singleton]
    exact ⟨⟨Terminal.isWritten_token (by decide),
      isWritten_of_isItem (isItem_dottedTokens (h.resolve_left hEmpty))⟩,
      Terminal.isWritten_token (by decide)⟩

/-- The tokens of an import before its semicolon are items. -/
theorem isItem_import {imported : Import} (h : IsDottedName imported.name) :
    ∀ token ∈ imported.headTokens, token.IsItem := by
  rw [Import.headTokens, List.forall_mem_cons, List.forall_mem_append, List.forall_mem_append]
  refine ⟨Terminal.isItem_token (by decide) rfl, ?_, isItem_dottedTokens h, ?_⟩
  · cases imported.isStatic
    · intro token mem
      cases mem
    · rw [if_pos rfl, List.forall_mem_singleton]
      exact Terminal.isItem_token (by decide) rfl
  · cases imported.isWildcard
    · intro token mem
      cases mem
    · rw [if_pos rfl, List.forall_mem_cons, List.forall_mem_singleton]
      exact ⟨Terminal.isItem_token (by decide) rfl, Terminal.isItem_token (by decide) rfl⟩

/-- **The tokens of a writable source can be spelled.** -/
theorem SourceFile.IsWritable.isWritten {file : SourceFile} (h : file.IsWritable) :
    ∀ token ∈ file.tokens, token.IsWritten := by
  intro token mem
  obtain ⟨part, mem_part, mem⟩ := List.mem_flatten.mp mem
  rcases List.mem_append.mp mem_part with mem_part | mem_part
  · exact isWritten_package h.package part mem_part token mem
  rcases List.mem_append.mp mem_part with mem_part | mem_part
  · obtain ⟨imported, mem_import, rfl⟩ := List.mem_map.mp mem_part
    have hImport : ∀ token ∈ imported.tokens, token.IsWritten := by
      rw [Import.tokens, List.forall_mem_append, List.forall_mem_singleton]
      exact ⟨isWritten_of_isItem (isItem_import (h.imports imported mem_import)),
        Terminal.isWritten_token (by decide)⟩
    exact hImport token mem
  · obtain ⟨decl, mem_decl, rfl⟩ := List.mem_map.mp mem_part
    exact (h.types decl mem_decl).isWritten token mem

end ClassSchema.Java
