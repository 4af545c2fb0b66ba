import ClassSchema.Proofs.Java.RenderedTypes
import ClassSchema.Proofs.Java.SkippedCode

/-!
# Parsing undoes writing

A source is cut into the members it was put together from, and every member is read
back by itself: a field from its doc comment, modifiers, type and name, a declared
type from its header and from the members of its body.  The induction is on the
declared types inside each other.

## Main results

* `readMember_field`, `readMember_decl`: fields and declared types are read back.
* `parse_rendered`: so are sources.
-/

namespace ClassSchema.Java

open Expr.Yields

/-! ## Fields -/

/-- Behind modifiers, what starts with a name is read as a field. -/
private theorem readMember_words {modifiers : List Token}
    (h : ∀ token ∈ modifiers, token.terminal = .modifier ∨ token.terminal = .staticWord)
    {name : Token} (hName : name.terminal = .identifier) (rest : List Node) :
    readMember (words modifiers ++ .word name :: rest) =
      readFields (modifiers.map Token.text)
        (((words modifiers ++ .word name :: rest).head?.map Node.doc).getD none)
        (.word name :: rest) := by
  have hNone : ¬ (name.terminal = .modifier ∨ name.terminal = .staticWord) := by
    rw [hName]
    decide
  exact readMember_of_name (readModifiers_words h hNone rest) hName

theorem terminal_modifierToken (modifier : String) :
    (modifierToken modifier).terminal = .modifier ∨
      (modifierToken modifier).terminal = .staticWord := by
  unfold modifierToken
  by_cases hStatic : modifier = "static"
  · rw [if_pos hStatic]
    exact .inr rfl
  · rw [if_neg hStatic]
    exact .inl rfl

private theorem map_text_modifierToken (modifiers : List String) :
    (modifiers.map modifierToken).map Token.text = modifiers := by
  rw [List.map_map]
  exact List.map_id _

/-- A type and a name are one field. -/
private theorem readFields_words {type : TypeName} (h : type.IsWritable)
    (modifiers : List String) (doc comment : Option String) (name : String) :
    readFields modifiers comment (words (withDoc doc (type.tokens ++ [nameToken name]))) =
      .fields [⟨name, type, comment, modifiers⟩] := by
  have hDeclarators : readDeclarators [.word (nameToken name)] = some [⟨name, 0⟩] := rfl
  rw [readFields, readType_tokens h]
  dsimp only
  rw [hDeclarators]
  cases type
  rfl

/-- **A written field is read back.** -/
theorem readMember_field {field : FieldDecl} (h : field.IsWritable) :
    readMember (memberItems field.tokens) = .fields [field] := by
  obtain ⟨name, type, doc, modifiers⟩ := field
  obtain ⟨first, rest, hTokens⟩ := type.exists_tokens
  rw [FieldDecl.tokens, memberItems_words fun token mem => (h.isItem token mem).isFlat,
    FieldDecl.headTokens]
  have hType : type.IsWritable := h.type
  cases modifiers with
  | nil =>
      have hField := readFields_words hType [] doc doc name
      rw [hTokens] at hField
      have hRead := @readMember_words [] (by simp) { nameToken first with doc } rfl
        (words (rest ++ [nameToken name]))
      rw [List.map_nil, List.nil_append, hTokens]
      exact hRead.trans hField
  | cons modifier modifiers =>
      have hWords : ∀ token ∈ { modifierToken modifier with doc } :: modifiers.map modifierToken,
          token.terminal = .modifier ∨ token.terminal = .staticWord := by
        rw [List.forall_mem_cons, List.forall_mem_map]
        exact ⟨terminal_modifierToken modifier, fun other _ => terminal_modifierToken other⟩
      have hField := readFields_words hType (modifier :: modifiers) none doc name
      rw [hTokens] at hField
      have hRead := @readMember_words _ hWords (nameToken first) rfl
        (words (rest ++ [nameToken name]))
      have hTexts : ({ modifierToken modifier with doc } :: modifiers.map modifierToken).map
          Token.text = modifier :: modifiers := map_text_modifierToken (modifier :: modifiers)
      rw [hTexts] at hRead
      rw [List.map_cons, List.cons_append, withDoc, words_cons, words_append, hTokens]
      exact hRead.trans hField

/-! ## Declared types -/

private theorem readTypeParamsFrom_names (names : List String) (after : List Node) :
    readTypeParamsFrom 1 false
        (words (names.flatMap fun name => [Terminal.comma.token, nameToken name]) ++
          .word Terminal.moreThan.token :: after) =
      names := by
  induction names with
  | nil => rfl
  | cons name names ih =>
      rw [List.flatMap_cons, List.cons_append, List.cons_append, List.nil_append, words_cons,
        words_cons, List.cons_append, List.cons_append]
      show name :: readTypeParamsFrom 1 false _ = _
      rw [ih]

/-- The names between angle brackets. -/
theorem readTypeParams_angled (names : List String) (asClass asEnum : Body) :
    readTypeParams (words (angled (names.map fun name => [nameToken name])) ++
      [.braces asClass asEnum]) = names := by
  cases names with
  | nil => rfl
  | cons first names =>
      have hAngled : angled ((first :: names).map fun name => [nameToken name]) =
          Terminal.lessThan.token :: nameToken first ::
            ((names.flatMap fun name => [Terminal.comma.token, nameToken name]) ++
              [Terminal.moreThan.token]) := by
        simp [angled, listed, List.flatMap_map]
      have hRest := readTypeParamsFrom_names names [.braces asClass asEnum]
      rw [hAngled, words_cons, words_cons, words_append, List.cons_append, List.cons_append,
        List.append_assoc]
      show first :: readTypeParamsFrom 1 false _ = _
      exact congrArg (first :: ·) hRest

theorem readBody_words (isEnum : Bool) (tokens : List Token) (asClass asEnum : Body) :
    readBody isEnum (words tokens ++ [.braces asClass asEnum]) =
      if isEnum then asEnum else asClass := by
  induction tokens with
  | nil => rfl
  | cons token tokens ih => exact ih

/-- A header and a body are a declared type. -/
theorem readMember_header {kind : DeclKind} (name : String) (typeParams modifiers : List String)
    (asClass asEnum : Body) :
    readMember (words (headerTokens kind name typeParams modifiers) ++
        [.braces asClass asEnum]) =
      .type {
        kind
        name
        typeParams := if kind = .enumDecl then [] else typeParams
        modifiers
        fields := (if kind = .enumDecl then asEnum else asClass).fields
        enumConstants := (if kind = .enumDecl then asEnum else asClass).enumConstants
        types := (if kind = .enumDecl then asEnum else asClass).types } := by
  have hModifiers : ∀ token ∈ modifiers.map modifierToken,
      token.terminal = .modifier ∨ token.terminal = .staticWord := by
    rw [List.forall_mem_map]
    exact fun modifier _ => terminal_modifierToken modifier
  have hNone : ¬ (kind.terminal.token.terminal = .modifier ∨
      kind.terminal.token.terminal = .staticWord) := by
    cases kind <;> decide
  have hParams := readTypeParams_angled typeParams asClass asEnum
  have hRead := fun rest => @readModifiers_words _ hModifiers kind.terminal.token hNone rest
  rw [map_text_modifierToken] at hRead
  have hBody := fun isEnum : Bool => readBody_words isEnum
    (angled (typeParams.map fun param => [nameToken param])) asClass asEnum
  rw [headerTokens, words_append, words_cons, words_cons, List.append_assoc, List.cons_append,
    List.cons_append, readMember, hRead]
  cases kind with
  | classDecl =>
      show readTypeDecl .classDecl modifiers _ = _
      rw [readTypeDecl, hParams, hBody]
      rfl
  | interfaceDecl =>
      show readTypeDecl .interfaceDecl modifiers _ = _
      rw [readTypeDecl, hParams, hBody]
      rfl
  | enumDecl =>
      show readTypeDecl .enumDecl modifiers _ = _
      rw [readTypeDecl, hBody]
      rfl

/-- The names of constants between commas. -/
theorem readConstants_words (constants : List String) :
    (splitCommas (words (constantTokens constants))).filterMap readConstant = constants := by
  have hRest : ∀ constants : List String,
      splitCommas (words (constants.flatMap fun constant =>
          [Terminal.comma.token, nameToken constant])) =
        [] :: constants.map fun constant => [.word (nameToken constant)] := by
    intro constants
    induction constants with
    | nil => rfl
    | cons constant constants ih =>
        rw [List.flatMap_cons, List.cons_append, List.cons_append, List.nil_append, words_cons,
          words_cons]
        have hComma : (Node.word Terminal.comma.token).isWord .comma = true := rfl
        rw [splitCommas, if_pos hComma, splitCommas_other rfl ih]
        rfl
  cases constants with
  | nil => rfl
  | cons first constants =>
      have hTokens : constantTokens (first :: constants) =
          nameToken first ::
            constants.flatMap fun constant => [Terminal.comma.token, nameToken constant] := by
        simp [constantTokens, listed, List.flatMap_map]
      have hSplit : splitCommas (words (constantTokens (first :: constants))) =
          (first :: constants).map fun constant => [.word (nameToken constant)] := by
        rw [hTokens, words_cons, splitCommas_other rfl (hRest constants)]
        rfl
      rw [hSplit, List.filterMap_map]
      exact List.filterMap_some

/-- What the fields and the types in a body declare together. -/
theorem bodyOf_members (fields : List FieldDecl) (types : List TypeDecl) :
    bodyOf (fields.map (fun field => .fields [field]) ++ types.map .type) =
      ⟨fields, [], types⟩ := by
  have hFields :
      (bodyOf (fields.map (fun field => .fields [field]) ++ types.map .type)).fields = fields := by
    show List.flatMap _ _ = _
    rw [List.flatMap_append, List.flatMap_map, List.flatMap_map]
    simp
  have hTypes :
      (bodyOf (fields.map (fun field => .fields [field]) ++ types.map .type)).types = types := by
    show List.filterMap _ _ = _
    rw [List.filterMap_append, List.filterMap_map, List.filterMap_map]
    simp
  calc bodyOf (fields.map (fun field => .fields [field]) ++ types.map .type)
      = ⟨(bodyOf (fields.map (fun field => .fields [field]) ++ types.map .type)).fields, [],
          (bodyOf (fields.map (fun field => .fields [field]) ++ types.map .type)).types⟩ := rfl
    _ = ⟨fields, [], types⟩ := by rw [hFields, hTypes]

/-- The members of a body are read back, if the types among them are. -/
private theorem readClassBody_members {decl : TypeDecl} (h : decl.IsWritable)
    (hTypes : ∀ inner ∈ decl.types, readMember (memberItems inner.tokens) = .type inner) :
    readClassBody (outline decl.members.flatten) = ⟨decl.fields, [], decl.types⟩ := by
  have hMembers : decl.members.map (fun part => readMember (memberItems part)) =
      decl.fields.map (fun field => .fields [field]) ++ decl.types.map .type := by
    cases h with
    | intro hShaped _ =>
        rw [TypeDecl.members, List.map_append, List.map_map, List.map_map]
        congr 1
        · apply List.map_congr_left
          exact fun field mem => readMember_field (hShaped.fields field mem)
        · apply List.map_congr_left
          exact fun inner mem => hTypes inner mem
  rw [readClassBody_outline fun part mem => isMember_of_yields (h.yields_members part mem),
    hMembers, bodyOf_members]

theorem balanced_content {kind : DeclKind} (constants : List String)
    {members : List (List Token)} (h : ∀ member ∈ members, (Expr.rule .member).Yields member) :
    Balanced (terminals (contentTokens kind constants members)) := by
  obtain ⟨opening, inner, closing, hTokens, _, hInner, _⟩ :=
    Rule.yields_of_wraps kind.wraps_body (yields_body constants h)
  injection hTokens with _ hTokens
  rw [(List.append_inj' hTokens rfl).1]
  exact hInner

/-- **A written declaration is read back.** -/
theorem readMember_decl {decl : TypeDecl} (h : decl.IsWritable) :
    readMember (memberItems decl.tokens) = .type decl := by
  induction h with
  | @intro decl hShaped hTypes ih =>
      have hWritable : decl.IsWritable := .intro hShaped hTypes
      have hBody := readClassBody_members hWritable ih
      have hInner := @balanced_content decl.kind decl.enumConstants decl.members
        hWritable.yields_members
      rw [TypeDecl.tokens_eq, memberItems_of_declaration (yields_header _ _ hShaped.enum) rfl
        hInner rfl, outline_words fun token mem => (hShaped.isItem token mem).isFlat,
        readMember_header]
      by_cases hKind : decl.kind = .enumDecl
      · have hMembers : Balanced (terminals decl.members.flatten) :=
          (many_flatten hWritable.yields_members).balanced_of_nest rfl
        have hContent := readEnumBody_outline (yields_constantTokens decl.enumConstants)
          (rfl : Terminal.semicolon.token.terminal = .semicolon) hMembers
        have hConstants := isItem_constantTokens hShaped.enumConstants
        have hParams := hShaped.enum hKind
        rw [if_pos hKind, if_pos hKind, hKind, contentTokens, hContent, hBody,
          outline_words fun token mem => (hConstants token mem).isFlat, readConstants_words]
        cases decl
        cases hKind
        cases hParams
        rfl
      · have hContent : contentTokens decl.kind decl.enumConstants decl.members =
            decl.members.flatten := by
          cases hOther : decl.kind with
          | classDecl => rfl
          | interfaceDecl => rfl
          | enumDecl => exact absurd hOther hKind
        have hConstants := hShaped.other hKind
        rw [if_neg hKind, if_neg hKind, hContent, hBody]
        cases decl
        cases hConstants
        rfl

/-! ## Sources -/

/-- The name of a word that is one. -/
private def nameOf : Node → Option String
  | .word token => if token.terminal = .identifier then some token.text else none
  | _ => none

private theorem filterMap_others {tokens : List Token}
    (h : ∀ token ∈ tokens, token.terminal ≠ .identifier) :
    (words tokens).filterMap nameOf = [] := by
  rw [List.filterMap_eq_nil_iff]
  intro node mem
  obtain ⟨token, mem_token, rfl⟩ := List.mem_map.mp mem
  exact if_neg (h token mem_token)

private theorem filterMap_dottedTokens (name : String) :
    (words (dottedTokens name)).filterMap nameOf = Dotted.segments name := by
  obtain ⟨first, rest, hSegments⟩ := exists_segments name
  have hRest : ∀ rest : List String,
      (words (rest.flatMap fun segment => [Terminal.dot.token, nameToken segment])).filterMap
        nameOf = rest := by
    intro rest
    induction rest with
    | nil => rfl
    | cons segment rest ih =>
        rw [List.flatMap_cons, words_append, List.filterMap_append, ih]
        rfl
  have hFirst : nameOf (.word (nameToken first)) = some first := rfl
  rw [dottedTokens_eq hSegments, hSegments, words_cons, List.filterMap_cons_some hFirst, hRest]

/-- A name is read from its tokens, when no other names stand around it. -/
theorem readName_words {front back : List Token} (name : String)
    (hFront : ∀ token ∈ front, token.terminal ≠ .identifier)
    (hBack : ∀ token ∈ back, token.terminal ≠ .identifier) :
    readName (words (front ++ (dottedTokens name ++ back))) = name := by
  have hNames : (words (front ++ (dottedTokens name ++ back))).filterMap nameOf =
      Dotted.segments name := by
    rw [words_append, words_append, List.filterMap_append, List.filterMap_append,
      filterMap_others hFront, filterMap_others hBack, filterMap_dottedTokens, List.nil_append,
      List.append_nil]
  show ".".intercalate (List.filterMap nameOf _) = name
  rw [hNames, intercalate_segments]

private theorem terminal_dottedTokens (name : String) :
    ∀ token ∈ dottedTokens name, token.terminal = .identifier ∨ token.terminal = .dot := by
  obtain ⟨first, rest, hSegments⟩ := exists_segments name
  rw [dottedTokens_eq hSegments, List.forall_mem_cons]
  refine ⟨.inl rfl, ?_⟩
  intro token mem
  obtain ⟨segment, _, mem⟩ := List.mem_flatMap.mp mem
  rcases List.mem_cons.mp mem with rfl | mem
  · exact .inr rfl
  · rw [List.mem_singleton.mp mem]
    exact .inl rfl

/-- No other word stands in a name. -/
private theorem any_dottedTokens {terminal : Terminal} (hName : terminal ≠ .identifier)
    (hDot : terminal ≠ .dot) (name : String) (front back : List Token) :
    (words (front ++ (dottedTokens name ++ back))).any (·.isWord terminal) =
      ((words front).any (·.isWord terminal) || (words back).any (·.isWord terminal)) := by
  have hNone : (words (dottedTokens name)).any (·.isWord terminal) = false := by
    rw [List.any_eq_false]
    intro node mem
    obtain ⟨token, mem_token, rfl⟩ := List.mem_map.mp mem
    rcases terminal_dottedTokens name token mem_token with hToken | hToken
    · simp [Node.isWord, hToken, hName.symm]
    · simp [Node.isWord, hToken, hDot.symm]
  rw [words_append, words_append, List.any_append, List.any_append, hNone, Bool.false_or]

theorem readMember_import {imported : Import} (h : IsDottedName imported.name) :
    readMember (memberItems imported.tokens) = .importing imported := by
  rw [Import.tokens, memberItems_words fun token mem => (isItem_import h token mem).isFlat]
  obtain ⟨name, isStatic, isWildcard⟩ := imported
  have hRead : ∀ front back : List Token, (∀ token ∈ front, token.terminal ≠ .identifier) →
      (∀ token ∈ back, token.terminal ≠ .identifier) →
      readMember (words (Terminal.importWord.token :: (front ++ (dottedTokens name ++ back)))) =
        .importing ⟨name,
          (words front).any (·.isWord .staticWord) || (words back).any (·.isWord .staticWord),
          (words front).any (·.isWord .star) || (words back).any (·.isWord .star)⟩ := by
    intro front back hFront hBack
    rw [← any_dottedTokens (by decide) (by decide) name front back,
      ← any_dottedTokens (by decide) (by decide) name front back]
    show Member.importing ⟨readName (words _), _, _⟩ = _
    rw [readName_words name hFront hBack]
    rfl
  rw [Import.headTokens, hRead]
  · cases isStatic <;> cases isWildcard <;> rfl
  · cases isStatic
    · simp
    · simp [Terminal.token, Token.plain]
  · cases isWildcard
    · simp
    · simp [Terminal.token, Token.plain]

/-- The members that a package makes. -/
private theorem readMember_package {name : String} (h : name = "" ∨ IsDottedName name) :
    (packageTokens name).map (fun part => readMember (memberItems part)) =
      if name = "" then [] else [.package name] := by
  unfold packageTokens
  by_cases hEmpty : name = ""
  · rw [if_pos hEmpty, if_pos hEmpty]
    rfl
  · have hDotted : IsDottedName name := h.resolve_left hEmpty
    have hFlat : ∀ token ∈ Terminal.packageWord.token :: dottedTokens name,
        token.terminal.isFlat = true := by
      rw [List.forall_mem_cons]
      exact ⟨by decide, fun token mem => (isItem_dottedTokens hDotted token mem).isFlat⟩
    have hRead := @readName_words [] [] name (by simp) (by simp)
    rw [List.nil_append, List.append_nil] at hRead
    rw [if_neg hEmpty, if_neg hEmpty, List.map_singleton, memberItems_words hFlat]
    show [Member.package (readName (words (dottedTokens name)))] = _
    rw [hRead]

private theorem isMember_parts {file : SourceFile} (h : file.IsWritable) :
    ∀ part ∈ file.parts, IsMember part := by
  intro part mem
  rcases List.mem_append.mp mem with mem | mem
  · have hPackage := yields_packageTokens file.package
    unfold packageTokens at mem hPackage
    by_cases hEmpty : file.package = ""
    · rw [if_pos hEmpty] at mem
      cases mem
    · rw [if_neg hEmpty] at mem hPackage
      rw [List.flatten_singleton, optional_iff] at hPackage
      rw [List.mem_singleton.mp mem]
      exact isMember_of_yields_packageDeclaration (hPackage.resolve_left (List.cons_ne_nil _ _))
  rcases List.mem_append.mp mem with mem | mem
  · obtain ⟨imported, _, rfl⟩ := List.mem_map.mp mem
    exact isMember_of_yields_importDeclaration (yields_import imported)
  · obtain ⟨decl, mem_decl, rfl⟩ := List.mem_map.mp mem
    exact isMember_declaration (h.types decl mem_decl).yields

/-- What the members of a source declare together. -/
theorem sourceOf_members (name : String) (imports : List Import) (types : List TypeDecl) :
    sourceOf ((if name = "" then [] else [.package name]) ++
      (imports.map .importing ++ types.map .type)) = ⟨name, imports, types⟩ := by
  have hPackage : (sourceOf ((if name = "" then [] else [.package name]) ++
      (imports.map .importing ++ types.map .type))).package = name := by
    show (List.findSome? _ _).getD "" = name
    rw [List.findSome?_append]
    by_cases hEmpty : name = ""
    · have hImports : imports.findSome? (fun _ => (none : Option String)) = none :=
        List.findSome?_eq_none_iff.mpr fun _ _ => rfl
      have hTypes : types.findSome? (fun _ => (none : Option String)) = none :=
        List.findSome?_eq_none_iff.mpr fun _ _ => rfl
      rw [if_pos hEmpty, hEmpty]
      simp [List.findSome?_append, List.findSome?_map, Function.comp_def, hImports, hTypes]
    · rw [if_neg hEmpty]
      rfl
  have hImports : (sourceOf ((if name = "" then [] else [.package name]) ++
      (imports.map .importing ++ types.map .type))).imports = imports := by
    show List.filterMap _ _ = _
    rw [List.filterMap_append, List.filterMap_append, List.filterMap_map, List.filterMap_map]
    by_cases hEmpty : name = "" <;> simp [hEmpty]
  have hTypes : (sourceOf ((if name = "" then [] else [.package name]) ++
      (imports.map .importing ++ types.map .type))).types = types := by
    show List.filterMap _ _ = _
    rw [List.filterMap_append, List.filterMap_append, List.filterMap_map, List.filterMap_map]
    by_cases hEmpty : name = "" <;> simp [hEmpty]
  calc sourceOf ((if name = "" then [] else [.package name]) ++
        (imports.map .importing ++ types.map .type))
      = ⟨(sourceOf ((if name = "" then [] else [.package name]) ++
            (imports.map .importing ++ types.map .type))).package,
          (sourceOf ((if name = "" then [] else [.package name]) ++
            (imports.map .importing ++ types.map .type))).imports,
          (sourceOf ((if name = "" then [] else [.package name]) ++
            (imports.map .importing ++ types.map .type))).types⟩ := rfl
    _ = ⟨name, imports, types⟩ := by rw [hPackage, hImports, hTypes]

/-- **A written source is read back.** -/
theorem readSource_tokens {file : SourceFile} (h : file.IsWritable) :
    readSource file.tokens = file := by
  have hImports : (file.imports.map Import.tokens).map (fun part =>
      readMember (memberItems part)) = file.imports.map .importing := by
    rw [List.map_map]
    apply List.map_congr_left
    exact fun imported mem => readMember_import (h.imports imported mem)
  have hTypes : (file.types.map TypeDecl.tokens).map (fun part =>
      readMember (memberItems part)) = file.types.map .type := by
    rw [List.map_map]
    apply List.map_congr_left
    exact fun decl mem => readMember_decl (h.types decl mem)
  have hParts : file.parts.map (fun part => readMember (memberItems part)) =
      (if file.package = "" then [] else [.package file.package]) ++
        (file.imports.map .importing ++ file.types.map .type) := by
    rw [SourceFile.parts, List.map_append, List.map_append, readMember_package h.package, hImports,
      hTypes]
  rw [readSource, SourceFile.tokens, splitMembers_outline (isMember_parts h), List.map_map]
  show sourceOf (file.parts.map fun part => readMember (memberItems part)) = _
  rw [hParts, sourceOf_members]

/-- **Parsing undoes writing.** -/
theorem parse_rendered {file : SourceFile} (h : file.IsWritable) :
    parse file.rendered = .ok file := by
  obtain ⟨hTokens, hEnd⟩ := tokenize_spell h.isWritten
  have hBare : (tokenize file.rendered).1.map Token.bare = file.tokens.map Token.bare := by
    rw [← hTokens, List.map_map]
    rfl
  rw [SourceFile.rendered, parse_eq_ok_of_bare hEnd hBare h.isSentence, readSource_tokens h]

/-! ### A class with an enum inside -/

def namedType (name : String) : TypeName := ⟨name, [], 0⟩

/-- Lists of arrays with two dimensions, under names. -/
def slotsType : TypeName := ⟨"Map.Entry", [namedType "String", ⟨"List", [⟨"T", [], 2⟩], 0⟩], 1⟩

def genreDecl : TypeDecl :=
  ⟨.enumDecl, "Genre", [], ["static"], [⟨"code", namedType "int", none, []⟩], ["POEM", "NOVEL"], []⟩

def shelfDecl : TypeDecl :=
  ⟨.classDecl, "Shelf", ["T", "U"], ["public", "non-sealed"],
    [⟨"slots", slotsType, some "/** d */", ["private", "final"]⟩,
      ⟨"width", namedType "int", none, []⟩], [], [genreDecl]⟩

def shelfFile : SourceFile := ⟨"a.b", [⟨"java.util", true, true⟩], [shelfDecl]⟩

private theorem namedType_isWritable {name : String} (h : IsDottedName name) :
    (namedType name).IsWritable :=
  .intro h (fun _ mem => nomatch mem)

private theorem genreDecl_isWritable : genreDecl.IsWritable := by
  have hField : FieldDecl.IsWritable ⟨"code", namedType "int", none, []⟩ := {
    name := by decide +kernel
    type := namedType_isWritable (by decide +kernel)
    docComment := by decide +kernel
    modifiers := by decide +kernel }
  refine .intro ?_ (fun _ mem => nomatch mem)
  exact {
    name := by decide +kernel
    typeParams := by decide +kernel
    modifiers := by decide +kernel
    fields := List.forall_mem_singleton.mpr hField
    enumConstants := by decide +kernel
    enum := by decide +kernel
    other := by decide +kernel }

private theorem slotsType_isWritable : slotsType.IsWritable := by
  have hName : (namedType "String").IsWritable := namedType_isWritable (by decide +kernel)
  have hArray : TypeName.IsWritable ⟨"T", [], 2⟩ :=
    .intro (by decide +kernel) (fun _ mem => nomatch mem)
  have hList : TypeName.IsWritable ⟨"List", [⟨"T", [], 2⟩], 0⟩ :=
    .intro (by decide +kernel) (List.forall_mem_singleton.mpr hArray)
  exact .intro (by decide +kernel)
    (List.forall_mem_cons.mpr ⟨hName, List.forall_mem_singleton.mpr hList⟩)

private theorem shelfDecl_isWritable : shelfDecl.IsWritable := by
  have hSlots :
      FieldDecl.IsWritable ⟨"slots", slotsType, some "/** d */", ["private", "final"]⟩ := {
    name := by decide +kernel
    type := slotsType_isWritable
    docComment := by decide +kernel
    modifiers := by decide +kernel }
  have hWidth : FieldDecl.IsWritable ⟨"width", namedType "int", none, []⟩ := {
    name := by decide +kernel
    type := namedType_isWritable (by decide +kernel)
    docComment := by decide +kernel
    modifiers := by decide +kernel }
  refine .intro ?_ (List.forall_mem_singleton.mpr genreDecl_isWritable)
  exact {
    name := by decide +kernel
    typeParams := by decide +kernel
    modifiers := by decide +kernel
    fields := List.forall_mem_cons.mpr ⟨hSlots, List.forall_mem_singleton.mpr hWidth⟩
    enumConstants := by decide +kernel
    enum := by decide +kernel
    other := by decide +kernel }

theorem parse_shelfFile : shelfFile.IsWritable ∧ parse shelfFile.rendered = .ok shelfFile := by
  have hFile : shelfFile.IsWritable := {
    package := by decide +kernel
    imports := by decide +kernel
    types := List.forall_mem_singleton.mpr shelfDecl_isWritable }
  exact ⟨hFile, parse_rendered hFile⟩

end ClassSchema.Java
