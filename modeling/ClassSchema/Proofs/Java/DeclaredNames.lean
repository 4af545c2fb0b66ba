import ClassSchema.Proofs.Java.Ambiguity

/-!
# Names of declarations

A reader takes whatever word stands behind a keyword for the name of a type.  In an
accepted source that word is a name: nothing else is derived at this place, however
the rest of the source is derived.  Names are not empty and hold no dots.

The same holds for the types in the body of a type.  Bodies of methods are read as
well, but what they would declare is never looked at.

## Main results

* `isIdentifier_of_mem_tokenize`: what the names in a source look like.
* `isIdentifier_of_mem_names`: the types that a source declares have names.
-/

namespace ClassSchema.Java

/-! ## Names among the tokens -/

/-- A text that starts as a name does and goes on like one. -/
def IsIdentifier (name : String) : Prop :=
  ∃ c rest, name.toList = c :: rest ∧ isNameStart c = true ∧ ∀ d ∈ rest, isNamePart d = true

namespace IsIdentifier

variable {name : String}

theorem ne_empty (h : IsIdentifier name) : name ≠ "" := by
  obtain ⟨c, rest, hName, _⟩ := h
  rintro rfl
  cases hName

theorem dot_notMem (h : IsIdentifier name) : '.' ∉ name.toList := by
  obtain ⟨c, rest, hName, hStart, hRest⟩ := h
  have hDotStart : isNameStart '.' = false := by decide +kernel
  have hDotPart : isNamePart '.' = false := by decide +kernel
  rw [hName]
  intro mem
  rcases List.mem_cons.mp mem with rfl | mem
  · rw [hDotStart] at hStart
    cases hStart
  · have hDot := hRest _ mem
    rw [hDotPart] at hDot
    cases hDot

end IsIdentifier

/-- What is matched as a name starts as a name and goes on while it can. -/
theorem matchAt_identifier {c : Char} {rest : List Char} {more : Nat}
    (h : matchAt c rest = some (.token .identifier, more)) :
    isNameStart c = true ∧ more = run isNamePart rest := by
  have hKeywords : ∀ entry ∈ keywords, entry.2 ≠ .identifier := by decide
  have hMarks : ∀ entry ∈ punctuation, entry.2 ≠ .identifier := by decide
  have hQuotes : ∀ entry ∈ quotes, entry.2 ≠ .identifier := by decide
  cases starts_of_matchAt h with
  | name hStart => exact ⟨hStart, rfl⟩
  | keyword hKeyword => exact absurd rfl (hKeywords _ (mem_of_lookup hKeyword))
  | closed _ _ _ hKind => exact absurd hKind (closedCommentKind_ne_token _ _)
  | quoted hQuote _ => exact absurd rfl (hQuotes _ hQuote)
  | mark hMark => exact absurd rfl (hMarks _ hMark)

/-- Every lexeme is what is matched at its first character. -/
theorem matchAt_of_mem_lexemesFrom {place : Text.Place} {text : List Char} {lexeme : Lexeme}
    (mem : lexeme ∈ (lexemesFrom place text).1) :
    ∃ c rest more, matchAt c rest = some (lexeme.kind, more) ∧
      lexeme.text = c :: rest.take more := by
  fun_induction lexemesFrom place text with
  | case1 => cases mem
  | case2 => cases mem
  | case3 place c rest kind more hMatch _ lexemes _ split ih =>
      rcases List.mem_cons.mp mem with rfl | mem
      · exact ⟨c, rest, more, hMatch, rfl⟩
      · rw [split] at ih
        exact ih mem

/-- Every token is one of the lexemes. -/
theorem exists_of_mem_tokensOf {doc : Option String} {lexemes : List Lexeme} {token : Token}
    (mem : token ∈ tokensOf doc lexemes) :
    ∃ lexeme ∈ lexemes, lexeme.kind = .token token.terminal ∧
      token.text = String.ofList lexeme.text := by
  induction lexemes generalizing doc with
  | nil => cases mem
  | cons lexeme rest ih =>
      have later {doc : Option String} (mem : token ∈ tokensOf doc rest) :
          ∃ found ∈ lexeme :: rest, found.kind = .token token.terminal ∧
            token.text = String.ofList found.text := by
        obtain ⟨found, hFound, hKind, hText⟩ := ih mem
        exact ⟨found, by simp [hFound], hKind, hText⟩
      simp only [tokensOf] at mem
      split at mem
      · next terminal hKind =>
          rcases List.mem_cons.mp mem with rfl | mem
          · exact ⟨lexeme, by simp, hKind, rfl⟩
          · exact later mem
      · exact later mem
      · exact later mem
      · exact later mem

/-- **The names in a source** start as names do and go on like names. -/
theorem isIdentifier_of_mem_tokenize {source : List Char} {token : Token}
    (mem : token ∈ (tokenize source).1) (h : token.terminal = .identifier) :
    IsIdentifier token.text := by
  obtain ⟨lexeme, hLexeme, hKind, hText⟩ := exists_of_mem_tokensOf mem
  obtain ⟨c, rest, more, hMatch, hCharacters⟩ := matchAt_of_mem_lexemesFrom hLexeme
  rw [hKind, h] at hMatch
  obtain ⟨hStart, rfl⟩ := matchAt_identifier hMatch
  refine ⟨c, rest.takeWhile isNamePart, ?_, hStart, fun d hd => List.mem_takeWhile_imp hd⟩
  rw [hText, hCharacters, String.toList_ofList, run]
  congr 1
  exact (List.prefix_iff_eq_take.mp (List.takeWhile_prefix isNamePart)).symm

/-! ## Names of types -/

mutual

/-- The names of a declaration and of the declarations in it. -/
def TypeDecl.names : TypeDecl → List String
  | ⟨_, name, _, _, _, _, types⟩ => name :: TypeDecl.allNames types

/-- The names of declarations and of the declarations in them. -/
def TypeDecl.allNames : List TypeDecl → List String
  | [] => []
  | decl :: rest => decl.names ++ TypeDecl.allNames rest

end

theorem TypeDecl.names_eq (decl : TypeDecl) :
    decl.names = decl.name :: TypeDecl.allNames decl.types := by
  cases decl
  rw [TypeDecl.names]

theorem TypeDecl.mem_allNames {decls : List TypeDecl} {name : String} :
    name ∈ TypeDecl.allNames decls ↔ ∃ decl ∈ decls, name ∈ decl.names := by
  induction decls with
  | nil => simp [TypeDecl.allNames]
  | cons decl rest ih => simp [TypeDecl.allNames, ih]

/-- The names of all declarations in a source. -/
def SourceFile.names (source : SourceFile) : List String := TypeDecl.allNames source.types

/-- A name that stands among tokens. -/
def Names (tokens : List Token) (name : String) : Prop :=
  ∃ token ∈ tokens, token.terminal = .identifier ∧ token.text = name

theorem Names.mono {tokens others : List Token} {name : String} (h : Names tokens name)
    (subset : tokens ⊆ others) : Names others name := by
  obtain ⟨token, mem, hToken⟩ := h
  exact ⟨token, subset mem, hToken⟩

/-- The types that one member declares have names that stand among its tokens. -/
def NamesMember (tokens : List Token) : Prop :=
  IsMember tokens ∧ ∀ declaration, readMember (memberItems tokens) = .type declaration →
    ∀ name ∈ declaration.names, Names tokens name

/-- Members whose types have names that stand among the tokens. -/
theorem names_of_parts {parts : List (List Token)} (each : ∀ part ∈ parts, NamesMember part) :
    ∀ name ∈ TypeDecl.allNames (bodyOf (parts.map fun part => readMember (memberItems part))).types,
      Names parts.flatten name := by
  intro name mem
  obtain ⟨declaration, hDeclaration, hName⟩ := TypeDecl.mem_allNames.mp mem
  obtain ⟨member, hMember, hType⟩ := List.mem_filterMap.mp hDeclaration
  obtain ⟨part, hPart, rfl⟩ := List.mem_map.mp hMember
  have hRead : readMember (memberItems part) = .type declaration := by
    revert hType
    cases readMember (memberItems part) <;> simp
  exact ((each part hPart).2 declaration hRead name hName).mono
    fun token mem => List.mem_flatten_of_mem hPart mem

open ClassSchema.Java.Expr Expr.Yields

/-- Members of fewer tokens declare types with names that stand among the tokens. -/
private def NamesBelow (bound : Nat) : Prop :=
  ∀ tokens, tokens.length < bound → (many (rule .member)).Yields tokens →
    ∀ name ∈ TypeDecl.allNames (readClassBody (outline tokens)).types, Names tokens name

/-- The types in the body of a type are those that its members declare. -/
private theorem names_body {bound : Nat} (hBelow : NamesBelow bound) (kind : DeclKind)
    {tokens : List Token} (hLength : tokens.length ≤ bound) (h : (rule kind.body).Yields tokens) :
    ∃ opening inner closing, tokens = opening :: inner ++ [closing] ∧
      opening.terminal = .leftBrace ∧ Balanced (terminals inner) ∧
      closing.terminal = .rightBrace ∧
      ∀ name ∈ TypeDecl.allNames (if kind = .enumDecl then readEnumBody (outline inner)
        else readClassBody (outline inner)).types, Names inner name := by
  have ofClass (h : (rule .classBody).Yields tokens) : ∃ opening inner closing,
      tokens = opening :: inner ++ [closing] ∧ opening.terminal = .leftBrace ∧
        Balanced (terminals inner) ∧ closing.terminal = .rightBrace ∧
        ∀ name ∈ TypeDecl.allNames (readClassBody (outline inner)).types, Names inner name := by
    obtain ⟨opening, inner, closing, rfl, hOpening, hInner, hClosing⟩ := yields_classBody_iff.mp h
    simp only [List.length_append, List.length_cons, List.length_nil] at hLength
    exact ⟨opening, inner, closing, rfl, hOpening, hInner.balanced_of_nest rfl, hClosing,
      hBelow inner (by omega) hInner⟩
  cases kind with
  | classDecl => simpa using ofClass h
  | interfaceDecl => simpa using ofClass h
  | enumDecl =>
      obtain ⟨opening, constants, members, closing, rfl, hOpening, hConstants, hMembers,
        hClosing⟩ := yields_enumBody_iff.mp h
      have hInner : Balanced (terminals (constants ++ members)) := by
        rw [terminals_append]
        exact (hConstants.balanced_of_nest rfl).append (hMembers.balanced_of_nest rfl)
      refine ⟨opening, constants ++ members, closing, rfl, hOpening, hInner, hClosing, ?_⟩
      rw [if_pos rfl]
      rcases optional_iff.mp hMembers with rfl | hMembers
      · rw [List.append_nil, readEnumBody_constants hConstants]
        intro name mem
        cases mem
      · obtain ⟨_, list, rfl, hFirst, hList⟩ := sequence_iff.mp (rule_iff.mp hMembers)
        obtain ⟨semicolon, rfl, hSemicolon⟩ := terminal_iff.mp hFirst
        simp only [List.length_append, List.length_cons, List.length_nil] at hLength
        rw [List.singleton_append, readEnumBody_outline hConstants hSemicolon
          (hList.balanced_of_nest rfl)]
        intro name mem
        exact (hBelow list (by omega) hList name mem).mono (by simp)

private theorem namesMember_declaration {bound : Nat} (hBelow : NamesBelow bound) (kind : DeclKind)
    {tokens : List Token} (hLength : tokens.length ≤ bound)
    (h : (rule kind.declaration).Yields tokens) : NamesMember tokens := by
  refine ⟨isMember_declaration h, fun declaration hDeclaration name mem => ?_⟩
  obtain ⟨d, rfl⟩ := Derivation.exists_of_yields h
  obtain ⟨heads⟩ := d.exists_heads kind
  rw [heads.tokens_eq] at hLength ⊢
  rw [List.length_append] at hLength
  obtain ⟨opening, inner, closing, hContent, hOpening, hInner, hClosing, inside⟩ :=
    names_body hBelow kind (by omega) heads.content.yields
  have hRead := heads.readMember_eq hContent hOpening hInner hClosing
  rw [hDeclaration] at hRead
  cases hRead
  rw [TypeDecl.names_eq] at mem
  rcases List.mem_cons.mp mem with rfl | mem
  · exact ⟨heads.name, by simp [heads.name_mem], heads.name_eq, rfl⟩
  · refine (inside name mem).mono fun token hToken => ?_
    simp [hContent, hToken]

/-- A member that declares no type names none. -/
private theorem namesMember_of_ne {tokens : List Token} (hMember : IsMember tokens)
    (h : ∀ declaration, readMember (memberItems tokens) ≠ .type declaration) :
    NamesMember tokens :=
  ⟨hMember, fun declaration hDeclaration => absurd hDeclaration (h declaration)⟩

private theorem namesMember_of_nothing {r : Rule} (hPlain : r.isPlain = true)
    (hPassed : r.isPassed = true) {tokens : List Token} (hMember : IsMember tokens)
    (h : (rule r).Yields tokens) : NamesMember tokens := by
  obtain ⟨d, rfl⟩ := Derivation.exists_of_yields h
  refine namesMember_of_ne hMember fun declaration hDeclaration => ?_
  rw [d.readMember_nothing hPlain hPassed hMember] at hDeclaration
  cases hDeclaration

private theorem namesMember_semicolon {tokens : List Token} (hMember : IsMember tokens)
    (h : (terminal .semicolon).Yields tokens) : NamesMember tokens := by
  obtain ⟨token, rfl, hToken⟩ := terminal_iff.mp h
  have hWhole : IsMember ([] ++ [token]) := hMember
  have hItems := hWhole.items_of_semicolon .nil hToken
  refine namesMember_of_ne hMember fun declaration hDeclaration => ?_
  rw [← List.nil_append [token], hItems] at hDeclaration
  cases hDeclaration

/-- A member in a body names its types, if the members inside it do. -/
private theorem namesMember_member {bound : Nat} (hBelow : NamesBelow bound) {tokens : List Token}
    (hLength : tokens.length ≤ bound) (h : (rule .member).Yields tokens) : NamesMember tokens := by
  have hMember := isMember_of_yields h
  have hRule := rule_iff.mp h
  simp only [Rule.body, oneOf, choice_iff] at hRule
  rcases hRule with h | h | h | h | h | h | h | h | h
  · obtain ⟨d, rfl⟩ := Derivation.exists_of_yields h
    exact namesMember_of_ne hMember (d.readMember_field_ne_type hMember)
  · exact namesMember_of_nothing rfl rfl hMember h
  · exact namesMember_of_nothing rfl rfl hMember h
  · exact namesMember_of_nothing rfl rfl hMember h
  · exact namesMember_declaration hBelow .classDecl hLength h
  · exact namesMember_declaration hBelow .interfaceDecl hLength h
  · exact namesMember_declaration hBelow .enumDecl hLength h
  · exact namesMember_of_nothing rfl rfl hMember h
  · exact namesMember_semicolon hMember h

private theorem namesBelow (bound : Nat) : NamesBelow bound := by
  induction bound with
  | zero => exact fun _ hLength => absurd hLength (Nat.not_lt_zero _)
  | succ bound ih =>
      intro tokens hLength h
      obtain ⟨parts, rfl, each⟩ := many_iff.mp h
      have named : ∀ part ∈ parts, NamesMember part := by
        intro part mem
        have hPart : part.length ≤ parts.flatten.length :=
          (List.sublist_flatten_of_mem mem).length_le
        exact namesMember_member ih (by omega) (each part mem)
      rw [readClassBody_outline fun part mem => (named part mem).1]
      exact names_of_parts named

/-- What stands at top level names its types. -/
private theorem namesMember_typeDeclaration {tokens : List Token}
    (h : (rule .typeDeclaration).Yields tokens) : NamesMember tokens := by
  have hMember := isMember_of_yields_typeDeclaration h
  have hBelow := namesBelow tokens.length
  have hRule := rule_iff.mp h
  simp only [Rule.body, oneOf, choice_iff] at hRule
  rcases hRule with h | h | h | h | h
  · exact namesMember_declaration hBelow .classDecl (Nat.le_refl _) h
  · exact namesMember_declaration hBelow .interfaceDecl (Nat.le_refl _) h
  · exact namesMember_declaration hBelow .enumDecl (Nat.le_refl _) h
  · exact namesMember_of_nothing rfl rfl hMember h
  · exact namesMember_semicolon hMember h

/-- A sentence is a package declaration, imports and types, each of which names its types. -/
private theorem exists_namesMember {tokens : List Token}
    (h : (rule .compilationUnit).Yields tokens) :
    ∃ parts : List (List Token), tokens = parts.flatten ∧ ∀ part ∈ parts, NamesMember part := by
  obtain ⟨package, _, rfl, hPackage, hBehind⟩ := sequence_iff.mp (rule_iff.mp h)
  obtain ⟨imports, types, rfl, hImports, hTypes⟩ := sequence_iff.mp hBehind
  obtain ⟨importParts, rfl, eachImport⟩ := many_iff.mp hImports
  obtain ⟨typeParts, rfl, eachType⟩ := many_iff.mp hTypes
  obtain ⟨packageParts, rfl, eachPackage⟩ : ∃ parts : List (List Token), package = parts.flatten ∧
      ∀ part ∈ parts, NamesMember part := by
    rcases optional_iff.mp hPackage with rfl | hPackage
    · exact ⟨[], rfl, by simp⟩
    · have hMember := isMember_of_yields_packageDeclaration hPackage
      obtain ⟨d, rfl⟩ := Derivation.exists_of_yields hPackage
      obtain ⟨name, _, hRead⟩ := d.readMember_package
      refine ⟨[d.tokens], by simp, ?_⟩
      simpa using namesMember_of_ne hMember fun declaration => by simp [hRead]
  refine ⟨packageParts ++ (importParts ++ typeParts), by simp, fun part mem => ?_⟩
  rcases List.mem_append.mp mem with mem | mem
  · exact eachPackage part mem
  rcases List.mem_append.mp mem with mem | mem
  · have hMember := isMember_of_yields_importDeclaration (eachImport part mem)
    obtain ⟨d, rfl⟩ := Derivation.exists_of_yields (eachImport part mem)
    obtain ⟨imported, _, hRead⟩ := d.readMember_import
    exact namesMember_of_ne hMember fun declaration => by simp [hRead]
  · exact namesMember_typeDeclaration (eachType part mem)

/-- **The types that a source declares have names**, however deep they are. -/
theorem isIdentifier_of_mem_names {text : List Char} {source : SourceFile}
    (h : parse text = .ok source) : ∀ name ∈ source.names, IsIdentifier name := by
  obtain ⟨_, hSentence, rfl⟩ := parse_eq_ok_iff.mp h
  have hYields : (rule .compilationUnit).Yields (tokenize text).1 := hSentence
  obtain ⟨parts, hTokens, each⟩ := exists_namesMember hYields
  intro name mem
  have hTypes : (readSource (tokenize text).1).types =
      (bodyOf (parts.map fun part => readMember (memberItems part))).types := by
    rw [readSource, hTokens, splitMembers_outline fun part mem => (each part mem).1, List.map_map]
    rfl
  rw [SourceFile.names, hTypes] at mem
  obtain ⟨token, hToken, hKind, rfl⟩ := names_of_parts each name mem
  rw [← hTokens] at hToken
  exact isIdentifier_of_mem_tokenize hToken hKind

end ClassSchema.Java
