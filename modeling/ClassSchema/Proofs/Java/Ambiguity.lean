import ClassSchema.Proofs.Java.DerivedBodies
import ClassSchema.Proofs.Java.Lexing
import ClassSchema.Proofs.Java.SkippedCode

/-!
# The grammar is ambiguous, but not about declarations

An annotation in front of a field may be a modifier or a part of its type, a
constructor may be taken for a method, and a comma may separate declarators or stand
in an initializer.  The derivations with the most declarators agree on what they
mean all the same, and reading gives what they mean.

## Main results

* `best_derivations_agree`: best derivations of the same tokens mean the same source,
  which is the one that is parsed.
-/

namespace ClassSchema.Java

/-! ## Sources -/

/-- The package that a member names. -/
def Member.package? : Member → Option String
  | package name => some name
  | _ => none

/-- The import that a member is. -/
def Member.importing? : Member → Option Import
  | importing imported => some imported
  | _ => none

/-- What members at top level say makes their source. -/
private theorem sourceOfValues_eq {values : List Value} {members : List Member}
    (h : values.filter Value.tells = members.flatMap Member.values) :
    sourceOfValues values = sourceOf members := by
  have hPicked : ∀ {β : Type} (pick : Value → Option β) (pickMember : Member → Option β),
      pick .nothing = none →
      (∀ member, member.values.filterMap pick = (pickMember member).toList) →
        values.filterMap pick = members.filterMap pickMember := by
    intro β pick pickMember hNothing hMember
    rw [← filterMap_tells hNothing, h, filterMap_members pick pickMember hMember]
  have hPackages := hPicked Value.package? Member.package? rfl
    (by intro member; cases member <;> rfl)
  have hPackage : values.findSome? Value.package? = members.findSome? Member.package? := by
    rw [← List.head?_filterMap, hPackages, List.head?_filterMap]
  have hImports := hPicked Value.importing? Member.importing? rfl
    (by intro member; cases member <;> rfl)
  have hTypes := hPicked Value.declaration? Member.declaration? rfl Member.filterMap_declaration?
  calc sourceOfValues values
      = ⟨(members.findSome? Member.package?).getD "", members.filterMap Member.importing?,
          members.filterMap Member.declaration?⟩ := by
        rw [sourceOfValues, hPackage, hImports, hTypes]
    _ = sourceOf members := rfl

/-- The name that an item shows. -/
def Node.name? : Node → Option String
  | word token => if token.terminal = .identifier then some token.text else none
  | _ => none

theorem readName_eq (nodes : List Node) :
    readName nodes = ".".intercalate (nodes.filterMap Node.name?) := by
  rfl

namespace Derivation

/-- A qualified name is read as what it means. -/
private theorem values_qualifiedName (d : Derivation (.rule .qualifiedName)) :
    ∃ texts, d.values = some [.name (".".intercalate texts)] ∧
      d.nodes.filterMap Node.name? = texts ∧
      ∀ node ∈ d.nodes, node.isWord .staticWord = false ∧ node.isWord .star = false := by
  obtain ⟨body, rfl⟩ := d.exists_rule
  obtain ⟨firstPart, others, rfl⟩ := exists_sequence body
  obtain ⟨first, hFirst, rfl⟩ := exists_terminal firstPart
  have hMany : ∀ others : Derivation (.many (.sequence (.terminal .dot) (.terminal .identifier))),
      ∃ values, others.values = some values ∧
        values.filterMap (Value.text? .identifier) = others.nodes.filterMap Node.name? ∧
        ∀ node ∈ others.nodes, node.isWord .staticWord = false ∧ node.isWord .star = false := by
    intro others
    induction others using many_induction with
    | none => exact ⟨[], rfl, rfl, by simp⟩
    | more one others ih =>
        obtain ⟨values, hValues, hNames, hWords⟩ := ih
        obtain ⟨dotPart, namePart, rfl⟩ := one.exists_sequence
        obtain ⟨dot, hDot, rfl⟩ := dotPart.exists_terminal
        obtain ⟨name, hName, rfl⟩ := namePart.exists_terminal
        refine ⟨.token name :: values, values_more (values_sequence (values_dropped hDot rfl)
          (values_kept hName rfl)) hValues, ?_, ?_⟩
        · simp [Value.text?, Node.name?, hDot, hName, hNames]
        · show ∀ node ∈ [Node.word dot] ++ [.word name] ++ others.nodes, _
          simpa [Node.isWord, hDot, hName] using hWords
  obtain ⟨values, hValues, hNames, hWords⟩ := hMany others
  refine ⟨_, ?_, rfl, ?_⟩
  · refine values_rule (values_sequence (values_kept hFirst rfl) hValues) ?_
    show some [Value.name (".".intercalate (([Value.token first] ++ values).filterMap _))] =
      some [Value.name (".".intercalate (([Node.word first] ++ others.nodes).filterMap _))]
    simp [Value.text?, Node.name?, hFirst, hNames]
  · show ∀ node ∈ [Node.word first] ++ others.nodes, _
    simpa [Node.isWord, hFirst] using hWords

/-- A package declaration is read as what it means. -/
theorem readMember_package (d : Derivation (.rule .packageDeclaration)) :
    ∃ name, d.values = some [.package name] ∧
      readMember (memberItems d.tokens) = .package name := by
  have hMember := isMember_of_yields_packageDeclaration d.yields
  obtain ⟨body, rfl⟩ := d.exists_rule
  obtain ⟨modifiers, behindModifiers, rfl⟩ := exists_sequence body
  obtain ⟨wordPart, behindWord, rfl⟩ := exists_sequence behindModifiers
  obtain ⟨word, hWord, rfl⟩ := exists_terminal wordPart
  obtain ⟨name, last, rfl⟩ := exists_sequence behindWord
  obtain ⟨semicolon, hSemicolon, rfl⟩ := exists_terminal last
  obtain ⟨marks, hMarks, eachMark, hReadModifiers⟩ := modifiers.values_modifiers
  obtain ⟨texts, hName, hTexts, _⟩ := name.values_qualifiedName
  let header : Derivation (.sequence (.rule .modifiers) (.sequence (.terminal .packageWord)
      (.rule .qualifiedName))) := sequence modifiers (sequence (terminal word hWord) name)
  have hQuiet : Quiet .closed .closed header.tokens := header.yields.quiet rfl
  have hShape : modifiers.tokens ++ ([word] ++ (name.tokens ++ [semicolon])) =
      header.tokens ++ [semicolon] := by
    simp [header]
  replace hMember : IsMember (modifiers.tokens ++ ([word] ++ (name.tokens ++ [semicolon]))) :=
    hMember
  rw [hShape] at hMember
  have hRead : readMember (memberItems (header.tokens ++ [semicolon])) =
      .package (".".intercalate texts) := by
    rw [hMember.items_of_semicolon hQuiet.balanced hSemicolon, header.outline_tokens rfl]
    have hSplit : readModifiers header.nodes =
        (marks.filterMap Value.modifier?, .word word :: name.nodes) := by
      show readModifiers (modifiers.nodes ++ ([.word word] ++ name.nodes)) = _
      rw [hReadModifiers, List.singleton_append,
        readModifiers_word (by simp [Node.isModifier, hWord]), List.append_nil]
    unfold readMember
    simp only [hSplit, hWord, readName_eq, hTexts]
  have hMake : ∀ doc : Option String, Rule.make doc (marks ++ ([.token word] ++
      ([.name (".".intercalate texts)] ++ []))) .packageDeclaration =
        some [.package (".".intercalate texts)] := by
    intro doc
    have hNoName := @Value.not_picked_of_isModifier _ Value.name? rfl (fun _ _ => rfl) _ eachMark
    rw [Rule.make, findSome?_append_of_none hNoName]
    rfl
  refine ⟨_, values_rule (values_sequence hMarks (values_sequence (values_kept hWord rfl)
    (values_sequence hName (values_dropped hSemicolon rfl)))) (hMake _), ?_⟩
  show readMember (memberItems (modifiers.tokens ++ ([word] ++ (name.tokens ++ [semicolon])))) = _
  rw [hShape, hRead]

private theorem memberSays_package (d : Derivation (.rule .packageDeclaration)) :
    ∃ values, d.values = some values ∧ MemberSays d.tokens values := by
  obtain ⟨name, hValues, hRead⟩ := d.readMember_package
  exact ⟨_, hValues, isMember_of_yields_packageDeclaration d.yields, by rw [hRead]; rfl⟩

/-- The word behind that of an import. -/
private theorem values_static (d : Derivation (.optional (.terminal .staticWord))) :
    ∃ values, d.values = some values ∧
      ((∀ value ∈ values, value.name? = Option.none) ∧
        values.any (Value.isToken .star) = false ∧
        values.any (Value.isToken .staticWord) = d.nodes.any (·.isWord .staticWord)) ∧
      d.nodes.any (·.isWord .star) = false ∧ d.nodes.filterMap Node.name? = [] := by
  rcases d.optional_cases with rfl | ⟨wordPart, rfl⟩
  · exact ⟨[], rfl, ⟨by simp, rfl, rfl⟩, rfl, rfl⟩
  · obtain ⟨word, hWord, rfl⟩ := wordPart.exists_terminal
    refine ⟨[.token word], values_present (values_kept hWord rfl), ?_, ?_⟩
    · simp [Value.name?, Value.isToken, Node.isWord, hWord]
    · simp [Node.isWord, Node.name?, hWord]

/-- The star of an import, with the dot before it. -/
private theorem values_wildcard
    (d : Derivation (.optional (.sequence (.terminal .dot) (.terminal .star)))) :
    ∃ values, d.values = some values ∧
      (values.any (Value.isToken .staticWord) = false ∧
        values.any (Value.isToken .star) = d.nodes.any (·.isWord .star)) ∧
      d.nodes.any (·.isWord .staticWord) = false ∧ d.nodes.filterMap Node.name? = [] := by
  rcases d.optional_cases with rfl | ⟨both, rfl⟩
  · exact ⟨[], rfl, ⟨rfl, rfl⟩, rfl, rfl⟩
  · obtain ⟨dotPart, starPart, rfl⟩ := both.exists_sequence
    obtain ⟨dot, hDot, rfl⟩ := dotPart.exists_terminal
    obtain ⟨star, hStar, rfl⟩ := starPart.exists_terminal
    refine ⟨[.token star], values_present (values_sequence (values_dropped hDot rfl)
      (values_kept hStar rfl)), ?_, ?_⟩
    · simp [Value.isToken, Node.isWord, hDot, hStar]
    · simp [Node.isWord, Node.name?, hDot, hStar]

/-- An import is read as what it means. -/
theorem readMember_import (d : Derivation (.rule .importDeclaration)) :
    ∃ imported, d.values = some [.importing imported] ∧
      readMember (memberItems d.tokens) = .importing imported := by
  have hMember := isMember_of_yields_importDeclaration d.yields
  obtain ⟨body, rfl⟩ := d.exists_rule
  obtain ⟨wordPart, behindWord, rfl⟩ := exists_sequence body
  obtain ⟨word, hWord, rfl⟩ := exists_terminal wordPart
  obtain ⟨static, behindStatic, rfl⟩ := exists_sequence behindWord
  obtain ⟨name, behindName, rfl⟩ := exists_sequence behindStatic
  obtain ⟨wildcard, last, rfl⟩ := exists_sequence behindName
  obtain ⟨semicolon, hSemicolon, rfl⟩ := exists_terminal last
  obtain ⟨texts, hName, hTexts, hPlain⟩ := name.values_qualifiedName
  obtain ⟨statics, hStatics, hStaticPicks, hStaticNodes⟩ := values_static static
  obtain ⟨wildcards, hWildcards, hWildcardPicks, hWildcardNodes⟩ := values_wildcard wildcard
  let header : Derivation (.sequence (.terminal .importWord) (.sequence (.optional (.terminal
      .staticWord)) (.sequence (.rule .qualifiedName) (.optional (.sequence (.terminal .dot)
        (.terminal .star)))))) :=
    sequence (terminal word hWord) (sequence static (sequence name wildcard))
  have hQuiet : Quiet .closed .closed header.tokens := header.yields.quiet rfl
  have hShape : [word] ++ (static.tokens ++ (name.tokens ++ (wildcard.tokens ++ [semicolon]))) =
      header.tokens ++ [semicolon] := by
    simp [header]
  replace hMember : IsMember ([word] ++ (static.tokens ++ (name.tokens ++ (wildcard.tokens ++
    [semicolon])))) := hMember
  rw [hShape] at hMember
  have hNameStatic : name.nodes.any (·.isWord .staticWord) = false := by
    simpa using fun node mem => (hPlain node mem).1
  have hNameStar : name.nodes.any (·.isWord .star) = false := by
    simpa using fun node mem => (hPlain node mem).2
  have hRead : readMember (memberItems (header.tokens ++ [semicolon])) = .importing {
      name := ".".intercalate texts
      isStatic := static.nodes.any (·.isWord .staticWord)
      isWildcard := wildcard.nodes.any (·.isWord .star) } := by
    rw [hMember.items_of_semicolon hQuiet.balanced hSemicolon, header.outline_tokens rfl]
    have hSplit : readModifiers header.nodes =
        ([], .word word :: (static.nodes ++ (name.nodes ++ wildcard.nodes))) :=
      readModifiers_word (by simp [Node.isModifier, hWord]) _
    unfold readMember
    simp only [hSplit, hWord, readName_eq, List.filterMap_append, List.any_append, hTexts,
      hStaticNodes, hWildcardNodes, hNameStatic, hNameStar, List.nil_append, List.append_nil,
      Bool.or_false, Bool.false_or]
  have hMake : ∀ doc : Option String, Rule.make doc ([.token word] ++ (statics ++
      ([.name (".".intercalate texts)] ++ (wildcards ++ [])))) .importDeclaration =
        some [.importing {
          name := ".".intercalate texts
          isStatic := static.nodes.any (·.isWord .staticWord)
          isWildcard := wildcard.nodes.any (·.isWord .star) }] := by
    intro doc
    have hText : ([Value.token word] ++ (statics ++ ([Value.name (".".intercalate texts)] ++
        (wildcards ++ [])))).findSome? Value.name? = some (".".intercalate texts) :=
      findSome?_append_of_none hStaticPicks.1 _
    rw [Rule.make, hText]
    simp [Value.isToken, hWord, hStaticPicks, hWildcardPicks]
  refine ⟨_, values_rule (values_sequence (values_kept hWord rfl) (values_sequence hStatics
    (values_sequence hName (values_sequence hWildcards (values_dropped hSemicolon rfl)))))
    (hMake _), ?_⟩
  show readMember (memberItems ([word] ++ (static.tokens ++ (name.tokens ++ (wildcard.tokens ++
    [semicolon]))))) = _
  rw [hShape, hRead]

private theorem memberSays_import (d : Derivation (.rule .importDeclaration)) :
    ∃ values, d.values = some values ∧ MemberSays d.tokens values := by
  obtain ⟨imported, hValues, hRead⟩ := d.readMember_import
  exact ⟨_, hValues, isMember_of_yields_importDeclaration d.yields, by rw [hRead]; rfl⟩

private theorem file_of_values {d : Derivation (.rule .compilationUnit)} {file : SourceFile}
    (h : d.values = some [.file file]) : d.file? = some file := by
  rw [file?, h]
  rfl

/-- **A best derivation means what is read of its tokens.** -/
theorem file_eq_readSource (d : Derivation (.rule .compilationUnit)) (hBest : d.IsBest)
    (hAssigns : AssignsItems d.tokens) : d.file? = some (readSource d.tokens) := by
  obtain ⟨body, rfl⟩ := d.exists_rule
  obtain ⟨package, behindPackage, rfl⟩ := exists_sequence body
  obtain ⟨imports, types, rfl⟩ :=
    @exists_sequence (.many (.rule .importDeclaration)) (.many (.rule .typeDeclaration)) behindPackage
  replace hBest : (sequence package (sequence imports types)).IsBest := hBest.of_rule
  replace hAssigns : AssignsItems (package.tokens ++ (imports.tokens ++ types.tokens)) := hAssigns
  obtain ⟨packageValues, hPackage, hPackageSays⟩ : ∃ values, package.values = some values ∧
      MembersSay package.tokens values := by
    rcases package.optional_cases with rfl | ⟨one, rfl⟩
    · exact ⟨[], rfl, .nil⟩
    · obtain ⟨values, hValues, hSays⟩ := one.memberSays_package
      exact ⟨values, hValues, .one hSays⟩
  obtain ⟨importValues, hImports, hImportsSay⟩ :=
    values_many (fun one _ _ _ => one.memberSays_import) imports (Nat.le_refl _)
      hBest.of_sequence.2.of_sequence.1 hAssigns.of_append.2.of_append.1
  obtain ⟨typeValues, hTypes, hTypesSay⟩ :=
    values_many (fun one _ => one.memberSays_typeDeclaration) types (Nat.le_refl _)
      hBest.of_sequence.2.of_sequence.2 hAssigns.of_append.2.of_append.2
  obtain ⟨parts, hTokens, each, hSays⟩ := hPackageSays.append (hImportsSay.append hTypesSay)
  refine (file_of_values (values_rule (values_sequence hPackage (values_sequence hImports hTypes))
    rfl)).trans ?_
  show some (sourceOfValues _) =
    some (readSource (package.tokens ++ (imports.tokens ++ types.tokens)))
  rw [readSource, hTokens, splitMembers_outline each, List.map_map, sourceOfValues_eq hSays]
  rfl

end Derivation

/-! ## Agreement -/

/-- **Best derivations agree.**  Tokens of a source have a best derivation, all of them mean the
same, and that is what a text with these tokens is parsed to. -/
theorem best_derivations_agree {tokens : List Token} (h : IsSentence (terminals tokens))
    (hAssigns : AssignsItems tokens) :
    ∃ file, (∃ d : Derivation (.rule .compilationUnit), d.tokens = tokens ∧ d.IsBest) ∧
      (∀ d : Derivation (.rule .compilationUnit), d.tokens = tokens → d.IsBest →
        d.file? = some file) ∧
      ∀ source, tokenize source = (tokens, none) → parse source = .ok file := by
  refine ⟨readSource tokens, Derivation.exists_isBest h, ?_, ?_⟩
  · rintro d rfl hBest
    exact d.file_eq_readSource hBest hAssigns
  · intro source hTokens
    rw [parse_eq_ok_iff, hTokens]
    exact ⟨rfl, h, rfl⟩

/-- A source in which an annotation, a comma and a record can be derived in several ways. -/
def ambiguousSource : List Char := "class A {@X int a = f<x, y>, b; record R() {}}".toList

def ambiguousFile : SourceFile where
  package := ""
  imports := []
  types := [{
    kind := .classDecl
    name := "A"
    typeParams := []
    modifiers := []
    fields := [⟨"a", ⟨"int", [], 0⟩, none, []⟩, ⟨"b", ⟨"int", [], 0⟩, none, []⟩]
    enumConstants := []
    types := [] }]

private theorem parse_ambiguousSource : parse ambiguousSource = .ok ambiguousFile := by
  refine @parse_eq_ok_of_bare ambiguousSource
    [.plain .classWord "class", .plain .identifier "A", .plain .leftBrace "\x7b",
      .plain .atSign "@", .plain .identifier "X", .plain .identifier "int",
      .plain .identifier "a", .plain .equalSign "=", .plain .identifier "f",
      .plain .lessThan "<", .plain .identifier "x", .plain .comma ",", .plain .identifier "y",
      .plain .moreThan ">", .plain .comma ",", .plain .identifier "b", .plain .semicolon ";",
      .plain .identifier "record", .plain .identifier "R", .plain .leftParen "(",
      .plain .rightParen ")", .plain .leftBrace "\x7b", .plain .rightBrace "\x7d",
      .plain .rightBrace "\x7d"] ?_ ?_ ?_
  · rw [tokenize_eq_within]
    decide +kernel
  · rw [tokenize_eq_within]
    decide +kernel
  · show Derives _ _
    decide

theorem best_derivations_of_ambiguousSource :
    IsSentence (terminals (tokenize ambiguousSource).1) ∧
      AssignsItems (tokenize ambiguousSource).1 ∧
      (∃ d : Derivation (.rule .compilationUnit), d.tokens = (tokenize ambiguousSource).1 ∧
        d.IsBest) ∧
      ∀ d : Derivation (.rule .compilationUnit), d.tokens = (tokenize ambiguousSource).1 →
        d.IsBest → d.file? = some ambiguousFile := by
  obtain ⟨hEnd, hSentence, _⟩ := parse_eq_ok_iff.mp parse_ambiguousSource
  have hAssigns : AssignsItems (tokenize ambiguousSource).1 := by
    unfold AssignsItems
    rw [tokenize_eq_within]
    decide +kernel
  obtain ⟨file, hExists, hAll, hParse⟩ := best_derivations_agree hSentence hAssigns
  have hFile : parse ambiguousSource = .ok file := hParse ambiguousSource (by rw [← hEnd])
  rw [parse_ambiguousSource] at hFile
  cases hFile
  exact ⟨hSentence, hAssigns, hExists, hAll⟩

end ClassSchema.Java
