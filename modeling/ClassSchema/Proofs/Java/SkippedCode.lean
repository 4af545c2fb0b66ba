import ClassSchema.Proofs.Java.Alike

/-!
# Skipped code

Bodies of methods, constructors and initializers, arguments, the parameters of
methods and records, and groups in initializers of fields are passed over: whatever
balanced tokens they hold, the source is accepted and declares the same.

Parentheses are items without content, so for them this is plain.  Braces are
read, as a body of a class and as a body of an enum, before it is known what they
are; the content of a body of code can look like fields and types then.  It counts
for nothing because it belongs to a member that declares no type, and such a
member is read without looking into braces.

## Main results

* `readSource_eq_of_alike`: sources that are alike declare the same.
* `parse_eq_ok_of_seen`: a source declares what any tokens that look the same declare.
-/

namespace ClassSchema.Java

open ClassSchema.Java.Expr Expr.Yields Alike

/-! ## Members -/

private theorem bare_items {nodes nodes' items items' : List Node} (h : Makes nodes items)
    (h' : Makes nodes' items') (hBare : bare nodes = bare nodes') : bare items = bare items' := by
  cases h with
  | semicolon =>
      cases h' with
      | semicolon =>
          rw [bare_append, bare_append] at hBare
          exact (List.append_inj' hBare rfl).1
      | braces =>
          rw [bare_append, bare_append] at hBare
          cases (List.append_inj' hBare rfl).2
  | braces =>
      cases h' with
      | semicolon =>
          rw [bare_append, bare_append] at hBare
          cases (List.append_inj' hBare rfl).2
      | braces => exact hBare

/-- Members with the same bare outline have the same bare items. -/
theorem bare_memberItems {tokens tokens' : List Token} (h : IsMember tokens)
    (h' : IsMember tokens') (hBare : bare (outline tokens) = bare (outline tokens')) :
    bare (memberItems tokens) = bare (memberItems tokens') := by
  obtain ⟨items, hMakes⟩ := h.makes
  obtain ⟨items', hMakes'⟩ := h'.makes
  rw [memberItems_eq hMakes, memberItems_eq hMakes']
  exact bare_items hMakes hMakes' hBare

/-- Quiet items hold no bodies. -/
private theorem map_body_of_quiet {items items' : List Node} (isEnum : Bool)
    (h : ∀ item ∈ items, item.isQuiet = true) (h' : ∀ item ∈ items', item.isQuiet = true)
    (hBare : bare items = bare items') :
    items.map (Node.body isEnum) = items'.map (Node.body isEnum) := by
  have hNone : ∀ nodes : List Node, (∀ node ∈ nodes, node.isQuiet = true) →
      nodes.map (Node.body isEnum) = List.replicate nodes.length none := by
    intro nodes hNodes
    rw [List.map_eq_replicate_iff]
    intro node mem
    have hNode := hNodes node mem
    cases node with
    | braces => cases hNode
    | _ => rfl
  have hLength : items.length = items'.length := by
    rw [← bare_length items, hBare, bare_length]
  rw [hNone items h, hNone items' h', hLength]

/-- A member that declares no type is read without looking into braces. -/
private theorem readMember_eq_of_plain {r : Rule} (hPlain : r.isPlain = true)
    {tokens tokens' : List Token} (h : Alike (.rule r) tokens tokens') (hMember : IsMember tokens)
    (hMember' : IsMember tokens') :
    readMember (memberItems tokens) = readMember (memberItems tokens') := by
  apply readMember_eq_of_bare (bare_memberItems hMember hMember' h.bare_outline)
  intro kind hKind
  rw [declaredKind_of_isPlain hPlain h.yields.1] at hKind
  cases hKind

/-- A statement has no braces at all. -/
private theorem readMember_eq_of_statement {left : Joint} {header header' : List Token}
    {token token' : Token} (hHeader : Quiet .closed left header)
    (hHeader' : Quiet .closed left header') (hToken : token.terminal = .semicolon)
    (hToken' : token'.terminal = .semicolon)
    (hWords : ∀ item ∈ outline header, item.isQuoted = false)
    (hBare : bare (outline header) = bare (outline header')) :
    readMember (memberItems (header ++ [token])) =
      readMember (memberItems (header' ++ [token'])) := by
  have hItems : ∀ {header : List Token} {token : Token}, Quiet .closed left header →
      token.terminal = .semicolon → memberItems (header ++ [token]) = outline header := by
    intro header token hHeader hToken
    have hMakes := Makes.semicolon (hHeader.run_outline .open) hToken
    rw [← outline_semicolon hHeader.balanced hToken] at hMakes
    exact memberItems_eq hMakes
  rw [hItems hHeader hToken, hItems hHeader' hToken']
  exact readMember_eq_of_bare hBare fun _ _ => {
    unquoted := hWords
    bodies := map_body_of_quiet _ hHeader.outline_items.1 hHeader'.outline_items.1 hBare }

/-! ## Bodies -/

/-- Members of a class that are alike declare the same, up to a number of tokens. -/
private def AlikeBodiesBelow (bound : Nat) : Prop :=
  ∀ inner inner' : List Token, inner.length < bound →
    Alike (.many (.rule .member)) inner inner' →
      readClassBody (outline inner) = readClassBody (outline inner')

private theorem readEnumBody_eq {constants constants' members members' : List Token}
    (hConstants : Alike (.optional (.rule .enumConstants)) constants constants')
    (hMembers : Alike (.optional (.rule .enumMembers)) members members')
    (inner : AlikeBodiesBelow (members.length + 1)) :
    readEnumBody (outline (constants ++ members)) =
      readEnumBody (outline (constants' ++ members')) := by
  have hNames : (splitCommas (outline constants)).filterMap readConstant =
      (splitCommas (outline constants')).filterMap readConstant := by
    rw [← readConstants_bare (hConstants.yields.1.unquoted rfl), hConstants.bare_outline,
      readConstants_bare (hConstants.yields.2.unquoted rfl)]
  rcases hMembers.of_optional with ⟨rfl, rfl⟩ | hMembers
  · rw [List.append_nil, List.append_nil, readEnumBody_constants hConstants.yields.1,
      readEnumBody_constants hConstants.yields.2, hNames]
  · obtain ⟨_, _, back, back', rfl, rfl, hSemicolon, hBack⟩ :=
      (hMembers.of_rule rfl).of_sequence
    obtain ⟨semicolon, semicolon', rfl, rfl, hTerminal, hTerminal'⟩ := hSemicolon.of_terminal
    have hBodies : readClassBody (outline back) = readClassBody (outline back') := by
      apply inner back back' _ hBack
      simp only [List.length_append, List.length_singleton]
      omega
    rw [List.singleton_append, List.singleton_append,
      readEnumBody_outline hConstants.yields.1 hTerminal (hBack.yields.1.balanced_of_nest rfl),
      readEnumBody_outline hConstants.yields.2 hTerminal' (hBack.yields.2.balanced_of_nest rfl),
      hNames, hBodies]

/-- What a declaration of a kind reads of its body. -/
private def readContent : DeclKind → List Node → Body
  | .enumDecl => readEnumBody
  | _ => readClassBody

/-- Two bodies in braces of which a declaration reads the same. -/
private inductive SameBody (kind : DeclKind) : List Token → List Token → Prop where
  | braces {opening closing opening' closing' : Token} {content content' : List Token} :
      opening.terminal = .leftBrace → closing.terminal = .rightBrace →
      opening'.terminal = .leftBrace → closing'.terminal = .rightBrace →
      Balanced (terminals content) → Balanced (terminals content') →
      readContent kind (outline content) = readContent kind (outline content') →
      SameBody kind (opening :: content ++ [closing]) (opening' :: content' ++ [closing'])

private theorem sameBody_class {kind : DeclKind} (hKind : readContent kind = readClassBody)
    {body body' : List Token} (h : Alike (.rule .classBody) body body')
    (inner : AlikeBodiesBelow body.length) : SameBody kind body body' := by
  obtain ⟨_, _, _, _, rfl, rfl, hOpening, hRest⟩ := (h.of_rule rfl).of_sequence
  obtain ⟨members, members', _, _, rfl, rfl, hMembers, hClosing⟩ := hRest.of_sequence
  obtain ⟨opening, opening', rfl, rfl, hOpening, hOpening'⟩ := hOpening.of_terminal
  obtain ⟨closing, closing', rfl, rfl, hClosing, hClosing'⟩ := hClosing.of_terminal
  refine .braces hOpening hClosing hOpening' hClosing' (hMembers.yields.1.balanced_of_nest rfl)
    (hMembers.yields.2.balanced_of_nest rfl) ?_
  rw [hKind]
  apply inner members members' _ hMembers
  simp only [List.length_append, List.length_singleton]
  omega

private theorem sameBody_enum {body body' : List Token} (h : Alike (.rule .enumBody) body body')
    (inner : AlikeBodiesBelow body.length) : SameBody .enumDecl body body' := by
  obtain ⟨_, _, _, _, rfl, rfl, openingPart, afterOpening⟩ := (h.of_rule rfl).of_sequence
  obtain ⟨constants, constants', _, _, rfl, rfl, hConstants, afterConstants⟩ :=
    afterOpening.of_sequence
  obtain ⟨members, members', _, _, rfl, rfl, hMembers, closingPart⟩ := afterConstants.of_sequence
  obtain ⟨opening, opening', rfl, rfl, hOpening, hOpening'⟩ := openingPart.of_terminal
  obtain ⟨closing, closing', rfl, rfl, hClosing, hClosing'⟩ := closingPart.of_terminal
  have hBalanced : ∀ {constants members : List Token},
      (optional (rule .enumConstants)).Yields constants →
      (optional (rule .enumMembers)).Yields members →
      Balanced (terminals (constants ++ members)) := by
    intro constants members hConstants hMembers
    rw [terminals_append]
    exact (hConstants.balanced_of_nest rfl).append (hMembers.balanced_of_nest rfl)
  have hSame : readEnumBody (outline (constants ++ members)) =
      readEnumBody (outline (constants' ++ members')) := by
    apply readEnumBody_eq hConstants hMembers
    intro deeper deeper' hLength hAlike
    apply inner deeper deeper' _ hAlike
    simp only [List.length_append, List.length_singleton]
    omega
  rw [← List.append_assoc constants, ← List.append_assoc constants']
  exact .braces hOpening hClosing hOpening' hClosing'
    (hBalanced hConstants.yields.1 hMembers.yields.1)
    (hBalanced hConstants.yields.2 hMembers.yields.2) hSame

/-- The bodies of alike declarations are read the same, if those inside them are. -/
private theorem sameBody_of_alike {kind : DeclKind} {body body' : List Token}
    (h : Alike (.rule kind.body) body body') (inner : AlikeBodiesBelow body.length) :
    SameBody kind body body' := by
  cases kind with
  | classDecl => exact sameBody_class rfl h inner
  | interfaceDecl => exact sameBody_class rfl h inner
  | enumDecl => exact sameBody_enum h inner

/-! ## Declarations -/

private theorem readMember_eq_of_declaration {kind : DeclKind} {tokens tokens' : List Token}
    (h : Alike (.rule kind.declaration) tokens tokens') (inner : AlikeBodiesBelow tokens.length) :
    readMember (memberItems tokens) = readMember (memberItems tokens') := by
  have hMember := isMember_declaration h.yields.1
  have hMember' := isMember_declaration h.yields.2
  have hKind := declaredKind_of_declaration h.yields.1
  apply readMember_eq_of_bare (bare_memberItems hMember hMember' h.bare_outline)
  intro other hOther
  rw [hKind] at hOther
  cases hOther
  obtain ⟨front, part, hHeader, hBody⟩ := kind.declaration_body
  have hRule : Alike kind.declaration.body tokens tokens' := h.of_rule (by cases kind <;> rfl)
  rw [hBody] at hRule
  obtain ⟨header, header', body, body', rfl, rfl, hFirst, hSecond⟩ := hRule.of_chain
  rw [← hHeader] at hFirst
  have hShorter : AlikeBodiesBelow body.length := by
    intro deeper deeper' hLength hAlike
    apply inner deeper deeper' _ hAlike
    rw [List.length_append]
    omega
  cases sameBody_of_alike hSecond hShorter with
  | @braces opening closing opening' closing' content content' hOpening hClosing hOpening'
      hClosing' hBalanced hBalanced' hSame =>
      have hBodies :
          (Node.braces (readClassBody (outline content)) (readEnumBody (outline content))).body
              (kind = .enumDecl) =
            (Node.braces (readClassBody (outline content'))
              (readEnumBody (outline content'))).body (kind = .enumDecl) := by
        cases kind <;> exact congrArg Option.some hSame
      have hWords := hFirst.yields.1.unquoted (by cases kind <;> rfl)
      rw [memberItems_of_declaration hFirst.yields.1 hOpening hBalanced hClosing,
        memberItems_of_declaration hFirst.yields.2 hOpening' hBalanced' hClosing']
      constructor
      · intro item mem
        rcases List.mem_append.mp mem with mem | mem
        · exact hWords item mem
        · rw [List.mem_singleton.mp mem]
          rfl
      · rw [List.map_append, List.map_append,
          map_body_of_quiet _ (DeclKind.quiet_header hFirst.yields.1).outline_items.1
            (DeclKind.quiet_header hFirst.yields.2).outline_items.1 hFirst.bare_outline,
          List.map_cons, List.map_cons, hBodies, List.map_nil]

private theorem readMember_eq_of_semicolon {tokens tokens' : List Token}
    (h : Alike (.terminal .semicolon) tokens tokens') :
    readMember (memberItems tokens) = readMember (memberItems tokens') := by
  obtain ⟨token, token', rfl, rfl, hToken, hToken'⟩ := h.of_terminal
  exact readMember_eq_of_statement (.nil .closed) (.nil .closed) hToken hToken'
    (fun _ mem => nomatch mem) rfl

/-- Members that are alike declare the same, if their bodies do. -/
private theorem readMember_eq_of_member {tokens tokens' : List Token}
    (h : Alike (.rule .member) tokens tokens') (inner : AlikeBodiesBelow tokens.length) :
    readMember (memberItems tokens) = readMember (memberItems tokens') := by
  have hMember := isMember_of_yields h.yields.1
  have hMember' := isMember_of_yields h.yields.2
  have plain : ∀ r : Rule, r.isPlain = true → Alike (.rule r) tokens tokens' →
      readMember (memberItems tokens) = readMember (memberItems tokens') :=
    fun r hPlain hRule => readMember_eq_of_plain hPlain hRule hMember hMember'
  rcases (h.of_rule rfl).of_choice with h | h
  · exact plain .fieldDeclaration rfl h
  rcases h.of_choice with h | h
  · exact plain .methodDeclaration rfl h
  rcases h.of_choice with h | h
  · exact plain .initializer rfl h
  rcases h.of_choice with h | h
  · exact plain .compactConstructor rfl h
  rcases h.of_choice with h | h
  · exact @readMember_eq_of_declaration .classDecl _ _ h inner
  rcases h.of_choice with h | h
  · exact @readMember_eq_of_declaration .interfaceDecl _ _ h inner
  rcases h.of_choice with h | h
  · exact @readMember_eq_of_declaration .enumDecl _ _ h inner
  rcases h.of_choice with h | h
  · exact plain .recordDeclaration rfl h
  · exact readMember_eq_of_semicolon h

/-- **Class bodies that are alike declare the same.** -/
theorem readClassBody_eq_of_alike {inner inner' : List Token}
    (h : Alike (.many (.rule .member)) inner inner') :
    readClassBody (outline inner) = readClassBody (outline inner') := by
  have below : ∀ bound : Nat, AlikeBodiesBelow bound := by
    intro bound
    induction bound with
    | zero =>
        intro inner inner' hLength _
        cases hLength
    | succ bound ih =>
        intro inner inner' hLength hInner
        obtain ⟨pairs, rfl, rfl, each⟩ := hInner.of_many
        have hParts : ∀ part ∈ pairs.map Prod.fst, IsMember part := by
          rw [List.forall_mem_map]
          exact fun pair mem => isMember_of_yields (each pair mem).yields.1
        have hParts' : ∀ part ∈ pairs.map Prod.snd, IsMember part := by
          rw [List.forall_mem_map]
          exact fun pair mem => isMember_of_yields (each pair mem).yields.2
        rw [readClassBody_outline hParts, readClassBody_outline hParts', List.map_map,
          List.map_map]
        congr 1
        apply List.map_congr_left
        intro pair mem
        apply readMember_eq_of_member (each pair mem)
        intro deeper deeper' hDeeper
        apply ih deeper deeper'
        have hPart : pair.1.length ≤ (pairs.map Prod.fst).flatten.length :=
          (List.sublist_flatten_of_mem (List.mem_map_of_mem mem)).length_le
        omega
  exact below (inner.length + 1) inner inner' (Nat.lt_succ_self _) h

/-! ## Sources -/

private theorem alikeBodiesBelow (bound : Nat) : AlikeBodiesBelow bound :=
  fun _ _ _ h => readClassBody_eq_of_alike h

private theorem readMember_eq_of_typeDeclaration {tokens tokens' : List Token}
    (h : Alike (.rule .typeDeclaration) tokens tokens') :
    readMember (memberItems tokens) = readMember (memberItems tokens') := by
  have hMember := isMember_of_yields_typeDeclaration h.yields.1
  have hMember' := isMember_of_yields_typeDeclaration h.yields.2
  have inner := alikeBodiesBelow tokens.length
  rcases (h.of_rule rfl).of_choice with h | h
  · exact @readMember_eq_of_declaration .classDecl _ _ h inner
  rcases h.of_choice with h | h
  · exact @readMember_eq_of_declaration .interfaceDecl _ _ h inner
  rcases h.of_choice with h | h
  · exact @readMember_eq_of_declaration .enumDecl _ _ h inner
  rcases h.of_choice with h | h
  · exact @readMember_eq_of_plain .recordDeclaration rfl _ _ h hMember hMember'
  · exact readMember_eq_of_semicolon h

private theorem readMember_eq_of_package {tokens tokens' : List Token}
    (h : Alike (.rule .packageDeclaration) tokens tokens') :
    readMember (memberItems tokens) = readMember (memberItems tokens') := by
  obtain ⟨header, header', _, _, rfl, rfl, hHeader, hLast⟩ :=
    @of_chain [.rule .modifiers, .terminal .packageWord] [] (.rule .qualifiedName)
      (.terminal .semicolon) _ _ (h.of_rule rfl)
  obtain ⟨token, token', rfl, rfl, hToken, hToken'⟩ := hLast.of_terminal
  exact readMember_eq_of_statement (hHeader.yields.1.quiet rfl) (hHeader.yields.2.quiet rfl)
    hToken hToken' (hHeader.yields.1.unquoted rfl) hHeader.bare_outline

private theorem readMember_eq_of_import {tokens tokens' : List Token}
    (h : Alike (.rule .importDeclaration) tokens tokens') :
    readMember (memberItems tokens) = readMember (memberItems tokens') := by
  obtain ⟨header, header', _, _, rfl, rfl, hHeader, hLast⟩ :=
    @of_chain [.terminal .importWord, .optional (.terminal .staticWord), .rule .qualifiedName] []
      (.optional (.sequence (.terminal .dot) (.terminal .star))) (.terminal .semicolon) _ _
      (h.of_rule rfl)
  obtain ⟨token, token', rfl, rfl, hToken, hToken'⟩ := hLast.of_terminal
  exact readMember_eq_of_statement (hHeader.yields.1.quiet rfl) (hHeader.yields.2.quiet rfl)
    hToken hToken' (hHeader.yields.1.unquoted rfl) hHeader.bare_outline

/-- Two members that declare the same. -/
private structure SameMember (tokens tokens' : List Token) : Prop where
  left : IsMember tokens
  right : IsMember tokens'
  reading : readMember (memberItems tokens) = readMember (memberItems tokens')

private theorem sameMembers_of_many {r : Rule}
    (hEach : ∀ {tokens tokens' : List Token}, Alike (.rule r) tokens tokens' →
      SameMember tokens tokens')
    {tokens tokens' : List Token} (h : Alike (.many (.rule r)) tokens tokens') :
    ∃ pairs : List (List Token × List Token), tokens = (pairs.map Prod.fst).flatten ∧
      tokens' = (pairs.map Prod.snd).flatten ∧ ∀ pair ∈ pairs, SameMember pair.1 pair.2 := by
  obtain ⟨pairs, hTokens, hTokens', each⟩ := h.of_many
  exact ⟨pairs, hTokens, hTokens', fun pair mem => hEach (each pair mem)⟩

private theorem sameMembers_of_optional {r : Rule}
    (hEach : ∀ {tokens tokens' : List Token}, Alike (.rule r) tokens tokens' →
      SameMember tokens tokens')
    {tokens tokens' : List Token} (h : Alike (.optional (.rule r)) tokens tokens') :
    ∃ pairs : List (List Token × List Token), tokens = (pairs.map Prod.fst).flatten ∧
      tokens' = (pairs.map Prod.snd).flatten ∧ ∀ pair ∈ pairs, SameMember pair.1 pair.2 := by
  rcases h.of_optional with ⟨rfl, rfl⟩ | h
  · exact ⟨[], rfl, rfl, fun _ mem => nomatch mem⟩
  · refine ⟨[(tokens, tokens')], by simp, by simp, ?_⟩
    intro pair mem
    rw [List.mem_singleton.mp mem]
    exact hEach h

/-- **Sources that are alike declare the same.** -/
theorem readSource_eq_of_alike {tokens tokens' : List Token}
    (h : Alike (.rule .compilationUnit) tokens tokens') :
    readSource tokens = readSource tokens' := by
  obtain ⟨_, _, _, _, rfl, rfl, hPackage, hRest⟩ := (h.of_rule rfl).of_sequence
  obtain ⟨_, _, _, _, rfl, rfl, hImports, hTypes⟩ := hRest.of_sequence
  obtain ⟨packages, rfl, rfl, eachPackage⟩ := sameMembers_of_optional (fun h => {
    left := isMember_of_yields_packageDeclaration h.yields.1
    right := isMember_of_yields_packageDeclaration h.yields.2
    reading := readMember_eq_of_package h }) hPackage
  obtain ⟨imports, rfl, rfl, eachImport⟩ := sameMembers_of_many (fun h => {
    left := isMember_of_yields_importDeclaration h.yields.1
    right := isMember_of_yields_importDeclaration h.yields.2
    reading := readMember_eq_of_import h }) hImports
  obtain ⟨types, rfl, rfl, eachType⟩ := sameMembers_of_many (fun h => {
    left := isMember_of_yields_typeDeclaration h.yields.1
    right := isMember_of_yields_typeDeclaration h.yields.2
    reading := readMember_eq_of_typeDeclaration h }) hTypes
  have each : ∀ pair ∈ packages ++ (imports ++ types), SameMember pair.1 pair.2 := by
    intro pair mem
    rcases List.mem_append.mp mem with mem | mem
    · exact eachPackage pair mem
    rcases List.mem_append.mp mem with mem | mem
    · exact eachImport pair mem
    · exact eachType pair mem
  have hParts : ∀ part ∈ (packages ++ (imports ++ types)).map Prod.fst, IsMember part := by
    rw [List.forall_mem_map]
    exact fun pair mem => (each pair mem).left
  have hParts' : ∀ part ∈ (packages ++ (imports ++ types)).map Prod.snd, IsMember part := by
    rw [List.forall_mem_map]
    exact fun pair mem => (each pair mem).right
  simp only [← List.flatten_append, ← List.map_append]
  rw [readSource, readSource, splitMembers_outline hParts, splitMembers_outline hParts']
  simp only [List.map_map]
  congr 1
  apply List.map_congr_left
  intro pair mem
  exact (each pair mem).reading

/-- What is not seen of the tokens does not matter. -/
theorem parse_eq_ok_of_seen {source : List Char} {tokens : List Token}
    (hEnd : (tokenize source).2 = Option.none)
    (hSeen : (tokenize source).1.map Token.seen = tokens.map Token.seen)
    (hTokens : IsSentence (terminals tokens)) : parse source = .ok (readSource tokens) := by
  have hAlike : Alike (.rule .compilationUnit) tokens (tokenize source).1 :=
    .of_seen hTokens hSeen.symm
  rw [parse_eq_ok_iff]
  exact ⟨hEnd, hAlike.yields.2, (readSource_eq_of_alike hAlike).symm⟩

/-- Where the tokens stand does not matter. -/
theorem parse_eq_ok_of_bare {source : List Char} {tokens : List Token}
    (hEnd : (tokenize source).2 = Option.none)
    (hBare : (tokenize source).1.map Token.bare = tokens.map Token.bare)
    (hTokens : IsSentence (terminals tokens)) : parse source = .ok (readSource tokens) := by
  have hSeen := congrArg (List.map Token.seen) hBare
  rw [List.map_map, List.map_map] at hSeen
  exact parse_eq_ok_of_seen hEnd hSeen hTokens

end ClassSchema.Java
