import ClassSchema.Proofs.Java.DerivedDeclarators

/-!
# Members that declare no type

A member that is a field has modifiers, a type and declarators.  Methods,
constructors, initializers and records begin in a similar way, but then something
stands where the declarators would, parentheses for example, and so they are read as
nothing, which is what they mean.

## Main results

* `Derivation.readMember_field`: a field of a best derivation is read as what it means.
* `Derivation.exists_readMember_field`: whatever its derivation, a field is read as fields.
* `Derivation.readMember_nothing`: what means nothing is read as nothing.
-/

namespace ClassSchema.Java

/-! ## Fields -/

/-- The comment in front of an item is the one in front of its first token. -/
theorem Stand.doc {node : Node} {nodes : List Node} {tokens : List Token}
    (h : Stand (node :: nodes) tokens) (hQuiet : node.isQuiet = true) :
    node.doc = tokens.head?.bind Token.doc := by
  cases h with
  | cons hNode _ =>
      cases hNode with
      | word | openUse | closedUse => rfl
      | parens => cases hQuiet
      | braces => cases hQuiet

/-- The fields that modifiers, a type and declarators declare. -/
def fieldsOf (doc : Option String) (modifiers : List String) (type : TypeName)
    (declarators : List Declarator) : List FieldDecl :=
  declarators.map fun declarator => {
    name := declarator.name
    type := { type with dimensions := type.dimensions + declarator.dimensions }
    docComment := doc
    modifiers }

private theorem make_field {marks : List Value} (hMarks : ∀ value ∈ marks, value.isModifier = true)
    (doc : Option String) (type : TypeName) (declarators : List Declarator) :
    Rule.make doc (marks ++ ([.type type] ++ (declarators.map .declarator ++ [])))
      .fieldDeclaration =
        some [.fields (fieldsOf doc (marks.filterMap Value.modifier?) type declarators)] := by
  have hNoType := @Value.not_picked_of_isModifier _ Value.type? rfl (fun _ _ => rfl) _ hMarks
  have hNoDeclarator : marks.filterMap Value.declarator? = [] :=
    List.filterMap_eq_nil_iff.mpr
      (Value.not_picked_of_isModifier rfl (fun _ _ => rfl) hMarks)
  rw [List.append_nil]
  generalize hValues : marks ++ ([.type type] ++ declarators.map Value.declarator) = values
  have hType : values.findSome? Value.type? = some type := by
    rw [← hValues, findSome?_append_of_none hNoType]
    rfl
  have hDeclarators : values.filterMap Value.declarator? = declarators := by
    rw [← hValues, List.filterMap_append, hNoDeclarator, List.filterMap_append, List.filterMap_map]
    exact List.filterMap_some
  have hModifiers : values.filterMap Value.modifier? = marks.filterMap Value.modifier? := by
    rw [← hValues, List.filterMap_append, List.filterMap_append, List.filterMap_map]
    simp [Value.modifier?, Function.comp_def]
  rw [Rule.make, fieldsOfValues, hType, hDeclarators, hModifiers]
  rfl

/-- The comment in front of a member is the one in front of its header. -/
private theorem Quiet.doc_outline {left : Joint} {header : List Token}
    (h : Quiet .closed left header) (hNodes : outline header ≠ []) (rest : List Node)
    (more : List Token) :
    ((outline header ++ rest).head?.map Node.doc).getD none =
      (header ++ more).head?.bind Token.doc := by
  have hStand := stand_outline h.balanced
  obtain ⟨node, nodes, hShape⟩ := List.exists_cons_of_ne_nil hNodes
  obtain ⟨token, tokens, hTokens⟩ := List.exists_cons_of_ne_nil (hStand.ne_nil hNodes)
  have hQuiet := h.outline_items.1 node (by simp [hShape])
  rw [hShape] at hStand ⊢
  show node.doc = _
  rw [hStand.doc hQuiet, hTokens]
  rfl

namespace Derivation

/-- Declarators begin with a name. -/
private theorem endsType_outline (first : Derivation (.rule .declarator)) {rest : List Token}
    (h : Balanced (terminals (first.tokens ++ rest))) :
    EndsType (outline (first.tokens ++ rest)) := by
  obtain ⟨body, rfl⟩ := first.exists_rule
  obtain ⟨namePart, behindName, rfl⟩ := exists_sequence body
  obtain ⟨name, hName, rfl⟩ := exists_terminal namePart
  let word : Derivation (.terminal .identifier) := terminal name hName
  have hName' : Balanced (terminals [name]) := word.yields.balanced_of_nest rfl
  have hRest : Balanced (terminals (behindName.tokens ++ rest)) := by
    replace h : Balanced (terminals ([name] ++ (behindName.tokens ++ rest))) := h
    rw [terminals_append] at h
    exact hName'.of_append h
  have hOutline : outline ([name] ++ (behindName.tokens ++ rest)) =
      .word name :: outline (behindName.tokens ++ rest) := word.outline_append rfl hRest
  exact ⟨name, _, hOutline, .inl hName⟩

/-- Behind modifiers and a type, declarators decide whether there are fields. -/
private theorem readMember_typed (modifiers : Derivation (.rule .modifiers))
    (type : Derivation (.rule .type)) {after : List Node} (hSegment : EndsSegment after)
    (hDimensions : EndsDimensions after) :
    ∃ marks typeName, modifiers.values = some marks ∧
      (∀ value ∈ marks, value.isModifier = true) ∧ type.values = some [.type typeName] ∧
      modifiers.nodes ++ type.nodes ≠ [] ∧
      readMember (modifiers.nodes ++ (type.nodes ++ after)) =
        match readDeclarators after with
        | Option.none => .nothing
        | some declarators => .fields (fieldsOf
            (((modifiers.nodes ++ (type.nodes ++ after)).head?.map Node.doc).getD Option.none)
            (marks.filterMap Value.modifier?) typeName declarators) := by
  obtain ⟨marks, hMarks, eachMark, hReadModifiers⟩ := modifiers.values_modifiers
  obtain ⟨typeName, hType, uses, name, core, hNodes, hUses, hName, hRead⟩ := type.values_type
  have hSplit : readModifiers (modifiers.nodes ++ (type.nodes ++ after)) =
      (marks.filterMap Value.modifier?, .word name :: (core ++ after)) := by
    rw [hReadModifiers, hNodes, List.append_assoc, readModifiers_uses hUses, List.cons_append,
      readModifiers_word (by simp [Node.isModifier, hName]), List.append_nil]
  have hReadType : readType (.word name :: (core ++ after)) = some (typeName, after) := by
    refine hRead _ _ hSegment hDimensions ?_
    rw [List.length_cons, List.length_append]
    omega
  refine ⟨marks, typeName, hMarks, eachMark, hType, by simp [hNodes], ?_⟩
  rw [readMember_of_name hSplit hName]
  simp only [readFields, hReadType]
  rfl

/-- Behind its modifiers and its type, the declarators of a field decide what is read of it. -/
theorem readMember_declarators (modifiers : Derivation (.rule .modifiers))
    (type : Derivation (.rule .type)) (first : Derivation (.rule .declarator))
    (others : Derivation (.many (.sequence (.terminal .comma) (.rule .declarator))))
    {semicolon : Token} (hSemicolon : semicolon.terminal = .semicolon)
    (hMember : IsMember (modifiers.tokens ++ (type.tokens ++
      ((first.tokens ++ others.tokens) ++ [semicolon])))) :
    ∃ marks typeName, modifiers.values = some marks ∧
      (∀ value ∈ marks, value.isModifier = true) ∧ type.values = some [.type typeName] ∧
      readMember (memberItems (modifiers.tokens ++ (type.tokens ++
          ((first.tokens ++ others.tokens) ++ [semicolon])))) =
        match readDeclarators (outline (first.tokens ++ others.tokens)) with
        | Option.none => .nothing
        | some declarators => .fields (fieldsOf
            ((modifiers.tokens ++ (type.tokens ++
              ((first.tokens ++ others.tokens) ++ [semicolon]))).head?.bind Token.doc)
            (marks.filterMap Value.modifier?) typeName declarators) := by
  have hList : Balanced (terminals (first.tokens ++ others.tokens)) :=
    (sequence first others).yields.balanced_of_nest rfl
  have hEnds := endsType_outline first hList
  obtain ⟨marks, typeName, hMarks, eachMark, hType, hSome, hRead⟩ :=
    readMember_typed modifiers type hEnds.endsSegment hEnds.endsDimensions
  refine ⟨marks, typeName, hMarks, eachMark, hType, ?_⟩
  -- The modifiers and the type are a header.
  let header : Derivation (.sequence (.rule .modifiers) (.rule .type)) := sequence modifiers type
  have hQuiet : Quiet .closed .closed header.tokens := header.yields.quiet rfl
  have hOutline : outline header.tokens = header.nodes := header.outline_tokens rfl
  have hAll : Balanced (terminals (header.tokens ++ (first.tokens ++ others.tokens))) := by
    rw [terminals_append]
    exact hQuiet.balanced.append hList
  have hShape : modifiers.tokens ++ (type.tokens ++ ((first.tokens ++ others.tokens) ++ [semicolon]))
      = (header.tokens ++ (first.tokens ++ others.tokens)) ++ [semicolon] := by
    simp [header]
  rw [hShape] at hMember
  have hNodes : header.nodes ++ outline (first.tokens ++ others.tokens) =
      modifiers.nodes ++ (type.nodes ++ outline (first.tokens ++ others.tokens)) := by
    simp [header]
  have hDoc := hQuiet.doc_outline (by rw [hOutline]; exact hSome)
    (outline (first.tokens ++ others.tokens)) ((first.tokens ++ others.tokens) ++ [semicolon])
  rw [hOutline, hNodes, ← List.append_assoc header.tokens, ← hShape] at hDoc
  rw [hShape, hMember.items_of_semicolon hAll hSemicolon, header.outline_append rfl hList, hNodes,
    hRead, hDoc, hShape]

/-- **A field of a best derivation is read as what it means.** -/
theorem readMember_field (d : Derivation (.rule .fieldDeclaration)) (hMember : IsMember d.tokens)
    (hBest : d.IsBest) (hAssigns : AssignsItems d.tokens) :
    ∃ fields, d.values = some [.fields fields] ∧
      readMember (memberItems d.tokens) = .fields fields := by
  obtain ⟨body, rfl⟩ := d.exists_rule
  obtain ⟨modifiers, behindModifiers, rfl⟩ := exists_sequence body
  obtain ⟨type, behindType, rfl⟩ := exists_sequence behindModifiers
  obtain ⟨list, last, rfl⟩ := exists_sequence behindType
  obtain ⟨first, others, rfl⟩ := exists_sequence list
  obtain ⟨semicolon, hSemicolon, rfl⟩ := exists_terminal last
  replace hBest : (sequence first others).IsBest :=
    hBest.of_rule.of_sequence.2.of_sequence.2.of_sequence.1
  replace hAssigns : AssignsItems (modifiers.tokens ++ (type.tokens ++
    ((first.tokens ++ others.tokens) ++ [semicolon]))) := hAssigns
  obtain ⟨declarator, declarators, hFirst, hOthers, hCuts⟩ := values_declarators others first hBest
    hAssigns.of_append.2.of_append.2.of_append.1
  obtain ⟨marks, typeName, hMarks, eachMark, hType, hRead⟩ :=
    readMember_declarators modifiers type first others hSemicolon hMember
  rw [hCuts.readDeclarators] at hRead
  exact ⟨_, values_rule (values_sequence hMarks (values_sequence hType (values_sequence
    (show (sequence first others).values = some ((declarator :: declarators).map .declarator)
      from values_sequence hFirst hOthers)
    (values_dropped hSemicolon rfl)))) (make_field eachMark _ _ _), hRead⟩

/-- **Every declaration of fields is read as fields**, at least one of them.  They differ in what
their declarators say. -/
theorem exists_readMember_field (d : Derivation (.rule .fieldDeclaration))
    (hMember : IsMember d.tokens) :
    ∃ modifiers type declarator declarators, readMember (memberItems d.tokens) =
      .fields (fieldsOf d.doc modifiers type (declarator :: declarators)) := by
  obtain ⟨body, rfl⟩ := d.exists_rule
  obtain ⟨modifiers, behindModifiers, rfl⟩ := exists_sequence body
  obtain ⟨type, behindType, rfl⟩ := exists_sequence behindModifiers
  obtain ⟨list, last, rfl⟩ := exists_sequence behindType
  obtain ⟨first, others, rfl⟩ := exists_sequence list
  obtain ⟨semicolon, hSemicolon, rfl⟩ := exists_terminal last
  obtain ⟨declarator, declarators, hDeclarators⟩ := exists_readDeclarators others first
  obtain ⟨_, _, _, _, _, hRead⟩ :=
    readMember_declarators modifiers type first others hSemicolon hMember
  rw [hDeclarators] at hRead
  exact ⟨_, _, declarator, declarators, hRead⟩

/-- No derivation of a field is read as a type. -/
theorem readMember_field_ne_type (d : Derivation (.rule .fieldDeclaration))
    (hMember : IsMember d.tokens) (declaration : TypeDecl) :
    readMember (memberItems d.tokens) ≠ .type declaration := by
  obtain ⟨_, _, _, _, hRead⟩ := d.exists_readMember_field hMember
  rw [hRead]
  exact Member.noConfusion

end Derivation

/-! ## Members that are read as nothing -/

/-- Items that stand where a declarator would go on. -/
def Node.blocks : Node → Bool
  | parens | braces _ _ => true
  | word token => token.terminal = .lessThan
  | annotationUse _ _ => false

/-- A part that begins no declarator, in front of all others, leaves no declarators. -/
private theorem readDeclarators_of_other {nodes part : List Node} {parts : List (List Node)}
    (hSplit : splitCommas nodes = part :: parts) (hOther : openingOf part = .other) :
    readDeclarators nodes = none := by
  rw [readDeclarators, hSplit, List.map_cons, hOther]
  rfl

private theorem readDeclarators_blocks {node : Node} (h : node.blocks = true) (rest : List Node) :
    readDeclarators (node :: rest) = none := by
  obtain ⟨part, parts, hRest⟩ := List.exists_cons_of_ne_nil (splitCommas_ne_nil rest)
  cases node with
  | word token =>
      have hToken : token.terminal = .lessThan := of_decide_eq_true h
      refine readDeclarators_of_other (splitCommas_other ?_ hRest) ?_
      · simp [Node.isWord, hToken]
      · simp [openingOf, hToken]
  | parens | braces => exact readDeclarators_of_other (splitCommas_other rfl hRest) rfl
  | annotationUse => cases h

private theorem readDeclarators_name {name : Token} (hName : name.terminal = .identifier)
    {node : Node} (h : node.blocks = true) (rest : List Node) :
    readDeclarators (.word name :: node :: rest) = none := by
  obtain ⟨part, parts, hRest⟩ := List.exists_cons_of_ne_nil (splitCommas_ne_nil rest)
  have hWord : (Node.word name).isWord .comma = false := by simp [Node.isWord, hName]
  have hNode : node.isWord .comma = false ∧ node.isWord .equalSign = false ∧
      EndsDimensions (node :: part) := by
    cases node with
    | word token =>
        have hToken : token.terminal = .lessThan := of_decide_eq_true h
        exact ⟨by simp [Node.isWord, hToken], by simp [Node.isWord, hToken],
          .word (by rw [hToken]; decide) part⟩
    | parens | braces => exact ⟨rfl, rfl, fun _ => rfl⟩
    | annotationUse => cases h
  refine readDeclarators_of_other (splitCommas_other hWord (splitCommas_other hNode.1 hRest)) ?_
  simp [openingOf, hName, readDimensions, hNode.2.2 _, hNode.2.1]

namespace Derivation

/-- Neither an angle bracket nor a group begins a type. -/
private theorem readMember_blocks (modifiers : Derivation (.rule .modifiers)) {node : Node}
    (h : node.blocks = true) (rest : List Node) :
    readMember (modifiers.nodes ++ node :: rest) = .nothing := by
  obtain ⟨marks, _, _, hReadModifiers⟩ := modifiers.values_modifiers
  have hSplit : readModifiers (modifiers.nodes ++ node :: rest) =
      (marks.filterMap Value.modifier?, node :: rest) := by
    rw [hReadModifiers]
    cases node with
    | word token =>
        have hToken : token.terminal = .lessThan := of_decide_eq_true h
        rw [readModifiers_word (by simp [Node.isModifier, hToken]), List.append_nil]
    | parens | braces => simp [readModifiers]
    | annotationUse => cases h
  unfold readMember
  simp only [hSplit]
  cases node with
  | word token =>
      have hToken : token.terminal = .lessThan := of_decide_eq_true h
      simp [hToken, readFields, readType, readTypeFrom, dropAnnotations]
  | parens | braces => simp [readFields, readType, readTypeFrom, dropAnnotations]
  | annotationUse => cases h

/-- A name by itself is a type. -/
private def ofName (name : Token) (h : name.terminal = .identifier) : Derivation (.rule .type) :=
  rule (r := .type) (sequence (rule (r := .classType) (sequence (rule (r := .typeSegment)
    (sequence none (sequence (terminal name h) absent))) none)) absent)

private theorem readMember_of_no_declarators (modifiers : Derivation (.rule .modifiers))
    (type : Derivation (.rule .type)) {after : List Node} (hSegment : EndsSegment after)
    (hDimensions : EndsDimensions after) (hNone : readDeclarators after = Option.none) :
    readMember (modifiers.nodes ++ (type.nodes ++ after)) = .nothing := by
  obtain ⟨_, _, _, _, _, _, hRead⟩ := readMember_typed modifiers type hSegment hDimensions
  rw [hRead, hNone]

/-- A constructor has no type, but its name looks like one. -/
private theorem readMember_constructor (modifiers : Derivation (.rule .modifiers)) {name : Token}
    (hName : name.terminal = .identifier) {node : Node} (h : node.blocks = true)
    (hNoWord : ∀ token, node ≠ .word token) (rest : List Node) :
    readMember (modifiers.nodes ++ .word name :: node :: rest) = .nothing := by
  refine readMember_of_no_declarators modifiers (ofName name hName) ?_ ?_
    (readDeclarators_blocks h rest)
  · intro token others hNode
    cases hNode
    exact absurd rfl (hNoWord token)
  · cases node with
    | word token => exact absurd rfl (hNoWord token)
    | parens | braces => exact fun _ => rfl
    | annotationUse => cases h

/-- A name behind a type, and something else than a declarator. -/
private theorem readMember_named (modifiers : Derivation (.rule .modifiers))
    (type : Derivation (.rule .type)) {name : Token} (hName : name.terminal = .identifier)
    {node : Node} (h : node.blocks = true) (rest : List Node) :
    readMember (modifiers.nodes ++ (type.nodes ++ .word name :: node :: rest)) = .nothing := by
  have hEnds : EndsType (.word name :: node :: rest) := ⟨name, _, rfl, .inl hName⟩
  exact readMember_of_no_declarators modifiers type hEnds.endsSegment hEnds.endsDimensions
    (readDeclarators_name hName h rest)

private theorem nodes_typeParameters (d : Derivation (.rule .typeParameters)) :
    ∃ opening rest, opening.terminal = .lessThan ∧ d.nodes = .word opening :: rest := by
  obtain ⟨body, rfl⟩ := d.exists_rule
  obtain ⟨openingPart, list, rfl⟩ := exists_sequence body
  obtain ⟨opening, hOpening, rfl⟩ := exists_terminal openingPart
  exact ⟨opening, _, hOpening, rfl⟩

/-- The items of a member that has parentheses behind its header. -/
private theorem items_of_parens {e : Expr} (header : Derivation e)
    (hFlow : e.flow .closed = some .closed) {group back : List Token}
    (h : IsMember (header.tokens ++ (group ++ back))) (hGroup : (Expr.rule .parenGroup).Yields group)
    (hBack : Balanced (terminals back)) :
    ∃ left, memberItems (header.tokens ++ (group ++ back)) = header.nodes ++ .parens :: left := by
  have hQuiet : Quiet .closed .closed header.tokens := header.yields.quiet hFlow
  obtain ⟨left, hItems⟩ := h.keeps (outline_parens hQuiet hGroup hBack) rfl
  rw [hItems, header.outline_tokens hFlow]
  exact ⟨left, rfl⟩

/-- The items of a member that has a block behind its header. -/
private theorem items_of_block {e : Expr} (header : Derivation e)
    (hFlow : e.flow .closed = some .closed) {block : List Token}
    (h : IsMember (header.tokens ++ block)) (hBlock : (Expr.rule .block).Yields block) :
    ∃ asClass asEnum left,
      memberItems (header.tokens ++ block) = header.nodes ++ .braces asClass asEnum :: left := by
  have hQuiet : Quiet .closed .closed header.tokens := header.yields.quiet hFlow
  obtain ⟨opening, inner, closing, rfl, hOpening, hInner, hClosing⟩ :=
    (@yields_group_iff .brace _).mp hBlock
  obtain ⟨left, hItems⟩ := h.keeps (outline_braces hQuiet.balanced hOpening hInner hClosing) rfl
  rw [hItems, header.outline_tokens hFlow]
  exact ⟨_, _, left, rfl⟩

private theorem readMember_method (d : Derivation (.rule .methodDeclaration))
    (hMember : IsMember d.tokens) : readMember (memberItems d.tokens) = .nothing := by
  obtain ⟨body, rfl⟩ := d.exists_rule
  obtain ⟨modifiers, behindModifiers, rfl⟩ := exists_sequence body
  obtain ⟨params, behindParams, rfl⟩ := exists_sequence behindModifiers
  obtain ⟨type, behindType, rfl⟩ := exists_sequence behindParams
  obtain ⟨namePart, behindName, rfl⟩ := exists_sequence behindType
  obtain ⟨name, hName, rfl⟩ := exists_terminal namePart
  obtain ⟨group, back, rfl⟩ := exists_sequence behindName
  let header : Derivation (.sequence (.rule .modifiers) (.sequence (.optional (.rule
      .typeParameters)) (.sequence (.optional (.rule .type)) (.terminal .identifier)))) :=
    sequence modifiers (sequence params (sequence type (terminal name hName)))
  have hShape : modifiers.tokens ++ (params.tokens ++ (type.tokens ++ ([name] ++
      (group.tokens ++ back.tokens)))) = header.tokens ++ (group.tokens ++ back.tokens) := by
    simp [header]
  replace hMember : IsMember (modifiers.tokens ++ (params.tokens ++ (type.tokens ++ ([name] ++
    (group.tokens ++ back.tokens))))) := hMember
  show readMember (memberItems (modifiers.tokens ++ (params.tokens ++ (type.tokens ++ ([name] ++
    (group.tokens ++ back.tokens)))))) = _
  rw [hShape] at hMember ⊢
  obtain ⟨left, hItems⟩ :=
    items_of_parens header rfl hMember group.yields (back.yields.balanced_of_nest rfl)
  rw [hItems]
  show readMember (modifiers.nodes ++ (params.nodes ++ (type.nodes ++ [.word name])) ++
    .parens :: left) = _
  rw [List.append_assoc, List.append_assoc, List.append_assoc, List.singleton_append]
  rcases params.optional_cases with rfl | ⟨angled, rfl⟩
  · rcases type.optional_cases with rfl | ⟨type, rfl⟩
    · exact readMember_constructor modifiers hName rfl (by simp) left
    · exact readMember_named modifiers type hName rfl left
  · obtain ⟨opening, rest, hOpening, hNodes⟩ := angled.nodes_typeParameters
    show readMember (modifiers.nodes ++ (angled.nodes ++ _)) = _
    rw [hNodes]
    have hBlocks : (Node.word opening).blocks = true := decide_eq_true hOpening
    exact readMember_blocks modifiers hBlocks _

/-- The word in front of a record is a name, and so a type for the reader. -/
private theorem readMember_record (d : Derivation (.rule .recordDeclaration))
    (hMember : IsMember d.tokens) : readMember (memberItems d.tokens) = .nothing := by
  obtain ⟨body, rfl⟩ := d.exists_rule
  obtain ⟨modifiers, behindModifiers, rfl⟩ := exists_sequence body
  obtain ⟨wordPart, behindWord, rfl⟩ := exists_sequence behindModifiers
  obtain ⟨word, hWord, rfl⟩ := exists_terminal wordPart
  obtain ⟨namePart, behindName, rfl⟩ := exists_sequence behindWord
  obtain ⟨name, hName, rfl⟩ := exists_terminal namePart
  obtain ⟨params, behindParams, rfl⟩ := exists_sequence behindName
  obtain ⟨group, back, rfl⟩ := exists_sequence behindParams
  let header : Derivation (.sequence (.rule .modifiers) (.sequence (.terminal .identifier)
      (.sequence (.terminal .identifier) (.optional (.rule .typeParameters))))) :=
    sequence modifiers (sequence (terminal word hWord) (sequence (terminal name hName) params))
  have hShape : modifiers.tokens ++ ([word] ++ ([name] ++ (params.tokens ++
      (group.tokens ++ back.tokens)))) = header.tokens ++ (group.tokens ++ back.tokens) := by
    simp [header]
  replace hMember : IsMember (modifiers.tokens ++ ([word] ++ ([name] ++ (params.tokens ++
    (group.tokens ++ back.tokens))))) := hMember
  show readMember (memberItems (modifiers.tokens ++ ([word] ++ ([name] ++ (params.tokens ++
    (group.tokens ++ back.tokens)))))) = _
  rw [hShape] at hMember ⊢
  obtain ⟨left, hItems⟩ :=
    items_of_parens header rfl hMember group.yields (back.yields.balanced_of_nest rfl)
  rw [hItems]
  show readMember (modifiers.nodes ++ ([.word word] ++ ([.word name] ++ params.nodes)) ++
    .parens :: left) = _
  have hRecord : ∀ {node : Node} (rest : List Node), node.blocks = true →
      readMember (modifiers.nodes ++ (.word word :: .word name :: node :: rest)) = .nothing :=
    fun rest hNode => readMember_named modifiers (ofName word hWord) hName hNode rest
  rw [List.append_assoc]
  rcases params.optional_cases with rfl | ⟨angled, rfl⟩
  · exact hRecord left rfl
  · obtain ⟨opening, rest, hOpening, hNodes⟩ := angled.nodes_typeParameters
    show readMember (modifiers.nodes ++ (.word word :: .word name :: (angled.nodes ++ _))) = _
    rw [hNodes]
    exact hRecord _ (decide_eq_true hOpening)

private theorem readMember_initializer (d : Derivation (.rule .initializer))
    (hMember : IsMember d.tokens) : readMember (memberItems d.tokens) = .nothing := by
  obtain ⟨body, rfl⟩ := d.exists_rule
  obtain ⟨header, block, rfl⟩ := exists_sequence body
  obtain ⟨asClass, asEnum, left, hItems⟩ := items_of_block header rfl hMember block.yields
  show readMember (memberItems (header.tokens ++ block.tokens)) = _
  rw [hItems]
  rcases header.optional_cases with rfl | ⟨word, rfl⟩
  · exact readMember_blocks (rule (r := .modifiers) none) rfl left
  · obtain ⟨token, hToken, rfl⟩ := word.exists_terminal
    exact @readMember_blocks (rule (r := .modifiers) (more (right (right (terminal token hToken)))
      none)) (.braces asClass asEnum) rfl left

private theorem readMember_compactConstructor (d : Derivation (.rule .compactConstructor))
    (hMember : IsMember d.tokens) : readMember (memberItems d.tokens) = .nothing := by
  obtain ⟨body, rfl⟩ := d.exists_rule
  obtain ⟨modifiers, behindModifiers, rfl⟩ := exists_sequence body
  obtain ⟨namePart, block, rfl⟩ := exists_sequence behindModifiers
  obtain ⟨name, hName, rfl⟩ := exists_terminal namePart
  let header : Derivation (.sequence (.rule .modifiers) (.terminal .identifier)) :=
    sequence modifiers (terminal name hName)
  have hShape : modifiers.tokens ++ ([name] ++ block.tokens) = header.tokens ++ block.tokens := by
    simp [header]
  replace hMember : IsMember (modifiers.tokens ++ ([name] ++ block.tokens)) := hMember
  show readMember (memberItems (modifiers.tokens ++ ([name] ++ block.tokens))) = _
  rw [hShape] at hMember ⊢
  obtain ⟨asClass, asEnum, left, hItems⟩ := items_of_block header rfl hMember block.yields
  rw [hItems]
  show readMember (modifiers.nodes ++ [.word name] ++ .braces asClass asEnum :: left) = _
  rw [List.append_assoc]
  exact readMember_constructor modifiers hName rfl (by simp) left

/-- **Methods, constructors, initializers and records are read as nothing.** -/
theorem readMember_nothing {r : Rule} (hPlain : r.isPlain = true) (hPassed : r.isPassed = true)
    (d : Derivation (.rule r)) (hMember : IsMember d.tokens) :
    readMember (memberItems d.tokens) = .nothing := by
  cases r <;> cases hPlain <;> cases hPassed
  case methodDeclaration => exact readMember_method d hMember
  case initializer => exact readMember_initializer d hMember
  case compactConstructor => exact readMember_compactConstructor d hMember
  case recordDeclaration => exact readMember_record d hMember

end Derivation

end ClassSchema.Java
