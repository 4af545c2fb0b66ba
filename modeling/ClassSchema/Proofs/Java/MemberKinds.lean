import ClassSchema.Proofs.Java.BareItems
import ClassSchema.Proofs.Java.MemberRules

/-!
# What members declare at all

The first word behind the modifiers tells a declared type from the rest.  Fields,
methods, constructors, initializers and records show a name, an angle bracket or
braces there, in every derivation, so none of them is ever read as a type.

## Main results

* `declaredKind_of_isPlain`: what is no declaration of a type is not read as one.
* `declaredKind_of_declaration`: a declaration of a type is read as what it is.
-/

namespace ClassSchema.Java

open ClassSchema.Java.Expr Expr.Yields

/-! ## Modifiers -/

/-- Whether an item may stand among modifiers. -/
def Node.isModifier : Node → Bool
  | word token => token.terminal = .modifier || token.terminal = .staticWord
  | annotationUse _ _ => true
  | _ => false

theorem readModifiers_append {front : List Node} (h : ∀ item ∈ front, item.isModifier = true)
    (rest : List Node) : (readModifiers (front ++ rest)).2 = (readModifiers rest).2 := by
  induction front with
  | nil => rfl
  | cons item front ih =>
      obtain ⟨hItem, each⟩ := List.forall_mem_cons.mp h
      cases item with
      | word token =>
          have hModifier : token.terminal = .modifier ∨ token.terminal = .staticWord := by
            simpa [Node.isModifier] using hItem
          rw [List.cons_append, readModifiers, if_pos hModifier]
          exact ih each
      | annotationUse => exact ih each
      | parens => cases hItem
      | braces => cases hItem

theorem declaredKind_append {front : List Node} (h : ∀ item ∈ front, item.isModifier = true)
    (rest : List Node) : declaredKind (front ++ rest) = declaredKind rest := by
  unfold declaredKind
  rw [readModifiers_append h]

/-- Modifiers put items that may stand among modifiers. -/
theorem modifiers_behind {tokens : List Token} (h : (rule .modifiers).Yields tokens) :
    ∃ items : List Node, (∀ item ∈ items, item.isModifier = true) ∧
      ∀ level, behind level tokens = items.reverse ++ level := by
  obtain ⟨parts, rfl, each⟩ := many_iff.mp (rule_iff.mp h)
  clear h
  induction parts with
  | nil => exact ⟨[], by simp, by simp⟩
  | cons part parts ih =>
      obtain ⟨hPart, others⟩ := List.forall_mem_cons.mp each
      obtain ⟨items, hItems, hBehind⟩ := ih others
      have hOne : ∃ item : Node, item.isModifier = true ∧ Balanced (terminals part) ∧
          ∀ level, behind level part = item :: level := by
        simp only [oneOf, choice_iff] at hPart
        rcases hPart with hUse | hWord
        · obtain ⟨start, isOpen, hUseBehind⟩ := annotationUse_behind hUse
          exact ⟨_, rfl, hUse.balanced, hUseBehind⟩
        · obtain ⟨token, rfl, hToken⟩ : ∃ token, part = [token] ∧
              (token.terminal = .modifier ∨ token.terminal = .staticWord) := by
            rcases hWord with hWord | hWord
            · obtain ⟨token, rfl, hToken⟩ := terminal_iff.mp hWord
              exact ⟨token, rfl, .inl hToken⟩
            · obtain ⟨token, rfl, hToken⟩ := terminal_iff.mp hWord
              exact ⟨token, rfl, .inr hToken⟩
          have hOther : token.terminal.isBracket = false := by
            rcases hToken with hToken | hToken <;> rw [hToken] <;> rfl
          have hNoName : token.terminal ≠ .identifier := by
            rcases hToken with hToken | hToken <;> rw [hToken] <;> decide
          refine ⟨.word token, by simpa [Node.isModifier] using hToken, .other hOther .nil, ?_⟩
          intro level
          rw [behind_other hOther, behind_nil, pushWord_of_ne hNoName]
      obtain ⟨item, hItem, hBalanced, hFirst⟩ := hOne
      refine ⟨item :: items, List.forall_mem_cons.mpr ⟨hItem, hItems⟩, ?_⟩
      intro level
      rw [List.flatten_cons, behind_append hBalanced, hFirst, hBehind]
      simp

theorem yields_modifiers_append {front back : List Token}
    (hFront : (rule .modifiers).Yields front) (hBack : (rule .modifiers).Yields back) :
    (rule .modifiers).Yields (front ++ back) :=
  rule_iff.mpr (many_append (rule_iff.mp hFront) (rule_iff.mp hBack))

/-- Annotations alone are modifiers as well. -/
private theorem yields_modifiers_of_annotations {tokens : List Token}
    (h : (many (rule .annotationUse)).Yields tokens) : (rule .modifiers).Yields tokens := by
  obtain ⟨parts, rfl, each⟩ := many_iff.mp h
  exact rule_iff.mpr (many_iff.mpr
    ⟨parts, rfl, fun part mem => choice_iff.mpr (.inl (each part mem))⟩)

/-! ## The word behind the modifiers -/

/-- The rest of balanced tokens is balanced where a balanced part is cut off. -/
theorem Balanced.of_append {front back : List Terminal} (hFront : Balanced front)
    (h : Balanced (front ++ back)) : Balanced back := by
  rw [balanced_iff_stillOpen] at h ⊢
  rw [stillOpen_append, hFront.stillOpen_eq] at h
  exact h

/-- What precedes an item that is no semicolon belongs to the member. -/
theorem Makes.keeps {nodes items front rest : List Node} {node : Node}
    (h : Makes nodes items) (hNodes : nodes = front ++ node :: rest)
    (hNode : node.isWord .semicolon = false) : ∃ left, items = front ++ node :: left := by
  cases h with
  | @semicolon _ _ token hRun hToken =>
      rcases List.eq_nil_or_concat rest with rfl | ⟨before, last, rfl⟩
      · obtain ⟨_, hLast⟩ := List.append_inj' hNodes rfl
        cases hLast
        simp [Node.isWord, hToken] at hNode
      · have hShape : front ++ node :: (before ++ [last]) =
            (front ++ node :: before) ++ [last] := by
          simp
        rw [List.concat_eq_append, hShape] at hNodes
        obtain ⟨rfl, _⟩ := List.append_inj' hNodes rfl
        exact ⟨before, rfl⟩
  | braces => exact ⟨rest, hNodes⟩

theorem IsMember.keeps {tokens : List Token} (h : IsMember tokens) {front rest : List Node}
    {node : Node} (hNodes : outline tokens = front ++ node :: rest)
    (hNode : node.isWord .semicolon = false) :
    ∃ left, memberItems tokens = front ++ node :: left := by
  obtain ⟨items, hMakes⟩ := h.makes
  rw [memberItems_eq hMakes]
  exact hMakes.keeps hNodes hNode

/-- The word that follows the modifiers of a member decides what it declares. -/
theorem declaredKind_of_word {modifiers more : List Token} {token : Token}
    (hModifiers : (rule .modifiers).Yields modifiers)
    (hMember : IsMember (modifiers ++ token :: more))
    (hOther : token.terminal.isBracket = false) (hSign : token.terminal ≠ .atSign)
    (hDot : token.terminal ≠ .dot) (hSemicolon : token.terminal ≠ .semicolon)
    (hNone : (Node.word token).isModifier = false) :
    declaredKind (memberItems (modifiers ++ token :: more)) = token.terminal.declares := by
  obtain ⟨front, hFront, hBehind⟩ := modifiers_behind hModifiers
  have hQuiet : Quiet .closed .annotated modifiers := hModifiers.quiet rfl
  have hPush : pushWord token (behind [] modifiers) = .word token :: behind [] modifiers :=
    pushWord_of_annotated hQuiet.outline_items.2 token
  have hShape : modifiers ++ token :: more = (modifiers ++ [token]) ++ more := by simp
  have hStem : Balanced (terminals (modifiers ++ [token])) := by
    rw [terminals_append]
    exact hQuiet.balanced.append (.other hOther .nil)
  have hMore : Balanced (terminals more) := by
    have hAll := hMember.balanced
    rw [hShape, terminals_append] at hAll
    exact hStem.of_append hAll
  have hLevel : behind [] (modifiers ++ [token]) = .word token :: front.reverse := by
    rw [behind_append hQuiet.balanced, behind_other hOther, behind_nil, hPush, hBehind,
      List.append_nil]
  have hOutline : outline (modifiers ++ token :: more) = front ++ .word token :: outline more := by
    rw [hShape, outline_append hStem (by rw [hLevel]; exact isClosed_word hSign hDot _) hMore,
      outline_eq_reverse (modifiers ++ [token]), hLevel]
    simp
  obtain ⟨left, hItems⟩ := hMember.keeps hOutline (by simp [Node.isWord, hSemicolon])
  have hWord : ¬ (token.terminal = .modifier ∨ token.terminal = .staticWord) := by
    simpa [Node.isModifier] using hNone
  rw [hItems, declaredKind_append hFront, declaredKind, readModifiers, if_neg hWord]

private theorem declaredKind_of_name {modifiers more : List Token} {name : Token}
    (hModifiers : (rule .modifiers).Yields modifiers)
    (hMember : IsMember (modifiers ++ name :: more)) (hName : name.terminal = .identifier) :
    declaredKind (memberItems (modifiers ++ name :: more)) = none := by
  rw [declaredKind_of_word hModifiers hMember, hName]
  · rfl
  all_goals simp [hName, Terminal.isBracket, Node.isModifier]

/-- A type begins with a name, behind annotations perhaps. -/
private theorem type_name {tokens : List Token} (h : (rule .type).Yields tokens) :
    ∃ modifiers name more, tokens = modifiers ++ name :: more ∧
      (rule .modifiers).Yields modifiers ∧ name.terminal = .identifier := by
  obtain ⟨_, dimensions, rfl, hClass, _⟩ := sequence_iff.mp (rule_iff.mp h)
  obtain ⟨_, segments, rfl, hSegment, _⟩ := sequence_iff.mp (rule_iff.mp hClass)
  obtain ⟨annotations, _, rfl, hAnnotations, hRest⟩ := sequence_iff.mp (rule_iff.mp hSegment)
  obtain ⟨_, arguments, rfl, namePart, _⟩ := sequence_iff.mp hRest
  obtain ⟨name, rfl, hName⟩ := terminal_iff.mp namePart
  refine ⟨annotations, name, arguments ++ segments ++ dimensions, by simp,
    yields_modifiers_of_annotations hAnnotations, hName⟩

private theorem declaredKind_of_type {modifiers type more : List Token}
    (hModifiers : (rule .modifiers).Yields modifiers) (hType : (rule .type).Yields type)
    (hMember : IsMember (modifiers ++ (type ++ more))) :
    declaredKind (memberItems (modifiers ++ (type ++ more))) = none := by
  obtain ⟨annotations, name, rest, rfl, hAnnotations, hName⟩ := type_name hType
  have hShape : modifiers ++ (annotations ++ name :: rest ++ more) =
      (modifiers ++ annotations) ++ name :: (rest ++ more) := by simp
  rw [hShape] at hMember ⊢
  exact declaredKind_of_name (yields_modifiers_append hModifiers hAnnotations) hMember hName

/-! ## Members that declare no type -/

/-- Whether a rule for members is for something else than types. -/
def Rule.isPlain : Rule → Bool
  | fieldDeclaration | methodDeclaration | initializer | compactConstructor
  | recordDeclaration => true
  | _ => false

private theorem declaredKind_field {tokens : List Token}
    (h : (rule .fieldDeclaration).Yields tokens) : declaredKind (memberItems tokens) = none := by
  have hMember := isMember_of_yields (rule_iff.mpr (choice_iff.mpr (.inl h)))
  obtain ⟨modifiers, _, rfl, hModifiers, hRest⟩ := sequence_iff.mp (rule_iff.mp h)
  obtain ⟨type, rest, rfl, hType, _⟩ := sequence_iff.mp hRest
  exact declaredKind_of_type hModifiers hType hMember

private theorem declaredKind_method {tokens : List Token}
    (h : (rule .methodDeclaration).Yields tokens) : declaredKind (memberItems tokens) = none := by
  have hMember := isMember_of_yields
    (rule_iff.mpr (choice_iff.mpr (.inr (choice_iff.mpr (.inl h)))))
  obtain ⟨modifiers, _, rfl, hModifiers, afterModifiers⟩ := sequence_iff.mp (rule_iff.mp h)
  obtain ⟨typeParams, _, rfl, paramsPart, afterParams⟩ := sequence_iff.mp afterModifiers
  rcases optional_iff.mp paramsPart with rfl | hParams
  · obtain ⟨type, _, rfl, typePart, afterType⟩ := sequence_iff.mp afterParams
    rcases optional_iff.mp typePart with rfl | hType
    · obtain ⟨_, rest, rfl, namePart, _⟩ := sequence_iff.mp afterType
      obtain ⟨name, rfl, hName⟩ := terminal_iff.mp namePart
      exact declaredKind_of_name hModifiers hMember hName
    · exact @declaredKind_of_type modifiers type _ hModifiers hType hMember
  · obtain ⟨_, more, rfl, openingPart, _⟩ := sequence_iff.mp (rule_iff.mp hParams)
    obtain ⟨opening, rfl, hOpening⟩ := terminal_iff.mp openingPart
    have hAll := @declaredKind_of_word _ _ opening hModifiers hMember
    rw [hOpening] at hAll
    apply hAll
    all_goals first | decide | simp [hOpening, Node.isModifier]

private theorem declaredKind_initializer {tokens : List Token}
    (h : (rule .initializer).Yields tokens) : declaredKind (memberItems tokens) = none := by
  obtain ⟨header, body, rfl, hHeader, hBody⟩ := sequence_iff.mp (rule_iff.mp h)
  obtain ⟨opening, inner, closing, rfl, hOpening, hInner, hClosing⟩ :=
    (@yields_group_iff .brace _).mp hBody
  have hQuiet : Quiet .closed .closed header := hHeader.quiet rfl
  have hFront : ∀ item ∈ outline header, item.isModifier = true := by
    rcases optional_iff.mp hHeader with rfl | hStatic
    · intro item mem
      cases mem
    · obtain ⟨token, rfl, hToken⟩ := terminal_iff.mp hStatic
      have hOther : token.terminal.isBracket = false := by rw [hToken]; rfl
      have hNoName : token.terminal ≠ .identifier := by rw [hToken]; decide
      rw [outline_eq_reverse, behind_other hOther, behind_nil, pushWord_of_ne hNoName]
      simp [Node.isModifier, hToken]
  have hMakes := Makes.braces (readClassBody (outline inner)) (readEnumBody (outline inner))
    (hQuiet.run_outline .open) (by decide)
  rw [← outline_braces hQuiet.balanced hOpening hInner hClosing] at hMakes
  rw [memberItems_eq hMakes, outline_braces hQuiet.balanced hOpening hInner hClosing,
    declaredKind_append hFront]
  rfl

private theorem declaredKind_compactConstructor {tokens : List Token}
    (h : (rule .compactConstructor).Yields tokens) :
    declaredKind (memberItems tokens) = none := by
  have hMember := isMember_of_yields (rule_iff.mpr (choice_iff.mpr (.inr (choice_iff.mpr
    (.inr (choice_iff.mpr (.inr (choice_iff.mpr (.inl h)))))))))
  obtain ⟨modifiers, _, rfl, hModifiers, hRest⟩ := sequence_iff.mp (rule_iff.mp h)
  obtain ⟨_, rest, rfl, namePart, _⟩ := sequence_iff.mp hRest
  obtain ⟨name, rfl, hName⟩ := terminal_iff.mp namePart
  exact declaredKind_of_name hModifiers hMember hName

private theorem declaredKind_record {tokens : List Token}
    (h : (rule .recordDeclaration).Yields tokens) : declaredKind (memberItems tokens) = none := by
  have hMember := isMember_of_yields_typeDeclaration (rule_iff.mpr (choice_iff.mpr (.inr
    (choice_iff.mpr (.inr (choice_iff.mpr (.inr (choice_iff.mpr (.inl h)))))))))
  obtain ⟨modifiers, _, rfl, hModifiers, hRest⟩ := sequence_iff.mp (rule_iff.mp h)
  obtain ⟨_, rest, rfl, namePart, _⟩ := sequence_iff.mp hRest
  obtain ⟨name, rfl, hName⟩ := terminal_iff.mp namePart
  exact declaredKind_of_name hModifiers hMember hName

/-- **What is no declaration of a type is not read as one.** -/
theorem declaredKind_of_isPlain {r : Rule} (hPlain : r.isPlain = true) {tokens : List Token}
    (h : (rule r).Yields tokens) : declaredKind (memberItems tokens) = none := by
  cases r <;> cases hPlain
  case fieldDeclaration => exact declaredKind_field h
  case methodDeclaration => exact declaredKind_method h
  case initializer => exact declaredKind_initializer h
  case compactConstructor => exact declaredKind_compactConstructor h
  case recordDeclaration => exact declaredKind_record h

/-! ## Declarations of types -/

/-- The at sign of an annotation type is no part of an annotation, since no name follows it. -/
private theorem declaredKind_of_sign {modifiers more : List Token} {sign word : Token}
    (hModifiers : (rule .modifiers).Yields modifiers)
    (hMember : IsMember (modifiers ++ sign :: word :: more)) (hSign : sign.terminal = .atSign)
    (hWord : word.terminal = .interfaceWord) :
    declaredKind (memberItems (modifiers ++ sign :: word :: more)) = some .interfaceDecl := by
  obtain ⟨front, hFront, hBehind⟩ := modifiers_behind hModifiers
  have hQuiet : Quiet .closed .annotated modifiers := hModifiers.quiet rfl
  have hSignOther : sign.terminal.isBracket = false := by rw [hSign]; rfl
  have hWordOther : word.terminal.isBracket = false := by rw [hWord]; rfl
  have hSignName : sign.terminal ≠ .identifier := by rw [hSign]; decide
  have hWordName : word.terminal ≠ .identifier := by rw [hWord]; decide
  have hShape : modifiers ++ sign :: word :: more = (modifiers ++ [sign, word]) ++ more := by simp
  have hStem : Balanced (terminals (modifiers ++ [sign, word])) := by
    rw [terminals_append]
    exact hQuiet.balanced.append (.other hSignOther (.other hWordOther .nil))
  have hMore : Balanced (terminals more) := by
    have hAll := hMember.balanced
    rw [hShape, terminals_append] at hAll
    exact hStem.of_append hAll
  have hLevel : behind [] (modifiers ++ [sign, word]) =
      .word word :: .word sign :: front.reverse := by
    rw [behind_append hQuiet.balanced, behind_other hSignOther, behind_other hWordOther,
      behind_nil, pushWord_of_ne hWordName, pushWord_of_ne hSignName, hBehind, List.append_nil]
  have hClosed : IsClosed (behind [] (modifiers ++ [sign, word])) = true := by
    rw [hLevel]
    exact isClosed_word (by rw [hWord]; decide) (by rw [hWord]; decide) _
  have hOutline : outline (modifiers ++ sign :: word :: more) =
      front ++ .word sign :: .word word :: outline more := by
    rw [hShape, outline_append hStem hClosed hMore, outline_eq_reverse (modifiers ++ [sign, word]),
      hLevel]
    simp
  obtain ⟨left, hItems⟩ := hMember.keeps hOutline (by simp [Node.isWord, hSign])
  have hNone : ¬ (sign.terminal = .modifier ∨ sign.terminal = .staticWord) := by
    simp [hSign]
  rw [hItems, declaredKind_append hFront, declaredKind, readModifiers, if_neg hNone]
  simp only [hSign]
  rfl

/-- **A declaration of a type is read as what it is.** -/
theorem declaredKind_of_declaration {kind : DeclKind} {tokens : List Token}
    (h : (rule kind.declaration).Yields tokens) :
    declaredKind (memberItems tokens) = some kind := by
  have hMember := isMember_declaration h
  cases kind with
  | classDecl =>
      obtain ⟨modifiers, _, rfl, hModifiers, hRest⟩ := sequence_iff.mp (rule_iff.mp h)
      obtain ⟨_, more, rfl, wordPart, _⟩ := sequence_iff.mp hRest
      obtain ⟨word, rfl, hWord⟩ := terminal_iff.mp wordPart
      have hAll := @declaredKind_of_word _ _ word hModifiers hMember
      simp only [hWord, Node.isModifier] at hAll
      exact hAll rfl (by decide) (by decide) (by decide) rfl
  | enumDecl =>
      obtain ⟨modifiers, _, rfl, hModifiers, hRest⟩ := sequence_iff.mp (rule_iff.mp h)
      obtain ⟨_, more, rfl, wordPart, _⟩ := sequence_iff.mp hRest
      obtain ⟨word, rfl, hWord⟩ := terminal_iff.mp wordPart
      have hAll := @declaredKind_of_word _ _ word hModifiers hMember
      simp only [hWord, Node.isModifier] at hAll
      exact hAll rfl (by decide) (by decide) (by decide) rfl
  | interfaceDecl =>
      obtain ⟨modifiers, _, rfl, hModifiers, afterModifiers⟩ := sequence_iff.mp (rule_iff.mp h)
      obtain ⟨_, _, rfl, signPart, afterSign⟩ := sequence_iff.mp afterModifiers
      obtain ⟨_, more, rfl, wordPart, _⟩ := sequence_iff.mp afterSign
      obtain ⟨word, rfl, hWord⟩ := terminal_iff.mp wordPart
      rcases optional_iff.mp signPart with rfl | hSignPart
      · have hAll := @declaredKind_of_word _ more word hModifiers hMember
        simp only [hWord, Node.isModifier] at hAll
        exact hAll rfl (by decide) (by decide) (by decide) rfl
      · obtain ⟨sign, rfl, hSign⟩ := terminal_iff.mp hSignPart
        exact declaredKind_of_sign hModifiers hMember hSign hWord

/-- The items of a declared type: a quiet header, and braces that hold its body. -/
theorem memberItems_of_declaration {kind : DeclKind} {header inner : List Token}
    {opening closing : Token} (hHeader : kind.header.Yields header)
    (hOpening : opening.terminal = .leftBrace) (hInner : Balanced (terminals inner))
    (hClosing : closing.terminal = .rightBrace) :
    memberItems (header ++ (opening :: inner ++ [closing])) =
      outline header ++
        [.braces (readClassBody (outline inner)) (readEnumBody (outline inner))] := by
  have hQuiet := DeclKind.quiet_header hHeader
  have hMakes := Makes.braces (readClassBody (outline inner)) (readEnumBody (outline inner))
    (hQuiet.run_outline .open) (by decide)
  rw [← outline_braces hQuiet.balanced hOpening hInner hClosing] at hMakes
  rw [memberItems_eq hMakes, outline_braces hQuiet.balanced hOpening hInner hClosing]

/-! ## Bodies of enums -/

private theorem takeWhile_constants {constants rest : List Node} {token : Token}
    (h : ∀ node ∈ constants, node.isWord .semicolon = false)
    (hToken : token.terminal = .semicolon) :
    (constants ++ .word token :: rest).takeWhile (!·.isWord .semicolon) = constants ∧
      (constants ++ .word token :: rest).dropWhile (!·.isWord .semicolon) =
        .word token :: rest := by
  have hEnd : (Node.word token).isWord .semicolon = true := by simp [Node.isWord, hToken]
  induction constants with
  | nil => simp [hEnd]
  | cons node constants ih =>
      obtain ⟨hNode, each⟩ := List.forall_mem_cons.mp h
      obtain ⟨hTake, hDrop⟩ := ih each
      simp [hNode, hTake, hDrop]

/-- The constants of an enum come before the first semicolon, its members behind it. -/
theorem readEnumBody_outline {constants members : List Token} {semicolon : Token}
    (hConstants : (optional (rule .enumConstants)).Yields constants)
    (hSemicolon : semicolon.terminal = .semicolon) (hMembers : Balanced (terminals members)) :
    readEnumBody (outline (constants ++ semicolon :: members)) =
      { readClassBody (outline members) with
        enumConstants := (splitCommas (outline constants)).filterMap readConstant } := by
  have hUnended := hConstants.unended rfl
  have hBalanced := hUnended.balanced
  have hShape : constants ++ semicolon :: members = (constants ++ [semicolon]) ++ members := by
    simp
  have hOther : semicolon.terminal.isBracket = false := by rw [hSemicolon]; rfl
  have hFront : Balanced (terminals (constants ++ [semicolon])) := by
    rw [terminals_append]
    exact hBalanced.append (.other hOther .nil)
  have hClosed : IsClosed (behind [] (constants ++ [semicolon])) = true := by
    rw [behind_append hBalanced, behind_semicolon hSemicolon]
    exact isClosed_word (by rw [hSemicolon]; decide) (by rw [hSemicolon]; decide) _
  obtain ⟨hTake, hDrop⟩ := @takeWhile_constants _ (outline members) _ hUnended.outline_isWord hSemicolon
  rw [hShape, outline_append hFront hClosed hMembers, outline_semicolon hBalanced hSemicolon,
    List.append_assoc, List.singleton_append, readEnumBody, hTake, hDrop]
  rfl

/-- An enum without a semicolon has constants only. -/
theorem readEnumBody_constants {constants : List Token}
    (hConstants : (optional (rule .enumConstants)).Yields constants) :
    readEnumBody (outline constants) =
      { readClassBody [] with
        enumConstants := (splitCommas (outline constants)).filterMap readConstant } := by
  have hNodes : ∀ node ∈ outline constants, (!node.isWord .semicolon) = true := by
    intro node mem
    rw [(hConstants.unended rfl).outline_isWord node mem]
    rfl
  have hTake := @List.takeWhile_append_of_pos _ _ (outline constants) [] hNodes
  have hDrop := @List.dropWhile_append_of_pos _ _ (outline constants) [] hNodes
  rw [List.append_nil] at hTake hDrop
  rw [readEnumBody, hTake, hDrop]
  simp

/-! ## Literals -/

/-- Whether a literal in quotes may stand in what a rule stands for, outside of all groups. -/
def Rule.quotes : Rule → Bool
  | member | enumMembers | fieldDeclaration | declarator | methodDeclaration | expressionItem
  | looseToken => true
  | _ => false

/-- The same for bodies. -/
def Expr.quotes (e : Expr) : Bool := e.mayShow Terminal.isQuoted Rule.quotes

theorem Rule.quotes_body {r : Rule} (hWraps : r.wraps = .none) (h : r.quotes = false) :
    r.body.quotes = false := by
  cases r <;> cases h <;> cases hWraps <;> rfl

private theorem Node.isOf_isQuoted : Node.isOf Terminal.isQuoted = Node.isQuoted := by
  funext node
  cases node <;> rfl

/-- What holds no literals outside of groups shows none. -/
theorem Expr.Yields.unquoted {e : Expr} {tokens : List Token} (h : e.Yields tokens)
    (hQuotes : e.quotes = false) : ∀ item ∈ outline tokens, item.isQuoted = false := by
  rw [← Node.isOf_isQuoted]
  exact (h.lacks (fun _ => Rule.quotes_body) hQuotes).outline

end ClassSchema.Java
