import ClassSchema.Proofs.Java.DerivedTypes

/-!
# The tokens of items

Each item of an outline stands for tokens that lie next to each other: a word for
itself, an annotation for its at sign, its name and its arguments, a group for all
that it holds.  So an outline can be cut anywhere between two items, and the tokens
are cut with it.

This is how what the reader of declarators finds in an initializer is turned back
into a derivation.

## Main results

* `stand_outline`: the items of an outline stand for its tokens.
* `Stand.yields_declarator`: items that are read as a declarator stand for one.
-/

namespace ClassSchema.Java

open Expr.Yields

/-! ## Items and tokens -/

/-- The tokens that an item stands for. -/
inductive Node.Stands : Node → List Token → Prop where
  | word {token : Token} : token.terminal.isBracket = false → Stands (.word token) [token]
  | openUse {start : Token} {rest : List Token} :
      (Expr.sequence (.terminal .atSign) (.rule .qualifiedName)).Yields (start :: rest) →
      Stands (.annotationUse start true) (start :: rest)
  | closedUse {start : Token} {rest : List Token} :
      (Expr.rule .annotationUse).Yields (start :: rest) →
      Stands (.annotationUse start false) (start :: rest)
  | parens {tokens : List Token} : (Expr.rule .parenGroup).Yields tokens → Stands .parens tokens
  | braces {asClass asEnum : Body} {tokens : List Token} :
      (Expr.rule .block).Yields tokens → Stands (.braces asClass asEnum) tokens

/-- The tokens that items stand for, one after the other. -/
inductive Stand : List Node → List Token → Prop where
  | nil : Stand [] []
  | cons {node : Node} {nodes : List Node} {front back : List Token} :
      node.Stands front → Stand nodes back → Stand (node :: nodes) (front ++ back)

namespace Stand

theorem append {nodes others : List Node} {front back : List Token} (hFront : Stand nodes front)
    (hBack : Stand others back) : Stand (nodes ++ others) (front ++ back) := by
  induction hFront with
  | nil => exact hBack
  | cons hNode _ ih =>
      rw [List.append_assoc]
      exact .cons hNode ih

theorem singleton {node : Node} {tokens : List Token} (h : node.Stands tokens) :
    Stand [node] tokens := by
  have hOne := Stand.cons h .nil
  rwa [List.append_nil] at hOne

/-- Where items are cut, their tokens are cut. -/
theorem exists_of_append {nodes others : List Node} {tokens : List Token}
    (h : Stand (nodes ++ others) tokens) :
    ∃ front back, tokens = front ++ back ∧ Stand nodes front ∧ Stand others back := by
  induction nodes generalizing tokens with
  | nil => exact ⟨[], tokens, rfl, .nil, h⟩
  | cons node nodes ih =>
      cases h with
      | cons hNode hRest =>
          obtain ⟨front, back, rfl, hFront, hBack⟩ := ih hRest
          exact ⟨_, back, (List.append_assoc ..).symm, .cons hNode hFront, hBack⟩

/-- A word stands for its token. -/
theorem exists_of_word {token : Token} {nodes : List Node} {tokens : List Token}
    (h : Stand (.word token :: nodes) tokens) :
    ∃ rest, tokens = token :: rest ∧ token.terminal.isBracket = false ∧ Stand nodes rest := by
  cases h with
  | cons hNode hRest =>
      cases hNode with
      | word hOther => exact ⟨_, rfl, hOther, hRest⟩

theorem exists_of_snoc {node : Node} {below : List Node} {tokens : List Token}
    (h : Stand (node :: below).reverse tokens) :
    ∃ front back, tokens = front ++ back ∧ Stand below.reverse front ∧ node.Stands back := by
  rw [List.reverse_cons] at h
  obtain ⟨front, back, rfl, hFront, hBack⟩ := h.exists_of_append
  cases hBack with
  | cons hNode hNil =>
      cases hNil
      rw [List.append_nil]
      exact ⟨front, _, rfl, hFront, hNode⟩

theorem snoc {node : Node} {below : List Node} {front back : List Token}
    (hBelow : Stand below.reverse front) (hNode : node.Stands back) :
    Stand (node :: below).reverse (front ++ back) := by
  rw [List.reverse_cons]
  exact hBelow.append (.singleton hNode)

end Stand

/-! ## Outlines -/

/-- A name behind an at sign is an annotation that goes on. -/
private theorem stands_sign {sign name : Token} (hSign : sign.terminal = .atSign)
    (hName : name.terminal = .identifier) :
    (Node.annotationUse sign true).Stands [sign, name] := by
  have hOne : (Expr.rule .qualifiedName).Yields [name] := by
    refine rule_iff.mpr (sequence_iff.mpr
      ⟨[name], [], rfl, terminal_iff.mpr ⟨name, rfl, hName⟩, many_iff.mpr ⟨[], rfl, by simp⟩⟩)
  exact .openUse (sequence_iff.mpr ⟨[sign], [name], rfl, terminal_iff.mpr ⟨sign, rfl, hSign⟩, hOne⟩)

/-- A further part of its name belongs to it. -/
private theorem stands_dot {start dot name : Token} {tokens : List Token}
    (h : (Node.annotationUse start true).Stands tokens) (hDot : dot.terminal = .dot)
    (hName : name.terminal = .identifier) :
    (Node.annotationUse start true).Stands (tokens ++ [dot, name]) := by
  cases h with
  | @openUse _ rest h =>
      obtain ⟨sign, qualified, hTokens, hSign, hQualified⟩ := sequence_iff.mp h
      obtain ⟨first, others, rfl, hFirst, hOthers⟩ := sequence_iff.mp (rule_iff.mp hQualified)
      obtain ⟨parts, rfl, each⟩ := many_iff.mp hOthers
      have hPart : (Expr.sequence (.terminal .dot) (.terminal .identifier)).Yields [dot, name] :=
        sequence_iff.mpr ⟨[dot], [name], rfl, terminal_iff.mpr ⟨dot, rfl, hDot⟩,
          terminal_iff.mpr ⟨name, rfl, hName⟩⟩
      have hLonger : (Expr.rule .qualifiedName).Yields (first ++ (parts ++ [[dot, name]]).flatten) := by
        refine rule_iff.mpr (sequence_iff.mpr ⟨first, _, rfl, hFirst, many_iff.mpr ⟨_, rfl, ?_⟩⟩)
        intro part mem
        rcases List.mem_append.mp mem with mem | mem
        · exact each part mem
        · rw [List.mem_singleton.mp mem]
          exact hPart
      refine .openUse (sequence_iff.mpr ⟨sign, _, ?_, hSign, hLonger⟩)
      show start :: rest ++ [dot, name] = _
      rw [hTokens]
      simp

/-- Arguments close it. -/
private theorem stands_arguments {start : Token} {tokens group : List Token}
    (h : (Node.annotationUse start true).Stands tokens)
    (hGroup : (Expr.rule .parenGroup).Yields group) :
    (Node.annotationUse start false).Stands (tokens ++ group) := by
  cases h with
  | @openUse _ rest h =>
      obtain ⟨sign, qualified, hTokens, hSign, hQualified⟩ := sequence_iff.mp h
      refine .closedUse (rule_iff.mpr (sequence_iff.mpr ⟨sign, qualified ++ group, ?_, hSign,
        sequence_iff.mpr ⟨qualified, group, rfl, hQualified, optional_iff.mpr (.inr hGroup)⟩⟩))
      show start :: rest ++ group = _
      rw [hTokens, List.append_assoc]

private theorem stand_pushWord {token : Token} (hOther : token.terminal.isBracket = false)
    {level : List Node} {tokens : List Token} (h : Stand level.reverse tokens) :
    Stand (pushWord token level).reverse (tokens ++ [token]) := by
  rcases pushWord_cases token level with hPush | ⟨sign, below, rfl, hSign, hName, hPush⟩ |
    ⟨dot, start, below, rfl, hDot, hName, hPush⟩ <;> rw [hPush]
  · exact h.snoc (.word hOther)
  · obtain ⟨front, back, rfl, hFront, hBack⟩ := h.exists_of_snoc
    cases hBack
    rw [List.append_assoc]
    exact hFront.snoc (stands_sign hSign hName)
  · obtain ⟨front, back, rfl, hFront, hBack⟩ := h.exists_of_snoc
    cases hBack
    obtain ⟨front, use, rfl, hFront, hUse⟩ := hFront.exists_of_snoc
    rw [List.append_assoc, List.append_assoc]
    exact hFront.snoc (stands_dot hUse hDot hName)

private theorem stand_pushGroup {b : Bracket} {group : List Token}
    (hGroup : (Expr.rule b.group).Yields group) (content : List Node) {level : List Node}
    {tokens : List Token} (h : Stand level.reverse tokens) :
    Stand (pushGroup b content level).reverse (tokens ++ group) := by
  cases b with
  | paren =>
      show Stand (pushParens level).reverse _
      rcases pushParens_cases level with hPush | ⟨start, below, rfl, hPush⟩ <;> rw [hPush]
      · exact h.snoc (.parens hGroup)
      · obtain ⟨front, use, rfl, hFront, hUse⟩ := h.exists_of_snoc
        rw [List.append_assoc]
        exact hFront.snoc (stands_arguments hUse hGroup)
  | brace => exact h.snoc (.braces hGroup)

private theorem stand_behind {tokens : List Token} (h : Balanced (terminals tokens)) :
    ∀ (level : List Node) (front : List Token), Stand level.reverse front →
      Stand (behind level tokens).reverse (front ++ tokens) := by
  refine h.induction_tokens ?nil ?other ?group
  case nil =>
      intro level front hLevel
      rw [behind_nil, List.append_nil]
      exact hLevel
  case other =>
      intro token tokens hOther ih level front hLevel
      have hAll := ih _ _ (stand_pushWord hOther hLevel)
      rw [behind_other hOther]
      simpa using hAll
  case group =>
      intro b opening inner closing tokens hOpening hClosing hInner _ ih level front hLevel
      have hGroup : (Expr.rule b.group).Yields (opening :: inner ++ [closing]) :=
        yields_group_iff.mpr ⟨_, _, _, rfl, hOpening, hInner, hClosing⟩
      have hAll := ih _ _ (stand_pushGroup hGroup (outline inner) hLevel)
      rw [behind_group hOpening hInner hClosing]
      simpa using hAll

/-- **The items of an outline stand for its tokens.** -/
theorem stand_outline {tokens : List Token} (h : Balanced (terminals tokens)) :
    Stand (outline tokens) tokens := by
  have hAll := stand_behind h [] [] .nil
  rw [outline_eq_reverse]
  exact hAll

/-! ## Items of an initializer -/

/-- Any group may stand in an initializer. -/
private theorem yields_items_of_group {b : Bracket} {tokens : List Token}
    (h : (Expr.rule b.group).Yields tokens) :
    (Expr.many (.rule .expressionItem)).Yields tokens := by
  have hItem : (Expr.rule .expressionItem).Yields tokens := by
    cases b with
    | paren => exact rule_iff.mpr (choice_iff.mpr (.inr (choice_iff.mpr (.inl h))))
    | brace => exact rule_iff.mpr (choice_iff.mpr (.inl h))
  have hOne := many_cons hItem (many_nil _)
  rwa [List.append_nil] at hOne

/-- **What holds no semicolon outside of groups may stand in an initializer.** -/
theorem Expr.Yields.items {e : Expr} {tokens : List Token} (h : e.Yields tokens)
    (hEnds : e.ends = false) : (many (rule .expressionItem)).Yields tokens := by
  unfold Expr.Yields at h
  generalize hWord : terminals tokens = word at h
  induction h generalizing tokens with
  | terminal t =>
      obtain ⟨token, rest, rfl, rfl, hRest⟩ := List.map_eq_cons_iff.mp hWord
      obtain rfl := List.map_eq_nil_iff.mp hRest
      simp only [ends, mayShow, Bool.or_eq_false_iff, decide_eq_false_iff_not] at hEnds
      exact @many_cons _ [token] [] (derives_expressionItem hEnds.2 hEnds.1) (many_nil _)
  | @rule r word hBody ih =>
      subst hWord
      cases hWraps : r.wraps with
      | none => exact ih (Rule.ends_body hWraps hEnds) rfl
      | some b =>
          apply yields_items_of_group (b := b)
          rw [yields_group_iff]
          exact Rule.yields_of_wraps hWraps (.rule hBody)
  | sequence _ _ ihFirst ihSecond =>
      obtain ⟨front, back, rfl, hFront, hBack⟩ := List.map_eq_append_iff.mp hWord
      obtain ⟨hFirst, hSecond⟩ := Bool.or_eq_false_iff.mp hEnds
      exact (ihFirst hFirst hFront).many_append (ihSecond hSecond hBack)
  | left _ ih =>
      obtain ⟨hFirst, -⟩ := Bool.or_eq_false_iff.mp hEnds
      exact ih hFirst hWord
  | right _ ih =>
      obtain ⟨-, hSecond⟩ := Bool.or_eq_false_iff.mp hEnds
      exact ih hSecond hWord
  | absent | none =>
      obtain rfl := List.map_eq_nil_iff.mp hWord
      exact Derives.none
  | present _ ih => exact ih hEnds hWord
  | more _ _ ihPart ihMany =>
      obtain ⟨front, back, rfl, hFront, hBack⟩ := List.map_eq_append_iff.mp hWord
      exact (ihPart hEnds hFront).many_append (ihMany hEnds hBack)

namespace Stand

/-- Items without a semicolon among them may stand in an initializer. -/
theorem yields_items {nodes : List Node} {tokens : List Token} (h : Stand nodes tokens)
    (hEnds : ∀ node ∈ nodes, node.isWord .semicolon = false) :
    (Expr.many (.rule .expressionItem)).Yields tokens := by
  induction h with
  | nil => exact Derives.none
  | cons hNode _ ih =>
      obtain ⟨hEnd, each⟩ := List.forall_mem_cons.mp hEnds
      refine many_append ?_ (ih each)
      cases hNode with
      | @word token hOther =>
          have hItem : (Expr.terminal token.terminal).ends = false := by
            simpa [Expr.ends, Expr.mayShow, Node.isWord, hOther] using hEnd
          exact (terminal_iff.mpr ⟨token, rfl, rfl⟩ : (Expr.terminal _).Yields _).items hItem
      | openUse hUse => exact hUse.items rfl
      | closedUse hUse => exact hUse.items rfl
      | parens hGroup => exact yields_items_of_group (b := .paren) hGroup
      | braces hGroup => exact yields_items_of_group (b := .brace) hGroup

theorem ne_nil {nodes : List Node} {tokens : List Token} (h : Stand nodes tokens)
    (hNodes : nodes ≠ []) : tokens ≠ [] := by
  cases h with
  | nil => exact absurd rfl hNodes
  | cons hNode _ =>
      cases hNode with
      | parens hGroup =>
          obtain ⟨_, _, _, rfl, _⟩ := (@yields_group_iff .paren _).mp hGroup
          simp
      | braces hGroup =>
          obtain ⟨_, _, _, rfl, _⟩ := (@yields_group_iff .brace _).mp hGroup
          simp
      | _ => simp

/-- Annotations stand for annotations. -/
theorem yields_annotations {uses : List Node} {tokens : List Token} (h : Stand uses tokens)
    (hUses : ∀ node ∈ uses, node.isUse = true) :
    (Expr.many (.rule .annotationUse)).Yields tokens := by
  induction h with
  | nil => exact many_nil _
  | cons hNode _ ih =>
      obtain ⟨hUse, each⟩ := List.forall_mem_cons.mp hUses
      refine many_cons ?_ (ih each)
      cases hNode with
      | openUse hName =>
          obtain ⟨sign, qualified, hTokens, hSign, hQualified⟩ := sequence_iff.mp hName
          refine rule_iff.mpr (sequence_iff.mpr ⟨sign, qualified, hTokens, hSign,
            sequence_iff.mpr ⟨qualified, [], by simp, hQualified, optional_iff.mpr (.inl rfl)⟩⟩)
      | closedUse hName => exact hName
      | _ => cases hUse

/-- Dimensions stand for dimensions. -/
theorem yields_dimensions {count : Nat} {nodes : List Node} {tokens : List Token}
    (h : Stand nodes tokens) (hNodes : IsDimensions count nodes) :
    (Expr.many (.rule .dimension)).Yields tokens := by
  induction hNodes generalizing tokens with
  | nil =>
      cases h
      exact many_nil _
  | @cons _ uses _ left right hUses hLeft hRight _ ih =>
      obtain ⟨front, back, rfl, hFront, hBack⟩ := h.exists_of_append
      obtain ⟨back, rfl, _, hBack⟩ := hBack.exists_of_word
      obtain ⟨back, rfl, _, hBack⟩ := hBack.exists_of_word
      have hOne : (Expr.rule .dimension).Yields (front ++ [left, right]) :=
        rule_iff.mpr (of_sequence (hFront.yields_annotations hUses)
          (of_cons hLeft (of_terminal hRight)))
      have hAll := many_cons hOne (ih hBack)
      simpa using hAll

end Stand

/-! ## Items that are read as declarators -/

/-- Items that are a declarator: a name, dimensions, and an initializer that is not empty or none
at all. -/
inductive DeclaresOne : List Node → Declarator → Prop where
  | plain {name : Token} {count : Nat} {dimensions : List Node} :
      name.terminal = .identifier → IsDimensions count dimensions →
      DeclaresOne (.word name :: dimensions) ⟨name.text, count⟩
  | assigned {name equal : Token} {count : Nat} {dimensions items : List Node} :
      name.terminal = .identifier → IsDimensions count dimensions →
      equal.terminal = .equalSign → items ≠ [] →
      DeclaresOne (.word name :: (dimensions ++ .word equal :: items)) ⟨name.text, count⟩

/-- **Items that are a declarator stand for one.** -/
theorem Stand.yields_declarator {nodes : List Node} {tokens : List Token} (h : Stand nodes tokens)
    {declarator : Declarator} (hNodes : DeclaresOne nodes declarator)
    (hEnds : ∀ node ∈ nodes, node.isWord .semicolon = false) :
    (Expr.rule .declarator).Yields tokens := by
  have dimensioned : ∀ {tokens : List Token}, (Expr.many (.rule .dimension)).Yields tokens →
      (Expr.optional (Expr.some (.rule .dimension))).Yields tokens := by
    intro tokens h
    obtain ⟨parts, rfl, each⟩ := many_iff.mp h
    cases parts with
    | nil => exact optional_iff.mpr (.inl rfl)
    | cons part parts =>
        obtain ⟨hPart, others⟩ := List.forall_mem_cons.mp each
        exact optional_iff.mpr (.inr (of_sequence hPart (many_flatten others)))
  cases hNodes with
  | @plain name _ dimensions hName hDimensions =>
      obtain ⟨tokens, rfl, _, hRest⟩ := h.exists_of_word
      have hBack : (Expr.optional (Expr.sequence (.terminal .equalSign)
          (Expr.some (.rule .expressionItem)))).Yields [] := optional_iff.mpr (.inl rfl)
      have hAll := of_cons hName
        (of_sequence (dimensioned (hRest.yields_dimensions hDimensions)) hBack)
      rw [List.append_nil] at hAll
      exact rule_iff.mpr hAll
  | @assigned name equal _ dimensions items hName hDimensions hEqual hItems =>
      obtain ⟨tokens, rfl, _, hRest⟩ := h.exists_of_word
      obtain ⟨front, back, rfl, hFront, hBack⟩ := hRest.exists_of_append
      obtain ⟨value, rfl, _, hValue⟩ := hBack.exists_of_word
      have hNone : ∀ node ∈ items, node.isWord .semicolon = false := by
        intro node mem
        exact hEnds node (by simp [mem])
      obtain ⟨parts, hParts, each⟩ := many_iff.mp (hValue.yields_items hNone)
      cases parts with
      | nil => exact absurd hParts (hValue.ne_nil hItems)
      | cons part parts =>
          obtain ⟨hPart, others⟩ := List.forall_mem_cons.mp each
          have hSome : (Expr.some (.rule .expressionItem)).Yields value := by
            rw [hParts]
            exact of_sequence hPart (many_flatten others)
          exact rule_iff.mpr (of_cons hName
            (of_sequence (dimensioned (hFront.yields_dimensions hDimensions))
              (optional_iff.mpr (.inr (of_cons hEqual hSome)))))

end ClassSchema.Java
