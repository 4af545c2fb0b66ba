import ClassSchema.Proofs.Java.Cuts

/-!
# Declarators of a derivation

The declarators of a field are cut at commas, and so is an initializer that holds
commas.  A best derivation cuts its declarators as the reader does: were there a
part of an initializer that can begin a declarator, the derivation would gain one
by starting it there.

There is one exception.  Where a comma stands right behind an equals sign, the
initializer has to begin with it, and then several derivations may be equally good.
Tokens for which this does not happen are those that `AssignsItems` describes.

## Main results

* `Derivation.values_declarators`: declarators of a best derivation are read as what
  they mean.
-/

namespace ClassSchema.Java

/-! ## Outlines around separators -/

/-- Whether a terminal is an item by itself wherever it stands. -/
def Terminal.separates : Terminal → Bool
  | semicolon | comma | equalSign => true
  | _ => false

/-- An outline is cut at a separator. -/
theorem outline_separator {front back : List Token} {token : Token}
    (hToken : token.terminal.separates = true) (hFront : Balanced (terminals front))
    (hBack : Balanced (terminals back)) :
    outline (front ++ token :: back) = outline front ++ .word token :: outline back := by
  obtain ⟨hOther, hName, hSign, hDot⟩ : token.terminal.isBracket = false ∧
      token.terminal ≠ .identifier ∧ token.terminal ≠ .atSign ∧ token.terminal ≠ .dot := by
    cases hTerminal : token.terminal <;> rw [hTerminal] at hToken <;>
      first | decide | cases hToken
  rw [outline_eq_reverse, behind_append hFront, behind_other hOther, pushWord_of_ne hName,
    behind_of_isClosed (isClosed_word hSign hDot _) hBack, List.reverse_append,
    List.reverse_reverse, List.reverse_cons, ← outline_eq_reverse, List.append_assoc]
  rfl

/-! ## Commas behind equals signs -/

/-- No comma stands right behind an equals sign. -/
def AssignsItems (tokens : List Token) : Prop :=
  ¬ [Terminal.equalSign, .comma] <:+: terminals tokens

namespace AssignsItems

theorem of_append {front back : List Token} (h : AssignsItems (front ++ back)) :
    AssignsItems front ∧ AssignsItems back := by
  unfold AssignsItems at *
  rw [terminals_append] at h
  exact ⟨fun hFront => h (hFront.trans (List.infix_append' [] _ _)),
    fun hBack => h (hBack.trans (List.suffix_append _ _).isInfix)⟩

theorem of_cons {token : Token} {rest : List Token} (h : AssignsItems (token :: rest)) :
    AssignsItems rest :=
  (@of_append [token] rest h).2

theorem not_comma {front back : List Token} {equal comma : Token}
    (hEqual : equal.terminal = .equalSign) (hComma : comma.terminal = .comma) :
    ¬ AssignsItems (front ++ equal :: comma :: back) := by
  refine fun h => h ⟨terminals front, terminals back, ?_⟩
  simp [terminals, hEqual, hComma]

end AssignsItems

/-! ## Parts of a declarator -/

namespace Stand

/-- An initializer does not begin with a comma. -/
private theorem assigned_cons {name equal : Token} {dimensions items : List Node}
    {tokens : List Token} (h : Stand (.word name :: (dimensions ++ .word equal :: items)) tokens)
    (hEqual : equal.terminal = .equalSign) (hItems : items ≠ []) (hAssigns : AssignsItems tokens) :
    ∃ first rest, items = first :: rest ∧ first.isWord .comma = false := by
  obtain ⟨first, rest, rfl⟩ := List.exists_cons_of_ne_nil hItems
  refine ⟨first, rest, rfl, ?_⟩
  obtain ⟨_, rfl, _, hRest⟩ := h.exists_of_word
  obtain ⟨front, _, rfl, _, hBack⟩ := hRest.exists_of_append
  obtain ⟨value, rfl, _, hValue⟩ := hBack.exists_of_word
  cases first with
  | word comma =>
      obtain ⟨_, rfl, _, _⟩ := hValue.exists_of_word
      simp only [Node.isWord, decide_eq_false_iff_not]
      intro hComma
      exact @AssignsItems.not_comma (name :: front) _ _ _ hEqual hComma hAssigns
  | _ => rfl

end Stand

namespace DeclaresOne

variable {nodes : List Node} {declarator : Declarator} {tokens : List Token}

/-- A declarator begins at its first part. -/
private theorem exists_part (h : DeclaresOne nodes declarator) (hStand : Stand nodes tokens)
    (hAssigns : AssignsItems tokens) :
    ∃ part parts, splitCommas nodes = part :: parts ∧
      (openingOf part = .plain declarator ∧ parts = [] ∨
        openingOf part = .assigned declarator true) := by
  cases h with
  | @plain name count dimensions hName hDimensions =>
      have hNoComma : ∀ node ∈ .word name :: dimensions, node.isWord .comma = false :=
        List.forall_mem_cons.mpr ⟨by simp [Node.isWord, hName], hDimensions.not_comma⟩
      exact ⟨_, [], splitCommas_singleton hNoComma,
        .inl ⟨openingOf_plain hName hDimensions, rfl⟩⟩
  | @assigned name equal count dimensions items hName hDimensions hEqual hItems =>
      obtain ⟨first, rest, rfl, hFirst⟩ := hStand.assigned_cons hEqual hItems hAssigns
      obtain ⟨part, parts, hRest⟩ := List.exists_cons_of_ne_nil (splitCommas_ne_nil rest)
      have hFront : ∀ node ∈ .word name :: (dimensions ++ [.word equal]),
          node.isWord .comma = false := by
        intro node mem
        simp only [List.mem_cons, List.mem_append, List.not_mem_nil, or_false] at mem
        rcases mem with rfl | mem | rfl
        · simp [Node.isWord, hName]
        · exact hDimensions.not_comma node mem
        · simp [Node.isWord, hEqual]
      have hAll := splitCommas_front hFront (splitCommas_other hFirst hRest)
      simp only [List.cons_append, List.append_assoc, List.nil_append] at hAll
      exact ⟨_, parts, hAll, .inr (openingOf_assigned hName hDimensions hEqual _)⟩

/-- What precedes a comma of a declarator is a declarator as well. -/
private theorem of_comma {before behind : List Node} {comma : Node}
    (h : DeclaresOne (before ++ comma :: behind) declarator)
    (hStand : Stand (before ++ comma :: behind) tokens) (hAssigns : AssignsItems tokens)
    (hComma : comma.isWord .comma = true) : DeclaresOne before declarator := by
  generalize hNodes : before ++ comma :: behind = nodes at h hStand
  cases h with
  | @plain name count dimensions hName hDimensions =>
      have hMem : comma ∈ .word name :: dimensions := by
        rw [← hNodes]
        simp
      rcases List.mem_cons.mp hMem with rfl | mem
      · simp [Node.isWord, hName] at hComma
      · rw [hDimensions.not_comma comma mem] at hComma
        cases hComma
  | @assigned name equal count dimensions items hName hDimensions hEqual hItems =>
      obtain ⟨first, rest, rfl, hFirst⟩ := hStand.assigned_cons hEqual hItems hAssigns
      have hFront : ∀ node ∈ .word name :: (dimensions ++ [.word equal, first]),
          node.isWord .comma = false := by
        intro node mem
        simp only [List.mem_cons, List.mem_append, List.not_mem_nil, or_false] at mem
        rcases mem with rfl | mem | rfl | rfl
        · simp [Node.isWord, hName]
        · exact hDimensions.not_comma node mem
        · simp [Node.isWord, hEqual]
        · exact hFirst
      have hShape : before ++ comma :: behind =
          .word name :: (dimensions ++ [.word equal, first]) ++ rest := by
        rw [hNodes]
        simp
      obtain ⟨more, rfl⟩ : ∃ more,
          before = .word name :: (dimensions ++ [.word equal, first]) ++ more := by
        rcases List.append_eq_append_iff.mp hShape with ⟨cut, hCut, hRest⟩ | ⟨cut, hCut, hRest⟩
        · cases cut with
          | nil => exact ⟨[], by simpa using hCut.symm⟩
          | cons node cut =>
              cases hRest
              have hMem : comma ∈ .word name :: (dimensions ++ [.word equal, first]) := by
                rw [hCut]
                simp
              rw [hFront comma hMem] at hComma
              cases hComma
        · exact ⟨cut, hCut⟩
      have hDeclares : DeclaresOne (.word name :: (dimensions ++ .word equal :: (first :: more)))
          ⟨name.text, count⟩ :=
        .assigned hName hDimensions hEqual (List.cons_ne_nil _ _)
      simpa using hDeclares

/-- Items that are no declarator begin none at their first part. -/
private theorem blocked_first {part : List Node} {parts : List (List Node)} {rest : List Token}
    {isLast : Prop} (hNot : ∀ other, ¬ DeclaresOne nodes other) (hStand : Stand nodes tokens)
    (hSplit : splitCommas nodes = part :: parts) (hAssigns : AssignsItems (tokens ++ rest))
    (hRest : isLast ∨ ∃ comma more, rest = comma :: more ∧ comma.terminal = .comma) :
    (∀ other, openingOf part ≠ .assigned other true) ∧
      (∀ other, openingOf part = .plain other → parts ≠ []) ∧
      ∀ other, openingOf part = .assigned other false → parts = [] ∧ isLast := by
  rcases openingOf_cases part with hOther | ⟨name, count, dimensions, hName, hDimensions, hPart⟩
  · simp [hOther]
  rcases hPart with ⟨rfl, hPlain⟩ | ⟨equal, items, rfl, hEqual, hAssigned⟩
  · have hMore : parts ≠ [] := by
      rintro rfl
      rcases splitCommas_cases hSplit with ⟨_, rfl⟩ | ⟨hMore, _⟩
      · exact hNot _ (.plain hName hDimensions)
      · exact hMore rfl
    simp [hPlain, hMore]
  · obtain rfl : items = [] := by
      cases items with
      | nil => rfl
      | cons item items =>
          exfalso
          rcases splitCommas_cases hSplit with ⟨_, rfl⟩ | ⟨_, comma, behind, rfl, _⟩
          · exact hNot _ (.assigned hName hDimensions hEqual (List.cons_ne_nil _ _))
          · refine hNot ⟨name.text, count⟩ ?_
            simpa using DeclaresOne.assigned hName hDimensions hEqual
              (List.cons_ne_nil item (items ++ comma :: behind))
    obtain ⟨hParts, rfl⟩ : parts = [] ∧ nodes = .word name :: (dimensions ++ [.word equal]) := by
      rcases splitCommas_cases hSplit with hOne | ⟨_, comma, behind, hNodes, hComma⟩
      · exact hOne
      · refine absurd ?_ (hNot ⟨name.text, count⟩)
        simpa [hNodes] using DeclaresOne.assigned hName hDimensions hEqual
          (List.cons_ne_nil comma behind)
    have hLast : isLast := by
      rcases hRest with hLast | ⟨comma, more, rfl, hComma⟩
      · exact hLast
      · exfalso
        obtain ⟨_, rfl, _, hBehind⟩ := hStand.exists_of_word
        obtain ⟨front, _, rfl, _, hBack⟩ := hBehind.exists_of_append
        obtain ⟨_, rfl, _, hNil⟩ := hBack.exists_of_word
        cases hNil
        refine @AssignsItems.not_comma (name :: front) more _ _ hEqual hComma ?_
        simpa using hAssigns
    simp [hAssigned, hParts, hLast]

/-- **The parts inside of an initializer are blocked** if the tokens are not two declarators. -/
private theorem blocked {part : List Node} {parts : List (List Node)} {rest : List Token}
    {isLast : Prop} (h : DeclaresOne nodes declarator) (hStand : Stand nodes tokens)
    (hEnds : ∀ node ∈ nodes, node.isWord .semicolon = false)
    (hSplit : splitCommas nodes = part :: parts)
    (hSingle : ∀ front comma back, tokens = front ++ comma :: back → comma.terminal = .comma →
      (Expr.rule .declarator).Yields front → ¬ (Expr.rule .declarator).Yields back)
    (hAssigns : AssignsItems (tokens ++ rest))
    (hRest : isLast ∨ ∃ comma more, rest = comma :: more ∧ comma.terminal = .comma) :
    Blocked isLast (parts.map openingOf) := by
  intro front opening back hShape
  obtain ⟨before, _, rfl, _, hParts⟩ := List.map_eq_append_iff.mp hShape
  obtain ⟨inner, after, rfl, rfl, rfl⟩ := List.map_eq_cons_iff.mp hParts
  obtain ⟨frontNodes, commaNode, behindNodes, rfl, hComma, _, hBehind⟩ :=
    @exists_of_splitCommas _ (part :: before) _ _ (List.cons_ne_nil _ _) hSplit
  obtain ⟨comma, rfl, hCommaToken⟩ : ∃ comma, commaNode = .word comma ∧
      comma.terminal = .comma := by
    cases commaNode with
    | word comma => exact ⟨comma, rfl, by simpa [Node.isWord] using hComma⟩
    | _ => cases hComma
  have hFront := h.of_comma hStand hAssigns.of_append.1 hComma
  obtain ⟨frontTokens, _, rfl, hFrontStand, hBack⟩ := hStand.exists_of_append
  obtain ⟨backTokens, rfl, _, hBackStand⟩ := hBack.exists_of_word
  have hBackAssigns : AssignsItems (backTokens ++ rest) := by
    rw [List.append_assoc] at hAssigns
    exact hAssigns.of_append.2.of_cons
  have hNot : ∀ other, ¬ DeclaresOne behindNodes other := by
    intro other hOther
    refine hSingle frontTokens comma backTokens rfl hCommaToken
      (hFrontStand.yields_declarator hFront fun node mem => hEnds node (by simp [mem]))
      (hBackStand.yields_declarator hOther fun node mem => hEnds node (by simp [mem]))
  simpa using blocked_first hNot hBackStand hBehind hBackAssigns hRest

end DeclaresOne

/-! ## Declarators -/

namespace Derivation

/-- Loose tokens mean themselves or nothing. -/
private theorem values_of_isListing {e : Expr} (hListing : e.isListing = true)
    (d : Derivation e) :
    ∃ values, d.values = some values ∧ ∀ value ∈ values, value.isDimension = false := by
  induction d with
  | @terminal t token h =>
      refine ⟨_, rfl, fun value mem => ?_⟩
      split at mem
      · rw [List.mem_singleton.mp mem]
        rfl
      · cases mem
  | left _ ih => exact ih (Bool.and_eq_true_iff.mp hListing).1
  | right _ ih => exact ih (Bool.and_eq_true_iff.mp hListing).2
  | _ => cases hListing

private theorem values_expressionItem (d : Derivation (.rule .expressionItem)) :
    ∃ values, d.values = some values ∧ ∀ value ∈ values, value.isDimension = false := by
  obtain ⟨body, rfl⟩ := d.exists_rule
  rcases choice_cases body with ⟨block, rfl⟩ | ⟨rest, rfl⟩
  · have hBlock : block.values = some [.nothing] := block.values_of_isPassed rfl
    exact ⟨_, values_rule (values_left hBlock) rfl, by simp [Value.isDimension]⟩
  rcases choice_cases rest with ⟨group, rfl⟩ | ⟨loose, rfl⟩
  · have hGroup : group.values = some [.nothing] := group.values_of_isPassed rfl
    exact ⟨_, values_rule (values_right (values_left hGroup)) rfl, by simp [Value.isDimension]⟩
  · obtain ⟨inner, rfl⟩ := exists_rule loose
    obtain ⟨values, hValues, each⟩ := inner.values_of_isListing rfl
    exact ⟨values, values_rule (values_right (values_right (values_rule hValues rfl))) rfl, each⟩

private theorem values_expressionItems (d : Derivation (.many (.rule .expressionItem))) :
    ∃ values, d.values = some values ∧ ∀ value ∈ values, value.isDimension = false := by
  induction d using many_induction with
  | none => exact ⟨[], rfl, by simp⟩
  | more one others ih =>
      obtain ⟨first, hFirst, eachFirst⟩ := one.values_expressionItem
      obtain ⟨values, hValues, each⟩ := ih
      refine ⟨first ++ values, values_more hFirst hValues, fun value mem => ?_⟩
      rcases List.mem_append.mp mem with mem | mem
      · exact eachFirst value mem
      · exact each value mem

/-- A declarator is made of a name, dimensions and whatever is assigned. -/
private theorem make_declarator {name : Token} (hName : name.terminal = .identifier)
    {counted others : List Value} (each : ∀ value ∈ counted, value = .dimension)
    (hOthers : ∀ value ∈ others, value.isDimension = false) (doc : Option String) :
    Rule.make doc ([.token name] ++ (counted ++ others)) .declarator =
      some [.declarator ⟨name.text, counted.length⟩] := by
  have hCount : counted.countP Value.isDimension = counted.length := by
    rw [List.countP_eq_length]
    intro value mem
    rw [each value mem]
    rfl
  have hNone : others.countP Value.isDimension = 0 := by
    rw [List.countP_eq_zero]
    simpa using hOthers
  simp [Value.text?, hName, Value.isDimension, hCount, hNone]

/-- **A declarator has the items of what it means.** -/
private theorem values_declarator (d : Derivation (.rule .declarator)) :
    ∃ declarator, d.values = some [.declarator declarator] ∧
      DeclaresOne (outline d.tokens) declarator := by
  obtain ⟨body, rfl⟩ := d.exists_rule
  obtain ⟨namePart, rest, rfl⟩ := exists_sequence body
  obtain ⟨dimensions, initializer, rfl⟩ := exists_sequence rest
  obtain ⟨name, hName, rfl⟩ := exists_terminal namePart
  obtain ⟨counted, hCounted, each, hDimensions⟩ := values_dimensions dimensions
  let header : Derivation (.sequence (.terminal .identifier)
    (.optional (Expr.some (.rule .dimension)))) := sequence (terminal name hName) dimensions
  rcases initializer.optional_cases with rfl | ⟨assignment, rfl⟩
  · refine ⟨_, values_rule (values_sequence (values_kept hName rfl)
      (values_sequence hCounted rfl)) (make_declarator hName each (by simp) _), ?_⟩
    have hOutline : outline header.tokens = header.nodes := header.outline_tokens rfl
    show DeclaresOne (outline ([name] ++ (dimensions.tokens ++ []))) _
    rw [List.append_nil]
    replace hOutline : outline ([name] ++ dimensions.tokens) = .word name :: dimensions.nodes :=
      hOutline
    rw [hOutline]
    exact .plain hName hDimensions
  · obtain ⟨equalPart, items, rfl⟩ := exists_sequence assignment
    obtain ⟨equal, hEqual, rfl⟩ := exists_terminal equalPart
    obtain ⟨first, others, rfl⟩ := exists_sequence items
    obtain ⟨values, hValues, hNone⟩ := values_expressionItems (.more first others)
    refine ⟨_, values_rule (values_sequence (values_kept hName rfl) (values_sequence hCounted
      (values_present (values_sequence (values_dropped hEqual rfl) hValues))))
      (make_declarator hName each hNone _), ?_⟩
    let assigned : Derivation (Expr.some (.rule .expressionItem)) := sequence first others
    have hItems : Balanced (terminals (first.tokens ++ others.tokens)) :=
      assigned.yields.balanced_of_nest rfl
    have hSome : outline (first.tokens ++ others.tokens) ≠ [] := by
      intro hNil
      have hStand := stand_outline hItems
      rw [hNil] at hStand
      generalize hTokens : first.tokens ++ others.tokens = items at hStand
      cases hStand
      have hAssigned : (Expr.some (.rule .expressionItem)).Yields [] := hTokens ▸ assigned.yields
      exact absurd (Derives.nil_iff.mp hAssigned) (by decide)
    have hHeader : outline header.tokens = header.nodes := header.outline_tokens rfl
    have hQuiet : Quiet .closed .closed header.tokens := header.yields.quiet rfl
    have hOutline := @outline_separator _ _ equal (by rw [hEqual]; rfl) hQuiet.balanced hItems
    have hShape : [name] ++ (dimensions.tokens ++ ([equal] ++ (first.tokens ++ others.tokens))) =
        header.tokens ++ equal :: (first.tokens ++ others.tokens) := by
      simp [header]
    show DeclaresOne (outline ([name] ++ (dimensions.tokens ++
      ([equal] ++ (first.tokens ++ others.tokens))))) _
    rw [hShape, hOutline, hHeader]
    exact .assigned hName hDimensions hEqual hSome

/-! ## Lists of declarators -/

/-- A best derivation makes as many declarators as it can. -/
private theorem single_of_isBest {first : Derivation (.rule .declarator)}
    {others : Derivation (.many (.sequence (.terminal .comma) (.rule .declarator)))}
    (hBest : (sequence first others).IsBest) (front : List Token) (comma : Token)
    (back : List Token) (hTokens : first.tokens = front ++ comma :: back)
    (hComma : comma.terminal = .comma) (hFront : (Expr.rule .declarator).Yields front) :
    ¬ (Expr.rule .declarator).Yields back := by
  intro hBack
  obtain ⟨one, rfl⟩ := exists_of_yields hFront
  obtain ⟨two, rfl⟩ := exists_of_yields hBack
  have hMore := hBest (sequence one (more (sequence (terminal comma hComma) two) others))
    (by simp [hTokens])
  simp only [declarators, declarators_declarator] at hMore
  omega

/-- Behind a declarator of a best derivation the rest is best. -/
private theorem isBest_of_more {first second : Derivation (.rule .declarator)} {comma : Token}
    {hComma : comma.terminal = .comma}
    {others : Derivation (.many (.sequence (.terminal .comma) (.rule .declarator)))}
    (hBest : (sequence first (more (sequence (terminal comma hComma) second) others)).IsBest) :
    (sequence second others).IsBest := by
  intro other hOther
  obtain ⟨third, rest, rfl⟩ := other.exists_sequence
  have hTokens : third.tokens ++ rest.tokens = second.tokens ++ others.tokens := hOther
  have hAll := hBest (sequence first (more (sequence (terminal comma hComma) third) rest))
    (by simp [hTokens])
  simp only [declarators] at hAll ⊢
  omega

/-- The first declarator of a best derivation begins at its first part, and none begins inside. -/
private theorem values_first {first : Derivation (.rule .declarator)}
    {others : Derivation (.many (.sequence (.terminal .comma) (.rule .declarator)))}
    (hBest : (sequence first others).IsBest) {isLast : Prop} {rest : List Token}
    (hAssigns : AssignsItems (first.tokens ++ rest))
    (hRest : isLast ∨ ∃ comma more, rest = comma :: more ∧ comma.terminal = .comma) :
    ∃ declarator part parts, first.values = some [.declarator declarator] ∧
      splitCommas (outline first.tokens) = part :: parts ∧
      (openingOf part = .plain declarator ∧ parts.map openingOf = [] ∨
        openingOf part = .assigned declarator true) ∧
      Blocked isLast (parts.map openingOf) := by
  obtain ⟨declarator, hValues, hDeclares⟩ := first.values_declarator
  have hUnended := first.yields.unended rfl
  have hStand := stand_outline hUnended.balanced
  obtain ⟨part, parts, hSplit, hOpening⟩ := hDeclares.exists_part hStand hAssigns.of_append.1
  refine ⟨declarator, part, parts, hValues, hSplit, ?_, ?_⟩
  · rcases hOpening with ⟨hPlain, rfl⟩ | hAssigned
    · exact .inl ⟨hPlain, rfl⟩
    · exact .inr hAssigned
  · exact hDeclares.blocked hStand hUnended.outline_isWord hSplit (single_of_isBest hBest) hAssigns hRest

/-- **Declarators of a best derivation are read as what they mean.**  The induction is on the
declarators behind the first. -/
theorem values_declarators
    (others : Derivation (.many (.sequence (.terminal .comma) (.rule .declarator))))
    (first : Derivation (.rule .declarator)) (hBest : (sequence first others).IsBest)
    (hAssigns : AssignsItems (first.tokens ++ others.tokens)) :
    ∃ declarator declarators, first.values = some [.declarator declarator] ∧
      others.values = some (declarators.map .declarator) ∧
      CutsInto ((splitCommas (outline (first.tokens ++ others.tokens))).map openingOf)
        (declarator :: declarators) := by
  induction others using many_induction generalizing first with
  | none =>
      obtain ⟨declarator, part, parts, hValues, hSplit, hOpening, hBlocked⟩ :=
        values_first hBest hAssigns (.inl (rfl : ([] : List Opening) = []))
      refine ⟨declarator, [], hValues, rfl, ?_⟩
      have hCuts := CutsInto.cons hOpening hBlocked .nil
      rw [tokens, List.append_nil, hSplit, List.map_cons]
      rwa [List.append_nil] at hCuts
  | more one others ih =>
      obtain ⟨commaPart, second, rfl⟩ := one.exists_sequence
      obtain ⟨comma, hComma, rfl⟩ := commaPart.exists_terminal
      have hLater := isBest_of_more hBest
      have hShape : first.tokens ++ (more (sequence (terminal comma hComma) second) others).tokens =
          first.tokens ++ comma :: (second.tokens ++ others.tokens) := by
        simp
      rw [hShape] at hAssigns ⊢
      obtain ⟨next, declarators, hNext, hOthers, hCuts⟩ :=
        ih second hLater hAssigns.of_append.2.of_cons
      have hRest : (splitCommas (outline (second.tokens ++ others.tokens))).map openingOf = [] ∨
          ∃ other more, comma :: (second.tokens ++ others.tokens) = other :: more ∧
            other.terminal = .comma := .inr ⟨comma, _, rfl, hComma⟩
      obtain ⟨declarator, part, parts, hValues, hSplit, hOpening, hBlocked⟩ :=
        values_first hBest hAssigns hRest
      refine ⟨declarator, next :: declarators, hValues, ?_, ?_⟩
      · exact values_more (values_sequence (values_dropped hComma rfl) hNext) hOthers
      · have hBack : Balanced (terminals (second.tokens ++ others.tokens)) :=
          (sequence second others).yields.balanced_of_nest rfl
        rw [outline_separator (by rw [hComma]; rfl) (first.yields.balanced_of_nest rfl) hBack,
          splitCommas_append _ (by simp [Node.isWord, hComma]), List.map_append, hSplit,
          List.map_cons, List.cons_append]
        exact .cons hOpening hBlocked hCuts

/-- **Declarators are read, whatever their derivation.**  It may not be a best one, and then other
declarators are read than those that are derived. -/
theorem exists_readDeclarators
    (others : Derivation (.many (.sequence (.terminal .comma) (.rule .declarator))))
    (first : Derivation (.rule .declarator)) :
    ∃ declarator declarators, readDeclarators (outline (first.tokens ++ others.tokens)) =
      some (declarator :: declarators) := by
  induction others using many_induction generalizing first with
  | none =>
      obtain ⟨declarator, _, hDeclares⟩ := first.values_declarator
      rw [tokens, List.append_nil]
      generalize outline first.tokens = nodes at hDeclares
      cases hDeclares with
      | plain hName hDimensions => exact ⟨_, [], readDeclarators_plain hName hDimensions⟩
      | assigned hName hDimensions hEqual hItems =>
          exact ⟨_, exists_readDeclarators_assigned hName hDimensions hEqual hItems⟩
  | more one others ih =>
      obtain ⟨commaPart, second, rfl⟩ := one.exists_sequence
      obtain ⟨comma, hComma, rfl⟩ := commaPart.exists_terminal
      obtain ⟨next, declarators, hNext⟩ := ih second
      obtain ⟨declarator, _, hDeclares⟩ := first.values_declarator
      have hBack : Balanced (terminals (second.tokens ++ others.tokens)) :=
        (sequence second others).yields.balanced_of_nest rfl
      have hShape : first.tokens ++ (more (sequence (terminal comma hComma) second) others).tokens =
          first.tokens ++ comma :: (second.tokens ++ others.tokens) := by
        simp
      rw [hShape, outline_separator (by rw [hComma]; rfl) (first.yields.balanced_of_nest rfl) hBack]
      generalize outline first.tokens = nodes at hDeclares
      cases hDeclares with
      | plain hName hDimensions =>
          exact ⟨_, _, readDeclarators_comma hName hDimensions
            (by simp [Node.isWord, hComma]) hNext⟩
      | assigned hName hDimensions hEqual hItems =>
          rw [List.cons_append, List.append_assoc, List.cons_append]
          exact ⟨_, exists_readDeclarators_assigned hName hDimensions hEqual (by simp [hItems])⟩

end Derivation

end ClassSchema.Java
