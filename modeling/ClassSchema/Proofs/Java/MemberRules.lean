import ClassSchema.Proofs.Java.Members

/-!
# The rules of members

Each rule for a member is a header, perhaps parentheses or initializers, and a
last item: braces or a semicolon.  What stands between the header and the last
item may look like anything, an annotation or a type declaration for example, but
it holds no semicolon outside of groups.

## Main results

* `isMember_of_yields`: every derivation of a member makes one member.
-/

namespace ClassSchema.Java

open ClassSchema.Java.Expr Expr.Yields

/-! ## Parts of chains -/

/-- A chain can be cut behind any of its parts. -/
theorem chain_append_iff {front back : List Expr} {part last : Expr} {tokens : List Token} :
    (chain (front ++ part :: back) last).Yields tokens ↔
      ∃ first second, tokens = first ++ second ∧ (chain front part).Yields first ∧
        (chain back last).Yields second := by
  induction front generalizing tokens with
  | nil => exact sequence_iff
  | cons other front ih =>
      show (sequence other (chain (front ++ part :: back) last)).Yields tokens ↔ _
      rw [sequence_iff]
      constructor
      · rintro ⟨zeroth, rest, rfl, hOther, hRest⟩
        obtain ⟨first, second, rfl, hFirst, hSecond⟩ := ih.mp hRest
        exact ⟨zeroth ++ first, second, (List.append_assoc ..).symm,
          sequence_iff.mpr ⟨zeroth, first, rfl, hOther, hFirst⟩, hSecond⟩
      · rintro ⟨first, second, rfl, hFirst, hSecond⟩
        obtain ⟨zeroth, first, rfl, hOther, hFirst⟩ := sequence_iff.mp hFirst
        exact ⟨zeroth, first ++ second, List.append_assoc .., hOther,
          ih.mpr ⟨first, second, rfl, hFirst, hSecond⟩⟩

/-- The tokens of a class body: members between braces. -/
theorem yields_classBody_iff {tokens : List Token} :
    (rule .classBody).Yields tokens ↔
      ∃ opening inner closing, tokens = opening :: inner ++ [closing] ∧
        opening.terminal = .leftBrace ∧ (many (rule .member)).Yields inner ∧
        closing.terminal = .rightBrace := by
  rw [rule_iff]
  show (sequence (terminal .leftBrace)
    (sequence (many (rule .member)) (terminal .rightBrace))).Yields tokens ↔ _
  simp only [sequence_iff, terminal_iff]
  constructor
  · rintro ⟨_, _, rfl, ⟨opening, rfl, hOpening⟩, inner, _, rfl, hInner, closing, rfl, hClosing⟩
    exact ⟨opening, inner, closing, rfl, hOpening, hInner, hClosing⟩
  · rintro ⟨opening, inner, closing, rfl, hOpening, hInner, hClosing⟩
    exact ⟨[opening], _, rfl, ⟨opening, rfl, hOpening⟩, inner, _, rfl, hInner, closing, rfl,
      hClosing⟩

/-- The tokens of an enum body: constants and members between braces. -/
theorem yields_enumBody_iff {tokens : List Token} :
    (rule .enumBody).Yields tokens ↔
      ∃ opening constants members closing,
        tokens = opening :: (constants ++ members) ++ [closing] ∧
          opening.terminal = .leftBrace ∧
          (optional (rule .enumConstants)).Yields constants ∧
          (optional (rule .enumMembers)).Yields members ∧
          closing.terminal = .rightBrace := by
  rw [rule_iff]
  show (sequence (terminal .leftBrace) (sequence (optional (rule .enumConstants))
    (sequence (optional (rule .enumMembers)) (terminal .rightBrace)))).Yields tokens ↔ _
  simp only [sequence_iff, terminal_iff]
  constructor
  · rintro ⟨_, _, rfl, ⟨opening, rfl, hOpening⟩, constants, _, rfl, hConstants, members, _, rfl,
      hMembers, closing, rfl, hClosing⟩
    exact ⟨opening, constants, members, closing, by simp, hOpening, hConstants, hMembers, hClosing⟩
  · rintro ⟨opening, constants, members, closing, rfl, hOpening, hConstants, hMembers, hClosing⟩
    exact ⟨[opening], _, by simp, ⟨opening, rfl, hOpening⟩, constants, _, rfl, hConstants, members,
      _, rfl, hMembers, closing, rfl, hClosing⟩

/-! ## Last items -/

/-- Braces are an item by themselves, whatever is before them. -/
theorem behind_braces {opening closing : Token} {inner : List Token}
    (hOpening : opening.terminal = .leftBrace) (hInner : Balanced (terminals inner))
    (hClosing : closing.terminal = .rightBrace) (level : List Node) :
    behind level (opening :: inner ++ [closing]) =
      .braces (readClassBody (outline inner)) (readEnumBody (outline inner)) :: level :=
  @behind_wrap .brace opening closing inner hOpening hInner hClosing level

/-- So is a semicolon. -/
theorem behind_semicolon {token : Token} (h : token.terminal = .semicolon) (level : List Node) :
    behind level [token] = .word token :: level := by
  have hOther : token.terminal.isBracket = false := by rw [h]; rfl
  have hNoName : token.terminal ≠ .identifier := by rw [h]; decide
  rw [behind_other hOther, behind_nil, pushWord_of_ne hNoName]

theorem outline_braces {front inner : List Token} {opening closing : Token}
    (hFront : Balanced (terminals front)) (hOpening : opening.terminal = .leftBrace)
    (hInner : Balanced (terminals inner)) (hClosing : closing.terminal = .rightBrace) :
    outline (front ++ (opening :: inner ++ [closing])) =
      outline front ++
        [.braces (readClassBody (outline inner)) (readEnumBody (outline inner))] := by
  rw [outline_eq_reverse, behind_append hFront, behind_braces hOpening hInner hClosing,
    List.reverse_cons, ← outline_eq_reverse]

theorem outline_semicolon {front : List Token} {token : Token}
    (hFront : Balanced (terminals front)) (hToken : token.terminal = .semicolon) :
    outline (front ++ [token]) = outline front ++ [.word token] := by
  rw [outline_eq_reverse, behind_append hFront, behind_semicolon hToken, List.reverse_cons,
    ← outline_eq_reverse]

/-- Tokens that run to a semicolon are a member. -/
theorem IsMember.semicolon {front : List Token} {token : Token}
    (hFront : Balanced (terminals front)) {phase : Phase}
    (hRun : Phase.open.run (outline front) = .some phase)
    (hToken : token.terminal = .semicolon) : IsMember (front ++ [token]) where
  balanced := by
    have hOther : token.terminal.isBracket = false := by rw [hToken]; rfl
    rw [terminals_append]
    exact hFront.append (.other hOther .nil)
  makes := by
    rw [outline_semicolon hFront hToken]
    exact ⟨_, .semicolon hRun hToken⟩

private theorem balanced_braces {inner : List Token} {opening closing : Token}
    (hOpening : opening.terminal = .leftBrace) (hInner : Balanced (terminals inner))
    (hClosing : closing.terminal = .rightBrace) :
    Balanced (terminals (opening :: inner ++ [closing])) := by
  have hWrap := Balanced.wrap .brace hInner
  simpa [Bracket.opening, Bracket.closing, hOpening, hClosing] using hWrap

/-- Tokens that run to braces are a member, unless the braces are part of an initializer. -/
theorem IsMember.braces {front inner : List Token} {opening closing : Token}
    (hFront : Balanced (terminals front)) {phase : Phase}
    (hRun : Phase.open.run (outline front) = .some phase) (hPhase : phase ≠ .initializer)
    (hOpening : opening.terminal = .leftBrace) (hInner : Balanced (terminals inner))
    (hClosing : closing.terminal = .rightBrace) :
    IsMember (front ++ (opening :: inner ++ [closing])) where
  balanced := by
    rw [terminals_append]
    exact hFront.append (balanced_braces hOpening hInner hClosing)
  makes := by
    rw [outline_braces hFront hOpening hInner hClosing]
    exact ⟨_, .braces _ _ hRun hPhase⟩

/-- The items of a member that a semicolon ends. -/
theorem IsMember.items_of_semicolon {front : List Token} {token : Token}
    (h : IsMember (front ++ [token])) (hFront : Balanced (terminals front))
    (hToken : token.terminal = .semicolon) : memberItems (front ++ [token]) = outline front := by
  obtain ⟨items, hMakes⟩ := h.makes
  rw [memberItems_eq hMakes]
  generalize hNodes : outline (front ++ [token]) = nodes at hMakes
  rw [outline_semicolon hFront hToken] at hNodes
  cases hMakes with
  | semicolon => exact (List.append_inj' hNodes rfl).1.symm
  | braces => cases (List.append_inj' hNodes rfl).2

/-! ## Headers and parentheses -/

/-- The outline of a quiet header. -/
theorem Quiet.outline_items {left : Joint} {tokens : List Token} (h : Quiet .closed left tokens) :
    (∀ item ∈ outline tokens, item.isQuiet = true) ∧ left.Holds (behind [] tokens) := by
  obtain ⟨items, hBehind, quiet, hLeft⟩ := h.items [] rfl
  rw [List.append_nil] at hBehind
  refine ⟨?_, hLeft⟩
  rw [outline_eq_reverse, hBehind, List.reverse_reverse]
  exact quiet

/-- A quiet header keeps the phase in which a member begins. -/
theorem Quiet.run_outline {left : Joint} {tokens : List Token} (h : Quiet .closed left tokens)
    (phase : Phase) : phase.run (outline tokens) = .some phase :=
  Phase.run_quiet h.outline_items.1 phase

/-- Behind a header, parentheses are an item of their own, and nothing is open behind them. -/
theorem outline_parens {header group back : List Token}
    (hHeader : Quiet .closed .closed header) (hGroup : (rule .parenGroup).Yields group)
    (hBack : Balanced (terminals back)) :
    outline (header ++ (group ++ back)) = outline header ++ .parens :: outline back := by
  obtain ⟨opening, inner, closing, rfl, hOpening, hInner, hClosing⟩ :=
    (@yields_group_iff .paren _).mp hGroup
  have hClosed : IsClosed (behind [] header) = true := hHeader.outline_items.2
  have hParens : pushParens (behind [] header) = .parens :: behind [] header := by
    have hPush := pushParens_append hClosed []
    rw [List.nil_append] at hPush
    exact hPush
  have hFront : behind [] (header ++ (opening :: inner ++ [closing])) =
      .parens :: behind [] header := by
    rw [behind_append hHeader.balanced, behind_wrap hOpening hInner hClosing]
    exact hParens
  have hBalanced : Balanced (terminals (header ++ (opening :: inner ++ [closing]))) := by
    rw [terminals_append]
    exact hHeader.balanced.append hGroup.balanced
  rw [← List.append_assoc, outline_append hBalanced (by rw [hFront]; rfl) hBack,
    outline_eq_reverse (header ++ _), hFront, List.reverse_cons, ← outline_eq_reverse,
    List.append_assoc]
  rfl

/-- A header, parentheses, and items that pass behind them. -/
private theorem run_parens {header group back : List Token}
    (hHeader : Quiet .closed .closed header) (hGroup : (rule .parenGroup).Yields group)
    (hBack : Balanced (terminals back))
    (hRun : Phase.parameters.run (outline back) = .some .parameters) :
    Balanced (terminals (header ++ (group ++ back))) ∧
      Phase.open.run (outline (header ++ (group ++ back))) = .some .parameters := by
  constructor
  · rw [terminals_append, terminals_append]
    exact hHeader.balanced.append (hGroup.balanced.append hBack)
  · rw [outline_parens hHeader hGroup hBack, Phase.run_append, hHeader.run_outline]
    exact hRun

/-! ## Code -/

/-- The brackets of a rule that is a group. -/
def Rule.wraps : Rule → Option Bracket
  | parenGroup => .some .paren
  | block | classBody | enumBody => .some .brace
  | _ => .none

theorem Rule.yields_of_wraps {r : Rule} {b : Bracket} (h : r.wraps = .some b)
    {tokens : List Token} (hTokens : (rule r).Yields tokens) :
    ∃ opening inner closing, tokens = opening :: inner ++ [closing] ∧
      opening.terminal = b.opening ∧ Balanced (terminals inner) ∧
      closing.terminal = b.closing := by
  cases r <;> cases h
  case parenGroup => exact (@yields_group_iff .paren _).mp hTokens
  case block => exact (@yields_group_iff .brace _).mp hTokens
  case classBody =>
    obtain ⟨opening, inner, closing, rfl, hOpening, hInner, hClosing⟩ :=
      yields_classBody_iff.mp hTokens
    exact ⟨opening, inner, closing, rfl, hOpening, hInner.balanced_of_nest rfl, hClosing⟩
  case enumBody =>
    obtain ⟨opening, constants, members, closing, rfl, hOpening, hConstants, hMembers, hClosing⟩ :=
      yields_enumBody_iff.mp hTokens
    refine ⟨opening, _, closing, rfl, hOpening, ?_, hClosing⟩
    rw [terminals_append]
    exact (hConstants.balanced_of_nest rfl).append (hMembers.balanced_of_nest rfl)

/-- Whether a terminal of some kind may stand in what a body stands for, outside of all groups, given
the rules in which it may; brackets that a body writes itself count as well. -/
def Expr.mayShow (kind : Terminal → Bool) (rules : Rule → Bool) : Expr → Bool
  | terminal t => kind t || t.isBracket
  | rule r => rules r
  | sequence first second => first.mayShow kind rules || second.mayShow kind rules
  | choice left right => left.mayShow kind rules || right.mayShow kind rules
  | optional part => part.mayShow kind rules
  | many part => part.mayShow kind rules

/-- Whether a semicolon may stand in what a rule stands for, outside of all groups. -/
def Rule.ends : Rule → Bool
  | compilationUnit | packageDeclaration | importDeclaration | typeDeclaration | member
  | enumMembers | fieldDeclaration | methodDeclaration => true
  | _ => false

/-- The same for bodies. -/
def Expr.ends (e : Expr) : Bool := e.mayShow (· = .semicolon) Rule.ends

theorem Rule.ends_body {r : Rule} (hWraps : r.wraps = .none) (h : r.ends = false) :
    r.body.ends = false := by
  cases r <;> cases h <;> cases hWraps <;> rfl

/-- Whether an item is a word of some kind. -/
def Node.isOf (kind : Terminal → Bool) : Node → Bool
  | word token => kind token.terminal
  | _ => false

theorem Node.isOf_eq (terminal : Terminal) : Node.isOf (· = terminal) = Node.isWord terminal := by
  funext node
  cases node <;> rfl

private theorem pushWord_forall {p : Node → Prop} {token : Token} (hWord : p (.word token))
    (hUse : ∀ start isOpen, p (.annotationUse start isOpen)) {level : List Node}
    (h : ∀ node ∈ level, p node) : ∀ node ∈ pushWord token level, p node := by
  rcases pushWord_cases token level with hPush | ⟨sign, below, rfl, _, _, hPush⟩ |
    ⟨dot, start, below, rfl, _, _, hPush⟩ <;> rw [hPush]
  · exact List.forall_mem_cons.mpr ⟨hWord, h⟩
  · exact List.forall_mem_cons.mpr ⟨hUse _ _, (List.forall_mem_cons.mp h).2⟩
  · exact (List.forall_mem_cons.mp h).2

theorem pushGroup_forall {p : Node → Prop} {b : Bracket} {content : List Node}
    (hUse : ∀ start isOpen, p (.annotationUse start isOpen)) (hParens : p .parens)
    (hBraces : ∀ asClass asEnum, p (.braces asClass asEnum)) {level : List Node}
    (h : ∀ node ∈ level, p node) : ∀ node ∈ pushGroup b content level, p node := by
  cases b with
  | paren =>
      show ∀ node ∈ pushParens level, p node
      rcases pushParens_cases level with hPush | ⟨start, below, rfl, hPush⟩ <;> rw [hPush]
      · exact List.forall_mem_cons.mpr ⟨hParens, h⟩
      · exact List.forall_mem_cons.mpr ⟨hUse _ _, (List.forall_mem_cons.mp h).2⟩
  | brace => exact List.forall_mem_cons.mpr ⟨hBraces _ _, h⟩

/-- Tokens that put no words of some kind on a level that has none. -/
structure Lacks (kind : Terminal → Bool) (tokens : List Token) : Prop where
  balanced : Balanced (terminals tokens)
  items : ∀ level, (∀ node ∈ level, node.isOf kind = false) →
    ∀ node ∈ behind level tokens, node.isOf kind = false

namespace Lacks

variable {kind : Terminal → Bool}

theorem nil : Lacks kind [] where
  balanced := .nil
  items := by
    intro level hLevel
    rw [behind_nil]
    exact hLevel

theorem append {front back : List Token} (hFront : Lacks kind front) (hBack : Lacks kind back) :
    Lacks kind (front ++ back) where
  balanced := by
    rw [terminals_append]
    exact hFront.balanced.append hBack.balanced
  items := by
    intro level hLevel
    rw [behind_append hFront.balanced]
    exact hBack.items _ (hFront.items level hLevel)

theorem outline {tokens : List Token} (h : Lacks kind tokens) :
    ∀ node ∈ outline tokens, node.isOf kind = false := by
  intro node mem
  rw [outline_eq_reverse, List.mem_reverse] at mem
  exact h.items [] (by simp) node mem

theorem outline_isWord {terminal : Terminal} {tokens : List Token}
    (h : Lacks (· = terminal) tokens) :
    ∀ node ∈ Java.outline tokens, node.isWord terminal = false := by
  rw [← Node.isOf_eq]
  exact h.outline

end Lacks

/-- What holds no terminal of some kind outside of groups puts none on a level. -/
theorem Expr.Yields.lacks {kind : Terminal → Bool} {rules : Rule → Bool}
    (hRules : ∀ r : Rule, r.wraps = .none → rules r = false → r.body.mayShow kind rules = false)
    {e : Expr} {tokens : List Token} (h : e.Yields tokens)
    (hShow : e.mayShow kind rules = false) : Lacks kind tokens := by
  unfold Expr.Yields at h
  generalize hWord : terminals tokens = word at h
  induction h generalizing tokens with
  | terminal t =>
      obtain ⟨token, rest, rfl, rfl, hRest⟩ := List.map_eq_cons_iff.mp hWord
      obtain rfl := List.map_eq_nil_iff.mp hRest
      obtain ⟨hKind, hOther⟩ := Bool.or_eq_false_iff.mp hShow
      refine ⟨.other hOther .nil, ?_⟩
      intro level hLevel
      rw [behind_other hOther, behind_nil]
      exact pushWord_forall hKind (fun _ _ => rfl) hLevel
  | @rule r word hBody ih =>
      subst hWord
      cases hWraps : r.wraps with
      | none => exact ih (hRules r hWraps hShow) rfl
      | some b =>
          obtain ⟨opening, inner, closing, rfl, hOpening, hInner, hClosing⟩ :=
            Rule.yields_of_wraps hWraps (.rule hBody)
          refine ⟨Derives.balanced (.rule hBody), ?_⟩
          intro level hLevel
          rw [behind_wrap hOpening hInner hClosing]
          apply pushGroup_forall _ _ _ hLevel
          · intro _ _
            rfl
          · rfl
          · intro _ _
            rfl
  | sequence _ _ ihFirst ihSecond =>
      obtain ⟨front, back, rfl, hFront, hBack⟩ := List.map_eq_append_iff.mp hWord
      obtain ⟨hFirst, hSecond⟩ := Bool.or_eq_false_iff.mp hShow
      exact (ihFirst hFirst hFront).append (ihSecond hSecond hBack)
  | left _ ih =>
      obtain ⟨hFirst, -⟩ := Bool.or_eq_false_iff.mp hShow
      exact ih hFirst hWord
  | right _ ih =>
      obtain ⟨-, hSecond⟩ := Bool.or_eq_false_iff.mp hShow
      exact ih hSecond hWord
  | absent | none =>
      obtain rfl := List.map_eq_nil_iff.mp hWord
      exact .nil
  | present _ ih => exact ih hShow hWord
  | more _ _ ihPart ihMany =>
      obtain ⟨front, back, rfl, hFront, hBack⟩ := List.map_eq_append_iff.mp hWord
      exact (ihPart hShow hFront).append (ihMany hShow hBack)

theorem Expr.Yields.unended {e : Expr} {tokens : List Token} (h : e.Yields tokens)
    (hEnds : e.ends = false) : Lacks (· = .semicolon) tokens :=
  h.lacks (fun _ => Rule.ends_body) hEnds

/-- An initializer goes on to its semicolon. -/
private theorem run_initializer {e : Expr} {tokens : List Token} (h : e.Yields tokens)
    (hEnds : e.ends = false) : Phase.initializer.run (outline tokens) = .some .initializer := by
  apply Phase.run_of_forall
  intro node mem
  have hNode := (h.unended hEnds).outline_isWord node mem
  cases node with
  | word token =>
      simp only [Node.isWord, decide_eq_false_iff_not] at hNode
      simp [Phase.after, hNode]
  | _ => rfl

/-- So does what may stand between parentheses and a body of code. -/
private theorem run_parameters {tokens : List Token} (h : (many (rule .looseToken)).Yields tokens) :
    Phase.parameters.run (outline tokens) = .some .parameters := by
  obtain ⟨parts, rfl, each⟩ := many_iff.mp h
  apply Phase.run_of_forall
  intro node mem
  rw [outline_eq_reverse, List.mem_reverse] at mem
  have hAll : ∀ level : List Node,
      (∀ node ∈ level, Phase.parameters.after node = .some .parameters) →
        ∀ node ∈ behind level parts.flatten,
          Phase.parameters.after node = .some .parameters := by
    clear mem h
    induction parts with
    | nil =>
        intro level hLevel
        rw [List.flatten_nil, behind_nil]
        exact hLevel
    | cons part parts ih =>
        intro level hLevel
        obtain ⟨hPart, others⟩ := List.forall_mem_cons.mp each
        obtain ⟨token, rfl, hListed⟩ := yields_of_lists rfl (rule_iff.mp hPart)
        have hOther : token.terminal.isBracket = false := by
          cases hTerminal : token.terminal <;> rw [hTerminal] at hListed <;>
            first | rfl | cases hListed
        have hSemicolon : token.terminal ≠ .semicolon := by
          intro hTerminal
          rw [hTerminal] at hListed
          cases hListed
        rw [List.flatten_cons, List.singleton_append, behind_other hOther]
        apply ih others
        exact pushWord_forall (by simp [Phase.after, hSemicolon]) (fun _ _ => rfl) hLevel
  exact hAll [] (by simp) node mem

/-! ## Declarators -/

/-- Tokens whose items neither end a member nor put parentheses before an equals sign. -/
structure Assigning (joint : Joint) (tokens : List Token) : Prop where
  balanced : Balanced (terminals tokens)
  items : ∀ level, joint.Holds level → ∃ items : List Node,
    behind level tokens = items.reverse ++ level ∧
      ∀ phase ≠ Phase.parameters, ∃ left ≠ Phase.parameters, phase.run items = .some left

namespace Assigning

theorem append {joint : Joint} {front back : List Token} (hFront : Assigning joint front)
    (hBack : Assigning .sign back) : Assigning joint (front ++ back) where
  balanced := by
    rw [terminals_append]
    exact hFront.balanced.append hBack.balanced
  items := by
    intro level hLevel
    obtain ⟨first, hFirst, runFirst⟩ := hFront.items level hLevel
    obtain ⟨second, hSecond, runSecond⟩ := hBack.items (behind level front) trivial
    refine ⟨first ++ second, ?_, ?_⟩
    · rw [behind_append hFront.balanced, hSecond, hFirst, List.reverse_append, List.append_assoc]
    · intro phase hPhase
      obtain ⟨between, hBetween, hRunFirst⟩ := runFirst phase hPhase
      obtain ⟨left, hLeft, hRunSecond⟩ := runSecond between hBetween
      refine ⟨left, hLeft, ?_⟩
      rw [Phase.run_append, hRunFirst]
      exact hRunSecond

/-- A declarator without an initializer. -/
theorem of_quiet {joint left : Joint} {tokens : List Token} (h : Quiet joint left tokens) :
    Assigning joint tokens where
  balanced := h.balanced
  items := by
    intro level hLevel
    obtain ⟨items, hItems, quiet, _⟩ := h.items level hLevel
    exact ⟨items, hItems, fun phase hPhase => ⟨phase, hPhase, Phase.run_quiet quiet phase⟩⟩

/-- An equals sign and an initializer, which may be anything without a semicolon. -/
theorem initializer {equal : Token} (hEqual : equal.terminal = .equalSign) {e : Expr}
    {tokens : List Token} (h : e.Yields tokens) (hEnds : e.ends = false) :
    Assigning .sign (equal :: tokens) where
  balanced := by
    have hOther : equal.terminal.isBracket = false := by rw [hEqual]; rfl
    exact .other hOther (h.unended hEnds).balanced
  items := by
    intro level _
    have hOther : equal.terminal.isBracket = false := by rw [hEqual]; rfl
    have hNoName : equal.terminal ≠ .identifier := by rw [hEqual]; decide
    have hSign : equal.terminal ≠ .atSign := by rw [hEqual]; decide
    have hDot : equal.terminal ≠ .dot := by rw [hEqual]; decide
    refine ⟨.word equal :: outline tokens, ?_, ?_⟩
    · rw [behind_other hOther, pushWord_of_ne hNoName,
        behind_of_isClosed (isClosed_word hSign hDot level) (h.unended hEnds).balanced]
      simp
    · intro phase hPhase
      have hAfter : phase.after (.word equal) = .some .initializer := by
        cases phase with
        | parameters => exact absurd rfl hPhase
        | «open» => simp [Phase.after, hEqual]
        | initializer => simp [Phase.after, hEqual]
      refine ⟨.initializer, by decide, ?_⟩
      rw [Phase.run, hAfter]
      exact run_initializer h hEnds

/-- A declarator, behind which something else than a part of it follows. -/
theorem declarator {tokens : List Token} (h : (rule .declarator).Yields tokens) :
    Assigning .closed tokens := by
  obtain ⟨front, back, rfl, hFront, hBack⟩ :=
    (@chain_append_iff [terminal .identifier] [] (optional (Expr.some (rule .dimension)))
      (optional (sequence (terminal .equalSign) (Expr.some (rule .expressionItem)))) _).mp
      (rule_iff.mp h)
  have hName : Assigning .closed front := .of_quiet (hFront.quiet rfl)
  rcases optional_iff.mp hBack with rfl | hBack
  · rw [List.append_nil]
    exact hName
  · obtain ⟨_, value, rfl, equalPart, hValue⟩ := sequence_iff.mp hBack
    obtain ⟨equal, rfl, hEqual⟩ := terminal_iff.mp equalPart
    exact hName.append (.initializer hEqual hValue rfl)

/-- Declarators with commas between them. -/
theorem declarators {tokens : List Token}
    (h : (separatedBy (terminal .comma) (rule .declarator)).Yields tokens) :
    Assigning .closed tokens := by
  obtain ⟨front, back, rfl, hFront, hBack⟩ := sequence_iff.mp h
  obtain ⟨parts, rfl, each⟩ := many_iff.mp hBack
  apply (declarator hFront).append
  clear h hBack
  induction parts with
  | nil => exact .of_quiet (.nil .sign)
  | cons part parts ih =>
      obtain ⟨hPart, others⟩ := List.forall_mem_cons.mp each
      obtain ⟨_, back, rfl, commaPart, hDeclarator⟩ := sequence_iff.mp hPart
      obtain ⟨comma, rfl, hComma⟩ := terminal_iff.mp commaPart
      have hFlow : comma.terminal.flow .sign = .some .closed := by rw [hComma]; rfl
      have hFirst : Quiet .sign .closed [comma] := .word hFlow
      have hBoth : Assigning .sign ([comma] ++ back) := by
        refine ⟨?_, ?_⟩
        · rw [terminals_append]
          exact hFirst.balanced.append (declarator hDeclarator).balanced
        · intro level hLevel
          obtain ⟨first, hItems, quiet, hClosed⟩ := hFirst.items level hLevel
          obtain ⟨second, hSecond, run⟩ := (declarator hDeclarator).items _ hClosed
          refine ⟨first ++ second, ?_, ?_⟩
          · rw [behind_append hFirst.balanced, hSecond, hItems, List.reverse_append,
              List.append_assoc]
          · intro phase hPhase
            rw [Phase.run_append, Phase.run_quiet quiet]
            exact run phase hPhase
      exact hBoth.append (ih others)

end Assigning

/-! ## The rules -/

/-- A quiet header and braces. -/
theorem IsMember.of_header {left : Joint} {header body : List Token}
    (hHeader : Quiet .closed left header) {r : Rule} (hWraps : r.wraps = .some .brace)
    (hBody : (rule r).Yields body) : IsMember (header ++ body) := by
  obtain ⟨opening, inner, closing, rfl, hOpening, hInner, hClosing⟩ :=
    Rule.yields_of_wraps hWraps hBody
  exact .braces hHeader.balanced (hHeader.run_outline .open) (by decide) hOpening hInner hClosing

/-- A quiet header and a semicolon. -/
theorem IsMember.of_statement {left : Joint} {header : List Token} {token : Token}
    (hHeader : Quiet .closed left header) (hToken : token.terminal = .semicolon) :
    IsMember (header ++ [token]) :=
  .semicolon hHeader.balanced (hHeader.run_outline .open) hToken

private theorem isMember_field {tokens : List Token}
    (h : (rule .fieldDeclaration).Yields tokens) : IsMember tokens := by
  obtain ⟨header, rest, rfl, hHeader, hRest⟩ :=
    (@chain_append_iff [rule .modifiers] [separatedBy (terminal .comma) (rule .declarator)]
      (rule .type) (terminal .semicolon) _).mp (rule_iff.mp h)
  obtain ⟨declarators, _, rfl, hDeclarators, lastPart⟩ := sequence_iff.mp hRest
  obtain ⟨token, rfl, hToken⟩ := terminal_iff.mp lastPart
  have hQuiet : Quiet .closed .closed header := hHeader.quiet rfl
  have hAssigning := Assigning.declarators hDeclarators
  obtain ⟨items, hItems, run⟩ := hAssigning.items [] rfl
  obtain ⟨phase, _, hRun⟩ := run .open (by decide)
  rw [← List.append_assoc]
  refine @IsMember.semicolon _ _ ?_ phase ?_ hToken
  · rw [terminals_append]
    exact hQuiet.balanced.append hAssigning.balanced
  · rw [outline_append hQuiet.balanced hQuiet.outline_items.2 hAssigning.balanced,
      Phase.run_append, hQuiet.run_outline, outline_eq_reverse declarators, hItems]
    simpa using hRun

private theorem isMember_method {tokens : List Token}
    (h : (rule .methodDeclaration).Yields tokens) : IsMember tokens := by
  obtain ⟨header, rest, rfl, hHeader, hRest⟩ :=
    (@chain_append_iff
      [rule .modifiers, optional (rule .typeParameters), optional (rule .type)]
      [rule .parenGroup, many (rule .looseToken)] (terminal .identifier)
      (choice (rule .block) (terminal .semicolon)) _).mp (rule_iff.mp h)
  obtain ⟨group, rest, rfl, hGroup, hRest⟩ := sequence_iff.mp hRest
  obtain ⟨loose, last, rfl, hLoose, hLast⟩ := sequence_iff.mp hRest
  obtain ⟨hBalanced, hRun⟩ := run_parens (hHeader.quiet rfl) hGroup
    (hLoose.balanced_of_nest rfl) (run_parameters hLoose)
  have hShape : header ++ (group ++ (loose ++ last)) = header ++ (group ++ loose) ++ last := by
    simp
  rw [hShape]
  rcases choice_iff.mp hLast with hBlock | hSemicolon
  · obtain ⟨opening, inner, closing, rfl, hOpening, hInner, hClosing⟩ :=
      (@yields_group_iff .brace _).mp hBlock
    exact .braces hBalanced hRun (by decide) hOpening hInner hClosing
  · obtain ⟨token, rfl, hToken⟩ := terminal_iff.mp hSemicolon
    exact .semicolon hBalanced hRun hToken

private theorem isMember_record {tokens : List Token}
    (h : (rule .recordDeclaration).Yields tokens) : IsMember tokens := by
  obtain ⟨header, rest, rfl, hHeader, hRest⟩ :=
    (@chain_append_iff
      [rule .modifiers, terminal .identifier, terminal .identifier]
      [rule .parenGroup, many (rule .classHeader)] (optional (rule .typeParameters))
      (rule .classBody) _).mp (rule_iff.mp h)
  obtain ⟨group, rest, rfl, hGroup, hRest⟩ := sequence_iff.mp hRest
  obtain ⟨headers, body, rfl, hHeaders, hBody⟩ := sequence_iff.mp hRest
  have hQuiet : Quiet .closed .closed headers := hHeaders.quiet rfl
  obtain ⟨hBalanced, hRun⟩ :=
    run_parens (hHeader.quiet rfl) hGroup hQuiet.balanced (hQuiet.run_outline .parameters)
  obtain ⟨opening, inner, closing, rfl, hOpening, hInner, hClosing⟩ :=
    @Rule.yields_of_wraps .classBody .brace rfl _ hBody
  have hShape : header ++ (group ++ (headers ++ (opening :: inner ++ [closing]))) =
      header ++ (group ++ headers) ++ (opening :: inner ++ [closing]) := by
    simp
  rw [hShape]
  exact .braces hBalanced hRun (by decide) hOpening hInner hClosing

private theorem isMember_initializer {tokens : List Token}
    (h : (rule .initializer).Yields tokens) : IsMember tokens := by
  obtain ⟨header, body, rfl, hHeader, hBody⟩ := sequence_iff.mp (rule_iff.mp h)
  exact @IsMember.of_header _ _ _ (hHeader.quiet rfl) .block rfl hBody

private theorem isMember_compactConstructor {tokens : List Token}
    (h : (rule .compactConstructor).Yields tokens) : IsMember tokens := by
  obtain ⟨header, body, rfl, hHeader, hBody⟩ :=
    (@chain_append_iff [rule .modifiers] [] (terminal .identifier) (rule .block) _).mp
      (rule_iff.mp h)
  exact @IsMember.of_header _ _ _ (hHeader.quiet rfl) .block rfl hBody

/-- The header of a class, an interface or an enum, which is what precedes its body. -/
def DeclKind.header : DeclKind → Expr
  | classDecl =>
      chain [rule .modifiers, terminal .classWord, terminal .identifier,
        optional (rule .typeParameters)] (many (rule .classHeader))
  | interfaceDecl =>
      chain [rule .modifiers, optional (terminal .atSign), terminal .interfaceWord,
        terminal .identifier, optional (rule .typeParameters)] (many (rule .classHeader))
  | enumDecl =>
      chain [rule .modifiers, terminal .enumWord, terminal .identifier]
        (many (rule .classHeader))

/-- The rule of a declaration of a kind. -/
def DeclKind.declaration : DeclKind → Rule
  | classDecl => .classDeclaration
  | interfaceDecl => .interfaceDeclaration
  | enumDecl => .enumDeclaration

/-- The rule of the body of such a declaration. -/
def DeclKind.body : DeclKind → Rule
  | enumDecl => .enumBody
  | _ => .classBody

/-- The body of a declaration rule is a header and a body. -/
theorem DeclKind.declaration_body (kind : DeclKind) :
    ∃ (front : List Expr) (part : Expr), kind.header = chain front part ∧
      kind.declaration.body = chain (front ++ [part]) (rule kind.body) := by
  cases kind with
  | classDecl => exact ⟨_, _, rfl, rfl⟩
  | interfaceDecl => exact ⟨_, _, rfl, rfl⟩
  | enumDecl => exact ⟨_, _, rfl, rfl⟩

theorem DeclKind.yields_iff {kind : DeclKind} {tokens : List Token} :
    (rule kind.declaration).Yields tokens ↔
      ∃ header body, tokens = header ++ body ∧ kind.header.Yields header ∧
        (rule kind.body).Yields body := by
  obtain ⟨front, part, hHeader, hBody⟩ := kind.declaration_body
  rw [rule_iff, hHeader, hBody]
  exact chain_append_iff

/-- Classes, interfaces and enums may stand at top level. -/
theorem yields_typeDeclaration {kind : DeclKind} {tokens : List Token}
    (h : (rule kind.declaration).Yields tokens) : (rule .typeDeclaration).Yields tokens := by
  rw [rule_iff]
  show (oneOf [.rule .classDeclaration, .rule .interfaceDeclaration, .rule .enumDeclaration,
    .rule .recordDeclaration] (terminal .semicolon)).Yields tokens
  simp only [oneOf, choice_iff]
  cases kind with
  | classDecl => exact .inl h
  | interfaceDecl => exact .inr (.inl h)
  | enumDecl => exact .inr (.inr (.inl h))

theorem DeclKind.quiet_header {kind : DeclKind} {header : List Token}
    (h : kind.header.Yields header) : Quiet .closed .closed header := by
  cases kind <;> exact h.quiet rfl

theorem DeclKind.wraps_body (kind : DeclKind) : kind.body.wraps = .some .brace := by
  cases kind <;> rfl

theorem isMember_declaration {kind : DeclKind} {tokens : List Token}
    (h : (rule kind.declaration).Yields tokens) : IsMember tokens := by
  obtain ⟨header, body, rfl, hHeader, hBody⟩ := DeclKind.yields_iff.mp h
  exact .of_header (DeclKind.quiet_header hHeader) kind.wraps_body hBody

/-- **Every derivation of a member makes one member.** -/
theorem isMember_of_yields {tokens : List Token} (h : (rule .member).Yields tokens) :
    IsMember tokens := by
  have hRule := rule_iff.mp h
  simp only [Rule.body, oneOf, choice_iff] at hRule
  rcases hRule with h | h | h | h | h | h | h | h | h
  · exact isMember_field h
  · exact isMember_method h
  · exact isMember_initializer h
  · exact isMember_compactConstructor h
  · exact @isMember_declaration .classDecl _ h
  · exact @isMember_declaration .interfaceDecl _ h
  · exact @isMember_declaration .enumDecl _ h
  · exact isMember_record h
  · obtain ⟨token, rfl, hToken⟩ := terminal_iff.mp h
    exact .of_statement (.nil .closed) hToken

/-- At top level as well. -/
theorem isMember_of_yields_typeDeclaration {tokens : List Token}
    (h : (rule .typeDeclaration).Yields tokens) : IsMember tokens := by
  have hRule := rule_iff.mp h
  simp only [Rule.body, oneOf, choice_iff] at hRule
  rcases hRule with h | h | h | h | h
  · exact @isMember_declaration .classDecl _ h
  · exact @isMember_declaration .interfaceDecl _ h
  · exact @isMember_declaration .enumDecl _ h
  · exact isMember_record h
  · obtain ⟨token, rfl, hToken⟩ := terminal_iff.mp h
    exact .of_statement (.nil .closed) hToken

theorem isMember_of_yields_packageDeclaration {tokens : List Token}
    (h : (rule .packageDeclaration).Yields tokens) : IsMember tokens := by
  obtain ⟨header, _, rfl, hHeader, hLast⟩ :=
    (@chain_append_iff [rule .modifiers, terminal .packageWord] [] (rule .qualifiedName)
      (terminal .semicolon) _).mp (rule_iff.mp h)
  obtain ⟨token, rfl, hToken⟩ := terminal_iff.mp hLast
  exact .of_statement (hHeader.quiet rfl) hToken

theorem isMember_of_yields_importDeclaration {tokens : List Token}
    (h : (rule .importDeclaration).Yields tokens) : IsMember tokens := by
  obtain ⟨header, _, rfl, hHeader, hLast⟩ :=
    (@chain_append_iff
      [terminal .importWord, optional (terminal .staticWord), rule .qualifiedName] []
      (optional (sequence (terminal .dot) (terminal .star))) (terminal .semicolon) _).mp
      (rule_iff.mp h)
  obtain ⟨token, rfl, hToken⟩ := terminal_iff.mp hLast
  exact .of_statement (hHeader.quiet rfl) hToken

end ClassSchema.Java
