import ClassSchema.Proofs.Java.Recognition

/-!
# Balanced brackets

Parentheses and braces nest.  `Balanced` says so of a sequence of terminals by its
shape; `stillOpen` decides it with a stack of the brackets that are open.

Every rule of the grammar stands for balanced sequences only.  A body alone need
not, since the brackets of a rule are written in its body; but what a body does to
the open brackets can be read off it without a derivation.  Conversely, any
balanced sequence may stand between the brackets of a group.

## Main results

* `balanced_iff_stillOpen`: the stack decides whether a sequence is balanced.
* `Derives.balanced`: what a rule stands for is balanced.
* `derives_group_iff`: a group is any balanced sequence between its brackets.
-/

namespace ClassSchema.Java

/-- The kinds of brackets that nest. -/
inductive Bracket where
  | paren
  | brace
  deriving DecidableEq, Repr

namespace Bracket

/-- The terminal that opens a bracket. -/
def opening : Bracket → Terminal
  | paren => .leftParen
  | brace => .leftBrace

/-- The terminal that closes a bracket. -/
def closing : Bracket → Terminal
  | paren => .rightParen
  | brace => .rightBrace

/-- The rule of the groups in brackets of a kind. -/
def group : Bracket → Rule
  | paren => .parenGroup
  | brace => .block

end Bracket

/-- Whether a terminal opens or closes a bracket that nests. -/
def Terminal.isBracket : Terminal → Bool
  | leftParen | rightParen | leftBrace | rightBrace => true
  | _ => false

/-- A terminal is no bracket, or it opens one, or it closes one. -/
theorem Terminal.bracket_cases (t : Terminal) :
    t.isBracket = false ∨ (∃ b : Bracket, t = b.opening) ∨ ∃ b : Bracket, t = b.closing := by
  cases t with
  | leftParen => exact .inr (.inl ⟨.paren, rfl⟩)
  | leftBrace => exact .inr (.inl ⟨.brace, rfl⟩)
  | rightParen => exact .inr (.inr ⟨.paren, rfl⟩)
  | rightBrace => exact .inr (.inr ⟨.brace, rfl⟩)
  | _ => exact .inl rfl

/-! ## Balanced sequences -/

/-- Every bracket is closed by its partner, and none is closed that was not opened. -/
inductive Balanced : List Terminal → Prop where
  | nil : Balanced []
  | other {t : Terminal} {word : List Terminal} :
      t.isBracket = false → Balanced word → Balanced (t :: word)
  | group (b : Bracket) {inner word : List Terminal} :
      Balanced inner → Balanced word → Balanced (b.opening :: inner ++ b.closing :: word)

namespace Balanced

/-- A group alone. -/
theorem wrap (b : Bracket) {inner : List Terminal} (h : Balanced inner) :
    Balanced (b.opening :: inner ++ [b.closing]) :=
  .group b h .nil

/-- Balanced sequences can be put one after the other. -/
theorem append {front back : List Terminal} (hFront : Balanced front) (hBack : Balanced back) :
    Balanced (front ++ back) := by
  induction hFront with
  | nil => exact hBack
  | other hOther _ ih => exact .other hOther ih
  | @group b inner word hInner _ _ ih =>
      have hAll := Balanced.group b hInner ih
      simpa using hAll

end Balanced

/-! ## The stack of open brackets -/

/-- What a terminal does to the open brackets, the innermost first. -/
def Terminal.nest : Terminal → List Bracket → Option (List Bracket)
  | leftParen, unclosed => some (.paren :: unclosed)
  | leftBrace, unclosed => some (.brace :: unclosed)
  | rightParen, .paren :: unclosed => some unclosed
  | rightBrace, .brace :: unclosed => some unclosed
  | rightParen, _ => none
  | rightBrace, _ => none
  | _, unclosed => some unclosed

/-- The brackets that are open behind terminals, if none was closed out of order. -/
def stillOpen (unclosed : List Bracket) : List Terminal → Option (List Bracket)
  | [] => some unclosed
  | t :: rest => (t.nest unclosed).bind (stillOpen · rest)

namespace Terminal

theorem nest_other {t : Terminal} (h : t.isBracket = false) (unclosed : List Bracket) :
    t.nest unclosed = some unclosed := by
  cases t <;> first | rfl | cases h

theorem nest_opening (b : Bracket) (unclosed : List Bracket) :
    b.opening.nest unclosed = some (b :: unclosed) := by
  cases b <;> rfl

theorem nest_closing_iff {b : Bracket} {unclosed left : List Bracket} :
    b.closing.nest unclosed = some left ↔ unclosed = b :: left := by
  cases b <;> rcases unclosed with _ | ⟨_ | _, _⟩ <;> simp [Bracket.closing, nest]

end Terminal

theorem stillOpen_append (unclosed : List Bracket) (front back : List Terminal) :
    stillOpen unclosed (front ++ back) =
      (stillOpen unclosed front).bind (stillOpen · back) := by
  induction front generalizing unclosed with
  | nil => rfl
  | cons t front ih =>
      show (t.nest unclosed).bind _ = ((t.nest unclosed).bind _).bind _
      cases t.nest unclosed with
      | none => rfl
      | some left => exact ih left

/-- A balanced sequence leaves the brackets around it as they are. -/
theorem Balanced.stillOpen_eq {word : List Terminal} (h : Balanced word)
    (unclosed : List Bracket) : stillOpen unclosed word = some unclosed := by
  induction h generalizing unclosed with
  | nil => rfl
  | other hOther _ ih =>
      rw [stillOpen, Terminal.nest_other hOther]
      exact ih unclosed
  | @group b inner word _ _ ihInner ih =>
      rw [List.cons_append, stillOpen, Terminal.nest_opening, Option.bind_some,
        stillOpen_append, ihInner, Option.bind_some, stillOpen,
        Terminal.nest_closing_iff.mpr rfl, Option.bind_some, ih]

/-- What closes open brackets: balanced sequences with the closing brackets between them. -/
private inductive Closes : List Bracket → List Terminal → Prop where
  | done {word : List Terminal} : Balanced word → Closes [] word
  | next {b : Bracket} {unclosed : List Bracket} {inner word : List Terminal} :
      Balanced inner → Closes unclosed word → Closes (b :: unclosed) (inner ++ b.closing :: word)

private theorem Closes.other {t : Terminal} (hOther : t.isBracket = false)
    {unclosed : List Bracket} {word : List Terminal} (h : Closes unclosed word) :
    Closes unclosed (t :: word) := by
  cases h with
  | done hWord => exact .done (.other hOther hWord)
  | next hInner hWord => exact .next (.other hOther hInner) hWord

private theorem Closes.group {b : Bracket} {unclosed : List Bracket} {word : List Terminal}
    (h : Closes (b :: unclosed) word) : Closes unclosed (b.opening :: word) := by
  cases h with
  | next hInner hWord =>
      cases hWord with
      | done hWord => exact .done (.group b hInner hWord)
      | @next outer _ inner' _ hInner' hWord =>
          have hInner := Balanced.group b hInner hInner'
          have hAll := @Closes.next outer _ _ _ hInner hWord
          simpa using hAll

private theorem closes_of_stillOpen {word : List Terminal} {unclosed : List Bracket}
    (h : stillOpen unclosed word = some []) : Closes unclosed word := by
  induction word generalizing unclosed with
  | nil =>
      cases h
      exact .done .nil
  | cons t word ih =>
      rw [stillOpen, Option.bind_eq_some_iff] at h
      obtain ⟨left, hNest, hRest⟩ := h
      rcases t.bracket_cases with hOther | ⟨b, rfl⟩ | ⟨b, rfl⟩
      · rw [Terminal.nest_other hOther] at hNest
        cases hNest
        exact (ih hRest).other hOther
      · rw [Terminal.nest_opening] at hNest
        cases hNest
        exact (ih hRest).group
      · rw [Terminal.nest_closing_iff] at hNest
        subst hNest
        exact .next .nil (ih hRest)

/-- **The stack decides balance.** -/
theorem balanced_iff_stillOpen {word : List Terminal} :
    Balanced word ↔ stillOpen [] word = some [] := by
  constructor
  · intro h
    exact h.stillOpen_eq []
  · intro h
    cases closes_of_stillOpen h with
    | done hWord => exact hWord

instance (word : List Terminal) : Decidable (Balanced word) :=
  decidable_of_iff _ balanced_iff_stillOpen.symm

/-! ## Brackets in the grammar -/

/-- What a body does to the open brackets, where that does not depend on the derivation. -/
def Expr.nest : Expr → List Bracket → Option (List Bracket)
  | terminal t, unclosed => t.nest unclosed
  | rule _, unclosed => .some unclosed
  | sequence first second, unclosed => (first.nest unclosed).bind second.nest
  | choice left right, unclosed =>
      if left.nest unclosed = right.nest unclosed then left.nest unclosed else none
  | optional part, unclosed =>
      if part.nest unclosed = .some unclosed then .some unclosed else none
  | many part, unclosed =>
      if part.nest unclosed = .some unclosed then .some unclosed else none

/-- The body of a rule closes what it opens. -/
theorem Rule.nest_body (r : Rule) (unclosed : List Bracket) :
    r.body.nest unclosed = some unclosed := by
  cases r <;>
    simp [body, Expr.nest, Expr.chain, Expr.oneOf, Expr.separatedBy, Expr.some, Terminal.nest]

private theorem Derives.stillOpen_eq {e : Expr} {word : List Terminal} (h : Derives e word)
    {unclosed left : List Bracket} (hNest : e.nest unclosed = some left) :
    stillOpen unclosed word = some left := by
  induction h generalizing unclosed left with
  | terminal t =>
      rw [stillOpen, show t.nest unclosed = some left from hNest]
      rfl
  | @rule r _ _ ih =>
      cases hNest
      exact ih (r.nest_body unclosed)
  | sequence _ _ ihFirst ihSecond =>
      obtain ⟨between, hFirst, hSecond⟩ := Option.bind_eq_some_iff.mp hNest
      rw [stillOpen_append, ihFirst hFirst]
      exact ihSecond hSecond
  | left _ ih =>
      simp only [Expr.nest, Option.ite_none_right_eq_some] at hNest
      exact ih hNest.2
  | right _ ih =>
      simp only [Expr.nest, Option.ite_none_right_eq_some] at hNest
      exact ih (hNest.1 ▸ hNest.2)
  | absent | none =>
      simp only [Expr.nest, Option.ite_none_right_eq_some] at hNest
      exact hNest.2
  | present _ ih =>
      simp only [Expr.nest, Option.ite_none_right_eq_some] at hNest
      exact ih (hNest.1.trans hNest.2)
  | more _ _ ihPart ihMany =>
      have hPart := hNest
      simp only [Expr.nest, Option.ite_none_right_eq_some] at hPart
      obtain ⟨hPart, hLeft⟩ := hPart
      cases hLeft
      rw [stillOpen_append, ihPart hPart]
      exact ihMany hNest

/-- **What a rule stands for is balanced.** -/
theorem Derives.balanced {r : Rule} {word : List Terminal} (h : Derives (.rule r) word) :
    Balanced word :=
  balanced_iff_stillOpen.mpr (h.stillOpen_eq rfl)

/-- The same for bodies that write no brackets of their own. -/
theorem Derives.balanced_of_nest {e : Expr} {word : List Terminal} (h : Derives e word)
    (hNest : e.nest [] = some []) : Balanced word :=
  balanced_iff_stillOpen.mpr (h.stillOpen_eq hNest)

/-! ## Groups -/

/-- What stands between the brackets of a group. -/
def groupItem : Expr := .choice (.rule .expressionItem) (.terminal .semicolon)

/-- Whether a terminal is among those that a body lists. -/
def Expr.lists (t : Terminal) : Expr → Bool
  | terminal listed => listed = t
  | choice left right => left.lists t || right.lists t
  | _ => false

private theorem Expr.derives_of_lists {t : Terminal} {e : Expr} (h : e.lists t = true) :
    Derives e [t] := by
  induction e with
  | terminal listed =>
      simp only [lists, decide_eq_true_eq] at h
      subst h
      exact .terminal listed
  | choice left right ihLeft ihRight =>
      rcases Bool.or_eq_true_iff.mp h with hLeft | hRight
      · exact .left (ihLeft hLeft)
      · exact .right (ihRight hRight)
  | _ => cases h

/-- Whether a body is a list of terminals. -/
def Expr.isListing : Expr → Bool
  | terminal _ => true
  | choice left right => left.isListing && right.isListing
  | _ => false

theorem yields_of_lists {e : Expr} (hListing : e.isListing = true) {tokens : List Token}
    (h : e.Yields tokens) : ∃ token, tokens = [token] ∧ e.lists token.terminal = true := by
  induction e with
  | terminal t =>
      obtain ⟨token, rfl, rfl⟩ := Expr.Yields.terminal_iff.mp h
      exact ⟨token, rfl, by simp [Expr.lists]⟩
  | choice left right ihLeft ihRight =>
      obtain ⟨hLeft, hRight⟩ := Bool.and_eq_true_iff.mp hListing
      rcases Expr.Yields.choice_iff.mp h with h | h
      · obtain ⟨token, rfl, hLists⟩ := ihLeft hLeft h
        exact ⟨token, rfl, by simp [Expr.lists, hLists]⟩
      · obtain ⟨token, rfl, hLists⟩ := ihRight hRight h
        exact ⟨token, rfl, by simp [Expr.lists, hLists]⟩
  | _ => cases hListing

/-- A terminal that is neither a bracket nor a semicolon is an item of an initializer. -/
theorem derives_expressionItem {t : Terminal} (h : t.isBracket = false) (hEnds : t ≠ .semicolon) :
    Derives (.rule .expressionItem) [t] := by
  have hLoose : Rule.looseToken.body.lists t = true := by
    cases t <;> simp [Terminal.isBracket] at h hEnds <;> rfl
  exact .rule (.right (.right (.rule (Expr.derives_of_lists hLoose))))

/-- A terminal that is no bracket is an item of a group. -/
private theorem derives_groupItem {t : Terminal} (h : t.isBracket = false) :
    Derives groupItem [t] := by
  by_cases hSemicolon : t = .semicolon
  · subst hSemicolon
    exact .right (.terminal _)
  · exact .left (derives_expressionItem h hSemicolon)

private theorem derives_wrap (b : Bracket) {inner : List Terminal}
    (h : Derives (.many groupItem) inner) :
    Derives (.rule b.group) (b.opening :: inner ++ [b.closing]) := by
  have hBody := Derives.sequence (.terminal b.opening) (.sequence h (.terminal b.closing))
  cases b <;> exact .rule hBody

/-- Whatever is balanced may stand between brackets. -/
private theorem Balanced.derives {word : List Terminal} (h : Balanced word) :
    Derives (.many groupItem) word := by
  induction h with
  | nil => exact .none
  | other hOther _ ih => exact .more (derives_groupItem hOther) ih
  | @group b inner word _ _ ihInner ih =>
      have hGroup := derives_wrap b ihInner
      have hItem : Derives groupItem (b.opening :: inner ++ [b.closing]) := by
        cases b with
        | paren => exact .left (.rule (.right (.left hGroup)))
        | brace => exact .left (.rule (.left hGroup))
      have hAll := Derives.more hItem ih
      simpa using hAll

/-- **A group is any balanced sequence between its brackets.** -/
theorem derives_group_iff {b : Bracket} {word : List Terminal} :
    Derives (.rule b.group) word ↔
      ∃ inner, word = b.opening :: inner ++ [b.closing] ∧ Balanced inner := by
  constructor
  · intro h
    have hBody : Derives (.sequence (.terminal b.opening)
        (.sequence (.many groupItem) (.terminal b.closing))) word := by
      cases b <;> (cases h with | rule h => exact h)
    cases hBody with
    | sequence hOpening hRest =>
        cases hOpening
        cases hRest with
        | @sequence _ _ inner _ hInner hClosing =>
            cases hClosing
            exact ⟨inner, rfl, hInner.balanced_of_nest rfl⟩
  · rintro ⟨inner, rfl, hInner⟩
    exact derives_wrap b hInner.derives

/-- The tokens of a group. -/
theorem yields_group_iff {b : Bracket} {tokens : List Token} :
    (Expr.rule b.group).Yields tokens ↔
      ∃ opening inner closing, tokens = opening :: inner ++ [closing] ∧
        opening.terminal = b.opening ∧ Balanced (terminals inner) ∧
        closing.terminal = b.closing := by
  unfold Expr.Yields
  rw [derives_group_iff]
  constructor
  · intro ⟨word, hWord, hInner⟩
    obtain ⟨front, back, rfl, hFront, hBack⟩ := List.map_eq_append_iff.mp hWord
    obtain ⟨opening, inner, rfl, hOpening, rfl⟩ := List.map_eq_cons_iff.mp hFront
    obtain ⟨closing, last, rfl, hClosing, hLast⟩ := List.map_eq_cons_iff.mp hBack
    obtain rfl := List.map_eq_nil_iff.mp hLast
    exact ⟨opening, inner, closing, rfl, hOpening, hInner, hClosing⟩
  · rintro ⟨opening, inner, closing, rfl, hOpening, hInner, hClosing⟩
    exact ⟨terminals inner, by simp [hOpening, hClosing], hInner⟩

end ClassSchema.Java
