import ClassSchema.Proofs.Java.Brackets

/-!
# Outlines of balanced tokens

The outline of a source is made with a stack of levels.  Balanced tokens come
back to the level on which they started: all that they do is to put items on it.
`behind` is that level.  So outlines can be taken apart where the tokens can.

Items may be merged with those before them: a name with an at sign, a further
part of a name with the annotation it belongs to, arguments with their
annotation.  On a level whose last item waits for nothing, `IsClosed`, balanced
tokens put exactly the items that they have by themselves.

## Main results

* `outlineFrom_append`: balanced tokens change the innermost level only.
* `behind_of_isClosed`: on a closed level the items of tokens do not depend on
  what was there before.
-/

namespace ClassSchema.Java

/-! ## Tokens, one balanced stretch after the other -/

/-- An induction over balanced tokens: none, a token that is no bracket, or a group. -/
@[elab_as_elim]
theorem Balanced.induction_tokens {motive : List Token → Prop} (nil : motive [])
    (other : ∀ (token : Token) (rest : List Token), token.terminal.isBracket = false →
      motive rest → motive (token :: rest))
    (group : ∀ (b : Bracket) (opening : Token) (inner : List Token) (closing : Token)
      (rest : List Token), opening.terminal = b.opening → closing.terminal = b.closing →
      Balanced (terminals inner) → motive inner → motive rest →
      motive (opening :: inner ++ closing :: rest))
    {tokens : List Token} (h : Balanced (terminals tokens)) : motive tokens := by
  generalize hWord : terminals tokens = word at h
  induction h generalizing tokens with
  | nil =>
      rw [List.map_eq_nil_iff.mp hWord]
      exact nil
  | other hOther _ ih =>
      obtain ⟨token, rest, rfl, rfl, hRest⟩ := List.map_eq_cons_iff.mp hWord
      exact other token rest hOther (ih hRest)
  | group b hInner _ ihInner ih =>
      obtain ⟨front, back, rfl, hFront, hBack⟩ := List.map_eq_append_iff.mp hWord
      obtain ⟨opening, inner, rfl, hOpening, rfl⟩ := List.map_eq_cons_iff.mp hFront
      obtain ⟨closing, rest, rfl, hClosing, rfl⟩ := List.map_eq_cons_iff.mp hBack
      exact group b opening inner closing rest hOpening hClosing hInner (ihInner rfl) (ih rfl)

/-! ## Levels -/

/-- Puts a group behind the items of an outline. -/
def pushGroup (b : Bracket) (content level : List Node) : List Node :=
  match b with
  | .paren => pushParens level
  | .brace => pushBraces content level

/-- A word becomes an item, or it begins an annotation behind an at sign, or it continues one behind
a dot. -/
theorem pushWord_cases (token : Token) (level : List Node) :
    pushWord token level = .word token :: level ∨
      (∃ sign below, level = .word sign :: below ∧ sign.terminal = .atSign ∧
        token.terminal = .identifier ∧ pushWord token level = .annotationUse sign true :: below) ∨
      ∃ dot start below, level = .word dot :: .annotationUse start true :: below ∧
        dot.terminal = .dot ∧ token.terminal = .identifier ∧
        pushWord token level = .annotationUse start true :: below := by
  unfold pushWord
  split
  · next hName =>
      split
      · next dot start below =>
          split
          · next hDot => exact .inr (.inr ⟨dot, start, below, rfl, hDot, hName, rfl⟩)
          · split
            · next hSign => exact .inr (.inl ⟨dot, _, rfl, hSign, hName, rfl⟩)
            · exact .inl rfl
      · next sign below _ =>
          split
          · next hSign => exact .inr (.inl ⟨sign, below, rfl, hSign, hName, rfl⟩)
          · exact .inl rfl
      · exact .inl rfl
  · exact .inl rfl

/-- Parentheses become an item, or they close an annotation. -/
theorem pushParens_cases (level : List Node) :
    pushParens level = .parens :: level ∨
      ∃ start below, level = .annotationUse start true :: below ∧
        pushParens level = .annotationUse start false :: below := by
  unfold pushParens
  split
  · next start below => exact .inr ⟨start, below, rfl, rfl⟩
  · exact .inl rfl

theorem outlineFrom_other {token : Token} (h : token.terminal.isBracket = false)
    (level : List Node) (outer : List (List Node)) (rest : List Token) :
    outlineFrom level outer (token :: rest) = outlineFrom (pushWord token level) outer rest := by
  rw [outlineFrom.eq_def]
  dsimp only
  split
  · next hTerminal => rw [hTerminal] at h; cases h
  · next hTerminal => rw [hTerminal] at h; cases h
  · next hTerminal => rw [hTerminal] at h; cases h
  · next hTerminal => rw [hTerminal] at h; cases h
  · rfl

theorem outlineFrom_opening {b : Bracket} {token : Token} (h : token.terminal = b.opening)
    (level : List Node) (outer : List (List Node)) (rest : List Token) :
    outlineFrom level outer (token :: rest) = outlineFrom [] (level :: outer) rest := by
  cases b <;> simp only [outlineFrom, h, Bracket.opening]

theorem outlineFrom_closing {b : Bracket} {token : Token} (h : token.terminal = b.closing)
    (level around : List Node) (outer : List (List Node)) (rest : List Token) :
    outlineFrom level (around :: outer) (token :: rest) =
      outlineFrom (pushGroup b level.reverse around) outer rest := by
  cases b <;> simp only [outlineFrom, h, Bracket.closing, pushGroup]

theorem outlineFrom_unopened {b : Bracket} {token : Token} (h : token.terminal = b.closing)
    (level : List Node) (rest : List Token) :
    outlineFrom level [] (token :: rest) = outlineFrom level [] rest := by
  cases b <;> simp only [outlineFrom, h, Bracket.closing]

/-- The level behind tokens, the last item first. -/
def behind (level : List Node) (tokens : List Token) : List Node :=
  (outlineFrom level [] tokens).reverse

theorem outline_eq_reverse (tokens : List Token) : outline tokens = (behind [] tokens).reverse :=
  (List.reverse_reverse _).symm

@[simp] theorem behind_nil (level : List Node) : behind level [] = level :=
  List.reverse_reverse level

/-- **Balanced tokens change the innermost level only.** -/
theorem outlineFrom_append {tokens : List Token} (h : Balanced (terminals tokens))
    (level : List Node) (outer : List (List Node)) (rest : List Token) :
    outlineFrom level outer (tokens ++ rest) = outlineFrom (behind level tokens) outer rest := by
  revert level outer rest
  refine h.induction_tokens ?nil ?other ?group
  case nil =>
      intro level outer rest
      rw [behind_nil, List.nil_append]
  case other =>
      intro token tokens hOther ih level outer rest
      rw [List.cons_append, outlineFrom_other hOther, ih, behind, behind,
        outlineFrom_other hOther]
  case group =>
      intro b opening inner closing tokens hOpening hClosing _ ihInner ih level outer rest
      have hGroup : ∀ outer rest,
          outlineFrom level outer (opening :: inner ++ closing :: rest) =
            outlineFrom (pushGroup b (behind [] inner).reverse level) outer rest := by
        intro outer rest
        rw [List.cons_append, outlineFrom_opening hOpening, ihInner, outlineFrom_closing hClosing]
      have hAssoc : opening :: inner ++ closing :: tokens ++ rest =
          opening :: inner ++ closing :: (tokens ++ rest) := by simp
      have hLevel : behind level (opening :: inner ++ closing :: tokens) =
          behind (pushGroup b (behind [] inner).reverse level) tokens := by
        show (outlineFrom level [] (opening :: inner ++ closing :: tokens)).reverse = _
        rw [hGroup]
        rfl
      rw [hAssoc, hGroup, ih, hLevel]

/-- Tokens after balanced ones start where these end. -/
theorem behind_append {front : List Token} (h : Balanced (terminals front)) (level : List Node)
    (back : List Token) : behind level (front ++ back) = behind (behind level front) back := by
  rw [behind, outlineFrom_append h]
  rfl

theorem behind_other {token : Token} (h : token.terminal.isBracket = false) (level : List Node)
    (rest : List Token) : behind level (token :: rest) = behind (pushWord token level) rest := by
  rw [behind, outlineFrom_other h]
  rfl

/-- A group puts one item on the level, or none if it is the arguments of an annotation. -/
theorem behind_group {b : Bracket} {opening closing : Token} {inner : List Token}
    (hOpening : opening.terminal = b.opening) (hInner : Balanced (terminals inner))
    (hClosing : closing.terminal = b.closing) (level : List Node) (rest : List Token) :
    behind level (opening :: inner ++ closing :: rest) =
      behind (pushGroup b (outline inner) level) rest := by
  rw [behind, List.cons_append, outlineFrom_opening hOpening, outlineFrom_append hInner,
    outlineFrom_closing hClosing, outline_eq_reverse]
  rfl

/-- A group alone. -/
theorem behind_wrap {b : Bracket} {opening closing : Token} {inner : List Token}
    (hOpening : opening.terminal = b.opening) (hInner : Balanced (terminals inner))
    (hClosing : closing.terminal = b.closing) (level : List Node) :
    behind level (opening :: inner ++ [closing]) = pushGroup b (outline inner) level := by
  rw [behind_group hOpening hInner hClosing, behind_nil]

/-! ## Levels that wait for nothing -/

/-- Whether no token can be merged with the last item of a level, which comes first. -/
def IsClosed : List Node → Bool
  | .word dot :: .annotationUse _ true :: _ => dot.terminal ≠ .atSign && dot.terminal ≠ .dot
  | .word token :: _ => token.terminal ≠ .atSign
  | .annotationUse _ isOpen :: _ => !isOpen
  | _ => true

theorem pushWord_append {base : List Node} (h : IsClosed base = true) (token : Token)
    (level : List Node) : pushWord token (level ++ base) = pushWord token level ++ base := by
  by_cases hName : token.terminal = .identifier
  · match level with
    | [] =>
        match base, h with
        | [], _ => simp [pushWord]
        | .word dot :: .annotationUse _ true :: _, h =>
            simp only [IsClosed, Bool.and_eq_true, decide_eq_true_eq] at h
            simp [pushWord, h.1, h.2]
        | [.word sign], h
        | .word sign :: .annotationUse _ false :: _, h
        | .word sign :: .word _ :: _, h
        | .word sign :: .parens :: _, h
        | .word sign :: .braces _ _ :: _, h =>
            simp only [IsClosed, decide_eq_true_eq] at h
            simp [pushWord, h]
        | .annotationUse _ _ :: _, _ => simp [pushWord]
        | .parens :: _, _ => simp [pushWord]
        | .braces _ _ :: _, _ => simp [pushWord]
    | [.word sign] =>
        match base, h with
        | .annotationUse _ false :: _, _
        | [], _
        | .word _ :: _, _
        | .parens :: _, _
        | .braces _ _ :: _, _ =>
            by_cases hSign : sign.terminal = .atSign <;> simp [pushWord, hName, hSign]
    | .word dot :: .annotationUse _ true :: _ =>
        by_cases hDot : dot.terminal = .dot
        · simp [pushWord, hName, hDot]
        · by_cases hSign : dot.terminal = .atSign <;> simp [pushWord, hName, hDot, hSign]
    | .word sign :: .annotationUse _ false :: _
    | .word sign :: .word _ :: _
    | .word sign :: .parens :: _
    | .word sign :: .braces _ _ :: _ =>
        by_cases hSign : sign.terminal = .atSign <;> simp [pushWord, hName, hSign]
    | .annotationUse _ _ :: _ => simp [pushWord]
    | .parens :: _ => simp [pushWord]
    | .braces _ _ :: _ => simp [pushWord]
  · simp [pushWord, hName]

theorem pushParens_append {base : List Node} (h : IsClosed base = true)
    (level : List Node) : pushParens (level ++ base) = pushParens level ++ base := by
  match level with
  | [] =>
      match base, h with
      | .annotationUse _ false :: _, _ => rfl
      | [], _ => rfl
      | .word _ :: _, _ => rfl
      | .parens :: _, _ => rfl
      | .braces _ _ :: _, _ => rfl
  | .annotationUse _ true :: _ => rfl
  | .annotationUse _ false :: _ => rfl
  | .word _ :: _ => rfl
  | .parens :: _ => rfl
  | .braces _ _ :: _ => rfl

private theorem pushGroup_append {base : List Node} (h : IsClosed base = true) (b : Bracket)
    (content level : List Node) :
    pushGroup b content (level ++ base) = pushGroup b content level ++ base := by
  cases b with
  | paren => exact pushParens_append h level
  | brace => rfl

/-- Balanced tokens work above a closed level as they would without it. -/
theorem behind_append_of_isClosed {base : List Node} (hBase : IsClosed base = true)
    {tokens : List Token} (h : Balanced (terminals tokens)) (level : List Node) :
    behind (level ++ base) tokens = behind level tokens ++ base := by
  revert level
  refine h.induction_tokens ?nil ?other ?group
  case nil =>
      intro level
      rw [behind_nil, behind_nil]
  case other =>
      intro token tokens hOther ih level
      rw [behind_other hOther, behind_other hOther, pushWord_append hBase, ih]
  case group =>
      intro b opening inner closing tokens hOpening hClosing hInner _ ih level
      rw [behind_group hOpening hInner hClosing, behind_group hOpening hInner hClosing,
        pushGroup_append hBase, ih]

/-- **On a closed level tokens put the items that they have by themselves.** -/
theorem behind_of_isClosed {base : List Node} (hBase : IsClosed base = true)
    {tokens : List Token} (h : Balanced (terminals tokens)) :
    behind base tokens = (outline tokens).reverse ++ base := by
  have hAll := behind_append_of_isClosed hBase h []
  rw [List.nil_append] at hAll
  rw [hAll, outline_eq_reverse, List.reverse_reverse]

/-- Outlines can be cut where the level is closed. -/
theorem outline_append {front back : List Token} (hFront : Balanced (terminals front))
    (hClosed : IsClosed (behind [] front) = true) (hBack : Balanced (terminals back)) :
    outline (front ++ back) = outline front ++ outline back := by
  rw [outline_eq_reverse, behind_append hFront, behind_of_isClosed hClosed hBack,
    List.reverse_append, List.reverse_reverse, ← outline_eq_reverse]

end ClassSchema.Java
