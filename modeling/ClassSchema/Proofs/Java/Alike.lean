import ClassSchema.Proofs.Java.MemberKinds

/-!
# Derivations that differ in groups

Two lists of tokens are alike if they have the same derivation, except that the
derivation may give up at a block or at parentheses: there the two have any groups
of the same kind.  Elsewhere the tokens agree in all but their places and what stands
between quotes.

Alike tokens put alike items.  The stack of levels runs over both lists in step,
and a group is one item on both sides, or none.

## Main results

* `Alike.sameOutline`: alike tokens have the same bare outline.
* `Alike.of_seen`: with tokens that agree, a derivation is alike to itself.
-/

namespace ClassSchema.Java

open ClassSchema.Java.Expr Expr.Yields

/-- Whether what stands between the brackets of a rule is never read. -/
def Rule.isSkipped : Rule → Bool
  | parenGroup | block => true
  | _ => false

/-- Two lists of tokens with one derivation, up to the contents of skipped groups. -/
inductive Alike : Expr → List Token → List Token → Prop where
  | terminal {token token' : Token} :
      token.seen = token'.seen → Alike (.terminal token.terminal) [token] [token']
  | rule {r : Rule} {tokens tokens' : List Token} :
      Alike r.body tokens tokens' → Alike (.rule r) tokens tokens'
  /-- Two groups of one kind. -/
  | skipped {r : Rule} {tokens tokens' : List Token} :
      r.isSkipped = true → (Expr.rule r).Yields tokens → (Expr.rule r).Yields tokens' →
      Alike (.rule r) tokens tokens'
  | sequence {first second : Expr} {front front' back back' : List Token} :
      Alike first front front' → Alike second back back' →
      Alike (.sequence first second) (front ++ back) (front' ++ back')
  | left {left right : Expr} {tokens tokens' : List Token} :
      Alike left tokens tokens' → Alike (.choice left right) tokens tokens'
  | right {left right : Expr} {tokens tokens' : List Token} :
      Alike right tokens tokens' → Alike (.choice left right) tokens tokens'
  | absent {part : Expr} : Alike (.optional part) [] []
  | present {part : Expr} {tokens tokens' : List Token} :
      Alike part tokens tokens' → Alike (.optional part) tokens tokens'
  | none {part : Expr} : Alike (.many part) [] []
  | more {part : Expr} {front front' back back' : List Token} :
      Alike part front front' → Alike (.many part) back back' →
      Alike (.many part) (front ++ back) (front' ++ back')

namespace Alike

/-- Both lists are derived. -/
theorem yields {e : Expr} {tokens tokens' : List Token} (h : Alike e tokens tokens') :
    e.Yields tokens ∧ e.Yields tokens' := by
  induction h with
  | @terminal token token' hToken =>
      have hTerminal : token'.seen.terminal = token.seen.terminal := by rw [hToken]
      exact ⟨terminal_iff.mpr ⟨token, rfl, rfl⟩, terminal_iff.mpr ⟨token', rfl, hTerminal⟩⟩
  | rule _ ih => exact ⟨rule_iff.mpr ih.1, rule_iff.mpr ih.2⟩
  | skipped _ hLeft hRight => exact ⟨hLeft, hRight⟩
  | sequence _ _ ihFirst ihSecond =>
      exact ⟨sequence_iff.mpr ⟨_, _, rfl, ihFirst.1, ihSecond.1⟩,
        sequence_iff.mpr ⟨_, _, rfl, ihFirst.2, ihSecond.2⟩⟩
  | left _ ih => exact ⟨choice_iff.mpr (.inl ih.1), choice_iff.mpr (.inl ih.2)⟩
  | right _ ih => exact ⟨choice_iff.mpr (.inr ih.1), choice_iff.mpr (.inr ih.2)⟩
  | absent => exact ⟨optional_iff.mpr (.inl rfl), optional_iff.mpr (.inl rfl)⟩
  | present _ ih => exact ⟨optional_iff.mpr (.inr ih.1), optional_iff.mpr (.inr ih.2)⟩
  | none => exact ⟨Derives.none, Derives.none⟩
  | more _ _ ihPart ihMany =>
      constructor
      · show Derives _ (terminals (_ ++ _))
        rw [terminals_append]
        exact .more ihPart.1 ihMany.1
      · show Derives _ (terminals (_ ++ _))
        rw [terminals_append]
        exact .more ihPart.2 ihMany.2

/-- A derivation is alike to itself, whatever is not seen of the tokens. -/
theorem of_seen {e : Expr} {tokens tokens' : List Token} (h : e.Yields tokens)
    (hSeen : tokens.map Token.seen = tokens'.map Token.seen) : Alike e tokens tokens' := by
  unfold Expr.Yields at h
  generalize hWord : terminals tokens = word at h
  induction h generalizing tokens tokens' with
  | terminal t =>
      obtain ⟨token, rest, rfl, rfl, hRest⟩ := List.map_eq_cons_iff.mp hWord
      obtain rfl := List.map_eq_nil_iff.mp hRest
      obtain ⟨token', rest', rfl, hToken, hRest'⟩ := List.map_eq_cons_iff.mp hSeen.symm
      obtain rfl := List.map_eq_nil_iff.mp hRest'
      exact .terminal hToken.symm
  | rule _ ih => exact .rule (ih hSeen hWord)
  | sequence _ _ ihFirst ihSecond =>
      obtain ⟨front, back, rfl, hFront, hBack⟩ := List.map_eq_append_iff.mp hWord
      rw [List.map_append] at hSeen
      obtain ⟨front', back', rfl, hFront', hBack'⟩ := List.map_eq_append_iff.mp hSeen.symm
      exact .sequence (ihFirst hFront'.symm hFront) (ihSecond hBack'.symm hBack)
  | left _ ih => exact .left (ih hSeen hWord)
  | right _ ih => exact .right (ih hSeen hWord)
  | absent =>
      obtain rfl := List.map_eq_nil_iff.mp hWord
      obtain rfl := List.map_eq_nil_iff.mp hSeen.symm
      exact .absent
  | present _ ih => exact .present (ih hSeen hWord)
  | none =>
      obtain rfl := List.map_eq_nil_iff.mp hWord
      obtain rfl := List.map_eq_nil_iff.mp hSeen.symm
      exact .none
  | more _ _ ihPart ihMany =>
      obtain ⟨front, back, rfl, hFront, hBack⟩ := List.map_eq_append_iff.mp hWord
      rw [List.map_append] at hSeen
      obtain ⟨front', back', rfl, hFront', hBack'⟩ := List.map_eq_append_iff.mp hSeen.symm
      exact .more (ihPart hFront'.symm hFront) (ihMany hBack'.symm hBack)

/-- A derivation is alike to itself, whatever the places of the tokens. -/
theorem of_bare {e : Expr} {tokens tokens' : List Token} (h : e.Yields tokens)
    (hBare : tokens.map Token.bare = tokens'.map Token.bare) : Alike e tokens tokens' := by
  have hSeen := congrArg (List.map Token.seen) hBare
  rw [List.map_map, List.map_map] at hSeen
  exact .of_seen h hSeen

/-! ## Taking alike derivations apart -/

theorem of_terminal {t : Terminal} {tokens tokens' : List Token}
    (h : Alike (.terminal t) tokens tokens') :
    ∃ token token', tokens = [token] ∧ tokens' = [token'] ∧ token.terminal = t ∧
      token'.terminal = t := by
  cases h with
  | @terminal token token' hToken =>
      have hTerminal : token'.seen.terminal = token.seen.terminal := by rw [hToken]
      exact ⟨token, token', rfl, rfl, rfl, hTerminal⟩

theorem of_rule {r : Rule} (hRule : r.isSkipped = false) {tokens tokens' : List Token}
    (h : Alike (.rule r) tokens tokens') : Alike r.body tokens tokens' := by
  cases h with
  | rule h => exact h
  | skipped hSkipped => simp [hRule] at hSkipped

theorem of_sequence {first second : Expr} {tokens tokens' : List Token}
    (h : Alike (.sequence first second) tokens tokens') :
    ∃ front front' back back', tokens = front ++ back ∧ tokens' = front' ++ back' ∧
      Alike first front front' ∧ Alike second back back' := by
  cases h with
  | sequence hFirst hSecond => exact ⟨_, _, _, _, rfl, rfl, hFirst, hSecond⟩

theorem of_choice {left right : Expr} {tokens tokens' : List Token}
    (h : Alike (.choice left right) tokens tokens') :
    Alike left tokens tokens' ∨ Alike right tokens tokens' := by
  cases h with
  | left h => exact .inl h
  | right h => exact .inr h

theorem of_optional {part : Expr} {tokens tokens' : List Token}
    (h : Alike (.optional part) tokens tokens') :
    (tokens = [] ∧ tokens' = []) ∨ Alike part tokens tokens' := by
  cases h with
  | absent => exact .inl ⟨rfl, rfl⟩
  | present h => exact .inr h

/-- Repeated parts are alike one by one. -/
theorem of_many {part : Expr} {tokens tokens' : List Token}
    (h : Alike (.many part) tokens tokens') :
    ∃ pairs : List (List Token × List Token),
      tokens = (pairs.map Prod.fst).flatten ∧ tokens' = (pairs.map Prod.snd).flatten ∧
        ∀ pair ∈ pairs, Alike part pair.1 pair.2 := by
  generalize hMany : Expr.many part = e at h
  induction h with
  | none =>
      refine ⟨[], rfl, rfl, ?_⟩
      intro pair mem
      cases mem
  | @more _ front front' _ _ hPart _ _ ih =>
      cases hMany
      obtain ⟨pairs, rfl, rfl, each⟩ := ih rfl
      exact ⟨(front, front') :: pairs, rfl, rfl, List.forall_mem_cons.mpr ⟨hPart, each⟩⟩
  | _ => cases hMany

/-- Chains are cut behind any of their parts. -/
theorem of_chain {front back : List Expr} {part last : Expr} {tokens tokens' : List Token}
    (h : Alike (chain (front ++ part :: back) last) tokens tokens') :
    ∃ first first' second second', tokens = first ++ second ∧ tokens' = first' ++ second' ∧
      Alike (chain front part) first first' ∧ Alike (chain back last) second second' := by
  induction front generalizing tokens tokens' with
  | nil => exact h.of_sequence
  | cons other front ih =>
      obtain ⟨zeroth, zeroth', rest, rest', rfl, rfl, hOther, hRest⟩ := of_sequence h
      obtain ⟨first, first', second, second', rfl, rfl, hFirst, hSecond⟩ := ih hRest
      exact ⟨zeroth ++ first, zeroth' ++ first', second, second', (List.append_assoc ..).symm,
        (List.append_assoc ..).symm, .sequence hOther hFirst, hSecond⟩

end Alike

/-! ## Outlines -/

private theorem bare_pushWord {token token' : Token} (hToken : token.seen = token'.seen)
    {level level' : List Node} (hLevel : bare level = bare level') :
    bare (pushWord token level) = bare (pushWord token' level') := by
  rw [← pushWord_bare, ← pushWord_bare, hToken, hLevel]

private theorem bare_pushGroup (b : Bracket) (content content' : List Node)
    {level level' : List Node} (hLevel : bare level = bare level') :
    bare (pushGroup b content level) = bare (pushGroup b content' level') := by
  cases b with
  | paren =>
      show bare (pushParens level) = bare (pushParens level')
      rw [← pushParens_bare, ← pushParens_bare, hLevel]
  | brace =>
      show Node.braces .empty .empty :: bare level = Node.braces .empty .empty :: bare level'
      rw [hLevel]

/-- Rests that make the same bare outline from levels that are the same when bare. -/
def SameOutline (rest rest' : List Token) : Prop :=
  ∀ (level level' : List Node) (outer outer' : List (List Node)),
    bare level = bare level' → outer.map bare = outer'.map bare →
      bare (outlineFrom level outer rest) = bare (outlineFrom level' outer' rest')

namespace SameOutline

theorem nil : SameOutline [] [] := by
  intro level level' outer outer' hLevel _
  show bare level.reverse = bare level'.reverse
  unfold bare at hLevel ⊢
  rw [List.map_reverse, List.map_reverse, hLevel]

/-- One more token on both sides. -/
theorem cons {token token' : Token} (hToken : token.seen = token'.seen) {rest rest' : List Token}
    (h : SameOutline rest rest') : SameOutline (token :: rest) (token' :: rest') := by
  have hTerminal : token'.seen.terminal = token.seen.terminal := by rw [hToken]
  simp only [Token.terminal_seen] at hTerminal
  intro level level' outer outer' hLevel hOuter
  rcases token.terminal.bracket_cases with hOther | ⟨b, hOpening⟩ | ⟨b, hClosing⟩
  · rw [outlineFrom_other hOther, outlineFrom_other (hTerminal ▸ hOther)]
    exact h _ _ _ _ (bare_pushWord hToken hLevel) hOuter
  · rw [outlineFrom_opening hOpening, outlineFrom_opening (hTerminal.trans hOpening)]
    apply h _ _ _ _ rfl
    rw [List.map_cons, List.map_cons, hLevel, hOuter]
  · cases outer with
    | nil =>
        obtain rfl := List.map_eq_nil_iff.mp hOuter.symm
        rw [outlineFrom_unopened hClosing, outlineFrom_unopened (hTerminal.trans hClosing)]
        exact h _ _ _ _ hLevel rfl
    | cons around outer =>
        obtain ⟨around', outer', rfl, hAround, hRest⟩ := List.map_eq_cons_iff.mp hOuter.symm
        rw [outlineFrom_closing hClosing, outlineFrom_closing (hTerminal.trans hClosing)]
        exact h _ _ _ _ (bare_pushGroup b _ _ hAround.symm) hRest.symm

/-- One more group on both sides. -/
theorem group {r : Rule} (hSkipped : r.isSkipped = true) {tokens tokens' : List Token}
    (hLeft : (rule r).Yields tokens) (hRight : (rule r).Yields tokens')
    {rest rest' : List Token} (h : SameOutline rest rest') :
    SameOutline (tokens ++ rest) (tokens' ++ rest') := by
  obtain ⟨b, hWraps⟩ : ∃ b, r.wraps = .some b := by
    cases r <;> cases hSkipped <;> exact ⟨_, rfl⟩
  have hBalanced := hLeft.balanced
  have hBalanced' := hRight.balanced
  obtain ⟨opening, inner, closing, rfl, hOpening, hInner, hClosing⟩ :=
    Rule.yields_of_wraps hWraps hLeft
  obtain ⟨opening', inner', closing', rfl, hOpening', hInner', hClosing'⟩ :=
    Rule.yields_of_wraps hWraps hRight
  intro level level' outer outer' hLevel hOuter
  rw [outlineFrom_append hBalanced, outlineFrom_append hBalanced',
    behind_wrap hOpening hInner hClosing, behind_wrap hOpening' hInner' hClosing']
  exact h _ _ _ _ (bare_pushGroup b _ _ hLevel) hOuter

end SameOutline

/-- **Alike tokens run in step.** -/
theorem Alike.sameOutline {e : Expr} {tokens tokens' : List Token} (h : Alike e tokens tokens')
    {rest rest' : List Token} (hRest : SameOutline rest rest') :
    SameOutline (tokens ++ rest) (tokens' ++ rest') := by
  induction h generalizing rest rest' with
  | terminal hToken => exact hRest.cons hToken
  | rule _ ih => exact ih hRest
  | skipped hSkipped hLeft hRight => exact hRest.group hSkipped hLeft hRight
  | sequence _ _ ihFirst ihSecond =>
      rw [List.append_assoc, List.append_assoc]
      exact ihFirst (ihSecond hRest)
  | left _ ih => exact ih hRest
  | right _ ih => exact ih hRest
  | absent => exact hRest
  | present _ ih => exact ih hRest
  | none => exact hRest
  | more _ _ ihPart ihMany =>
      rw [List.append_assoc, List.append_assoc]
      exact ihPart (ihMany hRest)

/-- **Alike tokens have the same bare outline.** -/
theorem Alike.bare_outline {e : Expr} {tokens tokens' : List Token} (h : Alike e tokens tokens') :
    bare (outline tokens) = bare (outline tokens') := by
  have hAll := h.sameOutline .nil [] [] [] [] rfl rfl
  rw [List.append_nil, List.append_nil] at hAll
  exact hAll

end ClassSchema.Java
