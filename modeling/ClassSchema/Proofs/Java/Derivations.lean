import ClassSchema.Proofs.Java.Recognition

/-!
# Derivations as trees

`Derives` says that tokens can be derived; a `Derivation` says how.  The grammar is
ambiguous, so the same tokens may have many derivations.  They are compared by the
number of declarators in them, and the best are those that have the most.

A part of a derivation can be exchanged for another derivation of the same tokens.
So the parts of a best derivation are best as well, which is what makes the choice
between derivations local: wherever in a source declarators can be gained, they are.

## Main results

* `yields_iff_exists`: a body stands for tokens exactly when there is a derivation of them.
* `Derivation.exists_isBest`: tokens that can be derived have a best derivation.
-/

namespace ClassSchema.Java

/-- A derivation of tokens from a body. -/
inductive Derivation : Expr → Type where
  | terminal {t : Terminal} (token : Token) (h : token.terminal = t) : Derivation (.terminal t)
  | rule {r : Rule} (body : Derivation r.body) : Derivation (.rule r)
  | sequence {first second : Expr} (front : Derivation first) (back : Derivation second) :
      Derivation (.sequence first second)
  | left {left right : Expr} (chosen : Derivation left) : Derivation (.choice left right)
  | right {left right : Expr} (chosen : Derivation right) : Derivation (.choice left right)
  | absent {part : Expr} : Derivation (.optional part)
  | present {part : Expr} (one : Derivation part) : Derivation (.optional part)
  | none {part : Expr} : Derivation (.many part)
  | more {part : Expr} (one : Derivation part) (others : Derivation (.many part)) :
      Derivation (.many part)

namespace Derivation

/-- The derived tokens. -/
@[simp] def tokens {e : Expr} : Derivation e → List Token
  | terminal token _ => [token]
  | rule body => body.tokens
  | sequence front back => front.tokens ++ back.tokens
  | left chosen => chosen.tokens
  | right chosen => chosen.tokens
  | absent => []
  | present one => one.tokens
  | none => []
  | more one others => one.tokens ++ others.tokens

/-- The number of declarators in a derivation. -/
@[simp] def declarators {e : Expr} : Derivation e → Nat
  | terminal _ _ => 0
  | @rule r body => body.declarators + if r = .declarator then 1 else 0
  | sequence front back => front.declarators + back.declarators
  | left chosen => chosen.declarators
  | right chosen => chosen.declarators
  | absent => 0
  | present one => one.declarators
  | none => 0
  | more one others => one.declarators + others.declarators

/-! ## Taking derivations apart -/

theorem exists_terminal {t : Terminal} (d : Derivation (.terminal t)) :
    ∃ token h, d = terminal token h := by
  cases d with
  | terminal token h => exact ⟨token, h, rfl⟩

theorem exists_rule {r : Rule} (d : Derivation (.rule r)) : ∃ body, d = rule body := by
  cases d with
  | rule body => exact ⟨body, rfl⟩

theorem exists_sequence {first second : Expr} (d : Derivation (.sequence first second)) :
    ∃ front back, d = sequence front back := by
  cases d with
  | sequence front back => exact ⟨front, back, rfl⟩

theorem choice_cases {left right : Expr} (d : Derivation (.choice left right)) :
    (∃ chosen, d = .left chosen) ∨ ∃ chosen, d = .right chosen := by
  cases d with
  | left chosen => exact .inl ⟨chosen, rfl⟩
  | right chosen => exact .inr ⟨chosen, rfl⟩

theorem optional_cases {part : Expr} (d : Derivation (.optional part)) :
    d = absent ∨ ∃ one, d = present one := by
  cases d with
  | absent => exact .inl rfl
  | present one => exact .inr ⟨one, rfl⟩

/-- An induction over repeated parts. -/
@[elab_as_elim]
theorem many_induction {part : Expr} {motive : Derivation (.many part) → Prop}
    (none : motive .none) (more : ∀ one others, motive others → motive (.more one others)) :
    ∀ d : Derivation (.many part), motive d
  | .none => none
  | .more one others => more one others (many_induction none more others)

/-! ## Derivations and what can be derived -/

theorem yields {e : Expr} (d : Derivation e) : e.Yields d.tokens := by
  induction d with
  | terminal token h => exact Expr.Yields.terminal_iff.mpr ⟨token, rfl, h⟩
  | rule _ ih => exact Expr.Yields.rule_iff.mpr ih
  | sequence _ _ ihFront ihBack =>
      exact Expr.Yields.sequence_iff.mpr ⟨_, _, rfl, ihFront, ihBack⟩
  | left _ ih => exact Expr.Yields.choice_iff.mpr (.inl ih)
  | right _ ih => exact Expr.Yields.choice_iff.mpr (.inr ih)
  | absent => exact Derives.absent
  | present _ ih => exact Expr.Yields.optional_iff.mpr (.inr ih)
  | none => exact Derives.none
  | @more part one others ihOne ihOthers =>
      show Derives _ (terminals (one.tokens ++ others.tokens))
      rw [terminals_append]
      exact .more ihOne ihOthers

/-- Whatever can be derived has a derivation. -/
theorem exists_of_yields {e : Expr} {tokens : List Token} (h : e.Yields tokens) :
    ∃ d : Derivation e, d.tokens = tokens := by
  unfold Expr.Yields at h
  generalize hWord : terminals tokens = word at h
  induction h generalizing tokens with
  | terminal t =>
      obtain ⟨token, rest, rfl, hToken, hRest⟩ := List.map_eq_cons_iff.mp hWord
      obtain rfl := List.map_eq_nil_iff.mp hRest
      exact ⟨terminal token hToken, rfl⟩
  | rule _ ih =>
      obtain ⟨body, rfl⟩ := ih hWord
      exact ⟨rule body, rfl⟩
  | sequence _ _ ihFront ihBack =>
      obtain ⟨_, _, rfl, hFront, hBack⟩ := List.map_eq_append_iff.mp hWord
      obtain ⟨front, rfl⟩ := ihFront hFront
      obtain ⟨back, rfl⟩ := ihBack hBack
      exact ⟨sequence front back, rfl⟩
  | left _ ih =>
      obtain ⟨chosen, rfl⟩ := ih hWord
      exact ⟨left chosen, rfl⟩
  | right _ ih =>
      obtain ⟨chosen, rfl⟩ := ih hWord
      exact ⟨right chosen, rfl⟩
  | absent =>
      obtain rfl := List.map_eq_nil_iff.mp hWord
      exact ⟨absent, rfl⟩
  | present _ ih =>
      obtain ⟨one, rfl⟩ := ih hWord
      exact ⟨present one, rfl⟩
  | none =>
      obtain rfl := List.map_eq_nil_iff.mp hWord
      exact ⟨none, rfl⟩
  | more _ _ ihOne ihOthers =>
      obtain ⟨_, _, rfl, hOne, hOthers⟩ := List.map_eq_append_iff.mp hWord
      obtain ⟨one, rfl⟩ := ihOne hOne
      obtain ⟨others, rfl⟩ := ihOthers hOthers
      exact ⟨more one others, rfl⟩

end Derivation

/-- **What can be derived is what has a derivation.** -/
theorem yields_iff_exists {e : Expr} {tokens : List Token} :
    e.Yields tokens ↔ ∃ d : Derivation e, d.tokens = tokens := by
  constructor
  · exact Derivation.exists_of_yields
  · rintro ⟨d, rfl⟩
    exact d.yields

/-! ## The number of declarators -/

/-- Whether a derivation of a rule may hold declarators. -/
def Rule.declares : Rule → Bool
  | compilationUnit | typeDeclaration | classDeclaration | interfaceDeclaration | enumDeclaration
  | recordDeclaration | classBody | member | enumBody | enumConstants | enumConstant
  | enumMembers | fieldDeclaration | declarator => true
  | _ => false

/-- The same for bodies. -/
def Expr.declares : Expr → Bool
  | terminal _ => false
  | rule r => r.declares
  | sequence first second => first.declares || second.declares
  | choice left right => left.declares || right.declares
  | optional part => part.declares
  | many part => part.declares

theorem Rule.declares_body {r : Rule} (h : r.declares = false ∨ r = .declarator) :
    r.body.declares = false := by
  cases r <;> first | rfl | simp [declares] at h

namespace Derivation

theorem declarators_eq_zero {e : Expr} (d : Derivation e) (h : e.declares = false) :
    d.declarators = 0 := by
  induction d with
  | terminal | absent | none => rfl
  | @rule r body ih =>
      have hRule : r.declares = false := h
      have hNot : r ≠ .declarator := by
        rintro rfl
        cases hRule
      rw [declarators, ih (Rule.declares_body (.inl hRule)), if_neg hNot]
  | sequence _ _ ihFront ihBack =>
      simp only [Expr.declares, Bool.or_eq_false_iff] at h
      rw [declarators, ihFront h.1, ihBack h.2]
  | left _ ih =>
      simp only [Expr.declares, Bool.or_eq_false_iff] at h
      exact ih h.1
  | right _ ih =>
      simp only [Expr.declares, Bool.or_eq_false_iff] at h
      exact ih h.2
  | present _ ih => exact ih h
  | more _ _ ihOne ihOthers => rw [declarators, ihOne h, ihOthers h]

/-- Declarators do not nest. -/
theorem declarators_declarator (d : Derivation (.rule .declarator)) : d.declarators = 1 := by
  obtain ⟨body, rfl⟩ := d.exists_rule
  rw [declarators, body.declarators_eq_zero (Rule.declares_body (.inr rfl)), if_pos rfl]

/-- Each declarator has a token of its own. -/
theorem declarators_le {e : Expr} (d : Derivation e) : d.declarators ≤ d.tokens.length := by
  induction d with
  | terminal | absent | none => exact Nat.zero_le _
  | @rule r body ih =>
      by_cases h : r = .declarator
      · subst h
        rw [declarators_declarator]
        obtain ⟨name, rest, rfl⟩ := exists_sequence body
        obtain ⟨token, hToken, rfl⟩ := name.exists_terminal
        simp [tokens]
      · rw [declarators, if_neg h]
        exact ih
  | sequence _ _ ihFront ihBack | more _ _ ihFront ihBack =>
      rw [declarators, tokens, List.length_append]
      exact Nat.add_le_add ihFront ihBack
  | left _ ih | right _ ih | present _ ih => exact ih

/-! ## Best derivations -/

/-- Whether no derivation of the same tokens has more declarators. -/
def IsBest {e : Expr} (d : Derivation e) : Prop :=
  ∀ other : Derivation e, other.tokens = d.tokens → other.declarators ≤ d.declarators

/-- **What can be derived has a best derivation.**  There are at most as many declarators as
tokens, so a derivation cannot be improved for ever. -/
theorem exists_isBest {e : Expr} {tokens : List Token} (h : e.Yields tokens) :
    ∃ d : Derivation e, d.tokens = tokens ∧ d.IsBest := by
  have improve : ∀ (room : Nat) (d : Derivation e), d.tokens = tokens →
      tokens.length ≤ d.declarators + room →
        ∃ best : Derivation e, best.tokens = tokens ∧ best.IsBest := by
    intro room
    induction room with
    | zero =>
        intro d hTokens hRoom
        refine ⟨d, hTokens, fun other hOther => ?_⟩
        have hLess := other.declarators_le
        rw [hOther, hTokens] at hLess
        omega
    | succ room ih =>
        intro d hTokens hRoom
        by_cases hBest : d.IsBest
        · exact ⟨d, hTokens, hBest⟩
        · obtain ⟨better, hNot⟩ := Classical.not_forall.mp hBest
          obtain ⟨hBetter, hMore⟩ := Classical.not_imp.mp hNot
          exact ih better (hBetter.trans hTokens) (by omega)
  obtain ⟨d, hTokens⟩ := exists_of_yields h
  exact improve tokens.length d hTokens (Nat.le_add_left _ _)

namespace IsBest

theorem of_rule {r : Rule} {body : Derivation r.body} (h : (rule body).IsBest) : body.IsBest := by
  intro other hOther
  have hRule := h (rule other) hOther
  simp only [declarators] at hRule
  omega

theorem of_sequence {first second : Expr} {front : Derivation first} {back : Derivation second}
    (h : (sequence front back).IsBest) : front.IsBest ∧ back.IsBest := by
  constructor
  · intro other hOther
    have hBoth := h (sequence other back) (by simp only [tokens, hOther])
    simp only [declarators] at hBoth
    omega
  · intro other hOther
    have hBoth := h (sequence front other) (by simp only [tokens, hOther])
    simp only [declarators] at hBoth
    omega

theorem of_left {left right : Expr} {chosen : Derivation left}
    (h : (.left chosen : Derivation (.choice left right)).IsBest) : chosen.IsBest :=
  fun other hOther => h (.left other) hOther

theorem of_right {left right : Expr} {chosen : Derivation right}
    (h : (.right chosen : Derivation (.choice left right)).IsBest) : chosen.IsBest :=
  fun other hOther => h (.right other) hOther

theorem of_present {part : Expr} {one : Derivation part} (h : (present one).IsBest) :
    one.IsBest :=
  fun other hOther => h (present other) hOther

theorem of_more {part : Expr} {one : Derivation part} {others : Derivation (.many part)}
    (h : (more one others).IsBest) : one.IsBest ∧ others.IsBest := by
  constructor
  · intro other hOther
    have hBoth := h (more other others) (by simp only [tokens, hOther])
    simp only [declarators] at hBoth
    omega
  · intro other hOther
    have hBoth := h (more one other) (by simp only [tokens, hOther])
    simp only [declarators] at hBoth
    omega

end IsBest

end Derivation

end ClassSchema.Java
