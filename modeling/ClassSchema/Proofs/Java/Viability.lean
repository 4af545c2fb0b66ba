import ClassSchema.Proofs.Java.Lexicon
import ClassSchema.Proofs.Java.Recognition

/-!
# Where a source goes wrong

Every rule of the grammar stands for something, so a stack is never a dead end:
whatever it holds can be completed.  The recognizer therefore has a stack left
exactly as long as some sentence begins with the tokens it has read, and the token
at which the last stack is lost is the first one with which no sentence goes on.

## Main results

* `Rule.exists_derives`: every rule stands for some sequence of terminals.
* `recognizeFrom_eq_unexpectedToken_iff`, `recognizeFrom_eq_unexpectedCharacter_iff`,
  `recognizeFrom_eq_unexpectedEnd_iff`: what each error of the recognizer says.
* `parse_outcome`: which sources are accepted, and what is reported of the others.
-/

namespace ClassSchema.Java

/-! ## Every body stands for something -/

/-- A sequence that a body stands for: nothing optional, nothing repeated, and of two choices the
last one. -/
def Expr.sample (ofRule : Rule → Option (List Terminal)) : Expr → Option (List Terminal)
  | terminal t => .some [t]
  | rule r => ofRule r
  | sequence first second => do
      let front ← first.sample ofRule
      let back ← second.sample ofRule
      return front ++ back
  | choice _ right => right.sample ofRule
  | optional _ => .some []
  | many _ => .some []

/-- A sequence that a rule stands for, unfolding rules to a depth. -/
def Rule.sample : Nat → Rule → Option (List Terminal)
  | 0, _ => none
  | depth + 1, r => r.body.sample (Rule.sample depth)

private theorem Expr.derives_of_sample {ofRule : Rule → Option (List Terminal)}
    (sound : ∀ r word, ofRule r = .some word → Derives (.rule r) word) {e : Expr}
    {word : List Terminal} (h : e.sample ofRule = .some word) : Derives e word := by
  induction e generalizing word with
  | terminal t =>
      cases h
      exact .terminal t
  | rule r => exact sound r word h
  | sequence first second ihFirst ihSecond =>
      rcases hFirst : first.sample ofRule with _ | front
      · simp [sample, hFirst] at h
      rcases hSecond : second.sample ofRule with _ | back
      · simp [sample, hFirst, hSecond] at h
      obtain rfl : front ++ back = word := by simpa [sample, hFirst, hSecond] using h
      exact .sequence (ihFirst hFirst) (ihSecond hSecond)
  | choice _ right _ ihRight => exact .right (ihRight h)
  | optional part =>
      cases h
      exact .absent
  | many part =>
      cases h
      exact .none

private theorem Rule.derives_of_sample (depth : Nat) : ∀ (r : Rule) (word : List Terminal),
    r.sample depth = some word → Derives (.rule r) word := by
  induction depth with
  | zero =>
      intro r word h
      cases h
  | succ depth ih =>
      intro r word h
      exact .rule (Expr.derives_of_sample ih h)

/-- Every rule stands for some sequence of terminals. -/
theorem Rule.exists_derives (r : Rule) : ∃ word, Derives (.rule r) word := by
  have hSample : (r.sample 6).isSome = true := by cases r <;> decide
  obtain ⟨word, hWord⟩ := Option.isSome_iff_exists.mp hSample
  exact ⟨word, r.derives_of_sample 6 word hWord⟩

/-- Every body stands for some sequence of terminals. -/
theorem Expr.exists_derives (e : Expr) : ∃ word, Derives e word := by
  induction e with
  | terminal t => exact ⟨[t], .terminal t⟩
  | rule r => exact r.exists_derives
  | sequence first second ihFirst ihSecond =>
      obtain ⟨front, hFront⟩ := ihFirst
      obtain ⟨back, hBack⟩ := ihSecond
      exact ⟨front ++ back, .sequence hFront hBack⟩
  | choice left right ihLeft _ =>
      obtain ⟨word, hWord⟩ := ihLeft
      exact ⟨word, .left hWord⟩
  | optional part => exact ⟨[], .absent⟩
  | many part => exact ⟨[], .none⟩

/-- Every stack can be completed. -/
theorem Stack.exists_stands (stack : Stack) : ∃ word, stack.Stands word := by
  induction stack with
  | nil => exact ⟨[], .nil⟩
  | cons top rest ih =>
      obtain ⟨front, hFront⟩ := top.exists_derives
      obtain ⟨back, hBack⟩ := ih
      exact ⟨front ++ back, .cons hFront hBack⟩

/-! ## What stacks allow -/

/-- Some completion of one of the stacks begins with the word. -/
def Allows (current : List Stack) (word : List Terminal) : Prop :=
  ∃ stack ∈ current, ∃ rest, stack.Stands (word ++ rest)

theorem allows_nil_iff {current : List Stack} : Allows current [] ↔ current ≠ [] := by
  constructor
  · rintro ⟨stack, mem, _⟩ rfl
    cases mem
  · intro h
    obtain ⟨stack, mem⟩ := List.exists_mem_of_ne_nil current h
    exact ⟨stack, mem, stack.exists_stands⟩

theorem allows_cons_iff {current : List Stack} {token : Terminal} {word : List Terminal} :
    Allows current (token :: word) ↔ Allows (advance token current) word := by
  constructor
  · intro ⟨stack, mem, rest, hStands⟩
    obtain ⟨next, hNext, hStands⟩ := exists_stands_advance_iff.mpr ⟨stack, mem, hStands⟩
    exact ⟨next, hNext, rest, hStands⟩
  · intro ⟨next, mem, rest, hStands⟩
    obtain ⟨stack, hStack, hStands⟩ := exists_stands_advance_iff.mp ⟨next, mem, hStands⟩
    exact ⟨stack, hStack, rest, hStands⟩

/-- No stack is left behind a token exactly when the token is not allowed. -/
theorem advance_eq_nil_iff {current : List Stack} {token : Terminal} :
    advance token current = [] ↔ ¬ Allows current [token] := by
  rw [allows_cons_iff, allows_nil_iff]
  exact Decidable.not_not.symm

/-- The first stacks allow what a sentence can begin with. -/
theorem allows_initialStacks_iff {word : List Terminal} :
    Allows initialStacks word ↔ IsViable word := by
  simp only [Allows, initialStacks, List.mem_singleton, exists_eq_left, Stack.stands_singleton]
  rfl

/-! ## The errors of the recognizer -/

section Errors

variable {current : List Stack} {previous : Option Token} {obstacle : Option Obstacle}
  {tokens : List Token}

/-- **The unexpected token** is the one up to which the tokens are allowed and with which they are
not. -/
theorem recognizeFrom_eq_unexpectedToken_iff (nonempty : current ≠ []) {token : Token} :
    recognizeFrom current previous obstacle tokens = .error (.unexpectedToken token) ↔
      ∃ before after, tokens = before ++ token :: after ∧
        Allows current (terminals before) ∧ ¬ Allows current (terminals (before ++ [token])) := by
  induction tokens generalizing current previous with
  | nil =>
      have hNot : recognizeFrom current previous obstacle [] ≠ .error (.unexpectedToken token) := by
        unfold recognizeFrom
        split
        · simp
        · split <;> simp
      simp [hNot]
  | cons first rest ih =>
      unfold recognizeFrom
      split
      · next hNext =>
          have hStuck := advance_eq_nil_iff.mp hNext
          constructor
          · intro h
            cases h
            exact ⟨[], rest, rfl, allows_nil_iff.mpr nonempty, hStuck⟩
          · rintro ⟨_ | ⟨head, before⟩, after, hTokens, hBefore, _⟩
            · cases hTokens
              rfl
            · cases hTokens
              rw [terminals_cons, allows_cons_iff, hNext] at hBefore
              obtain ⟨_, ⟨⟩, _⟩ := hBefore
      · next next hNext =>
          have hSome : advance first.terminal current ≠ [] := hNext
          rw [ih hSome]
          constructor
          · rintro ⟨before, after, rfl, hBefore, hToken⟩
            refine ⟨first :: before, after, rfl, ?_, ?_⟩
            · rw [terminals_cons, allows_cons_iff]
              exact hBefore
            · rw [List.cons_append, terminals_cons, allows_cons_iff]
              exact hToken
          · rintro ⟨_ | ⟨head, before⟩, after, hTokens, hBefore, hToken⟩
            · cases hTokens
              exact absurd (advance_eq_nil_iff.mpr hToken) hSome
            · cases hTokens
              rw [terminals_cons, allows_cons_iff] at hBefore
              rw [List.cons_append, terminals_cons, allows_cons_iff] at hToken
              exact ⟨before, after, rfl, hBefore, hToken⟩

/-- **The unexpected character** is the obstacle, if all tokens before it are allowed; it is
reported with the last of them. -/
theorem recognizeFrom_eq_unexpectedCharacter_iff (nonempty : current ≠ [])
    {reported : Obstacle} {last : Option Token} :
    recognizeFrom current previous obstacle tokens =
        .error (.unexpectedCharacter reported last) ↔
      obstacle = some reported ∧ Allows current (terminals tokens) ∧
        last = tokens.getLast?.or previous := by
  induction tokens generalizing current previous with
  | nil =>
      have hAllows : Allows current [] := allows_nil_iff.mpr nonempty
      unfold recognizeFrom
      split
      · simp [hAllows, eq_comm]
      · split <;> simp
  | cons first rest ih =>
      rw [terminals_cons, allows_cons_iff]
      unfold recognizeFrom
      split
      · next hNext => simp [hNext, Allows]
      · next next hNext =>
          have hSome : advance first.terminal current ≠ [] := hNext
          rw [ih hSome]
          cases rest <;> simp [List.getLast?_cons]

/-- **The unexpected end**: the whole text is cut, its tokens are allowed, and no stack stands for
them. -/
theorem recognizeFrom_eq_unexpectedEnd_iff (nonempty : current ≠ []) :
    recognizeFrom current previous obstacle tokens = .error .unexpectedEnd ↔
      obstacle = none ∧ Allows current (terminals tokens) ∧
        ¬ ∃ stack ∈ current, stack.Stands (terminals tokens) := by
  induction tokens generalizing current previous with
  | nil =>
      have hAllows : Allows current [] := allows_nil_iff.mpr nonempty
      simp only [terminals_nil, Stack.stands_nil_iff, ← List.any_eq_true]
      unfold recognizeFrom
      split
      · simp
      · split
        · next hDone => simp [hDone]
        · next hDone => simp [hDone, hAllows]
  | cons first rest ih =>
      rw [terminals_cons, allows_cons_iff, ← exists_stands_advance_iff]
      unfold recognizeFrom
      split
      · next hNext => simp [hNext, Allows]
      · next next hNext =>
          have hSome : advance first.terminal current ≠ [] := hNext
          exact ih hSome

end Errors

/-! ## The outcome for a source -/

theorem initialStacks_ne_nil : initialStacks ≠ [] := by simp [initialStacks]

/-- An error of the parser is one of the recognizer. -/
theorem parse_eq_error_iff {source : List Char} {error : SyntaxError} :
    parse source = .error error ↔
      recognizeFrom initialStacks none (tokenize source).2 (tokenize source).1 =
        .error error := by
  change _ ↔ recognize (tokenize source).1 (tokenize source).2 = _
  unfold parse
  cases h : recognize (tokenize source).1 (tokenize source).2 <;> simp [h]

/-- **What comes of a source.**  Every text is cut in exactly one way, at each place by the first
terminal of the lexicon that matches.  It is accepted exactly when it is cut to its end and its
tokens are a sentence.  Of the other texts is reported the token with which no sentence goes on,
where one goes on with the tokens before it; or the character at which no terminal matches, if a
sentence goes on with all tokens before it; or the end, if a sentence goes on with all tokens and
they are none. -/
theorem parse_outcome (source : List Char) :
    ∃ lexemes obstacle, (∀ others stop, Cut .start source others stop ↔
        others = lexemes ∧ stop = obstacle) ∧
      let tokens := tokensOf none lexemes
      ((∃ file, parse source = .ok file) ↔
        obstacle = none ∧ IsSentence (terminals tokens)) ∧
      (∀ token, parse source = .error (.unexpectedToken token) ↔
        ∃ before after, tokens = before ++ token :: after ∧ IsViable (terminals before) ∧
          ¬ IsViable (terminals (before ++ [token]))) ∧
      (∀ reported last, parse source = .error (.unexpectedCharacter reported last) ↔
        obstacle = some reported ∧ IsViable (terminals tokens) ∧ last = tokens.getLast?) ∧
      (parse source = .error .unexpectedEnd ↔
        obstacle = none ∧ IsViable (terminals tokens) ∧ ¬ IsSentence (terminals tokens)) := by
  have hTokens : tokenize source =
      (tokensOf none (lexemesFrom .start source).1, (lexemesFrom .start source).2) := rfl
  refine ⟨(lexemesFrom .start source).1, (lexemesFrom .start source).2, ?_, ?_, ?_, ?_, ?_⟩
  · intro others stop
    rw [cut_iff, Prod.ext_iff, eq_comm (b := others), eq_comm (b := stop)]
  · rw [parse_isOk_iff, recognize_eq_ok_iff, hTokens]
  · intro token
    rw [parse_eq_error_iff, recognizeFrom_eq_unexpectedToken_iff initialStacks_ne_nil, hTokens]
    simp only [allows_initialStacks_iff]
  · intro reported last
    rw [parse_eq_error_iff, recognizeFrom_eq_unexpectedCharacter_iff initialStacks_ne_nil,
      hTokens, allows_initialStacks_iff, Option.or_none]
  · have hStands : ∀ word, (∃ stack ∈ initialStacks, stack.Stands word) ↔ IsSentence word := by
      intro word
      simp only [initialStacks, List.mem_singleton, exists_eq_left, Stack.stands_singleton]
      rfl
    rw [parse_eq_error_iff, recognizeFrom_eq_unexpectedEnd_iff initialStacks_ne_nil, hTokens,
      allows_initialStacks_iff, hStands]

end ClassSchema.Java
