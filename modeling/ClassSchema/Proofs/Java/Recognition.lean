import ClassSchema.Java.Source

/-!
# The recognizer accepts the language

A stack of bodies stands for the sequences that its bodies stand for one after
the other.  Reading a token replaces a stack by the stacks that are left behind
it, and these stand for the sequences that may follow the token.  So the stacks
that the recognizer holds stand, together, for all that may still come, and it
accepts exactly the sentences of the grammar.

Rules are unfolded to a fixed depth only.  That loses nothing, since unfolding
deeper than that depth finds nothing more.

## Main results

* `Derives.nil_iff`: a body stands for no terminals exactly when it is nullable.
* `Stack.stands_cons_iff`: what is left behind a token, for stacks.
* `recognize_eq_ok_iff`: the accepted token lists are the sentences.
-/

namespace ClassSchema.Java

/-- The terminals of tokens. -/
def terminals (tokens : List Token) : List Terminal := tokens.map (·.terminal)

@[simp] theorem terminals_nil : terminals [] = [] := rfl

@[simp] theorem terminals_cons (token : Token) (tokens : List Token) :
    terminals (token :: tokens) = token.terminal :: terminals tokens := rfl

@[simp] theorem terminals_append (front back : List Token) :
    terminals (front ++ back) = terminals front ++ terminals back :=
  List.map_append

/-- Tokens that a body stands for. -/
def Expr.Yields (e : Expr) (tokens : List Token) : Prop := Derives e (terminals tokens)

namespace Expr.Yields

theorem terminal_iff {t : Terminal} {tokens : List Token} :
    (terminal t).Yields tokens ↔ ∃ token, tokens = [token] ∧ token.terminal = t := by
  constructor
  · intro h
    unfold Yields at h
    rcases tokens with _ | ⟨token, _ | ⟨_, _⟩⟩ <;> cases h
    exact ⟨token, rfl, rfl⟩
  · rintro ⟨token, rfl, rfl⟩
    exact .terminal _

theorem rule_iff {r : Rule} {tokens : List Token} :
    (rule r).Yields tokens ↔ r.body.Yields tokens := by
  constructor
  · intro h
    cases h with
    | rule h => exact h
  · exact .rule

theorem sequence_iff {first second : Expr} {tokens : List Token} :
    (sequence first second).Yields tokens ↔
      ∃ front back, tokens = front ++ back ∧ first.Yields front ∧ second.Yields back := by
  constructor
  · intro h
    unfold Yields at h
    generalize hWord : terminals tokens = word at h
    cases h with
    | sequence hFirst hSecond =>
        obtain ⟨front, back, rfl, rfl, rfl⟩ := List.map_eq_append_iff.mp hWord
        exact ⟨front, back, rfl, hFirst, hSecond⟩
  · rintro ⟨front, back, rfl, hFirst, hSecond⟩
    show Derives _ (terminals (front ++ back))
    rw [terminals_append]
    exact .sequence hFirst hSecond

theorem choice_iff {left right : Expr} {tokens : List Token} :
    (choice left right).Yields tokens ↔ left.Yields tokens ∨ right.Yields tokens := by
  constructor
  · intro h
    cases h with
    | left h => exact .inl h
    | right h => exact .inr h
  · intro h
    rcases h with h | h
    · exact .left h
    · exact .right h

theorem optional_iff {part : Expr} {tokens : List Token} :
    (optional part).Yields tokens ↔ tokens = [] ∨ part.Yields tokens := by
  constructor
  · intro h
    unfold Yields at h
    generalize hWord : terminals tokens = word at h
    cases h with
    | absent => exact .inl (List.map_eq_nil_iff.mp hWord)
    | present h =>
        subst hWord
        exact .inr h
  · rintro (rfl | h)
    · exact .absent
    · exact .present h

/-- Any number of parts, one after the other. -/
theorem many_iff {part : Expr} {tokens : List Token} :
    (many part).Yields tokens ↔
      ∃ parts : List (List Token), tokens = parts.flatten ∧ ∀ one ∈ parts, part.Yields one := by
  constructor
  · intro h
    unfold Yields at h
    generalize hWord : terminals tokens = word at h
    generalize hMany : many part = e at h
    induction h generalizing tokens with
    | none =>
        refine ⟨[], List.map_eq_nil_iff.mp hWord, ?_⟩
        intro one mem
        cases mem
    | more hPart _ _ ih =>
        cases hMany
        obtain ⟨front, back, rfl, rfl, rfl⟩ := List.map_eq_append_iff.mp hWord
        obtain ⟨parts, rfl, each⟩ := ih rfl rfl
        exact ⟨front :: parts, rfl, List.forall_mem_cons.mpr ⟨hPart, each⟩⟩
    | _ => cases hMany
  · rintro ⟨parts, rfl, each⟩
    induction parts with
    | nil => exact .none
    | cons one parts ih =>
        obtain ⟨hOne, each⟩ := List.forall_mem_cons.mp each
        show Derives _ (terminals (one ++ parts.flatten))
        rw [terminals_append]
        exact .more hOne (ih each)

theorem many_append {part : Expr} {front back : List Token} (hFront : (many part).Yields front)
    (hBack : (many part).Yields back) : (many part).Yields (front ++ back) := by
  obtain ⟨parts, rfl, each⟩ := many_iff.mp hFront
  obtain ⟨others, rfl, eachOther⟩ := many_iff.mp hBack
  refine many_iff.mpr ⟨parts ++ others, List.flatten_append.symm, fun one mem => ?_⟩
  rcases List.mem_append.mp mem with hMem | hMem
  · exact each one hMem
  · exact eachOther one hMem

/-! ### Putting derivations together -/

theorem of_terminal {t : Terminal} {token : Token} (h : token.terminal = t) :
    (terminal t).Yields [token] :=
  terminal_iff.mpr ⟨token, rfl, h⟩

theorem of_sequence {first second : Expr} {front back : List Token} (hFirst : first.Yields front)
    (hSecond : second.Yields back) : (sequence first second).Yields (front ++ back) :=
  sequence_iff.mpr ⟨front, back, rfl, hFirst, hSecond⟩

/-- A terminal and what follows it. -/
theorem of_cons {t : Terminal} {token : Token} {second : Expr} {back : List Token}
    (h : token.terminal = t) (hSecond : second.Yields back) :
    (sequence (terminal t) second).Yields (token :: back) :=
  @of_sequence _ _ [token] back (of_terminal h) hSecond

/-- A part that may be absent, and is. -/
theorem of_absent {part second : Expr} {back : List Token} (hSecond : second.Yields back) :
    (sequence (optional part) second).Yields back :=
  @of_sequence _ _ [] back (optional_iff.mpr (.inl rfl)) hSecond

theorem many_nil (part : Expr) : (many part).Yields [] := Derives.none

theorem many_cons {part : Expr} {one rest : List Token} (hOne : part.Yields one)
    (hRest : (many part).Yields rest) : (many part).Yields (one ++ rest) := by
  show Derives _ (terminals (one ++ rest))
  rw [terminals_append]
  exact .more hOne hRest

/-- Repeated parts, none of which are there. -/
theorem of_nothing {part second : Expr} {back : List Token} (hSecond : second.Yields back) :
    (sequence (many part) second).Yields back :=
  @of_sequence _ _ [] back (many_nil part) hSecond

theorem many_flatten {part : Expr} {parts : List (List Token)}
    (h : ∀ one ∈ parts, part.Yields one) : (many part).Yields parts.flatten :=
  many_iff.mpr ⟨parts, rfl, h⟩

end Expr.Yields

/-! ## Bodies that stand for nothing -/

/-- A rule that may be empty can be derived as such. -/
private theorem Rule.derives_nil {r : Rule} (h : r.nullable = true) : Derives (.rule r) [] := by
  cases r <;> try cases h
  · exact .rule (.sequence .absent (.sequence .none .none))
  · exact .rule .none

/-- A body stands for no terminals exactly when the table of rules says so. -/
theorem Derives.nil_iff {e : Expr} : Derives e [] ↔ e.nullable = true := by
  constructor
  · intro h
    generalize hWord : ([] : List Terminal) = word at h
    induction h with
    | terminal t => cases hWord
    | @rule r word h ih =>
        show r.nullable = true
        rw [r.nullable_eq]
        exact ih hWord
    | sequence _ _ ihFirst ihSecond =>
        obtain ⟨hFront, hBack⟩ := List.append_eq_nil_iff.mp hWord.symm
        simp [Expr.nullable, ihFirst hFront.symm, ihSecond hBack.symm]
    | left _ ih => simp [Expr.nullable, ih hWord]
    | right _ ih => simp [Expr.nullable, ih hWord]
    | absent => rfl
    | present => rfl
    | none => rfl
    | more => rfl
  · intro h
    induction e with
    | terminal t => cases h
    | rule r => exact Rule.derives_nil h
    | sequence first second ihFirst ihSecond =>
        obtain ⟨hFirst, hSecond⟩ := Bool.and_eq_true_iff.mp h
        exact .sequence (ihFirst hFirst) (ihSecond hSecond)
    | choice left right ihLeft ihRight =>
        rcases Bool.or_eq_true_iff.mp h with hLeft | hRight
        · exact .left (ihLeft hLeft)
        · exact .right (ihRight hRight)
    | optional part => exact .absent
    | many part => exact .none

/-! ## Stacks -/

namespace Stack

/-- What a stack stands for: its bodies one after the other. -/
inductive Stands : Stack → List Terminal → Prop where
  | nil : Stands [] []
  | cons {top : Expr} {rest : Stack} {front back : List Terminal} :
      Derives top front → Stands rest back → Stands (top :: rest) (front ++ back)

/-- A body alone. -/
theorem stands_singleton {e : Expr} {word : List Terminal} : Stands [e] word ↔ Derives e word := by
  constructor
  · intro h
    cases h with
    | cons hTop hRest =>
        cases hRest
        rw [List.append_nil]
        exact hTop
  · intro h
    rw [← List.append_nil word]
    exact .cons h .nil

/-- Two stacks, one on top of the other. -/
theorem stands_append_iff {upper lower : Stack} {word : List Terminal} :
    Stands (upper ++ lower) word ↔
      ∃ front back, word = front ++ back ∧ Stands upper front ∧ Stands lower back := by
  induction upper generalizing word with
  | nil =>
      constructor
      · intro h
        exact ⟨[], word, rfl, .nil, h⟩
      · rintro ⟨_, back, rfl, ⟨⟩, h⟩
        exact h
  | cons top upper ih =>
      constructor
      · intro h
        cases h with
        | cons hTop hRest =>
            obtain ⟨front, back, rfl, hUpper, hLower⟩ := ih.mp hRest
            exact ⟨_, back, (List.append_assoc ..).symm, .cons hTop hUpper, hLower⟩
      · rintro ⟨_, back, rfl, hUpper, hLower⟩
        cases hUpper with
        | cons hTop hUpper =>
            rw [List.append_assoc]
            exact .cons hTop (ih.mpr ⟨_, back, rfl, hUpper, hLower⟩)

/-- Nothing more is needed exactly when the stack stands for nothing. -/
theorem stands_nil_iff {stack : Stack} : Stands stack [] ↔ stack.isDone = true := by
  induction stack with
  | nil => exact ⟨fun _ => rfl, fun _ => .nil⟩
  | cons top rest ih =>
      have hDone : isDone (top :: rest) = (top.nullable && isDone rest) := rfl
      rw [hDone, Bool.and_eq_true_iff, ← ih, ← Derives.nil_iff]
      constructor
      · intro h
        generalize hWord : ([] : List Terminal) = word at h
        cases h with
        | cons hTop hRest =>
            obtain ⟨rfl, rfl⟩ := List.append_eq_nil_iff.mp hWord.symm
            exact ⟨hTop, hRest⟩
      · intro ⟨hTop, hRest⟩
        exact .cons hTop hRest

end Stack

/-! ## What is left behind a token -/

/-- What is left of a body is right if that is so of the rules. -/
private theorem Expr.derives_of_after {token : Terminal} {ruleAfter : Rule → List Stack}
    (sound : ∀ r, ∀ stack ∈ ruleAfter r, ∀ word, stack.Stands word →
      Derives (.rule r) (token :: word))
    {e : Expr} {stack : Stack} (mem : stack ∈ e.after token ruleAfter) {word : List Terminal}
    (h : stack.Stands word) : Derives e (token :: word) := by
  induction e generalizing stack word with
  | terminal t =>
      by_cases hToken : t = token
      · subst hToken
        simp only [after, if_true, List.mem_singleton] at mem
        subst mem
        cases h
        exact .terminal t
      · simp [after, hToken] at mem
  | rule r => exact sound r stack mem word h
  | sequence first second ihFirst ihSecond =>
      rcases List.mem_append.mp mem with hFirst | hSecond
      · obtain ⟨upper, hUpper, rfl⟩ := List.mem_map.mp hFirst
        obtain ⟨front, back, rfl, hFront, hBack⟩ := Stack.stands_append_iff.mp h
        exact .sequence (ihFirst hUpper hFront) (Stack.stands_singleton.mp hBack)
      · by_cases hNull : first.nullable = true
        · rw [if_pos hNull] at hSecond
          exact .sequence (Derives.nil_iff.mpr hNull) (ihSecond hSecond h)
        · rw [if_neg hNull] at hSecond
          cases hSecond
  | choice left right ihLeft ihRight =>
      rcases List.mem_append.mp mem with hLeft | hRight
      · exact .left (ihLeft hLeft h)
      · exact .right (ihRight hRight h)
  | optional part ih => exact .present (ih mem h)
  | many part ih =>
      obtain ⟨upper, hUpper, rfl⟩ := List.mem_map.mp mem
      obtain ⟨front, back, rfl, hFront, hBack⟩ := Stack.stands_append_iff.mp h
      exact .more (ih hUpper hFront) (Stack.stands_singleton.mp hBack)

private theorem Rule.derives_of_after {token : Terminal} (depth : Nat) :
    ∀ r, ∀ stack ∈ Rule.after token depth r, ∀ word, stack.Stands word →
      Derives (.rule r) (token :: word) := by
  induction depth with
  | zero =>
      intro r stack mem
      cases mem
  | succ depth ih =>
      intro r stack mem word h
      exact .rule (Expr.derives_of_after ih mem h)

/-- One more unfolding of a rule changes nothing. -/
private theorem Rule.after_eq_body (token : Terminal) (r : Rule) :
    Rule.after token unfoldingDepth r =
      r.body.after token (Rule.after token unfoldingDepth) := by
  rw [← Rule.after_unfoldingDepth token r (Nat.le_succ unfoldingDepth)]
  rfl

/-- Nothing is lost: a derivation that begins with a token leaves one of the stacks. -/
private theorem Derives.exists_after {token : Terminal} {e : Expr} {word : List Terminal}
    (h : Derives e (token :: word)) :
    ∃ stack ∈ e.after token (Rule.after token unfoldingDepth), stack.Stands word := by
  generalize hWord : token :: word = whole at h
  induction h generalizing word with
  | terminal t =>
      cases hWord
      exact ⟨[], by simp [Expr.after], .nil⟩
  | @rule r whole h ih =>
      obtain ⟨stack, mem, hStands⟩ := ih hWord
      refine ⟨stack, ?_, hStands⟩
      show stack ∈ Rule.after token unfoldingDepth r
      rw [Rule.after_eq_body]
      exact mem
  | @sequence first second front back hFirst hSecond ihFirst ihSecond =>
      cases front with
      | nil =>
          have hNull := Derives.nil_iff.mp hFirst
          obtain ⟨stack, mem, hStands⟩ := ihSecond hWord
          refine ⟨stack, List.mem_append_right _ ?_, hStands⟩
          rw [if_pos hNull]
          exact mem
      | cons head front =>
          cases hWord
          obtain ⟨stack, mem, hStands⟩ := ihFirst rfl
          exact ⟨stack ++ [second], List.mem_append_left _ (List.mem_map_of_mem mem),
            Stack.stands_append_iff.mpr
              ⟨front, back, rfl, hStands, Stack.stands_singleton.mpr hSecond⟩⟩
  | left _ ih =>
      obtain ⟨stack, mem, hStands⟩ := ih hWord
      exact ⟨stack, List.mem_append_left _ mem, hStands⟩
  | right _ ih =>
      obtain ⟨stack, mem, hStands⟩ := ih hWord
      exact ⟨stack, List.mem_append_right _ mem, hStands⟩
  | absent => cases hWord
  | present _ ih => exact ih hWord
  | none => cases hWord
  | @more part front back hPart hMany ihPart ihMany =>
      cases front with
      | nil => exact ihMany hWord
      | cons head front =>
          cases hWord
          obtain ⟨stack, mem, hStands⟩ := ihPart rfl
          exact ⟨stack ++ [.many part], List.mem_map_of_mem mem,
            Stack.stands_append_iff.mpr
              ⟨front, back, rfl, hStands, Stack.stands_singleton.mpr hMany⟩⟩

/-- A body stands for a sequence exactly when a stack behind the first token stands for the
rest. -/
theorem Derives.cons_iff {token : Terminal} {e : Expr} {word : List Terminal} :
    Derives e (token :: word) ↔
      ∃ stack ∈ e.after token (Rule.after token unfoldingDepth), stack.Stands word := by
  constructor
  · exact Derives.exists_after
  · intro ⟨stack, mem, hStands⟩
    exact Expr.derives_of_after (Rule.derives_of_after unfoldingDepth) mem hStands

/-- The same for stacks. -/
theorem Stack.stands_cons_iff {token : Terminal} {stack : Stack} {word : List Terminal} :
    stack.Stands (token :: word) ↔ ∃ next ∈ stack.after token, next.Stands word := by
  induction stack generalizing word with
  | nil =>
      constructor
      · intro h
        cases h
      · rintro ⟨_, ⟨⟩, _⟩
  | cons top rest ih =>
      constructor
      · intro h
        generalize hWord : token :: word = whole at h
        cases h with
        | @cons _ _ front back hTop hRest =>
            cases front with
            | nil =>
                have hNull := Derives.nil_iff.mp hTop
                rw [List.nil_append] at hWord
                rw [← hWord] at hRest
                obtain ⟨next, mem, hStands⟩ := ih.mp hRest
                refine ⟨next, List.mem_append_right _ ?_, hStands⟩
                rw [if_pos hNull]
                exact mem
            | cons head front =>
                cases hWord
                obtain ⟨upper, mem, hStands⟩ := Derives.cons_iff.mp hTop
                exact ⟨upper ++ rest, List.mem_append_left _ (List.mem_map_of_mem mem),
                  stands_append_iff.mpr ⟨front, back, rfl, hStands, hRest⟩⟩
      · intro ⟨next, mem, hStands⟩
        rcases List.mem_append.mp mem with hTop | hRest
        · obtain ⟨upper, hUpper, rfl⟩ := List.mem_map.mp hTop
          obtain ⟨front, back, rfl, hFront, hBack⟩ := stands_append_iff.mp hStands
          exact .cons (Derives.cons_iff.mpr ⟨upper, hUpper, hFront⟩) hBack
        · by_cases hNull : top.nullable = true
          · rw [if_pos hNull] at hRest
            exact .cons (Derives.nil_iff.mpr hNull) (ih.mpr ⟨next, hRest, hStands⟩)
          · rw [if_neg hNull] at hRest
            cases hRest

/-! ## The recognizer -/

/-- The stacks behind a token stand for what the stacks before it allow. -/
theorem exists_stands_advance_iff {token : Terminal} {current : List Stack}
    {word : List Terminal} :
    (∃ stack ∈ advance token current, stack.Stands word) ↔
      ∃ stack ∈ current, stack.Stands (token :: word) := by
  constructor
  · intro ⟨next, mem, hStands⟩
    obtain ⟨stack, hStack, hNext⟩ := List.mem_flatMap.mp (List.mem_eraseDups.mp mem)
    exact ⟨stack, hStack, Stack.stands_cons_iff.mpr ⟨next, hNext, hStands⟩⟩
  · intro ⟨stack, mem, hStands⟩
    obtain ⟨next, hNext, hStands⟩ := Stack.stands_cons_iff.mp hStands
    exact ⟨next, List.mem_eraseDups.mpr (List.mem_flatMap.mpr ⟨stack, mem, hNext⟩), hStands⟩

/-- The stacks behind a whole word tell whether it is derived. -/
theorem derives_iff_any_isDone {e : Expr} {word : List Terminal} :
    Derives e word ↔
      ((word.foldl (fun current token => advance token current) [[e]]).any Stack.isDone) = true := by
  have general : ∀ (word : List Terminal) (current : List Stack),
      (∃ stack ∈ current, stack.Stands word) ↔
        ((word.foldl (fun current token => advance token current) current).any Stack.isDone) =
          true := by
    intro word
    induction word with
    | nil =>
        intro current
        rw [List.foldl_nil, List.any_eq_true]
        simp only [Stack.stands_nil_iff]
    | cons token word ih =>
        intro current
        rw [List.foldl_cons, ← ih, exists_stands_advance_iff]
  rw [← general, ← Stack.stands_singleton]
  simp

instance (e : Expr) (word : List Terminal) : Decidable (Derives e word) :=
  decidable_of_iff _ derives_iff_any_isDone.symm

/-- **One run of the recognizer.**  It accepts the tokens exactly when they reach the end of the
text and one of the stacks stands for them. -/
theorem recognizeFrom_eq_ok_iff {current : List Stack} {previous : Option Token}
    {obstacle : Option Obstacle} {tokens : List Token} :
    recognizeFrom current previous obstacle tokens = .ok () ↔
      obstacle = none ∧ ∃ stack ∈ current, stack.Stands (terminals tokens) := by
  induction tokens generalizing current previous with
  | nil =>
      cases obstacle with
      | some obstacle => simp [recognizeFrom]
      | none =>
          simp only [recognizeFrom, terminals_nil, true_and, Stack.stands_nil_iff]
          by_cases hDone : current.any Stack.isDone = true
          · simp [hDone, List.any_eq_true.mp hDone]
          · rw [if_neg hDone]
            rw [List.any_eq_true] at hDone
            simp [hDone]
  | cons token tokens ih =>
      rw [terminals_cons, ← exists_stands_advance_iff]
      simp only [recognizeFrom]
      split
      · next hNext => simp [hNext]
      · next next hNext => exact ih

/-- **The accepted token lists are the sentences.** -/
theorem recognize_eq_ok_iff {tokens : List Token} {obstacle : Option Obstacle} :
    recognize tokens obstacle = .ok () ↔ obstacle = none ∧ IsSentence (terminals tokens) := by
  have hInitial : (∃ stack ∈ initialStacks, stack.Stands (terminals tokens)) ↔
      IsSentence (terminals tokens) := by
    simp only [initialStacks, List.mem_singleton, exists_eq_left]
    exact Stack.stands_singleton
  rw [← hInitial]
  exact recognizeFrom_eq_ok_iff

/-- A source is accepted and read as its tokens are. -/
theorem parse_eq_ok_iff {source : List Char} {file : SourceFile} :
    parse source = .ok file ↔
      (tokenize source).2 = none ∧ IsSentence (terminals (tokenize source).1) ∧
        readSource (tokenize source).1 = file := by
  unfold parse
  rw [← and_assoc, ← recognize_eq_ok_iff]
  cases h : recognize (tokenize source).1 (tokenize source).2 <;> simp [h]

end ClassSchema.Java
