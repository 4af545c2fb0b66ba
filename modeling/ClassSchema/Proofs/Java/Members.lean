import ClassSchema.Proofs.Java.Headers

/-!
# Members in outlines

A member ends at a semicolon or with a pair of braces.  Whatever derivation a
member has, its items are cut out as one member: nothing before its last item
ends it, because a header is quiet, braces of an initializer stand behind an
equals sign, and semicolons stand in groups only.

So the members of a body can be read one by one, whatever stands before and
behind them, and a body declares what its members declare, in their order.

## Main results

* `memberItems_eq`: the items of tokens that make one member.
* `splitMembers_outline`: members are cut where their tokens are.
* `readClassBody_outline`: a class body declares what its members declare.
-/

namespace ClassSchema.Java

open Expr.Yields

/-! ## Phases -/

/-- What braces mean behind an item, unless the item ends the member. -/
def Phase.after (phase : Phase) : Node → Option Phase
  | .word token =>
      if token.terminal = .semicolon then none
      else if token.terminal = .equalSign ∧ phase = .open then some .initializer
      else some phase
  | .parens => some (if phase = .open then .parameters else phase)
  | .braces _ _ => if phase = .initializer then some phase else none
  | .annotationUse _ _ => some phase

/-- What braces mean behind several items, none of which ends the member. -/
def Phase.run (phase : Phase) : List Node → Option Phase
  | [] => some phase
  | node :: rest => (phase.after node).bind (Phase.run · rest)

theorem Phase.run_append (phase : Phase) (front back : List Node) :
    phase.run (front ++ back) = (phase.run front).bind (Phase.run · back) := by
  induction front generalizing phase with
  | nil => rfl
  | cons node front ih =>
      show (phase.after node).bind _ = ((phase.after node).bind _).bind _
      cases phase.after node with
      | none => rfl
      | some left => exact ih left

theorem Phase.run_of_forall {phase : Phase} {items : List Node}
    (h : ∀ item ∈ items, phase.after item = some phase) : phase.run items = some phase := by
  induction items with
  | nil => rfl
  | cons item items ih =>
      obtain ⟨hItem, each⟩ := List.forall_mem_cons.mp h
      rw [run, hItem]
      exact ih each

/-- Quiet items change no phase. -/
theorem Phase.run_quiet {items : List Node} (h : ∀ item ∈ items, item.isQuiet = true)
    (phase : Phase) : phase.run items = some phase := by
  apply run_of_forall
  intro item mem
  have hItem := h item mem
  cases item with
  | word token =>
      simp only [Node.isQuiet, Bool.and_eq_true, decide_eq_true_eq] at hItem
      simp [after, hItem.1, hItem.2]
  | annotationUse => rfl
  | parens => cases hItem
  | braces => cases hItem

private theorem splitMembersFrom_after {phase left : Phase} {node : Node}
    (h : phase.after node = some left) (current rest : List Node) :
    splitMembersFrom phase current (node :: rest) =
      splitMembersFrom left (node :: current) rest := by
  cases node with
  | word token =>
      simp only [Phase.after] at h
      by_cases hSemicolon : token.terminal = .semicolon
      · simp [hSemicolon] at h
      · rw [if_neg hSemicolon] at h
        by_cases hEqual : token.terminal = .equalSign ∧ phase = .open
        · rw [if_pos hEqual] at h
          cases h
          simp only [splitMembersFrom, hEqual.1, hEqual.2]
        · rw [if_neg hEqual] at h
          cases h
          rw [splitMembersFrom.eq_def]
          dsimp only
          split
          · next hTerminal => exact absurd hTerminal hSemicolon
          · next hTerminal => exact absurd ⟨hTerminal, rfl⟩ hEqual
          · rfl
  | annotationUse =>
      cases h
      rfl
  | parens =>
      cases h
      rfl
  | braces =>
      simp only [Phase.after, Option.ite_none_right_eq_some] at h
      cases h.2
      simp [splitMembersFrom, h.1]

private theorem splitMembersFrom_run {phase left : Phase} {items : List Node}
    (h : phase.run items = some left) (current rest : List Node) :
    splitMembersFrom phase current (items ++ rest) =
      splitMembersFrom left (items.reverse ++ current) rest := by
  induction items generalizing phase current with
  | nil =>
      cases h
      rfl
  | cons item items ih =>
      obtain ⟨between, hItem, hItems⟩ := Option.bind_eq_some_iff.mp h
      rw [List.cons_append, splitMembersFrom_after hItem, ih hItems]
      simp

/-! ## One member -/

/-- Items that make exactly one member; the second list is that member without its semicolon. -/
inductive Makes : List Node → List Node → Prop where
  | semicolon {items : List Node} {phase : Phase} {token : Token} :
      Phase.open.run items = some phase → token.terminal = .semicolon →
      Makes (items ++ [.word token]) items
  | braces {items : List Node} {phase : Phase} (asClass asEnum : Body) :
      Phase.open.run items = some phase → phase ≠ .initializer →
      Makes (items ++ [.braces asClass asEnum]) (items ++ [.braces asClass asEnum])

namespace Makes

/-- A member is cut off, whatever follows it. -/
theorem split {nodes items : List Node} (h : Makes nodes items) (rest : List Node) :
    splitMembers (nodes ++ rest) = items :: splitMembers rest := by
  unfold splitMembers
  cases h with
  | semicolon hRun hToken =>
      rw [List.append_assoc, splitMembersFrom_run hRun]
      simp [splitMembersFrom, hToken]
  | braces asClass asEnum hRun hPhase =>
      rw [List.append_assoc, splitMembersFrom_run hRun]
      simp [splitMembersFrom, hPhase]

/-- What follows a member is not merged with it. -/
theorem isClosed {nodes items : List Node} (h : Makes nodes items) :
    IsClosed nodes.reverse = true := by
  cases h with
  | semicolon _ hToken =>
      rw [List.reverse_append]
      exact isClosed_word (by rw [hToken]; decide) (by rw [hToken]; decide) _
  | braces =>
      rw [List.reverse_append]
      rfl

end Makes

/-- The items of the first member that tokens make. -/
def memberItems (tokens : List Token) : List Node := (splitMembers (outline tokens)).headD []

theorem memberItems_eq {tokens : List Token} {items : List Node}
    (h : Makes (outline tokens) items) : memberItems tokens = items := by
  have hSplit := h.split []
  rw [List.append_nil] at hSplit
  rw [memberItems, hSplit]
  rfl

/-- Tokens that are one member by themselves. -/
structure IsMember (tokens : List Token) : Prop where
  /-- They are balanced. -/
  balanced : Balanced (terminals tokens)
  /-- Their items are one member. -/
  makes : ∃ items, Makes (outline tokens) items

/-- What follows a member is not merged with its last item. -/
theorem IsMember.isClosed {tokens : List Token} (h : IsMember tokens) :
    IsClosed (behind [] tokens) = true := by
  obtain ⟨items, hMakes⟩ := h.makes
  have hReverse := hMakes.isClosed
  rw [outline_eq_reverse, List.reverse_reverse] at hReverse
  exact hReverse

/-- **Members are cut where their tokens are.** -/
theorem splitMembers_outline {parts : List (List Token)} (h : ∀ part ∈ parts, IsMember part) :
    splitMembers (outline parts.flatten) = parts.map memberItems := by
  induction parts with
  | nil => rfl
  | cons part parts ih =>
      obtain ⟨hPart, each⟩ := List.forall_mem_cons.mp h
      obtain ⟨items, hMakes⟩ := hPart.makes
      have hRest : Balanced (terminals parts.flatten) := by
        clear ih h
        induction parts with
        | nil => exact .nil
        | cons other parts ih =>
            obtain ⟨hOther, each⟩ := List.forall_mem_cons.mp each
            rw [List.flatten_cons, terminals_append]
            exact hOther.balanced.append (ih each)
      rw [List.flatten_cons, outline_append hPart.balanced hPart.isClosed hRest, hMakes.split,
        ih each, List.map_cons, memberItems_eq hMakes]

/-- A class body declares what its members declare. -/
theorem readClassBody_outline {parts : List (List Token)} (h : ∀ part ∈ parts, IsMember part) :
    readClassBody (outline parts.flatten) =
      bodyOf (parts.map fun part => readMember (memberItems part)) := by
  rw [readClassBody, splitMembers_outline h, List.map_map]
  rfl

end ClassSchema.Java
