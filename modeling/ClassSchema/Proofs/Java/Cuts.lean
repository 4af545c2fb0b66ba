import ClassSchema.Proofs.Java.ItemTokens

/-!
# Cutting declarators

A list of declarators is cut at its commas into parts.  A part that begins like a
declarator may be one; a part that does not belongs to the initializer before it.

The cut with the most declarators takes every part that can be one.  Here this is
shown from the other side: if the parts inside of an initializer are blocked, which
means that none of them can begin a declarator, then the most declarators are found
by cutting around them.

## Main results

* `bestCuts_blocked`: blocked parts begin no declarators.
* `CutsInto.cons`, `CutsInto.cons_comma`: a declarator and the blocked parts of its initializer.
* `readDeclarators_plain`, `readDeclarators_comma`, `exists_readDeclarators_assigned`: there is
  always a cut.
-/

namespace ClassSchema.Java

/-! ## What a part begins with -/

/-- What is opened by a part. -/
theorem openingOf_cases (part : List Node) :
    openingOf part = .other ∨
      ∃ name count dimensions, name.terminal = .identifier ∧ IsDimensions count dimensions ∧
        ((part = .word name :: dimensions ∧ openingOf part = .plain ⟨name.text, count⟩) ∨
          ∃ equal items, part = .word name :: (dimensions ++ .word equal :: items) ∧
            equal.terminal = .equalSign ∧
            openingOf part = .assigned ⟨name.text, count⟩ (!items.isEmpty)) := by
  unfold openingOf
  split
  · next name rest =>
      split
      · exact .inl rfl
      · next hName =>
          replace hName : name.terminal = .identifier := Decidable.not_not.mp hName
          rcases hRead : readDimensions rest with ⟨count, after⟩
          obtain ⟨dimensions, rfl, isDimensions⟩ := exists_of_readDimensions hRead
          dsimp only
          cases after with
          | nil =>
              refine .inr ⟨name, count, dimensions, hName, isDimensions, .inl ⟨?_, rfl⟩⟩
              rw [List.append_nil]
          | cons node items =>
              dsimp only
              split
              · next hEqual =>
                  cases node with
                  | word equal =>
                      refine .inr ⟨name, count, dimensions, hName, isDimensions,
                        .inr ⟨equal, items, rfl, of_decide_eq_true hEqual, rfl⟩⟩
                  | _ => cases hEqual
              · exact .inl rfl
  · exact .inl rfl

theorem openingOf_plain {name : Token} {count : Nat} {dimensions : List Node}
    (hName : name.terminal = .identifier) (hDimensions : IsDimensions count dimensions) :
    openingOf (.word name :: dimensions) = .plain ⟨name.text, count⟩ := by
  have hRead := hDimensions.readDimensions_append .nil
  rw [List.append_nil] at hRead
  simp [openingOf, hName, hRead]

theorem openingOf_assigned {name equal : Token} {count : Nat} {dimensions : List Node}
    (hName : name.terminal = .identifier) (hDimensions : IsDimensions count dimensions)
    (hEqual : equal.terminal = .equalSign) (items : List Node) :
    openingOf (.word name :: (dimensions ++ .word equal :: items)) =
      .assigned ⟨name.text, count⟩ (!items.isEmpty) := by
  have hEnds : EndsDimensions (.word equal :: items) := .word (by rw [hEqual]; decide) items
  have hRead := hDimensions.readDimensions_append hEnds
  simp [openingOf, hName, hRead, Node.isWord, hEqual]

/-! ## Cuts -/

/-- The most declarators with the first one at the first part, given the cuts of later parts. -/
def cutHere (opening : Opening) (later : List (Option (List Declarator))) :
    Option (List Declarator) :=
  match opening with
  | .other => none
  | .plain declarator => (longest (later.take 1)).map (declarator :: ·)
  | .assigned declarator true => (longest later).map (declarator :: ·)
  | .assigned declarator false => (longest (later.drop 1)).map (declarator :: ·)

theorem bestCuts_cons (opening : Opening) (rest : List Opening) :
    bestCuts (opening :: rest) = cutHere opening (bestCuts rest) :: bestCuts rest := rfl

/-- Whether parts inside of an initializer begin no declarators: a declarator without an
initializer would have to be the last part, and one with an empty initializer can only stand at the
very end. -/
def Blocked (isLast : Prop) (openings : List Opening) : Prop :=
  ∀ front opening back, openings = front ++ opening :: back →
    (∀ declarator, opening ≠ .assigned declarator true) ∧
      (∀ declarator, opening = .plain declarator → back ≠ []) ∧
      ∀ declarator, opening = .assigned declarator false → back = [] ∧ isLast

namespace Blocked

theorem tail {isLast : Prop} {opening : Opening} {openings : List Opening}
    (h : Blocked isLast (opening :: openings)) : Blocked isLast openings :=
  fun front inner back hShape => h (opening :: front) inner back (by rw [hShape]; rfl)

/-- Parts that do not begin like a declarator are blocked. -/
theorem of_other {isLast : Prop} {openings : List Opening}
    (h : ∀ opening ∈ openings, opening = .other) : Blocked isLast openings := by
  intro front opening back hShape
  have hOther : opening = .other := h opening (by rw [hShape]; simp)
  simp [hOther]

end Blocked

/-- **Blocked parts begin no declarators.** -/
theorem bestCuts_blocked {openings rest : List Opening} (h : Blocked (rest = []) openings) :
    bestCuts (openings ++ rest) = List.replicate openings.length none ++ bestCuts rest := by
  induction openings with
  | nil => rfl
  | cons opening openings ih =>
      obtain ⟨hAssigned, hPlain, hEmpty⟩ := h [] opening openings rfl
      rw [List.cons_append, bestCuts_cons, ih h.tail, List.length_cons, List.replicate_succ,
        List.cons_append]
      congr 1
      cases opening with
      | other => rfl
      | plain declarator =>
          obtain ⟨second, others, rfl⟩ := List.exists_cons_of_ne_nil (hPlain declarator rfl)
          rfl
      | assigned declarator hasItems =>
          cases hasItems with
          | true => exact absurd rfl (hAssigned declarator)
          | false =>
              obtain ⟨rfl, rfl⟩ := hEmpty declarator rfl
              rfl

/-- Blocked parts in front do not matter. -/
theorem longest_blocked {inside rest : List Opening} (h : Blocked (rest = []) inside) :
    longest (bestCuts (inside ++ rest)) = longest (bestCuts rest) := by
  rw [bestCuts_blocked h]
  induction inside.length with
  | zero => rfl
  | succ length ih => exact ih

/-- The cuts of declarators: all of them are cut off, and no later cut has as many. -/
structure CutsInto (openings : List Opening) (declarators : List Declarator) : Prop where
  /-- All parts are cut into the declarators. -/
  all : (bestCuts openings).head? = some (some declarators)
  /-- A cut of fewer parts has fewer declarators. -/
  most : longest (bestCuts openings) = some declarators

namespace CutsInto

theorem nil : CutsInto [] [] := ⟨rfl, rfl⟩

section Cons

variable {declarator : Declarator} {opening : Opening} {inside rest : List Opening}
  {declarators : List Declarator}

/-- A declarator in front of others. -/
private theorem of_cutHere {later : List Opening}
    (hHere : cutHere opening (bestCuts later) = some (declarator :: declarators))
    (hLater : longest (bestCuts later) = some declarators) :
    CutsInto (opening :: later) (declarator :: declarators) where
  all := by rw [bestCuts_cons, hHere]; rfl
  most := by
    rw [bestCuts_cons, hHere, longest, hLater]
    simp

/-- **A declarator and the parts of its initializer.** -/
theorem cons (hOpening : opening = .plain declarator ∧ inside = [] ∨
      opening = .assigned declarator true)
    (hInside : Blocked (rest = []) inside) (hRest : CutsInto rest declarators) :
    CutsInto (opening :: (inside ++ rest)) (declarator :: declarators) := by
  have hLater : longest (bestCuts (inside ++ rest)) = some declarators :=
    (longest_blocked hInside).trans hRest.most
  refine of_cutHere ?_ hLater
  rcases hOpening with ⟨rfl, rfl⟩ | rfl
  · obtain ⟨others, hCuts⟩ : ∃ others, bestCuts rest = some declarators :: others := by
      have hHead := hRest.all
      cases hCuts : bestCuts rest with
      | nil => rw [hCuts] at hHead; cases hHead
      | cons first others =>
          rw [hCuts] at hHead
          cases hHead
          exact ⟨others, rfl⟩
    rw [List.nil_append, hCuts]
    rfl
  · rw [cutHere, hLater]
    rfl

/-- **A declarator and an initializer that begins with a comma**, so that nothing of it is left in
the part of the declarator. -/
theorem cons_comma (hInside : Blocked (rest = []) (opening :: inside))
    (hRest : CutsInto rest declarators) :
    CutsInto (.assigned declarator false :: (opening :: inside ++ rest))
      (declarator :: declarators) := by
  refine of_cutHere ?_ ((longest_blocked hInside).trans hRest.most)
  rw [List.cons_append, bestCuts_cons, cutHere, List.drop_one, List.tail_cons,
    longest_blocked hInside.tail, hRest.most]
  rfl

end Cons

/-- The declarators are what is read. -/
theorem readDeclarators {nodes : List Node} {declarators : List Declarator}
    (h : CutsInto ((splitCommas nodes).map openingOf) declarators) :
    readDeclarators nodes = some declarators := by
  have hHead := h.all
  rw [Java.readDeclarators]
  cases hCuts : bestCuts ((splitCommas nodes).map openingOf) with
  | nil => rw [hCuts] at hHead; cases hHead
  | cons first others =>
      rw [hCuts] at hHead
      cases hHead
      rfl

end CutsInto

/-- Cuts of no parts at all are among the cuts. -/
theorem exists_longest_bestCuts (openings : List Opening) :
    ∃ declarators, longest (bestCuts openings) = some declarators := by
  induction openings with
  | nil => exact ⟨[], rfl⟩
  | cons opening rest ih =>
      obtain ⟨declarators, hRest⟩ := ih
      rw [bestCuts_cons]
      cases cutHere opening (bestCuts rest) with
      | none => exact ⟨declarators, hRest⟩
      | some others =>
          rw [longest, hRest]
          dsimp only
          split
          · exact ⟨_, rfl⟩
          · exact ⟨_, rfl⟩

/-! ## Reading declarators -/

section Reading

variable {name : Token} {count : Nat} {dimensions : List Node}

/-- A declarator without an initializer, and nothing behind it. -/
theorem readDeclarators_plain (hName : name.terminal = .identifier)
    (hDimensions : IsDimensions count dimensions) :
    readDeclarators (.word name :: dimensions) = some [⟨name.text, count⟩] := by
  have hWord : (Node.word name).isWord .comma = false := by simp [Node.isWord, hName]
  have hPart := splitCommas_other hWord (splitCommas_singleton hDimensions.not_comma)
  rw [readDeclarators, hPart, List.map_singleton, openingOf_plain hName hDimensions]
  rfl

/-- A declarator without an initializer, and others behind a comma. -/
theorem readDeclarators_comma (hName : name.terminal = .identifier)
    (hDimensions : IsDimensions count dimensions) {comma : Node} (hComma : comma.isWord .comma = true)
    {behind : List Node} {declarators : List Declarator}
    (hBehind : readDeclarators behind = some declarators) :
    readDeclarators (.word name :: (dimensions ++ comma :: behind)) =
      some (⟨name.text, count⟩ :: declarators) := by
  have hWord : (Node.word name).isWord .comma = false := by simp [Node.isWord, hName]
  have hPart := splitCommas_other hWord (splitCommas_singleton hDimensions.not_comma)
  have hSplit := splitCommas_append (.word name :: dimensions) hComma behind
  rw [List.cons_append, hPart] at hSplit
  rw [readDeclarators, hSplit, List.singleton_append, List.map_cons,
    openingOf_plain hName hDimensions, bestCuts_cons, cutHere]
  rw [readDeclarators] at hBehind
  rw [hBehind]
  rfl

/-- A declarator with an initializer, whatever that holds. -/
theorem exists_readDeclarators_assigned (hName : name.terminal = .identifier)
    (hDimensions : IsDimensions count dimensions) {equal : Token}
    (hEqual : equal.terminal = .equalSign) {items : List Node} (hItems : items ≠ []) :
    ∃ declarators, readDeclarators (.word name :: (dimensions ++ .word equal :: items)) =
      some (⟨name.text, count⟩ :: declarators) := by
  obtain ⟨part, parts, hSplit⟩ := List.exists_cons_of_ne_nil (splitCommas_ne_nil items)
  have hAll : splitCommas (.word name :: (dimensions ++ .word equal :: items)) =
      (.word name :: (dimensions ++ .word equal :: part)) :: parts :=
    splitCommas_other (by simp [Node.isWord, hName]) (splitCommas_front hDimensions.not_comma
      (splitCommas_other (by simp [Node.isWord, hEqual]) hSplit))
  have hCut : ∃ declarators, cutHere (.assigned ⟨name.text, count⟩ (!part.isEmpty))
      (bestCuts (parts.map openingOf)) = some (⟨name.text, count⟩ :: declarators) := by
    cases part with
    | cons item part =>
        obtain ⟨declarators, hLongest⟩ := exists_longest_bestCuts (parts.map openingOf)
        exact ⟨declarators, by simp [cutHere, hLongest]⟩
    | nil =>
        rcases splitCommas_cases hSplit with ⟨_, rfl⟩ | ⟨hParts, _⟩
        · exact absurd rfl hItems
        · obtain ⟨second, others, rfl⟩ := List.exists_cons_of_ne_nil hParts
          obtain ⟨declarators, hLongest⟩ := exists_longest_bestCuts (others.map openingOf)
          exact ⟨declarators, by simp [cutHere, bestCuts_cons, hLongest]⟩
  obtain ⟨declarators, hCut⟩ := hCut
  refine ⟨declarators, ?_⟩
  rw [readDeclarators, hAll, List.map_cons, openingOf_assigned hName hDimensions hEqual,
    bestCuts_cons, hCut]
  rfl

end Reading

end ClassSchema.Java
