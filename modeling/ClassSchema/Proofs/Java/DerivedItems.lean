import ClassSchema.Proofs.Java.ItemShapes
import ClassSchema.Proofs.Java.Meaning

/-!
# The items of a derivation

A header can be read off its outline part by part, since each part of a derivation
puts items of its own.  A group is a single item, and so is an annotation with what is
in its parentheses; every other part puts the items of its own parts, in order.

## Main results

* `Derivation.outline_tokens`: the outline of a header is the items of its derivation.
* `Derivation.values_modifiers`: modifiers are read as what they mean.
-/

namespace ClassSchema.Java

/-- Whether what a rule stands for is a single item. -/
def Rule.isItem : Rule → Bool
  | annotationUse | parenGroup | block | classBody | enumBody => true
  | _ => false

namespace Derivation

/-- The items of a derivation, each part by itself. -/
@[simp] def nodes {e : Expr} : Derivation e → List Node
  | terminal token _ => [.word token]
  | @rule r body => if r.isItem then outline body.tokens else body.nodes
  | sequence front back => front.nodes ++ back.nodes
  | left chosen => chosen.nodes
  | right chosen => chosen.nodes
  | absent => []
  | present one => one.nodes
  | none => []
  | more one others => one.nodes ++ others.nodes

/-- **Where a joint is kept, tokens put the items of their derivation.** -/
theorem behind_tokens {e : Expr} (d : Derivation e) {joint left : Joint}
    (hFlow : e.flow joint = some left) {level : List Node} (hLevel : joint.Holds level) :
    behind level d.tokens = d.nodes.reverse ++ level := by
  induction d generalizing joint left level with
  | @terminal t token h =>
      subst h
      obtain ⟨hPush, _, _⟩ := Terminal.flow_sound hFlow hLevel
      rw [tokens, behind_other (Terminal.flow_cases hFlow).1, behind_nil, hPush]
      rfl
  | @rule r body ih =>
      simp only [Expr.flow] at hFlow
      split at hFlow
      · cases hFlow
      · next hJoint =>
          by_cases hAnnotation : r = .annotationUse
          · subst hAnnotation
            obtain ⟨start, isOpen, hBehind⟩ := annotationUse_behind (rule body).yields
            have hItem : outline body.tokens = [.annotationUse start isOpen] := by
              rw [outline_eq_reverse, show behind [] body.tokens = _ from hBehind []]
              rfl
            rw [hBehind, nodes, if_pos (by rfl), hItem]
            rfl
          · have hNoItem : r.isItem = false := by
              cases r <;> first | rfl | exact absurd rfl hAnnotation | cases hFlow
            rw [tokens, nodes, if_neg (by simp [hNoItem])]
            exact ih (Rule.flow_body hAnnotation hJoint hFlow) hLevel
  | sequence front back ihFront ihBack =>
      obtain ⟨between, hFront, hBack⟩ := Option.bind_eq_some_iff.mp hFlow
      have hQuiet := front.yields.quiet hFront
      obtain ⟨_, _, _, hBetween⟩ := hQuiet.items level hLevel
      rw [tokens, behind_append hQuiet.balanced, ihBack hBack hBetween, ihFront hFront hLevel,
        nodes, List.reverse_append, List.append_assoc]
  | left chosen ih =>
      obtain ⟨behindLeft, hLeft, _⟩ := Option.bind_eq_some_iff.mp hFlow
      exact ih hLeft hLevel
  | right chosen ih =>
      obtain ⟨behindLeft, _, hRest⟩ := Option.bind_eq_some_iff.mp hFlow
      obtain ⟨behindRight, hRight, rfl⟩ := Option.map_eq_some_iff.mp hRest
      exact ih hRight hLevel
  | absent | none => rw [tokens, behind_nil]; rfl
  | present one ih =>
      obtain ⟨behindPart, hPart, _⟩ := Option.map_eq_some_iff.mp hFlow
      exact ih hPart hLevel
  | @more part one others ihOne ihOthers =>
      obtain ⟨⟨behindOne, hJoin⟩, hPart, hMany⟩ := Expr.flow_many hFlow
      have hLeft : left.Holds level := by
        rw [hJoin]
        exact Joint.holds_join_left hLevel
      obtain ⟨between, hOne, hWeaker⟩ : ∃ between, part.flow left = some between ∧
          ∀ level, between.Holds level → left.Holds level := by
        rcases hPart with hSame | hClosed
        · exact ⟨left, hSame, fun _ h => h⟩
        · exact ⟨.closed, hClosed, fun _ => Joint.holds_of_closed⟩
      have hQuiet := one.yields.quiet hOne
      obtain ⟨_, _, _, hBetween⟩ := hQuiet.items level hLeft
      rw [tokens, behind_append hQuiet.balanced, ihOthers hMany (hWeaker _ hBetween),
        ihOne hOne hLeft, nodes, List.reverse_append, List.append_assoc]

/-- The outline of a header is the items of its derivation. -/
theorem outline_tokens {e : Expr} (d : Derivation e) {left : Joint}
    (hFlow : e.flow .closed = some left) : outline d.tokens = d.nodes := by
  have hEmpty : Joint.closed.Holds [] := rfl
  have hBehind := d.behind_tokens hFlow hEmpty
  rw [List.append_nil] at hBehind
  rw [outline_eq_reverse, hBehind, List.reverse_reverse]

/-- What follows a header puts its own items. -/
theorem outline_append {e : Expr} (d : Derivation e) (hFlow : e.flow .closed = some .closed)
    {rest : List Token} (hRest : Balanced (terminals rest)) :
    outline (d.tokens ++ rest) = d.nodes ++ outline rest := by
  have hQuiet := d.yields.quiet hFlow
  rw [Java.outline_append hQuiet.balanced hQuiet.outline_items.2 hRest, d.outline_tokens hFlow]

end Derivation

/-! ## Annotations -/

/-- Values that are not picked can be left out. -/
theorem findSome?_append_of_none {α β : Type} {pick : α → Option β} {front : List α}
    (h : ∀ a ∈ front, pick a = none) (back : List α) :
    (front ++ back).findSome? pick = back.findSome? pick := by
  rw [List.findSome?_append, List.findSome?_eq_none_iff.mpr h, Option.none_or]

/-- What means nothing is not picked. -/
theorem Value.not_picked {α : Type} {pick : Value → Option α} (h : pick .nothing = none)
    {values : List Value} (nothing : ∀ value ∈ values, value = .nothing) :
    ∀ value ∈ values, pick value = none := by
  intro value mem
  rw [nothing value mem, h]

namespace Derivation

theorem nodes_annotationUse (d : Derivation (.rule .annotationUse)) :
    ∃ start isOpen, d.nodes = [.annotationUse start isOpen] := by
  obtain ⟨start, isOpen, hBehind⟩ := annotationUse_behind d.yields
  refine ⟨start, isOpen, ?_⟩
  rw [← d.outline_tokens (show Expr.flow (.rule .annotationUse) .closed = some .annotated from rfl),
    outline_eq_reverse, hBehind]
  rfl

/-- Annotations are items of their own and mean nothing. -/
theorem values_annotations (d : Derivation (.many (.rule .annotationUse))) :
    ∃ values, d.values = some values ∧ (∀ value ∈ values, value = .nothing) ∧
      ∀ node ∈ d.nodes, node.isUse = true := by
  induction d using many_induction with
  | none => exact ⟨[], rfl, by simp, by simp⟩
  | more one others ih =>
      obtain ⟨values, hValues, nothing, uses⟩ := ih
      obtain ⟨start, isOpen, hNode⟩ := one.nodes_annotationUse
      have hOne : one.values = some [.nothing] := one.values_of_isPassed rfl
      refine ⟨.nothing :: values, values_more hOne hValues, by simpa using nothing, ?_⟩
      rw [Derivation.nodes, hNode]
      exact List.forall_mem_cons.mpr ⟨rfl, uses⟩

end Derivation

/-! ## Modifiers -/

/-- Whether a value comes from a modifier or from an annotation. -/
def Value.isModifier : Value → Bool
  | token found => found.terminal = .modifier || found.terminal = .staticWord
  | nothing => true
  | _ => false

/-- Modifiers are picked only by what picks their words. -/
theorem Value.not_picked_of_isModifier {α : Type} {pick : Value → Option α}
    (hNothing : pick .nothing = none)
    (hWord : ∀ token : Token, token.terminal = .modifier ∨ token.terminal = .staticWord →
      pick (.token token) = none)
    {marks : List Value} (h : ∀ value ∈ marks, value.isModifier = true) :
    ∀ value ∈ marks, pick value = none := by
  intro value mem
  have hMark := h value mem
  cases value with
  | token token => exact hWord token (by simpa [isModifier] using hMark)
  | nothing => exact hNothing
  | _ => cases hMark

namespace Derivation

/-- Modifiers are read as what they mean. -/
theorem values_modifiers (d : Derivation (.rule .modifiers)) :
    ∃ values, d.values = some values ∧ (∀ value ∈ values, value.isModifier = true) ∧
      ∀ rest, readModifiers (d.nodes ++ rest) =
        (values.filterMap Value.modifier? ++ (readModifiers rest).1, (readModifiers rest).2) := by
  obtain ⟨body, rfl⟩ := d.exists_rule
  have hAll : ∀ body : Derivation (.many
        (Expr.oneOf [.rule .annotationUse, .terminal .modifier] (.terminal .staticWord))),
      ∃ values, body.values = some values ∧ (∀ value ∈ values, value.isModifier = true) ∧
        ∀ rest, readModifiers (body.nodes ++ rest) =
          (values.filterMap Value.modifier? ++ (readModifiers rest).1,
            (readModifiers rest).2) := by
    intro body
    induction body using many_induction with
    | none => exact ⟨[], rfl, by simp, by simp⟩
    | more one others ih =>
        obtain ⟨values, hValues, each, hRead⟩ := ih
        rcases one.choice_cases with ⟨use, rfl⟩ | ⟨word, rfl⟩
        · obtain ⟨start, isOpen, hNode⟩ := use.nodes_annotationUse
          have hUse : use.values = some [.nothing] := use.values_of_isPassed rfl
          refine ⟨.nothing :: values, values_more (values_left hUse) hValues, ?_, fun rest => ?_⟩
          · exact List.forall_mem_cons.mpr ⟨rfl, each⟩
          · show readModifiers (use.nodes ++ others.nodes ++ rest) = _
            rw [hNode]
            exact hRead rest
        · obtain ⟨token, hToken, hWord, hNode⟩ : ∃ token, (token.terminal = .modifier ∨
              token.terminal = .staticWord) ∧ word.values = some [.token token] ∧
                word.nodes = [.word token] := by
            rcases word.choice_cases with ⟨word, rfl⟩ | ⟨word, rfl⟩
            · obtain ⟨token, hToken, rfl⟩ := word.exists_terminal
              exact ⟨token, .inl hToken, values_kept hToken rfl, rfl⟩
            · obtain ⟨token, hToken, rfl⟩ := word.exists_terminal
              exact ⟨token, .inr hToken, values_kept hToken rfl, rfl⟩
          refine ⟨.token token :: values, values_more (values_right hWord) hValues, ?_, fun rest => ?_⟩
          · exact List.forall_mem_cons.mpr ⟨by simpa [Value.isModifier] using hToken, each⟩
          · show readModifiers (word.nodes ++ others.nodes ++ rest) = _
            rw [hNode, List.singleton_append, List.cons_append, readModifiers, if_pos hToken,
              hRead]
            simp [Value.modifier?, hToken]
  obtain ⟨values, hValues, each, hRead⟩ := hAll body
  exact ⟨values, values_rule hValues rfl, each, hRead⟩

end Derivation

end ClassSchema.Java
