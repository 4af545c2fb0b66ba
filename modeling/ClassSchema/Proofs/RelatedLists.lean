import Mathlib.Data.List.Forall2
import Mathlib.Tactic.Tauto

/-!
# Related lists

Two lists are related if they have the same length and their items are related one by one.

## Main results

* `exists_result`, `exists_item`: an item and its result stand at the same place.
* `exists_forall₂`, `forall₂_and_right`: what is known of each result.
-/

namespace ClassSchema

variable {α β : Type} {r : α → β → Prop} {items : List α} {results : List β}

/-- An item has its result at the same place. -/
theorem exists_result (h : List.Forall₂ r items results) {index : Nat} {item : α}
    (hItem : items[index]? = some item) :
    ∃ result, results[index]? = some result ∧ r item result := by
  induction h generalizing index with
  | nil => cases hItem
  | cons hFirst _ ih =>
      cases index with
      | zero => exact ⟨_, rfl, Option.some.inj hItem ▸ hFirst⟩
      | succ index => exact ih hItem

/-- A result has its item at the same place. -/
theorem exists_item (h : List.Forall₂ r items results) {index : Nat} {result : β}
    (hResult : results[index]? = some result) :
    ∃ item, items[index]? = some item ∧ r item result :=
  exists_result h.flip hResult

/-- Each item of a list has a result. -/
theorem exists_of_forall₂ (h : List.Forall₂ r items results) {item : α} (mem : item ∈ items) :
    ∃ result, r item result := by
  obtain ⟨index, hItem⟩ := List.mem_iff_getElem?.mp mem
  obtain ⟨result, _, hResult⟩ := exists_result h hItem
  exact ⟨result, hResult⟩

/-- What holds of some result for each item holds of a list of results. -/
theorem exists_forall₂ (h : ∀ item ∈ items, ∃ result, r item result) :
    ∃ results, List.Forall₂ r items results := by
  induction items with
  | nil => exact ⟨[], .nil⟩
  | cons item rest ih =>
      obtain ⟨first, hFirst⟩ := h item (by simp)
      obtain ⟨others, hOthers⟩ := ih fun other mem => h other (by simp [mem])
      exact ⟨first :: others, .cons hFirst hOthers⟩

/-- A property of results can be told apart from what relates them to the items. -/
theorem forall₂_and_right {p : β → Prop} :
    List.Forall₂ (fun item result => r item result ∧ p result) items results ↔
      List.Forall₂ r items results ∧ ∀ result ∈ results, p result := by
  induction items generalizing results with
  | nil => cases results <;> simp
  | cons item rest ih =>
      cases results with
      | nil => simp
      | cons result others =>
          simp only [List.forall₂_cons, ih, List.forall_mem_cons]
          tauto

end ClassSchema
