import Mathlib.Data.List.Forall2

/-!
# Steps that can fail

A step comes to a result or to an error.  Steps one behind the other come to a result if
each of them does, and end with the first error.

## Main results

* `bind_eq_ok_iff`, `bind_eq_error_iff`: what two steps come to.
* `mapM_eq_ok_iff`, `mapM_eq_error_iff`: what the same step comes to for all items of a
  list.
-/

namespace ClassSchema

variable {α β γ ε : Type}

/-! ## Two steps -/

theorem bind_eq_ok_iff {result : Except ε α} {next : α → Except ε β} {value : β} :
    (result >>= next) = .ok value ↔ ∃ first, result = .ok first ∧ next first = .ok value := by
  cases result <;> simp [bind, Except.bind]

theorem bind_eq_error_iff {result : Except ε α} {next : α → Except ε β} {error : ε} :
    (result >>= next) = .error error ↔
      result = .error error ∨ ∃ first, result = .ok first ∧ next first = .error error := by
  cases result <;> simp [bind, Except.bind]

theorem map_eq_ok_iff {result : Except ε α} {f : α → β} {value : β} :
    result.map f = .ok value ↔ ∃ first, result = .ok first ∧ f first = value := by
  cases result <;> simp [Except.map]

theorem isOk_map (f : α → β) (result : Except ε α) : (result.map f).isOk = result.isOk := by
  cases result <;> rfl

theorem exists_ok_of_isOk {result : Except ε α} (h : result.isOk = true) :
    ∃ value, result = .ok value := by
  cases result with
  | error e => cases h
  | ok value => exact ⟨value, rfl⟩

/-! ## One step for each item -/

/-- All items of a list come to a result if each of them does. -/
theorem mapM_eq_ok_iff {read : α → Except ε β} {items : List α} {results : List β} :
    items.mapM read = .ok results ↔
      List.Forall₂ (fun item result => read item = .ok result) items results := by
  induction items generalizing results with
  | nil => simp [pure, Except.pure, eq_comm]
  | cons item rest ih =>
      rw [List.mapM_cons, List.forall₂_cons_left_iff]
      simp [bind_eq_ok_iff, ih, pure, Except.pure, @eq_comm _ results]

/-- Items that are written so as to come to known results come to these. -/
theorem mapM_map_eq_ok {read : β → Except ε γ} {write : α → β} {result : α → γ} {items : List α}
    (h : ∀ item ∈ items, read (write item) = .ok (result item)) :
    (items.map write).mapM read = .ok (items.map result) := by
  rw [mapM_eq_ok_iff, List.forall₂_map_left_iff, List.forall₂_map_right_iff]
  exact List.forall₂_same.mpr h

/-- **The first item that is refused ends the reading of a list.**  The items in front of it are
read, and those behind it do not matter. -/
theorem mapM_eq_error_iff {read : α → Except ε β} {items : List α} {error : ε} :
    items.mapM read = .error error ↔ ∃ before item behind, items = before ++ item :: behind ∧
      (∀ other ∈ before, ∃ result, read other = .ok result) ∧ read item = .error error := by
  induction items with
  | nil => simp [pure, Except.pure]
  | cons item rest ih =>
      have hCons : (item :: rest).mapM read = .error error ↔ read item = .error error ∨
          (∃ first, read item = .ok first) ∧ rest.mapM read = .error error := by
        simp [List.mapM_cons, bind_eq_error_iff, pure, Except.pure]
      rw [hCons, ih]
      constructor
      · rintro (hRefused | ⟨hItem, before, refused, behind, rfl, each, hRefused⟩)
        · exact ⟨[], item, rest, rfl, by simp, hRefused⟩
        · refine ⟨item :: before, refused, behind, rfl, ?_, hRefused⟩
          exact List.forall_mem_cons.mpr ⟨hItem, each⟩
      · rintro ⟨before, refused, behind, hItems, each, hRefused⟩
        cases before with
        | nil =>
            obtain ⟨rfl, rfl⟩ := List.cons.inj hItems
            exact .inl hRefused
        | cons first before =>
            obtain ⟨rfl, rfl⟩ := List.cons.inj hItems
            obtain ⟨hFirst, others⟩ := List.forall_mem_cons.mp each
            exact .inr ⟨hFirst, before, refused, behind, rfl, others, hRefused⟩

end ClassSchema
