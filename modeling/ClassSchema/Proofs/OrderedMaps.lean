import ClassSchema.OrderedMap
import Mathlib.Data.List.Basic

/-!
# Writing to maps in insertion order

A write either changes the value of a name where it stands or goes to the end.  So what is in a
map behind a write is the pair that was written or was in the map before, and a map that is
written pair by pair holds each name once.

## Main results

* `OrderedMap.put_of_notMem`: a new name goes to the end.
* `OrderedMap.mem_put`: what is in a map behind a write, if its names are distinct.
* `OrderedMap.ofPairs_of_nodup`: pairs with distinct names are a map as they are.
* `OrderedMap.nodup_keys_ofPairs`: the names of a map are distinct.
-/

namespace ClassSchema.OrderedMap

variable {α κ : Type} [DecidableEq κ] {map : OrderedMap α κ} {name : κ} {value : α}

/-! ## Looking up -/

/-- What is found under a name stands in the map. -/
theorem mem_of_get?_eq_some (h : map.get? name = some value) : (name, value) ∈ map := by
  induction map with
  | nil => cases h
  | cons pair rest ih =>
      obtain ⟨key, first⟩ := pair
      rw [get?] at h
      split at h
      · next hKey =>
          cases h
          exact hKey ▸ List.mem_cons_self
      · exact List.mem_cons_of_mem _ (ih h)

/-- What stands in a map with distinct names is found. -/
theorem get?_eq_some_of_mem (nodup : map.keys.Nodup) (h : (name, value) ∈ map) :
    map.get? name = some value := by
  induction map with
  | nil => cases h
  | cons pair rest ih =>
      obtain ⟨key, first⟩ := pair
      obtain ⟨new, hRest⟩ := List.nodup_cons.mp nodup
      rcases List.mem_cons.mp h with hFirst | hMem
      · cases hFirst
        rw [get?, if_pos rfl]
      · have hKey : key ≠ name := by
          rintro rfl
          exact new (List.mem_map.mpr ⟨_, hMem, rfl⟩)
        rw [get?, if_neg hKey, ih hRest hMem]

/-- Under each name of a map something is found. -/
theorem notMem_keys_of_get?_eq_none (h : map.get? name = none) : name ∉ map.keys := by
  induction map with
  | nil => simp [keys]
  | cons pair rest ih =>
      obtain ⟨key, first⟩ := pair
      rw [get?] at h
      split at h
      · cases h
      · next hKey =>
          rw [keys, List.map_cons, List.mem_cons, not_or]
          exact ⟨Ne.symm hKey, ih h⟩

/-! ## One write -/

/-- A map with a name in it is not empty. -/
theorem put_ne_nil (map : OrderedMap α κ) (name : κ) (value : α) : put name value map ≠ [] := by
  cases map with
  | nil => simp [put]
  | cons pair rest =>
      unfold put
      split <;> simp

/-- A new name goes to the end. -/
theorem put_of_notMem (h : name ∉ map.keys) (value : α) :
    put name value map = map ++ [(name, value)] := by
  induction map with
  | nil => rfl
  | cons pair rest ih =>
      obtain ⟨key, old⟩ := pair
      obtain ⟨hKey, hRest⟩ := List.ne_and_not_mem_of_not_mem_cons h
      rw [put, if_neg (Ne.symm hKey), ih hRest, List.cons_append]

/-- A value that is in a map was put there. -/
theorem mem_or_mem_of_mem_put {pair : κ × α} (h : pair ∈ put name value map) :
    pair = (name, value) ∨ pair ∈ map := by
  induction map with
  | nil => exact .inl (List.mem_singleton.mp h)
  | cons first rest ih =>
      obtain ⟨key, old⟩ := first
      rw [put] at h
      split at h
      · next hSame =>
          rcases List.mem_cons.mp h with rfl | hRest
          · exact .inl (by rw [hSame])
          · exact .inr (List.mem_cons_of_mem _ hRest)
      · rcases List.mem_cons.mp h with rfl | hRest
        · exact .inr List.mem_cons_self
        · exact (ih hRest).imp_right (List.mem_cons_of_mem _)

theorem nodup_keys_put (h : map.keys.Nodup) (name : κ) (value : α) :
    (put name value map).keys.Nodup := by
  rw [keys_put]
  split
  · exact h
  · next new =>
      rw [List.nodup_append]
      refine ⟨h, by simp, ?_⟩
      rintro old hOld other hOther rfl
      exact new (List.mem_singleton.mp hOther ▸ hOld)

/-- What is in a map behind a write: the value that was written, or what was there under another
name. -/
theorem mem_put (nodup : map.keys.Nodup) {other : κ} {found : α}
    (h : (other, found) ∈ put name value map) :
    (name = other ∧ found = value) ∨ (name ≠ other ∧ (other, found) ∈ map) := by
  have hFound := get?_eq_some_of_mem (nodup_keys_put nodup name value) h
  rw [get?_put] at hFound
  split at hFound
  · next hName => exact .inl ⟨hName, (Option.some.inj hFound).symm⟩
  · next hName => exact .inr ⟨hName, mem_of_get?_eq_some hFound⟩

/-! ## Pair by pair -/

private theorem foldl_put_of_nodup (pairs : List (κ × α)) {map : OrderedMap α κ}
    (h : (map ++ pairs).keys.Nodup) :
    pairs.foldl (fun map pair => put pair.1 pair.2 map) map = map ++ pairs := by
  induction pairs generalizing map with
  | nil => simp
  | cons pair rest ih =>
      have new : pair.1 ∉ map.keys := by
        intro hOld
        rw [keys, List.map_append, List.nodup_append] at h
        exact h.2.2 _ hOld _ (by simp) rfl
      rw [List.foldl_cons, put_of_notMem new, ih (by simpa using h)]
      simp

/-- **Pairs with distinct names are a map as they are.** -/
theorem ofPairs_of_nodup {pairs : List (κ × α)} (h : (keys pairs).Nodup) : ofPairs pairs = pairs :=
  foldl_put_of_nodup pairs h

/-- What holds of a map from the start on, and is kept by writing each of the pairs, holds at the
end. -/
private theorem foldl_put_induction {motive : OrderedMap α κ → Prop} (pairs : List (κ × α))
    (step : ∀ map, ∀ pair ∈ pairs, motive map → motive (put pair.1 pair.2 map))
    {map : OrderedMap α κ} (start : motive map) :
    motive (pairs.foldl (fun map pair => put pair.1 pair.2 map) map) := by
  induction pairs generalizing map with
  | nil => exact start
  | cons pair rest ih =>
      exact ih (fun map other mem => step map other (List.mem_cons_of_mem _ mem))
        (step map pair List.mem_cons_self start)

/-- **The names of a map are distinct.** -/
theorem nodup_keys_ofPairs (pairs : List (κ × α)) : (ofPairs pairs).keys.Nodup :=
  foldl_put_induction (motive := fun map => map.keys.Nodup) pairs
    (fun _ _ _ nodup => nodup_keys_put nodup _ _) List.nodup_nil

/-- What is in a map is one of the pairs it was made of. -/
theorem mem_of_mem_ofPairs {pairs : List (κ × α)} {pair : κ × α} (h : pair ∈ ofPairs pairs) :
    pair ∈ pairs :=
  foldl_put_induction (motive := fun map => pair ∈ map → pair ∈ pairs) pairs
    (fun _ _ mem ih hPair => (mem_or_mem_of_mem_put hPair).elim (· ▸ mem) ih) (by simp) h

end ClassSchema.OrderedMap
