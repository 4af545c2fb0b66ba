/-!
# Maps in insertion order

The members of a JSON object are kept in the order in which their names first
appeared.  Writing a name again replaces its value where it stands: a repeated
name keeps its first place and takes its last value.  Any type with decidable
equality can serve as names.

## Main results

* `OrderedMap.get?_put`: a write is seen by the next look-up of its name and by
  no other.
* `OrderedMap.keys_put`: a write adds its name at the end unless it is there.
-/

namespace ClassSchema

/-- Names with their values, in the order of first appearance. -/
abbrev OrderedMap (α : Type) (κ : Type := String) := List (κ × α)

namespace OrderedMap

variable {α κ : Type} [DecidableEq κ]

/-- The value of a name. -/
def get? (map : OrderedMap α κ) (name : κ) : Option α :=
  match map with
  | [] => none
  | (key, value) :: rest => if key = name then some value else get? rest name

/-- Sets the value of a name, at the end if the name is new. -/
def put (name : κ) (value : α) : OrderedMap α κ → OrderedMap α κ
  | [] => [(name, value)]
  | (key, old) :: rest =>
      if key = name then (key, value) :: rest else (key, old) :: put name value rest

/-- The names in order. -/
def keys {α κ : Type} (map : OrderedMap α κ) : List κ := map.map (·.1)

/-- The map that results from writing pairs one after the other. -/
def ofPairs (pairs : List (κ × α)) : OrderedMap α κ :=
  pairs.foldl (fun map pair => put pair.1 pair.2 map) []

@[simp] theorem get?_nil (name : κ) : get? ([] : OrderedMap α κ) name = none := rfl

/-- A write is seen by the look-ups of its name and by no other. -/
theorem get?_put (map : OrderedMap α κ) (name other : κ) (value : α) :
    (put name value map).get? other = if name = other then some value else map.get? other := by
  induction map with
  | nil => rfl
  | cons pair rest ih =>
      obtain ⟨key, old⟩ := pair
      by_cases hKey : key = name
      · subst hKey
        by_cases hOther : key = other <;> simp [put, get?, hOther]
      · by_cases hOther : key = other
        · subst hOther
          simp [put, get?, hKey, Ne.symm hKey]
        · simp [put, get?, hKey, hOther, ih]

/-- A write leaves the names alone, or adds its own at the end. -/
theorem keys_put (map : OrderedMap α κ) (name : κ) (value : α) :
    (put name value map).keys = if name ∈ map.keys then map.keys else map.keys ++ [name] := by
  induction map with
  | nil => rfl
  | cons pair rest ih =>
      obtain ⟨key, old⟩ := pair
      by_cases hKey : key = name
      · simp [put, keys, hKey]
      · have ih' : List.map (·.1) (put name value rest) =
            if name ∈ rest.map (·.1) then rest.map (·.1) else rest.map (·.1) ++ [name] := ih
        simp only [put, if_neg hKey, keys, List.map_cons, ih', List.mem_cons, Ne.symm hKey,
          false_or]
        split <;> rfl

end OrderedMap

end ClassSchema
