import ClassSchema.Proofs.Model.Encoding

/-!
# What references mean

A document refers to its classes by names.  A reference means the last class that has it
as its key or, where no class has, the first class that has it as its simple name.  This
is said of a list of classes alone, and the table of numbers that reading builds agrees
with it.

## Main results

* `Model.Means.unique`: a reference means at most one class.
* `Model.exists_means_iff`: it means one if some class has the name.
* `Model.get?_numbersOf_eq_some_iff`: the table leads to what references mean.
-/

namespace ClassSchema

namespace Model

/-- A class has a name, be it its key or its simple name. -/
def Bears (entity : Entity) (name : String) : Prop :=
  entity.key = .str name ∨ entity.simpleName = name

/-- What a reference means: the last class that has it as its key or, where no class has, the first
one that has it as its simple name. -/
inductive Means (entities : List Entity) (reference : String) (number : Nat) : Prop
  | byKey {entity : Entity} : entities[number]? = some entity → entity.key = .str reference →
      (∀ later other, number < later → entities[later]? = some other →
        other.key ≠ .str reference) → Means entities reference number
  | bySimpleName {entity : Entity} : entities[number]? = some entity →
      entity.simpleName = reference →
      (∀ earlier other, earlier < number → entities[earlier]? = some other →
        other.simpleName ≠ reference) →
      (∀ other ∈ entities, other.key ≠ .str reference) → Means entities reference number

variable {entities : List Entity} {reference : String} {number : Nat}

/-- A reference means at most one class. -/
theorem Means.unique {other : Nat} (h : Means entities reference number)
    (h' : Means entities reference other) : number = other := by
  rcases h with ⟨found, hKey, last⟩ | ⟨found, hSimple, first, noKey⟩
  · rcases h' with ⟨found', hKey', last'⟩ | ⟨_, _, _, noKey'⟩
    · rcases Nat.lt_trichotomy number other with hLess | hSame | hMore
      · exact absurd hKey' (last other _ hLess found')
      · exact hSame
      · exact absurd hKey (last' number _ hMore found)
    · exact absurd hKey (noKey' _ (List.mem_of_getElem? found))
  · rcases h' with ⟨found', hKey', _⟩ | ⟨found', hSimple', first', _⟩
    · exact absurd hKey' (noKey _ (List.mem_of_getElem? found'))
    · rcases Nat.lt_trichotomy number other with hLess | hSame | hMore
      · exact absurd hSimple (first' number _ hLess found)
      · exact hSame
      · exact absurd hSimple' (first other _ hMore found')

theorem Means.lt_length (h : Means entities reference number) : number < entities.length := by
  cases h with
  | byKey found | bySimpleName found => exact (List.getElem?_eq_some_iff.mp found).1

/-- A class with another key does not change what a reference means. -/
theorem Means.concat {newest : Entity} (other : newest.key ≠ .str reference)
    (h : Means entities reference number) : Means (entities ++ [newest]) reference number := by
  have hNumber := h.lt_length
  cases h with
  | byKey found hKey last =>
      refine .byKey (by rw [List.getElem?_append_left hNumber, found]) hKey ?_
      intro later entity hLater hFound hSame
      by_cases hLength : later < entities.length
      · rw [List.getElem?_append_left hLength] at hFound
        exact last later entity hLater hFound hSame
      · rw [List.getElem?_append_right (Nat.le_of_not_lt hLength)] at hFound
        obtain rfl := List.mem_singleton.mp (List.mem_of_getElem? hFound)
        exact other hSame
  | bySimpleName found hSimple first noKey =>
      refine .bySimpleName (by rw [List.getElem?_append_left hNumber, found]) hSimple ?_ ?_
      · intro earlier entity hEarlier hFound
        rw [List.getElem?_append_left (Nat.lt_trans hEarlier hNumber)] at hFound
        exact first earlier entity hEarlier hFound
      · intro entity mem
        rcases List.mem_append.mp mem with mem | mem
        · exact noKey entity mem
        · rw [List.mem_singleton.mp mem]
          exact other

/-- A class is entered under its simple name only where that is free. -/
theorem get?_enter_of_ne {numbers : OrderedMap Nat} {entity : Entity} {name : String}
    (other : entity.key ≠ .str name) :
    (enter numbers number entity).get? name =
      (numbers.get? name).or (if entity.simpleName = name then some number else none) := by
  cases hName : numbers.get? name with
  | some known => exact get?_enter_of_get? hName number other
  | none =>
      have keyed : ∀ known : OrderedMap Nat, known.get? name = none →
          (if (known.get? entity.simpleName).isSome then known
            else known.put entity.simpleName number).get? name =
          if entity.simpleName = name then some number else none := by
        intro known hKnown
        by_cases hSimple : entity.simpleName = name
        · simp [hSimple, hKnown, OrderedMap.get?_put]
        · split <;> simp [OrderedMap.get?_put, hSimple, hKnown]
      unfold enter
      cases hText : entity.key with
      | str key =>
          have hNe : key ≠ name := fun hSame => other (hSame ▸ hText)
          exact keyed _ (by rw [OrderedMap.get?_put, if_neg hNe, hName])
      | _ => exact keyed numbers hName

/-- A reference leads nowhere where no class has the name. -/
theorem get?_numbersOf_eq_none_iff :
    (numbersOf entities).get? reference = none ↔ ∀ entity ∈ entities, ¬ Bears entity reference := by
  induction entities using List.reverseRecOn with
  | nil => simp [numbersOf]
  | append_singleton entities newest ih =>
      rw [numbersOf_concat]
      by_cases hKey : newest.key = .str reference
      · simp [get?_enter_key _ _ hKey, Bears, hKey]
      · simp only [get?_enter_of_ne hKey, List.mem_append, List.mem_singleton, or_imp, forall_and,
          forall_eq, ← ih]
        by_cases hSimple : newest.simpleName = reference <;> simp [hSimple, hKey, Bears]

/-- The table for references leads to what they mean. -/
theorem means_of_get? (h : (numbersOf entities).get? reference = some number) :
    Means entities reference number := by
  induction entities using List.reverseRecOn with
  | nil => simp [numbersOf] at h
  | append_singleton entities newest ih =>
      rw [numbersOf_concat] at h
      -- the newest class takes the name over by its key, and by its simple name if that is free
      by_cases hKey : newest.key = .str reference
      · obtain rfl : entities.length = number := by simpa [get?_enter_key _ _ hKey] using h
        refine .byKey (by simp) hKey fun later other hLater hFound => ?_
        have hLength := (List.getElem?_eq_some_iff.mp hFound).1
        simp at hLength
        omega
      · rw [get?_enter_of_ne hKey] at h
        cases hKnown : (numbersOf entities).get? reference with
        | some known =>
            obtain rfl : known = number := by simpa [hKnown] using h
            exact (ih hKnown).concat hKey
        | none =>
            obtain ⟨hSimple, rfl⟩ : newest.simpleName = reference ∧ entities.length = number := by
              simpa [hKnown] using h
            have none := get?_numbersOf_eq_none_iff.mp hKnown
            refine .bySimpleName (by simp) hSimple ?_ ?_
            · intro earlier other hEarlier hFound hSame
              rw [List.getElem?_append_left hEarlier] at hFound
              exact none other (List.mem_of_getElem? hFound) (.inr hSame)
            · intro other mem hSame
              rcases List.mem_append.mp mem with mem | mem
              · exact none other mem (.inl hSame)
              · exact hKey (List.mem_singleton.mp mem ▸ hSame)

/-- **The table for references leads exactly to what they mean.** -/
theorem get?_numbersOf_eq_some_iff :
    (numbersOf entities).get? reference = some number ↔ Means entities reference number := by
  refine ⟨means_of_get?, fun means => ?_⟩
  cases hFound : (numbersOf entities).get? reference with
  | some known => rw [(means_of_get? hFound).unique means]
  | none =>
      have none := get?_numbersOf_eq_none_iff.mp hFound
      rcases means with ⟨found, hKey, _⟩ | ⟨found, hSimple, _, _⟩
      · exact absurd (.inl hKey) (none _ (List.mem_of_getElem? found))
      · exact absurd (.inr hSimple) (none _ (List.mem_of_getElem? found))

/-- A reference means a class exactly if some class has the name. -/
theorem exists_means_iff :
    (∃ number, Means entities reference number) ↔ ∃ entity ∈ entities, Bears entity reference := by
  simp only [← get?_numbersOf_eq_some_iff, ← Option.isSome_iff_exists, ← Option.ne_none_iff_isSome,
    ne_eq, get?_numbersOf_eq_none_iff]
  push Not
  rfl

/-- Fields do not matter for references. -/
theorem means_withoutFields : Means (entities.map (·.withoutFields)) = Means entities := by
  have hNumbers : numbersOf (entities.map (·.withoutFields)) = numbersOf entities := by
    simp only [numbersOf, List.zipIdx_map, List.foldl_map]
    rfl
  funext reference number
  rw [← get?_numbersOf_eq_some_iff, ← get?_numbersOf_eq_some_iff, hNumbers]

end Model

end ClassSchema
