/-!
# Sets of characters as ascending ranges

A character class of the Unicode standard is a long list of code point ranges.
`CharSet` holds such a list, lowest range first, and membership stops at the
first range that lies above the character, so a test on a Latin letter never
walks the whole table.

## Main results

* `CharSet.contains_eq_any`: for a list whose ranges ascend, the early stop
  changes nothing: a code point is in the set exactly when one of the ranges
  holds it.
-/

namespace ClassSchema

/-- Inclusive code point ranges, lowest first. -/
abbrev CharSet := List (Nat × Nat)

namespace CharSet

/-- Each range begins no lower than the one before it. -/
def Ascending (ranges : CharSet) : Prop :=
  ranges.Pairwise fun earlier later => earlier.1 ≤ later.1

/-- Membership of a code point; the search ends at the first range above it. -/
def contains : CharSet → Nat → Bool
  | [], _ => false
  | (low, high) :: rest, n => low ≤ n && (n ≤ high || contains rest n)

/-- No range is skipped by stopping early. -/
theorem contains_eq_any {ranges : CharSet} (ascending : ranges.Ascending) (n : Nat) :
    ranges.contains n = ranges.any fun range => range.1 ≤ n && n ≤ range.2 := by
  induction ranges with
  | nil => rfl
  | cons range rest ih =>
      obtain ⟨low, high⟩ := range
      have ⟨above, restAscending⟩ := List.pairwise_cons.mp ascending
      rw [contains, ih restAscending, List.any_cons]
      by_cases hLow : low ≤ n
      · simp [hLow]
      · have : (rest.any fun range => range.1 ≤ n && n ≤ range.2) = false := by
          rw [List.any_eq_false]
          intro range hMem
          have := above range hMem
          simp only [Bool.and_eq_true, decide_eq_true_eq, not_and]
          omega
        simp [hLow, this]

end CharSet

end ClassSchema
