/-!
# Code points

A character is a code point, but not every code point is a character: the halves
of surrogate pairs are none.  A half can stand alone in a text that comes from
escapes.  Such a text is a list of code points and no `String`, and it cannot be
encoded.

## Main results

* `ofCodePoints?_eq_some_iff`: a text is made of characters exactly if its code
  points are those of a string.
-/

namespace ClassSchema.Text

/-- The code points of a text. -/
def codePoints (text : String) : List Nat := text.toList.map Char.toNat

/-- The text with the given code points, unless one of them is no character. -/
def ofCodePoints? (points : List Nat) : Option String :=
  if ∀ point ∈ points, point.isValidChar then some (String.ofList (points.map Char.ofNat))
  else none

/-- The number of a valid character. -/
private theorem toNat_ofNat {point : Nat} (valid : point.isValidChar) :
    (Char.ofNat point).toNat = point := by
  rw [Char.ofNat, dif_pos valid]
  rfl

/-- **A text is made of characters** exactly if its code points are those of a string. -/
theorem ofCodePoints?_eq_some_iff {points : List Nat} {text : String} :
    ofCodePoints? points = some text ↔ points = codePoints text := by
  unfold ofCodePoints? codePoints
  constructor
  · intro h
    split at h
    · next valid =>
        obtain rfl := Option.some.inj h
        have same : points.map (Char.toNat ∘ Char.ofNat) = points.map id :=
          List.map_congr_left fun point mem => toNat_ofNat (valid point mem)
        rw [String.toList_ofList, List.map_map, same, List.map_id]
    · cases h
  · rintro rfl
    have valid : ∀ point ∈ text.toList.map Char.toNat, point.isValidChar := by
      intro point mem
      obtain ⟨c, -, rfl⟩ := List.mem_map.mp mem
      exact c.valid
    rw [if_pos valid, List.map_map]
    simp [Function.comp_def, Char.ofNat_toNat]

@[simp] theorem ofCodePoints?_codePoints (text : String) :
    ofCodePoints? (codePoints text) = some text :=
  ofCodePoints?_eq_some_iff.mpr rfl

end ClassSchema.Text
