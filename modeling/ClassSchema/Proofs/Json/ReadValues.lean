import ClassSchema.Proofs.Json.Values
import ClassSchema.Proofs.Results
import Mathlib.Data.List.TakeDrop
import Mathlib.Data.List.TakeWhile
import Mathlib.Tactic.Ring

/-!
# Values that were read

What is read from a text can be stored: a repeated name of an object is not kept twice, and an
integer whose digits are few is small.  It need not have been written by anyone in
particular.

## Main results

* `digitsValue_lt`: so many digits spell a number below that power of ten.
* `readsStorable`: what is read can be stored, and so can all that is in it.
* `storable_of_parse`: this holds of whole texts.
-/

namespace ClassSchema.Json

/-! ## Numbers -/

/-- **So many digits spell a number below that power of ten.** -/
theorem digitsValue_lt {text : List Char} (h : ∀ c ∈ text, c.isDigit = true) :
    digitsValue text < 10 ^ text.length := by
  have below : ∀ start,
      text.foldl (fun value c => value * 10 + (c.toNat - '0'.toNat)) start <
        (start + 1) * 10 ^ text.length := by
    induction text with
    | nil => simp
    | cons c text ih =>
        intro start
        have digit : c.toNat - '0'.toNat < 10 := by
          have bounds : 48 ≤ c.toNat ∧ c.toNat ≤ 57 := by
            simpa [Char.isDigit, UInt32.le_iff_toNat_le] using h c List.mem_cons_self
          have zero : '0'.toNat = 48 := rfl
          omega
        calc text.foldl (fun value c => value * 10 + (c.toNat - '0'.toNat))
              (start * 10 + (c.toNat - '0'.toNat))
            < (start * 10 + (c.toNat - '0'.toNat) + 1) * 10 ^ text.length :=
              ih (fun other mem => h other (List.mem_cons_of_mem _ mem)) _
          _ ≤ ((start + 1) * 10) * 10 ^ text.length := Nat.mul_le_mul_right _ (by omega)
          _ = (start + 1) * 10 ^ (text.length + 1) := by ring
  simpa [digitsValue] using below 0

/-- The whole part of a number is made of digits. -/
theorem isDigit_of_mem_integerPart {text : List Char} {c : Char}
    (h : c ∈ (integerPart text).1) : c.isDigit = true := by
  unfold integerPart at h
  split at h
  · rw [List.mem_singleton.mp h]
    rfl
  · rw [digits, List.span_eq_takeWhile_dropWhile] at h
    exact List.mem_takeWhile_imp h

/-- An integer that is read has no more digits than were read. -/
theorem number_storable {start rest : List Char} {content : Json}
    (h : number start = .ok (content, rest)) : content.Every IsStorable := by
  unfold number at h
  split at h
  next negative unsigned _ =>
    have digit := @isDigit_of_mem_integerPart unsigned
    rcases hWhole : integerPart unsigned with ⟨whole, afterWhole⟩
    rw [hWhole] at h digit
    simp only at h
    split at h
    · cases h
    · next some =>
        split at h
        · split at h
          · cases h
          · next few =>
              cases h
              have length : 0 < whole.length := by
                rw [List.length_pos_iff]
                simpa using some
              have size : (Nat.toDigits 10 (digitsValue whole)).length ≤ maxDigits :=
                Nat.le_trans ((Nat.length_toDigits_le_iff (by decide) length).mpr
                  (digitsValue_lt fun _ => digit)) (Nat.not_lt.mp few)
              cases negative <;> simpa [Every, IsStorable] using size
        · cases h
          trivial

theorem scalar_storable {text rest : List Char} {content : Json}
    (h : scalar text = .ok (content, rest)) : content.Every IsStorable := by
  unfold scalar at h
  split at h
  · next word value hWord =>
      cases h
      have mem := List.mem_of_find?_eq_some hWord
      simp only [words, List.mem_cons, Prod.mk.injEq, List.not_mem_nil, or_false] at mem
      rcases mem with ⟨_, rfl⟩ | ⟨_, rfl⟩ | ⟨_, rfl⟩ | ⟨_, rfl⟩ | ⟨_, rfl⟩ | ⟨_, rfl⟩ <;> trivial
  · exact number_storable h

/-! ## Values -/

/-- Members become an object whose names are distinct. -/
theorem every_ofPairs {pairs : List (String × Json)} (h : EveryMember IsStorable pairs) :
    (obj (OrderedMap.ofPairs pairs)).Every IsStorable := by
  refine storable_obj (OrderedMap.nodup_keys_ofPairs pairs) (everyMember_iff.mpr fun pair mem => ?_)
  exact everyMember_iff.mp h pair (OrderedMap.mem_of_mem_ofPairs mem)

/-- What is read within so many steps can be stored. -/
structure ReadsStorable (fuel : Nat) : Prop where
  value : ∀ {text content rest}, value fuel text = .ok (content, rest) → content.Every IsStorable
  items : ∀ {text list rest}, items fuel text = .ok (list, rest) → EveryItem IsStorable list
  members : ∀ {text pairs rest}, members fuel text = .ok (pairs, rest) →
    EveryMember IsStorable pairs

namespace ReadsStorable

variable {fuel : Nat}

theorem value_succ (ih : ReadsStorable fuel) {text : List Char} {content : Json}
    {rest : List Char} (h : Json.value (fuel + 1) text = .ok (content, rest)) :
    content.Every IsStorable := by
  rw [Json.value.eq_def] at h
  simp only at h
  split at h
  · obtain ⟨⟨text, after⟩, -, h⟩ := bind_eq_ok_iff.mp h
    cases h
    trivial
  · next inside =>
      split at h
      · cases h
        exact ⟨trivial, trivial⟩
      · obtain ⟨⟨list, after⟩, hItems, h⟩ := bind_eq_ok_iff.mp h
        cases h
        exact ⟨trivial, ih.items hItems⟩
  · next inside =>
      split at h
      · cases h
        exact ⟨List.nodup_nil, trivial⟩
      · obtain ⟨⟨pairs, after⟩, hMembers, h⟩ := bind_eq_ok_iff.mp h
        cases h
        exact every_ofPairs (ih.members hMembers)
  · exact scalar_storable h

theorem items_succ (ih : ReadsStorable fuel) {text : List Char} {list : List Json}
    {rest : List Char} (h : Json.items (fuel + 1) text = .ok (list, rest)) :
    EveryItem IsStorable list := by
  rw [Json.items] at h
  obtain ⟨⟨item, after⟩, hItem, h⟩ := bind_eq_ok_iff.mp h
  simp only at h
  split at h
  · cases h
    exact ⟨ih.value hItem, trivial⟩
  · obtain ⟨⟨others, behind⟩, hOthers, h⟩ := bind_eq_ok_iff.mp h
    cases h
    exact ⟨ih.value hItem, ih.items hOthers⟩
  · cases h

theorem members_succ (ih : ReadsStorable fuel) {text : List Char} {pairs : List (String × Json)}
    {rest : List Char} (h : Json.members (fuel + 1) text = .ok (pairs, rest)) :
    EveryMember IsStorable pairs := by
  rw [Json.members.eq_def] at h
  simp only at h
  split at h
  · obtain ⟨⟨name, afterName⟩, -, h⟩ := bind_eq_ok_iff.mp h
    simp only at h
    split at h
    · obtain ⟨⟨member, after⟩, hMember, h⟩ := bind_eq_ok_iff.mp h
      simp only at h
      split at h
      · cases h
        exact ⟨ih.value hMember, trivial⟩
      · obtain ⟨⟨others, behind⟩, hOthers, h⟩ := bind_eq_ok_iff.mp h
        cases h
        exact ⟨ih.value hMember, ih.members hOthers⟩
      · cases h
    · cases h
  · cases h

end ReadsStorable

/-- **What is read can be stored**, and so can all that is in it.  The induction is on the steps
that are left. -/
theorem readsStorable (fuel : Nat) : ReadsStorable fuel := by
  induction fuel with
  | zero =>
      refine ⟨fun h => ?_, fun h => ?_, fun h => ?_⟩
      · rw [value] at h
        cases h
      · rw [items] at h
        cases h
      · rw [members] at h
        cases h
  | succ fuel ih => exact ⟨ih.value_succ, ih.items_succ, ih.members_succ⟩

/-- The value of a text can be stored. -/
theorem storable_of_parse {text : List Char} {content : Json} (h : parse text = .ok content) :
    content.Every IsStorable := by
  unfold parse at h
  split at h
  · next hDocument =>
      cases h
      unfold document at hDocument
      split at hDocument
      · cases hDocument
      obtain ⟨⟨content, rest⟩, hValue, hDocument⟩ := bind_eq_ok_iff.mp hDocument
      simp only at hDocument
      split at hDocument
      · cases hDocument
        exact (readsStorable _).value hValue
      · cases hDocument
  · cases h
  · cases h

end ClassSchema.Json
