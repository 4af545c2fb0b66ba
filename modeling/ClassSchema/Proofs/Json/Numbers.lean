import ClassSchema.Json.Parser
import ClassSchema.Json.Printer
import Mathlib.Data.List.TakeDrop

/-!
# Integers in texts

An integer is read from its digits, provided that what follows does not go on with the number.
Its text starts with a minus or a digit and has no leading zero, so the reader takes all of
it for the whole part; there is neither a fraction nor an exponent.

## Main results

* `digitsValue_toDigits`: a number is read from its digits.
* `number_intText`: an integer is read from its text.
* `scalar_intText`: no word starts like an integer.
-/

namespace ClassSchema.Json

/-- The text goes on with nothing, with white space, or with a comma. -/
def Closed (rest : List Char) : Prop := ∀ c ∈ rest.head?, isSpace c = true ∨ c = ','

theorem closed_cons {c : Char} (h : isSpace c = true ∨ c = ',') (rest : List Char) :
    Closed (c :: rest) := by
  simpa [Closed] using h

/-! ## Digits -/

/-- A number is read from its digits. -/
theorem digitsValue_toDigits (n : Nat) : digitsValue (Nat.toDigits 10 n) = n := by
  have h := @Nat.ofDigitChars_ten_toDigits n
  simpa only [Nat.ofDigitChars, digitsValue, Nat.mul_comm] using h

/-- Only zero starts with a zero. -/
theorem head_toDigits {n : Nat} (h : 0 < n) :
    ∃ c rest, Nat.toDigits 10 n = c :: rest ∧ c ≠ '0' := by
  induction n using Nat.strongRecOn with
  | ind n ih =>
      by_cases small : n < 10
      · have nonzero : ∀ digit < 10, 0 < digit → Nat.digitChar digit ≠ '0' := by decide
        exact ⟨_, [], Nat.toDigits_of_lt_base small, nonzero n small h⟩
      · obtain ⟨c, rest, hDigits, hZero⟩ := ih (n / 10) (by omega) (by omega)
        refine ⟨c, rest ++ [Nat.digitChar (n % 10)], ?_, hZero⟩
        rw [Nat.toDigits_of_base_le (by decide) (by omega), hDigits, List.cons_append]

theorem isDigit_of_mem_toDigits {n : Nat} {c : Char} (h : c ∈ Nat.toDigits 10 n) :
    c.isDigit = true :=
  Nat.isDigit_of_mem_toDigits (by decide) (by decide) h

/-- A digit is none of the other characters. -/
theorem ne_of_isDigit {c other : Char} (h : c.isDigit = true) (noDigit : other.isDigit = false) :
    c ≠ other := by
  rintro rfl
  exact Bool.false_ne_true (noDigit ▸ h)

/-- What closes a number is none of its digits. -/
theorem Closed.head {c : Char} {rest : List Char} (h : Closed (c :: rest)) :
    c.isDigit = false ∧ c ≠ '.' ∧ c ≠ 'e' ∧ c ≠ 'E' := by
  have cases : isSpace c = true ∨ c = ',' := h c rfl
  simp only [isSpace, Bool.or_eq_true, decide_eq_true_eq] at cases
  rcases cases with ((((rfl | rfl) | rfl) | rfl) | rfl) <;> decide

/-- Digits are taken up to where the number is closed. -/
theorem digits_toDigits (n : Nat) {rest : List Char} (closed : Closed rest) :
    digits (Nat.toDigits 10 n ++ rest) = (Nat.toDigits 10 n, rest) := by
  have taken : ∀ c ∈ Nat.toDigits 10 n, c.isDigit = true := fun _ => isDigit_of_mem_toDigits
  rw [digits, List.span_eq_takeWhile_dropWhile, List.takeWhile_append_of_pos taken,
    List.dropWhile_append_of_pos taken]
  cases rest with
  | nil => simp
  | cons c rest => simp [closed.head.1]

theorem integerPart_toDigits (n : Nat) {rest : List Char} (closed : Closed rest) :
    integerPart (Nat.toDigits 10 n ++ rest) = (Nat.toDigits 10 n, rest) := by
  rcases Nat.eq_zero_or_pos n with rfl | positive
  · rfl
  · obtain ⟨c, others, hDigits, hZero⟩ := head_toDigits positive
    have hTaken := digits_toDigits n closed
    rw [hDigits, List.cons_append] at hTaken ⊢
    rw [integerPart, hTaken]
    exact fun other hOther => hZero (List.cons.inj hOther).1

/-- A number that is closed has no fraction. -/
theorem fractionPart_of_closed {rest : List Char} (closed : Closed rest) :
    fractionPart rest = ([], rest) := by
  unfold fractionPart
  split
  · exact absurd rfl closed.head.2.1
  · rfl

/-- A number that is closed has no exponent. -/
theorem exponentPart_of_closed {rest : List Char} (closed : Closed rest) :
    exponentPart rest = (none, rest) := by
  cases rest with
  | nil => rfl
  | cons c rest =>
      obtain ⟨-, -, lower, upper⟩ := closed.head
      rw [exponentPart, if_neg (by simp [lower, upper])]

/-! ## Integers -/

section Integers

variable {n : Nat} {rest : List Char}

/-- A number that starts with a digit is taken without a sign. -/
private theorem number_toDigits (closed : Closed rest)
    (bound : (Nat.toDigits 10 n).length ≤ maxDigits) :
    number (Nat.toDigits 10 n ++ rest) = .ok (.int n, rest) := by
  have unsigned : ∀ tail, Nat.toDigits 10 n ++ rest ≠ '-' :: tail := by
    intro tail hMinus
    obtain ⟨c, others, hDigits⟩ := List.exists_cons_of_ne_nil (@Nat.toDigits_ne_nil n 10)
    have isDigit : c.isDigit = true := isDigit_of_mem_toDigits (hDigits ▸ List.mem_cons_self)
    rw [hDigits, List.cons_append] at hMinus
    exact ne_of_isDigit isDigit rfl (List.cons.inj hMinus).1
  unfold number
  split
  next hSign =>
    split at hSign
    · next hMinus => exact absurd hMinus (unsigned _)
    · cases hSign
      simp only [integerPart_toDigits n closed, fractionPart_of_closed closed,
        exponentPart_of_closed closed, digitsValue_toDigits]
      simp [Nat.toDigits_ne_nil, Nat.not_lt.mpr bound]

/-- A minus in front of a number makes it negative. -/
private theorem number_minus (closed : Closed rest)
    (bound : (Nat.toDigits 10 n).length ≤ maxDigits) :
    number ('-' :: (Nat.toDigits 10 n ++ rest)) = .ok (.int (-(n : Int)), rest) := by
  simp only [number, integerPart_toDigits n closed, fractionPart_of_closed closed,
    exponentPart_of_closed closed, digitsValue_toDigits]
  simp [Nat.toDigits_ne_nil, Nat.not_lt.mpr bound]

end Integers

/-- **An integer is read from its text.** -/
theorem number_intText {n : Int} {rest : List Char} (closed : Closed rest)
    (bound : (Nat.toDigits 10 n.natAbs).length ≤ maxDigits) :
    number (intText n ++ rest) = .ok (.int n, rest) := by
  by_cases negative : n < 0
  · have hSize : -(n.natAbs : Int) = n := by omega
    have h := number_minus closed bound
    rw [hSize] at h
    rwa [intText, if_pos negative]
  · have hSize : (n.natAbs : Int) = n := by omega
    have h := number_toDigits closed bound
    rw [hSize] at h
    rwa [intText, if_neg negative]

/-- The text of an integer is a digit, or a minus and a digit, and more. -/
theorem intText_eq (n : Int) : ∃ c rest, Char.isDigit c = true ∧
    (intText n = c :: rest ∨ intText n = '-' :: c :: rest) := by
  obtain ⟨c, rest, hDigits⟩ := List.exists_cons_of_ne_nil (@Nat.toDigits_ne_nil n.natAbs 10)
  refine ⟨c, rest, isDigit_of_mem_toDigits (hDigits ▸ List.mem_cons_self), ?_⟩
  by_cases negative : n < 0
  · exact .inr (by simp [intText, negative, hDigits])
  · exact .inl (by simp [intText, negative, hDigits])

/-- **No word starts like an integer.** -/
theorem scalar_intText {n : Int} {rest : List Char} (closed : Closed rest)
    (bound : (Nat.toDigits 10 n.natAbs).length ≤ maxDigits) :
    scalar (intText n ++ rest) = .ok (.int n, rest) := by
  have noWord : words.find? (fun word => word.1.isPrefixOf (intText n ++ rest)) = none := by
    rw [List.find?_eq_none]
    intro word mem
    obtain ⟨c, others, isDigit, hText⟩ := intText_eq n
    have noLetter : ∀ letter : Char, letter.isDigit = false → letter ≠ c :=
      fun _ h => (ne_of_isDigit isDigit h).symm
    simp only [words, List.mem_cons, List.not_mem_nil, or_false] at mem
    rcases hText with hText | hText <;>
      rcases mem with rfl | rfl | rfl | rfl | rfl | rfl <;>
      simp [hText, List.isPrefixOf, noLetter]
  rw [scalar, noWord]
  exact number_intText closed bound

end ClassSchema.Json
