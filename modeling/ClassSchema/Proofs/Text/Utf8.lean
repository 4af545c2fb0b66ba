import ClassSchema.Text.Decoding
import ClassSchema.Text.Encoding

/-!
# Text that was written in UTF-8

What is written in UTF-8 is read as the same text: the first byte of a character tells how
many bytes follow it, and these pass the table of second bytes, since a character is no
surrogate and has no shorter encoding.  Nothing has to be known about the text.

Reading turns all line ends into line feeds, so a text without carriage returns is read as it
was written.

## Main results

* `utf8Char_utf8Bytes`: a character is read from its bytes, whatever follows.
* `decode_encode`: a text is decoded from its encoding.
* `readText_encode`: a text that was written is read up to its line ends.
* `unifyNewlines_of_notMem`: a text without carriage returns has no other line ends.
-/

namespace ClassSchema.Text

/-! ## One character -/

/-- A byte with six bits continues a character. -/
private theorem isTail_tailByte (bits : Nat) : isTail (tailByte bits) = true := by
  have bounds : 0x80 ≤ tailByte bits ∧ tailByte bits ≤ 0xBF := by
    unfold tailByte
    omega
  simpa [isTail] using bounds

/-- Characters are numbers below the last plane, surrogates left out. -/
theorem toNat_cases (c : Char) :
    c.toNat < 0xD800 ∨ (0xDFFF < c.toNat ∧ c.toNat < 0x110000) := c.valid

/-- A first byte of three or four restricts the second one only at the ends of its range. -/
private theorem isSecond_of_bounds {first second : Nat} (tail : isTail second = true)
    (e0 : first = 0xE0 → 0xA0 ≤ second) (ed : first = 0xED → second ≤ 0x9F)
    (f0 : first = 0xF0 → 0x90 ≤ second) (f4 : first = 0xF4 → second ≤ 0x8F) :
    isSecond first second = true := by
  have bounds : 0x80 ≤ second ∧ second ≤ 0xBF := by simpa [isTail] using tail
  unfold isSecond
  split
  · simpa using ⟨e0 rfl, bounds.2⟩
  · simpa using ⟨bounds.1, ed rfl⟩
  · simpa using ⟨f0 rfl, bounds.2⟩
  · simpa using ⟨bounds.1, f4 rfl⟩
  · exact tail

/-- Bytes that continue a first byte make up the character that their bits spell. -/
private theorem utf8Char_of_continues {first : Nat} {tail : List Nat} {c : Char}
    (width : utf8Width first = tail.length + 1)
    (good : goodTail first 1 tail = tail.length) (point : utf8CodePoint first tail = c.toNat)
    (rest : List Nat) : utf8Char first (tail ++ rest) = .ok (c, tail.length) := by
  simp only [utf8Char, width, Nat.add_sub_cancel, List.take_left', good, point, Char.ofNat_toNat,
    Nat.add_one_ne_zero, if_true, if_false]

/-- **A character is read from its bytes**, whatever follows. -/
theorem utf8Char_utf8Bytes (c : Char) (rest : List Nat) :
    ∃ first tail, utf8Bytes c = first :: tail ∧
      utf8Char first (tail ++ rest) = .ok (c, tail.length) := by
  have valid := toNat_cases c
  unfold utf8Bytes
  by_cases one : c.toNat < 0x80
  · refine ⟨c.toNat, [], by simp [one], utf8Char_of_continues ?_ rfl rfl rest⟩
    simp only [utf8Width, List.length_nil]
    rw [if_pos (by omega)]
  by_cases two : c.toNat < 0x800
  · refine ⟨_, _, by simp only [one, two, if_true, if_false]; rfl,
      utf8Char_of_continues ?_ ?_ ?_ rest⟩
    · simp only [utf8Width, List.length_singleton, Bool.and_eq_true, decide_eq_true_eq]
      rw [if_neg (by omega), if_pos (by omega)]
    · have second : isSecond (0xC0 + c.toNat / 64) (tailByte c.toNat) = true :=
        isSecond_of_bounds (isTail_tailByte _) (by omega) (by omega) (by omega) (by omega)
      simp [goodTail, continues, second]
    · simp only [utf8CodePoint, tailByte, List.length_singleton, List.foldl_cons, List.foldl_nil]
      omega
  by_cases three : c.toNat < 0x10000
  · refine ⟨_, _, by simp only [one, two, three, if_true, if_false]; rfl,
      utf8Char_of_continues ?_ ?_ ?_ rest⟩
    · simp only [utf8Width, List.length_cons, List.length_nil, Bool.and_eq_true,
        decide_eq_true_eq]
      rw [if_neg (by omega), if_neg (by omega), if_pos (by omega)]
    · have second : isSecond (0xE0 + c.toNat / 64 / 64) (tailByte (c.toNat / 64)) = true :=
        isSecond_of_bounds (isTail_tailByte _) (by unfold tailByte; omega)
          (by unfold tailByte; omega) (by omega) (by omega)
      simp [goodTail, continues, second, isTail_tailByte]
    · simp only [utf8CodePoint, tailByte, List.length_cons, List.length_nil, List.foldl_cons,
        List.foldl_nil]
      omega
  · refine ⟨_, _, by simp only [one, two, three, if_false]; rfl,
      utf8Char_of_continues ?_ ?_ ?_ rest⟩
    · simp only [utf8Width, List.length_cons, List.length_nil, Bool.and_eq_true,
        decide_eq_true_eq]
      rw [if_neg (by omega), if_neg (by omega), if_neg (by omega), if_pos (by omega)]
    · have second : isSecond (0xF0 + c.toNat / 64 / 64 / 64) (tailByte (c.toNat / 64 / 64)) =
          true :=
        isSecond_of_bounds (isTail_tailByte _) (by omega) (by omega) (by unfold tailByte; omega)
          (by unfold tailByte; omega)
      simp [goodTail, continues, second, isTail_tailByte]
    · simp only [utf8CodePoint, tailByte, List.length_cons, List.length_nil, List.foldl_cons,
        List.foldl_nil]
      omega

/-! ## Whole texts -/

/-- Bytes that belong to the character read last are passed over. -/
private theorem decodeUtf8From_pending (position : Nat) (done : List Char) (tail rest : List Nat) :
    decodeUtf8From position tail.length done (tail ++ rest) =
      decodeUtf8From (position + tail.length) 0 done rest := by
  induction tail generalizing position with
  | nil => rfl
  | cons byte tail ih =>
      rw [List.length_cons, List.cons_append, decodeUtf8From, ih]
      congr 1
      omega

/-- What has been read stands in front of what is still to be read. -/
theorem decodeUtf8From_encode (text : List Char) (position : Nat) (done : List Char) :
    decodeUtf8From position 0 done (encode text) = .ok (done.reverse ++ text) := by
  induction text generalizing position done with
  | nil => simp [encode, decodeUtf8From]
  | cons c text ih =>
      obtain ⟨first, tail, hBytes, hChar⟩ := utf8Char_utf8Bytes c (encode text)
      have hEncode : encode (c :: text) = first :: (tail ++ encode text) := by
        rw [encode, List.flatMap_cons, hBytes, List.cons_append]
        rfl
      rw [hEncode, decodeUtf8From]
      simp only [hChar, decodeUtf8From_pending, ih, List.reverse_cons, List.append_assoc,
        List.singleton_append]

/-- **A text is decoded from its encoding.** -/
theorem decode_encode (text : List Char) : decode .utf8 (encode text) = .ok text :=
  decodeUtf8From_encode text 0 []

/-- **A text that was written is read up to its line ends.** -/
theorem readText_encode (text : List Char) :
    readText .utf8 (encode text) = .ok (unifyNewlines text) := by
  rw [readText, decode_encode]
  rfl

/-! ## Line ends -/

/-- Without carriage returns, characters are copied. -/
private theorem foldl_newlineStep_of_notMem {text : List Char} (h : '\r' ∉ text)
    (done : List Char) :
    text.foldl newlineStep (false, done) = (false, text.reverse ++ done) := by
  induction text generalizing done with
  | nil => rfl
  | cons c text ih =>
      obtain ⟨hFirst, hRest⟩ := List.ne_and_not_mem_of_not_mem_cons h
      have hStep : newlineStep (false, done) c = (false, c :: done) := by
        simp [newlineStep, Ne.symm hFirst]
      rw [List.foldl_cons, hStep, ih hRest]
      simp

/-- A text without carriage returns stays as it is. -/
theorem unifyNewlines_of_notMem {text : List Char} (h : '\r' ∉ text) :
    unifyNewlines text = text := by
  rw [unifyNewlines, foldl_newlineStep_of_notMem h]
  simp

end ClassSchema.Text
