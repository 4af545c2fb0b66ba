import ClassSchema.Json.Parser
import ClassSchema.Json.Printer
import ClassSchema.Proofs.Text.Utf8

/-!
# Quoted text

A text between quotes is read as it was written.  Every character has one of three spellings: a
short escape, itself, or one or two escapes of 16-bit units in hexadecimal.  The reader
collects units, and puts two halves together when it knows all of them; since a character is
no surrogate, no half that was written stands alone, and none meets the half of another
character.

## Main results

* `hexUnit_hexPadded`: a unit is read from its four digits.
* `spells_escapedChar`: what is written for a character spells it.
* `joinHalves_units`: a text is put together from its units.
* `string_quotedText`: a text is read from between its quotes.
-/

namespace ClassSchema.Json

open ClassSchema.Text

/-! ## Hexadecimal digits -/

theorem hexValue_digitChar {digit : Nat} (h : digit < 16) :
    hexValue (Nat.digitChar digit) = some digit := by
  revert digit
  decide

/-- The last digit stands behind the digits of the rest. -/
theorem hexPadded_succ {width : Nat} (h : 0 < width) (n : Nat) :
    hexPadded (width + 1) n = hexPadded width (n / 16) ++ [Nat.digitChar (n % 16)] := by
  unfold hexPadded
  by_cases small : n < 16
  · obtain ⟨width, rfl⟩ : ∃ less, width = less + 1 := ⟨width - 1, by omega⟩
    rw [Nat.toDigits_of_lt_base small, Nat.div_eq_of_lt small, Nat.mod_eq_of_lt small]
    simp [List.replicate_succ']
  · rw [Nat.toDigits_of_base_le (by decide) (by omega)]
    simp [Nat.add_sub_add_right]

theorem hexPadded_one {n : Nat} (h : n < 16) : hexPadded 1 n = [Nat.digitChar n] := by
  simp [hexPadded, Nat.toDigits_of_lt_base h]

/-- The four digits of a unit. -/
theorem hexPadded_four {unit : Nat} (h : unit < 0x10000) :
    hexPadded 4 unit = [Nat.digitChar (unit / 16 / 16 / 16), Nat.digitChar (unit / 16 / 16 % 16),
      Nat.digitChar (unit / 16 % 16), Nat.digitChar (unit % 16)] := by
  rw [hexPadded_succ (by decide), hexPadded_succ (by decide), hexPadded_succ (by decide),
    hexPadded_one (by omega)]
  rfl

/-- **A unit is read from its four digits.** -/
theorem hexUnit_hexPadded {unit : Nat} (h : unit < 0x10000) :
    ∃ a b c d, hexPadded 4 unit = [a, b, c, d] ∧ hexUnit a b c d = some unit := by
  refine ⟨_, _, _, _, hexPadded_four h, ?_⟩
  have first : unit / 16 / 16 / 16 < 16 := by omega
  have later := fun n => hexValue_digitChar (Nat.mod_lt n (by decide : 0 < 16))
  simp only [hexUnit, hexValue_digitChar first, later, bind, Option.bind, pure]
  congr 1
  omega

/-! ## Units -/

/-- The 16-bit units of a character: one, or two halves above the basic plane. -/
def unitsOf (c : Char) : List Nat :=
  if c.toNat < 0x10000 then [c.toNat]
  else [0xD800 + (c.toNat - 0x10000) / 0x400, 0xDC00 + (c.toNat - 0x10000) % 0x400]

/-- A character of the basic plane is no half of another one. -/
private theorem joinHalves_cons (c : Char) (units : List Nat) :
    joinHalves (c.toNat :: units) = c.toNat :: joinHalves units := by
  have valid := toNat_cases c
  cases units with
  | nil => simp only [joinHalves]
  | cons next rest => rw [joinHalves, if_neg (by omega)]

private theorem joinHalves_unitsOf (c : Char) (units : List Nat) :
    joinHalves (unitsOf c ++ units) = c.toNat :: joinHalves units := by
  unfold unitsOf
  split
  · exact joinHalves_cons c units
  · next high =>
      have valid := toNat_cases c
      have point : 0x10000 + (0xD800 + (c.toNat - 0x10000) / 0x400 - 0xD800) * 0x400 +
          (0xDC00 + (c.toNat - 0x10000) % 0x400 - 0xDC00) = c.toNat := by omega
      simp only [List.cons_append, List.nil_append, joinHalves]
      rw [if_pos (by omega), point]

/-- **A text is put together from its units.** -/
theorem joinHalves_units (text : List Char) :
    joinHalves (text.flatMap unitsOf) = text.map Char.toNat := by
  induction text with
  | nil => rfl
  | cons c text ih => rw [List.flatMap_cons, joinHalves_unitsOf, ih, List.map_cons]

/-! ## Spellings -/

/-- The characters that stand behind a backslash in a short escape. -/
def marks : List Char := ['"', '\\', 'n', 'r', 't', 'b', 'f']

/-- What may be written for a character: a short escape, the character itself, or its units in
hexadecimal. -/
inductive Spells (c : Char) : List Char → Prop where
  | short {mark : Char} (mem : mark ∈ marks) (escape : shortEscape mark = some c) :
      Spells c ['\\', mark]
  | plain (lower : ' ' ≤ c) (upper : c ≤ '~') (quote : c ≠ '"') (backslash : c ≠ '\\') :
      Spells c [c]
  | unit (basic : c.toNat < 0x10000) : Spells c (unitEscape c.toNat)
  | halves {offset : Nat} (point : c.toNat = 0x10000 + offset) (bound : offset < 0x100000) :
      Spells c (unitEscape (0xD800 + offset / 0x400) ++ unitEscape (0xDC00 + offset % 0x400))

/-- **What is written for a character spells it.** -/
theorem spells_escapedChar (c : Char) : Spells c (escapedChar c) := by
  unfold escapedChar
  split
  · next hQuote =>
      subst hQuote
      exact .short (by simp [marks]) rfl
  split
  · next hBackslash =>
      subst hBackslash
      exact .short (by simp [marks]) rfl
  split
  · next hLine =>
      subst hLine
      exact .short (by simp [marks]) rfl
  split
  · next hReturn =>
      subst hReturn
      exact .short (by simp [marks]) rfl
  split
  · next hTab =>
      subst hTab
      exact .short (by simp [marks]) rfl
  split
  · next hBack =>
      subst hBack
      exact .short (by simp [marks]) rfl
  split
  · next hFeed =>
      subst hFeed
      exact .short (by simp [marks]) rfl
  split
  · next hQuote hBackslash _ _ _ _ _ hPlain =>
      exact .plain hPlain.1 hPlain.2 hQuote hBackslash
  split
  · next basic => exact .unit basic
  · next high =>
      have valid := toNat_cases c
      exact .halves (by omega) (by omega)

/-- Short escapes stand for characters of the basic plane. -/
private theorem lt_of_shortEscape {mark c : Char} (h : shortEscape mark = some c) :
    c.toNat < 0x10000 := by
  unfold shortEscape at h
  split at h <;> cases h <;> decide

/-! ## Strings -/

section Reading

variable {opening rest : List Char} {units : List Nat}

/-- An escaped unit is read, unless it is the last thing in the text. -/
private theorem stringBody_unitEscape {unit : Nat} (h : unit < 0x10000) (more : rest ≠ []) :
    stringBody opening units (unitEscape unit ++ rest) =
      stringBody opening (unit :: units) rest := by
  obtain ⟨a, b, c, d, hDigits, hUnit⟩ := hexUnit_hexPadded h
  obtain ⟨next, rest, rfl⟩ := List.exists_cons_of_ne_nil more
  simp [unitEscape, hDigits, stringBody, hUnit]

/-- **A character is read from its spelling.** -/
private theorem stringBody_spelling {c : Char} {spelling : List Char} (spells : Spells c spelling)
    (more : rest ≠ []) :
    stringBody opening units (spelling ++ rest) =
      stringBody opening ((unitsOf c).reverse ++ units) rest := by
  cases spells with
  | @short mark mem escape =>
      obtain ⟨next, rest, rfl⟩ := List.exists_cons_of_ne_nil more
      have noUnit : mark ≠ 'u' := by
        rintro rfl
        simp [marks] at mem
      have basic := lt_of_shortEscape escape
      rw [List.cons_append, List.cons_append, stringBody.eq_def]
      simp [noUnit, escape, unitsOf, basic]
  | plain lower upper quote backslash =>
      have bounds : 0x20 ≤ c.toNat ∧ c.toNat ≤ 0x7E := ⟨lower, upper⟩
      have basic : c.toNat < 0x10000 := by omega
      rw [List.singleton_append, stringBody.eq_def]
      simp [backslash, show ¬ c.toNat ≤ 0x1F by omega, unitsOf, basic]
  | unit basic => simpa [unitsOf, basic] using stringBody_unitEscape basic more
  | @halves offset hOffset bound =>
      have second : unitEscape (0xDC00 + offset % 0x400) ++ rest ≠ [] := by simp [unitEscape]
      simp only [unitsOf, hOffset, Nat.add_sub_cancel_left]
      rw [List.append_assoc, stringBody_unitEscape (by omega) second,
        stringBody_unitEscape (by omega) more, if_neg (by omega)]
      rfl

end Reading

/-- A text is read up to its closing quote. -/
private theorem stringBody_escaped (opening : List Char) (units : List Nat)
    (text rest : List Char) :
    stringBody opening units (text.flatMap escapedChar ++ '"' :: rest) =
      stringBody opening ((text.flatMap unitsOf).reverse ++ units) ('"' :: rest) := by
  induction text generalizing units with
  | nil => rfl
  | cons c text ih =>
      rw [List.flatMap_cons, List.append_assoc,
        stringBody_spelling (spells_escapedChar c) (by simp), ih]
      simp

/-- **A text is read from between its quotes.** -/
theorem string_quotedText (text : String) (rest : List Char) :
    ∃ inside, quotedText text ++ rest = '"' :: inside ∧ string inside = .ok (text, rest) := by
  refine ⟨text.toList.flatMap escapedChar ++ '"' :: rest, by simp [quotedText], ?_⟩
  have points : joinHalves (text.toList.flatMap unitsOf) = codePoints text := joinHalves_units _
  rw [string, stringBody_escaped]
  simp only [stringBody, List.append_nil, List.reverse_reverse, points, ofCodePoints?_codePoints]

end ClassSchema.Json
