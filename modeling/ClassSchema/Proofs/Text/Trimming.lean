import ClassSchema.Text.Blank
import Mathlib.Data.List.DropRight
import Mathlib.Data.List.TakeWhile

/-!
# Trimmed texts

Trimming takes blanks off both ends of a text and nothing else, and a text is trimmed
exactly if trimming leaves it as it is.

## Main results

* `isTrimmed_trim`, `trim_eq_self_iff`: trimmed texts are those that `trim` returns.
* `exists_trim`: a text is its trimmed text between blanks.
* `filter_trim`: trimming keeps whatever is not blank.
-/

namespace ClassSchema.Text

variable {text lead trail : List Char}

/-- A text of blanks only. -/
def AllBlank (text : List Char) : Prop := ∀ c ∈ text, isBlank c = true

instance (text : List Char) : Decidable (AllBlank text) :=
  decidable_of_iff (text.all isBlank = true) List.all_eq_true

/-- A text that neither starts nor ends with a blank. -/
structure IsTrimmed (text : List Char) : Prop where
  head : ∀ c ∈ text.head?, isBlank c = false
  last : ∀ c ∈ text.getLast?, isBlank c = false

instance (text : List Char) : Decidable (IsTrimmed text) :=
  decidable_of_iff
    (text.head?.all (!isBlank ·) = true ∧ text.getLast?.all (!isBlank ·) = true) <| by
    simp only [Option.all_eq_true, Bool.not_eq_true']
    exact ⟨fun h => ⟨h.1, h.2⟩, fun h => ⟨h.head, h.last⟩⟩

theorem AllBlank.reverse (h : AllBlank text) : AllBlank text.reverse :=
  fun c mem => h c (List.mem_reverse.mp mem)

theorem AllBlank.append {first second : List Char} (hFirst : AllBlank first)
    (hSecond : AllBlank second) : AllBlank (first ++ second) := by
  intro c mem
  rcases List.mem_append.mp mem with mem | mem
  · exact hFirst c mem
  · exact hSecond c mem

theorem AllBlank.notMem {c : Char} (h : AllBlank text) (hc : isBlank c = false) : c ∉ text := by
  intro mem
  rw [h c mem] at hc
  cases hc

theorem allBlank_takeWhile (text : List Char) : AllBlank (text.takeWhile isBlank) :=
  fun _ mem => List.mem_takeWhile_imp mem

/-! ## One end -/

theorem trimLeft_of_head (h : ∀ c ∈ text.head?, isBlank c = false) : trimLeft text = text := by
  cases text with
  | nil => rfl
  | cons c rest => simp [trimLeft, h c rfl]

theorem head_trimLeft (text : List Char) : ∀ c ∈ (trimLeft text).head?, isBlank c = false := by
  intro c hc
  have hFound := List.head?_dropWhile_not isBlank text
  rw [trimLeft, Option.mem_def] at hc
  rw [hc] at hFound
  exact hFound

theorem trimLeft_append (hLead : AllBlank lead) (text : List Char) :
    trimLeft (lead ++ text) = trimLeft text :=
  List.dropWhile_append_of_pos hLead

theorem exists_trimLeft (text : List Char) : ∃ lead, AllBlank lead ∧ text = lead ++ trimLeft text :=
  ⟨_, allBlank_takeWhile text, List.takeWhile_append_dropWhile.symm⟩

/-- The back of a text is the front of the reversed one. -/
theorem trimRight_eq (text : List Char) : trimRight text = (trimLeft text.reverse).reverse := rfl

theorem trimRight_of_last (h : ∀ c ∈ text.getLast?, isBlank c = false) : trimRight text = text := by
  rw [trimRight_eq, trimLeft_of_head, List.reverse_reverse]
  rwa [List.head?_reverse]

theorem last_trimRight (text : List Char) :
    ∀ c ∈ (trimRight text).getLast?, isBlank c = false := by
  rw [trimRight_eq, List.getLast?_reverse]
  exact head_trimLeft _

theorem trimRight_append (hTrail : AllBlank trail) (text : List Char) :
    trimRight (text ++ trail) = trimRight text := by
  rw [trimRight_eq, List.reverse_append, trimLeft_append hTrail.reverse, trimRight_eq]

theorem exists_trimRight (text : List Char) :
    ∃ trail, AllBlank trail ∧ text = trimRight text ++ trail := by
  obtain ⟨trail, hTrail, hText⟩ := exists_trimLeft text.reverse
  refine ⟨trail.reverse, hTrail.reverse, ?_⟩
  rw [trimRight_eq, ← List.reverse_append, ← hText, List.reverse_reverse]

/-! ## Both ends -/

theorem isTrimmed_trim (text : List Char) : IsTrimmed (trim text) where
  head := by
    intro c hc
    apply head_trimLeft text c
    -- what is left of a text whose back was trimmed starts as the text does
    obtain ⟨trail, -, hText⟩ := exists_trimRight (trimLeft text)
    have hHead : (trimRight (trimLeft text)).head? = some c := hc
    rw [hText, List.head?_append, hHead]
    rfl
  last := last_trimRight _

theorem IsTrimmed.trim (h : IsTrimmed text) : trim text = text := by
  rw [Text.trim, trimLeft_of_head h.head, trimRight_of_last h.last]

theorem trim_eq_self_iff : trim text = text ↔ IsTrimmed text :=
  ⟨fun h => h ▸ isTrimmed_trim text, IsTrimmed.trim⟩

theorem exists_trim (text : List Char) :
    ∃ lead trail, AllBlank lead ∧ AllBlank trail ∧ text = lead ++ trim text ++ trail := by
  obtain ⟨lead, hLead, hFront⟩ := exists_trimLeft text
  obtain ⟨trail, hTrail, hBack⟩ := exists_trimRight (trimLeft text)
  refine ⟨lead, trail, hLead, hTrail, ?_⟩
  rw [List.append_assoc, trim, ← hBack, ← hFront]

theorem mem_of_mem_trim {c : Char} (h : c ∈ trim text) : c ∈ text := by
  obtain ⟨lead, trail, -, -, hText⟩ := exists_trim text
  rw [hText]
  exact List.mem_append_left _ (List.mem_append_right _ h)

/-- What is kept of a text when no blank is kept does not change by trimming. -/
theorem filter_trim {keep : Char → Bool} (hKeep : ∀ c, isBlank c = true → keep c = false)
    (text : List Char) : (trim text).filter keep = text.filter keep := by
  have dropped {blanks : List Char} (h : AllBlank blanks) : blanks.filter keep = [] :=
    List.filter_eq_nil_iff.mpr fun c mem hc => by
      rw [hKeep c (h c mem)] at hc
      cases hc
  obtain ⟨lead, trail, hLead, hTrail, hText⟩ := exists_trim text
  conv_rhs => rw [hText]
  rw [List.filter_append, List.filter_append, dropped hLead, dropped hTrail, List.nil_append,
    List.append_nil]

/-- Trimming finds a trimmed text between blanks. -/
theorem trim_surrounded (hLead : AllBlank lead) (hTrail : AllBlank trail) (h : IsTrimmed text) :
    trim (lead ++ text ++ trail) = text := by
  cases text with
  | nil =>
      have hBlank : AllBlank (lead ++ [] ++ trail) := by simpa using hLead.append hTrail
      rw [trim, trimLeft, List.dropWhile_eq_nil_iff.mpr hBlank]
      rfl
  | cons c rest =>
      have hFront : trimLeft (c :: rest ++ trail) = c :: rest ++ trail :=
        trimLeft_of_head (h.head)
      rw [trim, List.append_assoc, trimLeft_append hLead, hFront, trimRight_append hTrail,
        trimRight_of_last h.last]

/-- Blanks around a text make no difference to what trimming leaves of it. -/
theorem trim_append (hLead : AllBlank lead) (hTrail : AllBlank trail) (text : List Char) :
    trim (lead ++ text ++ trail) = trim text := by
  obtain ⟨front, back, hFront, hBack, hText⟩ := exists_trim text
  have hOuter : lead ++ text ++ trail = lead ++ front ++ trim text ++ (back ++ trail) := by
    conv_lhs => rw [hText]
    simp only [List.append_assoc]
  rw [hOuter, trim_surrounded (hLead.append hFront) (hBack.append hTrail) (isTrimmed_trim text)]

/-- Trimmed parts with separators between them. -/
theorem isTrimmed_intercalate (separator : List Char) {parts : List (List Char)}
    (h : ∀ part ∈ parts, part ≠ [] ∧ IsTrimmed part) :
    IsTrimmed (separator.intercalate parts) := by
  induction parts with
  | nil => exact ⟨by simp [List.intercalate_nil], by simp [List.intercalate_nil]⟩
  | cons part parts ih =>
      obtain ⟨⟨hNe, hPart⟩, hParts⟩ := List.forall_mem_cons.mp h
      cases parts with
      | nil => simpa [List.intercalate] using hPart
      | cons next parts =>
          have hRest := ih hParts
          have hRestNe : separator.intercalate (next :: parts) ≠ [] := by
            obtain ⟨⟨hNext, -⟩, -⟩ := List.forall_mem_cons.mp hParts
            cases parts <;> simp [List.intercalate, hNext]
          rw [List.intercalate_cons_cons]
          constructor
          · rw [List.append_assoc, List.head?_append_of_ne_nil _ hNe]
            exact hPart.head
          · rw [List.getLast?_append_of_ne_nil _ hRestNe]
            exact hRest.last

end ClassSchema.Text
