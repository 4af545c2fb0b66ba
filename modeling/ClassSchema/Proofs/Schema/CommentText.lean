import ClassSchema.Proofs.Text.Trimming
import ClassSchema.Schema.Comment

/-!
# What is left of a doc comment

Cleaning a comment may take away blanks, stars and the slashes of its two delimiters.
An opening delimiter is found only behind leading blanks and a closing one only before
trailing blanks, so at most the first and the last slash are lost; a star that both
delimiters would need belongs to the opening one.

Stars are taken out wherever they stand.  A comment that was written from lines of
text, each behind a star of its own, therefore reads as these lines only if they have no
stars themselves.

## Main results

* `afterOpening_eq_some_iff`, `beforeClosing_eq_some_iff`: the delimiters.
* `substance_withoutDelimiters`: what delimiters take from a comment.
* `clean_keeps_substance`: what cleaning leaves of any text.
* `clean_rendered_iff`: which written lines come back.
-/

namespace ClassSchema.Comment

open ClassSchema.Text

variable {text lead trail inner rest pending : List Char}

/-! ## Delimiters -/

/-- A text that starts with an opening delimiter: blanks, a slash and a star. -/
def IsOpened (text : List Char) : Prop :=
  ∃ lead rest, AllBlank lead ∧ text = lead ++ '/' :: '*' :: rest

/-- A text that ends with a closing delimiter, a star and a slash before blanks.  In a slash, a
star and a slash the star opens the comment, and does not close it as well. -/
def IsClosed (text : List Char) : Prop :=
  ∃ front trail, AllBlank trail ∧ text = front ++ '*' :: '/' :: trail ∧
    ∀ lead, AllBlank lead → front ≠ lead ++ ['/']

private theorem takeWhile_star (text : List Char) :
    ∃ stars, text.takeWhile (· = '*') = List.replicate stars '*' :=
  ⟨_, List.eq_replicate_of_mem fun _ mem => by simpa using List.mem_takeWhile_imp mem⟩

private theorem takeWhile_replicate (stars : Nat) (hRest : ∀ c ∈ rest.head?, c ≠ '*') :
    (List.replicate stars '*' ++ rest).takeWhile (· = '*') = List.replicate stars '*' ∧
      (List.replicate stars '*' ++ rest).dropWhile (· = '*') = rest := by
  have hEnd : rest.takeWhile (· = '*') = [] ∧ rest.dropWhile (· = '*') = rest := by
    cases rest with
    | nil => exact ⟨rfl, rfl⟩
    | cons c rest => simp [hRest c rfl]
  constructor
  · rw [List.takeWhile_append_of_pos (by simp), hEnd.1, List.append_nil]
  · rw [List.dropWhile_append_of_pos (by simp), hEnd.2]

/-- The opening delimiter takes all stars behind its slash. -/
theorem afterOpening_eq_some_iff {stars : Nat} :
    afterOpening text = some (stars, rest) ↔
      ∃ lead, AllBlank lead ∧ text = lead ++ '/' :: (List.replicate stars '*' ++ rest) ∧
        0 < stars ∧ ∀ c ∈ rest.head?, c ≠ '*' := by
  constructor
  · intro h
    obtain ⟨lead, hLead, hText⟩ := exists_trimLeft text
    unfold afterOpening at h
    split at h
    · rename_i body hTrimmed
      simp only [Option.some.injEq, Prod.mk.injEq] at h
      obtain ⟨rfl, rfl⟩ := h
      obtain ⟨stars, hStars⟩ := takeWhile_star body
      refine ⟨lead, hLead, ?_, Nat.succ_pos _, ?_⟩
      · rw [hText, hTrimmed, hStars, List.length_replicate, List.replicate_succ, List.cons_append,
          ← hStars, List.takeWhile_append_dropWhile]
      · intro c hc
        have hNot := List.head?_dropWhile_not (· = '*') body
        rw [Option.mem_def.mp hc] at hNot
        simpa using hNot
    · cases h
  · rintro ⟨lead, hLead, rfl, hStars, hRest⟩
    obtain ⟨more, rfl⟩ := Nat.exists_eq_succ_of_ne_zero (Nat.pos_iff_ne_zero.mp hStars)
    have hTrimmed : trimLeft (lead ++ '/' :: (List.replicate (more + 1) '*' ++ rest)) =
        '/' :: '*' :: (List.replicate more '*' ++ rest) := by
      rw [trimLeft_append hLead, trimLeft_of_head (by simp; decide), List.replicate_succ,
        List.cons_append]
    obtain ⟨hTaken, hLeft⟩ := takeWhile_replicate more hRest
    simp only [afterOpening, hTrimmed, hTaken, hLeft, List.length_replicate]

/-- A closing delimiter is an opening one in the reversed text. -/
theorem beforeClosing_eq (text : List Char) :
    beforeClosing text = (afterOpening text.reverse).map fun found => found.2.reverse := by
  unfold beforeClosing afterOpening trimLeft
  split <;> simp_all

/-- The closing delimiter takes all stars in front of its slash. -/
theorem beforeClosing_eq_some_iff :
    beforeClosing text = some inner ↔
      ∃ stars trail, AllBlank trail ∧
        text = inner ++ (List.replicate stars '*' ++ '/' :: trail) ∧
        0 < stars ∧ ∀ c ∈ inner.getLast?, c ≠ '*' := by
  simp only [beforeClosing_eq, Option.map_eq_some_iff, Prod.exists, afterOpening_eq_some_iff]
  constructor
  · rintro ⟨stars, back, ⟨lead, hLead, hText, hStars, hBack⟩, rfl⟩
    refine ⟨stars, lead.reverse, hLead.reverse, ?_, hStars, by simpa using hBack⟩
    rw [← List.reverse_inj, hText]
    simp
  · rintro ⟨stars, trail, hTrail, rfl, hStars, hInner⟩
    refine ⟨stars, inner.reverse, ⟨trail.reverse, hTrail.reverse, ?_, hStars, ?_⟩, by simp⟩
    · simp
    · simpa using hInner

theorem isOpened_iff : IsOpened text ↔ (afterOpening text).isSome := by
  constructor
  · rintro ⟨lead, rest, hLead, rfl⟩
    have hTrimmed : trimLeft (lead ++ '/' :: '*' :: rest) = '/' :: '*' :: rest := by
      rw [trimLeft_append hLead, trimLeft_of_head (by simp; decide)]
    simp only [afterOpening, hTrimmed, Option.isSome_some]
  · intro h
    obtain ⟨⟨stars, rest⟩, hFound⟩ := Option.isSome_iff_exists.mp h
    obtain ⟨lead, hLead, hText, hStars, -⟩ := afterOpening_eq_some_iff.mp hFound
    obtain ⟨more, rfl⟩ := Nat.exists_eq_succ_of_ne_zero (Nat.pos_iff_ne_zero.mp hStars)
    exact ⟨lead, _, hLead, hText⟩

theorem beforeClosing_isSome_iff :
    (beforeClosing text).isSome ↔
      ∃ front trail, AllBlank trail ∧ text = front ++ '*' :: '/' :: trail := by
  rw [beforeClosing_eq, Option.isSome_map, ← isOpened_iff]
  constructor
  · rintro ⟨lead, rest, hLead, hText⟩
    refine ⟨rest.reverse, lead.reverse, hLead.reverse, ?_⟩
    rw [← List.reverse_inj, hText]
    simp
  · rintro ⟨front, trail, hTrail, rfl⟩
    exact ⟨trail.reverse, front.reverse, hTrail.reverse, by simp⟩

/-- Nothing but a slash in a text that is trimmed at its back. -/
theorem trimRight_eq_slash_iff :
    trimRight text = ['/'] ↔ ∃ trail, AllBlank trail ∧ text = '/' :: trail := by
  constructor
  · intro h
    obtain ⟨trail, hTrail, hText⟩ := exists_trimRight text
    exact ⟨trail, hTrail, by rw [hText, h]; rfl⟩
  · rintro ⟨trail, hTrail, rfl⟩
    rw [← List.singleton_append, trimRight_append hTrail]
    have hSlash : IsTrimmed ['/'] := by decide
    exact trimRight_of_last hSlash.last

/-- A star and a slash close a text that has another star in front of them. -/
private theorem isClosed_of_star {front : List Char} (hTrail : AllBlank trail)
    (hText : text = front ++ '*' :: '/' :: trail) (hStar : '*' ∈ front) : IsClosed text := by
  refine ⟨front, trail, hTrail, hText, ?_⟩
  rintro lead hLead rfl
  have hBlanks : '*' ∈ lead := by simpa using hStar
  exact hLead.notMem (by decide) hBlanks

/-- Without an opening delimiter every star and slash at the end close the text. -/
theorem isClosed_of_not_isOpened (h : ¬ IsOpened text) :
    IsClosed text ↔ (beforeClosing text).isSome := by
  rw [beforeClosing_isSome_iff]
  constructor
  · rintro ⟨front, trail, hTrail, hText, -⟩
    exact ⟨front, trail, hTrail, hText⟩
  · rintro ⟨front, trail, hTrail, hText⟩
    refine ⟨front, trail, hTrail, hText, ?_⟩
    rintro lead hLead rfl
    exact h ⟨lead, '/' :: trail, hLead, by rw [hText]; simp⟩

/-- Behind an opening delimiter, a text is closed by the closing delimiter of what follows, or by
a slash that takes the last of several stars. -/
theorem isClosed_of_afterOpening {stars : Nat} (h : afterOpening text = some (stars, rest)) :
    IsClosed text ↔ (beforeClosing rest).isSome ∨ 2 ≤ stars ∧ trimRight rest = ['/'] := by
  obtain ⟨lead, hLead, hText, hStars, -⟩ := afterOpening_eq_some_iff.mp h
  rw [beforeClosing_isSome_iff, trimRight_eq_slash_iff]
  constructor
  · rintro ⟨front, trail, hTrail, hClosed, hOwn⟩
    have hEqual : (lead ++ '/' :: List.replicate stars '*') ++ rest =
        front ++ '*' :: '/' :: trail := by
      rw [← hClosed, hText]
      simp
    rcases List.append_eq_append_iff.mp hEqual with ⟨body, -, hRest⟩ | ⟨shared, hFront, hBack⟩
    · exact .inl ⟨body, trail, hTrail, hRest⟩
    -- `shared` is the part of the closing delimiter that belongs to the opening one
    rcases List.cons_eq_append_iff.mp hBack with ⟨rfl, hRest⟩ | ⟨shared, rfl, hSlash⟩
    · exact .inl ⟨[], trail, hTrail, hRest⟩
    rcases List.cons_eq_append_iff.mp hSlash with ⟨rfl, hRest⟩ | ⟨shared, rfl, hTail⟩
    · refine .inr ⟨?_, trail, hTrail, hRest⟩
      by_contra hFew
      obtain rfl : stars = 1 := by omega
      exact hOwn lead hLead (List.append_cancel_right (by simpa using hFront.symm))
    · -- the opening delimiter ends with a star, and what it shares with the closing one does not
      have hShared : '*' ∉ '/' :: shared := by
        rw [hTail] at hTrail
        have hNone : '*' ∉ shared ++ rest := hTrail.notMem (by decide)
        simpa using fun mem => hNone (List.mem_append_left rest mem)
      have hLast : '*' ∈ ('/' :: shared).getLast? := by
        obtain ⟨more, rfl⟩ := Nat.exists_eq_succ_of_ne_zero (Nat.pos_iff_ne_zero.mp hStars)
        have hSame := congrArg List.getLast? hFront
        rw [List.replicate_succ', ← List.cons_append, ← List.append_assoc, List.getLast?_concat,
          List.getLast?_append_of_ne_nil _ (List.cons_ne_nil _ _), List.getLast?_cons_cons] at hSame
        exact hSame.symm
      exact absurd (List.mem_of_getLast? hLast) hShared
  · rintro (⟨front, trail, hTrail, rfl⟩ | ⟨hSome, trail, hTrail, rfl⟩)
    · have hWhole : text =
          lead ++ '/' :: (List.replicate stars '*' ++ front) ++ '*' :: '/' :: trail := by
        rw [hText]
        simp
      exact isClosed_of_star hTrail hWhole (by simp [Nat.pos_iff_ne_zero.mp hStars])
    · obtain ⟨more, rfl⟩ := Nat.exists_eq_add_of_le' hSome
      have hWhole : text =
          lead ++ '/' :: List.replicate (more + 1) '*' ++ '*' :: '/' :: trail := by
        rw [hText]
        simp [List.replicate_succ']
      exact isClosed_of_star hTrail hWhole (by simp)

instance (text : List Char) : Decidable (IsOpened text) := decidable_of_iff _ isOpened_iff.symm

instance (text : List Char) : Decidable (IsClosed text) :=
  match hOpening : afterOpening text with
  | none =>
      decidable_of_iff _ (isClosed_of_not_isOpened (by simp [isOpened_iff, hOpening])).symm
  | some _ => decidable_of_iff _ (isClosed_of_afterOpening hOpening).symm

/-! ## Substance -/

/-- The characters of a text that are neither blanks nor stars. -/
def substance (text : List Char) : List Char := text.filter fun c => !isBlank c && c != '*'

@[simp] theorem substance_append (first second : List Char) :
    substance (first ++ second) = substance first ++ substance second := List.filter_append ..

@[simp] theorem substance_slash (text : List Char) :
    substance ('/' :: text) = '/' :: substance text := List.filter_cons_of_pos (by decide)

@[simp] theorem substance_star (text : List Char) : substance ('*' :: text) = substance text :=
  List.filter_cons_of_neg (by decide)

@[simp] theorem substance_stars (stars : Nat) : substance (List.replicate stars '*') = [] := by
  simp [substance]

@[simp] theorem substance_trim (text : List Char) : substance (trim text) = substance text :=
  filter_trim (fun c hc => by simp [hc]) text

theorem substance_of_allBlank (h : AllBlank text) : substance text = [] :=
  List.filter_eq_nil_iff.mpr fun c mem => by simp [h c mem]

/-- A text without the slashes of its delimiters: without its first slash if it is opened, and
without its last one if it is closed. -/
def withoutSlashes (text : List Char) : List Char :=
  let unopened := if IsOpened text then text.erase '/' else text
  if IsClosed text then (unopened.reverse.erase '/').reverse else unopened

/-- The first slash of a text that starts with blanks and a slash. -/
private theorem erase_slash (hLead : AllBlank lead) (rest : List Char) :
    (lead ++ '/' :: rest).erase '/' = lead ++ rest := by
  rw [List.erase_append_right _ (hLead.notMem (by decide)), List.erase_cons_head]

/-- The last slash of a text that ends with a slash and blanks. -/
private theorem erase_last_slash (hTrail : AllBlank trail) (front : List Char) :
    ((front ++ '/' :: trail).reverse.erase '/').reverse = front ++ trail := by
  have hReversed : (front ++ '/' :: trail).reverse = trail.reverse ++ '/' :: front.reverse := by
    simp
  rw [hReversed, erase_slash hTrail.reverse]
  simp

/-- An opening delimiter without its slash has no substance. -/
private theorem exists_erase_slash {stars : Nat} (h : afterOpening text = some (stars, rest)) :
    ∃ opening, substance opening = [] ∧ text.erase '/' = opening ++ rest := by
  obtain ⟨lead, hLead, rfl, -, -⟩ := afterOpening_eq_some_iff.mp h
  refine ⟨lead ++ List.replicate stars '*', by simp [substance_of_allBlank hLead], ?_⟩
  rw [erase_slash hLead, List.append_assoc]

/-- A closing delimiter without its slash has no substance. -/
private theorem substance_erase_last_slash (h : beforeClosing text = some inner)
    (front : List Char) :
    substance ((front ++ text).reverse.erase '/').reverse = substance front ++ substance inner := by
  obtain ⟨stars, trail, hTrail, rfl, -, -⟩ := beforeClosing_eq_some_iff.mp h
  rw [← List.append_assoc, ← List.append_assoc, erase_last_slash hTrail]
  simp [substance_of_allBlank hTrail]

/-- Delimiters take a slash each, and stars and blanks. -/
theorem substance_withoutDelimiters (text : List Char) :
    substance (withoutDelimiters text) = substance (withoutSlashes text) := by
  cases hOpening : afterOpening text with
  | none =>
      have hUnopened : ¬ IsOpened text := by simp [isOpened_iff, hOpening]
      have hClosed := isClosed_of_not_isOpened hUnopened
      cases hClosing : beforeClosing text with
      | none => simp [withoutDelimiters, withoutSlashes, hOpening, hUnopened, hClosed, hClosing]
      | some inner =>
          have hClosed := hClosed.mpr (by simp [hClosing])
          simp only [withoutDelimiters, withoutSlashes, hOpening, hClosing, if_neg hUnopened,
            if_pos hClosed, Option.getD_some]
          exact (substance_erase_last_slash hClosing []).symm
  | some found =>
      obtain ⟨stars, rest⟩ := found
      have hOpened : IsOpened text := by simp [isOpened_iff, hOpening]
      have hClosed := isClosed_of_afterOpening hOpening
      obtain ⟨opening, hEmpty, hErased⟩ := exists_erase_slash hOpening
      cases hClosing : beforeClosing rest with
      | some inner =>
          have hClosed := hClosed.mpr (.inl (by simp [hClosing]))
          simp only [withoutDelimiters, withoutSlashes, hOpening, hClosing, if_pos hOpened,
            if_pos hClosed, hErased]
          rw [substance_erase_last_slash hClosing, hEmpty, List.nil_append]
      | none =>
          rw [hClosing, Option.isSome_none, Bool.false_eq_true, false_or] at hClosed
          by_cases hShared : 2 ≤ stars ∧ trimRight rest = ['/']
          · obtain ⟨trail, hTrail, rfl⟩ := trimRight_eq_slash_iff.mp hShared.2
            simp only [withoutDelimiters, withoutSlashes, hOpening, hClosing, if_pos hOpened,
              if_pos (hClosed.mpr hShared), hErased, ge_iff_le, if_pos hShared,
              erase_last_slash hTrail]
            rw [substance_append, hEmpty, substance_of_allBlank hTrail]
            rfl
          · simp only [withoutDelimiters, withoutSlashes, hOpening, hClosing, if_pos hOpened,
              if_neg (hClosed.not.mpr hShared), hErased, ge_iff_le, if_neg hShared]
            simp [hEmpty]

/-! ## Stars -/

theorem notMem_withoutStarsFrom (h : '*' ∉ pending) (text : List Char) :
    '*' ∉ withoutStarsFrom pending text := by
  induction text generalizing pending with
  | nil => simpa [withoutStarsFrom] using h
  | cons c rest ih =>
      rw [withoutStarsFrom]
      split_ifs with hStar hBlank
      · exact ih (by simp)
      · exact ih (by simpa [Ne.symm hStar] using h)
      · have hRest : '*' ∉ withoutStarsFrom [] rest := ih (by simp)
        simp [h, Ne.symm hStar, hRest]

theorem withoutStarsFrom_of_notMem (h : '*' ∉ text) (pending : List Char) :
    withoutStarsFrom pending text = pending.reverse ++ text := by
  induction text generalizing pending with
  | nil => simp [withoutStarsFrom]
  | cons c rest ih =>
      obtain ⟨hStar, hRest⟩ : '*' ≠ c ∧ '*' ∉ rest := by simpa using h
      rw [withoutStarsFrom, if_neg hStar.symm]
      split
      · rw [ih hRest]
        simp
      · rw [ih hRest]
        simp

theorem withoutStars_of_notMem (h : '*' ∉ text) : withoutStars text = text :=
  withoutStarsFrom_of_notMem h []

theorem substance_withoutStarsFrom (hPending : AllBlank pending) (text : List Char) :
    substance (withoutStarsFrom pending text) = substance text := by
  induction text generalizing pending with
  | nil => exact substance_of_allBlank hPending.reverse
  | cons c rest ih =>
      have hNone : AllBlank [] := by simp [AllBlank]
      rw [withoutStarsFrom]
      split_ifs with hStar hBlank
      · rw [hStar, ih hNone, substance_star]
      · have hMore : AllBlank (c :: pending) := List.forall_mem_cons.mpr ⟨hBlank, hPending⟩
        rw [ih hMore, ← List.singleton_append, substance_append,
          substance_of_allBlank (List.forall_mem_singleton.mpr hBlank), List.nil_append]
      · rw [substance_append, substance_of_allBlank hPending.reverse, List.nil_append,
          ← List.singleton_append, substance_append, ih hNone, ← substance_append,
          List.singleton_append]

/-! ## Cleaning -/

/-- A text without stars has no delimiters. -/
theorem withoutDelimiters_of_notMem (h : '*' ∉ text) : withoutDelimiters text = text := by
  have hOpening : afterOpening text = none := by
    rw [← Option.not_isSome_iff_eq_none, ← isOpened_iff]
    rintro ⟨lead, rest, -, rfl⟩
    simp at h
  have hClosing : beforeClosing text = none := by
    rw [← Option.not_isSome_iff_eq_none, beforeClosing_isSome_iff]
    rintro ⟨front, trail, -, rfl⟩
    simp at h
  simp [withoutDelimiters, hOpening, hClosing]

/-- What cleaning returns: a trimmed text without stars. -/
theorem cleanChars_spec (text : List Char) :
    IsTrimmed (cleanChars text) ∧ '*' ∉ cleanChars text := by
  refine ⟨isTrimmed_trim _, fun mem => ?_⟩
  have hNone : '*' ∉ withoutStars (trim (withoutDelimiters text)) :=
    notMem_withoutStarsFrom (by simp) _
  exact hNone (mem_of_mem_trim mem)

theorem cleanChars_eq_self (hTrimmed : IsTrimmed text) (hStars : '*' ∉ text) :
    cleanChars text = text := by
  rw [cleanChars, withoutDelimiters_of_notMem hStars, hTrimmed.trim, withoutStars_of_notMem hStars,
    hTrimmed.trim]

/-- Cleaning loses no text: what it returns has no blanks at its ends and does not change when it
is cleaned again, and no character gets lost or added but blanks, stars and the slashes of
the two delimiters. -/
theorem clean_keeps_substance (comment : String) :
    IsTrimmed (clean comment).toList ∧ clean (clean comment) = clean comment ∧
      substance (clean comment).toList = substance (withoutSlashes comment.toList) := by
  obtain ⟨hTrimmed, hStars⟩ := cleanChars_spec comment.toList
  refine ⟨?_, ?_, ?_⟩
  · rwa [clean, String.toList_ofList]
  · rw [clean, clean, String.toList_ofList, cleanChars_eq_self hTrimmed hStars]
  · have hNone : AllBlank [] := by simp [AllBlank]
    rw [clean, String.toList_ofList, cleanChars, substance_trim, withoutStars,
      substance_withoutStarsFrom hNone, substance_trim, substance_withoutDelimiters]

/-! ## Written comments -/

/-- Blanks at the front of a text get lost or stay in front of what is left of it. -/
private theorem exists_withoutStarsFrom_append (earlier pending text : List Char) :
    ∃ lead, (lead = [] ∨ lead = earlier.reverse) ∧
      withoutStarsFrom (pending ++ earlier) text = lead ++ withoutStarsFrom pending text := by
  induction text generalizing pending with
  | nil => exact ⟨earlier.reverse, .inr rfl, List.reverse_append⟩
  | cons c rest ih =>
      simp only [withoutStarsFrom]
      split_ifs
      · exact ⟨[], .inl rfl, rfl⟩
      · exact ih (c :: pending)
      · exact ⟨earlier.reverse, .inr rfl, by simp⟩

private theorem withoutStarsFrom_blanks (hLead : AllBlank lead) (pending rest : List Char) :
    withoutStarsFrom pending (lead ++ rest) = withoutStarsFrom (lead.reverse ++ pending) rest := by
  induction lead generalizing pending with
  | nil => rfl
  | cons c lead ih =>
      obtain ⟨hc, hLead⟩ := List.forall_mem_cons.mp hLead
      have hStar : c ≠ '*' := by
        rintro rfl
        exact absurd hc (by decide)
      rw [List.cons_append, withoutStarsFrom, if_neg hStar, if_pos hc, ih hLead]
      simp

private theorem withoutStarsFrom_append (hTrail : AllBlank trail) (pending text : List Char) :
    withoutStarsFrom pending (text ++ trail) = withoutStarsFrom pending text ++ trail := by
  induction text generalizing pending with
  | nil => exact withoutStarsFrom_of_notMem (hTrail.notMem (by decide)) pending
  | cons c rest ih =>
      simp only [List.cons_append, withoutStarsFrom, ih]
      split_ifs <;> simp

/-- It makes no difference whether a text is trimmed before its stars are taken out. -/
theorem trim_withoutStars_trim (text : List Char) :
    trim (withoutStars (trim text)) = trim (withoutStars text) := by
  obtain ⟨lead, trail, hLead, hTrail, hText⟩ := exists_trim text
  obtain ⟨front, hFront, hKept⟩ :=
    exists_withoutStarsFrom_append lead.reverse [] (trim text ++ trail)
  have hBlank : AllBlank front := by
    rcases hFront with rfl | rfl
    · simp [AllBlank]
    · rwa [List.reverse_reverse]
  have hWhole : withoutStars text = front ++ withoutStars (trim text) ++ trail := by
    conv_lhs => rw [hText, List.append_assoc, withoutStars, withoutStarsFrom_blanks hLead]
    rw [List.append_nil, ← List.nil_append lead.reverse, hKept, withoutStarsFrom_append hTrail,
      withoutStars, List.append_assoc]
  rw [hWhole, trim_append hBlank hTrail]

/-- A character that is kept stands between what is left of the text before it and of the text
behind it. -/
private theorem exists_withoutStarsFrom {c : Char} (hBlank : isBlank c = false) (hStar : c ≠ '*')
    (front pending : List Char) :
    ∃ kept, ∀ rest, withoutStarsFrom pending (front ++ c :: rest) =
      kept ++ c :: withoutStars rest := by
  induction front generalizing pending with
  | nil =>
      refine ⟨pending.reverse, fun rest => ?_⟩
      simp [withoutStarsFrom, hStar, hBlank, withoutStars]
  | cons d front ih =>
      simp only [List.cons_append, withoutStarsFrom]
      split_ifs
      · exact ih []
      · exact ih (d :: pending)
      · obtain ⟨kept, hKept⟩ := ih []
        exact ⟨pending.reverse ++ d :: kept, fun rest => by simp [hKept]⟩

/-- A doc comment with the lines of a text, each behind a star of its own. -/
def rendered (lines : List String) : String :=
  "/**\n" ++ String.join (lines.map fun line => " * " ++ line ++ "\n") ++ " */"

/-- A line of a text that is some text between two characters that are neither blanks nor stars,
or one such character. -/
structure IsLine (line : String) : Prop where
  ne_empty : line ≠ ""
  trimmed : IsTrimmed line.toList
  head : '*' ∉ line.toList.head?
  last : '*' ∉ line.toList.getLast?

/-- What is left of a line. -/
theorem IsLine.withoutStars {line : String} (h : IsLine line) :
    Comment.withoutStars line.toList ≠ [] ∧ IsTrimmed (Comment.withoutStars line.toList) ∧
      ∀ rest, Comment.withoutStars (' ' :: (line.toList ++ rest)) =
        ' ' :: (Comment.withoutStars line.toList ++ Comment.withoutStars rest) := by
  have hNe : line.toList ≠ [] := by simpa using h.ne_empty
  obtain ⟨c, tail, hHead⟩ := List.exists_cons_of_ne_nil hNe
  obtain ⟨front, d, hLast⟩ := (List.eq_nil_or_concat' line.toList).resolve_left hNe
  have hcBlank : isBlank c = false := h.trimmed.head c (by rw [hHead]; rfl)
  have hcStar : c ≠ '*' := fun hSame => h.head (by simp [hHead, hSame])
  have hdBlank : isBlank d = false := h.trimmed.last d (by simp [hLast])
  have hdStar : d ≠ '*' := fun hSame => h.last (by simp [hLast, hSame])
  obtain ⟨kept, hKept⟩ := exists_withoutStarsFrom hdBlank hdStar front []
  have starts (pending rest : List Char) :
      withoutStarsFrom pending (c :: rest) = pending.reverse ++ c :: Comment.withoutStars rest := by
    rw [withoutStarsFrom, if_neg hcStar, hcBlank]
    rfl
  have hFront : Comment.withoutStars line.toList = c :: Comment.withoutStars tail := by
    rw [hHead]
    exact starts [] tail
  have hBack : Comment.withoutStars line.toList = kept ++ [d] := by
    rw [hLast]
    exact hKept []
  refine ⟨by simp [hFront], ⟨?_, ?_⟩, fun rest => ?_⟩
  · simpa [hFront] using hcBlank
  · simpa [hBack] using hdBlank
  · have hBlank : Comment.withoutStars (' ' :: (line.toList ++ rest)) =
        ' ' :: Comment.withoutStars (line.toList ++ rest) := by
      rw [hHead]
      exact (starts [' '] _).trans (congrArg _ (starts [] _).symm)
    rw [hBlank, hBack, hLast, List.append_assoc, List.append_assoc]
    exact congrArg _ (hKept rest)

/-- Lines of a text as they stand between the delimiters of a comment, each behind a line break
and a star. -/
def marked (lines : List String) : List Char :=
  lines.flatMap fun line => '\n' :: ' ' :: '*' :: ' ' :: line.toList

private theorem withoutStars_marked {lines : List String} (h : ∀ line ∈ lines, IsLine line)
    (rest : List Char) :
    withoutStars (marked lines ++ rest) =
      lines.flatMap (fun line => ' ' :: withoutStars line.toList) ++ withoutStars rest := by
  induction lines with
  | nil => rfl
  | cons line lines ih =>
      obtain ⟨hLine, hLines⟩ := List.forall_mem_cons.mp h
      obtain ⟨-, -, hRest⟩ := hLine.withoutStars
      have hMark (text : List Char) :
          withoutStars ('\n' :: ' ' :: '*' :: text) = withoutStars text := rfl
      rw [marked, List.flatMap_cons, List.flatMap_cons, List.append_assoc]
      simp only [List.cons_append]
      rw [hMark, hRest, ← marked, ih hLines, List.append_assoc]

/-- The text between the delimiters of a written comment. -/
private theorem withoutDelimiters_rendered (lines : List String) :
    withoutDelimiters (rendered lines).toList = marked lines ++ ['\n', ' '] := by
  -- the line break behind the opening delimiter is the one in front of the first star
  have hBody : '\n' :: lines.flatMap (fun line => ' ' :: '*' :: ' ' :: (line.toList ++ ['\n'])) =
      marked lines ++ ['\n'] := by
    induction lines with
    | nil => rfl
    | cons line lines ih => simp [marked, ih]
  have hText : (rendered lines).toList =
      '/' :: '*' :: '*' :: (marked lines ++ ['\n', ' ', '*', '/']) := by
    have hLines : (rendered lines).toList = '/' :: '*' :: '*' :: '\n' ::
        (lines.flatMap (fun line => ' ' :: '*' :: ' ' :: (line.toList ++ ['\n'])) ++
          [' ', '*', '/']) := by
      simp [rendered, String.toList_join, List.flatMap_map]
    rw [hLines, ← List.cons_append, hBody]
    simp
  have hOpening : afterOpening (rendered lines).toList =
      some (2, marked lines ++ ['\n', ' ', '*', '/']) := by
    refine afterOpening_eq_some_iff.mpr ⟨[], by decide, hText, by decide, ?_⟩
    cases lines <;> simp [marked]
  have hClosing : beforeClosing (marked lines ++ ['\n', ' ', '*', '/']) =
      some (marked lines ++ ['\n', ' ']) :=
    beforeClosing_eq_some_iff.mpr ⟨1, [], by decide, by simp, by decide, by simp⟩
  simp only [withoutDelimiters, hOpening, hClosing]

/-- Parts behind separators of one blank are a blank and the joined parts. -/
private theorem flatMap_blank {parts : List (List Char)} (h : parts ≠ []) :
    parts.flatMap (' ' :: ·) = ' ' :: [' '].intercalate parts := by
  induction parts with
  | nil => exact absurd rfl h
  | cons part parts ih =>
      cases parts with
      | nil => simp [List.intercalate]
      | cons next parts =>
          rw [List.flatMap_cons, ih (List.cons_ne_nil _ _), List.intercalate_cons_cons]
          simp

/-- A written comment reads as what is left of its lines. -/
theorem clean_rendered {lines : List String} (h : ∀ line ∈ lines, IsLine line) :
    (clean (rendered lines)).toList =
      [' '].intercalate (lines.map fun line => withoutStars line.toList) := by
  have hTrail : AllBlank ['\n', ' '] := by decide
  have hTrimmed :
      IsTrimmed ([' '].intercalate (lines.map fun line => withoutStars line.toList)) := by
    apply isTrimmed_intercalate
    intro part mem
    obtain ⟨line, hLine, rfl⟩ := List.mem_map.mp mem
    exact ⟨(h line hLine).withoutStars.1, (h line hLine).withoutStars.2.1⟩
  rw [clean, String.toList_ofList, cleanChars, withoutDelimiters_rendered, trim_withoutStars_trim,
    withoutStars_marked h, withoutStars_of_notMem (by decide)]
  cases lines with
  | nil => rfl
  | cons line lines =>
      have hJoined : (line :: lines).flatMap (fun line => ' ' :: withoutStars line.toList) =
          [' '] ++ [' '].intercalate
            ((line :: lines).map fun line => withoutStars line.toList) := by
        rw [← List.flatMap_map (f := fun line => withoutStars (String.toList line))]
        exact flatMap_blank (List.cons_ne_nil _ _)
      rw [hJoined]
      exact trim_surrounded (by decide) hTrail hTrimmed

/-- A part of joined parts. -/
private theorem mem_intercalate {separator part : List Char} {parts : List (List Char)} {c : Char}
    (mem : part ∈ parts) (hChar : c ∈ part) : c ∈ separator.intercalate parts := by
  induction parts with
  | nil => cases mem
  | cons head parts ih =>
      cases parts with
      | nil => simp_all [List.intercalate]
      | cons next parts =>
          rw [List.intercalate_cons_cons]
          rcases List.mem_cons.mp mem with rfl | mem
          · simp [hChar]
          · exact List.mem_append_right _ (ih mem)

/-- Exactly the lines without stars come back from the comment that was written from them. -/
theorem clean_rendered_iff {lines : List String} (h : ∀ line ∈ lines, IsLine line) :
    clean (rendered lines) = " ".intercalate lines ↔ ∀ line ∈ lines, '*' ∉ line.toList := by
  constructor
  · intro hSame line mem hStar
    have hNone : '*' ∉ (clean (rendered lines)).toList := by
      rw [clean, String.toList_ofList]
      exact (cleanChars_spec _).2
    rw [hSame, String.toList_intercalate] at hNone
    exact hNone (mem_intercalate (List.mem_map_of_mem mem) hStar)
  · intro hStars
    have hLines : lines.map (fun line => withoutStars line.toList) = lines.map String.toList :=
      List.map_congr_left fun line mem => withoutStars_of_notMem (hStars line mem)
    rw [← String.toList_inj, clean_rendered h, String.toList_intercalate, hLines]
    rfl

/-- Lines without stars, one with a slash in it. -/
theorem clean_rendered_words :
    (∀ line ∈ ["Name of the user", "at most 64 / 8"], IsLine line) ∧
      clean (rendered ["Name of the user", "at most 64 / 8"]) =
        "Name of the user at most 64 / 8" := by
  have hLines : ∀ line ∈ ["Name of the user", "at most 64 / 8"], IsLine line := by
    simp only [List.mem_cons, List.not_mem_nil, or_false, forall_eq_or_imp, forall_eq]
    constructor
    · exact ⟨by decide, by decide, by decide, by decide⟩
    · exact ⟨by decide, by decide, by decide, by decide⟩
  exact ⟨hLines, (clean_rendered_iff hLines).mpr (by decide)⟩

/-- A product loses its star and the blank in front of it. -/
theorem clean_rendered_product :
    IsLine "2 * 3" ∧ '\n' ∉ "2 * 3".toList ∧ ¬ ['*', '/'] <:+: "2 * 3".toList ∧
      clean (rendered ["2 * 3"]) = "2 3" ∧
      clean (rendered ["2 * 3"]) ≠ " ".intercalate ["2 * 3"] := by
  have hLine : IsLine "2 * 3" := ⟨by decide, by decide, by decide, by decide⟩
  exact ⟨hLine, by decide, by decide, by decide, by decide⟩

end ClassSchema.Comment
