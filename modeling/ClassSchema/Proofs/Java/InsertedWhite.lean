import ClassSchema.Proofs.Java.LexemeEnds

/-!
# White space behind a lexeme

White space put into a text behind a lexeme leaves the lexeme what it is, wherever in the
text behind it that is.  No mark goes on behind white space, and no run of other
characters does; so every search for the end of a lexeme finds what it found, or nothing
as before.  Only white space itself and comments to the end of a line go on into white
space right behind them.

## Main results

* `Reads.inserted`: a lexeme in front of a text into which white space is put.
-/

namespace ClassSchema.Java

open ClassSchema.Text

/-! ## Searches that go on as before -/

/-- White space, or nothing. -/
def IsWhite (text : List Char) : Prop := ∀ c ∈ text, isLayout c = true

/-- A search finds the same as before, unless that reached up to a limit. -/
def Keeps {α : Type} (reach : α → Nat) (limit : Nat) (before after : Option α) : Prop :=
  (∀ found ∈ before, reach found < limit) → after = before

namespace Keeps

variable {α β : Type} {reach : α → Nat} {limit : Nat} {before after : Option α}

theorem same (found : Option α) : Keeps reach limit found found := fun _ => rfl

theorem none (h : ∀ found ∈ before, limit ≤ reach found) (hAfter : after = .none) :
    Keeps reach limit before after := by
  intro hWithin
  cases before with
  | none => exact hAfter
  | some found => exact absurd (hWithin found rfl) (Nat.not_lt.mpr (h found rfl))

theorem mono {lower : Nat} (h : Keeps reach limit before after) (hLower : lower ≤ limit) :
    Keeps reach lower before after :=
  fun hWithin => h fun found mem => Nat.lt_of_lt_of_le (hWithin found mem) hLower

theorem or {later later' : Option α} (h : Keeps reach limit before after)
    (hLater : Keeps reach limit later later') :
    Keeps reach limit (before.or later) (after.or later') := by
  intro hWithin
  cases before with
  | some found =>
      rw [h fun other mem => hWithin other mem]
      rfl
  | none =>
      rw [h fun _ mem => nomatch mem]
      exact hLater hWithin

theorem map {f : α → β} {reach' : β → Nat} {limit' : Nat}
    (h : Keeps reach limit before after)
    (hReach : ∀ found, reach' (f found) < limit' → reach found < limit) :
    Keeps reach' limit' (before.map f) (after.map f) := by
  intro hWithin
  rw [h fun found mem => hReach found (hWithin (f found) (Option.mem_map_of_mem f mem))]

end Keeps

/-! ## Behind white space -/

section Inserted

variable {blank : List Char} (hBlank : blank ≠ []) (hWhite : IsWhite blank)

include hBlank hWhite

/-- What holds of no white space does not hold behind a place where some begins. -/
private theorem head_inserted {test : Char → Bool} (hTest : ∀ c, isLayout c = true → test c = false)
    (back : List Char) : ∀ c ∈ (blank ++ back).head?, test c = false := by
  obtain ⟨first, others, rfl⟩ := List.exists_cons_of_ne_nil hBlank
  intro c mem
  cases mem
  exact hTest first (hWhite first List.mem_cons_self)

/-- A mark without white space does not go on behind white space. -/
private theorem prefix_of_prefix_inserted {mark front back : List Char}
    (hMark : mark.any isLayout = false) (h : mark <+: front ++ (blank ++ back)) :
    mark <+: front := by
  rcases Nat.lt_or_ge front.length mark.length with hLonger | hShorter
  · obtain ⟨first, others, rfl⟩ := List.exists_cons_of_ne_nil hBlank
    have hFirst : front ++ [first] <+: mark :=
      List.prefix_of_prefix_length_le ⟨others ++ back, by simp⟩ h
        (by rw [List.length_append]; exact hLonger)
    have hLayout := List.any_eq_false.mp hMark first (hFirst.subset (by simp))
    exact absurd (hWhite first List.mem_cons_self) hLayout
  · exact List.prefix_of_prefix_length_le h (List.prefix_append _ _) hShorter

/-- A mark that stands behind white space or in front of it is found without it. -/
private theorem through_ne_none {mark front back : List Char} (hNonempty : mark ≠ [])
    (hMark : mark.any isLayout = false) (h : mark <:+: front ++ (blank ++ back)) :
    through mark (front ++ back) ≠ none := by
  have hFound : ∀ before after, front ++ back = before ++ (mark ++ after) →
      through mark (front ++ back) ≠ none := by
    intro before after hText
    obtain ⟨size, hSize, -⟩ := exists_through hNonempty before after
    rw [hText, hSize]
    exact Option.some_ne_none size
  obtain ⟨before, after, hText⟩ := h
  rw [List.append_assoc] at hText
  rcases List.append_eq_append_iff.mp hText with ⟨inside, rfl, hBehind⟩ | ⟨tail, rfl, hBehind⟩
  · -- the mark begins in front of the white space
    have hInside : mark <+: inside :=
      prefix_of_prefix_inserted hBlank hWhite hMark ⟨after, hBehind⟩
    obtain ⟨left, rfl⟩ := hInside
    exact hFound before (left ++ back) (by simp)
  rcases List.append_eq_append_iff.mp hBehind with ⟨left, rfl, rfl⟩ | ⟨left, rfl, hMarked⟩
  · exact hFound (front ++ left) after (by rw [List.append_assoc])
  · cases left with
    | nil => exact hFound front after (by rw [hMarked, List.nil_append])
    | cons first left =>
        -- it cannot begin in it
        obtain ⟨c, others, rfl⟩ := List.exists_cons_of_ne_nil hNonempty
        obtain ⟨rfl, -⟩ := List.cons.inj hMarked
        have hLayout := List.any_eq_false.mp hMark c List.mem_cons_self
        exact absurd (hWhite c (by simp)) hLayout

/-- A mark is found where it was found, and nowhere else. -/
private theorem through_keeps {mark : List Char} (hNonempty : mark ≠ [])
    (hMark : mark.any isLayout = false) (front back : List Char) :
    Keeps id (front.length + 1) (through mark (front ++ back))
      (through mark (front ++ (blank ++ back))) := by
  intro hWithin
  cases hFound : through mark (front ++ back) with
  | some size =>
      have hSize : size ≤ front.length := Nat.le_of_lt_succ (hWithin size hFound)
      rw [through_append_iff hNonempty hSize] at hFound ⊢
      exact hFound
  | none =>
      rw [Option.eq_none_iff_forall_ne_some]
      intro size hSize
      obtain ⟨before, after, hText, -⟩ := eq_append_of_through hSize
      have hMarked : mark <:+: front ++ (blank ++ back) :=
        ⟨before, after, by rw [hText, List.append_assoc]⟩
      exact through_ne_none hBlank hWhite hNonempty hMark hMarked hFound

/-- What runs no further than to white space runs as far without it. -/
private theorem run_inserted {test : Char → Bool}
    (hTest : ∀ c, isLayout c = true → test c = false) {front back : List Char}
    (h : run test (front ++ back) ≤ front.length) :
    run test (front ++ (blank ++ back)) = run test (front ++ back) := by
  unfold run at h ⊢
  rw [takeWhile_append_of_head (head_inserted hBlank hWhite hTest back)]
  rw [List.takeWhile_append] at h ⊢
  split at h
  · next hAll =>
      rw [if_pos hAll, hAll]
      rw [List.length_append] at h ⊢
      omega
  · next hAll => rw [if_neg hAll]

omit hBlank hWhite in
/-- What stops inside of a text stops there, whatever follows. -/
private theorem run_of_lt {test : Char → Bool} {front back : List Char}
    (h : run test (front ++ back) < front.length) (next : List Char) :
    run test (front ++ next) = run test (front ++ back) := by
  unfold run at h ⊢
  rw [List.takeWhile_append] at h ⊢
  split at h
  · rw [List.length_append] at h
    omega
  · next hAll => rw [if_neg hAll, List.takeWhile_append, if_neg hAll]

/-! ### Text blocks and words -/

private theorem matchTextBlock_keeps (c : Char) (front back : List Char) :
    Keeps Prod.snd (front.length + 1) (matchTextBlock c (front ++ back))
      (matchTextBlock c (front ++ (blank ++ back))) := by
  by_cases hOpens : c = '"' ∧ ['"', '"'] <+: front
  · obtain ⟨rfl, rest, rfl⟩ := hOpens
    exact (through_keeps hBlank hWhite (by decide) (by decide) rest back).map fun more hMore => by
      simp only [id, List.length_append, List.length_cons, List.length_nil] at hMore ⊢
      omega
  · refine .none (fun found mem => ?_) (Option.eq_none_iff_forall_not_mem.mpr fun found mem => ?_)
    · obtain ⟨rfl, hQuotes, hFound⟩ := matchTextBlock_shape mem
      by_contra hShort
      refine hOpens ⟨rfl, List.prefix_of_prefix_length_le hQuotes (List.prefix_append _ _) ?_⟩
      simp only [List.length_cons, List.length_nil]
      omega
    · obtain ⟨rfl, hQuotes, -⟩ := matchTextBlock_shape mem
      exact hOpens ⟨rfl, prefix_of_prefix_inserted hBlank hWhite (by decide) hQuotes⟩

private theorem matchNonSealed_keeps {c : Char} {front back : List Char}
    (hSeam : WordsEnd (c :: front) back) :
    Keeps id (front.length + 1) (matchNonSealed c (front ++ back))
      (matchNonSealed c (front ++ (blank ++ back))) := by
  by_cases hWhole : nonSealed.toList <+: c :: front
  · obtain ⟨left, hLeft⟩ := hWhole
    have hMatch : ∀ next, matchNonSealed c (front ++ next) =
        if run isWord (left ++ next) = 0 then some (nonSealed.length - 1) else none := by
      intro next
      have hText : c :: (front ++ next) = nonSealed.toList ++ (left ++ next) := by
        rw [← List.append_assoc, hLeft, List.cons_append]
      have hPrefix : nonSealed.toList.isPrefixOf (c :: (front ++ next)) = true :=
        List.isPrefixOf_iff_prefix.mpr ⟨left ++ next, hText.symm⟩
      have hDrop : (c :: (front ++ next)).drop nonSealed.length = left ++ next := by
        rw [hText, ← String.length_toList, List.drop_left]
      rw [matchNonSealed, hDrop]
      simp only [hPrefix, true_and]
    have hSame : run isWord (left ++ (blank ++ back)) = 0 ↔ run isWord (left ++ back) = 0 := by
      rw [run_eq_zero_iff, run_eq_zero_iff]
      cases left with
      | cons first left => exact Iff.rfl
      | nil =>
          have hLast : (c :: front).getLast? = some 'd' := by rw [← hLeft]; decide
          have hBack := hSeam 'd' hLast (by decide)
          have hInserted := head_inserted hBlank hWhite isWord_of_isLayout back
          exact iff_of_true hInserted hBack
    rw [hMatch, hMatch]
    simp only [hSame]
    exact .same _
  · refine .none (fun found mem => ?_) (Option.eq_none_iff_forall_not_mem.mpr fun found mem => ?_)
    · obtain ⟨⟨hPrefix, -⟩, rfl⟩ := matchNonSealed_eq_some_iff.mp mem
      by_contra hShort
      refine hWhole (List.prefix_of_prefix_length_le hPrefix (List.prefix_append (c :: front) _) ?_)
      rw [String.length_toList, List.length_cons]
      simp only [id] at hShort
      omega
    · obtain ⟨⟨hPrefix, -⟩, -⟩ := matchNonSealed_eq_some_iff.mp mem
      exact hWhole (prefix_of_prefix_inserted hBlank hWhite (by decide) hPrefix)

omit hBlank hWhite in
private theorem takeWhile_wordsEnd {front back : List Char} (h : WordsEnd front back)
    (hFront : front ≠ []) : (front ++ back).takeWhile isWord = front.takeWhile isWord := by
  rw [List.takeWhile_append]
  split
  · next hAll =>
      have hWhole : front.takeWhile isWord = front :=
        (List.takeWhile_prefix isWord).eq_of_length hAll
      have hLast := List.takeWhile_eq_self_iff.mp hWhole _ (List.getLast_mem hFront)
      have hBack := h _ (List.getLast?_eq_some_getLast hFront) hLast
      have hNone : back.takeWhile isWord = [] :=
        List.length_eq_zero_iff.mp (run_eq_zero_iff.mpr hBack)
      rw [hNone, List.append_nil, hWhole]
  · rfl

private theorem matchKeyword_keeps {c : Char} {front back : List Char}
    (hSeam : WordsEnd (c :: front) back) :
    Keeps Prod.snd (front.length + 1) (matchKeyword c (front ++ back))
      (matchKeyword c (front ++ (blank ++ back))) := by
  rw [matchKeyword_eq, matchKeyword_eq]
  refine .or ((matchNonSealed_keeps hBlank hWhite hSeam).map fun _ h => h) ?_
  have hWord : (c :: (front ++ (blank ++ back))).takeWhile isWord =
      (c :: (front ++ back)).takeWhile isWord := by
    have hInserted := head_inserted hBlank hWhite isWord_of_isLayout back
    rw [← List.cons_append, ← List.cons_append, takeWhile_append_of_head hInserted,
      takeWhile_wordsEnd hSeam (List.cons_ne_nil c front)]
  by_cases hc : isWord c = true
  · rw [List.takeWhile_cons_of_pos hc, List.takeWhile_cons_of_pos hc, List.cons.injEq] at hWord
    simp only [List.takeWhile_cons_of_pos hc, run, hWord.2]
    exact .same _
  · have hNothing : keywords.lookup (String.ofList []) = none := by decide +kernel
    rw [List.takeWhile_cons_of_neg hc, List.takeWhile_cons_of_neg hc, hNothing]
    exact .same _

/-! ### Comments -/

private theorem matchStar_keeps (front back : List Char) :
    Keeps Prod.snd (front.length + 2) (matchComment ('*' :: (front ++ back)))
      (matchComment ('*' :: (front ++ (blank ++ back)))) := by
  rw [matchComment_star, matchComment_star]
  intro hWithin
  have hFound : through ['*', '/'] (front ++ (blank ++ back)) =
      through ['*', '/'] (front ++ back) := by
    refine through_keeps hBlank hWhite (by decide) (by decide) front back fun more mem => ?_
    exact Nat.lt_of_succ_lt_succ (hWithin _ (Option.mem_map_of_mem _ mem))
  rw [hFound]
  cases hMore : through ['*', '/'] (front ++ back) with
  | none => rfl
  | some more =>
      have hLess := Nat.lt_of_succ_lt_succ (hWithin _ (Option.mem_map_of_mem _ hMore))
      rw [through_append_iff (by decide) (Nat.le_of_lt_succ hLess)] at hMore
      rw [Option.map_some, Option.map_some, closedCommentKind_append hMore,
        closedCommentKind_append hMore]

private theorem matchComment_keeps {limit : Nat} {front back : List Char}
    (hLimit : limit ≤ front.length + 1) (hLine : front.head? = some '/' → limit ≤ front.length) :
    Keeps Prod.snd limit (matchComment (front ++ back))
      (matchComment (front ++ (blank ++ back))) := by
  match front with
  | [] =>
      refine .none (fun found mem => Nat.le_trans hLimit (matchComment_beyond mem)) ?_
      obtain ⟨first, others, rfl⟩ := List.exists_cons_of_ne_nil hBlank
      have hFirst := hWhite first List.mem_cons_self
      refine matchComment_eq_none ?_ ?_
      · rintro rfl
        exact absurd hFirst (by decide)
      · rintro rfl
        exact absurd hFirst (by decide)
  | c :: front =>
      by_cases hSlash : c = '/'
      · subst hSlash
        intro hWithin
        have hMatch : ∀ text, matchComment ('/' :: text) =
            some (.comment, run (· ≠ '\n') text + 1) := fun _ => rfl
        rw [List.cons_append, List.cons_append, hMatch] at *
        have hLess := Nat.lt_of_lt_of_le (hWithin _ rfl) (hLine rfl)
        rw [hMatch, run_of_lt (Nat.lt_of_succ_lt_succ hLess)]
      by_cases hStar : c = '*'
      · subst hStar
        exact (matchStar_keeps hBlank hWhite front back).mono hLimit
      · rw [List.cons_append, List.cons_append, matchComment_eq_none hSlash hStar,
          matchComment_eq_none hSlash hStar]
        exact .same _

/-! ### Other lexemes -/

private theorem matchOther_inserted {c : Char} {front back : List Char} {found : LexemeKind × Nat}
    (h : matchOther c (front ++ back) = some found) (hWithin : found.2 ≤ front.length)
    (hLayout : isLayout c = true → found.2 < front.length) :
    matchOther c (front ++ (blank ++ back)) = some found := by
  unfold matchOther at h ⊢
  split at h
  · next hStart =>
      cases h
      rw [if_pos hStart, run_inserted hBlank hWhite (of_isLayout (by decide)) hWithin]
  next hStart =>
  rw [if_neg hStart]
  split at h
  · next hDigit =>
      cases h
      rw [if_pos hDigit, run_inserted hBlank hWhite (of_isLayout (by decide)) hWithin]
  next hDigit =>
  rw [if_neg hDigit]
  split at h
  · next hc =>
      cases h
      rw [if_pos hc, run_of_lt (hLayout hc)]
  next hc =>
  rw [if_neg hc]
  split at h
  · next hQuote =>
      obtain ⟨more, hMore, rfl⟩ := Option.map_eq_some_iff.mp h
      rw [if_pos hQuote]
      rw [throughQuote_append_iff (by decide) hWithin] at hMore
      rw [(throughQuote_append_iff (by decide) hWithin _).mpr hMore]
      rfl
  next hQuote =>
  rw [if_neg hQuote]
  split at h
  · next hQuote =>
      obtain ⟨more, hMore, rfl⟩ := Option.map_eq_some_iff.mp h
      rw [if_pos hQuote]
      rw [throughQuote_append_iff (by decide) hWithin] at hMore
      rw [(throughQuote_append_iff (by decide) hWithin _).mpr hMore]
      rfl
  next hQuote =>
  rw [if_neg hQuote]
  exact h

/-! ### Lexemes -/

/-- White space and comments to the end of a line go on with white space behind them. -/
def TakesWhite (text : List Char) : Prop :=
  (∃ c ∈ text.head?, isLayout c = true) ∨ ['/', '/'] <+: text

private theorem matchAt_inserted {c : Char} {front back : List Char} {found : LexemeKind × Nat}
    (h : matchAt c (front ++ back) = some found) (hWithin : found.2 ≤ front.length)
    (hEnds : TakesWhite (c :: front) → found.2 < front.length)
    (hSeam : WordsEnd (c :: front) back) :
    matchAt c (front ++ (blank ++ back)) = some found := by
  have hLimit : ∃ limit ≤ front.length + 1, found.2 < limit ∧
      (TakesWhite (c :: front) → limit ≤ front.length) := by
    by_cases hTakes : TakesWhite (c :: front)
    · exact ⟨front.length, Nat.le_succ _, hEnds hTakes, fun _ => Nat.le_refl _⟩
    · exact ⟨front.length + 1, Nat.le_refl _, Nat.lt_succ_of_le hWithin, fun h => absurd h hTakes⟩
  obtain ⟨limit, hLimit, hFound, hTakes⟩ := hLimit
  have hComment : Keeps Prod.snd limit (if c = '/' then matchComment (front ++ back) else none)
      (if c = '/' then matchComment (front ++ (blank ++ back)) else none) := by
    split
    · next hSlash =>
        refine matchComment_keeps hBlank hWhite hLimit fun hHead => hTakes (.inr ?_)
        obtain ⟨rest, rfl⟩ := List.head?_eq_some_iff.mp hHead
        rw [hSlash]
        exact ⟨rest, rfl⟩
    · exact .same _
  have hBefore := (((matchTextBlock_keeps hBlank hWhite c front back).mono hLimit).or
    ((matchKeyword_keeps hBlank hWhite hSeam).mono hLimit)).or hComment
  unfold matchAt at h ⊢
  rw [← Option.or_assoc, ← Option.or_assoc] at h ⊢
  rcases Option.or_eq_some_iff.mp h with hFirst | ⟨hNone, hOther⟩
  · rw [hBefore fun other mem => by rwa [Option.mem_unique mem hFirst], hFirst]
    rfl
  · rw [hBefore (by simp [hNone]), hNone, Option.none_or]
    exact matchOther_inserted hBlank hWhite hOther hWithin fun hc => hEnds (.inl ⟨c, rfl, hc⟩)

end Inserted


/-- A lexeme is read in front of white space as in front of what stands behind that. -/
theorem Reads.inserted {kind : LexemeKind} {text front back blank : List Char}
    (h : Reads kind text (front ++ back)) (hEnds : TakesWhite text → front ≠ [])
    (hSeam : WordsEnd (text ++ front) back) (hBlank : blank ≠ []) (hWhite : IsWhite blank) :
    Reads kind text (front ++ (blank ++ back)) := by
  obtain ⟨c, rest, rfl, hMatch⟩ := h
  refine ⟨c, rest, rfl, ?_⟩
  rw [← List.append_assoc] at hMatch ⊢
  refine matchAt_inserted hBlank hWhite hMatch ?_ ?_ hSeam
  · rw [List.length_append]
    exact Nat.le_add_right _ _
  · intro hTakes
    cases front with
    | nil => exact absurd rfl (hEnds (by rwa [List.append_nil] at hTakes))
    | cons first front =>
        rw [List.length_append, List.length_cons]
        exact Nat.lt_add_of_pos_right (Nat.succ_pos _)

end ClassSchema.Java
