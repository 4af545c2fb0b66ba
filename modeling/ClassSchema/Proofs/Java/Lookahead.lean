import ClassSchema.Proofs.Java.Literals

/-!
# How far the lexer looks ahead

A comment and a literal are found by searching for their end, and a word by running to
its end.  So what starts at a character depends on what follows the lexeme in two ways
only: on the next character, and on whether there is an end to be found further on.  Of
two texts that go on with the same quote behind some front, either the same lexeme starts
at the first character, or in one of them a lexeme reaches beyond the front.

## Main results

* `matchAt_agree`: what starts in front of two texts that begin with a quote.
* `lexemes_in_front`: the lexemes in front of two such texts are the same, if they make up
  all of the front.
-/

namespace ClassSchema.Java

open ClassSchema.Text (Place)

/-! ## Searches that agree -/

/-- Two searches that find the same, or of which one finds something beyond a bound. -/
def Agree {α : Type} (reach : α → Nat) (bound : Nat) (found found' : Option α) : Prop :=
  found = found' ∨ (∃ a ∈ found, bound < reach a) ∨ ∃ a ∈ found', bound < reach a

namespace Agree

variable {α β : Type} {reach : α → Nat} {bound : Nat} {found found' : Option α}

theorem same (found : Option α) : Agree reach bound found found := .inl rfl

/-- Searches agree if what either finds within the bound is found by both. -/
theorem of_within (h : ∀ a, reach a ≤ bound → (a ∈ found ↔ a ∈ found')) :
    Agree reach bound found found' := by
  by_cases hFound : ∃ a ∈ found, bound < reach a
  · exact .inr (.inl hFound)
  by_cases hFound' : ∃ a ∈ found', bound < reach a
  · exact .inr (.inr hFound')
  have hWithin : ∀ a ∈ found, reach a ≤ bound :=
    fun a mem => Nat.le_of_not_lt fun hBeyond => hFound ⟨a, mem, hBeyond⟩
  have hWithin' : ∀ a ∈ found', reach a ≤ bound :=
    fun a mem => Nat.le_of_not_lt fun hBeyond => hFound' ⟨a, mem, hBeyond⟩
  exact .inl (Option.ext fun a =>
    ⟨fun mem => (h a (hWithin a mem)).mp mem, fun mem => (h a (hWithin' a mem)).mpr mem⟩)

theorem or {later later' : Option α} (h : Agree reach bound found found')
    (hLater : Agree reach bound later later') :
    Agree reach bound (found.or later) (found'.or later') := by
  rcases h with rfl | ⟨a, mem, hBeyond⟩ | ⟨a, mem, hBeyond⟩
  · cases found with
    | none => exact hLater
    | some a => exact .same _
  · exact .inr (.inl ⟨a, by rw [Option.mem_def.mp mem]; rfl, hBeyond⟩)
  · exact .inr (.inr ⟨a, by rw [Option.mem_def.mp mem]; rfl, hBeyond⟩)

theorem map {f : α → β} {reach' : β → Nat} {bound' : Nat}
    (hReach : ∀ a, bound < reach a → bound' < reach' (f a)) (h : Agree reach bound found found') :
    Agree reach' bound' (found.map f) (found'.map f) := by
  rcases h with rfl | ⟨a, mem, hBeyond⟩ | ⟨a, mem, hBeyond⟩
  · exact .same _
  · exact .inr (.inl ⟨f a, Option.mem_map_of_mem f mem, hReach a hBeyond⟩)
  · exact .inr (.inr ⟨f a, Option.mem_map_of_mem f mem, hReach a hBeyond⟩)

/-- What both find within the bound is the same. -/
theorem eq_of_mem {a a' : α} (h : Agree reach bound found found') (mem : a ∈ found)
    (mem' : a' ∈ found') (hWithin : reach a ≤ bound) (hWithin' : reach a' ≤ bound) : a = a' := by
  rcases h with rfl | ⟨b, memb, hBeyond⟩ | ⟨b, memb, hBeyond⟩
  · exact Option.mem_unique mem mem'
  · obtain rfl := Option.mem_unique mem memb
    omega
  · obtain rfl := Option.mem_unique mem' memb
    omega

end Agree

/-! ## Searches for an end -/

/-- An end that lies in front of what follows is found without it. -/
theorem through_append_iff {mark : List Char} (hMark : mark ≠ []) {text : List Char} {size : Nat}
    (h : size ≤ text.length) (next : List Char) :
    through mark (text ++ next) = some size ↔ through mark text = some size := by
  refine ⟨fun hFound => ?_, fun hFound => (through_append hFound next).1⟩
  induction text generalizing size with
  | nil =>
      have hSize := (through_append hFound []).2.1
      have hPositive := List.length_pos_iff.mpr hMark
      rw [List.length_nil] at h
      omega
  | cons c rest ih =>
      rw [List.cons_append] at hFound
      unfold through at hFound ⊢
      by_cases hPrefix : mark.isPrefixOf (c :: (rest ++ next)) = true
      · rw [if_pos hPrefix] at hFound
        have hLonger := List.isPrefixOf_iff_prefix.mp hPrefix
        have hWithin : mark <+: c :: rest :=
          List.prefix_of_prefix_length_le hLonger (List.prefix_append (c :: rest) next)
            (by rwa [Option.some.inj hFound])
        rw [if_pos (List.isPrefixOf_iff_prefix.mpr hWithin)]
        exact hFound
      · have hShorter : ¬ mark.isPrefixOf (c :: rest) = true := by
          rw [List.isPrefixOf_iff_prefix] at hPrefix ⊢
          exact fun hWithin => hPrefix (hWithin.trans (List.prefix_append (c :: rest) next))
        rw [if_neg hPrefix, Option.map_eq_some_iff] at hFound
        obtain ⟨inner, hInner, rfl⟩ := hFound
        rw [List.length_cons] at h
        rw [if_neg hShorter, ih (by omega) hInner]
        rfl

/-- A closing quote that lies in front of what follows is found without it. -/
theorem throughQuote_append_iff {quote : Char} (hQuote : quote ≠ '\\') {text : List Char}
    {size : Nat} (h : size ≤ text.length) (next : List Char) :
    throughQuote quote (text ++ next) = some size ↔ throughQuote quote text = some size := by
  constructor
  · intro hFound
    obtain ⟨body, back, hText, hBody, rfl⟩ := exists_of_throughQuote hFound
    obtain ⟨left, rfl⟩ : body <+: text :=
      List.prefix_of_prefix_length_le ⟨back, hText.symm⟩ (List.prefix_append text next) h
    exact hBody.throughQuote hQuote left
  · intro hFound
    obtain ⟨body, back, rfl, hBody, rfl⟩ := exists_of_throughQuote hFound
    rw [List.append_assoc]
    exact hBody.throughQuote hQuote (back ++ next)

theorem through_agree {mark : List Char} (hMark : mark ≠ []) (rest next next' : List Char) :
    Agree id rest.length (through mark (rest ++ next)) (through mark (rest ++ next')) :=
  .of_within fun _ h =>
    (through_append_iff hMark h next).trans (through_append_iff hMark h next').symm

theorem throughQuote_agree {quote : Char} (hQuote : quote ≠ '\\') (rest next next' : List Char) :
    Agree id rest.length (throughQuote quote (rest ++ next)) (throughQuote quote (rest ++ next')) :=
  .of_within fun _ h =>
    (throughQuote_append_iff hQuote h next).trans (throughQuote_append_iff hQuote h next').symm

/-! ## What starts in front of a quote -/

private theorem matchTextBlock_agree (c : Char) (rest next next' : List Char) :
    Agree Prod.snd rest.length (matchTextBlock c (rest ++ next))
      (matchTextBlock c (rest ++ next')) := by
  have near : rest.length ≤ 1 → Agree Prod.snd rest.length (matchTextBlock c (rest ++ next))
      (matchTextBlock c (rest ++ next')) := by
    intro hLength
    -- what is found there at all reaches beyond
    refine .of_within fun found h => iff_of_false (fun mem => ?_) (fun mem => ?_)
    · have := (matchTextBlock_shape mem).2.2
      omega
    · have := (matchTextBlock_shape mem).2.2
      omega
  match rest with
  | [] => exact near (by simp)
  | [_] => exact near (by simp)
  | d :: e :: rest =>
      by_cases hOpens : c = '"' ∧ d = '"' ∧ e = '"'
      · obtain ⟨rfl, rfl, rfl⟩ := hOpens
        exact (through_agree (by decide) rest next next').map fun more hMore => by
          simp only [id, List.length_cons] at hMore ⊢
          omega
      · have hNone (text : List Char) : matchTextBlock c (d :: e :: text) = none :=
          matchTextBlock_eq_none fun hPrefix => hOpens (by simpa [eq_comm] using hPrefix)
        rw [List.cons_append, List.cons_append, List.cons_append, List.cons_append, hNone, hNone]
        exact .same _

section Quote

variable {quote : Char} (hQuote : quote = '"' ∨ quote = '\'') {next next' : List Char}

include hQuote

private theorem takeWhile_quote {test : Char → Bool} (hTest : ['"', '\''].any test = false)
    (rest next : List Char) : (rest ++ quote :: next).takeWhile test = rest.takeWhile test := by
  apply takeWhile_append_of_head
  intro c mem
  cases mem
  have hNot := List.any_eq_false.mp hTest quote (by simpa using hQuote)
  exact Bool.not_eq_true _ ▸ hNot

private theorem head_quote {c : Char} (hc : c ∉ ['"', '\'']) {rest : List Char}
    (h : rest.head? ≠ some c) (next : List Char) : (rest ++ quote :: next).head? ≠ some c := by
  cases rest with
  | nil =>
      rintro hHead
      cases hHead
      exact hc (by simpa using hQuote)
  | cons d rest => exact h

private theorem matchNonSealed_quote (c : Char) (rest next : List Char) :
    matchNonSealed c (rest ++ quote :: next) = matchNonSealed c rest := by
  have hNoQuote : quote ∉ nonSealed.toList := by
    rcases hQuote with rfl | rfl <;> decide
  unfold matchNonSealed
  by_cases hPrefix : nonSealed.toList <+: c :: rest
  · obtain ⟨tail, hTail⟩ := hPrefix
    have hWhole : c :: (rest ++ quote :: next) = nonSealed.toList ++ (tail ++ quote :: next) := by
      rw [← List.append_assoc, hTail, List.cons_append]
    rw [hWhole, ← hTail, ← String.length_toList, List.drop_left, List.drop_left, run, run,
      takeWhile_quote hQuote (by decide)]
    simp only [List.isPrefixOf_iff_prefix, List.prefix_append]
  · have hLonger : ¬ nonSealed.toList <+: c :: (rest ++ quote :: next) := by
      intro hLonger
      rcases Nat.lt_or_ge (c :: rest).length nonSealed.toList.length with hLength | hLength
      · have hBehind : c :: rest ++ [quote] <+: nonSealed.toList :=
          List.prefix_of_prefix_length_le ⟨next, by simp⟩ hLonger
            (by rw [List.length_append]; exact hLength)
        exact hNoQuote (hBehind.subset (List.mem_append_right _ List.mem_cons_self))
      · exact hPrefix (List.prefix_of_prefix_length_le hLonger (List.prefix_append _ _) hLength)
    rw [if_neg fun h => hLonger (List.isPrefixOf_iff_prefix.mp h.1),
      if_neg fun h => hPrefix (List.isPrefixOf_iff_prefix.mp h.1)]

theorem matchKeyword_quote (c : Char) (rest next : List Char) :
    matchKeyword c (rest ++ quote :: next) = matchKeyword c rest := by
  have hWord := fun rest => takeWhile_quote hQuote
    (by decide : ['"', '\''].any Text.isWord = false) rest next
  have hAll := hWord (c :: rest)
  rw [List.cons_append] at hAll
  rw [matchKeyword, matchKeyword, matchNonSealed_quote hQuote, hAll, run, hWord, run]

/-- A comment to the end of its line. -/
private theorem matchLine_agree (rest : List Char) :
    Agree Prod.snd (rest.length + 1) (matchComment ('/' :: (rest ++ quote :: next)))
      (matchComment ('/' :: (rest ++ quote :: next'))) := by
  by_cases hLine : '\n' ∈ rest
  · obtain ⟨line, later, rfl⟩ := List.append_of_mem hLine
    have hRun : ∀ text, ((line ++ '\n' :: later) ++ text).takeWhile (· ≠ '\n') =
        line.takeWhile (· ≠ '\n') := by
      intro text
      rw [List.append_assoc]
      exact takeWhile_append_of_head (by simp) line
    rw [matchComment, matchComment, run, run, hRun, hRun]
    exact .same _
  · have hAll : ∀ c ∈ rest ++ [quote], decide (c ≠ '\n') = true := by
      intro c mem
      rw [decide_eq_true_iff]
      rintro rfl
      rcases List.mem_append.mp mem with mem | mem
      · exact hLine mem
      · rw [← List.mem_singleton.mp mem] at hQuote
        exact absurd hQuote (by decide)
    have hRun := congrArg List.length (@List.takeWhile_append_of_pos _ _ _ next hAll)
    rw [List.append_assoc, List.length_append, List.length_append] at hRun
    refine .inr (.inl ⟨_, rfl, Nat.succ_lt_succ ?_⟩)
    rw [run, ← List.singleton_append, hRun, List.length_singleton]
    omega

/-- A comment to its closing mark. -/
private theorem matchStar_agree (rest : List Char) :
    Agree Prod.snd (rest.length + 1) (matchComment ('*' :: (rest ++ quote :: next)))
      (matchComment ('*' :: (rest ++ quote :: next'))) := by
  by_cases hStar : rest.head? = some '*'
  · obtain ⟨rest, rfl⟩ := List.head?_eq_some_iff.mp hStar
    by_cases hSlash : rest.head? = some '/'
    · obtain ⟨rest, rfl⟩ := List.head?_eq_some_iff.mp hSlash
      exact .same _
    · have hHead := head_quote hQuote (by decide) hSlash
      rw [List.cons_append, List.cons_append, matchComment_doc_eq (hHead next),
        matchComment_doc_eq (hHead next')]
      exact (through_agree (by decide) rest _ _).map fun _ h => Nat.add_lt_add_right h 2
  · have hHead := head_quote hQuote (by decide) hStar
    rw [matchComment_plain_eq (hHead next), matchComment_plain_eq (hHead next')]
    exact (through_agree (by decide) rest _ _).map fun _ h => Nat.add_lt_add_right h 1

private theorem matchComment_agree (rest : List Char) :
    Agree Prod.snd rest.length (matchComment (rest ++ quote :: next))
      (matchComment (rest ++ quote :: next')) := by
  match rest with
  | [] =>
      have hNone : ∀ text, matchComment (quote :: text) = none := by
        intro text
        rcases hQuote with rfl | rfl <;> rfl
      rw [List.nil_append, List.nil_append, hNone, hNone]
      exact .same _
  | c :: rest =>
      by_cases hLine : c = '/'
      · subst hLine
        exact matchLine_agree hQuote rest
      by_cases hStar : c = '*'
      · subst hStar
        exact matchStar_agree hQuote rest
      · rw [List.cons_append, List.cons_append, matchComment_eq_none hLine hStar,
          matchComment_eq_none hLine hStar]
        exact .same _

private theorem matchOther_agree (c : Char) (rest : List Char) :
    Agree Prod.snd rest.length (matchOther c (rest ++ quote :: next))
      (matchOther c (rest ++ quote :: next')) := by
  have runs : ∀ {test : Char → Bool}, ['"', '\''].any test = false →
      run test (rest ++ quote :: next) = run test (rest ++ quote :: next') := by
    intro test hTest
    rw [run, run, takeWhile_quote hQuote hTest, takeWhile_quote hQuote hTest]
  have quoted : ∀ {closing : Char} (found : Nat → LexemeKind × Nat), closing ≠ '\\' →
      (∀ more, (found more).2 = more) → Agree Prod.snd rest.length
        ((throughQuote closing (rest ++ quote :: next)).map found)
        ((throughQuote closing (rest ++ quote :: next')).map found) := by
    intro closing found hEscape hMore
    exact (throughQuote_agree hEscape rest _ _).map fun more h => (hMore more).symm ▸ h
  unfold matchOther
  rw [runs (by decide), runs (by decide), runs (by decide)]
  split_ifs
  · exact .same _
  · exact .same _
  · exact .same _
  · exact quoted _ (by decide) fun _ => rfl
  · exact quoted _ (by decide) fun _ => rfl
  · exact .same _
  · exact .same _

/-- **What starts in front of a quote depends on what follows the quote only if it reaches
beyond.** -/
theorem matchAt_agree (c : Char) (rest : List Char) :
    Agree Prod.snd rest.length (matchAt c (rest ++ quote :: next))
      (matchAt c (rest ++ quote :: next')) := by
  unfold matchAt
  refine (matchTextBlock_agree c rest _ _).or (.or ?_ (.or ?_ (matchOther_agree hQuote c rest)))
  · rw [matchKeyword_quote hQuote, matchKeyword_quote hQuote]
    exact .same _
  · split
    · exact matchComment_agree hQuote rest
    · exact .same _

/-- What is read in front of a quote is read there whatever follows the quote, if anything is
read in front of it. -/
private theorem eq_of_reads_quote {kind kind' : LexemeKind} {text text' left left' : List Char}
    (h : Reads kind text (left ++ quote :: next)) (h' : Reads kind' text' (left' ++ quote :: next'))
    (hText : text ++ left = text' ++ left') : kind = kind' ∧ text = text' := by
  obtain ⟨c, rest, rfl, hMatch⟩ := h
  obtain ⟨c', rest', rfl, hMatch'⟩ := h'
  rw [List.cons_append, List.cons_append, List.cons.injEq] at hText
  obtain ⟨rfl, hRest⟩ := hText
  rw [← List.append_assoc] at hMatch hMatch'
  rw [← hRest] at hMatch'
  have hSame := (matchAt_agree hQuote c (rest ++ left)).eq_of_mem hMatch hMatch'
    (by simp) (by rw [hRest]; simp)
  obtain ⟨rfl, hLength⟩ := Prod.mk.inj hSame
  exact ⟨rfl, congrArg (c :: ·) (List.append_inj hRest hLength).1⟩

/-- **Two texts have the same lexemes in front of the same quote.** -/
theorem lexemes_in_front {place : Place} {front : List Char}
    {before after before' after' : List Lexeme}
    (h : (lexemesFrom place (front ++ quote :: next)).1 = before ++ after)
    (hTexts : before.flatMap (·.text) = front)
    (h' : (lexemesFrom place (front ++ quote :: next')).1 = before' ++ after')
    (hTexts' : before'.flatMap (·.text) = front) : before = before' := by
  induction before generalizing place front before' with
  | nil =>
      cases before' with
      | nil => rfl
      | cons _ _ => exact absurd hTexts.symm (front_ne_nil (List.cons_ne_nil _ _) h' hTexts')
  | cons lexeme before ih =>
      obtain ⟨hRead, hPlace⟩ := reads_first (List.cons_ne_nil _ _) h hTexts
      cases before' with
      | nil => exact absurd hTexts'.symm (front_ne_nil (List.cons_ne_nil _ _) h hTexts)
      | cons lexeme' before' =>
          obtain ⟨hRead', hPlace'⟩ := reads_first (List.cons_ne_nil _ _) h' hTexts'
          rw [List.flatMap_cons] at hTexts hTexts'
          obtain ⟨hKind, hText⟩ :=
            eq_of_reads_quote hQuote hRead hRead' (hTexts.trans hTexts'.symm)
          obtain rfl : lexeme = lexeme' := by
            cases lexeme
            cases lexeme'
            simp_all
          have hLeft : before'.flatMap (·.text) = before.flatMap (·.text) :=
            List.append_cancel_left (hTexts'.trans hTexts.symm)
          rw [← hTexts, List.append_assoc, hRead.lexemesFrom] at h
          rw [← hTexts', List.append_assoc, hRead'.lexemesFrom] at h'
          rw [hLeft] at h'
          rw [ih (List.cons.inj h).2 rfl (List.cons.inj h').2 hLeft]

end Quote

end ClassSchema.Java
