import ClassSchema.Proofs.Java.Lookahead

/-!
# Where lexemes end

What starts at a character goes on to a mark, to a closing quote or to the end of a run.
A lexeme lies within the text, and one that ends like a word
ends with that word: what follows does not go on with it.

## Main results

* `matchAt_le`: lexemes lie within the text.
* `Reads.wordsEnd`, `wordsEnd_front`: words end with lexemes.
-/

namespace ClassSchema.Java

open ClassSchema.Text

/-! ## White space and words -/

/-- White space is none of the characters that satisfy a test. -/
theorem of_isLayout {test : Char → Bool}
    (hTest : [' ', '\t', '\x0c', '\r', '\n'].any test = false) (c : Char)
    (h : isLayout c = true) : test c = false := by
  have hc : c ∈ [' ', '\t', '\x0c', '\r', '\n'] := by simpa [isLayout, or_assoc] using h
  exact Bool.not_eq_true _ ▸ List.any_eq_false.mp hTest c hc

theorem isWord_of_isLayout : ∀ c, isLayout c = true → isWord c = false :=
  of_isLayout (by decide)

/-! ## Runs -/

theorem run_le (test : Char → Bool) (text : List Char) : run test text ≤ text.length :=
  (List.takeWhile_prefix test).length_le

theorem run_eq_zero_iff {test : Char → Bool} {text : List Char} :
    run test text = 0 ↔ ∀ c ∈ text.head?, test c = false := by
  cases text with
  | nil => simp [run]
  | cons c rest => by_cases hc : test c = true <;> simp [run, hc]

/-- What runs to where two texts meet does not go on. -/
theorem head_of_run {test : Char → Bool} {front back : List Char}
    (h : run test (front ++ back) = front.length) : ∀ d ∈ back.head?, test d = false := by
  unfold run at h
  rw [List.takeWhile_append] at h
  split at h
  · rw [List.length_append] at h
    exact run_eq_zero_iff.mp (by unfold run; omega)
  · next hAll => exact absurd h hAll

theorem run_all {test : Char → Bool} {front back : List Char}
    (h : run test (front ++ back) = front.length) : ∀ c ∈ front, test c = true := by
  unfold run at h
  rw [List.takeWhile_append] at h
  split at h
  · next hAll =>
      exact List.takeWhile_eq_self_iff.mp ((List.takeWhile_prefix test).eq_of_length hAll)
  · next hAll => exact absurd h hAll

/-! ## Lexemes lie within the text -/

/-- A lexeme lies within the text. -/
theorem matchAt_le {c : Char} {rest : List Char} {found : LexemeKind × Nat}
    (h : matchAt c rest = some found) : found.2 ≤ rest.length := by
  obtain ⟨kind, more⟩ := found
  cases starts_of_matchAt h with
  | textBlock _ hRest hSize =>
      subst hRest
      exact Nat.succ_le_succ (Nat.succ_le_succ (through_append hSize []).2.2)
  | nonSealed hPrefix _ => exact Nat.pred_le_pred hPrefix.length_le
  | keyword => exact run_le _ _
  | line _ hRest =>
      subst hRest
      exact Nat.succ_le_succ (run_le _ _)
  | closed _ hRest hSize _ =>
      subst hRest
      exact Nat.succ_le_succ (through_append hSize []).2.2
  | name => exact run_le _ _
  | number => exact run_le _ _
  | white => exact run_le _ _
  | quoted _ hSize =>
      obtain ⟨body, back, hRest, -, hLength⟩ := exists_of_throughQuote hSize
      rw [hRest, List.length_append, ← hLength]
      exact Nat.le_add_right _ _
  | mark | operator => exact Nat.zero_le _

/-- The first lexeme of a text is read there. -/
theorem exists_reads {place : Place} {text : List Char} {lexeme : Lexeme}
    {later : List Lexeme} (h : (lexemesFrom place text).1 = lexeme :: later) :
    ∃ next, text = lexeme.text ++ next ∧ Reads lexeme.kind lexeme.text next ∧
      (lexemesFrom (place.advance lexeme.text) next).1 = later := by
  cases text with
  | nil =>
      rw [lexemesFrom] at h
      cases h
  | cons c rest =>
      rw [lexemesFrom] at h
      cases hMatch : matchAt c rest with
      | none =>
          rw [hMatch] at h
          cases h
      | some found =>
          obtain ⟨kind, more⟩ := found
          rw [hMatch] at h
          obtain ⟨rfl, rfl⟩ := List.cons.inj h
          refine ⟨rest.drop more, by simp, ⟨c, rest.take more, rfl, ?_⟩, rfl⟩
          rw [List.take_append_drop, hMatch, List.length_take, Nat.min_eq_left (matchAt_le hMatch)]

/-! ## Words end with lexemes -/

/-- A word ends where two texts meet. -/
def WordsEnd (front back : List Char) : Prop :=
  ∀ c ∈ front.getLast?, isWord c = true → ∀ d ∈ back.head?, isWord d = false

/-- What ends where a mark does ends with it. -/
private theorem getLast?_of_through (opening : List Char) {mark front back text : List Char}
    {size : Nat} (hFound : through mark text = some size) (hText : front ++ back = opening ++ text)
    (hLength : front.length = opening.length + size) (hMark : mark ≠ []) :
    front.getLast? = mark.getLast? := by
  obtain ⟨inside, behind, rfl, rfl⟩ := eq_append_of_through hFound
  have hFront : front = opening ++ inside ++ mark := by
    refine (List.append_inj (hText.trans ?_ : _ = opening ++ inside ++ mark ++ behind) ?_).1
    · simp only [List.append_assoc]
    · rw [hLength, List.length_append, List.length_append, Nat.add_assoc]
  rw [hFront, List.getLast?_append, List.getLast?_eq_some_getLast hMark]
  rfl

private theorem ClosesQuote.getLast? {quote : Char} {body : List Char}
    (h : ClosesQuote quote body) : body.getLast? = some quote := by
  induction h with
  | close => rfl
  | plain _ _ _ _ ih => rw [List.getLast?_cons, ih]; rfl
  | escaped _ _ ih => rw [List.getLast?_cons, List.getLast?_cons, ih]; rfl

section Ends

variable {c : Char} {rest next : List Char}

private theorem WordsEnd.of_last {last : Char} (hLast : rest.getLast? = some last)
    (hNoWord : isWord last = false) : WordsEnd (c :: rest) next := by
  intro d hd hWord
  rw [List.getLast?_cons, hLast, Option.getD_some, Option.mem_some] at hd
  rw [← hd, hNoWord] at hWord
  cases hWord

private theorem WordsEnd.of_run {test : Char → Bool}
    (hRun : run test (rest ++ next) = rest.length) (hTest : ∀ d, isWord d = true → test d = true) :
    WordsEnd (c :: rest) next := by
  intro _ _ _ d hd
  by_contra hWord
  have hPart := hTest d (Bool.not_eq_false _ ▸ hWord)
  rw [head_of_run hRun d hd] at hPart
  cases hPart

private theorem WordsEnd.of_single (hRest : rest = []) (hNoWord : isWord c = false) :
    WordsEnd (c :: rest) next := by
  subst hRest
  intro d hd hWord
  rw [List.getLast?_singleton, Option.mem_some] at hd
  rw [← hd, hNoWord] at hWord
  cases hWord

private theorem noWord_of_quote : ∀ entry ∈ quotes, isWord entry.1 = false := by decide

private theorem noWord_of_mark : ∀ entry ∈ punctuation, isWord entry.1 = false := by decide

private theorem noWord_of_operator (h : isOperator c = true) : isWord c = false := by
  simp only [isOperator, Bool.and_eq_true, Bool.not_eq_true'] at h
  exact h.1.1.1.1.2

end Ends

/-- **No word goes on behind a lexeme** that ends like one. -/
theorem Reads.wordsEnd {kind : LexemeKind} {text next : List Char} (h : Reads kind text next) :
    WordsEnd text next := by
  obtain ⟨c, rest, rfl, hMatch⟩ := h
  generalize hMore : rest.length = more at hMatch
  cases starts_of_matchAt hMatch with
  | textBlock _ hRest hSize =>
      have hLast := getLast?_of_through ['"', '"'] hSize hRest
        (hMore.trans (Nat.add_comm _ 2)) (by decide)
      exact .of_last hLast (by decide)
  | nonSealed hPrefix hRun =>
      obtain ⟨behind, hBehind⟩ := hPrefix
      have hLength : nonSealed.toList.length = (c :: rest).length := by
        rw [List.length_cons, hMore]
        rfl
      obtain ⟨-, rfl⟩ := List.append_inj (hBehind : _ = (c :: rest) ++ next) hLength
      rw [← hBehind, ← String.length_toList, List.drop_left] at hRun
      exact fun _ _ _ => run_eq_zero_iff.mp hRun
  | keyword => exact .of_run hMore.symm fun _ h => h
  | @line line _ hRest =>
      cases rest with
      | nil => cases hMore
      | cons d rest =>
          obtain ⟨-, rfl⟩ := List.cons.inj hRest
          intro _ _ _ first hFirst
          have hLine := head_of_run (Nat.succ.inj hMore).symm first hFirst
          rw [decide_eq_false_iff_not, not_ne_iff] at hLine
          rw [hLine]
          decide
  | closed _ hRest hSize _ =>
      have hLast := getLast?_of_through ['*'] hSize hRest
        (hMore.trans (Nat.add_comm _ 1)) (by decide)
      exact .of_last hLast (by decide)
  | name => exact .of_run hMore.symm isNamePart_of_isWord
  | number =>
      refine .of_run hMore.symm fun d hd => ?_
      rw [isNumberPart, hd]
      rfl
  | white hLayout =>
      have hAll : ∀ d ∈ c :: rest, isLayout d = true :=
        List.forall_mem_cons.mpr ⟨hLayout, run_all hMore.symm⟩
      intro d hd hWord
      rw [isWord_of_isLayout d (hAll d (List.mem_of_getLast? hd))] at hWord
      cases hWord
  | quoted hQuote hSize =>
      obtain ⟨body, back, hText, hBody, hLength⟩ := exists_of_throughQuote hSize
      obtain ⟨rfl, rfl⟩ := List.append_inj hText (hMore.trans hLength.symm)
      exact .of_last hBody.getLast? (noWord_of_quote _ hQuote)
  | mark hMark => exact .of_single (List.length_eq_zero_iff.mp hMore) (noWord_of_mark _ hMark)
  | operator hOperator =>
      exact .of_single (List.length_eq_zero_iff.mp hMore) (noWord_of_operator hOperator)

/-- No word goes on behind the lexemes in front of a text. -/
theorem wordsEnd_front {place : Place} {front back : List Char} {before after : List Lexeme}
    (h : (lexemesFrom place (front ++ back)).1 = before ++ after)
    (hTexts : before.flatMap (·.text) = front) : WordsEnd front back := by
  induction before generalizing place front with
  | nil =>
      subst hTexts
      exact fun _ hLast => nomatch hLast
  | cons lexeme before ih =>
      obtain ⟨next, hText, hRead, hLater⟩ := exists_reads h
      rw [List.flatMap_cons] at hTexts
      rw [← hTexts, List.append_assoc, List.append_cancel_left_eq] at hText
      rw [← hText] at hLater hRead
      rw [← hTexts]
      by_cases hEmpty : before.flatMap (·.text) = []
      · rw [hEmpty] at hRead ⊢
        rw [List.append_nil]
        exact hRead.wordsEnd
      · have hRest := ih hLater rfl
        intro c hc
        rw [List.getLast?_append, List.getLast?_eq_some_getLast hEmpty] at hc
        exact hRest c (by rw [List.getLast?_eq_some_getLast hEmpty]; exact hc)

end ClassSchema.Java
