import ClassSchema.Proofs.Java.OneToken

/-!
# Literals

A literal on one line goes on to its closing quote, and a backslash takes the next
character with it.  A text block goes on to three closing quotes, and by its grammar a
backslash in it takes the next character with it as well.  But a text block is lexed up to
the first three quotes behind its opening ones, escaped or not.

## Main results

* `ClosesQuote.throughQuote`, `exists_of_throughQuote`: what is cut as a literal on one line.
* `oneToken_literal_iff`: exactly the literals that end at their first three quotes, if they
  are opened by three, are one token.
-/

namespace ClassSchema.Java

variable {quote : Char} {body text back : List Char} {size : Nat}

/-! ## The shape of a literal -/

/-- What stands behind the opening quote of a literal on one line. -/
inductive ClosesQuote (quote : Char) : List Char → Prop
  | close : ClosesQuote quote [quote]
  | plain {c : Char} {body : List Char} : c ≠ quote → c ≠ '\n' → c ≠ '\\' →
      ClosesQuote quote body → ClosesQuote quote (c :: body)
  | escaped {c : Char} {body : List Char} : c ≠ '\n' →
      ClosesQuote quote body → ClosesQuote quote ('\\' :: c :: body)

/-- The quotes at either end of a text block. -/
def blockQuotes : List Char := ['"', '"', '"']

/-- What stands behind the opening quotes of a text block. -/
inductive ClosesBlock : List Char → Prop
  | close : ClosesBlock blockQuotes
  | plain {c : Char} {body : List Char} : c ≠ '\\' → ¬ blockQuotes <+: c :: body →
      ClosesBlock body → ClosesBlock (c :: body)
  | escaped {c : Char} {body : List Char} : ClosesBlock body → ClosesBlock ('\\' :: c :: body)

/-- A literal, and the terminal that it should be. -/
inductive IsLiteral : Terminal → List Char → Prop
  | string {body : List Char} : ClosesQuote '"' body → IsLiteral .stringLiteral ('"' :: body)
  | char {body : List Char} : ClosesQuote '\'' body → IsLiteral .charLiteral ('\'' :: body)
  | block {body : List Char} : ClosesBlock body → IsLiteral .textBlock (blockQuotes ++ body)

/-- A literal that ends at the first three quotes behind its opening ones, if it is opened by
three quotes. -/
def EndsFirst (literal : List Char) : Prop :=
  ∀ front back, literal = blockQuotes ++ (front ++ (blockQuotes ++ back)) → back = []

/-- A literal in a source.  Two quotes with a third one behind them are no literal, as three
quotes open a text block. -/
structure StandsAt (front literal back : List Char) : Prop where
  starts : StartsBehind front (literal ++ back)
  whole : literal = ['"', '"'] → back.head? ≠ some '"'

/-! ## Literals on one line -/

section Equations

variable {c : Char} {rest : List Char}

private theorem throughQuote_close (quote : Char) (rest : List Char) :
    throughQuote quote (quote :: rest) = some 1 := by
  rw [throughQuote.eq_def]
  simp only [if_pos]

private theorem throughQuote_plain (hQuote : c ≠ quote) (hLine : c ≠ '\n') (hEscape : c ≠ '\\') :
    throughQuote quote (c :: rest) = (throughQuote quote rest).map (· + 1) := by
  rw [throughQuote.eq_def]
  simp only [if_neg hQuote, if_neg hLine, if_neg hEscape]

private theorem throughQuote_escaped (hQuote : quote ≠ '\\') (hLine : c ≠ '\n') :
    throughQuote quote ('\\' :: c :: rest) = (throughQuote quote rest).map (· + 2) := by
  have hNotLine : ¬ '\\' = '\n' := by decide
  rw [throughQuote.eq_def]
  simp only [if_neg hQuote.symm, if_neg hNotLine, if_neg hLine, if_true]

end Equations

/-- What closes a literal is found, whatever follows. -/
theorem ClosesQuote.throughQuote (hQuote : quote ≠ '\\') (h : ClosesQuote quote body)
    (back : List Char) : throughQuote quote (body ++ back) = some body.length := by
  induction h with
  | close => exact throughQuote_close quote back
  | plain hOther hLine hEscape _ ih =>
      rw [List.cons_append, throughQuote_plain hOther hLine hEscape, ih]
      rfl
  | escaped hLine _ ih =>
      rw [List.cons_append, List.cons_append, throughQuote_escaped hQuote hLine, ih]
      rfl

/-- What is found closes a literal. -/
theorem exists_of_throughQuote (h : throughQuote quote text = some size) :
    ∃ body back, text = body ++ back ∧ ClosesQuote quote body ∧ body.length = size := by
  fun_induction throughQuote quote text generalizing size with
  | case1 => cases h
  | case2 rest =>
      cases h
      exact ⟨[quote], rest, rfl, .close, rfl⟩
  | case3 => cases h
  | case4 => cases h
  | case5 => cases h
  | case6 escaped rest hEscaped _ _ ih =>
      obtain ⟨inner, hInner, rfl⟩ := Option.map_eq_some_iff.mp h
      obtain ⟨body, back, rfl, hBody, rfl⟩ := ih hInner
      exact ⟨'\\' :: escaped :: body, back, rfl, .escaped hEscaped hBody, rfl⟩
  | case7 c rest hQuote hLine hEscape ih =>
      obtain ⟨inner, hInner, rfl⟩ := Option.map_eq_some_iff.mp h
      obtain ⟨body, back, rfl, hBody, rfl⟩ := ih hInner
      exact ⟨c :: body, back, rfl, .plain hQuote hLine hEscape hBody, rfl⟩

private theorem reads_string (h : ClosesQuote '"' body)
    (hWhole : '"' :: body = ['"', '"'] → back.head? ≠ some '"') :
    Reads (.token .stringLiteral) ('"' :: body) back := by
  refine ⟨'"', body, rfl, ?_⟩
  have hBlock : matchTextBlock '"' (body ++ back) = none := by
    cases h with
    | close =>
        cases back with
        | nil => rfl
        | cons c back =>
            have hOther : c ≠ '"' := by
              rintro rfl
              exact hWhole rfl rfl
            exact matchTextBlock_eq_none fun hPrefix => hOther (by simpa [eq_comm] using hPrefix)
    | plain hOther hLine hEscape h =>
        refine matchTextBlock_eq_none fun hPrefix => hOther ?_
        rw [List.cons_append, List.cons_prefix_cons, List.cons_prefix_cons] at hPrefix
        exact hPrefix.2.1.symm
    | escaped hLine h => rfl
  have hKeyword : matchKeyword '"' (body ++ back) = none := rfl
  have hOther : matchOther '"' (body ++ back) =
      (throughQuote '"' (body ++ back)).map fun more => (.token .stringLiteral, more) := rfl
  rw [matchAt, hBlock, hKeyword, hOther, h.throughQuote (by decide)]
  rfl

private theorem reads_char (h : ClosesQuote '\'' body) :
    Reads (.token .charLiteral) ('\'' :: body) back := by
  refine ⟨'\'', body, rfl, ?_⟩
  have hBlock : matchTextBlock '\'' (body ++ back) = none := rfl
  have hKeyword : matchKeyword '\'' (body ++ back) = none := rfl
  have hOther : matchOther '\'' (body ++ back) =
      (throughQuote '\'' (body ++ back)).map fun more => (.token .charLiteral, more) := rfl
  rw [matchAt, hBlock, hKeyword, hOther, h.throughQuote (by decide)]
  rfl

/-! ## Text blocks -/

/-- An end is found no later than where one stands. -/
theorem exists_through {mark : List Char} (hMark : mark ≠ []) (front back : List Char) :
    ∃ size, through mark (front ++ (mark ++ back)) = some size ∧
      size ≤ front.length + mark.length := by
  have hHere : ∀ {text : List Char}, mark <+: text → through mark text = some mark.length := by
    intro text hPrefix
    cases text with
    | nil => exact absurd (List.prefix_nil.mp hPrefix) hMark
    | cons c rest => rw [through, if_pos (List.isPrefixOf_iff_prefix.mpr hPrefix)]
  induction front with
  | nil => exact ⟨_, hHere (List.prefix_append mark back), by simp⟩
  | cons c front ih =>
      by_cases hPrefix : mark <+: c :: front ++ (mark ++ back)
      · exact ⟨_, hHere hPrefix, by simp⟩
      · obtain ⟨size, hSize, hLength⟩ := ih
        rw [List.cons_append, ← List.isPrefixOf_iff_prefix] at hPrefix
        refine ⟨size + 1, ?_, by rw [List.length_cons]; omega⟩
        rw [List.cons_append, through, if_neg hPrefix, hSize]
        rfl

/-- Where an end is found, it stands. -/
theorem eq_append_of_through {mark : List Char} (h : through mark text = some size) :
    ∃ front back, text = front ++ (mark ++ back) ∧ front.length + mark.length = size := by
  fun_induction through mark text generalizing size with
  | case1 => cases h
  | case2 c rest hPrefix =>
      obtain ⟨back, hBack⟩ := List.isPrefixOf_iff_prefix.mp hPrefix
      exact ⟨[], back, hBack.symm, by simpa using h⟩
  | case3 c rest hPrefix ih =>
      obtain ⟨inner, hInner, rfl⟩ := Option.map_eq_some_iff.mp h
      obtain ⟨front, back, rfl, hLength⟩ := ih hInner
      exact ⟨c :: front, back, rfl, by rw [List.length_cons]; omega⟩

theorem ClosesBlock.exists_front (h : ClosesBlock body) : ∃ front, body = front ++ blockQuotes := by
  induction h with
  | close => exact ⟨[], rfl⟩
  | plain _ _ _ ih =>
      obtain ⟨front, rfl⟩ := ih
      exact ⟨_ :: front, rfl⟩
  | escaped _ ih =>
      obtain ⟨front, rfl⟩ := ih
      exact ⟨_ :: _ :: front, rfl⟩

/-- A text block with three quotes in its body is cut there or before. -/
private theorem exists_reads_block (before after back : List Char) :
    ∃ inner left, before ++ (blockQuotes ++ after) = inner ++ (blockQuotes ++ left) ∧
      inner.length ≤ before.length ∧
      Reads (.token .textBlock) (blockQuotes ++ (inner ++ blockQuotes)) (left ++ back) := by
  obtain ⟨size, hThrough, hSize⟩ := @exists_through blockQuotes (by decide) before (after ++ back)
  obtain ⟨inner, tail, hText, hLength⟩ := eq_append_of_through hThrough
  have hFound : inner ++ blockQuotes <+: before ++ (blockQuotes ++ (after ++ back)) :=
    ⟨tail, by rw [hText, List.append_assoc]⟩
  have hBody : before ++ (blockQuotes ++ after) <+: before ++ (blockQuotes ++ (after ++ back)) :=
    ⟨back, by simp only [List.append_assoc]⟩
  have hShorter : inner ++ blockQuotes <+: before ++ (blockQuotes ++ after) := by
    apply List.prefix_of_prefix_length_le hFound hBody
    simp only [List.length_append]
    omega
  obtain ⟨left, hLeft⟩ := hShorter
  refine ⟨inner, left, by rw [← hLeft, List.append_assoc], by omega, ?_⟩
  refine ⟨'"', '"' :: '"' :: (inner ++ blockQuotes), rfl, ?_⟩
  have hBehind : inner ++ blockQuotes ++ (left ++ back) =
      before ++ (blockQuotes ++ (after ++ back)) := by
    rw [← List.append_assoc, hLeft]
    simp only [List.append_assoc]
  have hBlock : matchTextBlock '"' ('"' :: '"' :: (inner ++ blockQuotes ++ (left ++ back))) =
      (through blockQuotes (inner ++ blockQuotes ++ (left ++ back))).map
        fun more => (.token .textBlock, more + 2) := rfl
  rw [List.cons_append, List.cons_append, matchAt, hBlock, hBehind, hThrough, ← hLength,
    ← List.length_append]
  rfl

/-! ## Literals in a source -/

theorem endsFirst_of_not_prefix {literal : List Char} (h : ¬ blockQuotes <+: literal) :
    EndsFirst literal :=
  fun _ _ hText => absurd ⟨_, hText.symm⟩ h

theorem ClosesQuote.not_opens (h : ClosesQuote '"' body) : ¬ blockQuotes <+: '"' :: body := by
  rintro ⟨tail, hTail⟩
  obtain rfl : '"' :: '"' :: tail = body := (List.cons.inj hTail).2
  generalize hBody : '"' :: '"' :: tail = body at h
  cases h with
  | close => cases hBody
  | plain hOther _ _ _ => exact hOther (List.cons.inj hBody).1.symm
  | escaped _ _ => exact absurd (List.cons.inj hBody).1 (by decide)

private theorem ClosesBlock.reads (h : ClosesBlock body)
    (hEnds : EndsFirst (blockQuotes ++ body)) :
    Reads (.token .textBlock) (blockQuotes ++ body) back := by
  obtain ⟨before, rfl⟩ := h.exists_front
  obtain ⟨inner, left, hCut, -, hRead⟩ := exists_reads_block before [] back
  rw [List.append_nil] at hCut
  obtain rfl := hEnds inner left (by rw [hCut])
  rw [List.append_nil] at hCut
  rwa [← hCut] at hRead

/-- A literal that ends at its first closing quotes is read as one token. -/
theorem IsLiteral.reads {terminal : Terminal} {literal : List Char}
    (h : IsLiteral terminal literal) (hEnds : EndsFirst literal)
    (hWhole : literal = ['"', '"'] → back.head? ≠ some '"') :
    Reads (.token terminal) literal back := by
  cases h with
  | string hBody => exact reads_string hBody hWhole
  | char hBody => exact reads_char hBody
  | block hBody => exact hBody.reads hEnds

/-- A text block with three quotes in its body ends there. -/
private theorem endsFirst_of_oneToken {front : List Char}
    (h : OneToken .textBlock front (blockQuotes ++ body) back) :
    EndsFirst (blockQuotes ++ body) := by
  intro before after hText
  obtain rfl := List.append_cancel_left hText
  obtain ⟨inner, left, hCut, hLength, hRead⟩ := exists_reads_block before after back
  have hPiece := (h.eq_of_reads hRead (by rw [hCut]; simp only [List.append_assoc])).1
  have hBefore := congrArg List.length (List.append_cancel_left hPiece)
  simp only [List.length_append] at hBefore
  exact List.eq_nil_of_length_eq_zero (by omega)

/-- **Exactly the literals that end at their first closing quotes are one token.** -/
theorem oneToken_literal_iff {terminal : Terminal} {front literal : List Char}
    (h : IsLiteral terminal literal) (hStands : StandsAt front literal back) :
    OneToken terminal front literal back ↔ EndsFirst literal := by
  refine ⟨fun hToken => ?_, fun hEnds => .of_reads hStands.starts (h.reads hEnds hStands.whole)⟩
  cases h with
  | string hBody => exact endsFirst_of_not_prefix hBody.not_opens
  | char hBody =>
      exact endsFirst_of_not_prefix fun ⟨_, hTail⟩ => absurd (List.cons.inj hTail).1 (by decide)
  | block hBody => exact endsFirst_of_oneToken hToken

end ClassSchema.Java
