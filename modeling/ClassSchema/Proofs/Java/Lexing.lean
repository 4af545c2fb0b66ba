import ClassSchema.Proofs.Java.Scanning
import Mathlib.Data.List.TakeWhile

/-!
# Lexemes by themselves and in a text

`lexemesFrom` recurses on the length of what is left, so it does not compute inside
a proof.  `lexemesWithin` is the same function with a bound on the number of
lexemes, and computes.

A text that is one lexeme by itself is the first lexeme of a longer text if what
follows does not continue it: a word needs a character behind it that is neither
part of a name nor a hyphen, while punctuation and doc comments end by themselves.

## Main results

* `tokenize_eq_within`: the tokens of a text, by a function that computes.
* `IsLexeme.reads_word`, `reads_mark`, `IsLexeme.reads_doc`: what may follow a
  lexeme.
-/

namespace ClassSchema.Java

open ClassSchema.Text

/-- Cuts a text into `fuel` lexemes at most. -/
def lexemesWithin : Nat → Place → List Char → List Lexeme × Option Obstacle
  | 0, _, _ => ([], none)
  | _ + 1, _, [] => ([], none)
  | fuel + 1, place, c :: rest =>
      match matchAt c rest with
      | none => ([], some ⟨c, place⟩)
      | some (kind, more) =>
          let lexeme := c :: rest.take more
          let later := lexemesWithin fuel (place.advance lexeme) (rest.drop more)
          (⟨kind, lexeme, place⟩ :: later.1, later.2)

/-- Every lexeme has a character, so there are no more lexemes than characters. -/
theorem lexemesFrom_eq_within {fuel : Nat} {place : Place} {text : List Char}
    (h : text.length ≤ fuel) : lexemesFrom place text = lexemesWithin fuel place text := by
  induction fuel generalizing place text with
  | zero =>
      obtain rfl := List.eq_nil_of_length_eq_zero (Nat.le_zero.mp h)
      rw [lexemesFrom]
      rfl
  | succ fuel ih =>
      cases text with
      | nil =>
          rw [lexemesFrom]
          rfl
      | cons c rest =>
          rw [lexemesFrom, lexemesWithin]
          cases matchAt c rest with
          | none => rfl
          | some found =>
              have hRest : (rest.drop found.2).length ≤ fuel := by
                rw [List.length_cons] at h
                rw [List.length_drop]
                omega
              simp only [ih hRest]

theorem tokenize_eq_within (source : List Char) :
    tokenize source =
      (tokensOf none (lexemesWithin source.length .start source).1,
        (lexemesWithin source.length .start source).2) := by
  rw [tokenize, lexemesFrom_eq_within (Nat.le_refl _)]

/-! ## Single lexemes -/

/-- A text that is one lexeme by itself. -/
def IsLexeme (kind : LexemeKind) (text : String) : Prop :=
  lexemesFrom .start text.toList = ([⟨kind, text.toList, .start⟩], none)

instance (kind : LexemeKind) (text : String) : Decidable (IsLexeme kind text) :=
  decidable_of_iff
    (lexemesWithin text.toList.length .start text.toList = ([⟨kind, text.toList, .start⟩], none))
    (by rw [IsLexeme, lexemesFrom_eq_within (Nat.le_refl _)])

/-- What an isolated lexeme says about its first character. -/
theorem IsLexeme.matchAt {kind : LexemeKind} {text : String} (h : IsLexeme kind text) :
    ∃ c rest more, text.toList = c :: rest ∧ matchAt c rest = some (kind, more) ∧
      rest.take more = rest := by
  unfold IsLexeme at h
  cases hText : text.toList with
  | nil =>
      rw [hText, lexemesFrom] at h
      cases h
  | cons c rest =>
      rw [hText, lexemesFrom] at h
      cases hMatch : Java.matchAt c rest with
      | none =>
          rw [hMatch] at h
          cases h
      | some found =>
          obtain ⟨other, more⟩ := found
          rw [hMatch] at h
          simp only [Prod.mk.injEq, List.cons.injEq, Lexeme.mk.injEq] at h
          obtain ⟨⟨⟨rfl, ⟨-, hTake⟩, -⟩, -⟩, -⟩ := h
          exact ⟨c, rest, more, rfl, hMatch, hTake⟩

/-! ## What follows a lexeme -/

/-- What cannot continue a name. -/
def StopsName (next : List Char) : Prop := ∀ c ∈ next.head?, isNamePart c = false

instance : DecidablePred StopsName
  | [] => .isTrue fun _ mem => absurd mem (Option.not_mem_none _)
  | c :: _ => decidable_of_iff (isNamePart c = false)
      ⟨fun h _ mem => Option.mem_some.mp mem ▸ h, fun h => h c rfl⟩

/-- What cannot continue a word; a hyphen continues one. -/
def IsBoundary (next : List Char) : Prop :=
  ∀ c ∈ next.head?, isNamePart c = false ∧ c ≠ '-'

theorem IsBoundary.stopsName {next : List Char} (h : IsBoundary next) : StopsName next :=
  fun c mem => (h c mem).1

/-- Characters are taken up to a text that goes on with another one. -/
theorem takeWhile_append_of_head {test : Char → Bool} {next : List Char}
    (h : ∀ c ∈ next.head?, test c = false) (text : List Char) :
    (text ++ next).takeWhile test = text.takeWhile test := by
  induction text with
  | nil =>
      cases next with
      | nil => rfl
      | cons c next =>
          have hNot : ¬ test c = true := by simp [h c rfl]
          rw [List.nil_append, List.takeWhile_cons_of_neg hNot]
          rfl
  | cons c text ih =>
      by_cases hc : test c = true
      · rw [List.cons_append, List.takeWhile_cons_of_pos hc, List.takeWhile_cons_of_pos hc, ih]
      · rw [List.cons_append, List.takeWhile_cons_of_neg hc, List.takeWhile_cons_of_neg hc]

theorem StopsName.takeWhile {next : List Char} (h : StopsName next) {test : Char → Bool}
    (hTest : ∀ c, test c = true → isNamePart c = true) (text : List Char) :
    (text ++ next).takeWhile test = text.takeWhile test := by
  refine takeWhile_append_of_head (fun c mem => ?_) text
  by_contra hc
  have hPart := hTest c (Bool.not_eq_false _ ▸ hc)
  rw [h c mem] at hPart
  cases hPart

theorem isNamePart_of_isWord (c : Char) (h : isWord c = true) : isNamePart c = true := by
  rw [isNamePart, h]
  rfl

theorem isNamePart_of_isNameStart {c : Char} (h : isNameStart c = true) : isNamePart c = true := by
  revert h
  unfold isNameStart isNamePart
  cases isWord c <;> simp

/-- Only the word `non` can go on as the modifier with a hyphen, and only where the rest of that
modifier follows. -/
theorem of_matchNonSealed {c : Char} {rest next : List Char} {more : Nat}
    (hParts : ∀ d ∈ c :: rest, isNamePart d = true) (hNext : StopsName next)
    (h : matchNonSealed c (rest ++ next) = some more) :
    c :: rest = "non".toList ∧ "-sealed".toList <+: next ∧
      run isWord (next.drop "-sealed".length) = 0 := by
  obtain ⟨⟨⟨tail, hTail⟩, hRun⟩, -⟩ := matchNonSealed_eq_some_iff.mp h
  have hFront : (nonSealed.toList ++ tail).takeWhile isNamePart = "non".toList := rfl
  have hNon : c :: rest = "non".toList := by
    rw [← hFront, hTail, ← List.cons_append, hNext.takeWhile (fun _ h => h),
      List.takeWhile_eq_self_iff.mpr hParts]
  have hBehind : next = "-sealed".toList ++ tail := by
    have hBoth : "non".toList ++ ("-sealed".toList ++ tail) = "non".toList ++ next :=
      calc "non".toList ++ ("-sealed".toList ++ tail) = nonSealed.toList ++ tail := rfl
        _ = c :: rest ++ next := hTail
        _ = "non".toList ++ next := by rw [hNon]
    exact (List.append_cancel_left hBoth).symm
  refine ⟨hNon, ⟨tail, hBehind.symm⟩, ?_⟩
  -- behind the modifier no word character follows
  rw [← List.cons_append, hNon, hBehind] at hRun
  rw [hBehind]
  exact hRun

/-- Names do not become the modifier with a hyphen. -/
theorem matchNonSealed_eq_none {c : Char} {rest next : List Char}
    (hParts : ∀ d ∈ c :: rest, isNamePart d = true) (hNext : IsBoundary next) :
    matchNonSealed c (rest ++ next) = none := by
  rw [Option.eq_none_iff_forall_ne_some]
  intro more hMore
  obtain ⟨-, ⟨behind, rfl⟩, -⟩ := of_matchNonSealed hParts hNext.stopsName hMore
  exact (hNext '-' rfl).2 rfl

/-! ## Lexemes in front of a text -/

/-- A text that is the first lexeme when another text follows it. -/
def Reads (kind : LexemeKind) (text next : List Char) : Prop :=
  ∃ c rest, text = c :: rest ∧ matchAt c (rest ++ next) = some (kind, rest.length)

theorem Reads.lexemesFrom {kind : LexemeKind} {text next : List Char} (h : Reads kind text next)
    (place : Place) :
    lexemesFrom place (text ++ next) =
      (⟨kind, text, place⟩ :: (lexemesFrom (place.advance text) next).1,
        (lexemesFrom (place.advance text) next).2) := by
  obtain ⟨c, rest, rfl, hMatch⟩ := h
  rw [List.cons_append, Java.lexemesFrom, hMatch]
  simp

/-- What starts where a name can start. -/
theorem matchAt_of_isNameStart {c : Char} (h : isNameStart c = true) (rest : List Char) :
    matchAt c rest =
      (matchKeyword c rest).or (some (.token .identifier, run isNamePart rest)) := by
  have hQuote : c ≠ '"' := by
    rintro rfl
    revert h
    decide
  have hSlash : c ≠ '/' := by
    rintro rfl
    revert h
    decide
  have hBlock : matchTextBlock c rest = none :=
    matchTextBlock_eq_none fun hPrefix => hQuote (List.cons_prefix_cons.mp hPrefix).1.symm
  rw [matchAt, hBlock, if_neg hSlash, matchOther, if_pos h]
  rfl

private theorem length_of_take {α : Type} {rest : List α} {test : α → Bool}
    (h : rest.take (rest.takeWhile test).length = rest) : rest.takeWhile test = rest :=
  (List.takeWhile_prefix test).eq_of_length_le (by
    have hLength := congrArg List.length h
    rw [List.length_take] at hLength
    omega)

private theorem keywords_start :
    ∀ entry ∈ keywords, (entry.1.toList.head?.any fun c => isNameStart c && isWord c) = true := by
  decide +kernel

/-- Keywords start as names do. -/
private theorem start_of_keyword {c : Char} {rest : List Char} {terminal : Terminal}
    (h : keywords.lookup (String.ofList ((c :: rest).takeWhile isWord)) = some terminal) :
    isNameStart c = true ∧ isWord c = true := by
  have hStart := keywords_start _ (mem_of_lookup h)
  by_cases hc : isWord c = true
  · rw [List.takeWhile_cons_of_pos hc] at hStart
    simpa using hStart
  · rw [List.takeWhile_cons_of_neg hc] at hStart
    simp at hStart

/-- The modifier with a hyphen is read as by itself. -/
private theorem matchNonSealed_append {c : Char} {rest next : List Char} {size : Nat}
    (h : matchNonSealed c rest = some size) (hTake : rest.take size = rest)
    (hNext : IsBoundary next) : matchNonSealed c (rest ++ next) = some rest.length := by
  obtain ⟨⟨hPrefix, -⟩, rfl⟩ := matchNonSealed_eq_some_iff.mp h
  have hPositive : 0 < nonSealed.length := by decide
  have hAll : c :: rest = nonSealed.toList := by
    have hLength : (c :: rest).length ≤ nonSealed.toList.length := by
      have hTaken := congrArg List.length hTake
      rw [List.length_take] at hTaken
      rw [List.length_cons, String.length_toList]
      omega
    exact (hPrefix.eq_of_length_le hLength).symm
  have hLength : rest.length = nonSealed.length - 1 := by
    have hCons := congrArg List.length hAll
    rw [List.length_cons, String.length_toList] at hCons
    omega
  have hRun : run isWord next = 0 := by
    have hSplit := hNext.stopsName.takeWhile isNamePart_of_isWord []
    rw [List.nil_append] at hSplit
    rw [run, hSplit]
    rfl
  have hBehind : (c :: (rest ++ next)).drop nonSealed.length = next := by
    rw [← List.cons_append, hAll, ← String.length_toList, List.drop_left]
  have hFront : nonSealed.toList <+: c :: (rest ++ next) := by
    rw [← List.cons_append, hAll]
    exact List.prefix_append _ _
  rw [matchNonSealed_eq_some_iff, hBehind]
  exact ⟨⟨hFront, hRun⟩, hLength.symm⟩

/-- **A word is read as by itself when nothing continues it.** -/
theorem IsLexeme.reads_word {kind : LexemeKind} {text : String} {next : List Char}
    (h : IsLexeme kind text) (hStart : ∀ c ∈ text.toList.head?, isNameStart c = true)
    (hNext : IsBoundary next) : Reads kind text.toList next := by
  obtain ⟨c, rest, more, hText, hMatch, hTake⟩ := h.matchAt
  have hName : isNameStart c = true := by
    apply hStart
    rw [hText]
    rfl
  refine ⟨c, rest, hText, ?_⟩
  rw [matchAt_of_isNameStart hName] at hMatch ⊢
  have hPart := isNamePart_of_isNameStart hName
  cases hSealed : matchNonSealed c rest with
  | some size =>
      unfold matchKeyword at hMatch
      rw [hSealed] at hMatch
      cases hMatch
      rw [matchKeyword, matchNonSealed_append hSealed hTake hNext]
      rfl
  | none =>
      have hWord : (c :: (rest ++ next)).takeWhile isWord = (c :: rest).takeWhile isWord :=
        hNext.stopsName.takeWhile isNamePart_of_isWord (c :: rest)
      have hSealed' : (∀ d ∈ rest, isNamePart d = true) →
          matchNonSealed c (rest ++ next) = none := by
        intro hParts
        exact matchNonSealed_eq_none (List.forall_mem_cons.mpr ⟨hPart, hParts⟩) hNext
      unfold matchKeyword at hMatch ⊢
      rw [hSealed] at hMatch
      rw [hWord]
      cases hKeyword : keywords.lookup (String.ofList ((c :: rest).takeWhile isWord)) with
      | some terminal =>
          rw [hKeyword] at hMatch
          cases hMatch
          have hRest : rest.takeWhile isWord = rest := length_of_take hTake
          have hParts : ∀ d ∈ rest, isNamePart d = true :=
            fun d mem => isNamePart_of_isWord d (List.takeWhile_eq_self_iff.mp hRest d mem)
          rw [hSealed' hParts]
          show some _ = _
          rw [run, hNext.stopsName.takeWhile isNamePart_of_isWord, hRest]
      | none =>
          rw [hKeyword] at hMatch
          cases hMatch
          have hRest : rest.takeWhile isNamePart = rest := length_of_take hTake
          rw [hSealed' (List.takeWhile_eq_self_iff.mp hRest)]
          show some _ = _
          rw [run, hNext.stopsName.takeWhile (fun _ h => h), hRest]

/-- Punctuation is read one by one. -/
theorem reads_mark {c : Char} {terminal : Terminal} (h : (c, terminal) ∈ punctuation)
    (next : List Char) : Reads (.token terminal) [c] next := by
  have hMatch : matchAt c next = some (.token terminal, 0) := by
    simp only [punctuation, List.mem_cons, Prod.mk.injEq, List.not_mem_nil, or_false] at h
    rcases h with h | h | h | h | h | h | h | h | h | h | h | h | h | h | h | h <;>
      (obtain ⟨rfl, rfl⟩ := h; rfl)
  exact ⟨c, [], rfl, hMatch⟩

/-- A blank ends where something else starts. -/
theorem reads_blank {c : Char} (h : c = ' ' ∨ c = '\n') {next : List Char}
    (hNext : ∀ d ∈ next.head?, isLayout d = false) : Reads .blank [c] next := by
  have hRun : run isLayout next = 0 := by
    cases next with
    | nil => rfl
    | cons d next =>
        have hd : ¬ isLayout d = true := by simp [hNext d rfl]
        rw [run, List.takeWhile_cons_of_neg hd]
        rfl
  have hMatch : matchAt c next = some (.blank, run isLayout next) := by
    rcases h with rfl | rfl <;> rfl
  refine ⟨c, [], rfl, ?_⟩
  rw [List.nil_append, hMatch, hRun]
  rfl

theorem through_append {mark text : List Char} {size : Nat} (h : through mark text = some size)
    (next : List Char) :
    through mark (text ++ next) = some size ∧ mark.length ≤ size ∧ size ≤ text.length := by
  induction text generalizing size with
  | nil => cases h
  | cons c rest ih =>
      rw [List.cons_append]
      unfold through at h ⊢
      by_cases hPrefix : mark.isPrefixOf (c :: rest) = true
      · rw [if_pos hPrefix] at h
        have hMark := List.isPrefixOf_iff_prefix.mp hPrefix
        have hLonger : mark.isPrefixOf (c :: (rest ++ next)) = true := by
          rw [List.isPrefixOf_iff_prefix, ← List.cons_append]
          exact hMark.trans (List.prefix_append _ _)
        rw [if_pos hLonger]
        have hSize := Option.some.inj h
        exact ⟨h, by omega, hSize ▸ hMark.length_le⟩
      · rw [if_neg hPrefix, Option.map_eq_some_iff] at h
        obtain ⟨inner, hInner, rfl⟩ := h
        obtain ⟨hLater, hMark, hSize⟩ := ih hInner
        have hLonger : ¬ mark.isPrefixOf (c :: (rest ++ next)) = true := by
          rw [List.isPrefixOf_iff_prefix, ← List.cons_append] at *
          intro hAll
          apply hPrefix
          apply List.prefix_of_prefix_length_le hAll (List.prefix_append _ _)
          rw [List.length_cons]
          omega
        rw [if_neg hLonger, hLater, List.length_cons]
        exact ⟨rfl, by omega, by omega⟩

/-- Two characters behind its star tell the kind of a comment, and a closed one has them. -/
theorem closedCommentKind_append {text : List Char} {size : Nat}
    (h : through ['*', '/'] text = some size) (next : List Char) :
    closedCommentKind (text ++ next) = closedCommentKind text := by
  obtain ⟨-, hMark, hLength⟩ := through_append h []
  have hTwo : 2 ≤ text.length := Nat.le_trans hMark hLength
  match text, hTwo with
  | c :: d :: text, _ =>
      by_cases hc : c = '*' <;> by_cases hd : d = '/' <;> simp [closedCommentKind, hc, hd]

/-! ## Which lexemes start where -/

/-- The terminals whose tokens are words. -/
def Terminal.isWord : Terminal → Bool
  | packageWord | importWord | classWord | interfaceWord | enumWord | extendsWord
  | implementsWord | superWord | staticWord | modifier | identifier => true
  | _ => false

private theorem isWord_punctuation : ∀ entry ∈ punctuation, entry.2.isWord = false := by decide

private theorem isWord_quotes : ∀ entry ∈ quotes, entry.2.isWord = false := by decide

private theorem start_of_nonSealed {c : Char} {rest : List Char}
    (h : nonSealed.toList <+: c :: rest) : isNameStart c = true := by
  have hText : nonSealed.toList = 'n' :: nonSealed.toList.tail := by decide
  rw [hText] at h
  rw [← (List.cons_prefix_cons.mp h).1]
  decide

/-- Words start as names do. -/
theorem IsLexeme.isNameStart {terminal : Terminal} {text : String}
    (h : IsLexeme (.token terminal) text) (hWord : terminal.isWord = true) :
    ∀ c ∈ text.toList.head?, isNameStart c = true := by
  obtain ⟨c, rest, more, hText, hMatch, _⟩ := h.matchAt
  intro d hd
  rw [hText] at hd
  cases hd
  cases starts_of_matchAt hMatch with
  | nonSealed hPrefix _ => exact start_of_nonSealed hPrefix
  | keyword hKeyword => exact (start_of_keyword hKeyword).1
  | name hStart => exact hStart
  | closed _ _ _ hKind => exact absurd hKind (closedCommentKind_ne_token _ _)
  | quoted hQuote _ =>
      rw [isWord_quotes _ hQuote] at hWord
      cases hWord
  | mark hMark =>
      rw [isWord_punctuation _ hMark] at hWord
      cases hWord
  | textBlock | number | operator => cases hWord

/-- A doc comment ends at its own end, whatever follows it. -/
theorem IsLexeme.reads_doc {text : String} (h : IsLexeme .docComment text) (next : List Char) :
    Reads .docComment text.toList next ∧ text.toList.head? = some '/' := by
  obtain ⟨c, rest, more, hText, hMatch, hTake⟩ := h.matchAt
  rw [hText]
  cases starts_of_matchAt hMatch with
  | @closed _ body size hSlash hStar hSize hKind =>
      subst hSlash hStar
      obtain ⟨hLater, -, hLength⟩ := through_append hSize next
      have hMore : size = body.length := by
        have hTaken : (body.take size).length = body.length :=
          congrArg List.length (List.cons.inj hTake).2
        rw [List.length_take] at hTaken
        omega
      refine ⟨⟨'/', '*' :: body, rfl, ?_⟩, rfl⟩
      rw [List.cons_append, matchAt_opening, hLater, closedCommentKind_append hSize, hKind, hMore]
      rfl

end ClassSchema.Java
