import ClassSchema.Java.Lexer

/-!
# What starts at a character

The scanner tries a text block, a keyword, a comment and then everything else, and
takes what it finds first.  `Starts` has one case for each thing that can be found,
with all that the scanner knows of it by then: nothing else has to be known of how
it searches in order to say what a lexeme looks like.

A comment that is closed is searched for in one way, whatever its kind: the end of a
comment may not use the star of its opening, and a doc comment that would end at once
is a plain one.

## Main results

* `exists_of_matchTextBlock`, `matchKeyword_eq`, `matchComment_cases`: what the single
  searches find.
* `starts_of_matchAt`: all that can start at a character.
-/

namespace ClassSchema.Java

open ClassSchema.Text

variable {c : Char} {rest : List Char} {found : LexemeKind × Nat}

/-- What is found in a table stands in it. -/
theorem mem_of_lookup {α β : Type} [BEq α] [LawfulBEq α] {table : List (α × β)} {key : α}
    {value : β} (h : table.lookup key = some value) : (key, value) ∈ table := by
  obtain ⟨front, back, rfl, _⟩ := List.lookup_eq_some_iff.mp h
  simp

/-! ## Text blocks -/

theorem exists_of_matchTextBlock (h : matchTextBlock c rest = some found) :
    ∃ text size, c = '"' ∧ rest = '"' :: '"' :: text ∧
      through ['"', '"', '"'] text = some size ∧ found = (.token .textBlock, size + 2) := by
  unfold matchTextBlock at h
  split at h
  · next text =>
      obtain ⟨size, hSize, rfl⟩ := Option.map_eq_some_iff.mp h
      exact ⟨text, size, rfl, rfl, hSize, rfl⟩
  · cases h

theorem matchTextBlock_shape (h : found ∈ matchTextBlock c rest) :
    c = '"' ∧ ['"', '"'] <+: rest ∧ 2 ≤ found.2 := by
  obtain ⟨text, size, rfl, rfl, -, rfl⟩ := exists_of_matchTextBlock h
  exact ⟨rfl, by simp, Nat.le_add_left 2 size⟩

theorem matchTextBlock_eq_none (h : ¬ ['"', '"', '"'] <+: c :: rest) :
    matchTextBlock c rest = none := by
  rw [Option.eq_none_iff_forall_ne_some]
  intro found hFound
  obtain ⟨text, size, rfl, rfl, -⟩ := exists_of_matchTextBlock hFound
  exact h (by simp)

/-! ## Keywords -/

theorem matchNonSealed_eq_some_iff {more : Nat} :
    matchNonSealed c rest = some more ↔
      (nonSealed.toList <+: c :: rest ∧ run isWord ((c :: rest).drop nonSealed.length) = 0) ∧
        nonSealed.length - 1 = more := by
  rw [matchNonSealed, Option.ite_none_right_eq_some, List.isPrefixOf_iff_prefix,
    Option.some.injEq]

theorem matchKeyword_eq (c : Char) (rest : List Char) :
    matchKeyword c rest =
      ((matchNonSealed c rest).map fun more => (.token .modifier, more)).or
        ((keywords.lookup (String.ofList ((c :: rest).takeWhile isWord))).map fun terminal =>
          (.token terminal, run isWord rest)) := by
  unfold matchKeyword
  cases matchNonSealed c rest with
  | some more => rfl
  | none =>
      dsimp only
      cases keywords.lookup (String.ofList ((c :: rest).takeWhile isWord)) <;> rfl

/-! ## Comments -/

theorem matchComment_doc_eq {text : List Char} (h : text.head? ≠ some '/') :
    matchComment ('*' :: '*' :: text) =
      (through ['*', '/'] text).map fun more => (.docComment, more + 2) := by
  rw [matchComment]
  rintro tail rfl
  exact h rfl

theorem matchComment_plain_eq {text : List Char} (h : text.head? ≠ some '*') :
    matchComment ('*' :: text) =
      (through ['*', '/'] text).map fun more => (.comment, more + 1) := by
  rw [matchComment]
  · rintro tail rfl
    exact h rfl
  · rintro tail rfl
    exact h rfl

theorem matchComment_eq_none {c : Char} {text : List Char} (hLine : c ≠ '/')
    (hStar : c ≠ '*') : matchComment (c :: text) = none := by
  unfold matchComment
  split <;> simp_all

/-- The kind of a comment that is closed, from the text behind its slash and its star. -/
def closedCommentKind : List Char → LexemeKind
  | '*' :: '/' :: _ => .comment
  | '*' :: _ => .docComment
  | _ => .comment

theorem closedCommentKind_ne_token (text : List Char) (terminal : Terminal) :
    closedCommentKind text ≠ .token terminal := by
  unfold closedCommentKind
  split <;> exact nofun

/-- A comment that is closed, whatever kind it is. -/
theorem matchComment_star (text : List Char) :
    matchComment ('*' :: text) =
      (through ['*', '/'] text).map fun more => (closedCommentKind text, more + 1) := by
  by_cases hStar : text.head? = some '*'
  · obtain ⟨text, rfl⟩ := List.head?_eq_some_iff.mp hStar
    by_cases hSlash : text.head? = some '/'
    · obtain ⟨text, rfl⟩ := List.head?_eq_some_iff.mp hSlash
      rfl
    · have hKind : closedCommentKind ('*' :: text) = .docComment := by
        unfold closedCommentKind
        split <;> simp_all
      have hNot : ¬ ['*', '/'].isPrefixOf ('*' :: text) = true := by
        rw [List.isPrefixOf_iff_prefix]
        rintro ⟨left, hLeft⟩
        obtain ⟨-, rfl⟩ := List.cons.inj hLeft
        exact hSlash rfl
      rw [matchComment_doc_eq hSlash, hKind, through, if_neg hNot, Option.map_map]
      rfl
  · have hKind : closedCommentKind text = .comment := by
      unfold closedCommentKind
      split <;> simp_all
    rw [matchComment_plain_eq hStar, hKind]

/-- A comment goes on to the end of its line, or is closed. -/
theorem matchComment_cases (h : matchComment rest = some found) :
    (∃ text, rest = '/' :: text ∧ found = (.comment, run (· ≠ '\n') text + 1)) ∨
      ∃ text size, rest = '*' :: text ∧ through ['*', '/'] text = some size ∧
        found = (closedCommentKind text, size + 1) := by
  match rest with
  | [] => cases h
  | c :: text =>
      by_cases hSlash : c = '/'
      · subst hSlash
        cases h
        exact .inl ⟨text, rfl, rfl⟩
      by_cases hStar : c = '*'
      · subst hStar
        rw [matchComment_star] at h
        obtain ⟨size, hSize, rfl⟩ := Option.map_eq_some_iff.mp h
        exact .inr ⟨text, size, rfl, hSize, rfl⟩
      · rw [matchComment_eq_none hSlash hStar] at h
        cases h

theorem matchComment_beyond (h : found ∈ matchComment rest) : 1 ≤ found.2 := by
  rcases matchComment_cases h with ⟨_, -, rfl⟩ | ⟨_, _, -, -, rfl⟩
  · exact Nat.le_add_left 1 _
  · exact Nat.le_add_left 1 _

/-- What starts at the opening of a comment: the comment, or an operator if it is not closed. -/
theorem matchAt_opening (body : List Char) :
    matchAt '/' ('*' :: body) =
      ((through ['*', '/'] body).map fun more => (closedCommentKind body, more + 1)).or
        (some (.token .operator, 0)) := by
  have hBlock : matchTextBlock '/' ('*' :: body) = none := rfl
  have hKeyword : matchKeyword '/' ('*' :: body) = none := rfl
  have hOther : matchOther '/' ('*' :: body) = some (.token .operator, 0) := by
    unfold matchOther
    rfl
  rw [matchAt, hBlock, hKeyword, hOther, if_pos rfl, matchComment_star]
  rfl

/-! ## All that can start -/

/-- The quotes of literals that stand on one line. -/
def quotes : List (Char × Terminal) := [('"', .stringLiteral), ('\'', .charLiteral)]

/-- What can start at a character: its kind, and how many characters behind the first belong to
it. -/
inductive Starts (c : Char) (rest : List Char) : LexemeKind → Nat → Prop where
  | textBlock {text : List Char} {size : Nat} : c = '"' → rest = '"' :: '"' :: text →
      through ['"', '"', '"'] text = some size → Starts c rest (.token .textBlock) (size + 2)
  | nonSealed : nonSealed.toList <+: c :: rest →
      run isWord ((c :: rest).drop nonSealed.length) = 0 →
      Starts c rest (.token .modifier) (nonSealed.length - 1)
  | keyword {terminal : Terminal} :
      keywords.lookup (String.ofList ((c :: rest).takeWhile isWord)) = some terminal →
      Starts c rest (.token terminal) (run isWord rest)
  | line {text : List Char} : c = '/' → rest = '/' :: text →
      Starts c rest .comment (run (· ≠ '\n') text + 1)
  | closed {kind : LexemeKind} {text : List Char} {size : Nat} : c = '/' → rest = '*' :: text →
      through ['*', '/'] text = some size → closedCommentKind text = kind →
      Starts c rest kind (size + 1)
  | name : isNameStart c = true → Starts c rest (.token .identifier) (run isNamePart rest)
  | number : isDigit c = true → Starts c rest (.token .number) (run isNumberPart rest)
  | white : isLayout c = true → Starts c rest .blank (run isLayout rest)
  | quoted {terminal : Terminal} {size : Nat} : (c, terminal) ∈ quotes →
      throughQuote c rest = some size → Starts c rest (.token terminal) size
  | mark {terminal : Terminal} : (c, terminal) ∈ punctuation → Starts c rest (.token terminal) 0
  | operator : isOperator c = true → Starts c rest (.token .operator) 0

private theorem starts_of_matchKeyword (h : matchKeyword c rest = some found) :
    Starts c rest found.1 found.2 := by
  rw [matchKeyword_eq] at h
  rcases Option.or_eq_some_iff.mp h with hSealed | ⟨-, hWord⟩
  · obtain ⟨more, hMore, rfl⟩ := Option.map_eq_some_iff.mp hSealed
    obtain ⟨⟨hPrefix, hRun⟩, rfl⟩ := matchNonSealed_eq_some_iff.mp hMore
    exact .nonSealed hPrefix hRun
  · obtain ⟨terminal, hTerminal, rfl⟩ := Option.map_eq_some_iff.mp hWord
    exact .keyword hTerminal

private theorem starts_of_matchOther (h : matchOther c rest = some found) :
    Starts c rest found.1 found.2 := by
  unfold matchOther at h
  split at h
  · next hStart =>
      cases h
      exact .name hStart
  split at h
  · next hDigit =>
      cases h
      exact .number hDigit
  split at h
  · next hLayout =>
      cases h
      exact .white hLayout
  split at h
  · next hQuote =>
      subst hQuote
      obtain ⟨size, hSize, rfl⟩ := Option.map_eq_some_iff.mp h
      exact .quoted (by simp [quotes]) hSize
  split at h
  · next hQuote =>
      subst hQuote
      obtain ⟨size, hSize, rfl⟩ := Option.map_eq_some_iff.mp h
      exact .quoted (by simp [quotes]) hSize
  split at h
  · next hMark =>
      cases h
      exact .mark (mem_of_lookup hMark)
  · split at h
    · next hOperator =>
        cases h
        exact .operator hOperator
    · cases h

/-- **All that can start at a character.** -/
theorem starts_of_matchAt {kind : LexemeKind} {more : Nat}
    (h : matchAt c rest = some (kind, more)) : Starts c rest kind more := by
  unfold matchAt at h
  rcases Option.or_eq_some_iff.mp h with hBlock | ⟨-, h⟩
  · obtain ⟨text, size, hQuote, hRest, hSize, hFound⟩ := exists_of_matchTextBlock hBlock
    cases hFound
    exact .textBlock hQuote hRest hSize
  rcases Option.or_eq_some_iff.mp h with hKeyword | ⟨-, h⟩
  · exact starts_of_matchKeyword hKeyword
  rcases Option.or_eq_some_iff.mp h with hComment | ⟨-, hOther⟩
  · obtain ⟨hSlash, hComment⟩ := Option.ite_none_right_eq_some.mp hComment
    rcases matchComment_cases hComment with
      ⟨text, hRest, hFound⟩ | ⟨text, size, hRest, hSize, hFound⟩
    · cases hFound
      exact .line hSlash hRest
    · cases hFound
      exact .closed hSlash hRest hSize rfl
  · exact starts_of_matchOther hOther

end ClassSchema.Java
