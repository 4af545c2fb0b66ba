import ClassSchema.Proofs.Java.LexemeEnds
import ClassSchema.Proofs.Java.Lexicon
import ClassSchema.Proofs.Java.OneToken
import Mathlib.Order.Bounds.Image

/-!
# Comments that are closed

A slash and a star open a comment, and the first star and slash behind them close it.  Two
terminals share these comments, and each looks ahead to leave the other its own.  That of
doc comments wants a second star with no slash behind it; the other one wants no second
star with anything but a slash behind it.  So every comment belongs to one of them,
whatever stars it begins and ends with: `/**/` is closed at once and documents nothing,
while `/***/` is a doc comment without a text.

The star that opens a comment does not close it.  A comment that is never closed is none:
neither terminal matches, and the slash is an operator.

## Main results

* `isLeast_of_through`, `through_eq_none_iff`: a search for a mark ends with its first
  occurrence, and fails if there is none.
* `left?_docComment_eq`, `left?_blockComment_eq`: what the two terminals match.
* `comments_partitioned`: the comments of the two terminals, and what they are in a source.
-/

namespace ClassSchema.Java

variable {mark text body : List Char} {size : Nat}

/-! ## The first occurrence of a mark -/

/-- The offsets at which a mark stands in a text. -/
def offsetsOf (mark text : List Char) : Set Nat := {offset | mark <+: text.drop offset}

/-- A search that finds something ends behind the first occurrence of the mark. -/
theorem isLeast_of_through (h : through mark text = some size) :
    ∃ first, IsLeast (offsetsOf mark text) first ∧ size = first + mark.length := by
  fun_induction through mark text generalizing size with
  | case1 => cases h
  | case2 c rest hPrefix =>
      cases h
      refine ⟨0, ⟨List.isPrefixOf_iff_prefix.mp hPrefix, fun _ _ => Nat.zero_le _⟩, ?_⟩
      rw [Nat.zero_add]
  | case3 c rest hPrefix ih =>
      obtain ⟨inner, hInner, rfl⟩ := Option.map_eq_some_iff.mp h
      obtain ⟨first, ⟨hStands, hFirst⟩, rfl⟩ := ih hInner
      refine ⟨first + 1, ⟨hStands, fun offset hOffset => ?_⟩, Nat.add_right_comm _ _ _⟩
      cases offset with
      | zero => exact absurd (List.isPrefixOf_iff_prefix.mpr hOffset) hPrefix
      | succ offset => exact Nat.succ_le_succ (hFirst hOffset)

/-- A search finds nothing exactly if the mark does not occur. -/
theorem through_eq_none_iff (hMark : mark ≠ []) :
    through mark text = none ↔ offsetsOf mark text = ∅ := by
  constructor
  · intro hNone
    refine Set.eq_empty_of_forall_notMem fun offset hOffset => ?_
    obtain ⟨back, hBack⟩ := hOffset
    obtain ⟨size, hSize, -⟩ := exists_through hMark (text.take offset) back
    rw [hBack, List.take_append_drop, hNone] at hSize
    cases hSize
  · intro hEmpty
    rw [Option.eq_none_iff_forall_not_mem]
    intro size hSize
    obtain ⟨first, hFirst, -⟩ := isLeast_of_through hSize
    exact Set.notMem_empty first (hEmpty ▸ hFirst.1)

/-! ## Where a comment is closed -/

/-- The offsets at which a comment at the front of a text can be closed: they lie behind the two
characters that open it. -/
def closings (text : List Char) : Set Nat :=
  {offset | 2 ≤ offset ∧ offset ∈ offsetsOf ['*', '/'] text}

/-- The opening of a doc comment: two stars, and no slash right behind them. -/
def OpensDoc (text : List Char) : Prop :=
  ['/', '*', '*'] <+: text ∧ ¬ ['/', '*', '*', '/'] <+: text

instance : DecidablePred OpensDoc := fun _ => inferInstanceAs (Decidable (_ ∧ _))

theorem closings_eq (c d : Char) (body : List Char) :
    closings (c :: d :: body) = (· + 2) '' offsetsOf ['*', '/'] body := by
  ext offset
  constructor
  · rintro ⟨hOffset, hStands⟩
    obtain ⟨inner, rfl⟩ := Nat.exists_eq_add_of_le' hOffset
    exact ⟨inner, hStands, rfl⟩
  · rintro ⟨inner, hStands, rfl⟩
    exact ⟨Nat.le_add_left 2 inner, hStands⟩

/-- The search behind the opening counts up to where the comment ends.  The opening is as long as
the mark that ends it, so in the whole text this is the offset of that mark. -/
theorem isLeast_closings (c d : Char) (h : through ['*', '/'] body = some size) :
    IsLeast (closings (c :: d :: body)) size := by
  obtain ⟨first, hFirst, rfl⟩ := isLeast_of_through h
  have hMonotone : Monotone fun offset : Nat => offset + 2 := fun _ _ h => Nat.add_le_add_right h 2
  rw [closings_eq]
  exact hMonotone.map_isLeast hFirst

theorem closings_eq_empty_iff (c d : Char) (body : List Char) :
    closings (c :: d :: body) = ∅ ↔ through ['*', '/'] body = none := by
  rw [closings_eq, Set.image_eq_empty, through_eq_none_iff (by decide)]

/-! ## The two terminals -/

theorem opensDoc_iff :
    OpensDoc ('/' :: '*' :: body) ↔ ∃ behind, body = '*' :: behind ∧ ¬ ['/'] <+: behind := by
  simp only [OpensDoc, List.cons_prefix_cons, true_and]
  constructor
  · rintro ⟨⟨behind, rfl⟩, hSlash⟩
    exact ⟨behind, rfl, by simpa using hSlash⟩
  · rintro ⟨behind, rfl, hSlash⟩
    exact ⟨⟨behind, rfl⟩, by simpa using hSlash⟩

/-- The terminal of doc comments matches what is opened like one, up to its first end. -/
theorem left?_docComment_eq (body : List Char) :
    docCommentPattern.left? ('/' :: '*' :: body) =
      if OpensDoc ('/' :: '*' :: body) then (through ['*', '/'] body).map (body.drop ·)
      else none := by
  split
  · next hDoc =>
      obtain ⟨behind, rfl, hSlash⟩ := opensDoc_iff.mp hDoc
      have hNot : ¬ ['*', '/'].isPrefixOf ('*' :: behind) = true := by simpa using hSlash
      rw [left?_docComment, if_neg hSlash, through, if_neg hNot, Option.map_map]
      rfl
  · next hDoc =>
      by_cases hStars : ['/', '*', '*'] <+: '/' :: '*' :: body
      · have hStar : ['*'] <+: body := by simpa using hStars
        obtain ⟨behind, rfl⟩ : ∃ behind, '*' :: behind = body := hStar
        have hSlash : ['/'] <+: behind := by
          by_contra hSlash
          exact hDoc (opensDoc_iff.mpr ⟨behind, rfl, hSlash⟩)
        rw [left?_docComment, if_pos hSlash]
      · exact left?_text_other _ hStars

/-- The other terminal matches any other comment, up to its first end. -/
theorem left?_blockComment_eq (body : List Char) :
    blockCommentPattern.left? ('/' :: '*' :: body) =
      if OpensDoc ('/' :: '*' :: body) then none
      else (through ['*', '/'] body).map (body.drop ·) := by
  split
  · next hDoc =>
      obtain ⟨behind, rfl, hSlash⟩ := opensDoc_iff.mp hDoc
      cases behind with
      | nil =>
          -- at the end of the text nothing is seen ahead, but nothing closes the comment either
          rw [left?_blockComment (by simp)]
          rfl
      | cons c rest => exact left?_blockComment_of_doc (by simpa [eq_comm] using hSlash) rest
  · next hDoc =>
      refine left?_blockComment fun c rest hBody => ?_
      by_contra hSlash
      exact hDoc (opensDoc_iff.mpr ⟨c :: rest, hBody, by simpa [eq_comm] using hSlash⟩)

/-! ## What the scanner finds -/

/-- The kind of a comment that is closed is that of its opening. -/
theorem closedCommentKind_eq (body : List Char) :
    closedCommentKind body =
      if OpensDoc ('/' :: '*' :: body) then .docComment else .comment := by
  unfold closedCommentKind
  split
  · next rest =>
      have hDoc : ¬ OpensDoc ('/' :: '*' :: '*' :: '/' :: rest) := by
        rw [opensDoc_iff]
        rintro ⟨behind, hBody, hSlash⟩
        cases hBody
        exact hSlash (by simp)
      rw [if_neg hDoc]
  · next behind hNot =>
      have hSlash : ¬ ['/'] <+: behind := fun ⟨rest, hRest⟩ => hNot rest (by rw [← hRest]; rfl)
      rw [if_pos (opensDoc_iff.mpr ⟨behind, rfl, hSlash⟩)]
  · next hNot =>
      rw [if_neg fun hDoc => ?_]
      obtain ⟨behind, hBody, -⟩ := opensDoc_iff.mp hDoc
      exact hNot behind hBody

/-- A comment that is closed is one lexeme. -/
theorem reads_closed (h : through ['*', '/'] body = some size) :
    Reads (closedCommentKind body) ('/' :: '*' :: body.take size) (body.drop size) := by
  have hLength : size ≤ body.length := (through_append h []).2.2
  refine ⟨'/', '*' :: body.take size, rfl, ?_⟩
  rw [List.cons_append, List.take_append_drop, matchAt_opening, h, List.length_cons,
    List.length_take, Nat.min_eq_left hLength]
  rfl

/-- The slash of a comment that is not closed is an operator. -/
theorem reads_unclosed (h : through ['*', '/'] body = none) :
    Reads (.token .operator) ['/'] ('*' :: body) := by
  refine ⟨'/', [], rfl, ?_⟩
  rw [List.nil_append, matchAt_opening, h]
  rfl

/-! ## Comments of a source -/

/-- In a source, the text between `front` and `back` is one lexeme. -/
def OneLexeme (kind : LexemeKind) (front text back : List Char) : Prop :=
  ∃ before place after, (lexemesFrom .start (front ++ (text ++ back))).1 =
      before ++ ⟨kind, text, place⟩ :: after ∧
    before.flatMap (·.text) = front

/-- A text is one lexeme where it is read as that lexeme. -/
theorem OneLexeme.of_reads {kind : LexemeKind} {front back : List Char}
    (hStarts : StartsBehind front (text ++ back)) (h : Reads kind text back) :
    OneLexeme kind front text back := by
  obtain ⟨before, place, hTexts, hLexemes⟩ := h.lexemes_around hStarts
  exact ⟨before, place, _, by rw [hLexemes], hTexts⟩

/-- **Comments are partitioned.**  If a text that opens a comment goes on with its end somewhere
behind the opening, exactly one of the two terminals matches, up to the first such end: that of doc
comments if two stars with no slash behind them open the comment, and the other one if not.  In a
source, the comment is one lexeme.  If there is no such end, neither of them matches, and in a
source the slash is an operator. -/
theorem comments_partitioned (hOpens : ['/', '*'] <+: text) :
    ((closings text).Nonempty →
      ∃ first, IsLeast (closings text) first ∧
        docCommentPattern.left? text =
          (if OpensDoc text then some (text.drop (first + 2)) else none) ∧
        blockCommentPattern.left? text =
          (if OpensDoc text then none else some (text.drop (first + 2))) ∧
        ∀ front, StartsBehind front text →
          OneLexeme (if OpensDoc text then .docComment else .comment) front
            (text.take (first + 2)) (text.drop (first + 2))) ∧
    (closings text = ∅ →
      docCommentPattern.left? text = none ∧ blockCommentPattern.left? text = none ∧
        ∀ front, StartsBehind front text → OneLexeme (.token .operator) front ['/'] text.tail) := by
  obtain ⟨body, rfl⟩ : ∃ body, '/' :: '*' :: body = text := hOpens
  constructor
  · intro hClosed
    obtain ⟨size, hSize⟩ : ∃ size, through ['*', '/'] body = some size := by
      rw [← Option.ne_none_iff_exists', Ne, ← closings_eq_empty_iff '/' '*']
      exact hClosed.ne_empty
    refine ⟨size, isLeast_closings '/' '*' hSize, ?_, ?_, fun front hStarts => ?_⟩
    · rw [left?_docComment_eq, hSize]
      rfl
    · rw [left?_blockComment_eq, hSize]
      rfl
    · rw [← closedCommentKind_eq]
      refine .of_reads ?_ (reads_closed hSize)
      rwa [List.take_append_drop]
  · intro hEmpty
    rw [closings_eq_empty_iff] at hEmpty
    refine ⟨?_, ?_, fun front hStarts => .of_reads hStarts (reads_unclosed hEmpty)⟩
    · rw [left?_docComment_eq, hEmpty, Option.map_none, ite_self]
    · rw [left?_blockComment_eq, hEmpty, Option.map_none, ite_self]

/-- A comment that is closed by the last of three stars, one that is closed by its second star, and
one that its only star opens and does not close. -/
theorem comments_partitioned_stars :
    (['/', '*'] <+: "/***/ int n; /**/".toList ∧
      IsLeast (closings "/***/ int n; /**/".toList) 3 ∧
      docCommentPattern.left? "/***/ int n; /**/".toList = some " int n; /**/".toList ∧
      blockCommentPattern.left? "/***/ int n; /**/".toList = none ∧
      OneLexeme .docComment "class A \x7b".toList "/***/".toList " int n; /**/".toList) ∧
    (['/', '*'] <+: "/**/ int n; /***/".toList ∧
      IsLeast (closings "/**/ int n; /***/".toList) 2 ∧
      docCommentPattern.left? "/**/ int n; /***/".toList = none ∧
      blockCommentPattern.left? "/**/ int n; /***/".toList = some " int n; /***/".toList ∧
      OneLexeme .comment "class A \x7b".toList "/**/".toList " int n; /***/".toList) ∧
    (['/', '*'] <+: "/*/ int n;".toList ∧ closings "/*/ int n;".toList = ∅ ∧
      docCommentPattern.left? "/*/ int n;".toList = none ∧
      blockCommentPattern.left? "/*/ int n;".toList = none ∧
      OneLexeme (.token .operator) "class A \x7b".toList ['/'] "*/ int n;".toList) := by
  have hThree : IsLeast (closings "/***/ int n; /**/".toList) 3 :=
    isLeast_closings '/' '*' (by decide : through ['*', '/'] "**/ int n; /**/".toList = some 3)
  have hTwo : IsLeast (closings "/**/ int n; /***/".toList) 2 :=
    isLeast_closings '/' '*' (by decide : through ['*', '/'] "*/ int n; /***/".toList = some 2)
  have hNever : closings "/*/ int n;".toList = ∅ :=
    (closings_eq_empty_iff '/' '*' "/ int n;".toList).mpr (by decide)
  refine ⟨⟨by decide, hThree, ?_⟩, ⟨by decide, hTwo, ?_⟩, ⟨by decide, hNever, ?_⟩⟩
  · obtain ⟨first, hFirst, hDoc, hBlock, hLexeme⟩ :=
      (@comments_partitioned "/***/ int n; /**/".toList (by decide)).1 ⟨3, hThree.1⟩
    obtain rfl := hFirst.unique hThree
    exact ⟨hDoc, hBlock, hLexeme _ (by decide +kernel)⟩
  · obtain ⟨first, hFirst, hDoc, hBlock, hLexeme⟩ :=
      (@comments_partitioned "/**/ int n; /***/".toList (by decide)).1 ⟨2, hTwo.1⟩
    obtain rfl := hFirst.unique hTwo
    exact ⟨hDoc, hBlock, hLexeme _ (by decide +kernel)⟩
  · obtain ⟨hDoc, hBlock, hLexeme⟩ :=
      (@comments_partitioned "/*/ int n;".toList (by decide)).2 hNever
    exact ⟨hDoc, hBlock, hLexeme _ (by decide +kernel)⟩

end ClassSchema.Java
