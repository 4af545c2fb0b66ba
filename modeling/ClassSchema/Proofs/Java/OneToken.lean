import ClassSchema.Proofs.Java.Lexing

/-!
# One token of a source

What is cut at some place depends on the text from there on only.  So if a source is cut
into lexemes up to some text, it is cut behind them as that text is by itself, with
other places.

## Main results

* `lexemesFrom_behind`: cutting a text goes on behind the lexemes that are cut.
* `OneToken.of_reads`, `OneToken.eq_of_reads`: a text inside a source is one token
  exactly if it is read as that token by itself.
-/

namespace ClassSchema.Java

open ClassSchema.Text (Place)

variable {front text back : List Char}

/-- In a source, a lexeme starts behind `front`: the lexemes before are those of `front`. -/
def StartsBehind (front rest : List Char) : Prop :=
  ∃ before after, (lexemesFrom .start (front ++ rest)).1 = before ++ after ∧
    before.flatMap (·.text) = front

/-- In a source, the text between `front` and `back` is one token. -/
def OneToken (terminal : Terminal) (front text back : List Char) : Prop :=
  ∃ before place after, (lexemesFrom .start (front ++ (text ++ back))).1 =
      before ++ ⟨.token terminal, text, place⟩ :: after ∧
    before.flatMap (·.text) = front

/-- The first of the lexemes that make up the front of a text. -/
theorem reads_first {place : Place} {front rest : List Char} {lexeme : Lexeme}
    {before after : List Lexeme} (hRest : rest ≠ [])
    (h : (lexemesFrom place (front ++ rest)).1 = lexeme :: before ++ after)
    (hTexts : (lexeme :: before).flatMap (·.text) = front) :
    Reads lexeme.kind lexeme.text (before.flatMap (·.text) ++ rest) ∧ lexeme.place = place := by
  rw [List.flatMap_cons] at hTexts
  subst hTexts
  rw [List.append_assoc] at h
  have hLeft : 0 < (before.flatMap (·.text) ++ rest).length :=
    List.length_pos_iff.mpr (List.append_ne_nil_of_right_ne_nil _ hRest)
  generalize before.flatMap (·.text) ++ rest = left at h hLeft ⊢
  generalize hAll : lexeme.text ++ left = all at h
  cases all with
  | nil =>
      rw [lexemesFrom] at h
      cases h
  | cons c tail =>
      rw [lexemesFrom] at h
      cases hMatch : matchAt c tail with
      | none =>
          rw [hMatch] at h
          cases h
      | some found =>
          obtain ⟨kind, more⟩ := found
          rw [hMatch] at h
          simp only [List.cons_append, List.cons.injEq] at h
          obtain ⟨rfl, -⟩ := h
          have hText : c :: tail.take more ++ left = c :: tail := hAll
          rw [List.cons_append, List.cons.injEq] at hText
          have hLength := congrArg List.length hText.2
          rw [List.length_append, List.length_take] at hLength
          have hMore : min more tail.length = more := by omega
          refine ⟨⟨c, tail.take more, rfl, ?_⟩, rfl⟩
          rw [hText.2, hMatch, List.length_take, hMore]

/-- Lexemes are not empty. -/
theorem front_ne_nil {place : Place} {front rest : List Char} {lexeme : Lexeme}
    {before after : List Lexeme} (hRest : rest ≠ [])
    (h : (lexemesFrom place (front ++ rest)).1 = lexeme :: before ++ after)
    (hTexts : (lexeme :: before).flatMap (·.text) = front) : front ≠ [] := by
  obtain ⟨⟨c, piece, hText, -⟩, -⟩ := reads_first hRest h hTexts
  rw [← hTexts, List.flatMap_cons, hText]
  exact List.cons_ne_nil c _

/-- Cutting goes on behind the lexemes of the front of a text. -/
theorem lexemesFrom_behind {place : Place} {front rest : List Char} {before after : List Lexeme}
    (hRest : rest ≠ []) (h : (lexemesFrom place (front ++ rest)).1 = before ++ after)
    (hTexts : before.flatMap (·.text) = front) :
    lexemesFrom place (front ++ rest) =
      (before ++ (lexemesFrom (place.advance front) rest).1,
        (lexemesFrom (place.advance front) rest).2) := by
  induction before generalizing place front with
  | nil =>
      obtain rfl : front = [] := hTexts.symm
      rfl
  | cons lexeme before ih =>
      obtain ⟨hRead, rfl⟩ := reads_first hRest h hTexts
      rw [List.flatMap_cons] at hTexts
      subst hTexts
      rw [List.append_assoc, hRead.lexemesFrom] at h ⊢
      rw [ih (List.cons.inj h).2 rfl, Place.advance_append]
      rfl

/-- Where lexemes start is found by cutting. -/
theorem startsBehind_iff {rest : List Char} :
    StartsBehind front rest ↔
      ∃ count < (lexemesWithin (front ++ rest).length .start (front ++ rest)).1.length + 1,
        ((lexemesWithin (front ++ rest).length .start (front ++ rest)).1.take count).flatMap
          (·.text) = front := by
  rw [StartsBehind, lexemesFrom_eq_within (Nat.le_refl _)]
  constructor
  · rintro ⟨before, after, hLexemes, hTexts⟩
    refine ⟨before.length, ?_, by rwa [hLexemes, List.take_left]⟩
    rw [hLexemes, List.length_append]
    omega
  · rintro ⟨count, -, hTexts⟩
    exact ⟨_, _, (List.take_append_drop count _).symm, hTexts⟩

instance (front rest : List Char) : Decidable (StartsBehind front rest) :=
  decidable_of_iff _ startsBehind_iff.symm

variable {terminal : Terminal}

theorem Reads.append_ne_nil {kind : LexemeKind} {next : List Char} (h : Reads kind text next) :
    text ++ next ≠ [] := by
  obtain ⟨c, rest, rfl, -⟩ := h
  exact List.cons_ne_nil c _

/-- The lexemes of a source around one that is read behind its front. -/
theorem Reads.lexemes_around {kind : LexemeKind} (h : Reads kind text back)
    (hStarts : StartsBehind front (text ++ back)) :
    ∃ before place, before.flatMap (·.text) = front ∧
      Java.lexemesFrom .start (front ++ (text ++ back)) =
        (before ++ ⟨kind, text, place⟩ :: (Java.lexemesFrom (place.advance text) back).1,
          (Java.lexemesFrom (place.advance text) back).2) := by
  obtain ⟨before, after, hLexemes, hTexts⟩ := hStarts
  have hBehind := lexemesFrom_behind h.append_ne_nil hLexemes hTexts
  rw [h.lexemesFrom] at hBehind
  exact ⟨before, _, hTexts, hBehind⟩

/-- A text is one token where it is read as that token. -/
theorem OneToken.of_reads (hStarts : StartsBehind front (text ++ back))
    (h : Reads (.token terminal) text back) : OneToken terminal front text back := by
  obtain ⟨before, place, hTexts, hLexemes⟩ := h.lexemes_around hStarts
  exact ⟨before, place, _, by rw [hLexemes], hTexts⟩

/-- What is read where a text is one token is this token. -/
theorem OneToken.eq_of_reads (h : OneToken terminal front text back) {kind : LexemeKind}
    {piece left : List Char} (hRead : Reads kind piece left)
    (hText : text ++ back = piece ++ left) :
    piece = text ∧ kind = .token terminal := by
  obtain ⟨before, place, after, hLexemes, hTexts⟩ := h
  have hBehind := lexemesFrom_behind (hText ▸ hRead.append_ne_nil) hLexemes hTexts
  rw [hBehind, hText, hRead.lexemesFrom, List.append_right_inj] at hLexemes
  injection hLexemes with hLexeme
  injection hLexeme with hKind hPiece
  exact ⟨hPiece, hKind⟩

end ClassSchema.Java
