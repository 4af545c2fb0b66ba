import ClassSchema.Proofs.Java.InsertedWhite
import ClassSchema.Proofs.Java.SkippedCode

/-!
# White space

Reading sees nothing of white space, and of a comment that documents nothing only that it
is there.  White space put between two lexemes leaves all lexemes what they are, with two
exceptions: it goes on in white space next to it, and a comment to the end of a line takes
it up to a line end.  So the same lexemes show as before.

## Main results

* `tokensOf_shown`: the tokens of lexemes come from what shows of them.
* `Shows.inserted`: white space between two lexemes does not show.
* `white_space_irrelevant`: layout does not matter to the declarations.
-/

namespace ClassSchema.Java

open ClassSchema.Text

/-! ## What shows of a text -/

/-- A lexeme as reading sees it: without its place, and without its text if it is a comment that
documents nothing. -/
def Lexeme.bare (lexeme : Lexeme) : Lexeme where
  kind := lexeme.kind
  text := if lexeme.kind = .comment then [] else lexeme.text
  place := .start

/-- The lexemes that are not white space, as reading sees them. -/
def shown (lexemes : List Lexeme) : List Lexeme :=
  (lexemes.filter (·.kind ≠ .blank)).map (·.bare)

theorem shown_cons (kind : LexemeKind) (text : List Char) (place : Place)
    (lexemes : List Lexeme) :
    shown (⟨kind, text, place⟩ :: lexemes) = shown [⟨kind, text, .start⟩] ++ shown lexemes := by
  rw [← List.singleton_append, shown, List.filter_append, List.map_append]
  cases kind <;> rfl

/-- Tokens come from what shows. -/
theorem tokensOf_shown (doc : Option String) (lexemes : List Lexeme) :
    (tokensOf doc lexemes).map Token.bare = tokensOf doc (shown lexemes) := by
  induction lexemes generalizing doc with
  | nil => rfl
  | cons lexeme lexemes ih =>
      obtain ⟨kind, text, place⟩ := lexeme
      cases kind with
      | token terminal => exact congrArg (_ :: ·) (ih none)
      | docComment => exact ih _
      | comment => exact ih none
      | blank => exact ih doc

/-- Where a text starts does not matter to what shows of it. -/
theorem shown_lexemesFrom (place place' : Place) (text : List Char) :
    shown (lexemesFrom place text).1 = shown (lexemesFrom place' text).1 ∧
      ((lexemesFrom place text).2 = none ↔ (lexemesFrom place' text).2 = none) := by
  fun_induction lexemesFrom place text generalizing place' with
  | case1 =>
      rw [lexemesFrom]
      exact ⟨rfl, Iff.rfl⟩
  | case2 place c rest hMatch =>
      rw [lexemesFrom, hMatch]
      exact ⟨rfl, by simp⟩
  | case3 place c rest kind more hMatch lexeme lexemes obstacle hLater ih =>
      obtain ⟨hShown, hEnd⟩ := ih (place'.advance lexeme)
      rw [hLater] at hShown hEnd
      rw [lexemesFrom, hMatch]
      refine ⟨?_, hEnd⟩
      rw [shown_cons, hShown]
      exact (shown_cons _ _ _ _).symm

/-- A text that can be cut to its end, with what shows of it. -/
def Shows (text : List Char) (lexemes : List Lexeme) : Prop :=
  (tokenize text).2 = none ∧ shown (lexemesFrom .start text).1 = lexemes

/-- What shows of a text is what shows of its first lexeme and what shows behind it. -/
theorem Reads.shows_iff {kind : LexemeKind} {text next : List Char} (h : Reads kind text next)
    {lexemes : List Lexeme} :
    Shows (text ++ next) lexemes ↔
      ∃ later, lexemes = shown [⟨kind, text, .start⟩] ++ later ∧ Shows next later := by
  obtain ⟨hShown, hEnd⟩ := shown_lexemesFrom (Place.start.advance text) .start next
  unfold Shows tokenize
  rw [h.lexemesFrom, shown_cons, hShown]
  constructor
  · rintro ⟨hNone, rfl⟩
    exact ⟨_, rfl, hEnd.mp hNone, rfl⟩
  · rintro ⟨_, rfl, hNone, rfl⟩
    exact ⟨hEnd.mpr hNone, rfl⟩

/-! ## White space between lexemes -/

theorem matchAt_of_isLayout {c : Char} (h : isLayout c = true) (rest : List Char) :
    matchAt c rest = some (.blank, run isLayout rest) := by
  have hc : c = ' ' ∨ c = '\t' ∨ c = '\x0c' ∨ c = '\r' ∨ c = '\n' := by
    simpa [isLayout, or_assoc] using h
  rcases hc with rfl | rfl | rfl | rfl | rfl <;> rfl

theorem reads_white {text next : List Char} (hText : text ≠ []) (hWhite : IsWhite text)
    (hNext : ∀ d ∈ next.head?, isLayout d = false) : Reads .blank text next := by
  obtain ⟨c, rest, rfl⟩ := List.exists_cons_of_ne_nil hText
  have hRest : rest.takeWhile isLayout = rest :=
    List.takeWhile_eq_self_iff.mpr fun d mem => hWhite d (List.mem_cons_of_mem c mem)
  refine ⟨c, rest, rfl, ?_⟩
  rw [matchAt_of_isLayout (hWhite c List.mem_cons_self), run, takeWhile_append_of_head hNext, hRest]

private theorem exists_run (test : Char → Bool) (text : List Char) :
    ∃ front back, text = front ++ back ∧ (∀ c ∈ front, test c = true) ∧
      ∀ d ∈ back.head?, test d = false := by
  refine ⟨text.takeWhile test, text.dropWhile test, List.takeWhile_append_dropWhile.symm,
    fun c mem => List.mem_takeWhile_imp mem, fun d hd => ?_⟩
  have hNot := List.head?_dropWhile_not test text
  rw [Option.mem_def.mp hd] at hNot
  exact hNot

/-- What shows of a text shows of it behind white space. -/
theorem Shows.behind_white {text : List Char} {lexemes : List Lexeme} (h : Shows text lexemes)
    {blank : List Char} (hWhite : IsWhite blank) : Shows (blank ++ text) lexemes := by
  by_cases hBlank : blank = []
  · rwa [hBlank]
  -- the white space goes on into that at the front of the text
  obtain ⟨front, back, rfl, hFront, hNext⟩ := exists_run isLayout text
  have hBack : Shows back lexemes := by
    by_cases hEmpty : front = []
    · rwa [hEmpty] at h
    · obtain ⟨later, rfl, hLater⟩ := (reads_white hEmpty hFront hNext).shows_iff.mp h
      exact hLater
  have hAll : IsWhite (blank ++ front) := List.forall_mem_append.mpr ⟨hWhite, hFront⟩
  have hNonempty : blank ++ front ≠ [] := List.append_ne_nil_of_left_ne_nil hBlank front
  rw [← List.append_assoc, (reads_white hNonempty hAll hNext).shows_iff]
  exact ⟨lexemes, rfl, hBack⟩

private theorem reads_line {text next : List Char} (hText : ∀ c ∈ text, c ≠ '\n')
    (hNext : ∀ d ∈ next.head?, d = '\n') : Reads .comment ('/' :: '/' :: text) next := by
  have hMatch : matchAt '/' ('/' :: (text ++ next)) =
      some (.comment, run (· ≠ '\n') (text ++ next) + 1) := rfl
  have hRun : text.takeWhile (· ≠ '\n') = text :=
    List.takeWhile_eq_self_iff.mpr fun c mem => decide_eq_true (hText c mem)
  refine ⟨'/', '/' :: text, rfl, ?_⟩
  rw [List.cons_append, hMatch, run, takeWhile_append_of_head (by simpa using hNext), hRun]
  rfl

/-- White space behind white space, or behind a comment to the end of a line, belongs to it. -/
private theorem Shows.taken {kind : LexemeKind} {text back blank : List Char}
    {later : List Lexeme} (hRead : Reads kind text back) (hTakes : TakesWhite text)
    (h : Shows back later) (hWhite : IsWhite blank) :
    Shows (text ++ (blank ++ back)) (shown [⟨kind, text, .start⟩] ++ later) := by
  obtain ⟨c, rest, rfl, hMatch⟩ := hRead
  rcases hTakes with ⟨_, ⟨⟩, hLayout⟩ | ⟨line, hLine⟩
  · rw [matchAt_of_isLayout hLayout] at hMatch
    obtain ⟨rfl, hRun⟩ := Prod.mk.inj (Option.some.inj hMatch)
    have hAll : IsWhite (c :: rest) := List.forall_mem_cons.mpr ⟨hLayout, run_all hRun⟩
    rw [← List.append_assoc]
    exact h.behind_white (List.forall_mem_append.mpr ⟨hAll, hWhite⟩)
  · obtain ⟨rfl, hRest⟩ := List.cons.inj hLine
    obtain rfl : '/' :: line = rest := hRest
    have hFound : some (.comment, run (· ≠ '\n') (line ++ back) + 1) =
      some (kind, line.length + 1) := hMatch
    obtain ⟨rfl, hLength⟩ := Prod.mk.inj (Option.some.inj hFound)
    have hRun := Nat.succ.inj hLength
    -- the comment takes the white space up to its first line end
    obtain ⟨taken, left, rfl, hTaken, hLeft⟩ := exists_run (· ≠ '\n') blank
    obtain ⟨-, hWhite⟩ := List.forall_mem_append.mp hWhite
    have hPlain : ∀ c ∈ line ++ taken, c ≠ '\n' := by
      intro c mem
      rcases List.mem_append.mp mem with mem | mem
      · exact of_decide_eq_true (run_all hRun c mem)
      · exact of_decide_eq_true (hTaken c mem)
    have hNext : ∀ d ∈ (left ++ back).head?, d = '\n' := by
      intro d hd
      cases left with
      | nil => exact Decidable.not_not.mp (of_decide_eq_false (head_of_run hRun d hd))
      | cons first left => exact Decidable.not_not.mp (of_decide_eq_false (hLeft d hd))
    have hBehind := (reads_line hPlain hNext).shows_iff.mpr ⟨later, rfl, h.behind_white hWhite⟩
    have hText : '/' :: '/' :: (line ++ taken) ++ (left ++ back) =
        '/' :: '/' :: line ++ (taken ++ left ++ back) := by simp
    rw [← hText]
    exact hBehind

/-! ### Every boundary -/

/-- **White space between lexemes** shows nowhere. -/
theorem Shows.inserted {place : Place} {front back blank : List Char}
    {before after lexemes : List Lexeme} (h : Shows (front ++ back) lexemes)
    (hLexemes : (lexemesFrom place (front ++ back)).1 = before ++ after)
    (hTexts : before.flatMap (·.text) = front) (hBlank : blank ≠ []) (hWhite : IsWhite blank) :
    Shows (front ++ (blank ++ back)) lexemes := by
  induction before generalizing place front lexemes with
  | nil =>
      subst hTexts
      exact h.behind_white hWhite
  | cons lexeme before ih =>
      have hSeam := wordsEnd_front hLexemes hTexts
      obtain ⟨next, hText, hRead, hLater⟩ := exists_reads hLexemes
      rw [List.flatMap_cons] at hTexts
      rw [← hTexts, List.append_assoc, List.append_cancel_left_eq] at hText
      subst hText
      subst hTexts
      rw [List.append_assoc, hRead.shows_iff] at h
      obtain ⟨later, rfl, hRest⟩ := h
      have hShows := ih hRest hLater rfl
      rw [List.append_assoc]
      by_cases hTakes : TakesWhite lexeme.text ∧ before.flatMap (·.text) = []
      · rw [hTakes.2, List.nil_append] at hRead hRest ⊢
        exact .taken hRead hTakes.1 hRest hWhite
      · have hEnds := fun hTaken hEmpty => hTakes ⟨hTaken, hEmpty⟩
        exact (hRead.inserted hEnds hSeam hBlank hWhite).shows_iff.mpr ⟨later, rfl, hShows⟩

/-! ## Sources -/

/-- What is read follows from what shows. -/
theorem parse_eq_ok_of_shown {source source' : List Char} {file : SourceFile}
    (h : parse source = .ok file) (hEnd : (tokenize source').2 = none)
    (hShown : shown (lexemesFrom .start source').1 = shown (lexemesFrom .start source).1) :
    parse source' = .ok file := by
  obtain ⟨-, hSentence, rfl⟩ := parse_eq_ok_iff.mp h
  refine parse_eq_ok_of_bare hEnd ?_ hSentence
  calc (tokenize source').1.map Token.bare
      = tokensOf none (shown (lexemesFrom .start source').1) := tokensOf_shown none _
    _ = tokensOf none (shown (lexemesFrom .start source).1) := by rw [hShown]
    _ = (tokenize source).1.map Token.bare := (tokensOf_shown none _).symm

/-- **Layout does not matter.**  White space can be put between any two lexemes of a source, and
two texts whose lexemes are the same but for white space declare the same, doc comments
included. -/
theorem white_space_irrelevant {source : List Char} {file : SourceFile}
    (h : parse source = .ok file) :
    (∀ front back blank, source = front ++ back → StartsBehind front back → IsWhite blank →
      parse (front ++ (blank ++ back)) = .ok file) ∧
    ∀ source', (tokenize source').2 = none →
      shown (lexemesFrom .start source').1 = shown (lexemesFrom .start source).1 →
        parse source' = .ok file := by
  refine ⟨?_, fun source' hEnd hShown => parse_eq_ok_of_shown h hEnd hShown⟩
  rintro front back blank rfl ⟨before, after, hLexemes, hTexts⟩ hWhite
  by_cases hBlank : blank = []
  · rwa [hBlank]
  have hShows : Shows (front ++ back) (shown (lexemesFrom .start (front ++ back)).1) :=
    ⟨(parse_eq_ok_iff.mp h).1, rfl⟩
  obtain ⟨hEnd, hShown⟩ := hShows.inserted hLexemes hTexts hBlank hWhite
  exact parse_eq_ok_of_shown h hEnd hShown

/-! ### A documented field -/

/-- A class with one field, which has a doc comment. -/
def documentedField : SourceFile where
  package := ""
  imports := []
  types := [{
    kind := .classDecl
    name := "A"
    typeParams := []
    modifiers := []
    fields := [⟨"x", ⟨"int", [], 0⟩, some "/** d */", []⟩]
    enumConstants := []
    types := [] }]

/-- White space between a doc comment and a field, and no white space but where it is needed. -/
theorem white_space_irrelevant_documented :
    parse "class A \x7b/** d */ int x;// n\n\x7d".toList = .ok documentedField ∧
      parse "class A \x7b/** d */\t\x0c\r\n int x;// n\n\x7d".toList = .ok documentedField ∧
      parse "class A\x7b/** d */int x;//\n\x7d\n".toList = .ok documentedField := by
  have hParse : parse "class A \x7b/** d */ int x;// n\n\x7d".toList = .ok documentedField := by
    refine @parse_eq_ok_of_bare "class A \x7b/** d */ int x;// n\n\x7d".toList
      [.plain .classWord "class", .plain .identifier "A", .plain .leftBrace "\x7b",
        ⟨.identifier, "int", .start, some "/** d */"⟩, .plain .identifier "x",
        .plain .semicolon ";", .plain .rightBrace "\x7d"] ?_ ?_ ?_
    · rw [tokenize_eq_within]
      decide +kernel
    · rw [tokenize_eq_within]
      decide +kernel
    · show Derives _ _
      decide
  obtain ⟨hInserted, hSame⟩ := white_space_irrelevant hParse
  refine ⟨hParse, ?_, ?_⟩
  · exact hInserted "class A \x7b/** d */".toList " int x;// n\n\x7d".toList
      "\t\x0c\r\n".toList rfl (by decide +kernel) (List.all_eq_true.mp (by decide))
  · refine hSame _ ?_ ?_
    · rw [tokenize_eq_within]
      decide +kernel
    · rw [lexemesFrom_eq_within (Nat.le_refl _), lexemesFrom_eq_within (Nat.le_refl _)]
      decide +kernel

end ClassSchema.Java
