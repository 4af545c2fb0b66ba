import ClassSchema.Java.Lexer

/-!
# The terminals as patterns

A terminal is described by a pattern: classes of characters, fixed texts, choices,
repetitions that take as much or as little as they can, and two conditions on what
follows.  A pattern can match the front of a text in several ways.  `Pattern.ends`
lists them in the order in which a backtracking search tries them, each by the text
that it leaves over, and the first one counts.

`lexicon` has the terminals in the order in which they are tried: the text block
first, then the keywords, the longest of them first, then what can be of any length,
and the single characters last.  `Cut` cuts a text with nothing but that: at each
place the first terminal that matches makes the lexeme, and the cutting stops where
none does.

## Main results

* `firstOf_lexicon`: the scanner finds the terminal that comes first in the lexicon,
  and its match.
* `cut_iff`: the lexemes of a text are those that the lexicon cuts.
-/

namespace ClassSchema.Java

open ClassSchema.Text

/-! ## Patterns -/

/-- What the characters of a terminal look like. -/
inductive Pattern where
  /-- One character of a class. -/
  | one (test : Char → Bool)
  /-- A fixed text. -/
  | text (characters : List Char)
  /-- One pattern behind another. -/
  | sequence (first second : Pattern)
  /-- Either of two patterns, the left one if possible. -/
  | choice (left right : Pattern)
  /-- Any number of parts, as many as possible. -/
  | most (part : Pattern)
  /-- Any number of parts, as few as possible. -/
  | fewest (part : Pattern)
  /-- No character, where the part does not follow. -/
  | notAhead (part : Pattern)
  /-- No character, where no word character follows; it stands behind a word. -/
  | wordEnd

namespace Pattern

/-- What a repetition leaves over, given what one part does; a part is never empty. -/
def repeated (greedy : Bool) (step : List Char → List (List Char)) (text : List Char) :
    List (List Char) :=
  let further := (step text).flatMap fun left =>
    if left.length < text.length then repeated greedy step left else []
  if greedy then further ++ [text] else text :: further
termination_by text.length

/-- What the matches at the front of a text leave over, the preferred one first. -/
@[simp] def ends : Pattern → List Char → List (List Char)
  | one _, [] => []
  | one test, c :: rest => if test c then [rest] else []
  | text characters, input =>
      if characters.isPrefixOf input then [input.drop characters.length] else []
  | sequence first second, input => (first.ends input).flatMap second.ends
  | choice left right, input => left.ends input ++ right.ends input
  | most part, input => repeated true part.ends input
  | fewest part, input => repeated false part.ends input
  | notAhead part, input => if (part.ends input).isEmpty then [input] else []
  | wordEnd, input => if run isWord input = 0 then [input] else []

/-- What the preferred match at the front of a text leaves over. -/
def left? (pattern : Pattern) (input : List Char) : Option (List Char) :=
  (pattern.ends input).head?

/-- One of several patterns, the first one if possible. -/
def oneOf : List Pattern → Pattern → Pattern
  | [], last => last
  | pattern :: rest, last => choice pattern (oneOf rest last)

end Pattern

/-! ## The terminals in order -/

section Terminals

open Pattern

/-- A word as a whole. -/
def wordPattern (word : String) : Pattern := sequence (text word.toList) wordEnd

/-- The modifiers that are one word. -/
def modifierWords : List String :=
  ["public", "protected", "private", "final", "transient", "volatile", "abstract",
   "synchronized", "native", "strictfp", "default", "sealed"]

/-- The keywords with a terminal of their own, the longest first. -/
def ownWords : List (String × Terminal) :=
  [("implements", .implementsWord), ("interface", .interfaceWord), ("extends", .extendsWord),
   ("package", .packageWord), ("import", .importWord), ("static", .staticWord),
   ("class", .classWord), ("super", .superWord), ("enum", .enumWord)]

/-- A modifier. -/
def modifierPattern : Pattern :=
  sequence (oneOf (modifierWords.map fun word => text word.toList) (text nonSealed.toList)) wordEnd

/-- Any text up to the first occurrence of a mark, and the mark. -/
def throughPattern (mark : List Char) : Pattern :=
  sequence (fewest (one fun _ => true)) (text mark)

/-- A literal in quotes: characters other than the quote, or escaped ones, within a line. -/
def literalPattern (quote : Char) : Pattern :=
  sequence (text [quote]) <|
    sequence
      (most (choice (one fun c => c ≠ quote && c ≠ '\\' && c ≠ '\n')
        (sequence (one (· = '\\')) (one (· ≠ '\n')))))
      (text [quote])

/-- A character of one class and any number of another. -/
def runPattern (start part : Char → Bool) : Pattern := sequence (one start) (most (one part))

/-- A text block. -/
def textBlockPattern : Pattern := 
  sequence (text ['"', '"', '"']) (throughPattern ['"', '"', '"'])

/-- A comment that documents what follows it. -/
def docCommentPattern : Pattern :=
  sequence (text ['/', '*', '*']) (sequence (notAhead (text ['/'])) (throughPattern ['*', '/']))

/-- Any other comment that has an end. -/
def blockCommentPattern : Pattern :=
  sequence (text ['/', '*'])
    (sequence (notAhead (sequence (text ['*']) (one (· ≠ '/')))) (throughPattern ['*', '/']))

/-- A comment up to the end of its line. -/
def lineCommentPattern : Pattern := sequence (text ['/', '/']) (most (one (· ≠ '\n')))

/-- The single characters with a terminal of their own. -/
def marks : List (Char × Terminal) :=
  [('&', .ampersand), ('@', .atSign), (',', .comma), ('.', .dot), ('=', .equalSign),
   ('\x7b', .leftBrace), ('<', .lessThan), ('(', .leftParen), ('[', .leftBracket),
   ('>', .moreThan), ('?', .questionMark), ('\x7d', .rightBrace), (')', .rightParen),
   (']', .rightBracket), (';', .semicolon), ('*', .star)]

/-- The words of the lexicon. -/
def wordEntries : List (LexemeKind × Pattern) :=
  (.token .modifier, modifierPattern) ::
    ownWords.map fun entry => (.token entry.2, wordPattern entry.1)

/-- What is neither a text block nor a keyword. -/
def otherEntries : List (LexemeKind × Pattern) :=
  [(.comment, blockCommentPattern), (.docComment, docCommentPattern),
   (.token .identifier, runPattern isNameStart isNamePart),
   (.token .charLiteral, literalPattern '\''), (.token .stringLiteral, literalPattern '"'),
   (.blank, runPattern isLayout isLayout), (.comment, lineCommentPattern),
   (.token .number, runPattern isDigit isNumberPart), (.token .operator, one isOperator)] ++
    marks.map fun entry => (.token entry.2, text [entry.1])

/-- The terminals with their patterns, in the order in which they are tried. -/
def lexicon : List (LexemeKind × Pattern) :=
  (.token .textBlock, textBlockPattern) :: (wordEntries ++ otherEntries)

end Terminals

/-- The first terminal that matches at the front of a text, and what its match leaves over. -/
def firstOf (entries : List (LexemeKind × Pattern)) (input : List Char) :
    Option (LexemeKind × List Char) :=
  entries.findSome? fun entry => (entry.2.left? input).map (entry.1, ·)

/-! ## Runs of characters -/

/-- What is left behind the characters that satisfy a test. -/
theorem drop_run (test : Char → Bool) (input : List Char) :
    input.drop (run test input) = input.dropWhile test := by
  induction input with
  | nil => rfl
  | cons c rest ih =>
      by_cases hc : test c = true
      · rw [run, List.takeWhile_cons_of_pos hc, List.dropWhile_cons_of_pos hc]
        exact ih
      · rw [run, List.takeWhile_cons_of_neg hc, List.dropWhile_cons_of_neg hc]
        rfl

/-- There are no more of them behind these. -/
theorem run_dropWhile (test : Char → Bool) (input : List Char) :
    run test (input.dropWhile test) = 0 := by
  induction input with
  | nil => rfl
  | cons c rest ih =>
      by_cases hc : test c = true
      · rw [List.dropWhile_cons_of_pos hc]
        exact ih
      · rw [List.dropWhile_cons_of_neg hc, run, List.takeWhile_cons_of_neg hc]
        rfl

/-! ## What patterns leave over -/

namespace Pattern

@[simp] theorem left?_one_nil (test : Char → Bool) : (one test).left? [] = none := rfl

@[simp] theorem left?_one_cons (test : Char → Bool) (c : Char) (rest : List Char) :
    (one test).left? (c :: rest) = if test c then some rest else none := by
  simp only [left?, ends]
  split <;> rfl

theorem left?_text (characters input : List Char) :
    (text characters).left? input =
      if characters.isPrefixOf input then some (input.drop characters.length) else none := by
  simp only [left?, ends]
  split <;> rfl

/-- A pattern with one match at most is followed by what comes behind that match. -/
theorem left?_sequence {first : Pattern} (second : Pattern) {input : List Char}
    (unique : first.ends input = (first.left? input).toList) :
    (sequence first second).left? input = (first.left? input).bind second.left? := by
  simp only [left?, ends] at unique ⊢
  rw [unique]
  cases (first.ends input).head? <;> simp [left?]

theorem ends_one (test : Char → Bool) (input : List Char) :
    (one test).ends input = ((one test).left? input).toList := by
  cases input with
  | nil => rfl
  | cons c rest =>
      rw [left?_one_cons, ends]
      split <;> rfl

theorem ends_text (characters input : List Char) :
    (text characters).ends input = ((text characters).left? input).toList := by
  rw [left?_text, ends]
  split <;> rfl

theorem ends_notAhead (part : Pattern) (input : List Char) :
    (notAhead part).ends input = ((notAhead part).left? input).toList := by
  simp only [left?, ends]
  split <;> rfl

theorem left?_notAhead (part : Pattern) (input : List Char) :
    (notAhead part).left? input = if (part.left? input).isNone then some input else none := by
  simp only [left?, ends]
  by_cases h : part.ends input = [] <;> simp [h]

/-- Both choices can be followed. -/
theorem left?_sequence_choice (left right second : Pattern) (input : List Char) :
    (sequence (choice left right) second).left? input =
      ((sequence left second).left? input).or ((sequence right second).left? input) := by
  simp only [left?, ends, List.flatMap_append, List.head?_append]

theorem left?_sequence_oneOf (patterns : List Pattern) (last second : Pattern)
    (input : List Char) :
    (sequence (oneOf patterns last) second).left? input =
      (patterns.findSome? fun pattern => (sequence pattern second).left? input).or
        ((sequence last second).left? input) := by
  induction patterns with
  | nil => rfl
  | cons pattern rest ih =>
      rw [oneOf, left?_sequence_choice, ih, List.findSome?_cons]
      cases (sequence pattern second).left? input <;> rfl

/-- As many characters of a class as there are. -/
theorem left?_most_one (test : Char → Bool) (input : List Char) :
    (most (one test)).left? input = some (input.dropWhile test) := by
  simp only [left?, ends]
  induction input with
  | nil =>
      rw [repeated]
      simp
  | cons c rest ih =>
      rw [repeated]
      by_cases hc : test c = true
      · simp [hc, ih]
      · simp [hc]

/-- As few characters as possible: none, or one more. -/
private theorem repeated_any (c : Char) (rest : List Char) :
    repeated false (one fun _ => true).ends (c :: rest) =
      (c :: rest) :: repeated false (one fun _ => true).ends rest := by
  rw [repeated]
  simp

/-- Any text up to a mark, the first one. -/
theorem left?_throughPattern {mark : List Char} (nonempty : mark ≠ []) (input : List Char) :
    (throughPattern mark).left? input = (through mark input).map (input.drop ·) := by
  simp only [left?, throughPattern]
  rw [ends, ends]
  induction input with
  | nil =>
      rw [repeated]
      cases mark with
      | nil => exact absurd rfl nonempty
      | cons => simp [through]
  | cons c rest ih =>
      have hText : ((text mark).ends (c :: rest)).head? = _ := left?_text _ _
      rw [repeated_any, List.flatMap_cons, List.head?_append, ih, through, hText]
      split
      · rfl
      · rw [Option.none_or, Option.map_map]
        rfl

/-- The characters between quotes: another one, or an escaped one. -/
private abbrev quoted (quote : Char) : Pattern :=
  choice (one fun c => c ≠ quote && c ≠ '\\' && c ≠ '\n')
    (sequence (one (· = '\\')) (one (· ≠ '\n')))

/-- Where one more character can be read, fewer characters lead to no closing quote. -/
private theorem closing_of_ends {quote c : Char} {rest left : List Char} (other : c ≠ quote)
    (shorter : left.length < (c :: rest).length)
    (h : (quoted quote).ends (c :: rest) = [left]) :
    (repeated true (quoted quote).ends (c :: rest)).flatMap (text [quote]).ends =
      (repeated true (quoted quote).ends left).flatMap (text [quote]).ends := by
  have hNot : (text [quote]).ends (c :: rest) = [] := by
    simp [Ne.symm other]
  rw [repeated, h, List.flatMap_singleton, if_pos shorter, if_pos rfl, List.flatMap_append,
    List.flatMap_singleton, hNot, List.append_nil]

/-- Where no more character can be read, there is a closing quote or none. -/
private theorem closing_of_ends_nil {quote : Char} {input : List Char}
    (h : (quoted quote).ends input = []) :
    (repeated true (quoted quote).ends input).flatMap (text [quote]).ends =
      (text [quote]).ends input := by
  rw [repeated, h]
  simp

/-- A literal up to its closing quote. -/
private theorem closing_eq {quote : Char} (notEscape : quote ≠ '\\') (notEnd : quote ≠ '\n')
    (input : List Char) :
    ((repeated true (quoted quote).ends input).flatMap (text [quote]).ends).head? =
      (throughQuote quote input).map (input.drop ·) := by
  fun_induction throughQuote quote input with
  | case1 =>
      rw [closing_of_ends_nil (by simp)]
      rfl
  | case2 rest =>
      rw [closing_of_ends_nil (by simp [notEscape])]
      simp
  | case3 rest =>
      rw [closing_of_ends_nil (by simp)]
      simp [notEnd]
  | case4 =>
      rw [closing_of_ends_nil (by simp)]
      simp [notEscape]
  | case5 =>
      rw [closing_of_ends_nil (by simp)]
      simp [notEscape]
  | case6 escaped rest hEscaped _ _ ih =>
      have hStep : (quoted quote).ends ('\\' :: escaped :: rest) = [rest] := by
        simp [hEscaped]
      have hShorter : rest.length < ('\\' :: escaped :: rest).length := by
        rw [List.length_cons, List.length_cons]
        omega
      rw [closing_of_ends (Ne.symm notEscape) hShorter hStep, ih]
      simp [Function.comp_def]
  | case7 c rest hQuote hEnd hEscape ih =>
      have hStep : (quoted quote).ends (c :: rest) = [rest] := by
        simp [hQuote, hEnd, hEscape]
      rw [closing_of_ends hQuote (by simp) hStep, ih]
      simp [Function.comp_def]

/-- A literal and what it leaves over. -/
theorem left?_literalPattern {quote : Char} (notEscape : quote ≠ '\\') (notEnd : quote ≠ '\n')
    (c : Char) (rest : List Char) :
    (literalPattern quote).left? (c :: rest) =
      if c = quote then (throughQuote quote rest).map (rest.drop ·) else none := by
  have hOpen : (text [quote]).left? (c :: rest) = if c = quote then some rest else none := by
    by_cases h : c = quote
    · simp [left?_text, h]
    · simp [left?_text, h, Ne.symm h]
  rw [literalPattern, left?_sequence _ (ends_text _ _), hOpen]
  by_cases h : c = quote
  · rw [if_pos h, if_pos h, ← closing_eq notEscape notEnd]
    rfl
  · rw [if_neg h, if_neg h]
    rfl

/-- A character of one class and all that follow of another. -/
theorem left?_runPattern (start part : Char → Bool) (c : Char) (rest : List Char) :
    (runPattern start part).left? (c :: rest) =
      if start c then some (rest.dropWhile part) else none := by
  rw [runPattern, left?_sequence _ (ends_one _ _), left?_one_cons]
  split
  · exact left?_most_one part rest
  · rfl

/-! ### Words -/

/-- A word as a whole is the word characters at the front of the text. -/
private theorem prefix_and_end_iff {word input : List Char}
    (letters : ∀ c ∈ word, isWord c = true) :
    word.isPrefixOf input = true ∧ run isWord (input.drop word.length) = 0 ↔
      input.takeWhile isWord = word := by
  constructor
  · rintro ⟨hPrefix, hEnd⟩
    obtain ⟨behind, rfl⟩ := List.isPrefixOf_iff_prefix.mp hPrefix
    rw [List.drop_left, run, List.length_eq_zero_iff] at hEnd
    rw [List.takeWhile_append_of_pos letters, hEnd, List.append_nil]
  · intro h
    have hSplit := List.takeWhile_append_dropWhile (p := isWord) (l := input)
    rw [h] at hSplit
    rw [← hSplit, List.drop_left]
    exact ⟨List.isPrefixOf_iff_prefix.mpr (List.prefix_append _ _), run_dropWhile _ _⟩

/-- A fixed text at the end of a word. -/
theorem left?_text_wordEnd (characters input : List Char) :
    (sequence (text characters) wordEnd).left? input =
      if characters.isPrefixOf input = true ∧
          run isWord (input.drop characters.length) = 0 then
        some (input.drop characters.length)
      else none := by
  rw [left?_sequence _ (ends_text _ _), left?_text]
  by_cases hPrefix : characters.isPrefixOf input = true
  · by_cases hEnd : run isWord (input.drop characters.length) = 0 <;>
      simp [hPrefix, hEnd, left?, ends]
  · simp [hPrefix]

/-- A word and what it leaves over. -/
theorem left?_wordPattern {word : String} (letters : ∀ c ∈ word.toList, isWord c = true)
    (input : List Char) :
    (wordPattern word).left? input =
      if String.ofList (input.takeWhile isWord) = word then some (input.dropWhile isWord)
      else none := by
  have hSame : String.ofList (input.takeWhile isWord) = word ↔
      input.takeWhile isWord = word.toList := by
    constructor
    · intro h
      rw [← h, String.toList_ofList]
    · intro h
      rw [h, String.ofList_toList]
  rw [wordPattern, left?_text_wordEnd]
  simp only [prefix_and_end_iff letters, hSame]
  split
  · next h => rw [← h, ← drop_run, run]
  · rfl

end Pattern

/-! ## The scanner and the lexicon -/

section Scanner

open Pattern

/-- What a match leaves over, as the scanner counts it: `more` characters behind the first one
belong to the match. -/
private def leaving (rest : List Char) (found : LexemeKind × Nat) : LexemeKind × List Char :=
  (found.1, rest.drop found.2)

theorem firstOf_append (entries others : List (LexemeKind × Pattern)) (input : List Char) :
    firstOf (entries ++ others) input = (firstOf entries input).or (firstOf others input) :=
  List.findSome?_append

theorem firstOf_cons (kind : LexemeKind) (pattern : Pattern)
    (entries : List (LexemeKind × Pattern)) (input : List Char) :
    firstOf ((kind, pattern) :: entries) input =
      ((pattern.left? input).map (kind, ·)).or (firstOf entries input) := by
  rw [firstOf, List.findSome?_cons]
  cases pattern.left? input <;> rfl

/-- Two tables agree if they do on the keys of either. -/
private theorem lookup_eq {κ α : Type} [BEq κ] [LawfulBEq κ] {entries others : List (κ × α)}
    (agree : ∀ entry ∈ entries, entries.lookup entry.1 = others.lookup entry.1)
    (covered : ∀ entry ∈ others, entry.1 ∈ entries.map (·.1)) (key : κ) :
    entries.lookup key = others.lookup key := by
  by_cases h : key ∈ entries.map (·.1)
  · obtain ⟨entry, mem, rfl⟩ := List.mem_map.mp h
    exact agree entry mem
  · have none : ∀ table : List (κ × α), key ∉ table.map (·.1) → table.lookup key = none := by
      intro table hNot
      rw [List.lookup_eq_none_iff]
      intro entry mem
      have hNe : key ≠ entry.1 := fun hEq => hNot (List.mem_map.mpr ⟨entry, mem, hEq.symm⟩)
      simpa using hNe
    have hNot : key ∉ others.map (·.1) := by
      intro mem
      obtain ⟨entry, memEntry, rfl⟩ := List.mem_map.mp mem
      exact h (covered entry memEntry)
    rw [none entries h, none others hNot]

/-- The keywords are the modifiers and the words with a terminal of their own. -/
private theorem lookup_keywords (word : String) :
    keywords.lookup word =
      (((modifierWords.map fun modifier => (modifier, Terminal.modifier)) ++ ownWords).lookup
        word) :=
  lookup_eq (by decide +kernel) (by decide +kernel) word

/-- All keywords but the one with a hyphen consist of word characters. -/
private theorem letters_of_keyword :
    ∀ word ∈ modifierWords ++ ownWords.map (·.1), ∀ c ∈ word.toList, isWord c = true := by
  have h : (modifierWords ++ ownWords.map (·.1)).all (·.toList.all isWord) = true := by
    decide +kernel
  simpa only [List.all_eq_true] using h

/-- The terminal of the word at the front of a text, from a table of words. -/
private def wordOf (table : List (String × Terminal)) (input : List Char) :
    Option (LexemeKind × List Char) :=
  (table.lookup (String.ofList (input.takeWhile isWord))).map
    (.token ·, input.dropWhile isWord)

private theorem wordOf_append (table others : List (String × Terminal)) (input : List Char) :
    wordOf (table ++ others) input = (wordOf table input).or (wordOf others input) := by
  rw [wordOf, List.lookup_append, Option.map_or]
  rfl

private theorem findSome?_words (table : List (String × Terminal)) (input : List Char)
    (letters : ∀ word ∈ table.map (·.1), ∀ c ∈ word.toList, isWord c = true) :
    (table.findSome? fun entry => ((wordPattern entry.1).left? input).map (.token entry.2, ·)) =
      wordOf table input := by
  induction table with
  | nil => rfl
  | cons entry table ih =>
      obtain ⟨word, terminal⟩ := entry
      rw [List.findSome?_cons, left?_wordPattern (letters word (by simp)),
        ih fun other mem => letters other (by simp [mem]), wordOf, wordOf, List.lookup_cons]
      by_cases h : String.ofList (input.takeWhile isWord) = word
      · simp [h]
      · have hNe : (String.ofList (input.takeWhile isWord) == word) = false := by simpa using h
        rw [if_neg h, hNe]
        rfl

/-- The modifiers that are one word, as a table. -/
private abbrev modifierTable : List (String × Terminal) :=
  modifierWords.map fun word => (word, Terminal.modifier)

/-- The words of the lexicon are looked up in the two tables, the modifier with a hyphen between
them. -/
private theorem firstOf_wordEntries (input : List Char) :
    firstOf wordEntries input =
      ((wordOf modifierTable input).or
        ((wordPattern nonSealed).left? input |>.map (.token .modifier, ·))).or
          (wordOf ownWords input) := by
  have hModifiers : (modifierPattern.left? input).map (LexemeKind.token .modifier, ·) =
      (wordOf modifierTable input).or
        (((wordPattern nonSealed).left? input).map (.token .modifier, ·)) := by
    rw [modifierPattern, left?_sequence_oneOf, Option.map_or, List.findSome?_map,
      ← findSome?_words modifierTable input fun word mem =>
        letters_of_keyword word (List.mem_append_left _ (by simpa using mem)),
      List.findSome?_map, List.map_findSome?]
    rfl
  have hOwn := findSome?_words ownWords input fun word mem =>
    letters_of_keyword word (List.mem_append_right _ mem)
  rw [wordEntries, firstOf_cons, hModifiers, ← hOwn, firstOf, List.findSome?_map]
  rfl

/-- Before a hyphen stands no keyword. -/
private theorem wordOf_nonSealed {input : List Char}
    (h : nonSealed.toList.isPrefixOf input = true) :
    wordOf modifierTable input = none ∧ wordOf ownWords input = none := by
  obtain ⟨behind, rfl⟩ := List.isPrefixOf_iff_prefix.mp h
  have hWord : (nonSealed.toList ++ behind).takeWhile isWord = "non".toList := by
    have hText : nonSealed.toList = "non".toList ++ '-' :: "sealed".toList := by decide
    rw [hText, List.append_assoc, List.takeWhile_append_of_pos (List.all_eq_true.mp (by decide)),
      List.cons_append, List.takeWhile_cons_of_neg (by decide), List.append_nil]
  have hModifiers : modifierTable.lookup (String.ofList "non".toList) = none := by
    decide +kernel
  have hOwn : ownWords.lookup (String.ofList "non".toList) = none := by decide +kernel
  constructor
  · rw [wordOf, hWord, hModifiers]
    rfl
  · rw [wordOf, hWord, hOwn]
    rfl

/-- A keyword at the front of a text is found together with what stands behind it. -/
private theorem wordOf_keywords (c : Char) (rest : List Char) :
    (wordOf modifierTable (c :: rest)).or (wordOf ownWords (c :: rest)) =
      (match keywords.lookup (String.ofList ((c :: rest).takeWhile isWord)) with
        | some terminal => some (LexemeKind.token terminal, run isWord rest)
        | none => none).map (leaving rest) := by
  rw [← wordOf_append, wordOf, ← lookup_keywords]
  by_cases hc : isWord c = true
  · have hDrop : rest.drop (run isWord rest) = (c :: rest).dropWhile isWord := by
      rw [drop_run, List.dropWhile_cons_of_pos hc]
    cases keywords.lookup (String.ofList ((c :: rest).takeWhile isWord)) with
    | none => rfl
    | some terminal => simp only [Option.map_some, leaving, hDrop]
  · rw [List.takeWhile_cons_of_neg hc]
    rfl

/-- The scanner finds the words of the lexicon. -/
private theorem firstOf_words (c : Char) (rest : List Char) :
    firstOf wordEntries (c :: rest) = (matchKeyword c rest).map (leaving rest) := by
  rw [firstOf_wordEntries, matchKeyword, matchNonSealed, wordPattern, left?_text_wordEnd,
    String.length_toList]
  split
  · next h =>
      obtain ⟨hModifiers, hOwn⟩ := wordOf_nonSealed h.1
      rw [hModifiers, hOwn]
      rfl
  · rw [Option.map_none, Option.or_none]
    exact wordOf_keywords c rest

/-- A fixed text is followed by what comes behind it. -/
private theorem left?_text_behind (characters behind : List Char) (second : Pattern) :
    (sequence (text characters) second).left? (characters ++ behind) = second.left? behind := by
  have hPrefix : characters.isPrefixOf (characters ++ behind) = true :=
    List.isPrefixOf_iff_prefix.mpr (List.prefix_append _ _)
  rw [left?_sequence _ (ends_text _ _), left?_text, if_pos hPrefix, List.drop_left,
    Option.bind_some]

theorem left?_text_other {characters input : List Char} (second : Pattern)
    (h : ¬ characters <+: input) : (sequence (text characters) second).left? input = none := by
  rw [left?_sequence _ (ends_text _ _), left?_text, if_neg (by simpa using h)]
  rfl

/-- The scanner finds the text block of the lexicon. -/
private theorem firstOf_textBlock (c : Char) (rest : List Char) :
    (textBlockPattern.left? (c :: rest)).map (LexemeKind.token .textBlock, ·) =
      (matchTextBlock c rest).map (leaving rest) := by
  unfold matchTextBlock
  split
  · next behind =>
      rw [textBlockPattern, show '"' :: '"' :: '"' :: behind = ['"', '"', '"'] ++ behind from rfl,
        left?_text_behind, left?_throughPattern (by simp), Option.map_map, Option.map_map]
      rfl
  · next hNot =>
      rw [textBlockPattern, left?_text_other]
      · rfl
      · rintro ⟨behind, hText⟩
        obtain ⟨rfl, rfl⟩ : '"' = c ∧ '"' :: '"' :: behind = rest := by simpa using hText
        exact hNot behind rfl rfl

/-! ### Comments -/

/-- A doc comment is one with two stars that is not closed at once. -/
theorem left?_docComment (behind : List Char) :
    docCommentPattern.left? ('/' :: '*' :: '*' :: behind) =
      if ['/'] <+: behind then none else (through ['*', '/'] behind).map (behind.drop ·) := by
  rw [docCommentPattern, show '/' :: '*' :: '*' :: behind = ['/', '*', '*'] ++ behind from rfl,
    left?_text_behind, left?_sequence _ (ends_notAhead _ _), left?_notAhead, left?_text]
  by_cases h : ['/'] <+: behind
  · simp [h]
  · simp [h, left?_throughPattern]

/-- Any other comment has one star, or two and is closed at once. -/
theorem left?_blockComment {behind : List Char}
    (h : ∀ c rest, behind = '*' :: c :: rest → c = '/') :
    blockCommentPattern.left? ('/' :: '*' :: behind) =
      (through ['*', '/'] behind).map (behind.drop ·) := by
  have hAhead : (sequence (text ['*']) (one (· ≠ '/'))).left? behind = none := by
    rw [left?_sequence _ (ends_text _ _), left?_text]
    rcases behind with _ | ⟨star, _ | ⟨c, rest⟩⟩
    · rfl
    · by_cases hStar : '*' = star <;> simp [hStar]
    · by_cases hStar : '*' = star
      · subst hStar
        simp [h c rest rfl]
      · simp [hStar]
  rw [blockCommentPattern, show '/' :: '*' :: behind = ['/', '*'] ++ behind from rfl,
    left?_text_behind, left?_sequence _ (ends_notAhead _ _), left?_notAhead, hAhead]
  exact left?_throughPattern (by simp) behind

theorem left?_blockComment_of_doc {c : Char} (h : c ≠ '/') (rest : List Char) :
    blockCommentPattern.left? ('/' :: '*' :: '*' :: c :: rest) = none := by
  rw [blockCommentPattern,
    show '/' :: '*' :: '*' :: c :: rest = ['/', '*'] ++ '*' :: c :: rest from rfl,
    left?_text_behind, left?_sequence _ (ends_notAhead _ _), left?_notAhead,
    left?_sequence _ (ends_text _ _), left?_text]
  simp [h]

/-- A comment up to the end of its line starts with two slashes. -/
private theorem left?_lineComment (behind : List Char) :
    lineCommentPattern.left? ('/' :: '/' :: behind) = some (behind.dropWhile (· ≠ '\n')) := by
  rw [lineCommentPattern, show '/' :: '/' :: behind = ['/', '/'] ++ behind from rfl,
    left?_text_behind, left?_most_one]

/-- The scanner finds the comments of the lexicon. -/
private theorem comments_eq (rest : List Char) :
    ((blockCommentPattern.left? ('/' :: rest)).map (LexemeKind.comment, ·)).or
        (((docCommentPattern.left? ('/' :: rest)).map (LexemeKind.docComment, ·)).or
          ((lineCommentPattern.left? ('/' :: rest)).map (LexemeKind.comment, ·))) =
      (matchComment rest).map (leaving rest) := by
  -- where a text behind the slash is none of those that a comment needs
  have block : ¬ ['*'] <+: rest → blockCommentPattern.left? ('/' :: rest) = none :=
    fun h => left?_text_other _ (by simpa using h)
  have doc : ¬ ['*', '*'] <+: rest → docCommentPattern.left? ('/' :: rest) = none :=
    fun h => left?_text_other _ (by simpa using h)
  have line : ¬ ['/'] <+: rest → lineCommentPattern.left? ('/' :: rest) = none :=
    fun h => left?_text_other _ (by simpa using h)
  unfold matchComment
  split
  · next behind =>
      rw [block (by simp), doc (by simp), left?_lineComment]
      simp [leaving, drop_run]
  · next behind =>
      rw [left?_blockComment (by simp)]
      simp [leaving, through]
  · next behind hSlash =>
      rw [line (by simp), left?_docComment]
      rcases behind with _ | ⟨c, behind⟩
      · rw [left?_blockComment (by simp)]
        simp [through]
      · have hNe : c ≠ '/' := fun hEq => hSlash behind (by rw [hEq])
        rw [left?_blockComment_of_doc hNe, if_neg (by simpa using Ne.symm hNe)]
        simp [leaving, Function.comp_def]
  · next behind hSlash hStars =>
      have hStar : ∀ after, behind ≠ '*' :: after := fun after hEq => hStars after (by rw [hEq])
      rw [left?_blockComment fun c after hEq => absurd hEq (hStar _), doc, line (by simp)]
      · simp [leaving, Function.comp_def]
      · rintro ⟨after, hEq⟩
        exact hStar after (by simpa using hEq.symm)
  · next hSlash _ _ hStar =>
      have noStar : ¬ ['*'] <+: rest := by
        rintro ⟨after, hEq⟩
        exact hStar after hEq.symm
      have noSlash : ¬ ['/'] <+: rest := by
        rintro ⟨after, hEq⟩
        exact hSlash after hEq.symm
      rw [block noStar, doc fun h => noStar (List.IsPrefix.trans (by simp) h), line noSlash]
      rfl

/-! ### The rest of the lexicon -/

/-- The single characters are looked up. -/
private theorem firstOf_marks (c : Char) (rest : List Char) :
    firstOf (marks.map fun entry => (.token entry.2, text [entry.1])) (c :: rest) =
      (punctuation.lookup c).map (.token ·, rest) := by
  have found : ∀ table : List (Char × Terminal),
      firstOf (table.map fun entry => (.token entry.2, text [entry.1])) (c :: rest) =
        (table.lookup c).map (.token ·, rest) := by
    intro table
    induction table with
    | nil => rfl
    | cons entry table ih =>
        rw [List.map_cons, firstOf_cons, ih, left?_text, List.lookup_cons]
        by_cases h : c = entry.1
        · simp [h]
        · have hNe : (c == entry.1) = false := by simpa using h
          simp [Ne.symm h, hNe]
  have hTables : marks.lookup c = punctuation.lookup c := lookup_eq (by decide) (by decide) c
  rw [found, hTables]

/-- Comments start with a slash. -/
private theorem comments_of_other {c : Char} (other : c ≠ '/') (rest : List Char) :
    blockCommentPattern.left? (c :: rest) = none ∧ docCommentPattern.left? (c :: rest) = none ∧
      lineCommentPattern.left? (c :: rest) = none :=
  ⟨left?_text_other _ (by simp [Ne.symm other]), left?_text_other _ (by simp [Ne.symm other]),
    left?_text_other _ (by simp [Ne.symm other])⟩

/-- What is neither a text block nor a keyword is found in the order of the scanner. -/
private theorem firstOf_others (c : Char) (rest : List Char) :
    firstOf otherEntries (c :: rest) =
      ((if c = '/' then matchComment rest else none).or (matchOther c rest)).map
        (leaving rest) := by
  have hChar : (literalPattern '\'').left? (c :: rest) = _ :=
    left?_literalPattern (by decide) (by decide) c rest
  have hString : (literalPattern '"').left? (c :: rest) = _ :=
    left?_literalPattern (by decide) (by decide) c rest
  have hMarks := firstOf_marks c rest
  rw [otherEntries, firstOf_append, hMarks]
  simp only [firstOf_cons, left?_runPattern, hChar, hString, left?_one_cons]
  by_cases hSlash : c = '/'
  · subst hSlash
    have hOther : matchOther '/' rest = some (.token .operator, 0) := by
      unfold matchOther
      rfl
    rw [if_pos rfl, hOther, Option.map_or, ← comments_eq rest]
    have hStart : isNameStart '/' = false := by decide
    have hDigit : isDigit '/' = false := by decide
    have hLayout : isLayout '/' = false := by decide
    have hOperator : isOperator '/' = true := by decide
    simp [hStart, hDigit, hLayout, hOperator, leaving, firstOf]
  · obtain ⟨hBlock, hDoc, hLine⟩ := comments_of_other hSlash rest
    rw [hBlock, hDoc, hLine, if_neg hSlash, matchOther]
    simp only [Option.map_none, Option.none_or]
    by_cases hStart : isNameStart c = true
    · simp [hStart, leaving, drop_run]
    by_cases hQuote : c = '"' ∨ c = '\''
    · have hDigit : isDigit c = false := by rcases hQuote with rfl | rfl <;> decide
      have hLayout : isLayout c = false := by rcases hQuote with rfl | rfl <;> decide
      have hOperator : isOperator c = false := by rcases hQuote with rfl | rfl <;> decide
      have hMark : punctuation.lookup c = none := by rcases hQuote with rfl | rfl <;> decide
      rcases hQuote with rfl | rfl <;>
        simp [hStart, hDigit, hLayout, hOperator, hMark, leaving, firstOf, Function.comp_def]
    obtain ⟨hDouble, hSingle⟩ := not_or.mp hQuote
    by_cases hDigit : isDigit c = true
    · have hLayout : ¬ isLayout c = true := by
        intro h
        simp only [isLayout, Bool.or_eq_true, decide_eq_true_eq] at h
        rcases h with (((rfl | rfl) | rfl) | rfl) | rfl <;> revert hDigit <;> decide
      simp [hStart, hDouble, hSingle, hDigit, hLayout, leaving, drop_run]
    by_cases hLayout : isLayout c = true
    · simp [hStart, hDouble, hSingle, hDigit, hLayout, leaving, drop_run]
    cases hMark : punctuation.lookup c with
    | some terminal =>
        have hOperator : isOperator c = false := by simp [isOperator, hMark]
        simp [hStart, hDouble, hSingle, hDigit, hLayout, hOperator, leaving, firstOf]
    | none =>
        by_cases hOperator : isOperator c = true <;>
          simp [hStart, hDouble, hSingle, hDigit, hLayout, hOperator, leaving, firstOf]

/-- **The scanner and the lexicon agree**: what starts at a character is the first terminal of the
lexicon that matches there, with its preferred match. -/
theorem firstOf_lexicon (c : Char) (rest : List Char) :
    firstOf lexicon (c :: rest) =
      (matchAt c rest).map fun found => (found.1, rest.drop found.2) := by
  change _ = (matchAt c rest).map (leaving rest)
  rw [lexicon, firstOf_cons, firstOf_append, firstOf_textBlock, firstOf_words, firstOf_others,
    matchAt]
  simp only [Option.map_or]

end Scanner

/-! ## Cutting a text -/

/-- A text that starts at a place is cut into lexemes by the lexicon alone, up to its end or to the
first character at which no terminal matches. -/
inductive Cut : Place → List Char → List Lexeme → Option Obstacle → Prop where
  /-- The text is cut to its end. -/
  | done (place : Place) : Cut place [] [] none
  /-- No terminal matches. -/
  | stuck {place : Place} {c : Char} {rest : List Char} :
      firstOf lexicon (c :: rest) = none → Cut place (c :: rest) [] (some ⟨c, place⟩)
  /-- The first terminal that matches makes a lexeme, and the text is cut on behind it. -/
  | more {place : Place} {kind : LexemeKind} {c : Char} {piece left : List Char}
      {lexemes : List Lexeme} {obstacle : Option Obstacle} :
      firstOf lexicon (c :: piece ++ left) = some (kind, left) →
      Cut (place.advance (c :: piece)) left lexemes obstacle →
      Cut place (c :: piece ++ left) (⟨kind, c :: piece, place⟩ :: lexemes) obstacle

/-- The lexicon cuts what the scanner cuts. -/
theorem cut_lexemesFrom (place : Place) (text : List Char) :
    Cut place text (lexemesFrom place text).1 (lexemesFrom place text).2 := by
  fun_induction lexemesFrom place text with
  | case1 place => exact .done place
  | case2 place c rest hMatch =>
      refine .stuck ?_
      rw [firstOf_lexicon, hMatch]
      rfl
  | case3 place c rest kind more hMatch _ _ _ hOthers ih =>
      rw [hOthers] at ih
      have hText : c :: rest = c :: rest.take more ++ rest.drop more := by simp
      rw [hText]
      refine .more ?_ ih
      rw [← hText, firstOf_lexicon, hMatch]
      rfl

/-- **The lexicon cuts as the scanner does**, so every text is cut in exactly one way. -/
theorem cut_iff {place : Place} {text : List Char} {lexemes : List Lexeme}
    {obstacle : Option Obstacle} :
    Cut place text lexemes obstacle ↔ lexemesFrom place text = (lexemes, obstacle) := by
  constructor
  · intro h
    induction h with
    | done place => rw [lexemesFrom]
    | stuck none =>
        rw [firstOf_lexicon, Option.map_eq_none_iff] at none
        rw [lexemesFrom, none]
    | @more place kind c piece left lexemes obstacle found _ ih =>
        rw [List.cons_append, firstOf_lexicon, Option.map_eq_some_iff] at found
        obtain ⟨⟨other, more⟩, hMatch, hLeft⟩ := found
        obtain ⟨rfl, hDrop⟩ : other = kind ∧ (piece ++ left).drop more = left := by
          simpa using hLeft
        have hTake : (piece ++ left).take more = piece := by
          have hSplit := List.take_append_drop more (piece ++ left)
          rw [hDrop] at hSplit
          exact List.append_cancel_right hSplit
        rw [List.cons_append, lexemesFrom, hMatch]
        simp only [hTake, hDrop, ih]
  · intro h
    have hCut := cut_lexemesFrom place text
    rw [h] at hCut
    exact hCut

end ClassSchema.Java
