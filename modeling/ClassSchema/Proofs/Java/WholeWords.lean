import ClassSchema.Proofs.Java.DeclaredNames
import ClassSchema.Proofs.Java.OneToken
import ClassSchema.Proofs.Java.RoundTrip
import ClassSchema.Proofs.Text.Parts

/-!
# Whole words

A word starts with a letter, a low line or a dollar sign and goes on with such characters
and digits.  It is one token: a keyword if it is in the table of keywords, and a name
otherwise.  But a keyword ends where no word character follows, and a dollar sign is no word
character.  A word that is a keyword with a dollar sign and more behind it is therefore
two tokens, the keyword and a name.

## Main results

* `reads_whole`, `reads_keyword`: what a word is read as.
* `oneToken_word_iff`: exactly the words without a keyword in front of a dollar sign
  are one token.
* `words_whole`: the same, with words as the names of a class, of a type and of a field.
-/

namespace ClassSchema.Java

open ClassSchema.Text

variable {word : String} {next : List Char}

/-! ## Words -/

instance (word : String) : Decidable (IsIdentifier word) :=
  match h : word.toList with
  | [] => .isFalse fun ⟨_, _, hText, _⟩ => by rw [h] at hText; cases hText
  | c :: rest =>
      decidable_of_iff (isNameStart c = true ∧ rest.all isNamePart = true) <| by
        simp only [IsIdentifier, h, List.cons.injEq, List.all_eq_true]
        exact ⟨fun hShape => ⟨c, rest, ⟨rfl, rfl⟩, hShape⟩,
          fun ⟨_, _, ⟨hFirst, hRest⟩, hShape⟩ => hFirst ▸ hRest ▸ hShape⟩

/-- The terminal of a word: its own for a keyword, and that of names for any other word. -/
def terminalOf (word : String) : Terminal := (keywords.lookup word).getD .identifier

/-- A word in which a keyword stands in front of a dollar sign. -/
def IsSplit (word : String) : Prop :=
  ∃ entry ∈ keywords, entry.1.toList ++ ['$'] <+: word.toList

instance (word : String) : Decidable (IsSplit word) :=
  inferInstanceAs (Decidable (∃ entry ∈ keywords, entry.1.toList ++ ['$'] <+: word.toList))

/-- A word is the first part of the modifier with a hyphen, and the other part follows. -/
def StartsNonSealed (word : String) (next : List Char) : Prop :=
  word = "non" ∧ "-sealed".toList <+: next ∧ run isWord (next.drop "-sealed".length) = 0

instance (word : String) (next : List Char) : Decidable (StartsNonSealed word next) :=
  inferInstanceAs (Decidable (_ ∧ _ ∧ _))

theorem IsIdentifier.of_cons {c : Char} {rest : List Char} (h : IsIdentifier word)
    (hText : word.toList = c :: rest) :
    isNameStart c = true ∧ ∀ d ∈ rest, isNamePart d = true := by
  obtain ⟨_, _, hOther, hShape⟩ := h
  obtain ⟨rfl, rfl⟩ := List.cons.inj (hOther.symm.trans hText)
  exact hShape

theorem IsIdentifier.isNamePart (h : IsIdentifier word) :
    ∀ c ∈ word.toList, isNamePart c = true := by
  obtain ⟨c, rest, hText, hStart, hRest⟩ := h
  rw [hText]
  exact List.forall_mem_cons.mpr ⟨isNamePart_of_isNameStart hStart, hRest⟩

/-! ## Keywords -/

private theorem isWord_keywords : ∀ entry ∈ keywords, ∀ c ∈ entry.1.toList, isWord c = true := by
  have hAll : (keywords.all fun entry => entry.1.toList.all isWord) = true := by decide +kernel
  simpa only [List.all_eq_true] using hAll

private theorem toList_keywords : ∀ entry ∈ keywords, entry.1.toList ≠ [] := by
  decide +kernel

private theorem lookup_entry : ∀ entry ∈ keywords, keywords.lookup entry.1 = some entry.2 := by
  decide +kernel

/-- The word characters in front of a dollar sign. -/
private theorem takeWhile_dollar {front : List Char} (h : ∀ c ∈ front, isWord c = true)
    (back : List Char) : (front ++ '$' :: back).takeWhile isWord = front := by
  rw [List.takeWhile_append_of_pos h, List.takeWhile_cons_of_neg (by decide), List.append_nil]

/-- Only the word `non` can go on with a hyphen. -/
private theorem matchNonSealed_of_word {c : Char} {rest : List Char} (hWord : IsIdentifier word)
    (hText : word.toList = c :: rest) (hNext : StopsName next)
    (hSealed : ¬ StartsNonSealed word next) : matchNonSealed c (rest ++ next) = none := by
  rw [Option.eq_none_iff_forall_ne_some]
  intro more hMore
  obtain ⟨hNon, hBehind⟩ := of_matchNonSealed (hText ▸ hWord.isNamePart) hNext hMore
  exact hSealed ⟨String.toList_inj.mp (hText.trans hNon), hBehind⟩

/-! ## What a word is read as -/

/-- What starts with a word, unless that is the modifier with a hyphen. -/
private theorem matchAt_of_word {c : Char} {rest : List Char} (hWord : IsIdentifier word)
    (hText : word.toList = c :: rest) (hNext : StopsName next)
    (hSealed : ¬ StartsNonSealed word next) :
    matchAt c (rest ++ next) =
      match keywords.lookup (String.ofList (word.toList.takeWhile isWord)) with
      | some terminal => some (.token terminal, run isWord rest)
      | none => some (.token .identifier, rest.length) := by
  obtain ⟨hStart, hRest⟩ := hWord.of_cons hText
  have hParts : run isNamePart (rest ++ next) = rest.length := by
    rw [run, hNext.takeWhile (fun _ h => h), List.takeWhile_eq_self_iff.mpr hRest]
  have hLetters : run isWord (rest ++ next) = run isWord rest := by
    rw [run, hNext.takeWhile isNamePart_of_isWord, run]
  have hFront : (c :: (rest ++ next)).takeWhile isWord = word.toList.takeWhile isWord := by
    rw [hText]
    exact hNext.takeWhile isNamePart_of_isWord (c :: rest)
  rw [matchAt_of_isNameStart hStart, matchKeyword,
    matchNonSealed_of_word hWord hText hNext hSealed, hFront, hParts, hLetters]
  cases keywords.lookup (String.ofList (word.toList.takeWhile isWord)) <;> rfl

/-- A word is read whole if no keyword in it stands in front of a dollar sign. -/
theorem reads_whole (hWord : IsIdentifier word) (hNext : StopsName next)
    (hSealed : ¬ StartsNonSealed word next) (h : ¬ IsSplit word) :
    Reads (.token (terminalOf word)) word.toList next := by
  obtain ⟨c, rest, hText, -⟩ := id hWord
  refine ⟨c, rest, hText, ?_⟩
  rw [matchAt_of_word hWord hText hNext hSealed]
  have hCut := @List.takeWhile_append_dropWhile _ isWord word.toList
  cases hKeyword : keywords.lookup (String.ofList (word.toList.takeWhile isWord)) with
  | some terminal =>
      -- the keyword is all of the word, or else the next character were a dollar sign
      have hWhole : word.toList.dropWhile isWord = [] := by
        cases hLeft : word.toList.dropWhile isWord with
        | nil => rfl
        | cons d left =>
            have hNot : isWord d = false := by
              have hFound := List.head?_dropWhile_not isWord word.toList
              rwa [hLeft] at hFound
            have hPart : isNamePart d = true :=
              hWord.isNamePart d (by rw [← hCut, hLeft]; simp)
            obtain rfl : d = '$' := by simpa [isNamePart, hNot] using hPart
            refine absurd ⟨_, mem_of_lookup hKeyword, left, ?_⟩ h
            rw [String.toList_ofList, List.append_assoc, List.singleton_append, ← hLeft, hCut]
      rw [hWhole, List.append_nil] at hCut
      rw [hCut, String.ofList_toList] at hKeyword
      have hRest : rest.takeWhile isWord = rest := by
        rw [hText, List.takeWhile_eq_self_iff] at hCut
        exact List.takeWhile_eq_self_iff.mpr fun d mem => hCut d (List.mem_cons_of_mem c mem)
      simp only [terminalOf, hKeyword, Option.getD_some, run, hRest]
  | none =>
      have hNone : keywords.lookup word = none := by
        rw [Option.eq_none_iff_forall_not_mem]
        intro terminal hFound
        have hLetters := isWord_keywords _ (mem_of_lookup hFound)
        rw [List.takeWhile_eq_self_iff.mpr hLetters, String.ofList_toList, hFound] at hKeyword
        cases hKeyword
      simp only [terminalOf, hNone, Option.getD_none]

/-- The keyword in front of a dollar sign is read alone. -/
theorem reads_keyword (hWord : IsIdentifier word) (hNext : StopsName next)
    (hSealed : ¬ StartsNonSealed word next) {keyword : String} {terminal : Terminal}
    (mem : (keyword, terminal) ∈ keywords) {tail : List Char}
    (hSplit : word.toList = keyword.toList ++ '$' :: tail) :
    Reads (.token terminal) keyword.toList ('$' :: tail ++ next) := by
  have hLetters := isWord_keywords _ mem
  have hFront := takeWhile_dollar hLetters tail
  have hLookup := lookup_entry _ mem
  rw [← hSplit] at hFront
  cases hChars : keyword.toList with
  | nil => exact absurd hChars (toList_keywords _ mem)
  | cons c rest =>
      rw [hChars] at hLetters
      rw [hChars, List.cons_append] at hSplit
      refine ⟨c, rest, rfl, ?_⟩
      have hMatch := matchAt_of_word hWord hSplit hNext hSealed
      have hRun : run isWord (rest ++ '$' :: tail) = rest.length := by
        rw [run, takeWhile_dollar (List.forall_mem_cons.mp hLetters).2]
      rw [hFront, String.ofList_toList, hLookup, hRun, List.append_assoc] at hMatch
      exact hMatch

/-- **Exactly the words in which no keyword stands in front of a dollar sign are one token.** -/
theorem oneToken_word_iff {front : List Char} (hWord : IsIdentifier word) (hNext : StopsName next)
    (hSealed : ¬ StartsNonSealed word next) (hStarts : StartsBehind front (word.toList ++ next)) :
    OneToken (terminalOf word) front word.toList next ↔ ¬ IsSplit word := by
  constructor
  · rintro hOne ⟨⟨keyword, terminal⟩, mem, tail, hText⟩
    have hSplit : word.toList = keyword.toList ++ '$' :: tail := by simpa using hText.symm
    have hRead := reads_keyword hWord hNext hSealed mem hSplit
    have hSame : keyword.toList = word.toList := (hOne.eq_of_reads hRead (by simp [hSplit])).1
    have hLength := congrArg List.length (hSame.trans hSplit)
    simp at hLength
  · intro h
    exact .of_reads hStarts (reads_whole hWord hNext hSealed h)

/-! ## Names of declarations -/

/-- A word that is no keyword and has none in front of a dollar sign. -/
structure IsPlainName (name : String) : Prop where
  shape : IsIdentifier name
  lookup : keywords.lookup name = none
  whole : ¬ IsSplit name

/-- It is read as a name by itself. -/
theorem IsPlainName.isName {name : String} (h : IsPlainName name) : IsName name := by
  have hTerminal : terminalOf name = .identifier := by
    rw [terminalOf, h.lookup]
    rfl
  have hRead := reads_whole h.shape (by decide : StopsName []) (fun hSealed => by
    have hNil := List.prefix_nil.mp hSealed.2.1
    revert hNil
    decide) h.whole
  have hLexemes := hRead.lexemesFrom .start
  rw [hTerminal, List.append_nil] at hLexemes
  rw [IsName, IsLexeme, hLexemes, lexemesFrom]

/-- It has no dots. -/
theorem IsPlainName.segments {name : String} (h : IsPlainName name) :
    Dotted.segments name = [name] := Dotted.segments_eq_singleton h.shape.dot_notMem

theorem IsPlainName.isDottedName {name : String} (h : IsPlainName name) : IsDottedName name := by
  intro segment mem
  rw [h.segments, List.mem_singleton] at mem
  exact mem ▸ h.isName

/-- A class with one field, whose type is a name. -/
def oneField (name type field : String) : SourceFile where
  package := ""
  imports := []
  types := [{
    kind := .classDecl
    name := name
    typeParams := []
    modifiers := []
    fields := [⟨field, ⟨type, [], 0⟩, none, []⟩]
    enumConstants := []
    types := [] }]

/-- The class as it is written. -/
def oneFieldText (name type field : String) : String :=
  "class " ++ name ++ " \x7b\n" ++ type ++ " " ++ field ++ ";\n\x7d"

/-- Names of classes, of types and of fields are read as they are written. -/
theorem parse_oneFieldText {name type field : String} (hName : IsPlainName name)
    (hType : IsPlainName type) (hField : IsPlainName field) :
    parse (oneFieldText name type field).toList = .ok (oneField name type field) := by
  have hWritable : (oneField name type field).IsWritable := {
    package := .inl rfl
    imports := fun _ mem => nomatch mem
    types := List.forall_mem_singleton.mpr <| .intro
      { name := hName.isName
        typeParams := fun _ mem => nomatch mem
        modifiers := fun _ mem => nomatch mem
        fields := List.forall_mem_singleton.mpr
          { name := hField.isName
            type := .intro hType.isDottedName fun _ mem => nomatch mem
            docComment := fun _ mem => nomatch mem
            modifiers := fun _ mem => nomatch mem }
        enumConstants := fun _ mem => nomatch mem
        enum := fun _ => rfl
        other := fun _ => rfl }
      fun _ mem => nomatch mem }
  have hText : (oneFieldText name type field).toList = (oneField name type field).rendered := by
    have hTokens : (oneField name type field).tokens =
        [Terminal.classWord.token, nameToken name, Terminal.leftBrace.token, nameToken type,
          nameToken field, Terminal.semicolon.token, Terminal.rightBrace.token] := by
      have hSegments : dottedTokens type = [nameToken type] := by
        rw [dottedTokens, hType.segments]
        rfl
      simp [oneField, SourceFile.tokens, SourceFile.parts, packageTokens, TypeDecl.tokens,
        TypeDecl.tokensOfEach, headerTokens, contentTokens, angled, FieldDecl.tokens,
        FieldDecl.headTokens, withDoc, TypeName.tokens, TypeName.tokensOfEach, dimensionTokens,
        DeclKind.terminal, hSegments, nameToken, Token.plain]
    rw [SourceFile.rendered, hTokens]
    simp [oneFieldText, spell, Token.spelling, nameToken, Token.plain, Terminal.token,
      Terminal.text, Terminal.gap, Terminal.isWord]
  obtain ⟨hTokens, hEnd⟩ := tokenize_spell hWritable.isWritten
  have hBare : (tokenize (oneField name type field).rendered).1.map Token.bare =
      (oneField name type field).tokens.map Token.bare := by
    rw [← hTokens, List.map_map]
    rfl
  rw [hText, SourceFile.rendered, parse_eq_ok_of_bare hEnd hBare hWritable.isSentence,
    readSource_tokens hWritable]

/-- **Words are tokens, unless a keyword in them stands in front of a dollar sign.**  A word that is
followed by no character of a name, and does not start the modifier with a hyphen, is one token,
with the terminal of a keyword exactly if it is one; this holds unless the word has a keyword and
a dollar sign at its front.  If it is no keyword either, it is the name of a class, of a type or
of a field like any other. -/
theorem words_whole (hWord : IsIdentifier word) :
    (∀ front next, StopsName next → ¬ StartsNonSealed word next →
      StartsBehind front (word.toList ++ next) →
        (OneToken (terminalOf word) front word.toList next ↔ ¬ IsSplit word)) ∧
    (keywords.lookup word = none → ¬ IsSplit word →
      ∀ second third, IsPlainName second → IsPlainName third →
        parse (oneFieldText word second third).toList = .ok (oneField word second third) ∧
        parse (oneFieldText second word third).toList = .ok (oneField second word third) ∧
        parse (oneFieldText second third word).toList = .ok (oneField second third word)) := by
  constructor
  · intro front next hNext hSealed hStarts
    exact oneToken_word_iff hWord hNext hSealed hStarts
  · intro hLookup hWhole second third hSecond hThird
    have hName : IsPlainName word := ⟨hWord, hLookup, hWhole⟩
    exact ⟨parse_oneFieldText hName hSecond hThird, parse_oneFieldText hSecond hName hThird,
      parse_oneFieldText hSecond hThird hName⟩

/-! ### Words that start with keywords -/

/-- A name that begins with a keyword, among others with one and with a dollar sign further on. -/
theorem words_whole_classic :
    IsIdentifier "classic" ∧
      OneToken .identifier "class A \x7b".toList "classic".toList " x;\x7d".toList ∧
      parse (oneFieldText "enumeration" "classic" "final_$x").toList =
        .ok (oneField "enumeration" "classic" "final_$x") := by
  have hWord : IsIdentifier "classic" := by decide +kernel
  have hWhole : ¬ IsSplit "classic" := by decide +kernel
  have hTerminal : terminalOf "classic" = .identifier := by decide +kernel
  have hSecond : IsPlainName "enumeration" :=
    ⟨by decide +kernel, by decide +kernel, by decide +kernel⟩
  have hThird : IsPlainName "final_$x" := ⟨by decide +kernel, by decide +kernel, by decide +kernel⟩
  obtain ⟨hToken, hNames⟩ := words_whole hWord
  have hOne := (hToken "class A \x7b".toList " x;\x7d".toList (by decide +kernel)
    (by decide +kernel) (by decide +kernel)).mpr hWhole
  rw [hTerminal] at hOne
  exact ⟨hWord, hOne, (hNames (by decide +kernel) hWhole _ _ hSecond hThird).2.1⟩

/-- The type `static$x` is no keyword, but is read as the modifier `static` and the type `$x`. -/
theorem static_dollar_split :
    IsIdentifier "static$x" ∧ StopsName " y;\x7d".toList ∧
      ¬ StartsNonSealed "static$x" " y;\x7d".toList ∧
      StartsBehind "class A \x7b".toList ("static$x".toList ++ " y;\x7d".toList) ∧
      terminalOf "static$x" = .identifier ∧
      ¬ OneToken .identifier "class A \x7b".toList "static$x".toList " y;\x7d".toList ∧
      parse "class A \x7bstatic$x y;\x7d".toList = .ok {
        package := ""
        imports := []
        types := [{
          kind := .classDecl
          name := "A"
          typeParams := []
          modifiers := []
          fields := [⟨"y", ⟨"$x", [], 0⟩, none, ["static"]⟩]
          enumConstants := []
          types := [] }] } := by
  have hWord : IsIdentifier "static$x" := by decide +kernel
  have hNext : StopsName " y;\x7d".toList := by decide +kernel
  have hSealed : ¬ StartsNonSealed "static$x" " y;\x7d".toList := by decide +kernel
  have hStarts : StartsBehind "class A \x7b".toList
      ("static$x".toList ++ " y;\x7d".toList) := by decide +kernel
  have hTerminal : terminalOf "static$x" = .identifier := by decide +kernel
  refine ⟨hWord, hNext, hSealed, hStarts, hTerminal, fun hOne => ?_, ?_⟩
  · rw [← hTerminal, oneToken_word_iff hWord hNext hSealed hStarts] at hOne
    exact hOne (by decide +kernel)
  · refine @parse_eq_ok_of_bare "class A \x7bstatic$x y;\x7d".toList
      [.plain .classWord "class", .plain .identifier "A", .plain .leftBrace "\x7b",
        .plain .staticWord "static", .plain .identifier "$x", .plain .identifier "y",
        .plain .semicolon ";", .plain .rightBrace "\x7d"] ?_ ?_ ?_
    · rw [tokenize_eq_within]
      decide +kernel
    · rw [tokenize_eq_within]
      decide +kernel
    · show Derives _ _
      decide

end ClassSchema.Java
