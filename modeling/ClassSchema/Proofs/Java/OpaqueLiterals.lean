import ClassSchema.Proofs.Java.Lookahead
import ClassSchema.Proofs.Java.SkippedCode

/-!
# Literals are opaque

Of a literal, reading sees only that it is there.  Two sources that differ in the text of
one literal have the same lexemes in front of it, as both literals start with the same
quote, and behind it the lexer goes on with the same text.  So they have the same
tokens but for a text that is not seen, and declare the same.

## Main results

* `seen_of_literals`: the tokens of two sources that differ in one literal.
* `literals_opaque`: which literals are one token, and that what they hold does not matter
  to the declarations.
-/

namespace ClassSchema.Java

open ClassSchema.Text (Place)

/-! ## What is seen of lexemes -/

/-- A lexeme as reading sees it: its kind, and its text if that is not quoted. -/
def Lexeme.seen (lexeme : Lexeme) : LexemeKind × List Char :=
  (lexeme.kind,
    match lexeme.kind with
    | .token terminal => if terminal.isQuoted then [] else lexeme.text
    | _ => lexeme.text)

/-- The tokens of lexemes that look the same look the same. -/
theorem seen_tokensOf {lexemes lexemes' : List Lexeme} (doc : Option String)
    (h : lexemes.map Lexeme.seen = lexemes'.map Lexeme.seen) :
    (tokensOf doc lexemes).map Token.seen = (tokensOf doc lexemes').map Token.seen := by
  induction lexemes generalizing lexemes' doc with
  | nil =>
      obtain rfl := List.map_eq_nil_iff.mp h.symm
      rfl
  | cons lexeme lexemes ih =>
      cases lexemes' with
      | nil => cases h
      | cons lexeme' lexemes' =>
          obtain ⟨kind, text, place⟩ := lexeme
          obtain ⟨kind', text', place'⟩ := lexeme'
          rw [List.map_cons, List.map_cons, List.cons.injEq] at h
          obtain ⟨hFirst, hRest⟩ := h
          obtain ⟨rfl, hText⟩ := Prod.mk.inj hFirst
          cases kind with
          | token terminal =>
              have hToken : Token.seen ⟨terminal, String.ofList text, place, doc⟩ =
                  Token.seen ⟨terminal, String.ofList text', place', doc⟩ := by
                cases hQuoted : terminal.isQuoted with
                | true => simp only [Token.seen, hQuoted, if_true]
                | false =>
                    obtain rfl : text = text' := by simpa [hQuoted] using hText
                    rfl
              simp only [tokensOf, List.map_cons, hToken, ih none hRest]
          | docComment =>
              obtain rfl : text = text' := hText
              simpa only [tokensOf] using ih _ hRest
          | comment => simpa only [tokensOf] using ih none hRest
          | blank => simpa only [tokensOf] using ih doc hRest

/-- Where a text starts does not matter to how it is cut. -/
theorem seen_lexemesFrom (place place' : Place) (text : List Char) :
    (lexemesFrom place text).1.map Lexeme.seen = (lexemesFrom place' text).1.map Lexeme.seen ∧
      ((lexemesFrom place text).2 = none ↔ (lexemesFrom place' text).2 = none) := by
  fun_induction lexemesFrom place text generalizing place' with
  | case1 =>
      rw [lexemesFrom]
      exact ⟨rfl, Iff.rfl⟩
  | case2 place c rest hMatch =>
      rw [lexemesFrom, hMatch]
      exact ⟨rfl, by simp⟩
  | case3 place c rest kind more hMatch lexeme lexemes obstacle hLater ih =>
      obtain ⟨hSeen, hEnd⟩ := ih (place'.advance lexeme)
      rw [hLater] at hSeen hEnd
      rw [lexemesFrom, hMatch]
      exact ⟨congrArg (_ :: ·) hSeen, hEnd⟩

/-! ## Two sources -/

variable {terminal : Terminal} {front literal literal' back : List Char}

/-- Literals of one kind start with the same quote. -/
theorem IsLiteral.exists_quote (h : IsLiteral terminal literal)
    (h' : IsLiteral terminal literal') :
    ∃ quote, (quote = '"' ∨ quote = '\'') ∧ terminal.isQuoted = true ∧
      ∃ text text', literal = quote :: text ∧ literal' = quote :: text' := by
  cases h <;> cases h'
  · exact ⟨'"', .inl rfl, rfl, _, _, rfl, rfl⟩
  · exact ⟨'\'', .inr rfl, rfl, _, _, rfl, rfl⟩
  · exact ⟨'"', .inl rfl, rfl, _, _, rfl, rfl⟩

/-- Two sources that differ in one literal look the same. -/
theorem seen_of_literals (h : IsLiteral terminal literal) (hStands : StandsAt front literal back)
    (hEnds : EndsFirst literal) (h' : IsLiteral terminal literal')
    (hStands' : StandsAt front literal' back) (hEnds' : EndsFirst literal') :
    (tokenize (front ++ (literal ++ back))).1.map Token.seen =
        (tokenize (front ++ (literal' ++ back))).1.map Token.seen ∧
      ((tokenize (front ++ (literal ++ back))).2 = none ↔
        (tokenize (front ++ (literal' ++ back))).2 = none) := by
  obtain ⟨before, place, hTexts, hLexemes⟩ :=
    (h.reads hEnds hStands.whole).lexemes_around hStands.starts
  obtain ⟨before', place', hTexts', hLexemes'⟩ :=
    (h'.reads hEnds' hStands'.whole).lexemes_around hStands'.starts
  obtain ⟨quote, hQuote, hQuoted, text, text', hText, hText'⟩ := h.exists_quote h'
  obtain rfl : before = before' := by
    have hBefore := congrArg Prod.fst hLexemes
    have hBefore' := congrArg Prod.fst hLexemes'
    rw [hText, List.cons_append] at hBefore
    rw [hText', List.cons_append] at hBefore'
    exact lexemes_in_front hQuote hBefore hTexts hBefore' hTexts'
  obtain ⟨hBehind, hEnd⟩ := seen_lexemesFrom (place.advance literal) (place'.advance literal') back
  have hLiteral : Lexeme.seen ⟨.token terminal, literal, place⟩ =
      Lexeme.seen ⟨.token terminal, literal', place'⟩ := by
    simp only [Lexeme.seen, hQuoted, if_true]
  constructor
  · apply seen_tokensOf
    rw [hLexemes, hLexemes', List.map_append, List.map_append, List.map_cons, List.map_cons,
      hLiteral, hBehind]
  · rw [tokenize, tokenize, hLexemes, hLexemes']
    exact hEnd

private theorem parse_eq_ok_of_literals (h : IsLiteral terminal literal)
    (hStands : StandsAt front literal back) (hEnds : EndsFirst literal)
    (h' : IsLiteral terminal literal') (hStands' : StandsAt front literal' back)
    (hEnds' : EndsFirst literal') {file : SourceFile}
    (hParse : parse (front ++ (literal ++ back)) = .ok file) :
    parse (front ++ (literal' ++ back)) = .ok file := by
  obtain ⟨hSeen, hNone⟩ := seen_of_literals h hStands hEnds h' hStands' hEnds'
  obtain ⟨hEnd, hSentence, rfl⟩ := parse_eq_ok_iff.mp hParse
  exact parse_eq_ok_of_seen (hNone.mp hEnd) hSeen.symm hSentence

/-- **Literals are opaque.**  A literal in a source is one token that ends with it, exactly if no
three quotes stand in it between those that open and those that close a text block.
Such a literal can be replaced by any other of its kind, without any effect on the
declarations. -/
theorem literals_opaque (h : IsLiteral terminal literal) (hStands : StandsAt front literal back) :
    (OneToken terminal front literal back ↔ EndsFirst literal) ∧
      (EndsFirst literal → ∀ literal', IsLiteral terminal literal' → EndsFirst literal' →
        StandsAt front literal' back → ∀ file,
          parse (front ++ (literal ++ back)) = .ok file ↔
            parse (front ++ (literal' ++ back)) = .ok file) := by
  refine ⟨oneToken_literal_iff h hStands, fun hEnds literal' h' hEnds' hStands' file => ?_⟩
  exact ⟨parse_eq_ok_of_literals h hStands hEnds h' hStands' hEnds',
    parse_eq_ok_of_literals h' hStands' hEnds' h hStands hEnds⟩

/-! ### Text in literals -/

/-- A closing brace and a comment sign between quotes. -/
theorem literals_opaque_brace :
    IsLiteral .stringLiteral "\"\x7d\"".toList ∧
      StandsAt "class A \x7bString s=".toList "\"\x7d\"".toList ";int n;\x7d".toList ∧
      OneToken .stringLiteral "class A \x7bString s=".toList "\"\x7d\"".toList
        ";int n;\x7d".toList ∧
      ∀ file, parse "class A \x7bString s=\"\x7d\";int n;\x7d".toList = .ok file ↔
        parse "class A \x7bString s=\"/*\";int n;\x7d".toList = .ok file := by
  have hBrace : IsLiteral .stringLiteral "\"\x7d\"".toList :=
    .string (.plain (by decide) (by decide) (by decide) .close)
  have hStands : StandsAt "class A \x7bString s=".toList "\"\x7d\"".toList
      ";int n;\x7d".toList := ⟨by decide +kernel, by decide⟩
  have hEnds : EndsFirst "\"\x7d\"".toList := endsFirst_of_not_prefix (by decide)
  have hOpaque := literals_opaque hBrace hStands
  refine ⟨hBrace, hStands, hOpaque.1.mpr hEnds, hOpaque.2 hEnds "\"/*\"".toList ?_ ?_ ?_⟩
  · exact .string (.plain (by decide) (by decide) (by decide)
      (.plain (by decide) (by decide) (by decide) .close))
  · exact endsFirst_of_not_prefix (by decide)
  · exact ⟨by decide +kernel, by decide⟩

private theorem ClosesBlock.append {body : List Char} (h : ClosesBlock body) {text : List Char}
    (hEscape : '\\' ∉ text) (hQuote : '"' ∉ text) : ClosesBlock (text ++ body) := by
  induction text with
  | nil => exact h
  | cons c text ih =>
      rw [List.mem_cons, not_or] at hEscape hQuote
      exact .plain (Ne.symm hEscape.1) (fun ⟨_, hTail⟩ => hQuote.1 (List.cons.inj hTail).1)
        (ih hEscape.2 hQuote.2)

/-- A class with fields, each without modifiers. -/
def classWithFields (fields : List (String × String)) : SourceFile where
  package := ""
  imports := []
  types := [{
    kind := .classDecl
    name := "A"
    typeParams := []
    modifiers := []
    fields := fields.map fun (type, name) => ⟨name, ⟨type, [], 0⟩, none, []⟩
    enumConstants := []
    types := [] }]

/-- A text block with an escaped quote and two more quotes behind it ends there, and the rest of
its text declares a field. -/
theorem escaped_quote_ends_block :
    IsLiteral .textBlock "\"\"\"\n\\\"\"\";int ghost;//\"\"\"".toList ∧
      StandsAt "class A \x7bString s=".toList
        "\"\"\"\n\\\"\"\";int ghost;//\"\"\"".toList "\n;\x7d".toList ∧
      ¬ OneToken .textBlock "class A \x7bString s=".toList
        "\"\"\"\n\\\"\"\";int ghost;//\"\"\"".toList "\n;\x7d".toList ∧
      parse "class A \x7bString s=\"\"\"\n\\\"\"\";int ghost;//\"\"\"\n;\x7d".toList =
        .ok (classWithFields [("String", "s"), ("int", "ghost")]) := by
  have hBlock : IsLiteral .textBlock
      "\"\"\"\n\\\"\"\";int ghost;//\"\"\"".toList := by
    have hTail : ClosesBlock (";int ghost;//".toList ++ blockQuotes) :=
      ClosesBlock.close.append (by decide) (by decide)
    have hQuotes : ClosesBlock ('"' :: '"' :: (";int ghost;//".toList ++ blockQuotes)) :=
      .plain (by decide) (by decide) (.plain (by decide) (by decide) hTail)
    exact .block (.plain (by decide) (by decide) (.escaped hQuotes))
  have hStands : StandsAt "class A \x7bString s=".toList
      "\"\"\"\n\\\"\"\";int ghost;//\"\"\"".toList "\n;\x7d".toList :=
    ⟨by decide +kernel, by decide⟩
  refine ⟨hBlock, hStands, fun hToken => ?_, ?_⟩
  · have hEnds := (oneToken_literal_iff hBlock hStands).mp hToken
    have hNothing := hEnds "\n\\".toList ";int ghost;//\"\"\"".toList (by decide)
    revert hNothing
    decide
  · refine @parse_eq_ok_of_bare
      "class A \x7bString s=\"\"\"\n\\\"\"\";int ghost;//\"\"\"\n;\x7d".toList
      [.plain .classWord "class", .plain .identifier "A", .plain .leftBrace "\x7b",
        .plain .identifier "String", .plain .identifier "s", .plain .equalSign "=",
        .plain .textBlock "\"\"\"\n\\\"\"\"", .plain .semicolon ";",
        .plain .identifier "int", .plain .identifier "ghost", .plain .semicolon ";",
        .plain .semicolon ";", .plain .rightBrace "\x7d"] ?_ ?_ ?_
    · rw [tokenize_eq_within]
      decide +kernel
    · rw [tokenize_eq_within]
      decide +kernel
    · show Derives _ _
      decide

end ClassSchema.Java
