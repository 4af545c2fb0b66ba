import ClassSchema.Proofs.Java.BareItems
import ClassSchema.Proofs.Java.Lexing

/-!
# Writing tokens down

Tokens are written with a blank between two words and behind a comma, and on a new
line behind a semicolon or a brace.  Cutting the text gives the tokens back, with
their doc comments; only the places are new.

## Main results

* `tokenize_spell`: the tokens of a spelled list.
-/

namespace ClassSchema.Java

open ClassSchema.Text

/-! ## Spelling -/

/-- What stands between two tokens. -/
def Terminal.gap (left right : Terminal) : List Char :=
  if left = .semicolon ∨ left = .leftBrace ∨ left = .rightBrace then ['\n']
  else if left = .comma ∨ right = .leftBrace then [' ']
  else if right.isWord ∧ (left.isWord ∨ left = .moreThan ∨ left = .rightBracket) then [' ']
  else []

/-- A token as it is written, its doc comment included. -/
def Token.spelling (token : Token) : List Char :=
  match token.doc with
  | none => token.text.toList
  | some doc => doc.toList ++ ' ' :: token.text.toList

/-- Tokens as they are written. -/
def spell : List Token → List Char
  | [] => []
  | [token] => token.spelling
  | token :: next :: rest =>
      token.spelling ++ (token.terminal.gap next.terminal ++ spell (next :: rest))

/-- A token that can be written: a word or punctuation, behind a doc comment or none. -/
structure Token.IsWritten (token : Token) : Prop where
  text : (token.terminal.isWord = true ∧ IsLexeme (.token token.terminal) token.text) ∨
    ∃ c, (c, token.terminal) ∈ punctuation ∧ token.text = String.ofList [c]
  doc : ∀ doc ∈ token.doc, IsLexeme .docComment doc
  place : token.place = .start

/-! ## Cutting a text -/

/-- Behind a doc comment or none, a text is cut into tokens to its end. -/
def Cuts (doc : Option String) (text : List Char) (tokens : List Token) : Prop :=
  ∀ place, (tokensOf doc (lexemesFrom place text).1).map Token.bare = tokens ∧
    (lexemesFrom place text).2 = none

namespace Cuts

theorem nil (doc : Option String) : Cuts doc [] [] := by
  intro place
  rw [lexemesFrom]
  exact ⟨rfl, rfl⟩

theorem token {doc : Option String} {terminal : Terminal} {text next : List Char}
    {tokens : List Token} (hText : Reads (.token terminal) text next)
    (hNext : Cuts none next tokens) :
    Cuts doc (text ++ next) (⟨terminal, String.ofList text, .start, doc⟩ :: tokens) := by
  intro place
  obtain ⟨hTokens, hEnd⟩ := hNext (place.advance text)
  rw [hText.lexemesFrom]
  refine ⟨?_, hEnd⟩
  show Token.bare _ :: List.map Token.bare _ = _
  rw [hTokens]
  rfl

theorem docComment {doc : Option String} {text next : List Char} {tokens : List Token}
    (hText : Reads .docComment text next)
    (hNext : Cuts (some (String.ofList text)) next tokens) : Cuts doc (text ++ next) tokens := by
  intro place
  rw [hText.lexemesFrom]
  exact hNext (place.advance text)

theorem blank {doc : Option String} {text next : List Char} {tokens : List Token}
    (hText : Reads .blank text next) (hNext : Cuts doc next tokens) :
    Cuts doc (text ++ next) tokens := by
  intro place
  rw [hText.lexemesFrom]
  exact hNext (place.advance text)

end Cuts

/-! ## Tokens in a text -/

private theorem punctuation_head : ∀ entry ∈ punctuation,
    isLayout entry.1 = false ∧ isNamePart entry.1 = false ∧ entry.1 ≠ '-' := by
  decide

private theorem isLayout_of_isNameStart {c : Char} (h : isNameStart c = true) :
    isLayout c = false := by
  by_contra hLayout
  rw [Bool.not_eq_false] at hLayout
  unfold isLayout at hLayout
  simp only [Bool.or_eq_true, decide_eq_true_eq] at hLayout
  rcases hLayout with (((rfl | rfl) | rfl) | rfl) | rfl <;> revert h <;> decide

namespace Token.IsWritten

variable {token : Token}

/-- The text starts no blank, and that of punctuation continues no word. -/
theorem text_head (h : token.IsWritten) : ∃ c rest, token.text.toList = c :: rest ∧
    isLayout c = false ∧ (token.terminal.isWord = false → isNamePart c = false ∧ c ≠ '-') := by
  rcases h.text with ⟨hWord, hLexeme⟩ | ⟨c, mem, hText⟩
  · obtain ⟨c, rest, _, hText, _, _⟩ := hLexeme.matchAt
    have hStart : isNameStart c = true := by
      apply hLexeme.isNameStart hWord
      rw [hText]
      rfl
    refine ⟨c, rest, hText, isLayout_of_isNameStart hStart, ?_⟩
    intro hNoWord
    rw [hWord] at hNoWord
    cases hNoWord
  · obtain ⟨hLayout, hPart⟩ := punctuation_head _ mem
    exact ⟨c, [], by rw [hText, String.toList_ofList], hLayout, fun _ => hPart⟩

/-- So does its spelling. -/
theorem spelling_head (h : token.IsWritten) : ∃ c rest, token.spelling = c :: rest ∧
    isLayout c = false ∧ (token.terminal.isWord = false → isNamePart c = false ∧ c ≠ '-') := by
  unfold Token.spelling
  cases hDoc : token.doc with
  | none => exact h.text_head
  | some doc =>
      have hLexeme := h.doc doc hDoc
      have hSlash := (hLexeme.reads_doc []).2
      cases hText : doc.toList with
      | nil =>
          rw [hText] at hSlash
          cases hSlash
      | cons c rest =>
          rw [hText] at hSlash
          cases hSlash
          refine ⟨'/', rest ++ ' ' :: token.text.toList, ?_, by decide, fun _ => by decide⟩
          show doc.toList ++ _ = _
          rw [hText]
          rfl

/-- **One token is read, with its doc comment.** -/
theorem cuts (h : token.IsWritten) {next : List Char} {tokens : List Token}
    (hBoundary : token.terminal.isWord = true → IsBoundary next)
    (hNext : Cuts none next tokens) :
    Cuts none (token.spelling ++ next) (token :: tokens) := by
  have hText : Reads (.token token.terminal) token.text.toList next := by
    rcases h.text with ⟨hWord, hLexeme⟩ | ⟨c, mem, hText⟩
    · exact hLexeme.reads_word (hLexeme.isNameStart hWord) (hBoundary hWord)
    · rw [hText, String.toList_ofList]
      exact reads_mark mem next
  have hToken : token = ⟨token.terminal, String.ofList token.text.toList, .start, token.doc⟩ := by
    rw [String.ofList_toList, ← h.place]
  have hCuts := @Cuts.token token.doc _ _ _ _ hText hNext
  rw [← hToken] at hCuts
  unfold Token.spelling
  cases hDoc : token.doc with
  | none =>
      rw [hDoc] at hCuts
      exact hCuts
  | some doc =>
      obtain ⟨c, rest, hHead, hLayout, _⟩ := h.text_head
      rw [hDoc] at hCuts
      have hBlank : Reads .blank [' '] (token.text.toList ++ next) := by
        apply reads_blank (.inl rfl)
        intro d hd
        rw [hHead] at hd
        cases hd
        exact hLayout
      have hRest : Cuts (some doc) ([' '] ++ (token.text.toList ++ next)) (token :: tokens) :=
        Cuts.blank hBlank hCuts
      rw [List.append_assoc]
      apply Cuts.docComment ((h.doc doc hDoc).reads_doc _).1
      rw [String.ofList_toList]
      exact hRest

end Token.IsWritten

/-- Between two tokens stands nothing or one blank, and one blank between two words. -/
private theorem gap_cases (left right : Terminal) :
    (left.gap right = [] ∧ (left.isWord = true → right.isWord = false)) ∨
      ∃ c, (c = ' ' ∨ c = '\n') ∧ left.gap right = [c] := by
  unfold Terminal.gap
  split
  · exact .inr ⟨'\n', .inr rfl, rfl⟩
  split
  · exact .inr ⟨' ', .inl rfl, rfl⟩
  split
  · exact .inr ⟨' ', .inl rfl, rfl⟩
  · next hApart =>
      refine .inl ⟨rfl, ?_⟩
      intro hLeft
      by_contra hRight
      exact hApart ⟨Bool.not_eq_false _ ▸ hRight, .inl hLeft⟩

/-- **Spelled tokens are read back.** -/
theorem cuts_spell {tokens : List Token} (h : ∀ token ∈ tokens, token.IsWritten) :
    Cuts none (spell tokens) tokens := by
  induction tokens with
  | nil => exact .nil none
  | cons token rest ih =>
      obtain ⟨hToken, hRest⟩ := List.forall_mem_cons.mp h
      cases rest with
      | nil =>
          have hAlone := @Token.IsWritten.cuts token hToken [] []
            (fun _ _ mem => nomatch mem) (.nil none)
          rw [List.append_nil] at hAlone
          exact hAlone
      | cons next rest =>
          have hNext : next.IsWritten := hRest next List.mem_cons_self
          obtain ⟨c, others, hHead, hLayout, hPart⟩ := hNext.spelling_head
          have hSpell : (spell (next :: rest)).head? = some c := by
            cases rest with
            | nil => rw [spell, hHead, List.head?_cons]
            | cons => rw [spell, hHead, List.cons_append, List.head?_cons]
          rcases gap_cases token.terminal next.terminal with ⟨hGap, hWords⟩ | ⟨d, hd, hGap⟩
          · rw [spell, hGap]
            apply hToken.cuts _ (ih hRest)
            intro hWord e he
            rw [hSpell] at he
            cases he
            exact hPart (hWords hWord)
          · rw [spell, hGap]
            apply hToken.cuts
            · intro _ e he
              cases he
              rcases hd with rfl | rfl <;> decide
            · apply Cuts.blank (reads_blank hd _) (ih hRest)
              intro e he
              rw [hSpell] at he
              cases he
              exact hLayout

theorem tokenize_spell {tokens : List Token} (h : ∀ token ∈ tokens, token.IsWritten) :
    (tokenize (spell tokens)).1.map Token.bare = tokens ∧ (tokenize (spell tokens)).2 = none :=
  cuts_spell h .start

end ClassSchema.Java
