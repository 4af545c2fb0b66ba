import ClassSchema.Proofs.Java.Layout
import ClassSchema.Proofs.Java.Lexicon
import Mathlib.Data.List.Induction
import Mathlib.Data.List.Nodup

/-!
# Doc comments

A doc comment belongs to the field declaration right behind it: only white space may
stand between the comment and the first token of the declaration.  A token or another
comment in between leaves the declaration without a comment.

The lexer hands a comment on to the next token, and the reader takes the comment of the
first token of a declaration.  Seen from a declaration this is the last lexeme in front
of it that is not white space, which counts if it is a doc comment.  No two declarations
begin with the same token, so no two of them get the same comment.

## Main results

* `Cut.doc_eq`: the comment that a token carries.
* `Cut.unshared`: different declarations have different comments in front of them.
* `comments_attached`: the comments of the fields of a source.
-/

namespace ClassSchema.Java

open ClassSchema.Text (Place)

/-! ## What stands in front of a token -/

namespace Lexeme

/-- The text of a doc comment.  Nothing else documents what follows it. -/
def docText? (lexeme : Lexeme) : Option String :=
  if lexeme.kind = .docComment then some (String.ofList lexeme.text) else none

/-- A lexeme is that of a token. -/
structure IsOf (token : Token) (lexeme : Lexeme) : Prop where
  kind : lexeme.kind = .token token.terminal
  text : token.text = String.ofList lexeme.text
  place : lexeme.place = token.place

end Lexeme

/-- The last of some lexemes that is not white space. -/
def lastShown (lexemes : List Lexeme) : Option Lexeme :=
  (lexemes.filter (·.kind ≠ .blank)).getLast?

theorem lastShown_blank {lexeme : Lexeme} (h : lexeme.kind = .blank) (before : List Lexeme) :
    lastShown (before ++ [lexeme]) = lastShown before := by
  simp [lastShown, List.filter_append, h]

theorem lastShown_concat {lexeme : Lexeme} (h : lexeme.kind ≠ .blank) (before : List Lexeme) :
    lastShown (before ++ [lexeme]) = some lexeme := by
  simp [lastShown, List.filter_append, h]

/-- Behind the last lexeme that is not white space there is white space only. -/
theorem exists_of_lastShown {lexemes : List Lexeme} {shown : Lexeme}
    (h : lastShown lexemes = some shown) :
    ∃ before blanks, lexemes = before ++ shown :: blanks ∧
      ∀ lexeme ∈ blanks, lexeme.kind = .blank := by
  induction lexemes using List.reverseRecOn with
  | nil => cases h
  | append_singleton lexemes lexeme ih =>
      by_cases hBlank : lexeme.kind = .blank
      · rw [lastShown_blank hBlank] at h
        obtain ⟨before, blanks, rfl, each⟩ := ih h
        refine ⟨before, blanks ++ [lexeme], by simp, fun other mem => ?_⟩
        rcases List.mem_append.mp mem with mem | mem
        · exact each other mem
        · rw [List.mem_singleton.mp mem]
          exact hBlank
      · rw [lastShown_concat hBlank] at h
        cases h
        exact ⟨lexemes, [], rfl, by simp⟩

/-- Behind white space the lexeme of a token is the first that shows. -/
private theorem find?_behind_blanks {blanks : List Lexeme} {lexeme : Lexeme} {token : Token}
    (h : ∀ blank ∈ blanks, blank.kind = .blank) (hToken : lexeme.IsOf token)
    (after : List Lexeme) :
    (blanks ++ lexeme :: after).find? (·.kind ≠ .blank) = some lexeme := by
  rw [List.find?_append, List.find?_eq_none.mpr (by simpa using h)]
  simp [hToken.kind]

/-- What stands in front of the first of some tokens, white space left out. -/
def InFront (lexemes : List Lexeme) (shown : Option Lexeme) (tokens : List Token) : Prop :=
  ∃ before lexeme after token, lexemes = before ++ lexeme :: after ∧
    tokens.head? = some token ∧ lexeme.IsOf token ∧ lastShown before = shown

/-! ## The comment of a token -/

/-- The comment at hand while lexemes are gone through is that of the last one that shows. -/
theorem tokensOf_cons (before : List Lexeme) (lexeme : Lexeme) (rest : List Lexeme) :
    tokensOf ((lastShown before).bind Lexeme.docText?) (lexeme :: rest) =
      (match lexeme.kind with
        | .token terminal => [⟨terminal, String.ofList lexeme.text, lexeme.place,
            (lastShown before).bind Lexeme.docText?⟩]
        | _ => []) ++
      tokensOf ((lastShown (before ++ [lexeme])).bind Lexeme.docText?) rest := by
  rw [tokensOf]
  cases hKind : lexeme.kind with
  | blank => rw [lastShown_blank hKind]; rfl
  | _ =>
      rw [lastShown_concat (by simp [hKind])]
      simp [Lexeme.docText?, hKind]

private theorem exists_lexeme {before lexemes : List Lexeme} {token : Token}
    (mem : token ∈ tokensOf ((lastShown before).bind Lexeme.docText?) lexemes) :
    ∃ front lexeme after, lexemes = front ++ lexeme :: after ∧ lexeme.IsOf token ∧
      token.doc = (lastShown (before ++ front)).bind Lexeme.docText? := by
  induction lexemes generalizing before with
  | nil => cases mem
  | cons lexeme rest ih =>
      rw [tokensOf_cons] at mem
      rcases List.mem_append.mp mem with mem | mem
      · split at mem
        · next terminal hKind =>
            obtain rfl := List.mem_singleton.mp mem
            exact ⟨[], lexeme, rest, rfl, ⟨hKind, rfl, rfl⟩, by rw [List.append_nil]⟩
        · cases mem
      · obtain ⟨front, found, after, rfl, hFound, hDoc⟩ := ih mem
        refine ⟨lexeme :: front, found, after, rfl, hFound, ?_⟩
        rw [hDoc, List.append_assoc, List.singleton_append]

/-! ## Places -/

namespace Cut

variable {place : Place} {text : List Char} {lexemes : List Lexeme} {obstacle : Option Obstacle}

private theorem split_unique {α β : Type} {f : α → β} {before before' after after' : List α}
    {a a' : α} (hNodup : ((before ++ a :: after).map f).Nodup)
    (h : before ++ a :: after = before' ++ a' :: after') (hSame : f a = f a') :
    before = before' ∧ a = a' ∧ after = after' := by
  induction before generalizing before' with
  | nil =>
      cases before' with
      | nil =>
          cases h
          exact ⟨rfl, rfl, rfl⟩
      | cons first others =>
          cases h
          simp [hSame] at hNodup
  | cons first others ih =>
      cases before' with
      | nil =>
          cases h
          simp [hSame] at hNodup
      | cons first' others' =>
          injection h with hFirst hOthers
          rw [List.cons_append, List.map_cons, List.nodup_cons] at hNodup
          obtain ⟨rfl, rfl, rfl⟩ := ih hNodup.2 hOthers
          exact ⟨by rw [hFirst], rfl, rfl⟩

/-- Lexemes stand one behind the other. -/
theorem offsets (h : Cut place text lexemes obstacle) :
    (∀ lexeme ∈ lexemes, place.offset ≤ lexeme.place.offset) ∧
      lexemes.Pairwise fun one other => one.place.offset < other.place.offset := by
  induction h with
  | done | stuck => exact ⟨by simp, .nil⟩
  | @more place kind c piece left lexemes obstacle _ _ ih =>
      obtain ⟨behind, increasing⟩ := ih
      have hBehind : ∀ lexeme ∈ lexemes, place.offset < lexeme.place.offset := by
        intro lexeme mem
        have hLess := behind lexeme mem
        rw [Place.advance_offset, List.length_cons] at hLess
        omega
      refine ⟨fun lexeme mem => ?_, .cons hBehind increasing⟩
      rcases List.mem_cons.mp mem with rfl | mem
      · exact Nat.le_refl _
      · exact Nat.le_of_lt (hBehind lexeme mem)

theorem nodup_places (h : Cut place text lexemes obstacle) : (lexemes.map (·.place)).Nodup := by
  rw [List.nodup_iff_pairwise_ne, List.pairwise_map]
  refine h.offsets.2.imp fun hLess hSame => ?_
  rw [hSame] at hLess
  omega

/-- A place stands for one lexeme only. -/
theorem unique (h : Cut place text lexemes obstacle) {before before' after after' : List Lexeme}
    {lexeme lexeme' : Lexeme} (hCut : lexemes = before ++ lexeme :: after)
    (hCut' : lexemes = before' ++ lexeme' :: after') (hPlace : lexeme.place = lexeme'.place) :
    before = before' ∧ lexeme = lexeme' ∧ after = after' := by
  have hNodup := h.nodup_places
  rw [hCut] at hNodup hCut'
  exact split_unique hNodup hCut' hPlace

/-- **The comment that a token carries** is the last lexeme in front of it that is not white space,
if that is a doc comment. -/
theorem doc_eq (h : Cut place text lexemes obstacle) {tokens : List Token} {token : Token}
    (hHead : tokens.head? = some token) (mem : token ∈ tokensOf none lexemes) :
    (∃ shown, InFront lexemes shown tokens) ∧
      ∀ shown, InFront lexemes shown tokens → token.doc = shown.bind Lexeme.docText? := by
  have mem' : token ∈ tokensOf ((lastShown []).bind Lexeme.docText?) lexemes := mem
  obtain ⟨before, lexeme, after, hLexemes, hLexeme, hDoc⟩ := exists_lexeme mem'
  refine ⟨⟨_, before, lexeme, after, token, hLexemes, hHead, hLexeme, rfl⟩, ?_⟩
  rintro _ ⟨before', lexeme', after', token', hLexemes', hHead', hLexeme', rfl⟩
  obtain rfl := Option.some.inj (hHead.symm.trans hHead')
  obtain ⟨rfl, _⟩ := h.unique hLexemes hLexemes' (hLexeme.place.trans hLexeme'.place.symm)
  exact hDoc

/-- What stands in front of tokens is in front of no tokens that begin at another place. -/
theorem place_eq (h : Cut place text lexemes obstacle) {shown : Lexeme} {one other : List Token}
    (hOne : InFront lexemes (some shown) one) (hOther : InFront lexemes (some shown) other) :
    ∃ first second, one.head? = some first ∧ other.head? = some second ∧
      first.place = second.place := by
  obtain ⟨before, lexeme, after, first, hLexemes, hHead, hLexeme, hShown⟩ := hOne
  obtain ⟨before', lexeme', after', second, hLexemes', hHead', hLexeme', hShown'⟩ := hOther
  refine ⟨first, second, hHead, hHead', ?_⟩
  obtain ⟨start, blanks, rfl, allBlank⟩ := exists_of_lastShown hShown
  obtain ⟨start', blanks', rfl, allBlank'⟩ := exists_of_lastShown hShown'
  rw [List.append_assoc, List.cons_append] at hLexemes hLexemes'
  obtain ⟨_, _, hBehind⟩ := h.unique hLexemes hLexemes' rfl
  have hSame := find?_behind_blanks allBlank hLexeme after
  rw [hBehind, find?_behind_blanks allBlank' hLexeme'] at hSame
  rw [← hLexeme.place, ← hLexeme'.place, Option.some.inj hSame]

end Cut

/-! ## Declarations of fields -/

/-- The places of tokens are among those of the lexemes, in the same order. -/
private theorem sublist_places (doc : Option String) (lexemes : List Lexeme) :
    ((tokensOf doc lexemes).map (·.place)).Sublist (lexemes.map (·.place)) := by
  induction lexemes generalizing doc with
  | nil => exact .slnil
  | cons lexeme rest ih =>
      rw [tokensOf]
      cases lexeme.kind with
      | token => exact (ih none).cons_cons _
      | docComment => exact (ih _).cons _
      | comment => exact (ih none).cons _
      | blank => exact (ih doc).cons _

namespace Cut

variable {place : Place} {text : List Char} {lexemes : List Lexeme} {obstacle : Option Obstacle}

/-- **Different declarations have different comments in front of them.** -/
theorem unshared (h : Cut place text lexemes obstacle) {declarations : List (List Token)}
    (hTokens : declarations.flatten.Sublist (tokensOf none lexemes)) :
    declarations.Pairwise fun one other =>
      ∀ shown, InFront lexemes (some shown) one → ¬ InFront lexemes (some shown) other := by
  have hNodup : (declarations.flatten.map (·.place)).Nodup :=
    ((hTokens.map _).trans (sublist_places none lexemes)).nodup h.nodup_places
  rw [List.map_flatten, List.nodup_flatten, List.pairwise_map] at hNodup
  refine hNodup.2.imp fun hDisjoint shown hOne hOther => ?_
  obtain ⟨first, second, hFirst, hSecond, hSame⟩ := h.place_eq hOne hOther
  refine hDisjoint (List.mem_map_of_mem (List.mem_of_head? hFirst)) ?_
  rw [hSame]
  exact List.mem_map_of_mem (List.mem_of_head? hSecond)

end Cut

/-- Fields with the comment in front of their declaration, if that is a doc comment. -/
structure Documents (lexemes : List Lexeme) (tokens : List Token) (declared : List FieldDecl) :
    Prop where
  /-- A declaration declares something. -/
  nonempty : declared ≠ []
  /-- It begins with a token, in front of which something stands or nothing. -/
  located : ∃ shown, InFront lexemes shown tokens
  /-- Only a doc comment counts. -/
  comment : ∀ shown, InFront lexemes shown tokens →
    ∀ field ∈ declared, field.docComment = shown.bind Lexeme.docText?

/-- A declaration that is read has the comment in front of its first token. -/
private theorem documents_of_reads {place : Place} {text : List Char} {lexemes : List Lexeme}
    {obstacle : Option Obstacle} (hCut : Cut place text lexemes obstacle) {tokens : List Token}
    (h : (Expr.rule .fieldDeclaration).Yields tokens) (subset : tokens ⊆ tokensOf none lexemes)
    {declared : List FieldDecl} (hRead : ReadsFields tokens declared) :
    Documents lexemes tokens declared := by
  have hMember := isMember_of_yields (Stretch.Fits.field h).yields
  obtain ⟨token, rest, rfl⟩ : ∃ token rest, tokens = token :: rest := by
    refine List.exists_cons_of_ne_nil fun hNil => ?_
    rw [hNil] at h
    exact absurd (Derives.nil_iff.mp h) (by decide)
  obtain ⟨d, hTokens⟩ := Derivation.exists_of_yields h
  obtain ⟨modifiers, type, declarator, declarators, hFields⟩ :=
    d.exists_readMember_field (hTokens ▸ hMember)
  rw [hTokens, show readMember _ = .fields declared from hRead] at hFields
  obtain rfl := Member.fields.inj hFields
  obtain ⟨hLocated, hDoc⟩ := @Cut.doc_eq _ _ _ _ hCut (token :: rest) token rfl (subset (by simp))
  refine ⟨by simp [fieldsOf], hLocated, fun shown hShown field mem => ?_⟩
  obtain ⟨_, _, rfl⟩ := List.mem_map.mp mem
  rw [← hDoc shown hShown, Derivation.doc, hTokens]
  rfl

/-! ## Sources -/

/-- **The comments of the fields of a source.**  The lexemes make up the text, and their tokens have
a layout.  Whichever it is, every field has the text of the last lexeme in front of its declaration
that is not white space, if that is a doc comment, and none otherwise; and no lexeme stands in front
of two declarations. -/
theorem comments_attached {source : List Char} {file : SourceFile}
    (h : parse source = .ok file) :
    ∃ lexemes, Cut .start source lexemes none ∧ lexemes.flatMap (·.text) = source ∧
      (∃ layout : Layout, layout.IsValid ∧ layout.tokens = tokensOf none lexemes) ∧
      ∀ layout : Layout, layout.IsValid → layout.tokens = tokensOf none lexemes →
        Declares (Documents lexemes) layout.parts [] file.types ∧
        layout.fieldDeclarations.Pairwise fun one other =>
          ∀ shown, InFront lexemes (some shown) one → ¬ InFront lexemes (some shown) other := by
  obtain ⟨hEnd, hSentence, rfl⟩ := parse_eq_ok_iff.mp h
  obtain ⟨left, hTexts, hLeft⟩ := lexemesFrom_texts .start source
  have hCut := cut_lexemesFrom .start source
  have hNone : (lexemesFrom .start source).2 = none := hEnd
  rw [hLeft.mpr hNone, List.append_nil] at hTexts
  rw [hNone] at hCut
  refine ⟨_, hCut, hTexts, exists_layout hSentence, fun layout hValid hTokens => ?_⟩
  have hSublist := layout.sublist_fieldDeclarations
  rw [hTokens] at hSublist
  have hDeclares := hValid.declares
  rw [hTokens] at hDeclares
  refine ⟨hDeclares.imp fun tokens mem declared hRead => ?_, hCut.unshared hSublist⟩
  exact documents_of_reads hCut (hValid.yields_field tokens mem)
    (fun token hToken => hSublist.subset (List.mem_flatten_of_mem mem hToken)) hRead

/-! ### A comment of two fields, and one with another comment behind it -/

def commentedSource : List Char :=
  "class A {/** one */ int x, y; /** two */ /* three */ int z;}".toList

def commentedFile : SourceFile where
  package := ""
  imports := []
  types := [{
    kind := .classDecl
    name := "A"
    typeParams := []
    modifiers := []
    fields := [⟨"x", ⟨"int", [], 0⟩, some "/** one */", []⟩,
      ⟨"y", ⟨"int", [], 0⟩, some "/** one */", []⟩, ⟨"z", ⟨"int", [], 0⟩, none, []⟩]
    enumConstants := []
    types := [] }]

private theorem parse_commentedSource : parse commentedSource = .ok commentedFile := by
  have hTokens : tokenize commentedSource =
      ([.inLine .classWord "class" 0, .inLine .identifier "A" 6, .inLine .leftBrace "\x7b" 8,
        { Token.inLine .identifier "int" 20 with doc := some "/** one */" },
        .inLine .identifier "x" 24, .inLine .comma "," 25, .inLine .identifier "y" 27,
        .inLine .semicolon ";" 28, .inLine .identifier "int" 53, .inLine .identifier "z" 57,
        .inLine .semicolon ";" 58, .inLine .rightBrace "\x7d" 59], none) := by
    rw [tokenize_eq_within]
    decide +kernel
  rw [parse_eq_ok_iff, hTokens]
  exact ⟨rfl, by show Derives _ _; decide, rfl⟩

theorem comments_of_commentedSource :
    parse commentedSource = .ok commentedFile ∧
      ∃ lexemes, Cut .start commentedSource lexemes none ∧
        ∃ layout : Layout, layout.IsValid ∧ layout.tokens = tokensOf none lexemes ∧
          Declares (Documents lexemes) layout.parts [] commentedFile.types := by
  obtain ⟨lexemes, hCut, _, ⟨layout, hValid, hTokens⟩, hAll⟩ :=
    comments_attached parse_commentedSource
  exact ⟨parse_commentedSource, lexemes, hCut, layout, hValid, hTokens,
    (hAll layout hValid hTokens).1⟩

end ClassSchema.Java
