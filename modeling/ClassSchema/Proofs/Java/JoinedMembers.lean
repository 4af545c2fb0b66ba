import ClassSchema.Proofs.Java.DocComments
import ClassSchema.Proofs.Java.FirstComment
import ClassSchema.Proofs.Java.WhiteSpace

/-!
# Bodies put together

The members of two class bodies, put one after the other, are the members of a class
body.  Members have no common terminator, but tokens can be cut into members in one way
only, so no member runs across the seam, and the body declares what the first one
declares followed by what the second one declares.

Comments are the one thing that does not stop at the seam: a doc comment behind the last
member of the first body is that of the first member of the second.  If the first body
does not end in a doc comment, the fields keep their comments as well.

## Main results

* `IsMember.flatten_injective`: tokens can be cut into members in one way only.
* `readClassBody_append`: bodies put together declare what both declare.
* `members_joined`: the same for class bodies in texts.
-/

namespace ClassSchema.Java

open Expr.Yields

/-! ## Members are cut in one way only -/

/-- Tokens leave something on a level. -/
private theorem behind_ne_nil {tokens : List Token} (h : Balanced (terminals tokens))
    (level : List Node) (hSome : level ≠ [] ∨ tokens ≠ []) : behind level tokens ≠ [] := by
  revert level
  refine h.induction_tokens ?nil ?other ?group
  case nil =>
      intro level hSome
      rw [behind_nil]
      exact hSome.resolve_right fun hNil => hNil rfl
  case other =>
      intro token tokens hOther ih level _
      rw [behind_other hOther]
      refine ih _ (.inl ?_)
      rcases pushWord_cases token level with hPush | ⟨_, _, _, _, _, hPush⟩ |
        ⟨_, _, _, _, _, _, hPush⟩ <;> simp [hPush]
  case group =>
      intro b opening inner closing tokens hOpening hClosing hInner _ ih level _
      rw [behind_group hOpening hInner hClosing]
      refine ih _ (.inl ?_)
      cases b with
      | brace => exact List.cons_ne_nil _ _
      | paren =>
          show pushParens level ≠ []
          rcases pushParens_cases level with hPush | ⟨_, _, _, hPush⟩ <;> simp [hPush]

private theorem eq_nil_of_splitMembersFrom {nodes : List Node} {phase : Phase}
    {current : List Node} (h : splitMembersFrom phase current nodes = []) :
    current = [] ∧ nodes = [] := by
  fun_induction splitMembersFrom phase current nodes <;> simp_all

/-- Behind a member that is all there is there is nothing. -/
private theorem IsMember.eq_nil {front back : List Token} (hFront : IsMember front)
    (hBoth : IsMember (front ++ back)) : back = [] := by
  have hBalanced : Balanced (terminals back) := by
    have hAll := balanced_iff_stillOpen.mp hBoth.balanced
    rw [terminals_append, stillOpen_append, hFront.balanced.stillOpen_eq] at hAll
    exact balanced_iff_stillOpen.mpr hAll
  obtain ⟨items, hMakes⟩ := hFront.makes
  obtain ⟨all, hAll⟩ := hBoth.makes
  have hSplit := hAll.split []
  rw [List.append_nil, outline_append hFront.balanced hFront.isClosed hBalanced, hMakes.split]
    at hSplit
  obtain ⟨-, hNothing⟩ := List.cons.inj hSplit
  have hOutline := (eq_nil_of_splitMembersFrom hNothing).2
  rw [outline_eq_reverse, List.reverse_eq_nil_iff] at hOutline
  by_contra hSome
  exact behind_ne_nil hBalanced [] (.inr hSome) hOutline

private theorem IsMember.ne_nil {tokens : List Token} (h : IsMember tokens) : tokens ≠ [] := by
  rintro rfl
  obtain ⟨items, hMakes⟩ := h.makes
  generalize hNodes : outline [] = nodes at hMakes
  cases hMakes <;> simp [outline, outlineFrom] at hNodes

/-- **Tokens can be cut into members in one way only.** -/
theorem IsMember.flatten_injective {parts others : List (List Token)}
    (hParts : ∀ part ∈ parts, IsMember part) (hOthers : ∀ part ∈ others, IsMember part)
    (hFlatten : parts.flatten = others.flatten) : parts = others := by
  induction parts generalizing others with
  | nil =>
      cases others with
      | nil => rfl
      | cons other others =>
          have hNil := List.append_eq_nil_iff.mp hFlatten.symm
          exact absurd hNil.1 (hOthers other List.mem_cons_self).ne_nil
  | cons part parts ih =>
      obtain ⟨hPart, restParts⟩ := List.forall_mem_cons.mp hParts
      cases others with
      | nil => exact absurd (List.append_eq_nil_iff.mp hFlatten).1 hPart.ne_nil
      | cons other others =>
          obtain ⟨hOther, restOthers⟩ := List.forall_mem_cons.mp hOthers
          rw [List.flatten_cons, List.flatten_cons, List.append_eq_append_iff] at hFlatten
          rcases hFlatten with ⟨more, rfl, hRest⟩ | ⟨more, rfl, hRest⟩
          · obtain rfl := hPart.eq_nil hOther
            rw [ih restParts restOthers hRest, List.append_nil]
          · obtain rfl := hOther.eq_nil hPart
            rw [ih restParts restOthers hRest.symm, List.append_nil]

/-! ## Bodies in tokens -/

/-- Declarations put together. -/
def Body.append (front back : Body) : Body :=
  ⟨front.fields ++ back.fields, front.enumConstants ++ back.enumConstants,
    front.types ++ back.types⟩

theorem bodyOf_eq (members : List Member) :
    bodyOf members =
      ⟨members.flatMap Member.declaredFields, [], members.filterMap Member.declaration?⟩ := rfl

theorem bodyOf_append (front back : List Member) :
    bodyOf (front ++ back) = (bodyOf front).append (bodyOf back) := by
  simp [bodyOf_eq, Body.append]

/-- **No member runs across the seam.**  Members put behind members are members, in one way only,
and a body of them declares what the first ones declare and what the second ones declare. -/
theorem readClassBody_append {front back : List Token}
    (hFront : (Expr.many (.rule .member)).Yields front)
    (hBack : (Expr.many (.rule .member)).Yields back) :
    (Expr.many (.rule .member)).Yields (front ++ back) ∧
      (∀ parts : List (List Token), (∀ part ∈ parts, (Expr.rule .member).Yields part) →
        parts.flatten = front ++ back →
          ∃ first second, parts = first ++ second ∧ first.flatten = front ∧
            second.flatten = back) ∧
      readClassBody (outline (front ++ back)) =
        (readClassBody (outline front)).append (readClassBody (outline back)) := by
  obtain ⟨first, rfl, eachFirst⟩ := many_iff.mp hFront
  obtain ⟨second, rfl, eachSecond⟩ := many_iff.mp hBack
  have membersFirst : ∀ part ∈ first, IsMember part :=
    fun part mem => isMember_of_yields (eachFirst part mem)
  have membersSecond : ∀ part ∈ second, IsMember part :=
    fun part mem => isMember_of_yields (eachSecond part mem)
  have membersBoth : ∀ part ∈ first ++ second, IsMember part :=
    List.forall_mem_append.mpr ⟨membersFirst, membersSecond⟩
  refine ⟨many_append hFront hBack, fun parts each hFlatten => ?_, ?_⟩
  · rw [← List.flatten_append] at hFlatten
    obtain rfl := IsMember.flatten_injective
      (fun part mem => isMember_of_yields (each part mem)) membersBoth hFlatten
    exact ⟨first, second, rfl, rfl, rfl⟩
  · rw [← List.flatten_append, readClassBody_outline membersBoth,
      readClassBody_outline membersFirst, readClassBody_outline membersSecond, List.map_append,
      bodyOf_append]

/-! ## Comments in front of bodies -/

/-- Bodies that are the same but for the comments of their fields. -/
structure Body.SameButComments (body other : Body) : Prop where
  fields : body.fields.map FieldDecl.undocumented = other.fields.map FieldDecl.undocumented
  types : body.types = other.types

theorem Body.SameButComments.refl (body : Body) : body.SameButComments body := ⟨rfl, rfl⟩

/-- Members that are the same but for comments make bodies that are. -/
private theorem sameButComments_bodyOf {members others : List Member}
    (h : members.map Member.undocumented = others.map Member.undocumented) :
    (bodyOf members).SameButComments (bodyOf others) := by
  have hFields : ∀ members : List Member, (bodyOf members).fields.map FieldDecl.undocumented =
      (members.map Member.undocumented).flatMap Member.declaredFields := by
    intro members
    rw [bodyOf_eq, List.map_flatMap, List.flatMap_map]
    exact List.flatMap_congr fun member _ => by cases member <;> rfl
  have hTypes : ∀ members : List Member, (bodyOf members).types =
      (members.map Member.undocumented).filterMap Member.declaration? := by
    intro members
    rw [bodyOf_eq, List.filterMap_map]
    exact List.filterMap_congr fun member _ => by cases member <;> rfl
  exact ⟨by rw [hFields, hFields, h], by rw [hTypes, hTypes, h]⟩

/-- **The comment in front of a body** is that of the fields that its first member declares. -/
theorem readClassBody_withDoc (doc : Option String) {token : Token} {rest : List Token}
    (h : (Expr.many (.rule .member)).Yields (token :: rest)) :
    (readClassBody (outline (token.withDoc doc :: rest))).SameButComments
      (readClassBody (outline (token :: rest))) := by
  obtain ⟨parts, hParts, each⟩ := many_iff.mp h
  cases parts with
  | nil => cases hParts
  | cons part parts =>
      obtain ⟨hPart, hOthers⟩ := List.forall_mem_cons.mp each
      have hMember := isMember_of_yields hPart
      obtain ⟨first, more, rfl⟩ := List.exists_cons_of_ne_nil hMember.ne_nil
      obtain ⟨rfl, rfl⟩ := List.cons.inj hParts
      have hPart' : (Expr.rule .member).Yields (token.withDoc doc :: more) := hPart
      have hMembers : ∀ part ∈ (token :: more) :: parts, IsMember part :=
        fun part mem => isMember_of_yields (each part mem)
      have hMembers' : ∀ part ∈ (token.withDoc doc :: more) :: parts, IsMember part :=
        List.forall_mem_cons.mpr
          ⟨isMember_of_yields hPart', fun part mem => isMember_of_yields (hOthers part mem)⟩
      show (readClassBody (outline ((token.withDoc doc :: more) :: parts).flatten)).SameButComments
        (readClassBody (outline ((token :: more) :: parts).flatten))
      rw [readClassBody_outline hMembers, readClassBody_outline hMembers']
      apply sameButComments_bodyOf
      rw [List.map_cons, List.map_cons, List.map_cons, List.map_cons,
        memberItems_withDoc doc hMember, readMember_withDoc]

/-- Behind a comment, lexemes have the same tokens but for the comment of the first one. -/
private theorem tokensOf_behind (doc : Option String) (lexemes : List Lexeme) :
    tokensOf doc lexemes = tokensOf none lexemes ∨
      ∃ token rest, tokensOf none lexemes = token :: rest ∧
        tokensOf doc lexemes = token.withDoc doc :: rest := by
  induction lexemes with
  | nil => exact .inl rfl
  | cons lexeme rest ih =>
      rw [tokensOf, tokensOf]
      cases lexeme.kind with
      | token terminal => exact .inr ⟨_, _, rfl, rfl⟩
      | docComment | comment => exact .inl rfl
      | blank => exact ih

/-! ## Bodies in texts -/

/-- Lexemes that are accepted as the members of a class body. -/
def AreMembers (lexemes : List Lexeme) : Prop :=
  (Expr.many (.rule .member)).Yields (tokensOf none lexemes)

instance (lexemes : List Lexeme) : Decidable (AreMembers lexemes) :=
  inferInstanceAs (Decidable (Derives _ _))

/-- Behind a comment they are accepted as well, and declare the same but for comments. -/
private theorem AreMembers.behind {lexemes : List Lexeme} (h : AreMembers lexemes)
    (doc : Option String) :
    (Expr.many (.rule .member)).Yields (tokensOf doc lexemes) ∧
      (readClassBody (outline (tokensOf doc lexemes))).SameButComments
        (readClassBody (outline (tokensOf none lexemes))) := by
  unfold AreMembers at h
  rcases tokensOf_behind doc lexemes with hSame | ⟨token, rest, hToken, hSame⟩
  · rw [hSame]
    exact ⟨h, .refl _⟩
  · rw [hToken] at h
    rw [hSame, hToken]
    exact ⟨h, readClassBody_withDoc doc h⟩

/-- However some tokens are cut into members, a member ends behind the first ones of them, which are
those of another body up to their places. -/
def CutBehind (front tokens : List Token) : Prop :=
  ∀ parts : List (List Token), (∀ part ∈ parts, (Expr.rule .member).Yields part) →
    parts.flatten = tokens →
      ∃ first second, parts = first ++ second ∧
        first.flatten.map Token.bare = front.map Token.bare

/-- The tokens of two texts, one behind the other: the second one starts with the comment that the
first one ends in. -/
theorem tokensOf_append (front back : List Lexeme) :
    tokensOf none (front ++ back) =
      tokensOf none front ++ tokensOf ((lastShown front).bind Lexeme.docText?) back := by
  have hAll : ∀ before : List Lexeme,
      tokensOf ((lastShown before).bind Lexeme.docText?) (front ++ back) =
        tokensOf ((lastShown before).bind Lexeme.docText?) front ++
          tokensOf ((lastShown (before ++ front)).bind Lexeme.docText?) back := by
    induction front with
    | nil =>
        intro before
        rw [List.append_nil]
        rfl
    | cons lexeme front ih =>
        intro before
        rw [List.cons_append, tokensOf_cons, tokensOf_cons, ih, List.append_assoc,
          List.append_assoc]
        rfl
  exact hAll []

theorem lastShown_shown (lexemes : List Lexeme) :
    lastShown (shown lexemes) = (lastShown lexemes).map Lexeme.bare := by
  have hFilter : (shown lexemes).filter (·.kind ≠ .blank) = shown lexemes := by
    rw [List.filter_eq_self]
    intro lexeme mem
    obtain ⟨other, hOther, rfl⟩ := List.mem_map.mp mem
    exact (List.mem_filter.mp hOther).2
  rw [lastShown, hFilter, shown, List.getLast?_map]
  rfl

/-- A body in which what shows of two bodies follows each other has the tokens of both, but that
the second one begins with the comment that the first one ends in. -/
private theorem exists_tokens {one two joined : List Lexeme}
    (h : shown joined = shown one ++ shown two) :
    ∃ front back, tokensOf none joined = front ++ back ∧
      front.map Token.bare = (tokensOf none one).map Token.bare ∧
      back.map Token.bare =
        (tokensOf ((lastShown one).bind Lexeme.docText?) two).map Token.bare := by
  have hDoc : (lastShown (shown one)).bind Lexeme.docText? =
      (lastShown one).bind Lexeme.docText? := by
    rw [lastShown_shown, Option.bind_map]
    congr 1
    funext lexeme
    obtain ⟨kind, text, place⟩ := lexeme
    cases kind <;> rfl
  have hTokens : (tokensOf none joined).map Token.bare =
      (tokensOf none one).map Token.bare ++
        (tokensOf ((lastShown one).bind Lexeme.docText?) two).map Token.bare :=
    calc (tokensOf none joined).map Token.bare
        = tokensOf none (shown one ++ shown two) := by rw [tokensOf_shown, h]
      _ = _ := by rw [tokensOf_append, hDoc, tokensOf_shown, tokensOf_shown]
  exact List.map_eq_append_iff.mp hTokens

/-- **Members behind members** are members.  However they are cut, a member ends at the seam, and
they declare what both declare. -/
theorem AreMembers.joined {one two joined : List Lexeme} (hOne : AreMembers one)
    (hTwo : AreMembers two) (hJoined : shown joined = shown one ++ shown two) :
    AreMembers joined ∧
      CutBehind (tokensOf none one) (tokensOf none joined) ∧
      ∃ body : Body,
        readClassBody (outline (tokensOf none joined)) =
          (readClassBody (outline (tokensOf none one))).append body ∧
        body.SameButComments (readClassBody (outline (tokensOf none two))) ∧
        ((∀ last ∈ lastShown one, last.kind ≠ .docComment) →
          body = readClassBody (outline (tokensOf none two))) := by
  obtain ⟨front, back, hTokens, hFront, hBack⟩ := exists_tokens hJoined
  let doc := (lastShown one).bind Lexeme.docText?
  obtain ⟨hTwo', hSame⟩ := hTwo.behind doc
  have alikeFront : Alike (.many (.rule .member)) (tokensOf none one) front :=
    .of_bare hOne hFront.symm
  have alikeBack : Alike (.many (.rule .member)) (tokensOf doc two) back :=
    .of_bare hTwo' hBack.symm
  obtain ⟨hBoth, hSeam, hRead⟩ := readClassBody_append alikeFront.yields.2 alikeBack.yields.2
  rw [← hTokens] at hBoth hSeam hRead
  refine ⟨hBoth, ?_, readClassBody (outline (tokensOf doc two)), ?_, ?_, ?_⟩
  · intro parts each hParts
    obtain ⟨first, second, hCut, rfl, -⟩ := hSeam parts each hParts
    exact ⟨first, second, hCut, hFront⟩
  · rw [hRead, ← readClassBody_eq_of_alike alikeFront, ← readClassBody_eq_of_alike alikeBack]
  · exact hSame
  · intro hNoDoc
    have hNone : doc = none := by
      rw [Option.bind_eq_none_iff]
      intro last mem
      exact if_neg (hNoDoc last mem)
    rw [hNone]

/-! ## Sources -/

/-- A text that is one declaration. -/
theorem parse_of_declaration {source : List Char} {kind : DeclKind} {tokens : List Token}
    (hTokens : tokenize source = (tokens, none))
    (h : (Expr.rule kind.declaration).Yields tokens) :
    parse source = .ok (sourceOf [readMember (memberItems tokens)]) := by
  have hType := yields_typeDeclaration h
  have hTypes : (Expr.many (.rule .typeDeclaration)).Yields tokens :=
    many_iff.mpr ⟨[tokens], (List.flatten_singleton ..).symm, by simpa using hType⟩
  have hUnit : (Expr.rule .compilationUnit).Yields tokens :=
    rule_iff.mpr (of_absent (of_nothing hTypes))
  have hSplit := @splitMembers_outline [tokens]
    (by simpa using isMember_of_yields_typeDeclaration hType)
  rw [List.flatten_singleton] at hSplit
  rw [parse_eq_ok_iff, hTokens, readSource, hSplit]
  exact ⟨rfl, hUnit, rfl⟩

/-- A text that is one class or interface, with the lexemes of its body. -/
structure ClassSource where
  source : List Char
  kind : DeclKind
  header : List Lexeme
  opening : Lexeme
  body : List Lexeme
  closing : Lexeme
  after : List Lexeme
  /-- The lexemes make up the text. -/
  isCut : lexemesFrom .start source = (header ++ opening :: (body ++ closing :: after), none)
  /-- Bodies of enums begin with constants. -/
  kind_ne : kind ≠ .enumDecl
  isHeader : kind.header.Yields (tokensOf none header)
  opens : opening.kind = .token .leftBrace
  closes : closing.kind = .token .rightBrace
  /-- Behind the class there are comments and white space. -/
  isEnd : tokensOf none after = []

namespace ClassSource

variable (text : ClassSource)

/-- The tokens of the text. -/
private theorem exists_tokenize : ∃ opening closing : Token,
    opening.terminal = .leftBrace ∧ closing.terminal = .rightBrace ∧
      tokenize text.source = (tokensOf none text.header ++
        (opening :: (tokensOf none text.body ++ [closing])), none) := by
  have hTokens : ∀ {lexeme : Lexeme} {terminal : Terminal}, lexeme.kind = .token terminal →
      ∀ (doc : Option String) (rest : List Lexeme), tokensOf doc (lexeme :: rest) =
        ⟨terminal, String.ofList lexeme.text, lexeme.place, doc⟩ :: tokensOf none rest := by
    intro lexeme terminal hKind doc rest
    rw [tokensOf, hKind]
  have hAll : tokenize text.source =
      (tokensOf none (text.header ++ text.opening :: (text.body ++ text.closing :: text.after)),
        none) := by
    rw [tokenize, text.isCut]
  rw [tokensOf_append, hTokens text.opens, tokensOf_append, hTokens text.closes, text.isEnd] at hAll
  exact ⟨_, _, rfl, rfl, hAll⟩

/-- **A text whose class has members is a source**, and declares the class with what its body
declares. -/
theorem exists_parse (h : AreMembers text.body) :
    ∃ declaration : TypeDecl, parse text.source = .ok ⟨"", [], [declaration]⟩ ∧
      declaration.fields = (readClassBody (outline (tokensOf none text.body))).fields ∧
      declaration.types = (readClassBody (outline (tokensOf none text.body))).types := by
  obtain ⟨opening, closing, hOpening, hClosing, hTokens⟩ := text.exists_tokenize
  have hClass : (Expr.rule .classBody).Yields
      (opening :: tokensOf none text.body ++ [closing]) :=
    yields_classBody_iff.mpr ⟨opening, _, closing, rfl, hOpening, h, hClosing⟩
  have hBody : text.kind.body = .classBody := by
    have hKind := text.kind_ne
    cases hText : text.kind with
    | enumDecl => exact absurd hText hKind
    | _ => rfl
  have hDeclaration := DeclKind.yields_iff.mpr ⟨_, _, rfl, text.isHeader, hBody ▸ hClass⟩
  obtain ⟨name, typeParams, modifiers, hRead⟩ := readMember_of_braces text.isHeader hOpening
    (h.balanced_of_nest rfl) hClosing hDeclaration
  rw [if_neg text.kind_ne] at hRead
  have hParse := parse_of_declaration hTokens hDeclaration
  rw [← List.cons_append, hRead] at hParse
  exact ⟨_, hParse, rfl, rfl⟩

end ClassSource

/-- **The members of two bodies, one behind the other, are members of a class**, and none of them
runs across the seam.  The fields and the types of the class are those of the first class and then
those of the second.  The fields have the comments that they have there, unless the first body ends
in a doc comment. -/
theorem members_joined {one two joined : ClassSource} (hOne : AreMembers one.body)
    (hTwo : AreMembers two.body) (hJoined : shown joined.body = shown one.body ++ shown two.body) :
    AreMembers joined.body ∧
      CutBehind (tokensOf none one.body) (tokensOf none joined.body) ∧
      ∃ first second both : TypeDecl,
        parse one.source = .ok ⟨"", [], [first]⟩ ∧
        parse two.source = .ok ⟨"", [], [second]⟩ ∧
        parse joined.source = .ok ⟨"", [], [both]⟩ ∧
        both.types = first.types ++ second.types ∧
        ∃ fields, both.fields = first.fields ++ fields ∧
          fields.map FieldDecl.undocumented = second.fields.map FieldDecl.undocumented ∧
          ((∀ last ∈ lastShown one.body, last.kind ≠ .docComment) → fields = second.fields) := by
  obtain ⟨hMembers, hSeam, body, hRead, hSame, hDocs⟩ := hOne.joined hTwo hJoined
  obtain ⟨first, hFirst, firstFields, firstTypes⟩ := one.exists_parse hOne
  obtain ⟨second, hSecond, secondFields, secondTypes⟩ := two.exists_parse hTwo
  obtain ⟨both, hBoth, bothFields, bothTypes⟩ := joined.exists_parse hMembers
  rw [hRead] at bothFields bothTypes
  refine ⟨hMembers, hSeam, first, second, both, hFirst, hSecond, hBoth, ?_, body.fields, ?_, ?_, ?_⟩
  · rw [bothTypes, firstTypes, secondTypes, ← hSame.types]
    rfl
  · rw [bothFields, firstFields]
    rfl
  · rw [secondFields]
    exact hSame.fields
  · intro hNoDoc
    rw [hDocs hNoDoc, secondFields]

/-! ### A field and a method, and a documented field and a class -/

/-- Lexemes of a text of one line, by their kinds and texts. -/
def lexemesInLine (offset : Nat) : List (LexemeKind × String) → List Lexeme
  | [] => []
  | (kind, text) :: rest =>
      ⟨kind, text.toList, ⟨offset, 1, offset + 1⟩⟩ :: lexemesInLine (offset + text.length) rest

def plainMembers : List (LexemeKind × String) :=
  [(.token .identifier, "int"), (.blank, " "), (.token .identifier, "x"), (.token .semicolon, ";"),
    (.token .identifier, "void"), (.blank, " "), (.token .identifier, "m"),
    (.token .leftParen, "("), (.token .rightParen, ")"), (.token .leftBrace, "\x7b"),
    (.token .rightBrace, "\x7d")]

def documentedMembers : List (LexemeKind × String) :=
  [(.docComment, "/** d */"), (.token .identifier, "String"), (.blank, " "),
    (.token .identifier, "y"), (.token .semicolon, ";"), (.token .classWord, "class"),
    (.blank, " "), (.token .identifier, "C"), (.token .leftBrace, "\x7b"),
    (.token .rightBrace, "\x7d")]

def plainClass : ClassSource where
  source := "class A\x7bint x;void m()\x7b\x7d\x7d".toList
  kind := .classDecl
  header := lexemesInLine 0 [(.token .classWord, "class"), (.blank, " "), (.token .identifier, "A")]
  opening := ⟨.token .leftBrace, ['\x7b'], ⟨7, 1, 8⟩⟩
  body := lexemesInLine 8 plainMembers
  closing := ⟨.token .rightBrace, ['\x7d'], ⟨24, 1, 25⟩⟩
  after := []
  isCut := by
    rw [lexemesFrom_eq_within (Nat.le_refl _)]
    decide +kernel
  kind_ne := by decide
  isHeader := by
    show Derives _ _
    decide
  opens := rfl
  closes := rfl
  isEnd := rfl

def documentedInterface : ClassSource where
  source := "interface B\x7b/** d */String y;class C\x7b\x7d\x7d".toList
  kind := .interfaceDecl
  header :=
    lexemesInLine 0 [(.token .interfaceWord, "interface"), (.blank, " "), (.token .identifier, "B")]
  opening := ⟨.token .leftBrace, ['\x7b'], ⟨11, 1, 12⟩⟩
  body := lexemesInLine 12 documentedMembers
  closing := ⟨.token .rightBrace, ['\x7d'], ⟨38, 1, 39⟩⟩
  after := []
  isCut := by
    rw [lexemesFrom_eq_within (Nat.le_refl _)]
    decide +kernel
  kind_ne := by decide
  isHeader := by
    show Derives _ _
    decide
  opens := rfl
  closes := rfl
  isEnd := rfl

/-- A class with both. -/
def joinedClass : ClassSource where
  source := "class A\x7bint x;void m()\x7b\x7d/** d */String y;class C\x7b\x7d\x7d".toList
  kind := .classDecl
  header := plainClass.header
  opening := plainClass.opening
  body := lexemesInLine 8 (plainMembers ++ documentedMembers)
  closing := ⟨.token .rightBrace, ['\x7d'], ⟨50, 1, 51⟩⟩
  after := []
  isCut := by
    rw [lexemesFrom_eq_within (Nat.le_refl _)]
    decide +kernel
  kind_ne := by decide
  isHeader := plainClass.isHeader
  opens := rfl
  closes := rfl
  isEnd := rfl

def joinedDeclaration : TypeDecl where
  kind := .classDecl
  name := "A"
  typeParams := []
  modifiers := []
  fields := [⟨"x", ⟨"int", [], 0⟩, none, []⟩, ⟨"y", ⟨"String", [], 0⟩, some "/** d */", []⟩]
  enumConstants := []
  types := [⟨.classDecl, "C", [], [], [], [], []⟩]

private theorem parse_joinedClass :
    parse joinedClass.source = .ok ⟨"", [], [joinedDeclaration]⟩ := by
  have hTokens : tokenize joinedClass.source =
      (tokensOf none (joinedClass.header ++ joinedClass.opening ::
        (joinedClass.body ++ joinedClass.closing :: joinedClass.after)), none) := by
    rw [tokenize, joinedClass.isCut]
  rw [parse_eq_ok_iff, hTokens]
  exact ⟨rfl, by show Derives _ _; decide, rfl⟩

/-- The doc comment in front of the second members stays with their field. -/
theorem members_joined_documented :
    AreMembers plainClass.body ∧ AreMembers documentedInterface.body ∧
      shown joinedClass.body = shown plainClass.body ++ shown documentedInterface.body ∧
      parse joinedClass.source = .ok ⟨"", [], [joinedDeclaration]⟩ ∧
      ∃ first second : TypeDecl,
        parse plainClass.source = .ok ⟨"", [], [first]⟩ ∧
        parse documentedInterface.source = .ok ⟨"", [], [second]⟩ ∧
        joinedDeclaration.fields = first.fields ++ second.fields ∧
        joinedDeclaration.types = first.types ++ second.types := by
  have hOne : AreMembers plainClass.body := by decide
  have hTwo : AreMembers documentedInterface.body := by decide
  have hJoined : shown joinedClass.body =
      shown plainClass.body ++ shown documentedInterface.body := by decide
  obtain ⟨-, -, first, second, both, hFirst, hSecond, hBoth, hTypes, fields, hFields, -, hDocs⟩ :=
    members_joined hOne hTwo hJoined
  have hNoDoc : ∀ last ∈ lastShown plainClass.body, last.kind ≠ .docComment := by decide
  rw [hDocs hNoDoc] at hFields
  have hSame := Except.ok.inj (hBoth.symm.trans parse_joinedClass)
  obtain rfl : both = joinedDeclaration := List.singleton_inj.mp (SourceFile.mk.inj hSame).2.2
  exact ⟨hOne, hTwo, hJoined, hBoth, first, second, hFirst, hSecond, hFields, hTypes⟩

end ClassSchema.Java
