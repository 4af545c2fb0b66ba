import ClassSchema.Proofs.Java.Lexing
import ClassSchema.Proofs.Java.SkippedCode

/-!
# Replacing skipped code

A derivation with a hole derives what stands on either side of one group that it
passes over.  Any group of the same kind fills the hole, and the sources that come
from two of them are alike.

## Main results

* `Around.alike`: two groups in one hole make alike tokens.
* `parse_eq_of_replaced`: what a dropped group holds can be replaced by any balanced
  tokens.
-/

namespace ClassSchema.Java

open ClassSchema.Java.Expr Expr.Yields

/-! ## Derivations with a hole -/

/-- A derivation that leaves out one derivation of the rule `hole`; the two lists are what it
derives before and behind the hole. -/
inductive Around (hole : Rule) : Expr → List Terminal → List Terminal → Prop where
  | here : Around hole (.rule hole) [] []
  | rule {r : Rule} {front back : List Terminal} :
      Around hole r.body front back → Around hole (.rule r) front back
  | first {first second : Expr} {front back rest : List Terminal} :
      Around hole first front back → Derives second rest →
      Around hole (.sequence first second) front (back ++ rest)
  | second {first second : Expr} {start front back : List Terminal} :
      Derives first start → Around hole second front back →
      Around hole (.sequence first second) (start ++ front) back
  | left {left right : Expr} {front back : List Terminal} :
      Around hole left front back → Around hole (.choice left right) front back
  | right {left right : Expr} {front back : List Terminal} :
      Around hole right front back → Around hole (.choice left right) front back
  | present {part : Expr} {front back : List Terminal} :
      Around hole part front back → Around hole (.optional part) front back
  | inFirst {part : Expr} {front back rest : List Terminal} :
      Around hole part front back → Derives (.many part) rest →
      Around hole (.many part) front (back ++ rest)
  | inRest {part : Expr} {start front back : List Terminal} :
      Derives part start → Around hole (.many part) front back →
      Around hole (.many part) (start ++ front) back

/-- **Two groups in one hole make alike tokens.** -/
theorem Around.alike {hole : Rule} (hSkipped : hole.isSkipped = true) {e : Expr}
    {before behind : List Terminal} (h : Around hole e before behind)
    {front front' group group' back back' : List Token}
    (hBefore : terminals front = before) (hBehind : terminals back = behind)
    (hFront : front.map Token.bare = front'.map Token.bare)
    (hBack : back.map Token.bare = back'.map Token.bare)
    (hGroup : (Expr.rule hole).Yields group) (hGroup' : (Expr.rule hole).Yields group') :
    Alike e (front ++ group ++ back) (front' ++ group' ++ back') := by
  induction h generalizing front front' back back' with
  | here =>
      obtain rfl := List.map_eq_nil_iff.mp hBefore
      obtain rfl := List.map_eq_nil_iff.mp hBehind
      obtain rfl := List.map_eq_nil_iff.mp hFront.symm
      obtain rfl := List.map_eq_nil_iff.mp hBack.symm
      rw [List.nil_append, List.nil_append, List.append_nil, List.append_nil]
      exact .skipped hSkipped hGroup hGroup'
  | rule _ ih => exact .rule (ih hBefore hBehind hFront hBack)
  | first _ hSecond ih =>
      obtain ⟨back, rest, rfl, hNear, rfl⟩ := List.map_eq_append_iff.mp hBehind
      rw [List.map_append] at hBack
      obtain ⟨back', rest', rfl, hBack', hRest'⟩ := List.map_eq_append_iff.mp hBack.symm
      rw [← List.append_assoc, ← List.append_assoc]
      exact .sequence (ih hBefore hNear hFront hBack'.symm) (.of_bare hSecond hRest'.symm)
  | second hFirst _ ih =>
      obtain ⟨start, front, rfl, rfl, hNear⟩ := List.map_eq_append_iff.mp hBefore
      rw [List.map_append] at hFront
      obtain ⟨start', front', rfl, hStart', hFront'⟩ := List.map_eq_append_iff.mp hFront.symm
      rw [List.append_assoc start, List.append_assoc start, List.append_assoc start',
        List.append_assoc start']
      exact .sequence (.of_bare hFirst hStart'.symm) (ih hNear hBehind hFront'.symm hBack)
  | left _ ih => exact .left (ih hBefore hBehind hFront hBack)
  | right _ ih => exact .right (ih hBefore hBehind hFront hBack)
  | present _ ih => exact .present (ih hBefore hBehind hFront hBack)
  | inFirst _ hRest ih =>
      obtain ⟨back, rest, rfl, hNear, rfl⟩ := List.map_eq_append_iff.mp hBehind
      rw [List.map_append] at hBack
      obtain ⟨back', rest', rfl, hBack', hRest'⟩ := List.map_eq_append_iff.mp hBack.symm
      rw [← List.append_assoc, ← List.append_assoc]
      exact .more (ih hBefore hNear hFront hBack'.symm) (.of_bare hRest hRest'.symm)
  | inRest hPart _ ih =>
      obtain ⟨start, front, rfl, rfl, hNear⟩ := List.map_eq_append_iff.mp hBefore
      rw [List.map_append] at hFront
      obtain ⟨start', front', rfl, hStart', hFront'⟩ := List.map_eq_append_iff.mp hFront.symm
      rw [List.append_assoc start, List.append_assoc start, List.append_assoc start',
        List.append_assoc start']
      exact .more (.of_bare hPart hStart'.symm) (ih hNear hBehind hFront'.symm hBack)

/-! ## Sources -/

/-- The tokens of a source, with one pair of brackets set apart. -/
structure Site where
  front : List Token
  opening : Token
  inner : List Token
  closing : Token
  back : List Token

namespace Site

def group (site : Site) : List Token := site.opening :: site.inner ++ [site.closing]

def tokens (site : Site) : List Token := site.front ++ site.group ++ site.back

/-- The brackets of a site are a pair of brackets. -/
structure Encloses (site : Site) (b : Bracket) : Prop where
  opening : site.opening.terminal = b.opening
  inner : Balanced (terminals site.inner)
  closing : site.closing.terminal = b.closing

theorem Encloses.yields {site : Site} {b : Bracket} (h : site.Encloses b) :
    (Expr.rule b.group).Yields site.group :=
  yields_group_iff.mpr ⟨_, _, _, rfl, h.opening, h.inner, h.closing⟩

/-- Some derivation of the source passes over the group, as a body of code or as parentheses. -/
def IsDropped (site : Site) (b : Bracket) : Prop :=
  Around b.group (.rule .compilationUnit) (terminals site.front) (terminals site.back)

/-- Two sites that agree outside of their brackets, comments in front of tokens included. -/
structure SameOutside (site other : Site) : Prop where
  front : site.front.map Token.bare = other.front.map Token.bare
  back : site.back.map Token.bare = other.back.map Token.bare

end Site

private theorem isSkipped_group (b : Bracket) : b.group.isSkipped = true := by
  cases b <;> rfl

/-- **Skipped code is irrelevant.**  When a source is accepted by dropping a group, any balanced
tokens between the brackets of that group give an accepted source with the same declarations. -/
theorem parse_eq_of_replaced {b : Bracket} {source source' : List Char} {site site' : Site}
    {file : SourceFile} (hParse : parse source = .ok file)
    (hTokens : tokenize source = (site.tokens, none)) (hDropped : site.IsDropped b)
    (hGroup : site.Encloses b) (hTokens' : tokenize source' = (site'.tokens, none))
    (hOutside : site.SameOutside site') (hGroup' : site'.Encloses b) :
    parse source' = .ok file := by
  have hAlike : Alike (.rule .compilationUnit) site.tokens site'.tokens :=
    Around.alike (isSkipped_group b) hDropped rfl rfl hOutside.front hOutside.back
      hGroup.yields hGroup'.yields
  have hFile : readSource site.tokens = file := by
    have hRead := (parse_eq_ok_iff.mp hParse).2.2
    rw [hTokens] at hRead
    exact hRead
  rw [parse_eq_ok_iff, hTokens']
  refine ⟨rfl, hAlike.yields.2, ?_⟩
  rw [← readSource_eq_of_alike hAlike, hFile]

/-! ### A method without code, and the same method with code that looks like declarations -/

def idleSource : List Char := "class A {void m() {} /** d */ int x;}".toList

def busySource : List Char := "class A {void m() {int y; class B {}} /** d */ int x;}".toList

/-- The site of the body of the method, which holds a number of tokens. -/
private def methodSite (source : List Char) (size : Nat) : Site where
  front := (tokenize source).1.take 7
  opening := (tokenize source).1.getD 7 (.plain .leftBrace "")
  inner := ((tokenize source).1.drop 8).take size
  closing := (tokenize source).1.getD (8 + size) (.plain .rightBrace "")
  back := (tokenize source).1.drop (9 + size)

private def idleSite : Site := methodSite idleSource 0

private def busySite : Site := methodSite busySource 7

def idleFile : SourceFile where
  package := ""
  imports := []
  types := [{
    kind := .classDecl
    name := "A"
    typeParams := []
    modifiers := []
    fields := [⟨"x", ⟨"int", [], 0⟩, some "/** d */", []⟩]
    enumConstants := []
    types := [] }]

private theorem parse_idleSource : parse idleSource = .ok idleFile := by
  refine @parse_eq_ok_of_bare idleSource
    [.plain .classWord "class", .plain .identifier "A", .plain .leftBrace "\x7b",
      .plain .identifier "void", .plain .identifier "m", .plain .leftParen "(",
      .plain .rightParen ")", .plain .leftBrace "\x7b", .plain .rightBrace "\x7d",
      ⟨.identifier, "int", .start, some "/** d */"⟩, .plain .identifier "x",
      .plain .semicolon ";", .plain .rightBrace "\x7d"] ?_ ?_ ?_
  · rw [tokenize_eq_within]
    decide +kernel
  · rw [tokenize_eq_within]
    decide +kernel
  · show Derives _ _
    decide

private theorem isDropped_idleSite : idleSite.IsDropped .brace := by
  have hTokens : terminals idleSite.front =
        [.classWord, .identifier, .leftBrace, .identifier, .identifier, .leftParen,
          .rightParen] ∧
      terminals idleSite.back = [.identifier, .identifier, .semicolon, .rightBrace] := by
    simp only [idleSite, methodSite, tokenize_eq_within]
    decide +kernel
  have hModifiers : Derives (rule .modifiers) [] := by decide
  have hMethod : Around .block (.rule .methodDeclaration)
      [.identifier, .identifier, .leftParen, .rightParen] [] := by
    have hType : Derives (optional (rule .type)) [.identifier] := by decide
    have hParens : Derives (rule .parenGroup) [.leftParen, .rightParen] := by decide
    exact .rule (.second hModifiers (.second .absent (.second hType
      (.second (.terminal .identifier) (.second hParens (.second .none (.left .here)))))))
  have hMembers : Around .block (many (rule .member))
      [.identifier, .identifier, .leftParen, .rightParen]
      [.identifier, .identifier, .semicolon] := by
    have hField : Derives (many (rule .member)) [.identifier, .identifier, .semicolon] := by
      decide
    exact .inFirst (.rule (.right (.left hMethod))) hField
  have hBody : Around .block (rule .classBody)
      [.leftBrace, .identifier, .identifier, .leftParen, .rightParen]
      [.identifier, .identifier, .semicolon, .rightBrace] :=
    .rule (.second (.terminal .leftBrace) (.first hMembers (.terminal .rightBrace)))
  have hClass : Around .block (rule .typeDeclaration)
      [.classWord, .identifier, .leftBrace, .identifier, .identifier, .leftParen, .rightParen]
      [.identifier, .identifier, .semicolon, .rightBrace] :=
    .rule (.left (.rule (.second hModifiers (.second (.terminal .classWord)
      (.second (.terminal .identifier) (.second .absent (.second .none hBody)))))))
  rw [Site.IsDropped, hTokens.1, hTokens.2]
  exact .rule (.second .absent (.second .none (.inFirst hClass .none)))

theorem parse_busySource : parse busySource = .ok idleFile := by
  have hIdle : tokenize idleSource = (idleSite.tokens, none) ∧
      idleSite.opening.terminal = .leftBrace ∧ Balanced (terminals idleSite.inner) ∧
      idleSite.closing.terminal = .rightBrace := by
    simp only [idleSite, methodSite, tokenize_eq_within]
    decide +kernel
  have hBusy : tokenize busySource = (busySite.tokens, none) ∧
      busySite.opening.terminal = .leftBrace ∧ Balanced (terminals busySite.inner) ∧
      busySite.closing.terminal = .rightBrace := by
    simp only [busySite, methodSite, tokenize_eq_within]
    decide +kernel
  have hOutside : idleSite.front.map Token.bare = busySite.front.map Token.bare ∧
      idleSite.back.map Token.bare = busySite.back.map Token.bare := by
    simp only [idleSite, busySite, methodSite, tokenize_eq_within]
    decide +kernel
  exact @parse_eq_of_replaced .brace idleSource busySource idleSite busySite idleFile
    parse_idleSource hIdle.1 isDropped_idleSite ⟨hIdle.2.1, hIdle.2.2.1, hIdle.2.2.2⟩ hBusy.1
    ⟨hOutside.1, hOutside.2⟩ ⟨hBusy.2.1, hBusy.2.2.1, hBusy.2.2.2⟩

end ClassSchema.Java
