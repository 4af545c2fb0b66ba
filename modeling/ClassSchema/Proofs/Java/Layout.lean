import ClassSchema.Proofs.Java.Ambiguity

/-!
# Layouts of sources

The layout of a source shows where the declarations stand in it.  Behind the package
and the imports a source is a list of parts, and so is the content of the body of a
type.  A part is a declaration of fields, a declared type with parts of its own, or
something that declares nothing, a method or a record for example.

Whatever the layout of the tokens, the declared types mirror it: a type has the fields
that the field declarations among its parts declare, one declaration after the other,
and the types among its parts.  What a field declaration declares is left open here;
`Declares` takes it as a parameter.

## Main results

* `exists_layout`: the tokens of a source have a layout.
* `Layout.IsValid.declares`: the declared types mirror a layout.
* `Layout.IsValid.parse_eq`: a text with the tokens of a layout is a source.
-/

namespace ClassSchema.Java

open ClassSchema.Java.Expr Expr.Yields

/-! ## Stretches -/

/-- A stretch of the tokens of a source. -/
inductive Stretch where
  /-- A declaration of fields. -/
  | field (tokens : List Token)
  /-- A declared type: its header, what stands in front of its members, its members, and its last
  brace. -/
  | type (kind : DeclKind) (header front : List Token) (members : List Stretch) (closing : Token)
  /-- Something that declares nothing. -/
  | other (tokens : List Token)

namespace Stretch

mutual

/-- The tokens of a part. -/
def tokens : Stretch → List Token
  | field tokens => tokens
  | type _ header front members closing => header ++ (front ++ (allTokens members ++ [closing]))
  | other tokens => tokens

/-- The tokens of parts, one after the other. -/
def allTokens : List Stretch → List Token
  | [] => []
  | part :: rest => part.tokens ++ allTokens rest

end

theorem allTokens_eq (parts : List Stretch) : allTokens parts = (parts.map tokens).flatten := by
  induction parts with
  | nil => rfl
  | cons part parts ih => rw [allTokens, ih, List.map_cons, List.flatten_cons]

mutual

/-- The field declarations in a part, each with its tokens. -/
def fieldDeclarations : Stretch → List (List Token)
  | field tokens => [tokens]
  | type _ _ _ members _ => allFieldDeclarations members
  | other _ => []

/-- The field declarations in parts. -/
def allFieldDeclarations : List Stretch → List (List Token)
  | [] => []
  | part :: rest => part.fieldDeclarations ++ allFieldDeclarations rest

end

theorem mem_allFieldDeclarations {stretches : List Stretch} {declaration : List Token} :
    declaration ∈ allFieldDeclarations stretches ↔
      ∃ stretch ∈ stretches, declaration ∈ stretch.fieldDeclarations := by
  induction stretches with
  | nil => simp [allFieldDeclarations]
  | cons stretch rest ih => simp [allFieldDeclarations, ih]

mutual

/-- Field declarations do not overlap. -/
private theorem sublist_fieldDeclarations :
    (stretch : Stretch) → stretch.fieldDeclarations.flatten.Sublist stretch.tokens
  | .field tokens => by simp [fieldDeclarations, Stretch.tokens]
  | .type _ header front members closing => by
      rw [fieldDeclarations, Stretch.tokens]
      exact (((sublist_allFieldDeclarations members).trans
        (List.sublist_append_left _ [closing])).trans
          (List.sublist_append_right front _)).trans (List.sublist_append_right header _)
  | .other tokens => List.nil_sublist tokens

private theorem sublist_allFieldDeclarations :
    (stretches : List Stretch) →
      (allFieldDeclarations stretches).flatten.Sublist (allTokens stretches)
  | [] => .slnil
  | stretch :: rest => by
      rw [allFieldDeclarations, allTokens, List.flatten_append]
      exact (sublist_fieldDeclarations stretch).append (sublist_allFieldDeclarations rest)

end

end Stretch

/-- What stands between the header of a type and its members: a brace, and the constants of an
enum.  An enum without a semicolon has no members. -/
inductive DeclKind.Opens : DeclKind → List Token → List Stretch → Prop where
  | brace {kind : DeclKind} {opening : Token} {members : List Stretch} :
      kind ≠ .enumDecl → opening.terminal = .leftBrace → Opens kind [opening] members
  | constants {opening : Token} {constants : List Token} :
      opening.terminal = .leftBrace → (optional (rule .enumConstants)).Yields constants →
      Opens .enumDecl (opening :: constants) []
  | semicolon {opening semicolon : Token} {constants : List Token} {members : List Stretch} :
      opening.terminal = .leftBrace → (optional (rule .enumConstants)).Yields constants →
      semicolon.terminal = .semicolon →
      Opens .enumDecl (opening :: (constants ++ [semicolon])) members

namespace Stretch

/-- A part that may stand in the body of a type. -/
inductive Fits : Stretch → Prop where
  | field {tokens : List Token} : (rule .fieldDeclaration).Yields tokens → Fits (.field tokens)
  | type {kind : DeclKind} {header front : List Token} {members : List Stretch} {closing : Token} :
      kind.header.Yields header → kind.Opens front members → (∀ member ∈ members, Fits member) →
      closing.terminal = .rightBrace → Fits (.type kind header front members closing)
  | passed {r : Rule} {tokens : List Token} : r.isPlain = true → r.isPassed = true →
      (rule r).Yields tokens → Fits (.other tokens)
  | semicolon {token : Token} : token.terminal = .semicolon → Fits (.other [token])

/-- A part that may stand at top level: a type, a record or a semicolon. -/
inductive FitsTop : Stretch → Prop where
  | type {kind : DeclKind} {header front : List Token} {members : List Stretch} {closing : Token} :
      Fits (.type kind header front members closing) →
      FitsTop (.type kind header front members closing)
  | record {tokens : List Token} : (rule .recordDeclaration).Yields tokens →
      FitsTop (.other tokens)
  | semicolon {token : Token} : token.terminal = .semicolon → FitsTop (.other [token])

theorem FitsTop.fits {part : Stretch} (h : part.FitsTop) : part.Fits := by
  cases h with
  | type h => exact h
  | record h => exact @Fits.passed .recordDeclaration _ rfl rfl h
  | semicolon h => exact .semicolon h

end Stretch

/-- A package declaration and imports, and the parts behind them. -/
structure Layout where
  front : List Token
  parts : List Stretch

namespace Layout

/-- The tokens of a layout. -/
def tokens (layout : Layout) : List Token := layout.front ++ Stretch.allTokens layout.parts

/-- The field declarations in a layout, in order. -/
def fieldDeclarations (layout : Layout) : List (List Token) :=
  Stretch.allFieldDeclarations layout.parts

theorem sublist_fieldDeclarations (layout : Layout) :
    layout.fieldDeclarations.flatten.Sublist layout.tokens :=
  (Stretch.sublist_allFieldDeclarations layout.parts).trans
    (List.sublist_append_right layout.front _)

/-- A layout is that of a source. -/
structure IsValid (layout : Layout) : Prop where
  front : (sequence (optional (rule .packageDeclaration))
    (many (rule .importDeclaration))).Yields layout.front
  parts : ∀ part ∈ layout.parts, part.FitsTop

end Layout

/-! ## Layouts and derivations -/

private theorem yields_member_iff {tokens : List Token} :
    (rule .member).Yields tokens ↔
      (rule .fieldDeclaration).Yields tokens ∨ (rule .methodDeclaration).Yields tokens ∨
        (rule .initializer).Yields tokens ∨ (rule .compactConstructor).Yields tokens ∨
        (rule .classDeclaration).Yields tokens ∨ (rule .interfaceDeclaration).Yields tokens ∨
        (rule .enumDeclaration).Yields tokens ∨ (rule .recordDeclaration).Yields tokens ∨
        (terminal .semicolon).Yields tokens := by
  rw [rule_iff]
  simp only [Rule.body, oneOf, choice_iff]

private theorem yields_typeDeclaration_iff {tokens : List Token} :
    (rule .typeDeclaration).Yields tokens ↔
      (rule .classDeclaration).Yields tokens ∨ (rule .interfaceDeclaration).Yields tokens ∨
        (rule .enumDeclaration).Yields tokens ∨ (rule .recordDeclaration).Yields tokens ∨
        (terminal .semicolon).Yields tokens := by
  rw [rule_iff]
  simp only [Rule.body, oneOf, choice_iff]

/-- The tokens of a type whose members may stand in a body. -/
theorem Stretch.yields_declaration {kind : DeclKind} {header front : List Token}
    {members : List Stretch} {closing : Token} (hHeader : kind.header.Yields header)
    (hOpens : kind.Opens front members)
    (hMembers : (many (rule .member)).Yields (Stretch.allTokens members))
    (hClosing : closing.terminal = .rightBrace) :
    (rule kind.declaration).Yields (Stretch.type kind header front members closing).tokens := by
  refine DeclKind.yields_iff.mpr ⟨header, _, rfl, hHeader, ?_⟩
  cases hOpens with
  | @brace _ opening _ hKind hOpening =>
      have hBody : (rule .classBody).Yields ([opening] ++ (Stretch.allTokens members ++ [closing])) :=
        yields_classBody_iff.mpr ⟨opening, _, closing, rfl, hOpening, hMembers, hClosing⟩
      cases kind with
      | enumDecl => exact absurd rfl hKind
      | _ => exact hBody
  | @constants opening constants hOpening hConstants =>
      refine yields_enumBody_iff.mpr ⟨opening, constants, [], closing, ?_, hOpening, hConstants,
        optional_iff.mpr (.inl rfl), hClosing⟩
      simp [Stretch.allTokens]
  | @semicolon opening semicolon constants _ hOpening hConstants hSemicolon =>
      have hList : (rule .enumMembers).Yields (semicolon :: Stretch.allTokens members) :=
        rule_iff.mpr (of_cons hSemicolon hMembers)
      refine yields_enumBody_iff.mpr ⟨opening, constants, _, closing, ?_, hOpening, hConstants,
        optional_iff.mpr (.inr hList), hClosing⟩
      simp

namespace Stretch

theorem yields_allTokens {stretches : List Stretch}
    (h : ∀ stretch ∈ stretches, (rule .member).Yields stretch.tokens) :
    (many (rule .member)).Yields (allTokens stretches) := by
  rw [allTokens_eq]
  exact many_flatten (List.forall_mem_map.mpr h)

/-- What may stand in a body is a member. -/
theorem Fits.yields {stretch : Stretch} (h : stretch.Fits) :
    (rule .member).Yields stretch.tokens := by
  induction h with
  | field hField => exact yields_member_iff.mpr (.inl hField)
  | @type kind header front members closing hHeader hOpens _ hClosing ih =>
      have hType := yields_declaration hHeader hOpens (yields_allTokens ih) hClosing
      rw [yields_member_iff]
      cases kind with
      | classDecl => exact .inr (.inr (.inr (.inr (.inl hType))))
      | interfaceDecl => exact .inr (.inr (.inr (.inr (.inr (.inl hType)))))
      | enumDecl => exact .inr (.inr (.inr (.inr (.inr (.inr (.inl hType))))))
  | @passed r tokens hPlain hPassed hTokens =>
      rw [yields_member_iff]
      cases r with
      | methodDeclaration => exact .inr (.inl hTokens)
      | initializer => exact .inr (.inr (.inl hTokens))
      | compactConstructor => exact .inr (.inr (.inr (.inl hTokens)))
      | recordDeclaration => exact .inr (.inr (.inr (.inr (.inr (.inr (.inr (.inl hTokens)))))))
      | fieldDeclaration => cases hPassed
      | _ => cases hPlain
  | semicolon hToken =>
      rw [yields_member_iff]
      exact .inr (.inr (.inr (.inr (.inr (.inr (.inr (.inr (of_terminal hToken))))))))

/-- What may stand at top level is a declaration of a type, a record or a semicolon. -/
theorem FitsTop.yields {stretch : Stretch} (h : stretch.FitsTop) :
    (rule .typeDeclaration).Yields stretch.tokens := by
  rw [yields_typeDeclaration_iff]
  cases h with
  | @type kind header front members closing h =>
      cases h with
      | type hHeader hOpens hMembers hClosing =>
          have hType := yields_declaration hHeader hOpens
            (yields_allTokens fun member mem => (hMembers member mem).yields) hClosing
          cases kind with
          | classDecl => exact .inl hType
          | interfaceDecl => exact .inr (.inl hType)
          | enumDecl => exact .inr (.inr (.inl hType))
  | record hRecord => exact .inr (.inr (.inr (.inl hRecord)))
  | semicolon hToken => exact .inr (.inr (.inr (.inr (of_terminal hToken))))

/-- The field declarations in a part are what they are called. -/
theorem Fits.yields_field {stretch : Stretch} (h : stretch.Fits) :
    ∀ tokens ∈ stretch.fieldDeclarations, (rule .fieldDeclaration).Yields tokens := by
  induction h with
  | field hField =>
      intro tokens mem
      rw [List.mem_singleton.mp mem]
      exact hField
  | type _ _ _ _ ih =>
      intro tokens mem
      obtain ⟨member, hMember, hTokens⟩ := mem_allFieldDeclarations.mp mem
      exact ih member hMember tokens hTokens
  | passed | semicolon =>
      intro tokens mem
      cases mem

end Stretch

theorem Layout.IsValid.yields_field {layout : Layout} (h : layout.IsValid) :
    ∀ tokens ∈ layout.fieldDeclarations, (rule .fieldDeclaration).Yields tokens := by
  intro tokens mem
  obtain ⟨stretch, hStretch, hTokens⟩ := Stretch.mem_allFieldDeclarations.mp mem
  exact (h.parts stretch hStretch).fits.yields_field tokens hTokens

/-- **The tokens of a layout are a source.** -/
theorem Layout.IsValid.isSentence {layout : Layout} (h : layout.IsValid) :
    IsSentence (terminals layout.tokens) := by
  obtain ⟨package, imports, hFront, hPackage, hImports⟩ := sequence_iff.mp h.front
  have hTypes : (many (rule .typeDeclaration)).Yields (Stretch.allTokens layout.parts) := by
    rw [Stretch.allTokens_eq]
    exact many_flatten (List.forall_mem_map.mpr fun stretch mem => (h.parts stretch mem).yields)
  have hAll : (rule .compilationUnit).Yields layout.tokens := by
    rw [Layout.tokens, hFront, List.append_assoc]
    exact rule_iff.mpr (of_sequence hPackage (of_sequence hImports hTypes))
  exact hAll

/-! ## Every source has a layout -/

/-- Members of fewer tokens have a layout. -/
private def LaidBelow (bound : Nat) : Prop :=
  ∀ tokens, tokens.length < bound → (many (rule .member)).Yields tokens →
    ∃ stretches : List Stretch, tokens = Stretch.allTokens stretches ∧
      ∀ stretch ∈ stretches, stretch.Fits

private theorem exists_type_of_class {bound : Nat} (hBelow : LaidBelow bound) {kind : DeclKind}
    (hKind : kind ≠ .enumDecl) {header body : List Token} (hLength : body.length ≤ bound)
    (hHeader : kind.header.Yields header) (hBody : (rule .classBody).Yields body) :
    ∃ front members closing, header ++ body =
        (Stretch.type kind header front members closing).tokens ∧
      (Stretch.type kind header front members closing).Fits := by
  obtain ⟨opening, inner, closing, rfl, hOpening, hInner, hClosing⟩ := yields_classBody_iff.mp hBody
  simp only [List.length_append, List.length_cons, List.length_nil] at hLength
  obtain ⟨members, rfl, each⟩ := hBelow inner (by omega) hInner
  exact ⟨[opening], members, closing, rfl, .type hHeader (.brace hKind hOpening) each hClosing⟩

private theorem exists_type_of_enum {bound : Nat} (hBelow : LaidBelow bound)
    {header body : List Token} (hLength : body.length ≤ bound)
    (hHeader : DeclKind.enumDecl.header.Yields header) (hBody : (rule .enumBody).Yields body) :
    ∃ front members closing, header ++ body =
        (Stretch.type .enumDecl header front members closing).tokens ∧
      (Stretch.type .enumDecl header front members closing).Fits := by
  obtain ⟨opening, constants, inner, closing, rfl, hOpening, hConstants, hInner, hClosing⟩ :=
    yields_enumBody_iff.mp hBody
  rcases optional_iff.mp hInner with rfl | hInner
  · refine ⟨opening :: constants, [], closing, ?_,
      .type hHeader (.constants hOpening hConstants) (by simp) hClosing⟩
    simp [Stretch.tokens, Stretch.allTokens]
  · obtain ⟨_, list, rfl, hFirst, hList⟩ := sequence_iff.mp (rule_iff.mp hInner)
    obtain ⟨semicolon, rfl, hSemicolon⟩ := terminal_iff.mp hFirst
    simp only [List.length_append, List.length_cons, List.length_nil] at hLength
    obtain ⟨members, rfl, each⟩ := hBelow list (by omega) hList
    refine ⟨opening :: (constants ++ [semicolon]), members, closing, ?_,
      .type hHeader (.semicolon hOpening hConstants hSemicolon) each hClosing⟩
    simp [Stretch.tokens]

private theorem exists_type {bound : Nat} (hBelow : LaidBelow bound) {kind : DeclKind}
    {tokens : List Token} (hLength : tokens.length ≤ bound)
    (h : (rule kind.declaration).Yields tokens) :
    ∃ header front members closing, tokens =
        (Stretch.type kind header front members closing).tokens ∧
      (Stretch.type kind header front members closing).Fits := by
  obtain ⟨header, body, rfl, hHeader, hBody⟩ := DeclKind.yields_iff.mp h
  rw [List.length_append] at hLength
  have hShorter : body.length ≤ bound := by omega
  cases kind with
  | classDecl => exact ⟨header, exists_type_of_class hBelow (by decide) hShorter hHeader hBody⟩
  | interfaceDecl => exact ⟨header, exists_type_of_class hBelow (by decide) hShorter hHeader hBody⟩
  | enumDecl => exact ⟨header, exists_type_of_enum hBelow hShorter hHeader hBody⟩

private theorem exists_fits {bound : Nat} (hBelow : LaidBelow bound) {tokens : List Token}
    (hLength : tokens.length ≤ bound) (h : (rule .member).Yields tokens) :
    ∃ stretch : Stretch, tokens = stretch.tokens ∧ stretch.Fits := by
  have type {kind : DeclKind} (h : (rule kind.declaration).Yields tokens) :
      ∃ stretch : Stretch, tokens = stretch.tokens ∧ stretch.Fits := by
    obtain ⟨_, _, _, _, hTokens, hFits⟩ := exists_type hBelow hLength h
    exact ⟨_, hTokens, hFits⟩
  have passed {r : Rule} (hPlain : r.isPlain = true) (hPassed : r.isPassed = true)
      (h : (rule r).Yields tokens) : ∃ stretch : Stretch, tokens = stretch.tokens ∧ stretch.Fits :=
    ⟨.other tokens, rfl, .passed hPlain hPassed h⟩
  rcases yields_member_iff.mp h with h | h | h | h | h | h | h | h | h
  · exact ⟨.field tokens, rfl, .field h⟩
  · exact passed rfl rfl h
  · exact passed rfl rfl h
  · exact passed rfl rfl h
  · exact @type .classDecl h
  · exact @type .interfaceDecl h
  · exact @type .enumDecl h
  · exact passed rfl rfl h
  · obtain ⟨token, rfl, hToken⟩ := terminal_iff.mp h
    exact ⟨.other [token], rfl, .semicolon hToken⟩

/-- Stretches for a list of parts, given one for each of them. -/
private theorem exists_stretches {motive : Stretch → Prop} {parts : List (List Token)}
    (h : ∀ part ∈ parts, ∃ stretch : Stretch, part = stretch.tokens ∧ motive stretch) :
    ∃ stretches : List Stretch, parts.flatten = Stretch.allTokens stretches ∧
      ∀ stretch ∈ stretches, motive stretch := by
  induction parts with
  | nil => exact ⟨[], rfl, by simp⟩
  | cons part parts ih =>
      obtain ⟨hPart, others⟩ := List.forall_mem_cons.mp h
      obtain ⟨stretch, rfl, hStretch⟩ := hPart
      obtain ⟨stretches, hTokens, each⟩ := ih others
      exact ⟨stretch :: stretches, by rw [List.flatten_cons, hTokens, Stretch.allTokens],
        List.forall_mem_cons.mpr ⟨hStretch, each⟩⟩

private theorem laidBelow (bound : Nat) : LaidBelow bound := by
  induction bound with
  | zero => exact fun _ hLength => absurd hLength (Nat.not_lt_zero _)
  | succ bound ih =>
      intro tokens hLength h
      obtain ⟨parts, rfl, each⟩ := many_iff.mp h
      refine exists_stretches fun part mem => ?_
      have hPart : part.length ≤ parts.flatten.length :=
        (List.sublist_flatten_of_mem mem).length_le
      exact exists_fits ih (by omega) (each part mem)

private theorem exists_fitsTop {tokens : List Token} (h : (rule .typeDeclaration).Yields tokens) :
    ∃ stretch : Stretch, tokens = stretch.tokens ∧ stretch.FitsTop := by
  have type {kind : DeclKind} (h : (rule kind.declaration).Yields tokens) :
      ∃ stretch : Stretch, tokens = stretch.tokens ∧ stretch.FitsTop := by
    obtain ⟨_, _, _, _, hTokens, hFits⟩ := exists_type (laidBelow _) (Nat.le_refl _) h
    exact ⟨_, hTokens, .type hFits⟩
  rcases yields_typeDeclaration_iff.mp h with h | h | h | h | h
  · exact @type .classDecl h
  · exact @type .interfaceDecl h
  · exact @type .enumDecl h
  · exact ⟨.other tokens, rfl, .record h⟩
  · obtain ⟨token, rfl, hToken⟩ := terminal_iff.mp h
    exact ⟨.other [token], rfl, .semicolon hToken⟩

/-- **Every source has a layout.** -/
theorem exists_layout {tokens : List Token} (h : IsSentence (terminals tokens)) :
    ∃ layout : Layout, layout.IsValid ∧ layout.tokens = tokens := by
  have hYields : (rule .compilationUnit).Yields tokens := h
  obtain ⟨package, _, rfl, hPackage, hBehind⟩ := sequence_iff.mp (rule_iff.mp hYields)
  obtain ⟨imports, types, rfl, hImports, hTypes⟩ := sequence_iff.mp hBehind
  obtain ⟨parts, rfl, each⟩ := many_iff.mp hTypes
  obtain ⟨stretches, hTokens, hFits⟩ := exists_stretches fun part mem => exists_fitsTop (each part mem)
  refine ⟨⟨package ++ imports, stretches⟩, ⟨of_sequence hPackage hImports, hFits⟩, ?_⟩
  rw [Layout.tokens, hTokens, List.append_assoc]

/-! ## What stretches declare -/

/-- Fields and types that mirror stretches, in their order; `declares` says what a declaration of
fields declares, given its tokens. -/
inductive Declares (declares : List Token → List FieldDecl → Prop) :
    List Stretch → List FieldDecl → List TypeDecl → Prop where
  | nil : Declares declares [] [] []
  | field {tokens : List Token} {declared fields : List FieldDecl} {stretches : List Stretch}
      {types : List TypeDecl} : declares tokens declared →
      Declares declares stretches fields types →
      Declares declares (.field tokens :: stretches) (declared ++ fields) types
  | type {kind : DeclKind} {header front : List Token} {members stretches : List Stretch}
      {closing : Token} {declaration : TypeDecl} {fields : List FieldDecl}
      {types : List TypeDecl} : declaration.kind = kind →
      Declares declares members declaration.fields declaration.types →
      Declares declares stretches fields types →
      Declares declares (.type kind header front members closing :: stretches) fields
        (declaration :: types)
  | other {tokens : List Token} {fields : List FieldDecl} {stretches : List Stretch}
      {types : List TypeDecl} : Declares declares stretches fields types →
      Declares declares (.other tokens :: stretches) fields types

/-- What declarations of fields declare may be told in another way. -/
theorem Declares.imp {declares others : List Token → List FieldDecl → Prop}
    {stretches : List Stretch} {fields : List FieldDecl} {types : List TypeDecl}
    (h : Declares declares stretches fields types)
    (each : ∀ tokens ∈ Stretch.allFieldDeclarations stretches, ∀ declared,
      declares tokens declared → others tokens declared) :
    Declares others stretches fields types := by
  induction h with
  | nil => exact .nil
  | field hDeclared _ ih =>
      exact .field (each _ (by simp [Stretch.allFieldDeclarations, Stretch.fieldDeclarations]) _ hDeclared)
        (ih fun tokens mem => each tokens (by simp [Stretch.allFieldDeclarations, mem]))
  | type hKind _ _ ihMembers ih =>
      exact .type hKind
        (ihMembers fun tokens mem => each tokens
          (by simp [Stretch.allFieldDeclarations, Stretch.fieldDeclarations, mem]))
        (ih fun tokens mem => each tokens (by simp [Stretch.allFieldDeclarations, mem]))
  | other _ ih =>
      exact .other (ih fun tokens mem => each tokens (by simp [Stretch.allFieldDeclarations, mem]))

/-- Tokens that are read as fields. -/
def ReadsFields (tokens : List Token) (declared : List FieldDecl) : Prop :=
  readMember (memberItems tokens) = .fields declared

/-- What a stretch is read as. -/
def Stretch.ReadsAs : Stretch → Member → Prop
  | field tokens, member => ∃ declared, member = .fields declared ∧ ReadsFields tokens declared
  | type kind _ _ members _, member => ∃ declaration, member = .type declaration ∧
      declaration.kind = kind ∧ Declares ReadsFields members declaration.fields declaration.types
  | other _, member => member = .nothing

/-- Stretches declare what they are read as. -/
theorem declares_of_reads {stretches : List Stretch}
    (h : ∀ stretch ∈ stretches, stretch.ReadsAs (readMember (memberItems stretch.tokens))) :
    Declares ReadsFields stretches
      (stretches.flatMap fun stretch => (readMember (memberItems stretch.tokens)).declaredFields)
      (stretches.filterMap fun stretch => (readMember (memberItems stretch.tokens)).declaration?) := by
  induction stretches with
  | nil => exact .nil
  | cons stretch stretches ih =>
      obtain ⟨hStretch, others⟩ := List.forall_mem_cons.mp h
      rw [List.flatMap_cons, List.filterMap_cons]
      generalize readMember (memberItems stretch.tokens) = member at hStretch ⊢
      cases stretch with
      | field tokens =>
          obtain ⟨declared, rfl, hDeclared⟩ := hStretch
          exact .field hDeclared (ih others)
      | type kind header front members closing =>
          obtain ⟨declaration, rfl, hKind, hMembers⟩ := hStretch
          exact .type hKind hMembers (ih others)
      | other tokens =>
          obtain rfl := hStretch
          exact .other (ih others)

/-- The body that members make. -/
theorem bodyOf_map (stretches : List Stretch) :
    bodyOf (stretches.map fun stretch => readMember (memberItems stretch.tokens)) =
      ⟨stretches.flatMap fun stretch => (readMember (memberItems stretch.tokens)).declaredFields, [],
        stretches.filterMap fun stretch => (readMember (memberItems stretch.tokens)).declaration?⟩ := by
  show Body.mk (List.flatMap Member.declaredFields _) [] (List.filterMap Member.declaration? _) = _
  rw [List.flatMap_map, List.filterMap_map]
  rfl

/-- A declared type has what its braces are read as. -/
theorem readMember_of_braces {kind : DeclKind} {header inner : List Token}
    {opening closing : Token} (hHeader : kind.header.Yields header)
    (hOpening : opening.terminal = .leftBrace) (hInner : Balanced (terminals inner))
    (hClosing : closing.terminal = .rightBrace)
    (h : (rule kind.declaration).Yields (header ++ (opening :: inner ++ [closing]))) :
    ∃ name typeParams modifiers,
      readMember (memberItems (header ++ (opening :: inner ++ [closing]))) =
        .type (declared kind name typeParams modifiers
          (if kind = .enumDecl then readEnumBody (outline inner)
            else readClassBody (outline inner))) := by
  obtain ⟨d, hTokens⟩ := Derivation.exists_of_yields h
  obtain ⟨heads⟩ := d.exists_heads kind
  obtain ⟨opening', inner', closing', hContent, hOpening', hInner', hClosing'⟩ :=
    Rule.yields_of_wraps kind.wraps_body heads.content.yields
  have hRead := heads.readMember_eq hContent hOpening' hInner' hClosing'
  -- The tokens may be cut into header and body in two ways, but the last item is the same.
  have hItems : outline header ++
      [Node.braces (readClassBody (outline inner)) (readEnumBody (outline inner))] =
        outline heads.header ++
          [Node.braces (readClassBody (outline inner')) (readEnumBody (outline inner'))] := by
    rw [← memberItems_of_declaration hHeader hOpening hInner hClosing,
      ← memberItems_of_declaration heads.yields_header hOpening' hInner' hClosing', ← hContent,
      ← heads.tokens_eq, hTokens]
  have hBraces := (List.append_inj' hItems rfl).2
  simp only [List.cons.injEq, Node.braces.injEq, and_true] at hBraces
  rw [hTokens, ← hBraces.1, ← hBraces.2] at hRead
  exact ⟨_, _, _, hRead⟩

namespace Stretch

/-- The body of a type is read as what its members are read as. -/
private theorem reads_members {members : List Stretch} (hFits : ∀ member ∈ members, member.Fits)
    (hReads : ∀ member ∈ members, member.ReadsAs (readMember (memberItems member.tokens))) :
    Declares ReadsFields members (readClassBody (outline (allTokens members))).fields
      (readClassBody (outline (allTokens members))).types := by
  have hMembers : ∀ part ∈ members.map tokens, IsMember part :=
    List.forall_mem_map.mpr fun member mem => isMember_of_yields (hFits member mem).yields
  rw [allTokens_eq, readClassBody_outline hMembers, List.map_map]
  have hBody := bodyOf_map members
  simp only [Function.comp_def, hBody]
  exact declares_of_reads hReads

/-- **What may stand in a body is read as what it is.** -/
theorem Fits.readsAs {stretch : Stretch} (h : stretch.Fits) :
    stretch.ReadsAs (readMember (memberItems stretch.tokens)) := by
  have hMember := isMember_of_yields h.yields
  induction h with
  | field hField =>
      obtain ⟨d, rfl⟩ := Derivation.exists_of_yields hField
      obtain ⟨_, _, _, _, hRead⟩ := d.exists_readMember_field hMember
      exact ⟨_, hRead, hRead⟩
  | @type kind header front members closing hHeader hOpens hFits hClosing ih =>
      have hYields := yields_allTokens fun member mem => (hFits member mem).yields
      have hDeclaration := yields_declaration hHeader hOpens hYields hClosing
      have hMembers := reads_members hFits fun member mem =>
        ih member mem (isMember_of_yields (hFits member mem).yields)
      have hInner : Balanced (terminals (allTokens members)) := hYields.balanced_of_nest rfl
      cases hOpens with
      | @brace _ opening _ hKind hOpening =>
          obtain ⟨_, _, _, hRead⟩ :=
            readMember_of_braces hHeader hOpening hInner hClosing hDeclaration
          rw [if_neg hKind] at hRead
          exact ⟨_, hRead, rfl, hMembers⟩
      | @constants opening constants hOpening hConstants =>
          have hTokens : (Stretch.type .enumDecl header (opening :: constants) [] closing).tokens =
              header ++ (opening :: constants ++ [closing]) := by
            simp [tokens, allTokens]
          rw [hTokens] at hDeclaration ⊢
          obtain ⟨_, _, _, hRead⟩ := readMember_of_braces hHeader hOpening
            (hConstants.balanced_of_nest rfl) hClosing hDeclaration
          rw [if_pos rfl, readEnumBody_constants hConstants] at hRead
          exact ⟨_, hRead, rfl, hMembers⟩
      | @semicolon opening semicolon constants _ hOpening hConstants hSemicolon =>
          have hTokens : (Stretch.type .enumDecl header (opening :: (constants ++ [semicolon])) members
              closing).tokens =
                header ++ (opening :: (constants ++ semicolon :: allTokens members) ++ [closing]) := by
            simp [tokens]
          have hAll : Balanced (terminals (constants ++ semicolon :: allTokens members)) := by
            have hOther : semicolon.terminal.isBracket = false := by rw [hSemicolon]; rfl
            rw [terminals_append]
            exact (hConstants.balanced_of_nest rfl).append (.other hOther hInner)
          rw [hTokens] at hDeclaration ⊢
          obtain ⟨_, _, _, hRead⟩ :=
            readMember_of_braces hHeader hOpening hAll hClosing hDeclaration
          rw [if_pos rfl, readEnumBody_outline hConstants hSemicolon hInner] at hRead
          exact ⟨_, hRead, rfl, hMembers⟩
  | passed hPlain hPassed hTokens =>
      obtain ⟨d, rfl⟩ := Derivation.exists_of_yields hTokens
      exact d.readMember_nothing hPlain hPassed hMember
  | @semicolon token hToken =>
      have hWhole : IsMember ([] ++ [token]) := hMember
      have hItems : memberItems [token] = outline [] := hWhole.items_of_semicolon .nil hToken
      show readMember (memberItems [token]) = .nothing
      rw [hItems]
      rfl

end Stretch

/-! ## Sources -/

namespace Layout.IsValid

variable {layout : Layout}

/-- What stands in front of the parts declares no types. -/
private theorem exists_front (h : layout.IsValid) : ∃ parts : List (List Token),
    layout.front = parts.flatten ∧ ∀ part ∈ parts, IsMember part ∧
      (readMember (memberItems part)).declaration? = none := by
  obtain ⟨package, imports, hFront, hPackage, hImports⟩ := sequence_iff.mp h.front
  obtain ⟨importParts, rfl, eachImport⟩ := many_iff.mp hImports
  have hEach : ∀ part ∈ importParts, IsMember part ∧
      (readMember (memberItems part)).declaration? = none := by
    intro part mem
    have hMember := isMember_of_yields_importDeclaration (eachImport part mem)
    obtain ⟨d, rfl⟩ := Derivation.exists_of_yields (eachImport part mem)
    obtain ⟨imported, _, hRead⟩ := d.readMember_import
    exact ⟨hMember, by rw [hRead]; rfl⟩
  rcases optional_iff.mp hPackage with rfl | hPackage
  · exact ⟨importParts, hFront, hEach⟩
  · have hMember := isMember_of_yields_packageDeclaration hPackage
    obtain ⟨d, rfl⟩ := Derivation.exists_of_yields hPackage
    obtain ⟨name, _, hRead⟩ := d.readMember_package
    refine ⟨d.tokens :: importParts, by rw [hFront, List.flatten_cons],
      List.forall_mem_cons.mpr ⟨⟨hMember, by rw [hRead]; rfl⟩, hEach⟩⟩

/-- **The types of a source mirror its layout**, whichever layout that is. -/
theorem declares (h : layout.IsValid) :
    Declares ReadsFields layout.parts [] (readSource layout.tokens).types := by
  obtain ⟨parts, hFront, hParts⟩ := h.exists_front
  have hAll : ∀ part ∈ parts ++ layout.parts.map Stretch.tokens, IsMember part := by
    intro part mem
    rcases List.mem_append.mp mem with mem | mem
    · exact (hParts part mem).1
    · obtain ⟨stretch, hStretch, rfl⟩ := List.mem_map.mp mem
      exact isMember_of_yields_typeDeclaration (h.parts stretch hStretch).yields
  have hNoTypes : parts.filterMap (Member.declaration? ∘ readMember ∘ memberItems) = [] :=
    List.filterMap_eq_nil_iff.mpr fun part mem => (hParts part mem).2
  have hTypes : (readSource layout.tokens).types = layout.parts.filterMap fun stretch =>
      (readMember (memberItems stretch.tokens)).declaration? := by
    rw [Layout.tokens, hFront, Stretch.allTokens_eq, ← List.flatten_append, readSource,
      splitMembers_outline hAll, List.map_map, List.map_append, List.map_map]
    show List.filterMap Member.declaration? _ = _
    rw [List.filterMap_append, List.filterMap_map, List.filterMap_map, hNoTypes]
    rfl
  have hReads : ∀ stretch ∈ layout.parts,
      stretch.ReadsAs (readMember (memberItems stretch.tokens)) :=
    fun stretch mem => (h.parts stretch mem).fits.readsAs
  have hFields : (layout.parts.flatMap fun stretch =>
      (readMember (memberItems stretch.tokens)).declaredFields) = [] := by
    refine List.flatMap_eq_nil_iff.mpr fun stretch mem => ?_
    have hRead := hReads stretch mem
    cases h.parts stretch mem with
    | type =>
        obtain ⟨declaration, hType, _⟩ := hRead
        rw [hType]
        rfl
    | record | semicolon =>
        rw [show readMember _ = .nothing from hRead]
        rfl
  have hAllReads := declares_of_reads hReads
  rwa [hFields, ← hTypes] at hAllReads

/-- **A text with the tokens of a layout is a source**, whose types mirror the layout. -/
theorem parse_eq (h : layout.IsValid) {source : List Char}
    (hTokens : tokenize source = (layout.tokens, none)) :
    ∃ file, parse source = .ok file ∧ Declares ReadsFields layout.parts [] file.types := by
  refine ⟨_, ?_, h.declares⟩
  rw [parse_eq_ok_iff, hTokens]
  exact ⟨rfl, h.isSentence, rfl⟩

end Layout.IsValid

/-- A token of a text of one line, with no comment in front of it. -/
def Token.inLine (terminal : Terminal) (text : String) (offset : Nat) : Token :=
  ⟨terminal, text, ⟨offset, 1, offset + 1⟩, none⟩

end ClassSchema.Java
