import ClassSchema.Proofs.Java.Rendering

/-!
# Written declarations are sentences

Every list of canonical tokens has a derivation: of a name, a type, a field, a
declared type, and of a source.  Doc comments play no part in it, since the grammar
looks at terminals only.

## Main results

* `TypeDecl.IsWritable.yields`: the tokens of a declared type are a declaration of
  its kind.
* `SourceFile.IsWritable.isSentence`: the tokens of a source are a sentence.
-/

namespace ClassSchema.Java

open ClassSchema.Java.Expr Expr.Yields

/-! ## Putting derivations together -/

namespace Expr.Yields

/-- Parts with separators between them; `tail` belongs to the last part. -/
theorem of_listed_append {separator : Terminal} {part : Expr} {first : List Token}
    {rest : List (List Token)} {tail : List Token} (h : ∀ one ∈ first :: rest, part.Yields one)
    (hTail : ∀ one ∈ first :: rest, part.Yields (one ++ tail)) :
    (separatedBy (terminal separator) part).Yields (listed separator (first :: rest) ++ tail) := by
  induction rest generalizing first with
  | nil =>
      have hFirst := of_sequence (hTail first List.mem_cons_self)
        (many_nil (sequence (terminal separator) part))
      simp only [listed, List.flatMap_nil, List.append_nil] at hFirst ⊢
      exact hFirst
  | cons second rest ih =>
      obtain ⟨front, back, hShape, hFront, hBack⟩ := sequence_iff.mp
        (ih (List.forall_mem_cons.mp h).2 (List.forall_mem_cons.mp hTail).2)
      have hMore := many_cons (of_cons (rfl : separator.token.terminal = separator) hFront) hBack
      have hAll := of_sequence (h first List.mem_cons_self) hMore
      have hTokens : listed separator (first :: second :: rest) ++ tail =
          first ++ (separator.token :: front ++ back) := by
        rw [List.cons_append, ← hShape]
        simp [listed]
      rw [hTokens]
      exact hAll

theorem of_listed {separator : Terminal} {part : Expr} {first : List Token}
    {rest : List (List Token)} (h : ∀ one ∈ first :: rest, part.Yields one) :
    (separatedBy (terminal separator) part).Yields (listed separator (first :: rest)) := by
  have hAll := @of_listed_append separator part first rest [] h
    (fun one mem => by rw [List.append_nil]; exact h one mem)
  rw [List.append_nil] at hAll
  exact hAll

end Expr.Yields

/-! ## Names and types -/

/-- A name has a first segment. -/
theorem exists_segments (name : String) : ∃ first rest, Dotted.segments name = first :: rest := by
  cases hSegments : Dotted.segments name with
  | nil =>
      have hSplit := List.map_eq_nil_iff.mp hSegments
      exact absurd hSplit (Separated.split_ne_nil '.' name.toList)
  | cons first rest => exact ⟨first, rest, rfl⟩

theorem yields_dottedTokens (name : String) :
    (rule .qualifiedName).Yields (dottedTokens name) := by
  obtain ⟨first, rest, hSegments⟩ := exists_segments name
  rw [rule_iff, dottedTokens, hSegments]
  apply of_listed
  show ∀ one ∈ (first :: rest).map fun segment => [nameToken segment], _
  rw [List.forall_mem_map]
  intro segment _
  exact of_terminal rfl

/-- The segments of a name, the last of which has arguments. -/
private theorem yields_classType (name : String) {arguments : List Token}
    (h : (optional (rule .typeArguments)).Yields arguments) :
    (rule .classType).Yields (dottedTokens name ++ arguments) := by
  obtain ⟨first, rest, hSegments⟩ := exists_segments name
  have hSegment : ∀ {arguments : List Token}, (optional (rule .typeArguments)).Yields arguments →
      ∀ one ∈ (first :: rest).map fun segment => [nameToken segment],
        (rule .typeSegment).Yields (one ++ arguments) := by
    intro arguments hArguments
    rw [List.forall_mem_map]
    intro segment _
    exact rule_iff.mpr (of_nothing (of_cons rfl hArguments))
  rw [rule_iff, dottedTokens, hSegments]
  apply of_listed_append _ (hSegment h)
  intro one mem
  have hPlain := hSegment (optional_iff.mpr (.inl rfl)) one mem
  rw [List.append_nil] at hPlain
  exact hPlain

private theorem yields_dimensionTokens (dimensions : Nat) :
    (optional (Expr.some (rule .dimension))).Yields (dimensionTokens dimensions) := by
  have hOne : (rule .dimension).Yields [Terminal.leftBracket.token, Terminal.rightBracket.token] :=
    rule_iff.mpr (of_nothing (of_cons rfl (of_terminal rfl)))
  rw [optional_iff]
  cases dimensions with
  | zero => exact .inl rfl
  | succ dimensions =>
      right
      apply of_sequence hOne
      apply many_flatten
      intro one mem
      rw [List.eq_of_mem_replicate mem]
      exact hOne

private theorem yields_angled {r part : Rule}
    (hRule : r.body = chain [terminal .lessThan, separatedBy (terminal .comma) (rule part)]
      (terminal .moreThan) ∨
      r.body = chain [terminal .lessThan, optional (separatedBy (terminal .comma) (rule part))]
        (terminal .moreThan))
    {parts : List (List Token)} (h : ∀ one ∈ parts, (rule part).Yields one) :
    (optional (rule r)).Yields (angled parts) := by
  rw [optional_iff]
  cases parts with
  | nil => exact .inl rfl
  | cons first rest =>
      right
      have hList := @of_listed .comma _ _ _ h
      have hClosing : (terminal .moreThan).Yields [Terminal.moreThan.token] := of_terminal rfl
      rw [rule_iff]
      rcases hRule with hBody | hBody
      · rw [hBody]
        exact of_cons rfl (of_sequence hList hClosing)
      · rw [hBody]
        exact of_cons rfl (of_sequence (optional_iff.mpr (.inr hList)) hClosing)

/-- **A written type is a type.** -/
theorem TypeName.IsWritable.yields {type : TypeName} (h : type.IsWritable) :
    (rule .type).Yields type.tokens := by
  induction h with
  | @intro name arguments dimensions _ _ ih =>
      have hArguments : (optional (rule .typeArguments)).Yields
          (angled (arguments.map TypeName.tokens)) := by
        apply @yields_angled .typeArguments .typeArgument (.inr rfl)
        rw [List.forall_mem_map]
        intro argument mem
        exact rule_iff.mpr (choice_iff.mpr (.inl (ih argument mem)))
      rw [tokens, tokensOfEach_eq, ← List.append_assoc]
      exact rule_iff.mpr
        (of_sequence (yields_classType name hArguments) (yields_dimensionTokens dimensions))

/-! ## Fields -/

theorem yields_modifiers (modifiers : List String) :
    (rule .modifiers).Yields (modifiers.map modifierToken) := by
  rw [rule_iff]
  induction modifiers with
  | nil => exact many_nil _
  | cons modifier modifiers ih =>
      apply @many_cons _ [modifierToken modifier] _ _ ih
      unfold modifierToken
      by_cases hStatic : modifier = "static"
      · rw [if_pos hStatic]
        exact choice_iff.mpr (.inr (choice_iff.mpr (.inr (of_terminal rfl))))
      · rw [if_neg hStatic]
        exact choice_iff.mpr (.inr (choice_iff.mpr (.inl (of_terminal rfl))))

theorem terminals_withDoc (doc : Option String) (tokens : List Token) :
    terminals (withDoc doc tokens) = terminals tokens := by
  cases tokens <;> rfl

theorem FieldDecl.IsWritable.yields {field : FieldDecl} (h : field.IsWritable) :
    (rule .member).Yields field.tokens := by
  have hName : (separatedBy (terminal .comma) (rule .declarator)).Yields
      [nameToken field.name] := by
    have hDeclarator : (rule .declarator).Yields [nameToken field.name] :=
      rule_iff.mpr (of_cons rfl (of_absent (optional_iff.mpr (.inl rfl))))
    exact of_sequence hDeclarator (many_nil _)
  have hEnd : (terminal .semicolon).Yields [Terminal.semicolon.token] := of_terminal rfl
  have hAll : (rule .fieldDeclaration).Yields
      (field.modifiers.map modifierToken ++
        (field.type.tokens ++ ([nameToken field.name] ++ [Terminal.semicolon.token]))) :=
    rule_iff.mpr
      (of_sequence (yields_modifiers _) (of_sequence h.type.yields (of_sequence hName hEnd)))
  have hSame : terminals field.tokens = terminals (field.modifiers.map modifierToken ++
        (field.type.tokens ++ ([nameToken field.name] ++ [Terminal.semicolon.token]))) := by
    rw [tokens, headTokens, terminals_append, terminals_withDoc, ← terminals_append]
    simp
  rw [rule_iff]
  apply choice_iff.mpr
  left
  unfold Expr.Yields at hAll ⊢
  rw [hSame]
  exact hAll

/-! ## Declared types -/

theorem yields_header {kind : DeclKind} {typeParams : List String} (name : String)
    (modifiers : List String) (h : kind = .enumDecl → typeParams = []) :
    kind.header.Yields (headerTokens kind name typeParams modifiers) := by
  have hParams : (optional (rule .typeParameters)).Yields
      (angled (typeParams.map fun param => [nameToken param])) := by
    apply @yields_angled .typeParameters .typeParameter (.inl rfl)
    rw [List.forall_mem_map]
    intro param _
    exact rule_iff.mpr (of_nothing (of_cons rfl (optional_iff.mpr (.inl rfl))))
  have hHeaders := many_nil (rule .classHeader)
  have hParamsOnly := of_sequence hParams hHeaders
  rw [List.append_nil] at hParamsOnly
  have hModifiers := yields_modifiers modifiers
  cases kind with
  | classDecl => exact of_sequence hModifiers (of_cons rfl (of_cons rfl hParamsOnly))
  | interfaceDecl =>
      exact of_sequence hModifiers (of_absent (of_cons rfl (of_cons rfl hParamsOnly)))
  | enumDecl =>
      rw [h rfl]
      exact of_sequence hModifiers (of_cons rfl (of_cons rfl hHeaders))

theorem yields_constantTokens (constants : List String) :
    (optional (rule .enumConstants)).Yields (constantTokens constants) := by
  rw [optional_iff]
  cases constants with
  | nil => exact .inl rfl
  | cons first rest =>
      right
      have hEach : ∀ one ∈ (first :: rest).map fun constant => [nameToken constant],
          (rule .enumConstant).Yields one := by
        rw [List.forall_mem_map]
        intro constant _
        exact rule_iff.mpr
          (of_nothing (of_cons rfl (of_absent (optional_iff.mpr (.inl rfl)))))
      have hAll := of_sequence (@of_listed .comma _ _ _ hEach)
        (optional_iff.mpr (.inl rfl) : (optional (terminal .comma)).Yields [])
      rw [List.append_nil] at hAll
      exact rule_iff.mpr hAll

theorem yields_body {kind : DeclKind} (constants : List String) {members : List (List Token)}
    (h : ∀ member ∈ members, (rule .member).Yields member) :
    (rule kind.body).Yields (Terminal.leftBrace.token ::
      contentTokens kind constants members ++ [Terminal.rightBrace.token]) := by
  have hMembers := many_flatten h
  have hClosing : (terminal .rightBrace).Yields [Terminal.rightBrace.token] := of_terminal rfl
  cases kind with
  | classDecl => exact rule_iff.mpr (of_cons rfl (of_sequence hMembers hClosing))
  | interfaceDecl => exact rule_iff.mpr (of_cons rfl (of_sequence hMembers hClosing))
  | enumDecl =>
      have hMore : (optional (rule .enumMembers)).Yields
          (Terminal.semicolon.token :: members.flatten) :=
        optional_iff.mpr (.inr (rule_iff.mpr (of_cons rfl hMembers)))
      have hAll := of_cons (rfl : Terminal.leftBrace.token.terminal = .leftBrace)
        (of_sequence (yields_constantTokens constants) (of_sequence hMore hClosing))
      rw [← List.append_assoc] at hAll
      exact rule_iff.mpr hAll

/-- A declaration is a member of a body. -/
theorem yields_member_of_declaration {kind : DeclKind} {tokens : List Token}
    (h : (rule kind.declaration).Yields tokens) : (rule .member).Yields tokens := by
  rw [rule_iff]
  show (oneOf [.rule .fieldDeclaration, .rule .methodDeclaration, .rule .initializer,
    .rule .compactConstructor, .rule .classDeclaration, .rule .interfaceDeclaration,
    .rule .enumDeclaration, .rule .recordDeclaration] (terminal .semicolon)).Yields tokens
  simp only [oneOf, choice_iff]
  cases kind with
  | classDecl => exact .inr (.inr (.inr (.inr (.inl h))))
  | interfaceDecl => exact .inr (.inr (.inr (.inr (.inr (.inl h)))))
  | enumDecl => exact .inr (.inr (.inr (.inr (.inr (.inr (.inl h))))))

/-- The members of the body of a declared type. -/
def TypeDecl.members (decl : TypeDecl) : List (List Token) :=
  decl.fields.map FieldDecl.tokens ++ decl.types.map TypeDecl.tokens

/-- The header and the content of a declared type. -/
theorem TypeDecl.tokens_eq (decl : TypeDecl) :
    decl.tokens = headerTokens decl.kind decl.name decl.typeParams decl.modifiers ++
      (Terminal.leftBrace.token :: contentTokens decl.kind decl.enumConstants decl.members ++
        [Terminal.rightBrace.token]) := by
  obtain ⟨kind, name, typeParams, modifiers, fields, enumConstants, types⟩ := decl
  rw [tokens, tokensOfEach_eq, members]

/-- **A written declaration is a declaration.** -/
theorem TypeDecl.IsWritable.yields {decl : TypeDecl} (h : decl.IsWritable) :
    (rule decl.kind.declaration).Yields decl.tokens := by
  induction h with
  | @intro decl hShaped _ ih =>
      rw [tokens_eq, DeclKind.yields_iff]
      refine ⟨_, _, rfl, yields_header _ _ hShaped.enum, yields_body _ ?_⟩
      intro member mem
      rcases List.mem_append.mp mem with mem | mem
      · obtain ⟨field, mem_field, rfl⟩ := List.mem_map.mp mem
        exact (hShaped.fields field mem_field).yields
      · obtain ⟨inner, mem_inner, rfl⟩ := List.mem_map.mp mem
        exact yields_member_of_declaration (ih inner mem_inner)

theorem TypeDecl.IsWritable.yields_members {decl : TypeDecl} (h : decl.IsWritable) :
    ∀ member ∈ decl.members, (rule .member).Yields member := by
  cases h with
  | intro hShaped hTypes =>
      intro member mem
      rcases List.mem_append.mp mem with mem | mem
      · obtain ⟨field, mem_field, rfl⟩ := List.mem_map.mp mem
        exact (hShaped.fields field mem_field).yields
      · obtain ⟨inner, mem_inner, rfl⟩ := List.mem_map.mp mem
        exact yields_member_of_declaration (hTypes inner mem_inner).yields

/-! ## Sources -/

theorem yields_packageTokens (name : String) :
    (optional (rule .packageDeclaration)).Yields (packageTokens name).flatten := by
  rw [optional_iff]
  unfold packageTokens
  by_cases hEmpty : name = ""
  · rw [if_pos hEmpty]
    exact .inl rfl
  · rw [if_neg hEmpty, List.flatten_singleton]
    right
    have hEnd : (terminal .semicolon).Yields [Terminal.semicolon.token] := of_terminal rfl
    have hAll := of_cons (rfl : Terminal.packageWord.token.terminal = .packageWord)
      (of_sequence (yields_dottedTokens name) hEnd)
    exact rule_iff.mpr (@of_sequence (rule .modifiers) _ [] _ (yields_modifiers []) hAll)

theorem yields_import (imported : Import) :
    (rule .importDeclaration).Yields imported.tokens := by
  have hStatic : (optional (terminal .staticWord)).Yields
      (if imported.isStatic then [Terminal.staticWord.token] else []) := by
    rw [optional_iff]
    cases imported.isStatic with
    | false => exact .inl rfl
    | true => exact .inr (of_terminal rfl)
  have hStar : (optional (sequence (terminal .dot) (terminal .star))).Yields
      (if imported.isWildcard then [Terminal.dot.token, Terminal.star.token] else []) := by
    rw [optional_iff]
    cases imported.isWildcard with
    | false => exact .inl rfl
    | true => exact .inr (of_cons rfl (of_terminal rfl))
  have hEnd : (terminal .semicolon).Yields [Terminal.semicolon.token] := of_terminal rfl
  have hAll := of_cons (rfl : Terminal.importWord.token.terminal = .importWord)
    (of_sequence hStatic (of_sequence (yields_dottedTokens imported.name)
      (of_sequence hStar hEnd)))
  have hShape : imported.tokens = Terminal.importWord.token ::
      ((if imported.isStatic then [Terminal.staticWord.token] else []) ++
        (dottedTokens imported.name ++
          ((if imported.isWildcard then [Terminal.dot.token, Terminal.star.token] else []) ++
            [Terminal.semicolon.token]))) := by
    simp only [Import.tokens, Import.headTokens, List.cons_append, List.append_assoc]
  rw [hShape]
  exact rule_iff.mpr hAll

/-- **A written source is a sentence.** -/
theorem SourceFile.IsWritable.isSentence {file : SourceFile} (h : file.IsWritable) :
    IsSentence (terminals file.tokens) := by
  have hImports : (many (rule .importDeclaration)).Yields
      (file.imports.map Import.tokens).flatten := by
    apply many_flatten
    rw [List.forall_mem_map]
    exact fun imported _ => yields_import imported
  have hTypes : (many (rule .typeDeclaration)).Yields
      (file.types.map TypeDecl.tokens).flatten := by
    apply many_flatten
    rw [List.forall_mem_map]
    exact fun decl mem => yields_typeDeclaration (h.types decl mem).yields
  have hAll : (rule .compilationUnit).Yields file.tokens := by
    rw [SourceFile.tokens, parts, List.flatten_append, List.flatten_append]
    exact rule_iff.mpr
      (of_sequence (yields_packageTokens file.package) (of_sequence hImports hTypes))
  exact hAll

end ClassSchema.Java
