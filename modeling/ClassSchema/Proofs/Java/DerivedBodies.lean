import ClassSchema.Proofs.Java.PlainMembers

/-!
# Bodies of a derivation

What a member means is what is read of its items, so a body means what is read of the
members in it.  Members hold bodies and bodies hold members; the induction is on the
number of tokens in a body.

## Main results

* `MembersSay.readClassBody`: a body is read as what the members in it say.
* `Derivation.memberSays_typeDeclaration`: declarations are read as what they mean.
-/

namespace ClassSchema.Java

/-! ## What members say -/

/-- Whether a value tells anything. -/
def Value.tells : Value → Bool
  | nothing => false
  | _ => true

/-- What a member says, as values. -/
def Member.values : Member → List Value
  | package name => [.package name]
  | importing imported => [.importing imported]
  | type declaration => [.declaration declaration]
  | fields declarations => [.fields declarations]
  | nothing => []

/-- The fields that a member declares. -/
def Member.declaredFields : Member → List FieldDecl
  | fields declarations => declarations
  | _ => []

/-- The type that a member declares. -/
def Member.declaration? : Member → Option TypeDecl
  | type declaration => some declaration
  | _ => none

theorem Member.filterMap_declaration? (member : Member) :
    member.values.filterMap Value.declaration? = member.declaration?.toList := by
  cases member <;> rfl

/-- What is picked of values that tell something is picked of all values. -/
theorem filterMap_tells {β : Type} {pick : Value → Option β}
    (h : pick .nothing = none) (values : List Value) :
    (values.filter Value.tells).filterMap pick = values.filterMap pick := by
  rw [List.filterMap_filter]
  congr 1
  funext value
  cases value with
  | nothing => exact h.symm
  | _ => rfl

private theorem bodyOfValues_filter (values : List Value) :
    bodyOfValues (values.filter Value.tells) = bodyOfValues values := by
  have hFields : (values.filter Value.tells).flatMap Value.declaredFields =
      values.flatMap Value.declaredFields := by
    induction values with
    | nil => rfl
    | cons value values ih =>
        cases value with
        | nothing => exact ih
        | _ => exact congrArg (_ ++ ·) ih
  rw [bodyOfValues, bodyOfValues, hFields, filterMap_tells rfl]

/-- What is picked of members is picked of what they say. -/
theorem filterMap_members {β : Type} (pick : Value → Option β)
    (pickMember : Member → Option β)
    (h : ∀ member, member.values.filterMap pick = (pickMember member).toList)
    (members : List Member) :
    (members.flatMap Member.values).filterMap pick = members.filterMap pickMember := by
  rw [List.filterMap_flatMap]
  induction members with
  | nil => rfl
  | cons member members ih =>
      rw [List.flatMap_cons, ih, h, List.filterMap_cons]
      cases pickMember member <;> rfl

private theorem bodyOfValues_members (members : List Member) :
    bodyOfValues (members.flatMap Member.values) = bodyOf members := by
  have hFields : ∀ member : Member,
      member.values.flatMap Value.declaredFields = member.declaredFields := by
    intro member
    cases member <;> simp [Member.values, Value.declaredFields, Member.declaredFields]
  calc bodyOfValues (members.flatMap Member.values)
      = ⟨members.flatMap fun member => member.values.flatMap Value.declaredFields, [],
          members.filterMap Member.declaration?⟩ := by
        rw [bodyOfValues, List.flatMap_assoc,
          filterMap_members _ _ Member.filterMap_declaration? members]
    _ = bodyOf members := by
        simp only [hFields]
        rfl

/-- What members say makes their body. -/
private theorem bodyOfValues_eq {values : List Value} {members : List Member}
    (h : values.filter Value.tells = members.flatMap Member.values) :
    bodyOfValues values = bodyOf members := by
  rw [← bodyOfValues_filter, h, bodyOfValues_members]

/-! ## Declarations of types -/

/-- A declared type with a body. -/
def declared (kind : DeclKind) (name : String) (typeParams modifiers : List String) (body : Body) :
    TypeDecl where
  kind
  name
  typeParams
  modifiers
  fields := body.fields
  enumConstants := body.enumConstants
  types := body.types

private theorem make_declaration (kind : DeclKind) {marks params headers : List Value}
    (hMarks : ∀ value ∈ marks, value.isModifier = true) {word name : Token}
    (hWord : word.terminal.declares.isSome = true) (hName : name.terminal = .identifier)
    {names : List String} (hParams : params = [.names names] ∨ params = [] ∧ names = [])
    (hHeaders : ∀ value ∈ headers, value = .nothing) (body : Body) :
    declarationOfValues kind (marks ++ ([.token word] ++ ([.token name] ++ (params ++
      (headers ++ [.body body]))))) =
        some (declared kind name.text names (marks.filterMap Value.modifier?) body) := by
  have hNoText := @Value.not_picked_of_isModifier _ (Value.text? .identifier) rfl
    (fun token hToken => by rcases hToken with hToken | hToken <;> simp [Value.text?, hToken])
    _ hMarks
  have hNoBody := @Value.not_picked_of_isModifier _ Value.body? rfl (fun _ _ => rfl) _ hMarks
  have hNoNames := @Value.not_picked_of_isModifier _ Value.names? rfl (fun _ _ => rfl) _ hMarks
  obtain ⟨hNoName, hNoModifier⟩ : word.terminal ≠ .identifier ∧
      ¬ (word.terminal = .modifier ∨ word.terminal = .staticWord) := by
    cases hTerminal : word.terminal <;> rw [hTerminal] at hWord <;>
      first | decide | cases hWord
  generalize hValues : marks ++ ([.token word] ++ ([.token name] ++ (params ++
    (headers ++ [.body body])))) = values
  have hText : values.findSome? (Value.text? .identifier) = some name.text := by
    rw [← hValues, findSome?_append_of_none hNoText]
    simp [Value.text?, hNoName, hName]
  have hBody : values.findSome? Value.body? = some body := by
    rw [← hValues, findSome?_append_of_none hNoBody]
    show (params ++ (headers ++ [Value.body body])).findSome? Value.body? = some body
    rcases hParams with rfl | ⟨rfl, _⟩
    · exact findSome?_append_of_none (Value.not_picked rfl hHeaders) [Value.body body]
    · exact findSome?_append_of_none (Value.not_picked rfl hHeaders) [Value.body body]
  have hNames : (values.findSome? Value.names?).getD [] = names := by
    rw [← hValues, findSome?_append_of_none hNoNames]
    show ((params ++ (headers ++ [Value.body body])).findSome? Value.names?).getD [] = names
    rcases hParams with rfl | ⟨rfl, rfl⟩
    · rfl
    · exact congrArg (·.getD []) (findSome?_append_of_none
        (@Value.not_picked _ Value.names? rfl _ hHeaders) [Value.body body])
  have hModifiers : values.filterMap Value.modifier? = marks.filterMap Value.modifier? := by
    have hWordValues : [Value.token word].filterMap Value.modifier? = [] := by
      simp [Value.modifier?, hNoModifier]
    have hNameValues : [Value.token name].filterMap Value.modifier? = [] := by
      simp [Value.modifier?, hName]
    have hParamValues : params.filterMap Value.modifier? = [] := by
      rcases hParams with rfl | ⟨rfl, _⟩ <;> rfl
    have hHeaderValues : headers.filterMap Value.modifier? = [] :=
      List.filterMap_eq_nil_iff.mpr (Value.not_picked rfl hHeaders)
    rw [← hValues]
    simp only [List.filterMap_append, hWordValues, hNameValues, hParamValues, hHeaderValues]
    exact List.append_nil _
  rw [declarationOfValues, hText, hBody, hNames, hModifiers]
  rfl

/-- Between the name of a type and its body there are type parameters and other types. -/
private theorem readTypeDecl_items (kind : DeclKind) (modifiers : List String) (name : Token)
    {items : List Node} (hItems : ∀ item ∈ items, item.isQuiet = true) (asClass asEnum : Body) :
    readTypeDecl kind modifiers (.word name :: (items ++ [.braces asClass asEnum])) =
      .type (declared kind name.text
        (if kind = .enumDecl then [] else readTypeParams (items ++ [.braces asClass asEnum]))
        modifiers (if kind = .enumDecl then asEnum else asClass)) := by
  have hBody : readBody (kind = .enumDecl) (items ++ [.braces asClass asEnum]) =
      if kind = .enumDecl then asEnum else asClass := by
    rw [readBody, findSome?_append_of_none]
    · simp
    · intro item mem
      have hItem := hItems item mem
      cases item <;> first | rfl | cases hItem
  simp only [readTypeDecl, hBody]
  rfl

/-- The keyword of a declaration says what is declared. -/
private theorem readMember_of_keyword {nodes rest : List Node} {modifiers : List String}
    {word : Token} (h : readModifiers nodes = (modifiers, .word word :: rest)) {kind : DeclKind}
    (hKind : word.terminal.declares = some kind) :
    readMember nodes =
      readTypeDecl kind modifiers (if word.terminal = .atSign then rest.drop 1 else rest) := by
  unfold readMember
  simp only [h]
  cases hTerminal : word.terminal <;> rw [hTerminal] at hKind <;> cases hKind <;> simp

namespace Derivation

/-- What a type extends and implements is passed over. -/
private theorem values_headers (d : Derivation (.many (.rule .classHeader))) :
    ∃ values, d.values = some values ∧ (∀ value ∈ values, value = .nothing) ∧
      ∀ after, EndsName after → EndsName (d.nodes ++ after) := by
  induction d using many_induction with
  | none => exact ⟨[], rfl, by simp, fun _ hAfter => hAfter⟩
  | more one others ih =>
      obtain ⟨values, hValues, nothing, hEnds⟩ := ih
      have hOne : one.values = some [.nothing] := one.values_of_isPassed rfl
      refine ⟨.nothing :: values, values_more hOne hValues, by simpa using nothing,
        fun after hAfter => ?_⟩
      obtain ⟨body, rfl⟩ := one.exists_rule
      obtain ⟨wordPart, types, rfl⟩ := exists_sequence body
      obtain ⟨word, hWord, hNodes⟩ : ∃ word : Token, word.terminal ≠ .lessThan ∧
          wordPart.nodes = [.word word] := by
        rcases choice_cases wordPart with ⟨part, rfl⟩ | ⟨wordPart, rfl⟩
        · obtain ⟨word, hWord, rfl⟩ := exists_terminal part
          exact ⟨word, by rw [hWord]; decide, rfl⟩
        rcases choice_cases wordPart with ⟨part, rfl⟩ | ⟨part, rfl⟩
        · obtain ⟨word, hWord, rfl⟩ := exists_terminal part
          exact ⟨word, by rw [hWord]; decide, rfl⟩
        · obtain ⟨word, hWord, rfl⟩ := exists_terminal part
          exact ⟨word, by rw [hWord]; decide, rfl⟩
      show EndsName (wordPart.nodes ++ types.nodes ++ others.nodes ++ after)
      rw [hNodes]
      exact .word hWord _

end Derivation

/-! ## Constants of enums -/

/-- A group puts no comma. -/
private theorem behind_group_of_optional {r : Rule} {b : Bracket} (hWraps : r.wraps = some b)
    {tokens : List Token} (h : (Expr.optional (.rule r)).Yields tokens) {level : List Node}
    (hLevel : ∀ node ∈ level, node.isWord .comma = false) :
    ∀ node ∈ behind level tokens, node.isWord .comma = false := by
  rcases Expr.Yields.optional_iff.mp h with rfl | hGroup
  · rw [behind_nil]
    exact hLevel
  · obtain ⟨opening, inner, closing, rfl, hOpening, hInner, hClosing⟩ :=
      Rule.yields_of_wraps hWraps hGroup
    rw [behind_wrap hOpening hInner hClosing]
    exact @pushGroup_forall (fun node => node.isWord .comma = false) b _ (fun _ _ => rfl) rfl
      (fun _ _ => rfl) level hLevel

namespace Derivation

/-- A constant is read by its name; no comma stands between its items. -/
private theorem values_enumConstant (d : Derivation (.rule .enumConstant)) :
    ∃ name, d.values = some [.name name] ∧ readConstant (outline d.tokens) = some name ∧
      ∀ node ∈ outline d.tokens, node.isWord .comma = false := by
  obtain ⟨body, rfl⟩ := d.exists_rule
  obtain ⟨uses, behindUses, rfl⟩ := exists_sequence body
  obtain ⟨namePart, behindName, rfl⟩ := exists_sequence behindUses
  obtain ⟨name, hName, rfl⟩ := exists_terminal namePart
  obtain ⟨group, content, rfl⟩ := exists_sequence behindName
  obtain ⟨values, hValues, nothing, hUses⟩ := uses.values_annotations
  obtain ⟨groupValues, hGroup, _⟩ := group.exists_values
  obtain ⟨contentValues, hContent, _⟩ := content.exists_values
  have hText := @Value.not_picked _ (Value.text? .identifier) rfl _ nothing
  let header : Derivation (.sequence (.many (.rule .annotationUse)) (.terminal .identifier)) :=
    sequence uses (terminal name hName)
  have hBalanced : Balanced (terminals group.tokens) := group.yields.balanced_of_nest rfl
  have hRest : Balanced (terminals (group.tokens ++ content.tokens)) := by
    rw [terminals_append]
    exact hBalanced.append (content.yields.balanced_of_nest rfl)
  have hOutline : outline (uses.tokens ++ ([name] ++ (group.tokens ++ content.tokens))) =
      uses.nodes ++ .word name :: outline (group.tokens ++ content.tokens) := by
    have hAll := header.outline_append rfl hRest
    simp only [header, tokens, nodes, List.append_assoc] at hAll
    exact hAll
  refine ⟨name.text, ?_, ?_, ?_⟩
  · refine values_rule (values_sequence hValues (values_sequence (values_kept hName rfl)
      (values_sequence hGroup hContent))) ?_
    rw [Rule.make, findSome?_append_of_none hText]
    simp [Value.text?, hName]
  · show readConstant (outline (uses.tokens ++ ([name] ++ (group.tokens ++ content.tokens)))) = _
    rw [hOutline, readConstant, dropAnnotations_append hUses]
    rfl
  · show ∀ node ∈ outline (uses.tokens ++ ([name] ++ (group.tokens ++ content.tokens))), _
    rw [hOutline]
    intro node mem
    simp only [List.mem_append, List.mem_cons] at mem
    rcases mem with mem | rfl | mem
    · have hUse := hUses node mem
      cases node <;> first | rfl | cases hUse
    · simp [Node.isWord, hName]
    · rw [outline_eq_reverse, List.mem_reverse, behind_append hBalanced] at mem
      refine behind_group_of_optional (r := .classBody) rfl content.yields ?_ node mem
      exact behind_group_of_optional (r := .parenGroup) rfl group.yields (by simp)

private theorem values_constantList
    (others : Derivation (.many (.sequence (.terminal .comma) (.rule .enumConstant))))
    (first : Derivation (.rule .enumConstant)) :
    ∃ name names, first.values = some [.name name] ∧ others.values = some (names.map .name) ∧
      (splitCommas (outline (first.tokens ++ others.tokens))).filterMap readConstant =
        name :: names := by
  induction others using many_induction generalizing first with
  | none =>
      obtain ⟨name, hValues, hRead, hComma⟩ := first.values_enumConstant
      refine ⟨name, [], hValues, rfl, ?_⟩
      rw [tokens, List.append_nil, splitCommas_singleton hComma, List.filterMap_cons, hRead]
      rfl
  | more one others ih =>
      obtain ⟨commaPart, second, rfl⟩ := one.exists_sequence
      obtain ⟨comma, hComma, rfl⟩ := commaPart.exists_terminal
      obtain ⟨name, hValues, hRead, hNoComma⟩ := first.values_enumConstant
      obtain ⟨next, names, hNext, hOthers, hNames⟩ := ih second
      refine ⟨name, next :: names, hValues,
        values_more (values_sequence (values_dropped hComma rfl) hNext) hOthers, ?_⟩
      have hBack : Balanced (terminals (second.tokens ++ others.tokens)) :=
        (sequence second others).yields.balanced_of_nest rfl
      have hShape : first.tokens ++ (more (sequence (terminal comma hComma) second) others).tokens =
          first.tokens ++ comma :: (second.tokens ++ others.tokens) := by
        simp
      rw [hShape, outline_separator (by rw [hComma]; rfl) (first.yields.balanced_of_nest rfl) hBack,
        splitCommas_append _ (by simp [Node.isWord, hComma]), splitCommas_singleton hNoComma,
        List.singleton_append, List.filterMap_cons, hRead, hNames]

/-- **Constants are read by their names.** -/
private theorem values_enumConstants (d : Derivation (.optional (.rule .enumConstants))) :
    ∃ names, (d.values = some [.names names] ∨ d.values = some [] ∧ names = []) ∧
      (splitCommas (outline d.tokens)).filterMap readConstant = names := by
  rcases d.optional_cases with rfl | ⟨constants, rfl⟩
  · exact ⟨[], .inr ⟨rfl, rfl⟩, rfl⟩
  · obtain ⟨body, rfl⟩ := constants.exists_rule
    obtain ⟨list, last, rfl⟩ := exists_sequence body
    obtain ⟨first, others, rfl⟩ := exists_sequence list
    obtain ⟨name, names, hFirst, hOthers, hNames⟩ := values_constantList others first
    have hLast : last.values = some [] ∧
        (splitCommas (outline ((first.tokens ++ others.tokens) ++ last.tokens))).filterMap
          readConstant = name :: names := by
      rcases optional_cases last with rfl | ⟨commaPart, rfl⟩
      · refine ⟨rfl, ?_⟩
        rw [tokens, List.append_nil]
        exact hNames
      · obtain ⟨comma, hComma, rfl⟩ := commaPart.exists_terminal
        have hList : Balanced (terminals (first.tokens ++ others.tokens)) :=
          (sequence first others).yields.balanced_of_nest rfl
        refine ⟨values_dropped hComma rfl, ?_⟩
        show (splitCommas (outline ((first.tokens ++ others.tokens) ++ [comma]))).filterMap
          readConstant = _
        rw [@outline_separator _ [] comma (by rw [hComma]; rfl) hList .nil,
          splitCommas_append _ (by simp [Node.isWord, hComma]), List.filterMap_append, hNames]
        exact List.append_nil _
    refine ⟨name :: names, .inl ?_, hLast.2⟩
    refine values_present (values_rule (values_sequence (values_sequence hFirst hOthers)
      hLast.1) ?_)
    simp [List.filterMap_map, Function.comp_def, Value.name?]

/-! ## Bodies of types -/

/-- Bodies of fewer tokens are read as what their members mean. -/
private def BodiesBelow (bound : Nat) : Prop :=
  ∀ d : Derivation (.many (.rule .member)), d.tokens.length < bound → d.IsBest →
    AssignsItems d.tokens →
      ∃ values, d.values = some values ∧ bodyOfValues values = readClassBody (outline d.tokens)

private theorem values_classBody {bound : Nat} (hBelow : BodiesBelow bound)
    (d : Derivation (.rule .classBody)) (hLength : d.tokens.length ≤ bound) (hBest : d.IsBest)
    (hAssigns : AssignsItems d.tokens) :
    ∃ opening inner closing, d.tokens = opening :: inner ++ [closing] ∧
      opening.terminal = .leftBrace ∧ Balanced (terminals inner) ∧
      closing.terminal = .rightBrace ∧ d.values = some [.body (readClassBody (outline inner))] := by
  obtain ⟨body, rfl⟩ := d.exists_rule
  obtain ⟨openingPart, behindOpening, rfl⟩ := exists_sequence body
  obtain ⟨members, closingPart, rfl⟩ := exists_sequence behindOpening
  obtain ⟨opening, hOpening, rfl⟩ := exists_terminal openingPart
  obtain ⟨closing, hClosing, rfl⟩ := exists_terminal closingPart
  replace hLength : ([opening] ++ (members.tokens ++ [closing])).length ≤ bound := hLength
  replace hAssigns : AssignsItems ([opening] ++ (members.tokens ++ [closing])) := hAssigns
  simp only [List.length_append, List.length_singleton] at hLength
  obtain ⟨values, hValues, hBody⟩ := hBelow members (show members.tokens.length < bound by omega)
    hBest.of_rule.of_sequence.2.of_sequence.1 hAssigns.of_append.2.of_append.1
  refine ⟨opening, members.tokens, closing, rfl, hOpening, members.yields.balanced_of_nest rfl,
    hClosing, ?_⟩
  rw [← hBody]
  exact values_rule (values_sequence (values_dropped hOpening rfl) (values_sequence hValues
    (values_dropped hClosing rfl))) (by simp)

private theorem values_enumBody {bound : Nat} (hBelow : BodiesBelow bound)
    (d : Derivation (.rule .enumBody)) (hLength : d.tokens.length ≤ bound) (hBest : d.IsBest)
    (hAssigns : AssignsItems d.tokens) :
    ∃ opening inner closing, d.tokens = opening :: inner ++ [closing] ∧
      opening.terminal = .leftBrace ∧ Balanced (terminals inner) ∧
      closing.terminal = .rightBrace ∧ d.values = some [.body (readEnumBody (outline inner))] := by
  obtain ⟨body, rfl⟩ := d.exists_rule
  obtain ⟨openingPart, behindOpening, rfl⟩ := exists_sequence body
  obtain ⟨constants, behindConstants, rfl⟩ := exists_sequence behindOpening
  obtain ⟨members, closingPart, rfl⟩ := exists_sequence behindConstants
  obtain ⟨opening, hOpening, rfl⟩ := exists_terminal openingPart
  obtain ⟨closing, hClosing, rfl⟩ := exists_terminal closingPart
  replace hLength : ([opening] ++ (constants.tokens ++ (members.tokens ++ [closing]))).length ≤
    bound := hLength
  replace hAssigns : AssignsItems ([opening] ++ (constants.tokens ++ (members.tokens ++
    [closing]))) := hAssigns
  simp only [List.length_append, List.length_singleton] at hLength
  obtain ⟨names, hNames, hConstants⟩ := constants.values_enumConstants
  have hInner : Balanced (terminals (constants.tokens ++ members.tokens)) := by
    rw [terminals_append]
    exact (constants.yields.balanced_of_nest rfl).append (members.yields.balanced_of_nest rfl)
  obtain ⟨values, hValues, hNoNames, hBody⟩ : ∃ values, members.values = some values ∧
      values.findSome? Value.names? = Option.none ∧
      readEnumBody (outline (constants.tokens ++ members.tokens)) =
        { (values.findSome? Value.body?).getD .empty with enumConstants := names } := by
    rcases optional_cases members with rfl | ⟨some, rfl⟩
    · refine ⟨[], rfl, rfl, ?_⟩
      rw [tokens, List.append_nil, readEnumBody_constants constants.yields, hConstants]
      rfl
    · obtain ⟨inner, rfl⟩ := some.exists_rule
      obtain ⟨semicolonPart, list, rfl⟩ := exists_sequence inner
      obtain ⟨semicolon, hSemicolon, rfl⟩ := exists_terminal semicolonPart
      replace hLength : 1 + (constants.tokens.length + (([semicolon] ++ list.tokens).length + 1)) ≤
        bound := hLength
      replace hAssigns : AssignsItems ([opening] ++ (constants.tokens ++
        (([semicolon] ++ list.tokens) ++ [closing]))) := hAssigns
      simp only [List.length_append, List.length_singleton] at hLength
      obtain ⟨values, hValues, hBody⟩ := hBelow list (show list.tokens.length < bound by omega)
        hBest.of_rule.of_sequence.2.of_sequence.2.of_sequence.1.of_present.of_rule.of_sequence.2
        hAssigns.of_append.2.of_append.2.of_append.1.of_append.2
      refine ⟨[.body (bodyOfValues values)], ?_, rfl, ?_⟩
      · exact values_present (values_rule (values_sequence (values_dropped hSemicolon rfl) hValues)
          rfl)
      · show readEnumBody (outline (constants.tokens ++ semicolon :: list.tokens)) = _
        rw [readEnumBody_outline constants.yields hSemicolon (list.yields.balanced_of_nest rfl),
          hConstants, ← hBody]
        rfl
  refine ⟨opening, constants.tokens ++ members.tokens, closing, ?_, hOpening, hInner, hClosing, ?_⟩
  · show [opening] ++ (constants.tokens ++ (members.tokens ++ [closing])) = _
    simp
  · obtain ⟨constantValues, hConstantValues, hMake⟩ : ∃ constantValues,
        constants.values = some constantValues ∧
          (∀ others : List Value, (constantValues ++ others).findSome? Value.body? =
            others.findSome? Value.body?) ∧
          ((constantValues ++ values).findSome? Value.names?).getD [] = names := by
      rcases hNames with hNames | ⟨hNames, rfl⟩
      · exact ⟨_, hNames, fun _ => rfl, rfl⟩
      · exact ⟨_, hNames, fun _ => rfl, congrArg (·.getD []) hNoNames⟩
    refine values_rule (values_sequence (values_dropped hOpening rfl) (values_sequence
      hConstantValues (values_sequence hValues (values_dropped hClosing rfl)))) ?_
    rw [hBody, List.nil_append, List.append_nil, Rule.make, hMake.1, hMake.2]

/-- **Braces behind a header are read as what their content means.** -/
private theorem values_body {bound : Nat} (hBelow : BodiesBelow bound) (kind : DeclKind)
    (d : Derivation (.rule kind.body)) (hLength : d.tokens.length ≤ bound) (hBest : d.IsBest)
    (hAssigns : AssignsItems d.tokens) :
    ∃ opening inner closing, d.tokens = opening :: inner ++ [closing] ∧
      opening.terminal = .leftBrace ∧ Balanced (terminals inner) ∧
      closing.terminal = .rightBrace ∧
      d.values = some [.body (if kind = .enumDecl then readEnumBody (outline inner)
        else readClassBody (outline inner))] := by
  cases kind with
  | classDecl => exact values_classBody hBelow d hLength hBest hAssigns
  | interfaceDecl => exact values_classBody hBelow d hLength hBest hAssigns
  | enumDecl => exact values_enumBody hBelow d hLength hBest hAssigns

/-! ## Declarations -/

/-- Modifiers and a keyword. -/
private theorem readMember_keyword (modifiers : Derivation (.rule .modifiers)) :
    ∃ marks, modifiers.values = some marks ∧ (∀ value ∈ marks, value.isModifier = true) ∧
      ∀ (word : Token) (kind : DeclKind), word.terminal.declares = some kind → ∀ rest,
        readMember (modifiers.nodes ++ .word word :: rest) =
          readTypeDecl kind (marks.filterMap Value.modifier?)
            (if word.terminal = .atSign then rest.drop 1 else rest) := by
  obtain ⟨marks, hMarks, eachMark, hReadModifiers⟩ := modifiers.values_modifiers
  refine ⟨marks, hMarks, eachMark, fun word kind hKind rest => readMember_of_keyword ?_ hKind⟩
  have hWord : (Node.word word).isModifier = false := by
    cases hTerminal : word.terminal <;> rw [hTerminal] at hKind <;>
      first | cases hKind; done | simp [Node.isModifier, hTerminal]
  rw [hReadModifiers, readModifiers_word hWord, List.append_nil]

/-- A declaration as a header and a body, the header read: its outline has a name behind what
tells the kind and the modifiers, and the names of type parameters behind that. -/
structure Heads {kind : DeclKind} (d : Derivation (.rule kind.declaration)) where
  header : List Token
  content : Derivation (.rule kind.body)
  front : List Node
  name : Token
  items : List Node
  modifiers : List String
  typeParams : List String
  tokens_eq : d.tokens = header ++ content.tokens
  yields_header : kind.header.Yields header
  isBest : d.IsBest → content.IsBest
  outline_header : outline header = front ++ .word name :: items
  name_mem : name ∈ header
  name_eq : name.terminal = .identifier
  readMember_front : ∀ rest, readMember (front ++ rest) = readTypeDecl kind modifiers rest
  readTypeParams_items : kind ≠ .enumDecl → ∀ after, EndsName after →
    readTypeParams (items ++ after) = typeParams
  typeParams_enum : kind = .enumDecl → typeParams = []
  values_eq : ∀ body, content.values = some [.body body] →
    d.values = some [.declaration (declared kind name.text typeParams modifiers body)]

private theorem heads_class (d : Derivation (.rule .classDeclaration)) :
    Nonempty (@Heads .classDecl d) := by
  obtain ⟨body, rfl⟩ := d.exists_rule
  obtain ⟨modifiers, behindModifiers, rfl⟩ := exists_sequence body
  obtain ⟨wordPart, behindWord, rfl⟩ := exists_sequence behindModifiers
  obtain ⟨word, hWord, rfl⟩ := exists_terminal wordPart
  obtain ⟨namePart, behindName, rfl⟩ := exists_sequence behindWord
  obtain ⟨name, hName, rfl⟩ := exists_terminal namePart
  obtain ⟨params, behindParams, rfl⟩ := exists_sequence behindName
  obtain ⟨headers, content, rfl⟩ := exists_sequence behindParams
  obtain ⟨marks, hMarks, eachMark, hKeyword⟩ := modifiers.readMember_keyword
  obtain ⟨paramValues, names, hParamValues, hParams, hNames⟩ := params.values_typeParameters
  obtain ⟨passed, hHeaders, nothing, hEnds⟩ := headers.values_headers
  let header : Derivation DeclKind.classDecl.header := sequence modifiers
    (sequence (terminal word hWord) (sequence (terminal name hName) (sequence params headers)))
  refine ⟨{
    header := header.tokens
    content
    front := modifiers.nodes ++ [.word word]
    name
    items := params.nodes ++ headers.nodes
    modifiers := marks.filterMap Value.modifier?
    typeParams := names
    tokens_eq := ?_
    yields_header := header.yields
    isBest := fun h =>
      h.of_rule.of_sequence.2.of_sequence.2.of_sequence.2.of_sequence.2.of_sequence.2
    outline_header := ?_
    name_mem := by simp [header]
    name_eq := hName
    readMember_front := fun rest => ?_
    readTypeParams_items := fun _ after hAfter => ?_
    typeParams_enum := nofun
    values_eq := fun body hBody => ?_ }⟩
  · show modifiers.tokens ++ ([word] ++ ([name] ++ (params.tokens ++ (headers.tokens ++
      content.tokens)))) = modifiers.tokens ++ ([word] ++ ([name] ++ (params.tokens ++
        headers.tokens))) ++ content.tokens
    simp
  · rw [header.outline_tokens rfl]
    show modifiers.nodes ++ ([.word word] ++ ([.word name] ++ (params.nodes ++ headers.nodes))) = _
    simp
  · rw [List.append_assoc, List.singleton_append, hKeyword word .classDecl (by rw [hWord]; rfl),
      if_neg (by simp [hWord])]
  · rw [List.append_assoc]
    exact hNames _ (hEnds after hAfter)
  · refine values_rule (values_sequence hMarks (values_sequence (values_kept hWord rfl)
      (values_sequence (values_kept hName rfl) (values_sequence hParamValues (values_sequence
        hHeaders hBody))))) ?_
    rw [Rule.make, make_declaration .classDecl eachMark (by rw [hWord]; rfl) hName hParams nothing]
    rfl

private theorem heads_interface (d : Derivation (.rule .interfaceDeclaration)) :
    Nonempty (@Heads .interfaceDecl d) := by
  obtain ⟨body, rfl⟩ := d.exists_rule
  obtain ⟨modifiers, behindModifiers, rfl⟩ := exists_sequence body
  obtain ⟨sign, behindSign, rfl⟩ := exists_sequence behindModifiers
  obtain ⟨wordPart, behindWord, rfl⟩ := exists_sequence behindSign
  obtain ⟨word, hWord, rfl⟩ := exists_terminal wordPart
  obtain ⟨namePart, behindName, rfl⟩ := exists_sequence behindWord
  obtain ⟨name, hName, rfl⟩ := exists_terminal namePart
  obtain ⟨params, behindParams, rfl⟩ := exists_sequence behindName
  obtain ⟨headers, content, rfl⟩ := exists_sequence behindParams
  obtain ⟨marks, hMarks, eachMark, hKeyword⟩ := modifiers.readMember_keyword
  obtain ⟨paramValues, names, hParamValues, hParams, hNames⟩ := params.values_typeParameters
  obtain ⟨passed, hHeaders, nothing, hEnds⟩ := headers.values_headers
  -- With a sign in front, it is the sign that tells the kind.
  have hFront : sign.values = some [] ∧ ∀ rest,
      readMember ((modifiers.nodes ++ (sign.nodes ++ [.word word])) ++ rest) =
        readTypeDecl .interfaceDecl (marks.filterMap Value.modifier?) rest := by
    rcases sign.optional_cases with rfl | ⟨signPart, rfl⟩
    · refine ⟨rfl, fun rest => ?_⟩
      rw [nodes, List.nil_append, List.append_assoc, List.singleton_append,
        hKeyword word .interfaceDecl (by rw [hWord]; rfl), if_neg (by simp [hWord])]
    · obtain ⟨token, hToken, rfl⟩ := signPart.exists_terminal
      refine ⟨values_dropped hToken rfl, fun rest => ?_⟩
      rw [List.append_assoc]
      show readMember (modifiers.nodes ++ .word token :: .word word :: rest) = _
      rw [hKeyword token .interfaceDecl (by rw [hToken]; rfl), if_pos hToken]
      rfl
  let header : Derivation DeclKind.interfaceDecl.header := sequence modifiers (sequence sign
    (sequence (terminal word hWord) (sequence (terminal name hName) (sequence params headers))))
  refine ⟨{
    header := header.tokens
    content
    front := modifiers.nodes ++ (sign.nodes ++ [.word word])
    name
    items := params.nodes ++ headers.nodes
    modifiers := marks.filterMap Value.modifier?
    typeParams := names
    tokens_eq := ?_
    yields_header := header.yields
    isBest := fun h =>
      h.of_rule.of_sequence.2.of_sequence.2.of_sequence.2.of_sequence.2.of_sequence.2.of_sequence.2
    outline_header := ?_
    name_mem := by simp [header]
    name_eq := hName
    readMember_front := hFront.2
    readTypeParams_items := fun _ after hAfter => ?_
    typeParams_enum := nofun
    values_eq := fun body hBody => ?_ }⟩
  · show modifiers.tokens ++ (sign.tokens ++ ([word] ++ ([name] ++ (params.tokens ++
      (headers.tokens ++ content.tokens))))) = modifiers.tokens ++ (sign.tokens ++ ([word] ++
        ([name] ++ (params.tokens ++ headers.tokens)))) ++ content.tokens
    simp
  · rw [header.outline_tokens rfl]
    show modifiers.nodes ++ (sign.nodes ++ ([.word word] ++ ([.word name] ++ (params.nodes ++
      headers.nodes)))) = _
    simp
  · rw [List.append_assoc]
    exact hNames _ (hEnds after hAfter)
  · refine values_rule (values_sequence hMarks (values_sequence hFront.1 (values_sequence
      (values_kept hWord rfl) (values_sequence (values_kept hName rfl) (values_sequence
        hParamValues (values_sequence hHeaders hBody)))))) ?_
    rw [Rule.make, List.nil_append,
      make_declaration .interfaceDecl eachMark (by rw [hWord]; rfl) hName hParams nothing]
    rfl

private theorem heads_enum (d : Derivation (.rule .enumDeclaration)) :
    Nonempty (@Heads .enumDecl d) := by
  obtain ⟨body, rfl⟩ := d.exists_rule
  obtain ⟨modifiers, behindModifiers, rfl⟩ := exists_sequence body
  obtain ⟨wordPart, behindWord, rfl⟩ := exists_sequence behindModifiers
  obtain ⟨word, hWord, rfl⟩ := exists_terminal wordPart
  obtain ⟨namePart, behindName, rfl⟩ := exists_sequence behindWord
  obtain ⟨name, hName, rfl⟩ := exists_terminal namePart
  obtain ⟨headers, content, rfl⟩ := exists_sequence behindName
  obtain ⟨marks, hMarks, eachMark, hKeyword⟩ := modifiers.readMember_keyword
  obtain ⟨passed, hHeaders, nothing, _⟩ := headers.values_headers
  let header : Derivation DeclKind.enumDecl.header :=
    sequence modifiers (sequence (terminal word hWord) (sequence (terminal name hName) headers))
  refine ⟨{
    header := header.tokens
    content
    front := modifiers.nodes ++ [.word word]
    name
    items := headers.nodes
    modifiers := marks.filterMap Value.modifier?
    typeParams := []
    tokens_eq := ?_
    yields_header := header.yields
    isBest := fun h => h.of_rule.of_sequence.2.of_sequence.2.of_sequence.2.of_sequence.2
    outline_header := ?_
    name_mem := by simp [header]
    name_eq := hName
    readMember_front := fun rest => ?_
    readTypeParams_items := fun hKind => absurd rfl hKind
    typeParams_enum := fun _ => rfl
    values_eq := fun body hBody => ?_ }⟩
  · show modifiers.tokens ++ ([word] ++ ([name] ++ (headers.tokens ++ content.tokens))) =
      modifiers.tokens ++ ([word] ++ ([name] ++ headers.tokens)) ++ content.tokens
    simp
  · rw [header.outline_tokens rfl]
    show modifiers.nodes ++ ([.word word] ++ ([.word name] ++ headers.nodes)) = _
    simp
  · rw [List.append_assoc, List.singleton_append, hKeyword word .enumDecl (by rw [hWord]; rfl),
      if_neg (by simp [hWord])]
  · refine values_rule (values_sequence hMarks (values_sequence (values_kept hWord rfl)
      (values_sequence (values_kept hName rfl) (values_sequence hHeaders hBody)))) ?_
    have hMake := make_declaration .enumDecl eachMark (by rw [hWord]; rfl) hName
      (.inr ⟨rfl, rfl⟩) nothing body
    rw [Rule.make, ← List.nil_append (passed ++ _), hMake]
    rfl

/-- Every declaration has a header that can be read. -/
theorem exists_heads (kind : DeclKind) (d : Derivation (.rule kind.declaration)) :
    Nonempty d.Heads := by
  cases kind with
  | classDecl => exact heads_class d
  | interfaceDecl => exact heads_interface d
  | enumDecl => exact heads_enum d

/-- A declaration is read as what its header says, with what its braces are read as. -/
theorem Heads.readMember_eq {kind : DeclKind} {d : Derivation (.rule kind.declaration)}
    (heads : d.Heads) {opening closing : Token} {inner : List Token}
    (hContent : heads.content.tokens = opening :: inner ++ [closing])
    (hOpening : opening.terminal = .leftBrace) (hInner : Balanced (terminals inner))
    (hClosing : closing.terminal = .rightBrace) :
    readMember (memberItems d.tokens) =
      .type (declared kind heads.name.text heads.typeParams heads.modifiers
        (if kind = .enumDecl then readEnumBody (outline inner)
          else readClassBody (outline inner))) := by
  have hItems : ∀ item ∈ heads.items, item.isQuiet = true := by
    intro item mem
    exact (DeclKind.quiet_header heads.yields_header).outline_items.1 item
      (by simp [heads.outline_header, mem])
  have hEnds : ∀ asClass asEnum, EndsName [.braces asClass asEnum] := by
    intro asClass asEnum token rest hShape
    cases hShape
  have hNames : ∀ asClass asEnum, (if kind = .enumDecl then []
      else readTypeParams (heads.items ++ [.braces asClass asEnum])) = heads.typeParams := by
    intro asClass asEnum
    by_cases hEnum : kind = .enumDecl
    · rw [if_pos hEnum, heads.typeParams_enum hEnum]
    · rw [if_neg hEnum, heads.readTypeParams_items hEnum _ (hEnds asClass asEnum)]
  rw [heads.tokens_eq, hContent,
    memberItems_of_declaration heads.yields_header hOpening hInner hClosing,
    heads.outline_header, List.append_assoc, List.cons_append, heads.readMember_front,
    readTypeDecl_items kind heads.modifiers heads.name hItems, hNames]

/-- **A declaration is read as what it means**, if bodies inside of it are. -/
private theorem values_declaration {bound : Nat} (hBelow : BodiesBelow bound) {kind : DeclKind}
    (d : Derivation (.rule kind.declaration)) (hLength : d.tokens.length ≤ bound)
    (hBest : d.IsBest) (hAssigns : AssignsItems d.tokens) :
    ∃ declaration, d.values = some [.declaration declaration] ∧
      readMember (memberItems d.tokens) = .type declaration := by
  obtain ⟨heads⟩ := exists_heads kind d
  rw [heads.tokens_eq] at hLength hAssigns
  rw [List.length_append] at hLength
  obtain ⟨opening, inner, closing, hContent, hOpening, hInner, hClosing, hValues⟩ :=
    heads.content.values_body hBelow kind (by omega) (heads.isBest hBest) hAssigns.of_append.2
  exact ⟨_, heads.values_eq _ hValues, heads.readMember_eq hContent hOpening hInner hClosing⟩

end Derivation

/-! ## Members -/

/-- Tokens of one member that is read as what values say. -/
structure MemberSays (tokens : List Token) (values : List Value) : Prop where
  isMember : IsMember tokens
  read : values.filter Value.tells = (readMember (memberItems tokens)).values

/-- Tokens of members that are read as what values say. -/
structure MembersSay (tokens : List Token) (values : List Value) : Prop where
  parts : ∃ parts : List (List Token), tokens = parts.flatten ∧ (∀ part ∈ parts, IsMember part) ∧
    values.filter Value.tells =
      (parts.map fun part => readMember (memberItems part)).flatMap Member.values

namespace MembersSay

theorem nil : MembersSay [] [] := ⟨[], rfl, by simp, rfl⟩

theorem one {tokens : List Token} {values : List Value} (h : MemberSays tokens values) :
    MembersSay tokens values :=
  ⟨[tokens], by simp, by simpa using h.isMember, by simpa using h.read⟩

theorem append {front back : List Token} {values others : List Value}
    (hFront : MembersSay front values) (hBack : MembersSay back others) :
    MembersSay (front ++ back) (values ++ others) := by
  obtain ⟨parts, rfl, each, hSays⟩ := hFront
  obtain ⟨parts', rfl, each', hSays'⟩ := hBack
  refine ⟨parts ++ parts', by simp, ?_, ?_⟩
  · intro part mem
    rcases List.mem_append.mp mem with mem | mem
    · exact each part mem
    · exact each' part mem
  · rw [List.filter_append, hSays, hSays', List.map_append, List.flatMap_append]

/-- The body that members make is the one that is read. -/
theorem readClassBody {tokens : List Token} {values : List Value} (h : MembersSay tokens values) :
    bodyOfValues values = Java.readClassBody (outline tokens) := by
  obtain ⟨parts, rfl, each, hSays⟩ := h
  rw [readClassBody_outline each, bodyOfValues_eq hSays]

end MembersSay

namespace Derivation

/-- Repeated members of a best derivation. -/
theorem values_many {r : Rule} {bound : Nat}
    (each : ∀ one : Derivation (.rule r), one.tokens.length ≤ bound → one.IsBest →
      AssignsItems one.tokens → ∃ values, one.values = some values ∧ MemberSays one.tokens values)
    (d : Derivation (.many (.rule r))) (hLength : d.tokens.length ≤ bound) (hBest : d.IsBest)
    (hAssigns : AssignsItems d.tokens) :
    ∃ values, d.values = some values ∧ MembersSay d.tokens values := by
  induction d using many_induction with
  | none => exact ⟨[], rfl, .nil⟩
  | more one others ih =>
      rw [tokens, List.length_append] at hLength
      rw [tokens] at hAssigns
      obtain ⟨values, hValues, hOne⟩ := each one (by omega) hBest.of_more.1 hAssigns.of_append.1
      obtain ⟨others', hOthers', hOthers⟩ := ih (by omega) hBest.of_more.2 hAssigns.of_append.2
      exact ⟨values ++ others', values_more hValues hOthers', (MembersSay.one hOne).append hOthers⟩

private theorem memberSays_declaration {bound : Nat} (hBelow : BodiesBelow bound)
    (kind : DeclKind) (d : Derivation (.rule kind.declaration)) (hLength : d.tokens.length ≤ bound)
    (hBest : d.IsBest) (hAssigns : AssignsItems d.tokens) :
    ∃ values, d.values = some values ∧ MemberSays d.tokens values := by
  obtain ⟨declaration, hValues, hRead⟩ := values_declaration hBelow d hLength hBest hAssigns
  refine ⟨_, hValues, isMember_declaration d.yields, ?_⟩
  rw [hRead]
  rfl

private theorem memberSays_nothing {r : Rule} (hPlain : r.isPlain = true)
    (hPassed : r.isPassed = true) (d : Derivation (.rule r)) (hMember : IsMember d.tokens) :
    ∃ values, d.values = some values ∧ MemberSays d.tokens values := by
  refine ⟨_, d.values_of_isPassed hPassed, hMember, ?_⟩
  rw [d.readMember_nothing hPlain hPassed hMember]
  rfl

private theorem memberSays_semicolon (d : Derivation (.terminal .semicolon)) :
    ∃ values, d.values = some values ∧ MemberSays d.tokens values := by
  obtain ⟨token, hToken, rfl⟩ := d.exists_terminal
  have hMember : IsMember ([] ++ [token]) := .of_statement (.nil .closed) hToken
  refine ⟨[], values_dropped hToken rfl, hMember, ?_⟩
  have hItems := hMember.items_of_semicolon .nil hToken
  rw [tokens, ← List.nil_append [token], hItems]
  rfl

/-- What may stand at top level: declarations, records and semicolons. -/
private theorem memberSays_declared {bound : Nat} (hBelow : BodiesBelow bound)
    (d : Derivation Rule.typeDeclaration.body) (hLength : d.tokens.length ≤ bound)
    (hBest : d.IsBest) (hAssigns : AssignsItems d.tokens) :
    ∃ values, d.values = some values ∧ MemberSays d.tokens values := by
  have hMember := isMember_of_yields_typeDeclaration (rule d).yields
  rcases choice_cases d with ⟨declaration, rfl⟩ | ⟨d, rfl⟩
  · exact memberSays_declaration hBelow .classDecl declaration hLength hBest.of_left hAssigns
  replace hBest := hBest.of_right
  rcases choice_cases d with ⟨declaration, rfl⟩ | ⟨d, rfl⟩
  · exact memberSays_declaration hBelow .interfaceDecl declaration hLength hBest.of_left hAssigns
  replace hBest := hBest.of_right
  rcases choice_cases d with ⟨declaration, rfl⟩ | ⟨d, rfl⟩
  · exact memberSays_declaration hBelow .enumDecl declaration hLength hBest.of_left hAssigns
  rcases choice_cases d with ⟨record, rfl⟩ | ⟨semicolon, rfl⟩
  · exact memberSays_nothing rfl rfl record hMember
  · exact memberSays_semicolon semicolon

/-- **Members of a best derivation are read as what they mean**, if bodies inside them are. -/
private theorem memberSays_member {bound : Nat} (hBelow : BodiesBelow bound)
    (d : Derivation (.rule .member)) (hLength : d.tokens.length ≤ bound) (hBest : d.IsBest)
    (hAssigns : AssignsItems d.tokens) :
    ∃ values, d.values = some values ∧ MemberSays d.tokens values := by
  have hMember := isMember_of_yields d.yields
  obtain ⟨body, rfl⟩ := d.exists_rule
  replace hBest := hBest.of_rule
  have hChoice : ∃ values, body.values = some values ∧ MemberSays body.tokens values := by
    rcases choice_cases body with ⟨field, rfl⟩ | ⟨body, rfl⟩
    · obtain ⟨fields, hValues, hRead⟩ := readMember_field field hMember hBest.of_left hAssigns
      refine ⟨_, hValues, hMember, ?_⟩
      show _ = (readMember (memberItems field.tokens)).values
      rw [hRead]
      rfl
    replace hBest := hBest.of_right
    rcases choice_cases body with ⟨method, rfl⟩ | ⟨body, rfl⟩
    · exact memberSays_nothing rfl rfl method hMember
    replace hBest := hBest.of_right
    rcases choice_cases body with ⟨initializer, rfl⟩ | ⟨body, rfl⟩
    · exact memberSays_nothing rfl rfl initializer hMember
    replace hBest := hBest.of_right
    rcases choice_cases body with ⟨constructor, rfl⟩ | ⟨body, rfl⟩
    · exact memberSays_nothing rfl rfl constructor hMember
    · exact memberSays_declared hBelow body hLength hBest.of_right hAssigns
  obtain ⟨values, hValues, hSays⟩ := hChoice
  exact ⟨values, values_rule hValues rfl, hSays⟩

private theorem bodiesBelow (bound : Nat) : BodiesBelow bound := by
  induction bound with
  | zero => exact fun _ hLength => absurd hLength (Nat.not_lt_zero _)
  | succ bound ih =>
      intro d hLength hBest hAssigns
      obtain ⟨values, hValues, hSays⟩ :=
        d.values_many (memberSays_member ih) (Nat.le_of_lt_succ hLength) hBest hAssigns
      exact ⟨values, hValues, hSays.readClassBody⟩

/-- **Declarations of a best derivation are read as what they mean**, at top level as well. -/
theorem memberSays_typeDeclaration (d : Derivation (.rule .typeDeclaration)) (hBest : d.IsBest)
    (hAssigns : AssignsItems d.tokens) :
    ∃ values, d.values = some values ∧ MemberSays d.tokens values := by
  have hBelow := bodiesBelow d.tokens.length
  obtain ⟨body, rfl⟩ := d.exists_rule
  obtain ⟨values, hValues, hSays⟩ :=
    memberSays_declared hBelow body (Nat.le_refl _) hBest.of_rule hAssigns
  exact ⟨values, values_rule hValues rfl, hSays⟩

end Derivation

end ClassSchema.Java
