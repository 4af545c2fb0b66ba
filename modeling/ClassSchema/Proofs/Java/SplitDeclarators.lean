import ClassSchema.Proofs.Java.Layout

/-!
# Splitting declarators

A declaration of fields is written as modifiers and annotations, a type, and declarators
with commas between them.  A declarator is a name, dimensions, and an initializer if it
has one.  An initializer may hold commas of its own, those between type arguments for
example, so the declarators cannot be told by the commas alone.

They can be told if no comma of an initializer stands in front of what looks like a
declarator.  Then every comma is where it was written: there is one field for each
declarator, with its name and its dimensions.

## Main results

* `DeclaratorText.cutsInto`: declarators are cut where they were written.
* `FieldText.IsValid.yields`: such a declaration may stand wherever fields may.
* `declarators_split`: the fields of such declarations in a source.
-/

namespace ClassSchema.Java

open ClassSchema.Java.Expr hiding some
open Expr.Yields

/-! ## Initializers -/

/-- Tokens that look like a declarator: a name and dimensions in front of a separator, or up to the
end, which has a separator behind it. -/
def LooksDeclared (tokens : List Token) : Prop :=
  ∃ name dimensions rest, tokens = name :: (dimensions ++ rest) ∧ name.terminal = .identifier ∧
    (many (rule .dimension)).Yields dimensions ∧
    ∀ token ∈ rest.head?, token.terminal.separates = true

/-- What may be written behind the equals sign of a declarator. -/
structure IsInitializer (items : List Token) : Prop where
  nonempty : items ≠ []
  balanced : Balanced (terminals items)
  /-- No semicolon stands outside of parentheses and braces. -/
  unended : ∀ front token back, items = front ++ token :: back → Balanced (terminals front) →
    token.terminal ≠ .semicolon
  /-- No comma outside of them stands in front of what looks like a declarator. -/
  undeclared : ∀ front comma back, items = front ++ comma :: back → Balanced (terminals front) →
    comma.terminal = .comma → ¬ LooksDeclared back

/-- The tokens of items are balanced. -/
theorem Stand.balanced {nodes : List Node} {tokens : List Token} (h : Stand nodes tokens) :
    Balanced (terminals tokens) := by
  induction h with
  | nil => exact .nil
  | @cons node nodes front back hNode _ ih =>
      rw [terminals_append]
      refine .append ?_ ih
      cases hNode with
      | word hOther => exact .other hOther .nil
      | openUse hUse => exact hUse.balanced_of_nest rfl
      | closedUse hUse => exact hUse.balanced_of_nest rfl
      | parens hGroup => exact hGroup.balanced_of_nest rfl
      | braces hGroup => exact hGroup.balanced_of_nest rfl

/-- A part that begins like a declarator looks like one, together with what is behind it. -/
private theorem looksDeclared_of_opening {nodes part : List Node} {parts : List (List Node)}
    {tokens : List Token} (hStand : Stand nodes tokens) (hSplit : splitCommas nodes = part :: parts)
    (hOpening : openingOf part ≠ .other) : LooksDeclared tokens := by
  rcases openingOf_cases part with hOther | ⟨name, count, dimensions, hName, hDimensions, hPart⟩
  · exact absurd hOther hOpening
  obtain ⟨after, rfl, hAfter⟩ : ∃ after, nodes = .word name :: (dimensions ++ after) ∧
      (after = [] ∨ ∃ separator rest, after = .word separator :: rest ∧
        separator.terminal.separates = true) := by
    rcases hPart with ⟨rfl, _⟩ | ⟨equal, items, rfl, hEqual, _⟩
    · rcases splitCommas_cases hSplit with ⟨_, rfl⟩ | ⟨_, comma, rest, rfl, hComma⟩
      · exact ⟨[], by simp, .inl rfl⟩
      · cases comma with
        | word comma =>
            have hTerminal : comma.terminal = .comma := of_decide_eq_true hComma
            exact ⟨_, by simp, .inr ⟨comma, rest, rfl, by rw [hTerminal]; rfl⟩⟩
        | _ => cases hComma
    · have hSeparates : equal.terminal.separates = true := by rw [hEqual]; rfl
      rcases splitCommas_cases hSplit with ⟨_, rfl⟩ | ⟨_, comma, rest, rfl, _⟩
      · exact ⟨_, rfl, .inr ⟨equal, _, rfl, hSeparates⟩⟩
      · exact ⟨_, by simp, .inr ⟨equal, items ++ comma :: rest, rfl, hSeparates⟩⟩
  obtain ⟨_, rfl, _, hBehind⟩ := hStand.exists_of_word
  obtain ⟨front, back, rfl, hFront, hBack⟩ := hBehind.exists_of_append
  refine ⟨name, front, back, rfl, hName, hFront.yields_dimensions hDimensions, ?_⟩
  rcases hAfter with rfl | ⟨separator, rest, rfl, hSeparates⟩
  · cases hBack
    simp
  · obtain ⟨_, rfl, _, _⟩ := hBack.exists_of_word
    simpa using hSeparates

namespace IsInitializer

variable {items : List Token}

theorem outline_ne_nil (h : IsInitializer items) : outline items ≠ [] := by
  intro hNil
  have hStand := stand_outline h.balanced
  rw [hNil] at hStand
  cases hStand
  exact h.nonempty rfl

/-- No semicolon is among the items of an initializer. -/
theorem not_semicolon (h : IsInitializer items) :
    ∀ node ∈ outline items, node.isWord .semicolon = false := by
  intro node mem
  obtain ⟨before, behind, hNodes⟩ := List.append_of_mem mem
  have hStand := stand_outline h.balanced
  rw [hNodes] at hStand
  cases node with
  | word token =>
      obtain ⟨front, back, rfl, hFront, hBack⟩ := hStand.exists_of_append
      obtain ⟨rest, rfl, _, _⟩ := hBack.exists_of_word
      simpa [Node.isWord] using h.unended front token rest rfl hFront.balanced
  | _ => rfl

/-- **Behind the commas of an initializer nothing begins like a declarator.** -/
theorem openingOf_eq_other (h : IsInitializer items) {first : List Node}
    {parts : List (List Node)} (hSplit : splitCommas (outline items) = first :: parts) :
    ∀ part ∈ parts, openingOf part = .other := by
  intro part mem
  obtain ⟨before, behind, rfl⟩ := List.append_of_mem mem
  obtain ⟨front, comma, back, hNodes, hComma, _, hBack⟩ :=
    @exists_of_splitCommas _ (first :: before) behind part (List.cons_ne_nil _ _) hSplit
  have hStand := stand_outline h.balanced
  rw [hNodes] at hStand
  obtain ⟨frontTokens, _, rfl, hFrontStand, hCommaStand⟩ := hStand.exists_of_append
  cases comma with
  | word comma =>
      obtain ⟨backTokens, rfl, _, hBackStand⟩ := hCommaStand.exists_of_word
      by_contra hOpening
      exact h.undeclared frontTokens comma backTokens rfl hFrontStand.balanced
        (of_decide_eq_true hComma) (looksDeclared_of_opening hBackStand hBack hOpening)
  | _ => cases hComma

end IsInitializer

/-! ## Declarators -/

/-- A declarator as it is written. -/
structure DeclaratorText where
  name : Token
  dimensions : List (List Token)
  /-- An equals sign and the tokens behind it. -/
  initializer : Option (Token × List Token)

namespace DeclaratorText

/-- What is assigned, if anything is. -/
def assigned (text : DeclaratorText) : List Token :=
  match text.initializer with
  | none => []
  | some (equal, items) => equal :: items

/-- The tokens of a declarator. -/
def tokens (text : DeclaratorText) : List Token :=
  text.name :: (text.dimensions.flatten ++ text.assigned)

/-- What a declarator says. -/
def declarator (text : DeclaratorText) : Declarator := ⟨text.name.text, text.dimensions.length⟩

/-- A declarator of the language, with an initializer that can be told from what is behind it. -/
structure IsValid (text : DeclaratorText) : Prop where
  name : text.name.terminal = .identifier
  dimensions : ∀ dimension ∈ text.dimensions, (rule .dimension).Yields dimension
  initializer : ∀ equal items, text.initializer = some (equal, items) →
    equal.terminal = .equalSign ∧ IsInitializer items

namespace IsValid

variable {text : DeclaratorText}

/-- The items of a name and dimensions. -/
private theorem exists_header (h : text.IsValid) : ∃ dimensions,
    IsDimensions text.dimensions.length dimensions ∧
      outline (text.name :: text.dimensions.flatten) = .word text.name :: dimensions ∧
      Balanced (terminals (text.name :: text.dimensions.flatten)) ∧
      ∀ node ∈ dimensions, node.isWord .semicolon = false := by
  obtain ⟨d, hTokens, _, hDimensions⟩ := Derivation.exists_dimensions h.dimensions
  let header : Derivation (.sequence (.terminal .identifier)
    (.optional (Expr.some (.rule .dimension)))) := .sequence (.terminal text.name h.name) d
  have hHeader : header.tokens = text.name :: text.dimensions.flatten := by simp [header, hTokens]
  have hUnended := header.yields.unended rfl
  have hOutline : outline header.tokens = header.nodes := header.outline_tokens rfl
  have hEnds := hUnended.outline_isWord
  rw [hOutline] at hEnds
  rw [← hHeader]
  exact ⟨d.nodes, hDimensions, hOutline, hUnended.balanced, fun node mem =>
    hEnds node (List.mem_cons_of_mem _ mem)⟩

/-- **The items of a declarator.** -/
theorem exists_outline (h : text.IsValid) : ∃ dimensions,
    IsDimensions text.dimensions.length dimensions ∧
      (∀ node ∈ dimensions, node.isWord .semicolon = false) ∧
      Balanced (terminals text.tokens) ∧
      (text.initializer = none ∧ outline text.tokens = .word text.name :: dimensions ∨
        ∃ equal items, text.initializer = some (equal, items) ∧
          outline text.tokens =
            .word text.name :: (dimensions ++ .word equal :: outline items)) := by
  obtain ⟨dimensions, hDimensions, hOutline, hBalanced, hEnds⟩ := h.exists_header
  refine ⟨dimensions, hDimensions, hEnds, ?_⟩
  cases hText : text.initializer with
  | none =>
      have hTokens : text.tokens = text.name :: text.dimensions.flatten := by
        simp [tokens, assigned, hText]
      rw [hTokens]
      exact ⟨hBalanced, .inl ⟨rfl, hOutline⟩⟩
  | some pair =>
      obtain ⟨equal, items⟩ := pair
      obtain ⟨hEqual, hItems⟩ := h.initializer equal items hText
      have hTokens : text.tokens = text.name :: text.dimensions.flatten ++ equal :: items := by
        simp [tokens, assigned, hText]
      have hOther : equal.terminal.isBracket = false := by rw [hEqual]; rfl
      rw [hTokens, outline_separator (by rw [hEqual]; rfl) hBalanced hItems.balanced, hOutline,
        terminals_append]
      exact ⟨hBalanced.append (.other hOther hItems.balanced), .inr ⟨equal, items, rfl, rfl⟩⟩

theorem balanced (h : text.IsValid) : Balanced (terminals text.tokens) := by
  obtain ⟨_, _, _, hBalanced, _⟩ := h.exists_outline
  exact hBalanced

/-- The tokens are a declarator of the language. -/
theorem yields (h : text.IsValid) : (rule .declarator).Yields text.tokens := by
  obtain ⟨dimensions, hDimensions, hEnds, hBalanced, hOutline⟩ := h.exists_outline
  have hStand := stand_outline hBalanced
  have hName : (Node.word text.name).isWord .semicolon = false := by simp [Node.isWord, h.name]
  rcases hOutline with ⟨_, hOutline⟩ | ⟨equal, items, hText, hOutline⟩
  · rw [hOutline] at hStand
    exact hStand.yields_declarator (.plain h.name hDimensions)
      (List.forall_mem_cons.mpr ⟨hName, hEnds⟩)
  · obtain ⟨hEqual, hItems⟩ := h.initializer equal items hText
    rw [hOutline] at hStand
    refine hStand.yields_declarator (.assigned h.name hDimensions hEqual hItems.outline_ne_nil) ?_
    intro node mem
    simp only [List.mem_cons, List.mem_append] at mem
    rcases mem with rfl | mem | rfl | mem
    · exact hName
    · exact hEnds node mem
    · simp [Node.isWord, hEqual]
    · exact hItems.not_semicolon node mem

/-- **A declarator is cut off whole**, in front of others that are cut as they should be. -/
theorem cutsInto_append (h : text.IsValid) {rest : List Opening} {declarators : List Declarator}
    (hRest : CutsInto rest declarators) :
    CutsInto ((splitCommas (outline text.tokens)).map openingOf ++ rest)
      (text.declarator :: declarators) := by
  obtain ⟨dimensions, hDimensions, _, _, hOutline⟩ := h.exists_outline
  have hName : (Node.word text.name).isWord .comma = false := by simp [Node.isWord, h.name]
  rcases hOutline with ⟨_, hOutline⟩ | ⟨equal, items, hText, hOutline⟩
  · have hPart := splitCommas_other hName (splitCommas_singleton hDimensions.not_comma)
    rw [hOutline, hPart, List.map_singleton, openingOf_plain h.name hDimensions]
    exact .cons (.inl ⟨rfl, rfl⟩) (.of_other (by simp)) hRest
  · obtain ⟨hEqual, hItems⟩ := h.initializer equal items hText
    obtain ⟨part, parts, hSplit⟩ := List.exists_cons_of_ne_nil (splitCommas_ne_nil (outline items))
    have hWord : (Node.word equal).isWord .comma = false := by simp [Node.isWord, hEqual]
    have hParts := splitCommas_other hName
      (splitCommas_front hDimensions.not_comma (splitCommas_other hWord hSplit))
    have hOther : ∀ opening ∈ parts.map openingOf, opening = .other :=
      List.forall_mem_map.mpr (hItems.openingOf_eq_other hSplit)
    rw [hOutline, hParts, List.map_cons, openingOf_assigned h.name hDimensions hEqual]
    cases part with
    | cons node part => exact .cons (.inr rfl) (.of_other hOther) hRest
    | nil =>
        rcases splitCommas_cases hSplit with ⟨_, hNil⟩ | ⟨hMore, _⟩
        · exact absurd hNil hItems.outline_ne_nil
        · obtain ⟨second, others, rfl⟩ := List.exists_cons_of_ne_nil hMore
          exact .cons_comma (.of_other hOther) hRest

end IsValid

/-- The tokens of declarators, each behind a comma. -/
def othersTokens (others : List (Token × DeclaratorText)) : List Token :=
  others.flatMap fun (comma, text) => comma :: text.tokens

/-- Declarators, each behind a comma, are written as they should be. -/
def AreValid (others : List (Token × DeclaratorText)) : Prop :=
  ∀ other ∈ others, other.1.terminal = .comma ∧ other.2.IsValid

theorem AreValid.yields {others : List (Token × DeclaratorText)} (h : AreValid others) :
    (many (sequence (terminal .comma) (rule .declarator))).Yields (othersTokens others) := by
  rw [othersTokens, List.flatMap_def]
  exact many_flatten (List.forall_mem_map.mpr fun other mem =>
    of_cons (h other mem).1 (h other mem).2.yields)

/-- **Declarators are cut where they were written.**  The induction is on those behind the first. -/
theorem cutsInto {first : DeclaratorText} {others : List (Token × DeclaratorText)}
    (hFirst : first.IsValid) (hOthers : AreValid others) :
    CutsInto ((splitCommas (outline (first.tokens ++ othersTokens others))).map openingOf)
      (first.declarator :: others.map (·.2.declarator)) := by
  induction others generalizing first with
  | nil =>
      have hAll := hFirst.cutsInto_append .nil
      rwa [List.append_nil, ← List.append_nil first.tokens] at hAll
  | cons other others ih =>
      obtain ⟨comma, second⟩ := other
      obtain ⟨⟨hComma, hSecond⟩, each⟩ := List.forall_mem_cons.mp hOthers
      replace hComma : comma.terminal = .comma := hComma
      have hBack : Balanced (terminals (second.tokens ++ othersTokens others)) := by
        rw [terminals_append]
        exact hSecond.balanced.append ((AreValid.yields each).balanced_of_nest rfl)
      rw [show othersTokens ((comma, second) :: others) =
          comma :: (second.tokens ++ othersTokens others) from rfl,
        outline_separator (by rw [hComma]; rfl) hFirst.balanced hBack,
        splitCommas_append _ (by simp [Node.isWord, hComma]), List.map_append]
      exact hFirst.cutsInto_append (ih hSecond each)

end DeclaratorText

/-! ## Modifiers and types -/

/-- A modifier or an annotation as it is written. -/
inductive Mark where
  | modifier (token : Token)
  | use (tokens : List Token)

namespace Mark

/-- The tokens of a modifier or an annotation. -/
def tokens : Mark → List Token
  | modifier token => [token]
  | use tokens => tokens

/-- The text of a modifier. -/
def text? : Mark → Option String
  | modifier token => some token.text
  | use _ => none

/-- A modifier or an annotation of the language. -/
def IsValid : Mark → Prop
  | modifier token => token.terminal = .modifier ∨ token.terminal = .staticWord
  | use tokens => (rule .annotationUse).Yields tokens

end Mark

namespace Derivation

/-- A modifier or an annotation has a derivation, which means the modifier. -/
private theorem exists_mark {mark : Mark} (h : mark.IsValid) :
    ∃ d : Derivation (oneOf [.rule .annotationUse, .terminal .modifier] (.terminal .staticWord)),
      d.tokens = mark.tokens ∧ ∃ values, d.values = some values ∧
        values.filterMap Value.modifier? = mark.text?.toList := by
  cases mark with
  | use tokens =>
      obtain ⟨d, hTokens⟩ := exists_of_yields h
      exact ⟨left d, hTokens, _, values_left (d.values_of_isPassed rfl), rfl⟩
  | modifier token =>
      have hText : [Value.token token].filterMap Value.modifier? = [token.text] := by
        simp [Value.modifier?, show token.terminal = .modifier ∨ token.terminal = .staticWord from h]
      rcases h with hToken | hToken
      · exact ⟨right (left (terminal token hToken)), rfl, _,
          values_right (values_left (values_kept hToken rfl)), hText⟩
      · exact ⟨right (right (terminal token hToken)), rfl, _,
          values_right (values_right (values_kept hToken rfl)), hText⟩

/-- Modifiers and annotations have a derivation, which means the modifiers. -/
theorem exists_modifiers {marks : List Mark} (h : ∀ mark ∈ marks, mark.IsValid) :
    ∃ d : Derivation (.rule .modifiers), d.tokens = marks.flatMap Mark.tokens ∧
      ∃ values, d.values = some values ∧
        values.filterMap Value.modifier? = marks.filterMap Mark.text? := by
  have hMany : ∃ d : Derivation (.many
        (oneOf [.rule .annotationUse, .terminal .modifier] (.terminal .staticWord))),
      d.tokens = marks.flatMap Mark.tokens ∧ ∃ values, d.values = some values ∧
        values.filterMap Value.modifier? = marks.filterMap Mark.text? := by
    induction marks with
    | nil => exact ⟨none, rfl, [], rfl, rfl⟩
    | cons mark marks ih =>
        obtain ⟨hMark, each⟩ := List.forall_mem_cons.mp h
        obtain ⟨one, hOne, values, hValues, hText⟩ := exists_mark hMark
        obtain ⟨others, hOthers, more, hMore, hTexts⟩ := ih each
        refine ⟨.more one others, by rw [tokens, hOne, hOthers, List.flatMap_cons],
          values ++ more, values_more hValues hMore, ?_⟩
        rw [List.filterMap_append, hText, hTexts, List.filterMap_cons]
        cases mark.text? <;> rfl
  obtain ⟨body, hTokens, values, hValues, hTexts⟩ := hMany
  exact ⟨rule (r := .modifiers) body, hTokens, values, values_rule hValues rfl, hTexts⟩

/-- What stands in front of the dimensions of a type means a type. -/
theorem exists_element (d : Derivation (.rule .classType)) :
    ∃ element, d.values = some [.type element] := by
  obtain ⟨values, hValues, _⟩ := d.exists_values
  obtain ⟨body, rfl⟩ := d.exists_rule
  have hMade := hValues
  simp only [Derivation.values, Option.bind_eq_bind, Option.bind_eq_some_iff, Rule.make,
    Option.pure_def, Option.some.injEq] at hMade
  obtain ⟨_, _, _, _, rfl⟩ := hMade
  exact ⟨_, hValues⟩

/-- Dimensions behind it make a type of an array. -/
theorem exists_arrayType {element : Derivation (.rule .classType)} {type : TypeName}
    (hElement : element.values = some [.type type]) {dimensions : List (List Token)}
    (h : ∀ dimension ∈ dimensions, (Expr.rule .dimension).Yields dimension) :
    ∃ d : Derivation (.rule .type), d.tokens = element.tokens ++ dimensions.flatten ∧
      d.values = some [.type { type with dimensions := dimensions.length }] := by
  obtain ⟨counted, hTokens, hCounted, _⟩ := exists_dimensions h
  refine ⟨rule (r := .type) (sequence element counted), by simp [hTokens],
    values_rule (values_sequence hElement hCounted) ?_⟩
  simp [Value.type?, Value.isDimension, List.findSome?_cons, List.countP_replicate]

end Derivation

/-! ## Declarations of fields -/

/-- A declaration of fields as it is written. -/
structure FieldText where
  /-- Modifiers and annotations. -/
  marks : List Mark
  /-- The type without its dimensions. -/
  element : Derivation (.rule .classType)
  dimensions : List (List Token)
  first : DeclaratorText
  /-- Further declarators, each with the comma in front of it. -/
  others : List (Token × DeclaratorText)
  semicolon : Token

namespace FieldText

/-- The tokens of a declaration. -/
def tokens (text : FieldText) : List Token :=
  text.marks.flatMap Mark.tokens ++ ((text.element.tokens ++ text.dimensions.flatten) ++
    ((text.first.tokens ++ DeclaratorText.othersTokens text.others) ++ [text.semicolon]))

/-- The declarators in order. -/
def declarators (text : FieldText) : List DeclaratorText := text.first :: text.others.map (·.2)

/-- The fields that are written, one for each declarator; `element` is what stands in front of the
dimensions of the type. -/
def fields (text : FieldText) (element : TypeName) : List FieldDecl :=
  text.declarators.map fun declarator => {
    name := declarator.name.text
    type := { element with dimensions := text.dimensions.length + declarator.dimensions.length }
    docComment := text.tokens.head?.bind Token.doc
    modifiers := text.marks.filterMap Mark.text? }

/-- A declaration of the language whose initializers can be told from what is behind them. -/
structure IsValid (text : FieldText) : Prop where
  marks : ∀ mark ∈ text.marks, mark.IsValid
  dimensions : ∀ dimension ∈ text.dimensions, (rule .dimension).Yields dimension
  first : text.first.IsValid
  others : DeclaratorText.AreValid text.others
  semicolon : text.semicolon.terminal = .semicolon

namespace IsValid

variable {text : FieldText}

/-- **Such a declaration may stand wherever fields may.** -/
theorem yields (h : text.IsValid) : (rule .fieldDeclaration).Yields text.tokens := by
  obtain ⟨modifiers, hModifiers, _⟩ := Derivation.exists_modifiers h.marks
  obtain ⟨element, hElement⟩ := text.element.exists_element
  obtain ⟨type, hType, _⟩ := Derivation.exists_arrayType hElement h.dimensions
  rw [tokens, ← hModifiers, ← hType]
  exact rule_iff.mpr (of_sequence modifiers.yields (of_sequence type.yields
    (of_sequence (of_sequence h.first.yields h.others.yields) (of_terminal h.semicolon))))

/-- **It is read as one field for each declarator.** -/
theorem readsFields (h : text.IsValid) : ∃ element,
    text.element.values = some [.type element] ∧ ReadsFields text.tokens (text.fields element) := by
  obtain ⟨element, hElement⟩ := text.element.exists_element
  refine ⟨element, hElement, ?_⟩
  have hMember := isMember_of_yields (Stretch.Fits.field h.yields).yields
  have hCuts := (DeclaratorText.cutsInto h.first h.others).readDeclarators
  obtain ⟨modifiers, hModifiers, values, hValues, hTexts⟩ := Derivation.exists_modifiers h.marks
  obtain ⟨type, hType, hTypeValues⟩ := Derivation.exists_arrayType hElement h.dimensions
  obtain ⟨first, hFirst⟩ := Derivation.exists_of_yields h.first.yields
  obtain ⟨others, hOthers⟩ := Derivation.exists_of_yields h.others.yields
  have hTokens : text.tokens = modifiers.tokens ++ (type.tokens ++
      ((first.tokens ++ others.tokens) ++ [text.semicolon])) := by
    rw [tokens, hModifiers, hType, hFirst, hOthers]
  rw [Stretch.tokens, hTokens] at hMember
  obtain ⟨marks, typeName, hMarks, _, hTypeName, hRead⟩ :=
    modifiers.readMember_declarators type first others h.semicolon hMember
  rw [hValues] at hMarks
  rw [hTypeValues] at hTypeName
  obtain rfl := Option.some.inj hMarks
  obtain rfl : _ = typeName := by simpa using hTypeName
  rw [hFirst, hOthers, hCuts, ← hFirst, ← hOthers, ← hTokens, hTexts] at hRead
  rw [ReadsFields, hRead]
  simp [fields, fieldsOf, declarators, DeclaratorText.declarator]

end IsValid

end FieldText

/-- However a declaration of fields is written, it declares what is written. -/
def Splits (tokens : List Token) (declared : List FieldDecl) : Prop :=
  ∀ text : FieldText, text.IsValid → text.tokens = tokens → ∃ element,
    text.element.values = some [.type element] ∧ declared = text.fields element

/-! ## Sources -/

/-- **Declarators are split where they were written.**  A declaration of fields that is written as
described may stand wherever fields may, and every source is parsed; its types mirror its layout,
and each such declaration in it declares one field for each declarator, in order, with the name and
all the dimensions, the modifiers and the comment. -/
theorem declarators_split :
    (∀ text : FieldText, text.IsValid → (Stretch.field text.tokens).Fits) ∧
      ∀ (layout : Layout) (source : List Char), layout.IsValid →
        tokenize source = (layout.tokens, none) →
        ∃ file, parse source = .ok file ∧ Declares Splits layout.parts [] file.types := by
  refine ⟨fun text h => .field h.yields, fun layout source hValid hTokens => ?_⟩
  obtain ⟨file, hParse, hDeclares⟩ := hValid.parse_eq hTokens
  refine ⟨file, hParse, hDeclares.imp fun tokens _ declared hRead text hText hSame => ?_⟩
  obtain ⟨element, hElement, hFields⟩ := hText.readsFields
  refine ⟨element, hElement, ?_⟩
  rw [hSame, ReadsFields, hRead] at hFields
  exact Member.fields.inj hFields

/-! ### Commas of type arguments and commas inside of braces -/

def listSource : List Char := "class A {@X int[] a = f<x, y>, b[] = {1, c}, d;}".toList

/-- `a = f<x, y>` -/
private def argumentsText : DeclaratorText where
  name := .inLine .identifier "a" 18
  dimensions := []
  initializer := some (.inLine .equalSign "=" 20,
    [.inLine .identifier "f" 22, .inLine .lessThan "<" 23, .inLine .identifier "x" 24,
      .inLine .comma "," 25, .inLine .identifier "y" 27, .inLine .moreThan ">" 28])

/-- `b[] = {1, c}` -/
private def bracesText : DeclaratorText where
  name := .inLine .identifier "b" 31
  dimensions := [[.inLine .leftBracket "[" 32, .inLine .rightBracket "]" 33]]
  initializer := some (.inLine .equalSign "=" 35,
    [.inLine .leftBrace "\x7b" 37, .inLine .number "1" 38, .inLine .comma "," 39,
      .inLine .identifier "c" 41, .inLine .rightBrace "\x7d" 42])

def listText : FieldText where
  marks := [.use [.inLine .atSign "@" 9, .inLine .identifier "X" 10]]
  element := .rule (r := .classType) (.sequence (.rule (r := .typeSegment) (.sequence .none
    (.sequence (.terminal (.inLine .identifier "int" 12) rfl) .absent))) .none)
  dimensions := [[.inLine .leftBracket "[" 15, .inLine .rightBracket "]" 16]]
  first := argumentsText
  others := [(.inLine .comma "," 29, bracesText),
    (.inLine .comma "," 43, ⟨.inLine .identifier "d" 45, [], none⟩)]
  semicolon := .inLine .semicolon ";" 46

private def listLayout : Layout where
  front := []
  parts := [.type .classDecl [.inLine .classWord "class" 0, .inLine .identifier "A" 6]
    [.inLine .leftBrace "\x7b" 8] [.field listText.tokens] (.inLine .rightBrace "\x7d" 47)]

/-- What holds of every cut of some tokens is checked cut by cut. -/
private theorem forall_cuts {items : List Token} {p : List Token → Token → List Token → Prop}
    (h : ∀ i : Fin items.length, p (items.take i) items[i] (items.drop (i + 1)))
    (front : List Token) (token : Token) (back : List Token) (hItems : items = front ++ token :: back) :
    p front token back := by
  subst hItems
  have hHere := h ⟨front.length, by simp⟩
  simpa using hHere

private theorem isValid_argumentsText : argumentsText.IsValid where
  name := rfl
  dimensions := by simp [argumentsText]
  initializer := by
    intro equal items hItems
    cases hItems
    refine ⟨rfl, ⟨by simp, by decide, forall_cuts (by decide), ?_⟩⟩
    intro front comma back hCut hBalanced hComma
    have hBack : terminals back = [.identifier, .moreThan] :=
      forall_cuts (p := fun front comma back => Balanced (terminals front) →
        comma.terminal = .comma → terminals back = [.identifier, .moreThan]) (by decide) _ _ _ hCut
        hBalanced hComma
    rintro ⟨name, dimensions, rest, rfl, _, hDimensions, hRest⟩
    rw [terminals_cons, terminals_append] at hBack
    cases dimensions with
    | nil =>
        obtain ⟨token, others, rfl, hToken, _⟩ := List.map_eq_cons_iff.mp (List.cons.inj hBack).2
        have hSeparates := hRest token rfl
        rw [hToken] at hSeparates
        cases hSeparates
    | cons token others =>
        have hWord : terminals (token :: others) = [.moreThan] := by
          have hLast := (List.cons.inj hBack).2
          rw [terminals_cons, List.cons_append] at hLast
          have hNil := (List.append_eq_nil_iff.mp (List.cons.inj hLast).2).1
          rw [terminals_cons, hNil, (List.cons.inj hLast).1]
        unfold Expr.Yields at hDimensions
        rw [hWord] at hDimensions
        exact absurd hDimensions (by decide)

private theorem isValid_bracesText : bracesText.IsValid where
  name := rfl
  dimensions := by
    simp only [bracesText, List.mem_singleton, forall_eq]
    show Derives _ _
    decide
  initializer := by
    intro equal items hItems
    cases hItems
    refine ⟨rfl, ⟨by simp, by decide, forall_cuts (by decide), ?_⟩⟩
    -- The only comma stands inside of the braces.
    intro front comma back hCut hBalanced hComma
    exact absurd hComma (forall_cuts (p := fun front comma _ => Balanced (terminals front) →
      comma.terminal ≠ .comma) (by decide) _ _ _ hCut hBalanced)

private theorem isValid_listText : listText.IsValid where
  marks := by
    simp only [listText, List.mem_singleton, forall_eq]
    show Derives _ _
    decide
  dimensions := by
    simp only [listText, List.mem_singleton, forall_eq]
    show Derives _ _
    decide
  first := isValid_argumentsText
  others := by
    simp only [DeclaratorText.AreValid, listText, List.forall_mem_cons]
    exact ⟨⟨rfl, isValid_bracesText⟩, ⟨rfl, rfl, by simp, by simp⟩, by simp⟩
  semicolon := rfl

theorem split_of_listSource :
    listText.IsValid ∧ ∃ file declaration, parse listSource = .ok file ∧
      file.types = [declaration] ∧ declaration.fields =
        [⟨"a", ⟨"int", [], 1⟩, none, []⟩, ⟨"b", ⟨"int", [], 2⟩, none, []⟩,
          ⟨"d", ⟨"int", [], 1⟩, none, []⟩] := by
  obtain ⟨hFits, hParse⟩ := declarators_split
  have hValid : listLayout.IsValid := by
    refine ⟨by show Derives _ _; decide, ?_⟩
    simp only [listLayout, List.mem_singleton, forall_eq]
    refine .type (.type (by show Derives _ _; decide) (.brace (by decide) rfl) ?_ rfl)
    simp only [List.mem_singleton, forall_eq]
    exact hFits listText isValid_listText
  have hTokens : tokenize listSource = (listLayout.tokens, none) := by
    rw [tokenize_eq_within]
    decide +kernel
  obtain ⟨file, hFile, hDeclares⟩ := hParse listLayout listSource hValid hTokens
  refine ⟨isValid_listText, file, ?_⟩
  simp only [listLayout] at hDeclares
  generalize hTypes : file.types = types at hDeclares
  cases hDeclares with
  | type _ hMembers hNil =>
      cases hNil
      generalize hFields : TypeDecl.fields _ = fields at hMembers
      generalize hInner : TypeDecl.types _ = inner at hMembers
      cases hMembers with
      | field hSplits hNil =>
          cases hNil
          obtain ⟨element, hElement, hDeclared⟩ := hSplits listText isValid_listText rfl
          cases hElement
          exact ⟨_, hFile, rfl, by rw [hFields, hDeclared]; rfl⟩

end ClassSchema.Java
