import ClassSchema.Proofs.Java.DerivedItems

/-!
# Types of a derivation

A type is read as what its derivation means, wherever a type ends behind it.  Types
are inside of type arguments, so the induction is on the number of tokens; reading is
bounded by a number as well, and four steps for each item are enough.

Type parameters are read differently: by their names, with a depth that leaves out what
is inside of their bounds.

## Main results

* `Derivation.values_type`: a type is read as what it means.
* `Derivation.values_typeParameters`: type parameters are read by their names.
-/

namespace ClassSchema.Java

/-! ## Dimensions -/

namespace Derivation

private theorem values_dimension (d : Derivation (.rule .dimension)) :
    d.values = some [.dimension] ∧ ∃ uses left right,
      d.nodes = uses ++ [.word left, .word right] ∧ (∀ node ∈ uses, node.isUse = true) ∧
        left.terminal = .leftBracket ∧ right.terminal = .rightBracket := by
  obtain ⟨body, rfl⟩ := d.exists_rule
  obtain ⟨uses, rest, rfl⟩ := exists_sequence body
  obtain ⟨leftPart, rightPart, rfl⟩ := exists_sequence rest
  obtain ⟨left, hLeft, rfl⟩ := exists_terminal leftPart
  obtain ⟨right, hRight, rfl⟩ := exists_terminal rightPart
  obtain ⟨values, hValues, _, hUses⟩ := uses.values_annotations
  have hBrackets := values_sequence (values_dropped hLeft rfl) (values_dropped hRight rfl)
  exact ⟨values_rule (values_sequence hValues hBrackets) rfl, uses.nodes, left, right, rfl, hUses,
    hLeft, hRight⟩

/-- Dimensions mean as many as there are. -/
theorem values_dimensions (d : Derivation (.optional (Expr.some (.rule .dimension)))) :
    ∃ values, d.values = some values ∧ (∀ value ∈ values, value = .dimension) ∧
      IsDimensions values.length d.nodes := by
  have hMany : ∀ d : Derivation (.many (.rule .dimension)),
      ∃ values, d.values = some values ∧ (∀ value ∈ values, value = .dimension) ∧
        IsDimensions values.length d.nodes := by
    intro d
    induction d using many_induction with
    | none => exact ⟨[], rfl, by simp, .nil⟩
    | more one others ih =>
        obtain ⟨values, hValues, each, hOthers⟩ := ih
        obtain ⟨hOne, uses, left, right, hNodes, hUses, hLeft, hRight⟩ := one.values_dimension
        refine ⟨.dimension :: values, values_more hOne hValues, by simpa using each, ?_⟩
        have hAll := IsDimensions.cons hUses hLeft hRight hOthers
        show IsDimensions _ (one.nodes ++ others.nodes)
        rw [hNodes, List.append_assoc]
        exact hAll
  rcases d.optional_cases with rfl | ⟨some, rfl⟩
  · exact ⟨[], rfl, by simp, .nil⟩
  · obtain ⟨first, others, rfl⟩ := some.exists_sequence
    exact hMany (.more first others)

/-- Dimensions one by one have a derivation, which means as many. -/
theorem exists_dimensions {parts : List (List Token)}
    (h : ∀ part ∈ parts, (Expr.rule .dimension).Yields part) :
    ∃ d : Derivation (.optional (Expr.some (.rule .dimension))), d.tokens = parts.flatten ∧
      d.values = some (List.replicate parts.length .dimension) ∧
      IsDimensions parts.length d.nodes := by
  have hMany : ∀ parts : List (List Token),
      (∀ part ∈ parts, (Expr.rule .dimension).Yields part) →
      ∃ d : Derivation (.many (.rule .dimension)), d.tokens = parts.flatten ∧
        d.values = some (List.replicate parts.length .dimension) := by
    intro parts h
    induction parts with
    | nil => exact ⟨.none, rfl, rfl⟩
    | cons part parts ih =>
        obtain ⟨hPart, each⟩ := List.forall_mem_cons.mp h
        obtain ⟨one, rfl⟩ := exists_of_yields hPart
        obtain ⟨others, hTokens, hOthers⟩ := ih each
        refine ⟨more one others, by rw [tokens, hTokens, List.flatten_cons], ?_⟩
        exact values_more one.values_dimension.1 hOthers
  have hDerived : ∃ d : Derivation (.optional (Expr.some (.rule .dimension))),
      d.tokens = parts.flatten ∧ d.values = some (List.replicate parts.length .dimension) := by
    cases parts with
    | nil => exact ⟨absent, rfl, rfl⟩
    | cons part parts =>
        obtain ⟨hPart, each⟩ := List.forall_mem_cons.mp h
        obtain ⟨one, rfl⟩ := exists_of_yields hPart
        obtain ⟨others, hTokens, hOthers⟩ := hMany parts each
        let first : Derivation (Expr.some (.rule .dimension)) := sequence one others
        refine ⟨present first, by simp [first, hTokens], ?_⟩
        exact values_present (values_sequence one.values_dimension.1 hOthers)
  obtain ⟨d, hTokens, hValues⟩ := hDerived
  obtain ⟨values, hSame, _, hCount⟩ := d.values_dimensions
  rw [hValues] at hSame
  rw [← Option.some.inj hSame, List.length_replicate] at hCount
  exact ⟨d, hTokens, hValues, hCount⟩

end Derivation

/-! ## Types -/

/-- Items that are read as a type wherever a type ends behind them: annotations, a name, and what
belongs to the name.  Reading takes at most four steps for each item behind the annotations. -/
def ReadsAs (nodes : List Node) (type : TypeName) : Prop :=
  ∃ uses name core, nodes = uses ++ .word name :: core ∧ (∀ node ∈ uses, node.isUse = true) ∧
    name.terminal = .identifier ∧
    ∀ fuel after, EndsSegment after → EndsDimensions after → 4 * (core.length + 1) ≤ fuel →
      readTypeFrom fuel (.word name :: (core ++ after)) = some (type, after)

theorem ReadsAs.readTypeFrom {nodes : List Node} {type : TypeName} (h : ReadsAs nodes type)
    {fuel : Nat} {after : List Node} (hAfter : EndsType after) (hFuel : 4 * nodes.length ≤ fuel) :
    readTypeFrom fuel (nodes ++ after) = some (type, after) := by
  obtain ⟨uses, name, core, rfl, hUses, _, hRead⟩ := h
  rw [List.append_assoc, readTypeFrom_uses hUses]
  apply hRead fuel after hAfter.endsSegment hAfter.endsDimensions
  rw [List.length_append, List.length_cons] at hFuel
  omega

/-- A type begins with an annotation or a name. -/
theorem ReadsAs.exists_cons {nodes : List Node} {type : TypeName} (h : ReadsAs nodes type) :
    ∃ first rest, nodes = first :: rest ∧
      ∀ token, first = .word token → token.terminal = .identifier := by
  obtain ⟨uses, name, core, rfl, hUses, hName, _⟩ := h
  cases uses with
  | nil =>
      refine ⟨_, _, rfl, fun token hToken => ?_⟩
      cases hToken
      exact hName
  | cons use uses =>
      refine ⟨_, _, rfl, fun token hToken => ?_⟩
      subst hToken
      cases hUses _ List.mem_cons_self

namespace Derivation

/-- Types of fewer tokens are read as what they mean. -/
private def TypesBelow (bound : Nat) : Prop :=
  ∀ d : Derivation (.rule .type), d.tokens.length < bound →
    ∃ type, d.values = some [.type type] ∧ ReadsAs d.nodes type

/-- What is no wildcard is read as a type. -/
private theorem readArgumentFrom_type {nodes : List Node} {type : TypeName}
    (h : ReadsAs nodes type) {fuel : Nat} {after : List Node} (hAfter : EndsType after)
    (hFuel : 4 * nodes.length < fuel) :
    readArgumentFrom fuel (nodes ++ after) = some (type, after) := by
  obtain ⟨fuel, rfl⟩ : ∃ less, fuel = less + 1 := ⟨fuel - 1, by omega⟩
  have hRead := h.readTypeFrom hAfter (show 4 * nodes.length ≤ fuel by omega)
  obtain ⟨first, rest, rfl, hFirst⟩ := h.exists_cons
  cases first with
  | word token =>
      have hMark : token.terminal ≠ .questionMark := by
        rw [hFirst token rfl]
        decide
      rw [List.cons_append, readArgumentFrom.eq_def]
      dsimp only
      rw [if_pos hMark]
      exact hRead
  | _ => exact hRead

/-- A bound of a wildcard; only an upper one counts. -/
private theorem readArgumentFrom_bound {mark word : Token} (hMark : mark.terminal = .questionMark)
    (hWord : word.terminal = .extendsWord ∨ word.terminal = .superWord) {nodes : List Node}
    {type : TypeName} (h : ReadsAs nodes type) {fuel : Nat} {after : List Node}
    (hAfter : EndsType after) (hFuel : 4 * nodes.length < fuel) :
    readArgumentFrom fuel (.word mark :: .word word :: (nodes ++ after)) =
      some (if word.terminal = .superWord then anyType else type, after) := by
  obtain ⟨fuel, rfl⟩ : ∃ less, fuel = less + 1 := ⟨fuel - 1, by omega⟩
  have hRead := h.readTypeFrom hAfter (show 4 * nodes.length ≤ fuel by omega)
  have hNot : ¬ mark.terminal ≠ .questionMark := not_not_intro hMark
  rw [readArgumentFrom.eq_def]
  dsimp only
  rw [if_neg hNot]
  rcases hWord with hWord | hWord
  · simp only [hWord, hRead]
    rfl
  · simp only [hWord, hRead]
    rfl

/-- A wildcard without a bound. -/
private theorem readArgumentFrom_any {mark : Token} (hMark : mark.terminal = .questionMark)
    {fuel : Nat} {after : List Node} (hAfter : EndsType after) :
    readArgumentFrom (fuel + 1) (.word mark :: after) = some (anyType, after) := by
  obtain ⟨token, rest, rfl, hToken⟩ := hAfter
  have hNot : ¬ mark.terminal ≠ .questionMark := not_not_intro hMark
  rw [readArgumentFrom.eq_def]
  dsimp only
  rw [if_neg hNot]
  rcases hToken with hToken | hToken | hToken <;> simp only [hToken]

private theorem values_typeArgument {bound : Nat} (hBelow : TypesBelow bound)
    (d : Derivation (.rule .typeArgument)) (hLength : d.tokens.length < bound) :
    ∃ type, d.values = some [.type type] ∧
      (∃ first rest, d.nodes = first :: rest ∧ first.isWord .moreThan = false) ∧
      ∀ fuel after, EndsType after → 4 * d.nodes.length < fuel →
        readArgumentFrom fuel (d.nodes ++ after) = some (type, after) := by
  obtain ⟨body, rfl⟩ := d.exists_rule
  rcases choice_cases body with ⟨plain, rfl⟩ | ⟨wildcard, rfl⟩
  · obtain ⟨type, hValues, hReads⟩ := hBelow plain hLength
    refine ⟨type, values_rule (values_left hValues) rfl, ?_, ?_⟩
    · obtain ⟨first, rest, hNodes, hFirst⟩ := hReads.exists_cons
      refine ⟨first, rest, hNodes, ?_⟩
      cases first with
      | word token => simp [Node.isWord, hFirst token rfl]
      | _ => rfl
    · exact fun fuel after hAfter hFuel => readArgumentFrom_type hReads hAfter hFuel
  · obtain ⟨markPart, boundPart, rfl⟩ := exists_sequence wildcard
    obtain ⟨mark, hMark, rfl⟩ := exists_terminal markPart
    have hFirst : (Node.word mark).isWord .moreThan = false := by simp [Node.isWord, hMark]
    rcases optional_cases boundPart with rfl | ⟨upper, rfl⟩
    · refine ⟨anyType,
        values_rule (values_right (values_sequence (values_dropped hMark rfl) rfl)) rfl,
        ⟨_, _, rfl, hFirst⟩, fun fuel after hAfter hFuel => ?_⟩
      obtain ⟨fuel, rfl⟩ : ∃ less, fuel = less + 1 := ⟨fuel - 1, by omega⟩
      exact readArgumentFrom_any hMark hAfter
    · obtain ⟨wordPart, typePart, rfl⟩ := exists_sequence upper
      obtain ⟨word, hWord, hWordValues, hWordNodes⟩ : ∃ word, (word.terminal = .extendsWord ∨
          word.terminal = .superWord) ∧ wordPart.values = some [.token word] ∧
            wordPart.nodes = [.word word] := by
        rcases wordPart.choice_cases with ⟨wordPart, rfl⟩ | ⟨wordPart, rfl⟩
        · obtain ⟨word, hWord, rfl⟩ := wordPart.exists_terminal
          exact ⟨word, .inl hWord, values_kept hWord rfl, rfl⟩
        · obtain ⟨word, hWord, rfl⟩ := wordPart.exists_terminal
          exact ⟨word, .inr hWord, values_kept hWord rfl, rfl⟩
      have hShorter : typePart.tokens.length < bound := by
        refine Nat.lt_of_le_of_lt ?_ hLength
        show _ ≤ ([mark] ++ (wordPart.tokens ++ typePart.tokens)).length
        simp only [List.length_append]
        omega
      obtain ⟨type, hValues, hReads⟩ := hBelow typePart hShorter
      refine ⟨if word.terminal = .superWord then anyType else type, ?_, ⟨_, _, rfl, hFirst⟩, ?_⟩
      · refine values_rule (values_right (values_sequence (values_dropped hMark rfl)
          (values_present (values_sequence hWordValues hValues)))) ?_
        rcases hWord with hWord | hWord <;>
          simp [Value.isToken, Value.type?, hWord, List.findSome?_cons]
      · intro fuel after hAfter hFuel
        replace hFuel : 4 * ([Node.word mark] ++ (wordPart.nodes ++ typePart.nodes)).length < fuel :=
          hFuel
        show readArgumentFrom fuel ([Node.word mark] ++ (wordPart.nodes ++ typePart.nodes) ++ after) = _
        rw [hWordNodes] at hFuel ⊢
        simp only [List.length_append, List.length_singleton] at hFuel
        rw [List.append_assoc, List.append_assoc]
        exact readArgumentFrom_bound hMark hWord hReads hAfter (by omega)

/-- Arguments with commas between them, up to the closing bracket. -/
private theorem values_argumentList {bound : Nat} (hBelow : TypesBelow bound)
    (d : Derivation (Expr.separatedBy (.terminal .comma) (.rule .typeArgument)))
    (hLength : d.tokens.length < bound) :
    ∃ types, d.values = some (types.map .type) ∧
      (∃ first rest, d.nodes = first :: rest ∧ first.isWord .moreThan = false) ∧
      ∀ fuel closing after, closing.terminal = .moreThan → 4 * (d.nodes.length + 1) ≤ fuel →
        readArgumentListFrom fuel (d.nodes ++ .word closing :: after) = some (types, after) := by
  obtain ⟨first, others, rfl⟩ := exists_sequence d
  induction others using many_induction generalizing first with
  | none =>
      obtain ⟨type, hValues, hFirst, hRead⟩ := values_typeArgument hBelow first
        (by simpa using hLength)
      refine ⟨[type], values_sequence hValues rfl, by simpa using hFirst, ?_⟩
      intro fuel closing after hClosing hFuel
      replace hFuel : 4 * ((first.nodes ++ []).length + 1) ≤ fuel := hFuel
      show readArgumentListFrom fuel (first.nodes ++ [] ++ _) = _
      rw [List.append_nil] at hFuel ⊢
      obtain ⟨fuel, rfl⟩ : ∃ less, fuel = less + 1 := ⟨fuel - 1, by omega⟩
      rw [readArgumentListFrom, hRead fuel _ ⟨_, _, rfl, .inr (.inr hClosing)⟩ (by omega)]
      simp [hClosing]
  | more one others ih =>
      obtain ⟨commaPart, second, rfl⟩ := one.exists_sequence
      obtain ⟨comma, hComma, rfl⟩ := commaPart.exists_terminal
      replace hLength : (first.tokens ++ ([comma] ++ second.tokens ++ others.tokens)).length
          < bound := hLength
      simp only [List.length_append] at hLength
      obtain ⟨type, hValues, ⟨head, tail, hNodes, hHead⟩, hRead⟩ :=
        values_typeArgument hBelow first (by omega)
      obtain ⟨types, hTypes, _, hList⟩ := ih second
        (by simp only [tokens, List.length_append]; omega)
      obtain ⟨secondValues, hSecond, _⟩ := second.exists_values
      obtain ⟨otherValues, hOthers, _⟩ := others.exists_values
      have hRest : some (secondValues ++ otherValues) = some (types.map .type) :=
        (values_sequence hSecond hOthers).symm.trans hTypes
      refine ⟨type :: types, ?_, ⟨head, _, congrArg (· ++ _) hNodes, hHead⟩, ?_⟩
      · have hAll := values_sequence hValues
          (values_more (values_sequence (values_dropped hComma rfl) hSecond) hOthers)
        rw [List.nil_append, Option.some.inj hRest] at hAll
        exact hAll
      · intro fuel closing after hClosing hFuel
        replace hFuel : 4 * ((first.nodes ++ ([Node.word comma] ++ second.nodes
            ++ others.nodes)).length + 1) ≤ fuel := hFuel
        show readArgumentListFrom fuel (first.nodes ++ ([Node.word comma] ++ second.nodes
            ++ others.nodes) ++ _) = _
        simp only [List.length_append, List.length_singleton] at hFuel
        obtain ⟨fuel, rfl⟩ : ∃ less, fuel = less + 1 := ⟨fuel - 1, by omega⟩
        have hNext := hList fuel closing after hClosing (by
          simp only [nodes, List.length_append]
          omega)
        rw [List.append_assoc, List.append_assoc, List.append_assoc, List.singleton_append,
          readArgumentListFrom, hRead fuel _ ⟨_, _, rfl, .inr (.inl hComma)⟩ (by omega)]
        simp only [nodes, List.append_assoc] at hNext
        simp [hComma, hNext]

/-- Type arguments, if there are any, are read up to where they end. -/
private theorem values_typeArguments {bound : Nat} (hBelow : TypesBelow bound)
    (d : Derivation (.optional (.rule .typeArguments))) (hLength : d.tokens.length < bound) :
    ∃ arguments, (d.values = some [.types arguments] ∨ d.values = some [] ∧ arguments = []) ∧
      ∀ fuel after, EndsName after → 4 * d.nodes.length + 2 ≤ fuel →
        readArgumentsFrom fuel (d.nodes ++ after) = some (arguments, after) := by
  rcases d.optional_cases with rfl | ⟨angled, rfl⟩
  · refine ⟨[], .inr ⟨rfl, rfl⟩, fun fuel after hAfter hFuel => ?_⟩
    obtain ⟨fuel, rfl⟩ : ∃ less, fuel = less + 1 := ⟨fuel - 1, by omega⟩
    show readArgumentsFrom (fuel + 1) after = _
    rw [readArgumentsFrom.eq_def]
    split
    · cases ‹_ + 1 = 0›
    · next less hFuel =>
        split
        · next token rest =>
            rw [if_pos (hAfter token rest rfl)]
        · rfl
  · obtain ⟨body, rfl⟩ := angled.exists_rule
    obtain ⟨openingPart, rest, rfl⟩ := exists_sequence body
    obtain ⟨listPart, closingPart, rfl⟩ := exists_sequence rest
    obtain ⟨opening, hOpening, rfl⟩ := exists_terminal openingPart
    obtain ⟨closing, hClosing, rfl⟩ := exists_terminal closingPart
    have hNot : ¬ opening.terminal ≠ .lessThan := not_not_intro hOpening
    rcases optional_cases listPart with rfl | ⟨list, rfl⟩
    · refine ⟨[], .inl ?_, fun fuel after _ hFuel => ?_⟩
      · exact values_present (values_rule (values_sequence (values_dropped hOpening rfl)
          (values_sequence rfl (values_dropped hClosing rfl))) rfl)
      · obtain ⟨fuel, rfl⟩ : ∃ less, fuel = less + 1 := ⟨fuel - 1, by omega⟩
        show readArgumentsFrom (fuel + 1) (.word opening :: .word closing :: after) = _
        rw [readArgumentsFrom.eq_def]
        dsimp only
        rw [if_neg hNot, if_pos hClosing]
    · replace hLength : ([opening] ++ (list.tokens ++ [closing])).length < bound := hLength
      simp only [List.length_append] at hLength
      obtain ⟨types, hTypes, ⟨first, rest, hNodes, hFirst⟩, hRead⟩ :=
        values_argumentList hBelow list (by omega)
      refine ⟨types, .inl ?_, fun fuel after _ hFuel => ?_⟩
      · refine values_present (values_rule (values_sequence (values_dropped hOpening rfl)
          (values_sequence (values_present hTypes) (values_dropped hClosing rfl))) ?_)
        simp [List.filterMap_map, Function.comp_def, Value.type?]
      · obtain ⟨fuel, rfl⟩ : ∃ less, fuel = less + 1 := ⟨fuel - 1, by omega⟩
        replace hFuel : 4 * ([Node.word opening] ++ (list.nodes ++ [Node.word closing])).length + 2
            ≤ fuel + 1 := hFuel
        simp only [List.length_append, List.length_singleton] at hFuel
        have hList := hRead fuel closing after hClosing (by omega)
        have hShape : (Node.word opening :: (list.nodes ++ [Node.word closing])) ++ after =
            .word opening :: (list.nodes ++ .word closing :: after) := by simp
        show readArgumentsFrom (fuel + 1)
          ((Node.word opening :: (list.nodes ++ [Node.word closing])) ++ after) = _
        rw [hShape]
        rw [hNodes] at hList ⊢
        rw [readArgumentsFrom.eq_def]
        dsimp only
        rw [if_neg hNot]
        cases first with
        | word token =>
            simp only [Node.isWord, decide_eq_false_iff_not] at hFirst
            rw [List.cons_append]
            dsimp only
            rw [if_neg hFirst]
            exact hList
        | _ => exact hList

/-- A segment is annotations, a name, and arguments. -/
private theorem values_typeSegment {bound : Nat} (hBelow : TypesBelow bound)
    (d : Derivation (.rule .typeSegment)) (hLength : d.tokens.length ≤ bound) :
    ∃ uses name core arguments, d.values = some [.segment name.text arguments] ∧
      d.nodes = uses ++ .word name :: core ∧ (∀ node ∈ uses, node.isUse = true) ∧
      name.terminal = .identifier ∧
      ∀ fuel after, EndsName after → 4 * core.length + 2 ≤ fuel →
        readArgumentsFrom fuel (core ++ after) = some (arguments, after) := by
  obtain ⟨body, rfl⟩ := d.exists_rule
  obtain ⟨uses, rest, rfl⟩ := exists_sequence body
  obtain ⟨namePart, argumentPart, rfl⟩ := exists_sequence rest
  obtain ⟨name, hName, rfl⟩ := exists_terminal namePart
  obtain ⟨values, hValues, nothing, hUses⟩ := uses.values_annotations
  replace hLength : (uses.tokens ++ ([name] ++ argumentPart.tokens)).length ≤ bound := hLength
  simp only [List.length_append, List.length_singleton] at hLength
  obtain ⟨arguments, hArguments, hRead⟩ := values_typeArguments hBelow argumentPart
    (show argumentPart.tokens.length < bound by omega)
  refine ⟨uses.nodes, name, argumentPart.nodes, arguments, ?_, rfl, hUses, hName, hRead⟩
  have hText := @Value.not_picked _ (Value.text? .identifier) rfl _ nothing
  have hTypes := @Value.not_picked _ Value.types? rfl _ nothing
  rcases hArguments with hArguments | ⟨hArguments, rfl⟩ <;>
  · refine values_rule
      (values_sequence hValues (values_sequence (values_kept hName rfl) hArguments)) ?_
    rw [Rule.make, findSome?_append_of_none hText, findSome?_append_of_none hTypes]
    simp [Value.text?, Value.types?, hName, List.findSome?_cons]

/-- Reading goes from dot to dot; arguments and dimensions belong to the last segment. -/
private theorem values_segments {bound : Nat} (hBelow : TypesBelow bound)
    (d : Derivation (.many (.sequence (.terminal .dot) (.rule .typeSegment))))
    (hLength : d.tokens.length ≤ bound) :
    ∃ segments : List (String × List TypeName),
      d.values = some (segments.map fun segment => .segment segment.1 segment.2) ∧
      ∀ {name : Token} {core : List Node} {arguments : List TypeName},
        name.terminal = .identifier →
        (∀ fuel after, EndsName after → 4 * core.length + 2 ≤ fuel →
          readArgumentsFrom fuel (core ++ after) = some (arguments, after)) →
        ∀ {behind after : List Node} {count : Nat}, EndsSegment behind →
          readDimensions behind = (count, after) →
          ∀ fuel, 4 * (core.length + d.nodes.length + 1) ≤ fuel →
            readTypeFrom fuel (.word name :: (core ++ (d.nodes ++ behind))) =
              some (⟨".".intercalate (name.text :: segments.map (·.1)),
                (segments.getLast?.getD (name.text, arguments)).2, count⟩, after) := by
  induction d using many_induction with
  | none =>
      refine ⟨[], rfl, fun {name core arguments} hName hArguments => ?_⟩
      intro behind after count hBehind hCount fuel hFuel
      obtain ⟨fuel, rfl⟩ : ∃ less, fuel = less + 1 := ⟨fuel - 1, by omega⟩
      show readTypeFrom (fuel + 1) (.word name :: (core ++ behind)) = _
      have hRead := hArguments fuel behind hBehind.endsName (by omega)
      simp only [readTypeFrom, dropAnnotations, hName, ne_eq, not_true_eq_false, if_false, hRead,
        Option.bind_eq_bind, Option.bind_some]
      split
      · next dot rest =>
          rw [if_neg (hBehind dot rest rfl).2, hCount]
          simp
      · rw [hCount]
        simp
  | more one others ih =>
      obtain ⟨dotPart, segmentPart, rfl⟩ := one.exists_sequence
      obtain ⟨dot, hDot, rfl⟩ := dotPart.exists_terminal
      replace hLength : ([dot] ++ segmentPart.tokens ++ others.tokens).length ≤ bound := hLength
      simp only [List.length_append] at hLength
      obtain ⟨uses, next, inner, nextArguments, hNext, hNodes, hUses, hNextName, hNextArguments⟩ :=
        values_typeSegment hBelow segmentPart (by omega)
      obtain ⟨segments, hSegments, hRead⟩ := ih (by omega)
      refine ⟨(next.text, nextArguments) :: segments,
        values_more (values_sequence (values_dropped hDot rfl) hNext) hSegments,
        fun {name core arguments} hName hArguments => ?_⟩
      intro behind after count hBehind hCount fuel hFuel
      obtain ⟨fuel, rfl⟩ : ∃ less, fuel = less + 1 := ⟨fuel - 1, by omega⟩
      replace hFuel : 4 * (core.length + ([Node.word dot] ++ segmentPart.nodes
          ++ others.nodes).length + 1) ≤ fuel + 1 := hFuel
      show readTypeFrom (fuel + 1) (.word name :: (core ++ ([Node.word dot] ++ segmentPart.nodes
          ++ others.nodes ++ behind))) = _
      rw [hNodes] at hFuel ⊢
      simp only [List.length_append, List.length_cons, List.length_nil] at hFuel
      have hTail := hRead hNextName hNextArguments hBehind hCount fuel (by omega)
      have hHead := hArguments fuel
        (.word dot :: (uses ++ .word next :: (inner ++ (others.nodes ++ behind))))
        (.word (by rw [hDot]; decide) _) (by omega)
      simp only [List.append_assoc, List.cons_append, List.nil_append]
      simp only [readTypeFrom, dropAnnotations, hName, ne_eq, not_true_eq_false, if_false, hHead,
        Option.bind_eq_bind, Option.bind_some, hDot, if_true, readTypeFrom_uses hUses, hTail]
      simp [String.intercalate_cons_cons, List.getLast?_cons]

private theorem values_type_of_below {bound : Nat} (hBelow : TypesBelow bound)
    (d : Derivation (.rule .type)) (hLength : d.tokens.length ≤ bound) :
    ∃ type, d.values = some [.type type] ∧ ReadsAs d.nodes type := by
  obtain ⟨body, rfl⟩ := d.exists_rule
  obtain ⟨classPart, dimensionPart, rfl⟩ := exists_sequence body
  obtain ⟨classBody, rfl⟩ := classPart.exists_rule
  obtain ⟨first, others, rfl⟩ := exists_sequence classBody
  replace hLength : (first.tokens ++ others.tokens ++ dimensionPart.tokens).length ≤ bound :=
    hLength
  simp only [List.length_append] at hLength
  obtain ⟨uses, name, core, arguments, hFirst, hNodes, hUses, hName, hArguments⟩ :=
    values_typeSegment hBelow first (by omega)
  obtain ⟨segments, hOthers, hRead⟩ :=
    values_segments hBelow others (show others.tokens.length ≤ bound by omega)
  obtain ⟨dimensions, hDimensions, each, hCount⟩ := values_dimensions dimensionPart
  let last := (segments.getLast?.getD (name.text, arguments)).2
  let text := ".".intercalate (name.text :: segments.map (·.1))
  have hClass : (rule (r := .classType) (sequence first others)).values =
      some [.type ⟨text, last, 0⟩] := by
    refine values_rule (values_sequence hFirst hOthers) ?_
    simp [List.filterMap_map, Function.comp_def, Value.segment?, List.getLast?_cons, text, last]
  refine ⟨⟨text, last, dimensions.length⟩, ?_, ?_⟩
  · refine values_rule (values_sequence hClass hDimensions) ?_
    have hAll : dimensions.countP Value.isDimension = dimensions.length := by
      rw [List.countP_eq_length]
      intro value mem
      rw [each value mem]
      rfl
    simp [Value.type?, Value.isDimension, hAll, List.findSome?_cons]
  · refine ⟨uses, name, core ++ (others.nodes ++ dimensionPart.nodes), ?_, hUses, hName, ?_⟩
    · show first.nodes ++ others.nodes ++ dimensionPart.nodes = _
      rw [hNodes]
      simp
    · intro fuel after hSegment hDimensions hFuel
      simp only [List.length_append] at hFuel
      rw [List.append_assoc, List.append_assoc]
      exact hRead hName hArguments (hCount.endsSegment hSegment)
        (hCount.readDimensions_append hDimensions) fuel
        (show 4 * (core.length + others.nodes.length + 1) ≤ fuel by omega)

/-- **A type is read as what its derivation means.**  The induction is on the number of tokens,
since arguments are types inside a type. -/
theorem values_type (d : Derivation (.rule .type)) :
    ∃ type, d.values = some [.type type] ∧ ReadsAs d.nodes type := by
  have below : ∀ bound, TypesBelow bound := by
    intro bound
    induction bound with
    | zero => exact fun _ hLength => absurd hLength (Nat.not_lt_zero _)
    | succ bound ih => exact fun d hLength => values_type_of_below ih d (by omega)
  exact values_type_of_below (below d.tokens.length) d (Nat.le_refl _)

end Derivation

/-! ## Type parameters -/

/-- What a terminal does to the number of angle brackets that are open inside those of the type
parameters, where it is passed over. -/
def Terminal.angle : Terminal → Nat → Option Nat
  | lessThan, depth => some (depth + 1)
  | moreThan, depth + 1 => some depth
  | moreThan, 0 => none
  | comma, 0 => none
  | _, depth => some depth

/-- The same for bodies. -/
def Expr.angle : Expr → Nat → Option Nat
  | terminal t, depth => t.angle depth
  | rule r, depth =>
      match r with
      | .annotationUse | .type | .classType | .typeSegment | .typeArguments | .typeArgument
      | .dimension => .some depth
      | _ => Option.none
  | sequence first second, depth => (first.angle depth).bind second.angle
  | choice left right, depth =>
      if left.angle depth = right.angle depth then left.angle depth else Option.none
  | optional part, depth => if part.angle depth = .some depth then .some depth else Option.none
  | many part, depth => if part.angle depth = .some depth then .some depth else Option.none

theorem Rule.angle_body {r : Rule} {depth left : Nat} (hRule : r ≠ .annotationUse)
    (h : Expr.angle (.rule r) depth = some left) : r.body.angle depth = some left := by
  cases r <;> first | exact absurd rfl hRule | cases h <;>
    simp [body, Expr.angle, Expr.chain, Expr.separatedBy, Expr.some, Terminal.angle]

private theorem readTypeParamsFrom_word {token : Token} {depth left : Nat}
    (h : token.terminal.angle depth = some left) (rest : List Node) :
    readTypeParamsFrom (depth + 1) false (.word token :: rest) =
      readTypeParamsFrom (left + 1) false rest := by
  rw [readTypeParamsFrom]
  split
  · next hToken =>
      rw [hToken] at h
      cases h
      rfl
  · next hToken =>
      rw [hToken] at h
      cases h
      rfl
  · next hToken =>
      rw [hToken] at h
      cases depth with
      | zero => cases h
      | succ depth =>
          cases h
          rfl
  · next hToken =>
      rw [hToken] at h
      cases depth with
      | zero => cases h
      | succ depth =>
          cases h
          rfl
  · next hLess hMore hComma =>
      have hLeft : depth = left := by
        cases hToken : token.terminal <;> rw [hToken] at h <;>
          first
          | exact Option.some.inj h
          | exact absurd hToken hLess
          | exact absurd hToken hMore
          | exact absurd hToken hComma
      rw [hLeft]

namespace Derivation

/-- **Bounds of type parameters are passed over.** -/
private theorem readTypeParamsFrom_nodes {e : Expr} (d : Derivation e) {depth left : Nat}
    (h : e.angle depth = some left) (rest : List Node) :
    readTypeParamsFrom (depth + 1) false (d.nodes ++ rest) =
      readTypeParamsFrom (left + 1) false rest := by
  induction d generalizing depth left rest with
  | @terminal t token hToken =>
      subst hToken
      exact readTypeParamsFrom_word h rest
  | @rule r body ih =>
      by_cases hAnnotation : r = .annotationUse
      · subst hAnnotation
        cases h
        obtain ⟨start, isOpen, hNodes⟩ := (rule body).nodes_annotationUse
        rw [hNodes]
        rfl
      · have hNoItem : r.isItem = false := by
          cases r <;> first | rfl | exact absurd rfl hAnnotation | cases h
        rw [nodes, if_neg (by simp [hNoItem])]
        exact ih (Rule.angle_body hAnnotation h) rest
  | sequence front back ihFront ihBack =>
      obtain ⟨between, hFront, hBack⟩ := Option.bind_eq_some_iff.mp h
      rw [nodes, List.append_assoc, ihFront hFront, ihBack hBack]
  | left chosen ih =>
      simp only [Expr.angle, Option.ite_none_right_eq_some] at h
      exact ih h.2 rest
  | right chosen ih =>
      simp only [Expr.angle, Option.ite_none_right_eq_some] at h
      exact ih (h.1 ▸ h.2) rest
  | absent | none =>
      simp only [Expr.angle, Option.ite_none_right_eq_some] at h
      cases h.2
      rfl
  | present one ih =>
      simp only [Expr.angle, Option.ite_none_right_eq_some] at h
      cases h.2
      exact ih h.1 rest
  | more one others ihOne ihOthers =>
      have hMany := h
      simp only [Expr.angle, Option.ite_none_right_eq_some] at h
      cases h.2
      rw [nodes, List.append_assoc, ihOne h.1, ihOthers hMany]

private theorem readTypeParamsFrom_uses {uses : List Node} (h : ∀ node ∈ uses, node.isUse = true)
    (depth : Nat) (isNext : Bool) (rest : List Node) :
    readTypeParamsFrom depth isNext (uses ++ rest) = readTypeParamsFrom depth isNext rest :=
  @skips_uses _ (readTypeParamsFrom depth isNext) (fun _ _ _ => rfl) _ h rest

/-- Of a type parameter only its name is read. -/
private theorem values_typeParameter (d : Derivation (.rule .typeParameter)) :
    ∃ name, d.values = some [.name name] ∧ ∀ rest,
      readTypeParamsFrom 1 true (d.nodes ++ rest) = name :: readTypeParamsFrom 1 false rest := by
  obtain ⟨body, rfl⟩ := d.exists_rule
  obtain ⟨uses, rest, rfl⟩ := exists_sequence body
  obtain ⟨namePart, boundPart, rfl⟩ := exists_sequence rest
  obtain ⟨name, hName, rfl⟩ := exists_terminal namePart
  obtain ⟨values, hValues, nothing, hUses⟩ := uses.values_annotations
  obtain ⟨bounds, hBounds, _⟩ := boundPart.exists_values
  have hText := @Value.not_picked _ (Value.text? .identifier) rfl _ nothing
  refine ⟨name.text, ?_, fun after => ?_⟩
  · refine values_rule
      (values_sequence hValues (values_sequence (values_kept hName rfl) hBounds)) ?_
    rw [Rule.make, findSome?_append_of_none hText]
    simp [Value.text?, hName]
  · show readTypeParamsFrom 1 true (uses.nodes ++ ([Node.word name] ++ boundPart.nodes) ++ after) = _
    rw [List.append_assoc, readTypeParamsFrom_uses hUses, List.append_assoc, List.singleton_append,
      readTypeParamsFrom]
    simp only [hName, if_true]
    rw [@readTypeParamsFrom_nodes _ boundPart 0 0 rfl]

private theorem values_typeParameterList
    (d : Derivation (Expr.separatedBy (.terminal .comma) (.rule .typeParameter))) :
    ∃ names, d.values = some (names.map .name) ∧ ∀ closing after,
      closing.terminal = .moreThan →
        readTypeParamsFrom 1 true (d.nodes ++ .word closing :: after) = names := by
  obtain ⟨first, others, rfl⟩ := exists_sequence d
  induction others using many_induction generalizing first with
  | none =>
      obtain ⟨name, hValues, hRead⟩ := first.values_typeParameter
      refine ⟨[name], values_sequence hValues rfl, fun closing after hClosing => ?_⟩
      show readTypeParamsFrom 1 true (first.nodes ++ [] ++ _) = _
      rw [List.append_nil, hRead]
      simp [readTypeParamsFrom, hClosing]
  | more one others ih =>
      obtain ⟨commaPart, second, rfl⟩ := one.exists_sequence
      obtain ⟨comma, hComma, rfl⟩ := commaPart.exists_terminal
      obtain ⟨name, hValues, hRead⟩ := first.values_typeParameter
      obtain ⟨names, hNames, hList⟩ := ih second
      obtain ⟨secondValues, hSecond, _⟩ := second.exists_values
      obtain ⟨otherValues, hOthers, _⟩ := others.exists_values
      have hRest : some (secondValues ++ otherValues) = some (names.map .name) :=
        (values_sequence hSecond hOthers).symm.trans hNames
      refine ⟨name :: names, ?_, fun closing after hClosing => ?_⟩
      · have hAll := values_sequence hValues
          (values_more (values_sequence (values_dropped hComma rfl) hSecond) hOthers)
        rw [List.nil_append, Option.some.inj hRest] at hAll
        exact hAll
      · have hNext := hList closing after hClosing
        show readTypeParamsFrom 1 true (first.nodes ++ ([Node.word comma] ++ second.nodes
          ++ others.nodes) ++ _) = _
        simp only [nodes, List.append_assoc] at hNext
        simp only [List.append_assoc, List.cons_append, List.nil_append, hRead]
        simp only [readTypeParamsFrom, hComma, decide_true, hNext]

/-- **Type parameters are read by their names.** -/
theorem values_typeParameters (d : Derivation (.optional (.rule .typeParameters))) :
    ∃ values names, d.values = some values ∧
      (values = [.names names] ∨ values = [] ∧ names = []) ∧
      ∀ after, EndsName after → readTypeParams (d.nodes ++ after) = names := by
  rcases d.optional_cases with rfl | ⟨angled, rfl⟩
  · refine ⟨[], [], rfl, .inr ⟨rfl, rfl⟩, fun after hAfter => ?_⟩
    show readTypeParams after = []
    unfold readTypeParams
    split
    · next token rest => rw [if_neg (hAfter token rest rfl)]
    · rfl
  · obtain ⟨body, rfl⟩ := angled.exists_rule
    obtain ⟨openingPart, rest, rfl⟩ := exists_sequence body
    obtain ⟨list, closingPart, rfl⟩ := exists_sequence rest
    obtain ⟨opening, hOpening, rfl⟩ := exists_terminal openingPart
    obtain ⟨closing, hClosing, rfl⟩ := exists_terminal closingPart
    obtain ⟨names, hNames, hRead⟩ := values_typeParameterList list
    refine ⟨[.names names], names, ?_, .inl rfl, fun after _ => ?_⟩
    · refine values_present (values_rule (values_sequence (values_dropped hOpening rfl)
        (values_sequence hNames (values_dropped hClosing rfl))) ?_)
      simp [List.filterMap_map, Function.comp_def, Value.name?]
    · show readTypeParams ([Node.word opening] ++ (list.nodes ++ [Node.word closing]) ++ after) = _
      rw [List.append_assoc, List.append_assoc, List.singleton_append, List.singleton_append,
        readTypeParams, if_pos hOpening]
      exact hRead closing after hClosing

end Derivation

end ClassSchema.Java
