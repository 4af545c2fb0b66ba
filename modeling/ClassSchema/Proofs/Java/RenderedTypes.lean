import ClassSchema.Proofs.Java.ItemShapes
import ClassSchema.Proofs.Java.RenderedRules

/-!
# Reading types back

The tokens of a header, a field or an import are flat: their outline is one word
for each of them.  Reading a type walks over these words as they were put down:
from dot to dot, into the arguments, and past the dimensions.  It stops at a name,
a comma or a closing bracket, and one of these follows every written type.

Reading is given a number that bounds its depth.  Four for each token is enough,
since a token is looked at by four functions at most.

## Main results

* `outline_words`: flat tokens are words.
* `memberItems_words`: a statement is the words in front of its semicolon.
* `readType_tokens`: a written type is read back.
-/

namespace ClassSchema.Java

/-! ## Words -/

/-- One word for each token. -/
def words (tokens : List Token) : List Node := tokens.map .word

@[simp] theorem words_nil : words [] = [] := rfl

@[simp] theorem words_cons (token : Token) (tokens : List Token) :
    words (token :: tokens) = .word token :: words tokens := rfl

@[simp] theorem words_append (front back : List Token) :
    words (front ++ back) = words front ++ words back := List.map_append

@[simp] theorem words_length (tokens : List Token) : (words tokens).length = tokens.length :=
  List.length_map _

theorem Terminal.isFlat_iff {terminal : Terminal} : terminal.isFlat = true ↔
    terminal.isBracket = false ∧ terminal ≠ .atSign ∧ terminal ≠ .semicolon ∧
      terminal ≠ .equalSign := by
  unfold isFlat
  simp [and_assoc]

private theorem pushWord_words {token : Token} {below : List Token}
    (h : ∀ other ∈ below, other.terminal ≠ .atSign) :
    pushWord token (words below) = .word token :: words below := by
  by_cases hName : token.terminal = .identifier
  · match below with
    | [] => simp [pushWord, hName]
    | [first] => simp [pushWord, hName, h first]
    | first :: second :: _ => simp [pushWord, hName, h first]
  · exact pushWord_of_ne hName _

private theorem behind_words {tokens below : List Token}
    (h : ∀ token ∈ tokens, token.terminal.isFlat = true)
    (hBelow : ∀ other ∈ below, other.terminal ≠ .atSign) :
    behind (words below) tokens = words (tokens.reverse ++ below) := by
  induction tokens generalizing below with
  | nil => exact behind_nil _
  | cons token tokens ih =>
      obtain ⟨hToken, hRest⟩ := List.forall_mem_cons.mp h
      obtain ⟨hOther, hSign, _, _⟩ := Terminal.isFlat_iff.mp hToken
      have hNext := @ih (token :: below) hRest (List.forall_mem_cons.mpr ⟨hSign, hBelow⟩)
      rw [behind_other hOther, pushWord_words hBelow, ← words_cons, hNext, List.reverse_cons,
        List.append_assoc, List.singleton_append]

/-- **Flat tokens are words.** -/
theorem outline_words {tokens : List Token} (h : ∀ token ∈ tokens, token.terminal.isFlat = true) :
    outline tokens = words tokens := by
  have hBehind := @behind_words tokens [] h (by simp)
  rw [words_nil, List.append_nil] at hBehind
  rw [outline_eq_reverse, hBehind, words, List.map_reverse, List.reverse_reverse]
  rfl

theorem balanced_words {tokens : List Token} (h : ∀ token ∈ tokens, token.terminal.isFlat = true) :
    Balanced (terminals tokens) := by
  induction tokens with
  | nil => exact .nil
  | cons token tokens ih =>
      obtain ⟨hToken, hRest⟩ := List.forall_mem_cons.mp h
      exact .other (Terminal.isFlat_iff.mp hToken).1 (ih hRest)

/-- A statement is the words in front of its semicolon. -/
theorem memberItems_words {tokens : List Token}
    (h : ∀ token ∈ tokens, token.terminal.isFlat = true) :
    memberItems (tokens ++ [Terminal.semicolon.token]) = words tokens := by
  have hQuiet : ∀ item ∈ words tokens, item.isQuiet = true := by
    intro item mem
    obtain ⟨token, hToken, rfl⟩ := List.mem_map.mp mem
    obtain ⟨_, _, hSemicolon, hEqual⟩ := Terminal.isFlat_iff.mp (h token hToken)
    simp [Node.isQuiet, hSemicolon, hEqual]
  have hMakes := @Makes.semicolon _ _ Terminal.semicolon.token (Phase.run_quiet hQuiet .open) rfl
  rw [← outline_words h, ← outline_semicolon (balanced_words h) rfl] at hMakes
  rw [memberItems_eq hMakes, outline_words h]

/-! ## Modifiers -/

theorem readModifiers_words {tokens : List Token}
    (h : ∀ token ∈ tokens, token.terminal = .modifier ∨ token.terminal = .staticWord)
    {token : Token} (hToken : ¬ (token.terminal = .modifier ∨ token.terminal = .staticWord))
    (rest : List Node) :
    readModifiers (words tokens ++ .word token :: rest) =
      (tokens.map Token.text, .word token :: rest) := by
  induction tokens with
  | nil => simp [readModifiers, hToken]
  | cons first tokens ih =>
      obtain ⟨hFirst, hRest⟩ := List.forall_mem_cons.mp h
      rw [words_cons, List.cons_append, readModifiers, if_pos hFirst, ih hRest]
      rfl

/-! ## Types -/

theorem dimensionTokens_succ (dimensions : Nat) :
    dimensionTokens (dimensions + 1) =
      Terminal.leftBracket.token :: Terminal.rightBracket.token :: dimensionTokens dimensions := by
  rw [dimensionTokens, List.replicate_succ, List.flatten_cons]
  rfl

theorem readDimensions_words (dimensions : Nat) {after : List Node} (h : EndsType after) :
    readDimensions (words (dimensionTokens dimensions) ++ after) = (dimensions, after) := by
  induction dimensions with
  | zero => exact h.endsDimensions after
  | succ dimensions ih =>
      rw [dimensionTokens_succ]
      show readDimensionsFrom _ (.word _ :: .word _ :: (words _ ++ after)) = _
      rw [readDimensionsFrom, if_pos ⟨rfl, rfl⟩, ← readDimensions, ih]

/-- Behind the dimensions the type ends, so no arguments and no dot follow its name. -/
private theorem exists_word_of_endsType (dimensions : Nat) {after : List Node}
    (h : EndsType after) :
    ∃ token rest, words (dimensionTokens dimensions) ++ after = .word token :: rest ∧
      token.terminal ≠ .lessThan ∧ token.terminal ≠ .dot := by
  cases dimensions with
  | zero =>
      obtain ⟨token, rest, rfl, hToken⟩ := h
      refine ⟨token, rest, rfl, ?_⟩
      rcases hToken with hToken | hToken | hToken <;> rw [hToken] <;> decide
  | succ dimensions =>
      rw [dimensionTokens_succ]
      exact ⟨_, _, rfl, by decide, by decide⟩

/-- A name is its segments with dots between them. -/
theorem intercalate_segments (name : String) :
    ".".intercalate (Dotted.segments name) = name := by
  have general : ∀ segments : List String, ".".intercalate segments =
      String.ofList (Separated.join '.' (segments.map String.toList)) := by
    intro segments
    induction segments with
    | nil => rfl
    | cons segment rest ih =>
        cases rest with
        | nil => simp [Separated.join]
        | cons second rest =>
            rw [String.intercalate_cons_cons, ih]
            apply String.toList_injective
            simp [Separated.join]
  rw [general, Dotted.join_segments]

/-- The tokens of a name: its first segment, and the others behind dots. -/
theorem dottedTokens_eq {name first : String} {rest : List String}
    (h : Dotted.segments name = first :: rest) :
    dottedTokens name =
      nameToken first :: rest.flatMap fun segment => [Terminal.dot.token, nameToken segment] := by
  rw [dottedTokens, h]
  simp [listed, List.flatMap_map]

/-- Reading goes from dot to dot; arguments and dimensions belong to the last segment. -/
private theorem readTypeFrom_segments {arguments : List TypeName} {argumentTokens : List Token}
    {dimensions : Nat} {after : List Node} (hAfter : EndsType after)
    (hArguments : ∀ fuel, 4 * argumentTokens.length + 2 ≤ fuel →
      readArgumentsFrom fuel
          (words argumentTokens ++ (words (dimensionTokens dimensions) ++ after)) =
        some (arguments, words (dimensionTokens dimensions) ++ after))
    (rest : List String) {head : Token} (hHead : head.terminal = .identifier) {fuel : Nat}
    (hFuel : 4 * (1 + 2 * rest.length + argumentTokens.length) ≤ fuel) :
    readTypeFrom fuel (.word head ::
        (words (rest.flatMap fun segment => [Terminal.dot.token, nameToken segment]) ++
          (words argumentTokens ++ (words (dimensionTokens dimensions) ++ after)))) =
      some (⟨".".intercalate (head.text :: rest), arguments, dimensions⟩, after) := by
  induction rest generalizing head fuel with
  | nil =>
      obtain ⟨fuel, rfl⟩ : ∃ less, fuel = less + 1 := ⟨fuel - 1, by omega⟩
      have hRead := hArguments fuel (by simp only [List.length_nil] at hFuel; omega)
      obtain ⟨token, others, hTail, _, hDot⟩ := exists_word_of_endsType dimensions hAfter
      have hDimensions := readDimensions_words dimensions hAfter
      rw [hTail] at hRead hDimensions ⊢
      rw [List.flatMap_nil, words_nil, List.nil_append]
      simp only [readTypeFrom, dropAnnotations, hHead, ne_eq, not_true_eq_false, if_false, hRead,
        Option.bind_eq_bind, Option.bind_some, hDot, hDimensions, String.intercalate_singleton]
      rfl
  | cons second rest ih =>
      obtain ⟨fuel, rfl⟩ : ∃ less, fuel = less + 1 := ⟨fuel - 1, by omega⟩
      rw [List.length_cons] at hFuel
      have hNext := @ih (nameToken second) rfl fuel (by omega)
      have hNone : ∀ items, readArgumentsFrom fuel (.word Terminal.dot.token :: items) =
          some ([], .word Terminal.dot.token :: items) := by
        intro items
        obtain ⟨less, rfl⟩ : ∃ less, fuel = less + 1 := ⟨fuel - 1, by omega⟩
        rfl
      rw [List.flatMap_cons, List.cons_append, List.cons_append, List.nil_append, words_cons,
        words_cons, List.cons_append, List.cons_append]
      have hDot : Terminal.dot.token.terminal = .dot := rfl
      simp only [readTypeFrom, dropAnnotations, hHead, ne_eq, not_true_eq_false, if_false, hNone,
        Option.bind_eq_bind, Option.bind_some, hDot, if_true, hNext, String.intercalate_cons_cons]
      rfl

/-- A type starts with a name. -/
theorem TypeName.exists_tokens (type : TypeName) :
    ∃ first rest, type.tokens = nameToken first :: rest := by
  obtain ⟨name, arguments, dimensions⟩ := type
  obtain ⟨first, rest, hSegments⟩ := exists_segments name
  rw [tokens, dottedTokens_eq hSegments]
  exact ⟨first, _, rfl⟩

/-- The tokens of a type are read back, with a doc comment in front of them or without. -/
private def IsReadBack (type : TypeName) : Prop :=
  ∀ (doc : Option String) (fuel : Nat) (after : List Node), EndsType after →
    4 * type.tokens.length ≤ fuel →
      readTypeFrom fuel (words (withDoc doc type.tokens) ++ after) = some (type, after)

private theorem readArgumentFrom_words {type : TypeName} (h : IsReadBack type) {fuel : Nat}
    {after : List Node} (hAfter : EndsType after) (hFuel : 4 * type.tokens.length < fuel) :
    readArgumentFrom fuel (words type.tokens ++ after) = some (type, after) := by
  obtain ⟨fuel, rfl⟩ : ∃ less, fuel = less + 1 := ⟨fuel - 1, by omega⟩
  have hRead := h none fuel after hAfter (by omega)
  obtain ⟨first, rest, hTokens⟩ := type.exists_tokens
  rw [hTokens] at hRead ⊢
  rw [words_cons, List.cons_append]
  have hMark : (nameToken first).terminal ≠ .questionMark := by
    show Terminal.identifier ≠ .questionMark
    decide
  rw [readArgumentFrom.eq_def]
  dsimp only
  rw [if_pos hMark]
  exact hRead

private theorem readArgumentListFrom_words {first : TypeName} {others : List TypeName}
    (h : ∀ type ∈ first :: others, IsReadBack type) (after : List Node) {fuel : Nat}
    (hFuel : 4 * ((listed .comma ((first :: others).map TypeName.tokens)).length + 1) ≤ fuel) :
    readArgumentListFrom fuel
        (words (listed .comma ((first :: others).map TypeName.tokens)) ++
          .word Terminal.moreThan.token :: after) =
      some (first :: others, after) := by
  induction others generalizing first fuel with
  | nil =>
      obtain ⟨fuel, rfl⟩ : ∃ less, fuel = less + 1 := ⟨fuel - 1, by omega⟩
      have hList : listed .comma ([first].map TypeName.tokens) = first.tokens := by
        simp [listed]
      rw [hList] at hFuel ⊢
      have hRead := @readArgumentFrom_words first (h first List.mem_cons_self) fuel
        (.word Terminal.moreThan.token :: after) ⟨_, _, rfl, .inr (.inr rfl)⟩ (by omega)
      rw [readArgumentListFrom, hRead]
      rfl
  | cons second others ih =>
      obtain ⟨fuel, rfl⟩ : ∃ less, fuel = less + 1 := ⟨fuel - 1, by omega⟩
      obtain ⟨hFirst, hOthers⟩ := List.forall_mem_cons.mp h
      have hList : listed .comma ((first :: second :: others).map TypeName.tokens) =
          first.tokens ++
            (Terminal.comma.token :: listed .comma ((second :: others).map TypeName.tokens)) := by
        simp [listed]
      rw [hList, List.length_append, List.length_cons] at hFuel
      have hRead := @readArgumentFrom_words first hFirst fuel
        (.word Terminal.comma.token ::
          (words (listed .comma ((second :: others).map TypeName.tokens)) ++
            .word Terminal.moreThan.token :: after)) ⟨_, _, rfl, .inr (.inl rfl)⟩ (by omega)
      have hRest := @ih second hOthers fuel (by omega)
      rw [hList, words_append, words_cons, List.append_assoc, List.cons_append,
        readArgumentListFrom, hRead]
      simp only [Option.bind_eq_bind, Option.bind_some]
      show (readArgumentListFrom fuel _).bind _ = _
      rw [hRest]
      rfl

private theorem readArgumentsFrom_angled {arguments : List TypeName}
    (h : ∀ argument ∈ arguments, IsReadBack argument) {tail : List Node}
    (hTail : ∃ token rest, tail = .word token :: rest ∧ token.terminal ≠ .lessThan) {fuel : Nat}
    (hFuel : 4 * (angled (arguments.map TypeName.tokens)).length + 2 ≤ fuel) :
    readArgumentsFrom fuel (words (angled (arguments.map TypeName.tokens)) ++ tail) =
      some (arguments, tail) := by
  obtain ⟨fuel, rfl⟩ : ∃ less, fuel = less + 1 := ⟨fuel - 1, by omega⟩
  cases arguments with
  | nil =>
      obtain ⟨token, rest, rfl, hToken⟩ := hTail
      show readArgumentsFrom (fuel + 1) (.word token :: rest) = _
      rw [readArgumentsFrom.eq_def]
      dsimp only
      rw [if_pos hToken]
  | cons first others =>
      have hAngled : angled ((first :: others).map TypeName.tokens) =
          Terminal.lessThan.token :: listed .comma ((first :: others).map TypeName.tokens) ++
            [Terminal.moreThan.token] := rfl
      rw [hAngled] at hFuel ⊢
      simp only [List.length_append, List.length_cons, List.length_nil] at hFuel
      have hRead := @readArgumentListFrom_words first others h tail fuel (by omega)
      obtain ⟨name, rest, hTokens⟩ := first.exists_tokens
      have hList : listed .comma ((first :: others).map TypeName.tokens) =
          nameToken name ::
            (rest ++ (others.map TypeName.tokens).flatMap (Terminal.comma.token :: ·)) := by
        rw [List.map_cons, listed, hTokens, List.cons_append]
      rw [hList, words_cons, List.cons_append] at hRead
      rw [hList, List.cons_append, List.cons_append, words_cons, words_cons, words_append,
        words_cons, words_nil, List.cons_append, List.cons_append, List.append_assoc,
        List.singleton_append, readArgumentsFrom.eq_def]
      exact hRead

private theorem length_segments (rest : List String) :
    (rest.flatMap fun segment => [Terminal.dot.token, nameToken segment]).length =
      2 * rest.length := by
  induction rest with
  | nil => rfl
  | cons segment rest ih =>
      rw [List.flatMap_cons, List.length_append, ih]
      simp only [List.length_cons, List.length_nil]
      omega

/-- **A written type is read back.** -/
private theorem isReadBack_of_isWritable {type : TypeName} (h : type.IsWritable) :
    IsReadBack type := by
  induction h with
  | @intro name arguments dimensions _ _ ih =>
      intro doc fuel after hAfter hFuel
      obtain ⟨first, rest, hSegments⟩ := exists_segments name
      obtain ⟨token, others, hTail, hLess, _⟩ := exists_word_of_endsType dimensions hAfter
      have hArguments : ∀ fuel, 4 * (angled (arguments.map TypeName.tokens)).length + 2 ≤ fuel →
          readArgumentsFrom fuel (words (angled (arguments.map TypeName.tokens)) ++
              (words (dimensionTokens dimensions) ++ after)) =
            some (arguments, words (dimensionTokens dimensions) ++ after) :=
        fun fuel hFuel => readArgumentsFrom_angled ih ⟨token, others, hTail, hLess⟩ hFuel
      have hLength := length_segments rest
      have hName := intercalate_segments name
      rw [hSegments] at hName
      rw [TypeName.tokens, TypeName.tokensOfEach_eq, dottedTokens_eq hSegments] at hFuel ⊢
      simp only [List.length_cons, List.length_append, List.cons_append, hLength] at hFuel
      have hRead := @readTypeFrom_segments arguments _ dimensions after hAfter hArguments rest
        { nameToken first with doc } rfl fuel (by omega)
      have hText : (nameToken first).text = first := rfl
      rw [hText, hName] at hRead
      rw [List.cons_append, withDoc, words_cons, words_append, words_append, List.cons_append,
        List.append_assoc, List.append_assoc]
      exact hRead

private theorem withDoc_append {tokens : List Token} (h : tokens ≠ []) (doc : Option String)
    (more : List Token) : withDoc doc (tokens ++ more) = withDoc doc tokens ++ more := by
  cases tokens with
  | nil => exact absurd rfl h
  | cons token rest => rfl

/-- **A written type is read back in front of a name.** -/
theorem readType_tokens {type : TypeName} (h : type.IsWritable) (doc : Option String)
    (name : String) :
    readType (words (withDoc doc (type.tokens ++ [nameToken name]))) =
      some (type, [.word (nameToken name)]) := by
  obtain ⟨first, rest, hTokens⟩ := type.exists_tokens
  have hNil : type.tokens ≠ [] := by
    rw [hTokens]
    exact List.cons_ne_nil _ _
  have hLength : (withDoc doc type.tokens).length = type.tokens.length := by
    rw [hTokens]
    rfl
  rw [withDoc_append hNil, words_append, readType]
  apply isReadBack_of_isWritable h doc
  · exact ⟨_, _, rfl, .inl rfl⟩
  · rw [List.length_append, words_length, hLength]
    omega

end ClassSchema.Java
