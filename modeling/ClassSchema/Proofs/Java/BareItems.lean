import ClassSchema.Java.Reading
import Mathlib.Data.List.Basic

/-!
# What reading looks at

Reading looks at the classes, the words and the comments of tokens, never at their
places, and it looks into braces only for the body of a declared type.  Of a token
between quotes it sees no more than that it is there.  `bare` forgets the rest: places,
what stands between quotes, and what braces hold.  Everything that is read of items
is read of bare items as well, except for those bodies.

## Main results

* `readFields_bare`: fields are read of bare items.
* `readMember_eq_of_bare`: two members with the same bare items declare the same,
  if the bodies that are read of them are the same.
-/

namespace ClassSchema.Java

open ClassSchema.Text (Place)

/-- A token without its place. -/
def Token.bare (token : Token) : Token := { token with place := .start }

@[simp] theorem Token.terminal_bare (token : Token) : token.bare.terminal = token.terminal := rfl

@[simp] theorem Token.text_bare (token : Token) : token.bare.text = token.text := rfl

@[simp] theorem Token.doc_bare (token : Token) : token.bare.doc = token.doc := rfl

/-- The terminals of literals in quotes. -/
def Terminal.isQuoted : Terminal → Bool
  | textBlock | stringLiteral | charLiteral => true
  | _ => false

/-- A token as reading sees it: without its place, and without its text if that is quoted. -/
def Token.seen (token : Token) : Token :=
  { token with place := .start, text := if token.terminal.isQuoted then "" else token.text }

@[simp] theorem Token.terminal_seen (token : Token) : token.seen.terminal = token.terminal := rfl

@[simp] theorem Token.doc_seen (token : Token) : token.seen.doc = token.doc := rfl

theorem Token.text_seen {token : Token} (h : token.terminal.isQuoted = false) :
    token.seen.text = token.text := by
  rw [seen, h]
  rfl

theorem Token.text_seen_of_identifier {token : Token} (h : token.terminal = .identifier) :
    token.seen.text = token.text :=
  text_seen (by rw [h]; rfl)

/-- A token without a place and without a doc comment. -/
def Token.plain (terminal : Terminal) (text : String) : Token := ⟨terminal, text, .start, none⟩

/-- An item as reading sees it, without what braces hold. -/
def Node.bare : Node → Node
  | word token => word token.seen
  | annotationUse start isOpen => annotationUse start.seen isOpen
  | parens => parens
  | braces _ _ => braces .empty .empty

/-- Bare items in order. -/
def bare (items : List Node) : List Node := items.map Node.bare

@[simp] theorem bare_nil : bare [] = [] := rfl

@[simp] theorem bare_cons (item : Node) (items : List Node) :
    bare (item :: items) = item.bare :: bare items := rfl

@[simp] theorem bare_append (front back : List Node) :
    bare (front ++ back) = bare front ++ bare back := List.map_append

@[simp] theorem bare_length (items : List Node) : (bare items).length = items.length :=
  List.length_map _

@[simp] theorem Node.isWord_bare (terminal : Terminal) (item : Node) :
    item.bare.isWord terminal = item.isWord terminal := by
  cases item <;> rfl

@[simp] theorem Node.doc_bare (item : Node) : item.bare.doc = item.doc := by
  cases item <;> rfl

/-! ## Putting items -/

theorem pushWord_bare (token : Token) (level : List Node) :
    pushWord token.seen (bare level) = bare (pushWord token level) := by
  by_cases hName : token.terminal = .identifier
  · match level with
    | .word sign :: .annotationUse _ true :: _ =>
        by_cases hDot : sign.terminal = .dot <;> by_cases hSign : sign.terminal = .atSign <;>
          simp [pushWord, Node.bare, hName, hDot, hSign]
    | [.word sign] | .word sign :: .annotationUse _ false :: _ | .word sign :: .word _ :: _
    | .word sign :: .parens :: _ | .word sign :: .braces _ _ :: _ =>
        by_cases hSign : sign.terminal = .atSign <;> simp [pushWord, Node.bare, hName, hSign]
    | [] | .annotationUse _ _ :: _ | .parens :: _ | .braces _ _ :: _ =>
        have hBare : token.seen.terminal = .identifier := hName
        rw [pushWord.eq_def, if_pos hBare, pushWord.eq_def, if_pos hName]
        rfl
  · simp [pushWord, Node.bare, hName]

theorem pushParens_bare (level : List Node) :
    pushParens (bare level) = bare (pushParens level) := by
  match level with
  | .annotationUse _ true :: _ => rfl
  | .annotationUse _ false :: _ => rfl
  | [] => rfl
  | .word _ :: _ => rfl
  | .parens :: _ => rfl
  | .braces _ _ :: _ => rfl

/-! ## Types -/

theorem dropAnnotations_bare (items : List Node) :
    dropAnnotations (bare items) = bare (dropAnnotations items) := by
  induction items with
  | nil => rfl
  | cons item items ih =>
      cases item with
      | annotationUse start isOpen => exact ih
      | _ => rfl

private theorem readDimensionsFrom_bare (keep items : List Node) :
    readDimensionsFrom (bare keep) (bare items) =
      ((readDimensionsFrom keep items).1, bare (readDimensionsFrom keep items).2) := by
  fun_induction readDimensionsFrom keep items with
  | case1 keep start isOpen rest ih => exact ih
  | case2 keep left right rest hBrackets count after hRest ih =>
      simp only [bare_cons, Node.bare, readDimensionsFrom, Token.terminal_seen, hBrackets,
        and_self, if_true, ih, hRest]
  | case3 keep left right rest hBrackets =>
      simp only [bare_cons, Node.bare, readDimensionsFrom, Token.terminal_seen, hBrackets, if_false]
  | case4 items keep hUse hWords =>
      match items with
      | [] => rfl
      | [.word _] => rfl
      | .word _ :: .annotationUse _ _ :: _ => rfl
      | .word _ :: .parens :: _ => rfl
      | .word _ :: .braces _ _ :: _ => rfl
      | .word left :: .word right :: rest => exact (hWords left right rest rfl).elim
      | .annotationUse start isOpen :: rest => exact (hUse start isOpen rest rfl).elim
      | .parens :: _ => rfl
      | .braces _ _ :: _ => rfl

theorem readDimensions_bare (items : List Node) :
    readDimensions (bare items) = ((readDimensions items).1, bare (readDimensions items).2) :=
  readDimensionsFrom_bare items items

/-- What is read of bare items, with the bare rest. -/
private def bareRest {α : Type} (result : α × List Node) : α × List Node :=
  (result.1, bare result.2)

private theorem readDimensions_pair_bare (name : String) (arguments : List TypeName)
    (items : List Node) :
    (let (dimensions, rest) := readDimensions (bare items)
     some ((⟨name, arguments, dimensions⟩ : TypeName), rest)) =
      (let (dimensions, rest) := readDimensions items
       some ((⟨name, arguments, dimensions⟩ : TypeName), rest)).map bareRest := by
  rw [readDimensions_bare]
  rfl

/-- With this much fuel, the readers of types read bare items like the items. -/
private structure ReadsBare (fuel : Nat) : Prop where
  type : ∀ items, readTypeFrom fuel (bare items) = (readTypeFrom fuel items).map bareRest
  arguments : ∀ items,
    readArgumentsFrom fuel (bare items) = (readArgumentsFrom fuel items).map bareRest
  argumentList : ∀ items,
    readArgumentListFrom fuel (bare items) = (readArgumentListFrom fuel items).map bareRest
  argument : ∀ items,
    readArgumentFrom fuel (bare items) = (readArgumentFrom fuel items).map bareRest

private theorem readTypeFrom_bare {fuel : Nat} (ih : ReadsBare fuel) (items : List Node) :
    readTypeFrom (fuel + 1) (bare items) = (readTypeFrom (fuel + 1) items).map bareRest := by
  simp only [readTypeFrom, dropAnnotations_bare]
  cases dropAnnotations items with
  | nil => rfl
  | cons item rest =>
      cases item with
      | word name =>
          simp only [bare_cons, Node.bare]
          by_cases hName : name.terminal ≠ .identifier
          · have hBare : name.seen.terminal ≠ .identifier := hName
            rw [if_pos hName, if_pos hBare]
            rfl
          · have hBare : ¬ name.seen.terminal ≠ .identifier := hName
            have hText := Token.text_seen_of_identifier (Decidable.not_not.mp hName)
            rw [if_neg hName, if_neg hBare, hText, ih.arguments]
            rcases readArgumentsFrom fuel rest with _ | ⟨arguments, after⟩
            · rfl
            · match after with
              | .word dot :: after =>
                  simp only [Option.map_some, bareRest, bare_cons, Node.bare,
                    Option.bind_eq_bind, Option.bind_some]
                  by_cases hDot : dot.terminal = .dot
                  · have hBareDot : dot.seen.terminal = .dot := hDot
                    rw [if_pos hDot, if_pos hBareDot, ih.type]
                    cases readTypeFrom fuel after <;> rfl
                  · have hBareDot : dot.seen.terminal ≠ .dot := hDot
                    rw [if_neg hDot, if_neg hBareDot]
                    exact readDimensions_pair_bare name.text arguments (.word dot :: after)
              | [] => exact readDimensions_pair_bare name.text arguments []
              | .annotationUse start isOpen :: after =>
                  exact readDimensions_pair_bare name.text arguments
                    (.annotationUse start isOpen :: after)
              | .parens :: after =>
                  exact readDimensions_pair_bare name.text arguments (.parens :: after)
              | .braces asClass asEnum :: after =>
                  exact readDimensions_pair_bare name.text arguments
                    (.braces asClass asEnum :: after)
      | _ => rfl

private theorem readArgumentsFrom_bare {fuel : Nat} (ih : ReadsBare fuel) (items : List Node) :
    readArgumentsFrom (fuel + 1) (bare items) =
      (readArgumentsFrom (fuel + 1) items).map bareRest := by
  match items with
  | .word opening :: rest =>
      simp only [readArgumentsFrom, bare_cons, Node.bare]
      by_cases hOpening : opening.terminal ≠ .lessThan
      · have hBare : opening.seen.terminal ≠ .lessThan := hOpening
        rw [if_pos hOpening, if_pos hBare]
        rfl
      · have hBare : ¬ opening.seen.terminal ≠ .lessThan := hOpening
        rw [if_neg hOpening, if_neg hBare]
        match rest with
        | .word closing :: after =>
            simp only [bare_cons, Node.bare]
            by_cases hClosing : closing.terminal = .moreThan
            · have hBareClosing : closing.seen.terminal = .moreThan := hClosing
              rw [if_pos hClosing, if_pos hBareClosing]
              rfl
            · have hBareClosing : closing.seen.terminal ≠ .moreThan := hClosing
              rw [if_neg hClosing, if_neg hBareClosing]
              exact ih.argumentList (.word closing :: after)
        | [] => exact ih.argumentList []
        | .annotationUse start isOpen :: after =>
            exact ih.argumentList (.annotationUse start isOpen :: after)
        | .parens :: after => exact ih.argumentList (.parens :: after)
        | .braces asClass asEnum :: after =>
            exact ih.argumentList (.braces asClass asEnum :: after)
  | [] => rfl
  | .annotationUse _ _ :: _ => rfl
  | .parens :: _ => rfl
  | .braces _ _ :: _ => rfl

private theorem readArgumentListFrom_bare {fuel : Nat} (ih : ReadsBare fuel) (items : List Node) :
    readArgumentListFrom (fuel + 1) (bare items) =
      (readArgumentListFrom (fuel + 1) items).map bareRest := by
  simp only [readArgumentListFrom, ih.argument]
  rcases readArgumentFrom fuel items with _ | ⟨argument, after⟩
  · rfl
  · match after with
    | .word separator :: after =>
        simp only [Option.map_some, bareRest, bare_cons, Node.bare, Token.terminal_seen,
          Option.bind_eq_bind, Option.bind_some, ih.argumentList]
        split
        · rfl
        · cases readArgumentListFrom fuel after <;> rfl
        · rfl
    | [] => rfl
    | .annotationUse _ _ :: _ => rfl
    | .parens :: _ => rfl
    | .braces _ _ :: _ => rfl

private theorem readArgumentFrom_bare {fuel : Nat} (ih : ReadsBare fuel) (items : List Node) :
    readArgumentFrom (fuel + 1) (bare items) =
      (readArgumentFrom (fuel + 1) items).map bareRest := by
  match items with
  | .word mark :: rest =>
      simp only [readArgumentFrom, bare_cons, Node.bare]
      by_cases hMark : mark.terminal ≠ .questionMark
      · have hBare : mark.seen.terminal ≠ .questionMark := hMark
        rw [if_pos hMark, if_pos hBare]
        exact ih.type (.word mark :: rest)
      · have hBare : ¬ mark.seen.terminal ≠ .questionMark := hMark
        rw [if_neg hMark, if_neg hBare]
        match rest with
        | .word bound :: after =>
            simp only [bare_cons, Node.bare, Token.terminal_seen, ih.type]
            split
            · rfl
            · cases readTypeFrom fuel after <;> rfl
            · rfl
        | [] => rfl
        | .annotationUse _ _ :: _ => rfl
        | .parens :: _ => rfl
        | .braces _ _ :: _ => rfl
  | [] => exact ih.type []
  | .annotationUse start isOpen :: after => exact ih.type (.annotationUse start isOpen :: after)
  | .parens :: after => exact ih.type (.parens :: after)
  | .braces asClass asEnum :: after => exact ih.type (.braces asClass asEnum :: after)

private theorem readsBare (fuel : Nat) : ReadsBare fuel := by
  induction fuel with
  | zero => exact ⟨fun _ => rfl, fun _ => rfl, fun _ => rfl, fun _ => rfl⟩
  | succ fuel ih =>
      exact ⟨readTypeFrom_bare ih, readArgumentsFrom_bare ih, readArgumentListFrom_bare ih,
        readArgumentFrom_bare ih⟩

/-- Types are read of bare items. -/
theorem readType_bare (items : List Node) :
    readType (bare items) = (readType items).map fun result => (result.1, bare result.2) := by
  unfold readType
  rw [bare_length]
  exact (readsBare _).type items

/-! ## Modifiers, names and type parameters -/

theorem readModifiers_bare (items : List Node) :
    readModifiers (bare items) = ((readModifiers items).1, bare (readModifiers items).2) := by
  fun_induction readModifiers items with
  | case1 start isOpen rest ih => exact ih
  | case2 token rest hModifier modifiers after hRest ih =>
      have hText : token.seen.text = token.text :=
        Token.text_seen (by rcases hModifier with h | h <;> rw [h] <;> rfl)
      simp only [bare_cons, Node.bare, readModifiers, Token.terminal_seen, hText, hModifier,
        if_true, ih, hRest]
  | case3 token rest hModifier =>
      simp only [bare_cons, Node.bare, readModifiers, Token.terminal_seen, hModifier, if_false]
  | case4 items hUse hWord =>
      match items with
      | [] => rfl
      | .parens :: _ => rfl
      | .braces _ _ :: _ => rfl
      | .annotationUse start isOpen :: rest => exact (hUse start isOpen rest rfl).elim
      | .word token :: rest => exact (hWord token rest rfl).elim

private theorem readTypeParamsFrom_bare (depth : Nat) (isNext : Bool) (items : List Node) :
    readTypeParamsFrom depth isNext (bare items) = readTypeParamsFrom depth isNext items := by
  induction items generalizing depth isNext with
  | nil => rfl
  | cons item items ih =>
      cases item with
      | word token =>
          simp only [bare_cons, Node.bare, readTypeParamsFrom, Token.terminal_seen, ih]
          cases hTerminal : token.terminal with
          | identifier => simp only [Token.text_seen_of_identifier hTerminal]
          | _ => rfl
      | _ => exact ih depth isNext

theorem readTypeParams_bare (items : List Node) :
    readTypeParams (bare items) = readTypeParams items := by
  match items with
  | .word token :: rest =>
      simp only [bare_cons, Node.bare, readTypeParams, Token.terminal_seen,
        readTypeParamsFrom_bare]
  | [] => rfl
  | .annotationUse _ _ :: _ => rfl
  | .parens :: _ => rfl
  | .braces _ _ :: _ => rfl

theorem readName_bare (items : List Node) : readName (bare items) = readName items := by
  unfold readName bare
  rw [List.filterMap_map]
  congr 2
  funext item
  cases item with
  | word token =>
      by_cases hName : token.terminal = .identifier
      · simp [Node.bare, hName, Token.text_seen_of_identifier hName]
      · simp [Node.bare, hName]
  | _ => rfl

/-- Whether an item is a word in quotes. -/
def Node.isQuoted : Node → Bool
  | word token => token.terminal.isQuoted
  | _ => false

private theorem dropAnnotations_subset (items : List Node) : dropAnnotations items ⊆ items := by
  induction items with
  | nil => exact List.Subset.refl []
  | cons item items ih =>
      cases item with
      | annotationUse start isOpen => exact fun node mem => List.mem_cons_of_mem _ (ih mem)
      | _ => exact List.Subset.refl _

/-- The name of a constant is its first word, so that may not be quoted. -/
private theorem readConstant_bare {items : List Node} (h : ∀ item ∈ items, item.isQuoted = false) :
    readConstant (bare items) = readConstant items := by
  have hFront : ∀ item ∈ dropAnnotations items, item.isQuoted = false :=
    fun item mem => h item (dropAnnotations_subset items mem)
  unfold readConstant
  rw [dropAnnotations_bare]
  generalize dropAnnotations items = front at hFront ⊢
  match front with
  | [] => rfl
  | .word token :: _ => exact congrArg some (Token.text_seen (hFront _ List.mem_cons_self))
  | .annotationUse _ _ :: _ => rfl
  | .parens :: _ => rfl
  | .braces _ _ :: _ => rfl

/-! ## Declarators and fields -/

theorem splitCommas_bare (items : List Node) :
    splitCommas (bare items) = (splitCommas items).map bare := by
  induction items with
  | nil => rfl
  | cons item items ih =>
      simp only [bare_cons, splitCommas, Node.isWord_bare]
      by_cases hComma : item.isWord .comma = true
      · rw [if_pos hComma, if_pos hComma, ih]
        rfl
      · rw [if_neg hComma, if_neg hComma, ih]
        cases splitCommas items <;> rfl

private theorem mem_of_mem_splitCommas {items part : List Node} {item : Node}
    (mem : part ∈ splitCommas items) (hItem : item ∈ part) : item ∈ items := by
  induction items generalizing part with
  | nil =>
      rw [List.mem_singleton.mp mem] at hItem
      cases hItem
  | cons head items ih =>
      rw [splitCommas] at mem
      split at mem
      · rcases List.mem_cons.mp mem with rfl | mem
        · cases hItem
        · exact List.mem_cons_of_mem _ (ih mem hItem)
      · split at mem
        · rw [List.mem_singleton.mp mem, List.mem_singleton] at hItem
          exact hItem ▸ List.mem_cons_self
        · next first others hSplit =>
            rcases List.mem_cons.mp mem with rfl | mem
            · rcases List.mem_cons.mp hItem with rfl | hItem
              · exact List.mem_cons_self
              · exact List.mem_cons_of_mem _ (ih (hSplit ▸ List.mem_cons_self) hItem)
            · have hPart : part ∈ splitCommas items := hSplit ▸ List.mem_cons_of_mem _ mem
              exact List.mem_cons_of_mem _ (ih hPart hItem)

/-- Constants between commas are read of bare items. -/
theorem readConstants_bare {items : List Node} (h : ∀ item ∈ items, item.isQuoted = false) :
    (splitCommas (bare items)).filterMap readConstant =
      (splitCommas items).filterMap readConstant := by
  rw [splitCommas_bare, List.filterMap_map]
  exact List.filterMap_congr fun part mem =>
    readConstant_bare fun item hItem => h item (mem_of_mem_splitCommas mem hItem)

private theorem openingOf_bare (items : List Node) : openingOf (bare items) = openingOf items := by
  match items with
  | .word name :: rest =>
      simp only [bare_cons, Node.bare, openingOf, Token.terminal_seen, readDimensions_bare]
      by_cases hName : name.terminal = .identifier
      · rw [Token.text_seen_of_identifier hName]
        cases (readDimensions rest).2 with
        | nil => rfl
        | cons item after =>
            simp only [bare_cons, Node.isWord_bare]
            cases after <;> rfl
      · rw [if_pos hName, if_pos hName]
  | [] => rfl
  | .annotationUse _ _ :: _ => rfl
  | .parens :: _ => rfl
  | .braces _ _ :: _ => rfl

theorem readDeclarators_bare (items : List Node) :
    readDeclarators (bare items) = readDeclarators items := by
  unfold readDeclarators
  rw [splitCommas_bare, List.map_map]
  have hOpenings : (openingOf ∘ bare) = openingOf := funext openingOf_bare
  rw [hOpenings]

/-- **Fields are read of bare items.** -/
theorem readFields_bare (modifiers : List String) (doc : Option String) (items : List Node) :
    readFields modifiers doc (bare items) = readFields modifiers doc items := by
  unfold readFields
  rw [readType_bare]
  rcases readType items with _ | ⟨type, rest⟩
  · rfl
  · simp only [Option.map_some, readDeclarators_bare]

/-! ## Members -/

/-- The kind of type that a keyword declares; an at sign stands before the word of an
interface. -/
def Terminal.declares : Terminal → Option DeclKind
  | classWord => some .classDecl
  | interfaceWord | atSign => some .interfaceDecl
  | enumWord => some .enumDecl
  | _ => none

/-- The kind of type that a member declares, by the first word behind its modifiers. -/
def declaredKind (items : List Node) : Option DeclKind :=
  match (readModifiers items).2 with
  | .word token :: _ => token.terminal.declares
  | _ => none

/-- The body that an item holds, read as that of a class or of an enum. -/
def Node.body (isEnum : Bool) : Node → Option Body
  | braces asClass asEnum => some (if isEnum then asEnum else asClass)
  | _ => none

theorem readBody_eq (isEnum : Bool) (items : List Node) :
    readBody isEnum items = ((items.map (Node.body isEnum)).findSome? id).getD .empty := by
  unfold readBody
  rw [List.findSome?_map]
  rfl

/-- What a declaration reads of its items besides what it sees of them: its name, which is no
literal, and its body. -/
structure SameDeclared (kind : DeclKind) (items items' : List Node) : Prop where
  unquoted : ∀ item ∈ items, item.isQuoted = false
  bodies : items.map (Node.body (kind = .enumDecl)) = items'.map (Node.body (kind = .enumDecl))

/-- It is read behind the modifiers. -/
private theorem SameDeclared.of_append {kind : DeclKind} {front front' items items' : List Node}
    (h : SameDeclared kind (front ++ items) (front' ++ items'))
    (hLength : items.length = items'.length) : SameDeclared kind items items' where
  unquoted := fun item mem => h.unquoted item (List.mem_append_right front mem)
  bodies := by
    have hBodies := h.bodies
    rw [List.map_append, List.map_append] at hBodies
    exact (List.append_inj' hBodies (by rw [List.length_map, List.length_map, hLength])).2

/-- Modifiers are read from the front. -/
theorem readModifiers_suffix (items : List Node) :
    ∃ front, items = front ++ (readModifiers items).2 := by
  fun_induction readModifiers items with
  | case1 start isOpen rest ih =>
      obtain ⟨front, hFront⟩ := ih
      exact ⟨.annotationUse start isOpen :: front, congrArg _ hFront⟩
  | case2 token rest hModifier modifiers after hRest ih =>
      obtain ⟨front, hFront⟩ := ih
      rw [hRest] at hFront
      exact ⟨.word token :: front, congrArg _ hFront⟩
  | case3 => exact ⟨[], rfl⟩
  | case4 => exact ⟨[], rfl⟩

/-- Where the modifiers end is the same for the same bare items. -/
private theorem SameDeclared.readModifiers {kind : DeclKind} {items items' : List Node}
    (hBare : bare items = bare items') (h : SameDeclared kind items items') :
    SameDeclared kind (Java.readModifiers items).2 (Java.readModifiers items').2 := by
  obtain ⟨front, hFront⟩ := readModifiers_suffix items
  obtain ⟨front', hFront'⟩ := readModifiers_suffix items'
  have hLength : (Java.readModifiers items).2.length = (Java.readModifiers items').2.length := by
    have hModifiers := readModifiers_bare items
    rw [hBare, readModifiers_bare items'] at hModifiers
    have hRest := congrArg List.length (Prod.mk.inj hModifiers).2
    rw [bare_length, bare_length] at hRest
    exact hRest.symm
  rw [hFront, hFront'] at h
  exact h.of_append hLength

/-- Items that are the same when bare begin with the same word, or none of them with a word. -/
private theorem bare_word_cases {items items' : List Node} (h : bare items = bare items') :
    (∃ token rest token' rest', items = .word token :: rest ∧ items' = .word token' :: rest' ∧
      token.seen = token'.seen ∧ bare rest = bare rest') ∨
    ((∀ token rest, items ≠ .word token :: rest) ∧
      ∀ token rest, items' ≠ .word token :: rest) := by
  cases items with
  | nil =>
      have hNil : items' = [] := List.map_eq_nil_iff.mp h.symm
      subst hNil
      simp
  | cons item rest =>
      obtain ⟨item', rest', rfl, hItem, hRest⟩ := List.map_eq_cons_iff.mp h.symm
      cases item with
      | word token =>
          cases item' with
          | word token' =>
              exact .inl ⟨token, rest, token', rest', rfl, rfl, (Node.word.inj hItem).symm,
                hRest.symm⟩
          | _ => cases hItem
      | _ =>
          cases item' with
          | word token' => cases hItem
          | _ => simp

private theorem readTypeDecl_eq {kind : DeclKind} {modifiers : List String}
    {items items' : List Node} (hBare : bare items = bare items')
    (hDeclared : SameDeclared kind items items') :
    readTypeDecl kind modifiers items = readTypeDecl kind modifiers items' := by
  rcases bare_word_cases hBare with ⟨name, rest, name', rest', rfl, rfl, hName, hRest⟩ | ⟨hNo, hNo'⟩
  · have hQuoted : name.terminal.isQuoted = false := hDeclared.unquoted _ List.mem_cons_self
    have hTerminal : name'.terminal = name.terminal := by
      rw [← Token.terminal_seen, ← hName, Token.terminal_seen]
    have hText : name.text = name'.text := by
      rw [← Token.text_seen hQuoted, hName, Token.text_seen (hTerminal ▸ hQuoted)]
    have hParams : readTypeParams rest = readTypeParams rest' := by
      rw [← readTypeParams_bare rest, hRest, readTypeParams_bare]
    have hInner : readBody (kind = .enumDecl) rest = readBody (kind = .enumDecl) rest' := by
      rw [readBody_eq, readBody_eq, (List.cons.inj hDeclared.bodies).2]
    simp only [readTypeDecl, hText, hParams, hInner]
  · have hNothing : ∀ nodes : List Node, (∀ token rest, nodes ≠ .word token :: rest) →
        readTypeDecl kind modifiers nodes = .nothing := by
      intro nodes hNodes
      unfold readTypeDecl
      split
      · exact absurd rfl (hNodes _ _)
      · rfl
    rw [hNothing items hNo, hNothing items' hNo']

private theorem head_doc_bare (items : List Node) :
    ((bare items).head?.map Node.doc).getD none = (items.head?.map Node.doc).getD none := by
  cases items with
  | nil => rfl
  | cons item items => exact item.doc_bare

/-- What a member declares, by its comment, its modifiers and what follows them. -/
def memberBehind (doc : Option String) (modifiers : List String) (rest : List Node) :
    Member :=
  match rest with
  | .word token :: after =>
      match token.terminal with
      | .packageWord => .package (readName after)
      | .importWord => .importing {
          name := readName after
          isStatic := after.any (·.isWord .staticWord)
          isWildcard := after.any (·.isWord .star) }
      | .classWord => readTypeDecl .classDecl modifiers after
      | .interfaceWord => readTypeDecl .interfaceDecl modifiers after
      | .enumWord => readTypeDecl .enumDecl modifiers after
      | .atSign => readTypeDecl .interfaceDecl modifiers (after.drop 1)
      | _ => readFields modifiers doc rest
  | rest => readFields modifiers doc rest

theorem readMember_eq (items : List Node) :
    readMember items = memberBehind ((items.head?.map Node.doc).getD none)
      (readModifiers items).1 (readModifiers items).2 := rfl

theorem memberBehind_of_ne {rest : List Node}
    (h : ∀ token after, rest ≠ .word token :: after) (doc : Option String) (modifiers : List String) :
    memberBehind doc modifiers rest = readFields modifiers doc rest := by
  unfold memberBehind
  split
  · exact absurd rfl (h _ _)
  · rfl

private theorem any_isWord_bare (terminal : Terminal) (items : List Node) :
    (bare items).any (·.isWord terminal) = items.any (·.isWord terminal) := by
  unfold bare
  rw [List.any_map]
  congr 1
  funext item
  exact item.isWord_bare terminal

/-- What follows one keyword declares the same if it is the same when bare. -/
private theorem memberBehind_eq {token token' : Token} (hToken : token.seen = token'.seen)
    {rest rest' : List Node} (hBare : bare rest = bare rest') (doc : Option String)
    (modifiers : List String)
    (hDeclared : ∀ kind, token.terminal.declares = some kind → SameDeclared kind rest rest')
    (hFields : readFields modifiers doc (.word token :: rest) =
      readFields modifiers doc (.word token' :: rest')) :
    memberBehind doc modifiers (.word token :: rest) =
      memberBehind doc modifiers (.word token' :: rest') := by
  have hTerminal : token'.terminal = token.terminal := by
    rw [← Token.terminal_seen, ← hToken, Token.terminal_seen]
  have hName : readName rest = readName rest' := by
    rw [← readName_bare rest, hBare, readName_bare]
  simp only [memberBehind, hTerminal]
  cases hKeyword : token.terminal with
  | packageWord => simp only [hName]
  | importWord =>
      have hAny : ∀ terminal, rest.any (·.isWord terminal) = rest'.any (·.isWord terminal) := by
        intro terminal
        rw [← any_isWord_bare, hBare, any_isWord_bare]
      simp only [hName, hAny]
  | classWord => exact readTypeDecl_eq hBare (hDeclared _ (by rw [hKeyword]; rfl))
  | interfaceWord => exact readTypeDecl_eq hBare (hDeclared _ (by rw [hKeyword]; rfl))
  | enumWord => exact readTypeDecl_eq hBare (hDeclared _ (by rw [hKeyword]; rfl))
  | atSign =>
      have hBare' : bare (rest.drop 1) = bare (rest'.drop 1) := by
        unfold bare at hBare ⊢
        rw [List.map_drop, List.map_drop, hBare]
      have hInterface := hDeclared .interfaceDecl (by rw [hKeyword]; rfl)
      refine readTypeDecl_eq hBare' ⟨fun item mem => ?_, ?_⟩
      · exact hInterface.unquoted item (List.mem_of_mem_drop mem)
      · rw [List.map_drop, List.map_drop, hInterface.bodies]
  | _ => exact hFields

/-- **Members with the same bare items declare the same**, if a declared type has the same name and
body. -/
theorem readMember_eq_of_bare {items items' : List Node} (hBare : bare items = bare items')
    (hDeclared : ∀ kind, declaredKind items = some kind → SameDeclared kind items items') :
    readMember items = readMember items' := by
  have hDoc : (items.head?.map Node.doc).getD none = (items'.head?.map Node.doc).getD none := by
    rw [← head_doc_bare items, hBare, head_doc_bare]
  have hModifiers := readModifiers_bare items
  rw [hBare, readModifiers_bare items'] at hModifiers
  obtain ⟨hNames, hRest⟩ := Prod.mk.inj hModifiers
  rw [readMember_eq, readMember_eq, hDoc, hNames]
  have hBehind : ∀ kind, declaredKind items = some kind →
      SameDeclared kind (readModifiers items).2 (readModifiers items').2 :=
    fun kind hKind => (hDeclared kind hKind).readModifiers hBare
  generalize (readModifiers items).1 = modifiers
  generalize (items'.head?.map Node.doc).getD none = doc
  have hFields : readFields modifiers doc (readModifiers items).2 =
      readFields modifiers doc (readModifiers items').2 := by
    rw [← readFields_bare _ _ (readModifiers items).2, ← hRest, readFields_bare]
  rcases bare_word_cases hRest.symm with
    ⟨token, rest, token', rest', hItems, hItems', hToken, hAfter⟩ | ⟨hNo, hNo'⟩
  · rw [hItems, hItems'] at hFields ⊢
    apply memberBehind_eq hToken hAfter doc modifiers _ hFields
    intro kind hKind
    have hBoth := hBehind kind (by rw [declaredKind, hItems]; exact hKind)
    rw [hItems, hItems'] at hBoth
    have hLength : rest.length = rest'.length := by
      rw [← bare_length rest, hAfter, bare_length]
    exact @SameDeclared.of_append kind [.word token] [.word token'] rest rest' hBoth hLength
  · rw [memberBehind_of_ne hNo, memberBehind_of_ne hNo']
    exact hFields

end ClassSchema.Java
