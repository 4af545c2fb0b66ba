import ClassSchema.Proofs.Java.MemberRules
import ClassSchema.Proofs.Java.BareItems

/-!
# The comment of the first token

The doc comment in front of a member is that of its first token.  With another comment
there the items of the member are the same but for the first of them, which carries the
comment: nothing that items are made of depends on comments, and the first item stays the
first.  Of the items only the fields look at it, so the member declares the same but for
the comments of its fields.

## Main results

* `outline_withDoc`: the outline of tokens whose first token has another comment.
* `memberItems_withDoc`: the items of a member whose first token has another comment.
* `readMember_withDoc`: the comment of the first item is that of the fields.
-/

namespace ClassSchema.Java

/-! ## Items with another comment -/

/-- A token with another doc comment in front of it. -/
def Token.withDoc (doc : Option String) (token : Token) : Token := { token with doc }

/-- An item with another doc comment in front of it.  Groups carry none. -/
def Node.withDoc (doc : Option String) : Node → Node
  | word token => word (token.withDoc doc)
  | annotationUse start isOpen => annotationUse (start.withDoc doc) isOpen
  | parens => parens
  | braces asClass asEnum => braces asClass asEnum

/-- Two levels whose first items, which stand last, differ in their comments. -/
def SameButDoc (doc : Option String) (level level' : List Node) : Prop :=
  ∃ above first, level = above ++ [first] ∧ level' = above ++ [first.withDoc doc]

namespace SameButDoc

variable {doc : Option String} {level level' below : List Node} {sign start : Token}

theorem append (h : SameButDoc doc level level') (above : List Node) :
    SameButDoc doc (above ++ level) (above ++ level') := by
  obtain ⟨inner, first, rfl, rfl⟩ := h
  exact ⟨above ++ inner, first, (List.append_assoc _ _ _).symm, (List.append_assoc _ _ _).symm⟩

theorem symm (h : SameButDoc doc level level') : ∃ other, SameButDoc other level' level := by
  obtain ⟨above, first, rfl, rfl⟩ := h
  refine ⟨first.doc, above, first.withDoc doc, rfl, ?_⟩
  cases first <;> rfl

/-- What stands on top of other items is the same. -/
private theorem of_above {top second : Node} (h : SameButDoc doc (top :: second :: below) level') :
    ∃ below', level' = top :: below' ∧ SameButDoc doc (second :: below) below' := by
  obtain ⟨above, first, hLevel, rfl⟩ := h
  cases above with
  | nil => cases hLevel
  | cons item above =>
      obtain ⟨rfl, hBelow⟩ := List.cons.inj hLevel
      exact ⟨_, rfl, above, first, hBelow, rfl⟩

private theorem of_single {item : Node} (h : SameButDoc doc [item] level') :
    level' = [item.withDoc doc] := by
  obtain ⟨above, first, hLevel, rfl⟩ := h
  cases above with
  | nil =>
      obtain rfl := List.singleton_inj.mp hLevel
      rfl
  | cons top above => simp at hLevel

/-- A word at the end of both levels is the same but for its comment. -/
private theorem of_word (h : SameButDoc doc (.word sign :: below) level') :
    ∃ sign' below', level' = .word sign' :: below' ∧ sign'.terminal = sign.terminal ∧
      SameButDoc doc (.annotationUse sign true :: below) (.annotationUse sign' true :: below') := by
  cases below with
  | nil =>
      obtain rfl := h.of_single
      exact ⟨sign.withDoc doc, [], rfl, rfl, [], .annotationUse sign true, rfl, rfl⟩
  | cons second below =>
      obtain ⟨below', rfl, hBelow⟩ := h.of_above
      exact ⟨sign, below', rfl, rfl, hBelow.append [.annotationUse sign true]⟩

/-- So is an annotation. -/
private theorem of_annotation {isOpen : Bool}
    (h : SameButDoc doc (.annotationUse start isOpen :: below) level') :
    ∃ start' below', level' = .annotationUse start' isOpen :: below' ∧ ∀ open',
      SameButDoc doc (.annotationUse start open' :: below)
        (.annotationUse start' open' :: below') := by
  cases below with
  | nil =>
      obtain rfl := h.of_single
      exact ⟨start.withDoc doc, [], rfl, fun open' => ⟨[], .annotationUse start open', rfl, rfl⟩⟩
  | cons second below =>
      obtain ⟨below', rfl, hBelow⟩ := h.of_above
      exact ⟨start, below', rfl, fun open' => hBelow.append [.annotationUse start open']⟩

/-- A word does the same to both levels. -/
theorem pushWord (h : SameButDoc doc level level') (token : Token) :
    SameButDoc doc (Java.pushWord token level) (Java.pushWord token level') := by
  rcases pushWord_cases token level with
    hWord | ⟨sign, below, rfl, hSign, hName, hPush⟩ | ⟨dot, start, below, rfl, hDot, hName, hPush⟩
  · rcases pushWord_cases token level' with
      hWord' | ⟨sign, below, rfl, hSign, hName, -⟩ | ⟨dot, start, below, rfl, hDot, hName, -⟩
    · rw [hWord, hWord']
      exact h.append [.word token]
    · obtain ⟨other, hOther⟩ := h.symm
      obtain ⟨sign', below', rfl, hTerminal, -⟩ := hOther.of_word
      rw [pushWord_sign (hTerminal.trans hSign) hName] at hWord
      cases hWord
    · obtain ⟨other, hOther⟩ := h.symm
      obtain ⟨_, rfl, hBelow⟩ := hOther.of_above
      obtain ⟨start', below', rfl, -⟩ := hBelow.of_annotation
      rw [pushWord_dot hDot hName] at hWord
      cases hWord
  · obtain ⟨sign', below', rfl, hTerminal, hSame⟩ := h.of_word
    rwa [hPush, pushWord_sign (hTerminal.trans hSign) hName]
  · obtain ⟨_, rfl, hBelow⟩ := h.of_above
    obtain ⟨start', below', rfl, hSame⟩ := hBelow.of_annotation
    rw [hPush, pushWord_dot hDot hName]
    exact hSame true

/-- So does a group. -/
theorem pushGroup (h : SameButDoc doc level level') (b : Bracket) (content : List Node) :
    SameButDoc doc (Java.pushGroup b content level) (Java.pushGroup b content level') := by
  cases b with
  | brace => exact h.append [_]
  | paren =>
      show SameButDoc doc (pushParens level) (pushParens level')
      rcases pushParens_cases level with hParens | ⟨start, below, rfl, hParens⟩
      · rcases pushParens_cases level' with hParens' | ⟨start, below, rfl, -⟩
        · rw [hParens, hParens']
          exact h.append [.parens]
        · obtain ⟨other, hOther⟩ := h.symm
          obtain ⟨start', below', rfl, -⟩ := hOther.of_annotation
          cases hParens
      · obtain ⟨start', below', rfl, hSame⟩ := h.of_annotation
        rw [hParens]
        exact hSame false

/-- Balanced tokens leave it at that. -/
theorem behind {tokens : List Token} (hTokens : Balanced (terminals tokens))
    (level level' : List Node) (h : SameButDoc doc level level') :
    SameButDoc doc (Java.behind level tokens) (Java.behind level' tokens) := by
  revert level level'
  refine hTokens.induction_tokens ?nil ?other ?group
  case nil =>
      intro level level' h
      rwa [behind_nil, behind_nil]
  case other =>
      intro token tokens hOther ih level level' h
      rw [behind_other hOther, behind_other hOther]
      exact ih _ _ (h.pushWord token)
  case group =>
      intro b opening inner closing tokens hOpening hClosing hInner _ ih level level' h
      rw [behind_group hOpening hInner hClosing, behind_group hOpening hInner hClosing]
      exact ih _ _ (h.pushGroup b _)

/-- In their order, the items differ in the first one. -/
theorem reverse (h : SameButDoc doc level level') :
    level'.reverse = level.reverse.modifyHead (Node.withDoc doc) := by
  obtain ⟨above, first, rfl, rfl⟩ := h
  simp

end SameButDoc

private theorem pushWord_nil (token : Token) : pushWord token [] = [.word token] := by
  unfold pushWord
  split <;> rfl

/-- A group at the front is an item without a comment. -/
private theorem exists_group_item {b : Bracket} {closing : Token} {inner tokens : List Token}
    (hInner : Balanced (terminals inner)) (hClosing : closing.terminal = b.closing)
    (hTokens : Balanced (terminals tokens)) :
    ∃ item, (∀ doc, item.withDoc doc = item) ∧ ∀ opening : Token, opening.terminal = b.opening →
      outline (opening :: (inner ++ closing :: tokens)) = item :: outline tokens := by
  obtain ⟨item, hItem, hPush, hClosed⟩ : ∃ item : Node, (∀ doc, item.withDoc doc = item) ∧
      pushGroup b (outline inner) [] = [item] ∧ IsClosed [item] = true := by
    cases b with
    | paren => exact ⟨.parens, fun _ => rfl, rfl, rfl⟩
    | brace => exact ⟨.braces _ _, fun _ => rfl, rfl, rfl⟩
  refine ⟨item, hItem, fun opening hOpening => ?_⟩
  rw [outline_eq_reverse, ← List.cons_append, behind_group hOpening hInner hClosing, hPush,
    behind_of_isClosed hClosed hTokens, List.reverse_append, List.reverse_reverse]
  rfl

/-- **The outline of tokens whose first token has another comment.** -/
theorem outline_withDoc (doc : Option String) {token : Token} {rest : List Token}
    (h : Balanced (terminals (token :: rest))) :
    outline (token.withDoc doc :: rest) =
      (outline (token :: rest)).modifyHead (Node.withDoc doc) := by
  have hAll : ∀ tokens : List Token, Balanced (terminals tokens) →
      Balanced (terminals tokens) ∧ ∀ token rest, tokens = token :: rest →
        outline (token.withDoc doc :: rest) = (outline tokens).modifyHead (Node.withDoc doc) := by
    intro tokens hTokens
    refine hTokens.induction_tokens ?nil ?other ?group
    case nil => exact ⟨.nil, fun _ _ hNil => nomatch hNil⟩
    case other =>
        intro token tokens hOther ih
        refine ⟨.other hOther ih.1, ?_⟩
        rintro _ _ ⟨⟩
        have hOther' : (token.withDoc doc).terminal.isBracket = false := hOther
        have hFirst : SameButDoc doc (pushWord token []) (pushWord (token.withDoc doc) []) := by
          rw [pushWord_nil, pushWord_nil]
          exact ⟨[], .word token, rfl, rfl⟩
        rw [outline_eq_reverse, outline_eq_reverse, behind_other hOther, behind_other hOther']
        exact (hFirst.behind ih.1 _ _).reverse
    case group =>
        intro b opening inner closing tokens hOpening hClosing hInner _ ih
        have hGroup := Balanced.group b hInner ih.1
        refine ⟨by simpa [hOpening, hClosing] using hGroup, ?_⟩
        rintro _ _ ⟨⟩
        obtain ⟨item, hItem, hOutline⟩ := exists_group_item hInner hClosing ih.1
        have hOpening' : (opening.withDoc doc).terminal = b.opening := hOpening
        have hTokens : opening :: inner ++ closing :: tokens =
          opening :: (inner ++ closing :: tokens) := rfl
        rw [hTokens, hOutline opening hOpening, List.modifyHead_cons, hItem]
        exact hOutline _ hOpening'
  exact (hAll _ h).2 token rest rfl

/-! ## Members -/

/-- Comments mean nothing for braces. -/
private theorem Phase.run_withDoc (phase : Phase) (doc : Option String) (nodes : List Node) :
    phase.run (nodes.modifyHead (Node.withDoc doc)) = phase.run nodes := by
  cases nodes with
  | nil => rfl
  | cons node nodes => cases node <;> rfl

private theorem Makes.withDoc {nodes items : List Node} (h : Makes nodes items)
    (doc : Option String) :
    Makes (nodes.modifyHead (Node.withDoc doc)) (items.modifyHead (Node.withDoc doc)) := by
  cases h with
  | @semicolon _ phase token hRun hToken =>
      cases items with
      | nil => exact @Makes.semicolon [] phase (token.withDoc doc) hRun hToken
      | cons item items =>
          rw [← Phase.run_withDoc _ doc] at hRun
          exact .semicolon hRun hToken
  | @braces items phase asClass asEnum hRun hPhase =>
      cases items with
      | nil => exact .braces asClass asEnum hRun hPhase
      | cons item items =>
          rw [← Phase.run_withDoc _ doc] at hRun
          exact .braces asClass asEnum hRun hPhase

/-- **The items of a member whose first token has another comment.** -/
theorem memberItems_withDoc (doc : Option String) {token : Token} {rest : List Token}
    (h : IsMember (token :: rest)) :
    memberItems (token.withDoc doc :: rest) =
      (memberItems (token :: rest)).modifyHead (Node.withDoc doc) := by
  obtain ⟨items, hMakes⟩ := h.makes
  have hOther := hMakes.withDoc doc
  rw [← outline_withDoc doc h.balanced] at hOther
  rw [memberItems_eq hMakes, memberItems_eq hOther]

/-- A field without its comment. -/
def FieldDecl.undocumented (field : FieldDecl) : FieldDecl := { field with docComment := none }

/-- What a member declares, without comments. -/
def Member.undocumented : Member → Member
  | fields declarations => fields (declarations.map FieldDecl.undocumented)
  | member => member

private theorem readFields_undocumented (modifiers : List String) (doc doc' : Option String)
    (nodes : List Node) :
    (readFields modifiers doc nodes).undocumented =
      (readFields modifiers doc' nodes).undocumented := by
  unfold readFields
  rcases readType nodes with _ | ⟨type, rest⟩
  · rfl
  · dsimp only
    cases readDeclarators rest with
    | none => rfl
    | some declarators => simp [Member.undocumented, FieldDecl.undocumented, Function.comp_def]

/-- The comment at hand goes into the fields only. -/
private theorem memberBehind_undocumented (modifiers : List String) (doc doc' : Option String)
    (rest : List Node) :
    (memberBehind doc modifiers rest).undocumented =
      (memberBehind doc' modifiers rest).undocumented := by
  have hFields := readFields_undocumented modifiers doc doc'
  unfold memberBehind
  split
  · split <;> first | rfl | exact hFields _
  · exact hFields _

/-- The comment of a word itself is not looked at. -/
private theorem memberBehind_withDoc (modifiers : List String) (doc doc' : Option String)
    (token : Token) (rest : List Node) :
    memberBehind doc modifiers (.word (token.withDoc doc') :: rest) =
      memberBehind doc modifiers (.word token :: rest) := rfl

/-- **The comment of the first item is that of the fields.** -/
theorem readMember_withDoc (doc : Option String) (nodes : List Node) :
    (readMember (nodes.modifyHead (Node.withDoc doc))).undocumented =
      (readMember nodes).undocumented := by
  cases nodes with
  | nil => rfl
  | cons node rest =>
      cases node with
      | annotationUse => exact memberBehind_undocumented _ _ _ _
      | parens | braces => rfl
      | word token =>
          show (readMember (.word (token.withDoc doc) :: rest)).undocumented = _
          rw [readMember_eq, readMember_eq]
          by_cases hModifier : token.terminal = .modifier ∨ token.terminal = .staticWord
          · have hSame : readModifiers (.word (token.withDoc doc) :: rest) =
                readModifiers (.word token :: rest) := by
              have hModifier' : (token.withDoc doc).terminal = .modifier ∨
                (token.withDoc doc).terminal = .staticWord := hModifier
              rw [readModifiers, readModifiers, if_pos hModifier, if_pos hModifier']
              rfl
            rw [hSame]
            exact memberBehind_undocumented _ _ _ _
          · have hModifier' : ¬((token.withDoc doc).terminal = .modifier ∨
              (token.withDoc doc).terminal = .staticWord) := hModifier
            rw [readModifiers, readModifiers, if_neg hModifier, if_neg hModifier',
              memberBehind_withDoc]
            exact memberBehind_undocumented _ _ _ _

end ClassSchema.Java
