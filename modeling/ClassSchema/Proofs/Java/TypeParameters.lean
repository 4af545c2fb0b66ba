import ClassSchema.Proofs.Java.DottedNames

/-!
# Names of type parameters

A reader of type parameters takes the texts of names and of nothing else, wherever it is put to
work.  So all type parameters that it finds are names, in accepted sources and in others, and
none of them has a dot.

This is said of the items of an outline: a word that is a name has the text of one, and the
declarations that braces remember have type parameters that are names.  Tokens keep this true
of every level of an outline, and reading keeps it true of what is read.

## Main results

* `namesParams_outlineFrom`: the items of the outline of tokens.
* `isIdentifier_of_typeParam`: the type parameters in a source.
* `Registry.Reachable.dot_notMem_of_typeParam`: those that are visible in a place of a registry.
-/

namespace ClassSchema.Java

/-- The type parameters of a declaration and of those inside it are names. -/
def TypeDecl.NamesParams (decl : TypeDecl) : Prop :=
  ∀ path ∈ decl.paths, ∀ inner ∈ path, ∀ name ∈ inner.typeParams, IsIdentifier name

/-- It is enough to look at a declaration and at those directly inside it. -/
theorem TypeDecl.NamesParams.intro {decl : TypeDecl}
    (hOwn : ∀ name ∈ decl.typeParams, IsIdentifier name)
    (hInner : ∀ inner ∈ decl.types, inner.NamesParams) : decl.NamesParams := by
  intro path hPath inner hMem
  rcases TypeDecl.mem_paths.mp hPath with rfl | ⟨behind, hBehind, rfl⟩
  · rw [List.mem_singleton.mp hMem]
    exact hOwn
  · rcases List.mem_cons.mp hMem with rfl | hMem
    · exact hOwn
    · obtain ⟨outer, hOuter, hWay⟩ := TypeDecl.mem_allPaths.mp hBehind
      exact hInner outer hOuter behind hWay inner hMem

/-- A word that is taken for a name has the text of one, and the declarations that an item remembers
have type parameters that are names. -/
def Node.NamesParams : Node → Prop
  | .word token => token.terminal = .identifier → IsIdentifier token.text
  | .braces asClass asEnum =>
      (∀ decl ∈ asClass.types, decl.NamesParams) ∧ ∀ decl ∈ asEnum.types, decl.NamesParams
  | _ => True

/-- Items all of which are like that. -/
def ItemsNameParams (nodes : List Node) : Prop := ∀ node ∈ nodes, node.NamesParams

namespace ItemsNameParams

variable {level : List Node}

theorem cons {node : Node} (hNode : node.NamesParams) (h : ItemsNameParams level) :
    ItemsNameParams (node :: level) := List.forall_mem_cons.mpr ⟨hNode, h⟩

theorem tail {node : Node} (h : ItemsNameParams (node :: level)) : ItemsNameParams level :=
  (List.forall_mem_cons.mp h).2

end ItemsNameParams

/-! ## Reading declarations -/

section Readers

variable {nodes : List Node} {decl : TypeDecl}

theorem isIdentifier_of_mem_readTypeParamsFrom (named : ItemsNameParams nodes) {depth : Nat}
    {isNext : Bool} :
    ∀ name ∈ readTypeParamsFrom depth isNext nodes, IsIdentifier name := by
  induction nodes generalizing depth isNext with
  | nil => simp [readTypeParamsFrom]
  | cons node rest ih =>
      obtain ⟨hNode, hRest⟩ := List.forall_mem_cons.mp named
      cases node with
      | word token =>
          rw [readTypeParamsFrom.eq_def]
          dsimp only
          split
          · next hName =>
              split
              · exact List.forall_mem_cons.mpr ⟨hNode hName, ih hRest⟩
              · exact ih hRest
          · exact ih hRest
          · split
            · simp
            · exact ih hRest
          · exact ih hRest
          · exact ih hRest
      | _ => exact ih hRest

theorem isIdentifier_of_mem_readTypeParams (named : ItemsNameParams nodes) :
    ∀ name ∈ readTypeParams nodes, IsIdentifier name := by
  unfold readTypeParams
  split
  · split
    · exact isIdentifier_of_mem_readTypeParamsFrom named.tail
    · simp
  · simp

theorem namesParams_readBody (named : ItemsNameParams nodes) {isEnum : Bool} :
    ∀ decl ∈ (readBody isEnum nodes).types, decl.NamesParams := by
  rw [readBody_eq, List.findSome?_map]
  cases hBody : nodes.findSome? (id ∘ Node.body isEnum) with
  | none => simp [Body.empty]
  | some body =>
      obtain ⟨node, mem, hNode⟩ := List.exists_of_findSome?_eq_some hBody
      have hNamed := named node mem
      cases node with
      | braces asClass asEnum =>
          obtain rfl := Option.some.inj hNode
          cases isEnum
          · exact hNamed.1
          · exact hNamed.2
      | _ => cases hNode

theorem namesParams_of_readTypeDecl (named : ItemsNameParams nodes) {kind : DeclKind}
    {modifiers : List String} (h : readTypeDecl kind modifiers nodes = .type decl) :
    decl.NamesParams := by
  unfold readTypeDecl at h
  split at h
  · obtain rfl := Member.type.inj h
    have hRest := named.tail
    refine .intro ?_ (namesParams_readBody hRest)
    dsimp only
    split
    · simp
    · exact isIdentifier_of_mem_readTypeParams hRest
  · cases h

theorem readFields_ne_type {modifiers : List String} {doc : Option String} :
    readFields modifiers doc nodes ≠ .type decl := by
  unfold readFields
  split
  · simp
  · split <;> simp

/-- **A declared type** has type parameters that are names, if the items of the member have. -/
theorem namesParams_of_readMember (named : ItemsNameParams nodes)
    (h : readMember nodes = .type decl) : decl.NamesParams := by
  have hBehind : ItemsNameParams (readModifiers nodes).2 := by
    obtain ⟨front, hFront⟩ := readModifiers_suffix nodes
    rw [hFront] at named
    exact fun node mem => named node (List.mem_append_right front mem)
  unfold readMember at h
  dsimp only at h
  split at h
  · next token rest hSame =>
      rw [hSame] at hBehind
      have hRest := hBehind.tail
      split at h
      · cases h
      · cases h
      · exact namesParams_of_readTypeDecl hRest h
      · exact namesParams_of_readTypeDecl hRest h
      · exact namesParams_of_readTypeDecl hRest h
      · exact namesParams_of_readTypeDecl (fun node mem => hRest node (List.mem_of_mem_drop mem)) h
      · exact absurd h readFields_ne_type
  · exact absurd h readFields_ne_type

/-- The items of a member were its items before, or are among those that are cut. -/
theorem mem_of_mem_splitMembersFrom {phase : Phase} {current part : List Node} {node : Node}
    (mem : part ∈ splitMembersFrom phase current nodes) (hNode : node ∈ part) :
    node ∈ current ∨ node ∈ nodes := by
  induction nodes generalizing phase current with
  | nil =>
      rw [splitMembersFrom] at mem
      split at mem
      · cases mem
      · rw [List.mem_singleton.mp mem] at hNode
        exact .inl (List.mem_reverse.mp hNode)
  | cons head rest ih =>
      -- the first item either goes on with the member or ends it, and may then be left out
      have goesOn {phase : Phase} (mem : part ∈ splitMembersFrom phase (head :: current) rest) :
          node ∈ current ∨ node ∈ head :: rest := by
        rcases ih mem with hIn | hIn
        · rcases List.mem_cons.mp hIn with rfl | hIn
          · exact .inr List.mem_cons_self
          · exact .inl hIn
        · exact .inr (List.mem_cons_of_mem head hIn)
      have ends {ended : List Node} (hEnded : ended ⊆ head :: current)
          (mem : part ∈ ended.reverse :: splitMembersFrom .open [] rest) :
          node ∈ current ∨ node ∈ head :: rest := by
        rcases List.mem_cons.mp mem with rfl | mem
        · rcases List.mem_cons.mp (hEnded (List.mem_reverse.mp hNode)) with rfl | hIn
          · exact .inr List.mem_cons_self
          · exact .inl hIn
        · rcases ih mem with hIn | hIn
          · cases hIn
          · exact .inr (List.mem_cons_of_mem head hIn)
      cases head with
      | word token =>
          rw [splitMembersFrom.eq_def] at mem
          dsimp only at mem
          split at mem
          · exact ends (List.subset_cons_self _ _) mem
          · exact goesOn mem
          · exact goesOn mem
      | parens => exact goesOn mem
      | braces asClass asEnum =>
          rw [splitMembersFrom] at mem
          split at mem
          · exact goesOn mem
          · exact ends (List.Subset.refl _) mem
      | annotationUse start isOpen => exact goesOn mem

theorem namesParams_members (named : ItemsNameParams nodes) :
    ∀ decl ∈ (bodyOf ((splitMembers nodes).map readMember)).types, decl.NamesParams := by
  intro decl mem
  obtain ⟨member, hMember, hType⟩ := List.mem_filterMap.mp mem
  obtain ⟨part, hPart, rfl⟩ := List.mem_map.mp hMember
  have hRead : readMember part = .type decl := by
    revert hType
    cases readMember part <;> simp
  refine namesParams_of_readMember (fun node hNode => ?_) hRead
  rcases mem_of_mem_splitMembersFrom hPart hNode with hIn | hIn
  · cases hIn
  · exact named node hIn

end Readers

/-! ## Making outlines -/

namespace ItemsNameParams

variable {level : List Node}

theorem reverse (h : ItemsNameParams level) : ItemsNameParams level.reverse :=
  fun node mem => h node (List.mem_reverse.mp mem)

/-- **A word more.** -/
theorem pushWord (h : ItemsNameParams level) {token : Token}
    (hToken : token.terminal = .identifier → IsIdentifier token.text) :
    ItemsNameParams (pushWord token level) := by
  rcases pushWord_cases token level with hSame | ⟨sign, below, rfl, _, _, hSame⟩ |
    ⟨dot, start, below, rfl, _, _, hSame⟩
  · rw [hSame]
    exact h.cons hToken
  · rw [hSame]
    exact h.tail.cons trivial
  · rw [hSame]
    exact h.tail.tail.cons trivial

/-- **A group more.** -/
theorem pushGroup (h : ItemsNameParams level) {content : List Node}
    (hContent : ItemsNameParams content) (b : Bracket) :
    ItemsNameParams (pushGroup b content level) := by
  cases b with
  | paren =>
      rw [Java.pushGroup]
      rcases pushParens_cases level with hSame | ⟨start, below, rfl, hSame⟩
      · rw [hSame]
        exact h.cons trivial
      · rw [hSame]
        exact h.tail.cons trivial
  | brace =>
      refine h.cons ⟨namesParams_members hContent, namesParams_members fun node mem => ?_⟩
      exact hContent node ((List.dropWhile_suffix _).subset (List.mem_of_mem_drop mem))

end ItemsNameParams

/-- **The outline of tokens**, the names among which look like names, with names on every level. -/
theorem namesParams_outlineFrom {tokens : List Token}
    (named : ∀ token ∈ tokens, token.terminal = .identifier → IsIdentifier token.text)
    {level : List Node} {outer : List (List Node)} (hLevel : ItemsNameParams level)
    (hOuter : ∀ around ∈ outer, ItemsNameParams around) :
    ItemsNameParams (outlineFrom level outer tokens) := by
  induction tokens generalizing level outer with
  | nil => exact hLevel.reverse
  | cons token rest ih =>
      obtain ⟨hToken, hRest⟩ := List.forall_mem_cons.mp named
      rcases token.terminal.bracket_cases with hOther | ⟨b, hOpening⟩ | ⟨b, hClosing⟩
      · rw [outlineFrom_other hOther]
        exact ih hRest (hLevel.pushWord hToken) hOuter
      · rw [outlineFrom_opening hOpening]
        exact ih hRest (by simp [ItemsNameParams]) (List.forall_mem_cons.mpr ⟨hLevel, hOuter⟩)
      · cases outer with
        | nil =>
            rw [outlineFrom_unopened hClosing]
            exact ih hRest hLevel hOuter
        | cons around outer =>
            obtain ⟨hAround, hOuter⟩ := List.forall_mem_cons.mp hOuter
            rw [outlineFrom_closing hClosing]
            exact ih hRest (hAround.pushGroup hLevel.reverse b) hOuter

/-! ## Sources and registries -/

/-- **The type parameters in a source are names**, however deep the declarations are that have
them. -/
theorem isIdentifier_of_typeParam {text : List Char} {source : SourceFile}
    (h : parse text = .ok source) {occurrence : Occurrence}
    (mem : occurrence ∈ source.occurrences) :
    ∀ decl ∈ occurrence.path, ∀ name ∈ decl.typeParams, IsIdentifier name := by
  obtain ⟨_, _, rfl⟩ := parse_eq_ok_iff.mp h
  obtain ⟨path, hPath, rfl⟩ := List.mem_map.mp mem
  obtain ⟨outer, hOuter, hWay⟩ := TypeDecl.mem_allPaths.mp hPath
  have named : ItemsNameParams (outline (tokenize text).1) :=
    namesParams_outlineFrom (fun token hToken => isIdentifier_of_mem_tokenize hToken)
      (by simp [ItemsNameParams]) (by simp)
  exact namesParams_members named outer hOuter path hWay

namespace Registry

variable {includeStatic : Bool} {sources : List SourceFile} {registry : Registry}

/-- **No type parameter that is visible in a place of a registry has a dot.** -/
theorem Reachable.dot_notMem_of_typeParam (h : Reachable includeStatic sources registry)
    {scope : Scope} (hScope : scope.IsOf registry) :
    ∀ name ∈ scope.typeParams, '.' ∉ name.toList := by
  intro name mem
  obtain ⟨registered, hAround, hName⟩ := List.mem_flatMap.mp mem
  obtain ⟨source, hSource, occurrence, hOccurrence, hRepresents⟩ :=
    h.exists_represents (hScope.chain registered hAround)
  obtain ⟨_, hParse⟩ := h.parsed source hSource
  have hDecl := List.mem_of_getLast? hRepresents.declaration
  exact (isIdentifier_of_typeParam hParse hOccurrence _ hDecl name hName).dot_notMem

end Registry

end ClassSchema.Java
