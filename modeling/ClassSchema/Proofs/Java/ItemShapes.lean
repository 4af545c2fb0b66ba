import ClassSchema.Proofs.Java.MemberKinds

/-!
# Items that reading cuts

Reading goes over items from the left.  It leaves out annotations, counts dimensions,
reads a type up to where types end, and cuts what is separated by commas.  Each of
these steps depends on a few items in front only, so it can be described for items of
one shape, whatever follows them.

## Main results

* `IsDimensions.readDimensions_append`: dimensions are counted up to where they end.
* `exists_of_readDimensions`: what is counted as dimensions is dimensions.
* `splitCommas_append`: parts are cut on both sides of a comma.
* `readMember_of_name`: a member that begins with a name is read as fields.
-/

namespace ClassSchema.Java

/-! ## Annotations -/

/-- Whether an item is an annotation. -/
def Node.isUse : Node → Bool
  | annotationUse _ _ => true
  | _ => false

/-- What leaves out one annotation leaves out all in front. -/
theorem skips_uses {α : Type} {read : List Node → α}
    (hRead : ∀ start isOpen rest, read (.annotationUse start isOpen :: rest) = read rest)
    {uses : List Node} (h : ∀ node ∈ uses, node.isUse = true) (rest : List Node) :
    read (uses ++ rest) = read rest := by
  induction uses with
  | nil => rfl
  | cons node uses ih =>
      obtain ⟨hNode, each⟩ := List.forall_mem_cons.mp h
      cases node with
      | annotationUse start isOpen => exact (hRead start isOpen _).trans (ih each)
      | _ => cases hNode

theorem dropAnnotations_append {uses : List Node} (h : ∀ node ∈ uses, node.isUse = true)
    (rest : List Node) : dropAnnotations (uses ++ rest) = dropAnnotations rest :=
  skips_uses (fun _ _ _ => rfl) h rest

theorem readDimensionsFrom_uses {uses : List Node} (h : ∀ node ∈ uses, node.isUse = true)
    (keep rest : List Node) :
    readDimensionsFrom keep (uses ++ rest) = readDimensionsFrom keep rest :=
  @skips_uses _ (readDimensionsFrom keep) (fun _ _ _ => rfl) _ h rest

theorem readModifiers_uses {uses : List Node} (h : ∀ node ∈ uses, node.isUse = true)
    (rest : List Node) : readModifiers (uses ++ rest) = readModifiers rest :=
  skips_uses (fun _ _ _ => rfl) h rest

theorem readTypeFrom_uses {uses : List Node} (h : ∀ node ∈ uses, node.isUse = true) (fuel : Nat)
    (rest : List Node) : readTypeFrom fuel (uses ++ rest) = readTypeFrom fuel rest := by
  cases fuel with
  | zero => rfl
  | succ fuel => rw [readTypeFrom, readTypeFrom, dropAnnotations_append h]

/-! ## Where types and dimensions end -/

/-- Items at which no dimensions begin. -/
def EndsDimensions (after : List Node) : Prop := ∀ keep, readDimensionsFrom keep after = (0, keep)

theorem EndsDimensions.nil : EndsDimensions [] := fun _ => rfl

theorem EndsDimensions.word {token : Token} (h : token.terminal ≠ .leftBracket)
    (rest : List Node) : EndsDimensions (.word token :: rest) := by
  intro keep
  cases rest with
  | nil => rfl
  | cons node rest =>
      cases node with
      | word next => exact if_neg fun hBoth => h hBoth.1
      | _ => rfl

/-- Items that end a type. -/
def EndsType (items : List Node) : Prop :=
  ∃ token rest, items = .word token :: rest ∧
    (token.terminal = .identifier ∨ token.terminal = .comma ∨ token.terminal = .moreThan)

/-- Items that do not begin with arguments. -/
def EndsName (items : List Node) : Prop :=
  ∀ token rest, items = .word token :: rest → token.terminal ≠ .lessThan

/-- Items that go on neither with arguments nor with a dot. -/
def EndsSegment (items : List Node) : Prop :=
  ∀ token rest, items = .word token :: rest → token.terminal ≠ .lessThan ∧ token.terminal ≠ .dot

theorem EndsSegment.endsName {items : List Node} (h : EndsSegment items) : EndsName items :=
  fun token rest hItems => (h token rest hItems).1

theorem EndsName.word {token : Token} (h : token.terminal ≠ .lessThan) (rest : List Node) :
    EndsName (.word token :: rest) := by
  intro other others hItems
  cases hItems
  exact h

theorem EndsType.endsDimensions {items : List Node} (h : EndsType items) :
    EndsDimensions items := by
  obtain ⟨token, rest, rfl, hToken⟩ := h
  apply EndsDimensions.word
  rcases hToken with hToken | hToken | hToken <;> rw [hToken] <;> decide

theorem EndsType.endsSegment {items : List Node} (h : EndsType items) : EndsSegment items := by
  obtain ⟨token, rest, rfl, hToken⟩ := h
  intro other rest' hItems
  cases hItems
  rcases hToken with hToken | hToken | hToken <;> rw [hToken] <;> decide

/-! ## Dimensions -/

/-- The items of a number of dimensions: brackets, with annotations before them. -/
inductive IsDimensions : Nat → List Node → Prop where
  | nil : IsDimensions 0 []
  | cons {count : Nat} {uses rest : List Node} {left right : Token} :
      (∀ node ∈ uses, node.isUse = true) → left.terminal = .leftBracket →
      right.terminal = .rightBracket → IsDimensions count rest →
      IsDimensions (count + 1) (uses ++ .word left :: .word right :: rest)

namespace IsDimensions

/-- Dimensions are counted up to where they end. -/
theorem readDimensions_append {count : Nat} {nodes : List Node} (h : IsDimensions count nodes)
    {after : List Node} (hAfter : EndsDimensions after) :
    readDimensions (nodes ++ after) = (count, after) := by
  induction h with
  | nil => exact hAfter after
  | cons hUses hLeft hRight _ ih =>
      rw [readDimensions, List.append_assoc, readDimensionsFrom_uses hUses, List.cons_append,
        List.cons_append, readDimensionsFrom, if_pos ⟨hLeft, hRight⟩, ← readDimensions, ih]

/-- Dimensions begin with a bracket or with an annotation. -/
theorem endsSegment {count : Nat} {nodes : List Node} (h : IsDimensions count nodes)
    {after : List Node} (hAfter : EndsSegment after) : EndsSegment (nodes ++ after) := by
  cases h with
  | nil => exact hAfter
  | @cons _ uses _ _ _ hUses hLeft _ _ =>
      intro token rest hItems
      cases uses with
      | nil =>
          cases hItems
          rw [hLeft]
          decide
      | cons use uses =>
          cases hItems
          cases hUses _ List.mem_cons_self

/-- No dimension is a comma. -/
theorem not_comma {count : Nat} {nodes : List Node} (h : IsDimensions count nodes) :
    ∀ node ∈ nodes, node.isWord .comma = false := by
  induction h with
  | nil => simp
  | @cons _ uses _ left right hUses hLeft hRight _ ih =>
      intro node mem
      simp only [List.mem_append, List.mem_cons] at mem
      rcases mem with mem | rfl | rfl | mem
      · cases node with
        | annotationUse => rfl
        | _ => cases hUses _ mem
      · simp [Node.isWord, hLeft]
      · simp [Node.isWord, hRight]
      · exact ih node mem

end IsDimensions

/-- What is counted as dimensions is dimensions. -/
theorem exists_of_readDimensions {nodes after : List Node} {count : Nat}
    (h : readDimensions nodes = (count, after)) :
    ∃ dimensions, nodes = dimensions ++ after ∧ IsDimensions count dimensions := by
  have general : ∀ keep nodes : List Node, ∀ uses : List Node,
      (∀ node ∈ uses, node.isUse = true) → keep = uses ++ nodes →
      ∀ count after, readDimensionsFrom keep nodes = (count, after) →
        ∃ dimensions, keep = dimensions ++ after ∧ IsDimensions count dimensions := by
    intro keep nodes
    fun_induction readDimensionsFrom keep nodes with
    | case1 keep start isOpen rest ih =>
        intro uses hUses hKeep count after hRead
        refine ih (uses ++ [.annotationUse start isOpen]) ?_ (by simpa using hKeep) count after hRead
        intro node mem
        rcases List.mem_append.mp mem with mem | mem
        · exact hUses node mem
        · rw [List.mem_singleton.mp mem]
          rfl
    | case2 keep left right rest hBrackets more behind hRest ih =>
        intro uses hUses hKeep count after hRead
        cases hRead
        obtain ⟨dimensions, hDimensions, isDimensions⟩ := ih [] (by simp) rfl more behind hRest
        refine ⟨uses ++ .word left :: .word right :: dimensions, ?_,
          .cons hUses hBrackets.1 hBrackets.2 isDimensions⟩
        rw [hKeep, hDimensions]
        simp
    | case3 keep left right rest hBrackets =>
        intro _ _ _ count after hRead
        cases hRead
        exact ⟨[], rfl, .nil⟩
    | case4 keep nodes _ _ =>
        intro _ _ _ count after hRead
        cases hRead
        exact ⟨[], rfl, .nil⟩
  exact general nodes nodes [] (by simp) rfl count after h

/-! ## Parts between commas -/

theorem splitCommas_ne_nil (nodes : List Node) : splitCommas nodes ≠ [] := by
  cases nodes with
  | nil => simp [splitCommas]
  | cons node rest =>
      rw [splitCommas]
      split
      · simp
      · split <;> simp

theorem splitCommas_comma {comma : Node} (h : comma.isWord .comma = true) (rest : List Node) :
    splitCommas (comma :: rest) = [] :: splitCommas rest := by
  rw [splitCommas, if_pos h]

theorem splitCommas_other {node : Node} (h : node.isWord .comma = false) {rest part : List Node}
    {parts : List (List Node)} (hRest : splitCommas rest = part :: parts) :
    splitCommas (node :: rest) = (node :: part) :: parts := by
  rw [splitCommas, if_neg (by simp [h]), hRest]

/-- Items without a comma belong to the first part. -/
theorem splitCommas_front {front : List Node} (h : ∀ node ∈ front, node.isWord .comma = false)
    {rest part : List Node} {parts : List (List Node)} (hRest : splitCommas rest = part :: parts) :
    splitCommas (front ++ rest) = (front ++ part) :: parts := by
  induction front with
  | nil => exact hRest
  | cons node front ih =>
      obtain ⟨hNode, each⟩ := List.forall_mem_cons.mp h
      exact splitCommas_other hNode (ih each)

theorem splitCommas_singleton {nodes : List Node}
    (h : ∀ node ∈ nodes, node.isWord .comma = false) : splitCommas nodes = [nodes] := by
  have hAll := @splitCommas_front nodes h [] [] [] rfl
  rwa [List.append_nil] at hAll

/-- **Parts are cut on both sides of a comma.** -/
theorem splitCommas_append (front : List Node) {comma : Node} (h : comma.isWord .comma = true)
    (back : List Node) :
    splitCommas (front ++ comma :: back) = splitCommas front ++ splitCommas back := by
  induction front with
  | nil => exact splitCommas_comma h back
  | cons node front ih =>
      by_cases hNode : node.isWord .comma = true
      · rw [List.cons_append, splitCommas_comma hNode, splitCommas_comma hNode, ih,
          List.cons_append]
      · have hOther : node.isWord .comma = false := by simpa using hNode
        obtain ⟨part, parts, hFront⟩ := List.exists_cons_of_ne_nil (splitCommas_ne_nil front)
        have hBoth : splitCommas (front ++ comma :: back) = part :: (parts ++ splitCommas back) := by
          rw [ih, hFront, List.cons_append]
        rw [List.cons_append, splitCommas_other hOther hBoth, splitCommas_other hOther hFront,
          List.cons_append]

/-- Between two parts there is a comma. -/
theorem exists_of_splitCommas {nodes : List Node} {front back : List (List Node)}
    {part : List Node} (hFront : front ≠ []) (h : splitCommas nodes = front ++ part :: back) :
    ∃ before comma behind, nodes = before ++ comma :: behind ∧ comma.isWord .comma = true ∧
      splitCommas before = front ∧ splitCommas behind = part :: back := by
  induction nodes generalizing front with
  | nil =>
      obtain ⟨first, others, rfl⟩ := List.exists_cons_of_ne_nil hFront
      simp [splitCommas] at h
  | cons node rest ih =>
      obtain ⟨first, others, rfl⟩ := List.exists_cons_of_ne_nil hFront
      by_cases hNode : node.isWord .comma = true
      · rw [splitCommas_comma hNode, List.cons_append] at h
        injection h with hFirst hOthers
        subst hFirst
        cases others with
        | nil => exact ⟨[], node, rest, rfl, hNode, rfl, hOthers⟩
        | cons second others =>
            obtain ⟨before, comma, behind, rfl, hComma, hBefore, hBehind⟩ :=
              ih (List.cons_ne_nil _ _) hOthers
            refine ⟨node :: before, comma, behind, rfl, hComma, ?_, hBehind⟩
            rw [splitCommas_comma hNode, hBefore]
      · have hOther : node.isWord .comma = false := by simpa using hNode
        obtain ⟨head, tail, hRest⟩ := List.exists_cons_of_ne_nil (splitCommas_ne_nil rest)
        rw [splitCommas_other hOther hRest, List.cons_append] at h
        injection h with hFirst hOthers
        subst hFirst hOthers
        obtain ⟨before, comma, behind, rfl, hComma, hBefore, hBehind⟩ :=
          @ih (head :: others) (List.cons_ne_nil _ _) hRest
        exact ⟨node :: before, comma, behind, rfl, hComma, splitCommas_other hOther hBefore,
          hBehind⟩

/-- What is cut into parts is the first part, or the first part and what is behind a comma. -/
theorem splitCommas_cases {nodes part : List Node} {parts : List (List Node)}
    (h : splitCommas nodes = part :: parts) :
    (parts = [] ∧ nodes = part) ∨
      (parts ≠ [] ∧ ∃ comma rest, nodes = part ++ comma :: rest ∧ comma.isWord .comma = true) := by
  induction nodes generalizing part with
  | nil =>
      cases h
      exact .inl ⟨rfl, rfl⟩
  | cons node nodes ih =>
      by_cases hNode : node.isWord .comma = true
      · rw [splitCommas_comma hNode] at h
        cases h
        exact .inr ⟨splitCommas_ne_nil nodes, node, nodes, rfl, hNode⟩
      · have hOther : node.isWord .comma = false := by simpa using hNode
        obtain ⟨first, others, hNodes⟩ := List.exists_cons_of_ne_nil (splitCommas_ne_nil nodes)
        rw [splitCommas_other hOther hNodes] at h
        cases h
        rcases ih hNodes with ⟨hOthers, rfl⟩ | ⟨hOthers, comma, rest, rfl, hComma⟩
        · exact .inl ⟨hOthers, rfl⟩
        · exact .inr ⟨hOthers, comma, rest, rfl, hComma⟩

/-! ## What members begin with -/

theorem readModifiers_word {token : Token} (h : (Node.word token).isModifier = false)
    (rest : List Node) : readModifiers (.word token :: rest) = ([], .word token :: rest) := by
  rw [readModifiers, if_neg (by simpa [Node.isModifier] using h)]

/-- A member that begins with a name is read as fields. -/
theorem readMember_of_name {nodes rest : List Node} {modifiers : List String} {name : Token}
    (h : readModifiers nodes = (modifiers, .word name :: rest))
    (hName : name.terminal = .identifier) :
    readMember nodes =
      readFields modifiers ((nodes.head?.map Node.doc).getD none) (.word name :: rest) := by
  unfold readMember
  simp only [h, hName]

end ClassSchema.Java
