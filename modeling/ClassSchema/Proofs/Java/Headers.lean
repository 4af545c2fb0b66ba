import ClassSchema.Proofs.Java.Folding

/-!
# Headers in outlines

Modifiers, types, type parameters and the like come before anything that could
end a member.  Their items are quiet: words and annotations, but no semicolon, no
equals sign and no group.

Which items tokens put depends on what is open at the end of the level.  After an
annotation a name is a word, but a dot or parentheses would be taken for a part of
the annotation; after an at sign a name would begin one.  `Joint` tells these
cases apart.  The grammar never lets the wrong token follow, and that can be read
off the bodies of the rules: `Expr.flow` follows the joint through a body, and
`Rule.flow_body` checks every rule against the joint it claims to end with.

## Main results

* `annotationUse_behind`: an annotation is one item, wherever it stands.
* `Expr.Yields.quiet`: what flows through a body puts quiet items behind a level and
  leaves what was there.
-/

namespace ClassSchema.Java

open Expr.Yields

/-! ## Annotations -/

theorem pushWord_of_ne {token : Token} (h : token.terminal ≠ .identifier)
    (level : List Node) : pushWord token level = .word token :: level := by
  rw [pushWord.eq_def, if_neg h]

theorem pushWord_sign {sign name : Token} (hSign : sign.terminal = .atSign)
    (hName : name.terminal = .identifier) (level : List Node) :
    pushWord name (.word sign :: level) = .annotationUse sign true :: level := by
  match level with
  | .annotationUse _ true :: _ => simp [pushWord, hName, hSign]
  | .annotationUse _ false :: _ => simp [pushWord, hName, hSign]
  | [] => simp [pushWord, hName, hSign]
  | .word _ :: _ => simp [pushWord, hName, hSign]
  | .parens :: _ => simp [pushWord, hName, hSign]
  | .braces _ _ :: _ => simp [pushWord, hName, hSign]

theorem pushWord_dot {dot name start : Token} (hDot : dot.terminal = .dot)
    (hName : name.terminal = .identifier) (level : List Node) :
    pushWord name (.word dot :: .annotationUse start true :: level) =
      .annotationUse start true :: level := by
  simp [pushWord, hName, hDot]

/-- Further parts of a name belong to the annotation. -/
private theorem behind_dots {parts : List (List Token)}
    (h : ∀ part ∈ parts,
      (Expr.sequence (.terminal .dot) (.terminal .identifier)).Yields part)
    (start : Token) (level : List Node) (rest : List Token) :
    behind (.annotationUse start true :: level) (parts.flatten ++ rest) =
      behind (.annotationUse start true :: level) rest := by
  induction parts with
  | nil => rfl
  | cons part parts ih =>
      obtain ⟨hPart, each⟩ := List.forall_mem_cons.mp h
      obtain ⟨_, _, rfl, dotPart, namePart⟩ := sequence_iff.mp hPart
      obtain ⟨dot, rfl, hDot⟩ := terminal_iff.mp dotPart
      obtain ⟨name, rfl, hName⟩ := terminal_iff.mp namePart
      have hDotOther : dot.terminal.isBracket = false := by rw [hDot]; rfl
      have hNameOther : name.terminal.isBracket = false := by rw [hName]; rfl
      have hNoName : dot.terminal ≠ .identifier := by rw [hDot]; decide
      show behind _ (dot :: name :: (parts.flatten ++ rest)) = _
      rw [behind_other hDotOther, behind_other hNameOther, pushWord_of_ne hNoName,
        pushWord_dot hDot hName]
      exact ih each

/-- **An annotation is one item, wherever it stands.** -/
theorem annotationUse_behind {tokens : List Token}
    (h : (Expr.rule .annotationUse).Yields tokens) :
    ∃ start isOpen, ∀ level, behind level tokens = .annotationUse start isOpen :: level := by
  obtain ⟨_, _, rfl, signPart, afterSign⟩ := sequence_iff.mp (rule_iff.mp h)
  obtain ⟨sign, rfl, hSign⟩ := terminal_iff.mp signPart
  obtain ⟨_, arguments, rfl, namePart, hArguments⟩ := sequence_iff.mp afterSign
  obtain ⟨_, _, rfl, firstPart, moreParts⟩ := sequence_iff.mp (rule_iff.mp namePart)
  obtain ⟨first, rfl, hFirst⟩ := terminal_iff.mp firstPart
  obtain ⟨parts, rfl, hParts⟩ := many_iff.mp moreParts
  have hSignOther : sign.terminal.isBracket = false := by rw [hSign]; rfl
  have hFirstOther : first.terminal.isBracket = false := by rw [hFirst]; rfl
  have hNoName : sign.terminal ≠ .identifier := by rw [hSign]; decide
  have hFront : ∀ level,
      behind level ([sign] ++ ([first] ++ parts.flatten ++ arguments)) =
        behind (.annotationUse sign true :: level) arguments := by
    intro level
    have hShape : [sign] ++ ([first] ++ parts.flatten ++ arguments) =
        sign :: first :: (parts.flatten ++ arguments) := by simp
    rw [hShape, behind_other hSignOther, behind_other hFirstOther,
      pushWord_of_ne hNoName, pushWord_sign hSign hFirst, behind_dots hParts]
  rcases optional_iff.mp hArguments with rfl | hGroup
  · refine ⟨sign, true, fun level => ?_⟩
    rw [hFront, behind_nil]
  · obtain ⟨opening, inner, closing, rfl, hOpening, hInner, hClosing⟩ :=
      (@yields_group_iff .paren _).mp hGroup
    refine ⟨sign, false, fun level => ?_⟩
    rw [hFront, behind_wrap hOpening hInner hClosing]
    rfl

/-! ## Joints -/

/-- What may follow the last item of a level. -/
inductive Joint where
  /-- Anything. -/
  | closed
  /-- A name, but no dot and no parentheses, since the item may be an annotation. -/
  | annotated
  /-- Neither a name nor a dot, since the item may be an at sign. -/
  | sign
  deriving DecidableEq, Repr

namespace Joint

/-- What a joint says of a level. -/
def Holds : Joint → List Node → Prop
  | closed, level => IsClosed level = true
  | annotated, level =>
      IsClosed level = true ∨ ∃ start isOpen below, level = .annotationUse start isOpen :: below
  | sign, _ => True

/-- The joint that says what both say. -/
def join : Joint → Joint → Joint
  | closed, joint => joint
  | annotated, closed => annotated
  | annotated, joint => joint
  | sign, _ => sign

theorem holds_join_left {joint other : Joint} {level : List Node} (h : joint.Holds level) :
    (joint.join other).Holds level := by
  cases joint <;> cases other <;> first | exact h | exact .inl h | trivial

theorem holds_join_right {joint other : Joint} {level : List Node} (h : other.Holds level) :
    (joint.join other).Holds level := by
  cases joint <;> cases other <;> first | exact h | exact .inl h | trivial

theorem holds_of_closed {joint : Joint} {level : List Node} (h : closed.Holds level) :
    joint.Holds level := by
  cases joint with
  | closed => exact h
  | annotated => exact .inl h
  | sign => trivial

end Joint

/-- The joint behind a terminal, if it is quiet and may stand there. -/
def Terminal.flow : Terminal → Joint → Option Joint
  | identifier, .sign => none
  | dot, .annotated => none
  | dot, .sign => none
  | atSign, _ => some .sign
  | semicolon, _ | equalSign, _ | leftParen, _ | rightParen, _ | leftBrace, _ | rightBrace, _ =>
      none
  | _, _ => some .closed

/-- The joint behind a rule of headers. -/
def Rule.leaves : Rule → Option Joint
  | annotationUse | modifiers => some .annotated
  | type | classType | typeSegment | typeArguments | typeArgument | typeParameters
  | typeParameter | dimension | classHeader | qualifiedName => some .closed
  | _ => none

/-- The joint behind a body, if it is quiet. -/
def Expr.flow : Expr → Joint → Option Joint
  | terminal t, joint => t.flow joint
  | rule r, joint => if joint = .sign then Option.none else r.leaves
  | sequence first second, joint => (first.flow joint).bind second.flow
  | choice left right, joint =>
      (left.flow joint).bind fun behindLeft => (right.flow joint).map behindLeft.join
  | optional part, joint => (part.flow joint).map joint.join
  | many part, joint =>
      (part.flow joint).bind fun behindOne =>
        let always := joint.join behindOne
        if part.flow always = .some always ∨ part.flow always = .some .closed then .some always
        else Option.none

/-- Behind the first part the joint stays as it is. -/
theorem Expr.flow_many {part : Expr} {joint left : Joint}
    (h : (many part).flow joint = .some left) :
    (∃ behindOne, left = joint.join behindOne) ∧
      (part.flow left = .some left ∨ part.flow left = .some .closed) ∧
      (many part).flow left = .some left := by
  obtain ⟨behindOne, _, hRest⟩ := Option.bind_eq_some_iff.mp h
  obtain ⟨hAlways, hLeft⟩ := Option.ite_none_right_eq_some.mp hRest
  cases hLeft
  refine ⟨⟨behindOne, rfl⟩, hAlways, ?_⟩
  have hSelf : ∀ joint : Joint, joint.join joint = joint := by
    intro joint
    cases joint <;> rfl
  have hClosed : ∀ joint : Joint, joint.join .closed = joint := by
    intro joint
    cases joint <;> rfl
  rcases hAlways with hSame | hLess
  · simp [flow, hSame, hSelf]
  · simp [flow, hLess, hClosed]

/-- The rules of headers end as they claim. -/
theorem Rule.flow_body {r : Rule} (h : r ≠ .annotationUse) {joint left : Joint}
    (hJoint : joint ≠ .sign) (hLeaves : r.leaves = some left) :
    r.body.flow joint = some left := by
  cases joint with
  | sign => exact absurd rfl hJoint
  | closed => cases r <;> first | exact absurd rfl h | cases hLeaves <;> rfl
  | annotated => cases r <;> first | exact absurd rfl h | cases hLeaves <;> rfl

/-! ## Quiet items -/

/-- Whether an item is a word or an annotation that neither ends a member nor begins an
initializer. -/
def Node.isQuiet : Node → Bool
  | .word token => token.terminal ≠ .semicolon && token.terminal ≠ .equalSign
  | .annotationUse _ _ => true
  | .parens => false
  | .braces _ _ => false

theorem isClosed_word {token : Token} (hSign : token.terminal ≠ .atSign)
    (hDot : token.terminal ≠ .dot) (level : List Node) :
    IsClosed (.word token :: level) = true := by
  match level with
  | .annotationUse _ true :: _ => simp [IsClosed, hSign, hDot]
  | .annotationUse _ false :: _ => simp [IsClosed, hSign]
  | [] => simp [IsClosed, hSign]
  | .word _ :: _ => simp [IsClosed, hSign]
  | .parens :: _ => simp [IsClosed, hSign]
  | .braces _ _ :: _ => simp [IsClosed, hSign]

private theorem isClosed_dot {token : Token} (h : token.terminal = .dot) {level : List Node}
    (hLevel : IsClosed level = true) : IsClosed (.word token :: level) = true := by
  match level, hLevel with
  | .annotationUse _ false :: _, _ => simp [IsClosed, h]
  | [], _ => simp [IsClosed, h]
  | .word _ :: _, _ => simp [IsClosed, h]
  | .parens :: _, _ => simp [IsClosed, h]
  | .braces _ _ :: _, _ => simp [IsClosed, h]

/-- Where an annotation or nothing is open, a name is a word. -/
theorem pushWord_of_annotated {level : List Node} (h : Joint.annotated.Holds level)
    (token : Token) : pushWord token level = .word token :: level := by
  by_cases hName : token.terminal = .identifier
  · rcases h with hClosed | ⟨start, isOpen, below, rfl⟩
    · have hPush := pushWord_append hClosed token []
      rw [List.nil_append] at hPush
      rw [hPush]
      simp [pushWord]
    · simp [pushWord]
  · exact pushWord_of_ne hName level

/-- When a terminal may stand behind a joint, and what it leaves. -/
theorem Terminal.flow_cases {t : Terminal} {joint left : Joint}
    (h : t.flow joint = some left) :
    t.isBracket = false ∧ t ≠ .semicolon ∧ t ≠ .equalSign ∧ (t = .identifier → joint ≠ .sign) ∧
      (t = .dot → joint = .closed) ∧ (t ≠ .atSign → left = .closed) ∧
      (t = .atSign → left = .sign) := by
  cases t <;> cases joint <;> cases h <;> decide

/-- A quiet terminal is put as a word. -/
theorem Terminal.flow_sound {token : Token} {joint left : Joint}
    (h : token.terminal.flow joint = some left) {level : List Node} (hLevel : joint.Holds level) :
    pushWord token level = .word token :: level ∧ (Node.word token).isQuiet = true ∧
      left.Holds (.word token :: level) := by
  obtain ⟨_, hSemicolon, hEqual, hName, hDot, hOther, hSign⟩ := flow_cases h
  refine ⟨?_, by simp [Node.isQuiet, hSemicolon, hEqual], ?_⟩
  · by_cases hIdentifier : token.terminal = .identifier
    · have hJoint := hName hIdentifier
      apply pushWord_of_annotated
      cases joint with
      | closed => exact .inl hLevel
      | annotated => exact hLevel
      | sign => exact absurd rfl hJoint
    · exact pushWord_of_ne hIdentifier level
  · by_cases hAt : token.terminal = .atSign
    · rw [hSign hAt]
      trivial
    · rw [hOther hAt]
      by_cases hDotted : token.terminal = .dot
      · have hJoint := hDot hDotted
        subst hJoint
        exact isClosed_dot hDotted hLevel
      · exact isClosed_word hAt hDotted level

/-! ## Quiet stretches -/

/-- What quiet tokens do: they put quiet items behind a level, and leave a joint. -/
structure Quiet (joint left : Joint) (tokens : List Token) : Prop where
  /-- The tokens are balanced. -/
  balanced : Balanced (terminals tokens)
  /-- The items are quiet and lie on what was there. -/
  items : ∀ level, joint.Holds level →
    ∃ items : List Node, behind level tokens = items.reverse ++ level ∧
      (∀ item ∈ items, item.isQuiet = true) ∧ left.Holds (behind level tokens)

namespace Quiet

theorem nil (joint : Joint) : Quiet joint joint [] where
  balanced := .nil
  items := by
    intro level hLevel
    refine ⟨[], by simp, by simp, ?_⟩
    rw [behind_nil]
    exact hLevel

theorem append {joint between left : Joint} {front back : List Token}
    (hFront : Quiet joint between front) (hBack : Quiet between left back) :
    Quiet joint left (front ++ back) where
  balanced := by
    rw [terminals_append]
    exact hFront.balanced.append hBack.balanced
  items := by
    intro level hLevel
    obtain ⟨first, hFirst, quietFirst, hBetween⟩ := hFront.items level hLevel
    obtain ⟨second, hSecond, quietSecond, hLeft⟩ := hBack.items _ hBetween
    rw [behind_append hFront.balanced]
    refine ⟨first ++ second, ?_, ?_, hLeft⟩
    · rw [hSecond, hFirst, List.reverse_append, List.append_assoc]
    · intro item mem
      rcases List.mem_append.mp mem with hMem | hMem
      · exact quietFirst item hMem
      · exact quietSecond item hMem

/-- A weaker claim about what is left. -/
theorem weaken {joint left left' : Joint} {tokens : List Token} (h : Quiet joint left tokens)
    (hLeft : ∀ level, left.Holds level → left'.Holds level) : Quiet joint left' tokens where
  balanced := h.balanced
  items := by
    intro level hLevel
    obtain ⟨items, hItems, quiet, hBehind⟩ := h.items level hLevel
    exact ⟨items, hItems, quiet, hLeft _ hBehind⟩

/-- A stronger claim about what is there. -/
theorem strengthen {joint joint' left : Joint} {tokens : List Token}
    (h : Quiet joint left tokens) (hJoint : ∀ level, joint'.Holds level → joint.Holds level) :
    Quiet joint' left tokens where
  balanced := h.balanced
  items := fun level hLevel => h.items level (hJoint level hLevel)

theorem word {token : Token} {joint left : Joint}
    (h : token.terminal.flow joint = some left) : Quiet joint left [token] where
  balanced := .other (Terminal.flow_cases h).1 .nil
  items := by
    intro level hLevel
    obtain ⟨hPush, quiet, hLeft⟩ := Terminal.flow_sound h hLevel
    have hBehind : behind level [token] = .word token :: level := by
      rw [behind_other (Terminal.flow_cases h).1, behind_nil, hPush]
    rw [hBehind]
    refine ⟨[.word token], rfl, ?_, hLeft⟩
    intro item mem
    rw [List.mem_singleton.mp mem]
    exact quiet

theorem annotationUse {tokens : List Token} (h : (Expr.rule .annotationUse).Yields tokens)
    (joint : Joint) : Quiet joint .annotated tokens where
  balanced := h.balanced
  items := by
    intro level _
    obtain ⟨start, isOpen, hBehind⟩ := annotationUse_behind h
    rw [hBehind]
    refine ⟨[.annotationUse start isOpen], rfl, ?_, .inr ⟨start, isOpen, level, rfl⟩⟩
    intro item mem
    rw [List.mem_singleton.mp mem]
    rfl

end Quiet

/-- **What flows through a body is quiet.** -/
theorem Expr.Yields.quiet {e : Expr} {tokens : List Token} (h : e.Yields tokens)
    {joint left : Joint} (hFlow : e.flow joint = .some left) : Quiet joint left tokens := by
  unfold Expr.Yields at h
  generalize hWord : terminals tokens = word at h
  induction h generalizing tokens joint left with
  | terminal t =>
      obtain ⟨token, rfl, rfl⟩ := terminal_iff.mp (show (Expr.terminal t).Yields tokens by
        unfold Expr.Yields
        rw [hWord]
        exact .terminal t)
      exact .word hFlow
  | @rule r word hBody ih =>
      subst hWord
      simp only [Expr.flow] at hFlow
      split at hFlow
      · cases hFlow
      · next hJoint =>
          by_cases hAnnotation : r = .annotationUse
          · subst hAnnotation
            cases hFlow
            exact .annotationUse (.rule hBody) joint
          · exact ih (Rule.flow_body hAnnotation hJoint hFlow) rfl
  | sequence _ _ ihFirst ihSecond =>
      obtain ⟨front, back, rfl, hFront, hBack⟩ := List.map_eq_append_iff.mp hWord
      obtain ⟨between, hFirst, hSecond⟩ := Option.bind_eq_some_iff.mp hFlow
      exact (ihFirst hFirst hFront).append (ihSecond hSecond hBack)
  | left _ ih =>
      obtain ⟨behindLeft, hLeft, hRest⟩ := Option.bind_eq_some_iff.mp hFlow
      obtain ⟨behindRight, _, rfl⟩ := Option.map_eq_some_iff.mp hRest
      exact (ih hLeft hWord).weaken fun _ => Joint.holds_join_left
  | right _ ih =>
      obtain ⟨behindLeft, _, hRest⟩ := Option.bind_eq_some_iff.mp hFlow
      obtain ⟨behindRight, hRight, rfl⟩ := Option.map_eq_some_iff.mp hRest
      exact (ih hRight hWord).weaken fun _ => Joint.holds_join_right
  | absent =>
      obtain ⟨behindPart, _, rfl⟩ := Option.map_eq_some_iff.mp hFlow
      obtain rfl := List.map_eq_nil_iff.mp hWord
      exact (Quiet.nil joint).weaken fun _ => Joint.holds_join_left
  | present _ ih =>
      obtain ⟨behindPart, hPart, rfl⟩ := Option.map_eq_some_iff.mp hFlow
      exact (ih hPart hWord).weaken fun _ => Joint.holds_join_right
  | none =>
      obtain ⟨⟨behindOne, rfl⟩, _, _⟩ := Expr.flow_many hFlow
      obtain rfl := List.map_eq_nil_iff.mp hWord
      exact (Quiet.nil joint).weaken fun _ => Joint.holds_join_left
  | more _ _ ihPart ihMany =>
      obtain ⟨front, back, rfl, hFront, hBack⟩ := List.map_eq_append_iff.mp hWord
      obtain ⟨⟨behindOne, hJoin⟩, hPart, hMany⟩ := Expr.flow_many hFlow
      have hFirst : Quiet left left front := by
        rcases hPart with hSame | hClosed
        · exact ihPart hSame hFront
        · exact (ihPart hClosed hFront).weaken fun _ => Joint.holds_of_closed
      apply (hFirst.append (ihMany hMany hBack)).strengthen
      intro level hLevel
      rw [hJoin]
      exact Joint.holds_join_left hLevel

end ClassSchema.Java
