import ClassSchema.Proofs.Schema.Expansion
import Mathlib.Logic.Equiv.Defs

/-!
# Models under other numbers

The number of a class says where it stands in a model and nothing else.  A
renumbering takes each class to another place and the references of all fields
with it.  Whatever is compiled from the renumbered model is what is compiled from
the model itself: kinds, shapes and keys are read off names, which stay, so each
step of a walk over one model is a step of a walk over the other.

## Main results

* `Walk.run_renumber`: a walk over the renumbered model ends as the walk over the
  model itself.
* `Model.Renumbered.compileClass`: a class has the same schema under its new number.
-/

namespace ClassSchema

/-! ## Renumbering -/

mutual

/-- A type with other numbers for the classes. -/
def FieldType.renumber (ρ : Nat → Nat) : FieldType → FieldType
  | .scalar name => .scalar name
  | .array element => .array (element.renumber ρ)
  | .parameterized name arguments => .parameterized name (FieldType.renumberAll ρ arguments)
  | .reference target => .reference (ρ target)

/-- Types with other numbers for the classes. -/
def FieldType.renumberAll (ρ : Nat → Nat) : List FieldType → List FieldType
  | [] => []
  | type :: rest => type.renumber ρ :: FieldType.renumberAll ρ rest

end

/-- A field with other numbers for the classes. -/
def Field.renumber (ρ : Nat → Nat) (field : Field) : Field :=
  { field with type := field.type.renumber ρ }

/-- A class with other numbers for the classes. -/
def Entity.renumber (ρ : Nat → Nat) (entity : Entity) : Entity :=
  { entity with fields := entity.fields.map (·.renumber ρ) }

/-- The classes of one model under other numbers are those of another model. -/
def Model.Renumbered (ρ : Equiv.Perm Nat) (model renumbered : Model) : Prop :=
  ∀ number, renumbered[ρ number]? = model[number]?.map (·.renumber ρ)

mutual

theorem FieldType.renumber_comp (ρ σ : Nat → Nat) :
    (type : FieldType) → (type.renumber ρ).renumber σ = type.renumber (σ ∘ ρ)
  | .scalar _ => rfl
  | .array element => by simp [renumber, element.renumber_comp ρ σ]
  | .parameterized _ arguments => by simp [renumber, FieldType.renumberAll_comp ρ σ arguments]
  | .reference _ => rfl

theorem FieldType.renumberAll_comp (ρ σ : Nat → Nat) :
    (types : List FieldType) →
      FieldType.renumberAll σ (FieldType.renumberAll ρ types) =
        FieldType.renumberAll (σ ∘ ρ) types
  | [] => rfl
  | type :: rest => by
      simp [renumberAll, type.renumber_comp ρ σ, FieldType.renumberAll_comp ρ σ rest]

end

mutual

theorem FieldType.renumber_id : (type : FieldType) → type.renumber id = type
  | .scalar _ => rfl
  | .array element => by simp [renumber, element.renumber_id]
  | .parameterized _ arguments => by simp [renumber, FieldType.renumberAll_id arguments]
  | .reference _ => rfl

theorem FieldType.renumberAll_id :
    (types : List FieldType) → FieldType.renumberAll id types = types
  | [] => rfl
  | type :: rest => by simp [renumberAll, type.renumber_id, FieldType.renumberAll_id rest]

end

theorem Entity.renumber_comp (ρ σ : Nat → Nat) (entity : Entity) :
    (entity.renumber ρ).renumber σ = entity.renumber (σ ∘ ρ) := by
  simp [Entity.renumber, Field.renumber, FieldType.renumber_comp, Function.comp_def]

@[simp] theorem Entity.renumber_id (entity : Entity) : entity.renumber id = entity := by
  simp [Entity.renumber, Field.renumber, FieldType.renumber_id]

@[simp] theorem Entity.key_renumber (ρ : Nat → Nat) (entity : Entity) :
    (entity.renumber ρ).key = entity.key := rfl

@[simp] theorem Entity.isStandard_renumber (ρ : Nat → Nat) (entity : Entity) :
    (entity.renumber ρ).isStandard = entity.isStandard := rfl

@[simp] theorem FieldType.isClassLike_renumber (ρ : Nat → Nat) (type : FieldType) :
    (type.renumber ρ).isClassLike = type.isClassLike := by
  cases type <;> rfl

/-! ## Kinds and shapes -/

namespace Model.Renumbered

variable {ρ : Equiv.Perm Nat} {model renumbered : Model} (h : Renumbered ρ model renumbered)

include h

theorem kindOf (type : FieldType) :
    renumbered.kindOf (type.renumber ρ) = model.kindOf type := by
  cases type with
  | reference target =>
      simp only [Model.kindOf, resolveKind, typeName, FieldType.renumber, h target]
      cases model[target]? <;> rfl
  | _ => rfl

theorem expandable (type : FieldType) :
    renumbered.expandable (type.renumber ρ) = (model.expandable type).map (·.map ρ) := by
  cases type with
  | reference target =>
      simp only [Model.expandable, isModelClass, FieldType.renumber, h target]
      cases model[target]? with
      | none => rfl
      | some entity =>
          simp only [Option.map_some, Entity.isStandard_renumber]
          rcases entity.isStandard with _ | _ | _ <;> rfl
  | _ => rfl

theorem valueSchema (type : FieldType) :
    renumbered.valueSchema (type.renumber ρ) = model.valueSchema type := by
  simp only [Model.valueSchema, h.expandable, h.kindOf]
  rcases model.expandable type with _ | _ | target
  · rfl
  · rfl
  · simp only [Except.map, Option.map_some, h target]
    cases model[target]? <;> rfl

end Model.Renumbered

/-- A shape with other numbers for the classes. -/
def Shape.renumber (ρ : Nat → Nat) : Shape → Shape
  | .expand target => .expand (ρ target)
  | .listOf element => .listOf (element.renumber ρ)
  | .fixed schema => .fixed schema

/-- What was met, with other numbers for the classes. -/
def Opened.renumber (ρ : Nat → Nat) : Opened → Opened
  | .closed schema => .closed schema
  | .pending title fields => .pending title (fields.map (·.renumber ρ))

namespace Model.Renumbered

variable {ρ : Equiv.Perm Nat} {model renumbered : Model} (h : Renumbered ρ model renumbered)

include h

private theorem fixed_kindOf (type : FieldType) :
    (renumbered.kindOf (type.renumber ρ)).map Shape.fixed =
      ((model.kindOf type).map Shape.fixed).map (·.renumber ρ) := by
  rw [h.kindOf]
  cases model.kindOf type <;> rfl

theorem shape (type : FieldType) :
    renumbered.shape (type.renumber ρ) = (model.shape type).map (·.renumber ρ) := by
  match type with
  | .array element => rfl
  | .scalar name => exact h.fixed_kindOf (.scalar name)
  | .reference target =>
      have hKind := h.fixed_kindOf (.reference target)
      have hExpandable := h.expandable (.reference target)
      simp only [Model.shape, FieldType.renumber] at hKind hExpandable ⊢
      rw [hExpandable, hKind]
      rcases model.expandable (.reference target) with _ | _ | found <;> rfl
  | .parameterized name [] => exact h.fixed_kindOf (.parameterized name [])
  | .parameterized name [item] =>
      have hKind := h.fixed_kindOf (.parameterized name [item])
      simp only [Model.shape, FieldType.renumber, FieldType.renumberAll] at hKind ⊢
      rw [hKind]
      split <;> rfl
  | .parameterized name [key, value] =>
      have hKind := h.fixed_kindOf (.parameterized name [key, value])
      simp only [Model.shape, FieldType.renumber, FieldType.renumberAll,
        FieldType.isClassLike_renumber, h.valueSchema] at hKind ⊢
      rw [hKind]
      split
      · cases model.valueSchema value <;> rfl
      · rfl
  | .parameterized name (first :: second :: third :: rest) =>
      exact h.fixed_kindOf (.parameterized name (first :: second :: third :: rest))

/-! ## Meeting classes, types and fields -/

theorem openClass (number : Nat) (visited : Visited) :
    renumbered.openClass (ρ number) visited =
      ((model.openClass number visited).1.map (·.renumber ρ),
        (model.openClass number visited).2) := by
  simp only [Model.openClass, h number]
  cases model[number]? with
  | none => rfl
  | some entity =>
      have hEnum : (entity.renumber ρ).isEnum = entity.isEnum := rfl
      simp only [Option.map_some, Entity.key_renumber, hEnum]
      by_cases hKey : entity.key.isKey = true
      · by_cases hHas : visited.has entity.key = true
        · simp only [hKey, hHas, Bool.not_true, Bool.false_eq_true, if_false, if_true]
          cases referenceTo entity.key <;> rfl
        · by_cases hEnum : entity.isEnum.truthy = true <;>
            simp only [hKey, hHas, hEnum, Bool.not_true, Bool.false_eq_true, if_false, if_true] <;>
            rfl
      · simp only [hKey, Bool.not_false, if_true]
        rfl

theorem openType (type : FieldType) (visited : Visited) :
    renumbered.openType (type.renumber ρ) visited =
      ((model.openType type visited).1.map (·.renumber ρ),
        (model.openType type visited).2) := by
  simp only [Model.openType, h.expandable, h.kindOf]
  rcases model.expandable type with _ | _ | target
  · rfl
  · cases model.kindOf type <;> rfl
  · exact h.openClass target visited

theorem openShape (shape : Shape) (visited : Visited) :
    renumbered.openShape (shape.renumber ρ) visited =
      ((model.openShape shape visited).1.map fun opened => (opened.1.renumber ρ, opened.2),
        (model.openShape shape visited).2) := by
  cases shape with
  | fixed schema => rfl
  | expand target =>
      simp only [Model.openShape, Shape.renumber, h.openClass]
      rcases model.openClass target visited with ⟨_ | _, _⟩ <;> rfl
  | listOf element =>
      simp only [Model.openShape, Shape.renumber, h.openType]
      rcases model.openType element visited with ⟨_ | _, _⟩ <;> rfl

theorem openField (field : Field) (visited : Visited) :
    renumbered.openField (field.renumber ρ) visited =
      ((model.openField field visited).1.map fun opened => (opened.1.renumber ρ, opened.2),
        (model.openField field visited).2) := by
  have hShape : renumbered.shape (field.renumber ρ).type = _ := h.shape field.type
  simp only [Model.openField, hShape]
  rcases model.shape field.type with _ | shape
  · rfl
  · simp only [Except.map, h.openShape]
    rcases model.openShape shape visited with ⟨_ | ⟨opened, listed⟩, visited'⟩
    · rfl
    · simp only [Field.renumber]
      cases descriptionOf field.docComment <;> rfl

end Model.Renumbered

/-! ## Walks -/

/-- A class that is being compiled, with other numbers for the classes. -/
def Body.renumber (ρ : Nat → Nat) (body : Body) : Body :=
  { body with fields := body.fields.map (·.renumber ρ) }

/-- A walk with other numbers for the classes. -/
def Walk.renumber (ρ : Nat → Nat) (walk : Walk) : Walk where
  current := walk.current.renumber ρ
  outer := walk.outer.map fun entry => (entry.1, entry.2.renumber ρ)
  visited := walk.visited

/-- What a step leads to, with other numbers for the classes. -/
def StepResult.renumber (ρ : Nat → Nat) : StepResult → StepResult
  | .running walk => .running (walk.renumber ρ)
  | .finished schema visited => .finished schema visited
  | .failed error visited => .failed error visited

namespace Walk

variable {ρ : Equiv.Perm Nat} {model renumbered : Model}

/-- A step over one model is a step over the other. -/
theorem step_renumber (h : Model.Renumbered ρ model renumbered) (walk : Walk) :
    step renumbered (walk.renumber ρ) = (step model walk).renumber ρ := by
  obtain ⟨⟨title, fields, properties⟩, outer, visited⟩ := walk
  cases fields with
  | nil => rcases outer with _ | ⟨⟨slot, body⟩, outer⟩ <;> rfl
  | cons field fields =>
      have hField := h.openField field visited
      simp only [step, renumber, Body.renumber, List.map_cons] at hField ⊢
      rw [hField]
      rcases model.openField field visited with ⟨_ | ⟨_ | _, slot⟩, visited'⟩ <;> rfl

/-- **Walks do not see numbers.**  The induction is on the work that is left, which each step makes
smaller. -/
theorem run_renumber (h : Model.Renumbered ρ model renumbered) (walk : Walk) :
    run renumbered (walk.renumber ρ) = run model walk := by
  induction hWork : weight model walk using Nat.strongRecOn generalizing walk with
  | _ work ih =>
      rw [run_eq, run_eq model, step_renumber h]
      cases hStep : step model walk with
      | running next => exact ih _ (hWork ▸ weight_step hStep) next rfl
      | finished schema visited => rfl
      | failed error visited => rfl

end Walk

namespace Model.Renumbered

variable {ρ : Equiv.Perm Nat} {model renumbered : Model}

/-- **A class has the same schema under its new number**, and leaves the same visited set. -/
theorem compileClass (h : Renumbered ρ model renumbered) (number : Nat) (visited : Visited) :
    renumbered.compileClass (ρ number) visited = model.compileClass number visited := by
  simp only [Model.compileClass, h.openClass]
  rcases model.openClass number visited with ⟨_ | ⟨schema⟩ | ⟨title, fields⟩, visited'⟩
  · rfl
  · rfl
  · exact Walk.run_renumber h ⟨⟨title, fields, []⟩, [], visited'⟩

end Model.Renumbered

end ClassSchema
