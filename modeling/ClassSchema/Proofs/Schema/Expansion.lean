import ClassSchema.Schema.Compile

/-!
# Compiling fields without a stack

`CompilesFields` says what the fields of a class come to, one field after the
other: a field that brings a class with it is followed by all fields of that
class before the next field of its own class.  The relation has no stack; the
classes that are half done are the derivations that are not finished yet.

A walk with any stack does what the relation says, and a walk that ends well was
described by it.  What holds of every derivation therefore holds of every walk
that succeeds.

## Main results

* `Walk.run_of_compilesFields`: a walk over fields goes on where they are compiled.
* `Walk.compilesFields_of_run`: a walk that ends well has compiled its fields.
* `Model.finish_eq_ok_iff`: the same for what is met outside of any class.
-/

namespace ClassSchema

/-- Compiling fields takes the properties of a class and the visited keys to others. -/
inductive CompilesFields (model : Model) :
    List Field → List (String × Property) → Visited →
      List (String × Property) → Visited → Prop where
  /-- No field is left. -/
  | done (properties : List (String × Property)) (visited : Visited) :
      CompilesFields model [] properties visited properties visited
  /-- The schema of the field is known at once. -/
  | closed {field : Field} {fields : List Field} {schema : Schema} {slot : Slot}
      {properties properties' : List (String × Property)} {visited visited₁ visited' : Visited} :
      model.openField field visited = (.ok (.closed schema, slot), visited₁) →
      CompilesFields model fields (OrderedMap.put slot.name (slot.fill schema) properties)
        visited₁ properties' visited' →
      CompilesFields model (field :: fields) properties visited properties' visited'
  /-- The field brings a class with it, which is compiled first. -/
  | nested {field : Field} {fields inner : List Field} {title : String} {slot : Slot}
      {properties innerProperties properties' : List (String × Property)}
      {visited visited₁ visited₂ visited' : Visited} :
      model.openField field visited = (.ok (.pending title inner, slot), visited₁) →
      CompilesFields model inner [] visited₁ innerProperties visited₂ →
      CompilesFields model fields
        (OrderedMap.put slot.name (slot.fill (.object title innerProperties)) properties)
        visited₂ properties' visited' →
      CompilesFields model (field :: fields) properties visited properties' visited'

namespace CompilesFields

/-- Compiling fields brings no new work. -/
theorem unmet_le {model : Model} {fields : List Field}
    {properties properties' : List (String × Property)} {visited visited' : Visited}
    (h : CompilesFields model fields properties visited properties' visited') :
    Walk.unmet visited' model ≤ Walk.unmet visited model := by
  induction h with
  | done => exact Nat.le_refl _
  | closed opened _ ih =>
      have hField := Walk.openField_work opened
      omega
  | nested opened _ _ ihInner ih =>
      have hField := Walk.openField_work opened
      omega

end CompilesFields

/-! ## Walks -/

namespace Walk

/-- One step of a run. -/
theorem run_eq (model : Model) (walk : Walk) :
    run model walk =
      match walk.step model with
      | .running next => run model next
      | .finished schema visited => (.ok schema, visited)
      | .failed error visited => (.error error, visited) := by
  rw [run]
  split <;> rename_i hStep <;> simp only [hStep]

theorem run_of_step {model : Model} {walk next : Walk} (h : walk.step model = .running next) :
    run model walk = run model next := by
  rw [run_eq, h]

/-- A finished class goes to the class around it. -/
theorem run_nil_cons (model : Model) (title : String) (properties : List (String × Property))
    (slot : Slot) (body : Body) (outer : List (Slot × Body)) (visited : Visited) :
    run model ⟨⟨title, [], properties⟩, (slot, body) :: outer, visited⟩ =
      run model ⟨body.put slot (.object title properties), outer, visited⟩ :=
  run_of_step rfl

/-- The outermost class ends the walk. -/
theorem run_nil_nil (model : Model) (title : String) (properties : List (String × Property))
    (visited : Visited) :
    run model ⟨⟨title, [], properties⟩, [], visited⟩ =
      (.ok (.object title properties), visited) := by
  rw [run_eq]
  rfl

/-- A field whose schema is known at once is one step. -/
theorem step_closed {model : Model} {title : String} {field : Field} {fields : List Field}
    {properties : List (String × Property)} {outer : List (Slot × Body)}
    {visited visited' : Visited} {schema : Schema} {slot : Slot}
    (opened : model.openField field visited = (.ok (.closed schema, slot), visited')) :
    step model ⟨⟨title, field :: fields, properties⟩, outer, visited⟩ =
      .running ⟨⟨title, fields, OrderedMap.put slot.name (slot.fill schema) properties⟩,
        outer, visited'⟩ := by
  simp only [step, opened]
  rfl

/-- A field that brings a class with it puts its own class on the stack. -/
theorem step_nested {model : Model} {title innerTitle : String} {field : Field}
    {fields inner : List Field} {properties : List (String × Property)}
    {outer : List (Slot × Body)} {visited visited' : Visited} {slot : Slot}
    (opened : model.openField field visited = (.ok (.pending innerTitle inner, slot), visited')) :
    step model ⟨⟨title, field :: fields, properties⟩, outer, visited⟩ =
      .running ⟨⟨innerTitle, inner, []⟩, (slot, ⟨title, fields, properties⟩) :: outer,
        visited'⟩ := by
  simp only [step, opened]

/-- A field without a schema ends the walk. -/
theorem run_failed {model : Model} {title : String} {field : Field} {fields : List Field}
    {properties : List (String × Property)} {outer : List (Slot × Body)}
    {visited visited' : Visited} {error : CompileError}
    (opened : model.openField field visited = (.error error, visited')) :
    run model ⟨⟨title, field :: fields, properties⟩, outer, visited⟩ =
      (.error error, visited') := by
  rw [run_eq]
  simp only [step, opened]

/-- **Stacks do not matter.**  Whatever lies on the stack, a walk over fields that can be
compiled reaches the point where they are compiled, with the same stack. -/
theorem run_of_compilesFields {model : Model} {fields : List Field}
    {properties properties' : List (String × Property)} {visited visited' : Visited}
    (h : CompilesFields model fields properties visited properties' visited')
    (title : String) (outer : List (Slot × Body)) :
    run model ⟨⟨title, fields, properties⟩, outer, visited⟩ =
      run model ⟨⟨title, [], properties'⟩, outer, visited'⟩ := by
  induction h generalizing title outer with
  | done => rfl
  | closed opened _ ih =>
      rw [run_of_step (step_closed opened)]
      exact ih title outer
  | nested opened _ _ ihInner ih =>
      rw [run_of_step (step_nested opened), ihInner, run_nil_cons]
      exact ih title outer

/-- **A walk that ends well has compiled its fields.**  The induction is on the work that is
left, since a class that is met puts more fields before those that were there. -/
theorem compilesFields_of_run {model : Model} {title : String} {fields : List Field}
    {properties : List (String × Property)} {outer : List (Slot × Body)}
    {visited final : Visited} {schema : Schema}
    (h : run model ⟨⟨title, fields, properties⟩, outer, visited⟩ = (.ok schema, final)) :
    ∃ properties' visited',
      CompilesFields model fields properties visited properties' visited' ∧
        run model ⟨⟨title, [], properties'⟩, outer, visited'⟩ = (.ok schema, final) := by
  induction hWork : weight model ⟨⟨title, fields, properties⟩, outer, visited⟩
    using Nat.strongRecOn generalizing title fields properties outer visited with
  | _ work ih =>
      cases fields with
      | nil => exact ⟨properties, visited, .done properties visited, h⟩
      | cons field fields =>
          cases hOpened : model.openField field visited with
          | mk result visited₁ =>
              match result, hOpened with
              | .error error, hOpened =>
                  rw [run_failed hOpened] at h
                  cases h
              | .ok (.closed closedSchema, slot), hOpened =>
                  have hStep : step model ⟨⟨title, field :: fields, properties⟩, outer, visited⟩ =
                      .running _ := step_closed hOpened
                  have hLess := weight_step hStep
                  rw [run_of_step hStep] at h
                  obtain ⟨properties', visited', hFields, hRest⟩ :=
                    ih _ (hWork ▸ hLess) h rfl
                  exact ⟨properties', visited', .closed hOpened hFields, hRest⟩
              | .ok (.pending innerTitle inner, slot), hOpened =>
                  have hStep : step model ⟨⟨title, field :: fields, properties⟩, outer, visited⟩ =
                      .running _ := step_nested hOpened
                  have hLess := weight_step hStep
                  rw [run_of_step hStep] at h
                  obtain ⟨innerProperties, visited₂, hInner, hAfter⟩ :=
                    ih _ (hWork ▸ hLess) h rfl
                  rw [run_nil_cons] at hAfter
                  have hUnmet := hInner.unmet_le
                  obtain ⟨properties', visited', hFields, hRest⟩ := by
                    refine ih _ ?_ hAfter rfl
                    rw [← hWork]
                    simp only [weight, onStack, inOuter, List.length_cons] at hLess ⊢
                    omega
                  exact ⟨properties', visited', .nested hOpened hInner hFields, hRest⟩

end Walk

/-! ## What is met outside of any class -/

/-- Compiling what was met leads to a schema and to visited keys. -/
inductive Finishes (model : Model) : Opened → Visited → Schema → Visited → Prop where
  /-- The schema is there already. -/
  | closed (schema : Schema) (visited : Visited) :
      Finishes model (.closed schema) visited schema visited
  /-- The schema of a class has the properties of its fields. -/
  | pending {title : String} {fields : List Field} {properties : List (String × Property)}
      {visited visited' : Visited} :
      CompilesFields model fields [] visited properties visited' →
      Finishes model (.pending title fields) visited (.object title properties) visited'

namespace Model

/-- What was met is compiled exactly as the relation says. -/
theorem finish_eq_ok_iff {model : Model} {opened : Opened} {visited visited' : Visited}
    {schema : Schema} :
    model.finish opened visited = (.ok schema, visited') ↔
      Finishes model opened visited schema visited' := by
  constructor
  · intro h
    cases opened with
    | closed closedSchema =>
        obtain ⟨rfl, rfl⟩ : closedSchema = schema ∧ visited = visited' := by
          simpa [finish] using h
        exact .closed closedSchema visited
    | pending title fields =>
        obtain ⟨properties, visited₁, hFields, hRest⟩ := Walk.compilesFields_of_run h
        rw [Walk.run_nil_nil] at hRest
        cases hRest
        exact .pending hFields
  · intro h
    cases h with
    | closed => rfl
    | pending hFields =>
        show Walk.run model _ = _
        rw [Walk.run_of_compilesFields hFields, Walk.run_nil_nil]

/-- A class is met, and what it gives is compiled. -/
theorem compileClass_eq_ok_iff {model : Model} {number : Nat} {visited visited' : Visited}
    {schema : Schema} :
    model.compileClass number visited = (.ok schema, visited') ↔
      ∃ opened visited₁, model.openClass number visited = (.ok opened, visited₁) ∧
        Finishes model opened visited₁ schema visited' := by
  unfold compileClass
  rcases model.openClass number visited with ⟨_ | opened, visited₁⟩
  · simp
  · simp [finish_eq_ok_iff, and_assoc]

/-- A type is met, and what it gives is compiled. -/
theorem compileType_eq_ok_iff {model : Model} {type : FieldType} {visited visited' : Visited}
    {schema : Schema} :
    model.compileType type visited = (.ok schema, visited') ↔
      ∃ opened visited₁, model.openType type visited = (.ok opened, visited₁) ∧
        Finishes model opened visited₁ schema visited' := by
  unfold compileType
  rcases model.openType type visited with ⟨_ | opened, visited₁⟩
  · simp
  · simp [finish_eq_ok_iff, and_assoc]

/-- A field is met, and what its type gives is compiled and put in its place. -/
theorem compileField_eq_ok_iff {model : Model} {field : Field} {visited visited' : Visited}
    {property : Property} :
    model.compileField field visited = (.ok property, visited') ↔
      ∃ opened slot visited₁ schema,
        model.openField field visited = (.ok (opened, slot), visited₁) ∧
          Finishes model opened visited₁ schema visited' ∧ property = slot.fill schema := by
  unfold compileField
  rcases model.openField field visited with ⟨_ | ⟨opened, slot⟩, visited₁⟩
  · simp
  · simp only [← finish_eq_ok_iff]
    rcases hFinish : model.finish opened visited₁ with ⟨_ | schema, visited₂⟩
    · constructor
      · simp [Except.map]
      · rintro ⟨opened', slot', _, schema, hOpened, hFinishes, _⟩
        simp only [Prod.mk.injEq, Except.ok.injEq] at hOpened
        obtain ⟨⟨rfl, rfl⟩, rfl⟩ := hOpened
        simp [hFinish] at hFinishes
    · constructor
      · intro h
        obtain ⟨rfl, rfl⟩ : slot.fill schema = property ∧ visited₂ = visited' := by
          simpa [Except.map] using h
        exact ⟨opened, slot, visited₁, schema, rfl, hFinish, rfl⟩
      · rintro ⟨opened', slot', _, schema', hOpened, hFinishes, rfl⟩
        simp only [Prod.mk.injEq, Except.ok.injEq] at hOpened
        obtain ⟨⟨rfl, rfl⟩, rfl⟩ := hOpened
        simp only [hFinish, Prod.mk.injEq, Except.ok.injEq] at hFinishes
        obtain ⟨rfl, rfl⟩ := hFinishes
        rfl

end Model

end ClassSchema
