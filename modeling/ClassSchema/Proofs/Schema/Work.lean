import Mathlib.Algebra.Ring.Nat
import ClassSchema.Proofs.Schema.Recursive
import ClassSchema.Proofs.Schema.Meeting

/-!
# The steps of a walk and the size of a document

A walk puts classes on its stack while it works through the fields of others, so
the stack says little about how long it takes.  What counts is which classes it
opens: a class that is no enum costs one step for each of its fields and one for
handing it on, and nothing else costs a step.

A class that is met again is referred to and not repeated.  The document of a
class therefore grows with the number of fields of what was opened, however often
the classes refer to each other.

## Main results

* `Walk.exists_takes`: every walk ends.
* `CompilesFields.exists_costs`: the steps, the opened classes and the nodes of
  compiled fields.
* `Model.compileClass_work`: compiling a class opens no key twice, takes as many
  steps as the opened classes have fields and bodies, and gives a document of
  linear size.
-/

namespace ClassSchema

/-! ## Nodes -/

namespace Schema

mutual

/-- The number of schemas in a schema, itself included. -/
def nodes : Schema → Nat
  | reference _ => 1
  | enumeration _ _ => 1
  | object _ properties => 1 + propertyNodes properties
  | bare _ => 1
  | array items => 1 + nodes items
  | map values => 1 + nodes values

/-- The number of schemas in properties. -/
def propertyNodes : List (String × Described Schema) → Nat
  | [] => 0
  | (_, ⟨content, _⟩) :: rest => nodes content + propertyNodes rest

end

/-- A property adds its own nodes at most; it may take the place of another one. -/
theorem propertyNodes_put_le (name : String) (property : Property)
    (properties : List (String × Property)) :
    propertyNodes (OrderedMap.put name property properties) ≤
      propertyNodes properties + property.content.nodes := by
  induction properties with
  | nil => simp [OrderedMap.put, propertyNodes]
  | cons first rest ih =>
      obtain ⟨key, ⟨content, description⟩⟩ := first
      by_cases hKey : key = name
      · simp only [OrderedMap.put, if_pos hKey, propertyNodes]
        omega
      · simp only [OrderedMap.put, if_neg hKey, propertyNodes]
        omega

end Schema

/-- A schema that is put in its place has one node more where the place is that of a sequence. -/
theorem Slot.nodes_fill_le (slot : Slot) (schema : Schema) :
    (slot.fill schema).content.nodes ≤ schema.nodes + 1 := by
  unfold Slot.fill
  split
  · simp only [Schema.nodes]
    omega
  · exact Nat.le_succ _

section ClosedNodes

variable {model : Model} {visited visited' : Visited} {schema : Schema}

/-- A type whose schema is fixed has two nodes at most. -/
theorem Model.nodes_of_shape {type : FieldType} (h : model.shape type = .ok (.fixed schema)) :
    schema.nodes ≤ 2 := by
  cases unwraps_of_shape h with
  | map _ _ _ hValues =>
      rcases valueSchema_cases hValues with ⟨_, _, _, _, _, _, rfl⟩ | ⟨_, _, rfl⟩
      · exact Nat.le_refl 2
      · exact Nat.le_refl 2
  | whole => exact Nat.le_succ 1

/-- A class that is closed where it is met has one node. -/
theorem Model.nodes_of_openClass {number : Nat}
    (h : model.openClass number visited = (.ok (.closed schema), visited')) :
    schema.nodes = 1 := by
  cases openClass_eq_ok_iff.mp h with
  | missing | known | constants => rfl

/-- A type that is closed where it is met has one node. -/
theorem Model.nodes_of_openType {type : FieldType}
    (h : model.openType type visited = (.ok (.closed schema), visited')) :
    schema.nodes = 1 := by
  rcases openType_cases h with ⟨_, _, hClass⟩ | ⟨_, ⟨_, _, hClosed⟩, _⟩
  · exact nodes_of_openClass hClass
  · cases hClosed
    rfl

/-- A field that is closed where it is met makes two nodes at most. -/
theorem Model.nodes_of_openField {field : Field} {slot : Slot}
    (h : model.openField field visited = (.ok (.closed schema, slot), visited')) :
    (slot.fill schema).content.nodes ≤ 2 := by
  obtain ⟨shape, listed, description, hShape, opensAs, -, rfl⟩ := exists_opensAs h
  cases opensAs with
  | fixed => exact nodes_of_shape hShape
  | expand hClass =>
      have filled := Slot.nodes_fill_le ⟨field.name, false, description⟩ schema
      rwa [nodes_of_openClass hClass] at filled
  | listOf hType =>
      have filled := Slot.nodes_fill_le ⟨field.name, true, description⟩ schema
      rwa [nodes_of_openType hType] at filled

end ClosedNodes

/-! ## What a step opens -/

namespace Model

/-- The class that a type refers to, if it is one that is expanded. -/
def refersTo? (model : Model) (type : FieldType) : Option Nat :=
  (model.expandable type).toOption.join

/-- The class that the type of a field leads to: the class itself, or that of an array or a list. -/
def leadsTo? (model : Model) : FieldType → Option Nat
  | .array element => model.refersTo? element
  | .parameterized name [item] => if name ∈ Names.lists then model.refersTo? item else none
  | type => model.refersTo? type

/-- The class that is opened where a class is met, unless its key was met before. -/
def opensAt (model : Model) (visited : Visited) (number : Option Nat) : List Entity :=
  (number.bind (model[·]?)).toList.filter fun entity =>
    entity.key.isKey && !visited.has entity.key

theorem refersTo?_eq_some_iff {model : Model} {type : FieldType} {target : Nat} :
    model.refersTo? type = some target ↔ RefersTo model type target := by
  constructor
  · intro h
    rcases hExpandable : model.expandable type with error | answer
    · simp [refersTo?, hExpandable, Except.toOption] at h
    · rcases expandable_cases hExpandable with ⟨found, rfl, refers⟩ | ⟨rfl, _⟩
      · obtain rfl : found = target := by simpa [refersTo?, hExpandable, Except.toOption] using h
        exact refers
      · simp [refersTo?, hExpandable, Except.toOption] at h
  · rintro ⟨found, standard⟩
    simp [refersTo?, expandable, isModelClass, found, standard, Except.map, Except.toOption]

theorem leadsTo?_eq_some_iff {model : Model} {type : FieldType} {target : Nat} :
    model.leadsTo? type = some target ↔ LeadsTo model type target := by
  constructor
  · intro h
    unfold leadsTo? at h
    split at h
    · exact .array (refersTo?_eq_some_iff.mp h)
    · split at h
      · next hList => exact .list hList (refersTo?_eq_some_iff.mp h)
      · cases h
    · exact .direct (refersTo?_eq_some_iff.mp h)
  · rintro (refers | refers | ⟨hList, refers⟩)
    · have h := refersTo?_eq_some_iff.mpr refers
      cases refers
      exact h
    · exact refersTo?_eq_some_iff.mpr refers
    · simpa [leadsTo?, hList] using refersTo?_eq_some_iff.mpr refers

end Model

/-- What a class that is met gives, and what it opens. -/
inductive Opening (visited : Visited) : List Entity → Opened → Visited → Prop where
  /-- Nothing is opened. -/
  | nothing (schema : Schema) : Opening visited [] (.closed schema) visited
  /-- An enum is opened, and closed at once. -/
  | constants {entity : Entity} (schema : Schema) : visited.has entity.key = false →
      entity.isEnum.truthy = true →
      Opening visited [entity] (.closed schema) (entity.key :: visited)
  /-- A class is opened, and its fields are to be compiled. -/
  | body {entity : Entity} : visited.has entity.key = false → entity.isEnum.truthy = false →
      Opening visited [entity] (.pending entity.simpleName entity.fields) (entity.key :: visited)

section Openings

variable {model : Model} {visited visited' : Visited} {opened : Opened}

theorem Opening.of_openClass {number : Nat}
    (h : model.openClass number visited = (.ok opened, visited')) :
    Opening visited (model.opensAt visited (some number)) opened visited' := by
  have one : ∀ {entity : Entity}, model[number]? = some entity → entity.key.isKey = true →
      visited.has entity.key = false → model.opensAt visited (some number) = [entity] := by
    intro entity found isKey fresh
    simp [Model.opensAt, found, isKey, fresh]
  cases Model.openClass_eq_ok_iff.mp h with
  | missing hNone =>
      have hOpens : model.opensAt visited (some number) = [] := by simp [Model.opensAt, hNone]
      rw [hOpens]
      exact .nothing _
  | known found _ known =>
      have hOpens : model.opensAt visited (some number) = [] := by
        simp [Model.opensAt, found, known]
      rw [hOpens]
      exact .nothing _
  | constants found isKey fresh isEnum =>
      rw [one found isKey fresh]
      exact .constants _ fresh isEnum
  | fields found isKey fresh notEnum =>
      rw [one found isKey fresh]
      exact .body fresh notEnum

theorem Opening.of_openField {field : Field} {slot : Slot}
    (h : model.openField field visited = (.ok (opened, slot), visited')) :
    Opening visited (model.opensAt visited (model.leadsTo? field.type)) opened visited' := by
  rcases Model.openField_cases h with ⟨target, leads, hClass⟩ | ⟨rfl, ⟨schema, rfl⟩, none⟩
  · rw [Model.leadsTo?_eq_some_iff.mpr ((leads target).mpr rfl)]
    exact .of_openClass hClass
  · have hNone : model.leadsTo? field.type = Option.none := by
      rw [Option.eq_none_iff_forall_ne_some]
      exact fun target hSome => none target (Model.leadsTo?_eq_some_iff.mp hSome)
    rw [hNone]
    exact .nothing schema

end Openings

/-! ## Steps -/

namespace Walk

/-- The class that the next step opens, if it opens one. -/
def opens (model : Model) (walk : Walk) : List Entity :=
  match walk.current.fields with
  | [] => []
  | field :: _ => model.opensAt walk.visited (model.leadsTo? field.type)

/-- A walk takes a number of steps, opens classes, and comes to an end. -/
inductive Takes (model : Model) : Walk → Nat → List Entity → StepResult → Prop where
  /-- The last step. -/
  | last {walk : Walk} : (∀ next, walk.step model ≠ .running next) →
      Takes model walk 1 (walk.opens model) (walk.step model)
  /-- A step with others behind it. -/
  | more {walk next : Walk} {steps : Nat} {opened : List Entity} {result : StepResult} :
      walk.step model = .running next → Takes model next steps opened result →
      Takes model walk (steps + 1) (walk.opens model ++ opened) result

/-- **Every walk ends**, be the model cyclic or not: each step leaves less work. -/
theorem exists_takes (model : Model) (walk : Walk) :
    ∃ steps opened result, Takes model walk steps opened result := by
  induction hWork : walk.weight model using Nat.strongRecOn generalizing walk with
  | _ work ih =>
      by_cases hRunning : ∃ next, walk.step model = .running next
      · obtain ⟨next, hStep⟩ := hRunning
        obtain ⟨steps, opened, result, rest⟩ := ih _ (hWork ▸ weight_step hStep) next rfl
        exact ⟨_, _, _, .more hStep rest⟩
      · exact ⟨_, _, _, .last (not_exists.mp hRunning)⟩

/-- The step that finishes the outermost class. -/
theorem Takes.finish (model : Model) (title : String) (properties : List (String × Property))
    (visited : Visited) :
    Takes model ⟨⟨title, [], properties⟩, [], visited⟩ 1 []
      (.finished (.object title properties) visited) :=
  .last (by simp [step])

/-- A walk can be taken in one way only. -/
theorem Takes.unique {model : Model} {walk : Walk} {steps steps' : Nat}
    {opened opened' : List Entity} {result result' : StepResult}
    (h : Takes model walk steps opened result) (h' : Takes model walk steps' opened' result') :
    steps = steps' ∧ opened = opened' ∧ result = result' := by
  induction h generalizing steps' opened' result' with
  | last hOver =>
      cases h' with
      | last => exact ⟨rfl, rfl, rfl⟩
      | more hStep _ => exact absurd hStep (hOver _)
  | more hStep _ ih =>
      cases h' with
      | last hOver => exact absurd hStep (hOver _)
      | more hStep' rest =>
          rw [hStep] at hStep'
          cases hStep'
          obtain ⟨rfl, rfl, rfl⟩ := ih rest
          exact ⟨rfl, rfl, rfl⟩

end Walk

/-! ## Opened classes -/

namespace Walk

/-- The steps that opened classes cost: one for each field, and one for the body. -/
def stepsFor (opened : List Entity) : Nat :=
  ((opened.filter (!·.isEnum.truthy)).map (·.fields.length + 1)).sum

/-- The number of fields of opened classes. -/
def fieldsIn (opened : List Entity) : Nat := (opened.map (·.fields.length)).sum

theorem stepsFor_append (opened others : List Entity) :
    stepsFor (opened ++ others) = stepsFor opened + stepsFor others := by
  simp [stepsFor]

theorem stepsFor_cons {entity : Entity} (notEnum : entity.isEnum.truthy = false)
    (opened : List Entity) :
    stepsFor (entity :: opened) = entity.fields.length + 1 + stepsFor opened := by
  simp [stepsFor, notEnum]

theorem fieldsIn_cons (entity : Entity) (opened : List Entity) :
    fieldsIn (entity :: opened) = entity.fields.length + fieldsIn opened := rfl

theorem fieldsIn_append (opened others : List Entity) :
    fieldsIn (opened ++ others) = fieldsIn opened + fieldsIn others := by
  simp [fieldsIn]

end Walk

/-- Classes are opened one after the other, each with a key that was not met before. -/
def OpenedInTurn : Visited → List Entity → Visited → Prop
  | visited, [], visited' => visited' = visited
  | visited, entity :: rest, visited' =>
      visited.has entity.key = false ∧ OpenedInTurn (entity.key :: visited) rest visited'

namespace OpenedInTurn

variable {visited visited₁ visited' : Visited} {opened others : List Entity}

theorem append (h : OpenedInTurn visited opened visited₁)
    (h' : OpenedInTurn visited₁ others visited') :
    OpenedInTurn visited (opened ++ others) visited' := by
  induction opened generalizing visited with
  | nil =>
      cases h
      exact h'
  | cons entity rest ih => exact ⟨h.1, ih h.2⟩

/-- The keys of the opened classes are what the visited set has gained, the last one in front. -/
theorem visited_eq (h : OpenedInTurn visited opened visited') :
    visited' = (opened.map (·.key)).reverse ++ visited := by
  induction opened generalizing visited with
  | nil => exact h
  | cons entity rest ih => simp [ih h.2]

/-- No class is opened whose key was met before. -/
theorem fresh (h : OpenedInTurn visited opened visited') :
    ∀ entity ∈ opened, visited.has entity.key = false := by
  induction opened generalizing visited with
  | nil => simp
  | cons first rest ih =>
      intro entity hMem
      rcases List.mem_cons.mp hMem with rfl | hMem
      · exact h.1
      · have hLater := ih h.2 entity hMem
        simp only [Visited.has_cons, Bool.or_eq_false_iff] at hLater
        exact hLater.2

/-- No key is opened twice. -/
theorem pairwise (h : OpenedInTurn visited opened visited') :
    opened.Pairwise fun first later => first.key.sameKey later.key = false := by
  induction opened generalizing visited with
  | nil => exact .nil
  | cons first rest ih =>
      refine .cons (fun later hMem => ?_) (ih h.2)
      have hLater := h.2.fresh later hMem
      simp only [Visited.has_cons, Bool.or_eq_false_iff] at hLater
      exact hLater.1

end OpenedInTurn

/-- What is opened where a class is met is opened in turn. -/
theorem Opening.openedInTurn {visited visited' : Visited} {entities : List Entity}
    {opened : Opened} (h : Opening visited entities opened visited') :
    OpenedInTurn visited entities visited' := by
  cases h with
  | nothing => rfl
  | constants _ fresh _ => exact ⟨fresh, rfl⟩
  | body fresh _ => exact ⟨fresh, rfl⟩

/-- What brings fields with it is a class that was not met, and no enum. -/
theorem Opening.exists_of_pending {visited visited' : Visited} {entities : List Entity}
    {title : String} {fields : List Field}
    (h : Opening visited entities (.pending title fields) visited') :
    ∃ entity, entities = [entity] ∧ fields = entity.fields ∧ visited.has entity.key = false ∧
      entity.isEnum.truthy = false ∧ visited' = entity.key :: visited := by
  cases h with
  | @body entity fresh notEnum => exact ⟨entity, rfl, rfl, fresh, notEnum, rfl⟩

/-- What is closed where it is met costs no further step. -/
theorem Opening.stepsFor_of_closed {visited visited' : Visited} {entities : List Entity}
    {schema : Schema} (h : Opening visited entities (.closed schema) visited') :
    Walk.stepsFor entities = 0 := by
  cases h with
  | nothing => rfl
  | constants _ _ isEnum => simp [Walk.stepsFor, isEnum]

/-! ## Compiled fields -/

/-- What it costs to compile fields that open some classes. -/
structure CompilesFields.Costs (model : Model) (fields : List Field)
    (properties : List (String × Property)) (visited : Visited)
    (properties' : List (String × Property)) (visited' : Visited) (opened : List Entity) :
    Prop where
  /-- The classes are opened in turn. -/
  inTurn : OpenedInTurn visited opened visited'
  /-- A walk that gets to the end of the fields in whatever place, and goes on from there, takes
  one step for each of the fields and those for the opened classes. -/
  takes : ∀ title outer steps others result,
    Walk.Takes model ⟨⟨title, [], properties'⟩, outer, visited'⟩ steps others result →
      Walk.Takes model ⟨⟨title, fields, properties⟩, outer, visited⟩
        (fields.length + Walk.stepsFor opened + steps) (opened ++ others) result
  /-- A field adds two nodes at most, be it one of these or one of an opened class. -/
  bounded : Schema.propertyNodes properties' ≤
    Schema.propertyNodes properties + 2 * fields.length + 2 * Walk.fieldsIn opened

namespace CompilesFields

variable {model : Model} {field : Field} {fields inner : List Field} {slot : Slot}
  {properties innerProperties properties' : List (String × Property)}
  {visited visited₁ visited₂ visited' : Visited} {opened openedInner : List Entity}

theorem Costs.done (model : Model) (properties : List (String × Property)) (visited : Visited) :
    Costs model [] properties visited properties visited [] where
  inTurn := rfl
  takes title outer steps others result rest := by simpa [Walk.stepsFor] using rest
  bounded := by simp

/-- A field whose schema is known at once takes one step. -/
theorem Costs.closed {schema : Schema}
    (met : model.openField field visited = (.ok (.closed schema, slot), visited₁))
    (rest : Costs model fields (OrderedMap.put slot.name (slot.fill schema) properties) visited₁
      properties' visited' opened) :
    Costs model (field :: fields) properties visited properties' visited'
      (model.opensAt visited (model.leadsTo? field.type) ++ opened) := by
  have opening := Opening.of_openField met
  refine ⟨opening.openedInTurn.append rest.inTurn, fun title outer steps others result after => ?_,
    ?_⟩
  · have all := Walk.Takes.more (Walk.step_closed met) (rest.takes title outer _ _ _ after)
    have hSteps : (field :: fields).length + Walk.stepsFor opened + steps =
        fields.length + Walk.stepsFor opened + steps + 1 := by
      rw [List.length_cons]
      omega
    rw [Walk.stepsFor_append, opening.stepsFor_of_closed, Nat.zero_add, hSteps,
      List.append_assoc]
    exact all
  · have hPut := Schema.propertyNodes_put_le slot.name (slot.fill schema) properties
    have hField := Model.nodes_of_openField met
    have hRest := rest.bounded
    rw [Walk.fieldsIn_append, List.length_cons]
    omega

/-- A field that brings a class with it takes one step to open it and one to hand it on. -/
theorem Costs.nested {title : String}
    (met : model.openField field visited = (.ok (.pending title inner, slot), visited₁))
    (within : Costs model inner [] visited₁ innerProperties visited₂ openedInner)
    (rest : Costs model fields
      (OrderedMap.put slot.name (slot.fill (.object title innerProperties)) properties) visited₂
      properties' visited' opened) :
    ∃ entity, Costs model (field :: fields) properties visited properties' visited'
      (entity :: (openedInner ++ opened)) := by
  obtain ⟨entity, hEntities, rfl, fresh, notEnum, rfl⟩ :=
    (Opening.of_openField met).exists_of_pending
  refine ⟨entity, ⟨fresh, within.inTurn.append rest.inTurn⟩,
    fun outerTitle outer steps others result after => ?_, ?_⟩
  · have handedOn : Walk.Takes model ⟨⟨title, [], innerProperties⟩,
        (slot, ⟨outerTitle, fields, properties⟩) :: outer, visited₂⟩ _ _ _ :=
      .more rfl (rest.takes outerTitle outer _ _ _ after)
    have all := Walk.Takes.more (Walk.step_nested met) (within.takes _ _ _ _ _ handedOn)
    have hOpens : Walk.opens model
        ⟨⟨outerTitle, field :: fields, properties⟩, outer, visited⟩ = [entity] := hEntities
    have hSteps : (field :: fields).length + Walk.stepsFor (entity :: (openedInner ++ opened)) +
        steps = entity.fields.length + Walk.stepsFor openedInner +
          (fields.length + Walk.stepsFor opened + steps + 1) + 1 := by
      rw [Walk.stepsFor_cons notEnum, Walk.stepsFor_append, List.length_cons]
      omega
    rw [hOpens] at all
    rw [hSteps, List.cons_append, List.append_assoc]
    exact all
  · have hPut := Schema.propertyNodes_put_le slot.name
      (slot.fill (.object title innerProperties)) properties
    have hFill := slot.nodes_fill_le (.object title innerProperties)
    have hWithin := within.bounded
    have hRest := rest.bounded
    rw [Schema.nodes] at hFill
    rw [Schema.propertyNodes] at hWithin
    rw [Walk.fieldsIn_cons, Walk.fieldsIn_append, List.length_cons]
    omega

/-- **What compiling fields costs**, by the classes that they open. -/
theorem exists_costs
    (h : CompilesFields model fields properties visited properties' visited') :
    ∃ opened, Costs model fields properties visited properties' visited' opened := by
  induction h with
  | done properties visited => exact ⟨[], .done model properties visited⟩
  | closed met _ ih =>
      obtain ⟨opened, rest⟩ := ih
      exact ⟨_, .closed met rest⟩
  | nested met _ _ ihInner ih =>
      obtain ⟨openedInner, within⟩ := ihInner
      obtain ⟨opened, rest⟩ := ih
      obtain ⟨entity, all⟩ := Costs.nested met within rest
      exact ⟨_, all⟩

end CompilesFields

/-! ## The document of a class -/

/-- The schema or the error that a step ends a walk with, and the visited keys. -/
def StepResult.outcome? : StepResult → Option (Except CompileError Schema × Visited)
  | .running _ => none
  | .finished schema visited => some (.ok schema, visited)
  | .failed error visited => some (.error error, visited)

/-- A walk that was taken to its end has the outcome that it ended with. -/
theorem Walk.Takes.outcome_eq {model : Model} {walk : Walk} {steps : Nat} {opened : List Entity}
    {result : StepResult} (h : Takes model walk steps opened result) :
    result.outcome? = some (run model walk) := by
  induction h with
  | @last walk hOver =>
      rw [run_eq]
      cases hStep : walk.step model with
      | running next => exact absurd hStep (hOver next)
      | finished => rfl
      | failed => rfl
  | more hStep _ ih => rw [run_of_step hStep, ih]

namespace Model

/-- Compiling a class takes a number of steps, opens classes, and has a result: its schema and the
visited keys.  A class that is closed where it is met needs no walk. -/
inductive CompilesIn (model : Model) (number : Nat) (visited : Visited) :
    Nat → List Entity → Except CompileError Schema × Visited → Prop where
  | refused {error : CompileError} {visited' : Visited} :
      model.openClass number visited = (.error error, visited') →
      CompilesIn model number visited 0 [] (.error error, visited')
  | closed {schema : Schema} {visited' : Visited} :
      model.openClass number visited = (.ok (.closed schema), visited') →
      CompilesIn model number visited 0 (model.opensAt visited (some number))
        (.ok schema, visited')
  | finished {title : String} {fields : List Field} {visited₁ visited' : Visited} {steps : Nat}
      {opened : List Entity} {schema : Schema} :
      model.openClass number visited = (.ok (.pending title fields), visited₁) →
      Walk.Takes model ⟨⟨title, fields, []⟩, [], visited₁⟩ steps opened
        (.finished schema visited') →
      CompilesIn model number visited steps (model.opensAt visited (some number) ++ opened)
        (.ok schema, visited')
  | failed {title : String} {fields : List Field} {visited₁ visited' : Visited} {steps : Nat}
      {opened : List Entity} {error : CompileError} :
      model.openClass number visited = (.ok (.pending title fields), visited₁) →
      Walk.Takes model ⟨⟨title, fields, []⟩, [], visited₁⟩ steps opened
        (.failed error visited') →
      CompilesIn model number visited steps (model.opensAt visited (some number) ++ opened)
        (.error error, visited')

/-- Compiling a class comes to an end, with the result that the library gives. -/
theorem exists_compilesIn (model : Model) (number : Nat) (visited : Visited) :
    ∃ steps opened,
      model.CompilesIn number visited steps opened (model.compileClass number visited) := by
  unfold compileClass
  rcases hClass : model.openClass number visited with ⟨error | ⟨schema | ⟨title, fields⟩⟩, visited₁⟩
  · exact ⟨_, _, .refused hClass⟩
  · exact ⟨_, _, .closed hClass⟩
  · obtain ⟨steps, opened, result, takes⟩ :=
      Walk.exists_takes model ⟨⟨title, fields, []⟩, [], visited₁⟩
    have hOutcome := takes.outcome_eq
    show ∃ steps opened, model.CompilesIn number visited steps opened
      (Walk.run model ⟨⟨title, fields, []⟩, [], visited₁⟩)
    cases result with
    | running => cases hOutcome
    | finished =>
        rw [← Option.some.inj hOutcome]
        exact ⟨_, _, .finished hClass takes⟩
    | failed =>
        rw [← Option.some.inj hOutcome]
        exact ⟨_, _, .failed hClass takes⟩

/-- A class whose fields are compiled opens itself and what its fields open. -/
private theorem work_of_finished {model : Model} {number steps : Nat}
    {visited visited₁ visited' : Visited} {title : String} {fields : List Field}
    {opened : List Entity} {schema : Schema}
    (hClass : model.openClass number visited = (.ok (.pending title fields), visited₁))
    (takes : Walk.Takes model ⟨⟨title, fields, []⟩, [], visited₁⟩ steps opened
      (.finished schema visited')) :
    OpenedInTurn visited (model.opensAt visited (some number) ++ opened) visited' ∧
      steps = Walk.stepsFor (model.opensAt visited (some number) ++ opened) ∧
      schema.nodes ≤ 1 + 2 * Walk.fieldsIn (model.opensAt visited (some number) ++ opened) := by
  obtain ⟨properties, visited₂, hFields, hEnd⟩ :=
    Walk.compilesFields_of_run (Option.some.inj takes.outcome_eq).symm
  rw [Walk.run_nil_nil] at hEnd
  cases hEnd
  obtain ⟨openedInner, inTurn, takesInner, bounded⟩ := hFields.exists_costs
  have hAll := takesInner title [] _ _ _ (.finish model title properties visited')
  obtain ⟨rfl, rfl, _⟩ := takes.unique hAll
  obtain ⟨entity, hEntities, rfl, fresh, notEnum, rfl⟩ :=
    (Opening.of_openClass hClass).exists_of_pending
  rw [hEntities, List.append_nil, List.singleton_append]
  refine ⟨⟨fresh, inTurn⟩, (Walk.stepsFor_cons notEnum openedInner).symm ▸ ?_, ?_⟩
  · omega
  · rw [Walk.fieldsIn_cons, Schema.nodes]
    rw [Schema.propertyNodes] at bounded
    omega

/-- **Bounded work and documents of linear size.**  On every model, cyclic or not, compiling a class
comes to an end, and on a model of texts with a schema.  Where it ends with a schema, the opened
classes have different keys, none of them visited before, and the visited set has gained just
these; there is one step for each field of an opened class that is no enum and one more for each
such class; and the document has at most one node and two more for each field of an opened
class. -/
theorem compileClass_work (model : Model) (number : Nat) (visited : Visited) :
    (∃ steps opened,
      model.CompilesIn number visited steps opened (model.compileClass number visited)) ∧
    (model.Textual →
      ∃ schema visited', model.compileClass number visited = (.ok schema, visited')) ∧
    ∀ steps opened schema visited',
      model.CompilesIn number visited steps opened (.ok schema, visited') →
        opened.Pairwise (fun first later => first.key.sameKey later.key = false) ∧
        (∀ entity ∈ opened, visited.has entity.key = false) ∧
        visited' = (opened.map (·.key)).reverse ++ visited ∧
        steps = ((opened.filter (!·.isEnum.truthy)).map (·.fields.length + 1)).sum ∧
        schema.nodes ≤ 1 + 2 * (opened.map (·.fields.length)).sum := by
  refine ⟨exists_compilesIn model number visited,
    fun textual => Recursive.exists_compileClass textual number visited, ?_⟩
  intro steps opened schema visited' h
  have work : OpenedInTurn visited opened visited' ∧ steps = Walk.stepsFor opened ∧
      schema.nodes ≤ 1 + 2 * Walk.fieldsIn opened := by
    cases h with
    | closed hClass =>
        have opening := Opening.of_openClass hClass
        refine ⟨opening.openedInTurn, opening.stepsFor_of_closed.symm, ?_⟩
        rw [nodes_of_openClass hClass]
        exact Nat.le_add_right 1 _
    | finished hClass takes => exact work_of_finished hClass takes
  obtain ⟨inTurn, hSteps, hNodes⟩ := work
  exact ⟨inTurn.pairwise, inTurn.fresh, inTurn.visited_eq, hSteps, hNodes⟩

end Model

/-- Two ways from the top lead to the tip, and the tip leads back to the top. -/
def diamond : Model :=
  [⟨"Top", .str "d.Top", .bool false, .bool false, [],
    [⟨"left", .reference 1, .null, .bool false⟩, ⟨"right", .reference 2, .null, .bool false⟩]⟩,
   ⟨"Left", .str "d.Left", .bool false, .bool false, [],
    [⟨"tips", .array (.reference 3), .null, .bool false⟩]⟩,
   ⟨"Right", .str "d.Right", .bool false, .bool false, [],
    [⟨"tips", .parameterized "java.util.List" [.reference 3], .null, .bool false⟩]⟩,
   ⟨"Tip", .null, .bool false, .bool false, [],
    [⟨"top", .reference 0, .null, .bool false⟩]⟩]

/-- The document of the top. -/
def diamondSchema : Schema :=
  .object "Top"
    [("left", ⟨.object "Left"
      [("tips", ⟨.array (.object "Tip" [("top", ⟨.reference "d.Top", none⟩)]), none⟩)], none⟩),
     ("right", ⟨.object "Right" [("tips", ⟨.array (.reference "Tip"), none⟩)], none⟩)]

theorem diamond_textual : diamond.Textual where
  name := by simp [diamond, Json.IsTextual]
  comment := by simp [diamond, Json.IsTextual]

/-- Four classes with five fields take nine steps, and the tip is expanded once. -/
theorem compile_diamond_work :
    diamond.Textual ∧
      ∃ opened, diamond.CompilesIn 0 [] 9 opened
          (.ok diamondSchema, [.str "d.Right", .str "Tip", .str "d.Left", .str "d.Top"]) ∧
        opened.map (·.simpleName) = ["Top", "Left", "Tip", "Right"] ∧
        9 = ((opened.filter (!·.isEnum.truthy)).map (·.fields.length + 1)).sum ∧
        diamondSchema.nodes ≤ 11 := by
  have takes : diamond.CompilesIn 0 [] 9 _
      (.ok diamondSchema, [.str "d.Right", .str "Tip", .str "d.Left", .str "d.Top"]) :=
    .finished rfl (.more rfl (.more rfl (.more rfl (.more rfl (.more rfl (.more rfl (.more rfl
      (.more rfl (.finish _ _ _ _)))))))))
  obtain ⟨-, -, -, hSteps, hNodes⟩ :=
    (Model.compileClass_work diamond 0 []).2.2 _ _ _ _ takes
  exact ⟨diamond_textual, _, takes, rfl, hSteps, hNodes⟩

end ClassSchema
