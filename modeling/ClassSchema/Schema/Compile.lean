import ClassSchema.Schema.Basic
import ClassSchema.Schema.Comment

/-!
# From classes to schemas

A class is compiled to the schema of an object with a property per field; a field
whose type is another class of the model carries the schema of that class.  Within
one run each class is expanded once: the keys of the classes met so far are the
visited set, and a class whose key is in it becomes a reference.  Cycles end
there.

The classes of a chain can be nested deeper than any call stack, so the walk
keeps its own stack.  `Walk.step` does one thing: it compiles the next field of
the innermost class, or, when none is left, hands the finished object to the
class around it.

A field can be without a schema, because a document may give a class a name that
is no text, or a field a comment that is none.  The walk then ends, and the keys
added so far stay in the visited set.

## Main results

* `Walk.weight_step`: each step makes the work that is left smaller, so the walk
  ends on every model, cyclic or not.
-/

namespace ClassSchema

/-! ## Errors and visited sets -/

/-- Why a field has no schema. -/
inductive CompileError where
  /-- The name of a type cannot be looked at. -/
  | name (error : NameError)
  /-- The key of a class that is referred to is no text. -/
  | keyNoText (key : Json)
  /-- A doc comment is no text. -/
  | commentNoText (comment : Json)
  deriving Repr

namespace CompileError

/-- The wording of an error. -/
def message : CompileError → String
  | name error => error.message
  | keyNoText key => "can only concatenate str (not \"" ++ key.kindName ++ "\") to str"
  | commentNoText comment =>
      "expected string or bytes-like object, got '" ++ comment.kindName ++ "'"

end CompileError

/-- The keys of the classes that were met, last one first. -/
abbrev Visited := List Json

namespace Visited

/-- Whether a key was met. -/
def has (visited : Visited) (key : Json) : Bool := visited.any (·.sameKey key)

theorem has_cons (newest : Json) (visited : Visited) (key : Json) :
    Visited.has (newest :: visited) key = (newest.sameKey key || visited.has key) := rfl

end Visited

/-! ## Types and fields -/

/-- What a class gives where it is met. -/
inductive Opened where
  /-- A finished schema. -/
  | closed (schema : Schema)
  /-- The title of an object and the fields that are to be its properties. -/
  | pending (title : String) (fields : List Field)
  deriving Repr

/-- How the schema of a field's type is made. -/
inductive Shape where
  /-- It is the schema of a class. -/
  | expand (target : Nat)
  /-- It is an array of the schema of another type. -/
  | listOf (element : FieldType)
  /-- It depends on no class. -/
  | fixed (schema : Schema)
  deriving Repr

/-- The reference to a class by its key. -/
def referenceTo (key : Json) : Except CompileError Schema :=
  match key with
  | .str key => .ok (.reference key)
  | key => .error (.keyNoText key)

namespace Model

/-- The kind of a type, as the walk asks for it. -/
def kindOf (model : Model) (type : FieldType) : Except CompileError Schema :=
  match model.resolveKind type with
  | .ok kind => .ok (.bare kind)
  | .error e => .error (.name e)

/-- The class that a type stands for, if it is one that is expanded. -/
def expandable (model : Model) (type : FieldType) : Except CompileError (Option Nat) :=
  match model.isModelClass type with
  | .error e => .error (.name e)
  | .ok false => .ok none
  | .ok true =>
      match type with
      | .reference target => .ok (some target)
      | _ => .ok none

/-- The schema of the values of a map.  A class is referred to and not expanded. -/
def valueSchema (model : Model) (type : FieldType) : Except CompileError Schema :=
  match model.expandable type with
  | .error e => .error e
  | .ok none => model.kindOf type
  | .ok (some target) =>
      match model[target]? with
      | some entity => referenceTo entity.key
      | none => model.kindOf type

/-- How the schema of a type is made where the type is that of a field. -/
def shape (model : Model) (type : FieldType) : Except CompileError Shape :=
  match type with
  | .array element => .ok (.listOf element)
  | .reference target =>
      match model.expandable (.reference target) with
      | .error e => .error e
      | .ok (some target) => .ok (.expand target)
      | .ok none => (model.kindOf (.reference target)).map .fixed
  | .parameterized name [item] =>
      if name ∈ Names.lists then .ok (.listOf item)
      else (model.kindOf (.parameterized name [item])).map .fixed
  | .parameterized name [key, value] =>
      if name ∈ Names.maps ∧ key.isClassLike ∧ value.isClassLike then
        (model.valueSchema value).map fun values => .fixed (.map values)
      else (model.kindOf (.parameterized name [key, value])).map .fixed
  | type => (model.kindOf type).map .fixed

/-- Meets a class: its key is visited from now on.  A list or an object is no key. -/
def openClass (model : Model) (number : Nat) (visited : Visited) :
    Except CompileError Opened × Visited :=
  match model[number]? with
  | none => (.ok (.closed (.bare .object)), visited)
  | some entity =>
      if !entity.key.isKey then (.error (.name (.noKey entity.key)), visited)
      else if visited.has entity.key then ((referenceTo entity.key).map .closed, visited)
      else if entity.isEnum.truthy then
        (.ok (.closed (.enumeration entity.simpleName entity.enumConstants)),
          entity.key :: visited)
      else (.ok (.pending entity.simpleName entity.fields), entity.key :: visited)

/-- Meets a type as the element of a sequence. -/
def openType (model : Model) (type : FieldType) (visited : Visited) :
    Except CompileError Opened × Visited :=
  match model.expandable type with
  | .error e => (.error e, visited)
  | .ok (some target) => model.openClass target visited
  | .ok none => ((model.kindOf type).map .closed, visited)

end Model

/-! ## Fields -/

/-- The place in a class that a finished schema goes to. -/
structure Slot where
  /-- The name of the field. -/
  name : String
  /-- Whether the schema describes the items of a sequence. -/
  listed : Bool
  /-- The description of the field. -/
  description : Option String
  deriving Repr

namespace Slot

/-- The property that a schema makes in this place. -/
def fill (slot : Slot) (schema : Schema) : Property :=
  ⟨if slot.listed then .array schema else schema, slot.description⟩

end Slot

/-- The description that a doc comment gives. -/
def descriptionOf (comment : Json) : Except CompileError (Option String) :=
  match comment with
  | .null => .ok none
  | .str text => .ok (some (Comment.clean text))
  | comment => .error (.commentNoText comment)

namespace Model

/-- Meets the type of a field. -/
def openShape (model : Model) (shape : Shape) (visited : Visited) :
    Except CompileError (Opened × Bool) × Visited :=
  match shape with
  | .fixed schema => (.ok (.closed schema, false), visited)
  | .expand target =>
      let (opened, visited) := model.openClass target visited
      (opened.map (·, false), visited)
  | .listOf element =>
      let (opened, visited) := model.openType element visited
      (opened.map (·, true), visited)

/-- Meets a field: what its type gives, and where it goes. -/
def openField (model : Model) (field : Field) (visited : Visited) :
    Except CompileError (Opened × Slot) × Visited :=
  match model.shape field.type with
  | .error e => (.error e, visited)
  | .ok shape =>
      match model.openShape shape visited with
      | (.error e, visited) => (.error e, visited)
      | (.ok (opened, listed), visited) =>
          match descriptionOf field.docComment with
          | .error e => (.error e, visited)
          | .ok description => (.ok (opened, ⟨field.name, listed, description⟩), visited)

end Model

/-! ## The walk -/

/-- A class that is being compiled. -/
structure Body where
  /-- The title of the object. -/
  title : String
  /-- The fields that are still to be compiled. -/
  fields : List Field
  /-- The properties so far. -/
  properties : List (String × Property)
  deriving Repr

namespace Body

/-- Sets the property of a field. -/
def put (body : Body) (slot : Slot) (schema : Schema) : Body :=
  { body with properties := OrderedMap.put slot.name (slot.fill schema) body.properties }

/-- The schema of a class whose fields are compiled. -/
def schema (body : Body) : Schema := .object body.title body.properties

end Body

/-- The classes that are being compiled, and the keys that were met. -/
structure Walk where
  /-- The innermost class. -/
  current : Body
  /-- The classes around it, from the inside out, each with the place that the class inside it
  goes to. -/
  outer : List (Slot × Body)
  /-- The keys that were met. -/
  visited : Visited
  deriving Repr

/-- What one step of a walk leads to. -/
inductive StepResult where
  /-- There is more to do. -/
  | running (walk : Walk)
  /-- The outermost class is compiled. -/
  | finished (schema : Schema) (visited : Visited)
  /-- A field has no schema. -/
  | failed (error : CompileError) (visited : Visited)
  deriving Repr

namespace Walk

/-- Compiles one field, or hands a finished class to the one around it. -/
def step (model : Model) (walk : Walk) : StepResult :=
  match walk.current.fields with
  | [] =>
      match walk.outer with
      | [] => .finished walk.current.schema walk.visited
      | (slot, body) :: outer =>
          .running { walk with current := body.put slot walk.current.schema, outer }
  | field :: fields =>
      let current := { walk.current with fields }
      match model.openField field walk.visited with
      | (.error e, visited) => .failed e visited
      | (.ok (.closed schema, slot), visited) =>
          .running { walk with current := current.put slot schema, visited }
      | (.ok (.pending title inner, slot), visited) =>
          .running { current := ⟨title, inner, []⟩, outer := (slot, current) :: walk.outer, visited }

/-! ### Why a walk ends

Each class that is not yet visited counts for one more than it has fields, and so
does each class on the stack with the fields it has left.  A step takes one away;
opening a class only moves its share.
-/

/-- The work in classes that were not met. -/
def unmet (visited : Visited) : Model → Nat
  | [] => 0
  | entity :: rest =>
      (if visited.has entity.key then 0 else entity.fields.length + 1) + unmet visited rest

/-- The work in classes around the innermost one. -/
def inOuter : List (Slot × Body) → Nat
  | [] => 0
  | (_, body) :: rest => body.fields.length + 1 + inOuter rest

/-- The work in classes on the stack. -/
def onStack (walk : Walk) : Nat := walk.current.fields.length + 1 + inOuter walk.outer

/-- The steps that are left at most. -/
def weight (model : Model) (walk : Walk) : Nat := unmet walk.visited model + walk.onStack

/-- Visiting one more key adds no work. -/
theorem unmet_cons_le (key : Json) (visited : Visited) (model : Model) :
    unmet (key :: visited) model ≤ unmet visited model := by
  induction model with
  | nil => exact Nat.le_refl 0
  | cons entity rest ih =>
      simp only [unmet, Visited.has_cons]
      by_cases hKey : key.sameKey entity.key = true <;> simp [hKey] <;> omega

/-- Visiting the key of a class takes the work of that class away. -/
theorem unmet_cons_lt {model : Model} {number : Nat} {entity : Entity} {visited : Visited}
    (found : model[number]? = some entity) (isKey : entity.key.isKey = true)
    (fresh : visited.has entity.key = false) :
    unmet (entity.key :: visited) model + (entity.fields.length + 1) ≤ unmet visited model := by
  induction model generalizing number with
  | nil => simp at found
  | cons head rest ih =>
      cases number with
      | zero =>
          obtain rfl : head = entity := by simpa using found
          have := unmet_cons_le head.key visited rest
          simp [unmet, fresh, Visited.has_cons, Json.sameKey_self isKey]
          omega
      | succ number =>
          have := ih (by simpa using found)
          simp only [unmet, Visited.has_cons]
          by_cases hKey : entity.key.sameKey head.key = true <;> simp [hKey] <;> omega

/-- The work that a class brings where it is opened. -/
def Opened.work : Opened → Nat
  | .closed _ => 0
  | .pending _ fields => fields.length + 1

private theorem openClass_work {model : Model} {number : Nat} {visited visited' : Visited}
    {opened : Opened} (h : model.openClass number visited = (.ok opened, visited')) :
    unmet visited' model + Opened.work opened ≤ unmet visited model := by
  unfold Model.openClass at h
  split at h
  · cases h; simp [Opened.work]
  · next entity found =>
      split at h
      · cases h
      · next isKey =>
          split at h
          · cases hRef : referenceTo entity.key <;> simp [hRef, Except.map] at h
            obtain ⟨rfl, rfl⟩ := h
            simp [Opened.work]
          · next fresh =>
              have lighter := unmet_cons_lt found (by simpa using isKey) (by simpa using fresh)
              split at h
              · cases h
                simp only [Opened.work]
                omega
              · cases h
                simpa only [Opened.work] using lighter

private theorem openType_work {model : Model} {type : FieldType} {visited visited' : Visited}
    {opened : Opened} (h : model.openType type visited = (.ok opened, visited')) :
    unmet visited' model + Opened.work opened ≤ unmet visited model := by
  unfold Model.openType at h
  split at h
  · cases h
  · exact openClass_work h
  · cases hKind : model.kindOf type <;> simp [hKind, Except.map] at h
    obtain ⟨rfl, rfl⟩ := h
    simp [Opened.work]

private theorem openShape_work {model : Model} {shape : Shape} {visited visited' : Visited}
    {opened : Opened} {listed : Bool}
    (h : model.openShape shape visited = (.ok (opened, listed), visited')) :
    unmet visited' model + Opened.work opened ≤ unmet visited model := by
  unfold Model.openShape at h
  split at h
  · cases h
    simp [Opened.work]
  · next target =>
      cases hClass : model.openClass target visited with
      | mk result after =>
          cases result <;> simp [hClass, Except.map] at h
          obtain ⟨⟨rfl, rfl⟩, rfl⟩ := h
          exact openClass_work hClass
  · next element =>
      cases hType : model.openType element visited with
      | mk result after =>
          cases result <;> simp [hType, Except.map] at h
          obtain ⟨⟨rfl, rfl⟩, rfl⟩ := h
          exact openType_work hType

/-- A field brings no more work than visiting its class takes away. -/
theorem openField_work {model : Model} {field : Field} {visited visited' : Visited}
    {opened : Opened} {slot : Slot}
    (h : model.openField field visited = (.ok (opened, slot), visited')) :
    unmet visited' model + Opened.work opened ≤ unmet visited model := by
  unfold Model.openField at h
  split at h
  · cases h
  · next shape _ =>
      split at h
      · cases h
      · next met =>
          split at h <;> cases h
          exact openShape_work met

/-- A step leaves less work. -/
theorem weight_step {model : Model} {walk next : Walk} (h : walk.step model = .running next) :
    next.weight model < walk.weight model := by
  obtain ⟨⟨title, fields, properties⟩, outer, visited⟩ := walk
  unfold step at h
  split at h
  · next noFields =>
      simp only at noFields
      subst noFields
      split at h
      · cases h
      · next slot body rest hOuter =>
          simp only at hOuter
          subst hOuter
          cases h
          simp [weight, onStack, inOuter, Body.put]
  · next field rest hFields =>
      simp only at hFields
      subst hFields
      split at h
      · cases h
      · next schema slot visited' met =>
          have := openField_work met
          cases h
          simp only [Opened.work] at this
          simp [weight, onStack, Body.put]
          omega
      · next inner slot visited' met =>
          have := openField_work met
          cases h
          simp only [Opened.work] at this
          simp [weight, onStack, inOuter]
          omega

/-- Walks on until the outermost class is compiled or a field has no schema. -/
def run (model : Model) (walk : Walk) : Except CompileError Schema × Visited :=
  match _step : walk.step model with
  | .running next => run model next
  | .finished schema visited => (.ok schema, visited)
  | .failed error visited => (.error error, visited)
termination_by walk.weight model
decreasing_by exact weight_step _step

end Walk

/-! ## Classes, fields and types -/

namespace Model

/-- Compiles what was met: a class is walked through to its end. -/
def finish (model : Model) (opened : Opened) (visited : Visited) :
    Except CompileError Schema × Visited :=
  match opened with
  | .closed schema => (.ok schema, visited)
  | .pending title fields => Walk.run model ⟨⟨title, fields, []⟩, [], visited⟩

/-- The schema of a class. -/
def compileClass (model : Model) (number : Nat) (visited : Visited) :
    Except CompileError Schema × Visited :=
  match model.openClass number visited with
  | (.error e, visited) => (.error e, visited)
  | (.ok opened, visited) => model.finish opened visited

/-- The property that a field makes. -/
def compileField (model : Model) (field : Field) (visited : Visited) :
    Except CompileError Property × Visited :=
  match model.openField field visited with
  | (.error e, visited) => (.error e, visited)
  | (.ok (opened, slot), visited) =>
      let (schema, visited) := model.finish opened visited
      (schema.map slot.fill, visited)

/-- The schema of a type where it is the element of a sequence. -/
def compileType (model : Model) (type : FieldType) (visited : Visited) :
    Except CompileError Schema × Visited :=
  match model.openType type visited with
  | (.error e, visited) => (.error e, visited)
  | (.ok opened, visited) => model.finish opened visited

end Model

end ClassSchema
