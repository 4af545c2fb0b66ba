import ClassSchema.Model.Basic

/-!
# Entries of a model

Not every class gets a document of its own.  The entries of a model are the
classes that were asked for as such: all classes of a document, the top level
declarations of source files.  Of these, interfaces are left out, and a filter
keeps those with a simple or qualified name.

`listing` puts the classes of a model in the order in which a reader meets them:
the entries, and then whatever their fields lead to.

## Main results

* `mem_of_mem_select`: a selected class is one of the entries.
-/

namespace ClassSchema

namespace Model

/-- No entry has the name that was asked for. -/
structure ClassNotFound where
  /-- The name. -/
  name : String
  deriving Repr, DecidableEq

/-- The wording of the error. -/
def ClassNotFound.message (error : ClassNotFound) : String :=
  "Class " ++ error.name ++ " not found"

/-- Whether a class is there and no interface. -/
def isConcrete (model : Model) (number : Nat) : Bool :=
  match model[number]? with
  | some entity => !entity.isInterface.truthy
  | none => false

/-- The entries that are no interfaces. -/
def concrete (model : Model) (entries : List Nat) : List Nat := entries.filter model.isConcrete

/-- Whether a class has a name, be it the simple or the qualified one. -/
def isNamed (model : Model) (name : String) (number : Nat) : Bool :=
  match model[number]? with
  | some entity => entity.simpleName == name || match entity.qualifiedName with
      | .str qualified => qualified == name
      | _ => false
  | none => false

/-- The entries that get a document; an empty filter is none. -/
def select (model : Model) (entries : List Nat) (className : Option String) :
    Except ClassNotFound (List Nat) :=
  match className with
  | none => .ok (model.concrete entries)
  | some name =>
      if name = "" then .ok (model.concrete entries)
      else
        match (model.concrete entries).filter (model.isNamed name) with
        | [] => .error ⟨name⟩
        | chosen => .ok chosen

/-- A selected class is one of the entries and no interface. -/
theorem mem_of_mem_select {model : Model} {entries chosen : List Nat}
    {className : Option String} (h : model.select entries className = .ok chosen)
    {number : Nat} (mem : number ∈ chosen) :
    number ∈ entries ∧ model.isConcrete number = true := by
  have isConcrete : number ∈ model.concrete entries := by
    unfold select at h
    split at h
    · cases h
      exact mem
    · split at h
      · cases h
        exact mem
      · split at h
        · cases h
        · cases h
          exact (List.mem_filter.mp mem).1
  simpa [concrete] using isConcrete

end Model

/-! ## Listing -/

mutual

/-- The classes that a type mentions, from left to right. -/
def FieldType.targets : FieldType → List Nat
  | .scalar _ => []
  | .array element => element.targets
  | .parameterized _ arguments => FieldType.targetsOf arguments
  | .reference target => [target]

/-- The classes that types mention, from left to right. -/
def FieldType.targetsOf : List FieldType → List Nat
  | [] => []
  | type :: rest => type.targets ++ FieldType.targetsOf rest

end

namespace Model

/-- The classes that the fields of a class mention, from left to right. -/
def mentioned (model : Model) (number : Nat) : List Nat :=
  match model[number]? with
  | some entity => entity.fields.flatMap (·.type.targets)
  | none => []

/-- Appends the numbers that are not there yet. -/
def addNew (known : List Nat) (numbers : List Nat) : List Nat :=
  numbers.foldl (fun known number => if known.contains number then known else known ++ [number])
    known

/-- Goes through a growing list of classes from a position on and appends what is mentioned. -/
def listingFrom (model : Model) : Nat → Nat → List Nat → List Nat
  | 0, _, known => known
  | fuel + 1, position, known =>
      match known[position]? with
      | none => known
      | some number =>
          listingFrom model fuel (position + 1) (addNew known (model.mentioned number))

/-- The entries, and behind them the classes that only fields lead to, in the order in which they
are first mentioned. -/
def listing (model : Model) (entries : List Nat) : List Nat :=
  listingFrom model (entries.length + model.length) 0 entries

end Model

end ClassSchema
