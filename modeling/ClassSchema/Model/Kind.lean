import ClassSchema.Model.Basic

/-!
# Kinds of types

Every type is shown in a schema as one of six kinds.  The names of some library
classes decide the kind; any name that is not known is an object.

Whether a class counts as part of the model also depends on its name alone: the
classes of the `java` packages never do.  Both questions look into the qualified
name of the class a type refers to, and where a document put something other
than a text there they have no answer.
-/

namespace ClassSchema

/-- The kinds of a JSON schema. -/
inductive Kind where
  | integer
  | boolean
  | number
  | string
  | array
  | object
  deriving DecidableEq, Repr

namespace Kind

/-- The word for a kind. -/
def word : Kind → String
  | integer => "integer"
  | boolean => "boolean"
  | number => "number"
  | string => "string"
  | array => "array"
  | object => "object"

end Kind

/-- Why a name cannot be looked at. -/
inductive NameError where
  /-- The name is no text, so it has no beginning to compare. -/
  | noText (name : Json)
  /-- The name is a list or an object, so it is in no table. -/
  | noKey (name : Json)
  deriving Repr

namespace NameError

/-- The wording of an error. -/
def message : NameError → String
  | noText name => "'" ++ name.kindName ++ "' object has no attribute 'startswith'"
  | noKey name => "unhashable type: '" ++ name.kindName ++ "'"

end NameError

namespace Names

/-- The primitive types. -/
def primitives : List String :=
  ["byte", "short", "int", "long", "float", "double", "boolean", "char", "void"]

/-- Containers that are shown with the schema of their items. -/
def lists : List String :=
  ["java.util.List", "java.util.ArrayList", "java.util.LinkedList", "java.util.Collection"]

/-- Containers that are shown as plain arrays. -/
def sets : List String :=
  ["java.util.Set", "java.util.HashSet", "java.util.LinkedHashSet", "java.util.TreeSet",
   "java.util.SortedSet"]

/-- Containers that are shown with the schema of their values. -/
def maps : List String :=
  ["java.util.Map", "java.util.HashMap", "java.util.LinkedHashMap", "java.util.TreeMap",
   "java.util.SortedMap", "java.util.concurrent.ConcurrentHashMap"]

/-- Points in time outside the package for them. -/
def times : List String := ["java.util.Date", "java.util.Calendar"]

/-- The package of points in time and durations, with the dot behind it. -/
def timePackage : String := "java.time."

/-- The packages whose classes are never part of a model, with the dot behind them. -/
def standardPackages : String := "java."

/-- The types that are shown as a value, with their kinds. -/
def scalars : List (String × Kind) :=
  [("int", .integer),
   ("java.lang.Integer", .integer),
   ("long", .integer),
   ("java.lang.Long", .integer),
   ("boolean", .boolean),
   ("java.lang.Boolean", .boolean),
   ("double", .number),
   ("java.lang.Double", .number),
   ("java.math.BigDecimal", .number),
   ("java.math.BigInteger", .number),
   ("java.lang.String", .string)]

/-- Whether a text begins with another one. -/
def beginsWith (beginning text : String) : Bool := beginning.toList.isPrefixOf text.toList

/-- The kind that a name stands for. -/
def kind (name : String) : Kind :=
  match scalars.lookup name with
  | some kind => kind
  | none =>
      if name ∈ lists ∨ name ∈ sets then .array
      else if name ∈ maps then .object
      else if name ∈ times ∨ beginsWith timePackage name then .string
      else .object

end Names

namespace Entity

/-- Whether a class belongs to the standard packages. -/
def isStandard (entity : Entity) : Except NameError Bool :=
  match entity.qualifiedName with
  | .null => .ok false
  | .str name => .ok (Names.beginsWith Names.standardPackages name)
  | name => .error (.noText name)

end Entity

namespace Model

/-- The name of a type, or null for a type without one. -/
def typeName (model : Model) : FieldType → Json
  | .scalar name => .str name
  | .parameterized name _ => .str name
  | .reference target =>
      match model[target]? with
      | some entity => entity.qualifiedName
      | none => .null
  | .array _ => .null

/-- Whether a type is a class that is expanded where it occurs. -/
def isModelClass (model : Model) : FieldType → Except NameError Bool
  | .reference target =>
      match model[target]? with
      | some entity => entity.isStandard.map (!·)
      | none => .ok false
  | _ => .ok false

/-- Whether the name of a type is in a table. -/
def isNamedIn (model : Model) (names : List String) (type : FieldType) : Except NameError Bool :=
  match model.typeName type with
  | .str name => .ok (names.contains name)
  | .arr items => .error (.noKey (.arr items))
  | .obj members => .error (.noKey (.obj members))
  | _ => .ok false

/-- Whether a type is a container that is shown with the schema of its items. -/
def isListType (model : Model) (type : FieldType) : Except NameError Bool :=
  model.isNamedIn Names.lists type

/-- Whether a type is a container that is shown with the schema of its values. -/
def isMapType (model : Model) (type : FieldType) : Except NameError Bool :=
  model.isNamedIn Names.maps type

/-- The kind of a type as a whole. -/
def resolveKind (model : Model) (type : FieldType) : Except NameError Kind :=
  match type with
  | .array _ => .ok .array
  | type =>
      match model.typeName type with
      | .null => .ok .object
      | .str name => .ok (Names.kind name)
      | .arr items => .error (.noKey (.arr items))
      | .obj members => .error (.noKey (.obj members))
      | name => .error (.noText name)

end Model

namespace FieldType

/-- Whether a type can stand for the keys or values of a map: neither an array nor primitive. -/
def isClassLike : FieldType → Bool
  | array _ => false
  | scalar name => !Names.primitives.contains name
  | _ => true

end FieldType

end ClassSchema
