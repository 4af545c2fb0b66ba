import ClassSchema.Json.Described
import ClassSchema.Json.Parser
import ClassSchema.Model.Basic
import ClassSchema.Text.Decoding

/-!
# Type models as JSON documents

A document lists classes; a class lists fields; the type of a field is a name or
a node of one of four kinds.  A node of kind `class` refers to a class of the
document by its key or, failing that, by its simple name, whether the class
stands earlier or later.

Reading goes twice over the classes.  The first pass takes their names and fills
the table for references, the second one reads the fields.  The first thing that
is out of shape ends the reading.

A document is the JSON value of a file in UTF-8, so reading a model can also fail
before there is a value: in the bytes, or in the text.
-/

namespace ClassSchema

namespace Model

/-- The parts of a document that errors name. -/
inductive Part where
  | classEntry
  | field
  | scalarType
  | arrayType
  | parameterizedType
  | classType
  deriving DecidableEq, Repr

/-- The wording of a part. -/
def Part.name : Part → String
  | classEntry => "class"
  | field => "field"
  | scalarType => "scalar type"
  | arrayType => "array type"
  | parameterizedType => "parameterized type"
  | classType => "class type"

/-- Why a JSON value is no type model. -/
inductive DocumentError where
  /-- The value has no list of classes. -/
  | noClasses
  /-- A part that has to be an object is not. -/
  | noObject (part : Part) (found : Json)
  /-- A part lacks a member. -/
  | missing (part : Part) (member : String) (node : Json)
  /-- A member has the wrong kind of value. -/
  | invalid (part : Part) (member : String) (found : Json)
  /-- A type is neither a name nor an object. -/
  | unexpectedType (found : Json)
  /-- A type node is of no known kind. -/
  | unknownKind (kind : Json)
  /-- A type refers to no class of the document. -/
  | unknownClass (reference : String)
  /-- A qualified name is a list or an object. -/
  | noKey (name : Json)
  deriving Repr

/-- The wording of an error. -/
def DocumentError.message : DocumentError → String
  | noClasses => "Type model must be an object with a 'classes' list"
  | noObject part found =>
      "Type model " ++ part.name ++ " must be an object, got " ++ found.described
  | missing part member node =>
      "Type model " ++ part.name ++ " without " ++ member ++ ": " ++ node.described
  | invalid part member found =>
      "Type model " ++ part.name ++ " has invalid " ++ member ++ ": " ++ found.described
  | unexpectedType found => "Type model contains unexpected type node " ++ found.described
  | unknownKind kind => "Type model contains unknown type kind " ++ kind.plain
  | unknownClass reference => "Type model references unknown class " ++ reference
  | noKey name => "unhashable type: '" ++ name.kindName ++ "'"

/-! ## Members of nodes -/

/-- The members of a part, which has to be an object. -/
def membersOf (part : Part) : Json → Except DocumentError (List (String × Json))
  | .obj members => .ok members
  | found => .error (.noObject part found)

/-- A member that has to be there. -/
def required (part : Part) (member : String) (members : List (String × Json)) :
    Except DocumentError Json :=
  match OrderedMap.get? members member with
  | some value => .ok value
  | none => .error (.missing part member (.obj members))

/-- A member that has to be there and be a text. -/
def requiredText (part : Part) (member : String) (members : List (String × Json)) :
    Except DocumentError String :=
  match required part member members with
  | .ok (.str text) => .ok text
  | .ok found => .error (.invalid part member found)
  | .error e => .error e

/-- A list that is empty where it is left out. -/
def optionalList (part : Part) (member : String) (members : List (String × Json)) :
    Except DocumentError (List Json) :=
  match OrderedMap.get? members member with
  | none => .ok []
  | some (.arr items) => .ok items
  | some found => .error (.invalid part member found)

/-- A member with a value for where it is left out. -/
def memberOr (default : Json) (member : String) (members : List (String × Json)) : Json :=
  (OrderedMap.get? members member).getD default

/-! ## Types -/

/-- A value found under a name is smaller than the members it was found in. -/
theorem sizeOf_lt_of_get? {members : List (String × Json)} {name : String} {value : Json}
    (h : OrderedMap.get? members name = some value) : sizeOf value < sizeOf members := by
  induction members with
  | nil => simp at h
  | cons pair rest ih =>
      obtain ⟨key, head⟩ := pair
      simp only [OrderedMap.get?] at h
      split at h
      · cases h
        simp
        omega
      · have := ih h
        simp
        omega

mutual

/-- The type that a node describes; `numbers` leads from references to classes. -/
def typeOf (numbers : OrderedMap Nat) (node : Json) : Except DocumentError FieldType :=
  match node with
  | .str name => .ok (.scalar name)
  | .obj members =>
      match memberOr .null "kind" members with
      | .str "scalar" => (requiredText .scalarType "name" members).map .scalar
      | .str "array" =>
          match _found : OrderedMap.get? members "element" with
          | none => .error (.missing .arrayType "element" (.obj members))
          | some (.str name) => .ok (.array (.scalar name))
          | some (.obj inner) => (typeOf numbers (.obj inner)).map .array
          | some found => .error (.invalid .arrayType "element" found)
      | .str "parameterized" =>
          match requiredText .parameterizedType "qualifiedName" members with
          | .error e => .error e
          | .ok name =>
              match _found : OrderedMap.get? members "typeArgs" with
              | none => .ok (.parameterized name [])
              | some (.arr nodes) => (typesOf numbers nodes).map (.parameterized name)
              | some found => .error (.invalid .parameterizedType "typeArgs" found)
      | .str "class" =>
          match requiredText .classType "ref" members with
          | .error e => .error e
          | .ok reference =>
              match numbers.get? reference with
              | some number => .ok (.reference number)
              | none => .error (.unknownClass reference)
      | kind => .error (.unknownKind kind)
  | found => .error (.unexpectedType found)
termination_by sizeOf node
decreasing_by
  all_goals
    have := sizeOf_lt_of_get? _found
    simp at this ⊢
    omega

/-- The types that a list of nodes describes. -/
def typesOf (numbers : OrderedMap Nat) (nodes : List Json) :
    Except DocumentError (List FieldType) :=
  match nodes with
  | [] => .ok []
  | node :: rest =>
      match typeOf numbers node with
      | .error e => .error e
      | .ok type => (typesOf numbers rest).map (type :: ·)
termination_by sizeOf nodes

end

/-! ## Classes and fields -/

/-- A class without its fields. -/
def header (node : Json) : Except DocumentError Entity := do
  let members ← membersOf .classEntry node
  let simpleName ← requiredText .classEntry "simpleName" members
  let constants ← optionalList .classEntry "enumConstants" members
  let entity : Entity := {
    simpleName
    qualifiedName := memberOr .null "qualifiedName" members
    isEnum := memberOr (.bool false) "isEnum" members
    isInterface := memberOr (.bool false) "isInterface" members
    enumConstants := constants
    fields := [] }
  if entity.key.isKey then return entity else throw (.noKey entity.key)

/-- Enters a class into the table for references: under its key in any case, under its simple
name unless that is taken. -/
def enter (numbers : OrderedMap Nat) (number : Nat) (entity : Entity) : OrderedMap Nat :=
  let numbers := match entity.key with
    | .str key => numbers.put key number
    | _ => numbers
  if (numbers.get? entity.simpleName).isSome then numbers
  else numbers.put entity.simpleName number

/-- The table for references. -/
def numbersOf (entities : List Entity) : OrderedMap Nat :=
  entities.zipIdx.foldl (fun numbers entry => enter numbers entry.2 entry.1) []

/-- A type member, which has to be a name or an object. -/
def requiredType (part : Part) (member : String) (members : List (String × Json)) :
    Except DocumentError Json :=
  match required part member members with
  | .ok (.str name) => .ok (.str name)
  | .ok (.obj inner) => .ok (.obj inner)
  | .ok found => .error (.invalid part member found)
  | .error e => .error e

/-- A field of a class. -/
def fieldOf (numbers : OrderedMap Nat) (node : Json) : Except DocumentError Field := do
  let members ← membersOf .field node
  let name ← requiredText .field "name" members
  let typeNode ← requiredType .field "type" members
  let type ← typeOf numbers typeNode
  return {
    name
    type
    docComment := memberOr .null "docComment" members
    isStatic := memberOr (.bool false) "static" members }

/-- A class with its fields. -/
def complete (numbers : OrderedMap Nat) (entity : Entity) (node : Json) :
    Except DocumentError Entity := do
  let members ← membersOf .classEntry node
  let nodes ← optionalList .classEntry "fields" members
  let fields ← nodes.mapM (fieldOf numbers)
  return { entity with fields }

/-- The model that a document describes. -/
def ofDocument (document : Json) : Except DocumentError Model :=
  match document with
  | .obj members =>
      match OrderedMap.get? members "classes" with
      | some (.arr nodes) => do
          let headers ← nodes.mapM header
          let numbers := numbersOf headers
          (headers.zip nodes).mapM fun entry => complete numbers entry.1 entry.2
      | _ => .error .noClasses
  | _ => .error .noClasses

/-! ## Files -/

/-- Why a file holds no type model. -/
inductive LoadError where
  /-- The bytes are no text. -/
  | undecodable (fault : Text.DecodingFault)
  /-- The text is no JSON value. -/
  | malformed (error : Json.ReadError)
  /-- The value is no type model. -/
  | document (error : DocumentError)
  deriving Repr

/-- The wording of an error. -/
def LoadError.message : LoadError → String
  | undecodable fault => fault.message
  | malformed error => error.message
  | document error => error.message

/-- The model in a text whose line ends are line feeds. -/
def ofText (text : List Char) : Except LoadError Model :=
  match Json.parse text with
  | .error e => .error (.malformed e)
  | .ok value =>
      match ofDocument value with
      | .error e => .error (.document e)
      | .ok model => .ok model

/-- The model in a file. -/
def ofBytes (bytes : List Nat) : Except LoadError Model :=
  match Text.readText .utf8 bytes with
  | .error fault => .error (.undecodable fault)
  | .ok text => ofText text

end Model

end ClassSchema
