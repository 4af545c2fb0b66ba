import ClassSchema.Json.Printer
import ClassSchema.Model.Kind

/-!
# Schemas

A schema has one of six shapes: a reference to a class that is expanded
elsewhere, an enumeration, an object with its properties, a bare kind, an array
of items, or a map of values.  Only the value of a property can carry a
description, so the description belongs to the property and not to the schema.
-/

namespace ClassSchema

/-- A value with the text that documents it. -/
structure Described (α : Type) where
  /-- What is documented. -/
  content : α
  /-- The documentation, if there is any. -/
  description : Option String
  deriving Repr

/-- A schema document. -/
inductive Schema where
  /-- A class that is expanded elsewhere, by its key. -/
  | reference (key : String)
  /-- An enum with its constants. -/
  | enumeration (title : String) (constants : List Json)
  /-- A class with its fields. -/
  | object (title : String) (properties : List (String × Described Schema))
  /-- A value of which only the kind is known. -/
  | bare (kind : Kind)
  /-- A sequence of items. -/
  | array (items : Schema)
  /-- Values under names that are not known beforehand. -/
  | map (values : Schema)
  deriving Repr

/-- A schema with the description of the field it stands for. -/
abbrev Property := Described Schema

namespace Schema

/-- What precedes the key of a class in a reference. -/
def definitions : String := "#/definitions/"

/-- The members of an object with a description behind them. -/
def withDescription (members : List (String × Json)) : Option String → List (String × Json)
  | none => members
  | some text => members ++ [("description", .str text)]

mutual

/-- The members of a schema's JSON object, in order. -/
def members : Schema → List (String × Json)
  | reference key => [("$ref", .str (definitions ++ key))]
  | enumeration title constants =>
      [("type", .str Kind.string.word), ("title", .str title), ("enum", .arr constants)]
  | object title properties =>
      [("type", .str Kind.object.word), ("title", .str title),
       ("properties", .obj (propertyMembers properties))]
  | bare kind => [("type", .str kind.word)]
  | array items => [("type", .str Kind.array.word), ("items", .obj (members items))]
  | map values =>
      [("type", .str Kind.object.word), ("additionalProperties", .obj (members values))]

/-- The properties of an object, each under its name. -/
def propertyMembers : List (String × Described Schema) → List (String × Json)
  | [] => []
  | (name, ⟨content, description⟩) :: rest =>
      (name, .obj (withDescription (members content) description)) :: propertyMembers rest

end

/-- A schema as a JSON value. -/
def toJson (schema : Schema) : Json := .obj schema.members

/-- Whether the members of a document say more than that there is an object: they list
constants, refer to a definition, or name a property. -/
def definesContent (members : List (String × Json)) : Bool :=
  (OrderedMap.get? members "enum").isSome
    || (OrderedMap.get? members "$ref").isSome
    || match OrderedMap.get? members "properties" with
      | some properties => properties.truthy
      | none => false

end Schema

namespace Property

/-- The members of a property's JSON object, the description last. -/
def members (property : Property) : List (String × Json) :=
  Schema.withDescription property.content.members property.description

end Property

end ClassSchema
