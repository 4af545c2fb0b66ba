import ClassSchema.Json.Basic

/-!
# Type models

A type model is a list of classes whose fields may point at other classes of the
list, in any direction and in cycles.  A class points at another one by its
number, its position in the list.

A model can come from a JSON document, which is checked only as far as its shape
goes.  The qualified name, the flags, the doc comments and the constants are kept
as the JSON values they are; only what uses them looks into them.  A model that
was built from source code holds texts and truth values there.

## Main results

* `Entity.key_eq_simpleName`, `Entity.key_eq_qualifiedName`: the key of a class is
  its qualified name unless that is missing or empty.
-/

namespace ClassSchema

/-- The type of a field. -/
inductive FieldType where
  /-- A primitive type or a library class, by name. -/
  | scalar (name : String)
  /-- An array. -/
  | array (element : FieldType)
  /-- A library container with its type arguments. -/
  | parameterized (name : String) (arguments : List FieldType)
  /-- A class of the model, by number. -/
  | reference (target : Nat)
  deriving Repr

namespace FieldType

/-- The element type of an array. -/
def element? : FieldType → Option FieldType
  | array element => some element
  | _ => none

/-- A type argument of a container, counted from zero. -/
def argument? (index : Nat) : FieldType → Option FieldType
  | parameterized _ arguments => arguments[index]?
  | _ => none

end FieldType

/-- A field of a class. -/
structure Field where
  /-- The name of the field. -/
  name : String
  /-- Its declared type. -/
  type : FieldType
  /-- The comment that documents it, or null. -/
  docComment : Json
  /-- Whether it belongs to the class and not to its objects. -/
  isStatic : Json
  deriving Repr

/-- A class, enum or interface. -/
structure Entity where
  /-- The name without its package. -/
  simpleName : String
  /-- The name with its package, or null. -/
  qualifiedName : Json
  /-- Whether it is an enum. -/
  isEnum : Json
  /-- Whether it is an interface. -/
  isInterface : Json
  /-- The constants of an enum. -/
  enumConstants : List Json
  /-- The fields in order. -/
  fields : List Field
  deriving Repr

/-- Classes by number. -/
abbrev Model := List Entity

namespace Entity

/-- What identifies a class: its qualified name, or the simple one where that is missing. -/
def key (entity : Entity) : Json :=
  if entity.qualifiedName.truthy then entity.qualifiedName else .str entity.simpleName

theorem key_eq_qualifiedName {entity : Entity} (h : entity.qualifiedName.truthy = true) :
    entity.key = entity.qualifiedName := by simp [key, h]

theorem key_eq_simpleName {entity : Entity} (h : entity.qualifiedName.truthy = false) :
    entity.key = .str entity.simpleName := by simp [key, h]

end Entity

end ClassSchema
