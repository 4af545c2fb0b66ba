import ClassSchema.Number.Binary64
import ClassSchema.OrderedMap

/-!
# JSON values

Integers are unbounded and stay apart from reals, which are doubles.  Objects
keep their members in insertion order.

A value can be used where a truth value is wanted: null, false, zero and
everything empty count as false.  It can also serve as the key of a class, and
then two keys are one if their values are equal, whatever the kinds of number:
`1`, `1.0` and `true` are the same key.
-/

namespace ClassSchema

/-- A JSON value. -/
inductive Json where
  | null
  | bool (value : Bool)
  | int (value : Int)
  | real (value : Binary64)
  | str (value : String)
  | arr (items : List Json)
  | obj (members : List (String × Json))
  deriving Repr, Inhabited

namespace Json

/-- Whether a value counts as true. -/
def truthy : Json → Bool
  | null => false
  | bool value => value
  | int value => value ≠ 0
  | real value => !value.isZero
  | str value => value ≠ ""
  | arr items => !items.isEmpty
  | obj members => !members.isEmpty

/-- The integer that a truth value or an integer stands for. -/
def asInt? : Json → Option Int
  | bool value => some (if value then 1 else 0)
  | int value => some value
  | _ => none

/-- Whether two values are the same key.  Lists and objects are no keys. -/
def sameKey (x y : Json) : Bool :=
  match x, y with
  | null, null => true
  | str a, str b => a = b
  | real a, real b => a.sameValue b
  | real a, b => match b.asInt? with
    | some n => a.isInt n
    | none => false
  | a, real b => match a.asInt? with
    | some n => b.isInt n
    | none => false
  | a, b => match a.asInt?, b.asInt? with
    | some m, some n => m = n
    | _, _ => false

/-- Whether a value can be a key at all. -/
def isKey : Json → Bool
  | arr _ => false
  | obj _ => false
  | _ => true

/-- The name of a value's kind in messages. -/
def kindName : Json → String
  | null => "NoneType"
  | bool _ => "bool"
  | int _ => "int"
  | real _ => "float"
  | str _ => "str"
  | arr _ => "list"
  | obj _ => "dict"

/-- A key is the same key as itself. -/
theorem sameKey_self {key : Json} (h : key.isKey = true) : key.sameKey key = true := by
  cases key <;> simp_all [sameKey, isKey, asInt?, Binary64.sameValue]

/-- Among texts, the same key is the same text. -/
@[simp] theorem sameKey_str (a b : String) : sameKey (str a) (str b) = decide (a = b) := rfl

end Json

end ClassSchema
