import ClassSchema.Json.Printer
import ClassSchema.Text.Quoted

/-!
# JSON values in messages

A message shows a value on one line, texts in single quotes, and null and the
truth values as `None`, `True` and `False`.  A value that stands for itself in a
sentence is shown plainly: a text without quotes.
-/

namespace ClassSchema.Json

/-- How reals that are no finite numbers are spelled in messages. -/
def describedReal : Number.RealFormat := ⟨"nan", "inf"⟩

mutual

/-- A value as a message shows it. -/
def described : Json → String
  | null => "None"
  | bool value => if value then "True" else "False"
  | int value => String.ofList (intText value)
  | real value => String.ofList (describedReal.format value)
  | str value => Text.quoted value
  | arr items => "[" ++ ", ".intercalate (describedItems items) ++ "]"
  | obj members => "\x7b" ++ ", ".intercalate (describedMembers members) ++ "\x7d"

/-- The items of a list as a message shows them. -/
def describedItems : List Json → List String
  | [] => []
  | item :: rest => described item :: describedItems rest

/-- The members of an object as a message shows them. -/
def describedMembers : List (String × Json) → List String
  | [] => []
  | (name, value) :: rest =>
      (Text.quoted name ++ ": " ++ described value) :: describedMembers rest

end

/-- A value as part of a sentence. -/
def plain : Json → String
  | str value => value
  | value => described value

end ClassSchema.Json
