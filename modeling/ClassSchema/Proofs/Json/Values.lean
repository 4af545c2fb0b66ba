import ClassSchema.Json.Parser
import ClassSchema.Proofs.OrderedMaps

/-!
# Values in values

A value holds others: the items of a list, the values of the members of an object.  `Every`
says of a value, and of all that is in it at any depth, that a property holds of it.

Not all values can come from a JSON text.  The names of an object are distinct there, and an
integer has no more than so many digits.  Values without this flaw can be stored; nothing
else has to be known about them, except that a real is written in decimals and read as the
double next to these, which is not the subject here.

## Main results

* `everyItem_iff`, `everyMember_iff`: what is in a list or an object, one by one.
* `EveryMember.of_get?`: what is found in an object.
-/

namespace ClassSchema.Json

/-! ## At any depth -/

mutual

/-- A property of a value and of all values in it. -/
def Every (property : Json → Prop) : Json → Prop
  | arr items => property (arr items) ∧ EveryItem property items
  | obj members => property (obj members) ∧ EveryMember property members
  | scalar => property scalar

/-- A property of the items of a list and of all values in them. -/
def EveryItem (property : Json → Prop) : List Json → Prop
  | [] => True
  | item :: rest => Every property item ∧ EveryItem property rest

/-- A property of the values of members and of all values in them. -/
def EveryMember (property : Json → Prop) : List (String × Json) → Prop
  | [] => True
  | (_, value) :: rest => Every property value ∧ EveryMember property rest

end

variable {property : Json → Prop}

theorem everyItem_iff {items : List Json} :
    EveryItem property items ↔ ∀ item ∈ items, item.Every property := by
  induction items with
  | nil => simp [EveryItem]
  | cons item rest ih => simp [EveryItem, ih]

theorem everyMember_iff {members : List (String × Json)} :
    EveryMember property members ↔ ∀ pair ∈ members, pair.2.Every property := by
  induction members with
  | nil => simp [EveryMember]
  | cons pair rest ih => simp [EveryMember, ih]

theorem everyMember_append {members others : List (String × Json)} :
    EveryMember property (members ++ others) ↔
      EveryMember property members ∧ EveryMember property others := by
  simp only [everyMember_iff, List.forall_mem_append]

/-- A value that is found in an object stands in it. -/
theorem EveryMember.of_get? {members : List (String × Json)} {name : String} {value : Json}
    (h : EveryMember property members) (found : OrderedMap.get? members name = some value) :
    value.Every property :=
  everyMember_iff.mp h (name, value) (OrderedMap.mem_of_get?_eq_some found)

theorem Every.head {value : Json} (h : value.Every property) : property value := by
  cases value with
  | arr items => exact (show _ ∧ _ from h).1
  | obj members => exact (show _ ∧ _ from h).1
  | _ => exact h

/-! ## What a text can hold -/

/-- No value is a real. -/
def IsNoReal : Json → Prop
  | real _ => False
  | _ => True

/-- A value that a text can hold, as far as its own integer or its own names go. -/
def IsStorable : Json → Prop
  | int n => (Nat.toDigits 10 n.natAbs).length ≤ maxDigits
  | obj members => (OrderedMap.keys members).Nodup
  | _ => True

theorem storable_arr {items : List Json} (h : ∀ item ∈ items, item.Every IsStorable) :
    (arr items).Every IsStorable :=
  ⟨trivial, everyItem_iff.mpr h⟩

theorem storable_obj {members : List (String × Json)} (nodup : (OrderedMap.keys members).Nodup)
    (h : EveryMember IsStorable members) : (obj members).Every IsStorable :=
  ⟨nodup, h⟩

end ClassSchema.Json
