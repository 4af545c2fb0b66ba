import ClassSchema.Number.Binary64

/-!
# The shortest decimal of a double

A double is written with the fewest significant digits that read back as the
same double; of several such decimals the nearest one is taken, and of two that
are equally near the even one.

A decimal with `n` digits lies on the grid of multiples of `10 ^ (point - n)`.
If any point of the grid reads back as the double, one of the two neighbours of
the double on that grid does, so only those are tried, for `n = 1, 2, …, 17`.

How the digits are laid out is one record: which powers of ten are written
positionally, and how the values that are no numbers are spelled.
-/

namespace ClassSchema.Number

/-- A decimal `0.d₁d₂… * 10 ^ point`. -/
structure Decimal where
  /-- The significant digits, no zero at either end. -/
  digits : List Char
  /-- Where the point stands, counted from the first digit. -/
  point : Int
  deriving DecidableEq, Repr

/-! ## Digits -/

/-- A magnitude `mantissa * 2 ^ exponent` in quarters of its last binary place, compared with
multiples of a power of ten. -/
structure Grid where
  /-- The mantissa, not zero. -/
  mantissa : Nat
  /-- The power of two. -/
  exponent : Int
  /-- The power of ten that is the distance of two grid points. -/
  step : Int

namespace Grid

/-- A count of quarters of the last binary place, on the common scale. -/
def quarters (grid : Grid) (n : Nat) : Nat :=
  n * Nat.pow 2 (grid.exponent - 2).toNat * Nat.pow 10 (-grid.step).toNat

/-- A grid point on the common scale. -/
def point (grid : Grid) (n : Nat) : Nat :=
  n * Nat.pow 10 grid.step.toNat * Nat.pow 2 (2 - grid.exponent).toNat

/-- The magnitude itself on the common scale. -/
def value (grid : Grid) : Nat := grid.quarters (4 * grid.mantissa)

/-- Quarters of a place down to the lower bound of what rounds to this double. -/
def lowerGap (grid : Grid) : Nat :=
  if grid.mantissa = Nat.pow 2 52 ∧ grid.exponent > Binary64.minExponent then 1 else 2

/-- Whether a grid point reads back as the double; the bounds do if the mantissa is even. -/
def readsBack (grid : Grid) (n : Nat) : Bool :=
  let low := grid.quarters (4 * grid.mantissa - grid.lowerGap)
  let high := grid.quarters (4 * grid.mantissa + 2)
  let x := grid.point n
  if grid.mantissa % 2 = 0 then low ≤ x && x ≤ high else low < x && x < high

/-- The neighbour on the grid that reads back, the nearer one if both do. -/
def nearest? (grid : Grid) : Option Nat :=
  let below := grid.value / grid.point 1
  let above := below + 1
  match grid.readsBack below, grid.readsBack above with
  | false, false => none
  | true, false => some below
  | false, true => some above
  | true, true =>
      let down := grid.value - grid.point below
      let up := grid.point above - grid.value
      if down < up ∨ (down = up ∧ below % 2 = 0) then some below else some above

end Grid

/-- Whether `mantissa * 2 ^ exponent` is below `10 ^ power`. -/
def belowPower (mantissa : Nat) (exponent power : Int) : Bool :=
  mantissa * Nat.pow 2 exponent.toNat * Nat.pow 10 (-power).toNat
    < Nat.pow 10 power.toNat * Nat.pow 2 (-exponent).toNat

/-- The least of the powers from `power` on, `tries` at most, that lies above the magnitude. -/
def powerAbove (mantissa : Nat) (exponent : Int) : Nat → Int → Int
  | 0, power => power
  | tries + 1, power =>
      if belowPower mantissa exponent power then power
      else powerAbove mantissa exponent tries (power + 1)

/-- The shortest decimal of a positive magnitude, looking at `n` digits and more. -/
def shortestFrom (mantissa : Nat) (exponent point : Int) : Nat → Nat → Decimal
  | 0, _ => ⟨[], point⟩
  | tries + 1, n =>
      match (Grid.mk mantissa exponent (point - n)).nearest? with
      | none => shortestFrom mantissa exponent point tries (n + 1)
      | some found =>
          let digits := Nat.toDigits 10 found
          ⟨(digits.reverse.dropWhile (· = '0')).reverse, point + digits.length - n⟩

/-- The shortest decimal of a positive magnitude. -/
def shortest (mantissa : Nat) (exponent : Int) : Decimal :=
  let guess := ((Nat.log2 mantissa : Int) + exponent) * 30103 / 100000 - 1
  shortestFrom mantissa exponent (powerAbove mantissa exponent 4 guess) 17 1

/-! ## Layout -/

/-- How numbers are spelled. -/
structure RealFormat where
  /-- The text of a value that is no number. -/
  nan : String
  /-- The text of the positive infinity. -/
  infinity : String

namespace RealFormat

/-- Positional notation is for points from here on. -/
def leastPoint : Int := -3

/-- Positional notation is for points up to here. -/
def greatestPoint : Int := 16

/-- Digits with a point in their midst or zeros at the end that has none. -/
def positional (decimal : Decimal) : List Char :=
  let zeros (n : Int) := List.replicate n.toNat '0'
  let count : Int := decimal.digits.length
  if decimal.point ≤ 0 then '0' :: '.' :: zeros (-decimal.point) ++ decimal.digits
  else if decimal.point < count then
    decimal.digits.take decimal.point.toNat ++ '.' :: decimal.digits.drop decimal.point.toNat
  else decimal.digits ++ zeros (decimal.point - count) ++ ['.', '0']

/-- One digit before the point and a signed exponent of at least two digits. -/
def scientific (decimal : Decimal) : List Char :=
  let power := decimal.point - 1
  let size := Nat.toDigits 10 power.natAbs
  let size := if size.length < 2 then '0' :: size else size
  let fraction := decimal.digits.drop 1
  decimal.digits.take 1 ++ (if fraction.isEmpty then [] else '.' :: fraction)
    ++ 'e' :: (if power < 0 then '-' else '+') :: size

/-- The text of a magnitude. -/
def magnitude (mantissa : Nat) (exponent : Int) : List Char :=
  if mantissa = 0 then ['0', '.', '0']
  else
    let decimal := shortest mantissa exponent
    if leastPoint ≤ decimal.point ∧ decimal.point ≤ greatestPoint then positional decimal
    else scientific decimal

/-- The text of a double. -/
def format (style : RealFormat) : Binary64 → List Char
  | .finite negative mantissa exponent =>
      (if negative then ['-'] else []) ++ magnitude mantissa exponent
  | .infinity negative => (if negative then ['-'] else []) ++ style.infinity.toList
  | .nan => style.nan.toList

end RealFormat

end ClassSchema.Number
