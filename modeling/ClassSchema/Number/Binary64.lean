/-!
# Double precision numbers

A real number in a JSON text is kept as the nearest double: a sign, a mantissa
below `2 ^ 53` and a power of two.  Rounding is done on exact integers, so the
result is the nearest double for every decimal, with ties to the even mantissa.

The form is canonical: the exponent is never below `-1074`, and a mantissa below
`2 ^ 52` occurs only with that exponent.  Two finite doubles other than the two
zeros are therefore equal exactly when their parts are.
-/

namespace ClassSchema

/-- A double: `mantissa * 2 ^ exponent` with a sign, an infinity, or not a number. -/
inductive Binary64 where
  | finite (negative : Bool) (mantissa : Nat) (exponent : Int)
  | infinity (negative : Bool)
  | nan
  deriving DecidableEq, Repr

namespace Binary64

/-- The least exponent of a double. -/
def minExponent : Int := -1074

/-- The greatest exponent of a double. -/
def maxExponent : Int := 971

/-- The quotient of two numbers rounded to the nearest integer, a half to the even one. -/
def roundedQuotient (num den : Nat) : Nat :=
  let quotient := num / den
  let twice := 2 * (num % den)
  if twice > den ∨ (twice = den ∧ quotient % 2 = 1) then quotient + 1 else quotient

/-- The greatest `k` with `2 ^ k ≤ num / den`, for positive numbers. -/
def floorLog2 (num den : Nat) : Int :=
  let guess : Int := (Nat.log2 num : Int) - (Nat.log2 den : Int)
  if den * Nat.pow 2 guess.toNat ≤ num * Nat.pow 2 (-guess).toNat then guess else guess - 1

/-- The double nearest to a quotient. -/
def ofRatio (negative : Bool) (num den : Nat) : Binary64 :=
  if num = 0 then .finite negative 0 minExponent
  else
    let exponent := max (floorLog2 num den - 52) minExponent
    let mantissa :=
      roundedQuotient (num * Nat.pow 2 (-exponent).toNat) (den * Nat.pow 2 exponent.toNat)
    let carried := mantissa = Nat.pow 2 53
    let exponent := if carried then exponent + 1 else exponent
    let mantissa := if carried then Nat.pow 2 52 else mantissa
    if exponent > maxExponent then .infinity negative
    else .finite negative mantissa exponent

/-- The double nearest to `digits * 10 ^ exponent`.  Exponents far beyond the range of a double
are decided without computing the power. -/
def ofDecimal (negative : Bool) (digits : Nat) (exponent : Int) : Binary64 :=
  if digits = 0 then .finite negative 0 minExponent
  else if exponent > 400 then .infinity negative
  else if exponent + (Nat.log2 digits : Int) < -1200 then .finite negative 0 minExponent
  else ofRatio negative (digits * Nat.pow 10 exponent.toNat) (Nat.pow 10 (-exponent).toNat)

/-- Both zeros are zero. -/
def isZero : Binary64 → Bool
  | finite _ mantissa _ => mantissa = 0
  | _ => false

/-- Equality of values: the two zeros are one value, and a number that is none equals itself. -/
def sameValue (x y : Binary64) : Bool := x = y || (x.isZero && y.isZero)

/-- Whether a double is exactly the integer `n`. -/
def isInt (x : Binary64) (n : Int) : Bool :=
  match x with
  | finite negative mantissa exponent =>
      let scaled : Int := (mantissa * Nat.pow 2 exponent.toNat : Nat)
      (if negative then -scaled else scaled) = n * (Nat.pow 2 (-exponent).toNat : Nat)
  | _ => false

end Binary64

end ClassSchema
