/-!
Finite decimals, and the double nearest to each. Core rounds a scientific literal to the nearest
double, a half to the even mantissa; a decimal beyond the largest double becomes an infinity and
one below half the smallest becomes zero.
-/

namespace Lisplet

/-- The number `coefficient * 10 ^ exponent`. -/
structure Decimal where
  coefficient : Nat
  exponent : Int
deriving DecidableEq

namespace Decimal

def toFloat (d : Decimal) : Float :=
  .ofModel (.ofScientific d.coefficient d.exponent)

/-- The digits of the coefficient, without leading zeros. -/
def digits (d : Decimal) : List Char := Nat.toDigits 10 d.coefficient

/-- The power of ten of the first digit. -/
def leadingExponent (d : Decimal) : Int := d.exponent + (d.digits.length - 1 : Nat)

/-- All digits in their places: zeros fill the room between the digits and the units, and a point
stands before the places below the units. -/
def positional (d : Decimal) : List Char :=
  if 0 ≤ d.exponent then d.digits ++ List.replicate d.exponent.toNat '0'
  else
    let places := (-d.exponent).toNat
    let padded := List.replicate (places + 1 - d.digits.length) '0' ++ d.digits
    let whole := padded.length - places
    padded.take whole ++ '.' :: padded.drop whole

end Decimal
end Lisplet
