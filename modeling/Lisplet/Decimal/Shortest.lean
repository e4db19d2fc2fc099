import Lisplet.Decimal.Basic
import Lisplet.Decimal.Binary

/-!
The shortest decimal of a positive double: the fewest digits that read back as the same double,
and of those with that many digits the one nearest to it. The search goes through the decimal
grids from one digit to seventeen. On each grid only the two neighbours of the double can be
nearest, and each is tried by reading it.
-/

namespace Lisplet.Decimal

def digitCount (n : Nat) : Nat := (Nat.toDigits 10 n).length

/-- The power of ten at or below the positive fraction `num / den`. -/
def powerBelow (num den : Nat) : Int :=
  if den ≤ num then ((digitCount (num / den) - 1 : Nat) : Int)
  else -(digitCount ((den + num - 1) / num - 1) : Int)

/-- `num / den` in units of `10 ^ unit`, again as a fraction. -/
def inUnits (num den : Nat) (unit : Int) : Nat × Nat :=
  (num * Nat.pow 10 (-unit).toNat, den * Nat.pow 10 unit.toNat)

/-- The two neighbours of a fraction on a decimal grid, the nearer one first; a half goes to the
even digit. -/
def neighbours (num den : Nat) (unit : Int) : List Decimal :=
  let (n, d) := inUnits num den unit
  let low : Decimal := ⟨n / d, unit⟩
  let high : Decimal := ⟨n / d + 1, unit⟩
  let excess := n % d
  if 2 * excess < d || (2 * excess == d && low.coefficient % 2 == 0) then [low, high]
  else [high, low]

/-- A ten at the end of the coefficient is a one in the next place. -/
def carry (d : Decimal) (count : Nat) : Decimal :=
  if d.coefficient = Nat.pow 10 count then ⟨1, d.exponent + count⟩ else d

/-- The nearest decimal of at most `count` digits that reads back as `x`, the fraction `num / den`
being the value of `x`. -/
def withDigits? (x : Float) (num den count : Nat) : Option Decimal :=
  let unit := powerBelow num den + 1 - count
  ((neighbours num den unit).map (carry · count)).find? fun d => decide (d.toFloat = x)

/-- All digits of `mantissa * 2 ^ exponent`. -/
def exact (mantissa : Nat) (exponent : Int) : Decimal :=
  if 0 ≤ exponent then ⟨mantissa <<< exponent.toNat, 0⟩
  else ⟨mantissa * Nat.pow 5 (-exponent).toNat, exponent⟩

/-- The shortest decimal that reads back as the positive double `x`, which is
`mantissa * 2 ^ exponent`. Seventeen digits are enough for every double; all digits stand in
behind them. -/
def shortest (x : Float) (mantissa : Nat) (exponent : Int) : Decimal :=
  let (num, den) := Binary.fraction mantissa exponent
  ((List.range' 1 17).findSome? (withDigits? x num den)).getD (exact mantissa exponent)

end Lisplet.Decimal
