/-!
Doubles taken apart into a sign, a mantissa and a power of two.
-/

namespace Lisplet

/-- What a double denotes. A finite one is `mantissa * 2 ^ exponent` under its sign. -/
inductive Binary where
  | nan
  | infinite (negative : Bool)
  | finite (negative : Bool) (mantissa : Nat) (exponent : Int)
deriving DecidableEq

namespace Binary

open Float.Model.UnpackedFloat in
def isNegative : Sign → Bool
  | .negative => true
  | .positive => false

def ofFloat (x : Float) : Binary :=
  match x.toModel.unpack with
  | .notANumber => nan
  | .infinity sign => infinite (isNegative sign)
  | .zero sign => finite (isNegative sign) 0 0
  | .finite sign mantissa exponent _ => finite (isNegative sign) mantissa exponent

/-- `mantissa * 2 ^ exponent` as a fraction. -/
def fraction (mantissa : Nat) (exponent : Int) : Nat × Nat :=
  (mantissa <<< exponent.toNat, 1 <<< (-exponent).toNat)

/-- The whole number a finite double stands for, if it stands for one. -/
def whole? : Binary → Option Int
  | finite negative mantissa exponent =>
    let (num, den) := fraction mantissa exponent
    if num % den = 0 then some (if negative then -(num / den : Nat) else (num / den : Nat)) else none
  | _ => none

end Binary

/-- The whole number a double stands for, if it stands for one. -/
def wholeNumber? (x : Float) : Option Int := (Binary.ofFloat x).whole?

end Lisplet
