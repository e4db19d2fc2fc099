import Lisplet.Decimal.Shortest

/-!
How numbers are written. Programs see the display form: whole numbers in full, all others with
their shortest digits, always positionally. Debugging output keeps a fraction on whole numbers
and turns to an exponent far from the units.
-/

namespace Lisplet.Number

def signed (negative : Bool) (digits : List Char) : String :=
  String.ofList (if negative then '-' :: digits else digits)

/-- The display form. It never has an exponent, and minus zero keeps its sign. -/
def display (x : Float) : String :=
  match Binary.ofFloat x with
  | .nan => "NaN"
  | .infinite negative => signed negative "inf".toList
  | .finite negative mantissa exponent =>
    let (num, den) := Binary.fraction mantissa exponent
    signed negative <|
      if num % den = 0 then Nat.toDigits 10 (num / den)
      else (Decimal.shortest x.abs mantissa exponent).positional

/-- Where the debug form is positional: from this power of ten of the first digit on, -/
def leastPositional : Int := -4

/-- and below this one. -/
def leastScientific : Int := 16

/-- An exponent with its sign and at least two digits. -/
def exponentText (e : Int) : List Char :=
  let digits := Nat.toDigits 10 e.natAbs
  (if e < 0 then '-' else '+') :: (List.replicate (2 - digits.length) '0' ++ digits)

/-- One digit, a point before the others if there are any, and the power of ten. -/
def scientific (d : Decimal) : List Char :=
  let fraction := d.digits.drop 1
  d.digits.take 1 ++ (if fraction.isEmpty then [] else '.' :: fraction) ++
    'e' :: exponentText d.leadingExponent

/-- The debug form of a positive decimal. -/
def debugDigits (d : Decimal) : List Char :=
  if leastPositional ≤ d.leadingExponent && d.leadingExponent < leastScientific then
    d.positional ++ (if 0 ≤ d.exponent then ['.', '0'] else [])
  else scientific d

def debug (x : Float) : String :=
  match Binary.ofFloat x with
  | .nan => "nan"
  | .infinite negative => signed negative "inf".toList
  | .finite negative 0 _ => signed negative "0.0".toList
  | .finite negative mantissa exponent =>
    signed negative (debugDigits (Decimal.shortest x.abs mantissa exponent))

end Lisplet.Number
