import Lisplet.Decimal.Basic
import Lisplet.Text.DecimalDigit

/-!
Reading numbers. A word is a number if it is an optional sign followed by a decimal (digits with
an optional point, at least one digit, an optional power of ten) or by one of the words `inf`,
`infinity` and `nan`, in upper or lower case. The digits may be of any script.
-/

namespace Lisplet.Number

def infinity : Float := .ofBits 0x7FF0000000000000

def nan : Float := .ofBits 0x7FF8000000000000

/-- A sign, if there is one, and what follows it. -/
def takeSign : List Char → Bool × List Char
  | '+' :: cs => (false, cs)
  | '-' :: cs => (true, cs)
  | cs => (false, cs)

/-- The power of ten at the end of a decimal; without one it is zero. -/
def readExponent : List Char → Option Int
  | [] => some 0
  | c :: cs =>
    if c = 'e' || c = 'E' then
      let (negative, digits) := takeSign cs
      if !digits.isEmpty && digits.all Text.isDecimalDigit then
        let n : Int := Text.ofDigits digits
        some (if negative then -n else n)
      else none
    else none

/-- The digits after a point, and what follows them; without a point there are none. -/
def takeFraction : List Char → List Char × List Char
  | '.' :: cs => cs.span Text.isDecimalDigit
  | cs => ([], cs)

/-- Reads a decimal without a sign. -/
def readDecimal (cs : List Char) : Option Decimal :=
  let (whole, afterWhole) := cs.span Text.isDecimalDigit
  let (fraction, afterFraction) := takeFraction afterWhole
  if whole.isEmpty && fraction.isEmpty then none
  else (readExponent afterFraction).map fun e =>
    ⟨Text.ofDigits (whole ++ fraction), e - fraction.length⟩

/-- Reads a number without a sign. -/
def readMagnitude (cs : List Char) : Option Float :=
  let lower := cs.map Char.toLower
  if lower = "inf".toList || lower = "infinity".toList then some infinity
  else if lower = "nan".toList then some nan
  else (readDecimal cs).map Decimal.toFloat

/-- Reads a whole word as a number. -/
def read? (cs : List Char) : Option Float :=
  let (negative, magnitude) := takeSign cs
  (readMagnitude magnitude).map fun x => if negative then -x else x

end Lisplet.Number
