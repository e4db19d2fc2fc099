import Lisplet.Text.Blank

/-!
Text between quotes, as debugging output shows it. Apostrophes enclose the text unless it holds
an apostrophe and no double quote; a backslash and the enclosing quote are written after a
backslash, and characters without a shape of their own as escapes.
-/

namespace Lisplet.Text

/-- The digits of a number in base sixteen, padded with zeros on the left. -/
def hexDigits (width n : Nat) : String :=
  let digits := Nat.toDigits 16 n
  String.ofList (List.replicate (width - digits.length) '0' ++ digits)

/-- Controls, and blanks other than the space, have no shape of their own. -/
def isShapeless (c : Char) : Bool :=
  c.toNat < 0x20 || (0x7F ≤ c.toNat && c.toNat ≤ 0x9F) || (isBlank c && c != ' ')

/-- How one character is written inside the given quotes. -/
def quoteChar (quote c : Char) : String :=
  if c = quote || c = '\\' then String.ofList ['\\', c]
  else if c = '\n' then "\\n"
  else if c = '\t' then "\\t"
  else if c = '\r' then "\\r"
  else if isShapeless c then
    if c.toNat ≤ 0xFF then "\\x" ++ hexDigits 2 c.toNat else "\\u" ++ hexDigits 4 c.toNat
  else c.toString

/-- Double quotes only where they save an escape. -/
def quoteFor (s : String) : Char :=
  if s.toList.contains '\'' && !s.toList.contains '"' then '"' else '\''

def quoted (s : String) : String :=
  let quote := quoteFor s
  quote.toString ++ String.join (s.toList.map (quoteChar quote)) ++ quote.toString

end Lisplet.Text
