/-!
The characters that count as blank around a setting's text: the ASCII controls that move the
print position, the four information separators, the space, and the separators of Unicode.
The reader of programs has a smaller set of its own.
-/

namespace Lisplet.Text

/-- White space in the wide sense, 29 characters in all. -/
def isBlank (c : Char) : Bool :=
  let n := c.toNat
  (0x09 ≤ n && n ≤ 0x0D) || (0x1C ≤ n && n ≤ 0x20) || n == 0x85 || n == 0xA0 || n == 0x1680 ||
    (0x2000 ≤ n && n ≤ 0x200A) || n == 0x2028 || n == 0x2029 || n == 0x202F || n == 0x205F ||
    n == 0x3000

/-- The characters from the first to the last one that is not blank. -/
def trim (cs : List Char) : List Char :=
  ((cs.dropWhile isBlank).reverse.dropWhile isBlank).reverse

end Lisplet.Text
