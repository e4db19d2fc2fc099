/-!
Names in programs. A symbol stands for what is bound to it; a keyword stands for itself. The two
are separate types, so a keyword is never mistaken for the symbol of the same name.
-/

namespace Lisplet

structure Symbol where
  name : String
deriving DecidableEq

structure Keyword where
  name : String
deriving DecidableEq

namespace Symbol

/-- Names are ordered by code point. -/
def le (a b : Symbol) : Bool := decide (a.name ≤ b.name)

end Symbol

end Lisplet
