import Lisplet.Symbol

/-!
Atoms: what a program text can write that has no parts. Tokens, nodes and values share them.
-/

namespace Lisplet

inductive Atom where
  | number (x : Float)
  | bool (b : Bool)
  | string (s : String)
  | char (c : Char)
  | symbol (s : Symbol)
  | keyword (k : Keyword)
  | nil
deriving DecidableEq

namespace Atom

/-- The name of a symbol or keyword. -/
def name? : Atom → Option String
  | symbol s => some s.name
  | keyword k => some k.name
  | _ => none

/-- Symbols and keywords in the order of their names; equal names keep their order. -/
def sortByName (atoms : List Atom) : List Atom :=
  atoms.mergeSort fun a b => decide (a.name?.getD "" ≤ b.name?.getD "")

end Atom

/-- The two kinds of brackets: round ones enclose a list, square ones a vector. -/
inductive Shape where
  | list
  | vector
deriving DecidableEq

namespace Shape

def opening : Shape → Char
  | list => '('
  | vector => '['

def closing : Shape → Char
  | list => ')'
  | vector => ']'

end Shape
end Lisplet
