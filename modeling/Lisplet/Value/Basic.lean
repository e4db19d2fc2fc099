import Lisplet.Node.Basic
import Lisplet.Operation
import Lisplet.Scope.Basic

/-!
What programs compute with. Atoms and sequences are data; operations, functions and closures can
be called. A function knows only its parameters and the globals; a closure also keeps the locals
of the place where it was made.
-/

namespace Lisplet

inductive Value where
  | atom (a : Atom)
  | seq (shape : Shape) (items : List Value)
  | builtin (name : Symbol) (operation : Operation)
  | fn (name : Symbol) (params : List Symbol) (body : Node)
  | closure (captured : Scope Value) (params : List Symbol) (body : Node)

namespace Value

@[match_pattern] abbrev nil : Value := .atom .nil
@[match_pattern] abbrev number (x : Float) : Value := .atom (.number x)
@[match_pattern] abbrev bool (b : Bool) : Value := .atom (.bool b)
@[match_pattern] abbrev string (s : String) : Value := .atom (.string s)
@[match_pattern] abbrev char (c : Char) : Value := .atom (.char c)
@[match_pattern] abbrev symbol (s : Symbol) : Value := .atom (.symbol s)
@[match_pattern] abbrev keyword (k : Keyword) : Value := .atom (.keyword k)

/-- A list; the empty list is nil. -/
def ofList : List Value → Value
  | [] => nil
  | items => seq .list items

/-- The sequence that brackets of a shape denote. -/
def ofItems : Shape → List Value → Value
  | .list, items => ofList items
  | .vector, items => seq .vector items

def number? : Value → Option Float
  | number x => some x
  | _ => none

def bool? : Value → Option Bool
  | bool b => some b
  | _ => none

def string? : Value → Option String
  | string s => some s
  | _ => none

/-- The items of a list or vector; nil is the list without items. -/
def items? : Value → Option (List Value)
  | seq _ items => some items
  | nil => some []
  | _ => none

def isCallable : Value → Bool
  | builtin .. | fn .. | closure .. => true
  | _ => false

/- How many values a value consists of, counted so that a sequence outweighs its items together
with the brackets and spaces around them. -/
mutual
def weight : Value → Nat
  | seq _ items => 3 + weights items
  | _ => 1

def weights : List Value → Nat
  | [] => 0
  | v :: vs => 1 + weight v + weights vs
end

end Value
end Lisplet
