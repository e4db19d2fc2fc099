import Lisplet.Token.Basic

/-!
Nodes: programs as trees. A leaf is an atom and a group is a bracketed row of nodes; each has the
span it was read from, a group's from its opening through its closing bracket.
-/

namespace Lisplet

inductive Node where
  | leaf (a : Atom) (span : Span)
  | group (shape : Shape) (items : List Node) (span : Span)

/-- Why tokens do not make a forest of nodes. -/
inductive ParseFault where
  /-- A token could not be read. -/
  | lexical (fault : LexFault)
  | unexpectedClose
  | unclosed
  | unmatched
  /-- A bracket or comment was taken for a leaf, or a leaf for a group. -/
  | unreachable
deriving DecidableEq

namespace ParseFault

def message : ParseFault → String
  | lexical fault => fault.message
  | unexpectedClose => "Unexpected closing bracket"
  | unclosed => "Unclosed parenthesis"
  | unmatched => "Unmatched bracket"
  | unreachable => "Unexpected parsing state reached"

end ParseFault

structure ParseError where
  fault : ParseFault
  span : Span
deriving DecidableEq

namespace ParseError

def ofLex (e : LexError) : ParseError := ⟨.lexical e.fault, e.span⟩

end ParseError

namespace Node

def span : Node → Span
  | leaf _ span => span
  | group _ _ span => span

def isGroup : Node → Bool
  | leaf .. => false
  | group .. => true

/-- The symbol that a node is. -/
def symbol? : Node → Option Symbol
  | leaf (.symbol s) _ => some s
  | _ => none

/-- The symbols in a group that holds nothing else. -/
def symbols? : Node → Option (List Symbol)
  | leaf .. => none
  | group _ items _ => items.mapM symbol?

/-- The leaf of a token. Brackets and comments have none. -/
def ofToken (token : Token) : Except ParseError Node :=
  match token.kind with
  | .atom a => .ok (leaf a token.span)
  | _ => .error ⟨.unreachable, token.span⟩

/-- Puts a node behind the items of a group. -/
def push (parent child : Node) : Except ParseError Node :=
  match parent with
  | group shape items span => .ok (group shape (items ++ [child]) span)
  | leaf .. => .error ⟨.unreachable, child.span⟩

end Node
end Lisplet
