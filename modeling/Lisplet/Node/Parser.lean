import Lisplet.Node.Basic
import Lisplet.Token.Cursor

/-!
From tokens to a forest of nodes. The groups that are open and not yet closed are kept on a stack,
the innermost first, so nesting is bounded by memory only. A text that ends inside a bracket fails
with a fault of its own: more text may complete it.
-/

namespace Lisplet

/-- A group whose closing bracket is still to come. Its items stand in reverse. -/
structure OpenGroup where
  shape : Shape
  opening : Span
  items : List Node

/-- A forest in the making: the finished forms in reverse, and the groups that are open. -/
structure Growth where
  forms : List Node
  opened : List OpenGroup

namespace Growth

def empty : Growth := ⟨[], []⟩

/-- Adds a finished node to the innermost open group, or to the forms where none is open. -/
def add (g : Growth) (node : Node) : Growth :=
  match g.opened with
  | [] => { g with forms := node :: g.forms }
  | inner :: outer => { g with opened := { inner with items := node :: inner.items } :: outer }

/-- Closes the innermost open group, which must be of the shape of the closing bracket. -/
def close (g : Growth) (shape : Shape) (span : Span) : Except ParseError Growth :=
  match g.opened with
  | [] => .error ⟨.unexpectedClose, span⟩
  | inner :: outer =>
    if inner.shape = shape then
      .ok (add { g with opened := outer }
        (.group inner.shape inner.items.reverse (inner.opening.through span)))
    else .error ⟨.unmatched, span⟩

def feed (g : Growth) (token : Token) : Except ParseError Growth :=
  match token.kind with
  | .comment _ => .ok g
  | .opening shape => .ok { g with opened := ⟨shape, token.span, []⟩ :: g.opened }
  | .closing shape => g.close shape token.span
  | .atom a => .ok (g.add (.leaf a token.span))

/-- The forest, once the tokens have run out. -/
def finish (g : Growth) : Except ParseError (List Node) :=
  match g.opened with
  | [] => .ok g.forms.reverse
  | inner :: _ => .error ⟨.unclosed, inner.opening⟩

end Growth

namespace Parser

/-- Reads tokens until they run out or something is wrong; the tokens that are left over come
with the result. -/
def readForest (g : Growth) :
    List (Except LexError Token) → Except ParseError (List Node) × List (Except LexError Token)
  | [] => (g.finish, [])
  | .error e :: rest => (.error (.ofLex e), rest)
  | .ok token :: rest =>
    match g.feed token with
    | .ok g => readForest g rest
    | .error e => (.error e, rest)

end Parser

/-- The forest that a row of tokens stands for, or the first thing that is wrong with it. -/
def parseTokens (tokens : List (Except LexError Token)) : Except ParseError (List Node) :=
  (Parser.readForest .empty tokens).1

/-- The top-level forms of a source. -/
def Source.parse (source : Source) : Except ParseError (List Node) :=
  parseTokens (Cursor.atStart source).lexemes

/-- A text is incomplete if all that is wrong with it is an open bracket. -/
def Source.needsMore (source : Source) : Bool :=
  match source.parse with
  | .error ⟨.unclosed, _⟩ => true
  | _ => false

end Lisplet
