import Lisplet.Number.Display
import Lisplet.Value.Basic

/-!
How values are written for the reader: the display form, from which readable data can be read
back, and the text form, in which strings and characters stand for themselves. Sequences are
rendered from a stack of pieces, so their nesting is bounded by memory only.
-/

namespace Lisplet

/-- A string between double quotes. Only the double quote is written as an escape. -/
def displayString (s : String) : String :=
  "\"" ++ String.join (s.toList.map fun c => if c = '"' then "\\\"" else c.toString) ++ "\""

namespace Symbol

def display (s : Symbol) : String := s.name

end Symbol

namespace Keyword

def display (k : Keyword) : String := ":" ++ k.name

end Keyword

namespace Atom

def display : Atom → String
  | number x => Number.display x
  | bool true => "true"
  | bool false => "false"
  | string s => displayString s
  | char c => String.ofList ['\x27', c, '\x27']
  | symbol s => s.display
  | keyword k => k.display
  | nil => "nil"

end Atom

namespace Value

/-- What is left to be written: a bracket or space, or a value. -/
inductive Piece where
  | text (s : String)
  | value (v : Value)

/-- The items of a sequence with single spaces between them. -/
def spaced : List Value → List Piece
  | [] => []
  | [v] => [.value v]
  | v :: w :: vs => .value v :: .text " " :: spaced (w :: vs)

namespace Piece

def weight : Piece → Nat
  | text _ => 1
  | value v => v.weight

def weights : List Piece → Nat
  | [] => 0
  | piece :: rest => weight piece + weights rest

end Piece

theorem Piece.weights_append (xs ys : List Piece) :
    weights (xs ++ ys) = weights xs + weights ys := by
  induction xs with
  | nil => simp [weights]
  | cons piece rest ih => rw [List.cons_append, weights, weights, ih, Nat.add_assoc]

theorem weights_spaced (vs : List Value) : Piece.weights (spaced vs) ≤ Value.weights vs := by
  fun_induction spaced vs with
  | case1 => simp [Piece.weights]
  | case2 v => simp [Piece.weights, Piece.weight, Value.weights]
  | case3 v w vs ih =>
    simp only [Piece.weights, Piece.weight, Value.weights] at ih ⊢
    omega

/-- Writes the pieces behind the text `done`. -/
def writePieces (done : String) : List Piece → String
  | [] => done
  | .text s :: rest => writePieces (done ++ s) rest
  | .value (.atom a) :: rest => writePieces (done ++ a.display) rest
  | .value (.builtin name _) :: rest => writePieces (done ++ name.display) rest
  | .value (.fn name _ _) :: rest => writePieces (done ++ name.display) rest
  | .value (.closure ..) :: rest => writePieces (done ++ "#<closure>") rest
  | .value (.seq shape items) :: rest =>
    writePieces (done.push shape.opening)
      (spaced items ++ .text shape.closing.toString :: rest)
termination_by pieces => Piece.weights pieces
decreasing_by
  all_goals
    try simp only [Piece.weights_append]
    try have := weights_spaced items
    simp only [Piece.weights, Piece.weight, Value.weight] at *
    omega

/-- The display form of a value. -/
def display (v : Value) : String := writePieces "" [.value v]

/-- The text of a value, as strings are put together from it. -/
def text : Value → String
  | string s => s
  | char c => c.toString
  | v => v.display

end Value

namespace Scope

/-- The bindings of a scope in braces. -/
def display (scope : Scope Value) : String :=
  "\x7b" ++ ", ".intercalate (scope.entries.map fun (k, v) => k.display ++ ": " ++ v.display) ++
    "\x7d"

end Scope
end Lisplet
