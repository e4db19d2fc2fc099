import Lisplet.Eval.Arguments
import Lisplet.Number.Literal

/-!
The operations on numbers, truth values, strings and sequences. They evaluate all they are given
and then compute.
-/

namespace Lisplet

namespace Value

/-- What has positions: the items of a list or vector, the characters of a string. -/
def elements? : Value → Option (List Value)
  | seq _ items => some items
  | string s => some (s.toList.map char)
  | _ => none

end Value

namespace Eval

def numbers (ev : Evaluator) (args : List Node) : Eval (List Float) := do
  needAll Value.number? (← evalAll ev args)

/-- Combines numbers from the left, starting from `unit`. -/
def foldNumbers (ev : Evaluator) (op : Float → Float → Float) (unit : Float) (args : List Node) :
    Eval Value := do
  return .number ((← numbers ev args).foldl op unit)

/-- Combines numbers from the left, starting from the first, which must be there. -/
def reduceNumbers (ev : Evaluator) (op : Float → Float → Float) (args : List Node) :
    Eval Value := do
  match ← numbers ev args with
  | [] => fail .missingArguments
  | x :: xs => return .number (xs.foldl op x)

/-- Whether a relation holds between all neighbours. -/
def holdsBetween (rel : Float → Float → Bool) : List Float → Bool
  | x :: y :: rest => rel x y && holdsBetween rel (y :: rest)
  | _ => true

def compareNumbers (ev : Evaluator) (rel : Float → Float → Bool) (args : List Node) :
    Eval Value := do
  return .bool (holdsBetween rel (← numbers ev args))

/-- Every value is compared with the first. -/
def allSame : List Value → Bool
  | [] => true
  | v :: vs => (v :: vs).all (·.isEqual v)

def equal (ev : Evaluator) (args : List Node) : Eval Value := do
  return .bool (allSame (← evalAll ev args))

def negate (ev : Evaluator) (args : List Node) : Eval Value := do
  let node ← unary args
  return .bool (!(← need Value.bool? (← ev node)))

def concat (ev : Evaluator) (args : List Node) : Eval Value := do
  return .string (String.join ((← evalAll ev args).map Value.text))

def chars (ev : Evaluator) (args : List Node) : Eval Value := do
  let node ← unary args
  let s ← need Value.string? (← ev node)
  return .ofList (s.toList.map Value.char)

/-- The separator is checked before the sequence is evaluated. -/
def join (ev : Evaluator) (args : List Node) : Eval Value := do
  let (separator, sequence) ← binary args
  let sep ← need Value.string? (← ev separator)
  let items ← need Value.items? (← ev sequence)
  return .string (sep.intercalate (items.map Value.text))

def vector (ev : Evaluator) (args : List Node) : Eval Value := do
  return .seq .vector (← evalAll ev args)

/-- The element at a position, which must be a whole number in range. -/
def element? (elements : List Value) (position : Float) : Option Value :=
  match wholeNumber? position with
  | some (.ofNat i) => elements[i]?
  | _ => none

/-- The sequence is checked before the position is evaluated. -/
def nth (ev : Evaluator) (args : List Node) : Eval Value := do
  let (sequence, position) ← binary args
  let elements ← need Value.elements? (← ev sequence)
  let x ← need Value.number? (← ev position)
  match element? elements x with
  | some v => pure v
  | none => fail (.invalidArgument (.number x))

def parseNumber (ev : Evaluator) (args : List Node) : Eval Value := do
  let node ← unary args
  let s ← need Value.string? (← ev node)
  match Number.read? s.toList with
  | some x => return .number x
  | none => fail (.invalidArgument (.string s))

/-- Ends a line on the terminal: the colours are reset and the next line begins. -/
def lineEnd : String := "\x1b[m\n"

/-- On a terminal the line is printed and the value is nil; elsewhere the line is the value. The
console is one that is there and accepts every line. -/
def println (ev : Evaluator) (args : List Node) : Eval Value := do
  let line := " ".intercalate ((← evalAll ev args).map Value.text)
  if (← context).terminal then
    update fun ctx => { ctx with printed := ctx.printed ++ line ++ lineEnd }
    return .nil
  else return .string line

end Eval
end Lisplet
