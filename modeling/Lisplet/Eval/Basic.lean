import Lisplet.Eval.Forms

/-!
Evaluation. A symbol gives what it is bound to, a list that is not empty is a call, and all else
gives itself. Each call counts one level of depth, and a call beyond the limit fails without
evaluating anything. The recursion runs on the levels that are left; a context never gets to the
evaluator that is put in where they end.
-/

namespace Lisplet

namespace Operation

open Eval

/-- Carries out an operation on unevaluated arguments. -/
def perform (ev : Evaluator) : Operation → List Node → Eval Value
  | add => foldNumbers ev (· + ·) 0
  | subtract => reduceNumbers ev (· - ·)
  | multiply => foldNumbers ev (· * ·) 1
  | divide => reduceNumbers ev (· / ·)
  | .equal => Eval.equal ev
  | less => compareNumbers ev fun x y => decide (x < y)
  | greater => compareNumbers ev fun x y => decide (y < x)
  | lessOrEqual => compareNumbers ev fun x y => decide (x ≤ y)
  | greaterOrEqual => compareNumbers ev fun x y => decide (y ≤ x)
  | .negate => Eval.negate ev
  | .concat => Eval.concat ev
  | .chars => Eval.chars ev
  | .join => Eval.join ev
  | .vector => Eval.vector ev
  | .nth => Eval.nth ev
  | .parseNumber => Eval.parseNumber ev
  | .println => Eval.println ev
  | .quote => Eval.quote
  | .choose => Eval.choose ev
  | .conjunction => Eval.conjunction ev
  | .disjunction => Eval.disjunction ev
  | .bindLocals => Eval.letForm ev
  | .defineFunction => Eval.defineFunction
  | .defineConstant => Eval.defineConstant ev
  | .makeClosure => Eval.makeClosure
  | ignore => fun _ => pure .nil

end Operation

namespace Eval

/-- Calls a value. The body of a function starts from its arguments alone, the body of a closure
from what it has captured. -/
def apply (ev : Evaluator) (f : Value) (args : List Node) : Eval Value :=
  match f with
  | .builtin _ operation => operation.perform ev args
  | .fn _ params body => do
    let locals ← bindArguments ev params args .empty
    withLocals locals (ev body)
  | .closure captured params body => do
    let locals ← bindArguments ev params args captured.copy
    withLocals locals (ev body)
  | other => fail (.invalidFunction other)

/-- Evaluates the head of a call and calls it, if the depth limit allows one more call. -/
def dispatch (ev : Evaluator) (head : Node) (args : List Node) : Eval Value :=
  calling head.span do
    let ctx ← context
    if ctx.maxDepth < ctx.depth then
      record (.depthReached ctx.maxDepth head.span)
      fail (.depthExceeded ctx.maxDepth)
    else
      let f ← ev head
      apply ev f args

/-- Evaluates a node, the parts of calls being evaluated by `ev`. -/
def evalNode (ev : Evaluator) : Node → Eval Value
  | .leaf (.symbol name) span => do
    match (← context).lookup name with
    | some value => pure value
    | none => throw ⟨.unknownSymbol name, span⟩
  | .group .list (head :: args) _ => dispatch ev head args
  | node => pure node.toValue

/-- Evaluates a node through at most `levels` levels, leaving what is deeper to `beyond`. -/
def evalWithin (beyond : Evaluator) : Nat → Evaluator
  | 0 => beyond
  | levels + 1 => evalNode (evalWithin beyond levels)

/-- The levels that a context has left, the node at hand included. -/
def levelsLeft (ctx : Context) : Nat := (ctx.maxDepth - ctx.depth).toNat + 1

def exhausted : Evaluator := fun _ ctx => fail (.depthExceeded ctx.maxDepth) ctx

/-- Evaluates a node. -/
def eval (node : Node) : Eval Value := fun ctx => evalWithin exhausted (levelsLeft ctx) node ctx

end Eval
end Lisplet
