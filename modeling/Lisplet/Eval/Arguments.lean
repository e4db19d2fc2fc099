import Lisplet.Eval.Context
import Lisplet.Value.OfNode

/-!
Arguments of calls. Callables get their arguments as nodes; what they have in common is how many
they accept, how they evaluate them and what they make of values of the wrong type. The
evaluator is a parameter.
-/

namespace Lisplet.Eval

/-- The evaluation of nodes that callables are given. -/
abbrev Evaluator := Node → Eval Value

def unary : List Node → Eval Node
  | [] => fail .missingArguments
  | [a] => pure a
  | _ => fail .tooManyArguments

def binary : List Node → Eval (Node × Node)
  | [] | [_] => fail .missingArguments
  | [a, b] => pure (a, b)
  | _ => fail .tooManyArguments

def ternary : List Node → Eval (Node × Node × Node)
  | [] | [_] | [_, _] => fail .missingArguments
  | [a, b, c] => pure (a, b, c)
  | _ => fail .tooManyArguments

/-- Evaluates all arguments from left to right. -/
def evalAll (ev : Evaluator) : List Node → Eval (List Value)
  | [] => pure []
  | node :: nodes => do
    let v ← ev node
    let vs ← evalAll ev nodes
    pure (v :: vs)

/-- A value as what it has to be. -/
def need {α : Type} (as? : Value → Option α) (v : Value) : Eval α :=
  match as? v with
  | some a => pure a
  | none => fail (.invalidArgument v)

def needAll {α : Type} (as? : Value → Option α) : List Value → Eval (List α)
  | [] => pure []
  | v :: vs => do
    let a ← need as? v
    let rest ← needAll as? vs
    pure (a :: rest)

/-- A node as the name that it has to be. -/
def needName (node : Node) : Eval Symbol :=
  match node.symbol? with
  | some name => pure name
  | none => fail (.invalidArgument node.toValue)

/-- The parameters of a function: a list or vector of symbols. -/
def needParams (node : Node) : Eval (List Symbol) :=
  match node.symbols? with
  | some params => pure params
  | none => fail (.invalidArgument node.toValue)

/-- Binds arguments to parameters on top of a scope. Arguments are evaluated one after the other
where the call stands; running out of them or having more is an error, and no argument without
a parameter is evaluated. -/
def bindArguments (ev : Evaluator) : List Symbol → List Node → Scope Value → Eval (Scope Value)
  | [], [], scope => pure scope
  | [], _ :: _, _ => fail .tooManyArguments
  | _ :: _, [], _ => fail .missingArguments
  | p :: params, node :: nodes, scope => do
    let v ← ev node
    bindArguments ev params nodes (scope.define p v)

end Lisplet.Eval
