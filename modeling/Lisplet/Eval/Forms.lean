import Lisplet.Eval.Strict

/-!
The special forms: operations that decide themselves which of their arguments to evaluate.
-/

namespace Lisplet.Eval

/-- `(quote x)`: the datum itself. -/
def quote (args : List Node) : Eval Value := do
  return (← unary args).toValue

/-- `(if condition then else)`: one branch is evaluated. Without the second branch a false
condition gives nil. -/
def choose (ev : Evaluator) (args : List Node) : Eval Value :=
  match args with
  | [condition, yes, no] => do
    if ← need Value.bool? (← ev condition) then ev yes else ev no
  | _ => do
    let (condition, yes) ← binary args
    if ← need Value.bool? (← ev condition) then ev yes else return .nil

/-- `(and a b ...)`: stops at the first false operand. -/
def conjunction (ev : Evaluator) : List Node → Eval Value
  | [] => return .bool true
  | node :: nodes => do
    if ← need Value.bool? (← ev node) then conjunction ev nodes else return .bool false

/-- `(or a b ...)`: stops at the first true operand. -/
def disjunction (ev : Evaluator) : List Node → Eval Value
  | [] => return .bool false
  | node :: nodes => do
    if ← need Value.bool? (← ev node) then return .bool true else disjunction ev nodes

/-- One binding, a list of a name and what is bound to it. -/
def needBinding : Node → Eval (Symbol × Node)
  | .group .list items _ => do
    let (name, value) ← binary items
    return (← needName name, value)
  | node => fail (.invalidArgument node.toValue)

/-- Makes bindings in order; each sees those before it. -/
def bindLocals (ev : Evaluator) : List Node → Eval Unit
  | [] => pure ()
  | node :: nodes => do
    let (name, value) ← needBinding node
    defineLocal name (← ev value)
    bindLocals ev nodes

def isList : Node → Bool
  | .group .list _ _ => true
  | _ => false

/-- The bindings of a `let` may be enclosed in a list of their own. A single list is taken for
such a list if it is empty or starts with a list. -/
def ungroup : List Node → List Node
  | [.group .list [] _] => []
  | [.group .list (item :: items) span] =>
    if isList item then item :: items else [.group .list (item :: items) span]
  | bindings => bindings

/-- `(let (a 1) (b 2) body)`: the body sees the bindings, which end with the form. -/
def letForm (ev : Evaluator) (args : List Node) : Eval Value :=
  match args.getLast? with
  | none => fail .missingArguments
  | some body => do
    withLocals (← context).locals.copy do
      bindLocals ev (ungroup args.dropLast)
      ev body

/-- `(fn name params body)`: a function in the globals, without memory of where it was made. -/
def defineFunction (args : List Node) : Eval Value := do
  let (nameNode, paramsNode, body) ← ternary args
  let name ← needName nameNode
  let params ← needParams paramsNode
  defineGlobal name (.fn name params body)
  record (.functionDefined name params.length)
  return .nil

/-- `(const name value)`: a value in the globals. -/
def defineConstant (ev : Evaluator) (args : List Node) : Eval Value := do
  let (nameNode, value) ← binary args
  let name ← needName nameNode
  defineGlobal name (← ev value)
  record (.constantDefined name)
  return .nil

/-- `(lambda params body)`: a closure over a copy of the locals. -/
def makeClosure (args : List Node) : Eval Value := do
  let (paramsNode, body) ← binary args
  let params ← needParams paramsNode
  return .closure (← context).locals.copy params body

end Lisplet.Eval
