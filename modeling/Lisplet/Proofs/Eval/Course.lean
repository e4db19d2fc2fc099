import Lisplet.Eval.Basic

/-!
The course of a call: which nodes it has evaluated and under which locals, which globals it
defines, and how it ends. A course knows no context. Locals are handed on as values, so nothing
has to be put back when it ends or breaks off.
-/

namespace Lisplet

inductive Course (α : Type) where
  | done (a : α)
  | fault (f : EvalFault)
  /-- Has a node evaluated under the given locals and goes on with its value. -/
  | ask (locals : Scope Value) (node : Node) (next : Value → Course α)
  | define (name : Symbol) (value : Value) (next : Course α)
  | report (event : Event) (next : Course α)
  | print (line : String) (next : Course α)

namespace Course

variable {α β : Type}

/-- A fault passes by what would follow. -/
protected def bind (f : α → Course β) : Course α → Course β
  | done a => f a
  | fault e => fault e
  | ask locals node next => ask locals node fun v => (next v).bind f
  | define name value next => define name value (next.bind f)
  | report event next => report event (next.bind f)
  | print line next => print line (next.bind f)

instance : Monad Course where
  pure := done
  bind c f := c.bind f

def value (locals : Scope Value) (node : Node) : Course Value := ask locals node done

def unary : List Node → Course Node
  | [] => fault .missingArguments
  | [a] => done a
  | _ => fault .tooManyArguments

def binary : List Node → Course (Node × Node)
  | [] | [_] => fault .missingArguments
  | [a, b] => done (a, b)
  | _ => fault .tooManyArguments

def ternary : List Node → Course (Node × Node × Node)
  | [] | [_] | [_, _] => fault .missingArguments
  | [a, b, c] => done (a, b, c)
  | _ => fault .tooManyArguments

def values (locals : Scope Value) : List Node → Course (List Value)
  | [] => done []
  | node :: nodes => do
    let v ← value locals node
    let vs ← values locals nodes
    return v :: vs

def need (as? : Value → Option α) (v : Value) : Course α :=
  match as? v with
  | some a => done a
  | none => fault (.invalidArgument v)

def needAll (as? : Value → Option α) : List Value → Course (List α)
  | [] => done []
  | v :: vs => do
    let a ← need as? v
    let rest ← needAll as? vs
    return a :: rest

def needName (node : Node) : Course Symbol :=
  match node.symbol? with
  | some name => done name
  | none => fault (.invalidArgument node.toValue)

def needParams (node : Node) : Course (List Symbol) :=
  match node.symbols? with
  | some params => done params
  | none => fault (.invalidArgument node.toValue)

/-- The locals of a body: a scope extended by parameters. The arguments are evaluated under the
locals of the caller. -/
def parameters (locals : Scope Value) : List Symbol → List Node → Scope Value → Course (Scope Value)
  | [], [], scope => done scope
  | [], _ :: _, _ => fault .tooManyArguments
  | _ :: _, [], _ => fault .missingArguments
  | p :: params, node :: nodes, scope => do
    let v ← value locals node
    parameters locals params nodes (scope.define p v)

/-! The strict operations. -/

def numbers (locals : Scope Value) (args : List Node) : Course (List Float) := do
  needAll Value.number? (← values locals args)

def foldNumbers (locals : Scope Value) (op : Float → Float → Float) (unit : Float)
    (args : List Node) : Course Value := do
  return .number ((← numbers locals args).foldl op unit)

def reduceNumbers (locals : Scope Value) (op : Float → Float → Float) (args : List Node) :
    Course Value := do
  match ← numbers locals args with
  | [] => fault .missingArguments
  | x :: xs => return .number (xs.foldl op x)

def compareNumbers (locals : Scope Value) (rel : Float → Float → Bool) (args : List Node) :
    Course Value := do
  return .bool (Eval.holdsBetween rel (← numbers locals args))

def equal (locals : Scope Value) (args : List Node) : Course Value := do
  return .bool (Eval.allSame (← values locals args))

def negate (locals : Scope Value) (args : List Node) : Course Value := do
  let node ← unary args
  return .bool (!(← need Value.bool? (← value locals node)))

def concat (locals : Scope Value) (args : List Node) : Course Value := do
  return .string (String.join ((← values locals args).map Value.text))

def chars (locals : Scope Value) (args : List Node) : Course Value := do
  let node ← unary args
  let s ← need Value.string? (← value locals node)
  return .ofList (s.toList.map Value.char)

def join (locals : Scope Value) (args : List Node) : Course Value := do
  let (separator, sequence) ← binary args
  let sep ← need Value.string? (← value locals separator)
  let items ← need Value.items? (← value locals sequence)
  return .string (sep.intercalate (items.map Value.text))

def vector (locals : Scope Value) (args : List Node) : Course Value := do
  return .seq .vector (← values locals args)

def nth (locals : Scope Value) (args : List Node) : Course Value := do
  let (sequence, position) ← binary args
  let elements ← need Value.elements? (← value locals sequence)
  let x ← need Value.number? (← value locals position)
  match Eval.element? elements x with
  | some v => done v
  | none => fault (.invalidArgument (.number x))

def parseNumber (locals : Scope Value) (args : List Node) : Course Value := do
  let node ← unary args
  let s ← need Value.string? (← value locals node)
  match Number.read? s.toList with
  | some x => return .number x
  | none => fault (.invalidArgument (.string s))

def println (terminal : Bool) (locals : Scope Value) (args : List Node) : Course Value := do
  let line := " ".intercalate ((← values locals args).map Value.text)
  if terminal then print line (done .nil) else return .string line

/-! The special forms. -/

def quote (args : List Node) : Course Value := do
  return (← unary args).toValue

def choose (locals : Scope Value) (args : List Node) : Course Value :=
  match args with
  | [condition, yes, no] => do
    if ← need Value.bool? (← value locals condition) then value locals yes else value locals no
  | _ => do
    let (condition, yes) ← binary args
    if ← need Value.bool? (← value locals condition) then value locals yes else return .nil

def conjunction (locals : Scope Value) : List Node → Course Value
  | [] => return .bool true
  | node :: nodes => do
    if ← need Value.bool? (← value locals node) then conjunction locals nodes
    else return .bool false

def disjunction (locals : Scope Value) : List Node → Course Value
  | [] => return .bool false
  | node :: nodes => do
    if ← need Value.bool? (← value locals node) then return .bool true
    else disjunction locals nodes

def needBinding : Node → Course (Symbol × Node)
  | .group .list items _ => do
    let (name, value) ← binary items
    return (← needName name, value)
  | node => fault (.invalidArgument node.toValue)

/-- The locals of the body of a `let`: those around it, extended by one binding after the other. -/
def bindings (locals : Scope Value) : List Node → Course (Scope Value)
  | [] => done locals
  | node :: nodes => do
    let (name, bound) ← needBinding node
    let v ← value locals bound
    bindings (locals.define name v) nodes

def letForm (locals : Scope Value) (args : List Node) : Course Value :=
  match args.getLast? with
  | none => fault .missingArguments
  | some body => do value (← bindings locals (Eval.ungroup args.dropLast)) body

def defineFunction (args : List Node) : Course Value := do
  let (nameNode, paramsNode, body) ← ternary args
  let name ← needName nameNode
  let params ← needParams paramsNode
  define name (.fn name params body) (report (.functionDefined name params.length) (done .nil))

def defineConstant (locals : Scope Value) (args : List Node) : Course Value := do
  let (nameNode, bound) ← binary args
  let name ← needName nameNode
  let v ← value locals bound
  define name v (report (.constantDefined name) (done .nil))

def makeClosure (locals : Scope Value) (args : List Node) : Course Value := do
  let (paramsNode, body) ← binary args
  let params ← needParams paramsNode
  return .closure locals params body

/-- A course that ends at once. -/
def Settles (c : Course α) : Prop := (∃ a, c = done a) ∨ ∃ f, c = fault f

theorem Settles.bind {c : Course α} {f : α → Course β} (first : c.Settles)
    (next : ∀ a, (f a).Settles) : (c >>= f).Settles := by
  rcases first with ⟨a, rfl⟩ | ⟨e, rfl⟩
  · exact next a
  · exact .inr ⟨e, rfl⟩

theorem settles_binary (args : List Node) : (binary args).Settles := by
  match args with
  | [] | [_] => exact .inr ⟨_, rfl⟩
  | [a, b] => exact .inl ⟨(a, b), rfl⟩
  | _ :: _ :: _ :: _ => exact .inr ⟨_, rfl⟩

theorem settles_needName (node : Node) : (needName node).Settles := by
  unfold needName
  cases node.symbol? with
  | none => exact .inr ⟨_, rfl⟩
  | some name => exact .inl ⟨name, rfl⟩

theorem settles_needBinding (node : Node) : (needBinding node).Settles := by
  match node with
  | .leaf _ _ | .group .vector _ _ => exact .inr ⟨_, rfl⟩
  | .group .list items _ =>
    refine (settles_binary items).bind fun (name, bound) => ?_
    exact (settles_needName name).bind fun symbol => .inl ⟨(symbol, bound), rfl⟩

end Course

namespace Operation

/-- What an operation does with unevaluated arguments, called where `locals` are in force. -/
def course (terminal : Bool) (locals : Scope Value) : Operation → List Node → Course Value
  | add => Course.foldNumbers locals (· + ·) 0
  | subtract => Course.reduceNumbers locals (· - ·)
  | multiply => Course.foldNumbers locals (· * ·) 1
  | divide => Course.reduceNumbers locals (· / ·)
  | .equal => Course.equal locals
  | less => Course.compareNumbers locals fun x y => decide (x < y)
  | greater => Course.compareNumbers locals fun x y => decide (y < x)
  | lessOrEqual => Course.compareNumbers locals fun x y => decide (x ≤ y)
  | greaterOrEqual => Course.compareNumbers locals fun x y => decide (y ≤ x)
  | .negate => Course.negate locals
  | .concat => Course.concat locals
  | .chars => Course.chars locals
  | .join => Course.join locals
  | .vector => Course.vector locals
  | .nth => Course.nth locals
  | .parseNumber => Course.parseNumber locals
  | .println => Course.println terminal locals
  | .quote => Course.quote
  | .choose => Course.choose locals
  | .conjunction => Course.conjunction locals
  | .disjunction => Course.disjunction locals
  | .bindLocals => Course.letForm locals
  | .defineFunction => Course.defineFunction
  | .defineConstant => Course.defineConstant locals
  | .makeClosure => Course.makeClosure locals
  | ignore => fun _ => .done .nil

end Operation

namespace Course

/-- Calls a value: the body of a function runs with its parameters alone, the body of a closure
with what it has captured and its parameters. -/
def apply (terminal : Bool) (locals : Scope Value) (f : Value) (args : List Node) :
    Course Value :=
  match f with
  | .builtin _ operation => operation.course terminal locals args
  | .fn _ params body => do value (← parameters locals params args .empty) body
  | .closure captured params body => do value (← parameters locals params args captured) body
  | other => fault (.invalidFunction other)

/-- A whole call at nesting `depth`, its head included. -/
def call (limit : Int) (terminal : Bool) (locals : Scope Value) (depth : Nat) (head : Node)
    (args : List Node) : Course Value :=
  if limit < depth then
    report (.depthReached limit head.span) (fault (.depthExceeded limit))
  else do apply terminal locals (← value locals head) args

theorem call_exceeded {limit : Int} {terminal : Bool} {locals : Scope Value} {depth : Nat}
    {head : Node} {args : List Node} (exceeded : limit < depth) :
    call limit terminal locals depth head args =
      report (.depthReached limit head.span) (fault (.depthExceeded limit)) := if_pos exceeded

end Course
end Lisplet
