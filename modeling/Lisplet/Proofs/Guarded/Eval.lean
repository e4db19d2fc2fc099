import Lisplet.Eval.Basic
import Lisplet.Proofs.Guarded.Operations

/-!
Evaluation with its checks. The special forms, calls and the evaluation of nodes are written over
the checked operations, and they come to what the evaluation that runs comes to: no program makes
any of them break down, but for the console that it prints on.
-/

namespace Lisplet.Guarded

variable {α : Type}

def calling (head : Span) (x : Guarded α) : Guarded α := ExceptT.mk (Eval.calling head x.run)

variable {console : Console}

theorem Sure.calling {β : Type} {R : α → β → Prop} {x : Guarded α} {y : Eval β}
    (sure : Sure console R x y) (head : Span) :
    Sure console R (calling head x) (Eval.calling head y) := by
  intro ctx
  have step := sure { ctx with site := head, depth := ctx.depth + 1 }
  exact step.leave (fun after => { after with site := ctx.site, depth := after.depth - 1 })
    fun _ => ⟨rfl, rfl⟩

/-! Definitions. -/

def defineGlobal (name v : Value) : Guarded Unit := do
  let globals ← attempt (Partial.define (← plain Eval.context).globals name v)
  plain <| Eval.update fun ctx => { ctx with globals := globals }

def defineLocal (name v : Value) : Guarded Unit := do
  let locals ← attempt (Partial.define (← plain Eval.context).locals name v)
  plain <| Eval.update fun ctx => { ctx with locals := locals }

theorem sure_defineGlobal (s : Symbol) (v : Value) :
    Sure console Eq (defineGlobal (.symbol s) v) (Eval.defineGlobal s v) :=
  fun _ => .ok rfl rfl

theorem sure_defineLocal (s : Symbol) (v : Value) :
    Sure console Eq (defineLocal (.symbol s) v) (Eval.defineLocal s v) :=
  fun _ => .ok rfl rfl

/-! The special forms. -/

def quote (args : List Node) : Guarded Value := do
  return (← unary args).toValue

/-- The condition and the branches of an `if`, the second of which may be missing. -/
def branches (args : List Node) : Guarded (Node × Node × Option Node) :=
  if args.length = 3 then do
    let (condition, yes, no) ← attempt (Partial.three args)
    return (condition, yes, some no)
  else do
    let (condition, yes) ← binary args
    return (condition, yes, none)

def choose (ev : Evaluator) (args : List Node) : Guarded Value := do
  let (condition, yes, no) ← branches args
  if ← need Value.bool? (← ev condition) then ev yes
  else match no with
    | some no => ev no
    | none => return .nil

def conjunction (ev : Evaluator) : List Node → Guarded Value
  | [] => return .bool true
  | node :: nodes => do
    if ← need Value.bool? (← ev node) then conjunction ev nodes else return .bool false

def disjunction (ev : Evaluator) : List Node → Guarded Value
  | [] => return .bool false
  | node :: nodes => do
    if ← need Value.bool? (← ev node) then return .bool true else disjunction ev nodes

def needBinding : Node → Guarded (Value × Node)
  | .group .list items _ => do
    let (name, bound) ← binary items
    return (← needName name, bound)
  | node => fail (.invalidArgument node.toValue)

def bindLocals (ev : Evaluator) : List Node → Guarded Unit
  | [] => pure ()
  | node :: nodes => do
    let (name, bound) ← needBinding node
    defineLocal name (← ev bound)
    bindLocals ev nodes

def letForm (ev : Evaluator) (args : List Node) : Guarded Value :=
  if args.isEmpty then fail .missingArguments
  else do
    let (bindings, body) ← attempt (Partial.last args)
    withLocals (← plain Eval.context).locals.copy do
      bindLocals ev (Eval.ungroup bindings)
      ev body

/-- The parameters are made sure of already where the function is made. -/
def defineFunction (args : List Node) : Guarded Value := do
  let (nameNode, paramsNode, body) ← ternary args
  let name ← needName nameNode
  let params ← needParams paramsNode
  let symbol ← attempt (Partial.symbol name)
  let symbols ← attempt (params.mapM Partial.symbol)
  defineGlobal name (.fn symbol symbols body)
  plain (Eval.record (.functionDefined symbol symbols.length))
  return .nil

def defineConstant (ev : Evaluator) (args : List Node) : Guarded Value := do
  let (nameNode, bound) ← binary args
  let name ← needName nameNode
  defineGlobal name (← ev bound)
  let symbol ← attempt (Partial.symbol name)
  plain (Eval.record (.constantDefined symbol))
  return .nil

def makeClosure (args : List Node) : Guarded Value := do
  let (paramsNode, body) ← binary args
  let params ← needParams paramsNode
  let symbols ← attempt (params.mapM Partial.symbol)
  return .closure (← plain Eval.context).locals.copy symbols body

section Forms

theorem sure_quote (args : List Node) : Sure console Eq (quote args) (Eval.quote args) :=
  (sure_unary args).bind fun _ => sure_pure rfl

theorem sure_needBinding (node : Node) :
    Sure console (fun binding binding' => binding = (.symbol binding'.1, binding'.2))
      (needBinding node) (Eval.needBinding node) := by
  match node with
  | .leaf _ _ | .group .vector _ _ => exact sure_fail _
  | .group .list items _ =>
    apply (sure_binary items).bind
    rintro ⟨name, bound⟩
    apply (sure_needName name).relate
    rintro _ s rfl
    exact sure_pure rfl

theorem sure_defineFunction (args : List Node) :
    Sure console Eq (defineFunction args) (Eval.defineFunction args) := by
  apply (sure_ternary args).bind
  rintro ⟨nameNode, paramsNode, body⟩
  apply (sure_needName nameNode).relate
  rintro _ s rfl
  apply (sure_needParams paramsNode).relate
  rintro _ params rfl
  refine .attempt rfl (.attempt (symbols_ok params) ?_)
  apply (sure_defineGlobal s _).bind
  intro _
  exact (sure_record _).bind fun _ => sure_pure rfl

theorem sure_makeClosure (args : List Node) :
    Sure console Eq (makeClosure args) (Eval.makeClosure args) := by
  apply (sure_binary args).bind
  rintro ⟨paramsNode, body⟩
  apply (sure_needParams paramsNode).relate
  rintro _ params rfl
  refine .attempt (symbols_ok params) ?_
  exact sure_context.bind fun _ => sure_pure rfl

variable {ev : Evaluator} {ev' : Eval.Evaluator}
variable (sure : ∀ node, Sure console Eq (ev node) (ev' node))
include sure

theorem sure_choose (args : List Node) :
    Sure console Eq (choose ev args) (Eval.choose ev' args) := by
  match args with
  | [condition, yes, no] =>
    apply (sure condition).bind
    intro v
    apply (sure_need _ _).bind
    intro b
    cases b with
    | true => exact sure yes
    | false => exact sure no
  | [condition, yes] =>
    apply (sure condition).bind
    intro v
    apply (sure_need _ _).bind
    intro b
    cases b with
    | true => exact sure yes
    | false => exact sure_pure rfl
  | [] | [_] | _ :: _ :: _ :: _ :: _ => exact sure_fail _

theorem sure_conjunction (args : List Node) :
    Sure console Eq (conjunction ev args) (Eval.conjunction ev' args) := by
  induction args with
  | nil => exact sure_pure rfl
  | cons node nodes ih =>
    apply (sure node).bind
    intro v
    apply (sure_need _ _).bind
    intro b
    cases b with
    | true => exact ih
    | false => exact sure_pure rfl

theorem sure_disjunction (args : List Node) :
    Sure console Eq (disjunction ev args) (Eval.disjunction ev' args) := by
  induction args with
  | nil => exact sure_pure rfl
  | cons node nodes ih =>
    apply (sure node).bind
    intro v
    apply (sure_need _ _).bind
    intro b
    cases b with
    | true => exact sure_pure rfl
    | false => exact ih

theorem sure_bindLocals (bindings : List Node) :
    Sure console Eq (bindLocals ev bindings) (Eval.bindLocals ev' bindings) := by
  induction bindings with
  | nil => exact sure_pure rfl
  | cons node nodes ih =>
    apply (sure_needBinding node).relate
    rintro _ ⟨s, bound⟩ rfl
    apply (sure bound).bind
    intro v
    exact (sure_defineLocal s v).bind fun _ => ih

theorem sure_letForm (args : List Node) :
    Sure console Eq (letForm ev args) (Eval.letForm ev' args) := by
  unfold letForm Eval.letForm
  cases last : args.getLast? with
  | none =>
    rw [List.getLast?_eq_none_iff.mp last]
    exact sure_fail _
  | some body =>
    have some : args.isEmpty = false := by
      cases args with
      | nil => cases last
      | cons node nodes => rfl
    rw [some]
    have taken : Partial.last args = .ok (args.dropLast, body) := by rw [Partial.last, last]
    refine .attempt taken (sure_context.bind fun ctx => ?_)
    apply Sure.withLocals
    exact (sure_bindLocals sure _).bind fun _ => sure body

theorem sure_defineConstant (args : List Node) :
    Sure console Eq (defineConstant ev args) (Eval.defineConstant ev' args) := by
  apply (sure_binary args).bind
  rintro ⟨nameNode, bound⟩
  apply (sure_needName nameNode).relate
  rintro _ s rfl
  apply (sure bound).bind
  intro v
  apply (sure_defineGlobal s v).bind
  intro _
  refine .attempt rfl ?_
  exact (sure_record _).bind fun _ => sure_pure rfl

end Forms

/-! Calls and nodes. -/

def perform (console : Console) (ev : Evaluator) : Operation → List Node → Guarded Value
  | .add => foldNumbers ev (· + ·) 0
  | .subtract => reduceNumbers ev fun x y => .ok (x - y)
  | .multiply => foldNumbers ev (· * ·) 1
  | .divide => reduceNumbers ev quotient
  | .equal => equal ev
  | .less => compareNumbers ev fun x y => decide (x < y)
  | .greater => compareNumbers ev fun x y => decide (y < x)
  | .lessOrEqual => compareNumbers ev fun x y => decide (x ≤ y)
  | .greaterOrEqual => compareNumbers ev fun x y => decide (y ≤ x)
  | .negate => negate ev
  | .concat => concat ev
  | .chars => chars ev
  | .join => join ev
  | .vector => vector ev
  | .nth => nth ev
  | .parseNumber => parseNumber ev
  | .println => println console ev
  | .quote => quote
  | .choose => choose ev
  | .conjunction => conjunction ev
  | .disjunction => disjunction ev
  | .bindLocals => letForm ev
  | .defineFunction => defineFunction
  | .defineConstant => defineConstant ev
  | .makeClosure => makeClosure
  | .ignore => fun _ => pure .nil

def apply (console : Console) (ev : Evaluator) (f : Value) (args : List Node) : Guarded Value :=
  match f with
  | .builtin _ operation => perform console ev operation args
  | .fn _ params body => do
    let locals ← bindArguments ev params args .empty
    withLocals locals (ev body)
  | .closure captured params body => do
    let locals ← bindArguments ev params args captured.copy
    withLocals locals (ev body)
  | other => fail (.invalidFunction other)

def dispatch (console : Console) (ev : Evaluator) (head : Node) (args : List Node) :
    Guarded Value :=
  calling head.span do
    let ctx ← plain Eval.context
    if ctx.maxDepth < ctx.depth then
      plain (Eval.record (.depthReached ctx.maxDepth head.span))
      fail (.depthExceeded ctx.maxDepth)
    else
      let f ← ev head
      apply console ev f args

def evalNode (console : Console) (ev : Evaluator) : Node → Guarded Value
  | .leaf (.symbol name) span => do
    match (← plain Eval.context).lookup name with
    | some value => pure value
    | none => plain (Eval.throw ⟨.unknownSymbol name, span⟩)
  | .group .list (head :: args) _ => dispatch console ev head args
  | node => pure node.toValue

def evalWithin (console : Console) (beyond : Evaluator) : Nat → Evaluator
  | 0 => beyond
  | levels + 1 => evalNode console (evalWithin console beyond levels)

def exhausted : Evaluator := fun node => plain (Eval.exhausted node)

/-- Evaluates a node, with every check on the way. -/
def eval (console : Console) (node : Node) : Guarded Value :=
  ExceptT.mk fun ctx => (evalWithin console exhausted (Eval.levelsLeft ctx) node).run ctx

section Calls

variable {ev : Evaluator} {ev' : Eval.Evaluator}
variable (sure : ∀ node, Sure console Eq (ev node) (ev' node))
include sure

theorem sure_perform (operation : Operation) (args : List Node) :
    Sure console Eq (perform console ev operation args) (operation.perform ev' args) := by
  cases operation with
  | add | multiply => exact sure_foldNumbers sure _ _ args
  | subtract => exact sure_reduceNumbers sure (fun x y => rfl) args
  | divide => exact sure_reduceNumbers sure quotient_eq args
  | equal => exact sure_equal sure args
  | less | greater | lessOrEqual | greaterOrEqual => exact sure_compareNumbers sure _ args
  | negate => exact sure_negate sure args
  | concat => exact sure_concat sure args
  | chars => exact sure_chars sure args
  | join => exact sure_join sure args
  | vector => exact sure_vector sure args
  | nth => exact sure_nth sure args
  | parseNumber => exact sure_parseNumber sure args
  | println => exact sure_println sure args
  | quote => exact sure_quote args
  | choose => exact sure_choose sure args
  | conjunction => exact sure_conjunction sure args
  | disjunction => exact sure_disjunction sure args
  | bindLocals => exact sure_letForm sure args
  | defineFunction => exact sure_defineFunction args
  | defineConstant => exact sure_defineConstant sure args
  | makeClosure => exact sure_makeClosure args
  | ignore => exact sure_pure rfl

theorem sure_apply (f : Value) (args : List Node) :
    Sure console Eq (apply console ev f args) (Eval.apply ev' f args) := by
  cases f with
  | atom | seq => exact sure_fail _
  | builtin name operation => exact sure_perform sure operation args
  | fn name params body | closure captured params body =>
    apply (sure_bindArguments sure params args _).bind
    intro locals
    exact (sure body).withLocals locals

theorem sure_dispatch (head : Node) (args : List Node) :
    Sure console Eq (dispatch console ev head args) (Eval.dispatch ev' head args) := by
  apply Sure.calling
  apply sure_context.bind
  intro ctx
  by_cases exceeded : ctx.maxDepth < ctx.depth
  · rw [if_pos exceeded, if_pos exceeded]
    exact (sure_record _).bind fun _ => sure_fail _
  · rw [if_neg exceeded, if_neg exceeded]
    apply (sure head).bind
    intro f
    exact sure_apply sure f args

/-- The step lemma: a node evaluates without breaking down by itself if the parts of calls do. -/
theorem sure_evalNode (node : Node) :
    Sure console Eq (evalNode console ev node) (Eval.evalNode ev' node) := by
  cases node with
  | leaf a span =>
    cases a with
    | symbol name =>
      apply sure_context.bind
      intro ctx
      cases ctx.lookup name with
      | none => exact sure_plain fun ctx => .refl ctx
      | some v => exact sure_pure rfl
    | number | bool | string | char | keyword | nil => exact sure_pure rfl
  | group shape items span =>
    match shape, items with
    | .list, head :: args => exact sure_dispatch sure head args
    | .list, [] | .vector, _ => exact sure_pure rfl

end Calls

theorem sure_evalWithin (levels : Nat) (node : Node) :
    Sure console Eq (evalWithin console exhausted levels node)
      (Eval.evalWithin Eval.exhausted levels node) := by
  induction levels generalizing node with
  | zero => exact sure_plain fun ctx => .refl ctx
  | succ levels ih => exact sure_evalNode ih node

/-- The run lemma: no node makes evaluation break down, in whatever context, but for the
console. -/
theorem sure_eval (node : Node) : Sure console Eq (eval console node) (Eval.eval node) :=
  fun ctx => sure_evalWithin (Eval.levelsLeft ctx) node ctx

end Lisplet.Guarded
