import Lisplet.Proofs.Eval.Binding
import Lisplet.Proofs.Scope.Bindings

/-!
Arguments and parameters. Arguments are evaluated from the left, and the first of them that fails
ends the call. A function or closure has no more of them evaluated than it has parameters; then
too few or too many of them are an error at the head of the call; and only after that is its body
evaluated, under the locals that the parameters make.
-/

namespace Lisplet

/-- The context behind a call that was made in `ctx`: the head to blame and the depth are put
back. -/
def Context.outside (after ctx : Context) : Context :=
  { after with site := ctx.site, depth := ctx.depth }

/-- What is called where a function or closure is called: the locals that its body starts from,
its parameters, and its body. -/
structure Routine where
  start : Scope Value
  params : List Symbol
  body : Node

namespace Value

def routine? : Value → Option Routine
  | fn _ params body => some ⟨.empty, params, body⟩
  | closure captured params body => some ⟨captured, params, body⟩
  | _ => none

end Value

namespace Eval

variable {α β : Type} {ev : Evaluator}

theorem evalAll_restores (restores : ∀ node, (ev node).Restores) (nodes : List Node) :
    (evalAll ev nodes).Restores := by
  induction nodes with
  | nil => exact .refl
  | cons node nodes ih => exact (restores node).bind fun v => ih.bind fun vs => .refl

theorem length_evalAll {nodes : List Node} {ctx after : Context} {vs : List Value}
    (evaluated : evalAll ev nodes ctx = (.ok vs, after)) : vs.length = nodes.length := by
  induction nodes generalizing ctx vs with
  | nil =>
    cases evaluated
    rfl
  | cons node nodes ih =>
    rcases first : ev node ctx with ⟨e | v, between⟩
    · rw [evalAll, bind_of_error first] at evaluated
      cases evaluated
    rw [evalAll, bind_of_ok first] at evaluated
    rcases others : evalAll ev nodes between with ⟨e | ws, last⟩
    · rw [bind_of_error others] at evaluated
      cases evaluated
    rw [bind_of_ok others] at evaluated
    cases evaluated
    exact congrArg Nat.succ (ih others)

/-- Of the nodes behind one that fails none is evaluated. -/
theorem evalAll_of_failing {before : List Node} {node : Node} {ctx between after : Context}
    {vs : List Value} {e : EvalError} (evaluated : evalAll ev before ctx = (.ok vs, between))
    (failed : ev node between = (.error e, after)) (behind : List Node) :
    evalAll ev (before ++ node :: behind) ctx = (.error e, after) := by
  induction before generalizing ctx vs with
  | nil =>
    cases evaluated
    exact bind_of_error failed _
  | cons first before ih =>
    rcases found : ev first ctx with ⟨e | v, next⟩
    · rw [evalAll, bind_of_error found] at evaluated
      cases evaluated
    rw [evalAll, bind_of_ok found] at evaluated
    rcases others : evalAll ev before next with ⟨e | ws, last⟩
    · rw [bind_of_error others] at evaluated
      cases evaluated
    rw [bind_of_ok others] at evaluated
    cases evaluated
    rw [List.cons_append, evalAll, bind_of_ok found]
    exact bind_of_error (ih others) _

/-- Binding arguments is evaluating those that have a parameter, counting them, and then defining
the parameters in order. -/
theorem bindArguments_eq (params : List Symbol) (args : List Node) (scope : Scope Value) :
    bindArguments ev params args scope = (do
      let vs ← evalAll ev (args.take params.length)
      if args.length < params.length then fail .missingArguments
      else if params.length < args.length then fail .tooManyArguments
      else return scope.extend (params.zip vs)) := by
  induction params generalizing args scope with
  | nil =>
    cases args with
    | nil => rfl
    | cons node nodes => rfl
  | cons p params ih =>
    cases args with
    | nil => rfl
    | cons node nodes =>
      rw [bindArguments, List.length_cons, List.take_succ_cons, evalAll, Eval.bind_assoc]
      refine congrArg (ev node >>= ·) (funext fun v => ?_)
      rw [ih, Eval.bind_assoc]
      refine congrArg (evalAll ev (nodes.take params.length) >>= ·) (funext fun vs => ?_)
      simp only [List.length_cons, Nat.add_lt_add_iff_right]
      rfl

/-- Carries out a routine, its arguments and its body being evaluated by `ev`. The arguments are
counted when those that have a parameter are evaluated. -/
def carryOut (ev : Evaluator) (r : Routine) (args : List Node) : Eval Value := do
  let vs ← evalAll ev (args.take r.params.length)
  if args.length < r.params.length then fail .missingArguments
  else if r.params.length < args.length then fail .tooManyArguments
  else withLocals (r.start.extend (r.params.zip vs)) (ev r.body)

theorem apply_routine {f : Value} {r : Routine} (callee : f.routine? = some r)
    (args : List Node) : apply ev f args = carryOut ev r args := by
  have bound (r : Routine) : (do
      let locals ← bindArguments ev r.params args r.start
      withLocals locals (ev r.body)) = carryOut ev r args := by
    rw [bindArguments_eq, Eval.bind_assoc]
    refine congrArg (evalAll ev (args.take r.params.length) >>= ·) (funext fun vs => ?_)
    split
    · rfl
    split
    · rfl
    · rfl
  cases f with
  | atom | seq | builtin => cases callee
  | fn name params body =>
    cases callee
    exact bound ⟨.empty, params, body⟩
  | closure captured params body =>
    cases callee
    exact bound ⟨captured, params, body⟩

section CarryOut

variable {r : Routine} {args : List Node} {ctx after : Context} {vs : List Value}

theorem carryOut_of_failing {before behind : List Node} {node : Node} {between : Context}
    {e : EvalError} (split : args.take r.params.length = before ++ node :: behind)
    (evaluated : evalAll ev before ctx = (.ok vs, between))
    (failed : ev node between = (.error e, after)) :
    carryOut ev r args ctx = (.error e, after) := by
  rw [carryOut, split]
  exact bind_of_error (evalAll_of_failing evaluated failed behind) _

theorem carryOut_of_evaluated
    (evaluated : evalAll ev (args.take r.params.length) ctx = (.ok vs, after)) :
    carryOut ev r args ctx =
      (if args.length < r.params.length then fail .missingArguments
      else if r.params.length < args.length then fail .tooManyArguments
      else withLocals (r.start.extend (r.params.zip vs)) (ev r.body) : Eval Value) after := by
  rw [carryOut]
  exact bind_of_ok evaluated _

theorem carryOut_of_few (few : args.length < r.params.length)
    (evaluated : evalAll ev (args.take r.params.length) ctx = (.ok vs, after)) :
    carryOut ev r args ctx = (.error ⟨.missingArguments, after.site⟩, after) := by
  rw [carryOut_of_evaluated evaluated, if_pos few]
  rfl

theorem carryOut_of_many (many : r.params.length < args.length)
    (evaluated : evalAll ev (args.take r.params.length) ctx = (.ok vs, after)) :
    carryOut ev r args ctx = (.error ⟨.tooManyArguments, after.site⟩, after) := by
  rw [carryOut_of_evaluated evaluated, if_neg (by omega), if_pos many]
  rfl

theorem carryOut_of_exact (exact : args.length = r.params.length)
    (evaluated : evalAll ev (args.take r.params.length) ctx = (.ok vs, after)) :
    carryOut ev r args ctx =
      withLocals (r.start.extend (r.params.zip vs)) (ev r.body) after := by
  rw [carryOut_of_evaluated evaluated, if_neg (by omega), if_neg (by omega)]

end CarryOut

/-- A call that the limit allows and whose head has the value `f`; in the context `called` this
value gets the arguments. -/
structure Calls (ctx : Context) (head : Node) (f : Value) (called : Context) : Prop where
  allowed : ctx.depth + 1 ≤ ctx.maxDepth
  found : (eval head).run (ctx.inside head.span) = (.ok f, called)

namespace Calls

variable {ctx called after : Context} {head : Node} {f : Value} {r : Routine} {args : List Node}
  {result : Except EvalError Value}

theorem restored (calls : Calls ctx head f called) : (ctx.inside head.span).Restored called :=
  (eval_restored head).outcome calls.found

/-- What a call comes to is what applying the value of its head comes to. -/
theorem eval_eq (calls : Calls ctx head f called)
    (applied : apply eval f args called = (result, after)) (span : Span) :
    (eval (.group .list (head :: args) span)).run ctx = (result, after.outside ctx) := by
  have inner : (do
      let ctx ← context
      if ctx.maxDepth < ctx.depth then
        record (.depthReached ctx.maxDepth head.span)
        fail (.depthExceeded ctx.maxDepth)
      else
        let f ← eval head
        apply eval f args : Eval Value) (ctx.inside head.span) = (result, after) := by
    have allowed := calls.allowed
    change (if ctx.maxDepth < (ctx.depth + 1 : Nat) then _ else _ : Eval Value) _ = _
    rw [if_neg (by omega)]
    exact (bind_of_ok calls.found _).trans applied
  have evaluated : eval (.group .list (head :: args) span) ctx =
      (result, { after with site := ctx.site, depth := after.depth - 1 }) := by
    rw [eval_eq_evalNode]
    exact congrArg (fun outcome : Except EvalError Value × Context =>
      (outcome.1, { outcome.2 with site := ctx.site, depth := outcome.2.depth - 1 })) inner
  have depth := ((eval_restored _).outcome evaluated).depth
  rw [run, evaluated, Context.outside, ← depth]

/-- What a call of a routine comes to is what carrying it out comes to. -/
theorem carried (calls : Calls ctx head f called) (callee : f.routine? = some r)
    (carried : carryOut eval r args called = (result, after)) (span : Span) :
    (eval (.group .list (head :: args) span)).run ctx = (result, after.outside ctx) := by
  refine calls.eval_eq ?_ span
  rw [apply_routine callee]
  exact carried

/-- As long as arguments have values, the next one is evaluated under the locals of the caller, and
the head of the call is to blame. -/
theorem during (calls : Calls ctx head f called) {nodes : List Node} {vs : List Value}
    (evaluated : evalAll eval nodes called = (.ok vs, after)) :
    after.locals = ctx.locals ∧ after.site = head.span := by
  have kept := calls.restored.trans ((evalAll_restores eval_restored nodes).outcome evaluated)
  exact ⟨kept.locals, kept.site⟩

/-- What the locals bind to the value of the head they bind to it after the call, for all that its
parameters are bound to. -/
theorem again (calls : Calls ctx head f called) {name : Symbol}
    (bound : ctx.locals.lookup name = some f) (span nameSpan : Span) :
    let later := ((eval (.group .list (head :: args) span)).run ctx).2
    Calls later (.leaf (.symbol name) nameSpan) f (later.inside nameSpan) := by
  intro later
  have kept : ctx.Restored later := eval_restored (.group .list (head :: args) span) ctx
  constructor
  · rw [kept.depth, kept.maxDepth]
    exact calls.allowed
  · have resolved : (later.inside nameSpan).lookup name = some f := by
      have locals : (later.inside nameSpan).locals = ctx.locals := kept.locals
      rw [Context.lookup, locals, bound]
    exact eval_resolved _ resolved nameSpan

end Calls

/-- Functions and closures bind their arguments exactly. Whatever evaluates them, a call is the
evaluation of those arguments that have a parameter, a count of the arguments, and the evaluation
of the body under the locals that it starts from, extended by the parameters in order. The last of
the parameters of one name counts. The arguments are evaluated where the call stands, the first of
them that fails ends it, and a wrong number of them is blamed on the head of the call, with the
context as the arguments have left it. What is called starts from the same locals the next time. -/
theorem arguments_bound_exactly :
    (∀ (ev : Evaluator) (f : Value) (r : Routine) (args : List Node), f.routine? = some r →
      apply ev f args = carryOut ev r args) ∧
    (∀ (start : Scope Value) (bindings : List (Symbol × Value)) (name : Symbol),
      (start.extend bindings).lookup name =
        ((bindings.reverse.find? fun (k, _) => k = name).map Prod.snd).or (start.lookup name)) ∧
    ∀ (ctx : Context) (head : Node) (f : Value) (r : Routine) (called : Context)
      (args : List Node) (span : Span), Calls ctx head f called → f.routine? = some r →
      let outcome := (eval (.group .list (head :: args) span)).run ctx
      (∀ before vs between, (evalAll eval before).run called = (.ok vs, between) →
        between.locals = ctx.locals ∧ between.site = head.span) ∧
      (∀ before node behind vs between e after,
        args.take r.params.length = before ++ node :: behind →
        (evalAll eval before).run called = (.ok vs, between) →
        (eval node).run between = (.error e, after) → outcome = (.error e, after.outside ctx)) ∧
      (∀ vs after, (evalAll eval (args.take r.params.length)).run called = (.ok vs, after) →
        (args.length < r.params.length →
          outcome = (.error ⟨.missingArguments, head.span⟩, after.outside ctx)) ∧
        (r.params.length < args.length →
          outcome = (.error ⟨.tooManyArguments, head.span⟩, after.outside ctx)) ∧
        (args.length = r.params.length → ∀ result final,
          (withLocals (r.start.extend (r.params.zip vs)) (eval r.body)).run after =
            (result, final) → outcome = (result, final.outside ctx))) ∧
      ∀ name nameSpan, ctx.locals.lookup name = some f →
        Calls outcome.2 (.leaf (.symbol name) nameSpan) f (outcome.2.inside nameSpan) := by
  refine ⟨fun ev f r args callee => apply_routine callee args, Scope.lookup_extend, ?_⟩
  intro ctx head f r called args span calls callee outcome
  refine ⟨fun before vs between evaluated => calls.during evaluated, ?_, ?_,
    fun name nameSpan bound => calls.again bound span nameSpan⟩
  · intro before node behind vs between e after split evaluated failed
    exact calls.carried callee (carryOut_of_failing split evaluated failed) span
  · intro vs after evaluated
    have blamed : after.site = head.span := (calls.during evaluated).2
    rw [← blamed]
    refine ⟨fun few => ?_, fun many => ?_, fun exact result final body => ?_⟩
    · exact calls.carried callee (carryOut_of_few few evaluated) span
    · exact calls.carried callee (carryOut_of_many many evaluated) span
    · exact calls.carried callee ((carryOut_of_exact exact evaluated).trans body) span

/-- A closure with two parameters of one name. -/
theorem arguments_bound_exactly_closure :
    let here : Span := .emptyAt (.ofText "" none) 0
    let symbol (name : String) : Node := .leaf (.symbol ⟨name⟩) here
    let datum (b : Bool) : Node := .leaf (.bool b) here
    let body : Node := .group .list [symbol "vec", symbol "x", symbol "k"] here
    let captured : Scope Value := ⟨[(⟨"k"⟩, .bool true)]⟩
    let f : Value := .closure captured [⟨"x"⟩, ⟨"x"⟩] body
    let ctx := { Context.fresh 9 false with locals := ⟨[(⟨"f"⟩, f)]⟩ }
    let called := ctx.inside here
    let call (args : List Node) := (eval (.group .list (symbol "f" :: args) here)).run ctx
    let inner : Scope Value :=
      captured.extend [(⟨"x"⟩, .bool true), (⟨"x"⟩, .bool false)]
    let ended := (withLocals inner (eval body)).run called
    (Calls ctx (symbol "f") f called ∧
      f.routine? = some ⟨captured, [⟨"x"⟩, ⟨"x"⟩], body⟩ ∧ ctx.locals.lookup ⟨"f"⟩ = some f) ∧
      call [datum true] = (.error ⟨.missingArguments, here⟩, called.outside ctx) ∧
      call [datum true, datum false, symbol "y"] =
        (.error ⟨.tooManyArguments, here⟩, called.outside ctx) ∧
      call [datum true, symbol "y"] = (.error ⟨.unknownSymbol ⟨"y"⟩, here⟩, called.outside ctx) ∧
      call [datum true, datum false] = (ended.1, ended.2.outside ctx) ∧
      ended.1.toOption.map Value.display = some "[false true]" ∧
      Calls (call [datum true]).2 (symbol "f") f ((call [datum true]).2.inside here) := by
  intro here symbol datum body captured f ctx called call inner ended
  have calls : Calls ctx (symbol "f") f called := ⟨by decide, rfl⟩
  have outcomes (args : List Node) :=
    arguments_bound_exactly.2.2 ctx (symbol "f") f ⟨captured, [⟨"x"⟩, ⟨"x"⟩], body⟩ called args here
      calls rfl
  refine ⟨⟨calls, rfl, rfl⟩, ?_, ?_, ?_, ?_, by decide +kernel, ?_⟩
  · exact ((outcomes [datum true]).2.2.1 [.bool true] called rfl).1 (by decide)
  · exact ((outcomes [datum true, datum false, symbol "y"]).2.2.1
      [.bool true, .bool false] called rfl).2.1 (by decide)
  · exact (outcomes [datum true, symbol "y"]).2.1 [datum true] (symbol "y") [] [.bool true] called
      ⟨.unknownSymbol ⟨"y"⟩, here⟩ called rfl rfl rfl
  · exact ((outcomes [datum true, datum false]).2.2.1
      [.bool true, .bool false] called rfl).2.2 rfl ended.1 ended.2 rfl
  · exact (outcomes [datum true]).2.2.2 ⟨"f"⟩ here rfl

end Eval
end Lisplet
