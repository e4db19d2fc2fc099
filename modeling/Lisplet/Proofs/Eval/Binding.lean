import Lisplet.Proofs.Eval.Passing
import Lisplet.Session

/-!
Binding names. An evaluation never looks at the head of the call around it, on which only the
faults of that call are blamed. Calls that have the same nodes evaluated under the same locals,
and have no faults of their own, therefore come to the same, whatever stands at their heads: a
`let` in either spelling, and a closure that is called where it is made.
-/

namespace Lisplet

namespace Context

/-- The context with another place to blame. -/
def blaming (ctx : Context) (site : Span) : Context := { ctx with site := site }

/-- The context inside a call with the given head. -/
def inside (ctx : Context) (head : Span) : Context :=
  { ctx with site := head, depth := ctx.depth + 1 }

end Context

namespace Eval

variable {α β : Type}

/-- Not depending on the head of the call in progress, and leaving it as it is. -/
def Siteless (x : Eval α) : Prop :=
  ∀ (ctx : Context) (site : Span), x (ctx.blaming site) = ((x ctx).1, (x ctx).2.blaming site)

theorem Siteless.bind {x : Eval α} {f : α → Eval β} (first : x.Siteless)
    (next : ∀ a, (f a).Siteless) : (x >>= f).Siteless := by
  intro ctx site
  have moved := first ctx site
  rcases result : x ctx with ⟨e | a, after⟩
  · rw [result] at moved
    rw [bind_of_error result, bind_of_error moved]
  · rw [result] at moved
    rw [bind_of_ok result, bind_of_ok moved]
    exact next a after site

theorem Siteless.withLocals {x : Eval α} (inner : x.Siteless) (locals : Scope Value) :
    (withLocals locals x).Siteless := by
  intro ctx site
  have moved : x { ctx.blaming site with locals := locals } = _ :=
    inner { ctx with locals := locals } site
  unfold Eval.withLocals
  rw [moved]
  rfl

theorem eval_name (name : Symbol) (span : Span) (ctx : Context) :
    eval (.leaf (.symbol name) span) ctx =
      (match ctx.lookup name with
        | some value => .ok value
        | none => .error ⟨.unknownSymbol name, span⟩, ctx) := by
  rw [eval_eq_evalNode]
  simp only [evalNode, bind, Eval.bind, context]
  cases ctx.lookup name with
  | none => rfl
  | some value => rfl

theorem eval_resolved (ctx : Context) {name : Symbol} {value : Value}
    (resolved : ctx.lookup name = some value) (span : Span) :
    eval (.leaf (.symbol name) span) ctx = (.ok value, ctx) := by
  rw [eval_name, resolved]

/-- A call puts its own head in place before anything is evaluated. -/
theorem eval_siteless (node : Node) : (eval node).Siteless := by
  intro ctx site
  cases node.form with
  | symbol name span =>
    rw [eval_name, eval_name]
    rfl
  | call head args span =>
    rw [eval_eq_evalNode]
    rfl
  | datum notSymbol notCall =>
    rw [eval_eq_evalNode, evalNode]
    · rfl
    · exact notSymbol
    · exact notCall

theorem Siteless.calling_eq {x : Eval α} (inner : x.Siteless) (head head' : Span) :
    calling head x = calling head' x := by
  funext ctx
  have moved (site : Span) : x { ctx with site := site, depth := ctx.depth + 1 } = _ :=
    inner { ctx with depth := ctx.depth + 1 } site
  unfold calling
  rw [moved head, moved head']
  rfl

/-- A call within the limit whose head has a value comes to calling the value. -/
theorem eval_call_of_head {ctx : Context} {head : Node} {f : Value}
    (allowed : ctx.depth + 1 ≤ ctx.maxDepth)
    (found : eval head (ctx.inside head.span) = (.ok f, ctx.inside head.span))
    (args : List Node) (span : Span) :
    eval (.group .list (head :: args) span) ctx =
      calling head.span ((Course.apply ctx.terminal ctx.locals f args).act eval) ctx := by
  have asked : withLocals ctx.locals (eval head) (ctx.inside head.span) = _ :=
    (withLocals_self (eval_restored head) (ctx.inside head.span)).trans found
  have called : (Course.call ctx.maxDepth ctx.terminal ctx.locals (ctx.depth + 1) head args).act
      eval (ctx.inside head.span) =
        (Course.apply ctx.terminal ctx.locals f args).act eval (ctx.inside head.span) := by
    rw [Course.call, if_neg (by omega), Course.act_bind, Course.act_value]
    simp only [bind, Eval.bind]
    rw [asked]
  rw [eval_eq_evalNode]
  change dispatch eval head args ctx = _
  rw [dispatch_eq eval_restored]
  exact congrArg
    (fun outcome => (outcome.1, { outcome.2 with site := ctx.site, depth := outcome.2.depth - 1 }))
    called

/-- A call beyond the limit has nothing evaluated. -/
theorem eval_call_beyond {ctx : Context} (exceeded : ctx.maxDepth < ctx.depth + 1) (head : Node)
    (args : List Node) (span : Span) :
    eval (.group .list (head :: args) span) ctx =
      (.error ⟨.depthExceeded ctx.maxDepth, head.span⟩,
        ctx.record (.depthReached ctx.maxDepth head.span)) := by
  rw [eval_eq_evalNode]
  change dispatch eval head args ctx = _
  rw [dispatch_eq eval_restored, Course.call_exceeded (by omega)]
  rfl

/-- One binding of a `let`, as it is written. -/
structure Binding where
  name : Symbol
  nameSpan : Span
  bound : Node
  span : Span

def Binding.node (binding : Binding) : Node :=
  .group .list [.leaf (.symbol binding.name) binding.nameSpan, binding.bound] binding.span

/-- Evaluates what is bound in order, each under the locals that the bindings before it have made,
and then a body under all of them. -/
def sequentially (locals : Scope Value) : List Binding → Node → Eval Value
  | [], body => withLocals locals (eval body)
  | binding :: rest, body => do
    let v ← withLocals locals (eval binding.bound)
    sequentially (locals.define binding.name v) rest body

theorem siteless_sequentially (locals : Scope Value) (bindings : List Binding) (body : Node) :
    (sequentially locals bindings body).Siteless := by
  induction bindings generalizing locals with
  | nil => exact (eval_siteless body).withLocals locals
  | cons binding rest ih =>
    exact ((eval_siteless binding.bound).withLocals locals).bind fun v => ih _

theorem act_bindings (locals : Scope Value) (bindings : List Binding) (body : Node) :
    (Course.bindings locals (bindings.map Binding.node) >>= fun inner =>
      Course.value inner body).act eval = sequentially locals bindings body := by
  induction bindings generalizing locals with
  | nil => exact Course.act_value locals body
  | cons binding rest ih =>
    change (Course.ask locals binding.bound fun v =>
      Course.bindings (locals.define binding.name v) (rest.map Binding.node) >>= fun inner =>
        Course.value inner body).act eval = _
    rw [Course.act, sequentially]
    exact congrArg (withLocals locals (eval binding.bound) >>= ·) (funext fun v => ih _)

theorem ungroup_bindings (bindings : List Binding) :
    ungroup (bindings.map Binding.node) = bindings.map Binding.node := by
  match bindings with
  | [] | [_] | _ :: _ :: _ => rfl

theorem ungroup_group (bindings : List Binding) (span : Span) :
    ungroup [.group .list (bindings.map Binding.node) span] = bindings.map Binding.node := by
  match bindings with
  | [] | _ :: _ => rfl

/-- What both spellings of a `let` do with their arguments. -/
theorem act_letForm (locals : Scope Value) {written : List Node} {bindings : List Binding}
    (grouping : ungroup written = bindings.map Binding.node) (body : Node) :
    (Course.letForm locals (written ++ [body])).act eval =
      sequentially locals bindings body := by
  unfold Course.letForm
  rw [List.getLast?_concat, List.dropLast_concat, grouping]
  exact act_bindings locals bindings body

variable {ctx : Context}

theorem eval_let {name : Symbol}
    (resolved : ctx.lookup ⟨"let"⟩ = some (.builtin name .bindLocals))
    {written : List Node} {bindings : List Binding}
    (grouping : ungroup written = bindings.map Binding.node) (body : Node) (headSpan span : Span)
    (allowed : ctx.depth + 1 ≤ ctx.maxDepth) :
    eval (.group .list (.leaf (.symbol ⟨"let"⟩) headSpan :: (written ++ [body])) span) ctx =
      calling ctx.site (sequentially ctx.locals bindings body) ctx := by
  rw [eval_call_of_head allowed (eval_resolved (ctx.inside headSpan) resolved headSpan)]
  change calling headSpan ((Course.letForm ctx.locals (written ++ [body])).act eval) ctx = _
  rw [act_letForm _ grouping,
    (siteless_sequentially _ _ _).calling_eq headSpan ctx.site]

/-- The parameters and the body of a closure as it is written. -/
structure Lambda where
  shape : Shape
  param : Symbol
  paramSpan : Span
  paramsSpan : Span
  body : Node
  headSpan : Span
  span : Span

def Lambda.node (lambda : Lambda) : Node :=
  .group .list
    [.leaf (.symbol ⟨"lambda"⟩) lambda.headSpan,
      .group lambda.shape [.leaf (.symbol lambda.param) lambda.paramSpan] lambda.paramsSpan,
      lambda.body]
    lambda.span

theorem eval_lambda (ctx : Context) {name : Symbol}
    (resolved : ctx.lookup ⟨"lambda"⟩ = some (.builtin name .makeClosure)) (lambda : Lambda)
    (allowed : ctx.depth + 1 ≤ ctx.maxDepth) :
    eval lambda.node ctx = (.ok (.closure ctx.locals [lambda.param] lambda.body), ctx) := by
  unfold Lambda.node
  rw [eval_call_of_head allowed
    (eval_resolved (ctx.inside lambda.headSpan) resolved lambda.headSpan)]
  rfl

/-- Calling a closure of one parameter where it is made binds the parameter. -/
theorem eval_applied_lambda {name : Symbol}
    (resolved : ctx.lookup ⟨"lambda"⟩ = some (.builtin name .makeClosure)) (lambda : Lambda)
    (bound : Node) (nameSpan bindingSpan span : Span) (allowed : ctx.depth + 2 ≤ ctx.maxDepth) :
    eval (.group .list [lambda.node, bound] span) ctx =
      calling ctx.site
        (sequentially ctx.locals [⟨lambda.param, nameSpan, bound, bindingSpan⟩] lambda.body)
        ctx := by
  have made : eval lambda.node (ctx.inside lambda.node.span) = _ :=
    eval_lambda (ctx.inside lambda.node.span) resolved lambda (by simp only [Context.inside]; omega)
  rw [eval_call_of_head (by omega) made]
  have course : Course.apply ctx.terminal ctx.locals
      (.closure ctx.locals [lambda.param] lambda.body) [bound] =
        Course.bindings ctx.locals ([⟨lambda.param, nameSpan, bound, bindingSpan⟩].map Binding.node)
          >>= fun inner => Course.value inner lambda.body := rfl
  change calling _ ((Course.apply ctx.terminal ctx.locals
    (.closure ctx.locals [lambda.param] lambda.body) [bound]).act eval) ctx = _
  rw [course, act_bindings, (siteless_sequentially _ _ _).calling_eq _ ctx.site]

/-- A `let` of one binding is a closure that is called where it is made: both come to the same
value or error, and leave the same context. -/
theorem let_eq_applied_lambda {letName lambdaName : Symbol}
    (letResolved : ctx.lookup ⟨"let"⟩ = some (.builtin letName .bindLocals))
    (lambdaResolved : ctx.lookup ⟨"lambda"⟩ = some (.builtin lambdaName .makeClosure))
    (allowed : ctx.depth + 2 ≤ ctx.maxDepth) (binding : Binding) (lambda : Lambda)
    (same : lambda.param = binding.name) (headSpan letSpan callSpan : Span) :
    (eval (.group .list [.leaf (.symbol ⟨"let"⟩) headSpan, binding.node, lambda.body] letSpan)).run
        ctx =
      (eval (.group .list [lambda.node, binding.bound] callSpan)).run ctx := by
  have bound := eval_let letResolved (ungroup_bindings [binding]) lambda.body headSpan letSpan
    (by omega)
  have called := eval_applied_lambda lambdaResolved lambda binding.bound binding.nameSpan
    binding.span callSpan allowed
  rw [same] at called
  exact bound.trans called.symm

theorem let_eq_applied_lambda_closure :
    let here : Span := .emptyAt (.ofText "" none) 0
    let symbol (name : String) : Node := .leaf (.symbol ⟨name⟩) here
    let ctx := Context.fresh 2 false
    let binding : Binding := ⟨⟨"a"⟩, here, .group .list [symbol "vec", symbol "+"] here, here⟩
    let lambda : Lambda := ⟨.vector, ⟨"a"⟩, here, here,
      .group .list [symbol "lambda", .group .list [] here, symbol "a"] here, here, here⟩
    let letForm : Node := .group .list [symbol "let", binding.node, lambda.body] here
    let call : Node := .group .list [lambda.node, binding.bound] here
    (ctx.lookup ⟨"let"⟩ = some (.builtin ⟨"let"⟩ .bindLocals) ∧
      ctx.lookup ⟨"lambda"⟩ = some (.builtin ⟨"lambda"⟩ .makeClosure) ∧
      ctx.depth + 2 ≤ ctx.maxDepth ∧ lambda.param = binding.name) ∧
      (eval letForm).run ctx = (eval call).run ctx ∧
      ((eval letForm).run ctx).1.toOption.map Value.debug = some "<closure () over {a: [+]}>" := by
  intro here symbol ctx binding lambda letForm call
  refine ⟨⟨rfl, rfl, by decide, rfl⟩, ?_, by decide +kernel⟩
  exact @let_eq_applied_lambda ctx _ _ rfl rfl (by decide) binding lambda rfl here here here

/-- Both spellings of a `let` come to the same. Within the depth limit they evaluate, one call
deeper, what is bound in order under the locals made so far, up to the first error, and then the
body; beyond the limit they fail at the head. -/
theorem let_binds_in_order {name : Symbol}
    (resolved : ctx.lookup ⟨"let"⟩ = some (.builtin name .bindLocals)) (bindings : List Binding)
    (body : Node) (headSpan groupSpan flatSpan groupedSpan : Span) :
    let flat : Node := .group .list
      (.leaf (.symbol ⟨"let"⟩) headSpan :: (bindings.map Binding.node ++ [body])) flatSpan
    let grouped : Node := .group .list
      [.leaf (.symbol ⟨"let"⟩) headSpan, .group .list (bindings.map Binding.node) groupSpan, body]
      groupedSpan
    (eval flat).run ctx = (eval grouped).run ctx ∧
      (ctx.depth + 1 ≤ ctx.maxDepth → (eval flat).run ctx =
        (calling ctx.site (sequentially ctx.locals bindings body)).run ctx) ∧
      (ctx.maxDepth < ctx.depth + 1 → (eval flat).run ctx =
        (.error ⟨.depthExceeded ctx.maxDepth, headSpan⟩,
          ctx.record (.depthReached ctx.maxDepth headSpan))) := by
  have within := eval_let resolved (ungroup_bindings bindings) body headSpan flatSpan
  have grouped := eval_let resolved (ungroup_group bindings groupSpan) body headSpan groupedSpan
  refine ⟨?_, within, fun exceeded => eval_call_beyond exceeded _ _ _⟩
  by_cases allowed : ctx.depth + 1 ≤ ctx.maxDepth
  · exact (within allowed).trans (grouped allowed).symm
  · have exceeded : ctx.maxDepth < ctx.depth + 1 := Int.not_le.mp allowed
    exact (eval_call_beyond exceeded _ _ _).trans (eval_call_beyond exceeded _ _ _).symm

theorem let_binds_in_order_repeated :
    let here : Span := .emptyAt (.ofText "" none) 0
    let symbol (name : String) : Node := .leaf (.symbol ⟨name⟩) here
    let ctx := Context.fresh 2 false
    let bindings : List Binding :=
      [⟨⟨"a"⟩, here, .leaf (.bool true) here, here⟩,
        ⟨⟨"a"⟩, here, .group .list [symbol "vec", symbol "a"] here, here⟩]
    let flat : Node :=
      .group .list (symbol "let" :: (bindings.map Binding.node ++ [symbol "a"])) here
    let grouped : Node :=
      .group .list [symbol "let", .group .list (bindings.map Binding.node) here, symbol "a"] here
    ctx.lookup ⟨"let"⟩ = some (.builtin ⟨"let"⟩ .bindLocals) ∧
      (eval flat).run ctx = (eval grouped).run ctx ∧
      (eval flat).run ctx =
        (calling ctx.site (sequentially ctx.locals bindings (symbol "a"))).run ctx ∧
      ((eval flat).run ctx).1.toOption.map Value.display = some "[true]" := by
  intro here symbol ctx bindings flat grouped
  obtain ⟨spellings, ordered, -⟩ :=
    @let_binds_in_order ctx ⟨"let"⟩ rfl bindings (symbol "a") here here here here
  exact ⟨rfl, spellings, ordered (by decide), by decide +kernel⟩

/-- Where no further call is allowed, as for an argument of a call when the limit is one, a `let`
fails although what it binds and its body have values. -/
theorem let_stopped_by_limit :
    let here : Span := .emptyAt (.ofText "" none) 0
    let symbol (name : String) : Node := .leaf (.symbol ⟨name⟩) here
    let ctx := { Context.fresh 1 false with depth := 1 }
    let bindings : List Binding := [⟨⟨"a"⟩, here, .leaf (.bool true) here, here⟩]
    let flat : Node :=
      .group .list (symbol "let" :: (bindings.map Binding.node ++ [symbol "a"])) here
    ctx.lookup ⟨"let"⟩ = some (.builtin ⟨"let"⟩ .bindLocals) ∧
      ((eval flat).run ctx).1 = .error ⟨.depthExceeded 1, here⟩ ∧
      ((sequentially ctx.locals bindings (symbol "a")).run ctx).1 = .ok (.bool true) ∧
      ((eval (.group .list [symbol "vec", flat] here)).run (Context.fresh 1 false)).1 =
        .error ⟨.depthExceeded 1, here⟩ := by
  intro here symbol ctx bindings flat
  exact ⟨rfl, rfl, rfl, rfl⟩

end Eval
end Lisplet
