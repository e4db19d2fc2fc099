import Lisplet.Proofs.Eval.Within
import Lisplet.Proofs.Kept

/-!
Globals only grow, and they change only by name. No evaluation, wherever it breaks off, takes a name
away or moves it, and the names that it defines can be read beforehand: they are written in the node
or in the body of a function or closure that the context can get hold of.
-/

namespace Lisplet

namespace Scope

variable {α : Type} {names : Symbol → Prop} {before between after : Scope α}

/-- What becomes of a scope while names of a kind are defined. The names that were bound stand
first, in their order, and names of the kind alone are bound otherwise than before. -/
structure Grows (names : Symbol → Prop) (before after : Scope α) : Prop where
  bound : ∀ name, before.contains name → after.contains name
  order : before.keys <+: after.keys
  named : ∀ name, after.lookup name ≠ before.lookup name → names name

theorem Grows.refl (scope : Scope α) : scope.Grows names scope := by
  constructor
  · exact fun name bound => bound
  · exact List.prefix_refl _
  · exact fun name changed => absurd rfl changed

theorem Grows.trans (first : before.Grows names between) (second : between.Grows names after) :
    before.Grows names after := by
  constructor
  · exact fun name bound => second.bound name (first.bound name bound)
  · exact first.order.trans second.order
  · intro name changed
    by_cases same : between.lookup name = before.lookup name
    · exact second.named name (same ▸ changed)
    · exact first.named name same

theorem grows_define (scope : Scope α) {name : Symbol} (kind : names name) (a : α) :
    scope.Grows names (scope.define name a) := by
  constructor
  · intro key bound
    rw [contains, lookup_define]
    split
    · rfl
    · exact bound
  · rw [keys_define]
    split
    · exact List.prefix_refl _
    · exact List.prefix_append _ _
  · intro key changed
    rw [lookup_define] at changed
    split at changed
    · rename_i same
      exact same ▸ kind
    · exact absurd rfl changed

end Scope

namespace Machine

variable {names : Symbol → Prop} {state : State}

/-- The step lemma of growth: a step defines one name or none. -/
theorem State.Within.grows (within : state.Within names) (settings : Settings) :
    state.globals.Grows names (state.step settings).globals := by
  obtain ⟨waiting, task, globals⟩ := state
  cases task with
  | evaluate frame node => exact .refl _
  | proceed call course =>
    cases course with
    | define name v next => exact globals.grows_define within.task.1 v
    | done v | fault f | ask locals node next | report event next | print line next =>
      exact .refl _
  | give outcome =>
    rcases waiting with _ | ⟨w, waiting⟩
    · rw [State.step]
      exact .refl _
    · cases outcome with
      | error e => exact .refl _
      | ok v => exact .refl _

/-- The run lemma of growth. -/
theorem State.Within.grows_after (within : state.Within names) (settings : Settings)
    (steps : Nat) : state.globals.Grows names (state.after settings steps).globals := by
  induction steps with
  | zero => exact .refl _
  | succ steps ih => exact ih.trans ((within.after settings steps).grows settings)

end Machine

namespace Operation

/-- The names of the operations, in the order in which a fresh session binds them. -/
def names : List Symbol := table.map fun entry => ⟨entry.1⟩

theorem keys_globals : globals.keys = names := rfl

end Operation

namespace Context

/-- A global or local name is bound to a value that has a function or closure with that body. -/
def HasBody (ctx : Context) (body : Node) : Prop :=
  ∃ entry, (entry ∈ ctx.globals.entries ∨ entry ∈ ctx.locals.entries) ∧ entry.2.HasBody body

/-- The name is a symbol in the node, or in a body that the context has. -/
def Mentions (ctx : Context) (node : Node) (name : Symbol) : Prop :=
  name ∈ node.mentioned ∨ ∃ body, ctx.HasBody body ∧ name ∈ body.mentioned

variable (ctx : Context) (node : Node)

theorem start_within :
    (Machine.start ctx.frame node ctx.globals).Within (ctx.Mentions node) := by
  refine ⟨nofun, ⟨?_, fun name mentions => .inl mentions⟩, ?_⟩
  · exact fun entry bound body holds name mentions =>
      .inr ⟨body, ⟨entry, .inr bound, holds⟩, mentions⟩
  · exact fun entry bound body holds name mentions =>
      .inr ⟨body, ⟨entry, .inl bound, holds⟩, mentions⟩

theorem exists_ended :
    ∃ steps, (Machine.start ctx.frame node ctx.globals).after ctx.settings steps =
      Machine.ended (((Eval.eval node).run ctx).1, ((Eval.eval node).run ctx).2.globals) := by
  have ends := Machine.reaches_outcome ctx.settings ctx.frame node [] ctx.globals
  rw [Eval.eval_passes] at ends
  exact ends

theorem grows_eval :
    ctx.globals.Grows (ctx.Mentions node) ((Eval.eval node).run ctx).2.globals := by
  obtain ⟨steps, ends⟩ := ctx.exists_ended node
  have grows := (ctx.start_within node).grows_after ctx.settings steps
  rw [ends] at grows
  exact grows

theorem maintains_operations (node : Node) :
    (Eval.eval node).Maintains (fun ctx => Operation.names <+: ctx.globals.keys)
      (fun _ => True) fun _ => True := by
  intro ctx start
  refine ⟨fun _ _ => trivial, fun _ _ => trivial, ?_⟩
  exact start.trans (ctx.grows_eval node).order

theorem maintains_operations_under (locals : Scope Value) (node : Node) :
    (Eval.withLocals locals (Eval.eval node)).Maintains
      (fun ctx => Operation.names <+: ctx.globals.keys) (fun _ => True) fun _ => True := by
  intro ctx start
  have ends := maintains_operations node { ctx with locals := locals } start
  exact ⟨ends.value, ends.error, ends.context⟩

/-- Whatever a session is asked for, the operations stay bound, before all other names. -/
theorem operations_kept (maxDepth : Int) (terminal : Bool) (requests : List Request) :
    Operation.names <+: ((fresh maxDepth terminal).afterAll requests).globals.keys := by
  have start : Operation.names <+: Operation.globals.keys := by
    refine ⟨[], ?_⟩
    rw [List.append_nil, Operation.keys_globals]
  have each : ∀ request ∈ requests, ∀ x, request.Evaluates x →
      x.Maintains (fun ctx => Operation.names <+: ctx.globals.keys) (fun _ => True)
        fun _ => True := by
    intro request _ x asked
    cases request with
    | run source | value source =>
      obtain ⟨_, -, node, -, rfl⟩ := asked
      exact maintains_operations node
    | valueUnder locals source =>
      obtain ⟨_, -, node, -, rfl⟩ := asked
      exact maintains_operations_under locals node
    | nodeUnder locals node =>
      cases asked
      exact maintains_operations_under locals node
  exact afterAll_kept (fun _ _ kept => kept) start each trivial

end Context

namespace Eval

variable {ev : Evaluator} {args : List Node} {ctx after : Context} {e : EvalError}

/-- A function is defined last, so a call that fails has not defined it. -/
theorem defineFunction_failed (failed : defineFunction args ctx = (.error e, after)) :
    after = ctx := by
  rcases args with _ | ⟨nameNode, _ | ⟨paramsNode, _ | ⟨body, _ | ⟨other, args⟩⟩⟩⟩
  · cases failed
    rfl
  · cases failed
    rfl
  · cases failed
    rfl
  · change (needName nameNode >>= fun name => needParams paramsNode >>= _) ctx = _ at failed
    unfold needName needParams at failed
    cases named : nameNode.symbol? with
    | none =>
      rw [named] at failed
      cases failed
      rfl
    | some name =>
      rw [named] at failed
      cases listed : paramsNode.symbols? with
      | none =>
        rw [listed] at failed
        cases failed
        rfl
      | some params =>
        rw [listed] at failed
        cases failed
  · cases failed
    rfl

/-- A constant is defined last, so a call that fails leaves what the evaluation of its value has
left, if it gets that far. -/
theorem defineConstant_failed (failed : defineConstant ev args ctx = (.error e, after)) :
    (∀ target place bound, args = [.leaf (.symbol target) place, bound] →
      after = (ev bound ctx).2) ∧
    ((∀ target place bound, args ≠ [.leaf (.symbol target) place, bound]) → after = ctx) := by
  constructor
  · rintro target place bound rfl
    change (ev bound >>= fun v => _) ctx = _ at failed
    rcases found : ev bound ctx with ⟨e' | v, between⟩
    · rw [bind_of_error found] at failed
      cases failed
      rfl
    · rw [bind_of_ok found] at failed
      cases failed
  · intro other
    rcases args with _ | ⟨nameNode, _ | ⟨bound, _ | ⟨more, args⟩⟩⟩
    · cases failed
      rfl
    · cases failed
      rfl
    · change (needName nameNode >>= fun name => _) ctx = _ at failed
      unfold needName at failed
      cases named : nameNode.symbol? with
      | none =>
        rw [named] at failed
        cases failed
        rfl
      | some name =>
        obtain ⟨place, rfl⟩ := Node.eq_leaf_of_symbol? named
        exact absurd rfl (other name place bound)
    · cases failed
      rfl

/-- What a call comes to is what applying the value of its head has come to. -/
theorem Calls.exists_applied {head : Node} {f : Value} {called : Context}
    (calls : Calls ctx head f called) {span : Span}
    (failed : (eval (.group .list (head :: args) span)).run ctx = (.error e, after)) :
    ∃ inner, apply eval f args called = (.error e, inner) ∧ after.globals = inner.globals := by
  rcases applied : apply eval f args called with ⟨result, inner⟩
  have same := (calls.eval_eq applied span).symm.trans failed
  cases same
  exact ⟨inner, rfl, rfl⟩

end Eval

/-- Globals only grow, and change only by name. In every context an evaluation, whatever comes of
it, leaves all names bound and in their order, and so does each of its steps; and each definition
on the way is of a name that is a symbol in the node or in a body that the context has. In a session
the operations are bound before all other names. A call of `fn` or `const` that fails has defined
nothing itself: the globals are as its arguments have left them, so far as they were evaluated. -/
theorem Context.globals_grow_by_name :
    (∀ (ctx : Context) (node : Node),
      let machine := (Machine.start ctx.frame node ctx.globals).after ctx.settings
      let outcome := (Eval.eval node).run ctx
      ctx.globals.Grows (ctx.Mentions node) outcome.2.globals ∧
      (∃ steps, machine steps = Machine.ended (outcome.1, outcome.2.globals)) ∧
      ∀ steps, ctx.globals.Grows (ctx.Mentions node) (machine steps).globals ∧
        ∀ call name v next, (machine steps).task = .proceed call (.define name v next) →
          ctx.Mentions node name) ∧
    (∀ (maxDepth : Int) (terminal : Bool) (requests : List Request),
      Operation.names <+: ((fresh maxDepth terminal).afterAll requests).globals.keys) ∧
    ∀ (ctx : Context) (head : Node) (args : List Node) (span : Span) (e : EvalError)
      (after : Context),
      (Eval.eval (.group .list (head :: args) span)).run ctx = (.error e, after) →
      (∀ name called, Eval.Calls ctx head (.builtin name .defineFunction) called →
        after.globals = called.globals) ∧
      (∀ name called, Eval.Calls ctx head (.builtin name .defineConstant) called →
        (∀ target place bound, args = [.leaf (.symbol target) place, bound] →
          after.globals = ((Eval.eval bound).run called).2.globals) ∧
        ((∀ target place bound, args ≠ [.leaf (.symbol target) place, bound]) →
          after.globals = called.globals)) ∧
      (ctx.maxDepth < ctx.depth + 1 → after.globals = ctx.globals) := by
  refine ⟨fun ctx node => ?_, operations_kept, ?_⟩
  · intro machine outcome
    have within := ctx.start_within node
    refine ⟨ctx.grows_eval node, ctx.exists_ended node, fun steps => ⟨?_, ?_⟩⟩
    · exact within.grows_after ctx.settings steps
    · intro call name v next defining
      have now := (within.after ctx.settings steps).task
      rw [defining] at now
      exact now.1
  · intro ctx head args span e after failed
    refine ⟨fun name called calls => ?_, fun name called calls => ?_, fun exceeded => ?_⟩
    · obtain ⟨inner, applied, same⟩ := calls.exists_applied failed
      rw [same, Eval.defineFunction_failed applied]
    · obtain ⟨inner, applied, same⟩ := calls.exists_applied failed
      obtain ⟨evaluated, untouched⟩ := Eval.defineConstant_failed applied
      rw [same]
      constructor
      · intro target place bound shape
        rw [evaluated target place bound shape]
        rfl
      · intro other
        rw [untouched other]
    · rw [Eval.run, Eval.eval_call_beyond exceeded] at failed
      cases failed
      rfl

/-- A function is defined under another name of `fn`, and calls of `fn` and `const` that fail. -/
theorem Context.globals_grow_by_name_alias :
    let here : Span := .emptyAt (.ofText "" none) 0
    let symbol (name : String) : Node := .leaf (.symbol ⟨name⟩) here
    let call (nodes : List Node) : Node := .group .list nodes here
    let make : Value := .builtin ⟨"fn"⟩ .defineFunction
    let ctx := { fresh 5 false with locals := ⟨[(⟨"make"⟩, make)]⟩ }
    let node := call [symbol "make", symbol "f", .group .vector [] here, symbol "g"]
    let machine := (Machine.start ctx.frame node ctx.globals).after ctx.settings
    let called := ctx.inside here
    let beyond := { ctx with maxDepth := 0 }
    let globals (nodes : List Node) := ((Eval.eval (call nodes)).run ctx).2.globals
    ctx.globals.Grows (ctx.Mentions node) ((Eval.eval node).run ctx).2.globals ∧
      (∃ inner v next, (machine 4).task = .proceed inner (.define ⟨"f"⟩ v next)) ∧
      ctx.Mentions node ⟨"f"⟩ ∧
      globals [symbol "make", symbol "f"] = called.globals ∧
      globals [symbol "const", symbol "f"] = called.globals ∧
      globals [symbol "const", symbol "f", symbol "g"] =
        ((Eval.eval (symbol "g")).run called).2.globals ∧
      ((Eval.eval node).run beyond).2.globals = beyond.globals := by
  intro here symbol call make ctx node machine called beyond globals
  obtain ⟨evaluations, -, failures⟩ := globals_grow_by_name
  obtain ⟨grows, -, defines⟩ := evaluations ctx node
  have function : Eval.Calls ctx (symbol "make") make called := ⟨by decide, rfl⟩
  have constant : Eval.Calls ctx (symbol "const") (.builtin ⟨"const"⟩ .defineConstant) called :=
    ⟨by decide, rfl⟩
  refine ⟨grows, ⟨_, _, _, rfl⟩, (defines 4).2 _ _ _ _ rfl, ?_, ?_, ?_, ?_⟩
  · exact (failures ctx (symbol "make") [symbol "f"] here _ _ rfl).1 _ called function
  · refine ((failures ctx (symbol "const") [symbol "f"] here _ _ rfl).2.1 _ called constant).2 ?_
    rintro target place bound ⟨⟩
  · exact ((failures ctx (symbol "const") [symbol "f", symbol "g"] here _ _ rfl).2.1 _ called
      constant).1 ⟨"f"⟩ here (symbol "g") rfl
  · exact (failures beyond (symbol "make") [symbol "f", .group .vector [] here, symbol "g"] here _ _
      rfl).2.2 (by decide)

end Lisplet
