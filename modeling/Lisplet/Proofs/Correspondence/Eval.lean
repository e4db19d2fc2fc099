import Lisplet.Proofs.Correspondence.Course
import Lisplet.Proofs.Eval.Passing

/-!
Evaluations that run side by side. Under the same settings and at the same depth, corresponding
nodes come to corresponding values or fail alike at corresponding places, and what they have
defined corresponds.
-/

namespace Lisplet
namespace Correspondence

/-- The same fault at corresponding places. The depth limit is the same number on both sides. -/
inductive Error (K : Correspondence) : EvalError → EvalError → Prop where
  | fault {f f' : EvalFault} {s s' : Span} : f.Matched K.value f' → K.span s s' →
      K.Error ⟨f, s⟩ ⟨f', s'⟩
  | depth (limit : Int) {s s' : Span} : K.span s s' →
      K.Error ⟨.depthExceeded limit, s⟩ ⟨.depthExceeded limit, s'⟩

/-- Both evaluations give what is alike, and so are the globals that they have reached. -/
inductive Outcome (K : Correspondence) {α α' : Type} (good : α → α' → Prop) :
    Except EvalError α × Scope Value → Except EvalError α' × Scope Value → Prop where
  | ok {a : α} {a' : α'} {globals globals' : Scope Value} : good a a' →
      K.scope globals globals' → K.Outcome good (.ok a, globals) (.ok a', globals')
  | error {e e' : EvalError} {globals globals' : Scope Value} : K.Error e e' →
      K.scope globals globals' → K.Outcome good (.error e, globals) (.error e', globals')

end Correspondence

variable {K : Correspondence} {globals globals' : Scope Value}

/-- The step lemma: corresponding courses have corresponding outcomes, if the evaluations that they
ask for do. -/
theorem Course.Corresponds.thread {α α' : Type} {good : α → α' → Prop} {c : Course α}
    {c' : Course α'} {ev ev' : Scope Value → Node → Threaded Value} {site site' : Span}
    (same : c.Corresponds K good c')
    (each : ∀ {locals locals' n n' globals globals'}, K.node locals locals' n n' →
      K.scope globals globals' → K.Outcome K.value (ev locals n globals) (ev' locals' n' globals'))
    (place : K.span site site') (both : K.scope globals globals') :
    K.Outcome good (c.thread ev site globals) (c'.thread ev' site' globals') := by
  induction same generalizing globals globals' with
  | done same => exact .ok same both
  | fault same => exact .error (.fault same place) both
  | @ask locals locals' n n' next next' asked _ ih =>
    have outcome := each asked both
    simp only [Course.thread]
    generalize ev locals n globals = found, ev' locals' n' globals' = found' at outcome ⊢
    cases outcome with
    | ok same both => exact ih _ _ same both
    | error same both => exact .error same both
  | define name same _ ih => exact ih (both.define name same)
  | report event event' _ ih => exact ih both
  | print line _ ih => exact ih both

/-- What a name means corresponds, whether it is bound in the locals or in the globals. -/
theorem Correspondence.resolve {locals locals' : Scope Value} {name : Symbol}
    (here : Option.Rel K.value (locals.lookup name) (locals'.lookup name))
    (both : K.scope globals globals') :
    Option.Rel K.value ((locals.lookup name).or (globals.lookup name))
      ((locals'.lookup name).or (globals'.lookup name)) := by
  generalize locals.lookup name = found, locals'.lookup name = found' at here ⊢
  cases here with
  | some same => exact .some same
  | none => exact both.lookup name

/-- The run lemma. A call that the limit allows has corresponding courses on both sides, and one
that it does not allow fails on both. -/
theorem Frame.eval_corresponds (settings : Settings) {frame frame' : Frame} {n n' : Node}
    (both : K.node frame.locals frame'.locals n n') (deep : frame.depth = frame'.depth)
    (start : K.scope globals globals') :
    K.Outcome K.value (frame.eval settings n globals) (frame'.eval settings n' globals') := by
  induction frame, n using Frame.induction settings generalizing frame' n' globals globals' with
  | symbol frame name span =>
    cases K.matched both with
    | leaf place bound =>
      rw [eval_symbol, eval_symbol]
      have found := K.resolve (bound name rfl) start
      generalize (frame.locals.lookup name).or (globals.lookup name) = v,
        (frame'.locals.lookup name).or (globals'.lookup name) = v' at found ⊢
      cases found with
      | some same => exact .ok same start
      | none => exact .error (.fault (.unknownSymbol name) place) start
  | call frame head args span ih =>
    cases K.matched both with
    | group _ _ items =>
      cases items with
      | cons callee arguments =>
        have place := K.span_of_node callee
        rw [eval_call, eval_call, ← deep]
        by_cases exceeded : settings.maxDepth < (frame.depth + 1 : Nat)
        · rw [Course.call_exceeded exceeded, Course.call_exceeded exceeded]
          exact .error (.depth settings.maxDepth place) start
        · have same := Course.corresponds_call arguments callee settings.maxDepth
            settings.terminal (frame.depth + 1) exceeded
          refine same.thread (fun asked start => ih exceeded _ _ asked ?_ start) place start
          simp only [inside, deep]
  | datum frame n notSymbol notCall =>
    have notSymbol' : ∀ name span, n' ≠ .leaf (.symbol name) span := by
      rintro name span rfl
      cases K.matched both
      exact notSymbol _ _ rfl
    have notCall' : ∀ head args span, n' ≠ .group .list (head :: args) span := by
      rintro head args span rfl
      cases K.matched both with
      | group _ _ items =>
        cases items
        exact notCall _ _ _ rfl
    rw [eval_datum notSymbol notCall, eval_datum notSymbol' notCall']
    exact .ok (K.toValue both) start

/-- What an action comes to: its value or error, and the globals that it leaves. -/
def Eval.outcome {α : Type} (x : Eval α) (ctx : Context) : Except EvalError α × Scope Value :=
  ((x.run ctx).1, (x.run ctx).2.globals)

theorem Eval.eval_corresponds {ctx ctx' : Context} {n n' : Node}
    (both : K.node ctx.locals ctx'.locals n n') (settings : ctx.settings = ctx'.settings)
    (deep : ctx.depth = ctx'.depth) (start : K.scope ctx.globals ctx'.globals) :
    K.Outcome K.value ((eval n).outcome ctx) ((eval n').outcome ctx') := by
  unfold outcome run
  rw [← eval_passes, ← eval_passes, ← settings]
  exact Frame.eval_corresponds ctx.settings both deep start

/-- A call of a value follows its course, whose evaluations see nothing of the context but the
globals. -/
theorem Eval.apply_passes (f : Value) (args : List Node) (ctx : Context) :
    (Course.apply ctx.terminal ctx.locals f args).thread
        (fun locals => Frame.eval ctx.settings ⟨locals, ctx.site, ctx.depth⟩) ctx.site ctx.globals =
      (apply eval f args).outcome ctx := by
  unfold outcome run
  rw [follows_apply eval_restored f args ctx rfl rfl]
  refine Course.thread_eq_act ctx eval_restored (fun locals node inner here => ?_) _ ctx (.refl ctx)
  rw [← here.settings, ← here.site, ← here.depth]
  exact eval_passes node { inner with locals := locals }

theorem Eval.apply_corresponds {ctx ctx' : Context} {f f' : Value} {args args' : List Node}
    (callee : K.value f f') (each : List.Forall₂ (K.node ctx.locals ctx'.locals) args args')
    (settings : ctx.settings = ctx'.settings) (deep : ctx.depth = ctx'.depth)
    (place : K.span ctx.site ctx'.site) (start : K.scope ctx.globals ctx'.globals) :
    K.Outcome K.value ((apply eval f args).outcome ctx) ((apply eval f' args').outcome ctx') := by
  have terminal : ctx.terminal = ctx'.terminal := congrArg Settings.terminal settings
  rw [← apply_passes, ← apply_passes, ← settings, ← terminal]
  refine (Course.corresponds_apply each callee ctx.terminal).thread (fun both start => ?_)
    place start
  exact Frame.eval_corresponds ctx.settings both deep start

end Lisplet
