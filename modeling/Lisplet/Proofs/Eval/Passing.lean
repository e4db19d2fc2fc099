import Lisplet.Proofs.Eval.Levels

/-!
Evaluation without a context. The locals, the head to blame and the depth are handed on as
values, and only the globals are passed through. The evaluation on a context comes to the same
value or error and the same globals, and an error is blamed on the head of the innermost call
that is still in progress when it is raised.
-/

namespace Lisplet

/-- What evaluation tells apart: a name, a call, and what stands for itself. -/
inductive Node.Form : Node → Prop where
  | symbol (name : Symbol) (span : Span) : Form (.leaf (.symbol name) span)
  | call (head : Node) (args : List Node) (span : Span) : Form (.group .list (head :: args) span)
  | datum {node} : (∀ name span, node ≠ .leaf (.symbol name) span) →
      (∀ head args span, node ≠ .group .list (head :: args) span) → Form node

theorem Node.form : ∀ node : Node, node.Form
  | .leaf (.symbol name) span => .symbol name span
  | .group .list (head :: args) span => .call head args span
  | .leaf (.number _) _ | .leaf (.bool _) _ | .leaf (.string _) _ | .leaf (.char _) _
  | .leaf (.keyword _) _ | .leaf .nil _ | .group .list [] _ | .group .vector _ _ =>
    .datum nofun nofun

/-- What holds for a whole session. -/
structure Settings where
  maxDepth : Int
  terminal : Bool

/-- Where an evaluation takes place: the locals in force, the head of the innermost call in
progress, and how many calls are in progress. -/
structure Frame where
  locals : Scope Value
  site : Span
  depth : Nat

namespace Context

def settings (ctx : Context) : Settings := ⟨ctx.maxDepth, ctx.terminal⟩

def frame (ctx : Context) : Frame := ⟨ctx.locals, ctx.site, ctx.depth⟩

theorem Restored.settings {before after : Context} (kept : before.Restored after) :
    after.settings = before.settings := by
  rw [Context.settings, kept.maxDepth, kept.terminal]
  rfl

end Context

/-- An action that passes the globals through. -/
abbrev Threaded (α : Type) : Type := Scope Value → Except EvalError α × Scope Value

namespace Course

variable {α : Type}

/-- Carries out a course on the globals alone. Faults are blamed on `site`. -/
def thread (ev : Scope Value → Node → Threaded Value) (site : Span) : Course α → Threaded α
  | done a => fun globals => (.ok a, globals)
  | fault f => fun globals => (.error ⟨f, site⟩, globals)
  | ask locals node next => fun globals =>
    match ev locals node globals with
    | (.ok v, globals) => (next v).thread ev site globals
    | (.error e, globals) => (.error e, globals)
  | define name value next => fun globals => next.thread ev site (globals.define name value)
  | report _ next => next.thread ev site
  | print _ next => next.thread ev site

end Course

namespace Frame

/-- The frame of what a call evaluates: its head is to blame, and it is one level deeper. -/
def inside (frame : Frame) (head : Node) (locals : Scope Value) : Frame :=
  ⟨locals, head.span, frame.depth + 1⟩

/-- Evaluates a node in a frame. -/
def eval (settings : Settings) (frame : Frame) : Node → Threaded Value
  | .leaf (.symbol name) span => fun globals =>
    match frame.locals.lookup name with
    | some value => (.ok value, globals)
    | none =>
      match globals.lookup name with
      | some value => (.ok value, globals)
      | none => (.error ⟨.unknownSymbol name, span⟩, globals)
  | .group .list (head :: args) _ => fun globals =>
    if settings.maxDepth < (frame.depth + 1 : Nat) then
      (.error ⟨.depthExceeded settings.maxDepth, head.span⟩, globals)
    else
      match eval settings (frame.inside head frame.locals) head globals with
      | (.ok f, globals) =>
        (Course.apply settings.terminal frame.locals f args).thread
          (fun locals node => eval settings (frame.inside head locals) node) head.span globals
      | (.error e, globals) => (.error e, globals)
  | node => fun globals => (.ok node.toValue, globals)
termination_by (settings.maxDepth - frame.depth).toNat
decreasing_by all_goals simp only [inside]; omega

theorem eval_symbol (settings : Settings) (frame : Frame) (name : Symbol) (span : Span)
    (globals : Scope Value) :
    frame.eval settings (.leaf (.symbol name) span) globals =
      (match (frame.locals.lookup name).or (globals.lookup name) with
        | some value => .ok value
        | none => .error ⟨.unknownSymbol name, span⟩, globals) := by
  rw [eval]
  cases frame.locals.lookup name with
  | some value => rfl
  | none =>
    dsimp only
    cases globals.lookup name with
    | some value => rfl
    | none => rfl

/-- What is neither a name nor a call gives itself. -/
theorem eval_datum {settings : Settings} {frame : Frame} {node : Node}
    (notSymbol : ∀ name span, node ≠ .leaf (.symbol name) span)
    (notCall : ∀ head args span, node ≠ .group .list (head :: args) span)
    (globals : Scope Value) :
    frame.eval settings node globals = (.ok node.toValue, globals) := by
  rw [eval]
  · exact notSymbol
  · exact notCall

theorem eval_call (settings : Settings) (frame : Frame) (head : Node) (args : List Node)
    (span : Span) :
    frame.eval settings (.group .list (head :: args) span) =
      (Course.call settings.maxDepth settings.terminal frame.locals (frame.depth + 1) head
        args).thread (fun locals node => eval settings (frame.inside head locals) node)
          head.span := by
  funext globals
  rw [eval]
  unfold Course.call
  split
  · rfl
  · simp only [bind, Course.bind, Course.value, Course.thread]

/-- To prove something of every node in every frame, prove it of a call from what holds inside the
call, if the limit allows it. -/
theorem induction (settings : Settings) {motive : Frame → Node → Prop}
    (symbol : ∀ frame name span, motive frame (.leaf (.symbol name) span))
    (call : ∀ frame head args span,
      (¬settings.maxDepth < (frame.depth + 1 : Nat) →
        ∀ locals node, motive (frame.inside head locals) node) →
      motive frame (.group .list (head :: args) span))
    (datum : ∀ frame node, (∀ name span, node ≠ .leaf (.symbol name) span) →
      (∀ head args span, node ≠ .group .list (head :: args) span) → motive frame node)
    (frame : Frame) (node : Node) : motive frame node := by
  induction measured : (settings.maxDepth - frame.depth).toNat using Nat.strongRecOn
    generalizing frame node with
  | ind levels ih =>
    cases node.form with
    | symbol name span => exact symbol frame name span
    | call head args span =>
      refine call frame head args span fun allowed locals node => ih _ ?_ _ node rfl
      simp only [inside]
      omega
    | datum notSymbol notCall => exact datum frame node notSymbol notCall

end Frame

namespace Course

variable {α : Type} {ev : Eval.Evaluator} {ref : Scope Value → Node → Threaded Value}

/-- The step lemma of the refinement: where a context is in the frame of a call, a course comes to
the same whether it is acted out on the context or on the globals alone. -/
theorem thread_eq_act (call : Context) (restores : ∀ node, (ev node).Restores)
    (agrees : ∀ (locals : Scope Value) (node : Node) (ctx : Context), call.Restored ctx →
      ref locals node ctx.globals =
        ((Eval.withLocals locals (ev node) ctx).1,
          (Eval.withLocals locals (ev node) ctx).2.globals))
    (c : Course α) (ctx : Context) (here : call.Restored ctx) :
    c.thread ref call.site ctx.globals = ((c.act ev ctx).1, (c.act ev ctx).2.globals) := by
  induction c generalizing ctx with
  | done a => rfl
  | fault f =>
    change ((.error ⟨f, call.site⟩, ctx.globals) : Except EvalError α × Scope Value) = _
    rw [← here.site]
    rfl
  | ask locals node next ih =>
    have kept := (restores node).withLocals locals ctx
    have asked := agrees locals node ctx here
    simp only [thread, act, bind, Eval.bind, asked]
    generalize Eval.withLocals locals (ev node) ctx = outcome at kept ⊢
    rcases outcome with ⟨_ | v, after⟩
    · rfl
    · exact ih v after (here.trans kept)
  | define name value next ih =>
    exact ih { ctx with globals := ctx.globals.define name value }
      (here.trans ⟨rfl, rfl, rfl, rfl, rfl⟩)
  | report event next ih => exact ih (ctx.record event) (here.trans ⟨rfl, rfl, rfl, rfl, rfl⟩)
  | print line next ih =>
    exact ih { ctx with printed := ctx.printed ++ line ++ Eval.lineEnd }
      (here.trans ⟨rfl, rfl, rfl, rfl, rfl⟩)

end Course

namespace Eval

/-- The run lemma of the refinement. -/
theorem eval_passes (node : Node) (ctx : Context) :
    ctx.frame.eval ctx.settings node ctx.globals =
      ((eval node ctx).1, (eval node ctx).2.globals) := by
  induction measured : (ctx.maxDepth - ctx.depth).toNat using Nat.strongRecOn
    generalizing node ctx with
  | ind levels ih =>
    rw [eval_eq_evalNode]
    fun_cases evalNode eval node with
    | case1 name span =>
      rw [Frame.eval_symbol]
      simp only [bind, Eval.bind, context, Context.lookup, Context.frame]
      cases ctx.locals.lookup name with
      | some value => rfl
      | none =>
        simp only
        cases ctx.globals.lookup name with
        | some value => rfl
        | none => rfl
    | case2 head args span =>
      rw [Frame.eval_call, dispatch_eq eval_restored]
      by_cases exceeded : ctx.maxDepth < (ctx.depth + 1 : Nat)
      · change (Course.call ctx.maxDepth ctx.terminal ctx.locals (ctx.depth + 1) head args).thread
          _ _ _ = _
        rw [Course.call_exceeded exceeded]
        rfl
      · refine Course.thread_eq_act { ctx with site := head.span, depth := ctx.depth + 1 }
          eval_restored (fun locals node inner here => ?_) _ _ (.refl _)
        have settled : inner.settings = ctx.settings := here.settings
        have framed : ({ inner with locals := locals } : Context).frame =
            ctx.frame.inside head locals := by
          rw [Context.frame, here.site, here.depth]
          rfl
        have deeper : (inner.maxDepth - inner.depth).toNat < levels := by
          rw [here.maxDepth, here.depth]
          dsimp only
          omega
        rw [← settled, ← framed]
        exact ih _ deeper node { inner with locals := locals } rfl
    | case3 node notSymbol notCall =>
      exact Frame.eval_datum notSymbol notCall ctx.globals

end Eval
end Lisplet
