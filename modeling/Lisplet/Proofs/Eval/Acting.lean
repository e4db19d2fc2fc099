import Lisplet.Proofs.Eval.Course

/-!
Every call acts out its course. An action may change the locals on its way, but what it does is
what its course does to a context whose locals never change, provided that the evaluation of
nodes puts back what it found. That proviso is kept by acting out a course.
-/

namespace Lisplet

/-- What an evaluation leaves as it found it, whatever it comes to. -/
structure Context.Restored (before after : Context) : Prop where
  locals : after.locals = before.locals
  site : after.site = before.site
  depth : after.depth = before.depth
  maxDepth : after.maxDepth = before.maxDepth
  terminal : after.terminal = before.terminal

namespace Context.Restored

variable {a b c : Context}

theorem refl (ctx : Context) : ctx.Restored ctx := ⟨rfl, rfl, rfl, rfl, rfl⟩

theorem trans (first : a.Restored b) (second : b.Restored c) : a.Restored c :=
  ⟨second.locals.trans first.locals, second.site.trans first.site,
    second.depth.trans first.depth, second.maxDepth.trans first.maxDepth,
    second.terminal.trans first.terminal⟩

end Context.Restored

namespace Eval

variable {α β γ : Type}

theorem bind_of_ok {x : Eval α} {ctx after : Context} {a : α} (result : x ctx = (.ok a, after))
    (f : α → Eval β) : (x >>= f) ctx = f a after := by
  change Eval.bind x f ctx = _
  rw [Eval.bind, result]

theorem bind_of_error {x : Eval α} {ctx after : Context} {e : EvalError}
    (result : x ctx = (.error e, after)) (f : α → Eval β) :
    (x >>= f) ctx = (.error e, after) := by
  change Eval.bind x f ctx = _
  rw [Eval.bind, result]

def Restores (x : Eval α) : Prop := ∀ ctx : Context, ctx.Restored (x ctx).2

theorem Restores.outcome {x : Eval α} {ctx after : Context} {result : Except EvalError α}
    (restores : x.Restores) (evaluated : x ctx = (result, after)) : ctx.Restored after := by
  have kept := restores ctx
  rwa [evaluated] at kept

theorem Restores.bind {x : Eval α} {f : α → Eval β} (first : x.Restores)
    (next : ∀ a, (f a).Restores) : (x >>= f).Restores := by
  intro ctx
  rcases result : x ctx with ⟨e | a, after⟩
  · rw [bind_of_error result]
    exact first.outcome result
  · rw [bind_of_ok result]
    exact (first.outcome result).trans (next a after)

/-- A change of locals ends with the action, and nothing else is hidden. -/
theorem Restores.withLocals {x : Eval α} (inner : x.Restores) (locals : Scope Value) :
    (withLocals locals x).Restores := by
  intro ctx
  have kept := inner { ctx with locals := locals }
  exact ⟨rfl, kept.site, kept.depth, kept.maxDepth, kept.terminal⟩

theorem Restores.calling {x : Eval α} (inner : x.Restores) (head : Span) :
    (calling head x).Restores := by
  intro ctx
  have kept := inner { ctx with site := head, depth := ctx.depth + 1 }
  refine ⟨kept.locals, rfl, ?_, kept.maxDepth, kept.terminal⟩
  change (x { ctx with site := head, depth := ctx.depth + 1 }).2.depth - 1 = ctx.depth
  rw [kept.depth, Nat.add_sub_cancel]

protected theorem bind_assoc (x : Eval α) (f : α → Eval β) (g : β → Eval γ) :
    x >>= f >>= g = x >>= fun a => f a >>= g := by
  funext ctx
  change Eval.bind (Eval.bind x f) g ctx = Eval.bind x (fun a => Eval.bind (f a) g) ctx
  unfold Eval.bind
  rcases x ctx with ⟨_ | a, after⟩ <;> rfl

/-- Under its own locals an action that restores them is not changed by setting them. -/
theorem withLocals_self {x : Eval α} (kept : x.Restores) (ctx : Context) :
    withLocals ctx.locals x ctx = x ctx := by
  change ((x ctx).1, { (x ctx).2 with locals := ctx.locals }) = x ctx
  rw [← (kept ctx).locals]

/-- An action that restores its locals can be cut off from what follows under the same locals. -/
theorem withLocals_bind {x : Eval α} (kept : x.Restores) (f : α → Eval β)
    (locals : Scope Value) :
    withLocals locals (x >>= f) = withLocals locals x >>= fun a => withLocals locals (f a) := by
  funext ctx
  have back := (kept { ctx with locals := locals }).locals
  change withLocals locals (Eval.bind x f) ctx =
    Eval.bind (withLocals locals x) (fun a => withLocals locals (f a)) ctx
  unfold withLocals Eval.bind
  dsimp only
  generalize x { ctx with locals := locals } = outcome at back ⊢
  rcases outcome with ⟨_ | a, after⟩
  · rfl
  · change after.locals = locals at back
    subst back
    rfl

theorem withLocals_defineLocal (name : Symbol) (value : Value) (rest : Eval α)
    (locals : Scope Value) :
    withLocals locals (defineLocal name value >>= fun _ => rest) =
      withLocals (locals.define name value) rest := rfl

end Eval

namespace Course

open Eval (Evaluator)

variable {α β : Type} {ev : Evaluator}

/-- Carries out a course on a context, nodes being evaluated by `ev`. -/
def act (ev : Evaluator) : Course α → Eval α
  | done a => pure a
  | fault f => Eval.fail f
  | ask locals node next => do (next (← Eval.withLocals locals (ev node))).act ev
  | define name value next => do Eval.defineGlobal name value; next.act ev
  | report event next => do Eval.record event; next.act ev
  | print line next => do
    Eval.update fun ctx => { ctx with printed := ctx.printed ++ line ++ Eval.lineEnd }
    next.act ev

theorem act_value (locals : Scope Value) (node : Node) :
    (value locals node).act ev = Eval.withLocals locals (ev node) := by
  funext ctx
  rcases result : Eval.withLocals locals (ev node) ctx with ⟨e | v, after⟩
  · exact Eval.bind_of_error result _
  · exact Eval.bind_of_ok result _

theorem act_bind (c : Course α) (f : α → Course β) :
    (c >>= f).act ev = c.act ev >>= fun a => (f a).act ev := by
  change (c.bind f).act ev = _
  induction c with
  | done a => rfl
  | fault f => rfl
  | ask locals node next ih =>
    simp only [Course.bind, act, ih]
    exact (Eval.bind_assoc ..).symm
  | define name value next ih | report event next ih | print line next ih =>
    simp only [Course.bind, act, ih]
    exact (Eval.bind_assoc ..).symm

/-- The step lemma of restoration: a course restores what the evaluations it asks for restore. -/
theorem act_restores (restores : ∀ node, (ev node).Restores) (c : Course α) :
    (c.act ev).Restores := by
  induction c with
  | done a => exact Context.Restored.refl
  | fault f => exact Context.Restored.refl
  | ask locals node next ih => exact ((restores node).withLocals locals).bind ih
  | define name value next ih | report event next ih | print line next ih =>
    exact Eval.Restores.bind (fun _ => ⟨rfl, rfl, rfl, rfl, rfl⟩) fun _ => ih

end Course

namespace Eval

variable {α β : Type} {ev : Evaluator} {terminal : Bool} {locals : Scope Value}

/-- Under the given locals an action does what a course tells. -/
def Follows (ev : Evaluator) (terminal : Bool) (locals : Scope Value) (x : Eval α)
    (c : Course α) : Prop :=
  ∀ ctx : Context, ctx.locals = locals → ctx.terminal = terminal → x ctx = c.act ev ctx

theorem Follows.done (a : α) : Follows ev terminal locals (pure a) (.done a) := fun _ _ _ => rfl

theorem Follows.fault (f : EvalFault) :
    Follows ev terminal locals (fail f : Eval α) (.fault f) := fun _ _ _ => rfl

section

variable (restores : ∀ node, (ev node).Restores)
include restores

theorem Follows.bind {x : Eval α} {c : Course α} {f : α → Eval β} {g : α → Course β}
    (first : Follows ev terminal locals x c) (next : ∀ a, Follows ev terminal locals (f a) (g a)) :
    Follows ev terminal locals (x >>= f) (c >>= g) := by
  intro ctx here screen
  rw [Course.act_bind]
  have same : x ctx = c.act ev ctx := first ctx here screen
  rcases result : c.act ev ctx with ⟨e | a, after⟩
  · rw [bind_of_error result, bind_of_error (same.trans result)]
  · rw [bind_of_ok result, bind_of_ok (same.trans result)]
    have kept := (c.act_restores restores).outcome result
    exact next a after (kept.locals.trans here) (kept.terminal.trans screen)

theorem follows_value (node : Node) :
    Follows ev terminal locals (ev node) (Course.value locals node) := by
  rintro ctx rfl -
  rw [Course.act_value, withLocals_self (restores node)]

end

end Eval
end Lisplet
