import Lisplet.Proofs.Eval.Following

/-!
Evaluation restores the locals, the place to blame and the depth on every exit. It follows that
the levels set aside for an evaluation always suffice: the parts of a call are evaluated by the
same evaluation as the whole.
-/

namespace Lisplet

namespace Eval

theorem evalNode_restores {ev : Evaluator} (restores : ∀ node, (ev node).Restores) (node : Node) :
    (evalNode ev node).Restores := by
  unfold evalNode
  split
  · rename_i name span
    refine Restores.bind .refl fun ctx => ?_
    cases ctx.lookup name with
    | none => exact .refl
    | some value => exact .refl
  · rename_i head args span
    intro ctx
    rw [dispatch_eq restores]
    exact (Course.act_restores restores _).calling head.span ctx
  · exact .refl

theorem evalWithin_restores {beyond : Evaluator} (restores : ∀ node, (beyond node).Restores)
    (levels : Nat) (node : Node) : (evalWithin beyond levels node).Restores := by
  induction levels generalizing node with
  | zero => exact restores node
  | succ levels ih => exact evalNode_restores ih node

theorem exhausted_restores (node : Node) : (exhausted node).Restores := fun ctx => .refl ctx

/-- The run lemma of restoration, for every node in every context. -/
theorem eval_restored (node : Node) : (eval node).Restores := fun ctx =>
  evalWithin_restores exhausted_restores (levelsLeft ctx) node ctx

end Eval

/-- A course depends on an evaluator only where it is at the depth of the call. -/
theorem Course.act_congr {α : Type} {ev ev' : Eval.Evaluator} {limit : Int} {depth : Nat}
    (restores : ∀ node, (ev node).Restores)
    (same : ∀ (node : Node) (ctx : Context), ctx.maxDepth = limit → ctx.depth = depth →
      ev node ctx = ev' node ctx)
    (c : Course α) (ctx : Context) (limited : ctx.maxDepth = limit) (deep : ctx.depth = depth) :
    c.act ev ctx = c.act ev' ctx := by
  induction c generalizing ctx with
  | done a => rfl
  | fault f => rfl
  | ask locals node next ih =>
    have found : Eval.withLocals locals (ev node) ctx = Eval.withLocals locals (ev' node) ctx := by
      unfold Eval.withLocals
      rw [same node { ctx with locals := locals } limited deep]
    rcases result : Eval.withLocals locals (ev node) ctx with ⟨e | v, after⟩
    · rw [act, act, Eval.bind_of_error result, Eval.bind_of_error (found.symm.trans result)]
    · rw [act, act, Eval.bind_of_ok result, Eval.bind_of_ok (found.symm.trans result)]
      have kept := ((restores node).withLocals locals).outcome result
      exact ih v after (kept.maxDepth.trans limited) (kept.depth.trans deep)
  | define name value next ih => exact ih _ limited deep
  | report event next ih => exact ih _ limited deep
  | print line next ih => exact ih _ limited deep

namespace Eval

theorem dispatch_congr {ev ev' : Evaluator} (restores : ∀ node, (ev node).Restores)
    (restores' : ∀ node, (ev' node).Restores) (head : Node) (args : List Node) (ctx : Context)
    (same : ctx.depth + 1 ≤ ctx.maxDepth → ∀ (node : Node) (inner : Context),
      inner.maxDepth = ctx.maxDepth → inner.depth = ctx.depth + 1 →
        ev node inner = ev' node inner) :
    dispatch ev head args ctx = dispatch ev' head args ctx := by
  have called :
      (Course.call ctx.maxDepth ctx.terminal ctx.locals (ctx.depth + 1) head args).act ev
          { ctx with site := head.span, depth := ctx.depth + 1 } =
        (Course.call ctx.maxDepth ctx.terminal ctx.locals (ctx.depth + 1) head args).act ev'
          { ctx with site := head.span, depth := ctx.depth + 1 } := by
    by_cases exceeded : ctx.maxDepth < (ctx.depth + 1 : Nat)
    · rw [Course.call_exceeded exceeded]
      rfl
    · exact Course.act_congr restores (same (by omega)) _ _ rfl rfl
  rw [dispatch_eq restores, dispatch_eq restores']
  unfold calling
  rw [called]

/-- Levels beyond those that are left are never used. -/
theorem evalWithin_stable {beyond beyond' : Evaluator} (restores : ∀ node, (beyond node).Restores)
    (restores' : ∀ node, (beyond' node).Restores) {n m : Nat} (node : Node) (ctx : Context)
    (enough : levelsLeft ctx ≤ n) (enough' : levelsLeft ctx ≤ m) :
    evalWithin beyond n node ctx = evalWithin beyond' m node ctx := by
  induction n generalizing m node ctx with
  | zero => simp [levelsLeft] at enough
  | succ n ih =>
    cases m with
    | zero => simp [levelsLeft] at enough'
    | succ m =>
      simp only [evalWithin, evalNode]
      split
      · rfl
      · refine dispatch_congr (evalWithin_restores restores n) (evalWithin_restores restores' m)
          _ _ ctx fun allowed node inner limited deep => ?_
        unfold levelsLeft at enough enough' ih
        exact ih node inner (by omega) (by omega)
      · rfl

/-- Evaluation evaluates the parts of calls as it evaluates the whole. -/
theorem eval_eq_evalNode (node : Node) : eval node = evalNode eval node := by
  funext ctx
  change evalNode (evalWithin exhausted _) node ctx = evalNode eval node ctx
  unfold evalNode
  split
  · rfl
  · refine dispatch_congr (evalWithin_restores exhausted_restores _) eval_restored
      _ _ ctx fun allowed node inner limited deep => ?_
    refine evalWithin_stable exhausted_restores exhausted_restores node inner ?_ (Nat.le_refl _)
    unfold levelsLeft
    omega
  · rfl

end Eval
end Lisplet
