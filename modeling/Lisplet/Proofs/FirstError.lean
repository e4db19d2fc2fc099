import Lisplet.Proofs.Eval.Passing
import Lisplet.Proofs.Idle

/-!
Going on and stopping. Running a source goes on after a form that fails, evaluating it for its
value stops there. Up to the first error both do the same, and whatever has failed before, a form
comes to what it comes to alone: all that is left of the forms before it is what they have
defined.
-/

namespace Lisplet

/-- The head to blame is no matter for a node that is not inside a call. -/
theorem Frame.eval_site (settings : Settings) (frame : Frame) (node : Node) (site : Span) :
    frame.eval settings node = { frame with site := site }.eval settings node := by
  funext globals
  cases node.form with
  | symbol name span => rw [eval_symbol, eval_symbol]
  | call head args span =>
    rw [eval_call, eval_call]
    rfl
  | datum notSymbol notCall => rw [eval_datum notSymbol notCall, eval_datum notSymbol notCall]

/-- A node comes to the same in two contexts with equal scopes and limits that are as deep in
calls. -/
theorem Eval.eval_congr {ctx other : Context} (node : Node) (globals : other.globals = ctx.globals)
    (locals : other.locals = ctx.locals) (depth : other.depth = ctx.depth)
    (settings : other.settings = ctx.settings) :
    (eval node other).1 = (eval node ctx).1 ∧
      (eval node other).2.globals = (eval node ctx).2.globals := by
  have here := eval_passes node ctx
  have there := eval_passes node other
  have framed : other.frame = { ctx.frame with site := other.site } := by
    rw [Context.frame, locals, depth]
    rfl
  rw [settings, globals, framed, ← Frame.eval_site] at there
  exact Prod.mk.inj (there.symm.trans here)

namespace Context

variable {ctx : Context}

theorem runForm_ok {node : Node} {v : Value} (ok : (ctx.runForm node).1.outcome = .ok v) :
    Eval.eval node ctx = (.ok v, (ctx.runForm node).2) := by
  unfold runForm Eval.run at ok ⊢
  generalize Eval.eval node ctx = outcome at ok ⊢
  rcases outcome with ⟨e | w, after⟩
  · cases ok
  · cases ok
    rfl

theorem runForm_globals (ctx : Context) (node : Node) :
    (ctx.runForm node).2.globals = (Eval.eval node ctx).2.globals := by
  unfold runForm Eval.run
  generalize Eval.eval node ctx = outcome
  rcases outcome with ⟨e | v, after⟩
  · rfl
  · rfl

/-- A form comes to the same where no call is in progress and in any context with those globals. -/
theorem runForm_alone {alone : Context} (idle : ctx.Idle) (node : Node)
    (globals : alone.globals = ctx.globals) (locals : alone.locals = .empty)
    (depth : alone.depth = 0) (settings : alone.settings = ctx.settings) :
    ((Eval.eval node).run alone).1 = (ctx.runForm node).1.outcome ∧
      ((Eval.eval node).run alone).2.globals = (ctx.runForm node).2.globals := by
  rw [runForm_globals]
  exact Eval.eval_congr node globals (locals.trans idle.locals.symm) (depth.trans idle.depth.symm)
    settings

/-- As long as no form fails, both ways go through the same contexts. -/
theorem lastValue_ok {forms : List Node} {values : List Value} (last : Value)
    (ok : (ctx.runForms forms).1.map FormResult.outcome = values.map .ok) (more : List Node) :
    Eval.lastValue Eval.eval last (forms ++ more) ctx =
      Eval.lastValue Eval.eval (values.getLastD last) more (ctx.runForms forms).2 := by
  induction forms generalizing ctx values last with
  | nil =>
    obtain rfl : values = [] := by simpa [runForms] using ok
    rfl
  | cons node nodes ih =>
    obtain ⟨v, others, rfl, first, rest⟩ := List.map_eq_cons_iff.mp ok.symm
    have first := runForm_ok first.symm
    rw [List.getLastD_cons]
    exact (Eval.bind_of_ok first _).trans (ih v rest.symm)

/-- The first form that fails stops the evaluation of the forms. -/
theorem lastValue_error {node : Node} {e : EvalError} (last : Value) (later : List Node)
    (failed : (ctx.runForm node).1.outcome = .error e) :
    (Eval.lastValue Eval.eval last (node :: later) ctx).1 = .error e ∧
      (Eval.lastValue Eval.eval last (node :: later) ctx).2.globals =
        (ctx.runForm node).2.globals := by
  rw [runForm_globals]
  have failed : Eval.eval node ctx = (.error e, (Eval.eval node ctx).2) := Prod.ext failed rfl
  rw [Eval.lastValue, Eval.bind_of_error failed]
  exact ⟨rfl, rfl⟩

theorem value_of_parse {source : Source} {forms : List Node} (parsed : source.parse = .ok forms)
    (ctx : Context) :
    ctx.value source =
      ((Eval.lastValue Eval.eval .nil forms (ctx.read source).2).1.mapError Error.eval,
        (Eval.lastValue Eval.eval .nil forms (ctx.read source).2).2) := by
  have found : (ctx.read source).1 = .ok forms := parsed
  unfold value valueWith Eval.run
  generalize ctx.read source = read at found ⊢
  obtain ⟨_, after⟩ := read
  cases found
  dsimp only
  rcases Eval.lastValue Eval.eval .nil forms after with ⟨e | v, final⟩
  · rfl
  · rfl

theorem unread {source : Source} {e : ParseError} (failed : source.parse = .error e)
    (ctx : Context) :
    ctx.run source = (.error e, (ctx.read source).2) ∧
      ctx.value source = (.error (.parse e), (ctx.read source).2) := by
  have found : (ctx.read source).1 = .error e := failed
  unfold run value valueWith
  generalize ctx.read source = read at found ⊢
  obtain ⟨_, after⟩ := read
  cases found
  exact ⟨rfl, rfl⟩

theorem nodes_runForms (ctx : Context) (forms : List Node) :
    (ctx.runForms forms).1.map FormResult.node = forms := by
  induction forms generalizing ctx with
  | nil => rfl
  | cons node nodes ih => exact congrArg (node :: ·) (ih _)

/-- A source that cannot be read fails alike for both and changes nothing but the journal.
Otherwise running it has one result for each form, in order. If all results are values, the value
of the source is the last of them, and nil if there is none; the first that is an error is the
error of the source. Either way the globals are those that running has reached there. And whatever
has become of the forms before it, a form comes to what it comes to by itself on the globals that
they leave. -/
theorem value_until_error (maxDepth : Int) (terminal : Bool) (requests : List Request)
    (source : Source) :
    let ctx := (fresh maxDepth terminal).afterAll requests
    (∀ e, source.parse = .error e →
      (ctx.run source).1 = .error e ∧ (ctx.value source).1 = .error (.parse e) ∧
      { (ctx.run source).2 with journal := ctx.journal } = ctx ∧
      { (ctx.value source).2 with journal := ctx.journal } = ctx) ∧
    ∀ forms, source.parse = .ok forms →
      let ready := (ctx.read source).2
      ∃ results, ctx.run source = (.ok results, (ready.runForms forms).2) ∧
        results.map FormResult.node = forms ∧
        (∀ values : List Value, results.map FormResult.outcome = values.map .ok →
          (ctx.value source).1 = .ok (values.getLastD .nil) ∧
          (ctx.value source).2.globals = (ctx.run source).2.globals) ∧
        ∀ before node later, forms = before ++ node :: later →
          let left := (ready.runForms before).2
          let reached := (left.runForm node).2
          ∃ result, results = (ready.runForms before).1 ++ result :: (reached.runForms later).1 ∧
            (∀ (e : EvalError) (values : List Value),
              (ready.runForms before).1.map FormResult.outcome = values.map .ok →
              result.outcome = .error e →
              (ctx.value source).1 = .error (.eval e) ∧
              (ctx.value source).2.globals = reached.globals) ∧
            ∀ alone : Context, alone.globals = left.globals → alone.locals = .empty →
              alone.depth = 0 → alone.settings = ctx.settings →
              ((Eval.eval node).run alone).1 = result.outcome ∧
              ((Eval.eval node).run alone).2.globals = reached.globals := by
  intro ctx
  have idle : ctx.Idle := (afterAll_restored _ requests).idle (fresh_idle maxDepth terminal)
  constructor
  · intro e failed
    obtain ⟨ran, evaluated⟩ := unread failed ctx
    rw [ran, evaluated, read_eq]
    exact ⟨rfl, rfl, rfl, rfl⟩
  intro forms parsed ready
  have ran := run_of_parse parsed ctx
  have evaluated := value_of_parse parsed ctx
  refine ⟨(ready.runForms forms).1, ran, nodes_runForms ready forms, ?_, ?_⟩
  · intro values ok
    have last := lastValue_ok .nil ok []
    rw [List.append_nil] at last
    rw [evaluated, ran, last]
    exact ⟨rfl, rfl⟩
  · rintro before node later rfl left reached
    obtain ⟨results, -⟩ := runForms_append ready before (node :: later)
    refine ⟨(left.runForm node).1, results, ?_, ?_⟩
    · intro e values ok failed
      have way := lastValue_ok .nil ok (node :: later)
      obtain ⟨error, globals⟩ := lastValue_error (values.getLastD .nil) later failed
      rw [evaluated, way, error]
      exact ⟨rfl, globals⟩
    · intro alone globals locals depth settings
      have kept : ctx.Restored left :=
        (ctx.read_restored source).trans (runForms_restored ready before)
      exact runForm_alone (kept.idle idle) node globals locals depth
        (settings.trans kept.settings.symm)

/-- A source that cannot be read, and one whose second form fails, also by itself. -/
theorem value_until_error_unbound :
    let requests : List Request := [.run (.ofText "(const a 1)" none)]
    let ctx := (fresh 9 false).afterAll requests
    let unread : Source := .ofText ")" none
    let source : Source := .ofText "(const b a) (+ b c)" none
    (∃ e, unread.parse = .error e ∧ (ctx.value unread).1 = .error (.parse e)) ∧
    ∃ first second e, source.parse = .ok [first, second] ∧
      (ctx.value source).1 = .error (.eval e) ∧
      let left := ((ctx.read source).2.runForms [first]).2
      ((Eval.eval second).run { fresh 9 false with globals := left.globals }).1 = .error e := by
  intro requests ctx unread source
  have failing : ¬unread.parse.isOk := by decide +kernel
  have outcomes : (ctx.run source).1.toOption.map (List.map fun result => result.outcome.isOk) =
      some [true, false] := by decide +kernel
  constructor
  · cases parsed : unread.parse with
    | ok forms => simp [parsed, Except.isOk, Except.toBool] at failing
    | error e => exact ⟨e, rfl, ((value_until_error 9 false requests unread).1 e parsed).2.1⟩
  cases parsed : source.parse with
  | error e =>
    rw [(Context.unread parsed ctx).1] at outcomes
    cases outcomes
  | ok forms =>
    obtain ⟨results, ran, nodes, -, each⟩ :=
      (value_until_error 9 false requests source).2 forms parsed
    rw [ran] at outcomes
    obtain ⟨one, others, rfl, fine, outcomes⟩ := List.map_eq_cons_iff.mp (Option.some.inj outcomes)
    obtain ⟨two, none, rfl, failed, outcomes⟩ := List.map_eq_cons_iff.mp outcomes
    obtain rfl := List.map_eq_nil_iff.mp outcomes
    obtain rfl := nodes
    obtain ⟨result, same, stops, alone⟩ := each [one.node] two.node [] rfl
    obtain ⟨first, second⟩ := List.cons.inj same
    obtain ⟨rfl, -⟩ := List.cons.inj second
    rcases outcome : two.outcome with e | v
    · rcases value : one.outcome with e' | v
      · simp [value, Except.isOk, Except.toBool] at fine
      refine ⟨one.node, two.node, e, rfl, ?_, ?_⟩
      · have value : ((ctx.read source).2.runForm one.node).1.outcome = .ok v :=
          (congrArg FormResult.outcome first).symm.trans value
        exact (stops e [v] (congrArg (· :: []) value) outcome).1
      · rw [← outcome]
        have kept := afterAll_restored (fresh 9 false) requests
        exact (alone { fresh 9 false with globals := _ } rfl rfl rfl kept.settings.symm).1
    · simp [outcome, Except.isOk, Except.toBool] at failed

end Context
end Lisplet
