import Lisplet.Proofs.Idle

/-!
What a session keeps. Let each evaluation that is asked for keep a property of the context, come to
values of one kind only and fail with errors of one kind only. Then so does the source whose forms
are evaluated, whether all of them are run or only the value of the last is wanted, and so does
every sequence of requests.
-/

namespace Lisplet

variable {α β : Type} {kept : Context → Prop} {good : α → Prop} {other : β → Prop}
  {blamed : EvalError → Prop}

namespace Eval

/-- A value or an error of a kind, in a context of a kind. -/
structure Ends (kept : Context → Prop) (good : α → Prop) (blamed : EvalError → Prop)
    (outcome : Except EvalError α × Context) : Prop where
  value : ∀ a, outcome.1 = .ok a → good a
  error : ∀ e, outcome.1 = .error e → blamed e
  context : kept outcome.2

/-- Ending in such a way from every context of the kind. -/
def Maintains (kept : Context → Prop) (good : α → Prop) (blamed : EvalError → Prop)
    (x : Eval α) : Prop := ∀ ctx : Context, kept ctx → Ends kept good blamed (x ctx)

theorem Maintains.pure {a : α} (value : good a) :
    (pure a : Eval α).Maintains kept good blamed := by
  intro ctx start
  refine ⟨?_, nofun, start⟩
  rintro _ ⟨⟩
  exact value

theorem Maintains.bind {x : Eval α} {f : α → Eval β} (first : x.Maintains kept good blamed)
    (next : ∀ a, good a → (f a).Maintains kept other blamed) :
    (x >>= f).Maintains kept other blamed := by
  intro ctx start
  have step := first ctx start
  rcases result : x ctx with ⟨e | a, after⟩
  all_goals rw [result] at step
  · rw [bind_of_error result]
    refine ⟨nofun, ?_, step.context⟩
    rintro _ ⟨⟩
    exact step.error e rfl
  · rw [bind_of_ok result]
    exact next a (step.value a rfl) after step.context

theorem lastValue_maintains {ev : Evaluator} {good : Value → Prop} {last : Value}
    {forms : List Node} (start : good last)
    (each : ∀ node ∈ forms, (ev node).Maintains kept good blamed) :
    (lastValue ev last forms).Maintains kept good blamed := by
  induction forms generalizing last with
  | nil => exact .pure start
  | cons node nodes ih =>
    obtain ⟨first, others⟩ := List.forall_mem_cons.mp each
    exact first.bind fun v value => ih value others

end Eval

/-- What became of a form is a value or an error of a kind. -/
structure FormResult.Ends (good : Value → Prop) (blamed : EvalError → Prop)
    (result : FormResult) : Prop where
  value : ∀ v, result.outcome = .ok v → good v
  error : ∀ e, result.outcome = .error e → blamed e

namespace Context

variable {ctx : Context} {good : Value → Prop}
  (recorded : ∀ (ctx : Context) (event : Event), kept ctx → kept (ctx.record event))
include recorded

theorem recordAll_kept (start : kept ctx) (events : List Event) : kept (ctx.recordAll events) := by
  induction events generalizing ctx with
  | nil => exact start
  | cons event events ih => exact ih (recorded ctx event start)

theorem runForm_kept {node : Node} (start : kept ctx)
    (form : (Eval.eval node).Maintains kept good blamed) :
    (ctx.runForm node).1.Ends good blamed ∧ kept (ctx.runForm node).2 := by
  have ends := form ctx start
  refine ⟨⟨ends.value, ends.error⟩, ?_⟩
  have after := ends.context
  unfold runForm Eval.run
  generalize Eval.eval node ctx = outcome at after ⊢
  rcases outcome with ⟨e | v, after'⟩
  · exact recorded _ _ after
  · exact after

theorem runForms_kept {forms : List Node} (start : kept ctx)
    (each : ∀ node ∈ forms, (Eval.eval node).Maintains kept good blamed) :
    (∀ result ∈ (ctx.runForms forms).1, result.Ends good blamed) ∧
      kept (ctx.runForms forms).2 := by
  induction forms generalizing ctx with
  | nil => exact ⟨nofun, start⟩
  | cons node nodes ih =>
    obtain ⟨first, others⟩ := List.forall_mem_cons.mp each
    have form := runForm_kept recorded start first
    have rest := ih form.2 others
    exact ⟨List.forall_mem_cons.mpr ⟨form.1, rest.1⟩, rest.2⟩

/-- Running a source: it cannot be read, or all of its forms end in such a way. -/
theorem run_kept (source : Source) (start : kept ctx)
    (each : ∀ forest, source.parse = .ok forest → ∀ node ∈ forest,
      (Eval.eval node).Maintains kept good blamed) :
    (∀ e, (ctx.run source).1 = .error e → source.parse = .error e) ∧
      (∀ results, (ctx.run source).1 = .ok results → ∀ result ∈ results,
        result.Ends good blamed) ∧
      kept (ctx.run source).2 := by
  have ready : kept (ctx.read source).2 := recordAll_kept recorded start _
  have parsed : (ctx.read source).1 = source.parse := rfl
  unfold run
  generalize ctx.read source = found at ready parsed ⊢
  rcases found with ⟨e | forms, after⟩
  · refine ⟨?_, nofun, ready⟩
    rintro _ ⟨⟩
    exact parsed.symm
  · have ran := runForms_kept recorded ready (each forms parsed.symm)
    refine ⟨nofun, ?_, ran.2⟩
    rintro _ ⟨⟩
    exact ran.1

/-- Evaluating a source for its value: it cannot be read, or it ends as its forms do. -/
theorem valueWith_kept (source : Source) {ev : Eval.Evaluator} (start : kept ctx)
    (nil : good .nil)
    (each : ∀ forest, source.parse = .ok forest → ∀ node ∈ forest,
      (ev node).Maintains kept good blamed) :
    (∀ v, (ctx.valueWith ev source).1 = .ok v → good v) ∧
      (∀ e, (ctx.valueWith ev source).1 = .error e →
        (∃ p, source.parse = .error p ∧ e = .parse p) ∨ ∃ f, blamed f ∧ e = .eval f) ∧
      kept (ctx.valueWith ev source).2 := by
  have ready : kept (ctx.read source).2 := recordAll_kept recorded start _
  have parsed : (ctx.read source).1 = source.parse := rfl
  unfold valueWith
  generalize ctx.read source = found at ready parsed ⊢
  rcases found with ⟨e | forms, after⟩
  · refine ⟨nofun, ?_, ready⟩
    rintro _ ⟨⟩
    exact .inl ⟨e, parsed.symm, rfl⟩
  · have ends := Eval.lastValue_maintains nil (each forms parsed.symm) after ready
    dsimp only [Eval.run]
    generalize Eval.lastValue ev .nil forms after = outcome at ends ⊢
    rcases outcome with ⟨e | v, final⟩
    · refine ⟨nofun, ?_, ends.context⟩
      rintro _ ⟨⟩
      exact .inr ⟨e, ends.error e rfl, rfl⟩
    · refine ⟨?_, nofun, ends.context⟩
      rintro _ ⟨⟩
      exact ends.value v rfl

end Context

/-- The evaluations that a request asks for. -/
def Request.Evaluates : Request → Eval Value → Prop
  | run source, x | value source, x =>
    ∃ forest, source.parse = .ok forest ∧ ∃ node ∈ forest, x = Eval.eval node
  | valueUnder locals source, x =>
    ∃ forest, source.parse = .ok forest ∧ ∃ node ∈ forest, x = .withLocals locals (Eval.eval node)
  | nodeUnder locals node, x => x = .withLocals locals (Eval.eval node)

/-- The source that a request has read. -/
def Request.source? : Request → Option Source
  | run source | value source | valueUnder _ source => some source
  | nodeUnder _ _ => none

namespace Context

variable {ctx : Context} {good : Value → Prop}

/-- Raising an error at a request: a source cannot be read, a form of it fails, or the value that
is asked for cannot be given. -/
inductive Raises (ctx : Context) : Request → Error → Prop where
  | unread {source : Source} {e : ParseError} : (ctx.run source).1 = .error e →
      Raises ctx (.run source) (.parse e)
  | form {source : Source} {results : List FormResult} {result : FormResult} {e : EvalError} :
      (ctx.run source).1 = .ok results → result ∈ results → result.outcome = .error e →
      Raises ctx (.run source) (.eval e)
  | value {source : Source} {e : Error} : (ctx.value source).1 = .error e →
      Raises ctx (.value source) e
  | valueUnder {locals : Scope Value} {source : Source} {e : Error} :
      (ctx.valueUnder locals source).1 = .error e → Raises ctx (.valueUnder locals source) e
  | nodeUnder {locals : Scope Value} {node : Node} {e : EvalError} :
      ((Eval.withLocals locals (Eval.eval node)).run ctx).1 = .error e →
      Raises ctx (.nodeUnder locals node) (.eval e)

variable (recorded : ∀ (ctx : Context) (event : Event), kept ctx → kept (ctx.record event))
include recorded

/-- The step lemma of a session: a request raises nothing but that its source cannot be read and
what its evaluations raise. -/
theorem after_kept {request : Request} (start : kept ctx)
    (each : ∀ x, request.Evaluates x → x.Maintains kept good blamed) (nil : good .nil) :
    kept (ctx.after request) ∧ ∀ e, ctx.Raises request e →
      (∃ source p, request.source? = some source ∧ source.parse = .error p ∧ e = .parse p) ∨
        ∃ f, blamed f ∧ e = .eval f := by
  cases request with
  | run source =>
    obtain ⟨unread, ran, after⟩ := run_kept recorded source start
      fun forest parsed node member => each _ ⟨forest, parsed, node, member, rfl⟩
    refine ⟨after, fun e raised => ?_⟩
    cases raised with
    | unread failed => exact .inl ⟨source, _, rfl, unread _ failed, rfl⟩
    | form outcomes member failed =>
      exact .inr ⟨_, (ran _ outcomes _ member).error _ failed, rfl⟩
  | value source =>
    obtain ⟨-, errors, after⟩ := valueWith_kept recorded source start nil
      fun forest parsed node member => each _ ⟨forest, parsed, node, member, rfl⟩
    refine ⟨after, fun e raised => ?_⟩
    cases raised with
    | value failed => exact (errors e failed).imp_left fun ⟨p, unread⟩ => ⟨source, p, rfl, unread⟩
  | valueUnder locals source =>
    obtain ⟨-, errors, after⟩ := valueWith_kept recorded source start nil
      fun forest parsed node member => each _ ⟨forest, parsed, node, member, rfl⟩
    refine ⟨after, fun e raised => ?_⟩
    cases raised with
    | valueUnder failed =>
      exact (errors e failed).imp_left fun ⟨p, unread⟩ => ⟨source, p, rfl, unread⟩
  | nodeUnder locals node =>
    have ends := each _ rfl ctx start
    refine ⟨ends.context, fun e raised => ?_⟩
    cases raised with
    | nodeUnder failed => exact .inr ⟨_, ends.error _ failed, rfl⟩

/-- The run lemma of a session. -/
theorem afterAll_kept {requests : List Request} (start : kept ctx)
    (each : ∀ request ∈ requests, ∀ x, request.Evaluates x → x.Maintains kept good blamed)
    (nil : good .nil) : kept (ctx.afterAll requests) := by
  induction requests generalizing ctx with
  | nil => exact start
  | cons request requests ih =>
    obtain ⟨first, others⟩ := List.forall_mem_cons.mp each
    exact ih (after_kept recorded start first nil).1 others

end Context
end Lisplet
