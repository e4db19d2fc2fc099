import Lisplet.Proofs.Eval.Passing

/-!
Who is to blame for an error. A course that breaks off does so at a fault of its own or in an
evaluation that it has asked for; all that it has asked for before has come to a value. Following
the evaluations that fail leads to the innermost call in progress, and the error points to the
head of that call.
-/

namespace Lisplet

namespace Course

variable {α : Type} {ev : Scope Value → Node → Threaded Value}

/-- Where a course gets to from given globals, every evaluation on the way having a value. -/
inductive Leads (ev : Scope Value → Node → Threaded Value) :
    Course α → Scope Value → Course α → Scope Value → Prop where
  | here (c : Course α) (globals : Scope Value) : Leads ev c globals c globals
  | asked {locals node next globals v between c last} :
      ev locals node globals = (.ok v, between) → Leads ev (next v) between c last →
      Leads ev (.ask locals node next) globals c last
  | defined {name value next globals c last} :
      Leads ev next (globals.define name value) c last →
      Leads ev (.define name value next) globals c last
  | reported {event next globals c last} :
      Leads ev next globals c last → Leads ev (.report event next) globals c last
  | printed {line next globals c last} :
      Leads ev next globals c last → Leads ev (.print line next) globals c last

/-- Breaking off at `site` with an error: after evaluations that had values, a fault of the course
itself or the error of one more evaluation. -/
def Breaks (ev : Scope Value → Node → Threaded Value) (site : Span) (c : Course α)
    (globals : Scope Value) (e : EvalError) : Prop :=
  (∃ f last, Leads ev c globals (.fault f) last ∧ e = ⟨f, site⟩) ∨
  ∃ locals node next last, Leads ev c globals (.ask locals node next) last ∧
    (ev locals node last).1 = .error e

theorem Breaks.earlier {site : Span} {c c' : Course α} {globals globals' : Scope Value}
    {e : EvalError} (leads : ∀ {d last}, Leads ev c globals d last → Leads ev c' globals' d last) :
    Breaks ev site c globals e → Breaks ev site c' globals' e
  | .inl ⟨f, last, way, blamed⟩ => .inl ⟨f, last, leads way, blamed⟩
  | .inr ⟨locals, node, next, last, way, failed⟩ =>
    .inr ⟨locals, node, next, last, leads way, failed⟩

theorem breaks_of_thread {site : Span} {c : Course α} {globals : Scope Value} {e : EvalError}
    (failed : (c.thread ev site globals).1 = .error e) : Breaks ev site c globals e := by
  induction c generalizing globals with
  | done a => cases failed
  | fault f =>
    cases failed
    exact .inl ⟨f, globals, .here .., rfl⟩
  | ask locals node next ih =>
    simp only [thread] at failed
    rcases asked : ev locals node globals with ⟨_ | v, between⟩
    · rw [asked] at failed
      cases failed
      exact .inr ⟨locals, node, next, globals, .here .., congrArg Prod.fst asked⟩
    · rw [asked] at failed
      exact (ih v failed).earlier (.asked asked)
  | define name value next ih => exact (ih failed).earlier .defined
  | report event next ih => exact (ih failed).earlier .reported
  | print line next ih => exact (ih failed).earlier .printed

/-- Where a course leads to, it goes on from there. -/
theorem Leads.thread_eq {c d : Course α} {globals last : Scope Value} (site : Span)
    (leads : Leads ev c globals d last) : c.thread ev site globals = d.thread ev site last := by
  induction leads with
  | here => rfl
  | asked asked _ ih => simp only [thread, asked, ih]
  | defined _ ih => exact ih
  | reported _ ih => exact ih
  | printed _ ih => exact ih

theorem Breaks.thread {site : Span} {c : Course α} {globals : Scope Value} {e : EvalError}
    (breaks : Breaks ev site c globals e) : (c.thread ev site globals).1 = .error e := by
  rcases breaks with ⟨f, last, leads, rfl⟩ | ⟨locals, node, next, last, leads, failed⟩
  · rw [leads.thread_eq site]
    rfl
  · rw [leads.thread_eq site]
    simp only [Course.thread]
    generalize ev locals node last = outcome at failed ⊢
    rcases outcome with ⟨_ | v, between⟩
    · cases failed
      rfl
    · cases failed

end Course

namespace Frame

/-- What the evaluation of a node asks for, being inside a call with the given head. -/
def within (settings : Settings) (frame : Frame) (head : Node) :
    Scope Value → Node → Threaded Value :=
  fun locals node => eval settings (frame.inside head locals) node

/-- The course of a call that is made in a frame. -/
def course (settings : Settings) (frame : Frame) (head : Node) (args : List Node) : Course Value :=
  Course.call settings.maxDepth settings.terminal frame.locals (frame.depth + 1) head args

/-- Raising an error: a name without a value is blamed itself; a call that breaks off with a fault
of its own is blamed at its head; and a call in which an evaluation raises an error passes it on. -/
inductive Raises (settings : Settings) : Frame → Scope Value → Node → EvalError → Prop where
  | unbound {frame globals name span} :
      frame.locals.lookup name = none → globals.lookup name = none →
      Raises settings frame globals (.leaf (.symbol name) span) ⟨.unknownSymbol name, span⟩
  | raised {frame globals head args span f last} :
      Course.Leads (frame.within settings head) (frame.course settings head args) globals
        (.fault f) last →
      Raises settings frame globals (.group .list (head :: args) span) ⟨f, head.span⟩
  | passed {frame globals head args span locals node next last e} :
      Course.Leads (frame.within settings head) (frame.course settings head args) globals
        (.ask locals node next) last →
      Raises settings (frame.inside head locals) last node e →
      Raises settings frame globals (.group .list (head :: args) span) e

/-- A call that evaluates anything is within the depth limit. -/
theorem course_asks {settings : Settings} {frame : Frame} {head node : Node} {args : List Node}
    {ev : Scope Value → Node → Threaded Value} {globals locals last : Scope Value}
    {next : Value → Course Value}
    (leads : Course.Leads ev (frame.course settings head args) globals (.ask locals node next)
      last) : frame.depth + 1 ≤ settings.maxDepth := by
  refine Int.not_lt.mp fun exceeded => ?_
  unfold course at leads
  rw [Course.call_exceeded exceeded] at leads
  cases leads with
  | reported leads => cases leads

theorem raises_of_eval {settings : Settings} {frame : Frame} {globals : Scope Value} {node : Node}
    {e : EvalError} (failed : (frame.eval settings node globals).1 = .error e) :
    frame.Raises settings globals node e := by
  induction measured : (settings.maxDepth - frame.depth).toNat using Nat.strongRecOn
    generalizing frame globals node with
  | ind levels ih =>
    cases node.form with
    | symbol name span =>
      rw [eval_symbol] at failed
      cases found : (frame.locals.lookup name).or (globals.lookup name) with
      | some value =>
        rw [found] at failed
        cases failed
      | none =>
        obtain ⟨here, there⟩ := Option.or_eq_none_iff.mp found
        rw [found] at failed
        cases failed
        exact .unbound here there
    | call head args span =>
      rw [eval_call] at failed
      obtain ⟨f, last, leads, rfl⟩ | ⟨locals, node, next, last, leads, failed⟩ :=
        Course.breaks_of_thread failed
      · exact .raised leads
      · have allowed := course_asks leads
        refine .passed leads (ih _ ?_ failed rfl)
        simp only [inside]
        omega
    | datum notSymbol notCall =>
      rw [eval_datum notSymbol notCall] at failed
      cases failed

theorem Raises.eval {settings : Settings} {frame : Frame} {globals : Scope Value} {node : Node}
    {e : EvalError} (raises : frame.Raises settings globals node e) :
    (frame.eval settings node globals).1 = .error e := by
  induction raises with
  | unbound here there => rw [eval_symbol, Option.or_eq_none_iff.mpr ⟨here, there⟩]
  | raised leads =>
    rw [eval_call]
    exact Course.Breaks.thread (.inl ⟨_, _, leads, rfl⟩)
  | passed leads _ ih =>
    rw [eval_call]
    exact Course.Breaks.thread (.inr ⟨_, _, _, _, leads, ih⟩)

end Frame

namespace Eval

/-- Evaluation on a context comes to the value or error, and to the globals, of the evaluation
that is handed the locals, the head to blame and the depth. An error is raised where the calls in
progress lead to: at the head of the innermost of them, or at a name that has no value. -/
theorem eval_refines_passing (ctx : Context) (node : Node) :
    ctx.frame.eval ctx.settings node ctx.globals =
      (((eval node).run ctx).1, ((eval node).run ctx).2.globals) ∧
    ∀ e, ((eval node).run ctx).1 = .error e ↔
      ctx.frame.Raises ctx.settings ctx.globals node e := by
  have passes := eval_passes node ctx
  have outcome : (ctx.frame.eval ctx.settings node ctx.globals).1 = ((eval node).run ctx).1 :=
    congrArg Prod.fst passes
  constructor
  · exact passes
  intro e
  rw [← outcome]
  constructor
  · exact Frame.raises_of_eval
  · exact Frame.Raises.eval

end Eval
end Lisplet
