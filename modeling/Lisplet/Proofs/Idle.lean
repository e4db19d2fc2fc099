import Lisplet.Proofs.Eval.Levels
import Lisplet.Session

/-!
Between the forms of a session no call is in progress. A session is any sequence of requests to
a fresh context; a request may bring locals of its own, which end with it.
-/

namespace Lisplet

/-- What is asked of a context from outside. -/
inductive Request where
  | run (source : Source)
  | value (source : Source)
  | valueUnder (locals : Scope Value) (source : Source)
  | nodeUnder (locals : Scope Value) (node : Node)

namespace Context

def after (ctx : Context) : Request → Context
  | .run source => (ctx.run source).2
  | .value source => (ctx.value source).2
  | .valueUnder locals source => (ctx.valueUnder locals source).2
  | .nodeUnder locals node => ((Eval.withLocals locals (Eval.eval node)).run ctx).2

def afterAll (ctx : Context) (requests : List Request) : Context := requests.foldl after ctx

/-- No call is in progress. -/
structure Idle (ctx : Context) : Prop where
  locals : ctx.locals = .empty
  site : ctx.site = .emptyAt (.ofText "" none) 0
  depth : ctx.depth = 0

variable {before ctx : Context}

theorem Restored.idle (kept : before.Restored ctx) (idle : before.Idle) : ctx.Idle :=
  ⟨kept.locals.trans idle.locals, kept.site.trans idle.site, kept.depth.trans idle.depth⟩

theorem record_restored (ctx : Context) (event : Event) : ctx.Restored (ctx.record event) :=
  ⟨rfl, rfl, rfl, rfl, rfl⟩

theorem recordAll_restored (ctx : Context) (events : List Event) :
    ctx.Restored (ctx.recordAll events) := by
  induction events generalizing ctx with
  | nil => exact .refl ctx
  | cons event events ih => exact (ctx.record_restored event).trans (ih _)

theorem read_restored (ctx : Context) (source : Source) : ctx.Restored (ctx.read source).2 :=
  ctx.recordAll_restored _

theorem runForm_restored (ctx : Context) (node : Node) : ctx.Restored (ctx.runForm node).2 := by
  have kept := Eval.eval_restored node ctx
  unfold runForm Eval.run
  generalize Eval.eval node ctx = outcome at kept ⊢
  rcases outcome with ⟨_ | v, after⟩
  · exact kept.trans (after.record_restored _)
  · exact kept

theorem runForms_restored (ctx : Context) (forms : List Node) :
    ctx.Restored (ctx.runForms forms).2 := by
  induction forms generalizing ctx with
  | nil => exact .refl ctx
  | cons node nodes ih => exact (ctx.runForm_restored node).trans (ih _)

theorem run_restored (ctx : Context) (source : Source) : ctx.Restored (ctx.run source).2 := by
  have kept := ctx.read_restored source
  unfold run
  generalize ctx.read source = found at kept ⊢
  rcases found with ⟨_ | forms, after⟩
  · exact kept
  · exact kept.trans (after.runForms_restored forms)

theorem lastValue_restores {ev : Eval.Evaluator} (restores : ∀ node, (ev node).Restores)
    (last : Value) (forms : List Node) : (Eval.lastValue ev last forms).Restores := by
  induction forms generalizing last with
  | nil => exact .refl
  | cons node nodes ih => exact (restores node).bind fun v => ih v

theorem valueWith_restored {ev : Eval.Evaluator} (restores : ∀ node, (ev node).Restores)
    (ctx : Context) (source : Source) : ctx.Restored (ctx.valueWith ev source).2 := by
  have kept := ctx.read_restored source
  unfold valueWith
  generalize ctx.read source = found at kept ⊢
  rcases found with ⟨_ | forms, after⟩
  · exact kept
  · have kept := kept.trans (lastValue_restores restores .nil forms after)
    dsimp only [Eval.run]
    generalize Eval.lastValue ev .nil forms after = outcome at kept ⊢
    rcases outcome with ⟨_ | v, final⟩
    · exact kept
    · exact kept

theorem recordAll_eq (ctx : Context) (events : List Event) :
    ctx.recordAll events = { ctx with journal := (ctx.recordAll events).journal } := by
  induction events generalizing ctx with
  | nil => rfl
  | cons event events ih => exact ih (ctx.record event)

theorem read_eq (ctx : Context) (source : Source) :
    (ctx.read source).2 = { ctx with journal := (ctx.read source).2.journal } :=
  ctx.recordAll_eq _

theorem runForms_append (ctx : Context) (forms more : List Node) :
    (ctx.runForms (forms ++ more)).1 =
        (ctx.runForms forms).1 ++ ((ctx.runForms forms).2.runForms more).1 ∧
      (ctx.runForms (forms ++ more)).2 = ((ctx.runForms forms).2.runForms more).2 := by
  induction forms generalizing ctx with
  | nil => exact ⟨rfl, rfl⟩
  | cons node nodes ih =>
    obtain ⟨results, final⟩ := ih (ctx.runForm node).2
    exact ⟨congrArg (List.cons _) results, final⟩

theorem run_of_parse {source : Source} {forms : List Node} (parsed : source.parse = .ok forms)
    (ctx : Context) :
    ctx.run source = (.ok ((ctx.read source).2.runForms forms).1,
      ((ctx.read source).2.runForms forms).2) := by
  have found : (ctx.read source).1 = .ok forms := parsed
  unfold run
  generalize ctx.read source = read at found ⊢
  obtain ⟨_, after⟩ := read
  cases found
  rfl

theorem nodeUnder_restores (locals : Scope Value) (node : Node) :
    (Eval.withLocals locals (Eval.eval node)).Restores :=
  (Eval.eval_restored node).withLocals locals

theorem after_restored (ctx : Context) (request : Request) : ctx.Restored (ctx.after request) := by
  cases request with
  | run source => exact ctx.run_restored source
  | value source => exact valueWith_restored Eval.eval_restored ctx source
  | valueUnder locals source => exact valueWith_restored (nodeUnder_restores locals) ctx source
  | nodeUnder locals node => exact nodeUnder_restores locals node ctx

theorem afterAll_restored (ctx : Context) (requests : List Request) :
    ctx.Restored (ctx.afterAll requests) := by
  induction requests generalizing ctx with
  | nil => exact .refl ctx
  | cons request requests ih => exact (ctx.after_restored request).trans (ih _)

theorem fresh_idle (maxDepth : Int) (terminal : Bool) : (fresh maxDepth terminal).Idle :=
  ⟨rfl, rfl, rfl⟩

/-- Evaluation restores what it found on every exit, the parts of calls being evaluated by the
same evaluation; so no call is in progress before, after or between the forms of a source,
whichever of the forms have failed. -/
theorem idle_between_forms :
    (∀ node, Eval.eval node = Eval.evalNode Eval.eval node) ∧
    (∀ (ctx : Context) (node : Node), ctx.Restored ((Eval.eval node).run ctx).2) ∧
    ∀ (maxDepth : Int) (terminal : Bool) (requests : List Request),
      ((fresh maxDepth terminal).afterAll requests).Idle ∧
      ∀ (source : Source) (forms : List Node) (locals : Scope Value),
        let ready := (((fresh maxDepth terminal).afterAll requests).read source).2
        (ready.runForms forms).2.Idle ∧
        ((Eval.lastValue Eval.eval .nil forms).run ready).2.Idle ∧
        ((Eval.lastValue (fun node => .withLocals locals (Eval.eval node)) .nil forms).run
          ready).2.Idle := by
  constructor
  · exact Eval.eval_eq_evalNode
  constructor
  · intro ctx node
    exact Eval.eval_restored node ctx
  intro maxDepth terminal requests
  have idle : ((fresh maxDepth terminal).afterAll requests).Idle :=
    (afterAll_restored _ requests).idle (fresh_idle maxDepth terminal)
  constructor
  · exact idle
  intro source forms locals
  have ready := (read_restored _ source).idle idle
  refine ⟨?_, ?_, ?_⟩
  · exact (runForms_restored _ forms).idle ready
  · exact (lastValue_restores Eval.eval_restored .nil forms _).idle ready
  · exact (lastValue_restores (nodeUnder_restores locals) .nil forms _).idle ready

end Context
end Lisplet
