import Lisplet.Proofs.Correspondence.Eval
import Lisplet.Session

/-!
The depth limit. An evaluation that the limit does not stop comes to the same under any higher
limit. One that it stops is stopped by the first call that is made with as many calls in progress
as the limit allows, and that call is the last thing that is evaluated.
-/

namespace Lisplet

namespace Outcome

variable {α : Type}

/-- Being stopped by the depth limit. -/
def Stopped (outcome : Except EvalError α × Scope Value) : Prop :=
  ∃ limit span, outcome.1 = .error ⟨.depthExceeded limit, span⟩

instance (outcome : Except EvalError α × Scope Value) : Decidable (Stopped outcome) :=
  match outcome with
  | (.error ⟨.depthExceeded limit, span⟩, _) => isTrue ⟨limit, span, rfl⟩
  | (.ok _, _) | (.error ⟨.unknownSymbol _, _⟩, _) | (.error ⟨.missingArguments, _⟩, _)
  | (.error ⟨.tooManyArguments, _⟩, _) | (.error ⟨.invalidFunction _, _⟩, _)
  | (.error ⟨.invalidArgument _, _⟩, _) => isFalse nofun

theorem not_stopped_ok (a : α) (globals : Scope Value) : ¬Stopped (.ok a, globals) := by
  rintro ⟨limit, span, same⟩
  cases same

/-- An error that stops one evaluation stops what it is passed on to. -/
theorem Stopped.passed {β : Type} {e : EvalError} {globals globals' : Scope Value}
    (stopped : Stopped ((.error e : Except EvalError α), globals)) :
    Stopped ((.error e : Except EvalError β), globals') := by
  obtain ⟨limit, span, same⟩ := stopped
  cases same
  exact ⟨limit, span, rfl⟩

end Outcome

namespace Course

variable {α : Type} {ev ev' : Scope Value → Node → Threaded Value}

/-- The step lemma of monotony: a course that is not stopped comes to the same with any evaluation
that does the same where it is not stopped. -/
theorem thread_mono
    (each : ∀ locals node globals, ¬Outcome.Stopped (ev locals node globals) →
      ev' locals node globals = ev locals node globals)
    (c : Course α) (site : Span) (globals : Scope Value)
    (unstopped : ¬Outcome.Stopped (c.thread ev site globals)) :
    c.thread ev' site globals = c.thread ev site globals := by
  induction c generalizing globals with
  | done a => rfl
  | fault f => rfl
  | ask locals node next ih =>
    have asked := each locals node globals
    simp only [thread] at unstopped ⊢
    generalize ev locals node globals = outcome at asked unstopped ⊢
    rcases outcome with ⟨e | v, between⟩
    · rw [asked fun stopped => unstopped stopped.passed]
    · rw [asked (Outcome.not_stopped_ok v between)]
      exact ih v between unstopped
  | define name value next ih => exact ih _ unstopped
  | report event next ih | print line next ih => exact ih globals unstopped

end Course

/-- The run lemma of monotony. A call that the lower limit allows is allowed by the higher one. -/
theorem Frame.eval_mono {settings : Settings} {limit : Int} (higher : settings.maxDepth ≤ limit)
    (frame : Frame) (node : Node) (globals : Scope Value)
    (unstopped : ¬Outcome.Stopped (frame.eval settings node globals)) :
    frame.eval { settings with maxDepth := limit } node globals =
      frame.eval settings node globals := by
  induction frame, node using Frame.induction settings generalizing globals with
  | symbol frame name span => rw [eval_symbol, eval_symbol]
  | call frame head args span ih =>
    rw [eval_call] at unstopped ⊢
    rw [eval_call]
    by_cases exceeded : settings.maxDepth < (frame.depth + 1 : Nat)
    · rw [Course.call_exceeded exceeded] at unstopped
      exact absurd ⟨settings.maxDepth, head.span, rfl⟩ unstopped
    · have allowed : ¬limit < (frame.depth + 1 : Nat) := by omega
      unfold Course.call at unstopped ⊢
      rw [if_neg exceeded] at unstopped ⊢
      rw [if_neg allowed]
      exact Course.thread_mono (ih exceeded) _ _ _ unstopped
  | datum frame node notSymbol notCall =>
    rw [eval_datum notSymbol notCall, eval_datum notSymbol notCall]

/-- Beginning to evaluate a node while `depth` calls are in progress. -/
structure Visit where
  node : Node
  depth : Nat

/-- A call is made with as many calls in progress as the limit allows, or more. -/
def Visit.Exceeds (limit : Int) (visit : Visit) : Prop :=
  (∃ head args span, visit.node = .group .list (head :: args) span) ∧ limit ≤ visit.depth

theorem Visit.not_exceeds {limit : Int} {node : Node} {depth : Nat}
    (notCall : ∀ head args span, node ≠ .group .list (head :: args) span) :
    ¬Visit.Exceeds limit ⟨node, depth⟩ := by
  rintro ⟨⟨head, args, span, same⟩, -⟩
  exact notCall head args span same

/-- Passing the globals through and telling what is evaluated, in order. -/
abbrev Watched (α : Type) : Type :=
  Scope Value → List Visit × Except EvalError α × Scope Value

def Course.watch {α : Type} (ev : Scope Value → Node → Watched Value) (site : Span) :
    Course α → Watched α
  | done a => fun globals => ([], .ok a, globals)
  | fault f => fun globals => ([], .error ⟨f, site⟩, globals)
  | ask locals node next => fun globals =>
    match ev locals node globals with
    | (seen, .ok v, globals) =>
      let (rest, outcome) := (next v).watch ev site globals
      (seen ++ rest, outcome)
    | (seen, .error e, globals) => (seen, .error e, globals)
  | define name value next => fun globals => next.watch ev site (globals.define name value)
  | report _ next => next.watch ev site
  | print _ next => next.watch ev site

namespace Frame

/-- Evaluates a node in a frame and tells what is evaluated on the way, the node itself first. -/
def watch (settings : Settings) (frame : Frame) : Node → Watched Value
  | .group .list (head :: args) span => fun globals =>
    if settings.maxDepth < (frame.depth + 1 : Nat) then
      ([⟨.group .list (head :: args) span, frame.depth⟩],
        .error ⟨.depthExceeded settings.maxDepth, head.span⟩, globals)
    else
      let (seen, outcome) :=
        (Course.call settings.maxDepth settings.terminal frame.locals (frame.depth + 1) head
          args).watch (fun locals node => watch settings (frame.inside head locals) node) head.span
            globals
      (⟨.group .list (head :: args) span, frame.depth⟩ :: seen, outcome)
  | node => fun globals => ([⟨node, frame.depth⟩], frame.eval settings node globals)
termination_by (settings.maxDepth - frame.depth).toNat
decreasing_by simp only [inside]; omega

theorem watch_call (settings : Settings) (frame : Frame) (head : Node) (args : List Node)
    (span : Span) (globals : Scope Value) :
    frame.watch settings (.group .list (head :: args) span) globals =
      let (seen, outcome) :=
        (Course.call settings.maxDepth settings.terminal frame.locals (frame.depth + 1) head
          args).watch (fun locals node => watch settings (frame.inside head locals) node) head.span
            globals
      (⟨.group .list (head :: args) span, frame.depth⟩ :: seen, outcome) := by
  rw [watch]
  split
  · rw [Course.call_exceeded ‹_›]
    rfl
  · rfl

theorem watch_other {settings : Settings} {frame : Frame} {node : Node}
    (notCall : ∀ head args span, node ≠ .group .list (head :: args) span)
    (globals : Scope Value) :
    frame.watch settings node globals =
      ([⟨node, frame.depth⟩], frame.eval settings node globals) := by
  rw [watch]
  exact notCall

end Frame

/-- Watching a course does not change what it comes to. -/
theorem Course.watch_outcome {α : Type} {ev : Scope Value → Node → Watched Value}
    {ref : Scope Value → Node → Threaded Value}
    (each : ∀ locals node globals, (ev locals node globals).2 = ref locals node globals)
    (c : Course α) (site : Span) (globals : Scope Value) :
    (c.watch ev site globals).2 = c.thread ref site globals := by
  induction c generalizing globals with
  | done a => rfl
  | fault f => rfl
  | ask locals node next ih =>
    simp only [watch, thread, ← each]
    rcases ev locals node globals with ⟨seen, e | v, between⟩
    · rfl
    · exact ih v between
  | define name value next ih => exact ih _
  | report event next ih | print line next ih => exact ih globals

theorem Frame.watch_outcome (settings : Settings) (frame : Frame) (node : Node)
    (globals : Scope Value) :
    (frame.watch settings node globals).2 = frame.eval settings node globals := by
  induction frame, node using Frame.induction settings generalizing globals with
  | symbol frame name span => rw [watch_other fun _ _ _ => Node.noConfusion]
  | call frame head args span ih =>
    rw [watch_call, eval_call]
    by_cases exceeded : settings.maxDepth < (frame.depth + 1 : Nat)
    · rw [Course.call_exceeded exceeded]
      rfl
    · exact Course.watch_outcome (ih exceeded) _ _ _
  | datum frame node _ notCall => rw [watch_other notCall]

/-- Either no call is beyond the limit and the evaluation is not stopped, or the evaluation is
stopped at the first call that is, which is the last thing evaluated. Calls that begin within the
limit get beyond it one by one. -/
inductive Limited (limit : Int) (depth : Nat) {α : Type} :
    List Visit × Except EvalError α × Scope Value → Prop where
  | within {seen outcome} : (∀ visit ∈ seen, ¬visit.Exceeds limit) → ¬Outcome.Stopped outcome →
      Limited limit depth (seen, outcome)
  | stopped (earlier : List Visit) (head : Node) (args : List Node) (span : Span) {deepest : Nat}
      {globals : Scope Value} : (∀ visit ∈ earlier, ¬visit.Exceeds limit) → limit ≤ deepest →
      (depth ≤ limit → deepest = limit) →
      Limited limit depth (earlier ++ [⟨.group .list (head :: args) span, deepest⟩],
        .error ⟨.depthExceeded limit, head.span⟩, globals)

namespace Limited

variable {α β : Type} {limit : Int} {depth : Nat} {seen rest : List Visit}

theorem after {outcome : Except EvalError α × Scope Value}
    (before : ∀ visit ∈ seen, ¬visit.Exceeds limit)
    (limited : Limited limit depth (rest, outcome)) :
    Limited limit depth (seen ++ rest, outcome) := by
  cases limited with
  | within later unstopped =>
    exact .within (List.forall_mem_append.mpr ⟨before, later⟩) unstopped
  | stopped earlier head args span later reached barely =>
    rw [← List.append_assoc]
    exact .stopped _ head args span (List.forall_mem_append.mpr ⟨before, later⟩) reached barely

/-- An error passes by the type of what would follow. -/
theorem error {e : EvalError} {globals : Scope Value}
    (limited : Limited limit depth (seen, (.error e : Except EvalError α), globals)) :
    Limited limit depth (seen, (.error e : Except EvalError β), globals) := by
  cases limited with
  | within before unstopped => exact .within before fun stopped => unstopped stopped.passed
  | stopped earlier head args span before reached barely =>
    exact .stopped earlier head args span before reached barely

/-- What begins deeper and within the limit also begins here. -/
theorem inner {result : List Visit × Except EvalError α × Scope Value} {deeper : Nat}
    (within : deeper ≤ limit) (limited : Limited limit deeper result) :
    Limited limit depth result := by
  cases limited with
  | within before unstopped => exact .within before unstopped
  | stopped earlier head args span before reached barely =>
    exact .stopped earlier head args span before reached fun _ => barely within

end Limited

/-- Everything corresponds to itself alone. -/
def Correspondence.identity : Correspondence where
  span := Eq
  value := Eq
  node locals locals' n n' := locals = locals' ∧ n = n'
  value_iff {v v'} := by
    constructor
    · rintro rfl
      cases v with
      | atom a => exact .atom a
      | seq shape items => exact .seq shape (List.forall₂_same.mpr fun _ _ => rfl)
      | builtin name operation => exact .builtin name operation
      | fn name params body => exact .fn name params ⟨rfl, rfl⟩
      | closure captured params body => exact .closure params ⟨rfl, rfl⟩
    · rintro (_ | ⟨shape, each⟩ | _ | ⟨_, _, -, rfl⟩ | ⟨_, rfl, rfl⟩)
      · rfl
      · rw [List.forall₂_eq_eq_eq] at each
        rw [each]
      · rfl
      · rfl
      · rfl
  matched {locals locals' n n'} := by
    rintro ⟨rfl, rfl⟩
    cases n with
    | leaf a span =>
      refine .leaf rfl fun name _ => ?_
      cases locals.lookup name with
      | none => exact .none
      | some v => exact .some rfl
    | group shape items span => exact .group shape rfl (List.forall₂_same.mpr fun _ _ => ⟨rfl, rfl⟩)
  bare both := ⟨rfl, both.2⟩
  define name both same := ⟨by rw [both.1, same], both.2⟩

/-- The step lemma of the limit: the limit is no fault of what is called, so a course is stopped
only in an evaluation that it asks for. -/
theorem Course.Corresponds.watch_limited {α α' : Type} {good : α → α' → Prop} {c : Course α}
    {c' : Course α'} {limit : Int} {depth : Nat} {ev : Scope Value → Node → Watched Value}
    (own : c.Corresponds .identity good c')
    (each : ∀ locals node globals, Limited limit depth (ev locals node globals))
    (site : Span) (globals : Scope Value) : Limited limit depth (c.watch ev site globals) := by
  induction own generalizing globals with
  | done _ => exact .within nofun (Outcome.not_stopped_ok _ _)
  | fault same =>
    refine .within nofun ?_
    rintro ⟨limit, span, stopped⟩
    cases stopped
    cases same
  | @ask locals _ node _ next _ _ _ ih =>
    have asked := each locals node globals
    simp only [watch]
    generalize ev locals node globals = outcome at asked ⊢
    rcases outcome with ⟨seen, e | v, between⟩
    · exact asked.error
    · cases asked with
      | within before _ => exact (ih v v rfl between).after before
  | define name _ _ ih => exact ih _
  | report event event' _ ih => exact ih globals
  | print line _ ih => exact ih globals

/-- The run lemma of the limit. -/
theorem Frame.watch_limited (settings : Settings) (frame : Frame) (node : Node)
    (globals : Scope Value) :
    Limited settings.maxDepth frame.depth (frame.watch settings node globals) := by
  induction frame, node using Frame.induction settings generalizing globals with
  | symbol frame name span =>
    have notCall : ∀ head args whole, Node.leaf (.symbol name) span ≠ .group .list (head :: args)
      whole := nofun
    rw [watch_other notCall, eval_symbol]
    refine .within (List.forall_mem_singleton.mpr (Visit.not_exceeds notCall)) ?_
    cases (frame.locals.lookup name).or (globals.lookup name) with
    | none =>
      rintro ⟨limit, span, same⟩
      cases same
    | some v => exact Outcome.not_stopped_ok v globals
  | call frame head args span ih =>
    rw [watch_call]
    by_cases exceeded : settings.maxDepth < (frame.depth + 1 : Nat)
    · rw [Course.call_exceeded exceeded]
      exact .stopped [] head args span nofun (by omega) (by omega)
    · let course := Course.call settings.maxDepth settings.terminal frame.locals
        (frame.depth + 1) head args
      have self (node : Node) : Correspondence.identity.node frame.locals frame.locals node node :=
        ⟨rfl, rfl⟩
      have own : course.Corresponds .identity Eq course :=
        Course.corresponds_call (List.forall₂_same.mpr fun node _ => self node) (self head) _ _ _
          exceeded
      have here : ¬Visit.Exceeds settings.maxDepth
          ⟨.group .list (head :: args) span, frame.depth⟩ := by
        rintro ⟨-, beyond⟩
        dsimp only at beyond
        omega
      have parts := own.watch_limited (ih exceeded) head.span globals
      exact (parts.inner (Int.not_lt.mp exceeded)).after (List.forall_mem_singleton.mpr here)
  | datum frame node notSymbol notCall =>
    rw [watch_other notCall, eval_datum notSymbol notCall]
    exact .within (List.forall_mem_singleton.mpr (Visit.not_exceeds notCall))
      (Outcome.not_stopped_ok _ _)

/-- What an evaluation in a context evaluates, in order, and what it comes to. -/
def Context.watch (ctx : Context) (node : Node) :
    List Visit × Except EvalError Value × Scope Value :=
  ctx.frame.watch ctx.settings node ctx.globals

namespace Eval

/-- A higher limit does not change what an evaluation comes to that is not stopped by the lower
one. An evaluation that is stopped tells the limit and the head of a call; that call is the first
one to be made with as many calls in progress as the limit allows, and nothing is evaluated after
it. The number is exact unless there were more calls in progress to begin with. -/
theorem limit_only_stops :
    (∀ (ctx : Context) (node : Node) (limit : Int), ctx.maxDepth ≤ limit →
      ¬Outcome.Stopped ((eval node).outcome ctx) →
      (eval node).outcome { ctx with maxDepth := limit } = (eval node).outcome ctx) ∧
    ∀ (ctx : Context) (node : Node), (ctx.watch node).2 = (eval node).outcome ctx ∧
      ∀ limit span, ((eval node).run ctx).1 = .error ⟨.depthExceeded limit, span⟩ →
        limit = ctx.maxDepth ∧
        ∃ earlier head args whole, ∃ depth : Nat,
          (ctx.watch node).1 = earlier ++ [⟨.group .list (head :: args) whole, depth⟩] ∧
          span = head.span ∧ ctx.maxDepth ≤ depth ∧
          (ctx.depth ≤ ctx.maxDepth → depth = ctx.maxDepth) ∧
          ∀ visit ∈ earlier, ¬visit.Exceeds ctx.maxDepth := by
  constructor
  · intro ctx node limit higher unstopped
    unfold outcome run at unstopped ⊢
    rw [← eval_passes] at unstopped ⊢
    rw [← eval_passes]
    exact Frame.eval_mono higher ctx.frame node ctx.globals unstopped
  · intro ctx node
    have watched : (ctx.watch node).2 = (eval node).outcome ctx :=
      (Frame.watch_outcome ..).trans (eval_passes node ctx)
    refine ⟨watched, fun limit span failed => ?_⟩
    have limited : Limited ctx.maxDepth ctx.depth (ctx.watch node) :=
      Frame.watch_limited ctx.settings ctx.frame node ctx.globals
    have stopped : (ctx.watch node).2.1 = .error ⟨.depthExceeded limit, span⟩ := by
      rw [watched]
      exact failed
    generalize ctx.watch node = seen at limited stopped ⊢
    cases limited with
    | within _ unstopped => exact absurd ⟨limit, span, stopped⟩ unstopped
    | stopped earlier head args whole before reached barely =>
      cases stopped
      exact ⟨rfl, earlier, head, args, whole, _, rfl, rfl, reached, barely, before⟩

/-- A function that calls itself is stopped, and one that does not is not. -/
theorem limit_only_stops_recursion :
    let source : Source := .ofText "(fn f [] (f)) (fn g [] 1)" none
    let ctx := ((Context.fresh 2 false).run source).2
    let call (name : String) : Node :=
      .group .list [.leaf (.symbol ⟨name⟩) (.emptyAt source 0)] (.emptyAt source 0)
    (¬Outcome.Stopped ((eval (call "g")).outcome ctx) ∧
      (eval (call "g")).outcome { ctx with maxDepth := 9 } = (eval (call "g")).outcome ctx) ∧
    Outcome.Stopped ((eval (call "f")).outcome ctx) ∧
      ∃ earlier head args whole, ∃ depth : Nat,
        (ctx.watch (call "f")).1 = earlier ++ [⟨.group .list (head :: args) whole, depth⟩] ∧
        depth = 2 ∧ ∀ visit ∈ earlier, ¬visit.Exceeds 2 := by
  intro source ctx call
  have unstopped : ¬Outcome.Stopped ((eval (call "g")).outcome ctx) := by decide +kernel
  have stopped : Outcome.Stopped ((eval (call "f")).outcome ctx) := by decide +kernel
  have limit : ctx.maxDepth = 2 := by decide +kernel
  have depth : ctx.depth = 0 := by decide +kernel
  refine ⟨⟨unstopped, limit_only_stops.1 ctx (call "g") 9 (by omega) unstopped⟩, stopped, ?_⟩
  obtain ⟨limit, span, failed⟩ := stopped
  obtain ⟨-, earlier, head, args, whole, depth, last, -, -, barely, before⟩ :=
    (limit_only_stops.2 ctx (call "f")).2 limit span failed
  refine ⟨earlier, head, args, whole, depth, last, ?_, ?_⟩
  · omega
  · simpa only [‹ctx.maxDepth = 2›] using before

end Eval
end Lisplet
