import Lisplet.Proofs.Eval.Asking
import Lisplet.Session
import Mathlib.Data.List.Chain

/-!
Evaluation step by step. A machine keeps the calls that wait for a value on a stack, and each of
its steps does one thing: it begins the evaluation of a node, goes on in the course of a call, or
hands an outcome to the innermost call that waits. No step looks at how far an evaluation may
still go; that every run of the machine comes to an end is the work of the depth limit.
-/

namespace Lisplet

namespace Machine

/-- A call in progress, with the nodes that it has had evaluated so far and their values. -/
structure Call where
  head : Node
  args : List Node
  depth : Nat
  evaluated : List Node
  values : List Value

/-- A call that waits for the value of the node that it has had evaluated last. -/
structure Waiting where
  call : Call
  next : Value → Course Value

inductive Task where
  | evaluate (frame : Frame) (node : Node)
  | proceed (call : Call) (course : Course Value)
  | give (outcome : Except EvalError Value)

/-- The calls that wait, the innermost first, what is being done, and the globals. -/
structure State where
  waiting : List Waiting
  task : Task
  globals : Scope Value

/-- What beginning to evaluate a node comes to: a call has a course to go through, and all else
has its outcome at once. -/
def begin (settings : Settings) (frame : Frame) (globals : Scope Value) : Node → Task
  | .leaf (.symbol name) span =>
    match (frame.locals.lookup name).or (globals.lookup name) with
    | some v => .give (.ok v)
    | none => .give (.error ⟨.unknownSymbol name, span⟩)
  | .group .list (head :: args) _ =>
    .proceed ⟨head, args, frame.depth + 1, [], []⟩ (frame.course settings head args)
  | node => .give (.ok node.toValue)

theorem begin_datum {settings : Settings} {frame : Frame} {globals : Scope Value} {node : Node}
    (notSymbol : ∀ name span, node ≠ .leaf (.symbol name) span)
    (notCall : ∀ head args span, node ≠ .group .list (head :: args) span) :
    begin settings frame globals node = .give (.ok node.toValue) := by
  rw [begin]
  · exact notSymbol
  · exact notCall

namespace State

def step (settings : Settings) : State → State
  | ⟨waiting, .evaluate frame node, globals⟩ =>
    ⟨waiting, begin settings frame globals node, globals⟩
  | ⟨waiting, .proceed _ (.done v), globals⟩ => ⟨waiting, .give (.ok v), globals⟩
  | ⟨waiting, .proceed call (.fault f), globals⟩ =>
    ⟨waiting, .give (.error ⟨f, call.head.span⟩), globals⟩
  | ⟨waiting, .proceed call (.ask locals node next), globals⟩ =>
    ⟨⟨{ call with evaluated := call.evaluated ++ [node] }, next⟩ :: waiting,
      .evaluate ⟨locals, call.head.span, call.depth⟩ node, globals⟩
  | ⟨waiting, .proceed call (.define name v next), globals⟩ =>
    ⟨waiting, .proceed call next, globals.define name v⟩
  | ⟨waiting, .proceed call (.report _ next), globals⟩ => ⟨waiting, .proceed call next, globals⟩
  | ⟨waiting, .proceed call (.print _ next), globals⟩ => ⟨waiting, .proceed call next, globals⟩
  | ⟨⟨call, next⟩ :: waiting, .give (.ok v), globals⟩ =>
    ⟨waiting, .proceed { call with values := call.values ++ [v] } (next v), globals⟩
  | ⟨_ :: waiting, .give (.error e), globals⟩ => ⟨waiting, .give (.error e), globals⟩
  | ⟨[], .give outcome, globals⟩ => ⟨[], .give outcome, globals⟩

/-- The state after a number of steps. -/
def after (settings : Settings) (state : State) : Nat → State
  | 0 => state
  | steps + 1 => (state.after settings steps).step settings

end State

/-- The machine that is to evaluate a node in a frame. -/
def start (frame : Frame) (node : Node) (globals : Scope Value) : State :=
  ⟨[], .evaluate frame node, globals⟩

/-- The machine that has come to an outcome. -/
def ended (outcome : Except EvalError Value × Scope Value) : State :=
  ⟨[], .give outcome.1, outcome.2⟩

variable {settings : Settings} {a b c : State} {waiting : List Waiting}

theorem after_add (state : State) (m n : Nat) :
    state.after settings (m + n) = (state.after settings m).after settings n := by
  induction n with
  | zero => rfl
  | succ n ih => exact congrArg (State.step settings) ih

theorem after_ended (outcome : Except EvalError Value × Scope Value) (steps : Nat) :
    (ended outcome).after settings steps = ended outcome := by
  induction steps with
  | zero => rfl
  | succ steps ih =>
    rw [State.after, ih, ended, State.step]

/-- From one state to another in finitely many steps. -/
def Reaches (settings : Settings) (a b : State) : Prop := ∃ steps, a.after settings steps = b

theorem Reaches.refl (state : State) : Reaches settings state state := ⟨0, rfl⟩

theorem Reaches.trans (first : Reaches settings a b) (second : Reaches settings b c) :
    Reaches settings a c := by
  obtain ⟨m, rfl⟩ := first
  obtain ⟨n, rfl⟩ := second
  exact ⟨m + n, after_add a m n⟩

theorem Reaches.step (rest : Reaches settings (a.step settings) b) : Reaches settings a b := by
  have first : Reaches settings a (a.step settings) := ⟨1, rfl⟩
  exact first.trans rest

/-- The step lemma of termination: the course of a call comes to an end if the evaluations that it
asks for do. -/
theorem reaches_thread {ev : Scope Value → Node → Threaded Value} {head : Node} {depth : Nat}
    (each : ∀ locals node waiting globals, Reaches settings
      ⟨waiting, .evaluate ⟨locals, head.span, depth⟩ node, globals⟩
      ⟨waiting, .give (ev locals node globals).1, (ev locals node globals).2⟩)
    (course : Course Value) (call : Call) (here : call.head = head) (deep : call.depth = depth)
    (globals : Scope Value) :
    Reaches settings ⟨waiting, .proceed call course, globals⟩
      ⟨waiting, .give (course.thread ev head.span globals).1,
        (course.thread ev head.span globals).2⟩ := by
  induction course generalizing call globals with
  | done v => exact .step (.refl _)
  | fault f =>
    apply Reaches.step
    rw [← here]
    exact .refl _
  | ask locals node next ih =>
    apply Reaches.step
    subst here deep
    apply (each locals node _ globals).trans
    simp only [Course.thread]
    rcases ev locals node globals with ⟨e | v, between⟩
    · exact .step (.refl _)
    · apply Reaches.step
      exact ih v ⟨call.head, call.args, call.depth, call.evaluated ++ [node], call.values ++ [v]⟩
        rfl rfl between
  | define name v next ih => exact .step (ih call here deep _)
  | report event next ih | print line next ih => exact .step (ih call here deep globals)

/-- The run lemma of termination: whatever waits for its outcome, an evaluation comes to the one
that it has when the globals are passed through. -/
theorem reaches_outcome (settings : Settings) (frame : Frame) (node : Node)
    (waiting : List Waiting) (globals : Scope Value) :
    Reaches settings ⟨waiting, .evaluate frame node, globals⟩
      ⟨waiting, .give (frame.eval settings node globals).1,
        (frame.eval settings node globals).2⟩ := by
  induction frame, node using Frame.induction settings generalizing waiting globals with
  | symbol frame name span =>
    apply Reaches.step
    rw [Frame.eval_symbol, State.step, begin]
    cases (frame.locals.lookup name).or (globals.lookup name) with
    | none => exact .refl _
    | some v => exact .refl _
  | call frame head args span ih =>
    apply Reaches.step
    rw [Frame.eval_call, State.step, begin, Frame.course]
    by_cases exceeded : settings.maxDepth < (frame.depth + 1 : Nat)
    · rw [Course.call_exceeded exceeded]
      exact .step (.step (.refl _))
    · exact reaches_thread (ih exceeded) _ _ rfl rfl globals
  | datum frame node notSymbol notCall =>
    apply Reaches.step
    rw [Frame.eval_datum notSymbol notCall, State.step, begin_datum notSymbol notCall]
    exact .refl _

/-- The nodes that a call may evaluate, as far as it is known what its head has come to. -/
def Call.row (call : Call) : List Node :=
  call.head :: match call.values with
    | [] => []
    | callee :: _ => callee.operands call.args

/-- A call has evaluated some nodes of its row, in their order and each at most once. -/
def Call.Selects (call : Call) : Prop := call.evaluated.Sublist call.row

/-- What is left of the course of a call. A call beyond the limit asks for nothing; one within it
asks for its head first and then for operands of the value that the head has come to. -/
inductive Call.Fits (limit : Int) (call : Call) : Course Value → Prop where
  | exceeding {course} : course.Asks [] → Fits limit call course
  | beginning {locals next} : (call.depth : Int) ≤ limit → call.evaluated = [] →
      call.values = [] → (∀ f, (next f).Asks (f.operands call.args)) →
      Fits limit call (.ask locals call.head next)
  | within {course} (rest : List Node) : (call.depth : Int) ≤ limit → call.values ≠ [] →
      (call.evaluated ++ rest).Sublist call.row → course.Asks rest → Fits limit call course

/-- Calls that wait one inside the other, each one level deeper than the one around it and all
within the limit; the outermost is one level below `depth`, and the innermost is at `inner`. -/
inductive Nested (limit : Int) (depth : Nat) : List Waiting → Nat → Prop where
  | nil : Nested limit depth [] depth
  | cons {call next waiting inner} : Nested limit depth waiting inner → call.depth = inner + 1 →
      (call.depth : Int) ≤ limit → call.Selects →
      (∀ v, Call.Fits limit { call with values := call.values ++ [v] } (next v)) →
      Nested limit depth (⟨call, next⟩ :: waiting) (inner + 1)

def State.Nests (limit : Int) (depth : Nat) : State → Prop
  | ⟨waiting, .evaluate frame _, _⟩ => Nested limit depth waiting frame.depth
  | ⟨waiting, .proceed call course, _⟩ =>
    ∃ inner, Nested limit depth waiting inner ∧ call.depth = inner + 1 ∧ call.Fits limit course
  | ⟨waiting, .give _, _⟩ => ∃ inner, Nested limit depth waiting inner

variable {limit : Int} {depth : Nat}

theorem fits_begin (settings : Settings) (frame : Frame) (head : Node) (args : List Node) :
    Call.Fits settings.maxDepth ⟨head, args, frame.depth + 1, [], []⟩
      (frame.course settings head args) := by
  unfold Frame.course
  by_cases exceeded : settings.maxDepth < (frame.depth + 1 : Nat)
  · rw [Course.call_exceeded exceeded]
    exact .exceeding trivial
  · unfold Course.call
    rw [if_neg exceeded]
    apply Call.Fits.beginning
    · exact Int.not_lt.mp exceeded
    · rfl
    · rfl
    · intro f
      exact Course.asks_apply settings.terminal f args

/-- A call that asks for a node is within the limit, and it still fits with that node among those
that it has evaluated, whatever value the node comes to. -/
theorem Call.Fits.ask {call : Call} {locals : Scope Value} {node : Node}
    {next : Value → Course Value} (fits : call.Fits limit (.ask locals node next)) :
    let asked : Call := { call with evaluated := call.evaluated ++ [node] }
    (call.depth : Int) ≤ limit ∧ asked.Selects ∧
      ∀ v, Call.Fits limit { asked with values := asked.values ++ [v] } (next v) := by
  cases fits with
  | exceeding asks =>
    obtain ⟨rest, front, -⟩ := asks
    cases front
  | beginning allowed none unknown operands =>
    refine ⟨allowed, ?_, fun v => .within (v.operands call.args) allowed ?_ ?_ (operands v)⟩
    · simp [Call.Selects, Call.row, none, unknown]
    · simp
    · simp [Call.row, none, unknown]
  | within rest allowed known selected asks =>
    obtain ⟨behind, front, later⟩ := asks
    obtain ⟨callee, others, values⟩ := List.exists_cons_of_ne_nil known
    have selected : (call.evaluated ++ [node] ++ behind).Sublist call.row := by
      apply List.Sublist.trans _ selected
      simpa using front
    refine ⟨allowed, ?_, fun v => .within behind allowed ?_ ?_ (later v)⟩
    · exact (List.sublist_append_left _ behind).trans selected
    · simp
    · simpa [Call.row, values] using selected

theorem Call.Fits.next {call : Call} {course rest : Course Value}
    (fits : call.Fits limit course) (later : ∀ row, course.Asks row → rest.Asks row)
    (own : ∀ locals node next, course ≠ .ask locals node next) : call.Fits limit rest := by
  cases fits with
  | exceeding asks => exact .exceeding (later [] asks)
  | beginning => exact absurd rfl (own _ _ _)
  | within row allowed known selected asks =>
    exact .within row allowed known selected (later row asks)

/-- The step lemma of nesting. -/
theorem State.Nests.step {state : State} (nests : state.Nests settings.maxDepth depth) :
    (state.step settings).Nests settings.maxDepth depth := by
  obtain ⟨waiting, task, globals⟩ := state
  cases task with
  | evaluate frame node =>
    have nested : Nested settings.maxDepth depth waiting frame.depth := nests
    cases node.form with
    | symbol name span =>
      simp only [State.step, begin]
      cases (frame.locals.lookup name).or (globals.lookup name) with
      | none => exact ⟨frame.depth, nested⟩
      | some v => exact ⟨frame.depth, nested⟩
    | call head args span => exact ⟨frame.depth, nested, rfl, fits_begin settings frame head args⟩
    | datum notSymbol notCall =>
      rw [State.step, begin_datum notSymbol notCall]
      exact ⟨frame.depth, nested⟩
  | proceed call course =>
    obtain ⟨inner, nested, deep, fits⟩ := nests
    cases course with
    | done v => exact ⟨inner, nested⟩
    | fault f => exact ⟨inner, nested⟩
    | ask locals node next =>
      obtain ⟨allowed, selects, later⟩ := fits.ask
      let asked : Call := { call with evaluated := call.evaluated ++ [node] }
      have deeper : Nested settings.maxDepth depth (⟨asked, next⟩ :: waiting) (inner + 1) :=
        .cons nested deep allowed selects later
      rw [← deep] at deeper
      exact deeper
    | define name v next | report event next | print line next =>
      refine ⟨inner, nested, deep, fits.next (fun _ => id) ?_⟩
      rintro locals node next ⟨⟩
  | give outcome =>
    obtain ⟨inner, nested⟩ := nests
    cases nested with
    | nil =>
      rw [State.step]
      exact ⟨depth, .nil⟩
    | cons nested deep _ _ fits =>
      cases outcome with
      | error e => exact ⟨_, nested⟩
      | ok v => exact ⟨_, nested, deep, fits v⟩

/-- The run lemma of nesting. -/
theorem after_nests (settings : Settings) (frame : Frame) (node : Node) (globals : Scope Value)
    (steps : Nat) :
    ((start frame node globals).after settings steps).Nests settings.maxDepth frame.depth := by
  induction steps with
  | zero => exact .nil
  | succ steps ih => exact ih.step

/-- The levels that the limit leaves to a call, the call included. -/
def Call.levels (limit : Int) (call : Call) : Int := limit + 1 - call.depth

theorem Nested.isChain {inner : Nat} (nested : Nested limit depth waiting inner) :
    (waiting.map fun w => w.call.levels limit).IsChain
      (fun inner outer => inner + 1 = outer) := by
  induction nested with
  | nil => exact .nil
  | @cons call next waiting inner nested deep _ _ _ ih =>
    cases nested with
    | nil => exact .singleton _
    | cons nested deeper =>
      apply List.IsChain.cons_cons
      · simp only [Call.levels]
        omega
      · exact ih

theorem Nested.call {inner : Nat} (nested : Nested limit depth waiting inner) :
    depth ≤ inner ∧
      ∀ w ∈ waiting, 0 < w.call.levels limit ∧ depth < w.call.depth ∧ w.call.Selects := by
  induction nested with
  | nil => simp
  | @cons call next waiting inner nested deep allowed selects _ ih =>
    obtain ⟨below, around⟩ := ih
    have spare : 0 < call.levels limit := by
      simp only [Call.levels]
      omega
    have deeper : depth < call.depth := by omega
    exact ⟨by omega, List.forall_mem_cons.mpr ⟨⟨spare, deeper, selects⟩, around⟩⟩

theorem State.Nests.exists_nested {state : State} (nests : state.Nests limit depth) :
    ∃ inner, Nested limit depth state.waiting inner := by
  obtain ⟨waiting, task, globals⟩ := state
  cases task with
  | evaluate frame node => exact ⟨frame.depth, nests⟩
  | proceed call course =>
    obtain ⟨inner, nested, -⟩ := nests
    exact ⟨inner, nested⟩
  | give outcome => exact nests

end Machine

namespace Eval

/-- Evaluation ends. Step by step, every evaluation comes to its value or error after finitely
many steps. Calls alone have further nodes evaluated. Of the calls that are in progress at any
time each has one level less than the one around it and none has used up the levels that the limit
leaves, and each has had evaluated no more than its head and some of its operands, in their
order. -/
theorem eval_ends (ctx : Context) (node : Node) :
    let machine := (Machine.start ctx.frame node ctx.globals).after ctx.settings
    (∃ steps, ∀ more, machine (steps + more) =
      Machine.ended (((eval node).run ctx).1, ((eval node).run ctx).2.globals)) ∧
    (∀ frame globals node, (∀ head args span, node ≠ .group .list (head :: args) span) →
      ∃ outcome, Machine.begin ctx.settings frame globals node = .give outcome) ∧
    ∀ steps,
      ((machine steps).waiting.map fun w => w.call.levels ctx.maxDepth).IsChain
        (fun inner outer => inner + 1 = outer) ∧
      ∀ w ∈ (machine steps).waiting,
        0 < w.call.levels ctx.maxDepth ∧ ctx.depth < w.call.depth ∧ w.call.Selects := by
  refine ⟨?_, ?_, ?_⟩
  · have ends := Machine.reaches_outcome ctx.settings ctx.frame node [] ctx.globals
    rw [eval_passes] at ends
    obtain ⟨steps, ends⟩ := ends
    refine ⟨steps, fun more => ?_⟩
    rw [Machine.after_add, Machine.start, ends]
    exact Machine.after_ended ((eval node ctx).1, (eval node ctx).2.globals) more
  · intro frame globals node notCall
    cases node.form with
    | symbol name span =>
      rw [Machine.begin]
      cases (frame.locals.lookup name).or (globals.lookup name) with
      | none => exact ⟨_, rfl⟩
      | some v => exact ⟨_, rfl⟩
    | call head args span => exact absurd rfl (notCall head args span)
    | datum notSymbol notCall => exact ⟨_, Machine.begin_datum notSymbol notCall⟩
  · intro steps
    have nests := Machine.after_nests ctx.settings ctx.frame node ctx.globals steps
    obtain ⟨inner, nested⟩ := nests.exists_nested
    exact ⟨nested.isChain, nested.call.2⟩

/-- A call of a builtin, which waits for its head after two steps. -/
theorem eval_ends_vector :
    let span : Span := .emptyAt (.ofText "(vec nil)" none) 0
    let node : Node := .group .list [.leaf (.symbol ⟨"vec"⟩) span, .leaf .nil span] span
    let ctx := Context.fresh 5 false
    let machine := (Machine.start ctx.frame node ctx.globals).after ctx.settings
    (∃ steps, machine steps =
      Machine.ended (((eval node).run ctx).1, ((eval node).run ctx).2.globals)) ∧
    (∃ outcome, Machine.begin ctx.settings ctx.frame ctx.globals (.leaf .nil span) =
      .give outcome) ∧
    ∃ w, (machine 2).waiting = [w] ∧ 0 < w.call.levels 5 ∧ w.call.Selects := by
  intro span node ctx machine
  obtain ⟨⟨steps, ends⟩, datum, waits⟩ := eval_ends ctx node
  have noCall : ∀ head args whole, Node.leaf .nil span ≠ .group .list (head :: args) whole := by
    rintro head args whole ⟨⟩
  refine ⟨⟨steps, ends 0⟩, datum ctx.frame ctx.globals (.leaf .nil span) noCall, ?_⟩
  obtain ⟨w, alone⟩ : ∃ w, (machine 2).waiting = [w] := ⟨_, rfl⟩
  have member : w ∈ (machine 2).waiting := by
    rw [alone]
    exact List.mem_singleton_self w
  obtain ⟨spare, -, selects⟩ := (waits 2).2 w member
  exact ⟨w, alone, spare, selects⟩

end Eval
end Lisplet
