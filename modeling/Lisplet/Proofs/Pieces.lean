import Lisplet.Proofs.Correspondence.MapSpan
import Lisplet.Proofs.Kept
import Lisplet.Proofs.Node.Completion

/-!
Entering a program in pieces is the same as running it whole. Where a text stands in the whole is
all that tells the two apart, and only the spans in results and in the bodies of functions and
closures show it.
-/

namespace Lisplet

/-- Every span in a node is one of those that `p` tells. -/
inductive Node.Spans (p : Span → Prop) : Node → Prop where
  | leaf (a : Atom) {span : Span} : p span → Spans p (.leaf a span)
  | group (shape : Shape) {items : List Node} {span : Span} : p span →
      (∀ node ∈ items, Spans p node) → Spans p (.group shape items span)

/-- Every span in the bodies of functions and closures is one of those that `p` tells. -/
inductive Value.Spans (p : Span → Prop) : Value → Prop where
  | atom (a : Atom) : Spans p (.atom a)
  | seq (shape : Shape) {items : List Value} : (∀ v ∈ items, Spans p v) →
      Spans p (.seq shape items)
  | builtin (name : Symbol) (operation : Operation) : Spans p (.builtin name operation)
  | fn (name : Symbol) (params : List Symbol) {body : Node} : body.Spans p →
      Spans p (.fn name params body)
  | closure {captured : Scope Value} (params : List Symbol) {body : Node} :
      (∀ entry ∈ captured.entries, Spans p entry.2) → body.Spans p →
      Spans p (.closure captured params body)

def Scope.Spans (p : Span → Prop) (scope : Scope Value) : Prop :=
  ∀ entry ∈ scope.entries, entry.2.Spans p

/-- The spans of a request: those in what it brings along, and all that its source has. -/
def Request.Spans (p : Span → Prop) : Request → Prop
  | run source | value source => ∀ span : Span, span.source = source → p span
  | valueUnder locals source => locals.Spans p ∧ ∀ span : Span, span.source = source → p span
  | nodeUnder locals node => locals.Spans p ∧ node.Spans p

section Fixed

variable {f : Span → Span} {p : Span → Prop} (fixes : ∀ span, p span → f span = span)
include fixes

theorem Node.Spans.mapSpan {node : Node} (spans : node.Spans p) : node.mapSpan f = node := by
  induction spans with
  | leaf a span => rw [Node.mapSpan, fixes _ span]
  | group shape span _ ih =>
    rw [Node.mapSpan, fixes _ span, Node.mapSpans_eq_map, List.map_congr_left ih, List.map_id']

omit fixes in
theorem Scope.mapSpan_of_entries {scope : Scope Value}
    (each : ∀ entry ∈ scope.entries, entry.2.mapSpan f = entry.2) : scope.mapSpan f = scope := by
  have same : ∀ entry ∈ scope.entries, Prod.map id (Value.mapSpan f) entry = entry :=
    fun entry member => Prod.ext rfl (each entry member)
  rw [Scope.mapSpan_eq_map, List.map_congr_left same, List.map_id']

theorem Value.Spans.mapSpan {v : Value} (spans : v.Spans p) : v.mapSpan f = v := by
  induction spans with
  | atom | builtin => rfl
  | seq shape _ ih =>
    rw [Value.mapSpan, Value.mapSpans_eq_map, List.map_congr_left ih, List.map_id']
  | fn name params body => rw [Value.mapSpan, body.mapSpan fixes]
  | closure params _ body ih =>
    rw [Value.mapSpan, body.mapSpan fixes, Scope.mapSpan_of_entries ih]

theorem Scope.Spans.mapSpan {scope : Scope Value} (spans : scope.Spans p) :
    scope.mapSpan f = scope :=
  Scope.mapSpan_of_entries fun entry member => (spans entry member).mapSpan fixes

end Fixed

theorem Node.mapSpan_mapSpan (f g : Span → Span) (node : Node) :
    (node.mapSpan g).mapSpan f = node.mapSpan (f ∘ g) := by
  induction node using Node.induction with
  | leaf a span => rfl
  | group shape items span ih =>
    simp only [mapSpan, mapSpans_eq_map, List.map_map]
    exact congrArg (group shape · _) (List.map_congr_left ih)

namespace Source

variable {source : Source} {forms : List Node}

/-- The spans in what a source is parsed into are in the source. -/
theorem parse_self (parsed : source.parse = .ok forms) :
    forms.map (Node.mapSpan (Span.moved source 0)) = forms := by
  have again := readAll_moved parsed source 0 []
  rw [← lexemes_eq] at again
  have same := Growth.mk.inj (Except.ok.inj ((parse_eq_ok_iff.mp parsed).symm.trans again))
  rw [List.append_nil, List.reverse_inj] at same
  exact same.1.symm

/-- What a change of spans does to forms is what it does to the spans of their source. -/
theorem mapSpan_congr {f g : Span → Span} (parsed : source.parse = .ok forms)
    (same : ∀ span, span.source = source → f span = g span) :
    forms.map (Node.mapSpan f) = forms.map (Node.mapSpan g) := by
  have along : f ∘ Span.moved source 0 = g ∘ Span.moved source 0 :=
    funext fun span => same _ rfl
  rw [← parse_self parsed, List.map_map, List.map_map]
  refine List.map_congr_left fun node _ => ?_
  rw [Function.comp, Function.comp, Node.mapSpan_mapSpan, Node.mapSpan_mapSpan, along]

/-- A change of spans that leaves those of a source as they are. -/
theorem mapSpan_forms {f : Span → Span} (parsed : source.parse = .ok forms)
    (fixes : ∀ span, span.source = source → f span = span) :
    forms.map (Node.mapSpan f) = forms := by
  refine (mapSpan_congr parsed fun span here => ?_).trans (parse_self parsed)
  subst here
  rw [fixes span rfl, Span.moved, Nat.zero_add, Nat.zero_add]

end Source

/-- A form and what became of it, with their spans changed. -/
def FormResult.mapSpan (f : Span → Span) (result : FormResult) : FormResult :=
  ⟨result.node.mapSpan f, Outcome.mapSpan f result.outcome⟩

namespace Context

variable {f : Span → Span} {p : Span → Prop} {ctx ctx' : Context}

/-- What is reported does not count. -/
theorem Respanned.reported (both : ctx.Respanned f ctx') (journal journal' : List Event) :
    ({ ctx with journal := journal } : Context).Respanned f { ctx' with journal := journal' } :=
  ⟨both.locals, both.globals, both.settings, both.depth⟩

theorem Respanned.read (both : ctx.Respanned f ctx') (source : Source) :
    (ctx.read source).2.Respanned f ctx' := by
  rw [read_eq]
  exact both.reported _ ctx'.journal

theorem Respanned.read_right (both : ctx.Respanned f ctx') (source : Source) :
    ctx.Respanned f (ctx'.read source).2 := by
  rw [read_eq]
  exact both.reported ctx.journal _

theorem runForm_respanned (both : ctx.Respanned f ctx') (node : Node) :
    (ctx'.runForm (node.mapSpan f)).1 = (ctx.runForm node).1.mapSpan f ∧
      (ctx.runForm node).2.Respanned f (ctx'.runForm (node.mapSpan f)).2 := by
  have outcome : (Eval.eval (node.mapSpan f) ctx').1 = Outcome.mapSpan f (Eval.eval node ctx).1 :=
    congrArg Prod.fst (Eval.outcome_mapSpan both node)
  have after := Eval.eval_respanned both node
  unfold runForm Eval.run
  generalize Eval.eval node ctx = before, Eval.eval (node.mapSpan f) ctx' = behind
    at outcome after ⊢
  obtain ⟨result, reached⟩ := before
  obtain ⟨_, reached'⟩ := behind
  cases outcome
  cases result with
  | ok v => exact ⟨rfl, after⟩
  | error e => exact ⟨rfl, after.reported _ _⟩

theorem runForms_respanned (both : ctx.Respanned f ctx') (forms : List Node) :
    (ctx'.runForms (forms.map (Node.mapSpan f))).1 =
        (ctx.runForms forms).1.map (FormResult.mapSpan f) ∧
      (ctx.runForms forms).2.Respanned f (ctx'.runForms (forms.map (Node.mapSpan f))).2 := by
  induction forms generalizing ctx ctx' with
  | nil => exact ⟨rfl, both⟩
  | cons node nodes ih =>
    obtain ⟨result, after⟩ := runForm_respanned both node
    obtain ⟨results, final⟩ := ih after
    exact ⟨congrArg₂ List.cons result results, final⟩

end Context

namespace Eval

variable {α β : Type} {f : Span → Span}

/-- From a context that a change of spans leaves as it is an action comes to another such one. -/
def Fixes (f : Span → Span) (x : Eval α) : Prop :=
  ∀ ctx : Context, ctx.Respanned f ctx → (x ctx).2.Respanned f (x ctx).2

/-- Fixing is maintaining what is fixed. -/
theorem Fixes.maintains {x : Eval α} (fixes : x.Fixes f) :
    x.Maintains (fun ctx => ctx.Respanned f ctx) (fun _ => True) fun _ => True :=
  fun ctx fixed => ⟨fun _ _ => trivial, fun _ _ => trivial, fixes ctx fixed⟩

theorem Fixes.withLocals {x : Eval α} (inner : x.Fixes f) {locals : Scope Value}
    (same : locals.mapSpan f = locals) : (withLocals locals x).Fixes f := by
  intro ctx fixed
  have step := inner { ctx with locals := locals } ⟨same, fixed.globals, rfl, rfl⟩
  exact ⟨fixed.locals, step.globals, rfl, rfl⟩

theorem eval_fixes {node : Node} (same : node.mapSpan f = node) : (eval node).Fixes f := by
  intro ctx fixed
  have step := eval_respanned fixed node
  rwa [same] at step

end Eval

namespace Context

variable {f : Span → Span} {p : Span → Prop} {ctx : Context}

theorem globals_fixed (f : Span → Span) : Operation.globals.mapSpan f = Operation.globals := by
  have start : Scope.mapSpan f .empty = .empty := rfl
  unfold Operation.globals Scope.ofList
  generalize (Scope.empty : Scope Value) = scope, Operation.table = table at start ⊢
  induction table generalizing scope with
  | nil => exact start
  | cons entry rest ih =>
    refine ih _ ?_
    rw [Scope.mapSpan_define, start]
    rfl

/-- What a request evaluates is fixed, if its spans are. -/
theorem fixes_of_request (fixes : ∀ span, p span → f span = span) {request : Request}
    (spans : request.Spans p) (x : Eval Value) (evaluated : request.Evaluates x) : x.Fixes f := by
  have form {source : Source} {forest : List Node} (parsed : source.parse = .ok forest)
      (spans : ∀ span : Span, span.source = source → p span) {node : Node}
      (member : node ∈ forest) : (Eval.eval node).Fixes f := by
    have same := Source.mapSpan_forms parsed fun span here => fixes span (spans span here)
    rw [← List.map_id forest, List.map_map] at same
    exact Eval.eval_fixes (List.map_inj_left.mp same node member)
  cases request with
  | run source | value source =>
    obtain ⟨forest, parsed, node, member, rfl⟩ := evaluated
    exact form parsed spans member
  | valueUnder locals source =>
    obtain ⟨scope, spans⟩ := spans
    obtain ⟨forest, parsed, node, member, rfl⟩ := evaluated
    exact (form parsed spans member).withLocals (scope.mapSpan fixes)
  | nodeUnder locals node =>
    obtain ⟨scope, spans⟩ := spans
    cases evaluated
    exact (Eval.eval_fixes (spans.mapSpan fixes)).withLocals (scope.mapSpan fixes)

theorem afterAll_fixed (fixes : ∀ span, p span → f span = span) {requests : List Request}
    (spans : ∀ request ∈ requests, request.Spans p) (fixed : ctx.Respanned f ctx) :
    (ctx.afterAll requests).Respanned f (ctx.afterAll requests) := by
  let kept (ctx : Context) : Prop := ctx.Respanned f ctx
  have recorded (ctx : Context) (event : Event) (fixed : kept ctx) : kept (ctx.record event) :=
    ⟨fixed.locals, fixed.globals, rfl, rfl⟩
  have each : ∀ request ∈ requests, ∀ x, request.Evaluates x →
      x.Maintains kept (fun _ => True) fun _ => True := fun request member x evaluated =>
    (fixes_of_request fixes (spans request member) x evaluated).maintains
  exact afterAll_kept recorded fixed each trivial

end Context

namespace Span

/-- Where the spans of two texts are when one text is entered for both: the second starts on a new
line behind the first. -/
def relabelled (first second joined : Source) (span : Span) : Span :=
  if span.source = first then span.moved joined 0
  else if span.source = second then span.moved joined (first.length + 1)
  else span

variable {first second : Source} (joined : Source) {span : Span}

theorem relabelled_first (here : span.source = first) :
    span.relabelled first second joined = span.moved joined 0 := if_pos here

theorem relabelled_second (distinct : first ≠ second) (here : span.source = second) :
    span.relabelled first second joined = span.moved joined (first.length + 1) := by
  subst here
  rw [relabelled, if_neg distinct.symm, if_pos rfl]

theorem relabelled_other (elsewhere : span.source ≠ first ∧ span.source ≠ second) :
    span.relabelled first second joined = span := by
  rw [relabelled, if_neg elsewhere.1, if_neg elsewhere.2]

end Span

namespace Context

/-- Two texts that can be parsed are run in a session one after the other, or one text is run in
which the second stands on a new line behind the first. The results are the same form by form, and
the globals are the same in the end, if spans are moved to where the two texts stand in the one.
Nothing in the session so far has spans in the two texts, as every text that is entered is a source
of its own. -/
theorem run_joined (maxDepth : Int) (terminal : Bool) (requests : List Request)
    (first second joined : Source) (text : joined.text = first.text ++ "\n" ++ second.text)
    (parsed : first.Parses) (parsed' : second.Parses) (distinct : first ≠ second)
    (entered : ∀ request ∈ requests,
      request.Spans fun span => span.source ≠ first ∧ span.source ≠ second) :
    let ctx := (fresh maxDepth terminal).afterAll requests
    let relabel := Span.relabelled first second joined
    ∃ results more,
      (ctx.run first).1 = .ok results ∧ ((ctx.run first).2.run second).1 = .ok more ∧
      (ctx.run joined).1 = .ok ((results ++ more).map (FormResult.mapSpan relabel)) ∧
      (ctx.run joined).2.globals = ((ctx.run first).2.run second).2.globals.mapSpan relabel := by
  intro ctx relabel
  obtain ⟨forms, parsed⟩ := parsed
  obtain ⟨forms', parsed'⟩ := parsed'
  have start : ctx.Respanned relabel ctx :=
    afterAll_fixed (fun span => Span.relabelled_other joined) entered
      ⟨rfl, globals_fixed relabel, rfl, rfl⟩
  have whole : joined.parse =
      .ok ((forms ++ forms').map (Node.mapSpan relabel)) := by
    have chars : joined.chars = first.chars ++ '\n' :: second.chars := by
      simp [Source.chars, text, String.toList_append]
    rw [Source.parse_joined chars parsed parsed', List.map_append,
      Source.mapSpan_congr parsed fun span => Span.relabelled_first joined,
      Source.mapSpan_congr parsed' fun span => Span.relabelled_second joined distinct]
  rw [run_of_parse parsed, run_of_parse parsed', run_of_parse whole, List.map_append]
  obtain ⟨results, between⟩ :=
    runForms_respanned ((start.read first).read_right joined) forms
  obtain ⟨joint, last⟩ := (ctx.read joined).2.runForms_append (forms.map (Node.mapSpan relabel))
    (forms'.map (Node.mapSpan relabel))
  generalize ((ctx.read joined).2.runForms (forms.map (Node.mapSpan relabel))) = here
    at results between joint last
  generalize (ctx.read first).2.runForms forms = there at results between ⊢
  obtain ⟨more, final⟩ := runForms_respanned (between.read second) forms'
  refine ⟨_, _, rfl, rfl, ?_, ?_⟩
  · rw [joint, results, more, List.map_append]
  · rw [last]
    exact final.globals.symm

/-- A closure that is made in the first text outlives it and fails in the second. -/
theorem run_joined_closure :
    let earlier : Source := ⟨"(const k 1)", none, 1⟩
    let first : Source := ⟨"(const f (lambda [x] (+ x k))) ; a comment", none, 2⟩
    let second : Source := ⟨"(f 2) (f \"two\")", none, 3⟩
    let joined : Source := ⟨first.text ++ "\n" ++ second.text, none, 4⟩
    let ctx := (fresh 100 false).afterAll [.run earlier]
    let relabel := Span.relabelled first second joined
    ∃ results more,
      (ctx.run first).1 = .ok results ∧ ((ctx.run first).2.run second).1 = .ok more ∧
      (ctx.run joined).1 = .ok ((results ++ more).map (FormResult.mapSpan relabel)) ∧
      (ctx.run joined).2.globals = ((ctx.run first).2.run second).2.globals.mapSpan relabel := by
  intro earlier first second joined
  refine run_joined 100 false [.run earlier] first second joined rfl
    (Source.parses_of_isOk (by decide +kernel)) (Source.parses_of_isOk (by decide +kernel))
    (by decide) ?_
  intro request member
  cases List.mem_singleton.mp member
  intro span here
  rw [here]
  exact ⟨by decide, by decide⟩

end Context
end Lisplet
