import Lisplet.Proofs.Correspondence.Eval
import Lisplet.Proofs.Node.Growing

/-!
Spans do not matter to an evaluation. They are stored in the bodies of functions and closures and
told in errors, and nothing else is done with them: if all spans are changed, the same change is
made to what the evaluation comes to.
-/

namespace Lisplet

mutual
def Value.mapSpan (f : Span → Span) : Value → Value
  | .atom a => .atom a
  | .seq shape items => .seq shape (Value.mapSpans f items)
  | .builtin name operation => .builtin name operation
  | .fn name params body => .fn name params (body.mapSpan f)
  | .closure captured params body => .closure (Scope.mapSpan f captured) params (body.mapSpan f)

def Value.mapSpans (f : Span → Span) : List Value → List Value
  | [] => []
  | v :: vs => v.mapSpan f :: Value.mapSpans f vs

def Scope.mapSpan (f : Span → Span) : Scope Value → Scope Value
  | ⟨entries⟩ => ⟨Scope.mapSpans f entries⟩

def Scope.mapSpans (f : Span → Span) : List (Symbol × Value) → List (Symbol × Value)
  | [] => []
  | (name, v) :: rest => (name, v.mapSpan f) :: Scope.mapSpans f rest
end

def EvalFault.mapSpan (f : Span → Span) : EvalFault → EvalFault
  | unknownSymbol name => unknownSymbol name
  | missingArguments => missingArguments
  | tooManyArguments => tooManyArguments
  | invalidFunction v => invalidFunction (v.mapSpan f)
  | invalidArgument v => invalidArgument (v.mapSpan f)
  | depthExceeded limit => depthExceeded limit

def EvalError.mapSpan (f : Span → Span) (e : EvalError) : EvalError :=
  ⟨e.fault.mapSpan f, f e.span⟩

/-- A value or an error with its spans changed. -/
def Outcome.mapSpan (f : Span → Span) : Except EvalError Value → Except EvalError Value
  | .ok v => .ok (v.mapSpan f)
  | .error e => .error (e.mapSpan f)

variable (f : Span → Span)

theorem Value.mapSpans_eq_map (items : List Value) : mapSpans f items = items.map (mapSpan f) := by
  induction items with
  | nil => rfl
  | cons v vs ih => rw [mapSpans, ih, List.map_cons]

theorem Scope.mapSpan_eq_map (scope : Scope Value) :
    scope.mapSpan f = ⟨scope.entries.map (Prod.map id (Value.mapSpan f))⟩ := by
  obtain ⟨entries⟩ := scope
  refine congrArg Scope.mk ?_
  induction entries with
  | nil => rfl
  | cons entry rest ih =>
    obtain ⟨name, v⟩ := entry
    rw [mapSpans, ih]
    rfl

theorem Scope.matched_mapSpan {scope scope' : Scope Value} :
    scope.Matched (fun v v' => v.mapSpan f = v') scope' ↔ scope.mapSpan f = scope' := by
  obtain ⟨entries'⟩ := scope'
  rw [mapSpan_eq_map, mk.injEq, ← List.forall₂_eq_eq_eq, List.forall₂_map_left_iff]
  refine iff_of_eq (congrArg (List.Forall₂ · scope.entries entries') ?_)
  funext entry entry'
  rw [Prod.ext_iff]
  rfl

theorem Scope.mapSpan_define (scope : Scope Value) (name : Symbol) (v : Value) :
    (scope.define name v).mapSpan f = (scope.mapSpan f).define name (v.mapSpan f) :=
  (matched_mapSpan f).mp (((matched_mapSpan f).mpr rfl).define name rfl)

namespace Correspondence

/-- The same on both sides but for a change of spans. -/
def respanned : Correspondence where
  span s s' := f s = s'
  value v v' := v.mapSpan f = v'
  node locals locals' n n' := locals.mapSpan f = locals' ∧ n.mapSpan f = n'
  value_iff {v v'} := by
    constructor
    · rintro rfl
      cases v with
      | atom a => exact .atom a
      | seq shape items =>
        refine .seq shape ?_
        rw [Value.mapSpans_eq_map]
        exact List.forall₂_map_right_iff.mpr (List.forall₂_same.mpr fun _ _ => rfl)
      | builtin name operation => exact .builtin name operation
      | fn name params body => exact .fn name params ⟨rfl, rfl⟩
      | closure captured params body => exact .closure params ⟨rfl, rfl⟩
    · rintro (_ | ⟨shape, each⟩ | _ | ⟨_, _, -, rfl⟩ | ⟨_, rfl, rfl⟩)
      · rfl
      · rw [← List.forall₂_map_left_iff, List.forall₂_eq_eq_eq] at each
        rw [Value.mapSpan, Value.mapSpans_eq_map, each]
      · rfl
      · rfl
      · rfl
  matched {locals locals' n n'} := by
    rintro ⟨rfl, rfl⟩
    cases n with
    | leaf a span => exact .leaf rfl fun name _ => ((Scope.matched_mapSpan f).mpr rfl).lookup name
    | group shape items span =>
      refine .group shape rfl ?_
      rw [Node.mapSpans_eq_map]
      exact List.forall₂_map_right_iff.mpr (List.forall₂_same.mpr fun _ _ => ⟨rfl, rfl⟩)
  bare both := ⟨rfl, both.2⟩
  define name both same := ⟨by rw [Scope.mapSpan_define, both.1, same], both.2⟩

end Correspondence

/-- Contexts that are the same but for a change of spans, as far as an evaluation can tell. -/
structure Context.Respanned (ctx ctx' : Context) : Prop where
  locals : ctx.locals.mapSpan f = ctx'.locals
  globals : ctx.globals.mapSpan f = ctx'.globals
  settings : ctx.settings = ctx'.settings
  depth : ctx.depth = ctx'.depth

variable {f}

/-- The run lemma for a change of spans. -/
theorem Eval.outcome_mapSpan {ctx ctx' : Context} (both : ctx.Respanned f ctx') (node : Node) :
    (eval (node.mapSpan f)).outcome ctx' =
      (Outcome.mapSpan f ((eval node).outcome ctx).1, ((eval node).outcome ctx).2.mapSpan f) := by
  have outcome := eval_corresponds (K := .respanned f) (n := node) ⟨both.locals, rfl⟩ both.settings
    both.depth ((Scope.matched_mapSpan f).mpr both.globals)
  generalize (eval node).outcome ctx = before, (eval (node.mapSpan f)).outcome ctx' = after
    at outcome ⊢
  cases outcome with
  | ok same both =>
    cases same
    cases (Scope.matched_mapSpan f).mp both
    rfl
  | error same both =>
    cases (Scope.matched_mapSpan f).mp both
    cases same with
    | fault same place =>
      cases place
      cases same with
      | unknownSymbol | missingArguments | tooManyArguments => rfl
      | invalidFunction same | invalidArgument same =>
        cases same
        rfl
    | depth limit place =>
      cases place
      rfl

theorem Eval.eval_respanned {ctx ctx' : Context} (both : ctx.Respanned f ctx') (node : Node) :
    (eval node ctx).2.Respanned f (eval (node.mapSpan f) ctx').2 := by
  have kept := eval_restored node ctx
  have kept' := eval_restored (node.mapSpan f) ctx'
  constructor
  · rw [kept.locals, kept'.locals, both.locals]
  · exact (congrArg Prod.snd (outcome_mapSpan both node)).symm
  · rw [kept.settings, kept'.settings, both.settings]
  · rw [kept.depth, kept'.depth, both.depth]

end Lisplet
