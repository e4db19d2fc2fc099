import Lisplet.Proofs.Diagram
import Lisplet.Proofs.Eval.Origin
import Lisplet.Proofs.Idle
import Lisplet.Proofs.Kept
import Lisplet.Proofs.Node.Located

/-!
Where the errors of a session are. Whatever goes wrong with the texts that a session is given,
when one is read or long after in the body of a function, the error stands on characters of one of
these texts, and its diagram shows them.
-/

namespace Lisplet

variable {texts : List Source}

/-- Both scopes that a program can see hold nothing but what the texts have made. -/
structure Context.From (texts : List Source) (ctx : Context) : Prop where
  globals : ctx.globals.From texts
  locals : ctx.locals.From texts

namespace Eval

/-- Evaluating a node of the texts comes to values and errors of the texts. -/
theorem maintains_origin {node : Node} (inside : node.From texts) :
    (eval node).Maintains (Context.From texts) (Value.From texts) (EvalError.From texts) := by
  intro ctx start
  have outcome : (Correspondence.itself texts).Outcome _ ((eval node).outcome ctx)
      ((eval node).outcome ctx) :=
    eval_corresponds ⟨⟨rfl, rfl⟩, start.locals, inside⟩ rfl rfl
      (Correspondence.scope_itself.mpr start.globals)
  have passes := congrArg Prod.fst (eval_passes node ctx)
  have locals : (eval node ctx).2.locals = ctx.locals := (eval_restored node ctx).locals
  refine ⟨?_, ?_, ?_⟩
  · intro v found
    unfold Eval.outcome run at outcome
    rw [found] at outcome
    cases outcome with
    | ok value _ => exact value.2
  · intro e failed
    exact (Frame.raises_of_eval (passes.trans failed)).origin start.locals start.globals inside
  · refine ⟨?_, locals ▸ start.locals⟩
    unfold Eval.outcome run at outcome
    generalize eval node ctx = found at outcome ⊢
    rcases found with ⟨_ | v, after⟩
    · cases outcome with
      | error _ globals => exact Correspondence.scope_itself.mp globals
    · cases outcome with
      | ok _ globals => exact Correspondence.scope_itself.mp globals

/-- The same under locals of the texts. -/
theorem maintains_origin_under {node : Node} {locals : Scope Value} (kept : locals.From texts)
    (inside : node.From texts) :
    (withLocals locals (eval node)).Maintains (Context.From texts) (Value.From texts)
      (EvalError.From texts) := by
  intro ctx start
  have ends := maintains_origin inside { ctx with locals := locals } ⟨start.globals, kept⟩
  exact ⟨ends.value, ends.error, ends.context.globals, start.locals⟩

end Eval

/-- A request that brings nothing but the texts and what they have made. -/
def Request.From (texts : List Source) : Request → Prop
  | run source | value source => source ∈ texts
  | valueUnder locals source => locals.From texts ∧ source ∈ texts
  | nodeUnder locals node => locals.From texts ∧ node.From texts

/-- An error in its place. An error of reading stands on characters of the source, a name without
a value on its own characters, and any other error of evaluation on the head of a call. -/
inductive Error.Located (source : Source) : Error → Prop where
  | lex {e : LexError} : e.span.On source → Located source (.lex e)
  | parse {e : ParseError} : e.span.On source → Located source (.parse e)
  | unbound {name : Symbol} {span : Span} : span.On source → span.text = name.name →
      Located source (.eval ⟨.unknownSymbol name, span⟩)
  | call {forest : List Node} {head : Node} {args : List Node} {span : Span} {f : EvalFault} :
      source.parse = .ok forest → (Node.group .list (head :: args) span).Occurs forest →
      head.span.On source → (∀ name, f ≠ .unknownSymbol name) →
      Located source (.eval ⟨f, head.span⟩)

namespace Error

variable {source : Source} {e : Error}

theorem Located.on (located : e.Located source) : e.span.On source := by
  cases located with
  | lex on | parse on | unbound on _ | call _ _ on _ => exact on

theorem located_of_from {e : EvalError} (inside : e.From texts) :
    ∃ source ∈ texts, (Error.eval e).Located source := by
  cases inside with
  | unbound inside =>
    obtain ⟨source, listed, forest, parsed, occurs⟩ := inside
    exact ⟨source, listed,
      .unbound (source.on_of_occurs parsed occurs) (source.text_of_occurs parsed occurs)⟩
  | call inside plain =>
    obtain ⟨source, listed, forest, parsed, occurs⟩ := inside
    exact ⟨source, listed,
      .call parsed occurs (source.on_of_occurs parsed (.item occurs List.mem_cons_self)) plain⟩

end Error

namespace Context

variable {ctx : Context}

theorem From.record (start : ctx.From texts) (event : Event) : (ctx.record event).From texts :=
  ⟨start.globals, start.locals⟩

theorem fresh_from (maxDepth : Int) (terminal : Bool) : (fresh maxDepth terminal).From texts := by
  refine ⟨Scope.from_ofList fun binding member => ?_, Scope.from_empty⟩
  obtain ⟨entry, -, rfl⟩ := List.mem_map.mp member
  exact .builtin _ _

/-- What is evaluated for such a request stands in the texts. -/
theorem maintains_of_request {request : Request} (asked : request.From texts) (x : Eval Value)
    (evaluated : request.Evaluates x) :
    x.Maintains (Context.From texts) (Value.From texts) (EvalError.From texts) := by
  cases request with
  | run source | value source =>
    obtain ⟨forest, parsed, node, member, rfl⟩ := evaluated
    exact Eval.maintains_origin ⟨source, asked, forest, parsed, .root member⟩
  | valueUnder locals source =>
    obtain ⟨forest, parsed, node, member, rfl⟩ := evaluated
    exact Eval.maintains_origin_under asked.1 ⟨source, asked.2, forest, parsed, .root member⟩
  | nodeUnder locals node =>
    cases evaluated
    exact Eval.maintains_origin_under asked.1 asked.2

theorem From.afterAll (start : ctx.From texts) {requests : List Request}
    (asked : ∀ request ∈ requests, request.From texts) : (ctx.afterAll requests).From texts :=
  afterAll_kept (fun _ event start => start.record event) start
    (fun request member => maintains_of_request (asked request member)) (.atom .nil)

theorem From.located (start : ctx.From texts) {request : Request} (asked : request.From texts)
    {e : Error} (raised : ctx.Raises request e) : ∃ source ∈ texts, e.Located source := by
  obtain ⟨-, errors⟩ := after_kept (fun _ event start => start.record event) start
    (maintains_of_request asked) (.atom .nil)
  obtain ⟨source, p, read, unread, rfl⟩ | ⟨f, blamed, rfl⟩ := errors e raised
  · refine ⟨source, ?_, .parse (Source.on_of_parse unread)⟩
    cases request with
    | run _ | value _ =>
      cases read
      exact asked
    | valueUnder _ _ =>
      cases read
      exact asked.2
    | nodeUnder _ _ => cases read
  · exact Error.located_of_from blamed

/-- Errors can be located and shown. What cannot be read in a text of a session, at any attempt,
and all that a request raises stands on characters of one of the texts: a name without a value on
its own characters, any other error of evaluation on the head of a call there, and none on the
empty text at which a session starts. And every error whose span fits its source has a diagram,
which tells line and column of the start, quotes the whole line that it is on, and has a caret for
each character of the span on that line, or one if there is none. -/
theorem errors_located (maxDepth : Int) (terminal : Bool) {requests : List Request}
    (asked : ∀ request ∈ requests, request.From texts) :
    let ctx := (fresh maxDepth terminal).afterAll requests
    (∀ source ∈ texts,
      (∀ e, .error e ∈ source.lexemes → (Error.lex e).Located source) ∧
      ∀ attempts e, Parser.attempt source.lexemes attempts = .error e →
        (Error.parse e).Located source) ∧
    (∀ request, request.From texts → ∀ e, ctx.Raises request e →
      (∃ source ∈ texts, e.Located source) ∧ e.span.source ≠ ctx.site.source) ∧
    ∀ e : Error, e.span.Fits →
      ∃ earlier line later, e.span.source.Cut earlier line later ∧
        earlier.length ≤ e.span.start ∧ e.span.start ≤ earlier.length + line.length ∧
        e.diagram? false = some ("\n".intercalate
          [Diagram.heading e.span.source (earlier.count '\n' + 1)
              ((e.span.start - earlier.length : Nat) + 1),
            "    |",
            Diagram.lineGutter (earlier.count '\n' + 1) ++ String.ofList line,
            Diagram.indent (e.span.start - earlier.length) ++
              Diagram.carets (max e.span.firstLine.length 1) ++ " " ++ e.message]) := by
  intro ctx
  have start : ctx.From texts := (fresh_from maxDepth terminal).afterAll asked
  have idle : ctx.Idle := (afterAll_restored _ requests).idle (fresh_idle maxDepth terminal)
  refine ⟨fun source listed => ⟨fun e failed => ?_, fun attempts e failed => ?_⟩,
    fun request asked e raised => ?_, fun e fits => Error.exists_diagram fits⟩
  · exact .lex ((Cursor.atStart source).lexemes_on _ failed)
  · exact .parse (Source.on_of_attempt attempts failed)
  · obtain ⟨source, listed, located⟩ := start.located asked raised
    refine ⟨⟨source, listed, located⟩, ?_⟩
    obtain ⟨same, some, inside⟩ := located.on
    rw [same, idle.site]
    rintro rfl
    exact absurd (some.trans_le inside) (Nat.not_lt_zero _)

/-- A name that has no value in the body of a function from an earlier text. -/
theorem errors_located_earlier_text :
    let earlier : Source := .ofText "(fn f [x]\n  (why x))" (some "lib")
    let later : Source := .ofText "(f 1)" none
    let ctx := (fresh 9 false).afterAll [.run earlier]
    (∀ request ∈ [Request.run earlier], request.From [earlier, later]) ∧
    ∃ e, ctx.Raises (.run later) e ∧ (∃ source ∈ [earlier, later], e.Located source) ∧
      e.span = ⟨13, 16, earlier⟩ ∧
      ∃ earlier line later, e.span.source.Cut earlier line later ∧
        e.diagram? false = some ("\n".intercalate
          [Diagram.heading e.span.source (earlier.count '\n' + 1)
              ((e.span.start - earlier.length : Nat) + 1),
            "    |",
            Diagram.lineGutter (earlier.count '\n' + 1) ++ String.ofList line,
            Diagram.indent (e.span.start - earlier.length) ++ "^^^" ++ " " ++ e.message]) := by
  intro earlier later ctx
  have asked : ∀ request ∈ [Request.run earlier], request.From [earlier, later] := by
    intro request member
    rw [List.mem_singleton.mp member]
    exact List.mem_cons_self
  have ran : ((ctx.run later).1.toOption.any fun results => results.any fun result =>
      result.outcome.casesOn (fun e => decide (e.span = ⟨13, 16, earlier⟩)) fun _ => false) =
        true := by
    decide +kernel
  cases outcomes : (ctx.run later).1 with
  | error e =>
    rw [outcomes] at ran
    cases ran
  | ok results =>
    rw [outcomes] at ran
    obtain ⟨result, member, stands⟩ := List.any_eq_true.mp ran
    cases failed : result.outcome with
    | ok v =>
      rw [failed] at stands
      cases stands
    | error e =>
      rw [failed] at stands
      have span : (Error.eval e).span = ⟨13, 16, earlier⟩ := of_decide_eq_true stands
      obtain ⟨-, located, shown⟩ := errors_located 9 false asked
      have raised : ctx.Raises (.run later) (.eval e) := .form outcomes member failed
      have inside : later ∈ [earlier, later] := List.mem_cons_of_mem _ List.mem_cons_self
      have fits : (Error.eval e).span.Fits := by
        rw [span]
        exact ⟨by decide, by decide⟩
      have covered : (Error.eval e).span.firstLine.length = 3 := by
        rw [span]
        decide +kernel
      obtain ⟨before, line, behind, cut, -, -, diagram⟩ := shown (.eval e) fits
      rw [covered] at diagram
      have placed := (located (.run later) inside _ raised).1
      exact ⟨asked, .eval e, raised, placed, span, before, line, behind, cut, diagram⟩

end Context
end Lisplet
