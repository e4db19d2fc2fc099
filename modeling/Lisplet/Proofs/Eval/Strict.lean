import Lisplet.Proofs.Eval.Calls
import Mathlib.Data.List.Basic

/-!
Strict operations. They evaluate all of their arguments from the left before they look at any of
the values, so an argument that fails is the error whatever the values before it are. Two of them
do so only as long as their first value is of the right type: `join` and `nth` look at it before
they evaluate their second argument.
-/

namespace Lisplet

namespace Value

theorem eq_of_string? {v : Value} {s : String} (found : v.string? = some s) : v = .string s := by
  unfold string? at found
  split at found
  · cases found
    rfl
  · cases found

theorem eq_of_number? {v : Value} {x : Float} (found : v.number? = some x) : v = .number x := by
  unfold number? at found
  split at found
  · cases found
    rfl
  · cases found

end Value

namespace Operation

/-- The operations that are no special forms. -/
def isStrict : Operation → Bool
  | quote | choose | conjunction | disjunction | bindLocals | defineFunction | defineConstant
  | makeClosure | ignore => false
  | _ => true

example : (table.filter fun entry => entry.2.isStrict).map Prod.fst =
    ["+", "-", "*", "/", "=", "<", ">", "<=", ">=", "not", "str", "chars", "join", "vec", "nth",
      "parse-num", "println"] := rfl

/-- How many arguments a strict operation takes. -/
def accepts : Operation → Nat → Bool
  | subtract, count | divide, count => count != 0
  | negate, count | chars, count | parseNumber, count => count == 1
  | join, count | nth, count => count == 2
  | _, _ => true

/-- The first values for which an operation does not evaluate its second argument. -/
def refuses : Operation → Value → Bool
  | join, v => v.string?.isNone
  | nth, v => v.elements?.isNone
  | _, _ => false

/-- The first argument has no value that the operation refuses. -/
def Proceeds (op : Operation) (ev : Eval.Evaluator) (args : List Node) (ctx : Context) : Prop :=
  ∀ first behind v between, args = first :: behind → (ev first).run ctx = (.ok v, between) →
    op.refuses v = false

end Operation

namespace Eval

variable {α : Type} {ev : Evaluator} {vs : List Value}

/-- Concluding a call from the values of its arguments: nothing is evaluated or defined, and if
there is an error then one of the values is no valid argument. -/
def Concludes (vs : List Value) (x : Eval Value) : Prop :=
  ∀ ctx, ∃ result printed, x ctx = (result, { ctx with printed := printed }) ∧
    ∀ e, result = .error e → ∃ v ∈ vs, e = ⟨.invalidArgument v, ctx.site⟩

namespace Concludes

theorem value (v : Value) : Concludes vs (pure v) :=
  fun ctx => ⟨.ok v, ctx.printed, rfl, fun e failed => by cases failed⟩

theorem invalid {v : Value} (member : v ∈ vs) : Concludes vs (fail (.invalidArgument v)) := by
  intro ctx
  refine ⟨.error ⟨.invalidArgument v, ctx.site⟩, ctx.printed, rfl, fun e failed => ?_⟩
  cases failed
  exact ⟨v, member, rfl⟩

theorem need {as? : Value → Option α} {v : Value} {next : α → Eval Value} (member : v ∈ vs)
    (concludes : ∀ a, as? v = some a → Concludes vs (next a)) :
    Concludes vs (Eval.need as? v >>= next) := by
  unfold Eval.need
  cases found : as? v with
  | none => exact invalid member
  | some a => exact concludes a found

theorem needAll {as? : Value → Option α} {us : List Value} {next : List α → Eval Value}
    (members : ∀ v ∈ us, v ∈ vs)
    (concludes : ∀ row : List α, row.length = us.length → Concludes vs (next row)) :
    Concludes vs (Eval.needAll as? us >>= next) := by
  induction us generalizing next with
  | nil => exact concludes [] rfl
  | cons u us ih =>
    obtain ⟨here, others⟩ := List.forall_mem_cons.mp members
    rw [Eval.needAll, Eval.bind_assoc]
    refine need here fun a _ => ?_
    rw [Eval.bind_assoc]
    exact ih others fun row length => concludes (a :: row) (congrArg Nat.succ length)

theorem println (line : String) : Concludes vs (do
    if (← context).terminal then
      update fun ctx => { ctx with printed := ctx.printed ++ line ++ lineEnd }
      return .nil
    else return .string line) := by
  intro ctx
  change ∃ result printed, (if ctx.terminal then _ else _ : Eval Value) ctx = _ ∧ _
  split
  · exact ⟨.ok .nil, _, rfl, fun e failed => by cases failed⟩
  · exact ⟨.ok (.string line), ctx.printed, rfl, fun e failed => by cases failed⟩

end Concludes

/-- Concludes from a single value. -/
def fromOne (next : Value → Eval Value) : List Value → Eval Value
  | [v] => next v
  | _ => fail .tooManyArguments

/-- Concludes from two values. -/
def fromTwo (next : Value → Value → Eval Value) : List Value → Eval Value
  | [v, w] => next v w
  | _ => fail .tooManyArguments

theorem evalAll_one (node : Node) (next : Value → Eval Value) :
    evalAll ev [node] >>= fromOne next = ev node >>= next := by
  rw [evalAll, Eval.bind_assoc]
  rfl

/-- An operation that looks at its first value early comes to what it would come to if it looked
at it late, unless it refuses that value. -/
theorem need_early {as? : Value → Option α} {next : α → Value → Eval Value} {first second : Node}
    {ctx : Context}
    (proceeds : ∀ v between, ev first ctx = (.ok v, between) → (as? v).isNone = false) :
    (ev first >>= fun v => need as? v >>= fun a => ev second >>= fun w => next a w) ctx =
      (evalAll ev [first, second] >>= fromTwo fun v w => need as? v >>= fun a => next a w) ctx := by
  rw [evalAll, Eval.bind_assoc]
  rcases found : ev first ctx with ⟨e | v, between⟩
  · rw [bind_of_error found, bind_of_error found]
  · rw [bind_of_ok found, bind_of_ok found]
    obtain ⟨a, taken⟩ : ∃ a, as? v = some a := by
      simpa [Option.isSome_iff_exists] using proceeds v between found
    have early : need as? v = pure a := by rw [need, taken]
    rw [early, evalAll, Eval.bind_assoc, Eval.bind_assoc]
    change (ev second >>= fun w => next a w) between =
      (ev second >>= fun w => need as? v >>= fun a => next a w) between
    rw [early]
    rfl

theorem need_refused {as? : Value → Option α} {next : α → Eval Value} {first : Node}
    {ctx between : Context} {v : Value} (found : ev first ctx = (.ok v, between))
    (refused : (as? v).isNone) :
    (ev first >>= fun v => need as? v >>= next) ctx =
      (.error ⟨.invalidArgument v, between.site⟩, between) := by
  rw [bind_of_ok found]
  have none : as? v = none := Option.isNone_iff_eq_none.mp refused
  rw [need, none]
  rfl

end Eval

namespace Operation

open Eval

variable {op : Operation} {ev : Evaluator} {args : List Node} {ctx : Context}

/-- All arguments are evaluated before their values are looked at, whatever evaluates them. -/
structure Defers (op : Operation) (conclude : List Value → Eval Value) : Prop where
  perform : ∀ (ev : Evaluator) (args : List Node) (ctx : Context), op.accepts args.length →
    op.Proceeds ev args ctx → op.perform ev args ctx = (evalAll ev args >>= conclude) ctx
  concludes : ∀ vs : List Value, op.accepts vs.length → Concludes vs (conclude vs)

variable {conclude : List Value → Eval Value}

theorem Defers.ofAll (all : ∀ ev args, op.perform ev args = evalAll ev args >>= conclude)
    (concludes : ∀ vs : List Value, op.accepts vs.length → Concludes vs (conclude vs)) :
    op.Defers conclude :=
  ⟨fun ev args ctx _ _ => congrFun (all ev args) ctx, concludes⟩

/-- What is made of numbers, all values having to be numbers. -/
theorem Defers.ofNumbers {next : List Float → Eval Value}
    (numbers : ∀ ev args, op.perform ev args = Eval.numbers ev args >>= next)
    (concludes : ∀ (vs : List Value) (row : List Float), op.accepts row.length →
      Concludes vs (next row)) :
    op.Defers fun vs => needAll Value.number? vs >>= next := by
  refine .ofAll (fun ev args => ?_) fun vs accepted => ?_
  · rw [numbers, Eval.numbers, Eval.bind_assoc]
  · refine .needAll (fun v member => member) fun row length => concludes vs row ?_
    rwa [length]

theorem Defers.ofOne {next : Value → Eval Value} (one : ∀ count, op.accepts count ↔ count = 1)
    (perform : ∀ ev node, op.perform ev [node] = ev node >>= next)
    (concludes : ∀ v, Concludes [v] (next v)) : op.Defers (fromOne next) := by
  constructor
  · intro ev args ctx accepted _
    obtain ⟨node, rfl⟩ := List.length_eq_one_iff.mp ((one _).mp accepted)
    rw [perform, evalAll_one]
  · intro vs accepted
    obtain ⟨v, rfl⟩ := List.length_eq_one_iff.mp ((one _).mp accepted)
    exact concludes v

theorem Defers.ofTwo {α : Type} {as? : Value → Option α} {next : α → Value → Eval Value}
    (two : ∀ count, op.accepts count ↔ count = 2)
    (perform : ∀ ev first second, op.perform ev [first, second] =
      (ev first >>= fun v => need as? v >>= fun a => ev second >>= fun w => next a w))
    (refuses : ∀ v, op.refuses v = (as? v).isNone)
    (concludes : ∀ v w a, as? v = some a → Concludes [v, w] (next a w)) :
    op.Defers (fromTwo fun v w => need as? v >>= fun a => next a w) := by
  constructor
  · intro ev args ctx accepted proceeds
    obtain ⟨first, second, rfl⟩ := List.length_eq_two.mp ((two _).mp accepted)
    rw [perform]
    refine need_early fun v between found => ?_
    rw [← refuses]
    exact proceeds first [second] v between rfl found
  · intro vs accepted
    obtain ⟨v, w, rfl⟩ := List.length_eq_two.mp ((two _).mp accepted)
    exact .need List.mem_cons_self fun a found => concludes v w a found

theorem exists_defers (strict : op.isStrict) : ∃ conclude, op.Defers conclude := by
  cases op with
  | quote | choose | conjunction | disjunction | bindLocals | defineFunction | defineConstant
  | makeClosure | ignore => cases strict
  | add | multiply =>
    exact ⟨_, .ofNumbers (fun ev args => rfl) fun vs row _ => .value _⟩
  | subtract | divide =>
    refine ⟨_, .ofNumbers (fun ev args => rfl) fun vs row some => ?_⟩
    cases row with
    | nil => cases some
    | cons x xs => exact .value _
  | less | greater | lessOrEqual | greaterOrEqual =>
    exact ⟨_, .ofNumbers (fun ev args => rfl) fun vs row _ => .value _⟩
  | equal | concat | vector =>
    exact ⟨_, .ofAll (fun ev args => rfl) fun vs _ => .value _⟩
  | println => exact ⟨_, .ofAll (fun ev args => rfl) fun vs _ => .println _⟩
  | negate =>
    refine ⟨_, .ofOne (fun count => beq_iff_eq) (fun ev node => rfl) fun v => ?_⟩
    exact .need List.mem_cons_self fun b _ => .value _
  | chars =>
    refine ⟨_, .ofOne (fun count => beq_iff_eq) (fun ev node => rfl) fun v => ?_⟩
    exact .need List.mem_cons_self fun s _ => .value _
  | parseNumber =>
    refine ⟨_, .ofOne (fun count => beq_iff_eq) (fun ev node => rfl) fun v => ?_⟩
    refine .need List.mem_cons_self fun s found => ?_
    cases Number.read? s.toList with
    | some x => exact .value _
    | none =>
      rw [Value.eq_of_string? found]
      exact .invalid List.mem_cons_self
  | join =>
    refine ⟨_, .ofTwo (fun count => beq_iff_eq) (fun ev first second => rfl) (fun v => rfl)
      fun v w sep _ => ?_⟩
    exact .need (List.mem_cons_of_mem _ List.mem_cons_self) fun items _ => .value _
  | nth =>
    refine ⟨_, .ofTwo (fun count => beq_iff_eq) (fun ev first second => rfl) (fun v => rfl)
      fun v w elements _ => ?_⟩
    refine .need (List.mem_cons_of_mem _ List.mem_cons_self) fun x found => ?_
    cases element? elements x with
    | some element => exact .value _
    | none =>
      rw [Value.eq_of_number? found]
      exact .invalid (List.mem_cons_of_mem _ List.mem_cons_self)

/-- A wrong number of arguments is found before any of them is evaluated. -/
theorem perform_of_not_accepts (strict : op.isStrict) (refused : op.accepts args.length = false) :
    ∃ fault : EvalFault, (fault = .missingArguments ∨ fault = .tooManyArguments) ∧
      ∀ ev, op.perform ev args = fail fault := by
  cases op with
  | quote | choose | conjunction | disjunction | bindLocals | defineFunction | defineConstant
  | makeClosure | ignore => cases strict
  | add | multiply | equal | less | greater | lessOrEqual | greaterOrEqual | concat | vector
  | println => cases refused
  | subtract | divide =>
    cases args with
    | nil => exact ⟨.missingArguments, .inl rfl, fun ev => rfl⟩
    | cons node nodes => cases refused
  | negate | chars | parseNumber =>
    match args with
    | [] => exact ⟨.missingArguments, .inl rfl, fun ev => rfl⟩
    | [_] => cases refused
    | _ :: _ :: _ => exact ⟨.tooManyArguments, .inr rfl, fun ev => rfl⟩
  | join | nth =>
    match args with
    | [] | [_] => exact ⟨.missingArguments, .inl rfl, fun ev => rfl⟩
    | [_, _] => cases refused
    | _ :: _ :: _ :: _ => exact ⟨.tooManyArguments, .inr rfl, fun ev => rfl⟩

/-- A first value that is refused is the fault, and the second argument is not evaluated. -/
theorem perform_of_refuses (accepted : op.accepts args.length) {first : Node} {behind : List Node}
    {v : Value} {between : Context} (split : args = first :: behind)
    (found : ev first ctx = (.ok v, between)) (refused : op.refuses v) :
    op.perform ev args ctx = (.error ⟨.invalidArgument v, between.site⟩, between) := by
  subst split
  cases op with
  | join | nth =>
    obtain ⟨second, rfl⟩ := List.length_eq_one_iff.mp (Nat.succ.inj (beq_iff_eq.mp accepted))
    exact need_refused found refused
  | _ => cases refused

/-- Strict operations check last. Given a number of arguments that it takes, an operation evaluates
all of them, from the left and up to the first that fails, before it looks at a value: an argument
that fails is the error, and if one of the values is no valid argument then the context is as all
of the arguments have left it. `join` and `nth` are the exception: a first value that is not of
their type is the error at once, and their second argument is not evaluated. -/
theorem strict_checks_last (strict : op.isStrict) (restores : ∀ node, (ev node).Restores)
    (args : List Node) (ctx : Context) :
    (op.accepts args.length = false → ∃ fault : EvalFault,
      (fault = .missingArguments ∨ fault = .tooManyArguments) ∧
        (op.perform ev args).run ctx = (.error ⟨fault, ctx.site⟩, ctx)) ∧
    (op.accepts args.length →
      (op.Proceeds ev args ctx →
        (∀ before node behind vs between e after, args = before ++ node :: behind →
          (evalAll ev before).run ctx = (.ok vs, between) →
          (ev node).run between = (.error e, after) →
          (op.perform ev args).run ctx = (.error e, after)) ∧
        ∀ vs after, (evalAll ev args).run ctx = (.ok vs, after) → ∃ result printed,
          (op.perform ev args).run ctx = (result, { after with printed := printed }) ∧
            ∀ e, result = .error e → ∃ v ∈ vs, e = ⟨.invalidArgument v, ctx.site⟩) ∧
      ∀ first behind v between, args = first :: behind →
        (ev first).run ctx = (.ok v, between) → op.refuses v →
        (op.perform ev args).run ctx = (.error ⟨.invalidArgument v, ctx.site⟩, between)) := by
  refine ⟨fun refused => ?_, fun accepted => ⟨fun proceeds => ?_, ?_⟩⟩
  · obtain ⟨fault, wrong, performed⟩ := perform_of_not_accepts strict refused
    exact ⟨fault, wrong, congrFun (performed ev) ctx⟩
  · obtain ⟨conclude, defers⟩ := exists_defers strict
    have performed := defers.perform ev args ctx accepted proceeds
    constructor
    · intro before node behind vs between e after split evaluated failed
      have all := evalAll_of_failing evaluated failed behind
      rw [← split] at all
      exact performed.trans (bind_of_error all conclude)
    · intro vs after evaluated
      have site : after.site = ctx.site :=
        ((evalAll_restores restores args).outcome evaluated).site
      have length := length_evalAll evaluated
      rw [← length] at accepted
      obtain ⟨result, printed, concluded, faults⟩ := defers.concludes vs accepted after
      rw [site] at faults
      exact ⟨result, printed, performed.trans ((bind_of_ok evaluated conclude).trans concluded),
        faults⟩
  · intro first behind v between split found refused
    have site : between.site = ctx.site := ((restores first).outcome found).site
    rw [← site]
    exact perform_of_refuses accepted split found refused

/-- A name without a value is the error of a sum although a value before it is no number; behind a
separator that is no string it is never looked up. -/
theorem strict_checks_last_sum :
    let here : Span := .emptyAt (.ofText "" none) 0
    let args : List Node := [.leaf (.bool true) here, .leaf (.symbol ⟨"x"⟩) here]
    let sum : List Node := [.leaf (.bool true) here, .leaf (.number 1) here]
    let ctx := Context.fresh 9 false
    (add.isStrict ∧ add.accepts args.length ∧ add.Proceeds eval args ctx ∧
      join.isStrict ∧ join.accepts args.length ∧ join.refuses (.bool true) ∧
      subtract.isStrict ∧ subtract.accepts 0 = false) ∧
    (add.perform eval args).run ctx = (.error ⟨.unknownSymbol ⟨"x"⟩, here⟩, ctx) ∧
    (∃ result printed, (add.perform eval sum).run ctx = (result, { ctx with printed := printed }) ∧
      ∀ e, result = .error e →
        ∃ v ∈ [Value.bool true, Value.number 1], e = ⟨.invalidArgument v, ctx.site⟩) ∧
    (join.perform eval args).run ctx = (.error ⟨.invalidArgument (.bool true), ctx.site⟩, ctx) ∧
    ∃ fault : EvalFault, (fault = .missingArguments ∨ fault = .tooManyArguments) ∧
      (subtract.perform eval []).run ctx = (.error ⟨fault, ctx.site⟩, ctx) := by
  intro here args sum ctx
  have proceeds (args : List Node) : add.Proceeds eval args ctx := fun _ _ _ _ _ _ => rfl
  have added := (@strict_checks_last add eval rfl eval_restored args ctx).2 rfl
  have summed := (@strict_checks_last add eval rfl eval_restored sum ctx).2 rfl
  have joined := (@strict_checks_last join eval rfl eval_restored args ctx).2 rfl
  have reduced := (@strict_checks_last subtract eval rfl eval_restored [] ctx).1 rfl
  refine ⟨⟨rfl, rfl, proceeds args, rfl, rfl, rfl, rfl, rfl⟩, ?_, ?_, ?_, reduced⟩
  · exact (added.1 (proceeds args)).1 [.leaf (.bool true) here] (.leaf (.symbol ⟨"x"⟩) here) []
      [.bool true] ctx ⟨.unknownSymbol ⟨"x"⟩, here⟩ ctx rfl rfl rfl
  · exact (summed.1 (proceeds sum)).2 [.bool true, .number 1] ctx rfl
  · exact joined.2 (.leaf (.bool true) here) [.leaf (.symbol ⟨"x"⟩) here] (.bool true) ctx rfl rfl rfl

/-- The error of the second argument of `join` is not the error of the call if the first value is
no string, and what the second argument would define is not defined. -/
theorem join_checks_early :
    let here : Span := .emptyAt (.ofText "" none) 0
    let symbol (name : String) : Node := .leaf (.symbol ⟨name⟩) here
    let args : List Node := [.leaf (.number 1) here, symbol "x"]
    let defining : List Node := [.leaf (.number 1) here,
      .group .list [symbol "const", symbol "x", .leaf (.bool true) here] here]
    let ctx := Context.fresh 9 false
    (join.isStrict ∧ join.accepts args.length ∧ join.accepts defining.length) ∧
      ((evalAll eval args).run ctx).1 = .error ⟨.unknownSymbol ⟨"x"⟩, here⟩ ∧
      ((join.perform eval args).run ctx).1 = .error ⟨.invalidArgument (.number 1), ctx.site⟩ ∧
      ((join.perform eval defining).run ctx).1 = .error ⟨.invalidArgument (.number 1), ctx.site⟩ ∧
      ((join.perform eval defining).run ctx).2.globals.contains ⟨"x"⟩ = false ∧
      ((evalAll eval defining).run ctx).2.globals.contains ⟨"x"⟩ = true := by
  intro here symbol args defining ctx
  exact ⟨⟨rfl, rfl, rfl⟩, rfl, rfl, rfl, by decide +kernel, by decide +kernel⟩

end Operation
end Lisplet
