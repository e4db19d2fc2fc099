import Lisplet.Proofs.Eval.Acting

/-!
Each operation, callable and call follows its course. The evaluator is arbitrary except that it
restores; locals that a `let` changes in place are the ones its course hands on.
-/

namespace Lisplet.Eval

variable {ev : Evaluator} {terminal : Bool} {locals : Scope Value}

section Arguments

theorem follows_unary (args : List Node) :
    Follows ev terminal locals (unary args) (Course.unary args) := by
  match args with
  | [] => exact .fault _
  | [_] => exact .done _
  | _ :: _ :: _ => exact .fault _

theorem follows_binary (args : List Node) :
    Follows ev terminal locals (binary args) (Course.binary args) := by
  match args with
  | [] | [_] => exact .fault _
  | [_, _] => exact .done _
  | _ :: _ :: _ :: _ => exact .fault _

theorem follows_ternary (args : List Node) :
    Follows ev terminal locals (ternary args) (Course.ternary args) := by
  match args with
  | [] | [_] | [_, _] => exact .fault _
  | [_, _, _] => exact .done _
  | _ :: _ :: _ :: _ :: _ => exact .fault _

theorem follows_need {α : Type} (as? : Value → Option α) (v : Value) :
    Follows ev terminal locals (need as? v) (Course.need as? v) := by
  unfold need Course.need
  cases as? v with
  | none => exact .fault _
  | some a => exact .done a

theorem follows_needName (node : Node) :
    Follows ev terminal locals (needName node) (Course.needName node) := by
  unfold needName Course.needName
  cases node.symbol? with
  | none => exact .fault _
  | some name => exact .done name

theorem follows_needParams (node : Node) :
    Follows ev terminal locals (needParams node) (Course.needParams node) := by
  unfold needParams Course.needParams
  cases node.symbols? with
  | none => exact .fault _
  | some params => exact .done params

end Arguments

variable (restores : ∀ node, (ev node).Restores)
include restores

theorem follows_needAll {α : Type} (as? : Value → Option α) (vs : List Value) :
    Follows ev terminal locals (needAll as? vs) (Course.needAll as? vs) := by
  induction vs with
  | nil => exact .done _
  | cons v vs ih =>
    exact (follows_need as? v).bind restores fun _ => ih.bind restores fun _ => .done _

theorem follows_evalAll (args : List Node) :
    Follows ev terminal locals (evalAll ev args) (Course.values locals args) := by
  induction args with
  | nil => exact .done _
  | cons node nodes ih =>
    exact (follows_value restores node).bind restores fun _ => ih.bind restores fun _ => .done _

theorem follows_bindArguments (params : List Symbol) (args : List Node) (scope : Scope Value) :
    Follows ev terminal locals (bindArguments ev params args scope)
      (Course.parameters locals params args scope) := by
  induction params generalizing args scope with
  | nil =>
    cases args with
    | nil => exact .done _
    | cons node nodes => exact .fault _
  | cons p params ih =>
    cases args with
    | nil => exact .fault _
    | cons node nodes =>
      exact (follows_value restores node).bind restores fun _ => ih nodes _

section Strict

theorem follows_numbers (args : List Node) :
    Follows ev terminal locals (numbers ev args) (Course.numbers locals args) :=
  (follows_evalAll restores args).bind restores fun vs => follows_needAll restores _ vs

theorem follows_foldNumbers (op : Float → Float → Float) (unit : Float) (args : List Node) :
    Follows ev terminal locals (foldNumbers ev op unit args)
      (Course.foldNumbers locals op unit args) :=
  (follows_numbers restores args).bind restores fun _ => .done _

theorem follows_reduceNumbers (op : Float → Float → Float) (args : List Node) :
    Follows ev terminal locals (reduceNumbers ev op args)
      (Course.reduceNumbers locals op args) := by
  refine (follows_numbers restores args).bind restores fun xs => ?_
  cases xs with
  | nil => exact .fault _
  | cons x xs => exact .done _

theorem follows_compareNumbers (rel : Float → Float → Bool) (args : List Node) :
    Follows ev terminal locals (compareNumbers ev rel args)
      (Course.compareNumbers locals rel args) :=
  (follows_numbers restores args).bind restores fun _ => .done _

theorem follows_equal (args : List Node) :
    Follows ev terminal locals (equal ev args) (Course.equal locals args) :=
  (follows_evalAll restores args).bind restores fun _ => .done _

theorem follows_negate (args : List Node) :
    Follows ev terminal locals (negate ev args) (Course.negate locals args) := by
  refine (follows_unary args).bind restores fun node => ?_
  refine (follows_value restores node).bind restores fun v => ?_
  exact (follows_need _ v).bind restores fun _ => .done _

theorem follows_concat (args : List Node) :
    Follows ev terminal locals (concat ev args) (Course.concat locals args) :=
  (follows_evalAll restores args).bind restores fun _ => .done _

theorem follows_chars (args : List Node) :
    Follows ev terminal locals (chars ev args) (Course.chars locals args) := by
  refine (follows_unary args).bind restores fun node => ?_
  refine (follows_value restores node).bind restores fun v => ?_
  exact (follows_need _ v).bind restores fun _ => .done _

theorem follows_join (args : List Node) :
    Follows ev terminal locals (join ev args) (Course.join locals args) := by
  refine (follows_binary args).bind restores fun (separator, sequence) => ?_
  refine (follows_value restores separator).bind restores fun v => ?_
  refine (follows_need _ v).bind restores fun sep => ?_
  refine (follows_value restores sequence).bind restores fun w => ?_
  exact (follows_need _ w).bind restores fun _ => .done _

theorem follows_vector (args : List Node) :
    Follows ev terminal locals (vector ev args) (Course.vector locals args) :=
  (follows_evalAll restores args).bind restores fun _ => .done _

theorem follows_nth (args : List Node) :
    Follows ev terminal locals (nth ev args) (Course.nth locals args) := by
  refine (follows_binary args).bind restores fun (sequence, position) => ?_
  refine (follows_value restores sequence).bind restores fun v => ?_
  refine (follows_need _ v).bind restores fun elements => ?_
  refine (follows_value restores position).bind restores fun w => ?_
  refine (follows_need _ w).bind restores fun x => ?_
  cases element? elements x with
  | none => exact .fault _
  | some v => exact .done _

theorem follows_parseNumber (args : List Node) :
    Follows ev terminal locals (parseNumber ev args) (Course.parseNumber locals args) := by
  refine (follows_unary args).bind restores fun node => ?_
  refine (follows_value restores node).bind restores fun v => ?_
  refine (follows_need _ v).bind restores fun s => ?_
  cases Number.read? s.toList with
  | none => exact .fault _
  | some x => exact .done _

theorem follows_println (args : List Node) :
    Follows ev terminal locals (println ev args) (Course.println terminal locals args) := by
  refine (follows_evalAll restores args).bind restores fun vs => ?_
  rintro ctx - rfl
  change (if ctx.terminal then _ else _ : Eval Value) ctx =
    (if ctx.terminal then _ else _ : Course Value).act ev ctx
  cases ctx.terminal with
  | true => rfl
  | false => rfl

end Strict

section Forms

theorem follows_quote (args : List Node) :
    Follows ev terminal locals (quote args) (Course.quote args) :=
  (follows_unary args).bind restores fun _ => .done _

theorem follows_choose (args : List Node) :
    Follows ev terminal locals (choose ev args) (Course.choose locals args) := by
  match args with
  | [] | [_] => exact .fault .missingArguments
  | [condition, yes] =>
    refine (follows_value restores condition).bind restores fun v => ?_
    refine (follows_need _ v).bind restores fun b => ?_
    cases b with
    | true => exact follows_value restores yes
    | false => exact .done _
  | [condition, yes, no] =>
    refine (follows_value restores condition).bind restores fun v => ?_
    refine (follows_need _ v).bind restores fun b => ?_
    cases b with
    | true => exact follows_value restores yes
    | false => exact follows_value restores no
  | _ :: _ :: _ :: _ :: _ => exact .fault .tooManyArguments

theorem follows_conjunction (args : List Node) :
    Follows ev terminal locals (conjunction ev args) (Course.conjunction locals args) := by
  induction args with
  | nil => exact .done _
  | cons node nodes ih =>
    refine (follows_value restores node).bind restores fun v => ?_
    refine (follows_need _ v).bind restores fun b => ?_
    cases b with
    | true => exact ih
    | false => exact .done _

theorem follows_disjunction (args : List Node) :
    Follows ev terminal locals (disjunction ev args) (Course.disjunction locals args) := by
  induction args with
  | nil => exact .done _
  | cons node nodes ih =>
    refine (follows_value restores node).bind restores fun v => ?_
    refine (follows_need _ v).bind restores fun b => ?_
    cases b with
    | true => exact .done _
    | false => exact ih

theorem follows_defineFunction (args : List Node) :
    Follows ev terminal locals (defineFunction args) (Course.defineFunction args) := by
  refine (follows_ternary args).bind restores fun (nameNode, paramsNode, body) => ?_
  refine (follows_needName nameNode).bind restores fun name => ?_
  refine (follows_needParams paramsNode).bind restores fun params => ?_
  exact fun _ _ _ => rfl

theorem follows_defineConstant (args : List Node) :
    Follows ev terminal locals (defineConstant ev args) (Course.defineConstant locals args) := by
  refine (follows_binary args).bind restores fun (nameNode, value) => ?_
  refine (follows_needName nameNode).bind restores fun name => ?_
  refine (follows_value restores value).bind restores fun v => ?_
  exact fun _ _ _ => rfl

theorem follows_makeClosure (args : List Node) :
    Follows ev terminal locals (makeClosure args) (Course.makeClosure locals args) := by
  refine (follows_binary args).bind restores fun (paramsNode, body) => ?_
  refine (follows_needParams paramsNode).bind restores fun params => ?_
  rintro ctx rfl -
  rfl

theorem follows_needBinding (node : Node) :
    Follows ev terminal locals (needBinding node) (Course.needBinding node) := by
  match node with
  | .leaf _ _ | .group .vector _ _ => exact .fault _
  | .group .list items _ =>
    refine (follows_binary items).bind restores fun (name, value) => ?_
    exact (follows_needName name).bind restores fun _ => .done _

/-- Bindings that are made one after the other in the locals of a scope come to the scope that
they make as values. What they have reached when one of them fails is lost with the scope. -/
theorem withLocals_bindLocals {α : Type} (nodes : List Node) (body : Eval α)
    (scope : Scope Value) :
    withLocals scope (bindLocals ev nodes >>= fun _ => body) =
      (Course.bindings scope nodes).act ev >>= fun inner => withLocals inner body := by
  induction nodes generalizing scope with
  | nil => rfl
  | cons node nodes ih =>
    have needed : needBinding node = (Course.needBinding node).act ev := by
      funext ctx
      have follows : Follows ev ctx.terminal ctx.locals _ _ := follows_needBinding restores node
      exact follows ctx rfl rfl
    unfold bindLocals Course.bindings
    rw [needed]
    rcases Course.settles_needBinding node with ⟨⟨name, value⟩, binds⟩ | ⟨f, fails⟩
    · rw [binds]
      calc
        withLocals scope ((ev value >>= fun v => defineLocal name v >>= fun _ =>
            bindLocals ev nodes) >>= fun _ => body)
          = withLocals scope (ev value) >>= fun v => withLocals (scope.define name v)
              (bindLocals ev nodes >>= fun _ => body) := by
            simp only [Eval.bind_assoc, withLocals_bind (restores value), withLocals_defineLocal]
        _ = (withLocals scope (ev value) >>= fun v =>
              (Course.bindings (scope.define name v) nodes).act ev) >>= fun inner =>
                withLocals inner body := by
            simp only [Eval.bind_assoc, ih]
    · rw [fails]
      rfl

theorem follows_letForm (args : List Node) :
    Follows ev terminal locals (letForm ev args) (Course.letForm locals args) := by
  unfold letForm Course.letForm
  cases args.getLast? with
  | none => exact .fault _
  | some body =>
    rintro ctx rfl -
    change withLocals ctx.locals (bindLocals ev _ >>= fun _ => ev body) ctx = _
    simp only [withLocals_bindLocals restores, Course.act_bind, Course.act_value]

end Forms

theorem follows_perform (operation : Operation) (args : List Node) :
    Follows ev terminal locals (operation.perform ev args)
      (operation.course terminal locals args) := by
  cases operation with
  | add | multiply => exact follows_foldNumbers restores _ _ args
  | subtract | divide => exact follows_reduceNumbers restores _ args
  | less | greater | lessOrEqual | greaterOrEqual => exact follows_compareNumbers restores _ args
  | equal => exact follows_equal restores args
  | negate => exact follows_negate restores args
  | concat => exact follows_concat restores args
  | chars => exact follows_chars restores args
  | join => exact follows_join restores args
  | vector => exact follows_vector restores args
  | nth => exact follows_nth restores args
  | parseNumber => exact follows_parseNumber restores args
  | println => exact follows_println restores args
  | quote => exact follows_quote restores args
  | choose => exact follows_choose restores args
  | conjunction => exact follows_conjunction restores args
  | disjunction => exact follows_disjunction restores args
  | bindLocals => exact follows_letForm restores args
  | defineFunction => exact follows_defineFunction restores args
  | defineConstant => exact follows_defineConstant restores args
  | makeClosure => exact follows_makeClosure restores args
  | ignore => exact .done _

omit restores in
/-- A body runs under the locals that its parameters make, whatever the locals of the caller. -/
theorem follows_body (body : Node) (scope : Scope Value) :
    Follows ev terminal locals (withLocals scope (ev body)) (Course.value scope body) := by
  intro ctx _ _
  rw [Course.act_value]

theorem follows_apply (f : Value) (args : List Node) :
    Follows ev terminal locals (apply ev f args) (Course.apply terminal locals f args) := by
  cases f with
  | atom a => exact .fault _
  | seq shape items => exact .fault _
  | builtin name operation => exact follows_perform restores operation args
  | fn name params body =>
    exact (follows_bindArguments restores params args .empty).bind restores fun scope =>
      follows_body body scope
  | closure captured params body =>
    exact (follows_bindArguments restores params args captured).bind restores fun scope =>
      follows_body body scope

/-- A call acts out its course one level deeper, with its head as the place to blame. -/
theorem dispatch_eq (head : Node) (args : List Node) (ctx : Context) :
    dispatch ev head args ctx = calling head.span
      ((Course.call ctx.maxDepth ctx.terminal ctx.locals (ctx.depth + 1) head args).act ev) ctx := by
  have inner (within : Context) :
      (do
        let ctx ← context
        if ctx.maxDepth < ctx.depth then
          record (.depthReached ctx.maxDepth head.span)
          fail (.depthExceeded ctx.maxDepth)
        else
          let f ← ev head
          apply ev f args : Eval Value) within =
        (Course.call within.maxDepth within.terminal within.locals within.depth head args).act ev
          within := by
    change (if within.maxDepth < within.depth then _ else _ : Eval Value) within = _
    unfold Course.call
    split
    · rfl
    · exact (follows_value restores head).bind restores
        (fun f => follows_apply restores f args) within rfl rfl
  unfold dispatch calling
  rw [inner]

end Lisplet.Eval
