import Lisplet.Proofs.Correspondence.Basic
import Lisplet.Proofs.Eval.Course

/-!
Courses that run side by side. They ask for corresponding nodes and are answered with
corresponding values, define the same names, and end alike. Every operation and every call of
corresponding values has such courses on corresponding arguments.
-/

namespace Lisplet

/-- What corresponds under some locals corresponds under others that are made from them. -/
def Correspondence.Extends (K : Correspondence) (locals locals' inner inner' : Scope Value) :
    Prop :=
  ∀ n n', K.node locals locals' n n' → K.node inner inner' n n'

namespace Course

variable {K : Correspondence} {α α' β β' : Type} {good : α → α' → Prop} {other : β → β' → Prop}
  {locals locals' : Scope Value}

inductive Corresponds (K : Correspondence) {α α' : Type} (good : α → α' → Prop) :
    Course α → Course α' → Prop where
  | done {a : α} {a' : α'} : good a a' → Corresponds K good (.done a) (.done a')
  | fault {f f' : EvalFault} : f.Matched K.value f' → Corresponds K good (.fault f) (.fault f')
  | ask {locals locals' : Scope Value} {n n' : Node} {next : Value → Course α}
      {next' : Value → Course α'} : K.node locals locals' n n' →
      (∀ v v', K.value v v' → Corresponds K good (next v) (next' v')) →
      Corresponds K good (.ask locals n next) (.ask locals' n' next')
  | define (name : Symbol) {v v' : Value} {next : Course α} {next' : Course α'} :
      K.value v v' → Corresponds K good next next' →
      Corresponds K good (.define name v next) (.define name v' next')
  | report (event event' : Event) {next : Course α} {next' : Course α'} :
      Corresponds K good next next' →
      Corresponds K good (.report event next) (.report event' next')
  | print (line : String) {next : Course α} {next' : Course α'} :
      Corresponds K good next next' → Corresponds K good (.print line next) (.print line next')

theorem Corresponds.bind {c : Course α} {c' : Course α'} {f : α → Course β} {f' : α' → Course β'}
    (first : c.Corresponds K good c')
    (next : ∀ a a', good a a' → (f a).Corresponds K other (f' a')) :
    (c >>= f).Corresponds K other (c' >>= f') := by
  change (c.bind f).Corresponds K other (c'.bind f')
  induction first with
  | done same => exact next _ _ same
  | fault same => exact .fault same
  | ask both _ ih => exact .ask both ih
  | define name value _ ih => exact .define name value ih
  | report event event' _ ih => exact .report event event' ih
  | print line _ ih => exact .print line ih

theorem Corresponds.weaken {c : Course α} {c' : Course α'} {weaker : α → α' → Prop}
    (same : c.Corresponds K good c') (each : ∀ a a', good a a' → weaker a a') :
    c.Corresponds K weaker c' := by
  induction same with
  | done same => exact .done (each _ _ same)
  | fault same => exact .fault same
  | ask both _ ih => exact .ask both ih
  | define name value _ ih => exact .define name value ih
  | report event event' _ ih => exact .report event event' ih
  | print line _ ih => exact .print line ih

section Arguments

variable {R : Node → Node → Prop} {args args' : List Node} {n n' : Node} {v v' : Value}

theorem corresponds_unary (each : List.Forall₂ R args args') :
    (unary args).Corresponds K R (unary args') := by
  match each with
  | .nil => exact .fault .missingArguments
  | .cons a .nil => exact .done a
  | .cons _ (.cons _ _) => exact .fault .tooManyArguments

theorem corresponds_binary (each : List.Forall₂ R args args') :
    (binary args).Corresponds K (fun (a, b) (a', b') => R a a' ∧ R b b') (binary args') := by
  match each with
  | .nil | .cons _ .nil => exact .fault .missingArguments
  | .cons a (.cons b .nil) => exact .done ⟨a, b⟩
  | .cons _ (.cons _ (.cons _ _)) => exact .fault .tooManyArguments

theorem corresponds_ternary (each : List.Forall₂ R args args') :
    (ternary args).Corresponds K (fun (a, b, c) (a', b', c') => R a a' ∧ R b b' ∧ R c c')
      (ternary args') := by
  match each with
  | .nil | .cons _ .nil | .cons _ (.cons _ .nil) => exact .fault .missingArguments
  | .cons a (.cons b (.cons c .nil)) => exact .done ⟨a, b, c⟩
  | .cons _ (.cons _ (.cons _ (.cons _ _))) => exact .fault .tooManyArguments

theorem corresponds_need {as? : Value → Option α} {as?' : Value → Option α'}
    (both : K.value v v') (same : Option.Rel good (as? v) (as?' v')) :
    (need as? v).Corresponds K good (need as?' v') := by
  unfold need
  generalize as? v = found, as?' v' = found' at same ⊢
  cases same with
  | none => exact .fault (.invalidArgument both)
  | some same => exact .done same

/-- What is taken from corresponding values as plain data is the same. -/
theorem corresponds_needPlain {as? : Value → Option α} (both : K.value v v')
    (same : as? v = as? v') : (need as? v).Corresponds K Eq (need as? v') := by
  refine corresponds_need both ?_
  rw [same]
  cases as? v' with
  | none => exact .none
  | some a => exact .some rfl

theorem corresponds_needAll {as? : Value → Option α} {vs vs' : List Value}
    (plain : ∀ {v v'}, K.value v v' → as? v = as? v') (each : List.Forall₂ K.value vs vs') :
    (needAll as? vs).Corresponds K Eq (needAll as? vs') := by
  induction each with
  | nil => exact .done rfl
  | cons first _ ih =>
    refine (corresponds_needPlain first (plain first)).bind fun a _ same => ?_
    refine ih.bind fun rest _ others => .done ?_
    rw [same, others]

theorem corresponds_needName (both : K.node locals locals' n n') :
    (needName n).Corresponds K Eq (needName n') := by
  unfold needName
  rw [K.symbol?_eq both]
  cases n'.symbol? with
  | none => exact .fault (.invalidArgument (K.toValue both))
  | some name => exact .done rfl

theorem corresponds_needParams (both : K.node locals locals' n n') :
    (needParams n).Corresponds K Eq (needParams n') := by
  unfold needParams
  rw [K.symbols?_eq both]
  cases n'.symbols? with
  | none => exact .fault (.invalidArgument (K.toValue both))
  | some params => exact .done rfl

theorem corresponds_value (both : K.node locals locals' n n') :
    (value locals n).Corresponds K K.value (value locals' n') := .ask both fun _ _ => .done

/-- Going on with what the value of a node is taken for as plain data. -/
theorem corresponds_plain {as? : Value → Option β} {next : β → Course α} {next' : β → Course α'}
    (both : K.node locals locals' n n') (plain : ∀ {v v'}, K.value v v' → as? v = as? v')
    (rest : ∀ b, (next b).Corresponds K good (next' b)) :
    (value locals n >>= fun v => need as? v >>= next).Corresponds K good
      (value locals' n' >>= fun v => need as? v >>= next') := by
  refine (corresponds_value both).bind fun v v' same => ?_
  refine (corresponds_needPlain same (plain same)).bind ?_
  rintro b _ rfl
  exact rest b

variable (each : List.Forall₂ (K.node locals locals') args args')
include each

theorem corresponds_values :
    (values locals args).Corresponds K (List.Forall₂ K.value) (values locals' args') := by
  induction each with
  | nil => exact .done .nil
  | cons first _ ih =>
    refine (corresponds_value first).bind fun v v' same => ?_
    exact ih.bind fun vs vs' others => .done (.cons same others)

theorem corresponds_parameters (params : List Symbol) {start start' : Scope Value} :
    (parameters locals params args start).Corresponds K (K.Extends start start')
      (parameters locals' params args' start') := by
  induction params generalizing args args' start start' with
  | nil =>
    cases each with
    | nil => exact .done fun _ _ both => both
    | cons _ _ => exact .fault .tooManyArguments
  | cons p params ih =>
    cases each with
    | nil => exact .fault .missingArguments
    | cons first others =>
      refine (corresponds_value first).bind fun v v' same => ?_
      exact (ih others).weaken fun _ _ inner n n' both => inner n n' (K.define p both same)

end Arguments

section Strict

variable {args args' : List Node} (each : List.Forall₂ (K.node locals locals') args args')
include each

theorem corresponds_numbers :
    (numbers locals args).Corresponds K Eq (numbers locals' args') :=
  (corresponds_values each).bind fun _ _ same =>
    corresponds_needAll (fun both => K.number?_eq both) same

theorem corresponds_foldNumbers (op : Float → Float → Float) (unit : Float) :
    (foldNumbers locals op unit args).Corresponds K K.value
      (foldNumbers locals' op unit args') := by
  refine (corresponds_numbers each).bind ?_
  rintro xs _ rfl
  exact .done (K.atom _)

theorem corresponds_reduceNumbers (op : Float → Float → Float) :
    (reduceNumbers locals op args).Corresponds K K.value (reduceNumbers locals' op args') := by
  refine (corresponds_numbers each).bind ?_
  rintro xs _ rfl
  cases xs with
  | nil => exact .fault .missingArguments
  | cons x xs => exact .done (K.atom _)

theorem corresponds_compareNumbers (rel : Float → Float → Bool) :
    (compareNumbers locals rel args).Corresponds K K.value (compareNumbers locals' rel args') := by
  refine (corresponds_numbers each).bind ?_
  rintro xs _ rfl
  exact .done (K.atom _)

theorem corresponds_equal :
    (equal locals args).Corresponds K K.value (equal locals' args') := by
  refine (corresponds_values each).bind fun vs vs' same => .done ?_
  rw [K.allSame_eq same]
  exact K.atom _

theorem corresponds_negate :
    (negate locals args).Corresponds K K.value (negate locals' args') := by
  refine (corresponds_unary each).bind fun n n' both => ?_
  exact corresponds_plain both K.bool?_eq fun b => .done (K.atom _)

theorem corresponds_concat :
    (concat locals args).Corresponds K K.value (concat locals' args') := by
  refine (corresponds_values each).bind fun vs vs' same => .done ?_
  rw [K.texts_eq same]
  exact K.atom _

theorem corresponds_chars :
    (chars locals args).Corresponds K K.value (chars locals' args') := by
  refine (corresponds_unary each).bind fun n n' both => ?_
  exact corresponds_plain both K.string?_eq fun s => .done (K.ofList (K.characters s))

theorem corresponds_join :
    (join locals args).Corresponds K K.value (join locals' args') := by
  refine (corresponds_binary each).bind fun (n, m) (n', m') ⟨first, second⟩ => ?_
  refine corresponds_plain first K.string?_eq fun separator => ?_
  refine (corresponds_value second).bind fun w w' same => ?_
  refine (corresponds_need same (K.items? same)).bind fun items items' same => .done ?_
  rw [K.texts_eq same]
  exact K.atom _

theorem corresponds_vector :
    (vector locals args).Corresponds K K.value (vector locals' args') :=
  (corresponds_values each).bind fun _ _ same => .done (K.seq .vector same)

theorem corresponds_nth :
    (nth locals args).Corresponds K K.value (nth locals' args') := by
  refine (corresponds_binary each).bind fun (n, m) (n', m') ⟨first, second⟩ => ?_
  refine (corresponds_value first).bind fun v v' same => ?_
  refine (corresponds_need same (K.elements? same)).bind fun elements elements' inside => ?_
  refine corresponds_plain second K.number?_eq fun x => ?_
  have found := K.element? inside x
  generalize Eval.element? elements x = v, Eval.element? elements' x = v' at found ⊢
  cases found with
  | none => exact .fault (.invalidArgument (K.atom _))
  | some same => exact .done same

theorem corresponds_parseNumber :
    (parseNumber locals args).Corresponds K K.value (parseNumber locals' args') := by
  refine (corresponds_unary each).bind fun n n' both => ?_
  refine corresponds_plain both K.string?_eq fun s => ?_
  cases Number.read? s.toList with
  | none => exact .fault (.invalidArgument (K.atom _))
  | some x => exact .done (K.atom _)

theorem corresponds_println (terminal : Bool) :
    (println terminal locals args).Corresponds K K.value (println terminal locals' args') := by
  refine (corresponds_values each).bind fun vs vs' same => ?_
  rw [K.texts_eq same]
  cases terminal with
  | true => exact .print _ (.done (K.atom _))
  | false => exact .done (K.atom _)

end Strict

section Forms

variable {args args' : List Node} (each : List.Forall₂ (K.node locals locals') args args')
include each

theorem corresponds_quote : (quote args).Corresponds K K.value (quote args') :=
  (corresponds_unary each).bind fun _ _ both => .done (K.toValue both)

omit each in
/-- A condition decides the same on both sides. -/
theorem corresponds_condition {n n' : Node} {yes no : Course α} {yes' no' : Course α'}
    (both : K.node locals locals' n n') (accepted : yes.Corresponds K good yes')
    (refused : no.Corresponds K good no') :
    (do if ← need Value.bool? (← value locals n) then yes else no : Course α).Corresponds K good
      (do if ← need Value.bool? (← value locals' n') then yes' else no') := by
  refine corresponds_plain both K.bool?_eq fun b => ?_
  cases b with
  | true => exact accepted
  | false => exact refused

theorem corresponds_choose :
    (choose locals args).Corresponds K K.value (choose locals' args') := by
  match each with
  | .nil | .cons _ .nil => exact .fault .missingArguments
  | .cons condition (.cons yes .nil) =>
    exact corresponds_condition condition (corresponds_value yes) (.done (K.atom _))
  | .cons condition (.cons yes (.cons no .nil)) =>
    exact corresponds_condition condition (corresponds_value yes) (corresponds_value no)
  | .cons _ (.cons _ (.cons _ (.cons _ _))) => exact .fault .tooManyArguments

theorem corresponds_conjunction :
    (conjunction locals args).Corresponds K K.value (conjunction locals' args') := by
  induction each with
  | nil => exact .done (K.atom _)
  | cons first _ ih => exact corresponds_condition first ih (.done (K.atom _))

theorem corresponds_disjunction :
    (disjunction locals args).Corresponds K K.value (disjunction locals' args') := by
  induction each with
  | nil => exact .done (K.atom _)
  | cons first _ ih => exact corresponds_condition first (.done (K.atom _)) ih

omit each in
theorem corresponds_needBinding {n n' : Node} (both : K.node locals locals' n n') :
    (needBinding n).Corresponds K (fun (name, bound) (name', bound') =>
      name = name' ∧ K.node locals locals' bound bound') (needBinding n') := by
  cases K.matched both with
  | leaf => exact .fault (.invalidArgument (K.toValue both))
  | group shape _ items =>
    cases shape with
    | vector => exact .fault (.invalidArgument (K.toValue both))
    | list =>
      refine (corresponds_binary items).bind fun (m, bound) (m', bound') ⟨first, second⟩ => ?_
      exact (corresponds_needName first).bind fun name name' same => .done ⟨same, second⟩

theorem corresponds_bindings :
    (bindings locals args).Corresponds K (K.Extends locals locals') (bindings locals' args') := by
  induction args generalizing args' locals locals' with
  | nil =>
    cases each with
    | nil => exact .done fun _ _ both => both
  | cons n nodes ih =>
    cases each with
    | cons first others =>
      refine (corresponds_needBinding first).bind fun (name, bound) (_, bound') ⟨same, inner⟩ => ?_
      cases same
      refine (corresponds_value inner).bind fun v v' same => ?_
      have extended : K.Extends locals locals' (locals.define name v) (locals'.define name v') :=
        fun _ _ both => K.define name both same
      refine (ih (List.Forall₂.imp extended others)).weaken fun _ _ inner m m' both => ?_
      exact inner m m' (extended m m' both)

omit each in
theorem isList_eq {n n' : Node} (both : K.node locals locals' n n') :
    Eval.isList n = Eval.isList n' := by
  cases K.matched both with
  | leaf => rfl
  | group shape => cases shape <;> rfl

theorem corresponding_ungroup :
    List.Forall₂ (K.node locals locals') (Eval.ungroup args) (Eval.ungroup args') := by
  match each with
  | .nil => exact .nil
  | .cons first (.cons second others) =>
    simpa only [Eval.ungroup] using .cons first (.cons second others)
  | .cons first .nil =>
    cases K.matched first with
    | leaf => exact .cons first .nil
    | @group shape items items' _ _ _ inner =>
      cases shape with
      | vector => exact .cons first .nil
      | list =>
        cases inner with
        | nil => exact .nil
        | cons item items =>
          simp only [Eval.ungroup, isList_eq item]
          split
          · exact .cons item items
          · exact .cons first .nil

theorem corresponds_letForm :
    (letForm locals args).Corresponds K K.value (letForm locals' args') := by
  have rest : List.Forall₂ (K.node locals locals') args.dropLast args'.dropLast := by
    rw [List.dropLast_eq_take, List.dropLast_eq_take, each.length_eq]
    exact List.forall₂_take _ each
  have last : Option.Rel (K.node locals locals') args.getLast? args'.getLast? := by
    have reversed := List.forall₂_reverse_iff.mpr each
    rw [← List.head?_reverse, ← List.head?_reverse]
    generalize args.reverse = nodes, args'.reverse = nodes' at reversed ⊢
    cases reversed with
    | nil => exact .none
    | cons body _ => exact .some body
  unfold letForm
  generalize args.getLast? = body, args'.getLast? = body' at last ⊢
  cases last with
  | none => exact .fault .missingArguments
  | some body =>
    refine (corresponds_bindings (corresponding_ungroup rest)).bind fun inner inner' extended => ?_
    exact corresponds_value (extended _ _ body)

theorem corresponds_defineFunction :
    (defineFunction args).Corresponds K K.value (defineFunction args') := by
  refine (corresponds_ternary each).bind
    fun (m, p, body) (m', p', body') ⟨first, second, third⟩ => ?_
  refine (corresponds_needName first).bind ?_
  rintro name _ rfl
  refine (corresponds_needParams second).bind ?_
  rintro params _ rfl
  exact .define name (K.value_iff.mpr (.fn name params (K.bare third)))
    (.report _ _ (.done (K.atom _)))

theorem corresponds_defineConstant :
    (defineConstant locals args).Corresponds K K.value (defineConstant locals' args') := by
  refine (corresponds_binary each).bind fun (m, bound) (m', bound') ⟨first, second⟩ => ?_
  refine (corresponds_needName first).bind ?_
  rintro name _ rfl
  refine (corresponds_value second).bind fun v v' same => ?_
  exact .define name same (.report _ _ (.done (K.atom _)))

theorem corresponds_makeClosure :
    (makeClosure locals args).Corresponds K K.value (makeClosure locals' args') := by
  refine (corresponds_binary each).bind fun (p, body) (p', body') ⟨first, second⟩ => ?_
  refine (corresponds_needParams first).bind ?_
  rintro params _ rfl
  exact .done (K.value_iff.mpr (.closure params second))

end Forms

section Calls

variable {args args' : List Node} (each : List.Forall₂ (K.node locals locals') args args')
include each

theorem corresponds_course (terminal : Bool) (operation : Operation) :
    (operation.course terminal locals args).Corresponds K K.value
      (operation.course terminal locals' args') := by
  cases operation with
  | add | multiply => exact corresponds_foldNumbers each _ _
  | subtract | divide => exact corresponds_reduceNumbers each _
  | less | greater | lessOrEqual | greaterOrEqual => exact corresponds_compareNumbers each _
  | equal => exact corresponds_equal each
  | negate => exact corresponds_negate each
  | concat => exact corresponds_concat each
  | chars => exact corresponds_chars each
  | join => exact corresponds_join each
  | vector => exact corresponds_vector each
  | nth => exact corresponds_nth each
  | parseNumber => exact corresponds_parseNumber each
  | println => exact corresponds_println each terminal
  | quote => exact corresponds_quote each
  | choose => exact corresponds_choose each
  | conjunction => exact corresponds_conjunction each
  | disjunction => exact corresponds_disjunction each
  | bindLocals => exact corresponds_letForm each
  | defineFunction => exact corresponds_defineFunction each
  | defineConstant => exact corresponds_defineConstant each
  | makeClosure => exact corresponds_makeClosure each
  | ignore => exact .done (K.atom _)

theorem corresponds_apply {f f' : Value} (callee : K.value f f') (terminal : Bool) :
    (apply terminal locals f args).Corresponds K K.value (apply terminal locals' f' args') := by
  cases K.value_iff.mp callee with
  | atom | seq => exact .fault (.invalidFunction callee)
  | builtin _ operation => exact corresponds_course each terminal operation
  | fn _ params body =>
    exact (corresponds_parameters each params).bind fun _ _ extended =>
      corresponds_value (extended _ _ body)
  | closure params body =>
    exact (corresponds_parameters each params).bind fun _ _ extended =>
      corresponds_value (extended _ _ body)

/-- A call that the depth limit allows. -/
theorem corresponds_call {head head' : Node} (callee : K.node locals locals' head head')
    (limit : Int) (terminal : Bool) (depth : Nat) (allowed : ¬limit < depth) :
    (call limit terminal locals depth head args).Corresponds K K.value
      (call limit terminal locals' depth head' args') := by
  unfold call
  rw [if_neg allowed, if_neg allowed]
  exact (corresponds_value callee).bind fun f f' same => corresponds_apply each same terminal

end Calls

end Course
end Lisplet
