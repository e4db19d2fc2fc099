import Lisplet.Proofs.Eval.Mentioned

/-!
What a course does by itself, whatever the nodes that it asks for come to. A call breaks off over
its arguments and never over a name without a value, and it defines no name but one that is written
among its arguments.
-/

namespace Lisplet

namespace Node

/-- All symbols in the node are of a kind. -/
def Within (names : Symbol → Prop) (node : Node) : Prop := ∀ name ∈ node.mentioned, names name

theorem eq_leaf_of_symbol? {node : Node} {name : Symbol} (found : node.symbol? = some name) :
    ∃ place, node = leaf (.symbol name) place := by
  unfold symbol? at found
  split at found
  · cases found
    exact ⟨_, rfl⟩
  · cases found

theorem mem_mentioned_of_symbol? {node : Node} {name : Symbol}
    (found : node.symbol? = some name) : name ∈ node.mentioned := by
  obtain ⟨place, rfl⟩ := eq_leaf_of_symbol? found
  exact List.mem_singleton.mpr rfl

end Node

/-- A fault that is not about a name without a value. -/
def EvalFault.Nameless : EvalFault → Prop
  | unknownSymbol _ => False
  | missingArguments | tooManyArguments | invalidFunction _ | invalidArgument _ | depthExceeded _ =>
    True

namespace Course

variable {α β : Type} {locals : Scope Value} {names : Symbol → Prop}

/-- No fault of the course itself is about a name without a value, and the names that it defines
itself are of a kind. -/
def Own (names : Symbol → Prop) : Course α → Prop
  | done _ => True
  | fault f => f.Nameless
  | ask _ _ next => ∀ v, (next v).Own names
  | define name _ next => names name ∧ next.Own names
  | report _ next | print _ next => next.Own names

theorem Own.bind {c : Course α} {f : α → Course β} (first : c.Own names)
    (next : ∀ a, (f a).Own names) : (c >>= f).Own names := by
  change (c.bind f).Own names
  induction c with
  | done a => exact next a
  | fault e => exact first
  | ask locals node rest ih => exact fun v => ih v (first v)
  | define name value rest ih => exact ⟨first.1, ih first.2⟩
  | report event rest ih | print line rest ih => exact ih first

section Arguments

theorem own_unary (args : List Node) : (unary args).Own names := by
  rcases args with _ | ⟨a, _ | ⟨b, args⟩⟩ <;> trivial

theorem own_binary (args : List Node) : (binary args).Own names := by
  rcases args with _ | ⟨a, _ | ⟨b, _ | ⟨c, args⟩⟩⟩ <;> trivial

theorem own_need (as? : Value → Option α) (v : Value) : (need as? v).Own names := by
  unfold need
  cases as? v <;> trivial

theorem own_needAll (as? : Value → Option α) (vs : List Value) :
    (needAll as? vs).Own names := by
  induction vs with
  | nil => trivial
  | cons v vs ih => exact (own_need as? v).bind fun a => ih.bind fun rest => trivial

theorem own_needName (node : Node) : (needName node).Own names := by
  unfold needName
  cases node.symbol? <;> trivial

/-- What is done with a name that stands in the arguments. -/
theorem own_named {node : Node} {f : Symbol → Course α}
    (next : ∀ name ∈ node.mentioned, (f name).Own names) : (needName node >>= f).Own names := by
  unfold needName
  cases found : node.symbol? with
  | none => trivial
  | some name => exact next name (Node.mem_mentioned_of_symbol? found)

theorem own_needParams (node : Node) : (needParams node).Own names := by
  unfold needParams
  cases node.symbols? <;> trivial

theorem own_value (node : Node) : (value locals node).Own names := fun _ => trivial

theorem own_values (nodes : List Node) : (values locals nodes).Own names := by
  induction nodes with
  | nil => trivial
  | cons node nodes ih => exact (own_value node).bind fun v => ih.bind fun vs => trivial

/-- What is made of the value of a node, once it is what it has to be. -/
theorem own_needed {as? : Value → Option α} {node : Node} {f : α → Course β}
    (next : ∀ a, (f a).Own names) :
    (value locals node >>= fun v => need as? v >>= f).Own names :=
  (own_value node).bind fun v => (own_need as? v).bind next

theorem own_numbers (args : List Node) : (numbers locals args).Own names :=
  (own_values args).bind fun vs => own_needAll _ vs

theorem own_parameters {start : Scope Value} (params : List Symbol) (args : List Node) :
    (parameters locals params args start).Own names := by
  induction params generalizing args start with
  | nil => cases args <;> trivial
  | cons p params ih =>
    cases args with
    | nil => trivial
    | cons node nodes => exact (own_value node).bind fun v => ih nodes

end Arguments

section Forms

theorem own_choose (args : List Node) : (choose locals args).Own names := by
  rcases args with _ | ⟨condition, _ | ⟨yes, _ | ⟨no, _ | ⟨other, args⟩⟩⟩⟩
  · trivial
  · trivial
  · refine own_needed fun b => ?_
    cases b with
    | true => exact own_value yes
    | false => trivial
  · refine own_needed fun b => ?_
    cases b with
    | true => exact own_value yes
    | false => exact own_value no
  · trivial

theorem own_conjunction (args : List Node) : (conjunction locals args).Own names := by
  induction args with
  | nil => trivial
  | cons node nodes ih =>
    refine own_needed fun b => ?_
    cases b with
    | true => exact ih
    | false => trivial

theorem own_disjunction (args : List Node) : (disjunction locals args).Own names := by
  induction args with
  | nil => trivial
  | cons node nodes ih =>
    refine own_needed fun b => ?_
    cases b with
    | true => trivial
    | false => exact ih

theorem own_needBinding (node : Node) : (needBinding node).Own names := by
  cases node with
  | leaf a span => trivial
  | group shape items span =>
    cases shape with
    | vector => trivial
    | list =>
      refine (own_binary items).bind fun (name, bound) => ?_
      exact (own_needName name).bind fun symbol => trivial

theorem own_bindings (nodes : List Node) : (bindings locals nodes).Own names := by
  induction nodes generalizing locals with
  | nil => trivial
  | cons node nodes ih =>
    refine (own_needBinding node).bind fun (name, bound) => ?_
    exact (own_value bound).bind fun v => ih

theorem own_letForm (args : List Node) : (letForm locals args).Own names := by
  unfold letForm
  cases args.getLast? with
  | none => trivial
  | some body => exact (own_bindings _).bind fun inner => own_value body

variable {args : List Node} (written : ∀ node ∈ args, node.Within names)
include written

theorem own_defineFunction : (defineFunction args).Own names := by
  rcases args with _ | ⟨nameNode, _ | ⟨paramsNode, _ | ⟨body, _ | ⟨other, args⟩⟩⟩⟩
  · trivial
  · trivial
  · trivial
  · refine own_named fun name member => (own_needParams paramsNode).bind fun params => ?_
    exact ⟨written nameNode List.mem_cons_self name member, trivial⟩
  · trivial

theorem own_defineConstant : (defineConstant locals args).Own names := by
  rcases args with _ | ⟨nameNode, _ | ⟨bound, _ | ⟨other, args⟩⟩⟩
  · trivial
  · trivial
  · refine own_named fun name member => (own_value bound).bind fun v => ?_
    exact ⟨written nameNode List.mem_cons_self name member, trivial⟩
  · trivial

end Forms

section Calls

variable {args : List Node} (written : ∀ node ∈ args, node.Within names)
include written

/-- Operations break off over their arguments, never over a name, and define names that are written
in them. -/
theorem own_course (terminal : Bool) (operation : Operation) :
    (operation.course terminal locals args).Own names := by
  cases operation with
  | add | multiply | less | greater | lessOrEqual | greaterOrEqual =>
    exact (own_numbers args).bind fun xs => trivial
  | subtract | divide =>
    refine (own_numbers args).bind fun xs => ?_
    cases xs <;> trivial
  | equal | concat | vector => exact (own_values args).bind fun vs => trivial
  | println =>
    refine (own_values args).bind fun vs => ?_
    cases terminal <;> trivial
  | negate | chars => exact (own_unary args).bind fun node => own_needed fun b => trivial
  | parseNumber =>
    refine (own_unary args).bind fun node => own_needed fun s => ?_
    cases Number.read? s.toList <;> trivial
  | join =>
    refine (own_binary args).bind fun (separator, sequence) => own_needed fun sep => ?_
    exact own_needed fun items => trivial
  | nth =>
    refine (own_binary args).bind fun (sequence, position) => ?_
    refine own_needed fun elements => own_needed fun x => ?_
    cases Eval.element? elements x <;> trivial
  | quote => exact (own_unary args).bind fun node => trivial
  | choose => exact own_choose args
  | conjunction => exact own_conjunction args
  | disjunction => exact own_disjunction args
  | bindLocals => exact own_letForm args
  | defineFunction => exact own_defineFunction written
  | defineConstant => exact own_defineConstant written
  | makeClosure =>
    refine (own_binary args).bind fun (paramsNode, body) => ?_
    exact (own_needParams paramsNode).bind fun params => trivial
  | ignore => trivial

theorem own_apply (terminal : Bool) (f : Value) : (apply terminal locals f args).Own names := by
  cases f with
  | atom | seq => trivial
  | builtin name operation => exact own_course written terminal operation
  | fn name params body | closure captured params body =>
    exact (own_parameters params args).bind fun inner => own_value body

theorem own_call (limit : Int) (terminal : Bool) (depth : Nat) (head : Node) :
    (call limit terminal locals depth head args).Own names := by
  unfold call
  split
  · trivial
  · exact (own_value head).bind fun f => own_apply written terminal f

end Calls

end Course
end Lisplet
