import Lisplet.Proofs.Eval.Blame

/-!
What a call evaluates. Behind its head a call evaluates some of a row of nodes that its callee and
its arguments decide, in the order of the row and each at most once.
-/

namespace Lisplet

/-- The node that is evaluated for a binding of a `let`. -/
def Node.bound? : Node → Option Node
  | .group .list [_, bound] _ => some bound
  | _ => none

/-- The nodes that a call of a value may evaluate behind its head: the arguments, in a `let` what
the names are bound to and then the body, and at last the body of a function or closure. -/
def Value.operands (f : Value) (args : List Node) : List Node :=
  match f with
  | .fn _ _ body | .closure _ _ body => args ++ [body]
  | .builtin _ .bindLocals =>
    (Eval.ungroup args.dropLast).filterMap Node.bound? ++ args.getLast?.toList
  | _ => args

namespace Course

variable {α β : Type} {locals : Scope Value} {row rest : List Node}

/-- A course that asks for nodes of a row only, in their order and each at most once. -/
def Asks : Course α → List Node → Prop
  | done _, _ | fault _, _ => True
  | ask _ node next, row => ∃ rest, (node :: rest).Sublist row ∧ ∀ v, (next v).Asks rest
  | define _ _ next, row | report _ next, row | print _ next, row => next.Asks row

theorem Asks.widen {c : Course α} (asks : c.Asks row) {wider : List Node}
    (inside : row.Sublist wider) : c.Asks wider := by
  induction c generalizing row with
  | done a => trivial
  | fault f => trivial
  | ask locals node next ih =>
    obtain ⟨rest, front, later⟩ := asks
    exact ⟨rest, front.trans inside, later⟩
  | define name v next ih | report event next ih | print line next ih => exact ih asks inside

theorem Asks.bind {c : Course α} {f : α → Course β} (first : c.Asks row)
    (next : ∀ a, (f a).Asks rest) : (c >>= f).Asks (row ++ rest) := by
  change (c.bind f).Asks (row ++ rest)
  induction c generalizing row with
  | done a =>
    apply (next a).widen
    simp
  | fault f => trivial
  | ask locals node more ih =>
    obtain ⟨behind, front, later⟩ := first
    refine ⟨behind ++ rest, ?_, fun v => ih v (later v)⟩
    simpa using front.append_right rest
  | define name v more ih | report event more ih | print line more ih => exact ih first

/-- A course that asks for nothing may stand before any other. -/
theorem Asks.before {c : Course α} {f : α → Course β} (first : c.Asks [])
    (next : ∀ a, (f a).Asks rest) : (c >>= f).Asks rest := first.bind next

/-- Nothing is asked for by what concludes a course. -/
theorem Asks.concluded {c : Course α} {f : α → Course β} (asks : c.Asks row)
    (next : ∀ a, (f a).Asks []) : (c >>= f).Asks row := by
  simpa using asks.bind next

theorem Settles.asks {c : Course α} (settles : c.Settles) : c.Asks [] := by
  obtain ⟨a, rfl⟩ | ⟨f, rfl⟩ := settles
  · trivial
  · trivial

theorem asks_value (locals : Scope Value) (node : Node) : (value locals node).Asks [node] :=
  ⟨[], .refl _, fun _ => trivial⟩

/-- A node is evaluated before what is made of its value asks for more. -/
theorem asks_value_bind {node : Node} {f : Value → Course α} (next : ∀ v, (f v).Asks rest) :
    (value locals node >>= f).Asks (node :: rest) := (asks_value locals node).bind next

theorem asks_need (as? : Value → Option α) (v : Value) : (need as? v).Asks [] := by
  unfold need
  cases as? v with
  | none => trivial
  | some a => trivial

theorem asks_needAll (as? : Value → Option α) (vs : List Value) : (needAll as? vs).Asks [] := by
  induction vs with
  | nil => trivial
  | cons v vs ih =>
    apply (asks_need as? v).before
    intro a
    apply ih.before
    intro rest
    trivial

theorem asks_values (nodes : List Node) : (values locals nodes).Asks nodes := by
  induction nodes with
  | nil => trivial
  | cons node nodes ih =>
    apply asks_value_bind
    intro v
    apply ih.concluded
    intro vs
    trivial

theorem asks_numbers (args : List Node) : (numbers locals args).Asks args := by
  apply (asks_values args).concluded
  intro vs
  exact asks_needAll _ vs

theorem asks_unary_bind {args : List Node} {f : Node → Course α}
    (next : ∀ a, (f a).Asks [a]) : (unary args >>= f).Asks args := by
  match args with
  | [] => trivial
  | [a] => exact next a
  | _ :: _ :: _ => trivial

theorem asks_binary_bind {args : List Node} {f : Node × Node → Course α}
    (next : ∀ a b, (f (a, b)).Asks [a, b]) : (binary args >>= f).Asks args := by
  match args with
  | [] | [_] => trivial
  | [a, b] => exact next a b
  | _ :: _ :: _ :: _ => trivial

theorem asks_ternary (args : List Node) : (ternary args).Asks [] := by
  match args with
  | [] | [_] | [_, _] => trivial
  | [_, _, _] => trivial
  | _ :: _ :: _ :: _ :: _ => trivial

theorem asks_needParams (node : Node) : (needParams node).Asks [] := by
  unfold needParams
  cases node.symbols? with
  | none => trivial
  | some params => trivial

theorem asks_condition {node : Node} {f : Bool → Course Value} (next : ∀ b, (f b).Asks rest) :
    (value locals node >>= fun v => need Value.bool? v >>= f).Asks (node :: rest) := by
  apply asks_value_bind
  intro v
  exact (asks_need _ v).before next

theorem asks_choose (args : List Node) : (choose locals args).Asks args := by
  unfold choose
  split
  · rename_i condition yes no
    apply asks_condition
    rintro (_ | _)
    · exact (asks_value locals no).widen (by simp)
    · exact (asks_value locals yes).widen (by simp)
  · apply asks_binary_bind
    intro condition yes
    apply asks_condition
    rintro (_ | _)
    · trivial
    · exact asks_value locals yes

theorem asks_conjunction (args : List Node) : (conjunction locals args).Asks args := by
  induction args with
  | nil => trivial
  | cons node nodes ih =>
    apply asks_condition
    rintro (_ | _)
    · trivial
    · exact ih

theorem asks_disjunction (args : List Node) : (disjunction locals args).Asks args := by
  induction args with
  | nil => trivial
  | cons node nodes ih =>
    apply asks_condition
    rintro (_ | _)
    · exact ih
    · trivial

theorem bound?_of_needBinding {node bound : Node} {name : Symbol}
    (binds : needBinding node = done (name, bound)) : node.bound? = some bound := by
  match node with
  | .leaf _ _ | .group .vector _ _ => cases binds
  | .group .list [] _ | .group .list [_] _ | .group .list (_ :: _ :: _ :: _) _ => cases binds
  | .group .list [first, second] _ =>
    obtain ⟨s, found⟩ | ⟨f, found⟩ := settles_needName first
    · change (needName first >>= fun s => done (s, second)) = done (name, bound) at binds
      rw [found] at binds
      cases binds
      rfl
    · change (needName first >>= fun s => done (s, second)) = done (name, bound) at binds
      rw [found] at binds
      cases binds

theorem asks_bindings (nodes : List Node) :
    (bindings locals nodes).Asks (nodes.filterMap Node.bound?) := by
  induction nodes generalizing locals with
  | nil => trivial
  | cons node nodes ih =>
    unfold bindings
    cases binds : needBinding node with
    | done binding =>
      obtain ⟨name, bound⟩ := binding
      rw [List.filterMap_cons_some (bound?_of_needBinding binds)]
      apply asks_value_bind
      intro v
      exact ih
    | fault f => trivial
    | _ =>
      obtain ⟨_, other⟩ | ⟨_, other⟩ := settles_needBinding node
      · cases binds.symm.trans other
      · cases binds.symm.trans other

theorem asks_letForm (args : List Node) :
    (letForm locals args).Asks
      ((Eval.ungroup args.dropLast).filterMap Node.bound? ++ args.getLast?.toList) := by
  unfold letForm
  cases args.getLast? with
  | none => trivial
  | some body =>
    apply (asks_bindings _).bind
    intro inner
    exact asks_value inner body

theorem asks_parameters {start : Scope Value} (params : List Symbol) (args : List Node) :
    (parameters locals params args start).Asks args := by
  induction params generalizing args start with
  | nil =>
    cases args with
    | nil => trivial
    | cons node nodes => trivial
  | cons p params ih =>
    cases args with
    | nil => trivial
    | cons node nodes =>
      apply asks_value_bind
      intro v
      exact ih nodes

theorem asks_course (terminal : Bool) (name : Symbol) (operation : Operation) (args : List Node) :
    (operation.course terminal locals args).Asks
      ((Value.builtin name operation).operands args) := by
  cases operation with
  | add | multiply | less | greater | lessOrEqual | greaterOrEqual =>
    apply (asks_numbers args).concluded
    intro xs
    trivial
  | subtract | divide =>
    apply (asks_numbers args).concluded
    rintro (_ | ⟨x, xs⟩)
    · trivial
    · trivial
  | equal | concat | vector =>
    apply (asks_values args).concluded
    intro vs
    trivial
  | println =>
    apply (asks_values args).concluded
    intro vs
    cases terminal with
    | true => trivial
    | false => trivial
  | negate | chars =>
    apply asks_unary_bind
    intro node
    apply asks_value_bind
    intro v
    apply (asks_need _ v).before
    intro b
    trivial
  | parseNumber =>
    apply asks_unary_bind
    intro node
    apply asks_value_bind
    intro v
    apply (asks_need _ v).before
    intro s
    cases Number.read? s.toList with
    | none => trivial
    | some x => trivial
  | join =>
    apply asks_binary_bind
    intro separator sequence
    apply asks_value_bind
    intro v
    apply (asks_need _ v).before
    intro sep
    apply asks_value_bind
    intro w
    apply (asks_need _ w).before
    intro items
    trivial
  | nth =>
    apply asks_binary_bind
    intro sequence position
    apply asks_value_bind
    intro v
    apply (asks_need _ v).before
    intro elements
    apply asks_value_bind
    intro w
    apply (asks_need _ w).before
    intro x
    cases Eval.element? elements x with
    | none => trivial
    | some v => trivial
  | quote =>
    apply asks_unary_bind
    intro node
    trivial
  | choose => exact asks_choose args
  | conjunction => exact asks_conjunction args
  | disjunction => exact asks_disjunction args
  | bindLocals => exact asks_letForm args
  | defineFunction =>
    apply (asks_ternary args).before
    intro (nameNode, paramsNode, body)
    apply (settles_needName nameNode).asks.before
    intro name
    apply (asks_needParams paramsNode).before
    intro params
    trivial
  | defineConstant =>
    apply asks_binary_bind
    intro nameNode bound
    apply (settles_needName nameNode).asks.before
    intro name
    have asks := (asks_value locals bound).widen (List.sublist_cons_self nameNode [bound])
    apply asks.concluded
    intro v
    trivial
  | makeClosure =>
    apply asks_binary_bind
    intro paramsNode body
    apply (asks_needParams paramsNode).before
    intro params
    trivial
  | ignore => trivial

/-- What a call asks for behind its head. -/
theorem asks_apply (terminal : Bool) (f : Value) (args : List Node) :
    (apply terminal locals f args).Asks (f.operands args) := by
  cases f with
  | atom a => trivial
  | seq shape items => trivial
  | builtin name operation => exact asks_course terminal name operation args
  | fn name params body =>
    apply (asks_parameters params args).bind
    intro inner
    exact asks_value inner body
  | closure captured params body =>
    apply (asks_parameters params args).bind
    intro inner
    exact asks_value inner body

end Course
end Lisplet
