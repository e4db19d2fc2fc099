import Lisplet.Proofs.Correspondence.Self
import Lisplet.Proofs.Eval.Calls
import Lisplet.Proofs.Eval.Machine
import Lisplet.Proofs.Eval.Own
import Lisplet.Proofs.Value.Regular

/-!
Which names an evaluation meets. The bodies that it comes to evaluate stand in the functions and
closures that it can get hold of, and those that it makes are parts of what it evaluates. So if all
symbols in a node and in these bodies are of a kind, no step of the evaluation meets another symbol.
-/

namespace Lisplet

namespace Value

/-- Having a function or closure in it, at any depth, with that body. -/
def HasBody (v : Value) (body : Node) : Prop :=
  ∃ w r, v.Contains w ∧ w.routine? = some r ∧ r.body = body

theorem hasBody_self {v : Value} {r : Routine} (routine : v.routine? = some r) : v.HasBody r.body :=
  ⟨v, r, .self, routine, rfl⟩

theorem not_hasBody_atom (a : Atom) (body : Node) : ¬(atom a).HasBody body := by
  rintro ⟨w, r, inside, routine, -⟩
  cases inside
  cases routine

theorem not_hasBody_builtin (name : Symbol) (operation : Operation) (body : Node) :
    ¬(builtin name operation).HasBody body := by
  rintro ⟨w, r, inside, routine, -⟩
  cases inside
  cases routine

theorem hasBody_seq {shape : Shape} {items : List Value} {body : Node} :
    (seq shape items).HasBody body ↔ ∃ v ∈ items, v.HasBody body := by
  constructor
  · rintro ⟨w, r, inside, routine, same⟩
    cases inside with
    | self => cases routine
    | item member deeper => exact ⟨_, member, w, r, deeper, routine, same⟩
  · rintro ⟨v, member, w, r, inside, routine, same⟩
    exact ⟨w, r, .item member inside, routine, same⟩

theorem hasBody_fn {name : Symbol} {params : List Symbol} {own body : Node} :
    (fn name params own).HasBody body ↔ own = body := by
  constructor
  · rintro ⟨w, r, inside, routine, rfl⟩
    cases inside
    cases routine
    rfl
  · rintro rfl
    exact hasBody_self (v := fn name params own) rfl

theorem hasBody_closure {captured : Scope Value} {params : List Symbol} {own body : Node} :
    (closure captured params own).HasBody body ↔
      own = body ∨ ∃ entry ∈ captured.entries, entry.2.HasBody body := by
  constructor
  · rintro ⟨w, r, inside, routine, same⟩
    cases inside with
    | self =>
      cases routine
      exact .inl same
    | captured bound deeper => exact .inr ⟨_, bound, w, r, deeper, routine, same⟩
  · rintro (rfl | ⟨entry, bound, w, r, inside, routine, same⟩)
    · exact hasBody_self (v := closure captured params own) rfl
    · exact ⟨w, r, .captured bound inside, routine, same⟩

end Value

variable {names : Symbol → Prop}

/-- All symbols in the bodies that the value has are of a kind. -/
def Value.Within (names : Symbol → Prop) (v : Value) : Prop :=
  ∀ body, v.HasBody body → body.Within names

theorem inherited_within : Inherited (Value.Within names) (Node.Within names) where
  atom a := fun body holds => absurd holds (Value.not_hasBody_atom a body)
  seq {shape items} := by
    simp only [Value.Within, Value.hasBody_seq]
    constructor
    · exact fun each v member body holds => each body ⟨v, member, holds⟩
    · exact fun each body ⟨v, member, holds⟩ => each v member body holds
  builtin name operation := fun body holds =>
    absurd holds (Value.not_hasBody_builtin name operation body)
  fn {name params body} := by
    simp only [Value.Within, Value.hasBody_fn]
    constructor
    · exact fun each => each body rfl
    · rintro within _ rfl
      exact within
  closure {captured params body} := by
    simp only [Value.Within, Value.hasBody_closure, Scope.All]
    constructor
    · exact fun each => ⟨fun entry bound inner holds => each inner (.inr ⟨entry, bound, holds⟩),
        each body (.inl rfl)⟩
    · rintro ⟨kept, within⟩ _ (rfl | ⟨entry, bound, holds⟩)
      · exact within
      · exact kept entry bound _ holds
  items within := fun _ member _ mentions => within _ (Node.mem_mentionedIn member mentions)

namespace Course

/-- All that the course hands on and all names that it defines are of a kind, if it is answered with
values of the kind. -/
def Within (names : Symbol → Prop) : Course Value → Prop
  | done v => v.Within names
  | fault _ => True
  | ask locals node next => (locals.All (Value.Within names) ∧ node.Within names) ∧
      ∀ v, v.Within names → (next v).Within names
  | define name v next => names name ∧ v.Within names ∧ next.Within names
  | report _ next | print _ next => next.Within names

/-- What corresponds to itself and defines names of the kind stays within the kind. -/
theorem within_of_corresponds {c : Course Value}
    (same : c.Corresponds (.self (@inherited_within names))
      (Correspondence.self (@inherited_within names)).value c) (own : c.Own names) :
    c.Within names := by
  induction c with
  | done v =>
    cases same with
    | done good => exact good.2
  | fault f => trivial
  | ask locals node next ih =>
    cases same with
    | ask asked later =>
      exact ⟨asked.2, fun v within => ih v (later v v ⟨rfl, within⟩) (own v)⟩
  | define name v next ih =>
    cases same with
    | define _ value later => exact ⟨own.1, value.2, ih later own.2⟩
  | report event next ih =>
    cases same with
    | report _ _ later => exact ih later own
  | print line next ih =>
    cases same with
    | print _ later => exact ih later own

theorem within_call {locals : Scope Value} {head : Node} {args : List Node}
    (scope : locals.All (Value.Within names)) (each : ∀ node ∈ head :: args, node.Within names)
    (limit : Int) (terminal : Bool) (depth : Nat) :
    (call limit terminal locals depth head args).Within names := by
  by_cases exceeded : limit < depth
  · rw [call_exceeded exceeded]
    trivial
  · obtain ⟨callee, arguments⟩ := List.forall_mem_cons.mp each
    refine within_of_corresponds (corresponds_call ?_ ?_ limit terminal depth exceeded)
      (own_call arguments limit terminal depth head)
    · exact List.forall₂_same.mpr fun node member => ⟨⟨rfl, rfl⟩, scope, arguments node member⟩
    · exact ⟨⟨rfl, rfl⟩, scope, callee⟩

end Course

namespace Machine

def Task.Within (names : Symbol → Prop) : Task → Prop
  | evaluate frame node => frame.locals.All (Value.Within names) ∧ node.Within names
  | proceed _ course => course.Within names
  | give (.ok v) => v.Within names
  | give (.error _) => True

/-- What is done next is within a kind of names, and so is what each waiting call does with a value
of the kind. -/
structure State.Within (names : Symbol → Prop) (state : State) : Prop where
  waiting : ∀ w ∈ state.waiting, ∀ v, v.Within names → (w.next v).Within names
  task : state.task.Within names
  globals : state.globals.All (Value.Within names)

theorem begin_within {frame : Frame} {globals : Scope Value} {node : Node} (settings : Settings)
    (scope : frame.locals.All (Value.Within names)) (within : node.Within names)
    (bound : globals.All (Value.Within names)) :
    (begin settings frame globals node).Within names := by
  cases node.form with
  | symbol name span =>
    rw [begin]
    cases found : (frame.locals.lookup name).or (globals.lookup name) with
    | none => trivial
    | some v =>
      rcases Option.or_eq_some_iff.mp found with here | ⟨-, there⟩
      · exact scope.lookup here
      · exact bound.lookup there
  | call head args span =>
    exact Course.within_call scope (inherited_within.items within) settings.maxDepth
      settings.terminal (frame.depth + 1)
  | datum notSymbol notCall =>
    rw [begin_datum notSymbol notCall]
    have same : (Correspondence.self inherited_within).node .empty .empty node node :=
      ⟨⟨rfl, rfl⟩, Scope.all_empty, within⟩
    exact (Correspondence.toValue same).2

/-- The step lemma of the names that are met. -/
theorem State.Within.step {state : State} (within : state.Within names) (settings : Settings) :
    (state.step settings).Within names := by
  obtain ⟨waiting, task, globals⟩ := state
  obtain ⟨later, now, bound⟩ := within
  cases task with
  | evaluate frame node => exact ⟨later, begin_within settings now.1 now.2 bound, bound⟩
  | proceed call course =>
    cases course with
    | done v => exact ⟨later, now, bound⟩
    | fault f => exact ⟨later, trivial, bound⟩
    | ask locals node next =>
      obtain ⟨asked, next⟩ := now
      exact ⟨List.forall_mem_cons.mpr ⟨next, later⟩, asked, bound⟩
    | define name v next =>
      obtain ⟨-, value, next⟩ := now
      exact ⟨later, next, bound.define value⟩
    | report event next | print line next => exact ⟨later, now, bound⟩
  | give outcome =>
    cases waiting with
    | nil =>
      rw [State.step]
      exact ⟨later, now, bound⟩
    | cons w waiting =>
      obtain ⟨first, others⟩ := List.forall_mem_cons.mp later
      cases outcome with
      | error e => exact ⟨others, trivial, bound⟩
      | ok v => exact ⟨others, first v now, bound⟩

/-- The run lemma of the names that are met. -/
theorem State.Within.after {state : State} (within : state.Within names) (settings : Settings)
    (steps : Nat) : (state.after settings steps).Within names := by
  induction steps with
  | zero => exact within
  | succ steps ih => exact ih.step settings

end Machine
end Lisplet
