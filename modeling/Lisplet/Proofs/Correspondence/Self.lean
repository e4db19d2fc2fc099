import Lisplet.Proofs.Correspondence.Basic

/-!
An evaluation beside itself. If a property of values and nodes is the property of all their parts,
the values that have it correspond each to itself. A course that corresponds to itself in this way
hands on nothing that lacks the property.
-/

namespace Lisplet

namespace Scope

variable {V : Value → Prop} {scope : Scope Value} {name : Symbol} {v : Value}

/-- Each value that is bound has the property. -/
def All (V : Value → Prop) (scope : Scope Value) : Prop := ∀ entry ∈ scope.entries, V entry.2

theorem all_empty : (empty : Scope Value).All V := fun _ member => by cases member

theorem All.lookup (all : scope.All V) (found : scope.lookup name = some v) : V v := by
  obtain ⟨entry, first, rfl⟩ := Option.map_eq_some_iff.mp found
  exact all entry (List.mem_of_find?_eq_some first)

theorem All.define (all : scope.All V) (value : V v) : (scope.define name v).All V := by
  intro entry member
  rcases mem_insert member with rfl | member
  · exact value
  · exact all entry member

end Scope

/-- A property of values and one of nodes that are the properties of their parts: of the items of
sequences and groups, of the bodies of functions and closures, and of what closures have
captured. -/
structure Inherited (V : Value → Prop) (N : Node → Prop) : Prop where
  atom : ∀ a, V (.atom a)
  seq : ∀ {shape items}, V (.seq shape items) ↔ ∀ v ∈ items, V v
  builtin : ∀ name operation, V (.builtin name operation)
  fn : ∀ {name params body}, V (.fn name params body) ↔ N body
  closure : ∀ {captured params body}, V (.closure captured params body) ↔ captured.All V ∧ N body
  items : ∀ {shape items span}, N (.group shape items span) → ∀ n ∈ items, N n

namespace Correspondence

variable {V : Value → Prop} {N : Node → Prop}

theorem eq_of_forall₂ {α : Type} {P : α → Prop} {xs ys : List α}
    (each : List.Forall₂ (fun x y => x = y ∧ P x) xs ys) : xs = ys ∧ ∀ x ∈ xs, P x := by
  induction each with
  | nil => exact ⟨rfl, fun _ member => by cases member⟩
  | cons first _ ih =>
    obtain ⟨rfl, here⟩ := first
    obtain ⟨rfl, others⟩ := ih
    exact ⟨rfl, List.forall_mem_cons.mpr ⟨here, others⟩⟩

/-- The correspondence of an evaluation with itself, as long as all that it meets has the
property. -/
def self (inherited : Inherited V N) : Correspondence where
  span := Eq
  value v v' := v = v' ∧ V v
  node locals locals' n n' := (locals = locals' ∧ n = n') ∧ locals.All V ∧ N n
  value_iff := by
    intro v v'
    constructor
    · rintro ⟨rfl, good⟩
      cases v with
      | atom a => exact .atom a
      | seq shape items =>
        have each := inherited.seq.mp good
        exact .seq shape (List.forall₂_same.mpr fun v member => ⟨rfl, each v member⟩)
      | builtin name operation => exact .builtin name operation
      | fn name params body =>
        exact .fn name params ⟨⟨rfl, rfl⟩, Scope.all_empty, inherited.fn.mp good⟩
      | closure captured params body =>
        exact .closure params ⟨⟨rfl, rfl⟩, inherited.closure.mp good⟩
    · intro same
      cases same with
      | atom a => exact ⟨rfl, inherited.atom a⟩
      | seq shape each =>
        obtain ⟨rfl, items⟩ := eq_of_forall₂ each
        exact ⟨rfl, inherited.seq.mpr items⟩
      | builtin name operation => exact ⟨rfl, inherited.builtin name operation⟩
      | fn name params body =>
        obtain ⟨⟨-, rfl⟩, -, body⟩ := body
        exact ⟨rfl, inherited.fn.mpr body⟩
      | closure params body =>
        obtain ⟨⟨rfl, rfl⟩, parts⟩ := body
        exact ⟨rfl, inherited.closure.mpr parts⟩
  matched := by
    rintro locals _ n _ ⟨⟨rfl, rfl⟩, all, good⟩
    cases n with
    | leaf a span =>
      refine .leaf rfl fun name _ => ?_
      cases found : locals.lookup name with
      | none => exact .none
      | some v => exact .some ⟨rfl, all.lookup found⟩
    | group shape items span =>
      have each := inherited.items good
      exact .group shape rfl
        (List.forall₂_same.mpr fun node member => ⟨⟨rfl, rfl⟩, all, each node member⟩)
  bare := by
    rintro locals _ n _ ⟨⟨rfl, rfl⟩, -, good⟩
    exact ⟨⟨rfl, rfl⟩, Scope.all_empty, good⟩
  define := by
    rintro locals _ n _ v _ name ⟨⟨rfl, rfl⟩, all, good⟩ ⟨rfl, value⟩
    exact ⟨⟨rfl, rfl⟩, all.define value, good⟩

theorem scope_self (inherited : Inherited V N) {scope : Scope Value} :
    (self inherited).scope scope scope ↔ scope.All V := by
  unfold Correspondence.scope Scope.Matched
  rw [List.forall₂_same]
  constructor
  · exact fun each entry member => (each entry member).2.2
  · exact fun all entry member => ⟨rfl, rfl, all entry member⟩

end Correspondence
end Lisplet
