import Lisplet.Proofs.Node.Named
import Lisplet.Proofs.Scope.Bindings
import Lisplet.Proofs.Value.Legible

/-!
Sound values: what programs that are read from texts compute with. All names in a sound value are
names that a text can write, also in the bodies of its functions and in what its closures have
captured; its lists are not empty, and they are data.
-/

namespace Lisplet

namespace Value

inductive Sound : Value → Prop where
  | atom {a} : a.Named → Sound (.atom a)
  | vector {items} : (∀ v ∈ items, Sound v) → Sound (.seq .vector items)
  | list {items} : items ≠ [] → (∀ v ∈ items, Sound v) → (∀ v ∈ items, v.Data) →
      Sound (.seq .list items)
  | builtin {name operation} : name.Lexed → Sound (.builtin name operation)
  | fn {name params body} : name.Lexed → (∀ p ∈ params, p.Lexed) → body.Named →
      Sound (.fn name params body)
  | closure {captured params body} : (∀ name ∈ captured.keys, name.Lexed) →
      (∀ entry ∈ captured.entries, Sound entry.2) → (∀ p ∈ params, p.Lexed) → body.Named →
      Sound (.closure captured params body)

end Value

/-- The names are names that a text can write, and the values are sound. -/
structure Scope.Sound (scope : Scope Value) : Prop where
  names : ∀ name ∈ scope.keys, name.Lexed
  values : ∀ entry ∈ scope.entries, entry.2.Sound

namespace Scope

variable {scope : Scope Value} {name : Symbol} {v : Value}

theorem sound_empty : (empty : Scope Value).Sound := ⟨nofun, nofun⟩

theorem Sound.define (sound : scope.Sound) (lexed : name.Lexed) (value : v.Sound) :
    (scope.define name v).Sound := by
  constructor
  · intro key bound
    obtain ⟨entry, member, rfl⟩ := List.mem_map.mp bound
    rcases mem_insert member with rfl | member
    · exact lexed
    · exact sound.names _ (List.mem_map_of_mem member)
  · intro entry member
    rcases mem_insert member with rfl | member
    · exact value
    · exact sound.values entry member

theorem Sound.lookup (sound : scope.Sound) (found : scope.lookup name = some v) : v.Sound := by
  obtain ⟨entry, first, rfl⟩ := Option.map_eq_some_iff.mp found
  exact sound.values entry (List.mem_of_find?_eq_some first)

theorem sound_ofList {bindings : List (Symbol × Value)}
    (sound : ∀ binding ∈ bindings, binding.1.Lexed ∧ binding.2.Sound) :
    (ofList bindings).Sound := by
  have start := sound_empty
  unfold ofList
  generalize empty = scope at start ⊢
  induction bindings generalizing scope with
  | nil => exact start
  | cons binding bindings ih =>
    obtain ⟨first, others⟩ := List.forall_mem_cons.mp sound
    exact ih others _ (start.define first.1 first.2)

end Scope

namespace Value

variable {v : Value} {items : List Value}

theorem sound_ofList (sound : ∀ v ∈ items, v.Sound) (data : ∀ v ∈ items, v.Data) :
    (ofList items).Sound := by
  cases items with
  | nil => exact .atom trivial
  | cons v vs => exact .list (List.cons_ne_nil v vs) sound data

theorem sound_ofItems (shape : Shape) (sound : ∀ v ∈ items, v.Sound)
    (data : ∀ v ∈ items, v.Data) : (ofItems shape items).Sound := by
  cases shape with
  | list => exact sound_ofList sound data
  | vector => exact .vector sound

theorem data_ofItems (shape : Shape) (data : ∀ v ∈ items, v.Data) :
    (ofItems shape items).Data := by
  match shape, items with
  | .vector, items => exact data_seq.mpr data
  | .list, [] => exact data_atom .nil
  | .list, v :: vs => exact data_seq.mpr data

theorem Sound.proper (sound : v.Sound) : v.Proper := by
  induction sound with
  | atom named => exact proper_atom.mpr named
  | vector _ ih => exact proper_seq.mpr ⟨rfl, ih⟩
  | list nonempty _ _ ih =>
    obtain ⟨v, vs, rfl⟩ := List.exists_cons_of_ne_nil nonempty
    exact proper_seq.mpr ⟨rfl, ih⟩
  | builtin | fn | closure =>
    constructor
    · intro a held
      cases held
    · intro held
      cases held

end Value

namespace Node

theorem toValue_data (node : Node) : node.toValue.Data := by
  cases node with
  | leaf a span => exact Value.data_atom a
  | group shape items span =>
    rw [toValue_group]
    refine Value.data_ofItems shape fun v member => ?_
    obtain ⟨node, inside, rfl⟩ := List.mem_map.mp member
    exact toValue_data node

theorem toValue_sound (node : Node) (named : node.Named) : node.toValue.Sound := by
  cases node with
  | leaf a span => exact .atom (named_leaf.mp named)
  | group shape items span =>
    rw [toValue_group]
    refine Value.sound_ofItems shape (fun v member => ?_) (fun v member => ?_)
    · obtain ⟨node, inside, rfl⟩ := List.mem_map.mp member
      exact toValue_sound node (named_group.mp named node inside)
    · obtain ⟨node, inside, rfl⟩ := List.mem_map.mp member
      exact toValue_data node

end Node
end Lisplet
