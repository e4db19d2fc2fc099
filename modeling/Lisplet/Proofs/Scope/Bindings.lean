import Lisplet.Scope.Basic
import Mathlib.Tactic.SplitIfs

/-!
What a scope binds after definitions. A definition changes what its own name is bound to and
nothing else; of several definitions of a name the last one counts. The names keep the order of
their first definitions.
-/

namespace Lisplet
namespace Scope

variable {α : Type}

theorem lookup_cons (name key : Symbol) (a : α) (rest : List (Symbol × α)) :
    lookup ⟨(name, a) :: rest⟩ key = if name = key then some a else lookup ⟨rest⟩ key := by
  unfold lookup
  by_cases same : name = key <;> simp [same]

theorem lookup_define (scope : Scope α) (name key : Symbol) (a : α) :
    (scope.define name a).lookup key = if name = key then some a else scope.lookup key := by
  obtain ⟨entries⟩ := scope
  unfold define
  induction entries with
  | nil => exact lookup_cons name key a []
  | cons entry rest ih =>
    obtain ⟨k, v⟩ := entry
    rw [insert]
    by_cases here : k = name
    · subst here
      rw [if_pos rfl, lookup_cons, lookup_cons]
      split <;> rfl
    · rw [if_neg here, lookup_cons, lookup_cons, ih]
      split_ifs <;> simp_all

theorem mem_insert {name : Symbol} {a : α} {entry : Symbol × α} {entries : List (Symbol × α)}
    (member : entry ∈ insert name a entries) : entry = (name, a) ∨ entry ∈ entries := by
  induction entries with
  | nil => exact .inl (List.mem_singleton.mp member)
  | cons first rest ih =>
    obtain ⟨k, v⟩ := first
    rw [insert] at member
    split_ifs at member with same
    · subst same
      rcases List.mem_cons.mp member with rfl | member
      · exact .inl rfl
      · exact .inr (List.mem_cons_of_mem _ member)
    · rcases List.mem_cons.mp member with rfl | member
      · exact .inr List.mem_cons_self
      · exact (ih member).imp_right (List.mem_cons_of_mem _)

theorem mem_keys_iff (scope : Scope α) (name : Symbol) :
    name ∈ scope.keys ↔ (scope.lookup name).isSome := by
  obtain ⟨entries⟩ := scope
  change name ∈ entries.map Prod.fst ↔ _
  induction entries with
  | nil => simp [lookup]
  | cons entry rest ih =>
    obtain ⟨k, v⟩ := entry
    rw [List.map_cons, List.mem_cons, lookup_cons, ih]
    by_cases here : k = name
    · simp [here]
    · simp [here, Ne.symm here]

/-- A name that is bound keeps its place, and a new one comes last. -/
theorem keys_define (scope : Scope α) (name : Symbol) (a : α) :
    (scope.define name a).keys =
      if name ∈ scope.keys then scope.keys else scope.keys ++ [name] := by
  obtain ⟨entries⟩ := scope
  change (insert name a entries).map Prod.fst = if name ∈ entries.map Prod.fst then _ else _
  induction entries with
  | nil => rfl
  | cons entry rest ih =>
    obtain ⟨k, v⟩ := entry
    rw [insert]
    by_cases here : k = name
    · subst here
      simp [keys]
    · rw [if_neg here]
      simp only [keys, List.map_cons] at ih ⊢
      rw [ih]
      by_cases bound : name ∈ rest.map Prod.fst
      · rw [if_pos bound, if_pos (List.mem_cons_of_mem _ bound)]
      · rw [if_neg bound, if_neg (List.not_mem_cons_of_ne_of_not_mem (Ne.symm here) bound)]
        rfl

/-- A scope after definitions that are made in order. -/
def extend (scope : Scope α) (bindings : List (Symbol × α)) : Scope α :=
  bindings.foldl (fun scope (name, value) => scope.define name value) scope

theorem extend_cons (scope : Scope α) (name : Symbol) (a : α) (bindings : List (Symbol × α)) :
    scope.extend ((name, a) :: bindings) = (scope.define name a).extend bindings := rfl

/-- The last definition of a name counts; a name without one is bound as before. -/
theorem lookup_extend (scope : Scope α) (bindings : List (Symbol × α)) (name : Symbol) :
    (scope.extend bindings).lookup name =
      ((bindings.reverse.find? fun (k, _) => k = name).map Prod.snd).or (scope.lookup name) := by
  induction bindings generalizing scope with
  | nil => rfl
  | cons binding bindings ih =>
    obtain ⟨k, a⟩ := binding
    rw [extend_cons, ih, lookup_define, List.reverse_cons, List.find?_append]
    cases bindings.reverse.find? fun (k, _) => k = name with
    | some last => rfl
    | none =>
      by_cases same : k = name
      · subst same
        simp
      · simp [same]

end Scope
end Lisplet
