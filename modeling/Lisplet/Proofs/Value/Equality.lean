import Lisplet.Proofs.Number.Equality
import Lisplet.Proofs.Value.Legible

/-!
Equality of values. Comparing values pair by pair is comparing them by their structure. Equality is
symmetric and transitive, but what can be called and NaN are equal to nothing, so a value equals
itself only if it holds neither.
-/

namespace Lisplet

namespace Atom

/-- Whether two atoms are of one kind and have equal contents. -/
def same : Atom → Atom → Bool
  | number x, number y => x == y
  | bool b, bool c => b == c
  | string s, string t => s == t
  | char c, char d => c == d
  | symbol s, symbol t => s.name == t.name
  | keyword k, keyword l => k.name == l.name
  | nil, nil => true
  | _, _ => false

theorem isEqual_eq_same (a b : Atom) : a.isEqual b = a.same b := by
  cases a with
  | number | nil => cases b <;> rfl
  | bool p =>
    cases b with
    | bool q => exact decide_eq_decide.mpr ⟨bool.inj, congrArg bool⟩
    | number | string | char | symbol | keyword | nil => rfl
  | string s =>
    cases b with
    | string t => exact decide_eq_decide.mpr ⟨string.inj, congrArg string⟩
    | number | bool | char | symbol | keyword | nil => rfl
  | char c =>
    cases b with
    | char d => exact decide_eq_decide.mpr ⟨char.inj, congrArg char⟩
    | number | bool | string | symbol | keyword | nil => rfl
  | symbol s =>
    cases b with
    | symbol t =>
      cases s
      cases t
      exact decide_eq_decide.mpr ⟨Symbol.mk.inj ∘ symbol.inj, congrArg (symbol ∘ Symbol.mk)⟩
    | number | bool | string | char | keyword | nil => rfl
  | keyword k =>
    cases b with
    | keyword l =>
      cases k
      cases l
      exact decide_eq_decide.mpr ⟨Keyword.mk.inj ∘ keyword.inj, congrArg (keyword ∘ Keyword.mk)⟩
    | number | bool | string | char | symbol | nil => rfl

theorem isEqual_cases {a b : Atom} (equal : a.isEqual b) :
    a = b ∨ ∃ x y, a = .number x ∧ b = .number y ∧ x == y := by
  cases a with
  | number x =>
    cases b with
    | number y => exact .inr ⟨x, y, rfl, rfl, equal⟩
    | bool | string | char | symbol | keyword | nil => exact .inl (of_decide_eq_true equal)
  | bool | string | char | symbol | keyword | nil => exact .inl (of_decide_eq_true equal)

theorem isEqual_symm {a b : Atom} (equal : a.isEqual b) : b.isEqual a := by
  obtain rfl | ⟨x, y, rfl, rfl, numbers⟩ := isEqual_cases equal
  · exact equal
  · exact Number.beq_symm numbers

theorem isEqual_trans {a b c : Atom} (first : a.isEqual b) (second : b.isEqual c) :
    a.isEqual c := by
  obtain rfl | ⟨x, y, rfl, rfl, numbers⟩ := isEqual_cases first
  · exact second
  obtain rfl | ⟨y', z, same, rfl, numbers'⟩ := isEqual_cases second
  · exact first
  · cases same
    exact Number.beq_trans numbers numbers'

end Atom

namespace Value

mutual
/-- Equality by structure: atoms with the same contents, and sequences of one shape whose items are
the same one by one. What can be called is the same as nothing. -/
def same : Value → Value → Bool
  | atom a, atom b => a.same b
  | seq shape xs, seq shape' ys => decide (shape = shape') && sameItems xs ys
  | _, _ => false

def sameItems : List Value → List Value → Bool
  | [], [] => true
  | v :: vs, w :: ws => same v w && sameItems vs ws
  | _, _ => false
end

theorem sameItems_iff (xs ys : List Value) :
    sameItems xs ys ↔ List.Forall₂ (fun v w => v.same w) xs ys := by
  induction xs generalizing ys with
  | nil => cases ys <;> simp [sameItems]
  | cons v vs ih => cases ys <;> simp [sameItems, ih]

theorem isEqual_eq_same (v w : Value) : v.isEqual w = v.same w := by
  induction v using Value.induction generalizing w with
  | atom a =>
    cases w with
    | atom b => rw [isEqual_atom, same, Atom.isEqual_eq_same]
    | seq => exact not_isEqual_atom_seq ..
    | builtin | fn | closure => exact not_isEqual_callable _ rfl
  | seq shape xs ih =>
    cases w with
    | atom => exact not_isEqual_seq_atom ..
    | seq shape' ys =>
      have items : List.Forall₂ (fun v w => v.isEqual w) xs ys ↔ sameItems xs ys := by
        rw [sameItems_iff]
        constructor
        · exact fun each => forall₂_of_mem each fun v member w equal => ih v member w ▸ equal
        · exact fun each => forall₂_of_mem each fun v member w equal => ih v member w ▸ equal
      rw [Bool.eq_iff_iff, isEqual_seq, items, same]
      simp
    | builtin | fn | closure => exact not_isEqual_callable _ rfl
  | builtin | fn | closure => exact not_callable_isEqual _ rfl

/-- Whatever is still to be compared, all pairs are compared by their structure. -/
theorem allEqual_eq_all (pairs : List (Value × Value)) :
    allEqual pairs = pairs.all fun (v, w) => v.same w := by
  induction pairs with
  | nil => rw [allEqual, List.all_nil]
  | cons pair pairs ih => rw [allEqual_cons, ih, isEqual_eq_same, List.all_cons]

theorem exists_of_atom_isEqual {a : Atom} {w : Value} (equal : isEqual (.atom a) w) :
    ∃ b, w = .atom b ∧ a.isEqual b := by
  cases w with
  | atom b => exact ⟨b, rfl, isEqual_atom a b ▸ equal⟩
  | seq => rw [not_isEqual_atom_seq] at equal; cases equal
  | builtin | fn | closure => rw [not_isEqual_callable _ rfl] at equal; cases equal

theorem exists_of_seq_isEqual {shape : Shape} {xs : List Value} {w : Value}
    (equal : isEqual (.seq shape xs) w) :
    ∃ ys, w = .seq shape ys ∧ List.Forall₂ (fun v w => v.isEqual w) xs ys := by
  cases w with
  | atom => rw [not_isEqual_seq_atom] at equal; cases equal
  | seq shape' ys =>
    obtain ⟨rfl, items⟩ := (isEqual_seq ..).mp equal
    exact ⟨ys, rfl, items⟩
  | builtin | fn | closure => rw [not_isEqual_callable _ rfl] at equal; cases equal

theorem isEqual_symm {v w : Value} (equal : v.isEqual w) : w.isEqual v := by
  induction v using Value.induction generalizing w with
  | atom a =>
    obtain ⟨b, rfl, atoms⟩ := exists_of_atom_isEqual equal
    rw [isEqual_atom]
    exact Atom.isEqual_symm atoms
  | seq shape xs ih =>
    obtain ⟨ys, rfl, items⟩ := exists_of_seq_isEqual equal
    refine (isEqual_seq ..).mpr ⟨rfl, List.Forall₂.flip ?_⟩
    exact forall₂_of_mem items fun v member w equal => ih v member equal
  | builtin | fn | closure => rw [not_callable_isEqual _ rfl] at equal; cases equal

theorem isEqual_trans {u v w : Value} (first : u.isEqual v) (second : v.isEqual w) :
    u.isEqual w := by
  induction u using Value.induction generalizing v w with
  | atom a =>
    obtain ⟨b, rfl, atoms⟩ := exists_of_atom_isEqual first
    obtain ⟨c, rfl, atoms'⟩ := exists_of_atom_isEqual second
    rw [isEqual_atom]
    exact Atom.isEqual_trans atoms atoms'
  | seq shape xs ih =>
    obtain ⟨ys, rfl, items⟩ := exists_of_seq_isEqual first
    obtain ⟨zs, rfl, items'⟩ := exists_of_seq_isEqual second
    refine (isEqual_seq ..).mpr ⟨rfl, ?_⟩
    -- Along the items of the first two, which are paired, with those of the third.
    clear first second
    induction items generalizing zs with
    | nil =>
      cases items'
      exact .nil
    | cons equal _ rest =>
      obtain ⟨here, others⟩ := List.forall_mem_cons.mp ih
      cases items' with
      | cons equal' items' => exact .cons (here equal equal') (rest others _ items')
  | builtin | fn | closure => rw [not_callable_isEqual _ rfl] at first; cases first

def isNaN : Value → Bool
  | atom (.number x) => x.isNaN
  | _ => false

/-- A value equals itself only if it holds, at no depth, anything that can be called or NaN. -/
theorem isEqual_self_iff (v : Value) :
    v.isEqual v ↔ ∀ w, v.Holds w → w.isCallable = false ∧ w.isNaN = false := by
  induction v using Value.induction with
  | atom a =>
    have only : (∀ w, Holds (.atom a) w → w.isCallable = false ∧ w.isNaN = false) ↔
        (Value.atom a).isNaN = false := by
      constructor
      · exact fun each => (each _ .self).2
      · intro number w held
        cases held
        exact ⟨rfl, number⟩
    rw [isEqual_atom, only]
    cases a with
    | number x => exact Number.beq_self_iff
    | bool | string | char | symbol | keyword | nil => simp [Atom.isEqual, isNaN]
  | seq shape items ih =>
    rw [isEqual_seq, List.forall₂_same]
    constructor
    · rintro ⟨-, each⟩ w held
      cases held with
      | self => exact ⟨rfl, rfl⟩
      | item member held => exact (ih _ member).mp (each _ member) w held
    · intro plain
      refine ⟨rfl, fun v member => (ih v member).mpr fun w held => ?_⟩
      exact plain w (.item member held)
  | builtin | fn | closure =>
    rw [not_callable_isEqual _ rfl]
    constructor
    · intro equal
      cases equal
    · intro plain
      cases (plain _ .self).1

theorem isEqual_self (v : Value) (legible : v.Legible) : v.isEqual v := by
  refine (isEqual_self_iff v).mpr fun w held => ⟨legible.data w held, ?_⟩
  cases w with
  | atom a =>
    cases a with
    | number x => exact Number.isNaN_of_isFinite (legible.atoms _ held)
    | bool | string | char | symbol | keyword | nil => rfl
  | seq | builtin | fn | closure => rfl

end Value
end Lisplet
