import Lisplet.Proofs.Eval.Calls
import Lisplet.Proofs.Value.Equality

/-!
Comparing arguments. Values that all equal the first of them all equal each other, the first itself
included, in whatever order they stand.
-/

namespace Lisplet
namespace Eval

variable {vs ws : List Value}

/-- Values equal the first of them if and only if all are equal to each other and to themselves. -/
theorem allSame_iff : allSame vs ↔ ∀ v ∈ vs, ∀ w ∈ vs, v.isEqual w := by
  cases vs with
  | nil => simp [allSame]
  | cons first vs =>
    rw [allSame, List.all_eq_true]
    constructor
    · intro each v member w member'
      exact Value.isEqual_trans (each v member) (Value.isEqual_symm (each w member'))
    · intro each v member
      exact each v member first List.mem_cons_self

theorem allSame_perm (reordered : vs.Perm ws) : allSame ws = allSame vs := by
  rw [Bool.eq_iff_iff, allSame_iff, allSame_iff]
  simp only [reordered.mem_iff]

/-- Equality is a partial equivalence, and `=` decides it between all of its arguments. The pairs
still to be compared are compared by their structure, whatever their order; equality is symmetric
and transitive, and fails between a value and itself exactly where the value holds something that
can be called or NaN. So a call of `=` whose arguments have values is true if and only if all of
the values are equal to each other and to themselves, and the order of the values does not
matter. -/
theorem equal_decides_pairwise :
    (∀ pairs : List (Value × Value),
      Value.allEqual pairs = pairs.all fun (v, w) => v.same w) ∧
    (∀ v w : Value, v.isEqual w = v.same w) ∧
    (∀ v w : Value, v.isEqual w → w.isEqual v) ∧
    (∀ u v w : Value, u.isEqual v → v.isEqual w → u.isEqual w) ∧
    (∀ v : Value, v.isEqual v ↔ ∀ w, v.Holds w → w.isCallable = false ∧ w.isNaN = false) ∧
    (∀ vs : List Value, allSame vs ↔ ∀ v ∈ vs, ∀ w ∈ vs, v.isEqual w) ∧
    (∀ vs ws : List Value, vs.Perm ws → allSame ws = allSame vs) ∧
    ∀ (ctx : Context) (head : Node) (name : Symbol) (called : Context) (args : List Node)
      (vs : List Value) (after : Context) (span : Span),
      Calls ctx head (.builtin name .equal) called →
      (evalAll eval args).run called = (.ok vs, after) →
      (eval (.group .list (head :: args) span)).run ctx =
        (.ok (.bool (allSame vs)), after.outside ctx) := by
  refine ⟨Value.allEqual_eq_all, Value.isEqual_eq_same, fun v w => Value.isEqual_symm,
    fun u v w => Value.isEqual_trans, Value.isEqual_self_iff, fun vs => allSame_iff,
    fun vs ws => allSame_perm, ?_⟩
  intro ctx head name called args vs after span calls evaluated
  exact calls.eval_eq (bind_of_ok evaluated _) span

/-- Two vectors that differ in the sign of a zero. -/
theorem equal_decides_pairwise_zeros :
    let here : Span := .emptyAt (.ofText "" none) 0
    let vec (x : Float) : Value := .seq .vector [.number x, .string "a"]
    let arg (x : Float) : Node := .group .list
      [.leaf (.symbol ⟨"vec"⟩) here, .leaf (.number x) here, .leaf (.string "a") here] here
    let ctx := Context.fresh 9 false
    let called := ctx.inside here
    let call (x y : Float) :=
      (eval (.group .list [.leaf (.symbol ⟨"="⟩) here, arg x, arg y] here)).run ctx
    (vec 0).isEqual (vec (-0)) ∧ (vec (-0)).isEqual (vec 0) ∧ (vec 0).isEqual (vec 0) ∧
      [vec 0, vec (-0)].Perm [vec (-0), vec 0] ∧
      allSame [vec (-0), vec 0] = allSame [vec 0, vec (-0)] ∧
      call 0 (-0) = (.ok (.bool true), called.outside ctx) ∧
      call Number.nan Number.nan = (.ok (.bool false), called.outside ctx) := by
  intro here vec arg ctx called call
  obtain ⟨-, structural, symmetric, transitive, -, -, reordered, calls⟩ := equal_decides_pairwise
  have zeros : (vec 0).isEqual (vec (-0)) := by
    rw [structural]
    decide +kernel
  have swapped := symmetric _ _ zeros
  have perm : [vec 0, vec (-0)].Perm [vec (-0), vec 0] := List.Perm.swap ..
  have head : Calls ctx (.leaf (.symbol ⟨"="⟩) here) (.builtin ⟨"="⟩ .equal) called :=
    ⟨by decide, rfl⟩
  have answer (x y : Float) : call x y =
      (.ok (.bool (allSame [vec x, vec y])), called.outside ctx) :=
    calls ctx _ _ called [arg x, arg y] [vec x, vec y] called here head rfl
  have same : allSame [vec 0, vec (-0)] = true := by
    simp only [allSame, structural]
    decide +kernel
  have differ : allSame [vec Number.nan, vec Number.nan] = false := by
    simp only [allSame, structural]
    decide +kernel
  refine ⟨zeros, swapped, transitive _ _ _ zeros swapped, perm, reordered _ _ perm, ?_, ?_⟩
  · rw [answer, same]
  · rw [answer, differ]

end Eval
end Lisplet
