import Lisplet.Value.Basic

/-!
Equality of values: the same kind with the same contents, at every depth. Nothing that can be
called equals anything, itself included. The pairs still to be compared are kept in a list, so
the nesting of sequences is bounded by memory only.
-/

namespace Lisplet

namespace Atom

/-- Numbers compare as doubles do: the zeros are equal, and NaN differs from itself. -/
def isEqual : Atom → Atom → Bool
  | number x, number y => x == y
  | a, b => decide (a = b)

end Atom

namespace Value

def pairWeights : List (Value × Value) → Nat
  | [] => 0
  | (v, _) :: rest => 1 + weight v + pairWeights rest

theorem pairWeights_append (xs ys : List (Value × Value)) :
    pairWeights (xs ++ ys) = pairWeights xs + pairWeights ys := by
  induction xs with
  | nil => simp [pairWeights]
  | cons pair rest ih =>
    rw [List.cons_append, pairWeights, pairWeights, ih]
    omega

theorem pairWeights_zip (xs ys : List Value) : pairWeights (xs.zip ys) ≤ weights xs := by
  induction xs generalizing ys with
  | nil => simp [pairWeights]
  | cons x xs ih =>
    cases ys with
    | nil => simp [pairWeights]
    | cons y ys =>
      have := ih ys
      simp only [pairWeights, List.zip_cons_cons, weights] at this ⊢
      omega

/-- Whether all pairs are pairs of equal values. -/
def allEqual : List (Value × Value) → Bool
  | [] => true
  | (.atom a, .atom b) :: rest => a.isEqual b && allEqual rest
  | (.seq shape xs, .seq shape' ys) :: rest =>
    decide (shape = shape') && xs.length == ys.length && allEqual (xs.zip ys ++ rest)
  | _ => false
termination_by pairs => pairWeights pairs
decreasing_by
  · simp only [pairWeights]; omega
  · have := pairWeights_zip xs ys
    simp only [pairWeights_append, pairWeights, weight] at this ⊢
    omega

def isEqual (v w : Value) : Bool := allEqual [(v, w)]

end Value
end Lisplet
