import Lisplet.Number.Display

/-!
Equality of doubles. Two doubles are equal if they are no NaN and denote the same, up to the sign
of a zero.
-/

namespace Lisplet.Number

open Float.Model Float.Model.UnpackedFloat

/-- What a comparison sees of a double: the zeros are one. -/
def oneZero : UnpackedFloat → UnpackedFloat
  | .zero _ => .zero .positive
  | u => u

theorem compare_finite_iff (s : Sign) {m m' : Nat} {e e' : Int} (pos : 0 < m) (pos' : 0 < m') :
    (finite s m e pos).compare (finite s m' e' pos') = some .eq ↔ e = e' ∧ m = m' := by
  have ordered : (compare e e').then (compare m m') = .eq ↔ e = e' ∧ m = m' :=
    Ordering.then_eq_eq.trans (and_congr Int.compare_eq_eq Nat.compare_eq_eq)
  rw [← ordered]
  cases s with
  | positive => exact Option.some_inj
  | negative => exact Option.some_inj.trans Ordering.swap_eq_eq

theorem compare_eq_iff (u w : UnpackedFloat) :
    u.compare w = some .eq ↔ u.isNaN = false ∧ oneZero u = oneZero w := by
  constructor
  · intro same
    cases u with
    | notANumber => cases same
    | zero s =>
      refine ⟨rfl, ?_⟩
      cases w with
      | zero => rfl
      | notANumber => cases same
      | infinity t | finite t => cases t <;> cases same
    | infinity s =>
      refine ⟨rfl, ?_⟩
      cases w with
      | infinity t => cases s <;> cases t <;> first | rfl | cases same
      | notANumber | zero | finite => cases s <;> cases same
    | finite s m e pos =>
      refine ⟨rfl, ?_⟩
      cases w with
      | notANumber | zero => cases s <;> cases same
      | infinity t => cases s <;> cases t <;> cases same
      | finite t m' e' pos' =>
        have signs : s = t := by
          cases s <;> cases t <;> first | rfl | cases same
        subst signs
        obtain ⟨rfl, rfl⟩ := (compare_finite_iff s pos pos').mp same
        rfl
  · rintro ⟨number, same⟩
    cases u with
    | notANumber => cases number
    | zero s =>
      cases w with
      | zero => rfl
      | notANumber | infinity | finite => cases same
    | infinity s =>
      cases w with
      | infinity t =>
        cases same
        cases s <;> rfl
      | notANumber | zero | finite => cases same
    | finite s m e pos =>
      cases w with
      | finite t m' e' pos' =>
        cases same
        exact (compare_finite_iff s pos pos).mpr ⟨rfl, rfl⟩
      | notANumber | zero | infinity => cases same

variable {x y z : Float}

theorem beq_iff : (x == y) = true ↔
    x.isNaN = false ∧ oneZero x.toModel.unpack = oneZero y.toModel.unpack := by
  change (x.toModel.unpack.compare y.toModel.unpack == some .eq) = true ↔ _
  rw [beq_iff_eq]
  exact compare_eq_iff ..

theorem isNaN_eq_of_oneZero {u w : UnpackedFloat} (same : oneZero u = oneZero w) :
    u.isNaN = w.isNaN := by
  have kept (u : UnpackedFloat) : (oneZero u).isNaN = u.isNaN := by
    cases u <;> rfl
  rw [← kept u, same, kept]

theorem beq_symm (equal : x == y) : y == x := by
  obtain ⟨number, same⟩ := beq_iff.mp equal
  exact beq_iff.mpr ⟨(isNaN_eq_of_oneZero same).symm.trans number, same.symm⟩

theorem beq_trans (first : x == y) (second : y == z) : x == z := by
  obtain ⟨number, same⟩ := beq_iff.mp first
  exact beq_iff.mpr ⟨number, same.trans (beq_iff.mp second).2⟩

theorem beq_self_iff : (x == x) = true ↔ x.isNaN = false := by
  rw [beq_iff]
  exact and_iff_left rfl

theorem isNaN_of_isFinite (finite : x.isFinite) : x.isNaN = false := by
  change x.toModel.unpack.isFinite = true at finite
  change x.toModel.unpack.isNaN = false
  cases unpacked : x.toModel.unpack with
  | notANumber =>
    rw [unpacked] at finite
    cases finite
  | infinity | zero | finite => rfl

end Lisplet.Number
