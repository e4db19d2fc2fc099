import Lisplet.Decimal.Shortest
import Lisplet.Proofs.Decimal.Encoding

/-!
Decimals that a double has exactly. Rounding such a decimal gives the double, whether it is a
whole number or a fraction with all its digits.
-/

namespace Lisplet.Decimal

open Float.Model Float.Model.UnpackedFloat
open Binary (Canonical)

variable {m : Nat} {e : Int}

theorem shiftRight_exact (m k : Nat) :
    (ExtendedMantissa.mk (m * 2 ^ k) false false) >>> k = ⟨m, false, false⟩ := by
  show k.repeat ExtendedMantissa.shiftRightOne _ = _
  induction k generalizing m with
  | zero => simp [Nat.repeat]
  | succ k ih =>
    have double : m * 2 ^ (k + 1) = m * 2 * 2 ^ k := by rw [Nat.pow_succ']; ac_rfl
    rw [double, Nat.repeat, ih]
    simp [ExtendedMantissa.shiftRightOne]

theorem log2_mul_two_pow (pos : 0 < m) (k : Nat) : (m * 2 ^ k).log2 = m.log2 + k := by
  induction k with
  | zero => simp
  | succ k ih =>
    have nonzero := Nat.ne_of_gt (Nat.mul_pos pos (Nat.two_pow_pos k))
    have double : m * 2 ^ (k + 1) = 2 * (m * 2 ^ k) := by rw [Nat.pow_succ']; ac_rfl
    rw [double, Nat.log2_two_mul nonzero, ih]
    omega

theorem targetExponent_canonical (c : Canonical m e) (k : Nat) :
    Format.binary64.targetExponent (totalExponent (m * 2 ^ k) (e - k)) = e := by
  have below : m.log2 < 53 := (Nat.log2_lt (Nat.ne_of_gt c.pos)).mpr c.lt
  have least := c.least
  have bits : (Format.binary64.mantissaBits : Int) = 53 := rfl
  have floor : Format.binary64.minExponent = -1074 := rfl
  rw [Format.targetExponent, totalExponent, log2_mul_two_pow c.pos, bits, floor]
  rcases c.full with normal | lowest
  · have above : 52 ≤ m.log2 := (Nat.le_log2 (Nat.ne_of_gt c.pos)).mpr normal
    omega
  · omega

theorem shiftToTargetExponent_exact (c : Canonical m e) (k : Nat) :
    shiftToTargetExponent Format.binary64 (m * 2 ^ k) (e - k) .exact =
      (⟨m, false, false⟩, e) := by
  have amount : (e - (e - k)).toNat = k := by omega
  rw [shiftToTargetExponent, targetExponent_canonical c]
  simp only [shiftToExponent, amount, ExtendedMantissa.ofMantissaAndAccuracy, shiftRight_exact]
  congr 1
  omega

/-- Rounding makes no difference to what a double has. -/
theorem roundWithAccuracy_exact (c : Canonical m e) (s : Sign) (k : Nat) :
    roundWithAccuracy Format.binary64 s (m * 2 ^ k) (e - k) .exact = .finite s m e c.pos := by
  have again : shiftToTargetExponent Format.binary64 m e .exact = (⟨m, false, false⟩, e) := by
    simpa using shiftToTargetExponent_exact c 0
  rw [roundWithAccuracy, shiftToTargetExponent_exact c]
  dsimp only [ExtendedMantissa.roundedMantissa, ExtendedMantissa.accuracy,
    Accuracy.roundToNearestEven]
  rw [again, dif_neg (Nat.ne_of_gt c.pos)]

section Finite
variable {s t : Sign} {a b : Nat} {i k : Int} {pos : 0 < a} {pos' : 0 < b}

theorem mul_finite (format : Format) :
    UnpackedFloat.mul format (.finite s a i pos) (.finite t b k pos') =
      roundWithAccuracy format (s * t) (a * b) (i + k) .exact := rfl

theorem div_finite (format : Format) :
    UnpackedFloat.div format (.finite s a i pos) (.finite t b k pos') =
      roundWithAccuracy format (s / t) (divCore format a i b k).1 (divCore format a i b k).2.1
        (divCore format a i b k).2.2 := rfl

end Finite

theorem ofScientific_whole {n j : Nat} (pos : 0 < n) (small : j ≤ 2 ^ 11) :
    UnpackedFloat.ofScientific Format.binary64 n j =
      roundWithAccuracy Format.binary64 .positive (n * 2 ^ 53 * 10 ^ j) (-53) .exact := by
  have small' : ¬ (j : Int) > 2 ^ Format.binary64.exponentBits := by
    show ¬ (j : Int) > 2 ^ 11
    omega
  have large : ¬ (j : Int) < -((2 ^ Format.binary64.exponentBits : Int) + n.log2) := by
    show ¬ (j : Int) < -((2 ^ 11 : Int) + n.log2)
    omega
  rw [UnpackedFloat.ofScientific, dif_neg (Nat.ne_of_gt pos), if_neg small', if_neg large,
    if_pos (Int.natCast_nonneg j), mul_finite, Nat.shiftLeft_eq]
  rfl

/-- A whole number with zeros behind it is the number with a power of ten. -/
theorem toFloat_zeros {n j : Nat} (small : j ≤ 2 ^ 11) :
    toFloat ⟨n * 10 ^ j, 0⟩ = toFloat ⟨n, j⟩ := by
  rcases Nat.eq_zero_or_pos n with rfl | pos
  · rw [Nat.zero_mul]
    rfl
  · have pos' : 0 < n * 10 ^ j := Nat.mul_pos pos (Nat.pow_pos (by omega))
    have whole := ofScientific_whole pos' (Nat.zero_le _)
    rw [Nat.pow_zero, Nat.mul_one, Nat.mul_right_comm, Int.natCast_zero] at whole
    rw [toFloat, toFloat, Float.Model.ofScientific, Float.Model.ofScientific, whole,
      ofScientific_whole pos small]

/-- A whole number that a double has reads as the double. -/
theorem toFloat_whole (c : Canonical m e) {n k : Nat} (same : n * 2 ^ 53 = m * 2 ^ k)
    (unit : e - k = -53) :
    toFloat ⟨n, 0⟩ = .ofModel (.pack (.finite .positive m e c.pos)) := by
  have pos : 0 < n := by
    refine Nat.pos_of_ne_zero fun zero => ?_
    have := Nat.mul_pos c.pos (Nat.two_pow_pos k)
    rw [zero] at same
    omega
  have whole := ofScientific_whole pos (Nat.zero_le _)
  rw [Int.natCast_zero] at whole
  rw [toFloat, Float.Model.ofScientific, whole, Nat.pow_zero, Nat.mul_one, same, ← unit,
    roundWithAccuracy_exact c]

theorem log2_mul_le {a b k : Nat} (lt : a < 2 ^ (k + 1)) (pos : 0 < b) :
    (a * b).log2 ≤ k + 1 + b.log2 := by
  rcases Nat.eq_zero_or_pos a with rfl | nonzero
  · rw [Nat.zero_mul, Nat.log2_zero]
    omega
  · have ne := Nat.ne_of_gt (Nat.mul_pos nonzero pos)
    have bound : a * b < 2 ^ (k + 1) * 2 ^ (b.log2 + 1) :=
      Nat.mul_lt_mul'' lt Nat.lt_log2_self
    rw [← Nat.pow_add] at bound
    have := (Nat.log2_lt ne).mpr bound
    omega

/-- The quotient is exact, since the shift makes room for all of its binary places. -/
theorem divCore_exact {k : Nat} (lt : m < 2 ^ 53) (places : k ≤ 1074) :
    ∃ j : Nat, divCore Format.binary64 (m * 5 ^ k) 0 (10 ^ k) 0 =
      (m * 2 ^ j, (-k : Int) - j, .exact) := by
  have pos : 0 < 5 ^ k := Nat.pow_pos (by omega)
  have tens : 10 ^ k = 5 ^ k * 2 ^ k := by rw [← Nat.mul_pow]
  have bits : (Format.binary64.mantissaBits : Int) = 53 := rfl
  have floor : Format.binary64.minExponent = -1074 := rfl
  have numerator := log2_mul_le lt pos
  have denominator := log2_mul_two_pow pos k
  rw [divCore, Format.targetExponent, totalExponent, totalExponent, bits, floor, tens, denominator]
  generalize reached : min ((0 : Int) - 0) (max _ (-1074)) = target
  have low : target ≤ -k := by omega
  obtain ⟨j, rfl⟩ : ∃ j : Nat, target = (-k : Int) - j := ⟨(-k - target).toNat, by omega⟩
  have shift : ((0 : Int) - 0 - (-k - j)).toNat = k + j := by omega
  have room : 2 ^ (k + j) = 2 ^ k * 2 ^ j := Nat.pow_add 2 k j
  have exact : m * 5 ^ k * 2 ^ (k + j) = m * 2 ^ j * (5 ^ k * 2 ^ k) := by
    rw [room]
    ac_rfl
  have pos' : 0 < 5 ^ k * 2 ^ k := Nat.mul_pos pos (Nat.two_pow_pos k)
  refine ⟨j, ?_⟩
  simp only [shift, Nat.shiftLeft_eq, exact, Nat.mul_div_cancel _ pos', Nat.mul_mod_left,
    accuracyOfFraction, if_pos]

/-- A fraction reads as the double that has it if all its digits are there. -/
theorem toFloat_fraction (c : Canonical m e) (negative : e < 0) :
    (exact m e).toFloat = .ofModel (.pack (.finite .positive m e c.pos)) := by
  rw [exact, if_neg (Int.not_le.mpr negative)]
  change toFloat ⟨m * 5 ^ (-e).toNat, e⟩ = _
  have least := c.least
  obtain ⟨k, rfl⟩ : ∃ k : Nat, e = -k := ⟨(-e).toNat, by omega⟩
  rw [Int.neg_neg, Int.toNat_natCast]
  have pos : 0 < m * 5 ^ k := Nat.mul_pos c.pos (Nat.pow_pos (by omega))
  have small : ¬ (-k : Int) > 2 ^ Format.binary64.exponentBits := by
    show ¬ (-k : Int) > 2 ^ 11
    omega
  have large : ¬ (-k : Int) < -((2 ^ Format.binary64.exponentBits : Int) + (m * 5 ^ k).log2) := by
    show ¬ (-k : Int) < -((2 ^ 11 : Int) + (m * 5 ^ k).log2)
    omega
  obtain ⟨j, quotient⟩ := @divCore_exact m k c.lt (by omega)
  rw [toFloat, Float.Model.ofScientific, UnpackedFloat.ofScientific, dif_neg (Nat.ne_of_gt pos),
    if_neg small, if_neg large, if_neg (Int.not_le.mpr negative), div_finite, Int.neg_neg,
    Int.toNat_natCast, quotient, roundWithAccuracy_exact c]
  rfl

end Lisplet.Decimal
