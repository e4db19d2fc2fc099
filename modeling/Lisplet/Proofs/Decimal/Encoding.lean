import Lisplet.Decimal.Binary
import Mathlib.Algebra.Group.Nat.Defs

/-!
The encoding of doubles. A finite double that is not zero has one mantissa and exponent, and it is
made again by packing them.
-/

namespace Lisplet.Binary

open Float.Model Float.Model.UnpackedFloat

/-- The mantissa and exponent of a double: the mantissa fills its 53 bits unless the exponent is the
least there is. -/
structure Canonical (m : Nat) (e : Int) : Prop where
  pos : 0 < m
  lt : m < 2 ^ 53
  least : -1074 ≤ e
  most : e ≤ 971
  full : 2 ^ 52 ≤ m ∨ e = -1074

theorem ofBitVec_toBitVec (s : Sign) : Sign.ofBitVec s.toBitVec = s := by
  cases s <;> rfl

theorem toBitVec_ofBitVec : ∀ b : BitVec 1, (Sign.ofBitVec b).toBitVec = b := by decide

theorem toNat_append_eq {m n : Nat} (x : BitVec m) (y : BitVec n) :
    (x ++ y).toNat = 2 ^ n * x.toNat + y.toNat := by
  rw [BitVec.toNat_append, ← Nat.shiftLeft_add_eq_or_of_lt y.isLt, Nat.shiftLeft_eq, Nat.mul_comm]

theorem toNat_packComponents (s : Sign) (e : BitVec 11) (m : BitVec 52) :
    (packComponents Format.binary64 s e m).toNat =
      2 ^ 52 * (2 ^ 11 * s.toBitVec.toNat + e.toNat) + m.toNat := by
  simp only [packComponents, toNat_append_eq]

section Fields
variable (b : BitVec 64)

theorem toNat_unpackMantissa :
    (@unpackMantissa Format.binary64 b).toNat = b.toNat % 2 ^ 52 := by
  simp [unpackMantissa]

theorem toNat_unpackExponent :
    (@unpackExponent Format.binary64 b).toNat = b.toNat / 2 ^ 52 % 2 ^ 11 := by
  simp [unpackExponent, Nat.shiftRight_eq_div_pow]

theorem toNat_unpackSign :
    (@unpackSign Format.binary64 b).toNat = b.toNat / 2 ^ 63 := by
  have bound : b.toNat < 2 ^ 64 := b.isLt
  change (BitVec.cast _ (b.extractLsb (52 + 11) (52 + 11))).toNat = _
  simp [Nat.shiftRight_eq_div_pow]
  omega

/-- A double is put together from its three fields. -/
theorem packComponents_fields :
    packComponents Format.binary64 (.ofBitVec (@unpackSign Format.binary64 b))
      (@unpackExponent Format.binary64 b) (@unpackMantissa Format.binary64 b) =
      b := by
  apply BitVec.eq_of_toNat_eq
  rw [toNat_packComponents, toBitVec_ofBitVec, toNat_unpackMantissa, toNat_unpackExponent,
    toNat_unpackSign]
  have bound : b.toNat < 2 ^ 64 := b.isLt
  omega

end Fields

theorem unpackSign_packComponents (s : Sign) (e : BitVec 11) (m : BitVec 52) :
    unpackSign (packComponents Format.binary64 s e m) = s.toBitVec := by
  apply BitVec.eq_of_toNat_eq
  rw [toNat_unpackSign, toNat_packComponents]
  have := e.isLt
  have := m.isLt
  omega

theorem finite_eq {s : Sign} {m m' : Nat} {e e' : Int} {pos : 0 < m} {pos' : 0 < m'}
    (mantissa : m = m') (exponent : e = e') :
    UnpackedFloat.finite s m e pos = .finite s m' e' pos' := by
  subst mantissa
  subst exponent
  rfl

/-- What the three fields of a double denote. -/
inductive Denotes (s : Sign) : BitVec 11 → BitVec 52 → UnpackedFloat → Prop where
  | infinity : Denotes s (-1#11) 0#52 (.infinity s)
  | notANumber {m} : m ≠ 0#52 → Denotes s (-1#11) m .notANumber
  | zero : Denotes s 0#11 0#52 (.zero s)
  | subnormal {m} (pos : 0 < m.toNat) : Denotes s 0#11 m (.finite s m.toNat (-1074) pos)
  | normal {e m} (pos : 0 < 2 ^ 52 + m.toNat) : e ≠ -1#11 → e ≠ 0#11 →
      Denotes s e m (.finite s (2 ^ 52 + m.toNat) ((e.toNat : Int) - 1075) pos)

theorem unpack_denotes (b : BitVec 64) :
    Denotes (.ofBitVec (@unpackSign Format.binary64 b)) (@unpackExponent Format.binary64 b)
      (@unpackMantissa Format.binary64 b) (UnpackedFloat.unpack Format.binary64 b) := by
  by_cases special : @unpackExponent Format.binary64 b = -1#11
  · by_cases empty : @unpackMantissa Format.binary64 b = 0#52
    · have value : UnpackedFloat.unpack Format.binary64 b = .infinity _ :=
        (if_pos special).trans (if_pos empty)
      rw [value, special, empty]
      exact .infinity
    · have value : UnpackedFloat.unpack Format.binary64 b = .notANumber :=
        (if_pos special).trans (if_neg empty)
      rw [value, special]
      exact .notANumber empty
  by_cases least : @unpackExponent Format.binary64 b = 0#11
  · by_cases empty : @unpackMantissa Format.binary64 b = 0#52
    · have value : UnpackedFloat.unpack Format.binary64 b = .zero _ :=
        (if_neg special).trans ((if_pos least).trans (dif_pos empty))
      rw [value, least, empty]
      exact .zero
    · have pos : 0 < (@unpackMantissa Format.binary64 b).toNat :=
        Nat.pos_of_ne_zero fun zero => empty (BitVec.eq_of_toNat_eq zero)
      have exponent : ((@unpackExponent Format.binary64 b).toNat : Int) - 1075 + 1 = -1074 := by
        rw [least]
        rfl
      have value : UnpackedFloat.unpack Format.binary64 b =
          .finite _ (@unpackMantissa Format.binary64 b).toNat (-1074) pos :=
        (if_neg special).trans ((if_pos least).trans ((dif_neg empty).trans
          (finite_eq rfl exponent)))
      rw [value, least]
      exact .subnormal pos
  · have pos : 0 < 2 ^ 52 + (@unpackMantissa Format.binary64 b).toNat := by omega
    have value : UnpackedFloat.unpack Format.binary64 b =
        .finite _ (2 ^ 52 + (@unpackMantissa Format.binary64 b).toNat)
          ((@unpackExponent Format.binary64 b).toNat - 1075) pos :=
      (if_neg special).trans ((if_neg least).trans (finite_eq (toNat_append_eq 1#1 _) rfl))
    rw [value]
    exact .normal pos special least

theorem packComponents_denotes (s : Sign) (e : BitVec 11) (m : BitVec 52) :
    Denotes s e m
      (UnpackedFloat.unpack Format.binary64 (packComponents Format.binary64 s e m)) := by
  have denotes := unpack_denotes (packComponents Format.binary64 s e m)
  rwa [unpackSign_packComponents, ofBitVec_toBitVec, unpackExponent_packComponents,
    unpackMantissa_packComponents] at denotes

variable {s : Sign} {m : Nat} {e : Int}

theorem pack_finite (s : Sign) (m : Nat) (e : Int) (pos : 0 < m) :
    UnpackedFloat.pack Format.binary64 (.finite s m e pos) =
      if 2 ^ 11 ≤ (e + 1023 + 52).toNat + 1 then packedInfinity Format.binary64 s
      else if m.log2 + 1 = 53 then
        packComponents Format.binary64 s (.ofNat 11 (e + 1023 + 52).toNat) (.ofNat 52 m)
      else packComponents Format.binary64 s 0#11 (.ofNat 52 m) := rfl

theorem Canonical.pack_normal (c : Canonical m e) (normal : 2 ^ 52 ≤ m) (s : Sign) :
    UnpackedFloat.pack Format.binary64 (.finite s m e c.pos) =
      packComponents Format.binary64 s (.ofNat 11 (e + 1023 + 52).toNat) (.ofNat 52 m) := by
  have filled : m.log2 = 52 := (Nat.log2_eq_iff (Nat.ne_of_gt c.pos)).mpr ⟨normal, c.lt⟩
  have most := c.most
  rw [pack_finite, if_neg (by omega), if_pos (by omega)]

theorem Canonical.pack_subnormal (c : Canonical m e) (subnormal : m < 2 ^ 52) (s : Sign) :
    UnpackedFloat.pack Format.binary64 (.finite s m e c.pos) =
      packComponents Format.binary64 s 0#11 (.ofNat 52 m) := by
  have short : m.log2 < 52 := (Nat.log2_lt (Nat.ne_of_gt c.pos)).mpr subnormal
  have most := c.most
  rw [pack_finite, if_neg (by omega), if_neg (by omega)]

theorem Canonical.unpack_pack (c : Canonical m e) (s : Sign) :
    (Float.Model.pack (.finite s m e c.pos)).unpack = .finite s m e c.pos := by
  show UnpackedFloat.unpack Format.binary64 (UnpackedFloat.pack Format.binary64 _) = _
  have pos := c.pos
  have least := c.least
  have most := c.most
  have lt := c.lt
  obtain normal | subnormal := Nat.lt_or_ge m (2 ^ 52) |>.symm
  · have exponent : (BitVec.ofNat 11 (e + 1023 + 52).toNat).toNat = (e + 1023 + 52).toNat := by
      rw [BitVec.toNat_ofNat, Nat.mod_eq_of_lt (by omega)]
    have mantissa : (BitVec.ofNat 52 m).toNat = m - 2 ^ 52 := by
      rw [BitVec.toNat_ofNat]
      omega
    have denotes := packComponents_denotes s (.ofNat 11 (e + 1023 + 52).toNat) (.ofNat 52 m)
    rw [← c.pack_normal normal] at denotes
    generalize BitVec.ofNat 11 (e + 1023 + 52).toNat = E at exponent denotes
    generalize BitVec.ofNat 52 m = M at mantissa denotes
    generalize UnpackedFloat.unpack Format.binary64 _ = u at denotes ⊢
    cases denotes with
    | infinity | notANumber _ =>
      have : (e + 1023 + 52).toNat = 2047 := exponent.symm
      omega
    | zero | subnormal _ =>
      have : (e + 1023 + 52).toNat = 0 := exponent.symm
      omega
    | normal _ _ _ => exact finite_eq (by omega) (by omega)
  · have mantissa : (BitVec.ofNat 52 m).toNat = m := Nat.mod_eq_of_lt subnormal
    have lowest := c.full.resolve_left (by omega)
    have denotes := packComponents_denotes s 0#11 (.ofNat 52 m)
    rw [← c.pack_subnormal subnormal] at denotes
    generalize BitVec.ofNat 52 m = M at mantissa denotes
    generalize UnpackedFloat.unpack Format.binary64 _ = u at denotes ⊢
    cases denotes with
    | zero =>
      have : m = 0 := mantissa.symm
      omega
    | subnormal _ => exact finite_eq mantissa lowest.symm
    | normal _ _ nonzero => exact absurd rfl nonzero

theorem canonical_of_denotes {s' : Sign} {E : BitVec 11} {M : BitVec 52} {pos : 0 < m}
    (denotes : Denotes s' E M (.finite s m e pos)) : Canonical m e := by
  have bound := M.isLt
  have bound' := E.isLt
  cases denotes with
  | subnormal _ => exact ⟨pos, by omega, by omega, by omega, .inr rfl⟩
  | normal _ regular nonzero =>
    have exponent : E.toNat ≠ 2 ^ 11 - 1 := fun same => regular (BitVec.eq_of_toNat_eq same)
    have exponent' : E.toNat ≠ 0 := fun same => nonzero (BitVec.eq_of_toNat_eq same)
    exact ⟨pos, by omega, by omega, by omega, .inl (by omega)⟩

/-- Packing what the fields of a double denote makes the fields again. There is but one encoding
of what is no number. -/
theorem pack_of_denotes {E : BitVec 11} {M : BitVec 52} {u : UnpackedFloat}
    (denotes : Denotes s E M u)
    (valid : E = -1#11 → M ≠ 0#52 →
      packComponents Format.binary64 s E M = packedNaN Format.binary64) :
    packComponents Format.binary64 s E M = UnpackedFloat.pack Format.binary64 u := by
  have bound := M.isLt
  have bound' := E.isLt
  have denotes' := denotes
  cases denotes with
  | infinity | zero => rfl
  | notANumber nonzero => exact valid rfl nonzero
  | subnormal _ =>
    rw [(canonical_of_denotes denotes').pack_subnormal bound, BitVec.ofNat_toNat,
      BitVec.setWidth_eq]
  | normal _ regular nonzero =>
    rw [(canonical_of_denotes denotes').pack_normal (by omega)]
    congr 1
    · apply BitVec.eq_of_toNat_eq
      rw [BitVec.toNat_ofNat]
      omega
    · apply BitVec.eq_of_toNat_eq
      rw [BitVec.toNat_ofNat]
      omega

theorem eq_of_bits {bits : BitVec 64} {valid : Format.binary64.Valid bits} {u : UnpackedFloat}
    (same : bits = UnpackedFloat.pack Format.binary64 u) :
    Float.ofModel ⟨⟨bits⟩, valid⟩ = .ofModel (.pack u) := by
  subst same
  rfl

/-- Every double is the packing of what it unpacks to. -/
theorem pack_unpack (x : Float) : .ofModel (.pack x.toModel.unpack) = x := by
  obtain ⟨⟨⟨bits⟩, valid⟩⟩ := x
  have fields := packComponents_fields bits
  have packed := pack_of_denotes (unpack_denotes bits)
    (by rw [fields]; exact valid.eq_packedNaN)
  rw [fields] at packed
  exact (eq_of_bits packed).symm

theorem eq_of_unpack {x : Float} {u : UnpackedFloat} (unpacked : x.toModel.unpack = u) :
    x = .ofModel (.pack u) := by
  rw [← unpacked, pack_unpack]

/-- A finite double that is not zero is the packing of what it unpacks to. -/
theorem canonical_of_unpack {x : Float} {pos : 0 < m}
    (unpacked : x.toModel.unpack = .finite s m e pos) :
    Canonical m e ∧ x = .ofModel (.pack (.finite s m e pos)) := by
  refine ⟨?_, eq_of_unpack unpacked⟩
  obtain ⟨⟨⟨bits⟩, valid⟩⟩ := x
  have unpacked : UnpackedFloat.unpack Format.binary64 bits = _ := unpacked
  have denotes := unpack_denotes bits
  rw [unpacked] at denotes
  exact canonical_of_denotes denotes

end Lisplet.Binary
