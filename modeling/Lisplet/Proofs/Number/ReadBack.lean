import Lisplet.Number.Display
import Lisplet.Proofs.Decimal.Exact
import Lisplet.Proofs.Number.Grammar

/-!
Numbers read back as they were written. A finite double is written as a numeral, digits with at
most one point between them, of a decimal that reads as the double.
-/

namespace Lisplet

namespace Text

def Digits (cs : List Char) : Prop := ∀ c ∈ cs, c.isDigit

theorem digitValue?_of_isDigit {c : Char} (digit : c.isDigit) :
    digitValue? c = some (c.toNat - '0'.toNat) := by
  obtain ⟨low, high⟩ := Char.isDigit_iff_toNat.mp digit
  have first : (decide (0x30 ≤ c.toNat) && decide (c.toNat < 0x30 + 10)) = true := by
    simp only [Bool.and_eq_true, decide_eq_true_eq]
    simp only [Char.reduceToNat] at low high
    omega
  simp only [digitValue?, digitZeros, List.find?_cons, first]
  rfl

theorem isDecimalDigit_of_isDigit {c : Char} (digit : c.isDigit) : isDecimalDigit c := by
  rw [isDecimalDigit, digitValue?_of_isDigit digit]
  rfl

theorem ofDigits_eq {cs : List Char} (digits : Digits cs) :
    ofDigits cs = Nat.ofDigitChars 10 cs 0 := by
  have general (n : Nat) : cs.foldl (fun n c => 10 * n + (digitValue? c).getD 0) n =
      Nat.ofDigitChars 10 cs n := by
    induction cs generalizing n with
    | nil => rfl
    | cons c cs ih =>
      obtain ⟨first, rest⟩ := List.forall_mem_cons.mp digits
      rw [List.foldl_cons, Nat.ofDigitChars_cons, digitValue?_of_isDigit first, ih rest]
      rfl
  exact general 0

theorem digits_toDigits (n : Nat) : Digits (Nat.toDigits 10 n) :=
  fun _ member => Nat.isDigit_of_mem_toDigits (by omega) (by omega) member

theorem ofDigits_toDigits (n : Nat) : ofDigits (Nat.toDigits 10 n) = n := by
  rw [ofDigits_eq (digits_toDigits n), Nat.ofDigitChars_ten_toDigits]

theorem digits_replicate (n : Nat) : Digits (List.replicate n '0') := by
  intro c member
  rw [List.eq_of_mem_replicate member]
  rfl

theorem Digits.append {xs ys : List Char} (first : Digits xs) (last : Digits ys) :
    Digits (xs ++ ys) := by
  intro c member
  rcases List.mem_append.mp member with left | right
  · exact first c left
  · exact last c right

end Text

open Text (Digits ofDigits)

/-- A text in digits, and the decimal that it writes. -/
inductive Numeral : List Char → Decimal → Prop where
  | whole {digits} : digits ≠ [] → Digits digits → Numeral digits ⟨ofDigits digits, 0⟩
  | point {whole fraction} : whole ≠ [] → Digits whole → Digits fraction →
      Numeral (whole ++ '.' :: fraction) ⟨ofDigits (whole ++ fraction), -fraction.length⟩

theorem toDigits_numeral (n : Nat) : Numeral (Nat.toDigits 10 n) ⟨n, 0⟩ := by
  have numeral := Numeral.whole Nat.toDigits_ne_nil (Text.digits_toDigits n)
  rwa [Text.ofDigits_toDigits] at numeral

namespace Decimal

theorem ofDigits_padded (zeros n : Nat) :
    ofDigits (List.replicate zeros '0' ++ Nat.toDigits 10 n) = n := by
  rw [Text.ofDigits_eq ((Text.digits_replicate _).append (Text.digits_toDigits _)),
    Nat.ofDigitChars_append, Nat.ofDigitChars_replicate_zero, Nat.mul_zero,
    Nat.ofDigitChars_ten_toDigits]

theorem ofDigits_zeros (n zeros : Nat) :
    ofDigits (Nat.toDigits 10 n ++ List.replicate zeros '0') = n * 10 ^ zeros := by
  rw [Text.ofDigits_eq ((Text.digits_toDigits _).append (Text.digits_replicate _)),
    Nat.ofDigitChars_append, Nat.ofDigitChars_replicate_zero, Nat.ofDigitChars_ten_toDigits,
    Nat.mul_comm]

/-- A decimal with zeros in the place of a positive power of ten. -/
def plain (d : Decimal) : Decimal :=
  if 0 ≤ d.exponent then ⟨d.coefficient * 10 ^ d.exponent.toNat, 0⟩ else d

theorem positional_numeral (d : Decimal) : Numeral d.positional d.plain := by
  obtain ⟨n, e⟩ := d
  by_cases whole : 0 ≤ e
  · rw [positional, plain, if_pos whole, if_pos whole, ← ofDigits_zeros]
    refine .whole ?_ ((Text.digits_toDigits _).append (Text.digits_replicate _))
    exact List.append_ne_nil_of_left_ne_nil Nat.toDigits_ne_nil _
  · rw [positional, plain, if_neg whole, if_neg whole]
    dsimp only [digits]
    generalize places_eq : (-e).toNat = places
    generalize padding : places + 1 - (Nat.toDigits 10 n).length = zeros
    have value := ofDigits_padded zeros n
    have all : Digits (List.replicate zeros '0' ++ Nat.toDigits 10 n) :=
      (Text.digits_replicate _).append (Text.digits_toDigits _)
    have long : places + 1 ≤ (List.replicate zeros '0' ++ Nat.toDigits 10 n).length := by
      rw [List.length_append, List.length_replicate]
      omega
    generalize List.replicate zeros '0' ++ Nat.toDigits 10 n = padded at *
    have units : padded.take (padded.length - places) ≠ [] := by
      intro none
      have := congrArg List.length none
      rw [List.length_take, List.length_nil] at this
      omega
    have split := Numeral.point units (fun c member => all c (List.mem_of_mem_take member))
      (fun c (member : c ∈ padded.drop (padded.length - places)) =>
        all c (List.mem_of_mem_drop member))
    have same : -((padded.length - (padded.length - places) : Nat) : Int) = e := by omega
    rwa [List.take_append_drop, value, List.length_drop, same] at split

end Decimal

namespace Number

theorem head_of_numeral {cs : List Char} {d : Decimal} (numeral : Numeral cs d) :
    ∃ c rest, cs = c :: rest ∧ c.isDigit := by
  cases numeral with
  | whole nonempty all =>
    obtain ⟨c, rest, rfl⟩ := List.exists_cons_of_ne_nil nonempty
    exact ⟨c, rest, rfl, all c List.mem_cons_self⟩
  | point nonempty all _ =>
    obtain ⟨c, rest, rfl⟩ := List.exists_cons_of_ne_nil nonempty
    exact ⟨c, _, rfl, all c List.mem_cons_self⟩

/-- A numeral is a number without a sign and an exponent. -/
theorem magnitude_of_numeral {cs : List Char} {d : Decimal} (numeral : Numeral cs d) :
    Magnitude cs d.toFloat := by
  have decimal {digits : List Char} (all : Digits digits) : Text.DecimalDigits digits :=
    fun c member => Text.isDecimalDigit_of_isDigit (all c member)
  have significand : Significand cs d := by
    cases numeral with
    | whole nonempty all => exact .whole nonempty (decimal all)
    | point nonempty all all' => exact .point nonempty (decimal all) (decimal all')
  have magnitude := Magnitude.decimal significand .none
  rwa [List.append_nil, Int.zero_add] at magnitude

theorem read?_signed {cs : List Char} {d : Decimal} (negative : Bool) (numeral : Numeral cs d) :
    read? (signed negative cs).toList = some (if negative then -d.toFloat else d.toFloat) := by
  rw [signed, String.toList_ofList, read?_eq_some_iff]
  cases negative with
  | true => exact .signed .minus (magnitude_of_numeral numeral)
  | false => exact .signed .none (magnitude_of_numeral numeral)

open Float.Model.UnpackedFloat in
/-- A finite double is its sign and the double of its mantissa and exponent. -/
theorem eq_neg_of_unpack {x : Float} {s : Sign} {m : Nat} {e : Int} {pos : 0 < m}
    (unpacked : x.toModel.unpack = .finite s m e pos) :
    x.abs = .ofModel (.pack (.finite .positive m e pos)) ∧
      (if Binary.isNegative s then -x.abs else x.abs) = x := by
  obtain ⟨c, same⟩ := Binary.canonical_of_unpack unpacked
  have magnitude : x.abs = .ofModel (.pack (.finite .positive m e pos)) := by
    show Float.ofModel (.pack x.toModel.unpack.abs) = _
    rw [unpacked]
    rfl
  refine ⟨magnitude, ?_⟩
  cases s with
  | positive => exact magnitude.trans same.symm
  | negative =>
    rw [Binary.isNegative, if_pos rfl, magnitude]
    show Float.ofModel (.pack (Float.Model.unpack _).neg) = x
    rw [c.unpack_pack, same]
    rfl

theorem toFloat_withDigits? {x : Float} {num den count : Nat} {d : Decimal}
    (found : Decimal.withDigits? x num den count = some d) : d.toFloat = x := by
  rw [Decimal.withDigits?] at found
  have tried := List.find?_some found
  exact of_decide_eq_true tried

/-- The shortest decimal of a fraction reads as the double that has it. -/
theorem toFloat_shortest {x : Float} {m : Nat} {e : Int} (c : Binary.Canonical m e)
    (negative : e < 0) (same : x = .ofModel (.pack (.finite .positive m e c.pos))) :
    (Decimal.shortest x m e).toFloat = x := by
  rw [Decimal.shortest]
  dsimp only
  cases found : (List.range' 1 17).findSome?
      (Decimal.withDigits? x (Binary.fraction m e).1 (Binary.fraction m e).2) with
  | some d =>
    obtain ⟨count, -, found⟩ := List.exists_of_findSome?_eq_some found
    exact toFloat_withDigits? found
  | none =>
    rw [Option.getD_none, Decimal.toFloat_fraction c negative, same]

/-- The whole number of a double without a fraction reads as the double. -/
theorem toFloat_whole {m : Nat} {e : Int} (c : Binary.Canonical m e)
    (whole : (Binary.fraction m e).1 % (Binary.fraction m e).2 = 0) :
    Decimal.toFloat ⟨(Binary.fraction m e).1 / (Binary.fraction m e).2, 0⟩ =
      .ofModel (.pack (.finite .positive m e c.pos)) := by
  rw [Binary.fraction] at whole ⊢
  dsimp only at whole ⊢
  rcases Int.le_total 0 e with nonnegative | negative
  · obtain ⟨j, rfl⟩ := Int.eq_ofNat_of_zero_le nonnegative
    have unit : (-(j : Int)).toNat = 0 := by omega
    rw [Int.toNat_natCast, unit, Nat.shiftLeft_zero, Nat.div_one, Nat.shiftLeft_eq]
    refine Decimal.toFloat_whole c (k := j + 53) ?_ (by omega)
    rw [Nat.pow_add, Nat.mul_assoc]
  · obtain ⟨j, rfl⟩ : ∃ j : Nat, e = -j := ⟨(-e).toNat, by omega⟩
    have units : (-(j : Int)).toNat = 0 := by omega
    rw [units, Nat.shiftLeft_zero, Int.neg_neg, Int.toNat_natCast, Nat.one_shiftLeft] at whole ⊢
    have parts := Nat.div_mul_cancel (Nat.dvd_of_mod_eq_zero whole)
    have least : 2 ^ j ≤ m := Nat.le_of_dvd c.pos (Nat.dvd_of_mod_eq_zero whole)
    have few : j < 53 := (Nat.pow_lt_pow_iff_right (by omega)).mp (Nat.lt_of_le_of_lt least c.lt)
    refine Decimal.toFloat_whole c (k := 53 - j) ?_ (by omega)
    generalize m / 2 ^ j = n at parts ⊢
    have split : 2 ^ 53 = 2 ^ j * 2 ^ (53 - j) := by rw [← Nat.pow_add]; congr 1; omega
    rw [← parts, split, Nat.mul_assoc]

open Float.Model.UnpackedFloat in
theorem toFloat_plain {d : Decimal} {m : Nat} {e : Int} (c : Binary.Canonical m e)
    (same : d.toFloat = .ofModel (.pack (.finite .positive m e c.pos))) :
    d.plain.toFloat = d.toFloat := by
  obtain ⟨n, f⟩ := d
  rw [Decimal.plain]
  dsimp only
  split
  · rename_i whole
    obtain ⟨j, rfl⟩ := Int.eq_ofNat_of_zero_le whole
    rw [Int.toNat_natCast]
    rcases Nat.eq_zero_or_pos n with rfl | nonzero
    · rw [Nat.zero_mul]
      rfl
    by_cases small : j ≤ 2 ^ 11
    · exact Decimal.toFloat_zeros small
    · have huge : (j : Int) > 2 ^ Float.Model.Format.binary64.exponentBits := by
        show (j : Int) > 2 ^ 11
        omega
      have infinite : Decimal.toFloat ⟨n, j⟩ = .ofModel (.pack (.infinity .positive)) := by
        rw [Decimal.toFloat, Float.Model.ofScientific, Float.Model.UnpackedFloat.ofScientific,
          dif_neg (Nat.ne_of_gt nonzero), if_pos huge]
      rw [infinite] at same
      have unpacked := congrArg (fun x : Float => x.toModel.unpack) same
      dsimp only at unpacked
      rw [c.unpack_pack] at unpacked
      cases unpacked
  · rfl

open Float.Model.UnpackedFloat in
/-- How a finite double is written. -/
theorem display_finite {x : Float} (finite : x.isFinite) :
    ∃ negative cs d, display x = signed negative cs ∧ Numeral cs d ∧
      (if negative then -d.toFloat else d.toFloat) = x := by
  change x.toModel.unpack.isFinite = true at finite
  cases unpacked : x.toModel.unpack with
  | notANumber | infinity s =>
    rw [unpacked] at finite
    cases finite
  | zero s =>
    refine ⟨Binary.isNegative s, _, ⟨0, 0⟩, ?_, toDigits_numeral 0, ?_⟩
    · simp [display, Binary.ofFloat, unpacked, Binary.fraction]
    · rw [Binary.eq_of_unpack unpacked]
      cases s <;> rfl
  | finite s m e pos =>
    obtain ⟨c, -⟩ := Binary.canonical_of_unpack unpacked
    obtain ⟨magnitude, sign⟩ := eq_neg_of_unpack unpacked
    rw [display, Binary.ofFloat, unpacked]
    dsimp only
    split
    · rename_i whole
      have value := toFloat_whole c whole
      generalize (Binary.fraction m e).1 / (Binary.fraction m e).2 = n at value ⊢
      refine ⟨_, _, _, rfl, toDigits_numeral n, ?_⟩
      rw [value, ← magnitude, sign]
    · rename_i fractional
      have negative : e < 0 := by
        refine Int.not_le.mp fun nonnegative => fractional ?_
        have unit : (-e).toNat = 0 := by omega
        rw [Binary.fraction, unit, Nat.shiftLeft_zero, Nat.mod_one]
      have shortest := toFloat_shortest c negative magnitude
      refine ⟨_, _, _, rfl, Decimal.positional_numeral _, ?_⟩
      rw [toFloat_plain c (shortest.trans magnitude), shortest, sign]

/-- A finite number reads back as it was written. -/
theorem read?_display {x : Float} (finite : x.isFinite) : read? (display x).toList = some x := by
  obtain ⟨negative, cs, d, written, numeral, value⟩ := display_finite finite
  rw [written, read?_signed negative numeral, value]

end Number
end Lisplet
