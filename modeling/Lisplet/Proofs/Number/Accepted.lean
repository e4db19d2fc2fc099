import Lisplet.Proofs.Number.Grammar
import Lisplet.Text.Blank
import Mathlib.Data.List.Chain
import Mathlib.Data.List.Forall2

/-!
Which words are numbers. What the grammar of numbers excludes is refused: characters that are no
part of any number, exponents without digits, a second point, a sign behind a sign. What it does
not tell apart, the case of letters and the script of digits, makes no difference to the number.
-/

namespace Lisplet

namespace Text

theorem eq_of_toLower_eq_e {c : Char} (lower : c.toLower = 'e') : c = 'e' ∨ c = 'E' := by
  rcases toLower_cases c with same | ⟨-, -, raised⟩
  · exact .inl (same.symm.trans lower)
  · rw [lower] at raised
    exact .inr (Char.toNat_inj.mp (Nat.add_right_cancel raised.symm))

/-- Blanks are no digits of any script. -/
theorem digitValue?_of_isBlank {c : Char} (blank : isBlank c) : digitValue? c = none := by
  -- All blanks lie in four of the stretches between the runs of digits.
  have controls : ∀ z ∈ digitZeros, z + 10 ≤ 0 ∨ 0x30 ≤ z := by decide
  have latin : ∀ z ∈ digitZeros, z + 10 ≤ 0x3A ∨ 0x660 ≤ z := by decide
  have ogham : ∀ z ∈ digitZeros, z + 10 ≤ 0x109A ∨ 0x17E0 ≤ z := by decide
  have wide : ∀ z ∈ digitZeros, z + 10 ≤ 0x1C5A ∨ 0xA620 ≤ z := by decide
  simp only [isBlank, Bool.or_eq_true, Bool.and_eq_true, decide_eq_true_eq, beq_iff_eq] at blank
  by_cases narrow : c.toNat < 0x30
  · exact digitValue?_eq_none controls (Nat.zero_le _) narrow
  by_cases low : c.toNat < 0x660
  · exact digitValue?_eq_none latin (by omega) low
  by_cases middle : c.toNat < 0x17E0
  · exact digitValue?_eq_none ogham (by omega) middle
  · exact digitValue?_eq_none wide (by omega) (by omega)

/-- The same letter but for its case, or the same digit but for its script. -/
def Alike (c d : Char) : Prop :=
  c.toLower = d.toLower ∨ ∃ n, digitValue? c = some n ∧ digitValue? d = some n

namespace Alike

variable {c d : Char}

theorem symm (alike : Alike c d) : Alike d c := by
  rcases alike with letter | ⟨n, first, second⟩
  · exact .inl letter.symm
  · exact .inr ⟨n, second, first⟩

theorem digitValue?_eq (alike : Alike c d) : digitValue? c = digitValue? d := by
  rcases alike with letter | ⟨n, first, second⟩
  · rw [← digitValue?_toLower, letter, digitValue?_toLower]
  · rw [first, second]

theorem toLower_eq (alike : Alike c d) (other : digitValue? d = none) : c.toLower = d.toLower := by
  rcases alike with letter | ⟨n, _, digit⟩
  · exact letter
  · rw [other] at digit
    cases digit

/-- Marks have no case. -/
theorem eq_of_mark (alike : Alike c d) (mark : d ∈ ['+', '-', '.']) : c = d := by
  have known : digitValue? d = none ∧ d.toLower = d ∧ d.toNat < 97 := by
    simp only [List.mem_cons, List.not_mem_nil, or_false] at mark
    rcases mark with rfl | rfl | rfl <;> decide
  obtain ⟨other, lower, below⟩ := known
  have same := alike.toLower_eq other
  rw [lower] at same
  rcases toLower_cases c with plain | ⟨above, -, raised⟩
  · rw [← plain, same]
  · rw [same] at raised
    omega

end Alike

variable {v w : List Char}

theorem DecimalDigits.alike (digits : DecimalDigits v) (alike : List.Forall₂ Alike w v) :
    DecimalDigits w := by
  induction alike with
  | nil => exact digits
  | cons first _ ih =>
    obtain ⟨digit, others⟩ := List.forall_mem_cons.mp digits
    refine List.forall_mem_cons.mpr ⟨?_, ih others⟩
    rwa [isDecimalDigit, first.digitValue?_eq]

theorem ofDigits_alike (alike : List.Forall₂ Alike w v) : ofDigits w = ofDigits v := by
  have general (n : Nat) : w.foldl (fun n c => 10 * n + (digitValue? c).getD 0) n =
      v.foldl (fun n c => 10 * n + (digitValue? c).getD 0) n := by
    induction alike generalizing n with
    | nil => rfl
    | cons first _ ih => rw [List.foldl_cons, List.foldl_cons, first.digitValue?_eq, ih]
  exact general 0

end Text

namespace Number

open Text (Alike DecimalDigits isDecimalDigit)

variable {cs rest text tail : List Char} {c : Char}

/-! What no number has. -/

/-- A character that may be part of a number. -/
def Part (c : Char) : Prop :=
  isDecimalDigit c ∨ c.toLower ∈ signs ++ ['.', 'e'] ++ letters

instance : DecidablePred Part := fun _ => inferInstanceAs (Decidable (_ ∨ _))

theorem SignMark.part {sign : List Char} {negative : Bool} (signed : SignMark sign negative) :
    ∀ c ∈ sign, c ∈ signs := by
  cases signed <;> simp [signs]

theorem part_of_sign (sign : c ∈ signs) : Part c := by
  rw [Part, toLower_of_sign sign]
  exact .inr (List.mem_append_left _ (List.mem_append_left _ sign))

theorem Exponent.part {e : Int} (exponent : Exponent tail e) : ∀ c ∈ tail, Part c := by
  cases exponent with
  | none => simp
  | power letter signed _ digits =>
    rw [List.forall_mem_cons, List.forall_mem_append]
    refine ⟨?_, fun c member => part_of_sign (signed.part c member),
      fun c member => .inl (digits c member)⟩
    rcases letter with rfl | rfl <;> exact .inr (by decide)

theorem Literal.part {x : Float} (literal : Literal text x) : ∀ c ∈ text, Part c := by
  obtain ⟨signed, magnitude⟩ := literal
  rw [List.forall_mem_append]
  refine ⟨fun c member => part_of_sign (signed.part c member), ?_⟩
  rcases magnitude.decimal_or_letters with ⟨decimal, tail, s, e, rfl, significand, exponent⟩ |
    ⟨-, among⟩
  · rw [List.forall_mem_append]
    refine ⟨fun c member => (significand.part c member).imp_right ?_, exponent.part⟩
    rintro rfl
    decide
  · exact fun c member => .inr (List.mem_append_right (signs ++ ['.', 'e']) (among c member))

/-- Blanks are no part of a number. -/
theorem not_part_of_isBlank (blank : Text.isBlank c) : ¬ Part c := by
  rintro (digit | mark)
  · rw [isDecimalDigit, Text.digitValue?_of_isBlank blank] at digit
    cases digit
  · have none : ∀ d ∈ signs ++ ['.', 'e'] ++ letters, Text.isBlank d = false := by
      simp [signs, letters, Text.isBlank]
    rcases Text.toLower_cases c with same | ⟨above, below, -⟩
    · rw [same] at mark
      rw [none c mark] at blank
      cases blank
    · simp only [Text.isBlank, Bool.or_eq_true, Bool.and_eq_true, decide_eq_true_eq,
        beq_iff_eq] at blank
      omega

theorem point_not_mem (digits : DecimalDigits cs) : '.' ∉ cs :=
  fun member => absurd (digits '.' member) (by decide)

theorem Exponent.point_not_mem {e : Int} (exponent : Exponent tail e) : '.' ∉ tail := by
  cases exponent with
  | none => simp
  | power letter signed _ digits =>
    rw [List.mem_cons, List.mem_append, not_or, not_or]
    refine ⟨?_, fun member => absurd (signed.part '.' member) (by decide),
      Number.point_not_mem digits⟩
    rcases letter with rfl | rfl <;> decide

theorem Significand.points {s : Decimal} (significand : Significand text s) :
    text.count '.' ≤ 1 := by
  cases significand with
  | whole _ digits => simp [List.count_eq_zero_of_not_mem (point_not_mem digits)]
  | point _ digits digits' =>
    simp [List.count_append, List.count_eq_zero_of_not_mem (point_not_mem digits),
      List.count_eq_zero_of_not_mem (point_not_mem digits')]
  | fraction _ digits => simp [List.count_eq_zero_of_not_mem (point_not_mem digits)]

/-- No number has two points. -/
theorem Literal.points {x : Float} (literal : Literal text x) : text.count '.' ≤ 1 := by
  obtain ⟨signed, magnitude⟩ := literal
  have unsigned := List.count_eq_zero_of_not_mem
    fun member => absurd (signed.part '.' member) (by decide)
  rw [List.count_append, unsigned, Nat.zero_add]
  rcases magnitude.decimal_or_letters with ⟨decimal, tail, s, e, rfl, significand, exponent⟩ |
    ⟨-, among⟩
  · rw [List.count_append, List.count_eq_zero_of_not_mem exponent.point_not_mem]
    exact significand.points
  · rw [List.count_eq_zero_of_not_mem fun member => absurd (among '.' member) (by decide)]
    exact Nat.zero_le _

/-- No number ends in the mark of an exponent or in a sign. -/
theorem Literal.last {x : Float} (literal : Literal text x) :
    ∀ c ∈ text.getLast?, c.toLower ∉ ['e', '+', '-'] := by
  obtain ⟨signed, magnitude⟩ := literal
  intro c last
  rcases magnitude.decimal_or_letters with ⟨decimal, tail, s, e, rfl, significand, exponent⟩ |
    ⟨nonempty, among⟩
  · cases exponent with
    | none =>
      rw [List.append_nil, List.getLast?_append_of_ne_nil _ significand.ne_nil] at last
      exact toLower_not_mem (significand.part c (List.mem_of_mem_getLast? last)) (by decide)
    | @power e sign negative digits letter signed' nonempty digits' =>
      rw [← List.append_assoc, ← List.cons_append, ← List.append_assoc,
        List.getLast?_append_of_ne_nil _ nonempty] at last
      exact toLower_not_mem (.inl (digits' c (List.mem_of_mem_getLast? last))) (by decide)
  · rw [List.getLast?_append_of_ne_nil _ nonempty] at last
    have none : ∀ l ∈ letters, l ∉ ['e', '+', '-'] := by simp [letters]
    exact none _ (among c (List.mem_of_mem_getLast? last))

/-- No sign stands directly behind another. -/
def Apart (cs : List Char) : Prop := cs.IsChain fun a b => a ∈ signs → b ∉ signs

theorem Apart.append (apart : Apart cs) (apart' : Apart rest) (start : ∀ c ∈ rest.head?, c ∉ signs) :
    Apart (cs ++ rest) :=
  List.isChain_append.mpr ⟨apart, apart', fun _ _ c first _ => start c first⟩

theorem apart_of_not_mem (none : ∀ c ∈ cs, c ∉ signs) : Apart cs :=
  (List.pairwise_of_forall_mem_list fun c member _ _ sign => absurd sign (none c member)).isChain

theorem SignMark.apart {sign : List Char} {negative : Bool} (signed : SignMark sign negative) :
    Apart sign := by
  cases signed <;> simp [Apart]

theorem Exponent.apart {e : Int} (exponent : Exponent tail e) : Apart tail := by
  cases exponent with
  | none => simp [Apart]
  | power letter signed _ digits =>
    have unsigned : ∀ c ∈ _, c ∉ signs := digits.not_mem (by decide)
    have mark : ∀ e, e = 'e' ∨ e = 'E' → e ∉ signs := by
      rintro e (rfl | rfl) <;> decide
    refine List.isChain_cons.mpr ⟨fun _ _ sign => absurd sign (mark _ letter), ?_⟩
    exact signed.apart.append (apart_of_not_mem unsigned)
      fun c first => unsigned c (List.mem_of_mem_head? first)

theorem Literal.apart {x : Float} (literal : Literal text x) : Apart text := by
  obtain ⟨signed, magnitude⟩ := literal
  refine signed.apart.append ?_ magnitude.unsigned
  rcases magnitude.decimal_or_letters with ⟨decimal, tail, s, e, rfl, significand, exponent⟩ |
    ⟨-, among⟩
  · refine .append (apart_of_not_mem ?_) exponent.apart fun c first => (exponent.start c first).2.2
    intro c member sign
    exact toLower_not_mem (significand.part c member) (by decide)
      (by rwa [toLower_of_sign sign] : c.toLower ∈ signs)
  · refine apart_of_not_mem ?_
    intro c member sign
    exact letters_not_signs (among c member) (by rwa [toLower_of_sign sign])

/-! Words that differ in the case of letters and in the script of digits alone. -/

variable {v w : List Char}

/-- What is related to two parts has two parts, each related to one of them. -/
theorem forall₂_append_right {R : Char → Char → Prop} {rest : List Char}
    (related : List.Forall₂ R w (v ++ rest)) :
    ∃ w' rest', w = w' ++ rest' ∧ List.Forall₂ R w' v ∧ List.Forall₂ R rest' rest :=
  ⟨_, _, (List.take_append_drop v.length w).symm, List.forall₂_take_append w v rest related,
    List.forall₂_drop_append w v rest related⟩

theorem nonempty (alike : List.Forall₂ Alike w v) (some : v ≠ []) : w ≠ [] := by
  rintro rfl
  cases alike
  exact some rfl

theorem SignMark.alike {negative : Bool} (signed : SignMark v negative)
    (alike : List.Forall₂ Alike w v) : SignMark w negative := by
  cases signed with
  | none =>
    cases alike
    exact .none
  | plus | minus =>
    rcases alike with _ | ⟨mark, ⟨⟩⟩
    obtain rfl := mark.eq_of_mark (by decide)
    constructor

theorem Significand.alike {s : Decimal} (significand : Significand v s)
    (alike : List.Forall₂ Alike w v) : Significand w s := by
  cases significand with
  | whole some digits =>
    rw [← Text.ofDigits_alike alike]
    exact .whole (nonempty alike some) (digits.alike alike)
  | point some digits digits' =>
    obtain ⟨whole, _, rfl, before, rest⟩ := forall₂_append_right alike
    obtain ⟨_, fraction, mark, behind, rfl⟩ := List.forall₂_cons_right_iff.mp rest
    obtain rfl := mark.eq_of_mark (by decide)
    rw [← Text.ofDigits_alike (List.rel_append before behind), ← behind.length_eq]
    exact .point (nonempty before some) (digits.alike before) (digits'.alike behind)
  | fraction some digits =>
    obtain ⟨_, fraction, mark, behind, rfl⟩ := List.forall₂_cons_right_iff.mp alike
    obtain rfl := mark.eq_of_mark (by decide)
    rw [← Text.ofDigits_alike behind, ← behind.length_eq]
    exact .fraction (nonempty behind some) (digits.alike behind)

theorem Exponent.alike {e : Int} (exponent : Exponent v e) (alike : List.Forall₂ Alike w v) :
    Exponent w e := by
  cases exponent with
  | none =>
    cases alike
    exact .none
  | power letter signed some digits =>
    obtain ⟨_, _, mark, rest, rfl⟩ := List.forall₂_cons_right_iff.mp alike
    obtain ⟨sign, power, rfl, before, behind⟩ := forall₂_append_right rest
    rw [← Text.ofDigits_alike behind]
    -- The mark of the exponent is the one letter of a decimal, in either case.
    refine .power ?_ (signed.alike before) (nonempty behind some) (digits.alike behind)
    refine Text.eq_of_toLower_eq_e ?_
    rcases letter with rfl | rfl <;> exact mark.toLower_eq (by decide)

theorem map_toLower_alike (alike : List.Forall₂ Alike w v) (among : ∀ c ∈ v, c.toLower ∈ letters) :
    w.map Char.toLower = v.map Char.toLower := by
  induction alike with
  | nil => rfl
  | cons first _ ih =>
    obtain ⟨letter, others⟩ := List.forall_mem_cons.mp among
    have none : letters.all fun l => (Text.digitValue? l).isNone := by decide
    have none := List.all_eq_true.mp none _ letter
    rw [Text.digitValue?_toLower, Option.isNone_iff_eq_none] at none
    rw [List.map_cons, List.map_cons, first.toLower_eq none, ih others]

theorem Magnitude.alike {x : Float} (magnitude : Magnitude v x) (alike : List.Forall₂ Alike w v) :
    Magnitude w x := by
  cases magnitude with
  | decimal significand exponent =>
    obtain ⟨text, tail, rfl, before, behind⟩ := forall₂_append_right alike
    exact .decimal (significand.alike before) (exponent.alike behind)
  | infinity lower =>
    have among := letters_of_word (List.mem_append_left ["nan".toList] lower)
    exact .infinity (by rwa [map_toLower_alike alike among.2])
  | nan lower =>
    have among := @letters_of_word v (by simp [lower])
    exact .nan (by rwa [map_toLower_alike alike among.2])

theorem Literal.alike {x : Float} (literal : Literal v x) (alike : List.Forall₂ Alike w v) :
    Literal w x := by
  obtain ⟨signed, magnitude⟩ := literal
  obtain ⟨sign, text, rfl, before, behind⟩ := forall₂_append_right alike
  exact .signed (signed.alike before) (magnitude.alike behind)

/-- Alike words are the same number, or none. -/
theorem read?_alike (alike : List.Forall₂ Alike v w) : read? v = read? w := by
  have back : List.Forall₂ Alike w v := (alike.imp fun _ _ => Alike.symm).flip
  refine Option.ext fun x => ?_
  rw [read?_eq_some_iff, read?_eq_some_iff]
  exact ⟨fun literal => literal.alike back, fun literal => literal.alike alike⟩

/-- The grammar of numbers. A word is read as a number if and only if the grammar has it, and as the
number of the grammar; every other word is refused. So is a word with an underscore, a blank, the
mark of a hexadecimal or an `i` with another dot or none, one that ends in an empty exponent, one
with two points and one with a sign behind a sign. The case of letters and the script of digits
make no difference. -/
theorem number_grammar :
    (∀ w x, read? w = some x ↔ Literal w x) ∧
    (∀ w, read? w = none ↔ ∀ x, ¬ Literal w x) ∧
    (∀ w, ∀ c ∈ w, c ∈ ['_', 'x', 'X', '\u0130', '\u0131'] ∨ Text.isBlank c → read? w = none) ∧
    (∀ w e sign negative, e = 'e' ∨ e = 'E' → SignMark sign negative →
      read? (w ++ e :: sign) = none) ∧
    (∀ w, 1 < w.count '.' → read? w = none) ∧
    (∀ w s t rest, s ∈ signs → t ∈ signs → read? (w ++ s :: t :: rest) = none) ∧
    ∀ v w, List.Forall₂ Alike v w → read? v = read? w := by
  refine ⟨fun w x => read?_eq_some_iff, fun w => read?_eq_none_iff, ?_, ?_, ?_, ?_,
    fun v w => read?_alike⟩
  · intro w c member other
    refine read?_eq_none_iff.mpr fun x literal => ?_
    have part := literal.part c member
    rcases other with listed | blank
    · simp only [List.mem_cons, List.not_mem_nil, or_false] at listed
      rcases listed with rfl | rfl | rfl | rfl | rfl <;> exact absurd part (by decide)
    · exact not_part_of_isBlank blank part
  · intro w e sign negative letter signed
    refine read?_eq_none_iff.mpr fun x literal => ?_
    have last := literal.last
    rw [List.getLast?_append_of_ne_nil w (List.cons_ne_nil e sign)] at last
    cases signed with
    | none => rcases letter with rfl | rfl <;> exact last _ rfl (by decide)
    | plus => exact last '+' rfl (by decide)
    | minus => exact last '-' rfl (by decide)
  · intro w points
    refine read?_eq_none_iff.mpr fun x literal => ?_
    exact absurd literal.points (Nat.not_le.mpr points)
  · intro w s t rest sign sign'
    refine read?_eq_none_iff.mpr fun x literal => ?_
    obtain ⟨-, apart, -⟩ := List.isChain_append_cons_cons.mp literal.apart
    exact apart sign sign'

theorem number_grammar_refused :
    ('_' ∈ "1_0".toList ∧ read? "1_0".toList = none) ∧
    (Text.isBlank '\u00a0' ∧ '\u00a0' ∈ "1\u00a0".toList ∧ read? "1\u00a0".toList = none) ∧
    (SignMark ['-'] true ∧ read? ("1".toList ++ 'E' :: ['-']) = none) ∧
    (1 < "1.2.".toList.count '.' ∧ read? "1.2.".toList = none) ∧
    ('-' ∈ signs ∧ '+' ∈ signs ∧ read? ("1e".toList ++ '-' :: '+' :: ['1']) = none) ∧
    List.Forall₂ Alike ['1', 'E', '2'] ['\u0661', 'e', '\uff12'] ∧
      read? ['1', 'E', '2'] = read? ['\u0661', 'e', '\uff12'] ∧
      Literal ['\u0661', 'e', '\uff12'] 100 := by
  obtain ⟨accepts, -, parts, exponents, points, apart, scripts⟩ := number_grammar
  have alike : List.Forall₂ Alike ['1', 'E', '2'] ['\u0661', 'e', '\uff12'] :=
    .cons (.inr ⟨1, rfl, rfl⟩) (.cons (.inl rfl) (.cons (.inr ⟨2, rfl, rfl⟩) .nil))
  refine ⟨⟨by decide, ?_⟩, ⟨by decide, by decide, ?_⟩, ⟨.minus, ?_⟩, ⟨by decide, ?_⟩,
    ⟨by decide, by decide, ?_⟩, alike, scripts _ _ alike, ?_⟩
  · exact parts _ '_' (by decide) (.inl (by decide))
  · exact parts _ '\u00a0' (by decide) (.inr (by decide))
  · exact exponents _ 'E' _ true (.inr rfl) .minus
  · exact points _ (by decide)
  · exact apart _ '-' '+' _ (by decide) (by decide)
  · exact (accepts _ _).mp (by decide +kernel)

end Number
end Lisplet
