import Lisplet.Number.Literal
import Mathlib.Data.List.TakeDrop

/-!
The grammar of numbers. A number is an optional sign and a magnitude: digits of any scripts with
at most one point among them and possibly an exponent behind, or a word for infinity or for what
is no number. Reading accepts exactly these words and gives each the number that the grammar does.
-/

namespace Lisplet

namespace Text

/-- Decimal digits, of whichever scripts. -/
def DecimalDigits (cs : List Char) : Prop := ∀ c ∈ cs, isDecimalDigit c

/-- Between two runs of ten digits there are no others. -/
theorem digitValue?_eq_none {c : Char} {low high : Nat}
    (between : ∀ z ∈ digitZeros, z + 10 ≤ low ∨ high ≤ z) (above : low ≤ c.toNat)
    (below : c.toNat < high) : digitValue? c = none := by
  simp only [digitValue?, Option.map_eq_none_iff, List.find?_eq_none, Bool.and_eq_true,
    decide_eq_true_eq, not_and, Nat.not_lt]
  intro z member reached
  have := between z member
  omega

theorem toLower_cases (c : Char) :
    c.toLower = c ∨ 65 ≤ c.toNat ∧ c.toNat ≤ 90 ∧ c.toLower.toNat = c.toNat + 32 := by
  by_cases upper : c.val ≥ 'A'.val ∧ c.val ≤ 'Z'.val
  · refine .inr ⟨UInt32.le_iff_toNat_le.mp upper.1, UInt32.le_iff_toNat_le.mp upper.2, ?_⟩
    have bound : c.val.toNat ≤ 90 := UInt32.le_iff_toNat_le.mp upper.2
    have lower : c.toLower.val = c.val + 32 := congrArg Char.val (dif_pos upper)
    show c.toLower.val.toNat = c.val.toNat + 32
    rw [lower, UInt32.toNat_add]
    show (c.val.toNat + 32) % 2 ^ 32 = c.val.toNat + 32
    omega
  · exact .inl (dif_neg upper)

/-- Letters are no digits, in whichever case. -/
theorem digitValue?_toLower (c : Char) : digitValue? c.toLower = digitValue? c := by
  have letters : ∀ z ∈ digitZeros, z + 10 ≤ 65 ∨ 123 ≤ z := by decide
  rcases toLower_cases c with same | ⟨above, below, lower⟩
  · rw [same]
  · rw [digitValue?_eq_none letters above (by omega),
      digitValue?_eq_none letters (by omega) (by omega)]

/-- Digits are none of the characters that are no digits. -/
theorem DecimalDigits.not_mem {cs others : List Char} (digits : DecimalDigits cs)
    (none : others.all fun d => !isDecimalDigit d) : ∀ c ∈ cs, c ∉ others := by
  intro c member other
  have none := List.all_eq_true.mp none c other
  rw [digits c member] at none
  cases none

end Text

namespace Number

open Text (DecimalDigits isDecimalDigit ofDigits)

/-- A sign, or none; and whether it makes a number negative. -/
inductive SignMark : List Char → Bool → Prop where
  | none : SignMark [] false
  | plus : SignMark ['+'] false
  | minus : SignMark ['-'] true

/-- Digits with at most one point before, behind or among them, and the decimal that they write. -/
inductive Significand : List Char → Decimal → Prop where
  | whole {digits} : digits ≠ [] → DecimalDigits digits → Significand digits ⟨ofDigits digits, 0⟩
  | point {whole fraction} : whole ≠ [] → DecimalDigits whole → DecimalDigits fraction →
      Significand (whole ++ '.' :: fraction) ⟨ofDigits (whole ++ fraction), -fraction.length⟩
  | fraction {fraction} : fraction ≠ [] → DecimalDigits fraction →
      Significand ('.' :: fraction) ⟨ofDigits fraction, -fraction.length⟩

/-- A power of ten, or none. -/
inductive Exponent : List Char → Int → Prop where
  | none : Exponent [] 0
  | power {e sign negative digits} : e = 'e' ∨ e = 'E' → SignMark sign negative → digits ≠ [] →
      DecimalDigits digits →
      Exponent (e :: (sign ++ digits)) (if negative then -ofDigits digits else ofDigits digits)

/-- A number without a sign. -/
inductive Magnitude : List Char → Float → Prop where
  | decimal {text tail s e} : Significand text s → Exponent tail e →
      Magnitude (text ++ tail) (Decimal.toFloat ⟨s.coefficient, e + s.exponent⟩)
  | infinity {word} : word.map Char.toLower ∈ ["inf".toList, "infinity".toList] →
      Magnitude word infinity
  | nan {word} : word.map Char.toLower = "nan".toList → Magnitude word nan

/-- A word that is a number, and the number. -/
inductive Literal : List Char → Float → Prop where
  | signed {sign negative text x} : SignMark sign negative → Magnitude text x →
      Literal (sign ++ text) (if negative then -x else x)

variable {cs rest text tail : List Char} {c : Char}

/-! Reading accepts what the grammar has. -/

theorem span_digits (digits : DecimalDigits cs) (stop : ∀ c ∈ rest.head?, isDecimalDigit c = false) :
    (cs ++ rest).span isDecimalDigit = (cs, rest) := by
  rw [List.span_eq_takeWhile_dropWhile, List.takeWhile_append_of_pos digits,
    List.dropWhile_append_of_pos digits]
  cases rest with
  | nil => simp
  | cons c rest => simp [stop c rfl]

/-- The characters that are signs. -/
def signs : List Char := ['+', '-']

theorem takeSign_append {sign : List Char} {negative : Bool} (signed : SignMark sign negative)
    (start : ∀ c ∈ cs.head?, c ∉ signs) : takeSign (sign ++ cs) = (negative, cs) := by
  cases signed with
  | plus | minus => rfl
  | none =>
    rw [List.nil_append]
    unfold takeSign
    split
    · exact absurd (start '+' rfl) (by decide)
    · exact absurd (start '-' rfl) (by decide)
    · rfl

theorem Exponent.read {e : Int} (exponent : Exponent tail e) : readExponent tail = some e := by
  cases exponent with
  | none => rfl
  | power letter signed nonempty digits =>
    have taken := takeSign_append signed fun c first =>
      digits.not_mem (by decide) c (List.mem_of_mem_head? first)
    simp [readExponent, letter, taken, nonempty, List.all_eq_true.mpr digits]

theorem Exponent.start {e : Int} (exponent : Exponent tail e) :
    ∀ c ∈ tail.head?, isDecimalDigit c = false ∧ c ≠ '.' ∧ c ∉ signs := by
  rintro c first
  cases exponent with
  | none => cases first
  | power letter _ _ _ =>
    cases first
    rcases letter with rfl | rfl <;> decide

theorem readDecimal_eq {whole behind fraction : List Char}
    (spanned : cs.span isDecimalDigit = (whole, behind))
    (taken : takeFraction behind = (fraction, tail)) :
    readDecimal cs = if whole.isEmpty && fraction.isEmpty then none
      else (readExponent tail).map fun e => ⟨ofDigits (whole ++ fraction), e - fraction.length⟩ := by
  simp only [readDecimal, spanned, taken]

theorem Significand.read {s : Decimal} {e : Int} (significand : Significand text s)
    (exponent : Exponent tail e) :
    readDecimal (text ++ tail) = some ⟨s.coefficient, e + s.exponent⟩ := by
  have stop : ∀ c ∈ tail.head?, isDecimalDigit c = false := fun c first => (exponent.start c first).1
  have unpointed : takeFraction tail = ([], tail) := by
    unfold takeFraction
    split
    · exact absurd rfl (exponent.start '.' rfl).2.1
    · rfl
  have pointed {fraction : List Char} (digits : DecimalDigits fraction) :
      takeFraction ('.' :: (fraction ++ tail)) = (fraction, tail) := span_digits digits stop
  have point (rest : List Char) : ∀ c ∈ ('.' :: rest).head?, isDecimalDigit c = false := by
    rintro c ⟨⟩
    decide
  cases significand with
  | whole nonempty digits =>
    rw [readDecimal_eq (span_digits digits stop) unpointed]
    simp [nonempty, exponent.read]
  | @point whole fraction nonempty digits digits' =>
    rw [List.append_assoc, List.cons_append,
      readDecimal_eq (span_digits digits (point _)) (pointed digits')]
    simp [nonempty, exponent.read, Int.sub_eq_add_neg]
  | @fraction fraction nonempty digits =>
    have spanned := @span_digits [] ('.' :: (fraction ++ tail)) (by simp [DecimalDigits]) (point _)
    rw [List.nil_append] at spanned
    rw [List.cons_append, readDecimal_eq spanned (pointed digits)]
    simp [nonempty, exponent.read, Int.sub_eq_add_neg]

theorem SignMark.of_takeSign (cs : List Char) :
    ∃ sign, SignMark sign (takeSign cs).1 ∧ cs = sign ++ (takeSign cs).2 := by
  unfold takeSign
  split
  · exact ⟨_, .plus, rfl⟩
  · exact ⟨_, .minus, rfl⟩
  · exact ⟨_, .none, rfl⟩

theorem Exponent.of_read {e : Int} (read : readExponent tail = some e) : Exponent tail e := by
  unfold readExponent at read
  split at read
  · cases read
    exact .none
  · rename_i c cs
    obtain ⟨sign, signed, same⟩ := SignMark.of_takeSign cs
    generalize takeSign cs = taken at *
    obtain ⟨negative, digits⟩ := taken
    split at read
    · rename_i letter
      dsimp only at read same signed
      split at read
      · rename_i decimal
        cases read
        simp only [Bool.and_eq_true, Bool.not_eq_true', List.isEmpty_eq_false_iff,
          List.all_eq_true] at decimal
        rw [same]
        exact .power (by simpa using letter) signed decimal.1 decimal.2
      · cases read
    · cases read

theorem exists_span (cs : List Char) :
    ∃ digits rest, cs.span isDecimalDigit = (digits, rest) ∧ cs = digits ++ rest ∧
      DecimalDigits digits :=
  ⟨_, _, List.span_eq_takeWhile_dropWhile .., List.takeWhile_append_dropWhile.symm,
    fun c member => List.all_eq_true.mp List.all_takeWhile c member⟩

theorem takeFraction_cases (cs : List Char) :
    takeFraction cs = ([], cs) ∨ ∃ fraction tail, cs = '.' :: (fraction ++ tail) ∧
      takeFraction cs = (fraction, tail) ∧ DecimalDigits fraction := by
  unfold takeFraction
  split
  · rename_i fractional
    obtain ⟨fraction, tail, spanned, rfl, digits⟩ := exists_span fractional
    exact .inr ⟨fraction, tail, rfl, spanned, digits⟩
  · exact .inl rfl

/-- What is read as a decimal is a significand with an exponent. -/
theorem exists_significand {d : Decimal} (read : readDecimal cs = some d) :
    ∃ text tail s e, cs = text ++ tail ∧ Significand text s ∧ Exponent tail e ∧
      d = ⟨s.coefficient, e + s.exponent⟩ := by
  obtain ⟨whole, behind, spanned, rfl, digits⟩ := exists_span cs
  rcases takeFraction_cases behind with taken | ⟨fraction, tail, rfl, taken, digits'⟩
  · rw [readDecimal_eq spanned taken] at read
    split at read
    · cases read
    · rename_i some
      obtain ⟨e, exponent, rfl⟩ := Option.map_eq_some_iff.mp read
      have nonempty : whole ≠ [] := by simpa using some
      exact ⟨whole, behind, _, e, rfl, .whole nonempty digits, .of_read exponent, by simp⟩
  · rw [readDecimal_eq spanned taken] at read
    split at read
    · cases read
    · rename_i some
      obtain ⟨e, exponent, rfl⟩ := Option.map_eq_some_iff.mp read
      by_cases none : whole = []
      · subst none
        have nonempty : fraction ≠ [] := by simpa using some
        exact ⟨'.' :: fraction, tail, _, e, rfl, .fraction nonempty digits', .of_read exponent,
          by simp [Int.sub_eq_add_neg]⟩
      · exact ⟨whole ++ '.' :: fraction, tail, _, e, by simp, .point none digits digits',
          .of_read exponent, by simp [Int.sub_eq_add_neg]⟩

theorem readDecimal_eq_some_iff {d : Decimal} :
    readDecimal cs = some d ↔ ∃ text tail s e, cs = text ++ tail ∧ Significand text s ∧
      Exponent tail e ∧ d = ⟨s.coefficient, e + s.exponent⟩ := by
  constructor
  · exact exists_significand
  · rintro ⟨text, tail, s, e, rfl, significand, exponent, rfl⟩
    exact significand.read exponent

theorem Significand.part {s : Decimal} (significand : Significand text s) :
    ∀ c ∈ text, isDecimalDigit c ∨ c = '.' := by
  cases significand with
  | whole _ digits => exact fun c member => .inl (digits c member)
  | point _ digits digits' =>
    rw [List.forall_mem_append, List.forall_mem_cons]
    exact ⟨fun c member => .inl (digits c member), .inr rfl, fun c member => .inl (digits' c member)⟩
  | fraction _ digits =>
    rw [List.forall_mem_cons]
    exact ⟨.inr rfl, fun c member => .inl (digits c member)⟩

theorem Significand.ne_nil {s : Decimal} (significand : Significand text s) : text ≠ [] := by
  cases significand <;> simp_all

/-- In lower case, too, digits and points are none of the other characters. -/
theorem toLower_not_mem {others : List Char} (part : isDecimalDigit c ∨ c = '.')
    (none : others.all fun d => !isDecimalDigit d && d != '.') : c.toLower ∉ others := by
  intro other
  have none := List.all_eq_true.mp none _ other
  simp only [isDecimalDigit, Text.digitValue?_toLower, Bool.and_eq_true, Bool.not_eq_true',
    bne_iff_ne, ne_eq] at none
  rcases part with digit | rfl
  · rw [isDecimalDigit, none.1] at digit
    cases digit
  · exact none.2 rfl

/-- A number without a sign is one of the words, or else a decimal. -/
theorem readMagnitude_eq (cs : List Char) :
    readMagnitude cs =
      if cs.map Char.toLower ∈ ["inf".toList, "infinity".toList] then some infinity
      else if cs.map Char.toLower = "nan".toList then some nan
      else (readDecimal cs).map Decimal.toFloat := by
  rw [readMagnitude]
  congr 1
  simp only [List.mem_cons, List.not_mem_nil, or_false, Bool.or_eq_true, decide_eq_true_eq]

/-- The letters of the words for infinity and for what is no number. -/
def letters : List Char := ['i', 'n', 'f', 't', 'y', 'a']

theorem letters_of_word
    (lower : text.map Char.toLower ∈ ["inf".toList, "infinity".toList, "nan".toList]) :
    text ≠ [] ∧ ∀ c ∈ text, c.toLower ∈ letters := by
  have words : ∀ word ∈ ["inf".toList, "infinity".toList, "nan".toList],
      word ≠ [] ∧ ∀ l ∈ word, l ∈ letters := by simp [letters]
  obtain ⟨nonempty, among⟩ := words _ lower
  constructor
  · rintro rfl
    exact nonempty rfl
  · exact fun c member => among _ (List.mem_map_of_mem member)

/-- A number without a sign is a decimal or is written in letters. -/
theorem Magnitude.decimal_or_letters {x : Float} (magnitude : Magnitude text x) :
    (∃ decimal tail s e, text = decimal ++ tail ∧ Significand decimal s ∧ Exponent tail e) ∨
      text ≠ [] ∧ ∀ c ∈ text, c.toLower ∈ letters := by
  cases magnitude with
  | decimal significand exponent => exact .inl ⟨_, _, _, _, rfl, significand, exponent⟩
  | infinity lower => exact .inr (letters_of_word (List.mem_append_left ["nan".toList] lower))
  | nan lower => exact .inr (letters_of_word (by simp [lower]))

theorem toLower_of_sign (sign : c ∈ signs) : c.toLower = c := by
  have lower : ∀ c ∈ signs, c.toLower = c := by simp [signs]
  exact lower c sign

theorem letters_not_signs (letter : c ∈ letters) : c ∉ signs := by
  have none : ∀ l ∈ letters, l ∉ signs := by simp [letters, signs]
  exact none c letter

theorem Magnitude.unsigned {x : Float} (magnitude : Magnitude text x) :
    ∀ c ∈ text.head?, c ∉ signs := by
  intro c first sign
  have lower : c.toLower ∈ signs := by rwa [toLower_of_sign sign]
  rcases magnitude.decimal_or_letters with ⟨decimal, tail, s, e, rfl, significand, -⟩ | ⟨-, among⟩
  · obtain ⟨d, rest, rfl⟩ := List.exists_cons_of_ne_nil significand.ne_nil
    cases first
    exact toLower_not_mem (significand.part c List.mem_cons_self) (by decide) lower
  · exact letters_not_signs (among c (List.mem_of_mem_head? first)) lower

theorem Magnitude.read {x : Float} (magnitude : Magnitude text x) :
    readMagnitude text = some x := by
  rw [readMagnitude_eq]
  cases magnitude with
  | @decimal text tail s e significand exponent =>
    -- A decimal starts with a digit or a point, so it is neither of the words.
    have other : ∀ l ∈ letters, ∀ word, (text ++ tail).map Char.toLower ≠ l :: word := by
      intro l letter word same
      obtain ⟨c, rest, rfl⟩ := List.exists_cons_of_ne_nil significand.ne_nil
      obtain ⟨rfl, -⟩ := List.cons.inj same
      exact toLower_not_mem (significand.part c List.mem_cons_self) (by decide) letter
    have infinite : (text ++ tail).map Char.toLower ∉ ["inf".toList, "infinity".toList] := by
      simp only [List.mem_cons, List.not_mem_nil, or_false, not_or]
      exact ⟨other 'i' (by decide) "nf".toList, other 'i' (by decide) "nfinity".toList⟩
    have undefined : (text ++ tail).map Char.toLower ≠ "nan".toList :=
      other 'n' (by decide) "an".toList
    rw [if_neg infinite, if_neg undefined, significand.read exponent, Option.map_some]
  | infinity lower => rw [if_pos lower]
  | nan lower => rw [lower, if_neg (by decide), if_pos rfl]

theorem Magnitude.of_read {x : Float} (read : readMagnitude text = some x) : Magnitude text x := by
  rw [readMagnitude_eq] at read
  split at read
  · rename_i word
    cases read
    exact .infinity word
  split at read
  · rename_i word
    cases read
    exact .nan word
  · obtain ⟨d, decimal, rfl⟩ := Option.map_eq_some_iff.mp read
    obtain ⟨text, tail, s, e, rfl, significand, exponent, rfl⟩ := readDecimal_eq_some_iff.mp decimal
    exact .decimal significand exponent

/-- Reading accepts the words of the grammar, each as its number. -/
theorem read?_eq_some_iff {x : Float} : read? text = some x ↔ Literal text x := by
  constructor
  · intro read
    obtain ⟨sign, signed, same⟩ := SignMark.of_takeSign text
    rw [read?] at read
    generalize takeSign text = taken at *
    obtain ⟨negative, magnitude⟩ := taken
    obtain ⟨y, known, rfl⟩ := Option.map_eq_some_iff.mp read
    rw [same]
    exact .signed signed (.of_read known)
  · rintro ⟨signed, magnitude⟩
    simp only [read?, takeSign_append signed magnitude.unsigned, magnitude.read, Option.map_some]

theorem read?_eq_none_iff : read? text = none ↔ ∀ x, ¬ Literal text x := by
  rw [Option.eq_none_iff_forall_ne_some]
  simp only [ne_eq, read?_eq_some_iff]

end Number
end Lisplet
