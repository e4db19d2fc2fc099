import Lisplet.Proofs.Guarded.Partial

/-!
Texts of values, with the checks that are made on the way. Numbers alone need any: one is written
as a whole number after it has been found to be finite and whole.
-/

namespace Lisplet

open Float.Model Float.Model.UnpackedFloat

namespace Number

theorem pos_iff {x : Float} :
    0 < x ↔ (UnpackedFloat.zero .positive).lt x.toModel.unpack = true := by
  change decide (((0 : Float).toModel.unpack.lt x.toModel.unpack) = true) = true ↔ _
  rw [decide_eq_true_eq]
  rfl

theorem toString_signed (negative : Bool) {n : Nat} (pos : 0 < n) :
    toString (if negative then -(n : Int) else n) = signed negative (Nat.toDigits 10 n) := by
  obtain ⟨k, rfl⟩ := Nat.exists_eq_add_one_of_ne_zero (Nat.ne_of_gt pos)
  cases negative with
  | false => rfl
  | true =>
    change String.ofList ['-'] ++ String.ofList (Nat.toDigits 10 (k + 1)) = _
    rw [← String.ofList_append]
    rfl

/-- What is not zero and has no remainder has a quotient that is not zero. -/
theorem fraction_pos {m : Nat} {e : Int} (pos : 0 < m)
    (whole : (Binary.fraction m e).1 % (Binary.fraction m e).2 = 0) :
    0 < (Binary.fraction m e).1 / (Binary.fraction m e).2 := by
  have numerator : 0 < (Binary.fraction m e).1 := by
    simp only [Binary.fraction, Nat.shiftLeft_eq]
    exact Nat.mul_pos pos (Nat.two_pow_pos _)
  have parts := Nat.div_mul_cancel (Nat.dvd_of_mod_eq_zero whole)
  apply Nat.pos_of_ne_zero
  intro zero
  rw [zero, Nat.zero_mul] at parts
  omega

end Number

namespace Guarded

def displayNumber (x : Float) : Except Breakdown String :=
  if x.isNaN then .ok "NaN"
  else if x.isInf then .ok (if 0 < x then "inf" else "-inf")
  else if (wholeNumber? x).isSome then
    if x == 0 && Number.isNegative x then .ok "-0"
    else return toString (← Partial.whole x)
  else .ok (Number.display x)

theorem displayNumber_eq (x : Float) : displayNumber x = .ok (Number.display x) := by
  have isNaN : x.isNaN = x.toModel.unpack.isNaN := rfl
  have isInf : x.isInf = x.toModel.unpack.isInf := rfl
  rw [displayNumber, isNaN, isInf]
  cases unpacked : x.toModel.unpack with
  | notANumber =>
    rw [Number.display, Binary.ofFloat, unpacked]
    rfl
  | infinity s =>
    have sign : (0 < x) = (UnpackedFloat.lt (.zero .positive) (.infinity s) = true) := by
      rw [← unpacked]
      exact propext Number.pos_iff
    have some : (UnpackedFloat.infinity s).isNaN = false := rfl
    have infinite : (UnpackedFloat.infinity s).isInf = true := rfl
    rw [some, infinite, if_neg Bool.false_ne_true, if_pos rfl, Number.display, Binary.ofFloat,
      unpacked]
    simp only [sign]
    cases s <;> rfl
  | zero s =>
    have some : (UnpackedFloat.zero s).isNaN = false := rfl
    have finite : (UnpackedFloat.zero s).isInf = false := rfl
    rw [some, finite, if_neg Bool.false_ne_true, if_neg Bool.false_ne_true,
      Number.beq_zero_iff.mpr ⟨s, unpacked⟩, Number.isNegative_zero unpacked, Partial.whole,
      wholeNumber?, Number.display, Binary.ofFloat, unpacked]
    cases s <;> rfl
  | finite s m e pos =>
    have some : (UnpackedFloat.finite s m e pos).isNaN = false := rfl
    have finite : (UnpackedFloat.finite s m e pos).isInf = false := rfl
    have nonzero : (x == 0) = false := by
      apply Number.beq_zero_eq_false
      intro t same
      cases unpacked.symm.trans same
    rw [some, finite, nonzero, Bool.false_and, if_neg Bool.false_ne_true, if_neg Bool.false_ne_true,
      if_neg Bool.false_ne_true, Partial.whole, wholeNumber?, Number.display, Binary.ofFloat,
      unpacked]
    by_cases whole : (Binary.fraction m e).1 % (Binary.fraction m e).2 = 0
    · simp only [Binary.whole?, if_pos whole]
      have text := Number.toString_signed (Binary.isNegative s) (Number.fraction_pos pos whole)
      exact congrArg Except.ok text
    · simp only [Binary.whole?, if_neg whole]
      rfl

def displayAtom : Atom → Except Breakdown String
  | .number x => displayNumber x
  | a => .ok a.display

theorem displayAtom_eq (a : Atom) : displayAtom a = .ok a.display := by
  cases a with
  | number x => exact displayNumber_eq x
  | bool | string | char | symbol | keyword | nil => rfl

/-- Writes the pieces behind the text `done`. -/
def writePieces (done : String) : List Value.Piece → Except Breakdown String
  | [] => .ok done
  | .text s :: rest => writePieces (done ++ s) rest
  | .value (.atom a) :: rest => do writePieces (done ++ (← displayAtom a)) rest
  | .value (.builtin name _) :: rest => writePieces (done ++ name.display) rest
  | .value (.fn name _ _) :: rest => writePieces (done ++ name.display) rest
  | .value (.closure ..) :: rest => writePieces (done ++ "#<closure>") rest
  | .value (.seq shape items) :: rest =>
    writePieces (done.push shape.opening)
      (Value.spaced items ++ .text shape.closing.toString :: rest)
termination_by pieces => Value.Piece.weights pieces
decreasing_by
  all_goals
    try simp only [Value.Piece.weights_append]
    try have := Value.weights_spaced items
    simp only [Value.Piece.weights, Value.Piece.weight, Value.weight] at *
    omega

theorem writePieces_eq (done : String) (pieces : List Value.Piece) :
    writePieces done pieces = .ok (Value.writePieces done pieces) := by
  induction done, pieces using Value.writePieces.induct with
  | case1 done => simp only [writePieces, Value.writePieces]
  | case2 done s rest ih => simpa only [writePieces, Value.writePieces] using ih
  | case3 done a rest ih =>
    rw [writePieces, displayAtom_eq, Value.writePieces]
    exact ih
  | case4 done name operation rest ih => simpa only [writePieces, Value.writePieces] using ih
  | case5 done name params body rest ih => simpa only [writePieces, Value.writePieces] using ih
  | case6 done captured params body rest ih =>
    simpa only [writePieces, Value.writePieces] using ih
  | case7 done shape items rest ih => simpa only [writePieces, Value.writePieces] using ih

def display (v : Value) : Except Breakdown String := writePieces "" [.value v]

def text : Value → Except Breakdown String
  | .string s => .ok s
  | .char c => .ok c.toString
  | v => display v

theorem display_eq (v : Value) : display v = .ok v.display := writePieces_eq "" [.value v]

theorem text_eq (v : Value) : text v = .ok v.text := by
  cases v with
  | atom a =>
    cases a with
    | string | char => rfl
    | number | bool | symbol | keyword | nil => exact display_eq _
  | seq | builtin | fn | closure => exact display_eq _

theorem texts_eq (vs : List Value) : vs.mapM text = .ok (vs.map Value.text) := by
  induction vs with
  | nil => rfl
  | cons v vs ih =>
    rw [List.mapM_cons, text_eq, ih]
    rfl

/-- The sentence for the user, in which a fault shows the value that it is about. -/
def message : EvalFault → Except Breakdown String
  | .invalidFunction v => return "`" ++ (← display v) ++ "` is not a function"
  | .invalidArgument v =>
    return "`" ++ (← display v) ++ "` is not a valid argument for this function"
  | fault => .ok fault.message

theorem message_eq (fault : EvalFault) : message fault = .ok fault.message := by
  cases fault with
  | invalidFunction v | invalidArgument v =>
    rw [message, display_eq]
    rfl
  | unknownSymbol | missingArguments | tooManyArguments | depthExceeded => rfl

end Guarded
end Lisplet
