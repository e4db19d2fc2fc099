import Lisplet.Error.Basic
import Lisplet.Number.Literal
import Lisplet.Proofs.Decimal.Encoding
import Lisplet.Scope.Update
import Lisplet.Text.Single

/-!
Operations that have no result everywhere. The definitions that run the language make do with
operations that always give something. Here the same work is done with operations that break down
outside their domain, behind the checks that keep programs away from there. A breakdown is no
error of a program and nothing in a program handles it. The console alone is not in the hands of a
program: whether it can be asked and what it accepts is given with it.
-/

namespace Lisplet

/-- What an operation comes to that is tried outside its domain. -/
inductive Breakdown where
  /-- A definition whose name is no symbol. -/
  | name (fault : NameFault)
  /-- A character made of anything but a text of length one. -/
  | single (fault : Text.SingleFault)
  /-- A row taken apart into another number of items than it has. -/
  | unpacking (length : Nat)
  /-- An empty row reduced without a value to start from. -/
  | reduction
  | index (position : Int) (length : Nat)
  /-- A whole number made of one that is infinite, a fraction or no number at all. -/
  | notWhole (x : Float)
  | zeroDivision
  /-- A word that is no number read as one. -/
  | numeral (word : String)
  | span (fault : SpanFault)
  /-- A console that is closed, or not there, asked whether it is a terminal. -/
  | closed
  /-- A text printed on a console that does not accept it. -/
  | refused (text : String)

/-- What the console of a host does with what is printed on it. It may have been closed, it may
lack characters of a text, and its other end may be gone. -/
structure Console where
  /-- Whether it can be asked for its kind after what has been printed. -/
  isOpen (printed : String) : Bool
  /-- Whether it accepts a text after what has been printed. -/
  accepts (printed text : String) : Bool

namespace Console

/-- Asks whether the console is a terminal. -/
def isTerminal (console : Console) (terminal : Bool) (printed : String) : Except Breakdown Bool :=
  if console.isOpen printed then .ok terminal else .error .closed

/-- What has been printed once a text has been. How much of a refused text the console shows is
not told. -/
def print (console : Console) (printed text : String) : Except Breakdown String :=
  if console.accepts printed text then .ok (printed ++ text) else .error (.refused text)

/-- The breakdowns that the console is the cause of, after what has been printed on it. Texts are
refused by terminals only, since nothing is printed elsewhere. -/
def Fails (console : Console) (terminal : Bool) (printed : String) : Breakdown → Prop
  | .closed => console.isOpen printed = false
  | .refused text => terminal = true ∧ console.accepts printed text = false
  | _ => False

/-- A console that is there for a whole session and, if it is a terminal, accepts every text. -/
structure Serves (console : Console) (terminal : Bool) : Prop where
  isOpen : ∀ printed, console.isOpen printed = true
  accepts : terminal = true → ∀ printed text, console.accepts printed text = true

variable {console : Console} {terminal : Bool} {printed : String} {breakdown : Breakdown}

theorem Serves.not_fails (serves : console.Serves terminal) :
    ¬console.Fails terminal printed breakdown := by
  intro fails
  cases breakdown with
  | closed => cases (serves.isOpen printed).symm.trans fails
  | refused text =>
    obtain ⟨screen, refused⟩ := fails
    cases (serves.accepts screen printed text).symm.trans refused
  | name | single | unpacking | reduction | index | notWhole | zeroDivision | numeral | span =>
    exact fails

end Console

namespace Value

/-- The kind of a value, as a breakdown names it. -/
def typeName : Value → String
  | number _ => "float"
  | bool _ => "bool"
  | string _ => "str"
  | char _ => "Char"
  | symbol _ => "Symbol"
  | keyword _ => "Keyword"
  | nil => "NilType"
  | seq .list _ => "list"
  | seq .vector _ => "Vector"
  | builtin .. => "BuiltinFn"
  | fn .. => "UserFn"
  | closure .. => "Closure"

end Value

namespace Partial

variable {α : Type}

def one : List α → Except Breakdown α
  | [a] => .ok a
  | row => .error (.unpacking row.length)

def two : List α → Except Breakdown (α × α)
  | [a, b] => .ok (a, b)
  | row => .error (.unpacking row.length)

def three : List α → Except Breakdown (α × α × α)
  | [a, b, c] => .ok (a, b, c)
  | row => .error (.unpacking row.length)

/-- A row as its last item and those before it. -/
def last (row : List α) : Except Breakdown (List α × α) :=
  match row.getLast? with
  | some a => .ok (row.dropLast, a)
  | none => .error (.unpacking 0)

/-- Combines a row from the left, starting from its first item. -/
def reduce (op : α → α → Except Breakdown α) : List α → Except Breakdown α
  | [] => .error .reduction
  | a :: row => row.foldlM op a

/-- The item at a position; a negative position counts from the end. -/
def item (row : List α) (position : Int) : Except Breakdown α :=
  let place := if position < 0 then position + row.length else position
  match place with
  | .ofNat i =>
    match row[i]? with
    | some a => .ok a
    | none => .error (.index position row.length)
  | .negSucc _ => .error (.index position row.length)

def whole (x : Float) : Except Breakdown Int :=
  match wholeNumber? x with
  | some n => .ok n
  | none => .error (.notWhole x)

def divide (x y : Float) : Except Breakdown Float :=
  if y == 0 then .error .zeroDivision else .ok (x / y)

def numeral (word : List Char) : Except Breakdown Float :=
  match Number.read? word with
  | some x => .ok x
  | none => .error (.numeral (String.ofList word))

def char (text : String) : Except Breakdown Char := (Text.single text).mapError .single

/-- The character of a value that is a text of length one. -/
def charOf : Value → Except Breakdown Value
  | .string s => .char <$> char s
  | v => .error (.single (.notText v.typeName))

/-- The symbol that a name is. -/
def symbol : Value → Except Breakdown Symbol
  | .symbol s => .ok s
  | v => .error (.name ⟨v⟩)

def define (scope : Scope Value) (name value : Value) : Except Breakdown (Scope Value) :=
  (scope.defineNamed name value).mapError .name

def extend (node : Node) (span : Span) : Except Breakdown Node :=
  match node.span.extend span, node with
  | .error fault, _ => .error (.span fault)
  | .ok span, .leaf a _ => .ok (.leaf a span)
  | .ok span, .group shape items _ => .ok (.group shape items span)

variable {row : List α} {a : α}

theorem item_of_getElem? {i : Nat} (found : row[i]? = some a) : item row i = .ok a := by
  have nonnegative : ¬((i : Int) < 0) := by omega
  simp only [item, if_neg nonnegative]
  rw [found]

theorem reduce_ok {op : α → α → Except Breakdown α} {f : α → α → α}
    (total : ∀ a b, op a b = .ok (f a b)) (a : α) (row : List α) :
    reduce op (a :: row) = .ok (row.foldl f a) := by
  rw [reduce]
  induction row generalizing a with
  | nil => rfl
  | cons b row ih =>
    rw [List.foldlM_cons, total]
    exact ih (f a b)

theorem char_single (c : Char) : char c.toString = .ok c := by
  have alone : c.toString.toList = [c] := String.toList_singleton c
  rw [char, Text.single, alone]
  rfl

theorem define_symbol (scope : Scope Value) (s : Symbol) (v : Value) :
    define scope (.symbol s) v = .ok (scope.define s v) := rfl

end Partial

namespace Number

open Float.Model Float.Model.UnpackedFloat

/-- Whether a number has the sign; the sign of what is no number is never asked for. -/
def isNegative (x : Float) : Bool :=
  match Binary.ofFloat x with
  | .nan => false
  | .infinite negative | .finite negative _ _ => negative

/-- The magnitude of one number under the sign of another. -/
def copySign (magnitude sign : Float) : Float :=
  if isNegative sign then -magnitude.abs else magnitude.abs

theorem beq_zero_iff {x : Float} : (x == 0) = true ↔ ∃ s, x.toModel.unpack = .zero s := by
  change (x.toModel.unpack.compare (.zero .positive) == some .eq) = true ↔ _
  generalize x.toModel.unpack = u
  cases u with
  | zero s => exact ⟨fun _ => ⟨s, rfl⟩, fun _ => rfl⟩
  | notANumber =>
    constructor
    · intro same
      cases same
    · rintro ⟨s, ⟨⟩⟩
  | infinity s | finite s m e pos =>
    constructor
    · intro same
      cases s <;> cases same
    · rintro ⟨s, ⟨⟩⟩

theorem beq_zero_eq_false {x : Float} (nonzero : ∀ s, x.toModel.unpack ≠ .zero s) :
    (x == 0) = false := by
  rw [Bool.eq_false_iff, Ne, beq_zero_iff]
  rintro ⟨s, zero⟩
  exact nonzero s zero

theorem isNegative_zero {x : Float} {s : Sign} (unpacked : x.toModel.unpack = .zero s) :
    isNegative x = Binary.isNegative s := by
  rw [isNegative, Binary.ofFloat, unpacked]

theorem isNegative_infinity {x : Float} {s : Sign} (unpacked : x.toModel.unpack = .infinity s) :
    isNegative x = Binary.isNegative s := by
  rw [isNegative, Binary.ofFloat, unpacked]

theorem isNegative_finite {x : Float} {s : Sign} {m : Nat} {e : Int} {pos : 0 < m}
    (unpacked : x.toModel.unpack = .finite s m e pos) : isNegative x = Binary.isNegative s := by
  rw [isNegative, Binary.ofFloat, unpacked]

/-- The infinity under the signs of both numbers, as it stands for a division by zero. -/
theorem copySign_mul {x y : Float} {s t : Sign} (first : isNegative x = Binary.isNegative s)
    (second : isNegative y = Binary.isNegative t) :
    copySign infinity x * copySign 1 y = .ofModel (.pack (.infinity (s / t))) := by
  rw [copySign, copySign, first, second]
  cases s <;> cases t <;> rfl

end Number

namespace Guarded

open Float.Model Float.Model.UnpackedFloat

/-- Division by any number. What stands in place of a division by zero depends on the signs. -/
def quotient (x y : Float) : Except Breakdown Float :=
  if y == 0 then
    if x == 0 || x.isNaN then .ok Number.nan
    else .ok (Number.copySign Number.infinity x * Number.copySign 1 y)
  else Partial.divide x y

theorem quotient_zero {x y : Float} {s t : Sign} (divisor : y.toModel.unpack = .zero t)
    (nonzero : (x == 0) = false) (some : x.toModel.unpack.isNaN = false)
    (signed : Number.isNegative x = Binary.isNegative s)
    (value : UnpackedFloat.div Format.binary64 x.toModel.unpack (.zero t) = .infinity (s / t)) :
    quotient x y = .ok (x / y) := by
  have number : x.isNaN = x.toModel.unpack.isNaN := rfl
  have result : x / y = .ofModel (.pack (UnpackedFloat.div Format.binary64 x.toModel.unpack
      y.toModel.unpack)) := rfl
  rw [quotient, if_pos (Number.beq_zero_iff.mpr ⟨t, divisor⟩), number, nonzero, some, Bool.or_self,
    if_neg Bool.false_ne_true, Number.copySign_mul signed (Number.isNegative_zero divisor), result,
    divisor, value]

theorem quotient_eq (x y : Float) : quotient x y = .ok (x / y) := by
  by_cases zero : y == 0
  · obtain ⟨t, divisor⟩ := Number.beq_zero_iff.mp zero
    have number : x.isNaN = x.toModel.unpack.isNaN := rfl
    have result : x / y = .ofModel (.pack (UnpackedFloat.div Format.binary64 x.toModel.unpack
        y.toModel.unpack)) := rfl
    cases dividend : x.toModel.unpack with
    | notANumber =>
      have none : UnpackedFloat.notANumber.isNaN = true := rfl
      rw [quotient, if_pos zero, result, number, dividend, none, Bool.or_true, if_pos rfl]
      rfl
    | zero s =>
      rw [quotient, if_pos zero, result, Number.beq_zero_iff.mpr ⟨s, dividend⟩, Bool.true_or,
        if_pos rfl, dividend, divisor]
      rfl
    | infinity s =>
      apply quotient_zero divisor
      · exact Number.beq_zero_eq_false fun t same => by cases dividend.symm.trans same
      · rw [dividend]
        rfl
      · exact Number.isNegative_infinity dividend
      · rw [dividend]
        rfl
    | finite s m e pos =>
      apply quotient_zero divisor
      · exact Number.beq_zero_eq_false fun t same => by cases dividend.symm.trans same
      · rw [dividend]
        rfl
      · exact Number.isNegative_finite dividend
      · rw [dividend]
        rfl
  · rw [quotient, if_neg zero, Partial.divide, if_neg zero]

/-- Without the check the division breaks down. -/
example : Partial.divide 1 0 = .error .zeroDivision := rfl

end Guarded
end Lisplet
