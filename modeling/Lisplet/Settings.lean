import Lisplet.Text.Blank
import Lisplet.Text.DecimalDigit
import Lisplet.Text.Quoted

/-!
Settings, read from the texts of environment variables: how deep calls may be nested, and
whether diagrams are coloured.
-/

namespace Lisplet

/-- What is wrong with the text of a depth limit. -/
inductive SettingFault where
  | notAnInteger (raw : String)
  | notPositive (limit : Int)
deriving DecidableEq

namespace SettingFault

def message : SettingFault → String
  | notAnInteger raw => "FAYE_MAX_DEPTH must be an integer, got " ++ Text.quoted raw
  | notPositive limit => "FAYE_MAX_DEPTH must be positive, got " ++ toString limit

end SettingFault

namespace Settings

def defaultDepth : Int := 1000

/-- A numeral with more digits is refused. -/
def longestNumeral : Nat := 4300

/-- The digits of a numeral in which single underscores may stand between digits. -/
def numeralDigits? : List Char → Option (List Char)
  | [] => none
  | [c] => if Text.isDecimalDigit c then some [c] else none
  | c :: '_' :: rest =>
    if Text.isDecimalDigit c then (numeralDigits? rest).map (c :: ·) else none
  | c :: rest =>
    if Text.isDecimalDigit c then (numeralDigits? rest).map (c :: ·) else none

def readNatural? (cs : List Char) : Option Nat :=
  match numeralDigits? cs with
  | some digits => if digits.length ≤ longestNumeral then some (Text.ofDigits digits) else none
  | none => none

def readInteger? : List Char → Option Int
  | '+' :: cs => (readNatural? cs).map Int.ofNat
  | '-' :: cs => (readNatural? cs).map fun n => -(n : Int)
  | cs => (readNatural? cs).map Int.ofNat

/-- The depth limit. A blank text counts as none, for which the default stands in. -/
def depthLimit (raw : Option String) : Except SettingFault Int :=
  match raw with
  | none => .ok defaultDepth
  | some raw =>
    let cs := Text.trim raw.toList
    if cs.isEmpty then .ok defaultDepth
    else match readInteger? cs with
      | none => .error (.notAnInteger raw)
      | some limit => if limit < 1 then .error (.notPositive limit) else .ok limit

inductive ColorMode where
  | auto
  | always
  | never
deriving DecidableEq

def ColorMode.name : ColorMode → String
  | auto => "auto"
  | always => "always"
  | never => "never"

/-- The colour mode, in upper or lower case. A text that names none stands for `auto`. -/
def colorMode (raw : Option String) : ColorMode :=
  match raw with
  | none => .auto
  | some raw =>
    let lower := (Text.trim raw.toList).map Char.toLower
    if lower = ColorMode.always.name.toList then .always
    else if lower = ColorMode.never.name.toList then .never
    else .auto

/-- A request for or against colours wins; without one the mode decides, and in mode `auto`
colours are for terminals. -/
def useColor (request : Option Bool) (mode : ColorMode) (terminal : Bool) : Bool :=
  match request with
  | some wanted => wanted
  | none =>
    match mode with
    | .always => true
    | .never => false
    | .auto => terminal

end Settings
end Lisplet
