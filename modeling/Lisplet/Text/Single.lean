import Lisplet.Text.Quoted

/-!
Characters from outside a program, given as texts that must hold exactly one of them.
-/

namespace Lisplet.Text

/-- Why something is no character: it is no text at all but of some other type, or a text of
another length. -/
inductive SingleFault where
  | notText (type : String)
  | notSingle (text : String)
deriving DecidableEq

namespace SingleFault

def message : SingleFault → String
  | notText type => "Char expects a str, got " ++ type
  | notSingle text => "Char expects exactly one character, got " ++ quoted text

end SingleFault

/-- The character of a text that holds just one. -/
def single (text : String) : Except SingleFault Char :=
  match text.toList with
  | [c] => .ok c
  | _ => .error (.notSingle text)

end Lisplet.Text
