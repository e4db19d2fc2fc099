import Lisplet.Atom
import Lisplet.Source.Span

/-!
Tokens, and the faults that stop a token from being read.
-/

namespace Lisplet

namespace Token

inductive Kind where
  | opening (shape : Shape)
  | closing (shape : Shape)
  /-- A comment carries its text without the semicolon. -/
  | comment (text : String)
  | atom (a : Atom)
deriving DecidableEq

end Token

structure Token where
  kind : Token.Kind
  span : Span
deriving DecidableEq

/-- Why no token stands where one was to be read. -/
inductive LexFault where
  | invalidNumber (word : String)
  | invalidEscape (char : String)
  | invalidString
  | unclosedString
  | invalidChar
  | unclosedChar
deriving DecidableEq

namespace LexFault

def message : LexFault → String
  | invalidNumber word => "`" ++ word ++ "` is not a valid numeric literal"
  | invalidEscape char => "Unknown escape sequence `\\" ++ char ++ "` in string"
  | invalidString => "Invalid string literal"
  | unclosedString => "Unclosed string literal"
  | invalidChar => "Invalid character literal"
  | unclosedChar => "Unclosed character literal"

end LexFault

/-- A fault and the part of the text that shows it. -/
structure LexError where
  fault : LexFault
  span : Span
deriving DecidableEq

end Lisplet
