import Lisplet.Node.Basic
import Lisplet.Value.Display
import Lisplet.Value.Equality

/-!
What can go wrong in a program, from reading its text to evaluating it. Every error has a cause
and the span it is reported at; the sentence for the user is made from the cause alone.
-/

namespace Lisplet

/-- Why an evaluation has no value. -/
inductive EvalFault where
  | unknownSymbol (name : Symbol)
  | missingArguments
  | tooManyArguments
  | invalidFunction (value : Value)
  | invalidArgument (value : Value)
  | depthExceeded (limit : Int)

namespace EvalFault

def message : EvalFault → String
  | unknownSymbol name => "Could not resolve symbol '" ++ name.display ++ "' in scope"
  | missingArguments => "Function is missing arguments"
  | tooManyArguments => "Function has extra arguments"
  | invalidFunction value => "`" ++ value.display ++ "` is not a function"
  | invalidArgument value =>
    "`" ++ value.display ++ "` is not a valid argument for this function"
  | depthExceeded limit => "Maximum recursion depth of " ++ toString limit ++ " exceeded"

/-- The same fault with equal values. -/
def isEqual : EvalFault → EvalFault → Bool
  | unknownSymbol a, unknownSymbol b => decide (a = b)
  | missingArguments, missingArguments => true
  | tooManyArguments, tooManyArguments => true
  | invalidFunction v, invalidFunction w => v.isEqual w
  | invalidArgument v, invalidArgument w => v.isEqual w
  | depthExceeded m, depthExceeded n => decide (m = n)
  | _, _ => false

end EvalFault

structure EvalError where
  fault : EvalFault
  span : Span

/-- An error of any stage. -/
inductive Error where
  | lex (e : LexError)
  | parse (e : ParseError)
  | eval (e : EvalError)

namespace Error

def span : Error → Span
  | lex e => e.span
  | parse e => e.span
  | eval e => e.span

def message : Error → String
  | lex e => e.fault.message
  | parse e => e.fault.message
  | eval e => e.fault.message

/-- The same fault at the same place. -/
def isEqual : Error → Error → Bool
  | lex a, lex b => decide (a.fault = b.fault) && a.span.same b.span
  | parse a, parse b => decide (a.fault = b.fault) && a.span.same b.span
  | eval a, eval b => a.fault.isEqual b.fault && a.span.same b.span
  | _, _ => false

end Error
end Lisplet
