import Lisplet.Error.Basic
import Lisplet.Value.Debug

/-!
The journal of a session: what reading and evaluating report on the way, for those who debug
programs. Nothing in a program can see it.
-/

namespace Lisplet

inductive Event where
  | lexFailed (e : LexError)
  | parsed (forms : Nat)
  | contextCreated (bindings : Nat)
  | depthReached (limit : Int) (span : Span)
  | functionDefined (name : Symbol) (params : Nat)
  | constantDefined (name : Symbol)
  | formFailed (span : Span) (e : EvalError)

namespace Event

def message : Event → String
  | lexFailed e =>
    "lexer error at " ++ toString e.span.start ++ ".." ++ toString e.span.stop ++ ": " ++
      e.fault.message
  | parsed forms => "parsed " ++ toString forms ++ " top-level form(s)"
  | contextCreated bindings => "context created with " ++ toString bindings ++ " builtins"
  | depthReached limit span => "depth limit " ++ toString limit ++ " reached at " ++ span.debug
  | functionDefined name params =>
    "defined fn " ++ name.display ++ " with " ++ toString params ++ " parameter(s)"
  | constantDefined name => "defined const " ++ name.display
  | formFailed span e => "form at " ++ span.debug ++ " failed: " ++ e.fault.message

/-- What reading a source reports, given what it comes to. -/
def ofParse : Except ParseError (List Node) → List Event
  | .ok forms => [parsed forms.length]
  | .error ⟨.lexical fault, span⟩ => [lexFailed ⟨fault, span⟩]
  | .error _ => []

end Event
end Lisplet
