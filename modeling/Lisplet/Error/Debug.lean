import Lisplet.Error.Basic
import Lisplet.Value.Debug

/-!
The debug form of errors: the kind of error, then in brackets what it carries and its span.
-/

namespace Lisplet

namespace LexFault

def kind : LexFault → String
  | invalidNumber _ => "InvalidNumber"
  | invalidEscape _ => "InvalidEscape"
  | invalidString => "InvalidString"
  | unclosedString => "UnclosedString"
  | invalidChar => "InvalidChar"
  | unclosedChar => "UnclosedChar"

def payload? : LexFault → Option String
  | invalidNumber word => some (Text.quoted word)
  | invalidEscape char => some (Text.quoted char)
  | _ => none

end LexFault

namespace ParseFault

def kind : ParseFault → String
  | lexical _ => "ParserLexerError"
  | unexpectedClose => "UnexpectedCloseBracket"
  | unclosed => "UnclosedBracket"
  | unmatched => "UnmatchedBracket"
  | unreachable => "Unreachable"

end ParseFault

namespace EvalFault

def kind : EvalFault → String
  | unknownSymbol _ => "UnknownSymbol"
  | missingArguments => "MissingArguments"
  | tooManyArguments => "TooManyArguments"
  | invalidFunction _ => "InvalidFunction"
  | invalidArgument _ => "InvalidArgument"
  | depthExceeded _ => "RecursionDepthExceeded"

/-- The value that an error about a value carries. -/
def value? : EvalFault → Option Value
  | invalidFunction value => some value
  | invalidArgument value => some value
  | _ => none

def payload? : EvalFault → Option String
  | unknownSymbol name => some name.debug
  | invalidFunction value => some value.debug
  | invalidArgument value => some value.debug
  | depthExceeded limit => some (toString limit)
  | _ => none

end EvalFault

namespace Error

/-- A kind of error with its payload, if it has one, and its span. -/
def frame (kind : String) (payload? : Option String) (span : Span) : String :=
  kind ++ "(" ++ (payload?.map (· ++ ", ")).getD "" ++ span.debug ++ ")"

def kind : Error → String
  | lex e => e.fault.kind
  | parse e => e.fault.kind
  | eval e => e.fault.kind

def debugLex (fault : LexFault) (span : Span) : String := frame fault.kind fault.payload? span

def debug : Error → String
  | lex e => debugLex e.fault e.span
  | parse ⟨.lexical fault, span⟩ =>
    frame (ParseFault.lexical fault).kind (some (debugLex fault span)) span
  | parse e => frame e.fault.kind none e.span
  | eval e => frame e.fault.kind e.fault.payload? e.span

end Error
end Lisplet
