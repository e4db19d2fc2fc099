import Lisplet.Text.Quoted
import Lisplet.Value.Display

/-!
The debug form of values, which tells every kind of value apart and shows what a callable takes
and holds.
-/

namespace Lisplet

namespace Symbol

def debug (s : Symbol) : String := "Symbol(" ++ Text.quoted s.name ++ ")"

end Symbol

namespace Keyword

def debug (k : Keyword) : String := "Keyword(" ++ Text.quoted k.name ++ ")"

end Keyword

namespace Atom

def debug : Atom → String
  | number x => Number.debug x
  | bool true => "True"
  | bool false => "False"
  | string s => Text.quoted s
  | char c => "Char(" ++ Text.quoted c.toString ++ ")"
  | symbol s => s.debug
  | keyword k => k.debug
  | nil => "nil"

end Atom

namespace Shape

/-- Square brackets around the items; a vector is named. -/
def debugFrame : Shape → String → String
  | list, items => "[" ++ items ++ "]"
  | vector, items => "Vector([" ++ items ++ "])"

end Shape

namespace Value

def displayParams (params : List Symbol) : String :=
  "(" ++ " ".intercalate (params.map Symbol.display) ++ ")"

mutual
def debug : Value → String
  | atom a => a.debug
  | seq shape items => shape.debugFrame (debugItems items)
  | builtin name _ => "<builtin " ++ name.display ++ ">"
  | fn name params _ => "<fn " ++ name.display ++ " " ++ displayParams params ++ ">"
  | closure captured params _ =>
    "<closure " ++ displayParams params ++ " over " ++ captured.display ++ ">"

/-- The debug forms of the items of a sequence, with commas between them. -/
def debugItems : List Value → String
  | [] => ""
  | [v] => debug v
  | v :: w :: vs => debug v ++ ", " ++ debugItems (w :: vs)
end

end Value

namespace Scope

def debug (scope : Scope Value) : String := "<Scope " ++ scope.display ++ ">"

end Scope

namespace Span

def debug (span : Span) : String :=
  "Span(" ++ toString span.start ++ ".." ++ toString span.stop ++ ")"

end Span

namespace Source

def debug (source : Source) : String :=
  "Source(name=" ++ (source.name.map Text.quoted).getD "None" ++
    ", length=" ++ toString source.length ++ ")"

end Source
end Lisplet
