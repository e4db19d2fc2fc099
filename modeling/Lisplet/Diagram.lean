import Lisplet.Error.Basic

/-!
Diagrams of errors. The line on which an error starts is quoted under its place, and carets mark
the part of it that the error's span covers, at least one. Lines and columns are counted from
one here.
-/

namespace Lisplet

namespace Diagram

/-- The terminal codes of a colour; text is put between a code and the reset. -/
structure Paint where
  code : String

def gutterPaint : Paint := ⟨"\x1b[1;36m"⟩

def caretPaint : Paint := ⟨"\x1b[1;31m"⟩

def messagePaint : Paint := ⟨"\x1b[1m"⟩

def Paint.apply (paint : Paint) (colored : Bool) (text : String) : String :=
  if colored then paint.code ++ text ++ "\x1b[0m" else text

/-- A text in the middle of a field, an odd blank standing behind it. -/
def centered (width : Nat) (text : String) : String :=
  let room := width - text.length
  String.ofList (List.replicate (room / 2) ' ') ++ text ++
    String.ofList (List.replicate (room - room / 2) ' ')

/-- The name of a source without a name. -/
def defaultName : String := "<input>"

def displayName (source : Source) : String :=
  match source.name with
  | some name => if name.isEmpty then defaultName else name
  | none => defaultName

/-- How many characters of its first line a span covers, and at least one. -/
def caretCount (span : Span) (line : String) : Nat :=
  let start := span.location
  let stop := span.endLocation
  let width :=
    if stop.line = start.line then stop.column - start.column
    else (line.length : Int) - start.column
  max width.toNat 1

/-- The rows of a diagram, given the line that the span starts on. -/
def rows (message : String) (span : Span) (line : String) (colored : Bool) : List String :=
  let start := span.location
  let gutter := gutterPaint.apply colored "    |"
  let number := centered 4 (toString (start.line + 1)) ++ "|"
  [gutterPaint.apply colored "   -->" ++ " " ++ displayName span.source ++ ":" ++
      toString (start.line + 1) ++ ":" ++ toString (start.column + 1),
    gutter,
    gutterPaint.apply colored number ++ " " ++ line,
    gutter ++ " " ++ String.ofList (List.replicate start.column.toNat ' ') ++
      caretPaint.apply colored (String.ofList (List.replicate (caretCount span line) '^')) ++
      " " ++ messagePaint.apply colored message]

end Diagram

/-- The diagram of an error. A span that starts behind the end of its text has none. -/
def Error.diagram? (e : Error) (colored : Bool) : Option String :=
  (e.span.source.getLine? e.span.location.line).map fun line =>
    "\n".intercalate (Diagram.rows e.message e.span line colored)

end Lisplet
