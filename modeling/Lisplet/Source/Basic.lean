/-!
Source texts and places in them. An offset counts characters from the start of the text; a
location counts lines and columns, both from zero. A line ends before each newline and at the
end of the text.
-/

namespace Lisplet

/-- A text and the name it is reported under. The serial number tells apart two sources that
hold the same text. -/
structure Source where
  text : String
  name : Option String
  serial : Nat
deriving DecidableEq

/-- A line and a column; the column of a place before the text is negative. -/
structure Location where
  line : Nat
  column : Int
deriving DecidableEq

namespace Source

def ofText (text : String) (name : Option String) : Source := ⟨text, name, 0⟩

def chars (source : Source) : List Char := source.text.toList

def length (source : Source) : Nat := source.chars.length

/-- The offsets of the newlines in `cs`, the first character standing at `offset`. -/
def newlinesFrom (offset : Nat) : List Char → List Nat
  | [] => []
  | c :: cs => if c = '\n' then offset :: newlinesFrom (offset + 1) cs
      else newlinesFrom (offset + 1) cs

/-- Where each line ends: at every newline, then at the end of the text. -/
def lineEnds (source : Source) : List Nat :=
  newlinesFrom 0 source.chars ++ [source.length]

/-- Where the line after the given ends starts. -/
def startAfter (ends : List Nat) : Nat :=
  match ends.getLast? with
  | none => 0
  | some last => last + 1

/-- The line of an offset counts the line ends before it; the column counts from the line's
start. Offsets outside the text have a location too. -/
def location (source : Source) (offset : Int) : Location :=
  let before := source.lineEnds.takeWhile fun (e : Nat) => (e : Int) < offset
  ⟨before.length, offset - startAfter before⟩

/-- The characters from `start` up to `stop`, as far as the text has them. -/
def slice (source : Source) (start stop : Nat) : String :=
  String.ofList ((source.chars.take stop).drop start)

/-- The line of a number, without its newline; there is none past the last line. -/
def getLine? (source : Source) (line : Nat) : Option String :=
  (source.lineEnds[line]?).map fun stop =>
    source.slice (startAfter (source.lineEnds.take line)) stop

end Source
end Lisplet
