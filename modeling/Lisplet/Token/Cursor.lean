import Lisplet.Token.Scan

/-!
Reading a source token by token. A cursor only moves forward; after an error it stands behind
what was wrong, and reading can go on from there.
-/

namespace Lisplet

/-- A place in a source and the characters from there on. -/
structure Cursor where
  source : Source
  offset : Nat
  rest : List Char
  rest_eq : rest = source.chars.drop offset

namespace Cursor

def atStart (source : Source) : Cursor := ⟨source, 0, source.chars, rfl⟩

/-- The same place under another name for the source. -/
def setName (c : Cursor) (name : String) : Cursor :=
  { c with source := { c.source with name := some name } }

def current? (c : Cursor) : Option Char := c.rest.head?

def peek? (c : Cursor) (n : Nat) : Option Char := c.rest[n]?

def move (c : Cursor) (n : Nat) : Cursor :=
  ⟨c.source, c.offset + n, c.rest.drop n, by rw [c.rest_eq, List.drop_drop]⟩

/-- Passes one character; at the end there is none to pass. -/
def advance (c : Cursor) : Option Char × Cursor :=
  match c.rest with
  | [] => (none, c)
  | char :: _ => (some char, c.move 1)

/-- Passes the characters up to the next separator. -/
def readWord (c : Cursor) : String × Cursor :=
  let w := Scan.word c.rest
  (String.ofList w, c.move w.length)

def atSeparator (c : Cursor) : Bool := c.current?.any Scan.isSeparator

def span (c : Cursor) : Span := .emptyAt c.source c.offset

def spanFrom (c : Cursor) (start : Nat) : Span := ⟨start, c.offset, c.source⟩

def skipGaps (c : Cursor) : Cursor := c.move (c.rest.takeWhile Scan.isGap).length

/-- What a scan found, in its place in the source. -/
def located (c : Cursor) : Scan → Except LexError Token
  | .token kind length => .ok ⟨kind, c.offset, c.offset + length, c.source⟩
  | .fault fault start stop _ => .error ⟨fault, c.offset + start, c.offset + stop, c.source⟩

/-- Reads the next token, skipping the gap before it. At the end there is none. -/
def read (c : Cursor) : Option (Except LexError Token) × Cursor :=
  let c := c.skipGaps
  match c.rest with
  | [] => (none, c)
  | char :: rest =>
    let found := Scan.scan char rest
    (some (c.located found), c.move found.length)

theorem rest_skipGaps (c : Cursor) : c.skipGaps.rest = c.rest.dropWhile Scan.isGap := by
  show c.rest.drop (c.rest.takeWhile Scan.isGap).length = _
  generalize c.rest = cs
  induction cs with
  | nil => rfl
  | cons a cs ih => by_cases h : Scan.isGap a <;> simp [h, ih]

/-- A read that finds something leaves less to read. -/
theorem length_read_lt {c after : Cursor} {found : Except LexError Token}
    (h : c.read = (some found, after)) : after.rest.length < c.rest.length := by
  unfold read at h
  dsimp only at h
  split at h
  · simp at h
  · rename_i char rest eq
    obtain ⟨-, rfl⟩ := Prod.mk.injEq .. ▸ h
    have shorter : c.skipGaps.rest.length ≤ c.rest.length := by
      rw [rest_skipGaps]; exact (List.dropWhile_sublist _).length_le
    have := Scan.length_scan_pos char rest
    simp only [move, List.length_drop]
    rw [eq, List.length_cons] at shorter ⊢
    omega

/-- All that the remaining reads find, going on after errors. -/
def lexemes (c : Cursor) : List (Except LexError Token) :=
  match _ : c.read with
  | (none, _) => []
  | (some found, after) => found :: lexemes after
termination_by c.rest.length
decreasing_by exact length_read_lt ‹_›

end Cursor
end Lisplet
