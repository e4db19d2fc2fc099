import Lisplet.Number.Literal
import Lisplet.Token.Basic

/-!
What stands at the head of a text. A scan looks at the characters alone: positions are counted
from the head, so a token reads the same wherever its characters stand.
-/

namespace Lisplet

/-- The outcome of one read, `length` characters long. A fault blames the characters from `start`
up to `stop`; a token covers all of them. -/
inductive Scan where
  | token (kind : Token.Kind) (length : Nat)
  | fault (fault : LexFault) (start stop length : Nat)

namespace Scan

def length : Scan → Nat
  | token _ length => length
  | fault _ _ _ length => length

def isSpace (c : Char) : Bool :=
  c = ' ' || c = '\t' || c = '\n' || c = '\r' || c = '\x0b' || c = '\x0c'

/-- What may stand between tokens and is otherwise ignored. -/
def isGap (c : Char) : Bool := isSpace c || c = ','

/-- What ends a word. -/
def isSeparator (c : Char) : Bool :=
  isGap c || c = '(' || c = ')' || c = '[' || c = ']' || c = ';'

/-- The characters up to the first separator. -/
def word (cs : List Char) : List Char := cs.takeWhile fun c => !isSeparator c

def bracket? : Char → Option Token.Kind
  | '(' => some (.opening .list)
  | ')' => some (.closing .list)
  | '[' => some (.opening .vector)
  | ']' => some (.closing .vector)
  | _ => none

/-- What a character stands for after a backslash. -/
def unescape? : Char → Option Char
  | '"' => some '"'
  | '\\' => some '\\'
  | 'n' => some '\n'
  | 'e' => some '\x1b'
  | _ => none

/-- A number starts with a digit or with a sign directly before a digit. -/
def startsNumber (c : Char) (rest : List Char) : Bool :=
  c.isDigit || ((c = '+' || c = '-') && (rest.head?.any Char.isDigit))

def number (w : List Char) : Scan :=
  match Number.read? w with
  | some x => token (.atom (.number x)) w.length
  | none => fault (.invalidNumber (String.ofList w)) 0 w.length w.length

def comment (rest : List Char) : Scan :=
  let text := rest.takeWhile (· != '\n')
  token (.comment (String.ofList text)) (text.length + 1)

def keyword (rest : List Char) : Scan :=
  let name := word rest
  token (.atom (.keyword ⟨String.ofList name⟩)) (name.length + 1)

/-- What follows an opening double quote: a text that is closed after `length` characters, an
escape that stands for nothing, or the end of the input. -/
inductive Body where
  | closed (text : List Char) (length : Nat)
  | badEscape (char : Char) (start : Nat)
  | unclosed

/-- The same body behind `count` more characters that stand for `c`. -/
def Body.after (c : Char) (count : Nat) : Body → Body
  | closed text length => closed (c :: text) (length + count)
  | badEscape char start => badEscape char (start + count)
  | unclosed => unclosed

/-- Reads the characters of a string up to its closing quote. -/
def body : List Char → Body
  | [] => .unclosed
  | '"' :: _ => .closed [] 0
  | '\\' :: [] => .unclosed
  | '\\' :: c :: rest =>
    match unescape? c with
    | some d => (body rest).after d 2
    | none => .badEscape c 0
  | c :: rest => (body rest).after c 1

/-- A string literal, read from behind its opening quote. A word right behind its closing quote
spoils it. -/
def string (rest : List Char) : Scan :=
  match body rest with
  | .closed text length =>
    let trailing := word (rest.drop (length + 1))
    let whole := length + 2 + trailing.length
    if trailing.isEmpty then token (.atom (.string (String.ofList text))) whole
    else fault .invalidString 0 whole whole
  | .badEscape c start => fault (.invalidEscape c.toString) (start + 1) (start + 3) (start + 3)
  | .unclosed => fault .unclosedString 0 1 (rest.length + 1)

/-- The end of a character literal for `c`, `length` characters of which are read. -/
def closeChar (c : Char) (length : Nat) : List Char → Scan
  | [] => fault .unclosedChar 0 length length
  | d :: rest =>
    if d = '\x27' then token (.atom (.char c)) (length + 1)
    else
      let whole := length + (word (d :: rest)).length
      fault .invalidChar 0 whole whole

/-- A character literal, read from behind its opening quote. -/
def char : List Char → Scan
  | [] => fault .unclosedChar 0 1 1
  | '\\' :: [] => fault .unclosedChar 0 1 2
  | '\\' :: c :: rest =>
    match unescape? c with
    | some d => closeChar d 3 rest
    | none => fault (.invalidEscape c.toString) 1 3 3
  | c :: rest =>
    if c = '\x27' then
      let whole := 2 + (word rest).length
      fault .invalidChar 0 whole whole
    else closeChar c 2 rest

/-- A word that is nothing else is a literal or a symbol. -/
def wordAtom (w : String) : Atom :=
  if w = "true" then .bool true
  else if w = "false" then .bool false
  else if w = "nil" then .nil
  else .symbol ⟨w⟩

def symbol (w : List Char) : Scan :=
  token (.atom (wordAtom (String.ofList w))) w.length

/-- Reads what starts with `c`, which is no gap. -/
def scan (c : Char) (rest : List Char) : Scan :=
  match bracket? c with
  | some kind => token kind 1
  | none =>
    if startsNumber c rest then number (c :: word rest)
    else if c = ';' then comment rest
    else if c = ':' then keyword rest
    else if c = '"' then string rest
    else if c = '\x27' then char rest
    else symbol (c :: word rest)

theorem length_string_pos (rest : List Char) : 0 < (string rest).length := by
  unfold string
  split
  · dsimp only; split <;> simp only [length] <;> omega
  · simp [length]
  · simp [length]

theorem length_closeChar_pos (c : Char) {n : Nat} (h : 0 < n) (rest : List Char) :
    0 < (closeChar c n rest).length := by
  unfold closeChar
  split
  · exact h
  · dsimp only; split <;> simp only [length] <;> omega

theorem length_char_pos (rest : List Char) : 0 < (char rest).length := by
  unfold char
  split
  · simp [length]
  · simp [length]
  · split
    · exact length_closeChar_pos _ (by omega) _
    · simp [length]
  · split
    · simp only [length]; omega
    · exact length_closeChar_pos _ (by omega) _

/-- Every read takes at least one character. -/
theorem length_scan_pos (c : Char) (rest : List Char) : 0 < (scan c rest).length := by
  unfold scan
  split
  · simp [length]
  · split
    · unfold number; split <;> simp [length]
    split
    · simp [comment, length]
    split
    · simp [keyword, length]
    split
    · exact length_string_pos rest
    split
    · exact length_char_pos rest
    · simp [symbol, length]

end Scan
end Lisplet
