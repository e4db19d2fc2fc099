import Lisplet.Token.Cursor

/-!
What one read does. Its first character decides which literal it reads, and the literal decides
what kind of token comes of it.
-/

namespace Lisplet

namespace Scan

def outcome : Scan → Except LexFault Token.Kind
  | token kind _ => .ok kind
  | fault e _ _ _ => .error e

/-- What is read behind a first character, with all that the character is or is not. -/
inductive Reading (c : Char) (rest : List Char) : Scan → Prop where
  | bracket {kind} : bracket? c = some kind → Reading c rest (token kind 1)
  | number : bracket? c = none → startsNumber c rest → Reading c rest (number (c :: word rest))
  | comment : c = ';' → Reading c rest (comment rest)
  | keyword : c = ':' → Reading c rest (keyword rest)
  | string : c = '"' → Reading c rest (string rest)
  | char : c = '\x27' → Reading c rest (char rest)
  | symbol : bracket? c = none → c ≠ ';' → (c ≠ ':' ∧ c ≠ '"' ∧ c ≠ '\x27') →
      startsNumber c rest = false → Reading c rest (symbol (c :: word rest))

theorem reading (c : Char) (rest : List Char) : Reading c rest (scan c rest) := by
  rw [scan]
  split
  · rename_i kind found
    exact .bracket found
  · rename_i bracket
    by_cases digits : startsNumber c rest
    · rw [if_pos digits]
      exact .number bracket digits
    by_cases semicolon : c = ';'
    · rw [if_neg digits, if_pos semicolon]
      exact .comment semicolon
    by_cases colon : c = ':'
    · rw [if_neg digits, if_neg semicolon, if_pos colon]
      exact .keyword colon
    by_cases quotes : c = '"'
    · rw [if_neg digits, if_neg semicolon, if_neg colon, if_pos quotes]
      exact .string quotes
    by_cases quote : c = '\x27'
    · rw [if_neg digits, if_neg semicolon, if_neg colon, if_neg quotes, if_pos quote]
      exact .char quote
    · rw [if_neg digits, if_neg semicolon, if_neg colon, if_neg quotes, if_neg quote]
      exact .symbol bracket semicolon ⟨colon, quotes, quote⟩ (Bool.eq_false_iff.mpr digits)

/-- The text of a body that is closed. -/
def Body.text? : Body → Option (List Char)
  | closed text _ => some text
  | _ => none

variable {cs : List Char} {kind : Token.Kind}

theorem number_outcome (read : (number cs).outcome = .ok kind) :
    ∃ x, kind = .atom (.number x) := by
  rw [number] at read
  split at read
  · cases read
    exact ⟨_, rfl⟩
  · cases read

theorem string_outcome (read : (string cs).outcome = .ok kind) :
    ∃ text, kind = .atom (.string (String.ofList text)) ∧ (body cs).text? = some text := by
  rw [string] at read
  split at read
  · rename_i text length closed
    dsimp only at read
    split at read
    · cases read
      exact ⟨text, rfl, by rw [closed]; rfl⟩
    · cases read
  · cases read
  · cases read

theorem closeChar_outcome {c : Char} {length : Nat}
    (read : (closeChar c length cs).outcome = .ok kind) : kind = .atom (.char c) := by
  unfold closeChar at read
  split at read
  · cases read
  · dsimp only at read
    split at read
    · cases read
      rfl
    · cases read

theorem char_outcome (read : (char cs).outcome = .ok kind) : ∃ c, kind = .atom (.char c) := by
  unfold char at read
  split at read
  · cases read
  · cases read
  · split at read
    · exact ⟨_, closeChar_outcome read⟩
    · cases read
  · split at read
    · cases read
    · exact ⟨_, closeChar_outcome read⟩

end Scan
end Lisplet
