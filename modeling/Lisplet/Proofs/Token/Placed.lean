import Lisplet.Proofs.Token.Reading

/-!
Where tokens stand. Every token that is read lies in the source it is read from, and a bracket
takes exactly one character.
-/

namespace Lisplet

/-- A token of the source; if it is a bracket, it is one character long. -/
structure Token.Placed (source : Source) (t : Token) : Prop where
  source_eq : t.span.source = source
  opening_length : ∀ shape, t.kind = .opening shape → t.span.stop = t.span.start + 1
  closing_length : ∀ shape, t.kind = .closing shape → t.span.stop = t.span.start + 1

namespace Scan

variable {c : Char} {rest : List Char} {kind : Token.Kind} {length : Nat}

/-- A token that is no bracket and no comment is an atom. -/
theorem scan_token_cases (read : scan c rest = token kind length) :
    (bracket? c = some kind ∧ length = 1) ∨ (c = ';' ∧ comment rest = token kind length) ∨
      ∃ a, kind = .atom a := by
  have reading := reading c rest
  rw [read] at reading
  generalize found : token kind length = scanned at reading
  have outcome : scanned.outcome = .ok kind := by
    rw [← found]
    rfl
  cases reading with
  | bracket known =>
    cases found
    exact .inl ⟨known, rfl⟩
  | comment semicolon => exact .inr (.inl ⟨semicolon, rfl⟩)
  | keyword _ | symbol _ _ _ _ =>
    cases found
    exact .inr (.inr ⟨_, rfl⟩)
  | number _ _ =>
    obtain ⟨x, rfl⟩ := number_outcome outcome
    exact .inr (.inr ⟨_, rfl⟩)
  | string _ =>
    obtain ⟨text, rfl, -⟩ := string_outcome outcome
    exact .inr (.inr ⟨_, rfl⟩)
  | char _ =>
    obtain ⟨d, rfl⟩ := char_outcome outcome
    exact .inr (.inr ⟨_, rfl⟩)

/-- A bracket is read from one character. -/
theorem scan_bracket {shape : Shape} (read : scan c rest = token kind length)
    (bracket : kind = .opening shape ∨ kind = .closing shape) :
    bracket? c = some kind ∧ length = 1 := by
  rcases scan_token_cases read with known | ⟨-, comment⟩ | ⟨a, rfl⟩
  · exact known
  · cases comment
    simp at bracket
  · simp at bracket

end Scan

namespace Cursor

theorem located_placed (c : Cursor) {char : Char} {rest : List Char} {t : Token}
    (found : c.located (Scan.scan char rest) = .ok t) : t.Placed c.source := by
  rcases read : Scan.scan char rest with ⟨kind, length⟩ | ⟨fault, start, stop, length⟩
  · rw [read] at found
    cases found
    exact ⟨rfl, fun shape bracket => by rw [(Scan.scan_bracket read (.inl bracket)).2],
      fun shape bracket => by rw [(Scan.scan_bracket read (.inr bracket)).2]⟩
  · rw [read] at found
    cases found

theorem lexemes_of_none {c after : Cursor} (ended : c.read = (none, after)) : c.lexemes = [] := by
  rw [lexemes]
  split
  · rfl
  · rename_i found _ read
    rw [ended] at read
    cases read

theorem lexemes_of_some {c after : Cursor} {found : Except LexError Token}
    (read : c.read = (some found, after)) : c.lexemes = found :: after.lexemes := by
  rw [lexemes]
  split
  · rename_i ended
    rw [read] at ended
    cases ended
  · rename_i found' after' read'
    rw [read] at read'
    cases read'
    rfl

theorem read_placed {c after : Cursor} {found : Except LexError Token}
    (read : c.read = (some found, after)) :
    after.source = c.source ∧ ∀ t, found = .ok t → t.Placed c.source := by
  unfold Cursor.read at read
  dsimp only at read
  split at read
  · cases read
  · cases read
    exact ⟨rfl, fun t located => located_placed c.skipGaps located⟩

theorem lexemes_placed (c : Cursor) : ∀ t, .ok t ∈ c.lexemes → t.Placed c.source := by
  induction c using lexemes.induct with
  | case1 c after ended =>
    rw [lexemes_of_none ended]
    intro t member
    cases member
  | case2 c found after read ih =>
    obtain ⟨sameSource, placed⟩ := read_placed read
    rw [lexemes_of_some read]
    intro t member
    rcases List.mem_cons.mp member with same | later
    · exact placed t same.symm
    · exact sameSource ▸ ih t later

end Cursor

/-- All that is read from a source. -/
def Source.lexemes (source : Source) : List (Except LexError Token) :=
  (Cursor.atStart source).lexemes

end Lisplet
