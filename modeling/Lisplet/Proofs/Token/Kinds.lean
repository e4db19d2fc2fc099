import Lisplet.Proofs.Token.Placed

/-!
What a text reads as. The kinds of its tokens depend on the characters alone, so a text that is
put together from words and brackets reads as what its parts read as.
-/

namespace Lisplet

namespace Scan

/-- The kinds of the tokens of a text, with the faults in their places. -/
def kinds : List Char → List (Except LexFault Token.Kind)
  | [] => []
  | c :: rest =>
    if isGap c then kinds rest
    else (scan c rest).outcome :: kinds ((c :: rest).drop (scan c rest).length)
termination_by cs => cs.length
decreasing_by
  · simp
  · have := length_scan_pos c rest
    simp only [List.length_drop, List.length_cons]
    omega

theorem kinds_gap {c : Char} {rest : List Char} (gap : isGap c) :
    kinds (c :: rest) = kinds rest := by
  rw [kinds, if_pos gap]

theorem kinds_cons {c : Char} {rest : List Char} (solid : isGap c = false) :
    kinds (c :: rest) =
      (scan c rest).outcome :: kinds ((c :: rest).drop (scan c rest).length) := by
  rw [kinds, if_neg (by simp [solid])]

theorem isGap_of_dropWhile {c : Char} {cs rest : List Char}
    (ahead : cs.dropWhile isGap = c :: rest) : isGap c = false := by
  have first := List.head?_dropWhile_not isGap cs
  rw [ahead] at first
  simpa using first

theorem kinds_dropWhile (cs : List Char) : kinds (cs.dropWhile isGap) = kinds cs := by
  induction cs with
  | nil => rfl
  | cons c cs ih =>
    by_cases gap : isGap c
    · rw [List.dropWhile_cons_of_pos gap, kinds_gap gap, ih]
    · rw [List.dropWhile_cons_of_neg gap]

/-- A token that is read from a text with more behind it. -/
theorem kinds_token {c : Char} {cs rest : List Char} {kind : Token.Kind} (solid : isGap c = false)
    (read : scan c (cs ++ rest) = token kind (cs.length + 1)) :
    kinds (c :: cs ++ rest) = .ok kind :: kinds rest := by
  rw [List.cons_append, kinds_cons solid, read, length, List.drop_succ_cons, List.drop_left]
  rfl

end Scan

namespace Token

/-- A lexeme without its place. -/
def outcome : Except LexError Token → Except LexFault Kind
  | .ok t => .ok t.kind
  | .error e => .error e.fault

/-- The kinds of the tokens that are read as them. -/
theorem exists_of_outcomes {lexemes : List (Except LexError Token)} {kinds : List Kind}
    (read : lexemes.map outcome = kinds.map .ok) :
    ∃ tokens : List Token, lexemes = tokens.map .ok ∧ tokens.map kind = kinds := by
  induction lexemes generalizing kinds with
  | nil =>
    obtain rfl := List.map_eq_nil_iff.mp read.symm
    exact ⟨[], rfl, rfl⟩
  | cons lexeme rest ih =>
    obtain ⟨kind, kinds, rfl, first, others⟩ := List.map_eq_cons_iff.mp read.symm
    obtain ⟨tokens, rfl, same⟩ := ih others.symm
    cases lexeme with
    | error e => cases first
    | ok t =>
      cases first
      exact ⟨t :: tokens, rfl, by rw [List.map_cons, same]⟩

def Kind.isComment : Kind → Bool
  | comment _ => true
  | _ => false

/-- The kinds of the tokens that make nodes. -/
def Kind.significant (kinds : List Kind) : List Kind := kinds.filter fun kind => !kind.isComment

end Token

namespace Cursor

theorem outcome_located (c : Cursor) (found : Scan) :
    Token.outcome (c.located found) = found.outcome := by
  cases found <;> rfl

theorem read_kinds {c after : Cursor} {found : Except LexError Token}
    (read : c.read = (some found, after)) :
    Scan.kinds c.rest = Token.outcome found :: Scan.kinds after.rest := by
  unfold Cursor.read at read
  dsimp only at read
  split at read
  · cases read
  · rename_i char rest ahead
    cases read
    rw [rest_skipGaps] at ahead
    rw [outcome_located, ← Scan.kinds_dropWhile, ahead,
      Scan.kinds_cons (Scan.isGap_of_dropWhile ahead)]
    show _ = _ :: Scan.kinds (c.skipGaps.rest.drop _)
    rw [rest_skipGaps, ahead]

theorem lexemes_kinds (c : Cursor) : c.lexemes.map Token.outcome = Scan.kinds c.rest := by
  induction c using lexemes.induct with
  | case1 c after ended =>
    rw [lexemes_of_none ended]
    unfold Cursor.read at ended
    dsimp only at ended
    split at ended
    · rename_i ahead
      rw [rest_skipGaps] at ahead
      rw [← Scan.kinds_dropWhile, ahead]
      simp [Scan.kinds]
    · cases ended
  | case2 c found after read ih =>
    rw [lexemes_of_some read, List.map_cons, ih, read_kinds read]

end Cursor

theorem Source.lexemes_kinds (source : Source) :
    source.lexemes.map Token.outcome = Scan.kinds source.chars := Cursor.lexemes_kinds _

namespace Scan

/-- The text reads as tokens of these kinds, with comments anywhere between them. -/
def Reads (cs : List Char) (kinds : List Token.Kind) : Prop :=
  ∃ all : List Token.Kind, Scan.kinds cs = all.map .ok ∧ Token.Kind.significant all = kinds

theorem Reads.head {cs : List Char} {expected : List Token.Kind} (reads : Reads cs expected)
    {found : Except LexFault Token.Kind} {others : List (Except LexFault Token.Kind)}
    (read : Scan.kinds cs = found :: others) :
    ∃ kind, found = .ok kind ∧ (kind.isComment = false → ∃ tail, expected = kind :: tail) := by
  obtain ⟨all, same, rfl⟩ := reads
  obtain ⟨kind, tail, rfl, rfl, -⟩ := List.map_eq_cons_iff.mp (same.symm.trans read)
  refine ⟨kind, rfl, fun kept => ?_⟩
  exact ⟨_, List.filter_cons_of_pos (by simp [kept])⟩

theorem Reads.tail {cs rest : List Char} {kind : Token.Kind} {expected : List Token.Kind}
    (reads : Reads cs expected) (kept : kind.isComment = false)
    (read : Scan.kinds cs = .ok kind :: Scan.kinds rest) :
    ∃ tail, expected = kind :: tail ∧ Reads rest tail := by
  obtain ⟨all, same, rfl⟩ := reads
  obtain ⟨kind', tail, rfl, same', others⟩ := List.map_eq_cons_iff.mp (same.symm.trans read)
  cases same'
  exact ⟨_, List.filter_cons_of_pos (by simp [kept]), tail, others.symm, rfl⟩

end Scan

end Lisplet
