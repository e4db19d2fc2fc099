import Lisplet.Proofs.Token.Progress

/-!
What a read takes. Behind the gap in front of it a cursor scans the characters that are there, and
a token is read together with the characters that its span covers.
-/

namespace Lisplet

namespace Cursor

variable {c after : Cursor} {taken rest : List Char} {span : Span}

/-- Behind the gap in front of it a cursor takes these characters, and the span covers them. -/
structure Takes (c : Cursor) (taken : List Char) (span : Span) (after : Cursor) : Prop where
  ahead : c.skipGaps.rest = taken ++ after.rest
  after_eq : after = c.skipGaps.move taken.length
  span_eq : span = ⟨c.skipGaps.offset, after.offset, c.source⟩
  text_eq : span.text = String.ofList taken

theorem rest_move (ahead : c.skipGaps.rest = taken ++ rest) :
    (c.skipGaps.move taken.length).rest = rest := by
  simp [move, ahead]

theorem takes_move (ahead : c.skipGaps.rest = taken ++ rest) :
    c.Takes taken ⟨c.skipGaps.offset, c.skipGaps.offset + taken.length, c.source⟩
      (c.skipGaps.move taken.length) where
  ahead := by rw [rest_move ahead, ahead]
  after_eq := rfl
  span_eq := rfl
  text_eq := @text_eq c.skipGaps [] taken rest ahead

theorem read_of_ahead {x : Char} (ahead : c.skipGaps.rest = x :: rest) :
    c.read = (some ((Scan.scan x rest).located c.source c.skipGaps.offset),
      c.skipGaps.move (Scan.scan x rest).length) := by
  simp only [read, ahead]
  cases Scan.scan x rest <;> rfl

theorem read_of_end (ahead : c.skipGaps.rest = []) : c.read = (none, c.skipGaps) := by
  simp only [read, ahead]

/-- A token is read where it is scanned from the characters that the read takes. -/
theorem read_token_iff {kind : Token.Kind} :
    c.read = (some (.ok ⟨kind, span⟩), after) ↔
      ∃ x cs, c.Takes (x :: cs) span after ∧
        Scan.scan x (cs ++ after.rest) = .token kind (cs.length + 1) := by
  constructor
  · intro read
    cases ahead : c.skipGaps.rest with
    | nil =>
      rw [read_of_end ahead] at read
      cases read
    | cons x rest =>
      rw [read_of_ahead ahead] at read
      have within := Scan.length_scan_le x rest
      have some := Scan.length_scan_pos x rest
      rcases scanned : Scan.scan x rest with ⟨kind', length⟩ | ⟨f, start, stop, length⟩
      · rw [scanned] at read within some
        cases read
        obtain ⟨n, rfl⟩ := Nat.exists_eq_add_one.mpr some
        have count : (rest.take n).length = n :=
          List.length_take_of_le (Nat.le_of_succ_le_succ within)
        have whole : c.skipGaps.rest = x :: rest.take n ++ rest.drop n := by simp [ahead]
        have takes := takes_move whole
        have behind := rest_move whole
        simp only [List.length_cons, count] at takes behind
        refine ⟨x, rest.take n, takes, ?_⟩
        rw [count, Scan.length, behind, List.take_append_drop, scanned]
      · rw [scanned] at read
        cases read
  · rintro ⟨x, cs, takes, scanned⟩
    have ahead : c.skipGaps.rest = x :: (cs ++ after.rest) := takes.ahead
    rw [read_of_ahead ahead, scanned, takes.span_eq, takes.after_eq]
    rfl

end Cursor
end Lisplet
