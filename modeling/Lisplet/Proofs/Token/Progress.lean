import Lisplet.Proofs.Token.Seam

/-!
Progress. A read passes a gap and then at least one character, which are the token's or those that
are wrong. So the reads come to the end of every text, and leave nothing of it out.
-/

namespace Lisplet

namespace Scan

/-- A fault blames some of the characters that it takes. -/
def Blames : Scan → Prop
  | token _ _ => True
  | fault _ start stop length => start < stop ∧ stop ≤ length

theorem blames_number {cs : List Char} (some : cs ≠ []) : (number cs).Blames := by
  unfold number
  split
  · trivial
  · exact ⟨List.length_pos_iff.mpr some, Nat.le_refl _⟩

theorem blames_string (rest : List Char) : (string rest).Blames := by
  unfold string
  split
  · dsimp only
    split
    · trivial
    · exact ⟨by omega, Nat.le_refl _⟩
  · simp [Blames]
  · simp [Blames]

theorem blames_closeChar (c : Char) {n : Nat} (some : 0 < n) (rest : List Char) :
    (closeChar c n rest).Blames := by
  unfold closeChar
  split
  · exact ⟨some, Nat.le_refl _⟩
  · dsimp only
    split
    · trivial
    · exact ⟨by omega, Nat.le_refl _⟩

theorem blames_char (rest : List Char) : (char rest).Blames := by
  unfold char
  split
  · simp [Blames]
  · simp [Blames]
  · split
    · exact blames_closeChar _ (by omega) _
    · simp [Blames]
  · split
    · exact ⟨by omega, Nat.le_refl _⟩
    · exact blames_closeChar _ (by omega) _

theorem blames_scan (c : Char) (rest : List Char) : (scan c rest).Blames := by
  have reading := reading c rest
  generalize scan c rest = found at reading
  cases reading with
  | bracket | comment | keyword | symbol => trivial
  | number => exact blames_number (List.cons_ne_nil _ _)
  | string => exact blames_string rest
  | char => exact blames_char rest

end Scan

namespace Cursor

/-- From one cursor to another: first a gap, then the characters that are taken. -/
structure Passes (c : Cursor) (gap taken : List Char) (after : Cursor) : Prop where
  source_eq : after.source = c.source
  rest_eq : c.rest = gap ++ (taken ++ after.rest)
  offset_eq : after.offset = c.offset + gap.length + taken.length
  gap : ∀ d ∈ gap, Scan.isGap d

/-- What a read finds and where it leaves the cursor. A token spans all that is taken, a fault a
part of it; there is neither if nothing is left but a gap. -/
inductive Step (c : Cursor) : Option (Except LexError Token) × Cursor → Prop where
  | ended {gap : List Char} {after : Cursor} : c.Passes gap [] after → after.rest = [] →
      Step c (none, after)
  | token {gap taken : List Char} {t : Token} {after : Cursor} : c.Passes gap taken after →
      taken ≠ [] → t.span = ⟨c.offset + gap.length, after.offset, c.source⟩ →
      Step c (some (.ok t), after)
  | fault {gap taken : List Char} {e : LexError} {after : Cursor} : c.Passes gap taken after →
      taken ≠ [] → e.span.source = c.source → c.offset + gap.length ≤ e.span.start →
      e.span.start < e.span.stop → e.span.stop ≤ after.offset → Step c (some (.error e), after)

theorem passes_move {c : Cursor} {length : Nat} (within : length ≤ c.skipGaps.rest.length) :
    c.Passes (c.rest.takeWhile Scan.isGap) (c.skipGaps.rest.take length)
      (c.skipGaps.move length) := by
  refine ⟨rfl, ?_, ?_, ?_⟩
  · show _ = _ ++ (c.skipGaps.rest.take length ++ c.skipGaps.rest.drop length)
    rw [List.take_append_drop, rest_skipGaps, List.takeWhile_append_dropWhile]
  · rw [List.length_take_of_le within]
    rfl
  · intro d member
    exact List.all_eq_true.mp List.all_takeWhile d member

/-- Every read is such a step. -/
theorem step (c : Cursor) : c.Step c.read := by
  unfold read
  dsimp only
  split
  · rename_i ahead
    exact .ended (passes_move (Nat.zero_le _)) ahead
  · rename_i char rest ahead
    have within : (Scan.scan char rest).length ≤ c.skipGaps.rest.length := by
      rw [ahead]
      exact Scan.length_scan_le char rest
    have passes := passes_move within
    have some : c.skipGaps.rest.take (Scan.scan char rest).length ≠ [] := by
      apply List.ne_nil_of_length_pos
      rw [List.length_take_of_le within]
      exact Scan.length_scan_pos char rest
    have blames := Scan.blames_scan char rest
    generalize Scan.scan char rest = found at passes some blames ⊢
    cases found with
    | token kind length => exact .token passes some rfl
    | fault f start stop length =>
      obtain ⟨some', inside⟩ := blames
      refine .fault passes some rfl (Nat.le_add_right _ _) ?_ ?_
      · exact Nat.add_lt_add_left some' _
      · exact Nat.add_le_add_left inside _

/-- A read that finds something moves the cursor. -/
theorem Step.advances {c after : Cursor} {found : Except LexError Token}
    (step : c.Step (some found, after)) : c.offset < after.offset := by
  have moves {gap taken : List Char} (passes : c.Passes gap taken after) (some : taken ≠ []) :
      c.offset < after.offset := by
    have moved := passes.offset_eq
    have positive := List.length_pos_iff.mpr some
    omega
  cases step with
  | token passes some _ => exact moves passes some
  | fault passes some _ _ _ _ => exact moves passes some

/-- The cursor behind so many reads. -/
def behind (c : Cursor) : Nat → Cursor
  | 0 => c
  | n + 1 => (c.behind n).read.2

theorem read_eq_head? (c : Cursor) : c.read.1 = c.lexemes.head? := by
  rcases read : c.read with ⟨_ | found, after⟩
  · rw [lexemes_of_none read]
    rfl
  · rw [lexemes_of_some read]
    rfl

/-- A cursor that has found nothing finds nothing any more. -/
theorem lexemes_read (c : Cursor) : c.read.2.lexemes = c.lexemes.tail := by
  rcases read : c.read with ⟨_ | found, after⟩
  · have step := c.step
    rw [read] at step
    cases step with
    | ended passes none =>
      rw [lexemes_of_none read, lexemes_eq, none, Scan.lexemes]
      rfl
  · rw [lexemes_of_some read]
    rfl

theorem lexemes_behind (c : Cursor) (n : Nat) : (c.behind n).lexemes = c.lexemes.drop n := by
  induction n with
  | zero => rfl
  | succ n ih => rw [behind, lexemes_read, ih, List.tail_drop]

/-- The read behind so many others finds what `lexemes` lists at its place, and behind the last
one nothing. -/
theorem read_behind (c : Cursor) (n : Nat) : (c.behind n).read.1 = c.lexemes[n]? := by
  rw [read_eq_head?, lexemes_behind, List.head?_drop]

theorem length_lexemes_le (c : Cursor) : c.lexemes.length ≤ c.rest.length := by
  induction c using lexemes.induct with
  | case1 c after ended =>
    rw [lexemes_of_none ended]
    exact Nat.zero_le _
  | case2 c found after read ih =>
    have less := length_read_lt read
    rw [lexemes_of_some read, List.length_cons]
    omega

end Cursor

/-- Characters that are the texts of tokens, with gaps before, between and behind them. -/
inductive Token.Spaced : List Token → List Char → Prop where
  | ended {gap : List Char} : (∀ c ∈ gap, Scan.isGap c) → Spaced [] gap
  | token {gap rest : List Char} {t : Token} {tokens : List Token} : (∀ c ∈ gap, Scan.isGap c) →
      t.span.text ≠ "" → Spaced tokens rest →
      Spaced (t :: tokens) (gap ++ (t.span.text.toList ++ rest))

namespace Cursor

/-- The text of a span is the characters that stand there. -/
theorem text_eq {c : Cursor} {before taken rest : List Char}
    (ahead : c.rest = before ++ (taken ++ rest)) :
    (Span.mk (c.offset + before.length) (c.offset + before.length + taken.length) c.source).text =
      String.ofList taken := by
  have here : c.source.chars.drop (c.offset + before.length) = taken ++ rest := by
    rw [← List.drop_drop, ← c.rest_eq, ahead, List.drop_left]
  rw [Span.text, Source.slice, List.drop_take, here, Nat.add_sub_cancel_left, List.take_left]

/-- What a cursor takes is the text of its span. -/
theorem Passes.text_eq {c after : Cursor} {gap taken : List Char}
    (passes : c.Passes gap taken after) :
    (Span.mk (c.offset + gap.length) after.offset c.source).text = String.ofList taken := by
  rw [passes.offset_eq]
  exact Cursor.text_eq passes.rest_eq

theorem spaced_lexemes (c : Cursor) {tokens : List Token}
    (read : c.lexemes = tokens.map .ok) : Token.Spaced tokens c.rest := by
  induction c using lexemes.induct generalizing tokens with
  | case1 c after ended =>
    rw [lexemes_of_none ended] at read
    obtain rfl := List.map_eq_nil_iff.mp read.symm
    have step := c.step
    rw [ended] at step
    cases step with
    | ended passes none =>
      have whole := passes.rest_eq
      rw [none, List.append_nil, List.append_nil] at whole
      rw [whole]
      exact .ended passes.gap
  | case2 c found after here ih =>
    rw [lexemes_of_some here] at read
    obtain ⟨t, tokens, rfl, rfl, others⟩ := List.map_eq_cons_iff.mp read.symm
    have step := c.step
    rw [here] at step
    cases step with
    | @token gap taken _ _ passes some span =>
      have text : t.span.text = String.ofList taken := span ▸ passes.text_eq
      have rest_eq := passes.rest_eq
      rw [← String.toList_ofList (l := taken), ← text] at rest_eq
      rw [rest_eq]
      refine .token passes.gap ?_ (ih others.symm)
      rw [text]
      exact fun none => some (String.ofList_eq_empty_iff.mp none)

end Cursor
end Lisplet
