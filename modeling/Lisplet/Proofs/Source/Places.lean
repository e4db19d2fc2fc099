import Lisplet.Proofs.Source.Lines

/-!
Offsets and locations. The offsets of a text, its end included, and the places on its lines, the
ends of the lines included, are in one order and correspond to each other. The lines are what the
newlines of the text stand between.
-/

namespace Lisplet

/-- The order of locations: by their lines, on one line by their columns. -/
def Location.Before (a b : Location) : Prop :=
  Prod.Lex (· < ·) (· < ·) (a.line, a.column) (b.line, b.column)

namespace Source

/-- All lines, each without its newline. -/
def lines (source : Source) : List String :=
  source.lineEnds.mapIdx fun line stop =>
    source.slice (startAfter (source.lineEnds.take line)) stop

/-- The lines before the one of a number, each with its newline. -/
def before (source : Source) (line : Nat) : List Char :=
  (source.lines.take line).flatMap fun text => text.toList ++ ['\n']

theorem getElem?_lines (source : Source) (line : Nat) :
    source.lines[line]? = source.getLine? line :=
  List.getElem?_mapIdx

namespace Cut

variable {source : Source} {earlier line later : List Char} {offset : Nat}

theorem take_eq (cut : source.Cut earlier line later) (reached : earlier.length ≤ offset)
    (within : offset ≤ earlier.length + line.length) :
    source.chars.take offset = earlier ++ line.take (offset - earlier.length) := by
  have inside : offset - earlier.length - line.length = 0 := by omega
  rw [cut.chars_eq, List.take_append, List.take_of_length_le reached, List.take_append, inside,
    List.take_zero, List.append_nil]

theorem count_take (cut : source.Cut earlier line later) (reached : earlier.length ≤ offset)
    (within : offset ≤ earlier.length + line.length) :
    (source.chars.take offset).count '\n' = earlier.count '\n' := by
  have none : (line.take (offset - earlier.length)).count '\n' = 0 :=
    List.count_eq_zero.mpr fun broken => cut.unbroken (List.mem_of_mem_take broken)
  rw [cut.take_eq reached within, List.count_append, none, Nat.add_zero]

/-- What is before a line is the line before it, and what is before that. -/
theorem previous {front : List Char} (cut : source.Cut (front ++ ['\n']) line later) :
    ∃ earlier above, source.Cut earlier above ('\n' :: (line ++ later)) ∧
      front = earlier ++ above := by
  obtain ⟨earlier, above, rfl, unbroken, starts⟩ := exists_line_start front
  refine ⟨earlier, above, ⟨?_, unbroken, starts, .inr rfl⟩, rfl⟩
  rw [cut.chars_eq]
  simp

theorem earlier_of_unbroken (cut : source.Cut earlier line later)
    (unbroken : earlier.count '\n' = 0) : earlier = [] := by
  rcases cut.starts with none | ended
  · exact none
  · exact absurd (List.mem_of_getLast? ended) (List.count_eq_zero.mp unbroken)

/-- The text before a line is made of the lines before it. -/
theorem before_eq (cut : source.Cut earlier line later) :
    source.before (earlier.count '\n') = earlier := by
  -- By the number of the line: the line above it is cut out of the same text.
  induction count : earlier.count '\n' generalizing earlier line later with
  | zero => rw [cut.earlier_of_unbroken count, before, List.take_zero, List.flatMap_nil]
  | succ k ih =>
    have broken : earlier ≠ [] := by
      rintro rfl
      cases count
    obtain ⟨front, rfl⟩ := List.getLast?_eq_some_iff.mp (cut.starts.resolve_left broken)
    obtain ⟨earlier, above, previous, rfl⟩ := cut.previous
    have here : earlier.count '\n' = k := by
      have none := List.count_eq_zero.mpr previous.unbroken
      simp only [List.count_append, none, List.count_singleton_self] at count
      omega
    have last : source.lines[k]? = some (String.ofList above) := by
      rw [getElem?_lines, ← here]
      exact previous.getLine?
    have others : source.before k = earlier := ih previous here
    rw [before] at others
    rw [before, List.take_add_one, List.flatMap_append, others, last]
    simp

end Cut

variable {source : Source}

theorem exists_take_count {cs : List Char} {n : Nat} (enough : n ≤ cs.count '\n') :
    ∃ offset ≤ cs.length, (cs.take offset).count '\n' = n := by
  induction cs generalizing n with
  | nil => exact ⟨0, Nat.le_refl _, (Nat.le_zero.mp enough).symm⟩
  | cons c cs ih =>
    cases n with
    | zero => exact ⟨0, Nat.zero_le _, rfl⟩
    | succ n =>
      by_cases newline : c = '\n'
      · subst newline
        rw [List.count_cons_self] at enough
        obtain ⟨offset, inside, count⟩ := ih (Nat.le_of_succ_le_succ enough)
        exact ⟨offset + 1, Nat.succ_le_succ inside, by simp [count]⟩
      · rw [List.count_cons_of_ne newline] at enough
        obtain ⟨offset, inside, count⟩ := ih enough
        exact ⟨offset + 1, Nat.succ_le_succ inside, by simp [count, newline]⟩

theorem length_lineEnds (source : Source) :
    source.lineEnds.length = source.chars.count '\n' + 1 := by
  rw [lineEnds, List.length_append, length_newlinesFrom, List.length_singleton]

/-- Every line is cut out of the text. -/
theorem exists_cut_of_line {n : Nat} {text : String} (found : source.getLine? n = some text) :
    ∃ earlier line later, source.Cut earlier line later ∧ earlier.count '\n' = n ∧
      line = text.toList := by
  have enough : n ≤ source.chars.count '\n' := by
    obtain ⟨stop, known, -⟩ := Option.map_eq_some_iff.mp found
    have bound := (List.getElem?_eq_some_iff.mp known).1
    rw [length_lineEnds] at bound
    exact Nat.le_of_lt_succ bound
  obtain ⟨offset, inside, count⟩ := exists_take_count enough
  obtain ⟨earlier, line, later, cut, reached, within⟩ := exists_cut inside
  have numbered : earlier.count '\n' = n := (cut.count_take reached within).symm.trans count
  have same := cut.getLine?
  rw [numbered, found] at same
  exact ⟨earlier, line, later, cut, numbered, by rw [Option.some_inj.mp same, String.toList_ofList]⟩

/-- Offsets are in the order of their locations. -/
theorem location_before {first second : Nat} (less : first < second)
    (inside : second ≤ source.length) :
    (source.location first).Before (source.location second) := by
  obtain ⟨earlier, line, later, cut, reached, within⟩ :=
    exists_cut (Nat.le_of_lt (less.trans_le inside))
  obtain ⟨earlier', line', later', cut', reached', within'⟩ := exists_cut inside
  have lines : earlier.count '\n' ≤ earlier'.count '\n' := by
    rw [← cut.count_take reached within, ← cut'.count_take reached' within']
    exact (List.take_sublist_take_left (Nat.le_of_lt less)).count_le _
  rw [cut.location reached within, cut'.location reached' within', Location.Before, Prod.lex_def]
  rcases Nat.lt_or_eq_of_le lines with lower | same
  · exact .inl lower
  · -- A number has only one line, so both columns count from the same start.
    have starts : earlier = earlier' := by rw [← cut.before_eq, same, cut'.before_eq]
    refine .inr ⟨same, ?_⟩
    simp only [starts] at reached ⊢
    omega

theorem intercalate_append_singleton (init : List (List Char)) (last : List Char) :
    ['\n'].intercalate (init ++ [last]) = (init.flatMap fun line => line ++ ['\n']) ++ last := by
  induction init with
  | nil => simp [List.intercalate]
  | cons line init ih =>
    cases init with
    | nil => simp [List.intercalate]
    | cons next init =>
      rw [List.cons_append, List.cons_append, List.intercalate_cons_cons, ← List.cons_append, ih]
      simp

/-- The text is its lines with newlines between them. -/
theorem intercalate_lines (source : Source) : "\n".intercalate source.lines = source.text := by
  obtain ⟨earlier, line, later, cut, reached, within⟩ := exists_cut (Nat.le_refl source.length)
  have none : later = [] := by
    have whole := congrArg List.length cut.chars_eq
    rw [List.length_append, List.length_append] at whole
    rw [length] at within
    exact List.eq_nil_of_length_eq_zero (by omega)
  have total : source.lines.length = earlier.count '\n' + 1 := by
    rw [lines, List.length_mapIdx, length_lineEnds, ← cut.count_take reached within, length,
      List.take_length]
  have split : source.lines = source.lines.take (earlier.count '\n') ++ [String.ofList line] := by
    calc source.lines
      _ = source.lines.take (earlier.count '\n' + 1) :=
        (List.take_of_length_le (Nat.le_of_eq total)).symm
      _ = _ := by
        rw [List.take_add_one, getElem?_lines, cut.getLine?]
        rfl
  have joined : ((source.lines.take (earlier.count '\n')).map String.toList).flatMap
      (fun line => line ++ ['\n']) = earlier := by
    rw [List.flatMap_map]
    exact cut.before_eq
  have whole : earlier ++ line = source.text.toList := by
    rw [← chars, cut.chars_eq, none, List.append_nil]
  rw [← String.toList_inj, String.toList_intercalate, split, List.map_append, List.map_singleton,
    String.toList_ofList (l := line)]
  exact (intercalate_append_singleton ..).trans (by rw [joined, whole])

example : (Source.ofText "ab\n\nc\n" none).lines = ["ab", "", "c", ""] := by decide

/-- Offsets and locations correspond to each other. An offset of the text is located at a column of
the line that counts the newlines before it, and what is before the offset is the lines before that
one, each with its newline, and that many characters of the line. Locations are in the order of
their offsets, and every column of a line, its end included, is the location of an offset. The
lines with newlines between them are the text. -/
theorem location_correspondence :
    ∀ source : Source,
      (∀ offset : Nat, offset ≤ source.length →
        ∃ line : String, ∃ column : Nat,
          let number := (source.chars.take offset).count '\n'
          source.location offset = ⟨number, column⟩ ∧ source.getLine? number = some line ∧
            column ≤ line.length ∧
            source.chars.take offset = source.before number ++ line.toList.take column) ∧
      (∀ first second : Nat, first < second → second ≤ source.length →
        (source.location first).Before (source.location second)) ∧
      (∀ (number : Nat) (line : String) (column : Nat), source.getLine? number = some line →
        column ≤ line.length →
        ∃ offset : Nat, offset ≤ source.length ∧ source.location offset = ⟨number, column⟩) ∧
      (∀ number : Nat, source.lines[number]? = source.getLine? number) ∧
      "\n".intercalate source.lines = source.text := by
  intro source
  refine ⟨?_, fun first second => location_before, ?_, source.getElem?_lines,
    source.intercalate_lines⟩
  · intro offset inside
    obtain ⟨earlier, line, later, cut, reached, within⟩ := exists_cut inside
    refine ⟨String.ofList line, offset - earlier.length, ?_⟩
    rw [cut.count_take reached within]
    refine ⟨cut.location reached within, cut.getLine?, ?_, ?_⟩
    · rw [String.length_ofList]
      omega
    · rw [cut.before_eq, String.toList_ofList]
      exact cut.take_eq reached within
  · intro number line column found fits
    obtain ⟨earlier, chars, later, cut, rfl, rfl⟩ := exists_cut_of_line found
    rw [← String.length_toList] at fits
    have inside : earlier.length + column ≤ source.length := by
      rw [length, cut.chars_eq, List.length_append, List.length_append]
      omega
    refine ⟨earlier.length + column, inside, ?_⟩
    rw [cut.location (by omega) (by omega), Nat.add_sub_cancel_left]

/-- A text with an empty line, cut at the end of that line. -/
theorem location_correspondence_empty_line :
    let source : Source := .ofText "ab\n\nc\n" none
    (3 ≤ source.length ∧ ∃ line : String, ∃ column : Nat,
      source.location 3 = ⟨1, column⟩ ∧ source.getLine? 1 = some line ∧ column ≤ line.length ∧
        ['a', 'b', '\n'] = source.before 1 ++ line.toList.take column) ∧
      (3 < 6 ∧ 6 ≤ source.length ∧ (source.location 3).Before (source.location 6)) ∧
      source.getLine? 2 = some "c" ∧ 1 ≤ "c".length ∧
      ∃ offset : Nat, offset ≤ source.length ∧ source.location offset = ⟨2, 1⟩ := by
  intro source
  obtain ⟨located, ordered, reached, -⟩ := location_correspondence source
  have inside : 6 ≤ source.length := by decide
  have earlier : 3 ≤ source.length := by decide
  have front : source.chars.take 3 = ['a', 'b', '\n'] := by decide
  have found : source.getLine? 2 = some "c" := by decide
  have here := located 3 earlier
  rw [front] at here
  exact ⟨⟨earlier, here⟩, ⟨by decide, inside, ordered 3 6 (by decide) inside⟩, found,
    by decide, reached 2 "c" 1 found (by decide)⟩

end Source
end Lisplet
