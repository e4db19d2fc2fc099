import Lisplet.Diagram
import Lisplet.Proofs.Source.Lines

/-!
What diagrams show. The line on which a span starts is quoted, and there are as many carets as the
span has characters on that line. They stand under these characters as long as the number of the
line has no more than four digits; a longer number moves the quoted line to the right and leaves
the carets where they are.
-/

namespace Lisplet

/-- A stretch of its source: it stops behind its start or right there, and not behind the end. -/
structure Span.Fits (span : Span) : Prop where
  ordered : span.start ≤ span.stop
  inside : span.stop ≤ span.source.length

/-- The characters of a span on its first line, without the newline. -/
def Span.firstLine (span : Span) : List Char := span.text.toList.takeWhile fun c => c != '\n'

namespace Source.Cut

variable {span : Span} {earlier line later : List Char}

/-- Behind a line there is nothing or a newline. -/
theorem takeWhile_line {part : List Char} (cut : span.source.Cut earlier line later)
    (inside : ∀ c ∈ part, c ∈ line) (count : Nat) :
    (part ++ later.take count).takeWhile (fun c => c != '\n') = part := by
  have plain : ∀ c ∈ part, (c != '\n') = true := by
    intro c member
    refine bne_iff_ne.mpr ?_
    rintro rfl
    exact cut.unbroken (inside _ member)
  have stops : (later.take count).takeWhile (fun c => c != '\n') = [] := by
    rcases cut.ends with rfl | newline
    · simp
    · obtain ⟨tail, rfl⟩ := List.head?_eq_some_iff.mp newline
      cases count with
      | zero => rfl
      | succ n => rfl
  rw [List.takeWhile_append_of_pos plain, stops, List.append_nil]

/-- On its first line a span covers the characters up to where it stops or the line ends. -/
theorem firstLine_eq (cut : span.source.Cut earlier line later)
    (reached : earlier.length ≤ span.start)
    (within : span.start ≤ earlier.length + line.length) :
    span.firstLine = (line.drop (span.start - earlier.length)).take (span.stop - span.start) := by
  have behind : span.source.chars.drop span.start =
      line.drop (span.start - earlier.length) ++ later := by
    rw [cut.chars_eq, List.drop_append, List.drop_eq_nil_of_le reached, List.nil_append,
      List.drop_append_of_le_length (by omega)]
  rw [Span.firstLine, Span.text, slice, String.toList_ofList, List.drop_take, behind,
    List.take_append]
  exact cut.takeWhile_line (fun c member => List.mem_of_mem_drop (List.mem_of_mem_take member)) _

theorem length_firstLine (cut : span.source.Cut earlier line later)
    (reached : earlier.length ≤ span.start)
    (within : span.start ≤ earlier.length + line.length) :
    span.firstLine.length = min span.stop (earlier.length + line.length) - span.start := by
  rw [cut.firstLine_eq reached within, List.length_take, List.length_drop]
  omega

/-- An offset behind a line is on a later one. -/
theorem line_location_behind {source : Source} (cut : source.Cut earlier line later) {offset : Nat}
    (beyond : earlier.length + line.length < offset) (inside : offset ≤ source.length) :
    earlier.count '\n' < (source.location offset).line := by
  have some : later ≠ [] := by
    rintro rfl
    rw [Source.length, cut.chars_eq, List.append_nil, List.length_append] at inside
    omega
  obtain ⟨tail, rfl⟩ := List.head?_eq_some_iff.mp (cut.ends.resolve_left some)
  obtain ⟨k, rfl⟩ : ∃ k, offset = earlier.length + (line.length + (k + 1)) :=
    ⟨offset - (earlier.length + line.length + 1), by omega⟩
  rw [line_location inside, cut.chars_eq, List.take_length_add_append,
    List.take_length_add_append, List.take_succ_cons, List.count_append, List.count_append,
    List.count_cons_self]
  omega

/-- There are as many carets as a span has characters on its first line, and at least one. -/
theorem caretCount (cut : span.source.Cut earlier line later) (fits : span.Fits)
    (reached : earlier.length ≤ span.start)
    (within : span.start ≤ earlier.length + line.length) :
    Diagram.caretCount span (String.ofList line) = max span.firstLine.length 1 := by
  have start : span.location = ⟨earlier.count '\n', (span.start - earlier.length : Nat)⟩ :=
    cut.location reached within
  have width := cut.length_firstLine reached within
  have ordered := fits.ordered
  unfold Diagram.caretCount
  rw [start, String.length_ofList]
  by_cases here : span.stop ≤ earlier.length + line.length
  · have stop : span.endLocation = ⟨earlier.count '\n', (span.stop - earlier.length : Nat)⟩ :=
      cut.location (reached.trans ordered) here
    simp only [stop, if_true]
    omega
  · have later := cut.line_location_behind (Nat.lt_of_not_le here) fits.inside
    have other : span.endLocation.line ≠ earlier.count '\n' := Nat.ne_of_gt later
    simp only [other, if_false]
    omega

end Source.Cut

namespace Diagram

/-- What stands before the quoted line: its number, counted from one. -/
def lineGutter (number : Nat) : String := centered 4 (toString number) ++ "|" ++ " "

/-- What stands before the carets. -/
def indent (column : Nat) : String :=
  "    |" ++ " " ++ String.ofList (List.replicate column ' ')

def carets (count : Nat) : String := String.ofList (List.replicate count '^')

/-- The row that tells where an error is, lines and columns being counted from one. -/
def heading (source : Source) (line column : Nat) : String :=
  "   -->" ++ " " ++ displayName source ++ ":" ++ toString line ++ ":" ++ toString column

theorem rows_uncolored {span : Span} {number column : Nat} (message : String) (line : String)
    (start : span.location = ⟨number, column⟩) :
    rows message span line false =
      [heading span.source (number + 1) (column + 1), "    |", lineGutter (number + 1) ++ line,
        indent column ++ carets (caretCount span line) ++ " " ++ message] := by
  unfold rows
  rw [start]
  rfl

/-- A field is as wide as it has to be for its text. -/
theorem length_centered (width : Nat) (text : String) :
    (centered width text).length = max width text.length := by
  simp only [centered, String.length_append, String.length_ofList, List.length_replicate]
  omega

theorem length_toString_le_iff (number : Nat) :
    (toString number).length ≤ 4 ↔ number < 10000 := by
  change (String.ofList (Nat.toDigits 10 number)).length ≤ 4 ↔ _
  rw [String.length_ofList]
  exact Nat.length_toDigits_le_iff (by decide) (by decide)

theorem length_indent (column : Nat) : (indent column).length = 6 + column := by
  simp only [indent, String.length_append, String.length_ofList, List.length_replicate]
  rfl

theorem length_lineGutter (number : Nat) :
    (lineGutter number).length = max 4 (toString number).length + 2 := by
  simp only [lineGutter, String.length_append, length_centered]
  rfl

end Diagram

namespace Error

variable {e : Error} {earlier line later : List Char}

/-- The diagram of an error on a line that is cut out of its source. -/
theorem diagram?_of_cut (cut : e.span.source.Cut earlier line later) (fits : e.span.Fits)
    (reached : earlier.length ≤ e.span.start)
    (within : e.span.start ≤ earlier.length + line.length) :
    e.diagram? false = some ("\n".intercalate
      [Diagram.heading e.span.source (earlier.count '\n' + 1)
          ((e.span.start - earlier.length : Nat) + 1),
        "    |",
        Diagram.lineGutter (earlier.count '\n' + 1) ++ String.ofList line,
        Diagram.indent (e.span.start - earlier.length) ++
          Diagram.carets (max e.span.firstLine.length 1) ++ " " ++ e.message]) := by
  have start : e.span.location = ⟨earlier.count '\n', (e.span.start - earlier.length : Nat)⟩ :=
    cut.location reached within
  unfold diagram?
  rw [start, cut.getLine?, Option.map_some, Diagram.rows_uncolored _ _ start,
    cut.caretCount fits reached within]

/-- The diagram of an error whose span fits its source: it tells line and column of the start,
quotes the whole line that the start is on, and has a caret for each character of the span on that
line, or one if there is none. -/
theorem exists_diagram (fits : e.span.Fits) :
    ∃ earlier line later, e.span.source.Cut earlier line later ∧
      earlier.length ≤ e.span.start ∧ e.span.start ≤ earlier.length + line.length ∧
      e.diagram? false = some ("\n".intercalate
        [Diagram.heading e.span.source (earlier.count '\n' + 1)
            ((e.span.start - earlier.length : Nat) + 1),
          "    |",
          Diagram.lineGutter (earlier.count '\n' + 1) ++ String.ofList line,
          Diagram.indent (e.span.start - earlier.length) ++
            Diagram.carets (max e.span.firstLine.length 1) ++ " " ++ e.message]) := by
  obtain ⟨earlier, line, later, cut, reached, within⟩ :=
    Source.exists_cut (fits.ordered.trans fits.inside)
  exact ⟨earlier, line, later, cut, reached, within, diagram?_of_cut cut fits reached within⟩

/-- Where the carets stand. The quoted line is cut around the characters of the span on it: `lead`
stands before them. The row of carets leaves room for a number of four digits and for `lead`, so
the carets stand under the characters exactly as long as the line's number has at most four
digits; behind a longer number they stand as many places too far left as it has further digits. -/
theorem carets_aligned_iff (fits : e.span.Fits) :
    ∃ lead behind : List Char,
      let number := e.span.location.line + 1
      let quoted := lead ++ e.span.firstLine ++ behind
      let gutter := Diagram.lineGutter number
      let room := Diagram.indent lead.length
      e.span.source.getLine? e.span.location.line = some (String.ofList quoted) ∧
        e.span.location.column = lead.length ∧
        e.diagram? false = some ("\n".intercalate
          [Diagram.heading e.span.source number (lead.length + 1), "    |",
            gutter ++ String.ofList quoted,
            room ++ Diagram.carets (max e.span.firstLine.length 1) ++ " " ++ e.message]) ∧
        (gutter ++ String.ofList lead).length = room.length + ((toString number).length - 4) ∧
        (room.length = (gutter ++ String.ofList lead).length ↔ number < 10000) := by
  obtain ⟨earlier, line, later, cut, reached, within⟩ :=
    Source.exists_cut (fits.ordered.trans fits.inside)
  have start : e.span.location = ⟨earlier.count '\n', (e.span.start - earlier.length : Nat)⟩ :=
    cut.location reached within
  have lead : (line.take (e.span.start - earlier.length)).length = e.span.start - earlier.length :=
    List.length_take_of_le (by omega)
  have quoted : line.take (e.span.start - earlier.length) ++ e.span.firstLine ++
      (line.drop (e.span.start - earlier.length)).drop (e.span.stop - e.span.start) = line := by
    rw [cut.firstLine_eq reached within, List.append_assoc, List.take_append_drop,
      List.take_append_drop]
  have widths : (Diagram.lineGutter (earlier.count '\n' + 1) ++
        String.ofList (line.take (e.span.start - earlier.length))).length =
      (Diagram.indent (e.span.start - earlier.length)).length +
        ((toString (earlier.count '\n' + 1)).length - 4) := by
    rw [String.length_append, Diagram.length_lineGutter, Diagram.length_indent,
      String.length_ofList, lead]
    omega
  refine ⟨line.take (e.span.start - earlier.length),
    (line.drop (e.span.start - earlier.length)).drop (e.span.stop - e.span.start), ?_⟩
  simp only [start, quoted, lead]
  refine ⟨cut.getLine?, trivial, diagram?_of_cut cut fits reached within, widths, ?_⟩
  rw [widths, ← Diagram.length_toString_le_iff]
  omega

theorem carets_aligned_second_line :
    let e : Error := .eval ⟨.unknownSymbol ⟨"why"⟩, ⟨9, 12, .ofText "(vec 1\n  why)" none⟩⟩
    e.span.Fits ∧ ∃ lead behind : List Char,
      e.span.source.getLine? 1 = some (String.ofList (lead ++ ['w', 'h', 'y'] ++ behind)) ∧
        (2 : Int) = lead.length ∧
        (Diagram.lineGutter 2 ++ String.ofList lead).length =
          (Diagram.indent lead.length).length := by
  intro e
  have fits : e.span.Fits := ⟨by decide, by decide⟩
  have start : e.span.location = ⟨1, 2⟩ := by decide +kernel
  have covered : e.span.firstLine = ['w', 'h', 'y'] := by decide +kernel
  obtain ⟨lead, behind, quoted, column, -, -, aligned⟩ := carets_aligned_iff fits
  simp only [start, covered] at quoted column aligned
  exact ⟨fits, lead, behind, quoted, column, (aligned.mpr (by decide)).symm⟩

/-- On the first line whose number has five digits the carets stand one place too far left. -/
theorem carets_left_of_span :
    let source : Source := .ofText (String.ofList (List.replicate 9999 '\n' ++ ['x'])) none
    let e : Error := .eval ⟨.unknownSymbol ⟨"x"⟩, ⟨9999, 10000, source⟩⟩
    e.span.Fits ∧ e.span.text = "x" ∧
      e.diagram? false = some ("\n".intercalate
        ["   --> <input>:10000:1", "    |", "10000| " ++ "x",
          "    | " ++ "^" ++ " " ++ "Could not resolve symbol 'x' in scope"]) ∧
      "    | ".length + 1 = "10000| ".length := by
  intro source e
  have chars : source.chars = List.replicate 9999 '\n' ++ (['x'] ++ []) := String.toList_ofList
  have length : source.length = 10000 := by
    rw [Source.length, chars, List.length_append, List.length_replicate]
    rfl
  have fits : e.span.Fits := ⟨by decide, Nat.le_of_eq length.symm⟩
  have cut : e.span.source.Cut (List.replicate 9999 '\n') ['x'] [] := by
    refine ⟨chars, by decide, .inr ?_, .inl rfl⟩
    rw [List.getLast?_replicate, if_neg (by decide)]
  have reached : (List.replicate 9999 '\n').length = e.span.start := List.length_replicate
  have width : e.span.stop - e.span.start = 1 := by decide
  have covered : e.span.firstLine = ['x'] := by
    rw [cut.firstLine_eq reached.le (by omega), reached, Nat.sub_self, width]
    rfl
  refine ⟨fits, ?_, ?_, by decide⟩
  · have whole : e.span.source.chars.take e.span.stop = source.chars :=
      List.take_of_length_le length.le
    rw [Span.text, Source.slice, whole, chars, ← reached, List.drop_left]
    rfl
  · rw [diagram?_of_cut cut fits reached.le (by omega), covered, reached, Nat.sub_self,
      List.count_replicate_self]
    decide +kernel

end Error
end Lisplet
