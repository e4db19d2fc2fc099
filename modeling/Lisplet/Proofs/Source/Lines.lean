import Lisplet.Source.Span
import Mathlib.Data.List.DropRight

/-!
Lines of a text. An offset lies on the line that is cut out by the newlines around it: the number
of that line counts the newlines before the offset, and its column the characters on the line
before it.
-/

namespace Lisplet
namespace Source

theorem newlinesFrom_append (offset : Nat) (xs ys : List Char) :
    newlinesFrom offset (xs ++ ys) =
      newlinesFrom offset xs ++ newlinesFrom (offset + xs.length) ys := by
  induction xs generalizing offset with
  | nil => rfl
  | cons c xs ih =>
    have next : offset + 1 + xs.length = offset + (c :: xs).length := by
      rw [List.length_cons]
      omega
    simp only [List.cons_append, newlinesFrom, ih, next]
    split <;> rfl

theorem length_newlinesFrom (offset : Nat) (cs : List Char) :
    (newlinesFrom offset cs).length = cs.count '\n' := by
  induction cs generalizing offset with
  | nil => rfl
  | cons c cs ih =>
    rw [newlinesFrom, List.count_cons]
    by_cases newline : c = '\n' <;> simp [newline, ih]

theorem newlinesFrom_unbroken {cs : List Char} (unbroken : '\n' ∉ cs) (offset : Nat) :
    newlinesFrom offset cs = [] := by
  apply List.eq_nil_of_length_eq_zero
  rw [length_newlinesFrom]
  exact List.count_eq_zero.mpr unbroken

theorem lt_of_mem_newlinesFrom {offset n : Nat} {cs : List Char}
    (member : n ∈ newlinesFrom offset cs) : offset ≤ n ∧ n < offset + cs.length := by
  induction cs generalizing offset with
  | nil => cases member
  | cons c cs ih =>
    have later (inside : n ∈ newlinesFrom (offset + 1) cs) :
        offset ≤ n ∧ n < offset + (c :: cs).length := by
      have bounds := ih inside
      rw [List.length_cons]
      omega
    rw [newlinesFrom] at member
    split at member
    · rcases List.mem_cons.mp member with rfl | member
      · exact ⟨Nat.le_refl _, by simp⟩
      · exact later member
    · exact later member

/-- The line ends before an offset are the newlines in front of it. -/
theorem takeWhile_lineEnds {source : Source} {before after : List Char}
    (cut : source.chars = before ++ after) :
    (source.lineEnds.takeWhile fun (e : Nat) => (e : Int) < before.length) =
      newlinesFrom 0 before := by
  have front : ∀ e ∈ newlinesFrom 0 before, decide ((e : Int) < before.length) = true := by
    intro e member
    have bounds := lt_of_mem_newlinesFrom member
    simp only [decide_eq_true_eq]
    omega
  have behind : ∀ e ∈ newlinesFrom before.length after ++ [source.length], before.length ≤ e := by
    intro e member
    rcases List.mem_append.mp member with inside | last
    · exact (lt_of_mem_newlinesFrom inside).1
    · rw [List.mem_singleton.mp last, length, cut, List.length_append]
      exact Nat.le_add_right _ _
  rw [lineEnds, cut, newlinesFrom_append, Nat.zero_add, List.append_assoc,
    List.takeWhile_append_of_pos front]
  generalize newlinesFrom before.length after ++ [source.length] = ends at behind ⊢
  cases ends with
  | nil => simp
  | cons e ends =>
    have first := behind e List.mem_cons_self
    simp [first]

/-- A text cut into a line and what is before and behind it. -/
structure Cut (source : Source) (earlier line later : List Char) : Prop where
  chars_eq : source.chars = earlier ++ (line ++ later)
  unbroken : '\n' ∉ line
  starts : earlier = [] ∨ earlier.getLast? = some '\n'
  ends : later = [] ∨ later.head? = some '\n'

/-- Before any place stand whole lines and then a part of the line of that place. -/
theorem exists_line_start (before : List Char) : ∃ earlier line, before = earlier ++ line ∧
    '\n' ∉ line ∧ (earlier = [] ∨ earlier.getLast? = some '\n') := by
  let plain : Char → Bool := fun c => c != '\n'
  refine ⟨before.rdropWhile plain, before.rtakeWhile plain,
    (List.rdropWhile_append_rtakeWhile ..).symm, ?_, ?_⟩
  · intro broken
    simpa [plain] using List.mem_rtakeWhile_imp broken
  · by_cases none : before.rdropWhile plain = []
    · exact .inl none
    · have last := List.rdropWhile_last_not plain before none
      rw [List.getLast?_eq_some_getLast none]
      exact .inr (by simpa [plain] using last)

/-- Every offset up to the end of the text lies on a line. -/
theorem exists_cut {source : Source} {offset : Nat} (inside : offset ≤ source.length) :
    ∃ earlier line later, source.Cut earlier line later ∧ earlier.length ≤ offset ∧
      offset ≤ earlier.length + line.length := by
  let plain : Char → Bool := fun c => c != '\n'
  let after := source.chars.drop offset
  obtain ⟨earlier, line, whole, unbroken, starts⟩ := exists_line_start (source.chars.take offset)
  have lengths := congrArg List.length whole
  rw [List.length_append, List.length_take_of_le inside] at lengths
  refine ⟨earlier, line ++ after.takeWhile plain, after.dropWhile plain, ⟨?_, ?_, starts, ?_⟩,
    by omega, ?_⟩
  · rw [List.append_assoc, List.takeWhile_append_dropWhile, ← List.append_assoc, ← whole]
    exact (List.take_append_drop offset source.chars).symm
  · intro broken
    rcases List.mem_append.mp broken with left | right
    · exact unbroken left
    · simpa [plain] using List.mem_takeWhile_imp right
  · cases found : after.dropWhile plain with
    | nil => exact .inl rfl
    | cons c rest =>
      have first := List.head?_dropWhile_not plain after
      rw [found] at first
      exact .inr (by simpa [plain] using first)
  · rw [List.length_append]
    omega

namespace Cut

variable {source : Source} {earlier line later : List Char} {offset : Nat}

theorem startAfter_eq (cut : source.Cut earlier line later) :
    startAfter (newlinesFrom 0 earlier) = earlier.length := by
  rcases cut.starts with rfl | ended
  · rfl
  · obtain ⟨front, rfl⟩ := List.getLast?_eq_some_iff.mp ended
    rw [newlinesFrom_append]
    simp [newlinesFrom, startAfter]

theorem location (cut : source.Cut earlier line later) (reached : earlier.length ≤ offset)
    (within : offset ≤ earlier.length + line.length) :
    source.location offset = ⟨earlier.count '\n', (offset - earlier.length : Nat)⟩ := by
  let column := offset - earlier.length
  have split : source.chars = (earlier ++ line.take column) ++ (line.drop column ++ later) := by
    rw [cut.chars_eq, List.append_assoc, ← List.append_assoc (line.take column),
      List.take_append_drop]
  have length : (earlier ++ line.take column).length = offset := by
    rw [List.length_append, List.length_take]
    omega
  have plain : '\n' ∉ line.take column := fun inside => cut.unbroken (List.mem_of_mem_take inside)
  have before := takeWhile_lineEnds split
  rw [length, newlinesFrom_append, newlinesFrom_unbroken plain, List.append_nil] at before
  unfold Source.location
  simp only [before, cut.startAfter_eq, length_newlinesFrom]
  congr 1
  omega

theorem getLine? (cut : source.Cut earlier line later) :
    source.getLine? (earlier.count '\n') = some (String.ofList line) := by
  have ends : source.lineEnds = newlinesFrom 0 earlier ++
      (newlinesFrom (earlier.length + line.length) later ++ [source.length]) := by
    rw [lineEnds, cut.chars_eq, newlinesFrom_append, newlinesFrom_append,
      newlinesFrom_unbroken cut.unbroken, Nat.zero_add, List.nil_append, List.append_assoc]
  have stop : (newlinesFrom (earlier.length + line.length) later ++ [source.length])[0]? =
      some (earlier.length + line.length) := by
    rcases cut.ends with rfl | newline
    · simp [newlinesFrom, Source.length, cut.chars_eq]
    · obtain ⟨rest, rfl⟩ := List.head?_eq_some_iff.mp newline
      simp [newlinesFrom]
  unfold Source.getLine?
  rw [ends, ← length_newlinesFrom 0 earlier, List.getElem?_append_right (Nat.le_refl _),
    Nat.sub_self, stop, List.take_left, cut.startAfter_eq, Option.map_some, slice, cut.chars_eq,
    ← List.append_assoc, ← List.length_append, List.take_left, List.drop_left]

end Cut

/-- The line of an offset counts the newlines before it. -/
theorem line_location {source : Source} {offset : Nat} (inside : offset ≤ source.length) :
    (source.location offset).line = (source.chars.take offset).count '\n' := by
  have before := takeWhile_lineEnds (List.take_append_drop offset source.chars).symm
  rw [List.length_take_of_le inside] at before
  unfold location
  simp only [before, length_newlinesFrom]

end Source
end Lisplet
