import Lisplet.Proofs.Node.Completion
import Lisplet.Proofs.Token.Progress

/-!
Parsing on. After an error a parser goes on behind what was wrong, with nothing left open. Every
such attempt uses up some of the text, so at last one gets to the end.
-/

namespace Lisplet

namespace Parser

/-- A parse uses up some lexemes, if there are any, and leaves the others over as they are. -/
theorem exists_used (g : Growth) {lexemes : List (Except LexError Token)} (some : lexemes ≠ []) :
    ∃ used, used ≠ [] ∧ lexemes = used ++ (readForest g lexemes).2 := by
  induction lexemes generalizing g with
  | nil => exact absurd rfl some
  | cons lexeme rest ih =>
    cases lexeme with
    | error e => exact ⟨[.error e], List.cons_ne_nil _ _, rfl⟩
    | ok t =>
      rw [readForest]
      cases g.feed t with
      | error e => exact ⟨[.ok t], List.cons_ne_nil _ _, rfl⟩
      | ok g' =>
        cases rest with
        | nil => exact ⟨[.ok t], List.cons_ne_nil _ _, rfl⟩
        | cons next rest =>
          obtain ⟨used, -, same⟩ := ih g' (List.cons_ne_nil _ _)
          exact ⟨.ok t :: used, List.cons_ne_nil _ _, congrArg (List.cons _) same⟩

/-- A forest is the end of the text. -/
theorem readForest_of_ok {g : Growth} {lexemes : List (Except LexError Token)} {forest : List Node}
    (parsed : (readForest g lexemes).1 = .ok forest) : (readForest g lexemes).2 = [] := by
  induction lexemes generalizing g with
  | nil => rfl
  | cons lexeme rest ih =>
    cases lexeme with
    | error e => cases parsed
    | ok t =>
      rw [readForest] at parsed ⊢
      cases fed : g.feed t with
      | error e =>
        rw [fed] at parsed
        cases parsed
      | ok g' =>
        rw [fed] at parsed
        exact ih parsed

/-- What parsing gives after so many earlier attempts, each of which has left some lexemes over. -/
def attempt (lexemes : List (Except LexError Token)) : Nat → Except ParseError (List Node)
  | 0 => (readForest .empty lexemes).1
  | n + 1 => attempt (readForest .empty lexemes).2 n

theorem attempt_nil (n : Nat) : attempt [] n = .ok [] := by
  induction n with
  | zero => rfl
  | succ n ih => exact ih

/-- Attempts fail, no more of them than there are lexemes, until one gives a forest; there is
nothing left after it. -/
theorem attempts_settle (lexemes : List (Except LexError Token)) :
    ∃ n ≤ lexemes.length, (∀ k < n, ∃ e, attempt lexemes k = .error e) ∧
      (∃ forest, attempt lexemes n = .ok forest) ∧ ∀ k > n, attempt lexemes k = .ok [] := by
  -- Each attempt leaves a shorter row, so the induction is on its length.
  induction size : lexemes.length using Nat.strongRecOn generalizing lexemes with
  | ind count ih =>
    cases first : (readForest .empty lexemes).1 with
    | ok forest =>
      refine ⟨0, Nat.zero_le _, fun k before => absurd before (Nat.not_lt_zero k),
        ⟨forest, first⟩, fun k behind => ?_⟩
      obtain ⟨k, rfl⟩ := Nat.exists_eq_succ_of_ne_zero (Nat.ne_of_gt behind)
      rw [attempt, readForest_of_ok first, attempt_nil]
    | error e =>
      have some : lexemes ≠ [] := by
        rintro rfl
        cases first
      obtain ⟨used, any, same⟩ := exists_used .empty some
      have shorter : (readForest .empty lexemes).2.length < count := by
        have positive := List.length_pos_iff.mpr any
        have whole := congrArg List.length same
        rw [List.length_append] at whole
        omega
      obtain ⟨n, within, failures, success, settled⟩ := ih _ shorter _ rfl
      refine ⟨n + 1, by omega, fun k before => ?_, success, fun k behind => ?_⟩
      · cases k with
        | zero => exact ⟨e, first⟩
        | succ k => exact failures k (Nat.lt_of_succ_lt_succ before)
      · cases k with
        | zero => exact absurd behind (Nat.not_lt_zero _)
        | succ k => exact settled k (Nat.lt_of_succ_lt_succ behind)

end Parser

namespace Source

/-- Reading gets on and loses nothing. Every read passes a gap, and then takes the characters of a
token, or of a fault that blames some of them; there are no more of such reads than characters,
and behind them nothing is found. A text without faults is its tokens with gaps between them. And
a parser that goes on after each error fails no more often than there are characters; it then
parses what is left, and after that finds no forms. -/
theorem reading_progress (source : Source) :
    (∀ n, ((Cursor.atStart source).behind n).Step
        (((Cursor.atStart source).behind n).read.1, (Cursor.atStart source).behind (n + 1))) ∧
    (∀ n found, ((Cursor.atStart source).behind n).read.1 = some found →
      ((Cursor.atStart source).behind n).offset <
        ((Cursor.atStart source).behind (n + 1)).offset) ∧
    (∀ n ≥ source.length, ((Cursor.atStart source).behind n).read.1 = none) ∧
    (∀ tokens, source.lexemes = tokens.map .ok → Token.Spaced tokens source.chars) ∧
    ∃ n ≤ source.length, (∀ k < n, ∃ e, Parser.attempt source.lexemes k = .error e) ∧
      (∃ forest, Parser.attempt source.lexemes n = .ok forest) ∧
      ∀ k > n, Parser.attempt source.lexemes k = .ok [] := by
  have count : source.lexemes.length ≤ source.length := (Cursor.atStart source).length_lexemes_le
  refine ⟨fun n => Cursor.step _, ?_, ?_, ?_, ?_⟩
  · intro n found read
    have step := ((Cursor.atStart source).behind n).step
    rw [← Prod.eta ((Cursor.atStart source).behind n).read, read] at step
    exact step.advances
  · intro n past
    rw [Cursor.read_behind]
    exact List.getElem?_eq_none (Nat.le_trans count past)
  · intro tokens read
    exact (Cursor.atStart source).spaced_lexemes read
  · obtain ⟨n, within, settles⟩ := Parser.attempts_settle source.lexemes
    exact ⟨n, Nat.le_trans within count, settles⟩

theorem reading_progress_vector :
    ∃ found tokens,
      ((Cursor.atStart (ofText "[a, \"b\"]" none)).behind 0).read.1 = some found ∧
      ((Cursor.atStart (ofText "[a, \"b\"]" none)).behind 0).offset <
        ((Cursor.atStart (ofText "[a, \"b\"]" none)).behind 1).offset ∧
      ((Cursor.atStart (ofText "[a, \"b\"]" none)).behind 8).read.1 = none ∧
      (ofText "[a, \"b\"]" none).lexemes = tokens.map .ok ∧
      Token.Spaced tokens "[a, \"b\"]".toList := by
  have finds :
      ((Cursor.atStart (ofText "[a, \"b\"]" none)).behind 0).read.1.isSome = true := by
    decide +kernel
  have clean : ((ofText "[a, \"b\"]" none).lexemes.all fun found => found.isOk) = true := by
    decide +kernel
  obtain ⟨found, read⟩ := Option.isSome_iff_exists.mp finds
  obtain ⟨-, advances, ends, spaced, -⟩ := reading_progress (ofText "[a, \"b\"]" none)
  rcases exists_tokens_or_error (ofText "[a, \"b\"]" none).lexemes with ⟨tokens, same⟩ | ⟨e, fails⟩
  · exact ⟨found, tokens, read, advances 0 found read, ends 8 (by decide), same, spaced tokens same⟩
  · have impossible := List.all_eq_true.mp clean _ fails
    cases impossible

end Source
end Lisplet
