import Lisplet.Proofs.Node.Excerpt
import Lisplet.Proofs.Node.Resumed
import Lisplet.Proofs.Token.Atoms

/-!
Where errors of reading are, and where nodes are. Everything that is found in a text stands on
some of its characters: each token, what is wrong with one that cannot be read, what a parser
objects to at any attempt, and every node. The characters of a symbol are its name.
-/

namespace Lisplet

/-- Some of the characters of a source. -/
structure Span.On (span : Span) (source : Source) : Prop where
  source_eq : span.source = source
  some : span.start < span.stop
  inside : span.stop ≤ source.length

/-- The span of a token, or of what is wrong with one. -/
def lexemeSpan : Except LexError Token → Span
  | .ok t => t.span
  | .error e => e.span

namespace Scan

/-- The characters that a symbol takes are its name. -/
theorem take_of_symbol {c : Char} {rest : List Char} {s : Symbol}
    (read : (scan c rest).outcome = .ok (.atom (.symbol s))) :
    String.ofList ((c :: rest).take (scan c rest).length) = s.name := by
  obtain ⟨bracket, comment, ⟨colon, string, quote⟩, digits, written⟩ := scan_symbol read
  have scanned : scan c rest = symbol (c :: word rest) := by
    simp [scan, bracket, digits, comment, colon, string, quote]
  have taken : word rest = rest.take (word rest).length :=
    List.prefix_iff_eq_take.mp (List.takeWhile_prefix _)
  rw [name_of_wordAtom written, scanned, symbol, length, List.length_cons, List.take_succ_cons,
    ← taken]

end Scan

namespace Cursor

variable {c after : Cursor} {found : Except LexError Token}

/-- A cursor that has taken something has not gone past the end. -/
theorem Passes.inside {gap taken : List Char} (passes : c.Passes gap taken after)
    (some : taken ≠ []) : after.offset ≤ c.source.length := by
  have ahead := congrArg List.length passes.rest_eq
  have positive := List.length_pos_iff.mpr some
  rw [c.rest_eq, List.length_drop, List.length_append, List.length_append] at ahead
  rw [passes.offset_eq, Source.length]
  omega

theorem Step.on (step : c.Step (some found, after)) :
    (lexemeSpan found).On c.source ∧ after.source = c.source := by
  cases step with
  | @token gap taken t _ passes some span =>
    refine ⟨⟨congrArg Span.source span, ?_, ?_⟩, passes.source_eq⟩
    · have moved := passes.offset_eq
      have positive := List.length_pos_iff.mpr some
      simp only [lexemeSpan, span]
      omega
    · simp only [lexemeSpan, span]
      exact passes.inside some
  | fault passes some origin _ blames within =>
    exact ⟨⟨origin, blames, within.trans (passes.inside some)⟩, passes.source_eq⟩

theorem lexemes_on (c : Cursor) : ∀ found ∈ c.lexemes, (lexemeSpan found).On c.source := by
  induction c using lexemes.induct with
  | case1 c after ended =>
    rw [lexemes_of_none ended]
    intro found member
    cases member
  | case2 c found after read ih =>
    have step := c.step
    rw [read] at step
    obtain ⟨first, same⟩ := step.on
    rw [lexemes_of_some read]
    exact List.forall_mem_cons.mpr ⟨first, same ▸ ih⟩

/-- The characters that a symbol is read from are its name. -/
theorem text_of_read {t : Token} {s : Symbol} (read : c.read = (some (.ok t), after))
    (symbol : t.kind = .atom (.symbol s)) : t.span.text = s.name := by
  unfold Cursor.read at read
  dsimp only at read
  split at read
  · cases read
  · rename_i char rest ahead
    have within := Scan.length_scan_le char rest
    have outcome (read : (Scan.scan char rest).outcome = .ok (.atom (.symbol s))) :=
      Scan.take_of_symbol read
    rw [← List.length_cons, ← ahead] at within
    rw [← ahead] at outcome
    have passes := passes_move within
    generalize Scan.scan char rest = found at read outcome passes
    cases found with
    | token kind length =>
      cases read
      rw [← outcome (congrArg Except.ok symbol)]
      exact passes.text_eq
    | fault => cases read

theorem text_of_lexeme (c : Cursor) {t : Token} {s : Symbol} (listed : .ok t ∈ c.lexemes)
    (symbol : t.kind = .atom (.symbol s)) : t.span.text = s.name := by
  induction c using lexemes.induct with
  | case1 c after ended =>
    rw [lexemes_of_none ended] at listed
    cases listed
  | case2 c found after read ih =>
    rw [lexemes_of_some read] at listed
    rcases List.mem_cons.mp listed with rfl | later
    · exact text_of_read read symbol
    · exact ih later

end Cursor

/-- The brackets that are open stand among the tokens. -/
theorem Pending.mem {tokens opened : List Token} {o : Token} (pending : Pending tokens opened)
    (member : o ∈ opened) : o ∈ tokens := by
  induction pending with
  | closed => cases member
  | opened _ _ _ ih =>
    rcases List.mem_cons.mp member with rfl | outer
    · exact List.mem_append_right _ List.mem_cons_self
    · exact List.mem_append_left _ (ih outer)

/-- What a parser objects to is one of the lexemes that it has read. -/
theorem Offence.exists_lexeme {before after : List (Except LexError Token)} {opened : List Token}
    {e : ParseError} (offence : Offence opened after.head? e)
    (earlier : ∀ o ∈ opened, .ok o ∈ before) :
    ∃ found ∈ before ++ after, e.span = lexemeSpan found := by
  have here {found : Except LexError Token} (next : after.head? = some found) :
      found ∈ before ++ after := by
    obtain ⟨rest, rfl⟩ := List.head?_eq_some_iff.mp next
    exact List.mem_append_right _ List.mem_cons_self
  generalize next : after.head? = head at offence
  cases offence with
  | unreadable => exact ⟨_, here next, rfl⟩
  | unexpected _ => exact ⟨_, here next, rfl⟩
  | unmatched _ _ _ => exact ⟨_, here next, rfl⟩
  | unclosed => exact ⟨_, List.mem_append_left _ (earlier _ List.mem_cons_self), rfl⟩

namespace Parser

/-- A parse fails at a lexeme. -/
theorem exists_lexeme_of_error {source : Source} {lexemes : List (Except LexError Token)}
    (placed : ∀ t, .ok t ∈ lexemes → t.Placed source) {e : ParseError}
    (failed : (readForest .empty lexemes).1 = .error e) :
    ∃ found ∈ lexemes, e.span = lexemeSpan found := by
  obtain ⟨before, after, opened, rfl, pending, offence⟩ :=
    offence_of_readForest (.empty source) placed failed
  refine offence.exists_lexeme fun o member => ?_
  have kept := pending.mem member
  exact List.mem_map_of_mem (List.mem_filter.mp kept).1

/-- Each attempt reads lexemes that the earlier ones have left over. -/
theorem exists_attempt (lexemes : List (Except LexError Token)) (k : Nat) :
    ∃ rest, rest <:+ lexemes ∧ attempt lexemes k = (readForest .empty rest).1 := by
  induction k generalizing lexemes with
  | zero => exact ⟨lexemes, List.suffix_rfl, rfl⟩
  | succ k ih =>
    obtain ⟨rest, left, same⟩ := ih (readForest .empty lexemes).2
    refine ⟨rest, left.trans ?_, same⟩
    by_cases none : lexemes = []
    · rw [none]
      exact List.suffix_rfl
    · obtain ⟨used, -, whole⟩ := exists_used .empty none
      exact ⟨used, whole.symm⟩

end Parser

namespace Source

variable {source : Source}

theorem on_of_attempt (k : Nat) {e : ParseError}
    (failed : Parser.attempt source.lexemes k = .error e) : e.span.On source := by
  obtain ⟨rest, left, same⟩ := Parser.exists_attempt source.lexemes k
  rw [same] at failed
  obtain ⟨found, listed, span⟩ := Parser.exists_lexeme_of_error
    (fun t listed => Cursor.lexemes_placed _ t (left.subset listed)) failed
  rw [span]
  exact (Cursor.atStart source).lexemes_on found (left.subset listed)

theorem on_of_parse {e : ParseError} (failed : source.parse = .error e) : e.span.On source :=
  on_of_attempt 0 failed

variable {forest : List Node} {node : Node}

/-- Every node stands on characters of the text that it is parsed from. -/
theorem on_of_occurs (parsed : source.parse = .ok forest) (occurs : node.Occurs forest) :
    node.span.On source := by
  obtain ⟨first, body, rest, inner, chars, span, read, kept⟩ := exists_excerpt parsed occurs
  have some : body ≠ [] := by
    rintro rfl
    rw [Scan.lexemes] at read
    obtain rfl := List.map_eq_nil_iff.mp read.symm
    obtain ⟨t, starts, -⟩ := node.exists_first
    rw [← kept] at starts
    cases starts
  have positive := List.length_pos_iff.mpr some
  rw [span]
  refine ⟨rfl, ?_, ?_⟩
  · dsimp only
    omega
  · rw [Source.length, chars, List.length_append, List.length_append]
    dsimp only
    omega

/-- A node that is a symbol stands on the symbol's name. -/
theorem text_of_occurs {name : Symbol} {span : Span} (parsed : source.parse = .ok forest)
    (occurs : (Node.leaf (.symbol name) span).Occurs forest) : span.text = name.name := by
  obtain ⟨tokens, read, written⟩ := tokensOf_parse parsed
  obtain ⟨before, after, inside⟩ := occurs.exists_tokens
  have kept : ⟨.atom (.symbol name), span⟩ ∈ Token.significant tokens := by
    rw [← written, inside]
    exact List.mem_append_right _ (List.mem_append_left _ List.mem_cons_self)
  have listed : .ok ⟨.atom (.symbol name), span⟩ ∈ source.lexemes := by
    rw [read]
    exact List.mem_map_of_mem (List.mem_filter.mp kept).1
  exact Cursor.text_of_lexeme _ listed rfl

end Source
end Lisplet
