import Lisplet.Proofs.Node.Completion

/-!
Hopeless texts. A closing bracket that closes nothing, or a bracket of the other shape, is
reported as soon as no text can make up for it: what stands before it could still be completed,
and whatever follows it leaves the error as it is.
-/

namespace Lisplet

namespace Growth

variable {g : Growth} {e : ParseError}

/-- Where reading breaks off. -/
theorem exists_break {lexemes : List (Except LexError Token)}
    (failed : g.readAll lexemes = .error e) :
    ∃ (before : List Token) (found : Except LexError Token)
      (after : List (Except LexError Token)) (g' : Growth),
      lexemes = before.map .ok ++ found :: after ∧ g.readAll (before.map .ok) = .ok g' ∧
        g'.read found = .error e := by
  induction lexemes generalizing g with
  | nil => cases failed
  | cons lexeme rest ih =>
    cases lexeme with
    | error fault => exact ⟨[], .error fault, rest, g, rfl, rfl, failed⟩
    | ok t =>
      rw [readAll_token] at failed
      cases fed : g.feed t with
      | error fault =>
        rw [fed] at failed
        cases failed
        exact ⟨[], .ok t, rest, g, rfl, rfl, fed⟩
      | ok g₁ =>
        rw [fed] at failed
        obtain ⟨before, found, after, g', rfl, grown, breaks⟩ := ih failed
        refine ⟨t :: before, found, after, g', rfl, ?_, breaks⟩
        rw [List.map_cons, readAll_token, fed]
        exact grown

/-- Only a closing bracket is refused. -/
theorem closing_of_feed {t : Token} (refused : g.feed t = .error e) :
    e.span = t.span ∧ ∃ shape, t.kind = .closing shape := by
  obtain ⟨kind, span⟩ := t
  cases kind with
  | comment | opening | atom => cases refused
  | closing shape =>
    refine ⟨?_, shape, rfl⟩
    rcases g with ⟨forms, _ | ⟨inner, outer⟩⟩
    · cases refused
      rfl
    · simp only [feed, close] at refused
      split at refused
      · cases refused
      · cases refused
        rfl

end Growth

namespace Source

/-- A text up to a closing bracket that is refused, and the growth that refuses it. -/
structure Refusal (source : Source) (e : ParseError) (first : List Char) (c : Char)
    (kind : Token.Kind) (before : List Token) (g : Growth) : Prop where
  bracket : Scan.bracket? c = some kind
  solid : Scan.isGap c = false
  row : Scan.Row source 0 first before
  follows : ∀ rest, Scan.Follows first.length before (c :: rest)
  grown : Growth.empty.readAll (before.map .ok) = .ok g
  refused : g.feed ⟨kind, first.length, first.length + 1, source⟩ = .error e

variable {source : Source} {e : ParseError} {first : List Char} {c : Char} {kind : Token.Kind}
  {before : List Token} {g : Growth}

theorem exists_refusal (failed : source.parse = .error e)
    (bracket : e.fault = .unexpectedClose ∨ e.fault = .unmatched) :
    ∃ first c rest kind before g, source.chars = first ++ c :: rest ∧
      e.span.start = first.length ∧ e.span.stop = first.length + 1 ∧
      source.Refusal e first c kind before g := by
  have broken : Growth.empty.readAll source.lexemes = .error e := by
    rcases parse_eq_error_iff.mp failed with broken | ⟨_, _, _, _, rfl⟩
    · exact broken
    · simp at bracket
  obtain ⟨before, found, after, g, read, grown, breaks⟩ := Growth.exists_break broken
  cases found with
  | error fault =>
    cases breaks
    simp [ParseError.ofLex] at bracket
  | ok t =>
    obtain ⟨same, shape, closing⟩ := Growth.closing_of_feed breaks
    rw [lexemes_eq] at read
    obtain ⟨first, rest, chars, row, others, follows, solid⟩ := Scan.exists_row read
    cases rest with
    | nil =>
      rw [Scan.lexemes] at others
      cases others
    | cons c rest =>
      have solid := solid c rfl
      rw [Scan.lexemes_cons solid] at others
      obtain ⟨here, -⟩ := List.cons.inj others
      rcases scanned : Scan.scan c rest with ⟨kind, length⟩ | ⟨fault, start, stop, length⟩
      · rw [scanned] at here
        cases here
        rw [Nat.zero_add] at breaks follows same
        obtain ⟨known, rfl⟩ := Scan.scan_bracket scanned (.inr closing)
        refine ⟨first, c, rest, kind, before, g, chars, by rw [same], by rw [same], ?_⟩
        refine ⟨known, solid, row, fun more t member last => ?_, grown, breaks⟩
        exact (follows t member last).of_head fun d first => first
      · rw [scanned] at here
        cases here

/-- The text before a bracket that is refused reads as the same tokens. -/
theorem Refusal.readAll_before (refusal : source.Refusal e first c kind before g)
    {cut : Source} (chars : cut.chars = first) :
    ∃ g', Growth.empty.readAll cut.lexemes = .ok g' := by
  have grown : Growth.empty.readAll (Scan.lexemes source 0 cut.chars) = .ok g := by
    rw [chars, refusal.row.lexemes_eq, refusal.grown]
  obtain ⟨g', read, -⟩ := growth_of_at grown
  exact ⟨g', read⟩

/-- Behind the bracket everything is refused as before. -/
theorem Refusal.readAll_longer (refusal : source.Refusal e first c kind before g)
    {longer : Source} {more : List Char} (chars : longer.chars = first ++ c :: more) :
    ∃ e', longer.parse = .error e' ∧ e'.mapSpan (Span.moved source 0) = e := by
  have whole : Scan.lexemes source 0 longer.chars = before.map .ok ++
        .ok ⟨kind, first.length, first.length + 1, source⟩ ::
        Scan.lexemes source (first.length + 1) more := by
    have follows : Scan.Follows (0 + first.length) before (c :: more) := by
      simpa using refusal.follows more
    rw [chars, refusal.row.lexemes_append follows, Scan.lexemes_cons refusal.solid,
      (Scan.Reading.bracket refusal.bracket).scan_eq, Nat.zero_add]
    rfl
  have failed : Growth.empty.readAll (Scan.lexemes source 0 longer.chars) = .error e := by
    rw [whole, Growth.readAll_append, refusal.grown]
    change Growth.readAll g _ = _
    rw [Growth.readAll_token, refusal.refused]
    rfl
  obtain ⟨e', read, moved⟩ := error_of_at failed
  exact ⟨e', parse_eq_error_iff.mpr (.inl read), moved⟩

/-- The fault that a text is reported with, and the offsets of the part that shows it. -/
def reported? (source : Source) : Option (ParseFault × Nat × Nat) :=
  match source.parse with
  | .ok _ => none
  | .error e => some (e.fault, e.span.start, e.span.stop)

theorem reported?_of_parse (failed : source.parse = .error e) :
    source.reported? = some (e.fault, e.span.start, e.span.stop) := by
  rw [reported?, failed]

/-- A bracket error comes at the earliest place where nothing can help any more. The text before
the bracket can be parsed or waits for closing brackets only, and there are some that complete it;
any text that goes on behind the bracket fails with the same fault at the same offsets. -/
theorem bracket_error_earliest {fault : ParseFault} {start stop : Nat}
    (reported : source.reported? = some (fault, start, stop))
    (bracket : fault = .unexpectedClose ∨ fault = .unmatched) :
    (∀ cut : Source, cut.chars = source.chars.take start →
      (cut.Parses ∨ ∃ start' stop', cut.reported? = some (.unclosed, start', stop')) ∧
        ∃ closers, (cut.closedBy closers).Parses) ∧
    ∀ (more : List Char) (longer : Source), longer.chars = source.chars.take stop ++ more →
      longer.reported? = some (fault, start, stop) := by
  cases failed : source.parse with
  | ok forms => simp [reported?, failed] at reported
  | error e =>
    rw [reported?_of_parse failed] at reported
    cases reported
    obtain ⟨first, c, rest, kind, before, g, chars, start, stop, refusal⟩ :=
      exists_refusal failed bracket
    constructor
    -- What stands before the bracket has grown; it fails at most because something is open.
    · intro cut same
      rw [chars, start, List.take_left] at same
      obtain ⟨g', grown⟩ := refusal.readAll_before same
      constructor
      · rcases g' with ⟨forms, _ | ⟨inner, outer⟩⟩
        · exact .inl ⟨forms.reverse, by rw [parse_eq, grown]; rfl⟩
        · have waiting : cut.parse = .error ⟨.unclosed, inner.opening⟩ :=
            parse_eq_error_iff.mpr (.inr ⟨forms, inner, outer, grown, rfl⟩)
          exact .inr ⟨_, _, reported?_of_parse waiting⟩
      · exact ⟨g'.shapes, parses_closedBy_iff.mpr ⟨g', grown, rfl⟩⟩
    · intro more longer same
      have front : (first ++ c :: rest).take (first.length + 1) = first ++ [c] := by
        rw [List.take_length_add_append]
        rfl
      rw [chars, stop, front, List.append_assoc] at same
      obtain ⟨e', failed', moved⟩ := refusal.readAll_longer same
      rw [reported?_of_parse failed', ← moved]
      simp [ParseError.mapSpan, Span.moved]

theorem bracket_error_earliest_unmatched :
    (Source.ofText "(a [b '(') c]" none).reported? = some (.unmatched, 9, 10) ∧
      (∀ cut : Source, cut.chars = "(a [b '('".toList →
        (cut.Parses ∨ ∃ start' stop', cut.reported? = some (.unclosed, start', stop')) ∧
          ∃ closers, (cut.closedBy closers).Parses) ∧
      ∀ (more : List Char) (longer : Source), longer.chars = "(a [b '(')".toList ++ more →
        longer.reported? = some (.unmatched, 9, 10) := by
  have reported : (Source.ofText "(a [b '(') c]" none).reported? = some (.unmatched, 9, 10) := by
    decide +kernel
  exact ⟨reported, bracket_error_earliest reported (.inr rfl)⟩

end Source
end Lisplet
