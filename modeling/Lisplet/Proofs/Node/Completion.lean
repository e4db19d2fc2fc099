import Lisplet.Proofs.Node.Growing

/-!
Incomplete texts. A text is reported as incomplete if and only if it cannot be parsed and closing
brackets on a new line make it one that can; there is one row of them that does, which closes the
open brackets from the innermost outwards. No other fault is cured by closing brackets.
-/

namespace Lisplet

namespace Growth

variable {g g' : Growth}

def shapes (g : Growth) : List Shape := g.opened.map OpenGroup.shape

theorem shapes_add (g : Growth) (node : Node) : (g.add node).shapes = g.shapes := by
  rcases g with ⟨forms, _ | ⟨inner, outer⟩⟩ <;> rfl

theorem shapes_mapSpan (f : Span → Span) (g : Growth) : (g.mapSpan f).shapes = g.shapes := by
  simp [shapes, mapSpan, OpenGroup.mapSpan]

/-- A forest is finished by the closing brackets of what is open, in their order, and by no
others. -/
theorem finished_iff {tokens : List Token} {closers : List Shape}
    (closing : tokens.map Token.kind = closers.map .closing) :
    (∃ forest, g.readAll (tokens.map .ok) >>= finish = .ok forest) ↔ g.shapes = closers := by
  induction closers generalizing g tokens with
  | nil =>
    obtain rfl := List.map_eq_nil_iff.mp closing
    rcases g with ⟨forms, _ | ⟨inner, outer⟩⟩
    · exact ⟨fun _ => rfl, fun _ => ⟨_, rfl⟩⟩
    · constructor
      · rintro ⟨forest, finished⟩
        cases finished
      · intro none
        cases none
  | cons shape closers ih =>
    obtain ⟨t, tokens, rfl, first, others⟩ := List.map_eq_cons_iff.mp closing
    have fed : g.feed t = g.close shape t.span := by rw [feed, first]
    rw [List.map_cons, readAll_token, fed]
    rcases g with ⟨forms, _ | ⟨inner, outer⟩⟩
    · constructor
      · rintro ⟨forest, finished⟩
        cases finished
      · intro none
        cases none
    · by_cases same : inner.shape = shape
      · subst same
        have closed : close ⟨forms, inner :: outer⟩ inner.shape t.span = .ok (add ⟨forms, outer⟩
            (.group inner.shape inner.items.reverse (inner.opening.through t.span))) := if_pos rfl
        rw [closed]
        refine (ih others).trans ?_
        rw [shapes_add]
        exact (List.cons_inj_right inner.shape).symm
      · have failed : close ⟨forms, inner :: outer⟩ shape t.span = .error ⟨.unmatched, t.span⟩ :=
          if_neg same
        rw [failed]
        constructor
        · rintro ⟨forest, finished⟩
          cases finished
        · exact fun all => absurd (List.cons.inj all).1 same

/-- A row of lexemes does not break off because a bracket is open. -/
theorem fault_of_readAll {lexemes : List (Except LexError Token)} {e : ParseError}
    (failed : g.readAll lexemes = .error e) : e.fault ≠ .unclosed := by
  induction lexemes generalizing g with
  | nil => cases failed
  | cons lexeme rest ih =>
    cases lexeme with
    | error fault =>
      cases failed
      exact nofun
    | ok t =>
      rw [readAll_token] at failed
      cases fed : g.feed t with
      | error fault =>
        rw [fed] at failed
        cases failed
        have offence := offence_of_feed fed
        generalize g.opened.map OpenGroup.bracket = opened at offence
        generalize found : some (Except.ok t) = next at offence
        cases offence with
        | unreadable | unexpected | unmatched => exact nofun
        | unclosed => cases found
      | ok g' =>
        rw [fed] at failed
        exact ih failed

/-- The brackets that are open behind a row of tokens are those for which the row is pending. -/
theorem Grown.readAll {source : Source} {before tokens : List Token} (grown : Grown source g before)
    (placed : ∀ t ∈ tokens, t.Placed source) (read : g.readAll (tokens.map .ok) = .ok g') :
    Grown source g' (before ++ tokens) := by
  induction tokens generalizing g before with
  | nil =>
    cases read
    rwa [List.append_nil]
  | cons t tokens ih =>
    obtain ⟨here, others⟩ := List.forall_mem_cons.mp placed
    rw [List.map_cons, readAll_token] at read
    cases fed : g.feed t with
    | error e =>
      rw [fed] at read
      cases read
    | ok g₁ =>
      rw [fed] at read
      rw [List.append_cons]
      exact ih (grown.feed here fed) others read

end Growth

/-- A row of closing brackets. -/
def Source.ofClosers (closers : List Shape) : Source :=
  .ofText (String.ofList (closers.map Shape.closing)) none

theorem Source.chars_ofClosers (closers : List Shape) :
    (ofClosers closers).chars = closers.map Shape.closing := String.toList_ofList

theorem Scan.lexemes_closers (source : Source) (offset : Nat) (closers : List Shape) :
    ∃ tokens : List Token, lexemes source offset (closers.map Shape.closing) = tokens.map .ok ∧
      tokens.map Token.kind = closers.map .closing := by
  induction closers generalizing offset with
  | nil => exact ⟨[], by rw [List.map_nil, lexemes]; rfl, rfl⟩
  | cons shape closers ih =>
    obtain ⟨tokens, read, kinds⟩ := ih (offset + 1)
    refine ⟨⟨.closing shape, offset, offset + 1, source⟩ :: tokens, ?_, ?_⟩
    · have solid : isGap shape.closing = false := by cases shape <;> rfl
      have found : scan shape.closing (closers.map Shape.closing) = token (.closing shape) 1 := by
        cases shape <;> rfl
      rw [List.map_cons, lexemes_cons solid, found]
      exact congrArg _ read
    · rw [List.map_cons, kinds]
      rfl

theorem Scan.unquoted_closers (closers : List Shape) :
    Unquoted (closers.map Shape.closing) := by
  have plain (shape : Shape) : shape.closing ≠ '"' ∧ shape.closing ≠ '\x27' := by
    cases shape <;> decide
  constructor
  · intro member
    obtain ⟨shape, -, same⟩ := List.mem_map.mp member
    exact (plain shape).1 same
  · intro member
    obtain ⟨shape, -, same⟩ := List.mem_map.mp member
    exact (plain shape).2 same

namespace Source

def Parses (source : Source) : Prop := ∃ forest, source.parse = .ok forest

/-- The text with closing brackets on a new line behind it. -/
def closedBy (source : Source) (closers : List Shape) : Source :=
  { source with text := source.text ++ "\n" ++ String.ofList (closers.map Shape.closing) }

variable {source : Source} {closers : List Shape}

theorem chars_closedBy :
    (source.closedBy closers).chars = source.chars ++ '\n' :: closers.map Shape.closing := by
  simp [chars, closedBy, String.toList_append]

theorem parses_of_isOk (accepted : source.parse.isOk) : source.Parses := by
  cases parsed : source.parse with
  | ok forms => exact ⟨forms, parsed⟩
  | error e =>
    rw [parsed] at accepted
    cases accepted

theorem parses_iff :
    source.Parses ↔ ∃ g, Growth.empty.readAll source.lexemes = .ok g ∧ g.shapes = [] := by
  constructor
  · rintro ⟨forest, parsed⟩
    exact ⟨_, parse_eq_ok_iff.mp parsed, rfl⟩
  · rintro ⟨⟨forms, opened⟩, grown, none⟩
    obtain rfl := List.map_eq_nil_iff.mp none
    exact ⟨forms.reverse, parse_eq_ok_iff.mpr (by rw [grown, List.reverse_reverse])⟩

theorem needsMore_iff :
    source.needsMore ↔ ∃ g, Growth.empty.readAll source.lexemes = .ok g ∧ g.shapes ≠ [] := by
  unfold needsMore
  rw [parse_eq]
  rcases grown : Growth.empty.readAll source.lexemes with
    ⟨fault, span⟩ | ⟨forms, _ | ⟨inner, outer⟩⟩
  · have other := Growth.fault_of_readAll grown
    constructor
    · intro needs
      dsimp only [bind, Except.bind] at needs
      split at needs
      · rename_i same
        cases same
        exact absurd rfl other
      · cases needs
    · rintro ⟨g, grown, -⟩
      cases grown
  · constructor
    · exact nofun
    · rintro ⟨g, grown, opened⟩
      cases grown
      exact absurd rfl opened
  · exact ⟨fun _ => ⟨_, rfl, nofun⟩, fun _ => rfl⟩

/-- Behind a text that reads without a fault, closing brackets complete it if they close the
brackets that are open. -/
theorem parses_closedBy_of_tokens {tokens : List Token} (read : source.lexemes = tokens.map .ok) :
    (source.closedBy closers).Parses ↔
      ∃ g, Growth.empty.readAll source.lexemes = .ok g ∧ g.shapes = closers := by
  have whole : (source.closedBy closers).chars =
      source.chars ++ '\n' :: (ofClosers closers).chars := by
    rw [chars_closedBy, chars_ofClosers]
  obtain ⟨behind, closing, kinds⟩ :=
    Scan.lexemes_closers (source.closedBy closers) (source.length + 1) closers
  rw [Parses, parse_eq, lexemes_joined whole read, chars_ofClosers, closing, Growth.readAll_append,
    readAll_at]
  rcases Growth.empty.readAll source.lexemes with e | g
  · exact ⟨nofun, nofun⟩
  · have behind' := @Growth.finished_iff (g.mapSpan (Span.moved (source.closedBy closers) 0))
      behind closers kinds
    rw [Growth.shapes_mapSpan] at behind'
    refine behind'.trans ⟨fun opened => ⟨g, rfl, opened⟩, ?_⟩
    rintro ⟨_, ⟨⟩, opened⟩
    exact opened

theorem exists_tokens_or_error (lexemes : List (Except LexError Token)) :
    (∃ tokens : List Token, lexemes = tokens.map .ok) ∨ ∃ e, .error e ∈ lexemes := by
  induction lexemes with
  | nil => exact .inl ⟨[], rfl⟩
  | cons lexeme rest ih =>
    cases lexeme with
    | error e => exact .inr ⟨e, List.mem_cons_self⟩
    | ok t =>
      rcases ih with ⟨tokens, rfl⟩ | ⟨e, member⟩
      · exact .inl ⟨t :: tokens, rfl⟩
      · exact .inr ⟨e, List.mem_cons_of_mem _ member⟩

/-- A text with a fault in it is not completed by closing brackets. -/
theorem not_parses_closedBy {e : LexError} (fails : .error e ∈ source.lexemes) :
    ¬ (source.closedBy closers).Parses := by
  rintro ⟨forest, parsed⟩
  obtain ⟨tokens, read, -⟩ := tokensOf_parse parsed
  have here : .error (e.mapSpan (Span.moved (source.closedBy closers) 0)) ∈
      Scan.lexemes (source.closedBy closers) 0 source.chars := by
    rw [← Nat.add_zero 0, Scan.lexemes_moved source, ← source.lexemes_eq]
    exact List.mem_map_of_mem fails
  obtain ⟨e', fails'⟩ := Scan.exists_error_newline here (Scan.unquoted_closers closers)
  rw [← chars_closedBy, ← lexemes_eq, read] at fails'
  obtain ⟨t, -, impossible⟩ := List.mem_map.mp fails'
  cases impossible

/-- Closing brackets complete a text if they close the brackets that are open behind it. -/
theorem parses_closedBy_iff :
    (source.closedBy closers).Parses ↔
      ∃ g, Growth.empty.readAll source.lexemes = .ok g ∧ g.shapes = closers := by
  rcases exists_tokens_or_error source.lexemes with ⟨tokens, read⟩ | ⟨e, fails⟩
  · exact parses_closedBy_of_tokens read
  · constructor
    · intro parses
      exact absurd parses (not_parses_closedBy fails)
    · rintro ⟨g, grown, -⟩
      obtain ⟨tokens, read⟩ := Growth.exists_tokens_of_readAll grown
      rw [read] at fails
      obtain ⟨t, -, impossible⟩ := List.mem_map.mp fails
      cases impossible

/-- The brackets that are open behind an incomplete text, the innermost first. -/
theorem pending_of_readAll {g : Growth} (grown : Growth.empty.readAll source.lexemes = .ok g) :
    ∃ tokens opened, source.lexemes = tokens.map .ok ∧
      Pending (Token.significant tokens) opened ∧
      opened.map Token.kind = g.shapes.map .opening := by
  obtain ⟨tokens, read⟩ := Growth.exists_tokens_of_readAll grown
  have placed : ∀ t ∈ tokens, t.Placed source := by
    intro t member
    have listed : .ok t ∈ source.lexemes := read ▸ List.mem_map_of_mem member
    exact Cursor.lexemes_placed (Cursor.atStart source) t listed
  have stands := (Growth.Grown.empty source).readAll placed (read ▸ grown)
  refine ⟨tokens, g.opened.map OpenGroup.bracket, read, ?_, ?_⟩
  · have pending := g.pending
    rwa [stands.tokens_eq] at pending
  · simp [Growth.shapes, OpenGroup.bracket]

/-- A text is incomplete if it cannot be parsed and there are closing brackets that make it one
that can. There is one such row of closing brackets: those of the open brackets, the innermost
first. A text with any other fault is neither incomplete nor completed by closing brackets. -/
theorem needsMore_iff_completable (source : Source) :
    (source.needsMore ↔ ¬ source.Parses ∧ ∃ closers, (source.closedBy closers).Parses) ∧
    (source.needsMore → ∃ tokens opened closers, source.lexemes = tokens.map .ok ∧
      Pending (Token.significant tokens) opened ∧
      opened.map Token.kind = closers.map .opening ∧
      ∀ others, (source.closedBy others).Parses ↔ others = closers) ∧
    ∀ e, source.parse = .error e → e.fault ≠ .unclosed →
      source.needsMore = false ∧ ∀ closers, ¬ (source.closedBy closers).Parses := by
  have completable : source.needsMore ↔
      ¬ source.Parses ∧ ∃ closers, (source.closedBy closers).Parses := by
    rw [needsMore_iff, parses_iff]
    simp only [parses_closedBy_iff]
    constructor
    · rintro ⟨g, grown, opened⟩
      refine ⟨?_, g.shapes, g, grown, rfl⟩
      rintro ⟨g', grown', none⟩
      cases grown.symm.trans grown'
      exact opened none
    · rintro ⟨unparsed, closers, g, grown, -⟩
      exact ⟨g, grown, fun none => unparsed ⟨g, grown, none⟩⟩
  refine ⟨completable, ?_, ?_⟩
  · intro needs
    obtain ⟨g, grown, -⟩ := needsMore_iff.mp needs
    obtain ⟨tokens, opened, read, pending, kinds⟩ := pending_of_readAll grown
    refine ⟨tokens, opened, g.shapes, read, pending, kinds, fun others => ?_⟩
    rw [parses_closedBy_iff]
    constructor
    · rintro ⟨g', grown', same⟩
      cases grown.symm.trans grown'
      exact same.symm
    · rintro rfl
      exact ⟨g, grown, rfl⟩
  · intro e failed other
    have settled : source.needsMore = false := by
      unfold needsMore
      rw [failed]
      split
      · rename_i same
        cases same
        exact absurd rfl other
      · rfl
    refine ⟨settled, fun closers parses => ?_⟩
    have unparsed : ¬ source.Parses := by
      rintro ⟨forest, parsed⟩
      rw [failed] at parsed
      cases parsed
    have needs := completable.mpr ⟨unparsed, closers, parses⟩
    rw [settled] at needs
    cases needs

theorem needsMore_brackets :
    (Source.ofText "(let [a '(' ; (" none).needsMore ∧
      ∃ tokens opened closers, (Source.ofText "(let [a '(' ; (" none).lexemes = tokens.map .ok ∧
        Pending (Token.significant tokens) opened ∧
        opened.map Token.kind = closers.map .opening ∧
        ∀ others, ((Source.ofText "(let [a '(' ; (" none).closedBy others).Parses ↔
          others = closers := by
  have needs : (Source.ofText "(let [a '(' ; (" none).needsMore := by decide +kernel
  exact ⟨needs, (needsMore_iff_completable _).2.1 needs⟩

end Source
end Lisplet
