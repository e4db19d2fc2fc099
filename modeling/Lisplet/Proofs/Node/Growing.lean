import Lisplet.Proofs.Node.Forest
import Lisplet.Proofs.Token.Row

/-!
Growing a forest over a row of lexemes. Rows are read one after the other, so a text can be cut
between its lexemes; and what has been read keeps its form when its spans are moved, as they are
when the text becomes a part of another one.
-/

namespace Lisplet

namespace Span

/-- The same stretch in a text that has `before` more characters in front of it. -/
def moved (target : Source) (before : Nat) (s : Span) : Span :=
  ⟨before + s.start, before + s.stop, target⟩

/-- A change of spans that can be made before or after two of them are joined. -/
def Joins (f : Span → Span) : Prop := ∀ a b, f (a.through b) = (f a).through (f b)

theorem joins_moved (target : Source) (before : Nat) : Joins (moved target before) :=
  fun _ _ => rfl

end Span

def Token.mapSpan (f : Span → Span) (t : Token) : Token := { t with span := f t.span }

def LexError.mapSpan (f : Span → Span) (e : LexError) : LexError := { e with span := f e.span }

def ParseError.mapSpan (f : Span → Span) (e : ParseError) : ParseError :=
  { e with span := f e.span }

def Token.mapLexeme (f : Span → Span) (lexeme : Except LexError Token) : Except LexError Token :=
  (lexeme.map (mapSpan f)).mapError (LexError.mapSpan f)

namespace Node

mutual
def mapSpan (f : Span → Span) : Node → Node
  | leaf a span => leaf a (f span)
  | group shape items span => group shape (mapSpans f items) (f span)

def mapSpans (f : Span → Span) : List Node → List Node
  | [] => []
  | n :: ns => mapSpan f n :: mapSpans f ns
end

theorem mapSpans_eq_map (f : Span → Span) (nodes : List Node) :
    mapSpans f nodes = nodes.map (mapSpan f) := by
  induction nodes with
  | nil => rfl
  | cons n ns ih => rw [mapSpans, ih, List.map_cons]

end Node

theorem Scan.lexemes_moved (source target : Source) (before offset : Nat) (cs : List Char) :
    lexemes target (before + offset) cs =
      (lexemes source offset cs).map (Token.mapLexeme (Span.moved target before)) := by
  induction offset, cs using lexemes.induct with
  | case1 offset =>
    rw [lexemes, lexemes]
    rfl
  | case2 offset c rest gap ih => rw [lexemes_gap gap, lexemes_gap gap, ← ih, Nat.add_assoc]
  | case3 offset c rest solid ih =>
    have solid := Bool.eq_false_iff.mpr solid
    rw [lexemes_cons solid, lexemes_cons solid, List.map_cons, ← ih, Nat.add_assoc]
    congr 1
    cases scan c rest with
    | token kind length =>
      rw [located, located, Nat.add_assoc]
      rfl
    | fault f start stop length =>
      rw [located, located, Nat.add_assoc, Nat.add_assoc]
      rfl

theorem Source.lexemes_eq (source : Source) :
    source.lexemes = Scan.lexemes source 0 source.chars := Cursor.lexemes_eq _

/-- The tokens of a text that reads without a fault, where it stands in another text. -/
theorem Source.lexemes_moved {source : Source} {tokens : List Token}
    (read : source.lexemes = tokens.map .ok) (target : Source) (before : Nat) :
    Scan.lexemes target before source.chars =
      (tokens.map (Token.mapSpan (Span.moved target before))).map .ok := by
  have moved := Scan.lexemes_moved source target before 0 source.chars
  rw [Nat.add_zero, ← source.lexemes_eq, read, List.map_map] at moved
  rw [moved, List.map_map]
  rfl

/-- A text on a new line behind one that reads without a fault: the tokens of both, in their new
places. -/
theorem Source.lexemes_joined {first second joined : Source} {tokens : List Token}
    (chars : joined.chars = first.chars ++ '\n' :: second.chars)
    (read : first.lexemes = tokens.map .ok) :
    joined.lexemes = Scan.lexemes joined 0 first.chars ++
      Scan.lexemes joined (first.length + 1) second.chars := by
  rw [joined.lexemes_eq, chars, Scan.lexemes_newline (lexemes_moved read joined 0), Nat.zero_add]
  rfl

namespace OpenGroup

def mapSpan (f : Span → Span) (o : OpenGroup) : OpenGroup :=
  ⟨o.shape, f o.opening, o.items.map (Node.mapSpan f)⟩

end OpenGroup

namespace Growth

def mapSpan (f : Span → Span) (g : Growth) : Growth :=
  ⟨g.forms.map (Node.mapSpan f), g.opened.map (OpenGroup.mapSpan f)⟩

/-- The growth that starts behind forms that are finished, the last of them first. -/
def onto (base : List Node) (g : Growth) : Growth := { g with forms := g.forms ++ base }

def read (g : Growth) : Except LexError Token → Except ParseError Growth
  | .ok t => g.feed t
  | .error e => .error (.ofLex e)

/-- The growth behind a row of lexemes. -/
def readAll (g : Growth) (lexemes : List (Except LexError Token)) : Except ParseError Growth :=
  lexemes.foldlM read g

theorem readAll_token (g : Growth) (t : Token) (rest : List (Except LexError Token)) :
    g.readAll (.ok t :: rest) = g.feed t >>= fun g' => g'.readAll rest := rfl

theorem readForest_eq (g : Growth) (lexemes : List (Except LexError Token)) :
    (Parser.readForest g lexemes).1 = g.readAll lexemes >>= finish := by
  induction lexemes generalizing g with
  | nil => rfl
  | cons lexeme rest ih =>
    cases lexeme with
    | error e => rfl
    | ok t =>
      rw [readAll_token, Parser.readForest]
      cases g.feed t with
      | error e => rfl
      | ok g' => exact ih g'

theorem readAll_append (g : Growth) (xs ys : List (Except LexError Token)) :
    g.readAll (xs ++ ys) = g.readAll xs >>= fun g' => g'.readAll ys := List.foldlM_append

/-- Comments make no difference. -/
theorem readAll_significant (g : Growth) (tokens : List Token) :
    g.readAll ((Token.significant tokens).map .ok) = g.readAll (tokens.map .ok) := by
  induction tokens generalizing g with
  | nil => rfl
  | cons t tokens ih =>
    by_cases comment : t.isComment
    · have skipped : Token.significant (t :: tokens) = Token.significant tokens := by
        simp [Token.significant, comment]
      have fed : g.feed t = .ok g := by
        obtain ⟨kind, span⟩ := t
        cases kind with
        | comment text => rfl
        | opening | closing | atom => simp [Token.isComment] at comment
      rw [skipped, List.map_cons, readAll_token, fed, ih]
      rfl
    · have kept : Token.significant (t :: tokens) = t :: Token.significant tokens := by
        simp [Token.significant, comment]
      rw [kept, List.map_cons, List.map_cons, readAll_token, readAll_token]
      cases g.feed t with
      | error e => rfl
      | ok g' => exact ih g'

/-- Nothing is read behind a lexeme that is none. -/
theorem exists_tokens_of_readAll {g g' : Growth} {lexemes : List (Except LexError Token)}
    (read : g.readAll lexemes = .ok g') : ∃ tokens : List Token, lexemes = tokens.map .ok := by
  induction lexemes generalizing g with
  | nil => exact ⟨[], rfl⟩
  | cons lexeme rest ih =>
    cases lexeme with
    | error e => cases read
    | ok t =>
      rw [readAll_token] at read
      cases fed : g.feed t with
      | error e =>
        rw [fed] at read
        cases read
      | ok g₁ =>
        rw [fed] at read
        obtain ⟨tokens, rfl⟩ := ih read
        exact ⟨t :: tokens, rfl⟩

theorem mapSpan_add (f : Span → Span) (g : Growth) (node : Node) :
    (g.add node).mapSpan f = (g.mapSpan f).add (node.mapSpan f) := by
  rcases g with ⟨forms, _ | ⟨inner, outer⟩⟩ <;> rfl

theorem mapSpan_feed {f : Span → Span} (joins : Span.Joins f) (g : Growth) (t : Token) :
    (g.mapSpan f).feed (t.mapSpan f) =
      ((g.feed t).map (mapSpan f)).mapError (ParseError.mapSpan f) := by
  obtain ⟨kind, span⟩ := t
  cases kind with
  | comment | opening => rfl
  | atom a => exact congrArg Except.ok (mapSpan_add f g (.leaf a span)).symm
  | closing shape =>
    rcases g with ⟨forms, _ | ⟨inner, outer⟩⟩
    · rfl
    · simp only [feed, Token.mapSpan, close, mapSpan, List.map_cons]
      by_cases same : inner.shape = shape
      · have here : (inner.mapSpan f).shape = shape := same
        rw [if_pos same, if_pos here]
        refine congrArg Except.ok (Eq.trans ?_ (mapSpan_add f _ _).symm)
        rw [Node.mapSpan, joins, Node.mapSpans_eq_map, List.map_reverse]
        rfl
      · have here : (inner.mapSpan f).shape ≠ shape := same
        rw [if_neg same, if_neg here]
        rfl

theorem mapSpan_readAll {f : Span → Span} (joins : Span.Joins f) (g : Growth)
    (lexemes : List (Except LexError Token)) :
    (g.mapSpan f).readAll (lexemes.map (Token.mapLexeme f)) =
      ((g.readAll lexemes).map (mapSpan f)).mapError (ParseError.mapSpan f) := by
  induction lexemes generalizing g with
  | nil => rfl
  | cons lexeme rest ih =>
    cases lexeme with
    | error e => rfl
    | ok t =>
      have moved : Token.mapLexeme f (.ok t) = .ok (t.mapSpan f) := rfl
      rw [List.map_cons, moved, readAll_token, readAll_token, mapSpan_feed joins]
      cases g.feed t with
      | error e => rfl
      | ok g' => exact ih g'

theorem onto_feed (base : List Node) (g : Growth) (t : Token) :
    (g.onto base).feed t = (g.feed t).map (onto base) := by
  have added (node : Node) (g : Growth) : (g.onto base).add node = (g.add node).onto base := by
    rcases g with ⟨forms, _ | ⟨inner, outer⟩⟩ <;> rfl
  obtain ⟨kind, span⟩ := t
  cases kind with
  | comment | opening => rfl
  | atom a => exact congrArg Except.ok (added (.leaf a span) g)
  | closing shape =>
    rcases g with ⟨forms, _ | ⟨inner, outer⟩⟩
    · rfl
    · simp only [feed, close, onto]
      split
      · exact congrArg Except.ok (added _ ⟨forms, outer⟩)
      · rfl

theorem onto_readAll (base : List Node) (g : Growth) (lexemes : List (Except LexError Token)) :
    (g.onto base).readAll lexemes = (g.readAll lexemes).map (onto base) := by
  induction lexemes generalizing g with
  | nil => rfl
  | cons lexeme rest ih =>
    cases lexeme with
    | error e => rfl
    | ok t =>
      rw [readAll_token, readAll_token, onto_feed]
      cases g.feed t with
      | error e => rfl
      | ok g' => exact ih g'

end Growth

namespace Source

theorem parse_eq (source : Source) :
    source.parse = Growth.empty.readAll source.lexemes >>= Growth.finish :=
  Growth.readForest_eq _ _

theorem parse_eq_ok_iff {source : Source} {forms : List Node} :
    source.parse = .ok forms ↔
      Growth.empty.readAll source.lexemes = .ok ⟨forms.reverse, []⟩ := by
  rw [parse_eq]
  constructor
  · intro parsed
    rcases grown : Growth.empty.readAll source.lexemes with e | ⟨found, _ | ⟨inner, outer⟩⟩
    · rw [grown] at parsed
      cases parsed
    · rw [grown] at parsed
      cases parsed
      rw [List.reverse_reverse]
    · rw [grown] at parsed
      cases parsed
  · intro grown
    rw [grown]
    exact congrArg Except.ok (List.reverse_reverse forms)

theorem parse_eq_error_iff {source : Source} {e : ParseError} :
    source.parse = .error e ↔ Growth.empty.readAll source.lexemes = .error e ∨
      ∃ forms inner outer, Growth.empty.readAll source.lexemes = .ok ⟨forms, inner :: outer⟩ ∧
        e = ⟨.unclosed, inner.opening⟩ := by
  rw [parse_eq]
  rcases Growth.empty.readAll source.lexemes with e' | ⟨forms, _ | ⟨inner, outer⟩⟩
  · constructor
    · rintro ⟨⟩
      exact .inl rfl
    · rintro (⟨⟨⟩⟩ | ⟨_, _, _, ⟨⟩, _⟩)
      rfl
  · constructor
    · rintro ⟨⟩
    · rintro (⟨⟨⟩⟩ | ⟨_, _, _, ⟨⟩, _⟩)
  · constructor
    · rintro ⟨⟩
      exact .inr ⟨forms, inner, outer, rfl, rfl⟩
    · rintro (⟨⟨⟩⟩ | ⟨_, _, _, ⟨⟩, rfl⟩)
      rfl

/-- What a text grows into where it stands in another text. -/
theorem readAll_at (source target : Source) (before : Nat) :
    Growth.empty.readAll (Scan.lexemes target before source.chars) =
      ((Growth.empty.readAll source.lexemes).map
        (Growth.mapSpan (Span.moved target before))).mapError
          (ParseError.mapSpan (Span.moved target before)) := by
  rw [source.lexemes_eq, ← Growth.mapSpan_readAll (Span.joins_moved target before),
    ← Scan.lexemes_moved]
  rfl

theorem growth_of_at {source target : Source} {before : Nat} {g : Growth}
    (grown : Growth.empty.readAll (Scan.lexemes target before source.chars) = .ok g) :
    ∃ g', Growth.empty.readAll source.lexemes = .ok g' ∧
      g'.mapSpan (Span.moved target before) = g := by
  rw [readAll_at] at grown
  cases alone : Growth.empty.readAll source.lexemes with
  | error e =>
    rw [alone] at grown
    cases grown
  | ok g' =>
    rw [alone] at grown
    exact ⟨g', rfl, Except.ok.inj grown⟩

theorem error_of_at {source target : Source} {before : Nat} {e : ParseError}
    (failed : Growth.empty.readAll (Scan.lexemes target before source.chars) = .error e) :
    ∃ e', Growth.empty.readAll source.lexemes = .error e' ∧
      e'.mapSpan (Span.moved target before) = e := by
  rw [readAll_at] at failed
  cases alone : Growth.empty.readAll source.lexemes with
  | error e' =>
    rw [alone] at failed
    exact ⟨e', rfl, Except.error.inj failed⟩
  | ok g =>
    rw [alone] at failed
    cases failed

/-- The growth behind a text that can be parsed, read from where it stands in another text. -/
theorem readAll_moved {source : Source} {forms : List Node} (parsed : source.parse = .ok forms)
    (target : Source) (before : Nat) (base : List Node) :
    (Growth.empty.onto base).readAll (Scan.lexemes target before source.chars) =
      .ok ⟨(forms.map (Node.mapSpan (Span.moved target before))).reverse ++ base, []⟩ := by
  rw [Growth.onto_readAll, readAll_at, parse_eq_ok_iff.mp parsed, ← List.map_reverse]
  rfl

/-- The forest of a text that reads as two others, one behind the other: the forests of both,
moved to where they stand in it. Comments make no difference. -/
theorem parse_append {first second joined : Source} {forms more : List Node} {before : Nat}
    {tokens tokens' : List Token} (here : Scan.lexemes joined 0 first.chars = tokens.map .ok)
    (read : joined.lexemes = tokens'.map .ok ++ Scan.lexemes joined before second.chars)
    (kept : Token.significant tokens' = Token.significant tokens)
    (parsed : first.parse = .ok forms) (parsed' : second.parse = .ok more) :
    joined.parse = .ok (forms.map (Node.mapSpan (Span.moved joined 0)) ++
      more.map (Node.mapSpan (Span.moved joined before))) := by
  have front : Growth.empty.readAll (tokens'.map .ok) =
      .ok ⟨(forms.map (Node.mapSpan (Span.moved joined 0))).reverse, []⟩ := by
    rw [← Growth.readAll_significant, kept, Growth.readAll_significant, ← here,
      ← List.append_nil (List.reverse _)]
    exact readAll_moved parsed joined 0 []
  rw [parse_eq_ok_iff, read, Growth.readAll_append, front, List.reverse_append]
  exact readAll_moved parsed' joined before _

/-- Two texts that can be parsed, on two lines. -/
theorem parse_joined {first second joined : Source} {forms more : List Node}
    (chars : joined.chars = first.chars ++ '\n' :: second.chars)
    (parsed : first.parse = .ok forms) (parsed' : second.parse = .ok more) :
    joined.parse = .ok (forms.map (Node.mapSpan (Span.moved joined 0)) ++
      more.map (Node.mapSpan (Span.moved joined (first.length + 1)))) := by
  obtain ⟨tokens, read, -⟩ := tokensOf_parse parsed
  have here := lexemes_moved read joined 0
  have whole := lexemes_joined chars read
  rw [here] at whole
  exact parse_append here whole rfl parsed parsed'

end Source
end Lisplet
