import Lisplet.Node.Parser
import Lisplet.Proofs.Node.Brackets
import Lisplet.Proofs.Token.Placed

/-!
Parsing inverts writing out. A growing forest stands for the tokens it has been fed: those of its
finished forms, then each open group's bracket and items. What has been fed is pending, so the
tokens make a forest if they are balanced, and otherwise the first offending place decides the
error.
-/

namespace Lisplet

namespace OpenGroup

/-- The bracket that is still to be closed. -/
def bracket (o : OpenGroup) : Token := ⟨.opening o.shape, o.opening⟩

def tokens (o : OpenGroup) : List Token := o.bracket :: Node.tokensOf o.items.reverse

end OpenGroup

namespace Growth

/-- The tokens of the open groups, the outermost first. -/
def openTokens : List OpenGroup → List Token
  | [] => []
  | inner :: outer => openTokens outer ++ inner.tokens

def tokens (g : Growth) : List Token := Node.tokensOf g.forms.reverse ++ openTokens g.opened

theorem pending (g : Growth) : Pending g.tokens (g.opened.map OpenGroup.bracket) := by
  unfold tokens
  induction g.opened with
  | nil =>
    rw [openTokens, List.append_nil]
    exact .closed (Node.tokensOf_balanced _)
  | cons inner outer ih =>
    rw [openTokens, ← List.append_assoc]
    exact .opened ih rfl (Node.tokensOf_balanced _)

theorem tokens_add (g : Growth) (node : Node) : (g.add node).tokens = g.tokens ++ node.tokens := by
  rcases g with ⟨forms, _ | ⟨inner, outer⟩⟩
  · simp [add, tokens, openTokens, Node.tokensOf_append, Node.tokensOf]
  · simp [add, tokens, openTokens, OpenGroup.tokens, OpenGroup.bracket, Node.tokensOf_append,
      Node.tokensOf]

theorem brackets_add (g : Growth) (node : Node) :
    (g.add node).opened.map OpenGroup.bracket = g.opened.map OpenGroup.bracket := by
  rcases g with ⟨forms, _ | ⟨inner, outer⟩⟩ <;> rfl

/-- The loop invariant: the growth stands for the significant tokens read so far, and its open
brackets are in the source. -/
structure Grown (source : Source) (g : Growth) (read : List Token) : Prop where
  tokens_eq : g.tokens = Token.significant read
  placed : ∀ b ∈ g.opened.map OpenGroup.bracket, b.Placed source

variable {source : Source} {g g' : Growth} {read : List Token} {t : Token}

theorem Grown.empty (source : Source) : Grown source .empty [] :=
  ⟨rfl, fun _ member => nomatch member⟩

/-- A closed group is written out as the tokens it was read from. -/
theorem tokens_through {shape : Shape} {items : List Node} {first last : Span}
    (opening : Token.Placed source ⟨.opening shape, first⟩)
    (closing : Token.Placed source ⟨.closing shape, last⟩) :
    (Node.group shape items (first.through last)).tokens =
      ⟨.opening shape, first⟩ :: (Node.tokensOf items ++ [⟨.closing shape, last⟩]) := by
  have wide := opening.opening_length shape rfl
  have wide' := closing.closing_length shape rfl
  obtain ⟨start, stop, source'⟩ := first
  obtain ⟨start', stop', source''⟩ := last
  cases opening.source_eq
  cases closing.source_eq
  dsimp only at wide wide'
  subst wide wide'
  simp [Node.tokens, Span.first, Span.last, Span.through]

/-- The step lemma of parsing. -/
theorem Grown.feed (grown : Grown source g read) (placed : t.Placed source)
    (fed : g.feed t = .ok g') : Grown source g' (read ++ [t]) := by
  obtain ⟨written, opened⟩ := grown
  obtain ⟨kind, span⟩ := t
  cases kind with
  | comment text =>
    cases fed
    exact ⟨by rw [written, Token.significant_append]; exact (List.append_nil _).symm, opened⟩
  | opening shape =>
    cases fed
    refine ⟨?_, List.forall_mem_cons.mpr ⟨placed, opened⟩⟩
    rw [Token.significant_append, ← written]
    exact (List.append_assoc ..).symm
  | closing shape =>
    rcases g with ⟨forms, _ | ⟨inner, outer⟩⟩
    · cases fed
    · rw [List.map_cons] at opened
      obtain ⟨first, rest⟩ := List.forall_mem_cons.mp opened
      simp only [Growth.feed, close] at fed
      split at fed
      · rename_i same
        subst same
        cases fed
        refine ⟨?_, by rw [brackets_add]; exact rest⟩
        rw [tokens_add, tokens_through first placed, Token.significant_append, ← written]
        simp [tokens, openTokens, OpenGroup.tokens, OpenGroup.bracket, Token.significant,
          Token.isComment]
      · cases fed
  | atom a =>
    cases fed
    refine ⟨?_, by rw [brackets_add]; exact opened⟩
    rw [tokens_add, Token.significant_append, ← written]
    rfl

theorem offence_of_feed {e : ParseError} (failed : g.feed t = .error e) :
    Offence (g.opened.map OpenGroup.bracket) (some (.ok t)) e := by
  obtain ⟨kind, span⟩ := t
  cases kind with
  | comment | opening | atom => cases failed
  | closing shape =>
    rcases g with ⟨forms, _ | ⟨inner, outer⟩⟩
    · cases failed
      exact .unexpected rfl
    · simp only [feed, close] at failed
      split at failed
      · cases failed
      · rename_i differs
        cases failed
        exact .unmatched rfl rfl differs

end Growth

namespace Parser

variable {source : Source} {g : Growth} {read : List Token}
  {lexemes : List (Except LexError Token)}

/-- The run lemma of a parse that succeeds. -/
theorem tokensOf_readForest (grown : g.Grown source read)
    (placed : ∀ t, .ok t ∈ lexemes → t.Placed source) {forest : List Node}
    (parsed : (readForest g lexemes).1 = .ok forest) :
    ∃ tokens, lexemes = tokens.map .ok ∧
      Node.tokensOf forest = Token.significant (read ++ tokens) := by
  induction lexemes generalizing g read with
  | nil =>
    rcases g with ⟨forms, _ | ⟨inner, outer⟩⟩
    · cases parsed
      refine ⟨[], rfl, ?_⟩
      rw [List.append_nil, ← grown.tokens_eq]
      exact (List.append_nil _).symm
    · cases parsed
  | cons lexeme rest ih =>
    cases lexeme with
    | error e => cases parsed
    | ok t =>
      simp only [readForest] at parsed
      cases fed : g.feed t with
      | error e =>
        rw [fed] at parsed
        cases parsed
      | ok g' =>
        rw [fed] at parsed
        obtain ⟨tokens, same, written⟩ :=
          ih (grown.feed (placed t List.mem_cons_self) fed)
            (fun t member => placed t (List.mem_cons_of_mem _ member)) parsed
        refine ⟨t :: tokens, by rw [same]; rfl, ?_⟩
        rw [written, List.append_assoc]
        rfl

/-- The run lemma of a parse that fails. -/
theorem offence_of_readForest (grown : g.Grown source read)
    (placed : ∀ t, .ok t ∈ lexemes → t.Placed source) {e : ParseError}
    (failed : (readForest g lexemes).1 = .error e) :
    ∃ before after opened, lexemes = before.map .ok ++ after ∧
      Pending (Token.significant (read ++ before)) opened ∧ Offence opened after.head? e := by
  have pending : Pending (Token.significant (read ++ [])) (g.opened.map OpenGroup.bracket) := by
    rw [List.append_nil, ← grown.tokens_eq]
    exact g.pending
  induction lexemes generalizing g read with
  | nil =>
    rcases g with ⟨forms, _ | ⟨inner, outer⟩⟩
    · cases failed
    · cases failed
      exact ⟨[], [], _, rfl, pending, .unclosed⟩
  | cons lexeme rest ih =>
    cases lexeme with
    | error fault =>
      cases failed
      exact ⟨[], _, _, rfl, pending, .unreadable⟩
    | ok t =>
      simp only [readForest] at failed
      cases fed : g.feed t with
      | error fault =>
        rw [fed] at failed
        cases failed
        exact ⟨[], _, _, rfl, pending, Growth.offence_of_feed fed⟩
      | ok g' =>
        rw [fed] at failed
        have grown' := grown.feed (placed t List.mem_cons_self) fed
        obtain ⟨before, after, opened, same, pending, offence⟩ :=
          ih grown' (fun t member => placed t (List.mem_cons_of_mem _ member)) failed
            (by rw [List.append_nil, ← grown'.tokens_eq]; exact g'.pending)
        refine ⟨t :: before, after, opened, by rw [same]; rfl, ?_, offence⟩
        rw [List.append_assoc] at pending
        exact pending

/-- Feeding tokens to a growth leads to another one, from which parsing goes on. -/
def Leads (g : Growth) (tokens : List Token) (g' : Growth) : Prop :=
  ∀ after, (readForest g (tokens.map .ok ++ after)).1 = (readForest g' after).1

theorem Leads.refl (g : Growth) : Leads g [] g := fun _ => rfl

theorem Leads.feed {t : Token} {tokens : List Token} {g g' g'' : Growth} (fed : g.feed t = .ok g')
    (leads : Leads g' tokens g'') : Leads g (t :: tokens) g'' := by
  intro after
  simp only [List.map_cons, List.cons_append, readForest, fed]
  exact leads after

theorem Leads.append {xs ys : List Token} {g g' g'' : Growth} (first : Leads g xs g')
    (last : Leads g' ys g'') : Leads g (xs ++ ys) g'' := by
  intro after
  rw [List.map_append, List.append_assoc, first, last]

/-- Comments make no difference. -/
theorem Leads.of_significant {tokens : List Token} {g g' : Growth}
    (leads : Leads g (Token.significant tokens) g') : Leads g tokens g' := by
  induction tokens generalizing g with
  | nil => exact leads
  | cons t tokens ih =>
    by_cases comment : t.isComment
    · refine Leads.feed ?_ (ih (by simpa [Token.significant, comment] using leads))
      obtain ⟨kind, span⟩ := t
      cases kind with
      | comment text => rfl
      | opening | closing | atom => cases comment
    · have kept : Token.significant (t :: tokens) = t :: Token.significant tokens := by
        simp [Token.significant, comment]
      intro after
      have same := leads after
      rw [kept] at same
      simp only [List.map_cons, List.cons_append, readForest] at same ⊢
      cases fed : g.feed t with
      | error e => simpa [fed] using same
      | ok g₁ =>
        have rest : Leads g₁ (Token.significant tokens) g' := by
          intro after
          simpa [kept, readForest, fed] using leads after
        exact ih rest after

/-- Balanced tokens leave the brackets as they are. -/
theorem leads_of_balanced {tokens : List Token} (balanced : Balanced tokens) (g : Growth) :
    ∃ g', Leads g tokens g' ∧
      g'.opened.map OpenGroup.bracket = g.opened.map OpenGroup.bracket := by
  induction balanced generalizing g with
  | nil => exact ⟨g, .refl g, rfl⟩
  | @atom t a ts leaf _ ih =>
    obtain ⟨g', leads, same⟩ := ih (g.add (.leaf a t.span))
    exact ⟨g', leads.feed (by rw [Growth.feed, leaf]), by rw [same, Growth.brackets_add]⟩
  | @nest o c shape inner rest opening closing _ _ ihInner ihRest =>
    obtain ⟨g₁, inside, same⟩ := ihInner { g with opened := ⟨shape, o.span, []⟩ :: g.opened }
    rcases g₁ with ⟨forms, _ | ⟨group, outer⟩⟩
    · cases same
    · obtain ⟨bracket, outside⟩ := List.cons.inj same
      have shaped : group.shape = shape := by
        simpa [OpenGroup.bracket] using congrArg Token.kind bracket
      have closed : (Growth.mk forms (group :: outer)).feed c =
          .ok (Growth.add ⟨forms, outer⟩
            (.group group.shape group.items.reverse (group.opening.through c.span))) := by
        simp only [Growth.feed, closing, Growth.close, if_pos shaped]
      obtain ⟨g₂, beyond, same⟩ := ihRest (Growth.add ⟨forms, outer⟩
        (.group group.shape group.items.reverse (group.opening.through c.span)))
      refine ⟨g₂, ?_, by rw [same, Growth.brackets_add]; exact outside⟩
      exact Leads.feed (by rw [Growth.feed, opening]) (inside.append (beyond.feed closed))

theorem leads_of_pending {tokens opened : List Token} (pending : Pending tokens opened) :
    ∃ g, Leads .empty tokens g ∧ g.opened.map OpenGroup.bracket = opened := by
  induction pending with
  | closed balanced => exact leads_of_balanced balanced .empty
  | @opened ts outer o shape inner _ opening balanced ih =>
    obtain ⟨g, before, same⟩ := ih
    have fed : g.feed o = .ok { g with opened := ⟨shape, o.span, []⟩ :: g.opened } := by
      rw [Growth.feed, opening]
    obtain ⟨g', inside, same'⟩ := leads_of_balanced balanced
      { g with opened := ⟨shape, o.span, []⟩ :: g.opened }
    refine ⟨g', before.append (inside.feed fed), ?_⟩
    rw [same', List.map_cons, same, OpenGroup.bracket, ← opening]

theorem readForest_offence {opened : List Token} {g : Growth}
    (same : g.opened.map OpenGroup.bracket = opened) {after : List (Except LexError Token)}
    {e : ParseError} (offence : Offence opened after.head? e) :
    (readForest g after).1 = .error e := by
  obtain ⟨forms, groups⟩ := g
  cases after with
  | nil =>
    generalize ended : ([] : List (Except LexError Token)).head? = next at offence
    cases offence with
    | unreadable | unexpected | unmatched => cases ended
    | unclosed =>
      obtain ⟨inner, outer, rfl, rfl, -⟩ := List.map_eq_cons_iff.mp same
      rfl
  | cons lexeme rest =>
    rw [List.head?_cons] at offence
    cases offence with
    | unreadable => rfl
    | unexpected closing =>
      obtain rfl := List.map_eq_nil_iff.mp same
      simp only [readForest, Growth.feed, closing, Growth.close]
    | unmatched opening closing differs =>
      obtain ⟨inner, outer, rfl, rfl, -⟩ := List.map_eq_cons_iff.mp same
      cases opening
      simp only [readForest, Growth.feed, closing, Growth.close, if_neg differs]

end Parser

theorem parseTokens_of_offence {lexemes : List (Except LexError Token)} {e : ParseError}
    (first : FirstOffence lexemes e) : parseTokens lexemes = .error e := by
  obtain ⟨before, after, opened, rfl, pending, offence⟩ := first
  obtain ⟨g, leads, same⟩ := Parser.leads_of_pending pending
  exact (leads.of_significant after).trans (Parser.readForest_offence same offence)

theorem parseTokens_of_balanced {tokens : List Token}
    (balanced : Balanced (Token.significant tokens)) :
    ∃ forest, parseTokens (tokens.map .ok) = .ok forest := by
  obtain ⟨⟨forms, groups⟩, leads, same⟩ := Parser.leads_of_pending (.closed balanced)
  obtain rfl := List.map_eq_nil_iff.mp same
  refine ⟨forms.reverse, ?_⟩
  have parsed := leads.of_significant []
  rwa [List.append_nil] at parsed

namespace Source

theorem tokensOf_parse {source : Source} {forest : List Node}
    (parsed : source.parse = .ok forest) :
    ∃ tokens, source.lexemes = tokens.map .ok ∧
      Node.tokensOf forest = Token.significant tokens :=
  Parser.tokensOf_readForest (.empty source) (Cursor.lexemes_placed _) parsed

/-- A source has a forest if it can be read to its end and its brackets are balanced; written out,
the forest is the row of tokens that was read. Otherwise the error is that of the first offending
place, and it is never the fault of a parser that has lost its way. -/
theorem parse_bracketing (source : Source) :
    ((∃ forest, source.parse = .ok forest) ↔
      ∃ tokens, source.lexemes = tokens.map .ok ∧ Balanced (Token.significant tokens)) ∧
    (∀ forest, source.parse = .ok forest → ∃ tokens, source.lexemes = tokens.map .ok ∧
      Node.tokensOf forest = Token.significant tokens) ∧
    (∀ e, source.parse = .error e ↔ FirstOffence source.lexemes e) ∧
    ∀ span, source.parse ≠ .error ⟨.unreachable, span⟩ := by
  have first (e : ParseError) : source.parse = .error e ↔ FirstOffence source.lexemes e := by
    constructor
    · exact Parser.offence_of_readForest (.empty source) (Cursor.lexemes_placed _)
    · exact parseTokens_of_offence
  refine ⟨?_, ?_, first, ?_⟩
  · constructor
    · rintro ⟨forest, parsed⟩
      obtain ⟨tokens, read, written⟩ := tokensOf_parse parsed
      exact ⟨tokens, read, written ▸ Node.tokensOf_balanced forest⟩
    · rintro ⟨tokens, read, balanced⟩
      obtain ⟨forest, parsed⟩ := parseTokens_of_balanced balanced
      exact ⟨forest, by rw [← parsed, ← read]; rfl⟩
  · intro forest parsed
    exact tokensOf_parse parsed
  · intro span lost
    obtain ⟨before, after, opened, -, -, offence⟩ := (first _).mp lost
    generalize reported : ParseError.mk .unreachable span = e at offence
    generalize after.head? = next at offence
    cases offence with
    | unreadable | unexpected | unmatched | unclosed => cases reported

theorem parse_bracketing_nested :
    ∃ forest, (Source.ofText "[(a ;\n b) c]" none).parse = .ok forest ∧
      ∃ tokens, (Source.ofText "[(a ;\n b) c]" none).lexemes = tokens.map .ok ∧
        Node.tokensOf forest = Token.significant tokens := by
  have succeeds : (Source.ofText "[(a ;\n b) c]" none).parse.isOk := by decide +kernel
  cases parsed : (Source.ofText "[(a ;\n b) c]" none).parse with
  | error e =>
    rw [parsed] at succeeds
    cases succeeds
  | ok forest => exact ⟨forest, rfl, (parse_bracketing _).2.1 forest parsed⟩

end Source
end Lisplet
