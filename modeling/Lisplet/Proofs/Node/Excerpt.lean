import Lisplet.Proofs.Node.Growing

/-!
Excerpts. The text that a node spans reads as that node alone, wherever in a program the node
stands: its tokens stand together but for comments, and no token needs what is cut off.
-/

namespace Lisplet

namespace Token

/-- A row of tokens is cut at one that is no comment. -/
theorem exists_cut {tokens before after : List Token} {t : Token}
    (written : significant tokens = before ++ t :: after) :
    ∃ left right, tokens = left ++ t :: right ∧ significant left = before ∧
      significant right = after ∧ t.isComment = false := by
  obtain ⟨left, rest, rfl, front, kept⟩ := List.filter_eq_append_iff.mp written
  obtain ⟨skipped, right, rfl, comments, solid, behind⟩ := List.filter_eq_cons_iff.mp kept
  refine ⟨left ++ skipped, right, by simp, ?_, behind, by simpa using solid⟩
  have none : significant skipped = [] := by simpa [significant] using comments
  rw [significant_append, none, List.append_nil]
  exact front

/-- Tokens that stand together but for comments are cut out with only the comments between them. -/
theorem exists_group {tokens before group after : List Token} {first last : Token}
    (written : significant tokens = before ++ (group ++ after))
    (starts : group.head? = some first) (ends : group.getLast? = some last) :
    ∃ left inner right, tokens = left ++ (inner ++ right) ∧ significant inner = group ∧
      inner.head? = some first ∧ inner.getLast? = some last := by
  obtain ⟨tail, rfl⟩ := List.head?_eq_some_iff.mp starts
  obtain ⟨left, rest, rfl, -, kept, solid⟩ := exists_cut written
  rcases List.eq_nil_or_concat tail with rfl | ⟨middle, t, rfl⟩
  · cases ends
    exact ⟨left, [first], rest, rfl, by simp [significant, solid], rfl, rfl⟩
  · obtain rfl : t = last := by simpa [List.getLast?_cons] using ends
    have kept : significant rest = middle ++ t :: after := by simpa using kept
    obtain ⟨inner, right, rfl, same, -, solid'⟩ := exists_cut kept
    refine ⟨left, first :: (inner ++ [t]), right, by simp, ?_, rfl, by simp [List.getLast?_cons]⟩
    rw [← same]
    simp [significant, solid, solid']

end Token

namespace Node

/-- The nodes right inside a group. -/
def items : Node → List Node
  | leaf .. => []
  | group _ items _ => items

/-- The nodes of a forest, at every depth. -/
inductive Occurs (forest : List Node) : Node → Prop where
  | root {node : Node} : node ∈ forest → Occurs forest node
  | item {outer node : Node} : Occurs forest outer → node ∈ outer.items → Occurs forest node

theorem exists_tokensOf {forest : List Node} {node : Node} (member : node ∈ forest) :
    ∃ before after, tokensOf forest = before ++ (node.tokens ++ after) := by
  obtain ⟨left, right, rfl⟩ := List.append_of_mem member
  exact ⟨tokensOf left, tokensOf right, tokensOf_append left (node :: right)⟩

/-- The tokens of a node stand together in those of the forest. -/
theorem Occurs.exists_tokens {forest : List Node} {node : Node} (occurs : Occurs forest node) :
    ∃ before after, tokensOf forest = before ++ (node.tokens ++ after) := by
  induction occurs with
  | root member => exact exists_tokensOf member
  | @item outer node _ member ih =>
    obtain ⟨before, after, whole⟩ := ih
    cases outer with
    | leaf => simp [items] at member
    | group shape nodes span =>
      obtain ⟨before', after', inner⟩ := exists_tokensOf member
      refine ⟨before ++ ⟨.opening shape, span.first⟩ :: before',
        after' ++ ⟨.closing shape, span.last⟩ :: after, ?_⟩
      rw [items] at inner
      rw [whole, tokens, inner]
      simp

/-- A node is written from its first character. -/
theorem exists_first (node : Node) : ∃ t, node.tokens.head? = some t ∧
    t.span.start = node.span.start ∧ t.span.source = node.span.source := by
  cases node with
  | leaf a span => exact ⟨_, rfl, rfl, rfl⟩
  | group shape items span => exact ⟨_, rfl, rfl, rfl⟩

/-- A node is written up to its last character. -/
theorem exists_last (node : Node) : ∃ t, node.tokens.getLast? = some t ∧
    t.span.stop = node.span.stop := by
  cases node with
  | leaf a span => exact ⟨_, rfl, rfl⟩
  | group shape items span =>
    refine ⟨⟨.closing shape, span.last⟩, ?_, rfl⟩
    exact List.getLast?_eq_some_iff.mpr ⟨⟨.opening shape, span.first⟩ :: tokensOf items, rfl⟩

end Node

namespace Growth

theorem foldl_add_opened (forms : List Node) (inner : OpenGroup) (outer : List OpenGroup)
    (nodes : List Node) :
    nodes.foldl add ⟨forms, inner :: outer⟩ =
      ⟨forms, { inner with items := nodes.reverse ++ inner.items } :: outer⟩ := by
  induction nodes generalizing inner with
  | nil => rfl
  | cons node nodes ih => simp [add, ih]

/- Reading what a node is written as adds the node. -/
mutual
theorem readAll_tokens : ∀ (node : Node) (g : Growth),
    g.readAll (node.tokens.map .ok) = .ok (g.add node)
  | .leaf a span, g => rfl
  | .group shape items span, g => by
    have opened := readAll_tokensOf items ⟨g.forms, ⟨shape, span.first, []⟩ :: g.opened⟩
    rw [foldl_add_opened, List.append_nil] at opened
    have closed : feed ⟨g.forms, ⟨shape, span.first, items.reverse⟩ :: g.opened⟩
        ⟨.closing shape, span.last⟩ = .ok (g.add (.group shape items span)) := by
      simp [feed, close, Span.through, Span.first, Span.last]
    have ended : readAll ⟨g.forms, ⟨shape, span.first, items.reverse⟩ :: g.opened⟩
        [.ok ⟨.closing shape, span.last⟩] = .ok (g.add (.group shape items span)) := by
      rw [readAll_token, closed]
      rfl
    rw [Node.tokens, List.map_cons, List.map_append, readAll_token]
    change readAll ⟨g.forms, ⟨shape, span.first, []⟩ :: g.opened⟩ _ = _
    rw [readAll_append, opened]
    exact ended

theorem readAll_tokensOf : ∀ (nodes : List Node) (g : Growth),
    g.readAll ((Node.tokensOf nodes).map .ok) = .ok (nodes.foldl add g)
  | [], g => rfl
  | node :: nodes, g => by
    rw [Node.tokensOf, List.map_append, readAll_append, readAll_tokens node g]
    exact readAll_tokensOf nodes (g.add node)
end

end Growth

namespace Source

variable {source : Source} {forest : List Node} {node : Node}

/-- The characters of a node, and the tokens that are read from them. -/
theorem exists_excerpt (parsed : source.parse = .ok forest) (occurs : node.Occurs forest) :
    ∃ first body rest inner, source.chars = first ++ (body ++ rest) ∧
      node.span = ⟨first.length, first.length + body.length, source⟩ ∧
      Scan.lexemes source first.length body = inner.map .ok ∧
      Token.significant inner = node.tokens := by
  obtain ⟨tokens, read, written⟩ := tokensOf_parse parsed
  obtain ⟨before, after, inside⟩ := occurs.exists_tokens
  obtain ⟨t, starts, start, origin⟩ := node.exists_first
  obtain ⟨last, ends, stop⟩ := node.exists_last
  obtain ⟨left, inner, right, rfl, kept, starts, ends⟩ :=
    Token.exists_group (written.symm.trans inside) starts ends
  have placed : t.Placed source := by
    obtain ⟨tail, rfl⟩ := List.head?_eq_some_iff.mp starts
    apply Cursor.lexemes_placed (Cursor.atStart source) t
    change .ok t ∈ source.lexemes
    simp [read]
  -- The text is cut in front of the node's first token, and then right behind its last one.
  rw [lexemes_eq, List.map_append] at read
  obtain ⟨first, rest, chars, -, others, -, solid⟩ := Scan.exists_row read
  rw [Nat.zero_add] at others
  have starting : t.span.start = first.length := by
    obtain ⟨tail, rfl⟩ := List.head?_eq_some_iff.mp starts
    exact Scan.start_of_lexemes solid others
  obtain ⟨front, rfl⟩ := List.getLast?_eq_some_iff.mp ends
  obtain ⟨body, rest, rfl, row, ending⟩ :=
    (Scan.row_of_lexemes others).cut (List.append_assoc front [last] right)
  refine ⟨first, body, rest, front ++ [last], chars, ?_, row.lexemes_eq, kept⟩
  have whole : node.span = ⟨node.span.start, node.span.stop, node.span.source⟩ := rfl
  rw [whole, ← start, starting, ← stop, ending, ← origin, placed.source_eq]

/-- Every node of a text that can be parsed can be cut out of it: the characters that it spans are
parsed into one form, which is the node but that all offsets are counted from the node's own
start. -/
theorem parse_excerpt (parsed : source.parse = .ok forest) (occurs : node.Occurs forest)
    {excerpt : Source} (cut : excerpt.text = node.span.text) :
    ∃ form, excerpt.parse = .ok [form] ∧
      form.mapSpan (Span.moved source node.span.start) = node := by
  obtain ⟨first, body, rest, inner, chars, span, read, kept⟩ := exists_excerpt parsed occurs
  have text : excerpt.chars = body := by
    rw [Source.chars, cut, Span.text, span, slice, chars, String.toList_ofList,
      ← List.append_assoc, ← List.length_append, List.take_left, List.drop_left]
  have grown : Growth.empty.readAll (Scan.lexemes source first.length excerpt.chars) =
      .ok (Growth.empty.add node) := by
    rw [text, read, ← Growth.readAll_significant, kept, Growth.readAll_tokens]
  obtain ⟨⟨forms, opened⟩, alone, same⟩ := growth_of_at grown
  obtain ⟨one, none⟩ := Growth.mk.inj same
  obtain rfl := List.map_eq_nil_iff.mp none
  obtain ⟨form, others, rfl, moved, ended⟩ := List.map_eq_cons_iff.mp one
  obtain rfl := List.map_eq_nil_iff.mp ended
  refine ⟨form, parse_eq_ok_iff.mpr alone, ?_⟩
  rw [span, moved]

theorem parse_excerpt_vector :
    ∃ forest node, (ofText "(f [x \")\" ; c\n 'b'])" none).parse = .ok forest ∧
      node.Occurs forest ∧ node.span.text = "[x \")\" ; c\n 'b']" ∧
      ∃ form, (ofText "[x \")\" ; c\n 'b']" none).parse = .ok [form] ∧
        form.mapSpan (Span.moved (ofText "(f [x \")\" ; c\n 'b'])" none) 3) = node := by
  have listed : ((ofText "(f [x \")\" ; c\n 'b'])" none).parse.toOption.any fun forest =>
      forest.any fun outer => outer.items.any fun node =>
        node.span.start == 3 && node.span.text == "[x \")\" ; c\n 'b']") = true := by
    decide +kernel
  cases parsed : (ofText "(f [x \")\" ; c\n 'b'])" none).parse with
  | error e =>
    rw [parsed] at listed
    cases listed
  | ok forest =>
    rw [parsed] at listed
    simp only [Except.toOption, Option.any_some, List.any_eq_true, Bool.and_eq_true,
      beq_iff_eq] at listed
    obtain ⟨outer, root, node, item, start, text⟩ := listed
    have occurs : node.Occurs forest := .item (.root root) item
    obtain ⟨form, alone, moved⟩ :=
      @parse_excerpt _ _ _ parsed occurs (ofText "[x \")\" ; c\n 'b']" none) text.symm
    rw [start] at moved
    exact ⟨forest, node, rfl, occurs, text, form, alone, moved⟩

end Source
end Lisplet
