import Lisplet.Proofs.Produced
import Lisplet.Proofs.Value.Equality

/-!
Reading back what was written. If a value is not legible, the first of its atoms that is not is
read as something else, and what follows cannot make up for it. The values that programs produce
are among those of which this can be said.
-/

namespace Lisplet

namespace Token

theorem map_kind_significant (tokens : List Token) :
    (significant tokens).map Token.kind = Kind.significant (tokens.map Token.kind) := by
  rw [Kind.significant, List.filter_map]
  rfl

end Token

namespace Node

theorem kinds_group (shape : Shape) (items : List Node) (span : Span) :
    (group shape items span).tokens.map Token.kind =
      .opening shape :: ((tokensOf items).map Token.kind ++ [.closing shape]) := by
  simp [tokens]

end Node

/-- A vector is not evaluated any further. -/
theorem Eval.eval_vector {node : Node} {items : List Value}
    (value : node.toValue = .seq .vector items) : eval node = pure (.seq .vector items) := by
  rw [eval_eq_evalNode]
  match node with
  | .leaf a span => cases value
  | .group .vector nodes span => exact congrArg pure value
  | .group .list nodes span =>
    rw [Node.toValue_group] at value
    cases nodes with
    | nil => cases value
    | cons n ns => cases value

namespace Value

variable {rest : List Char} {expected : List Token.Kind}

/-- An atom that is read as an equal one is legible. -/
theorem legible_of_reads_atom {a : Atom} (named : a.Named) {node : Node}
    (equal : node.toValue.isEqual (.atom a)) (ends : Scan.WordEnd rest)
    (reads : Scan.Reads (a.display.toList ++ rest) (node.tokens.map Token.kind ++ expected)) :
    (Value.atom a).Legible ∧ Scan.Reads rest expected := by
  by_cases legible : a.Legible
  · obtain ⟨tail, same, reads⟩ := reads.tail rfl (Atom.kinds_display named legible ends)
    refine ⟨legible_atom.mpr legible, ?_⟩
    cases node with
    | leaf b span =>
      cases same
      exact reads
    | group shape items span =>
      rw [Node.kinds_group] at same
      cases same
  · obtain ⟨found, others, read, other⟩ := Atom.kinds_display_illegible legible ends
    obtain ⟨kind, rfl, next⟩ := reads.head read
    obtain ⟨b, rfl, differs⟩ := other kind rfl
    obtain ⟨tail, same⟩ := next rfl
    cases node with
    | leaf c span =>
      cases same
      rw [Node.toValue, isEqual_atom, differs] at equal
      cases equal
    | group shape items span =>
      rw [Node.kinds_group] at same
      cases same

theorem forall₂_of_isEqual_ofItems {shape : Shape} {xs ys : List Value}
    (equal : (ofItems shape xs).isEqual (.seq shape ys)) :
    List.Forall₂ (fun v w => v.isEqual w) xs ys := by
  match shape, xs with
  | .vector, xs => exact ((isEqual_seq ..).mp equal).2
  | .list, v :: vs => exact ((isEqual_seq ..).mp equal).2
  | .list, [] =>
    rw [ofItems, ofList, not_isEqual_atom_seq] at equal
    cases equal

mutual
/-- A value whose display form is read as a node that denotes an equal value is legible. -/
theorem legible_of_reads : ∀ (v : Value) (node : Node) (rest : List Char)
    (expected : List Token.Kind), v.Proper → node.toValue.isEqual v → Scan.WordEnd rest →
    Scan.Reads (v.render ++ rest) (node.tokens.map Token.kind ++ expected) →
    v.Legible ∧ Scan.Reads rest expected
  | .atom a, node, rest, expected, proper, equal, ends, reads =>
    legible_of_reads_atom (proper.atoms a .self) equal ends reads
  | .seq shape items, node, rest, expected, proper, equal, _, reads => by
    rw [render, List.cons_append, List.append_assoc, List.singleton_append] at reads
    obtain ⟨tail, same, reads⟩ := reads.tail rfl (Scan.kinds_opening ..)
    cases node with
    | leaf a span =>
      rw [Node.toValue, not_isEqual_atom_seq] at equal
      cases equal
    | group shape' nodes span =>
      rw [Node.kinds_group, List.cons_append, List.append_assoc] at same
      cases same
      rw [Node.toValue_group] at equal
      have items := legible_of_reads_items items nodes shape rest expected proper.item
        (forall₂_of_isEqual_ofItems equal) reads
      exact ⟨legible_seq.mpr items.1, items.2⟩
  | .builtin .., _, _, _, _, equal, _, _ | .fn .., _, _, _, _, equal, _, _
  | .closure .., _, _, _, _, equal, _, _ => by
    rw [not_isEqual_callable _ rfl] at equal
    cases equal

theorem legible_of_reads_items : ∀ (items : List Value) (nodes : List Node) (shape : Shape)
    (rest : List Char) (expected : List Token.Kind), (∀ v ∈ items, v.Proper) →
    List.Forall₂ (fun v w => v.isEqual w) (nodes.map Node.toValue) items →
    Scan.Reads (renderItems items ++ shape.closing :: rest)
      ((Node.tokensOf nodes).map Token.kind ++ .closing shape :: expected) →
    (∀ v ∈ items, v.Legible) ∧ Scan.Reads rest expected
  | [], nodes, shape, rest, expected, _, equal, reads => by
    obtain rfl := List.map_eq_nil_iff.mp (List.forall₂_nil_right_iff.mp equal)
    obtain ⟨tail, same, reads⟩ := reads.tail rfl (Scan.kinds_closing ..)
    cases same
    exact ⟨by simp, reads⟩
  | [v], nodes, shape, rest, expected, proper, equal, reads => by
    obtain ⟨u, us, first, others, same⟩ := List.forall₂_cons_right_iff.mp equal
    obtain rfl := List.forall₂_nil_right_iff.mp others
    obtain ⟨node, none, rfl, rfl, others⟩ := List.map_eq_cons_iff.mp same
    obtain rfl := List.map_eq_nil_iff.mp others
    rw [renderItems, Node.tokensOf, Node.tokensOf, List.append_nil] at reads
    obtain ⟨legible, reads⟩ := legible_of_reads v node _ _ (proper v (by simp)) first
      (Scan.wordEnd_closing shape rest) reads
    obtain ⟨tail, same, reads⟩ := reads.tail rfl (Scan.kinds_closing ..)
    cases same
    exact ⟨by simpa using legible, reads⟩
  | v :: w :: vs, nodes, shape, rest, expected, proper, equal, reads => by
    obtain ⟨u, us, first, others, same⟩ := List.forall₂_cons_right_iff.mp equal
    obtain ⟨node, nodes, rfl, rfl, rfl⟩ := List.map_eq_cons_iff.mp same
    obtain ⟨properFirst, properOthers⟩ := List.forall_mem_cons.mp proper
    rw [renderItems, Node.tokensOf, List.map_append, List.append_assoc, List.append_assoc,
      List.cons_append] at reads
    obtain ⟨legible, reads⟩ :=
      legible_of_reads v node _ _ properFirst first (Scan.wordEnd_space _) reads
    rw [Scan.Reads, Scan.kinds_gap rfl] at reads
    obtain ⟨legible', reads⟩ :=
      legible_of_reads_items (w :: vs) nodes shape rest expected properOthers others reads
    exact ⟨List.forall_mem_cons.mpr ⟨legible, legible'⟩, reads⟩
end

theorem legible_of_parse_display {v : Value} {node : Node} {name : Option String} {serial : Nat}
    (proper : v.Proper) (parsed : Source.parse ⟨v.display, name, serial⟩ = .ok [node])
    (equal : node.toValue.isEqual v) : v.Legible := by
  obtain ⟨tokens, lexemes, written⟩ := Source.tokensOf_parse parsed
  have read := Source.lexemes_kinds ⟨v.display, name, serial⟩
  rw [lexemes, List.map_map] at read
  have reads : Scan.Reads (v.render ++ []) (node.tokens.map Token.kind ++ []) := by
    refine ⟨tokens.map Token.kind, ?_, ?_⟩
    · rw [List.append_nil, ← toList_display, List.map_map]
      exact read.symm
    · rw [← Token.map_kind_significant, ← written]
      simp [Node.tokensOf]
  exact (legible_of_reads v node [] [] proper equal Scan.wordEnd_nil reads).1

/-- A legible vector is the value of its display form. -/
theorem produced_vector {items : List Value} (proper : (Value.seq .vector items).Proper)
    (legible : (Value.seq .vector items).Legible) : Produced (.seq .vector items) := by
  obtain ⟨node, parsed, value⟩ := parse_display proper legible none 0
  refine .source ⟨(Value.seq .vector items).display, none, 0⟩ (.fresh 1 false) ?_
  unfold Context.value Context.valueWith Context.read
  rw [parsed]
  simp only [Eval.lastValue, Eval.eval_vector value]
  rfl

/-- Printer and reader agree exactly on the legible values: the display form of a value is read as
one form that denotes an equal value if and only if the value holds no callable, no number that is
not finite, no string with a backslash, and neither the apostrophe nor the backslash as a
character. Asked of the value is only that it is proper, as all are that programs produce. -/
theorem parse_display_iff_legible :
    (∀ (v : Value) (name : Option String) (serial : Nat), v.Proper →
      ((∃ node, Source.parse ⟨v.display, name, serial⟩ = .ok [node] ∧ node.toValue.isEqual v) ↔
        v.Legible)) ∧
    ∀ v, Produced v → v.Proper := by
  constructor
  · intro v name serial proper
    constructor
    · rintro ⟨node, parsed, equal⟩
      exact legible_of_parse_display proper parsed equal
    · intro legible
      obtain ⟨node, parsed, value⟩ := parse_display proper legible name serial
      exact ⟨node, parsed, by rw [value]; exact isEqual_self v legible⟩
  · intro v produced
    exact produced.sound.proper

theorem parse_display_nested :
    Produced (.seq .vector [.symbol ⟨"foo"⟩, .seq .list [.string "\"", .nil]]) ∧
    ∃ node, Source.parse
        ⟨(Value.seq .vector [.symbol ⟨"foo"⟩, .seq .list [.string "\"", .nil]]).display, none, 0⟩ =
      .ok [node] ∧
      node.toValue.isEqual (.seq .vector [.symbol ⟨"foo"⟩, .seq .list [.string "\"", .nil]]) := by
  have named : Symbol.Lexed ⟨"foo"⟩ := Scan.lexed_of_isSymbol (by decide +kernel)
  have proper : (Value.seq .vector
      [.symbol ⟨"foo"⟩, .seq .list [.string "\"", .nil]]).Proper := by
    simp [proper_seq, proper_atom, ofItems, ofList, Atom.Named, named]
  have legible : (Value.seq .vector
      [.symbol ⟨"foo"⟩, .seq .list [.string "\"", .nil]]).Legible := by
    simp [legible_seq, legible_atom, Atom.Legible]
  have produced := produced_vector proper legible
  refine ⟨produced, ?_⟩
  exact (parse_display_iff_legible.1 _ none 0 (parse_display_iff_legible.2 _ produced)).mpr legible

end Value
end Lisplet
