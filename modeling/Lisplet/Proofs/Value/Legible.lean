import Lisplet.Proofs.Node.Forest
import Lisplet.Proofs.Token.Atoms
import Lisplet.Proofs.Value.Structural

/-!
Legible values. A value is legible if everything in it is data that its display form tells; the
display form is then read as the one form that denotes the value.
-/

namespace Lisplet

namespace Value

/-- What a value holds at any depth, itself included. -/
inductive Holds : Value → Value → Prop where
  | self {v} : Holds v v
  | item {shape items v w} : v ∈ items → Holds v w → Holds (.seq shape items) w

/-- Names are names that a text can write, and the empty list is nil. -/
structure Proper (v : Value) : Prop where
  atoms : ∀ a, v.Holds (.atom a) → a.Named
  lists : ¬ v.Holds (.seq .list [])

/-- Nothing in a value can be called. -/
def Data (v : Value) : Prop := ∀ w, v.Holds w → w.isCallable = false

structure Legible (v : Value) : Prop where
  atoms : ∀ a, v.Holds (.atom a) → a.Legible
  data : v.Data

variable {v : Value} {shape : Shape} {items : List Value} {a : Atom}

theorem Proper.item (proper : (Value.seq shape items).Proper) : ∀ v ∈ items, v.Proper := by
  intro v member
  constructor
  · intro a held
    exact proper.atoms a (.item member held)
  · intro held
    exact proper.lists (.item member held)

theorem Proper.ofItems_eq (proper : (Value.seq shape items).Proper) :
    ofItems shape items = .seq shape items := by
  cases shape with
  | vector => rfl
  | list =>
    cases items with
    | nil => exact absurd .self proper.lists
    | cons v vs => rfl

theorem proper_atom : (Value.atom a).Proper ↔ a.Named := by
  constructor
  · intro proper
    exact proper.atoms a .self
  · intro named
    constructor
    · intro b held
      cases held
      exact named
    · intro held
      cases held

theorem proper_seq : (Value.seq shape items).Proper ↔
    ofItems shape items = .seq shape items ∧ ∀ v ∈ items, v.Proper := by
  constructor
  · intro proper
    refine ⟨proper.ofItems_eq, proper.item⟩
  · rintro ⟨nonempty, proper⟩
    constructor
    · intro a held
      cases held with
      | item member held => exact (proper _ member).atoms a held
    · intro held
      cases held with
      | self => cases nonempty
      | item member held => exact (proper _ member).lists held

theorem data_atom (a : Atom) : (Value.atom a).Data := by
  intro w held
  cases held
  rfl

theorem data_seq : (Value.seq shape items).Data ↔ ∀ v ∈ items, v.Data := by
  constructor
  · intro data v member w held
    exact data w (.item member held)
  · intro data w held
    cases held with
    | self => rfl
    | item member held => exact data _ member w held

theorem legible_atom : (Value.atom a).Legible ↔ a.Legible := by
  constructor
  · intro legible
    exact legible.atoms a .self
  · intro legible
    constructor
    · intro b held
      cases held
      exact legible
    · exact data_atom a

theorem legible_seq : (Value.seq shape items).Legible ↔ ∀ v ∈ items, v.Legible := by
  constructor
  · intro legible v member
    constructor
    · intro a held
      exact legible.atoms a (.item member held)
    · exact data_seq.mp legible.data v member
  · intro legible
    constructor
    · intro a held
      cases held with
      | item member held => exact (legible _ member).atoms a held
    · exact data_seq.mpr fun v member => (legible v member).data

mutual
/-- The tokens of the display form. -/
def kinds : Value → List Token.Kind
  | atom a => [.atom a]
  | seq shape items => .opening shape :: (kindsOf items ++ [.closing shape])
  | _ => []

def kindsOf : List Value → List Token.Kind
  | [] => []
  | v :: vs => kinds v ++ kindsOf vs
end

mutual
theorem kinds_render : ∀ (v : Value) (rest : List Char), v.Proper → v.Legible →
    Scan.WordEnd rest → Scan.kinds (v.render ++ rest) = v.kinds.map .ok ++ Scan.kinds rest
  | .atom a, rest, proper, legible, ends =>
    Atom.kinds_display (proper.atoms a .self) (legible_atom.mp legible) ends
  | .seq shape items, rest, proper, legible, _ => by
    rw [render, List.cons_append, Scan.kinds_opening, List.append_assoc, List.singleton_append,
      kinds_renderItems items shape rest proper.item (legible_seq.mp legible)]
    simp [kinds]
  | .builtin .., _, _, legible, _ | .fn .., _, _, legible, _ | .closure .., _, _, legible, _ => by
    cases legible.data _ .self

theorem kinds_renderItems : ∀ (items : List Value) (shape : Shape) (rest : List Char),
    (∀ v ∈ items, v.Proper) → (∀ v ∈ items, v.Legible) →
    Scan.kinds (renderItems items ++ shape.closing :: rest) =
      (kindsOf items).map .ok ++ .ok (.closing shape) :: Scan.kinds rest
  | [], shape, rest, _, _ => Scan.kinds_closing shape rest
  | [v], shape, rest, proper, legible => by
    have first := kinds_render v (shape.closing :: rest) (proper v (by simp))
      (legible v (by simp)) (Scan.wordEnd_closing shape rest)
    rw [renderItems, first, Scan.kinds_closing]
    simp [kindsOf]
  | v :: w :: vs, shape, rest, proper, legible => by
    obtain ⟨properFirst, properOthers⟩ := List.forall_mem_cons.mp proper
    obtain ⟨legibleFirst, legibleOthers⟩ := List.forall_mem_cons.mp legible
    have others := kinds_renderItems (w :: vs) shape rest properOthers legibleOthers
    rw [renderItems, List.append_assoc, List.cons_append,
      kinds_render v _ properFirst legibleFirst (Scan.wordEnd_space _), Scan.kinds_gap rfl, others]
    simp [kindsOf]
end

end Value

namespace Growth

def addAll (g : Growth) (nodes : List Node) : Growth := nodes.foldl add g

theorem addAll_opened (forms : List Node) (inner : OpenGroup) (outer : List OpenGroup)
    (nodes : List Node) :
    addAll ⟨forms, inner :: outer⟩ nodes =
      ⟨forms, { inner with items := nodes.reverse ++ inner.items } :: outer⟩ := by
  unfold addAll
  induction nodes generalizing inner with
  | nil => rfl
  | cons n ns ih =>
    rw [List.foldl_cons, add, ih]
    simp

end Growth

namespace Value

mutual
/-- The tokens of a value grow into the one node that denotes it. -/
theorem leads_value : ∀ (v : Value) (tokens : List Token) (g : Growth), v.Proper → v.Legible →
    tokens.map Token.kind = v.kinds →
    ∃ node : Node, Parser.Leads g tokens (g.add node) ∧ node.toValue = v
  | .atom a, tokens, g, _, _, same => by
    obtain ⟨t, rest, rfl, kind, none⟩ := List.map_eq_cons_iff.mp same
    obtain rfl := List.map_eq_nil_iff.mp none
    refine ⟨.leaf a t.span, Parser.Leads.feed ?_ (.refl _), rfl⟩
    rw [Growth.feed, kind]
  | .seq shape items, tokens, g, proper, legible, same => by
    obtain ⟨o, rest, rfl, opening, same⟩ := List.map_eq_cons_iff.mp same
    obtain ⟨inner, last, rfl, inside, same⟩ := List.map_eq_append_iff.mp same
    obtain ⟨c, none, rfl, closing, same⟩ := List.map_eq_cons_iff.mp same
    obtain rfl := List.map_eq_nil_iff.mp same
    obtain ⟨nodes, leads, values⟩ := leads_values items inner
      ⟨g.forms, ⟨shape, o.span, []⟩ :: g.opened⟩ proper.item (legible_seq.mp legible) inside
    rw [Growth.addAll_opened] at leads
    refine ⟨.group shape nodes (o.span.through c.span), ?_, ?_⟩
    · have closed : Growth.feed ⟨g.forms, ⟨shape, o.span, nodes.reverse ++ []⟩ :: g.opened⟩ c =
          .ok (g.add (.group shape nodes (o.span.through c.span))) := by
        simp [Growth.feed, closing, Growth.close]
      exact Parser.Leads.feed (by rw [Growth.feed, opening])
        (leads.append (Parser.Leads.feed closed (.refl _)))
    · rw [Node.toValue_group, values, proper.ofItems_eq]
  | .builtin .., _, _, _, legible, _ | .fn .., _, _, _, legible, _
  | .closure .., _, _, _, legible, _ => by
    cases legible.data _ .self

theorem leads_values : ∀ (items : List Value) (tokens : List Token) (g : Growth),
    (∀ v ∈ items, v.Proper) → (∀ v ∈ items, v.Legible) → tokens.map Token.kind = kindsOf items →
    ∃ nodes : List Node, Parser.Leads g tokens (g.addAll nodes) ∧ nodes.map Node.toValue = items
  | [], tokens, g, _, _, same => by
    obtain rfl := List.map_eq_nil_iff.mp same
    exact ⟨[], .refl g, rfl⟩
  | v :: vs, tokens, g, proper, legible, same => by
    obtain ⟨properFirst, properOthers⟩ := List.forall_mem_cons.mp proper
    obtain ⟨legibleFirst, legibleOthers⟩ := List.forall_mem_cons.mp legible
    obtain ⟨first, others, rfl, same, same'⟩ := List.map_eq_append_iff.mp same
    obtain ⟨node, leads, value⟩ := leads_value v first g properFirst legibleFirst same
    obtain ⟨nodes, leads', values⟩ :=
      leads_values vs others (g.add node) properOthers legibleOthers same'
    exact ⟨node :: nodes, leads.append leads', by rw [List.map_cons, value, values]⟩
end

/-- A legible value is what its display form is read as. -/
theorem parse_display {v : Value} (proper : v.Proper) (legible : v.Legible)
    (name : Option String) (serial : Nat) :
    ∃ node, Source.parse ⟨v.display, name, serial⟩ = .ok [node] ∧ node.toValue = v := by
  have read := Source.lexemes_kinds ⟨v.display, name, serial⟩
  have written := kinds_render v [] proper legible Scan.wordEnd_nil
  rw [List.append_nil, Scan.kinds, List.append_nil, ← toList_display] at written
  obtain ⟨tokens, lexemes, same⟩ := Token.exists_of_outcomes (read.trans written)
  obtain ⟨node, leads, value⟩ := leads_value v tokens .empty proper legible same
  refine ⟨node, ?_, value⟩
  have parsed := leads []
  rw [List.append_nil, ← lexemes] at parsed
  exact parsed

end Value
end Lisplet
