import Lisplet.Proofs.Node.Forest
import Lisplet.Proofs.Token.Atoms

/-!
Names in texts. What is read from a text has names that a text can write, and so has every node
that it is parsed into.
-/

namespace Lisplet

/-- If a token is an atom, it has a name that a text can write. -/
def Token.Kind.Named (kind : Token.Kind) : Prop := ∀ a, kind = .atom a → a.Named

namespace Scan

variable {c : Char} {cs rest : List Char} {kind : Token.Kind} {s : Symbol}

/-- A word that starts like nothing else and is no literal is the name of a symbol. -/
theorem lexed_of_word (unbroken : Unbroken (c :: cs)) (plain : c ≠ ':' ∧ c ≠ '"' ∧ c ≠ '\x27')
    (digits : startsNumber c cs = false)
    (symbol : wordAtom (String.ofList (c :: cs)) = .symbol s) : s.Lexed := by
  have read : kinds (c :: cs ++ []) = .ok (.atom (.symbol s)) :: kinds [] := by
    refine kinds_word unbroken plain wordEnd_nil ?_
    rw [if_neg (by simp [digits]), Scan.symbol, symbol]
    rfl
  rw [List.append_nil, kinds] at read
  rw [Symbol.lexed_iff, name_of_wordAtom symbol, String.toList_ofList]
  exact read

/-- Whether `lexed_of_word` applies to a name. -/
def isSymbol (name : List Char) : Bool :=
  match name with
  | [] => false
  | c :: cs =>
    decide (Unbroken (c :: cs) ∧ (c ≠ ':' ∧ c ≠ '"' ∧ c ≠ '\x27') ∧ startsNumber c cs = false ∧
      wordAtom (String.ofList (c :: cs)) = .symbol ⟨String.ofList (c :: cs)⟩)

theorem lexed_of_isSymbol {name : String} (symbol : isSymbol name.toList) :
    Symbol.Lexed ⟨name⟩ := by
  unfold isSymbol at symbol
  split at symbol
  · cases symbol
  · rename_i c cs written
    obtain ⟨unbroken, plain, digits, symbol⟩ := of_decide_eq_true symbol
    rw [← String.ofList_toList (s := name), written]
    exact lexed_of_word unbroken plain digits symbol

theorem named_of_scan (solid : isGap c = false) (read : (scan c rest).outcome = .ok kind) :
    kind.Named := by
  rintro a rfl
  have reading := reading c rest
  generalize scan c rest = found at read reading
  cases reading with
  | bracket bracket =>
    cases read
    unfold bracket? at bracket
    split at bracket <;> cases bracket
  | number _ _ =>
    obtain ⟨_, same⟩ := number_outcome read
    cases same
    trivial
  | comment _ => cases read
  | keyword _ =>
    cases read
    simpa [Atom.Named] using unbroken_word rest
  | string _ =>
    obtain ⟨_, same, -⟩ := string_outcome read
    cases same
    trivial
  | char _ =>
    obtain ⟨_, same⟩ := char_outcome read
    cases same
    trivial
  | symbol bracket comment plain digits =>
    have symbol : wordAtom (String.ofList (c :: word rest)) = a := by
      cases read
      rfl
    cases a with
    | symbol s =>
      exact lexed_of_word (unbroken_cons solid bracket comment (unbroken_word rest)) plain
        ((startsNumber_word c rest).trans digits) symbol
    | keyword k =>
      rcases wordAtom_cases (String.ofList (c :: word rest)) with ⟨b, same⟩ | same | same
      all_goals
        rw [same] at symbol
        cases symbol
    | number | bool | string | char | nil => trivial

theorem named_of_kinds {cs : List Char} (read : .ok kind ∈ kinds cs) : kind.Named := by
  induction cs using kinds.induct with
  | case1 =>
    rw [kinds] at read
    cases read
  | case2 c rest gap ih =>
    rw [kinds_gap gap] at read
    exact ih read
  | case3 c rest solid ih =>
    have solid := Bool.eq_false_iff.mpr solid
    rw [kinds_cons solid, List.mem_cons] at read
    rcases read with first | later
    · exact named_of_scan solid first.symm
    · exact ih later

end Scan

namespace Node

/-- All atoms in a node have names that a text can write. -/
def Named (node : Node) : Prop := ∀ t ∈ node.tokens, t.kind.Named

theorem mem_tokensOf {t : Token} {nodes : List Node} :
    t ∈ tokensOf nodes ↔ ∃ node ∈ nodes, t ∈ node.tokens := by
  induction nodes with
  | nil => simp [tokensOf]
  | cons n ns ih => simp [tokensOf, ih]

theorem named_leaf {a : Atom} {span : Span} : (leaf a span).Named ↔ a.Named := by
  simp [Named, tokens, Token.Kind.Named]

theorem named_group {shape : Shape} {items : List Node} {span : Span} :
    (group shape items span).Named ↔ ∀ node ∈ items, node.Named := by
  constructor
  · intro named node member t written
    refine named t (List.mem_cons_of_mem _ (List.mem_append_left _ ?_))
    exact mem_tokensOf.mpr ⟨node, member, written⟩
  · intro named t written
    rcases List.mem_cons.mp written with rfl | written
    · intro a bracket
      cases bracket
    rcases List.mem_append.mp written with written | written
    · obtain ⟨node, member, written⟩ := mem_tokensOf.mp written
      exact named node member t written
    · obtain rfl := List.mem_singleton.mp written
      intro a bracket
      cases bracket

end Node

/-- Whatever a source is parsed into has names that it writes. -/
theorem Source.named_of_parse {source : Source} {forest : List Node}
    (parsed : source.parse = .ok forest) : ∀ node ∈ forest, node.Named := by
  obtain ⟨tokens, lexemes, written⟩ := tokensOf_parse parsed
  have read := source.lexemes_kinds
  rw [lexemes, List.map_map] at read
  intro node member t inside
  have kept : t ∈ Token.significant tokens := written ▸ Node.mem_tokensOf.mpr ⟨node, member, inside⟩
  have listed : .ok t.kind ∈ Scan.kinds source.chars := by
    rw [← read]
    exact List.mem_map.mpr ⟨t, (List.mem_filter.mp kept).1, rfl⟩
  exact Scan.named_of_kinds listed

end Lisplet
