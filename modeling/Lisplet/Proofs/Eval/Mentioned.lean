import Lisplet.Proofs.Correspondence.Eval
import Lisplet.Session

/-!
Locals that a form does not mention are irrelevant to it. Two evaluations of a node under locals
that agree on the symbols in it come to the same, except for what closures have captured and do
not mention either.
-/

namespace Lisplet

namespace Node

/- The symbols that occur in a node at any depth, also as data or as parameters. -/
mutual
def mentioned : Node → List Symbol
  | leaf (.symbol name) _ => [name]
  | leaf _ _ => []
  | group _ items _ => mentionedIn items

def mentionedIn : List Node → List Symbol
  | [] => []
  | node :: nodes => node.mentioned ++ mentionedIn nodes
end

theorem mem_mentionedIn {name : Symbol} {nodes : List Node} {node : Node} (member : node ∈ nodes)
    (mentions : name ∈ node.mentioned) : name ∈ mentionedIn nodes := by
  induction nodes with
  | nil => cases member
  | cons first rest ih =>
    rw [mentionedIn, List.mem_append]
    rcases List.mem_cons.mp member with rfl | member
    · exact .inl mentions
    · exact .inr (ih member)

end Node

/-- Values that are equal but for what closures have captured: it is alike under the names that
occur in the body. -/
inductive Value.Alike : Value → Value → Prop where
  | atom (a : Atom) : Alike (.atom a) (.atom a)
  | seq (shape : Shape) {items items' : List Value} : List.Forall₂ Alike items items' →
      Alike (.seq shape items) (.seq shape items')
  | builtin (name : Symbol) (operation : Operation) :
      Alike (.builtin name operation) (.builtin name operation)
  | fn (name : Symbol) (params : List Symbol) (body : Node) :
      Alike (.fn name params body) (.fn name params body)
  | closure {captured captured' : Scope Value} (params : List Symbol) (body : Node) :
      (∀ name ∈ body.mentioned,
        Option.Rel Alike (captured.lookup name) (captured'.lookup name)) →
      Alike (.closure captured params body) (.closure captured' params body)

namespace Scope

/-- Each of the names is bound to values that are alike, or in neither scope. -/
def Agree (one two : Scope Value) (names : List Symbol) : Prop :=
  ∀ name ∈ names, Option.Rel Value.Alike (one.lookup name) (two.lookup name)

theorem Agree.define {one two : Scope Value} {names : List Symbol} {v w : Value}
    (agree : one.Agree two names) (name : Symbol) (alike : v.Alike w) :
    (one.define name v).Agree (two.define name w) names := by
  intro key member
  rw [lookup_define, lookup_define]
  split
  · exact .some alike
  · exact agree key member

theorem Agree.item {one two : Scope Value} {items : List Node} {node : Node}
    (agree : one.Agree two (Node.mentionedIn items)) (member : node ∈ items) :
    one.Agree two node.mentioned :=
  fun name mentions => agree name (Node.mem_mentionedIn member mentions)

end Scope

namespace Correspondence

/-- The same node under locals that agree on the symbols in it. -/
def mentioned : Correspondence where
  span := Eq
  value := Value.Alike
  node one two n n' := n = n' ∧ one.Agree two n.mentioned
  value_iff {v v'} := by
    constructor
    · rintro (a | ⟨shape, each⟩ | _ | _ | ⟨params, body, agree⟩)
      · exact .atom a
      · exact .seq shape each
      · exact .builtin _ _
      · exact .fn _ _ ⟨rfl, fun _ _ => .none⟩
      · exact .closure params ⟨rfl, agree⟩
    · rintro (a | ⟨shape, each⟩ | _ | ⟨name, params, ⟨rfl, -⟩⟩ | ⟨params, ⟨rfl, agree⟩⟩)
      · exact .atom a
      · exact .seq shape each
      · exact .builtin _ _
      · exact .fn _ _ _
      · exact .closure params _ agree
  matched {locals locals' n n'} := by
    rintro ⟨rfl, agree⟩
    cases n with
    | leaf a span =>
      refine .leaf rfl ?_
      rintro name rfl
      exact agree name (List.mem_singleton.mpr rfl)
    | group shape items span =>
      exact .group shape rfl (List.forall₂_same.mpr fun node member => ⟨rfl, agree.item member⟩)
  bare both := ⟨both.1, fun _ _ => .none⟩
  define name both alike := ⟨both.1, both.2.define name alike⟩

end Correspondence

theorem Value.Alike.refl (v : Value) : v.Alike v := by
  induction v using Value.induction with
  | atom a => exact .atom a
  | seq shape items ih => exact .seq shape (List.forall₂_same.mpr ih)
  | builtin name operation => exact .builtin name operation
  | fn name params body => exact .fn name params body
  | closure captured params body ih =>
    refine .closure params body fun name _ => ?_
    cases found : captured.lookup name with
    | none => exact .none
    | some v =>
      obtain ⟨entry, first, rfl⟩ := Option.map_eq_some_iff.mp found
      exact .some (ih entry (List.mem_of_find?_eq_some first))

theorem Scope.alike_self (scope : Scope Value) : Correspondence.mentioned.scope scope scope :=
  List.forall₂_same.mpr fun entry _ => ⟨rfl, .refl entry.2⟩

namespace Eval

/-- Making a function does not look at the locals, and the function does not keep them. -/
theorem withLocals_defineFunction (locals : Scope Value) (args : List Node) :
    withLocals locals (defineFunction args) = defineFunction args := by
  match args with
  | [] | [_] | [_, _] | _ :: _ :: _ :: _ :: _ => rfl
  | [name, params, body] =>
    change withLocals locals (needName name >>= fun _ => needParams params >>= _) =
      (needName name >>= fun _ => needParams params >>= _)
    unfold needName needParams
    cases name.symbol? with
    | none => rfl
    | some name =>
      cases params.symbols? with
      | none => rfl
      | some params => rfl

end Eval

/-- Both give values that are alike, or the same error at the same span about values that are
alike; and the globals bind the same names in the same order to values that are alike. -/
abbrev Outcome.Alike : Except EvalError Value × Scope Value → Except EvalError Value × Scope Value →
    Prop :=
  Correspondence.mentioned.Outcome Value.Alike

namespace Eval

/-- The outcome of an evaluation depends on the locals only through the symbols in the node, and
that of a call only through the symbols in the arguments: the body of a function or closure has no
way to the locals of its caller. A function has no way either to the locals of the place where it
was defined, as its definition does not depend on them. -/
theorem alike_of_agree :
    (∀ (ctx : Context) (node : Node) (one two : Scope Value), one.Agree two node.mentioned →
      Outcome.Alike ((eval node).outcome { ctx with locals := one })
        ((eval node).outcome { ctx with locals := two })) ∧
    (∀ (ctx : Context) (f : Value) (args : List Node) (one two : Scope Value),
      (∀ node ∈ args, one.Agree two node.mentioned) →
      Outcome.Alike ((apply eval f args).outcome { ctx with locals := one })
        ((apply eval f args).outcome { ctx with locals := two })) ∧
    ∀ (ctx : Context) (name : Symbol) (args : List Node) (one two : Scope Value),
      (apply eval (.builtin name .defineFunction) args).outcome { ctx with locals := one } =
        (apply eval (.builtin name .defineFunction) args).outcome { ctx with locals := two } := by
  constructor
  · intro ctx node one two agree
    exact eval_corresponds (K := .mentioned) ⟨rfl, agree⟩ rfl rfl ctx.globals.alike_self
  constructor
  · intro ctx f args one two agree
    have each : List.Forall₂ (Correspondence.mentioned.node one two) args args :=
      List.forall₂_same.mpr fun node member => ⟨rfl, agree node member⟩
    exact apply_corresponds (K := .mentioned) (.refl f) each rfl rfl rfl ctx.globals.alike_self
  · intro ctx name args one two
    have under (locals : Scope Value) :
        (defineFunction args).outcome { ctx with locals := locals } =
          (defineFunction args).outcome ctx := by
      have kept := congrFun (withLocals_defineFunction locals args) ctx
      unfold outcome run
      rw [← kept]
      rfl
    exact (under one).trans (under two).symm

/-- A closure is made, and one is called, where the locals have a name that neither mentions. -/
theorem alike_of_agree_closure :
    let x : Symbol := ⟨"x"⟩
    let here : Span := .emptyAt (.ofText "" none) 0
    let body : Node := .leaf (.symbol x) here
    let make : Node :=
      .group .list [.leaf (.symbol ⟨"lambda"⟩) here, .group .vector [] here, body] here
    let one := (Scope.empty.define x (.string "seen")).define ⟨"y"⟩ (.string "unseen")
    let two := Scope.empty.define x (.string "seen")
    let closure : Value := .closure one [⟨"z"⟩] body
    let ctx := Context.fresh 8 false
    one.Agree two make.mentioned ∧
      Outcome.Alike ((eval make).outcome { ctx with locals := one })
        ((eval make).outcome { ctx with locals := two }) ∧
      (∀ node ∈ [body], one.Agree two node.mentioned) ∧
      Outcome.Alike ((apply eval closure [body]).outcome { ctx with locals := one })
        ((apply eval closure [body]).outcome { ctx with locals := two }) := by
  intro x here body make one two closure ctx
  have agree : one.Agree two make.mentioned := by
    intro name member
    rcases List.mem_pair.mp (member : name ∈ [⟨"lambda"⟩, x]) with rfl | rfl
    · exact .none
    · exact .some (.atom _)
  have argument : ∀ node ∈ [body], one.Agree two node.mentioned := by
    intro node member name mentions
    cases List.mem_singleton.mp member
    exact agree name (List.mem_cons_of_mem _ mentions)
  exact ⟨agree, alike_of_agree.1 ctx make one two agree, argument,
    alike_of_agree.2.1 ctx closure [body] one two argument⟩

end Eval
end Lisplet
