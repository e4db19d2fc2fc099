import Lisplet.Proofs.Correspondence.Eval
import Lisplet.Proofs.Correspondence.Self
import Lisplet.Proofs.Eval.Blame
import Lisplet.Proofs.Eval.Own
import Lisplet.Proofs.Node.Excerpt
import Lisplet.Proofs.Value.Sound

/-!
Where evaluations come from. What a session evaluates stands in one of its texts: the forms that
it is given, and the bodies of the functions and closures that earlier texts have made. So an
error is blamed on something in one of these texts, on a name that has no value or on the head of
a call.
-/

namespace Lisplet

variable {texts : List Source}

/-- Standing in one of the texts. -/
def Node.From (texts : List Source) (node : Node) : Prop :=
  ∃ source ∈ texts, ∃ forest, source.parse = .ok forest ∧ node.Occurs forest

/-- All bodies in a value stand in the texts, those in captured scopes too. -/
inductive Value.From (texts : List Source) : Value → Prop where
  | atom (a : Atom) : From texts (.atom a)
  | seq (shape : Shape) {items : List Value} : (∀ v ∈ items, From texts v) →
      From texts (.seq shape items)
  | builtin (name : Symbol) (operation : Operation) : From texts (.builtin name operation)
  | fn (name : Symbol) (params : List Symbol) {body : Node} : body.From texts →
      From texts (.fn name params body)
  | closure (params : List Symbol) {captured : Scope Value} {body : Node} :
      (∀ entry ∈ captured.entries, From texts entry.2) → body.From texts →
      From texts (.closure captured params body)

def Scope.From (texts : List Source) (scope : Scope Value) : Prop :=
  ∀ entry ∈ scope.entries, entry.2.From texts

/-- An error that is blamed on a name in the texts, or on the head of a call in them. -/
inductive EvalError.From (texts : List Source) : EvalError → Prop where
  | unbound {name : Symbol} {span : Span} : (Node.leaf (.symbol name) span).From texts →
      From texts ⟨.unknownSymbol name, span⟩
  | call {head : Node} {args : List Node} {span : Span} {f : EvalFault} :
      (Node.group .list (head :: args) span).From texts → (∀ name, f ≠ .unknownSymbol name) →
      From texts ⟨f, head.span⟩

namespace Scope

theorem from_empty : (empty : Scope Value).From texts := all_empty

theorem from_ofList {bindings : List (Symbol × Value)}
    (each : ∀ binding ∈ bindings, binding.2.From texts) : (ofList bindings).From texts := by
  have start : (empty : Scope Value).From texts := from_empty
  unfold ofList
  generalize empty = scope at start ⊢
  induction bindings generalizing scope with
  | nil => exact start
  | cons binding bindings ih =>
    obtain ⟨first, others⟩ := List.forall_mem_cons.mp each
    exact ih others _ (All.define start first)

end Scope

theorem Node.From.items {shape : Shape} {items : List Node} {span : Span}
    (inside : (Node.group shape items span).From texts) : ∀ node ∈ items, node.From texts := by
  obtain ⟨source, listed, forest, parsed, occurs⟩ := inside
  exact fun node member => ⟨source, listed, forest, parsed, .item occurs member⟩

/-- Standing in the texts is a matter of all bodies in a value. -/
theorem inherited_from : Inherited (Value.From texts) (Node.From texts) where
  atom := .atom
  seq {shape items} := by
    constructor
    · intro inside
      cases inside with
      | seq _ each => exact each
    · exact .seq shape
  builtin := .builtin
  fn {name params body} := by
    constructor
    · intro inside
      cases inside with
      | fn _ _ written => exact written
    · exact .fn name params
  closure {captured params body} := by
    constructor
    · intro inside
      cases inside with
      | closure _ kept written => exact ⟨kept, written⟩
    · exact fun parts => .closure params parts.1 parts.2
  items := Node.From.items

namespace Correspondence

/-- The correspondence of an evaluation with itself, as long as all that it meets stands in the
texts. -/
def itself (texts : List Source) : Correspondence where
  span := Eq
  value v v' := v = v' ∧ v.From texts
  node locals locals' n n' := (locals = locals' ∧ n = n') ∧ locals.From texts ∧ n.From texts
  value_iff := (self inherited_from).value_iff
  matched := (self inherited_from).matched
  bare := (self inherited_from).bare
  define := (self inherited_from).define

theorem scope_itself {scope : Scope Value} :
    (itself texts).scope scope scope ↔ scope.From texts :=
  scope_self inherited_from

end Correspondence

namespace Course

variable {α : Type} {locals : Scope Value}

/-- No fault of the course itself is about a name without a value. -/
def Nameless : Course α → Prop
  | done _ => True
  | fault f => f.Nameless
  | ask _ _ next => ∀ v, (next v).Nameless
  | define _ _ next | report _ next | print _ next => next.Nameless

theorem Own.nameless {names : Symbol → Prop} {c : Course α} (own : c.Own names) : c.Nameless := by
  induction c with
  | done a => trivial
  | fault f => exact own
  | ask locals node next ih => exact fun v => ih v (own v)
  | define name value next ih => exact ih own.2
  | report event next ih | print line next ih => exact ih own

theorem nameless_call (limit : Int) (terminal : Bool) (depth : Nat) (head : Node)
    (args : List Node) : (call limit terminal locals depth head args).Nameless :=
  (own_call (fun _ _ _ _ => trivial) limit terminal depth head).nameless

/-- Where a course leads to, its faults are still its own. -/
theorem Leads.nameless {ev : Scope Value → Node → Threaded Value} {c d : Course α}
    {globals last : Scope Value} (leads : Leads ev c globals d last) (nameless : c.Nameless) :
    d.Nameless := by
  induction leads with
  | here => exact nameless
  | @asked _ _ _ _ v _ _ _ _ _ ih => exact ih (nameless v)
  | defined _ ih | reported _ ih | printed _ ih => exact ih nameless

/-- A course that corresponds to itself does so wherever it leads. -/
theorem Leads.corresponds {K : Correspondence} {good : α → α → Prop}
    {ev : Scope Value → Node → Threaded Value} {c d : Course α} {globals last : Scope Value}
    (leads : Leads ev c globals d last) (same : c.Corresponds K good c)
    (each : ∀ {locals node globals}, K.node locals locals node node → K.scope globals globals →
      K.Outcome K.value (ev locals node globals) (ev locals node globals))
    (start : K.scope globals globals) : d.Corresponds K good d ∧ K.scope last last := by
  induction leads with
  | here => exact ⟨same, start⟩
  | asked found _ ih =>
    cases same with
    | ask asked next =>
      have outcome := each asked start
      rw [found] at outcome
      cases outcome with
      | ok value start => exact ih (next _ _ value) start
  | defined _ ih =>
    cases same with
    | define _ value next => exact ih next (start.define _ value)
  | reported _ ih =>
    cases same with
    | report _ _ next => exact ih next start
  | printed _ ih =>
    cases same with
    | print _ next => exact ih next start

end Course

namespace Frame

/-- Whoever is to blame for an error stands in the texts: the calls in progress have asked for
nodes of the texts only. -/
theorem Raises.origin {settings : Settings} {frame : Frame} {globals : Scope Value} {node : Node}
    {e : EvalError} (raises : frame.Raises settings globals node e)
    (scope : frame.locals.From texts) (kept : globals.From texts) (inside : node.From texts) :
    e.From texts := by
  induction raises with
  | unbound _ _ => exact .unbound inside
  | @raised frame globals head args span f last leads =>
    have nameless : f.Nameless := leads.nameless (Course.nameless_call ..)
    refine .call inside ?_
    rintro name rfl
    exact nameless
  | @passed frame globals head args span locals node next last e leads _ ih =>
    have allowed := course_asks leads
    have items (n : Node) (member : n ∈ head :: args) :
        (Correspondence.itself texts).node frame.locals frame.locals n n :=
      ⟨⟨rfl, rfl⟩, scope, inside.items n member⟩
    have same : (frame.course settings head args).Corresponds (Correspondence.itself texts)
        (Correspondence.itself texts).value (frame.course settings head args) :=
      Course.corresponds_call
        (List.forall₂_same.mpr fun n member => items n (List.mem_cons_of_mem _ member))
        (items head List.mem_cons_self) settings.maxDepth settings.terminal (frame.depth + 1)
        (by omega)
    obtain ⟨asked, last⟩ := leads.corresponds same
      (fun both start => eval_corresponds settings both rfl start)
      (Correspondence.scope_itself.mpr kept)
    cases asked with
    | ask both _ =>
      obtain ⟨-, scope, inside⟩ := both
      exact ih scope (Correspondence.scope_itself.mp last) inside

end Frame

end Lisplet
