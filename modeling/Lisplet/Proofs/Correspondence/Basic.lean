import Lisplet.Proofs.Scope.Bindings
import Lisplet.Proofs.Value.Structural
import Lisplet.Eval.Strict

/-!
Correspondences between two evaluations that run side by side: which values correspond, which
nodes under which locals, and which spans. A correspondence sees values and nodes by their
structure, keeps names and data as they are, and lasts when corresponding values are bound to the
same name on both sides.
-/

namespace Lisplet

/-- Values of one structure with corresponding parts. The body of a function stands under no
locals, that of a closure under those that are captured. -/
inductive Value.Matched (value : Value → Value → Prop)
    (node : Scope Value → Scope Value → Node → Node → Prop) : Value → Value → Prop where
  | atom (a : Atom) : Matched value node (.atom a) (.atom a)
  | seq (shape : Shape) {items items' : List Value} : List.Forall₂ value items items' →
      Matched value node (.seq shape items) (.seq shape items')
  | builtin (name : Symbol) (operation : Operation) :
      Matched value node (.builtin name operation) (.builtin name operation)
  | fn (name : Symbol) (params : List Symbol) {body body' : Node} :
      node .empty .empty body body' →
      Matched value node (.fn name params body) (.fn name params body')
  | closure (params : List Symbol) {captured captured' : Scope Value} {body body' : Node} :
      node captured captured' body body' →
      Matched value node (.closure captured params body) (.closure captured' params body')

/-- Nodes of one structure with corresponding parts. A name has corresponding values in the locals
of both sides, or in neither. -/
inductive Node.Matched (span : Span → Span → Prop) (value : Value → Value → Prop)
    (node : Scope Value → Scope Value → Node → Node → Prop) (locals locals' : Scope Value) :
    Node → Node → Prop where
  | leaf {a : Atom} {s s' : Span} : span s s' →
      (∀ name, a = .symbol name → Option.Rel value (locals.lookup name) (locals'.lookup name)) →
      Matched span value node locals locals' (.leaf a s) (.leaf a s')
  | group (shape : Shape) {items items' : List Node} {s s' : Span} : span s s' →
      List.Forall₂ (node locals locals') items items' →
      Matched span value node locals locals' (.group shape items s) (.group shape items' s')

/-- The same names in the same order, bound to corresponding values. -/
def Scope.Matched (value : Value → Value → Prop) (scope scope' : Scope Value) : Prop :=
  List.Forall₂ (fun entry entry' => entry.1 = entry'.1 ∧ value entry.2 entry'.2) scope.entries
    scope'.entries

namespace Scope

variable {value : Value → Value → Prop} {scope scope' : Scope Value} {v v' : Value}

theorem Matched.define (both : scope.Matched value scope') (name : Symbol) (same : value v v') :
    (scope.define name v).Matched value (scope'.define name v') := by
  obtain ⟨entries⟩ := scope
  obtain ⟨entries'⟩ := scope'
  change List.Forall₂ _ entries entries' at both
  change List.Forall₂ _ (insert name v entries) (insert name v' entries')
  induction both with
  | nil => exact .cons ⟨rfl, same⟩ .nil
  | @cons entry entry' rest rest' first others ih =>
    obtain ⟨k, a⟩ := entry
    obtain ⟨k', a'⟩ := entry'
    obtain ⟨rfl, bound⟩ := first
    rw [insert, insert]
    split
    · exact .cons ⟨rfl, same⟩ others
    · exact .cons ⟨rfl, bound⟩ ih

theorem Matched.lookup (both : scope.Matched value scope') (name : Symbol) :
    Option.Rel value (scope.lookup name) (scope'.lookup name) := by
  obtain ⟨entries⟩ := scope
  obtain ⟨entries'⟩ := scope'
  change List.Forall₂ _ entries entries' at both
  induction both with
  | nil => exact .none
  | @cons entry entry' rest rest' first others ih =>
    obtain ⟨k, a⟩ := entry
    obtain ⟨k', a'⟩ := entry'
    obtain ⟨rfl, bound⟩ := first
    rw [lookup_cons, lookup_cons]
    split
    · exact .some bound
    · exact ih

end Scope

/-- Which spans and values correspond, and which nodes do under which locals. Values and nodes that
correspond have one structure; nodes also correspond where there are no locals, and go on to do so
where corresponding values are bound to a name. -/
structure Correspondence where
  span : Span → Span → Prop
  value : Value → Value → Prop
  node : Scope Value → Scope Value → Node → Node → Prop
  value_iff : ∀ {v v' : Value}, value v v' ↔ v.Matched value node v'
  matched : ∀ {locals locals' : Scope Value} {n n' : Node}, node locals locals' n n' →
    n.Matched span value node locals locals' n'
  bare : ∀ {locals locals' : Scope Value} {n n' : Node}, node locals locals' n n' →
    node .empty .empty n n'
  define : ∀ {locals locals' : Scope Value} {n n' : Node} {v v' : Value} (name : Symbol),
    node locals locals' n n' → value v v' →
      node (locals.define name v) (locals'.define name v') n n'

/-- The same fault about corresponding values. The depth limit is not among the faults: it is a
matter of the call and not of what is called. -/
inductive EvalFault.Matched (value : Value → Value → Prop) : EvalFault → EvalFault → Prop where
  | unknownSymbol (name : Symbol) : Matched value (.unknownSymbol name) (.unknownSymbol name)
  | missingArguments : Matched value .missingArguments .missingArguments
  | tooManyArguments : Matched value .tooManyArguments .tooManyArguments
  | invalidFunction {v v' : Value} : value v v' →
      Matched value (.invalidFunction v) (.invalidFunction v')
  | invalidArgument {v v' : Value} : value v v' →
      Matched value (.invalidArgument v) (.invalidArgument v')

namespace Correspondence

variable (K : Correspondence)

def scope : Scope Value → Scope Value → Prop := Scope.Matched K.value

variable {K} {v v' w w' : Value} {locals locals' globals globals' : Scope Value} {n n' : Node}

theorem atom (a : Atom) : K.value (.atom a) (.atom a) := K.value_iff.mpr (.atom a)

theorem seq (shape : Shape) {items items' : List Value}
    (each : List.Forall₂ K.value items items') :
    K.value (.seq shape items) (.seq shape items') := K.value_iff.mpr (.seq shape each)

theorem ofList {items items' : List Value} (each : List.Forall₂ K.value items items') :
    K.value (.ofList items) (.ofList items') := by
  cases each with
  | nil => exact atom .nil
  | cons first others => exact seq .list (.cons first others)

theorem ofItems (shape : Shape) {items items' : List Value}
    (each : List.Forall₂ K.value items items') :
    K.value (.ofItems shape items) (.ofItems shape items') := by
  cases shape with
  | list => exact ofList each
  | vector => exact seq .vector each

/-! What is taken from corresponding nodes and values. -/

theorem toValue (both : K.node locals locals' n n') : K.value n.toValue n'.toValue := by
  induction n using Node.induction generalizing n' with
  | leaf a span =>
    cases K.matched both with
    | leaf _ _ => exact atom a
  | group shape items span ih =>
    cases K.matched both with
    | group _ _ each =>
      rw [Node.toValue_group, Node.toValue_group]
      refine ofItems shape (List.forall₂_map_left_iff.mpr (List.forall₂_map_right_iff.mpr ?_))
      exact forall₂_of_mem each fun n member n' both => ih n member both

theorem symbol?_eq (both : K.node locals locals' n n') : n.symbol? = n'.symbol? := by
  cases K.matched both with
  | @leaf a _ _ _ _ => cases a <;> rfl
  | group _ _ _ => rfl

theorem symbols?_eq (both : K.node locals locals' n n') : n.symbols? = n'.symbols? := by
  cases K.matched both with
  | leaf _ _ => rfl
  | group shape _ each =>
    simp only [Node.symbols?]
    clear both
    induction each with
    | nil => rfl
    | cons first others ih => rw [List.mapM_cons, List.mapM_cons, symbol?_eq first, ih]

theorem span_of_node (both : K.node locals locals' n n') : K.span n.span n'.span := by
  cases K.matched both with
  | leaf same _ => exact same
  | group _ same _ => exact same

theorem number?_eq (both : K.value v v') : v.number? = v'.number? := by
  cases K.value_iff.mp both <;> rfl

theorem bool?_eq (both : K.value v v') : v.bool? = v'.bool? := by
  cases K.value_iff.mp both <;> rfl

theorem string?_eq (both : K.value v v') : v.string? = v'.string? := by
  cases K.value_iff.mp both <;> rfl

theorem items? (both : K.value v v') :
    Option.Rel (List.Forall₂ K.value) v.items? v'.items? := by
  cases K.value_iff.mp both with
  | atom a =>
    cases a with
    | nil => exact .some .nil
    | number | bool | string | char | symbol | keyword => exact .none
  | seq shape each => exact .some each
  | builtin | fn | closure => exact .none

theorem characters (s : String) :
    List.Forall₂ K.value (s.toList.map Value.char) (s.toList.map Value.char) :=
  List.forall₂_same.mpr fun v member => by
    obtain ⟨c, -, rfl⟩ := List.mem_map.mp member
    exact atom (.char c)

theorem elements? (both : K.value v v') :
    Option.Rel (List.Forall₂ K.value) v.elements? v'.elements? := by
  cases K.value_iff.mp both with
  | atom a =>
    cases a with
    | string s => exact .some (characters s)
    | number | bool | nil | char | symbol | keyword => exact .none
  | seq shape each => exact .some each
  | builtin | fn | closure => exact .none

theorem element? {elements elements' : List Value} (each : List.Forall₂ K.value elements elements')
    (x : Float) :
    Option.Rel K.value (Eval.element? elements x) (Eval.element? elements' x) := by
  unfold Eval.element?
  cases wholeNumber? x with
  | none => exact .none
  | some position =>
    cases position with
    | negSucc i => exact .none
    | ofNat i =>
      dsimp only
      induction each generalizing i with
      | nil => exact .none
      | cons first others ih =>
        cases i with
        | zero => exact .some first
        | succ i => exact ih i

theorem renderItems_eq {items items' : List Value}
    (same : List.Forall₂ (fun v v' => v.render = v'.render) items items') :
    Value.renderItems items = Value.renderItems items' := by
  induction same with
  | nil => rfl
  | cons first others ih =>
    cases others with
    | nil => exact first
    | cons second others => rw [Value.renderItems, Value.renderItems, first, ih]

theorem render_eq (both : K.value v v') : v.render = v'.render := by
  induction v using Value.induction generalizing v' with
  | atom a =>
    cases K.value_iff.mp both
    rfl
  | seq shape items ih =>
    cases K.value_iff.mp both with
    | seq _ each =>
      have rendered := renderItems_eq (forall₂_of_mem each fun v member v' => ih v member)
      rw [Value.render, Value.render, rendered]
  | builtin | fn | closure =>
    cases K.value_iff.mp both
    rfl

/-- Corresponding values cannot be told apart by their text: closures and functions do not show
what they hold. -/
theorem text_eq (both : K.value v v') : v.text = v'.text := by
  have displayed : v.display = v'.display := by
    rw [← String.toList_inj, Value.toList_display, Value.toList_display, render_eq both]
  cases K.value_iff.mp both with
  | atom a => rfl
  | seq | builtin | fn | closure => exact displayed

theorem texts_eq {vs vs' : List Value} (each : List.Forall₂ K.value vs vs') :
    vs.map Value.text = vs'.map Value.text := by
  induction each with
  | nil => rfl
  | cons first _ ih => rw [List.map_cons, List.map_cons, text_eq first, ih]

theorem isEqual_eq (left : K.value v v') (right : K.value w w') :
    v.isEqual w = v'.isEqual w' := by
  induction v using Value.induction generalizing v' w w' with
  | atom a =>
    cases K.value_iff.mp left
    cases K.value_iff.mp right with
    | atom b => rfl
    | seq => rw [Value.not_isEqual_atom_seq, Value.not_isEqual_atom_seq]
    | builtin | fn | closure =>
      exact (Value.not_isEqual_callable _ rfl).trans (Value.not_isEqual_callable _ rfl).symm
  | seq shape items ih =>
    cases K.value_iff.mp left with
    | seq _ each =>
      cases K.value_iff.mp right with
      | atom b => rw [Value.not_isEqual_seq_atom, Value.not_isEqual_seq_atom]
      | @seq shape' ws ws' each' =>
        rw [Bool.eq_iff_iff, Value.isEqual_seq, Value.isEqual_seq]
        refine and_congr_right fun _ => ?_
        clear left right
        induction each generalizing ws ws' with
        | nil => cases each' <;> simp
        | cons first others rest =>
          obtain ⟨here, later⟩ := List.forall_mem_cons.mp ih
          cases each' with
          | nil => simp
          | cons first' others' =>
            rw [List.forall₂_cons, List.forall₂_cons, here first first']
            exact and_congr_right fun _ => rest later others'
      | builtin | fn | closure =>
        exact (Value.not_isEqual_callable _ rfl).trans (Value.not_isEqual_callable _ rfl).symm
  | builtin | fn | closure =>
    cases K.value_iff.mp left
    exact (Value.not_callable_isEqual _ rfl).trans (Value.not_callable_isEqual _ rfl).symm

theorem allSame_eq {vs vs' : List Value} (each : List.Forall₂ K.value vs vs') :
    Eval.allSame vs = Eval.allSame vs' := by
  cases each with
  | nil => rfl
  | @cons v v' ws ws' first others =>
    change (v :: ws).all (·.isEqual v) = (v' :: ws').all (·.isEqual v')
    have compared : List.Forall₂ (fun w w' => w.isEqual v = w'.isEqual v') (v :: ws) (v' :: ws') :=
      List.Forall₂.imp (fun _ _ both => isEqual_eq both first) (.cons first others)
    generalize v :: ws = vs, v' :: ws' = vs' at compared ⊢
    induction compared with
    | nil => rfl
    | cons same _ ih => rw [List.all_cons, List.all_cons, same, ih]

end Correspondence
end Lisplet
