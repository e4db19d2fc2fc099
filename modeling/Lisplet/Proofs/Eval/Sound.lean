import Lisplet.Proofs.Eval.Passing
import Lisplet.Proofs.Value.Sound

/-!
Evaluation stays sound. From sound locals, sound globals and a node whose names a text can write,
evaluation comes to a sound value or to a fault that tells only what is sound, and the globals are
sound again. Every call has a course that keeps to this.
-/

namespace Lisplet

namespace EvalFault

/-- What a fault tells is sound. -/
def Sound : EvalFault → Prop
  | unknownSymbol name => name.Lexed
  | invalidFunction v | invalidArgument v => v.Sound
  | missingArguments | tooManyArguments | depthExceeded _ => True

end EvalFault

namespace Value

/-- What has positions in a sound value is sound. -/
theorem sound_elements {v : Value} {elements : List Value} (sound : v.Sound)
    (found : v.elements? = some elements) : ∀ w ∈ elements, w.Sound := by
  unfold elements? at found
  split at found
  · cases found
    cases sound with
    | vector items => exact items
    | list _ items _ => exact items
  · cases found
    intro w member
    obtain ⟨c, -, rfl⟩ := List.mem_map.mp member
    exact .atom trivial
  · cases found

end Value

theorem Eval.mem_of_element? {elements : List Value} {x : Float} {v : Value}
    (found : element? elements x = some v) : v ∈ elements := by
  unfold element? at found
  split at found
  · exact List.mem_of_getElem? found
  · cases found

namespace Course

variable {α β : Type} {good : α → Prop} {other : β → Prop} {locals : Scope Value}

/-- A course that asks for, defines and ends with nothing but what is sound, as long as the values
that it is given are sound. -/
def Sound (good : α → Prop) : Course α → Prop
  | done a => good a
  | fault f => f.Sound
  | ask locals node next => locals.Sound ∧ node.Named ∧ ∀ v, v.Sound → (next v).Sound good
  | define name value next => name.Lexed ∧ value.Sound ∧ next.Sound good
  | report _ next => next.Sound good
  | print _ next => next.Sound good

theorem Sound.bind {c : Course α} {f : α → Course β} (first : c.Sound good)
    (next : ∀ a, good a → (f a).Sound other) : (c >>= f).Sound other := by
  change (c.bind f).Sound other
  induction c with
  | done a => exact next a first
  | fault f => exact first
  | ask locals node rest ih =>
    obtain ⟨scope, named, rest⟩ := first
    exact ⟨scope, named, fun v sound => ih v (rest v sound)⟩
  | define name value rest ih =>
    obtain ⟨lexed, sound, rest⟩ := first
    exact ⟨lexed, sound, ih rest⟩
  | report event rest ih | print line rest ih => exact ih first

section Arguments

theorem sound_unary {args : List Node} (named : ∀ node ∈ args, node.Named) :
    (unary args).Sound Node.Named := by
  match args with
  | [] => trivial
  | [a] => exact named a (by simp)
  | _ :: _ :: _ => trivial

theorem sound_binary {args : List Node} (named : ∀ node ∈ args, node.Named) :
    (binary args).Sound fun (a, b) => a.Named ∧ b.Named := by
  match args with
  | [] | [_] => trivial
  | [a, b] => exact ⟨named a (by simp), named b (by simp)⟩
  | _ :: _ :: _ :: _ => trivial

theorem sound_ternary {args : List Node} (named : ∀ node ∈ args, node.Named) :
    (ternary args).Sound fun (a, b, c) => a.Named ∧ b.Named ∧ c.Named := by
  match args with
  | [] | [_] | [_, _] => trivial
  | [a, b, c] => exact ⟨named a (by simp), named b (by simp), named c (by simp)⟩
  | _ :: _ :: _ :: _ :: _ => trivial

theorem sound_need {as? : Value → Option α} {v : Value} (sound : v.Sound)
    (each : ∀ a, as? v = some a → good a) : (need as? v).Sound good := by
  unfold need
  cases found : as? v with
  | none => exact sound
  | some a => exact each a found

/-- What is taken from a value as a plain piece of data has no parts to be sound. -/
theorem sound_needPlain {as? : Value → Option α} {v : Value} (sound : v.Sound) :
    (need as? v).Sound fun _ => True := sound_need sound fun _ _ => trivial

theorem sound_needAll {as? : Value → Option α} {vs : List Value} (sound : ∀ v ∈ vs, v.Sound) :
    (needAll as? vs).Sound fun _ => True := by
  induction vs with
  | nil => trivial
  | cons v vs ih =>
    obtain ⟨first, others⟩ := List.forall_mem_cons.mp sound
    exact (sound_needPlain first).bind fun _ _ => (ih others).bind fun _ _ => trivial

theorem lexed_of_symbol? {node : Node} {s : Symbol} (named : node.Named)
    (found : node.symbol? = some s) : s.Lexed := by
  unfold Node.symbol? at found
  split at found
  · cases found
    exact Node.named_leaf.mp named
  · cases found

theorem lexed_of_symbols? {node : Node} {params : List Symbol} (named : node.Named)
    (found : node.symbols? = some params) : ∀ p ∈ params, p.Lexed := by
  cases node with
  | leaf a span => cases found
  | group shape items span =>
    replace named := Node.named_group.mp named
    rw [Node.symbols?] at found
    induction items generalizing params with
    | nil =>
      cases found
      exact List.forall_mem_nil _
    | cons node nodes ih =>
      obtain ⟨first, others⟩ := List.forall_mem_cons.mp named
      simp only [List.mapM_cons, bind, Option.bind_eq_some_iff] at found
      obtain ⟨s, symbol, rest, found, same⟩ := found
      cases same
      exact List.forall_mem_cons.mpr ⟨lexed_of_symbol? first symbol, ih found others⟩

theorem sound_needName {node : Node} (named : node.Named) :
    (needName node).Sound Symbol.Lexed := by
  unfold needName
  cases found : node.symbol? with
  | none => exact node.toValue_sound named
  | some name => exact lexed_of_symbol? named found

theorem sound_needParams {node : Node} (named : node.Named) :
    (needParams node).Sound fun params => ∀ p ∈ params, p.Lexed := by
  unfold needParams
  cases found : node.symbols? with
  | none => exact node.toValue_sound named
  | some params => exact lexed_of_symbols? named found

end Arguments

variable (scope : locals.Sound)
include scope

theorem sound_value {node : Node} (named : node.Named) :
    (value locals node).Sound Value.Sound := ⟨scope, named, fun _ sound => sound⟩

theorem sound_values {args : List Node} (named : ∀ node ∈ args, node.Named) :
    (values locals args).Sound fun vs => ∀ v ∈ vs, v.Sound := by
  induction args with
  | nil => exact nofun
  | cons node nodes ih =>
    obtain ⟨first, others⟩ := List.forall_mem_cons.mp named
    refine (sound_value scope first).bind fun v sound => (ih others).bind fun vs rest => ?_
    exact List.forall_mem_cons.mpr ⟨sound, rest⟩

theorem sound_parameters {params : List Symbol} {args : List Node} {start : Scope Value}
    (lexed : ∀ p ∈ params, p.Lexed) (named : ∀ node ∈ args, node.Named) (sound : start.Sound) :
    (parameters locals params args start).Sound Scope.Sound := by
  induction params generalizing args start with
  | nil =>
    cases args with
    | nil => exact sound
    | cons node nodes => trivial
  | cons p params ih =>
    cases args with
    | nil => trivial
    | cons node nodes =>
      obtain ⟨name, names⟩ := List.forall_mem_cons.mp lexed
      obtain ⟨first, others⟩ := List.forall_mem_cons.mp named
      refine (sound_value scope first).bind fun v value => ?_
      exact ih names others (sound.define name value)

section Strict

variable {args : List Node} (named : ∀ node ∈ args, node.Named)
include named

theorem sound_numbers : (numbers locals args).Sound fun _ => True :=
  (sound_values scope named).bind fun _ sound => sound_needAll sound

theorem sound_foldNumbers (op : Float → Float → Float) (unit : Float) :
    (foldNumbers locals op unit args).Sound Value.Sound :=
  (sound_numbers scope named).bind fun _ _ => Value.Sound.atom trivial

theorem sound_reduceNumbers (op : Float → Float → Float) :
    (reduceNumbers locals op args).Sound Value.Sound := by
  refine (sound_numbers scope named).bind fun xs _ => ?_
  cases xs with
  | nil => trivial
  | cons x xs => exact Value.Sound.atom trivial

theorem sound_compareNumbers (rel : Float → Float → Bool) :
    (compareNumbers locals rel args).Sound Value.Sound :=
  (sound_numbers scope named).bind fun _ _ => Value.Sound.atom trivial

theorem sound_equal : (equal locals args).Sound Value.Sound :=
  (sound_values scope named).bind fun _ _ => Value.Sound.atom trivial

theorem sound_negate : (negate locals args).Sound Value.Sound := by
  refine (sound_unary named).bind fun node named => ?_
  refine (sound_value scope named).bind fun v sound => ?_
  exact (sound_needPlain sound).bind fun _ _ => Value.Sound.atom trivial

theorem sound_concat : (concat locals args).Sound Value.Sound :=
  (sound_values scope named).bind fun _ _ => Value.Sound.atom trivial

theorem sound_chars : (chars locals args).Sound Value.Sound := by
  refine (sound_unary named).bind fun node named => ?_
  refine (sound_value scope named).bind fun v sound => ?_
  refine (sound_needPlain sound).bind fun s _ => ?_
  refine Value.sound_ofList (fun v member => ?_) (fun v member => ?_)
  · obtain ⟨c, -, rfl⟩ := List.mem_map.mp member
    exact .atom trivial
  · obtain ⟨c, -, rfl⟩ := List.mem_map.mp member
    exact Value.data_atom _

theorem sound_join : (join locals args).Sound Value.Sound := by
  refine (sound_binary named).bind fun (separator, sequence) ⟨first, second⟩ => ?_
  refine (sound_value scope first).bind fun v sound => ?_
  refine (sound_needPlain sound).bind fun sep _ => ?_
  refine (sound_value scope second).bind fun w sound => ?_
  exact (sound_needPlain sound).bind fun _ _ => Value.Sound.atom trivial

theorem sound_vector : (vector locals args).Sound Value.Sound :=
  (sound_values scope named).bind fun _ sound => Value.Sound.vector sound

theorem sound_nth : (nth locals args).Sound Value.Sound := by
  refine (sound_binary named).bind fun (sequence, position) ⟨first, second⟩ => ?_
  refine (sound_value scope first).bind fun v sound => ?_
  refine (sound_need sound fun elements found => Value.sound_elements sound found).bind
    fun elements inside => ?_
  refine (sound_value scope second).bind fun w sound => ?_
  refine (sound_needPlain sound).bind fun x _ => ?_
  cases found : Eval.element? elements x with
  | none => exact Value.Sound.atom trivial
  | some v => exact inside v (Eval.mem_of_element? found)

theorem sound_parseNumber : (parseNumber locals args).Sound Value.Sound := by
  refine (sound_unary named).bind fun node named => ?_
  refine (sound_value scope named).bind fun v sound => ?_
  refine (sound_needPlain sound).bind fun s _ => ?_
  cases Number.read? s.toList with
  | none => exact Value.Sound.atom trivial
  | some x => exact Value.Sound.atom trivial

theorem sound_println (terminal : Bool) : (println terminal locals args).Sound Value.Sound := by
  refine (sound_values scope named).bind fun vs _ => ?_
  cases terminal with
  | true => exact Value.Sound.atom trivial
  | false => exact Value.Sound.atom trivial

end Strict

section Forms

variable {args : List Node} (named : ∀ node ∈ args, node.Named)
include named

omit scope in
theorem sound_quote : (quote args).Sound Value.Sound :=
  (sound_unary named).bind fun node named => node.toValue_sound named

theorem sound_choose : (choose locals args).Sound Value.Sound := by
  unfold choose
  split
  · rename_i condition yes no
    refine (sound_value scope (named condition (by simp))).bind fun v sound => ?_
    refine (sound_needPlain sound).bind fun b _ => ?_
    cases b with
    | true => exact sound_value scope (named yes (by simp))
    | false => exact sound_value scope (named no (by simp))
  · refine (sound_binary named).bind fun (condition, yes) ⟨first, second⟩ => ?_
    refine (sound_value scope first).bind fun v sound => ?_
    refine (sound_needPlain sound).bind fun b _ => ?_
    cases b with
    | true => exact sound_value scope second
    | false => exact Value.Sound.atom trivial

theorem sound_conjunction : (conjunction locals args).Sound Value.Sound := by
  induction args with
  | nil => exact Value.Sound.atom trivial
  | cons node nodes ih =>
    obtain ⟨first, others⟩ := List.forall_mem_cons.mp named
    refine (sound_value scope first).bind fun v sound => ?_
    refine (sound_needPlain sound).bind fun b _ => ?_
    cases b with
    | true => exact ih others
    | false => exact Value.Sound.atom trivial

theorem sound_disjunction : (disjunction locals args).Sound Value.Sound := by
  induction args with
  | nil => exact Value.Sound.atom trivial
  | cons node nodes ih =>
    obtain ⟨first, others⟩ := List.forall_mem_cons.mp named
    refine (sound_value scope first).bind fun v sound => ?_
    refine (sound_needPlain sound).bind fun b _ => ?_
    cases b with
    | true => exact Value.Sound.atom trivial
    | false => exact ih others

omit scope named in
theorem sound_needBinding {node : Node} (named : node.Named) :
    (needBinding node).Sound fun (name, bound) => name.Lexed ∧ bound.Named := by
  unfold needBinding
  split
  · refine (sound_binary (Node.named_group.mp named)).bind fun (name, bound) ⟨first, second⟩ => ?_
    exact (sound_needName first).bind fun s lexed => ⟨lexed, second⟩
  · exact node.toValue_sound named

omit scope in
theorem sound_bindings (scope : locals.Sound) : (bindings locals args).Sound Scope.Sound := by
  induction args generalizing locals with
  | nil => exact scope
  | cons node nodes ih =>
    obtain ⟨first, others⟩ := List.forall_mem_cons.mp named
    refine (sound_needBinding first).bind fun (name, bound) ⟨lexed, inner⟩ => ?_
    exact (sound_value scope inner).bind fun v sound => ih others (scope.define lexed sound)

omit scope in
theorem named_ungroup : ∀ node ∈ Eval.ungroup args, node.Named := by
  unfold Eval.ungroup
  split
  · exact nofun
  · split
    · exact Node.named_group.mp (named _ List.mem_cons_self)
    · exact named
  · exact named

theorem sound_letForm : (letForm locals args).Sound Value.Sound := by
  unfold letForm
  split
  · trivial
  · rename_i body last
    have bindings : ∀ node ∈ Eval.ungroup args.dropLast, node.Named :=
      named_ungroup fun node member => named node (List.dropLast_subset _ member)
    refine (sound_bindings bindings scope).bind fun inner sound => ?_
    exact sound_value sound (named body (List.mem_of_getLast? last))

omit scope in
theorem sound_defineFunction : (defineFunction args).Sound Value.Sound := by
  refine (sound_ternary named).bind fun (nameNode, paramsNode, body) ⟨first, second, third⟩ => ?_
  refine (sound_needName first).bind fun name lexed => ?_
  refine (sound_needParams second).bind fun params each => ?_
  exact ⟨lexed, .fn lexed each third, .atom trivial⟩

theorem sound_defineConstant : (defineConstant locals args).Sound Value.Sound := by
  refine (sound_binary named).bind fun (nameNode, bound) ⟨first, second⟩ => ?_
  refine (sound_needName first).bind fun name lexed => ?_
  refine (sound_value scope second).bind fun v sound => ?_
  exact ⟨lexed, sound, .atom trivial⟩

theorem sound_makeClosure : (makeClosure locals args).Sound Value.Sound := by
  refine (sound_binary named).bind fun (paramsNode, body) ⟨first, second⟩ => ?_
  refine (sound_needParams first).bind fun params each => ?_
  exact Value.Sound.closure scope.names scope.values each second

end Forms

theorem sound_course {args : List Node} (named : ∀ node ∈ args, node.Named) (terminal : Bool)
    (operation : Operation) : (operation.course terminal locals args).Sound Value.Sound := by
  cases operation with
  | add | multiply => exact sound_foldNumbers scope named _ _
  | subtract | divide => exact sound_reduceNumbers scope named _
  | less | greater | lessOrEqual | greaterOrEqual => exact sound_compareNumbers scope named _
  | equal => exact sound_equal scope named
  | negate => exact sound_negate scope named
  | concat => exact sound_concat scope named
  | chars => exact sound_chars scope named
  | join => exact sound_join scope named
  | vector => exact sound_vector scope named
  | nth => exact sound_nth scope named
  | parseNumber => exact sound_parseNumber scope named
  | println => exact sound_println scope named terminal
  | quote => exact sound_quote named
  | choose => exact sound_choose scope named
  | conjunction => exact sound_conjunction scope named
  | disjunction => exact sound_disjunction scope named
  | bindLocals => exact sound_letForm scope named
  | defineFunction => exact sound_defineFunction named
  | defineConstant => exact sound_defineConstant scope named
  | makeClosure => exact sound_makeClosure scope named
  | ignore => exact Value.Sound.atom trivial

theorem sound_apply {args : List Node} {f : Value} (callee : f.Sound)
    (named : ∀ node ∈ args, node.Named) (terminal : Bool) :
    (apply terminal locals f args).Sound Value.Sound := by
  cases callee with
  | builtin _ => exact sound_course scope named terminal _
  | fn _ params body =>
    refine (sound_parameters scope params named Scope.sound_empty).bind fun inner sound => ?_
    exact sound_value sound body
  | closure names values params body =>
    refine (sound_parameters scope params named ⟨names, values⟩).bind fun inner sound => ?_
    exact sound_value sound body
  | atom named => exact Value.Sound.atom named
  | vector items => exact Value.Sound.vector items
  | list nonempty items data => exact Value.Sound.list nonempty items data

theorem sound_call {head : Node} {args : List Node} (named : ∀ node ∈ head :: args, node.Named)
    (limit : Int) (terminal : Bool) (depth : Nat) :
    (call limit terminal locals depth head args).Sound Value.Sound := by
  obtain ⟨callee, arguments⟩ := List.forall_mem_cons.mp named
  unfold call
  split
  · trivial
  · exact (sound_value scope callee).bind fun f sound => sound_apply scope sound arguments terminal

end Course

/-- What a sound evaluation comes to. -/
structure Outcome.Sound {α : Type} (good : α → Prop) (outcome : Except EvalError α × Scope Value) :
    Prop where
  value : ∀ a, outcome.1 = .ok a → good a
  fault : ∀ e, outcome.1 = .error e → e.fault.Sound
  globals : outcome.2.Sound

namespace Outcome

variable {α : Type} {good : α → Prop} {globals : Scope Value}

theorem Sound.ok {a : α} (sound : good a) (kept : globals.Sound) : Sound good (.ok a, globals) := by
  refine ⟨?_, nofun, kept⟩
  rintro _ ⟨⟩
  exact sound

theorem Sound.error {e : EvalError} (sound : e.fault.Sound) (kept : globals.Sound) :
    Sound good (.error e, globals) := by
  refine ⟨nofun, ?_, kept⟩
  rintro _ ⟨⟩
  exact sound

end Outcome

namespace Course

variable {α : Type} {good : α → Prop} {ev : Scope Value → Node → Threaded Value}

/-- The step lemma of soundness: a sound course comes to what is sound, if the evaluations that it
asks for do. -/
theorem Sound.thread {c : Course α} (sound : c.Sound good)
    (each : ∀ locals node globals, locals.Sound → node.Named → globals.Sound →
      Outcome.Sound Value.Sound (ev locals node globals))
    (site : Span) {globals : Scope Value} (start : globals.Sound) :
    Outcome.Sound good (c.thread ev site globals) := by
  induction c generalizing globals with
  | done a => exact .ok sound start
  | fault f => exact .error sound start
  | ask locals node next ih =>
    obtain ⟨scope, named, next⟩ := sound
    have asked := each locals node globals scope named start
    simp only [Course.thread]
    generalize ev locals node globals = outcome at asked ⊢
    rcases outcome with ⟨e | v, between⟩
    · exact .error (asked.fault e rfl) asked.globals
    · exact ih v (next v (asked.value v rfl)) asked.globals
  | define name value next ih =>
    obtain ⟨lexed, value, next⟩ := sound
    exact ih next (start.define lexed value)
  | report event next ih | print line next ih => exact ih sound start

end Course

/-- The run lemma of soundness. -/
theorem Frame.eval_sound (settings : Settings) (frame : Frame) (node : Node)
    (globals : Scope Value) (scope : frame.locals.Sound) (named : node.Named)
    (start : globals.Sound) : Outcome.Sound Value.Sound (frame.eval settings node globals) := by
  induction measured : (settings.maxDepth - frame.depth).toNat using Nat.strongRecOn
    generalizing frame globals node with
  | ind levels ih =>
    cases node.form with
    | symbol name span =>
      rw [eval_symbol]
      cases found : (frame.locals.lookup name).or (globals.lookup name) with
      | some value =>
        rcases Option.or_eq_some_iff.mp found with here | ⟨-, there⟩
        · exact .ok (scope.lookup here) start
        · exact .ok (start.lookup there) start
      | none => exact .error (Node.named_leaf.mp named : name.Lexed) start
    | call head args span =>
      rw [eval_call]
      by_cases exceeded : settings.maxDepth < (frame.depth + 1 : Nat)
      · rw [Course.call_exceeded exceeded]
        exact .error trivial start
      · have sound := Course.sound_call scope (Node.named_group.mp named) settings.maxDepth
          settings.terminal (frame.depth + 1)
        refine sound.thread (fun locals node globals scope named start => ?_) head.span start
        refine ih _ ?_ (frame.inside head locals) node globals scope named start rfl
        simp only [inside]
        omega
    | datum notSymbol notCall =>
      rw [eval_datum notSymbol notCall]
      exact .ok (node.toValue_sound named) start

end Lisplet
