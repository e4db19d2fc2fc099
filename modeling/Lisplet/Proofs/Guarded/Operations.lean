import Lisplet.Proofs.Eval.Acting
import Lisplet.Proofs.Guarded.Text

/-!
The operations with their checks. Each is carried out by steps that may break down, every one of
them behind the check that comes before it: on the number of arguments, on the kind of a node or
on the type and size of a value. Whatever the arguments are evaluated to, none breaks down. No
check comes before the use of the console, and there an operation may.
-/

namespace Lisplet

/-- An action that may break down, besides giving a value or an error. What it has put in place on
the way is taken back in every case. -/
abbrev Guarded (α : Type) : Type := ExceptT Breakdown Eval α

namespace Guarded

variable {α β γ δ : Type}

def attempt (result : Except Breakdown α) : Guarded α := ExceptT.mk (pure result)

/-- An action in which nothing can break down. -/
def plain (y : Eval α) : Guarded α := ExceptT.lift y

def fail (fault : EvalFault) : Guarded α := plain (Eval.fail fault)

def need (as? : Value → Option α) (v : Value) : Guarded α := plain (Eval.need as? v)

def withLocals (locals : Scope Value) (x : Guarded α) : Guarded α :=
  ExceptT.mk (Eval.withLocals locals x.run)

/-- An action under checks that starts on a terminal or elsewhere comes to what another one comes
to, the values being related, or else breaks down because of the console. Its being a terminal is
the same all the time. -/
inductive Sure.At (console : Console) (terminal : Bool) (R : α → β → Prop) :
    Except EvalError (Except Breakdown α) × Context → Except EvalError β × Context → Prop where
  | error {e after} : At console terminal R (.error e, after) (.error e, after)
  | ok {a b after} : R a b → after.terminal = terminal →
      At console terminal R (.ok (.ok a), after) (.ok b, after)
  | broken {breakdown after found} : console.Fails terminal after.printed breakdown →
      At console terminal R (.ok (.error breakdown), after) found

/-- An action does not break down, from whatever context, but for what the console does. -/
def Sure (console : Console) (R : α → β → Prop) (x : Guarded α) (y : Eval β) : Prop :=
  ∀ ctx, Sure.At console ctx.terminal R (x.run ctx) (y ctx)

section Combining

variable {console : Console} {R : α → β → Prop} {S : γ → δ → Prop} {x : Guarded α} {y : Eval β}

theorem sure_pure {a : α} {b : β} (related : R a b) : Sure console R (pure a) (pure b) :=
  fun _ => .ok related rfl

theorem sure_plain {y : Eval α} (restores : y.Restores) : Sure console Eq (plain y) y := by
  intro ctx
  have same := (restores ctx).terminal
  change Sure.At console ctx.terminal Eq (Eval.bind y (fun a => Eval.pure (.ok a)) ctx) (y ctx)
  unfold Eval.bind
  generalize y ctx = found at same ⊢
  rcases found with ⟨e | a, after⟩
  · exact .error
  · exact .ok rfl same

theorem sure_fail (fault : EvalFault) : Sure console R (fail fault) (Eval.fail fault) :=
  fun _ => .error

theorem sure_context : Sure console Eq (plain Eval.context) Eval.context := fun _ => .ok rfl rfl

theorem sure_context_bind {f : Context → Guarded γ} {g : Context → Eval δ}
    (next : ∀ ctx, Sure.At console ctx.terminal S ((f ctx).run ctx) (g ctx ctx)) :
    Sure console S (plain Eval.context >>= f) (Eval.context >>= g) := next

theorem sure_record (event : Event) :
    Sure console Eq (plain (Eval.record event)) (Eval.record event) := fun _ => .ok rfl rfl

theorem sure_need (as? : Value → Option α) (v : Value) :
    Sure console Eq (need as? v) (Eval.need as? v) := by
  unfold need Eval.need
  cases as? v with
  | none => exact sure_fail _
  | some a => exact sure_pure rfl

theorem Sure.relate {f : α → Guarded γ} {g : β → Eval δ} (first : Sure console R x y)
    (next : ∀ a b, R a b → Sure console S (f a) (g b)) :
    Sure console S (x >>= f) (y >>= g) := by
  intro ctx
  have step := first ctx
  change Sure.At console ctx.terminal S (Eval.bind x.run (ExceptT.bindCont f) ctx)
    (Eval.bind y g ctx)
  unfold Eval.bind
  generalize x.run ctx = found at step ⊢
  generalize y ctx = found' at step ⊢
  cases step with
  | error => exact .error
  | ok related kept => exact kept ▸ next _ _ related _
  | broken fails => exact .broken fails

theorem Sure.bind {y : Eval α} {f : α → Guarded γ} {g : α → Eval δ} (first : Sure console Eq x y)
    (next : ∀ a, Sure console S (f a) (g a)) : Sure console S (x >>= f) (y >>= g) := by
  apply first.relate
  rintro a _ rfl
  exact next a

/-- A step that has a result may be taken before anything. -/
theorem Sure.attempt {result : Except Breakdown α} {a : α} {f : α → Guarded γ} {y : Eval δ}
    (succeeds : result = .ok a) (next : Sure console S (f a) y) :
    Sure console S (attempt result >>= f) y := by
  subst succeeds
  exact next

theorem sure_attempt {result : Except Breakdown α} {a : α} (succeeds : result = .ok a) :
    Sure console Eq (Guarded.attempt result) (pure a) := by
  subst succeeds
  exact sure_pure rfl

theorem sure_needAll (as? : Value → Option α) (vs : List Value) :
    Sure console Eq (plain (Eval.needAll as? vs)) (Eval.needAll as? vs) := by
  apply sure_plain
  induction vs with
  | nil => exact fun ctx => .refl ctx
  | cons v vs ih =>
    refine Eval.Restores.bind (fun ctx => ?_) fun a => ih.bind fun rest ctx => .refl ctx
    unfold Eval.need
    cases as? v with
    | none => exact .refl ctx
    | some a => exact .refl ctx

/-- What is put back on the way out is neither the terminal nor what has been printed. -/
theorem Sure.At.leave {terminal : Bool} {found : Except EvalError (Except Breakdown α) × Context}
    {found' : Except EvalError β × Context} (step : Sure.At console terminal R found found')
    (put : Context → Context)
    (kept : ∀ after, (put after).terminal = after.terminal ∧ (put after).printed = after.printed) :
    Sure.At console terminal R (found.1, put found.2) (found'.1, put found'.2) := by
  cases step with
  | error => exact .error
  | ok related same => exact .ok related ((kept _).1.trans same)
  | @broken breakdown after _ fails =>
    have same : (put after).printed = after.printed := (kept after).2
    exact .broken (same ▸ fails)

theorem Sure.withLocals (sure : Sure console R x y) (locals : Scope Value) :
    Sure console R (withLocals locals x) (Eval.withLocals locals y) := by
  intro ctx
  have step := sure { ctx with locals := locals }
  exact step.leave (fun after => { after with locals := ctx.locals }) fun _ => ⟨rfl, rfl⟩

end Combining

/-- The evaluation of nodes that callables are given. -/
abbrev Evaluator := Node → Guarded Value

/-! Arguments. -/

/-- The arguments, if there are as many as there have to be. -/
def exactly (n : Nat) (args : List Node) : Guarded (List Node) :=
  if args.length < n then fail .missingArguments
  else if n < args.length then fail .tooManyArguments
  else pure args

def unary (args : List Node) : Guarded Node := do attempt (Partial.one (← exactly 1 args))

def binary (args : List Node) : Guarded (Node × Node) := do
  attempt (Partial.two (← exactly 2 args))

def ternary (args : List Node) : Guarded (Node × Node × Node) := do
  attempt (Partial.three (← exactly 3 args))

def evalAll (ev : Evaluator) : List Node → Guarded (List Value)
  | [] => pure []
  | node :: nodes => do
    let v ← ev node
    let vs ← evalAll ev nodes
    pure (v :: vs)

/-- A node as the name that it has to be. -/
def needName (node : Node) : Guarded Value :=
  if node.symbol?.isSome then pure node.toValue else fail (.invalidArgument node.toValue)

def needParams (node : Node) : Guarded (List Value) :=
  match node with
  | .group _ items _ =>
    if items.all (·.symbol?.isSome) then pure (items.map Node.toValue)
    else fail (.invalidArgument node.toValue)
  | .leaf .. => fail (.invalidArgument node.toValue)

def bindArguments (ev : Evaluator) :
    List Symbol → List Node → Scope Value → Guarded (Scope Value)
  | [], [], scope => pure scope
  | [], _ :: _, _ => fail .tooManyArguments
  | _ :: _, [], _ => fail .missingArguments
  | p :: params, node :: nodes, scope => do
    let v ← ev node
    bindArguments ev params nodes (← attempt (Partial.define scope (.symbol p) v))

section Arguments

variable {console : Console}

theorem sure_unary (args : List Node) : Sure console Eq (unary args) (Eval.unary args) := by
  intro ctx
  match args with
  | [] => exact .error
  | [_] => exact .ok rfl rfl
  | _ :: _ :: _ => exact .error

theorem sure_binary (args : List Node) : Sure console Eq (binary args) (Eval.binary args) := by
  intro ctx
  match args with
  | [] | [_] => exact .error
  | [_, _] => exact .ok rfl rfl
  | _ :: _ :: _ :: _ => exact .error

theorem sure_ternary (args : List Node) : Sure console Eq (ternary args) (Eval.ternary args) := by
  intro ctx
  match args with
  | [] | [_] | [_, _] => exact .error
  | [_, _, _] => exact .ok rfl rfl
  | _ :: _ :: _ :: _ :: _ => exact .error

theorem toValue_of_symbol? {node : Node} {s : Symbol} (found : node.symbol? = some s) :
    node.toValue = .symbol s := by
  unfold Node.symbol? at found
  split at found
  · cases found
    rfl
  · cases found

/-- What has passed for a name is a symbol. -/
theorem sure_needName (node : Node) :
    Sure console (fun name s => name = .symbol s) (needName node) (Eval.needName node) := by
  unfold needName Eval.needName
  cases found : node.symbol? with
  | none => exact sure_fail _
  | some s => exact sure_pure (toValue_of_symbol? found)

theorem all_symbols {items : List Node} {params : List Symbol}
    (found : items.mapM Node.symbol? = some params) :
    items.all (·.symbol?.isSome) = true ∧ items.map Node.toValue = params.map Value.symbol := by
  induction items generalizing params with
  | nil =>
    cases found
    exact ⟨rfl, rfl⟩
  | cons node nodes ih =>
    simp only [List.mapM_cons, bind, Option.bind_eq_some_iff] at found
    obtain ⟨s, symbol, rest, others, same⟩ := found
    cases same
    obtain ⟨each, values⟩ := ih others
    simp [symbol, each, values, toValue_of_symbol? symbol]

theorem not_all_symbols {items : List Node} (missing : items.mapM Node.symbol? = none) :
    items.all (·.symbol?.isSome) = false := by
  induction items with
  | nil => cases missing
  | cons node nodes ih =>
    cases symbol : node.symbol? with
    | none => simp [symbol]
    | some s =>
      have others : nodes.mapM Node.symbol? = none := by
        cases others : nodes.mapM Node.symbol? with
        | none => rfl
        | some rest => simp [symbol, others] at missing
      simp [ih others]

/-- What have passed for parameters are symbols. -/
theorem sure_needParams (node : Node) :
    Sure console (fun params symbols => params = symbols.map Value.symbol) (needParams node)
      (Eval.needParams node) := by
  unfold needParams Eval.needParams
  cases node with
  | leaf a span => exact sure_fail _
  | group shape items span =>
    rw [Node.symbols?]
    dsimp only
    cases found : items.mapM Node.symbol? with
    | none =>
      rw [not_all_symbols found]
      exact sure_fail _
    | some params =>
      obtain ⟨each, values⟩ := all_symbols found
      rw [each]
      exact sure_pure values

theorem symbols_ok (params : List Symbol) :
    (params.map Value.symbol).mapM Partial.symbol = .ok params := by
  induction params with
  | nil => rfl
  | cons p params ih =>
    rw [List.map_cons, List.mapM_cons, ih]
    rfl

end Arguments

variable {console : Console} {ev : Evaluator} {ev' : Eval.Evaluator}
variable (sure : ∀ node, Sure console Eq (ev node) (ev' node))
include sure

theorem sure_evalAll (args : List Node) :
    Sure console Eq (evalAll ev args) (Eval.evalAll ev' args) := by
  induction args with
  | nil => exact sure_pure rfl
  | cons node nodes ih => exact (sure node).bind fun v => ih.bind fun vs => sure_pure rfl

theorem sure_bindArguments (params : List Symbol) (args : List Node) (scope : Scope Value) :
    Sure console Eq (bindArguments ev params args scope)
      (Eval.bindArguments ev' params args scope) := by
  induction params generalizing args scope with
  | nil =>
    cases args with
    | nil => exact sure_pure rfl
    | cons node nodes => exact sure_fail _
  | cons p params ih =>
    cases args with
    | nil => exact sure_fail _
    | cons node nodes =>
      apply (sure node).bind
      intro v
      exact .attempt (Partial.define_symbol scope p v) (ih nodes _)

omit sure

/-! The strict operations. -/

def numbers (ev : Evaluator) (args : List Node) : Guarded (List Float) := do
  plain <| Eval.needAll Value.number? (← evalAll ev args)

def foldNumbers (ev : Evaluator) (op : Float → Float → Float) (unit : Float)
    (args : List Node) : Guarded Value := do
  return .number ((← numbers ev args).foldl op unit)

def reduceNumbers (ev : Evaluator) (op : Float → Float → Except Breakdown Float)
    (args : List Node) : Guarded Value := do
  let xs ← numbers ev args
  if xs.isEmpty then fail .missingArguments
  else return .number (← attempt (Partial.reduce op xs))

def compareNumbers (ev : Evaluator) (rel : Float → Float → Bool) (args : List Node) :
    Guarded Value := do
  return .bool (Eval.holdsBetween rel (← numbers ev args))

/-- The first value is looked up for each that is compared with it. -/
def equal (ev : Evaluator) (args : List Node) : Guarded Value := do
  let vs ← evalAll ev args
  return .bool (← attempt (vs.allM fun v => do return v.isEqual (← Partial.item vs 0)))

def negate (ev : Evaluator) (args : List Node) : Guarded Value := do
  let node ← unary args
  return .bool (!(← need Value.bool? (← ev node)))

def concat (ev : Evaluator) (args : List Node) : Guarded Value := do
  return .string (String.join (← attempt ((← evalAll ev args).mapM text)))

def chars (ev : Evaluator) (args : List Node) : Guarded Value := do
  let node ← unary args
  let s ← need Value.string? (← ev node)
  return .ofList (← attempt (s.toList.mapM fun c => Value.char <$> Partial.char c.toString))

def join (ev : Evaluator) (args : List Node) : Guarded Value := do
  let (separator, sequence) ← binary args
  let sep ← need Value.string? (← ev separator)
  let items ← need Value.items? (← ev sequence)
  return .string (sep.intercalate (← attempt (items.mapM text)))

def vector (ev : Evaluator) (args : List Node) : Guarded Value := do
  return .seq .vector (← evalAll ev args)

/-- What has positions, as it is indexed: a string is a row of strings of length one. -/
def indexed? : Value → Option (List Value)
  | .seq _ items => some items
  | .string s => some (s.toList.map fun c => .string c.toString)
  | _ => none

/-- What an item of a value is taken for: that of a string is made a character. -/
def taken (v item : Value) : Except Breakdown Value :=
  if v.string?.isSome then Partial.charOf item else .ok item

/-- The element at a position that has to be whole and in range. -/
def element (v : Value) (row : List Value) (x : Float) : Guarded Value :=
  if (wholeNumber? x).any fun n => 0 ≤ n && n < (row.length : Int) then do
    attempt (taken v (← attempt (Partial.item row (← attempt (Partial.whole x)))))
  else fail (.invalidArgument (.number x))

def nth (ev : Evaluator) (args : List Node) : Guarded Value := do
  let (sequence, position) ← binary args
  let v ← ev sequence
  let row ← need indexed? v
  let x ← need Value.number? (← ev position)
  element v row x

def parseNumber (ev : Evaluator) (args : List Node) : Guarded Value := do
  let node ← unary args
  let s ← need Value.string? (← ev node)
  match Partial.numeral s.toList with
  | .ok x => return .number x
  | .error (.numeral _) => fail (.invalidArgument (.string s))
  | .error other => attempt (.error other)

/-- The console is asked for its kind each time, and it may refuse the line. -/
def println (console : Console) (ev : Evaluator) (args : List Node) : Guarded Value := do
  let line := " ".intercalate (← attempt ((← evalAll ev args).mapM text))
  let ctx ← plain Eval.context
  if ← attempt (console.isTerminal ctx.terminal ctx.printed) then
    let printed ← attempt (console.print ctx.printed (line ++ Eval.lineEnd))
    plain <| Eval.update fun ctx => { ctx with printed := printed }
    return .nil
  else return .string line

section Strict

theorem allM_ok {α : Type} {p : α → Except Breakdown Bool} {q : α → Bool} {as : List α}
    (total : ∀ a, p a = .ok (q a)) : as.allM p = .ok (as.all q) := by
  induction as with
  | nil => rfl
  | cons a as ih =>
    rw [List.allM, total, List.all_cons]
    cases q a with
    | false => rfl
    | true => exact ih

theorem chars_ok (cs : List Char) :
    (cs.mapM fun c => Value.char <$> Partial.char c.toString) = .ok (cs.map Value.char) := by
  induction cs with
  | nil => rfl
  | cons c cs ih =>
    rw [List.mapM_cons, Partial.char_single, ih]
    rfl

/-- The items of a value are taken for the elements that its positions stand for. -/
def Elements (v : Value) (row elements : List Value) : Prop :=
  row.length = elements.length ∧
    ∀ (i : Nat) (item : Value), row[i]? = some item →
      ∃ a, elements[i]? = some a ∧ taken v item = .ok a

theorem elements_string (s : String) :
    Elements (.string s) (s.toList.map fun c => .string c.toString) (s.toList.map Value.char) := by
  constructor
  · rw [List.length_map, List.length_map]
  · intro i item found
    rw [List.getElem?_map] at found ⊢
    obtain ⟨c, here, rfl⟩ := Option.map_eq_some_iff.mp found
    refine ⟨.char c, by rw [here]; rfl, ?_⟩
    change Value.char <$> Partial.char c.toString = _
    rw [Partial.char_single]
    rfl

theorem sure_indexed (v : Value) :
    Sure console (Elements v) (need indexed? v) (Eval.need Value.elements? v) := by
  cases v with
  | seq shape items => exact sure_pure ⟨rfl, fun i item found => ⟨item, found, rfl⟩⟩
  | atom a =>
    cases a with
    | string s => exact sure_pure (elements_string s)
    | number | bool | char | symbol | keyword | nil => exact sure_fail _
  | builtin | fn | closure => exact sure_fail _

theorem sure_element {v : Value} {row elements : List Value} (located : Elements v row elements)
    (x : Float) :
    Sure console Eq (element v row x) (match Eval.element? elements x with
      | some v => pure v
      | none => Eval.fail (.invalidArgument (.number x))) := by
  obtain ⟨same, located⟩ := located
  unfold element Eval.element?
  cases found : wholeNumber? x with
  | none => exact sure_fail _
  | some n =>
    have whole : Partial.whole x = .ok n := by rw [Partial.whole, found]
    cases n with
    | negSucc i => exact sure_fail _
    | ofNat i =>
      by_cases inside : i < row.length
      · obtain ⟨a, there, taken⟩ := located i row[i] (List.getElem?_eq_getElem inside)
        have item := Partial.item_of_getElem? (List.getElem?_eq_getElem inside)
        dsimp only
        rw [if_pos (by simp [inside]), there]
        exact .attempt whole (.attempt item (sure_attempt taken))
      · have outside : elements[i]? = none := List.getElem?_eq_none (by omega)
        dsimp only
        rw [if_neg (by simp [inside]), outside]
        exact sure_fail _

include sure

theorem sure_numbers (args : List Node) :
    Sure console Eq (numbers ev args) (Eval.numbers ev' args) :=
  (sure_evalAll sure args).bind fun _ => sure_needAll _ _

theorem sure_foldNumbers (op : Float → Float → Float) (unit : Float) (args : List Node) :
    Sure console Eq (foldNumbers ev op unit args) (Eval.foldNumbers ev' op unit args) :=
  (sure_numbers sure args).bind fun _ => sure_pure rfl

theorem sure_reduceNumbers {op : Float → Float → Except Breakdown Float}
    {f : Float → Float → Float} (total : ∀ x y, op x y = .ok (f x y)) (args : List Node) :
    Sure console Eq (reduceNumbers ev op args) (Eval.reduceNumbers ev' f args) := by
  apply (sure_numbers sure args).bind
  intro xs
  cases xs with
  | nil => exact sure_fail _
  | cons x xs => exact .attempt (Partial.reduce_ok total x xs) (sure_pure rfl)

theorem sure_compareNumbers (rel : Float → Float → Bool) (args : List Node) :
    Sure console Eq (compareNumbers ev rel args) (Eval.compareNumbers ev' rel args) :=
  (sure_numbers sure args).bind fun _ => sure_pure rfl

theorem sure_equal (args : List Node) : Sure console Eq (equal ev args) (Eval.equal ev' args) := by
  apply (sure_evalAll sure args).bind
  intro vs
  cases vs with
  | nil => exact sure_pure rfl
  | cons v vs =>
    have each : ∀ w : Value, (do return w.isEqual (← Partial.item (v :: vs) 0)) =
        Except.ok (w.isEqual v) := fun w => rfl
    exact .attempt (allM_ok each) (sure_pure rfl)

theorem sure_negate (args : List Node) :
    Sure console Eq (negate ev args) (Eval.negate ev' args) := by
  apply (sure_unary args).bind
  intro node
  apply (sure node).bind
  intro v
  exact (sure_need _ _).bind fun b => sure_pure rfl

theorem sure_concat (args : List Node) :
    Sure console Eq (concat ev args) (Eval.concat ev' args) := by
  apply (sure_evalAll sure args).bind
  intro vs
  exact .attempt (texts_eq vs) (sure_pure rfl)

theorem sure_chars (args : List Node) : Sure console Eq (chars ev args) (Eval.chars ev' args) := by
  apply (sure_unary args).bind
  intro node
  apply (sure node).bind
  intro v
  apply (sure_need _ _).bind
  intro s
  exact .attempt (chars_ok s.toList) (sure_pure rfl)

theorem sure_join (args : List Node) : Sure console Eq (join ev args) (Eval.join ev' args) := by
  apply (sure_binary args).bind
  rintro ⟨separator, sequence⟩
  apply (sure separator).bind
  intro v
  apply (sure_need _ _).bind
  intro sep
  apply (sure sequence).bind
  intro w
  apply (sure_need _ _).bind
  intro items
  exact .attempt (texts_eq items) (sure_pure rfl)

theorem sure_vector (args : List Node) : Sure console Eq (vector ev args) (Eval.vector ev' args) :=
  (sure_evalAll sure args).bind fun _ => sure_pure rfl

theorem sure_nth (args : List Node) : Sure console Eq (nth ev args) (Eval.nth ev' args) := by
  apply (sure_binary args).bind
  rintro ⟨sequence, position⟩
  apply (sure sequence).bind
  intro v
  apply (sure_indexed v).relate
  intro row elements located
  apply (sure position).bind
  intro w
  apply (sure_need _ _).bind
  intro x
  exact sure_element located x

theorem sure_parseNumber (args : List Node) :
    Sure console Eq (parseNumber ev args) (Eval.parseNumber ev' args) := by
  apply (sure_unary args).bind
  intro node
  apply (sure node).bind
  intro v
  apply (sure_need _ _).bind
  intro s
  unfold Partial.numeral
  cases Number.read? s.toList with
  | none => exact sure_fail _
  | some x => exact sure_pure rfl

theorem sure_println (args : List Node) :
    Sure console Eq (println console ev args) (Eval.println ev' args) := by
  apply (sure_evalAll sure args).bind
  intro vs
  refine .attempt (texts_eq vs) (sure_context_bind fun ctx => ?_)
  generalize " ".intercalate (vs.map Value.text) = line
  rw [Console.isTerminal, Console.print]
  cases there : console.isOpen ctx.printed with
  | false => exact .broken there
  | true =>
    cases screen : ctx.terminal with
    | false => exact .ok rfl screen
    | true =>
      cases accepted : console.accepts ctx.printed (line ++ Eval.lineEnd) with
      | false => exact .broken ⟨rfl, accepted⟩
      | true =>
        rw [← String.append_assoc]
        exact .ok rfl screen

end Strict
end Guarded
end Lisplet
