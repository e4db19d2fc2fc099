import Lisplet.Proofs.Eval.Machine
import Lisplet.Proofs.Idle
import Lisplet.Proofs.Produced
import Lisplet.Proofs.Value.Regular

/-!
What programs meet on their way. Soundness is an invariant of the machine too, so it holds not
only of what a form comes to but of whatever is bound, given or blamed at any step before that.
-/

namespace Lisplet

namespace Machine

def Task.Sound : Task → Prop
  | evaluate frame node => frame.locals.Sound ∧ node.Named
  | proceed _ course => course.Sound Value.Sound
  | give (.ok v) => v.Sound
  | give (.error e) => e.fault.Sound

/-- What is done next is sound, and so is what each waiting call does with a sound value. -/
structure State.Sound (state : State) : Prop where
  waiting : ∀ w ∈ state.waiting, ∀ v, v.Sound → (w.next v).Sound Value.Sound
  task : state.task.Sound
  globals : state.globals.Sound

theorem begin_sound {frame : Frame} {globals : Scope Value} {node : Node} (settings : Settings)
    (scope : frame.locals.Sound) (named : node.Named) (sound : globals.Sound) :
    (begin settings frame globals node).Sound := by
  cases node.form with
  | symbol name span =>
    rw [begin]
    cases found : (frame.locals.lookup name).or (globals.lookup name) with
    | none => exact Node.named_leaf.mp named
    | some v =>
      rcases Option.or_eq_some_iff.mp found with here | ⟨-, there⟩
      · exact scope.lookup here
      · exact sound.lookup there
  | call head args span =>
    exact Course.sound_call scope (Node.named_group.mp named) settings.maxDepth settings.terminal
      (frame.depth + 1)
  | datum notSymbol notCall =>
    rw [begin_datum notSymbol notCall]
    exact node.toValue_sound named

/-- The step lemma of soundness on the way. -/
theorem State.Sound.step {state : State} (sound : state.Sound) (settings : Settings) :
    (state.step settings).Sound := by
  obtain ⟨waiting, task, globals⟩ := state
  obtain ⟨later, now, bound⟩ := sound
  cases task with
  | evaluate frame node => exact ⟨later, begin_sound settings now.1 now.2 bound, bound⟩
  | proceed call course =>
    cases course with
    | done v => exact ⟨later, now, bound⟩
    | fault f => exact ⟨later, now, bound⟩
    | ask locals node next =>
      obtain ⟨scope, named, next⟩ := now
      exact ⟨List.forall_mem_cons.mpr ⟨next, later⟩, ⟨scope, named⟩, bound⟩
    | define name v next =>
      obtain ⟨lexed, value, next⟩ := now
      exact ⟨later, next, bound.define lexed value⟩
    | report event next => exact ⟨later, now, bound⟩
    | print line next => exact ⟨later, now, bound⟩
  | give outcome =>
    cases waiting with
    | nil =>
      rw [State.step]
      exact ⟨later, now, bound⟩
    | cons w waiting =>
      obtain ⟨first, others⟩ := List.forall_mem_cons.mp later
      cases outcome with
      | error e => exact ⟨others, now, bound⟩
      | ok v => exact ⟨others, first v now, bound⟩

/-- The run lemma of soundness on the way. -/
theorem State.Sound.after {state : State} (sound : state.Sound) (settings : Settings)
    (steps : Nat) : (state.after settings steps).Sound := by
  induction steps with
  | zero => exact sound
  | succ steps ih => exact ih.step settings

/-- Whatever is in view at a step is regular: the locals where a node is evaluated, or the value
that is given or blamed. -/
def Task.Regular : Task → Prop
  | evaluate frame _ => frame.locals.Regular
  | proceed _ _ => True
  | give (.ok v) => v.Regular
  | give (.error e) => e.fault.Regular

structure State.Regular (state : State) : Prop where
  task : state.task.Regular
  globals : state.globals.Regular

theorem State.Sound.regular {state : State} (sound : state.Sound) : state.Regular := by
  obtain ⟨waiting, task, globals⟩ := state
  obtain ⟨-, now, bound⟩ := sound
  refine ⟨?_, bound.regular⟩
  cases task with
  | evaluate frame node => exact now.1.regular
  | proceed call course => trivial
  | give outcome =>
    cases outcome with
    | error e => exact EvalFault.Sound.regular now
    | ok v => exact Value.Sound.regular now

end Machine

namespace Context

theorem Sound.start {ctx : Context} (sound : ctx.Sound) {node : Node} (named : node.Named) :
    (Machine.start ctx.frame node ctx.globals).Sound :=
  ⟨nofun, ⟨sound.locals, named⟩, sound.globals⟩

/-- In a context that is reached by texts everything is regular that a program can get hold of:
what the names of both scopes are bound to, and of any further source all values that its forms
and the source itself come to or are blamed for. And this holds at any step of evaluating any of
the forms, of the globals, of the locals there, and of every value that is given or blamed. -/
theorem regular_throughout {ctx : Context} (reached : ctx.Reached) (source : Source) :
    ctx.globals.Regular ∧ ctx.locals.Regular ∧
    (∀ results, (ctx.run source).1 = .ok results → ∀ result ∈ results,
      (∀ v, result.outcome = .ok v → v.Regular) ∧
      ∀ e, result.outcome = .error e → e.fault.Regular) ∧
    (∀ v, (ctx.value source).1 = .ok v → v.Regular) ∧
    (∀ e, (ctx.value source).1 = .error (.eval e) → e.fault.Regular) ∧
    ∀ before node later, source.parse = .ok (before ++ node :: later) →
      let ready := ((ctx.read source).2.runForms before).2
      let machine := (Machine.start ready.frame node ready.globals).after ready.settings
      ∀ steps, (machine steps).Regular := by
  have sound := reached.sound
  have ran := (run_sound sound source).1
  obtain ⟨given, blamed, -⟩ := value_sound sound source
  refine ⟨sound.globals.regular, sound.locals.regular, ?_, ?_, ?_, ?_⟩
  · intro results outcomes result member
    have each := ran results outcomes result member
    exact ⟨fun v ok => (each.value v ok).regular, fun e failed => (each.fault e failed).regular⟩
  · intro v ok
    exact (given v ok).regular
  · intro e failed
    exact (blamed e failed).regular
  · intro before node later parsed ready machine steps
    have named := Source.named_of_parse parsed
    have prepared : ready.Sound := by
      apply (runForms_sound (sound.read source) _).2
      intro form member
      exact named form (List.mem_append_left _ member)
    have start := prepared.start (named node (by simp))
    exact (start.after ready.settings steps).regular

/-- A closure that has captured a vector, and a list that is called. -/
theorem regular_throughout_closure :
    let earlier : Source := .ofText "(const f (let (v [:a 'b']) (lambda [x] (vec v x))))" none
    let ctx := ((fresh 9 false).run earlier).2
    let source : Source := .ofText "(quote (a ())) (f 1) ((quote (a b)) f)" none
    ctx.globals.Regular ∧
    (∃ results, (ctx.run source).1 = .ok results ∧ ∀ result ∈ results,
      (∀ v, result.outcome = .ok v → v.Regular) ∧
      ∀ e, result.outcome = .error e → e.fault.Regular) ∧
    ∃ node later, source.parse = .ok (node :: later) ∧
      let ready := (ctx.read source).2
      ((Machine.start ready.frame node ready.globals).after ready.settings 4).Regular := by
  intro earlier ctx source
  have reached : ctx.Reached := (Reached.fresh 9 false).run earlier
  have forms : source.parse.toOption.map List.length = some 3 := by decide +kernel
  obtain ⟨globals, -, results, -, -, steps⟩ := regular_throughout reached source
  cases parsed : source.parse with
  | error e =>
    rw [parsed] at forms
    cases forms
  | ok nodes =>
    cases nodes with
    | nil =>
      rw [parsed] at forms
      cases forms
    | cons node later =>
      have ran := congrArg Prod.fst (run_of_parse parsed ctx)
      have each := steps [] node later parsed 4
      exact ⟨globals, ⟨_, ran, results _ ran⟩, node, later, rfl, each⟩

end Context
end Lisplet
