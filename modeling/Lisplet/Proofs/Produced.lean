import Lisplet.Proofs.Eval.Sound
import Lisplet.Proofs.Kept

/-!
What programs produce. A session that is given nothing but sources stays sound, so the values
that come out of it are sound.
-/

namespace Lisplet

theorem Operation.globals_sound : globals.Sound := by
  have names : table.all (fun entry => Scan.isSymbol entry.1.toList) := by decide +kernel
  refine Scope.sound_ofList fun binding member => ?_
  obtain ⟨entry, listed, rfl⟩ := List.mem_map.mp member
  have lexed := Scan.lexed_of_isSymbol (List.all_eq_true.mp names entry listed)
  exact ⟨lexed, .builtin lexed⟩

namespace Context

/-- Both scopes that a program can see are sound. -/
structure Sound (ctx : Context) : Prop where
  globals : ctx.globals.Sound
  locals : ctx.locals.Sound

variable {ctx : Context}

theorem fresh_sound (maxDepth : Int) (terminal : Bool) : (fresh maxDepth terminal).Sound :=
  ⟨Operation.globals_sound, Scope.sound_empty⟩

theorem Sound.record (sound : ctx.Sound) (event : Event) : (ctx.record event).Sound :=
  ⟨sound.globals, sound.locals⟩

theorem Sound.read (sound : ctx.Sound) (source : Source) : (ctx.read source).2.Sound :=
  recordAll_kept (fun _ event sound => sound.record event) sound _

end Context

namespace Eval

variable {α : Type} {good : α → Prop}

/-- From a sound context an action comes to a sound one; what it gives is good, and what it tells
when it fails is sound. -/
def Keeps (good : α → Prop) (x : Eval α) : Prop :=
  ∀ ctx : Context, ctx.Sound →
    Outcome.Sound good ((x ctx).1, (x ctx).2.globals) ∧ (x ctx).2.Sound

theorem eval_keeps {node : Node} (named : node.Named) : (eval node).Keeps Value.Sound := by
  intro ctx sound
  have outcome := ctx.frame.eval_sound ctx.settings node ctx.globals sound.locals named
    sound.globals
  rw [eval_passes] at outcome
  have locals : (eval node ctx).2.locals = ctx.locals := (eval_restored node ctx).locals
  exact ⟨outcome, outcome.globals, locals ▸ sound.locals⟩

/-- Keeping is maintaining soundness. -/
theorem Keeps.maintains {x : Eval α} (keeps : x.Keeps good) :
    x.Maintains Context.Sound good fun e => e.fault.Sound := by
  intro ctx sound
  obtain ⟨outcome, after⟩ := keeps ctx sound
  exact ⟨outcome.value, outcome.fault, after⟩

end Eval

/-- What became of a form is sound. -/
structure FormResult.Sound (result : FormResult) : Prop where
  value : ∀ v, result.outcome = .ok v → v.Sound
  fault : ∀ e, result.outcome = .error e → e.fault.Sound

namespace Context

variable {ctx : Context}

theorem runForms_sound {forms : List Node} (sound : ctx.Sound)
    (named : ∀ node ∈ forms, node.Named) :
    (∀ result ∈ (ctx.runForms forms).1, result.Sound) ∧ (ctx.runForms forms).2.Sound := by
  obtain ⟨results, after⟩ := runForms_kept (fun _ event sound => sound.record event) sound
    fun node member => (Eval.eval_keeps (named node member)).maintains
  exact ⟨fun result member => ⟨(results result member).value, (results result member).error⟩, after⟩

theorem run_sound (sound : ctx.Sound) (source : Source) :
    (∀ results, (ctx.run source).1 = .ok results → ∀ result ∈ results, result.Sound) ∧
      (ctx.run source).2.Sound := by
  obtain ⟨-, ran, after⟩ := run_kept
    (fun _ event sound => sound.record event) source sound fun forest parsed node member =>
      (Eval.eval_keeps (Source.named_of_parse parsed node member)).maintains
  refine ⟨fun results outcomes result member => ?_, after⟩
  have ends := ran results outcomes result member
  exact ⟨ends.value, ends.error⟩

theorem value_sound (sound : ctx.Sound) (source : Source) :
    (∀ v, (ctx.value source).1 = .ok v → v.Sound) ∧
      (∀ e, (ctx.value source).1 = .error (.eval e) → e.fault.Sound) ∧
      (ctx.value source).2.Sound := by
  obtain ⟨values, errors, after⟩ := valueWith_kept
    (fun _ event sound => sound.record event) source sound (.atom trivial)
    fun forest parsed node member =>
      (Eval.eval_keeps (Source.named_of_parse parsed node member)).maintains
  refine ⟨values, fun e failed => ?_, after⟩
  obtain ⟨p, -, same⟩ | ⟨f, sound, same⟩ := errors _ failed
  · cases same
  · cases same
    exact sound

/-- What a fresh context becomes when sources are run in it or evaluated for their values. -/
inductive Reached : Context → Prop where
  | fresh (maxDepth : Int) (terminal : Bool) : Reached (fresh maxDepth terminal)
  | run {ctx : Context} (source : Source) : Reached ctx → Reached (ctx.run source).2
  | value {ctx : Context} (source : Source) : Reached ctx → Reached (ctx.value source).2

theorem Reached.sound (reached : ctx.Reached) : ctx.Sound := by
  induction reached with
  | fresh maxDepth terminal => exact fresh_sound maxDepth terminal
  | run source _ ih => exact (run_sound ih source).2
  | value source _ ih => exact (value_sound ih source).2.2

end Context

/-- The values that programs produce: those of forms and sources, and those that names are bound
to in between. -/
inductive Produced : Value → Prop where
  | form {ctx : Context} (source : Source) {results : List FormResult} {result : FormResult}
      {v : Value} : ctx.Reached → (ctx.run source).1 = .ok results → result ∈ results →
      result.outcome = .ok v → Produced v
  | source {ctx : Context} (source : Source) {v : Value} :
      ctx.Reached → (ctx.value source).1 = .ok v → Produced v
  | global {ctx : Context} {name : Symbol} {v : Value} :
      ctx.Reached → ctx.globals.lookup name = some v → Produced v

theorem Produced.sound {v : Value} (produced : Produced v) : v.Sound := by
  cases produced with
  | form source reached ran member outcome =>
    exact ((Context.run_sound reached.sound source).1 _ ran _ member).value _ outcome
  | source source reached evaluated =>
    exact (Context.value_sound reached.sound source).1 _ evaluated
  | global reached bound => exact reached.sound.globals.lookup bound

end Lisplet
