import Lisplet.Proofs.Eval.Sound
import Lisplet.Error.Debug

/-!
What is in sound values. A value contains its items, and a closure contains whatever the scope
that it has captured binds. Everything in a sound value is sound, so it can be told of all of it,
however deep it stands, what lists, names and parameters look like.
-/

namespace Lisplet

/-- The name is one word that the reader takes for a symbol: it starts like nothing else and is no
literal. -/
structure Symbol.Plain (s : Symbol) : Prop where
  lexed : s.Lexed
  unbroken : Scan.Unbroken s.name.toList
  start : ∃ c cs, s.name.toList = c :: cs ∧ (c ≠ ':' ∧ c ≠ '"' ∧ c ≠ '\x27') ∧
    Scan.startsNumber c cs = false
  literal : s.name ∉ ["true", "false", "nil"]

theorem Symbol.Lexed.plain {s : Symbol} (lexed : s.Lexed) : s.Plain := by
  obtain ⟨c, cs, written, unbroken, plain, digits, symbol⟩ :=
    Scan.exists_word_of_kinds (Symbol.lexed_iff.mp lexed)
  constructor
  · exact lexed
  · rw [written]
    exact unbroken
  · exact ⟨c, cs, written, plain, digits⟩
  · rw [Scan.name_of_wordAtom symbol]
    exact (Scan.wordAtom_eq_symbol_iff.mp symbol).2

namespace Value

/-- What a value contains at any depth, itself included. -/
inductive Contains : Value → Value → Prop where
  | self {v} : Contains v v
  | item {shape items v w} : v ∈ items → Contains v w → Contains (.seq shape items) w
  | captured {captured params body entry w} : entry ∈ captured.entries → Contains entry.2 w →
      Contains (.closure captured params body) w

variable {v w : Value}

theorem Sound.contains (sound : v.Sound) (inside : v.Contains w) : w.Sound := by
  induction inside with
  | self => exact sound
  | item member _ ih =>
    cases sound with
    | vector items => exact ih (items _ member)
    | list _ items _ => exact ih (items _ member)
  | captured bound _ ih =>
    cases sound with
    | closure _ values _ _ => exact ih (values _ bound)

/-- Data has no closures in it, so nothing callable is hidden in a captured scope. -/
theorem Data.contains (data : v.Data) (inside : v.Contains w) : w.isCallable = false := by
  induction inside with
  | self => exact data _ .self
  | item member _ ih => exact ih (data_seq.mp data _ member)
  | captured _ _ _ => cases data _ .self

/-- Of everything in a value: lists are not empty and hold literal data only; names of symbols are
plain, and those of keywords unbroken; parameters and the names in captured scopes are plain
symbols. -/
structure Regular (v : Value) : Prop where
  nonempty : ∀ items, v.Contains (.seq .list items) → items ≠ []
  literal : ∀ items w, v.Contains (.seq .list items) → (seq .list items).Contains w →
    w.isCallable = false
  symbols : ∀ s, v.Contains (.symbol s) → s.Plain
  keywords : ∀ k, v.Contains (.keyword k) → Scan.Unbroken k.name.toList
  builtins : ∀ name operation, v.Contains (.builtin name operation) → name.Plain
  functions : ∀ name params body, v.Contains (.fn name params body) →
    name.Plain ∧ (∀ p ∈ params, p.Plain) ∧ body.Named
  closures : ∀ captured params body, v.Contains (.closure captured params body) →
    (∀ name ∈ captured.keys, name.Plain) ∧ (∀ p ∈ params, p.Plain) ∧ body.Named

theorem Sound.regular (sound : v.Sound) : v.Regular := by
  constructor
  · intro items inside
    cases sound.contains inside with
    | list nonempty _ _ => exact nonempty
  · intro items w inside deeper
    cases sound.contains inside with
    | list _ _ data => exact Data.contains (data_seq.mpr data) deeper
  · intro s inside
    cases sound.contains inside with
    | atom named => exact Symbol.Lexed.plain named
  · intro k inside
    cases sound.contains inside with
    | atom named => exact named
  · intro name operation inside
    cases sound.contains inside with
    | builtin lexed => exact lexed.plain
  · intro name params body inside
    cases sound.contains inside with
    | fn lexed params body => exact ⟨lexed.plain, fun p member => (params p member).plain, body⟩
  · intro captured params body inside
    cases sound.contains inside with
    | closure names _ params body =>
      exact ⟨fun name bound => (names name bound).plain, fun p member => (params p member).plain,
        body⟩

end Value

/-- The names are plain symbols, and the values are regular. -/
structure Scope.Regular (scope : Scope Value) : Prop where
  names : ∀ name ∈ scope.keys, name.Plain
  values : ∀ entry ∈ scope.entries, entry.2.Regular

theorem Scope.Sound.regular {scope : Scope Value} (sound : scope.Sound) : scope.Regular := by
  constructor
  · intro name bound
    exact (sound.names name bound).plain
  · intro entry bound
    exact (sound.values entry bound).regular

/-- The value that a fault is about, if it is about one, is regular. -/
def EvalFault.Regular (fault : EvalFault) : Prop := ∀ v, fault.value? = some v → v.Regular

theorem EvalFault.Sound.regular {fault : EvalFault} (sound : fault.Sound) : fault.Regular := by
  intro v carried
  cases fault with
  | invalidFunction w | invalidArgument w =>
    cases carried
    exact Value.Sound.regular sound
  | unknownSymbol | missingArguments | tooManyArguments | depthExceeded => cases carried

end Lisplet
