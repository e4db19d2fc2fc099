import Lisplet.Proofs.FirstError
import Lisplet.Proofs.Guarded.Eval
import Lisplet.Proofs.Guarded.Reading

/-!
Sessions with all checks. Nothing but the errors of the language leaves a session on a console that
serves it: a source fails to be read for a reason that a text can have, or else each of its forms
comes to a value or to an error of evaluation. On other consoles the breakdown of the console is
all that can leave it besides.
-/

namespace Lisplet

theorem Growth.reachable_of_feed {g : Growth} {t : Token} {e : ParseError}
    (failed : g.feed t = .error e) : e.fault ≠ .unreachable := by
  obtain ⟨kind, span⟩ := t
  obtain ⟨forms, opened⟩ := g
  cases kind with
  | comment | opening | atom => cases failed
  | closing shape =>
    cases opened with
    | nil =>
      cases failed
      intro same
      cases same
    | cons inner outer =>
      simp only [feed, close] at failed
      split at failed
      · cases failed
      · cases failed
        intro same
        cases same

theorem Parser.reachable_of_readForest {g : Growth} {lexemes : List (Except LexError Token)}
    {e : ParseError} (failed : (readForest g lexemes).1 = .error e) : e.fault ≠ .unreachable := by
  induction lexemes generalizing g with
  | nil =>
    obtain ⟨forms, opened⟩ := g
    cases opened with
    | nil => cases failed
    | cons inner outer =>
      cases failed
      intro same
      cases same
  | cons lexeme rest ih =>
    cases lexeme with
    | error e =>
      cases failed
      intro same
      cases same
    | ok t =>
      rw [readForest] at failed
      cases fed : g.feed t with
      | error e =>
        rw [fed] at failed
        cases failed
        exact Growth.reachable_of_feed fed
      | ok after =>
        rw [fed] at failed
        exact ih failed

namespace Guarded

variable (console : Console)

/-- Evaluates one form. If it fails, its error is put down with the sentence for the user. -/
def runForm (ctx : Context) (node : Node) : Except Breakdown FormResult × Context :=
  match (eval console node).run ctx with
  | (.ok (.ok v), after) => (.ok ⟨node, .ok v⟩, after)
  | (.ok (.error breakdown), after) => (.error breakdown, after)
  | (.error e, after) =>
    ((message e.fault).map fun _ => ⟨node, .error e⟩, after.record (.formFailed node.span e))

/-- Evaluates forms one after the other. A breakdown is not held up by anything. -/
def runForms (ctx : Context) : List Node → Except Breakdown (List FormResult) × Context
  | [] => (.ok [], ctx)
  | node :: nodes =>
    match runForm console ctx node with
    | (.error breakdown, after) => (.error breakdown, after)
    | (.ok result, after) =>
      let (results, final) := runForms after nodes
      (results.map (result :: ·), final)

def runSource (ctx : Context) (source : Source) :
    Except Breakdown (Except ParseError (List FormResult)) × Context :=
  match parse source with
  | .error breakdown => (.error breakdown, ctx)
  | .ok forms =>
    let after := ctx.recordAll (Event.ofParse forms)
    match forms with
    | .error e => (.ok (.error e), after)
    | .ok nodes =>
      let (results, final) := runForms console after nodes
      (results.map .ok, final)

/-- A run under checks agrees with one without: it comes to the same, or else the console has
broken it off. -/
def Agrees {α : Type} (terminal : Bool) (found : Except Breakdown α × Context)
    (expected : α × Context) : Prop :=
  found = (.ok expected.1, expected.2) ∨
    ∃ breakdown after, found = (.error breakdown, after) ∧
      console.Fails terminal after.printed breakdown

variable {console : Console} {α β : Type} {terminal : Bool}

theorem Agrees.of_serves {found : Except Breakdown α × Context} {expected : α × Context}
    (agrees : Agrees console terminal found expected) (serves : console.Serves terminal) :
    found = (.ok expected.1, expected.2) := by
  rcases agrees with same | ⟨breakdown, after, -, fails⟩
  · exact same
  · exact absurd fails serves.not_fails

theorem Agrees.map {found : Except Breakdown α × Context} {expected : α × Context}
    (agrees : Agrees console terminal found expected) (f : α → β) :
    Agrees console terminal (found.1.map f, found.2) (f expected.1, expected.2) := by
  rcases agrees with rfl | ⟨breakdown, after, rfl, fails⟩
  · exact .inl rfl
  · exact .inr ⟨breakdown, after, rfl, fails⟩

variable (console)

theorem runForm_agrees (ctx : Context) (node : Node) :
    Agrees console ctx.terminal (runForm console ctx node) (ctx.runForm node) := by
  have sure : Sure.At console ctx.terminal Eq _ _ := sure_eval node ctx
  unfold runForm Context.runForm Eval.run
  generalize (eval console node).run ctx = found at sure ⊢
  generalize Eval.eval node ctx = found' at sure ⊢
  cases sure with
  | error =>
    refine .inl ?_
    dsimp only
    rw [message_eq]
    rfl
  | ok same =>
    subst same
    exact .inl rfl
  | broken fails => exact .inr ⟨_, _, rfl, fails⟩

theorem runForms_agrees (ctx : Context) (forms : List Node) :
    Agrees console ctx.terminal (runForms console ctx forms) (ctx.runForms forms) := by
  induction forms generalizing ctx with
  | nil => exact .inl rfl
  | cons node nodes ih =>
    rw [runForms]
    rcases runForm_agrees console ctx node with same | ⟨breakdown, after, same, fails⟩
    · -- The forms after it start from another context, but on the same terminal.
      have rest := ih (ctx.runForm node).2
      rw [(ctx.runForm_restored node).terminal] at rest
      rw [same]
      exact rest.map ((ctx.runForm node).1 :: ·)
    · rw [same]
      exact .inr ⟨breakdown, after, rfl, fails⟩

theorem runSource_agrees (ctx : Context) (source : Source) :
    Agrees console ctx.terminal (runSource console ctx source) (ctx.run source) := by
  unfold runSource Context.run Context.read
  rw [parse_eq]
  dsimp only
  have same := (ctx.recordAll_restored (Event.ofParse source.parse)).terminal
  cases parsed : source.parse with
  | error e => exact .inl rfl
  | ok forms =>
    rw [parsed] at same
    have agrees := runForms_agrees console (ctx.recordAll (Event.ofParse (.ok forms))) forms
    rw [same] at agrees
    exact agrees.map Except.ok

/-- The console is not asked for anything before a source is read. -/
theorem runSource_unread {source : Source} {e : ParseError} (unread : source.parse = .error e)
    (ctx : Context) :
    runSource console ctx source = (.ok (ctx.run source).1, (ctx.run source).2) := by
  unfold runSource Context.run Context.read
  rw [parse_eq, unread]

end Guarded

namespace Context

/-- Running a source with every check in place comes to what running it comes to, unless the
console breaks it off; a console that serves does not. Either the source cannot be read, for a
reason that a text can have and with nothing evaluated; or there is one result for each of its
forms, a value or an error. -/
theorem run_breaks_only_at_console (console : Console) (ctx : Context) (source : Source) :
    Guarded.Agrees console ctx.terminal (Guarded.runSource console ctx source)
      (ctx.run source) ∧
    (console.Serves ctx.terminal →
      Guarded.runSource console ctx source = (.ok (ctx.run source).1, (ctx.run source).2)) ∧
    ((∃ e, source.parse = .error e ∧ e.fault ≠ .unreachable ∧ (ctx.run source).1 = .error e ∧
        { (ctx.run source).2 with journal := ctx.journal } = ctx ∧
        Guarded.runSource console ctx source = (.ok (.error e), (ctx.run source).2)) ∨
      ∃ forms results, source.parse = .ok forms ∧ (ctx.run source).1 = .ok results ∧
        results.map FormResult.node = forms) := by
  have agrees := Guarded.runSource_agrees console ctx source
  refine ⟨agrees, agrees.of_serves, ?_⟩
  cases parsed : source.parse with
  | error e =>
    have reachable := Parser.reachable_of_readForest parsed
    have failed : (ctx.run source).1 = .error e := by rw [(unread parsed ctx).1]
    refine .inl ⟨e, rfl, reachable, failed, ?_, ?_⟩
    · rw [(unread parsed ctx).1, read_eq]
    · rw [Guarded.runSource_unread console parsed, failed]
  | ok forms =>
    refine .inr ⟨forms, _, rfl, ?_, nodes_runForms (ctx.read source).2 forms⟩
    rw [run_of_parse parsed ctx]

/-- Two lines on a terminal that accepts everything, and on one that lacks a letter of the
second. -/
theorem run_breaks_only_at_console_letter :
    let every : Console := ⟨fun _ => true, fun _ _ => true⟩
    let ascii : Console := ⟨fun _ => true, fun _ text => text.toList.all (·.toNat < 128)⟩
    let ctx := fresh 9 true
    let source : Source := .ofText "(println 1) (println \"λ\")" none
    (every.Serves ctx.terminal ∧
      Guarded.runSource every ctx source = (.ok (ctx.run source).1, (ctx.run source).2) ∧
      (ctx.run source).2.printed = "1\x1b[m\nλ\x1b[m\n") ∧
    Guarded.Agrees ascii ctx.terminal (Guarded.runSource ascii ctx source) (ctx.run source) ∧
      (Guarded.runSource ascii ctx source).1.isOk = false ∧
      (Guarded.runSource ascii ctx source).2.printed = "1\x1b[m\n" := by
  intro every ascii ctx source
  have serves : every.Serves ctx.terminal := ⟨fun _ => rfl, fun _ _ _ => rfl⟩
  refine ⟨⟨serves, ?_, ?_⟩, ?_, ?_⟩
  · exact (run_breaks_only_at_console every ctx source).2.1 serves
  · decide +kernel
  · exact (run_breaks_only_at_console ascii ctx source).1
  · decide +kernel

end Context
end Lisplet
