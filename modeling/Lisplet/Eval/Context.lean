import Lisplet.Journal

/-!
The state of an evaluation and the actions on it. A context holds the two scopes that a program
can see, the head of the innermost call in progress, and how deep calls are nested. An action
keeps the state that it has reached when it fails, so what is to be put back after a call or a
change of scope is put back on every exit.
-/

namespace Lisplet

structure Context where
  globals : Scope Value
  locals : Scope Value
  /-- The head of the innermost call in progress, to which its errors point. -/
  site : Span
  depth : Nat
  maxDepth : Int
  /-- Whether the console is a terminal, on which lines are printed at once. -/
  terminal : Bool
  printed : String
  /-- What has been reported, the latest first. -/
  journal : List Event

namespace Context

/-- The value of a name: the locals come before the globals. -/
def lookup (ctx : Context) (name : Symbol) : Option Value :=
  match ctx.locals.lookup name with
  | some value => some value
  | none => ctx.globals.lookup name

def record (ctx : Context) (event : Event) : Context :=
  { ctx with journal := event :: ctx.journal }

end Context

/-- An action on a context: it gives a value or an error, and the context afterwards. -/
def Eval (α : Type) : Type := Context → Except EvalError α × Context

namespace Eval

variable {α β : Type}

def run (x : Eval α) (ctx : Context) : Except EvalError α × Context := x ctx

protected def pure (a : α) : Eval α := fun ctx => (.ok a, ctx)

/-- An error passes by what would follow. -/
protected def bind (x : Eval α) (f : α → Eval β) : Eval β := fun ctx =>
  match x ctx with
  | (.ok a, after) => f a after
  | (.error e, after) => (.error e, after)

instance : Monad Eval where
  pure := Eval.pure
  bind := Eval.bind

def context : Eval Context := fun ctx => (.ok ctx, ctx)

def update (f : Context → Context) : Eval Unit := fun ctx => (.ok (), f ctx)

def throw (e : EvalError) : Eval α := fun ctx => (.error e, ctx)

/-- Fails at the head of the innermost call in progress. -/
def fail (fault : EvalFault) : Eval α := fun ctx => (.error ⟨fault, ctx.site⟩, ctx)

def record (event : Event) : Eval Unit := update (·.record event)

def defineGlobal (name : Symbol) (value : Value) : Eval Unit :=
  update fun ctx => { ctx with globals := ctx.globals.define name value }

def defineLocal (name : Symbol) (value : Value) : Eval Unit :=
  update fun ctx => { ctx with locals := ctx.locals.define name value }

/-- Runs an action one call deeper, with `head` as the place to blame. -/
def calling (head : Span) (x : Eval α) : Eval α := fun ctx =>
  let (result, after) := x { ctx with site := head, depth := ctx.depth + 1 }
  (result, { after with site := ctx.site, depth := after.depth - 1 })

/-- Runs an action with other locals. -/
def withLocals (locals : Scope Value) (x : Eval α) : Eval α := fun ctx =>
  let (result, after) := x { ctx with locals := locals }
  (result, { after with locals := ctx.locals })

end Eval
end Lisplet
