import Lisplet.Eval.Basic
import Lisplet.Node.Parser

/-!
Sessions. A context outlives the sources that are run in it: what one source defines the next
one sees. Running goes on after a form that fails; evaluating a source for its value does not.
A source that cannot be read is not evaluated at all.
-/

namespace Lisplet

/-- A top-level form and what became of it. -/
structure FormResult where
  node : Node
  outcome : Except EvalError Value

namespace Operation

/-- The globals of a fresh session. -/
def globals : Scope Value :=
  .ofList (table.map fun (name, operation) => (⟨name⟩, .builtin ⟨name⟩ operation))

end Operation

namespace Eval

/-- The value of the last node, each being evaluated in order; `last` if there is none. -/
def lastValue (ev : Evaluator) (last : Value) : List Node → Eval Value
  | [] => pure last
  | node :: nodes => do lastValue ev (← ev node) nodes

end Eval

namespace Context

/-- A session in which nothing has happened yet. -/
def fresh (maxDepth : Int) (terminal : Bool) : Context :=
  let ctx : Context := {
    globals := Operation.globals
    locals := .empty
    site := .emptyAt (.ofText "" none) 0
    depth := 0
    maxDepth := maxDepth
    terminal := terminal
    printed := ""
    journal := [] }
  ctx.record (.contextCreated ctx.globals.size)

/-- The context with events added to its journal, the first of them first. -/
def recordAll (ctx : Context) (events : List Event) : Context := events.foldl record ctx

/-- Reads the forms of a source. -/
def read (ctx : Context) (source : Source) : Except ParseError (List Node) × Context :=
  let forms := source.parse
  (forms, ctx.recordAll (Event.ofParse forms))

/-- Evaluates one form for itself. -/
def runForm (ctx : Context) (node : Node) : FormResult × Context :=
  let (outcome, after) := (Eval.eval node).run ctx
  let noted := match outcome with
    | .ok _ => after
    | .error e => after.record (.formFailed node.span e)
  (⟨node, outcome⟩, noted)

/-- Evaluates forms one after the other, whatever becomes of them. -/
def runForms (ctx : Context) : List Node → List FormResult × Context
  | [] => ([], ctx)
  | node :: nodes =>
    let (result, after) := ctx.runForm node
    let (results, final) := after.runForms nodes
    (result :: results, final)

/-- Runs every form of a source. -/
def run (ctx : Context) (source : Source) : Except ParseError (List FormResult) × Context :=
  match ctx.read source with
  | (.error e, after) => (.error e, after)
  | (.ok forms, after) =>
    let (results, final) := after.runForms forms
    (.ok results, final)

/-- The value of the last form of a source under the given evaluation; nil if there is none. -/
def valueWith (ctx : Context) (ev : Eval.Evaluator) (source : Source) :
    Except Error Value × Context :=
  match ctx.read source with
  | (.error e, after) => (.error (.parse e), after)
  | (.ok forms, after) =>
    match (Eval.lastValue ev .nil forms).run after with
    | (.ok value, final) => (.ok value, final)
    | (.error e, final) => (.error (.eval e), final)

/-- Evaluates a source for the value of its last form; the first error stops it. -/
def value (ctx : Context) (source : Source) : Except Error Value × Context :=
  ctx.valueWith Eval.eval source

/-- The same with other locals for every form. -/
def valueUnder (ctx : Context) (locals : Scope Value) (source : Source) :
    Except Error Value × Context :=
  ctx.valueWith (fun node => .withLocals locals (Eval.eval node)) source

/-- Whether a text only waits for closing brackets. -/
def needsMore (ctx : Context) (source : Source) : Bool × Context :=
  (source.needsMore, (ctx.read source).2)

def globalNames (ctx : Context) : List Symbol := ctx.globals.names

/-- The context with its journal and its output taken away. -/
def drained (ctx : Context) : Context := { ctx with printed := "", journal := [] }

end Context
end Lisplet
