import Lisplet.Diagram
import Lisplet.Error.Debug
import Lisplet.Proofs.Eval.Blame
import Lisplet.Proofs.Idle
import Lisplet.Proofs.Value.RoundTrip
import Lisplet.Scope.Update
import Lisplet.Session
import Lisplet.Settings
import Lisplet.Text.Single
import Lisplet.Proofs.Node.Growing
import Lisplet.Proofs.Node.Completion
import Lisplet.Proofs.Correspondence.Basic
import Lisplet.Proofs.Correspondence.Course
import Lisplet.Proofs.Correspondence.Eval
import Lisplet.Proofs.Eval.Mentioned
import Lisplet.Proofs.Eval.Limit
import Lisplet.Proofs.Correspondence.MapSpan
import Lisplet.Proofs.Pieces
import Lisplet.Proofs.Node.Hopeless
import Lisplet.Proofs.Node.Excerpt
import Lisplet.Proofs.Node.Spacing
import Lisplet.Proofs.Node.Resumed
import Lisplet.Proofs.Eval.Asking
import Lisplet.Proofs.Eval.Machine
import Lisplet.Proofs.FirstError
import Lisplet.Proofs.Value.Regular
import Lisplet.Proofs.Reached
import Lisplet.Proofs.Guarded.Partial
import Lisplet.Proofs.Guarded.Text
import Lisplet.Proofs.Guarded.Operations
import Lisplet.Proofs.Guarded.Eval
import Lisplet.Proofs.Guarded.Reading
import Lisplet.Proofs.Guarded.Session
import Lisplet.Proofs.Source.Lines
import Lisplet.Proofs.Diagram
import Lisplet.Proofs.Eval.Binding
import Lisplet.Proofs.Node.Located
import Lisplet.Proofs.Eval.Origin
import Lisplet.Proofs.Kept
import Lisplet.Proofs.Located
import Lisplet.Proofs.Token.Taking
import Lisplet.Proofs.Token.Spelling
import Lisplet.Proofs.Token.Bare
import Lisplet.Proofs.Number.Accepted
import Lisplet.Proofs.Printed
import Lisplet.Proofs.Eval.Calls
import Lisplet.Proofs.Eval.Strict
import Lisplet.Proofs.Value.Equality
import Lisplet.Proofs.Source.Places
import Lisplet.Proofs.Eval.Equal
import Lisplet.Proofs.Scope.Family
import Lisplet.Proofs.Value.Filling
import Lisplet.Proofs.Eval.Within
import Lisplet.Proofs.Growth
