import PrototypeLisp.CommandLine
import PrototypeLisp.Decimal.Arithmetic
import PrototypeLisp.Decimal.Basic
import PrototypeLisp.Decimal.Notation
import PrototypeLisp.Decimal.Numeral
import PrototypeLisp.Decimal.Quotient
import PrototypeLisp.Directory
import PrototypeLisp.Error
import PrototypeLisp.Eval
import PrototypeLisp.Event
import PrototypeLisp.Expr.Basic
import PrototypeLisp.Expr.Reader
import PrototypeLisp.Expr.Stream
import PrototypeLisp.Form
import PrototypeLisp.Heap.Basic
import PrototypeLisp.Heap.Initial
import PrototypeLisp.Heap.Prototype
import PrototypeLisp.Heap.Text
import PrototypeLisp.Main
import PrototypeLisp.Operator.Apply
import PrototypeLisp.Operator.Basic
import PrototypeLisp.Path
import PrototypeLisp.Program
import PrototypeLisp.Proofs.Decimal.Arithmetic
import PrototypeLisp.Proofs.Decimal.Digits
import PrototypeLisp.Proofs.Decimal.Notation
import PrototypeLisp.Proofs.Decimal.Quotient
import PrototypeLisp.Proofs.Decimal.Spelling
import PrototypeLisp.Proofs.Decimal.Stripping
import PrototypeLisp.Proofs.Decimal.Terminating
import PrototypeLisp.Proofs.Eval.Compositional
import PrototypeLisp.Proofs.Eval.Coupling
import PrototypeLisp.Proofs.Eval.Course
import PrototypeLisp.Proofs.Eval.Events
import PrototypeLisp.Proofs.Eval.Exhaustion
import PrototypeLisp.Proofs.Eval.Policy
import PrototypeLisp.Proofs.Eval.Soundness
import PrototypeLisp.Proofs.Eval.Watch
import PrototypeLisp.Proofs.Expr.Balance
import PrototypeLisp.Proofs.Expr.Descent
import PrototypeLisp.Proofs.Expr.Grammar
import PrototypeLisp.Proofs.Expr.Leading
import PrototypeLisp.Proofs.Expr.Literals
import PrototypeLisp.Proofs.Expr.Nesting
import PrototypeLisp.Proofs.Expr.Proper
import PrototypeLisp.Proofs.Expr.RoundTrip
import PrototypeLisp.Proofs.Expr.Stream
import PrototypeLisp.Proofs.Form.Inverse
import PrototypeLisp.Proofs.Form.Parts
import PrototypeLisp.Proofs.Heap.Accessors
import PrototypeLisp.Proofs.Heap.Change
import PrototypeLisp.Proofs.Heap.Extra
import PrototypeLisp.Proofs.Heap.Fields
import PrototypeLisp.Proofs.Heap.Growth
import PrototypeLisp.Proofs.Heap.Ownership
import PrototypeLisp.Proofs.Heap.Prototype
import PrototypeLisp.Proofs.Heap.Seclusion
import PrototypeLisp.Proofs.Heap.WellFormed
import PrototypeLisp.Proofs.Operator.Division
import PrototypeLisp.Proofs.Operator.Exact
import PrototypeLisp.Proofs.Operator.Overflow
import PrototypeLisp.Proofs.Operator.Range
import PrototypeLisp.Proofs.Repl.Batch
import PrototypeLisp.Proofs.Repl.Chunks
import PrototypeLisp.Proofs.Repl.Reports
import PrototypeLisp.Proofs.Scope.Overlay
import PrototypeLisp.Proofs.Scope.Views
import PrototypeLisp.Proofs.Session.Accessors
import PrototypeLisp.Proofs.Session.Construction
import PrototypeLisp.Proofs.Session.Definition
import PrototypeLisp.Proofs.Session.Delegation
import PrototypeLisp.Proofs.Session.Dispatch
import PrototypeLisp.Proofs.Session.Fields
import PrototypeLisp.Proofs.Session.Frame
import PrototypeLisp.Proofs.Session.Invisible
import PrototypeLisp.Proofs.Session.LineEnds
import PrototypeLisp.Proofs.Session.Methods
import PrototypeLisp.Proofs.Session.Printed
import PrototypeLisp.Proofs.Session.Run
import PrototypeLisp.Proofs.Session.Safety
import PrototypeLisp.Proofs.Session.Streaming
import PrototypeLisp.Proofs.Session.Termination
import PrototypeLisp.Proofs.Session.Text
import PrototypeLisp.Proofs.Text.Runs
import PrototypeLisp.Proofs.Token.Lines
import PrototypeLisp.Proofs.Token.Matching
import PrototypeLisp.Proofs.Token.Segments
import PrototypeLisp.Proofs.Token.Words
import PrototypeLisp.Repl
import PrototypeLisp.Scope.Basic
import PrototypeLisp.Scope.Lemmas
import PrototypeLisp.Session
import PrototypeLisp.Settings
import PrototypeLisp.Text.Blank
import PrototypeLisp.Text.Digit
import PrototypeLisp.Text.Printable
import PrototypeLisp.Text.Quoted
import PrototypeLisp.Token.Basic
import PrototypeLisp.Token.Lexer
import PrototypeLisp.Value
