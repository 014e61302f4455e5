import Primer.Text.Basic
import Primer.Text.Columns
import Primer.Text.Quoted
import Primer.Text.Utf8
import Primer.Number.Decimal
import Primer.Word
import Primer.Span
import Primer.Operator
import Primer.Store
import Primer.Diagnostic
import Primer.Token.Lexer
import Primer.Cursor
import Primer.Expression
import Primer.Statement.Kind
import Primer.Statement.Classify
import Primer.Program
import Primer.Record
import Primer.Machine.Run
import Primer.Snippet
import Primer.CommandLine
import Primer.Main
import Primer.Proofs.Expression.Grammar
import Primer.Proofs.Expression.Completeness
import Primer.Proofs.Statement.Grammar
import Primer.Proofs.Expression.Places
import Primer.Proofs.Machine.Logic
import Primer.Proofs.Machine.Frame
import Primer.Proofs.Statement.Recognition
import Primer.Proofs.Text.Boundary
import Primer.Proofs.Token.Lexing
import Primer.Proofs.Machine.Acceptance
import Primer.Proofs.Program.Lines
import Primer.Proofs.Program.Offsets
import Primer.Proofs.Token.Spans
import Primer.Proofs.Machine.Reports
import Primer.Proofs.Token.Tiling
import Primer.Proofs.Store.Changes
import Primer.Proofs.Machine.Invariant
import Primer.Proofs.Expression.Terminated
import Primer.Proofs.Machine.Coupling
import Primer.Proofs.Machine.Twins
import Primer.Proofs.Machine.Faults
import Primer.Proofs.Machine.Reading
import Primer.Proofs.Machine.Failure
import Primer.Proofs.Machine.Calls
import Primer.Proofs.Machine.Finality
import Primer.Proofs.Machine.Cache
import Primer.Proofs.Machine.Truncation
import Primer.Proofs.Token.Composition
import Primer.Proofs.Machine.Embedding
import Primer.Proofs.Program.Codes
import Primer.Proofs.Program.Contents
import Primer.Proofs.Program.Layout
import Primer.Proofs.Machine.Layout
import Primer.Proofs.Machine.Framing
import Primer.Proofs.Store.History
import Primer.Proofs.Expression.Prefixes
import Primer.Proofs.Statement.Syntax
import Primer.Proofs.Store.Places
import Primer.Proofs.Machine.Effects
import Primer.Proofs.Machine.Output
import Primer.Proofs.Machine.Input
import Primer.Proofs.Expression.Balance
import Primer.Proofs.Statement.Lookahead
import Primer.Proofs.Number.Value
import Primer.Proofs.Store.Exact
import Primer.Proofs.Number.Rounding
import Primer.Proofs.Number.RoundTrip
import Primer.Proofs.Machine.Printed
import Primer.Proofs.Token.Separation
import Primer.Proofs.Token.Steps
import Primer.Proofs.Token.Quotes
import Primer.Proofs.Program.Comments
import Primer.Proofs.Machine.Stops
import Primer.Proofs.Number.Numerals
import Primer.Proofs.Token.Progress
import Primer.Proofs.Machine.Conversions
import Primer.Proofs.Machine.Intake
import Primer.Proofs.Machine.Forward
