import TraceContract.Session
import TraceContract.Proofs.Template.Acceptance
import TraceContract.Proofs.Contract.Compilation
import TraceContract.Proofs.Template.Substitution
import TraceContract.Proofs.Span.Custody
import TraceContract.Proofs.Registry.Sharing
import TraceContract.Proofs.Record.Fields
import TraceContract.Proofs.Process.Deferral
import TraceContract.Proofs.Trace.Dispatch
import TraceContract.Proofs.Hub.Delivery
import TraceContract.Proofs.Layout.Keys
import TraceContract.Proofs.Hub.Steady
import TraceContract.Proofs.Program.Ledger
import TraceContract.Proofs.Program.Turn
import TraceContract.Proofs.Program.Delivery
import TraceContract.Proofs.Record.Rendering
import TraceContract.Proofs.Template.Refusal
import TraceContract.Proofs.Exception.Causes
import TraceContract.Proofs.Text.Decimals
import TraceContract.Proofs.Template.Juxtaposition
import TraceContract.Proofs.Template.Positional
import TraceContract.Proofs.Binary64.Integers
import TraceContract.Proofs.Record.Texts
import TraceContract.Proofs.Time.Reading
import TraceContract.Proofs.Exception.Wording
import TraceContract.Proofs.Record.Causes
import TraceContract.Proofs.Time.Durations
import TraceContract.Proofs.Time.Order
import TraceContract.Proofs.Contract.Roles
import TraceContract.Proofs.Layout.Attributes
import TraceContract.Proofs.Record.Agreement
import TraceContract.Proofs.Contract.Clauses
import TraceContract.Proofs.Layout.Lines
import TraceContract.Proofs.Process.Reentry
import TraceContract.Proofs.Setup.Building
import TraceContract.Proofs.Template.Segments
import TraceContract.Proofs.Record.Insertion
import TraceContract.Proofs.Record.Rebinding
