import Policy.Command.Run
import Policy.Compile
import Policy.Document.Reading
import Policy.Document.Schema
import Policy.Document.Validation
import Policy.Document.Writing
import Policy.Evaluation
import Policy.Http.Exchange
import Policy.Main
import Policy.Service.Script
import Policy.Settings
import Policy.Traced.Machine
import Policy.Proofs.Outcome
import Policy.Proofs.Source.Tokens
import Policy.Proofs.Evaluation.Faults
import Policy.Proofs.Evaluation.Firing
import Policy.Proofs.Command.Interchange
import Policy.Proofs.Document.Recovered
import Policy.Proofs.Command.Lines
import Policy.Proofs.Evaluation.Linked
import Policy.Proofs.Evaluation.Derivation
import Policy.Proofs.Evaluation.Cancelled
import Policy.Proofs.Evaluation.Outgoing
import Policy.Proofs.Evaluation.Meaning
import Policy.Proofs.Evaluation.Unread
import Policy.Proofs.Evaluation.Reordered
import Policy.Proofs.Evaluation.Complements
import Policy.Proofs.Document.Exported
import Policy.Proofs.Command.Validated
import Policy.Proofs.Document.Reread
import Policy.Proofs.Pattern.Whole
import Policy.Proofs.Evaluation.Isolated
import Policy.Proofs.Evaluation.Interleaved
import Policy.Proofs.Command.Batches
import Policy.Proofs.Source.Regrouped
import Policy.Proofs.Source.Parentheses
import Policy.Proofs.Source.Positions
import Policy.Proofs.Source.Grouped.Condition
import Policy.Proofs.Unlinked
import Policy.Proofs.Document.Offenders
import Policy.Proofs.Evaluation.Accounted
import Policy.Proofs.Value.Arithmetic
import Policy.Proofs.Value.Chains
import Policy.Proofs.Evaluation.Members
import Policy.Proofs.Evaluation.Deepened
import Policy.Proofs.Evaluation.Descent
import Policy.Proofs.Value.Conversion
import Policy.Proofs.Http.Parameters
import Policy.Proofs.Command.Quiet
import Policy.Proofs.Command.Status
import Policy.Proofs.Traversal
import Policy.Proofs.Programs
import Policy.Proofs.Machine
import Policy.Proofs.Source.Cursor.Productions
