import SchemaCheck.Text.Printable
import SchemaCheck.Text.Uppercase
import SchemaCheck.Text.Cut
import SchemaCheck.Text.Escaped
import SchemaCheck.Number.Quantity
import SchemaCheck.Number.Shortest
import SchemaCheck.Number.Spelling
import SchemaCheck.Path
import SchemaCheck.Entries
import SchemaCheck.Value.Basic
import SchemaCheck.Value.Literal
import SchemaCheck.Value.Inspected
import SchemaCheck.Value.Json
import SchemaCheck.Value.Printed
import SchemaCheck.Value.Report
import SchemaCheck.Outcome
import SchemaCheck.Calls
import SchemaCheck.Kind
import SchemaCheck.Fault
import SchemaCheck.Complaint
import SchemaCheck.Runs
import SchemaCheck.Chain
import SchemaCheck.Check
import SchemaCheck.Chain.Size
import SchemaCheck.Compile
import SchemaCheck.Model.Basic
import SchemaCheck.Model.Shared
import SchemaCheck.Model.Describe
import SchemaCheck.Session
import SchemaCheck.Proofs.Parts
import SchemaCheck.Proofs.Steps
import SchemaCheck.Proofs.Outcome
import SchemaCheck.Proofs.Placement.Check
import SchemaCheck.Proofs.Placement.Fault
import SchemaCheck.Proofs.Placement
import SchemaCheck.Proofs.Runs
import SchemaCheck.Proofs.Runs.Maximal
import SchemaCheck.Proofs.Merging
import SchemaCheck.Proofs.WellFormed
import SchemaCheck.Proofs.Sequencing
import SchemaCheck.Proofs.Entries
import SchemaCheck.Proofs.Decomposition.Object
import SchemaCheck.Proofs.Decomposition
import SchemaCheck.Proofs.Missing
import SchemaCheck.Proofs.Bracketing
import SchemaCheck.Proofs.Model.Describing
import SchemaCheck.Proofs.Model.Requiredness
import SchemaCheck.Proofs.Acceptance
import SchemaCheck.Proofs.Model.Defaults
import SchemaCheck.Proofs.Equality
import SchemaCheck.Proofs.Model.Conformance
import SchemaCheck.Proofs.Within
import SchemaCheck.Proofs.Carrying
import SchemaCheck.Proofs.Model.Sharing
import SchemaCheck.Proofs.Model.Yielding
import SchemaCheck.Proofs.Model.Soundness
import SchemaCheck.Proofs.Rearranging
import SchemaCheck.Proofs.Addressing
import SchemaCheck.Proofs.Arrangement
import SchemaCheck.Proofs.Revalidating
import SchemaCheck.Proofs.KeyOrder.Reordered
import SchemaCheck.Proofs.KeyOrder.Agreement
import SchemaCheck.Proofs.KeyOrder
import SchemaCheck.Proofs.Absence
import SchemaCheck.Proofs.Blame
import SchemaCheck.Proofs.Model.Completeness
import SchemaCheck.Proofs.Interference
import SchemaCheck.Proofs.Contexts
import SchemaCheck.Proofs.Interchange
import SchemaCheck.Proofs.Joining.Step
import SchemaCheck.Proofs.Joining
import SchemaCheck.Proofs.Enums
import SchemaCheck.Proofs.NormalForm
import SchemaCheck.Proofs.Choice
import SchemaCheck.Proofs.Rebasing
import SchemaCheck.Proofs.Explaining
import SchemaCheck.Proofs.Printing
import SchemaCheck.Proofs.Printing.Delimited
import SchemaCheck.Proofs.Printing.Unambiguous
