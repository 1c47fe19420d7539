import Workflow.Definition.Builder
import Workflow.Main
import Workflow.Proofs.Block.Run
import Workflow.Proofs.Continuations
import Workflow.Proofs.Delays
import Workflow.Proofs.FailedFork
import Workflow.Proofs.LastWrite
import Workflow.Proofs.SharedJoin
import Workflow.Proofs.Spans
import Workflow.Proofs.Causes
import Workflow.Proofs.Barriers
import Workflow.Proofs.Provenance
import Workflow.Proofs.SingleVisits
import Workflow.Proofs.Limit
import Workflow.Proofs.Failures
import Workflow.Proofs.OnGraph
import Workflow.Proofs.Executors
import Workflow.Proofs.Builtin
import Workflow.Proofs.Blame
import Workflow.Proofs.LookAlikes
import Workflow.Proofs.IdleGuards
import Workflow.Proofs.FlowOrder
import Workflow.Proofs.Fanouts
import Workflow.Proofs.Observers
import Workflow.Proofs.Executions
import Workflow.Proofs.Conditions.Operands
import Workflow.Proofs.Conditions.Lookups
import Workflow.Proofs.Bus
import Workflow.Proofs.Cuts
import Workflow.Proofs.References
import Workflow.Proofs.Inputs
import Workflow.Proofs.Templates
import Workflow.Proofs.Rules
import Workflow.Proofs.BranchIds
import Workflow.Proofs.Rounding
import Workflow.Proofs.Conditions.Integers
import Workflow.Proofs.Json.Texts
import Workflow.Proofs.Json.Values
import Workflow.Proofs.Files
import Workflow.Proofs.SpanLogs
import Workflow.Proofs.Codec.Definitions
import Workflow.Proofs.Codec.Loading
import Workflow.Proofs.Validation
