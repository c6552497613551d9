import SdlcOs.Proofs.Gates
import SdlcOs.Proofs.Coverage
import SdlcOs.Proofs.Answered
import SdlcOs.Proofs.Reverify
import SdlcOs.Proofs.Stuck
import SdlcOs.Proofs.Termination
import SdlcOs.Proofs.GateRace
import SdlcOs.Proofs.PlanRace
import SdlcOs.Proofs.Cost
import SdlcOs.Proofs.Interruption
import SdlcOs.Proofs.Registry.Tenants
import SdlcOs.Proofs.Batching
import SdlcOs.Proofs.Dispatch.Accounting
import SdlcOs.Proofs.Dispatch.Coalescing
import SdlcOs.Proofs.GateService.Clearance
import SdlcOs.Proofs.Worker.Autonomy
import SdlcOs.Proofs.Worker.Replies
import SdlcOs.Proofs.Release.Rollback
import SdlcOs.Proofs.Observability.Sink
import SdlcOs.Proofs.Release.ModuleVersions
import SdlcOs.Proofs.Backend.Parallel
import SdlcOs.Proofs.Verification.CompletionCheck
import SdlcOs.Proofs.Index.Tenants
import SdlcOs.Proofs.Kms.Boundary
import SdlcOs.Proofs.Governed
import SdlcOs.Proofs.Observability.Shipping
import SdlcOs.Proofs.Dispatch.Relay
import SdlcOs.Proofs.Index.PythonAdapter
import SdlcOs.Proofs.Index.Ownership
import SdlcOs.Proofs.Backend.Failover
import SdlcOs.Proofs.Hooks
import SdlcOs.Proofs.Index.Callers
import SdlcOs.Proofs.ScopeExtension
import SdlcOs.Proofs.Backend.Tools
import SdlcOs.Proofs.Verification.ExistingTests
import SdlcOs.Proofs.Verification.Pipeline
import SdlcOs.Proofs.Verification.KnownVersions
import SdlcOs.Proofs.Release.ContentHash
import SdlcOs.Proofs.IssueTracker.CreateStory
import SdlcOs.Proofs.Backend.Decode
import SdlcOs.Proofs.TenantCell.Naming
import SdlcOs.Proofs.SourceControl.Scope
import SdlcOs.Proofs.Evaluation.Metrics
import SdlcOs.Proofs.Teardown
import SdlcOs.Proofs.Verification.AcceptanceMapping
import SdlcOs.Proofs.Index.TypeScript
import SdlcOs.Proofs.SourceControl.Isolation
import SdlcOs.Proofs.Accounted
import SdlcOs.Proofs.Backend.DiffStats
import SdlcOs.Proofs.Registry.Linear
import SdlcOs.Proofs.Dashboard.Board
import SdlcOs.Proofs.Leases
