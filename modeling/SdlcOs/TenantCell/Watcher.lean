/-
The interruption watcher (tenant_cell/interruption_watcher.py) as an
effect program.

On an interruption warning it cordons the node, stops inference, drains,
flushes observability and, last, writes a checkpoint of the run through
the registry. Only this write touches the run: it replaces the
`checkpoint_pointer` of the run's row, under a version the caller names.

The world is the orchestrator's: both components write the one row, each
through `RegistryService`. What the provisioning client does to the node
and what the observability client ships are not part of it.
-/
import SdlcOs.Orchestrator.World

namespace SdlcOs.TenantCell

open Effects
open Registry (Result)
open Orchestrator (World Run Pointer Reply Exn)

-- ==== data

/-- `provisioning_client.NodeHandle`. -/
structure NodeHandle where
  nodeId : String
  tenantId : String
  poolName : String
  environment : String
  deriving DecidableEq, Repr

/-- `provisioning_client.DrainResult`. -/
structure DrainResult where
  drainedCount : Nat
  failedToRetryCount : Nat
  timedOut : Bool
  deriving DecidableEq, Repr

/-- `Step`. -/
inductive Step : Type where
  | cordoning
  | stoppingInference
  | draining
  | flushing
  | checkpointing
  deriving DecidableEq, Repr

/-- `StepTiming`. The clock is monotonic seconds. -/
structure StepTiming where
  step : Step
  startedAt : ℚ
  endedAt : ℚ
  deriving DecidableEq

/-- `InterruptionResult`. -/
structure InterruptionResult where
  node : NodeHandle
  runId : String
  steps : List StepTiming
  drainResult : DrainResult
  flushOk : Bool
  checkpointLanded : Bool
  checkpointPointer : Option Pointer
  failureReason : Option String
  startedAt : ℚ
  endedAt : ℚ
  deriving DecidableEq

/-- The arguments of `handle_interruption`. -/
structure Interruption where
  node : NodeHandle
  tenantId : String
  runId : String
  expectedVersion : Nat
  checkpointPointer : Pointer
  warningWindowSeconds : ℚ := 120
  deriving DecidableEq

/-- The events `record_infra_event` is given. -/
inductive InfraEvent : Type where
  | observabilityFlush (nodeId : String) (flushOk : Bool)
  | checkpointWrite (nodeId : String) (checkpointLanded : Bool)
  deriving DecidableEq, Repr

-- ==== requests

/-- What the watcher asks of its collaborators, one atomic step each. -/
inductive Req : Type where
  | now
  | cordon (node : NodeHandle)
  | stopAcceptingInference (node : NodeHandle)
  | drain (node : NodeHandle) (budgetSeconds : ℚ)
  | flushObservability (node : NodeHandle)
  | recordInfraEvent (traceId runId tenantId : String) (event : InfraEvent)
  | getRun (tenantId runId : String)
  | writeCheckpoint (tenantId runId : String) (expectedVersion : Nat)
      (checkpointPointer : Pointer)

/-- What each request is answered with. -/
@[reducible] def Resp : Req → Type
  | .now => ℚ
  | .cordon _ | .stopAcceptingInference _ | .recordInfraEvent .. => Reply Unit
  | .drain .. => Reply DrainResult
  | .flushObservability _ => Reply Bool
  | .getRun .. | .writeCheckpoint .. => Result Run

/-- The environment's part: the clock, the node and the observability
client. -/
@[reducible] def Env : Req → Type
  | .now => ℚ
  | .cordon _ | .stopAcceptingInference _ | .recordInfraEvent .. => Reply Unit
  | .drain .. => Reply DrainResult
  | .flushObservability _ => Reply Bool
  | .getRun .. | .writeCheckpoint .. => Unit

/-- The environment's moves, as one type. -/
inductive Answer : Type where
  | auto
  | seconds (t : ℚ)
  | effect (r : Reply Unit)
  | drained (r : Reply DrainResult)
  | flushed (r : Reply Bool)
  deriving DecidableEq

/-- Read an environment move as the part a request needs. -/
def decode : (e : Req) → Answer → Option (Env e)
  | .now, .seconds t => some t
  | .cordon _, .effect r => some r
  | .stopAcceptingInference _, .effect r => some r
  | .recordInfraEvent .., .effect r => some r
  | .drain .., .drained r => some r
  | .flushObservability _, .flushed r => some r
  | .getRun .., .auto => some ()
  | .writeCheckpoint .., .auto => some ()
  | _, _ => none

/-- `RegistryService.write_checkpoint` as the watcher reaches it: its
pointer may be the empty text, which is refused. -/
def writeCheckpoint (run : Run) (tenantId runId : String)
    (expectedVersion : Nat) (pointer : Pointer) : Run × Result Run :=
  if pointer = .foreign "" then
    (run, .fail ⟨.invalidInput, "checkpoint_pointer is required"⟩)
  else run.writeCheckpoint tenantId runId expectedVersion pointer

/-- The registry takes the checkpoint: the pointer is not empty, the run
is the caller's, and the version is the current one. -/
def Accepts (run : Run) (tenantId runId : String) (expectedVersion : Nat)
    (pointer : Pointer) : Prop :=
  pointer ≠ .foreign "" ∧ run.Visible tenantId runId ∧
    run.version = expectedVersion

instance (run : Run) (t id : String) (v : Nat) (pointer : Pointer) :
    Decidable (Accepts run t id v pointer) :=
  inferInstanceAs (Decidable (_ ∧ _))

/-- What a request does. -/
def exec (w : World) : (e : Req) → Env e → World × Resp e
  | .now, t => (w, t)
  | .cordon _, r => (w, r)
  | .stopAcceptingInference _, r => (w, r)
  | .recordInfraEvent .., r => (w, r)
  | .drain .., r => (w, r)
  | .flushObservability _, r => (w, r)
  | .getRun t id, _ => (w, w.run.getRun t id)
  | .writeCheckpoint t id v pointer, _ =>
    let r := writeCheckpoint w.run t id v pointer
    ({ w with run := r.1 }, r.2)

-- ==== program

/-- Watcher code; what it raises is what a collaborator raised. -/
abbrev Code : Type → Type := Prog Resp Exn

/-- Make one request. -/
def ask (e : Req) : Code (Resp e) := Prog.perform e

/-- The value of a reply; an exception propagates. -/
def need {α : Type} : Reply α → Code α
  | .returned a => pure a
  | .raised x => .raise x

/-- `timed`. -/
def timed {α : Type} (step : Step) (fn : Code α) :
    Code (α × StepTiming) := do
  let s ← ask .now
  let result ← fn
  let e ← ask .now
  pure (result, ⟨step, s, e⟩)

/-- `record_infra_event`, when there is an observability client. -/
def recordInfraEvent (observability : Bool)
    (traceId runId tenantId : String) (event : InfraEvent) : Code Unit :=
  if observability then do
    need (← ask (.recordInfraEvent traceId runId tenantId event))
  else pure ()

/-- The run's trace id, when there is an observability client and the run
is found; else the run id. -/
def traceKey (observability : Bool) (tenantId runId : String) :
    Code String :=
  if observability then do
    match ← ask (.getRun tenantId runId) with
    | .ok run => pure run.traceId
    | _ => pure runId
  else pure runId

/-- An error code's `value`. -/
def codeValue : Registry.ErrorCode → String
  | .illegalTransition => "illegal-transition"
  | .staleVersion => "stale-version"
  | .invalidInput => "invalid-input"

/-- The `failure_reason` of the result. -/
def failureReason (checkpoint : Result Run) (flushOk : Bool) :
    Option String :=
  match checkpoint with
  | .ok _ =>
    if flushOk then none
    else some "observability flush reported failure before checkpoint write"
  | res =>
    let code := (res.error.map (codeValue ·.code)).getD "unknown"
    let message := (res.error.map (·.message)).getD ""
    some ("checkpoint write failed: " ++ code ++ " - " ++ message)

/-- The checkpoint landed. -/
def landed : Result Run → Bool
  | .ok _ => true
  | _ => false

/-- `handle_interruption`. -/
def handleInterruption (observability : Bool) (i : Interruption) :
    Code InterruptionResult := do
  let startedAt ← ask .now
  let trace ← traceKey observability i.tenantId i.runId
  let (_, cordoning) ← timed .cordoning do need (← ask (.cordon i.node))
  let (_, stopping) ← timed .stoppingInference do
    need (← ask (.stopAcceptingInference i.node))
  let beforeDrain ← ask .now
  let remaining := max 0 (i.warningWindowSeconds - (beforeDrain - startedAt))
  let (drainResult, draining) ← timed .draining do
    need (← ask (.drain i.node remaining))
  let (flushOk, flushing) ← timed .flushing do
    need (← ask (.flushObservability i.node))
  recordInfraEvent observability trace i.runId i.tenantId
    (.observabilityFlush i.node.nodeId flushOk)
  let (checkpoint, checkpointing) ← timed .checkpointing
    (ask (.writeCheckpoint i.tenantId i.runId i.expectedVersion
      i.checkpointPointer))
  recordInfraEvent observability trace i.runId i.tenantId
    (.checkpointWrite i.node.nodeId (landed checkpoint))
  let endedAt ← ask .now
  pure
    { node := i.node, runId := i.runId
      steps := [cordoning, stopping, draining, flushing, checkpointing]
      drainResult := drainResult, flushOk := flushOk
      checkpointLanded := landed checkpoint
      checkpointPointer :=
        if landed checkpoint then some i.checkpointPointer else none
      failureReason := failureReason checkpoint flushOk
      startedAt := startedAt, endedAt := endedAt }

/-- The program of an interruption. -/
def entry (observability : Bool) (i : Interruption) :
    Code (Ctl Empty InterruptionResult) := do
  let result ← handleInterruption observability i
  pure (.done result)

/-- Watchers over the orchestrator's world. -/
def machine (observability : Bool) :
    Machine Resp Env Answer World Exn Interruption Empty
      InterruptionResult where
  exec := exec
  decode := decode
  onCall := fun w _ => w
  onStop := fun w => w
  entry := entry observability
  body := fun st => nomatch st

-- ==== inversion

theorem writeCheckpoint_inv (run : Run) (t id : String) (v : Nat)
    (pointer : Pointer) :
    (¬ Accepts run t id v pointer ∧
      (writeCheckpoint run t id v pointer).1 = run) ∨
    (Accepts run t id v pointer ∧
      (writeCheckpoint run t id v pointer).1 =
        { run with checkpointPointer := some pointer
                   version := run.version + 1 }) := by
  unfold writeCheckpoint Registry.Run.writeCheckpoint
  split
  · next hempty => exact Or.inl ⟨fun h => h.1 hempty, rfl⟩
  · next hfull =>
    split
    · next hhidden => exact Or.inl ⟨fun h => hhidden h.2.1, rfl⟩
    · next hseen =>
      split
      · next hstale => exact Or.inl ⟨fun h => hstale h.2.2, rfl⟩
      · next hv =>
        exact Or.inr ⟨⟨hfull, not_not.1 hseen, not_not.1 hv⟩, rfl⟩

end SdlcOs.TenantCell
