/-
The world the orchestrator drives: everything durable about one run, the
requests the orchestrator makes of it, and a ghost history of what has
happened.

# One run

`Orchestrator` keeps no state of its own: the run's registry row, its
plan artifacts and its progress record are all there is, and each is
keyed by the run's id. A call naming another run finds no row here and
raises, so a world of one run is closed under the public calls.
`start_run` is `create_run`, which makes the initial world, followed by
the drive that `resume_run` performs.

# Atomicity

Each registry call, each store load or save, each backend, verifier,
packaging or observability call is one request. A call that is
interrupted half-way has the durable effect of one that raised and whose
process then died, so the answers to outside calls include raising.

# The history

`hist` is ghost: latest event first, read by no request. It records the
calls humans and drivers made, how backend and verifier calls ended, the
plan that was latest when the plan gate was left for implementation, and
the checkpoints that were answered.
-/
import SdlcOs.Effects.System
import SdlcOs.Registry.Run
import SdlcOs.Orchestrator.Progress

namespace SdlcOs.Orchestrator

open Registry (Stage Result ErrorInfo)

-- ==== elicitations

/-- An elicitation's `status`. -/
inductive ElicitationStatus : Type where
  | pending
  | resolved
  deriving DecidableEq, Repr

/-- An elicitation's `resolution`. -/
structure Resolution where
  decision : String
  note : Option String
  resolvedAt : Time
  deriving DecidableEq, Repr

/-- `Elicitation`. A missing `signature` is the source's empty text. -/
structure Elicitation where
  checkpointId : String
  trigger : TriggerKind
  stage : Stage
  reason : Reason
  details : Details
  createdAt : Time
  status : ElicitationStatus
  signature : Option Signature := none
  resolution : Option Resolution := none
  deriving DecidableEq

/-- What a run's `checkpoint_pointer` holds: the JSON of an elicitation,
or a text that is not one. -/
inductive Pointer : Type where
  | elicitation (e : Elicitation)
  | foreign (text : String)
  deriving DecidableEq

/-- The run's registry row. -/
abbrev Run : Type := Registry.Run Pointer

-- ==== outside calls

/-- An exception as its handlers see it. -/
structure Exn where
  typeName : String
  message : String
  deriving DecidableEq, Repr

/-- How a call outside the orchestrator ended. -/
inductive Reply (α : Type) : Type where
  | returned (a : α)
  | raised (x : Exn)
  deriving DecidableEq, Repr

/-- `_run_context`. -/
structure RunContext where
  runId : String
  tenantId : String
  jiraKey : String
  repo : String
  stage : Stage
  storySize : Option StorySize
  deriving DecidableEq, Repr

/-- `VerificationResult`, less the test counts nothing reads. -/
structure VerificationResult where
  passed : Bool
  summary : String
  deriving DecidableEq, Repr

/-- Which of the two `implement_subtask` call sites made a call: the one
for the plan's own subtasks, or the one for a verification fix-up. -/
inductive Site : Type where
  | planned
  | fixup
  deriving DecidableEq, Repr

/-- The alerts `push_alert` is given. -/
inductive Alert : Type where
  | parallelGroupDemoted (taskIds : List String)
  | implementationAttemptFailed (message : String)
  | checkpoint (trigger : CheckpointTrigger)
  deriving DecidableEq

/-- The calls on the observability client. -/
inductive Observation : Type where
  | recordStageTransition (traceId runId tenantId : String)
      (fromStage toStage : Stage)
  | recordCostIncrement (traceId runId tenantId unitId : String)
      (amountUsd : ℚ)
  | pushAlert (runId tenantId traceId : String) (alert : Alert)
  deriving DecidableEq

-- ==== requests

/-- Everything the orchestrator asks of the outside, one atomic step
each. -/
inductive Req : Type where
  | getRun (tenantId runId : String)
  | transitionStage (tenantId runId : String) (expectedVersion : Nat)
      (nextStage : Stage)
  | appendAttempt (tenantId runId : String) (expectedVersion : Nat)
      (reason : String) (startingStage : Stage) (traceId : String)
  | writeCheckpoint (tenantId runId : String) (expectedVersion : Nat)
      (pointer : Pointer)
  | loadLatest (runId : String)
  | savePlan (artifact : PlanArtifact)
  | loadProgress (runId : String)
  | saveProgress (progress : RunProgress)
  | research (run : Run)
  | packaging (run : Run)
  | authorPlan (runContext : RunContext)
  | rePlan (runContext : RunContext) (feedback : String)
  | implementSubtask (site : Site) (runContext : RunContext)
      (subtask : SubTask)
  | implementSubtasksParallel (runContext : RunContext)
      (subtasks : List SubTask)
  | verify (runContext : RunContext)
  | observe (o : Observation)
  | nowIso
  | clock
  | uuid4

/-- The requests that hand work to the backend. -/
def Req.implements : Req → Bool
  | .implementSubtask .. => true
  | .implementSubtasksParallel .. => true
  | _ => false

/-- The request that packages the run. -/
def Req.packages : Req → Bool
  | .packaging _ => true
  | _ => false

/-- The request that runs the verification. -/
def Req.verifies : Req → Bool
  | .verify _ => true
  | _ => false

/-- The request that has a plan authored. -/
def Req.authors : Req → Bool
  | .authorPlan _ => true
  | _ => false

/-- The request that moves the run to a stage. -/
def Req.movesTo (stage : Stage) : Req → Bool
  | .transitionStage _ _ _ next => next = stage
  | _ => false

/-- What each request is answered with. -/
@[reducible] def Resp : Req → Type
  | .getRun .. | .transitionStage .. | .writeCheckpoint .. => Result Run
  | .appendAttempt .. => Result String
  | .loadLatest _ => Option PlanArtifact
  | .loadProgress _ => Option RunProgress
  | .savePlan _ | .saveProgress _ => Unit
  | .research _ | .packaging _ | .observe _ => Reply Unit
  | .authorPlan _ | .rePlan .. => Reply PlanOutput
  | .implementSubtask .. => Reply DiffOutput
  | .implementSubtasksParallel .. => Reply (List DiffOutput)
  | .verify _ => Reply VerificationResult
  | .nowIso | .clock => Time
  | .uuid4 => String

/-- The environment's part in a request: nothing for the registry and
the stores, whose answers the world determines, but for the id of a new
attempt; the whole answer for every outside call. -/
@[reducible] def Env : Req → Type
  | .getRun .. | .transitionStage .. | .writeCheckpoint .. => Unit
  | .appendAttempt .. => String
  | .loadLatest _ | .loadProgress _ | .savePlan _ | .saveProgress _ => Unit
  | .research _ | .packaging _ | .observe _ => Reply Unit
  | .authorPlan _ | .rePlan .. => Reply PlanOutput
  | .implementSubtask .. => Reply DiffOutput
  | .implementSubtasksParallel .. => Reply (List DiffOutput)
  | .verify _ => Reply VerificationResult
  | .nowIso | .clock => Time
  | .uuid4 => String

/-- The environment's moves, as one type. -/
inductive Answer : Type where
  | auto
  | attemptId (id : String)
  | plan (r : Reply PlanOutput)
  | diff (r : Reply DiffOutput)
  | diffs (r : Reply (List DiffOutput))
  | verdict (r : Reply VerificationResult)
  | effect (r : Reply Unit)
  | time (t : Time)
  | uuid (s : String)
  deriving DecidableEq

/-- Read an environment move as the part a request needs. -/
def decode : (e : Req) → Answer → Option (Env e)
  | .getRun .., .auto => some ()
  | .transitionStage .., .auto => some ()
  | .writeCheckpoint .., .auto => some ()
  | .appendAttempt .., .attemptId id => some id
  | .loadLatest _, .auto => some ()
  | .savePlan _, .auto => some ()
  | .loadProgress _, .auto => some ()
  | .saveProgress _, .auto => some ()
  | .research _, .effect r => some r
  | .packaging _, .effect r => some r
  | .observe _, .effect r => some r
  | .authorPlan _, .plan r => some r
  | .rePlan .., .plan r => some r
  | .implementSubtask .., .diff r => some r
  | .implementSubtasksParallel .., .diffs r => some r
  | .verify _, .verdict r => some r
  | .nowIso, .time t => some t
  | .clock, .time t => some t
  | .uuid4, .uuid s => some s
  | _, _ => none

-- ==== the world

/-- The public calls. -/
inductive Call : Type where
  | resumeRun (runId : String)
  | approvePlan (runId decision : String) (feedback : Option String)
  | approveChangeReview (runId decision : String) (feedback : Option String)
  | resolveCheckpoint (runId decision : String) (note : Option String)
  deriving DecidableEq, Repr

/-- What the history records. -/
inductive Event : Type where
  | called (c : Call)
  | stopped (stage : Stage)
  | authored (out : PlanOutput)
  | replanned (feedback : String) (out : PlanOutput)
  | implemented (site : Site) (subtasks : List SubTask)
      (out : Reply (List DiffOutput))
  | verified (out : Reply VerificationResult)
  | packaged
  | approved (plan : Option PlanArtifact)
  | answered (e : Elicitation)
  deriving DecidableEq

/-- The event an outside call leaves in the history. -/
def eventOf : (e : Req) → Env e → Option Event
  | .authorPlan _, .returned out => some (.authored out)
  | .rePlan _ feedback, .returned out => some (.replanned feedback out)
  | .implementSubtask site _ st, .returned diff =>
    some (.implemented site [st] (.returned [diff]))
  | .implementSubtask site _ st, .raised x =>
    some (.implemented site [st] (.raised x))
  | .implementSubtasksParallel _ sts, r => some (.implemented .planned sts r)
  | .verify _, r => some (.verified r)
  | .packaging _, _ => some .packaged
  | _, _ => none

/-- The durable state of one run, with its ghost history. -/
structure World where
  run : Run
  plans : PlanStore
  progress : Option RunProgress
  hist : List Event
  deriving DecidableEq

namespace World

/-- Add an event to the history. -/
def record (w : World) (ev : Event) : World := { w with hist := ev :: w.hist }

/-- The event of a stage transition that landed: only the approval of a
plan is recorded, with the plan that was latest. -/
def moveEvents (w : World) (nextStage : Stage) : List Event :=
  if w.run.stage = .planApprovalGate ∧ nextStage = .implementation then
    [.approved w.plans.latest]
  else []

/-- The event of a checkpoint pointer that landed: only the answer to a
checkpoint is recorded. -/
def pointerEvents : Pointer → List Event
  | .elicitation e => if e.status = .resolved then [.answered e] else []
  | .foreign _ => []

/-- What a request does. -/
def exec (w : World) : (e : Req) → Env e → World × Resp e
  | .getRun t id, _ => (w, w.run.getRun t id)
  | .transitionStage t id v next, _ =>
    let r := w.run.transitionStage t id v next
    match r.2 with
    | .ok _ =>
      ({ w with run := r.1, hist := w.moveEvents next ++ w.hist }, r.2)
    | _ => (w, r.2)
  | .appendAttempt t id v reason start trace, attempt =>
    let r := w.run.appendAttempt t id v reason start trace attempt
    ({ w with run := r.1 }, r.2)
  | .writeCheckpoint t id v pointer, _ =>
    let r := w.run.writeCheckpoint t id v pointer
    match r.2 with
    | .ok _ =>
      ({ w with run := r.1, hist := pointerEvents pointer ++ w.hist }, r.2)
    | _ => (w, r.2)
  | .loadLatest _, _ => (w, w.plans.latest)
  | .savePlan artifact, _ => ({ w with plans := w.plans.save artifact }, ())
  | .loadProgress _, _ => (w, w.progress)
  | .saveProgress progress, _ => ({ w with progress := some progress }, ())
  | .research _, r => (w, r)
  | .packaging _, r => (w.record .packaged, r)
  | .authorPlan _, r =>
    match r with
    | .returned out => (w.record (.authored out), r)
    | .raised _ => (w, r)
  | .rePlan _ feedback, r =>
    match r with
    | .returned out => (w.record (.replanned feedback out), r)
    | .raised _ => (w, r)
  | .implementSubtask site _ subtask, r =>
    (w.record (.implemented site [subtask]
      (match r with
        | .returned diff => .returned [diff]
        | .raised x => .raised x)), r)
  | .implementSubtasksParallel _ subtasks, r =>
    (w.record (.implemented .planned subtasks r), r)
  | .verify _, r => (w.record (.verified r), r)
  | .observe _, r => (w, r)
  | .nowIso, t => (w, t)
  | .clock, t => (w, t)
  | .uuid4, s => (w, s)

-- ==== updates

/-- The world after a stage transition landed. -/
def moved (w : World) (next : Stage) : World :=
  { w with
    run := { w.run with stage := next, version := w.run.version + 1 }
    hist := w.moveEvents next ++ w.hist }

/-- The world after a checkpoint pointer was written. -/
def pointed (w : World) (pointer : Pointer) : World :=
  { w with
    run := { w.run with
      checkpointPointer := some pointer, version := w.run.version + 1 }
    hist := pointerEvents pointer ++ w.hist }

/-- The world after a new attempt was appended at plan authoring. -/
def reattempted (w : World) (attemptId : String) : World :=
  { w with
    run := { w.run with
      stage := .planAuthoring, currentAttemptId := attemptId
      version := w.run.version + 1 } }

/-- The world after a plan was saved. -/
def planSaved (w : World) (artifact : PlanArtifact) : World :=
  { w with plans := w.plans.save artifact }

/-- The world after a progress record was saved. -/
def progressSaved (w : World) (progress : RunProgress) : World :=
  { w with progress := some progress }

@[simp] theorem record_run (w : World) (ev : Event) :
    (w.record ev).run = w.run := rfl
@[simp] theorem record_plans (w : World) (ev : Event) :
    (w.record ev).plans = w.plans := rfl
@[simp] theorem record_progress (w : World) (ev : Event) :
    (w.record ev).progress = w.progress := rfl
@[simp] theorem record_hist (w : World) (ev : Event) :
    (w.record ev).hist = ev :: w.hist := rfl

@[simp] theorem planSaved_run (w : World) (a : PlanArtifact) :
    (w.planSaved a).run = w.run := rfl
@[simp] theorem planSaved_latest (w : World) (a : PlanArtifact) :
    (w.planSaved a).plans.latest = some a := rfl
@[simp] theorem planSaved_progress (w : World) (a : PlanArtifact) :
    (w.planSaved a).progress = w.progress := rfl
@[simp] theorem planSaved_hist (w : World) (a : PlanArtifact) :
    (w.planSaved a).hist = w.hist := rfl

@[simp] theorem progressSaved_run (w : World) (p : RunProgress) :
    (w.progressSaved p).run = w.run := rfl
@[simp] theorem progressSaved_plans (w : World) (p : RunProgress) :
    (w.progressSaved p).plans = w.plans := rfl
@[simp] theorem progressSaved_progress (w : World) (p : RunProgress) :
    (w.progressSaved p).progress = some p := rfl
@[simp] theorem progressSaved_hist (w : World) (p : RunProgress) :
    (w.progressSaved p).hist = w.hist := rfl

@[simp] theorem moved_plans (w : World) (next : Stage) :
    (w.moved next).plans = w.plans := rfl
@[simp] theorem moved_progress (w : World) (next : Stage) :
    (w.moved next).progress = w.progress := rfl
@[simp] theorem moved_hist (w : World) (next : Stage) :
    (w.moved next).hist = w.moveEvents next ++ w.hist := rfl
theorem moved_hist_of_ne {w : World} {next : Stage}
    (h : w.run.stage ≠ .planApprovalGate) : (w.moved next).hist = w.hist := by
  show w.moveEvents next ++ w.hist = w.hist
  rw [moveEvents, if_neg (fun hc => h hc.1)]
  rfl
@[simp] theorem moved_stage (w : World) (next : Stage) :
    (w.moved next).run.stage = next := rfl
@[simp] theorem moved_pointer (w : World) (next : Stage) :
    (w.moved next).run.checkpointPointer = w.run.checkpointPointer := rfl
@[simp] theorem moved_id (w : World) (next : Stage) :
    (w.moved next).run.id = w.run.id := rfl

@[simp] theorem pointed_plans (w : World) (ptr : Pointer) :
    (w.pointed ptr).plans = w.plans := rfl
@[simp] theorem pointed_progress (w : World) (ptr : Pointer) :
    (w.pointed ptr).progress = w.progress := rfl
@[simp] theorem pointed_hist (w : World) (ptr : Pointer) :
    (w.pointed ptr).hist = pointerEvents ptr ++ w.hist := rfl
@[simp] theorem pointed_stage (w : World) (ptr : Pointer) :
    (w.pointed ptr).run.stage = w.run.stage := rfl
@[simp] theorem pointed_pointer (w : World) (ptr : Pointer) :
    (w.pointed ptr).run.checkpointPointer = some ptr := rfl
@[simp] theorem pointed_id (w : World) (ptr : Pointer) :
    (w.pointed ptr).run.id = w.run.id := rfl

@[simp] theorem reattempted_plans (w : World) (id : String) :
    (w.reattempted id).plans = w.plans := rfl
@[simp] theorem reattempted_progress (w : World) (id : String) :
    (w.reattempted id).progress = w.progress := rfl
@[simp] theorem reattempted_hist (w : World) (id : String) :
    (w.reattempted id).hist = w.hist := rfl
@[simp] theorem reattempted_stage (w : World) (id : String) :
    (w.reattempted id).run.stage = .planAuthoring := rfl
@[simp] theorem reattempted_pointer (w : World) (id : String) :
    (w.reattempted id).run.checkpointPointer = w.run.checkpointPointer := rfl

theorem progressSaved_self {w : World} {p : RunProgress}
    (h : w.progress = some p) : w.progressSaved p = w := by
  cases w
  simp only [progressSaved] at h ⊢
  rw [h]

-- ==== inversion

/-- The registry refused: nothing changed and no data came back. -/
def Refused {α : Type} (w : World) (r : World × Result α) : Prop :=
  ∃ res, r = (w, res) ∧ ∀ data, res ≠ .ok data

section Inversion

variable {w : World} {t id : String} {v : Nat}

theorem exec_transition_inv (next : Stage) (x : Unit) :
    w.Refused (w.exec (.transitionStage t id v next) x) ∨
      (w.run.version = v ∧ w.run.stage.isLegalTransition next = true ∧
        w.exec (.transitionStage t id v next) x =
          (w.moved next, .ok (w.moved next).run)) := by
  rcases Registry.Run.transitionStage_inv w.run t id v next with ⟨_, hno⟩ | ⟨hv, hlegal, hrow⟩
  · refine Or.inl ?_
    simp only [exec]
    exact ⟨_, rfl, hno⟩
  · refine Or.inr ⟨hv, hlegal, ?_⟩
    simp only [exec, hrow]
    rfl

theorem exec_writeCheckpoint_inv (ptr : Pointer) (x : Unit) :
    w.Refused (w.exec (.writeCheckpoint t id v ptr) x) ∨
      (w.run.version = v ∧ w.exec (.writeCheckpoint t id v ptr) x =
        (w.pointed ptr, .ok (w.pointed ptr).run)) := by
  rcases Registry.Run.writeCheckpoint_inv w.run t id v ptr with ⟨_, hno⟩ | ⟨hv, hrow⟩
  · refine Or.inl ?_
    simp only [exec]
    exact ⟨_, rfl, hno⟩
  · refine Or.inr ⟨hv, ?_⟩
    simp only [exec, hrow]
    rfl

theorem exec_appendAttempt_inv (reason : String) (start : Stage)
    (trace attempt : String) :
    w.Refused (w.exec (.appendAttempt t id v reason start trace) attempt) ∨
      (w.run.version = v ∧
        (start = w.run.stage ∨ w.run.stage.isLegalTransition start = true) ∧
        w.exec (.appendAttempt t id v reason start trace) attempt =
          ({ w with run := { w.run with
              stage := start, currentAttemptId := attempt, traceId := trace
              version := w.run.version + 1 } }, .ok attempt)) := by
  rcases Registry.Run.appendAttempt_inv w.run t id v reason start trace
    attempt with
    ⟨hrow, hno⟩ | ⟨hv, hstart, hrow⟩
  · refine Or.inl ⟨_, ?_, hno⟩
    simp only [exec, hrow]
  · refine Or.inr ⟨hv, hstart, ?_⟩
    simp only [exec, hrow]

end Inversion

end World

end SdlcOs.Orchestrator
