/-
The orchestrator itself (orchestrator/core.py): the public calls, the
drive loop and the implementation and verification steps, as effect
programs over `Req`.

Every program here follows its Python function statement by statement,
one request per outside effect and in the source's order, so that the
places where a process can be interrupted or overtaken are the source's
own. `_drive` is `driveBody`, one turn of its `while True`, with
`continue` as `Ctl.again` and `return` as `Ctl.done`; `getRun` of its
first line is `drive`.
-/
import SdlcOs.Orchestrator.World

namespace SdlcOs.Orchestrator

open Effects
open Effects.Prog (each)
open Registry (Stage Result ErrorInfo)

-- ==== configuration

/-- What an `Orchestrator` is constructed with, beyond its stores and
backends: its tenant, its budgets, and which of the optional parts it
was given. -/
structure Config where
  tenantId : String
  budgets : StorySize → Option Budget
  research : Bool
  packaging : Bool
  observability : Bool

/-- What the orchestrator raises, with the values its texts
interpolate. -/
inductive Err : Type where
  | noSuchRun (runId tenantId : String)
  | transitionFailed (fromStage toStage : Stage) (error : Option ErrorInfo)
  | writeCheckpointFailed (error : Option ErrorInfo)
  | appendAttemptFailed (error : Option ErrorInfo)
  | notAtPlanGate (stage : Stage)
  | unknownPlanDecision (decision : String)
  | notAtChangeReview (stage : Stage)
  | unknownChangeReviewDecision (decision : String)
  | noPendingCheckpoint (runId : String)
  | noPlanToImplement (runId : String)
  | noPlanToExtend (runId : String)
  | xlNotRunnable (storySize : StorySize) (crossCuttingOrHighRisk : Bool)
  | planArtifactInvalid (errors : List SchemaViolation)
  | pointerNotJson (text : String)
  | keyError (key : String)
  | outside (x : Exn)
  deriving DecidableEq

/-- A `RunStatus`'s `pause_kind`. -/
inductive PauseKind : Type where
  | gate
  | checkpoint
  deriving DecidableEq, Repr

/-- `RunStatus`. -/
structure RunStatus where
  runId : String
  stage : Stage
  version : Nat
  paused : Bool
  pauseKind : Option PauseKind
  checkpoint : Option Elicitation
  deriving DecidableEq

/-- The status of a run that waits for a human or is over. -/
def RunStatus.Final (st : RunStatus) : Prop :=
  st.paused = true ∨ st.stage ∈ Stage.terminalStages

/-- Orchestrator code. -/
abbrev Code : Type → Type := Prog Resp Err

/-- How one turn of the drive loop, or a public call, comes out. -/
abbrev Turn : Type := Ctl Run RunStatus

/-- The outcomes of `_implementation_step`: `"verify"`, `"continue"` and
`"paused"`. -/
inductive ImplOutcome : Type where
  | verify
  | proceed
  | paused
  deriving DecidableEq, Repr

/-- The outcomes of `_verification_step`: `"passed"`, `"retry"` and
`"stuck"`. -/
inductive VerOutcome : Type where
  | passed
  | retry
  | stuck
  deriving DecidableEq, Repr

/-- Make one request. -/
def ask (e : Req) : Code (Resp e) := Prog.perform e

variable (cfg : Config)

-- ==== registry helpers

/-- `_get_run`. -/
def getRun (runId : String) : Code Run := do
  match ← ask (.getRun cfg.tenantId runId) with
  | .ok run => pure run
  | _ => .raise (.noSuchRun runId cfg.tenantId)

/-- A call on the observability client, when there is one. -/
def observe (o : Observation) : Code Unit :=
  if cfg.observability then do
    match ← ask (.observe o) with
    | .returned _ => pure ()
    | .raised x => .raise (.outside x)
  else pure ()

/-- `_transition`: the registry write, then the trace event. -/
def transition (run : Run) (nextStage : Stage) : Code Run := do
  match ← ask (.transitionStage cfg.tenantId run.id run.version nextStage) with
  | .ok updated => do
    observe cfg (.recordStageTransition updated.traceId updated.id
      cfg.tenantId run.stage nextStage)
    pure updated
  | res => .raise (.transitionFailed run.stage nextStage res.error)

/-- `_write_checkpoint_pointer`. -/
def writeCheckpointPointer (run : Run) (pointer : Pointer) : Code Run := do
  match ← ask (.writeCheckpoint cfg.tenantId run.id run.version pointer) with
  | .ok updated => pure updated
  | res => .raise (.writeCheckpointFailed res.error)

/-- `_pending_checkpoint`: decoding raises on a pointer that is not an
elicitation. -/
def pendingCheckpoint (run : Run) : Except Err (Option Elicitation) :=
  match run.checkpointPointer with
  | none => .ok none
  | some (.foreign text) => .error (.pointerNotJson text)
  | some (.elicitation e) => .ok (if e.status = .pending then some e else none)

/-- `_status`. -/
def status (run : Run) (paused : Bool) (pauseKind : Option PauseKind)
    (checkpoint : Option Elicitation := none) : RunStatus :=
  ⟨run.id, run.stage, run.version, paused, pauseKind, checkpoint⟩

/-- `_run_context`. -/
def runContext (run : Run) : Code RunContext := do
  let artifact ← ask (.loadLatest run.id)
  pure { runId := run.id, tenantId := run.tenantId, jiraKey := run.jiraKey
         repo := run.repo, stage := run.stage
         storySize := artifact.map (·.storySize) }

-- ==== plans

/-- `_generate_and_store_plan`. -/
def generateAndStorePlan (run : Run) (planOutput : PlanOutput)
    (humanPlanText : String) : Code Unit :=
  match resolveBudget planOutput.storySize planOutput.crossCuttingOrHighRisk
      cfg.budgets with
  | none => .raise (.xlNotRunnable planOutput.storySize
      planOutput.crossCuttingOrHighRisk)
  | some budget => do
    let latest ← ask (.loadLatest run.id)
    let nextVersion := PlanStore.latestVersionNumber latest + 1
    let now ← ask .nowIso
    match generatePlanArtifact run.id nextVersion planOutput budget
        humanPlanText now with
    | .error errors => .raise (.planArtifactInvalid errors)
    | .ok (artifact, demoted) => do
      if demoted ≠ [] then
        observe cfg (.pushAlert run.id cfg.tenantId run.traceId
          (.parallelGroupDemoted demoted))
      ask (.savePlan artifact)

/-- The artifact `_extend_declared_scope` saves: the scope widened, the
version bumped, everything else as it was. -/
def PlanArtifact.extendScope (artifact : PlanArtifact)
    (extraFiles : List String) (now : Time) : PlanArtifact :=
  { artifact with
    inScope := sortedSet (artifact.inScope ++ extraFiles)
    planVersion := artifact.planVersion + 1
    generatedAt := now }

/-- `_extend_declared_scope`. -/
def extendDeclaredScope (run : Run) (extraFiles : List String) :
    Code Unit := do
  match ← ask (.loadLatest run.id) with
  | none => .raise (.noPlanToExtend run.id)
  | some artifact => do
    let now ← ask .nowIso
    ask (.savePlan (artifact.extendScope extraFiles now))

-- ==== checkpoints

/-- `progress_store.start_new`. -/
def startNew (run : Run) : Code RunProgress := do
  let now ← ask .nowIso
  let progress := RunProgress.fresh run.id run.currentAttemptId now
  ask (.saveProgress progress)
  pure progress

/-- The load both steps begin with: what is stored, or a new record. -/
def loadOrStart (run : Run) : Code RunProgress := do
  match ← ask (.loadProgress run.id) with
  | some progress => pure progress
  | none => startNew run

/-- `_alert_on_triggers`. -/
def alertOnTriggers (run : Run) (triggers : List CheckpointTrigger) :
    Code Unit :=
  each (fun t => observe cfg
    (.pushAlert run.id cfg.tenantId run.traceId (.checkpoint t))) triggers

/-- The pending elicitation written for a trigger. -/
def Elicitation.ofTrigger (run : Run) (t : CheckpointTrigger)
    (checkpointId : String) (createdAt : Time) : Elicitation :=
  { checkpointId := checkpointId, trigger := t.kind, stage := run.stage
    reason := t.reason, details := t.details, createdAt := createdAt
    status := .pending, signature := some t.signature }

/-- Pause the run at a trigger: write its elicitation. -/
def pauseAt (run : Run) (t : CheckpointTrigger) : Code Unit := do
  let checkpointId ← ask .uuid4
  let createdAt ← ask .nowIso
  let _ ← writeCheckpointPointer cfg run
    (.elicitation (.ofTrigger run t checkpointId createdAt))
  pure ()

/-- The triggers of a progress record under a budget and a scope that
nobody has acknowledged. -/
def openTriggers (progress : RunProgress) (scope : List String)
    (budget : Budget) (now : Time) : List CheckpointTrigger :=
  unacknowledged progress.acknowledgedCheckpointSignatures
    (evaluateCheckpoints progress.diffStats scope budget
      (progress.elapsedMinutes now) progress.spendUsd
      progress.consecutiveSameStageFailures)

/-- `resolve_budget` on an artifact's own risk fields. -/
def artifactBudget (artifact : PlanArtifact) : Option Budget :=
  resolveBudget artifact.storySize artifact.crossCuttingOrHighRisk cfg.budgets

-- ==== implementation stage

/-- `f"{type(exc).__name__}: {exc}"[:2000]`. -/
def Exn.text (x : Exn) : String :=
  String.ofList ((x.typeName ++ ": " ++ x.message).toList.take 2000)

/-- `_handle_implementation_failure`. -/
def handleImplementationFailure (run : Run) (progress : RunProgress)
    (artifact : PlanArtifact) (exc : Exn) : Code ImplOutcome := do
  let progress := progress.afterFailure
  ask (.saveProgress progress)
  observe cfg (.pushAlert run.id cfg.tenantId run.traceId
    (.implementationAttemptFailed exc.text))
  match artifactBudget cfg artifact with
  | none => .raise (.xlNotRunnable artifact.storySize
      artifact.crossCuttingOrHighRisk)
  | some budget => do
    let now ← ask .clock
    let triggers := openTriggers progress artifact.inScope budget now
    alertOnTriggers cfg run triggers
    match findStuck triggers with
    | some stuck => do
      pauseAt cfg run stuck
      pure .paused
    | none => pure .proceed

/-- The fix-up subtask for a failed verification. -/
def fixupSubtask (hex summary : String) : SubTask :=
  { taskId := "verification-fixup-" ++ String.ofList (hex.toList.take 8)
    description := "The previous implementation failed verification. Fix the issue(s) described below and ensure the code is correct:\n\n" ++ summary
    parallelGroup := none }

/-- The dispatch split of `_implementation_step`: two or more subtasks go
to `implement_subtasks_parallel`, a lone one to `implement_subtask`. -/
def dispatch (ctx : RunContext) (subtasks : List SubTask) :
    Code (Reply (List DiffOutput)) :=
  match subtasks with
  | [] => pure (.raised ⟨"IndexError", "list index out of range"⟩)
  | [st] => do
    match ← ask (.implementSubtask .planned ctx st) with
    | .returned diff => pure (.returned [diff])
    | .raised x => pure (.raised x)
  | _ => ask (.implementSubtasksParallel ctx subtasks)

/-- `_implementation_step` from the point where a batch's diffs are in:
save, account, evaluate, and pause or go on. -/
def settleBatch (run : Run) (artifact : PlanArtifact)
    (progress : RunProgress) (batch : List SubtaskEntry)
    (diffs : List DiffOutput) : Code ImplOutcome := do
  let progress := progress.afterBatch (batch.zip diffs)
  ask (.saveProgress progress)
  each (fun d => observe cfg (.recordCostIncrement run.traceId run.id
    cfg.tenantId d.1.taskId ((d.2.linesChanged : ℚ) / 100))) (batch.zip diffs)
  match artifactBudget cfg artifact with
  | none => .raise (.xlNotRunnable artifact.storySize
      artifact.crossCuttingOrHighRisk)
  | some budget => do
    let now ← ask .clock
    let triggers := openTriggers progress artifact.inScope budget now
    alertOnTriggers cfg run triggers
    match triggers with
    | trigger :: _ => do
      pauseAt cfg run trigger
      pure .paused
    | [] =>
      pure (if (nextSubtask artifact progress).isSome then .proceed
        else .verify)

/-- `_implementation_step`. -/
def implementationStep (run : Run) : Code ImplOutcome := do
  match ← ask (.loadLatest run.id) with
  | none => .raise (.noPlanToImplement run.id)
  | some artifact => do
    let progress ← loadOrStart run
    match nextSubtask artifact progress with
    | none =>
      if progress.lastVerificationFailureSummary = "" then
        pure .verify
      else do
        let hex ← ask .uuid4
        let ctx ← runContext run
        match ← ask (.implementSubtask .fixup ctx
            (fixupSubtask hex progress.lastVerificationFailureSummary)) with
        | .raised x =>
          handleImplementationFailure cfg run progress artifact x
        | .returned diff => do
          ask (.saveProgress (progress.afterFixup diff))
          pure .verify
    | some subtask => do
      let batch := readySubtaskBatch artifact progress subtask
      let ctx ← runContext run
      match ← dispatch ctx (batch.map SubTask.ofEntry) with
      | .raised x =>
        handleImplementationFailure cfg run progress artifact x
      | .returned diffs =>
        settleBatch cfg run artifact progress batch diffs

-- ==== verification stage

/-- `_verification_step`. The plan is loaded once for the scope and once
for each of the two risk fields. -/
def verificationStep (run : Run) : Code VerOutcome := do
  let ctx ← runContext run
  match ← ask (.verify ctx) with
  | .raised x => .raise (.outside x)
  | .returned result => do
    let progress ← loadOrStart run
    if result.passed then do
      ask (.saveProgress progress.afterPass)
      pure .passed
    else do
      let progress := progress.afterVerificationFailure result.summary
      ask (.saveProgress progress)
      let forScope ← ask (.loadLatest run.id)
      let scope := (forScope.map (·.inScope)).getD []
      match ← ask (.loadLatest run.id) with
      | none => .raise (.keyError "risk")
      | some forSize => do
        match ← ask (.loadLatest run.id) with
        | none => .raise (.keyError "risk")
        | some forRisk => do
          match resolveBudget forSize.storySize
              forRisk.crossCuttingOrHighRisk cfg.budgets with
          | none => .raise (.xlNotRunnable forSize.storySize
              forRisk.crossCuttingOrHighRisk)
          | some budget => do
            let now ← ask .clock
            let triggers := openTriggers progress scope budget now
            alertOnTriggers cfg run triggers
            match findStuck triggers with
            | some stuck => do
              pauseAt cfg run stuck
              pure .stuck
            | none => pure .retry

-- ==== the drive

/-- The IMPLEMENTATION branch of `_drive`, after the step: re-read, then
move on unless someone already has. -/
def afterImplementation (run : Run) (outcome : ImplOutcome) : Code Turn := do
  let run ← getRun cfg run.id
  match outcome with
  | .paused => pure (.again run)
  | .proceed => pure (.again run)
  | .verify =>
    if run.stage ≠ .verification then do
      let run ← transition cfg run .verification
      pure (.again run)
    else pure (.again run)

/-- The VERIFICATION branch of `_drive`, after the step. -/
def afterVerification (run : Run) (outcome : VerOutcome) : Code Turn := do
  let run ← getRun cfg run.id
  match outcome with
  | .passed => do
    let run ← transition cfg run .changeReviewGate
    pure (.done (status run true (some .gate)))
  | .retry => do
    let run ← transition cfg run .implementation
    pure (.again run)
  | .stuck => pure (.again run)

/-- `_research_fn`, when there is one. -/
def research (run : Run) : Code Unit :=
  if cfg.research then do
    match ← ask (.research run) with
    | .returned _ => pure ()
    | .raised x => .raise (.outside x)
  else pure ()

/-- `_packaging_fn`, when there is one. -/
def package (run : Run) : Code Unit :=
  if cfg.packaging then do
    match ← ask (.packaging run) with
    | .returned _ => pure ()
    | .raised x => .raise (.outside x)
  else pure ()

/-- `agent_backend.author_plan`; an exception propagates. -/
def authorPlan (run : Run) : Code PlanOutput := do
  let ctx ← runContext run
  match ← ask (.authorPlan ctx) with
  | .returned out => pure out
  | .raised x => .raise (.outside x)

/-- One turn of `_drive`'s loop. -/
def driveBody (run : Run) : Code Turn :=
  match pendingCheckpoint run with
  | .error x => .raise x
  | .ok (some pending) =>
    pure (.done (status run true (some .checkpoint) (some pending)))
  | .ok none =>
    match run.stage with
    | .intake => do
      let run ← transition cfg run .research
      pure (.again run)
    | .research => do
      research cfg run
      let run ← transition cfg run .planAuthoring
      pure (.again run)
    | .planAuthoring => do
      let planOutput ← authorPlan run
      generateAndStorePlan cfg run planOutput ("plan for " ++ run.jiraKey)
      let run ← transition cfg run .planApprovalGate
      pure (.done (status run true (some .gate)))
    | .planApprovalGate => pure (.done (status run true (some .gate)))
    | .implementation => do
      let outcome ← implementationStep cfg run
      afterImplementation cfg run outcome
    | .verification => do
      let outcome ← verificationStep cfg run
      afterVerification cfg run outcome
    | .changeReviewGate => pure (.done (status run true (some .gate)))
    | .packaging => do
      package cfg run
      let run ← transition cfg run .retrospective
      pure (.again run)
    | .retrospective => do
      let run ← transition cfg run .completed
      pure (.done (status run false none))
    | .completed => pure (.done (status run false none))
    | .abandoned => pure (.done (status run false none))

/-- `_drive` and `resume_run`: read the run and enter the loop. -/
def drive (runId : String) : Code Turn := do
  let run ← getRun cfg runId
  pure (.again run)

-- ==== public calls

/-- `agent_backend.re_plan`; an exception propagates. -/
def rePlan (run : Run) (feedback : String) : Code PlanOutput := do
  let ctx ← runContext run
  match ← ask (.rePlan ctx feedback) with
  | .returned out => pure out
  | .raised x => .raise (.outside x)

/-- The `request_changes` branch of `approve_plan`. -/
def requestPlanChanges (run : Run) (feedback : String) : Code Turn := do
  match ← ask (.appendAttempt cfg.tenantId run.id run.version "re-plan"
      .planAuthoring run.traceId) with
  | .ok _ => do
    let run ← getRun cfg run.id
    let planOutput ← rePlan run feedback
    generateAndStorePlan cfg run planOutput ("re-plan: " ++ feedback)
    let run ← transition cfg run .planApprovalGate
    pure (.done (status run true (some .gate)))
  | res => .raise (.appendAttemptFailed res.error)

/-- `approve_plan`. -/
def approvePlan (runId decision : String) (feedback : Option String) :
    Code Turn := do
  let run ← getRun cfg runId
  if run.stage ≠ .planApprovalGate then
    .raise (.notAtPlanGate run.stage)
  else if decision = "approve" then do
    let run ← transition cfg run .implementation
    let _ ← startNew run
    drive cfg run.id
  else if decision = "request_changes" then
    requestPlanChanges cfg run (feedback.getD "")
  else if decision = "reject" then do
    let run ← transition cfg run .abandoned
    pure (.done (status run false none))
  else .raise (.unknownPlanDecision decision)

/-- `approve_change_review`; its `feedback` is not read. -/
def approveChangeReview (runId decision : String)
    (_feedback : Option String) : Code Turn := do
  let run ← getRun cfg runId
  if run.stage ≠ .changeReviewGate then
    .raise (.notAtChangeReview run.stage)
  else if decision = "approve" then do
    let run ← transition cfg run .packaging
    drive cfg run.id
  else if decision = "request_changes" then do
    let run ← transition cfg run .implementation
    drive cfg run.id
  else if decision = "reject" then do
    let run ← transition cfg run .abandoned
    pure (.done (status run false none))
  else .raise (.unknownChangeReviewDecision decision)

/-- The elicitation `resolve_checkpoint` writes back. -/
def Elicitation.resolve (pending : Elicitation) (decision : String)
    (note : Option String) (now : Time) : Elicitation :=
  { pending with
    status := .resolved
    resolution := some ⟨decision, note, now⟩ }

/-- The acknowledgement in `resolve_checkpoint`: saved only when there is
a record and a signature. -/
def acknowledge (run : Run) (pending : Elicitation) : Code Unit := do
  match ← ask (.loadProgress run.id), pending.signature with
  | some progress, some signature =>
    ask (.saveProgress (progress.acknowledge signature))
  | _, _ => pure ()

/-- `resolve_checkpoint`. Any decision that is not `"stop"` goes on. -/
def resolveCheckpoint (runId decision : String) (note : Option String) :
    Code Turn := do
  let run ← getRun cfg runId
  match pendingCheckpoint run with
  | .error x => .raise x
  | .ok none => .raise (.noPendingCheckpoint runId)
  | .ok (some pending) => do
    let now ← ask .nowIso
    let run ← writeCheckpointPointer cfg run
      (.elicitation (pending.resolve decision note now))
    if decision = "stop" then do
      let run ← transition cfg run .abandoned
      pure (.done (status run false none))
    else do
      acknowledge run pending
      if decision = "extend_scope" ∧ pending.trigger = .risk then
        extendDeclaredScope run pending.details.outOfScopeFiles
      drive cfg run.id

/-- The program of each public call. -/
def entry : Call → Code Turn
  | .resumeRun runId => drive cfg runId
  | .approvePlan runId decision feedback =>
    approvePlan cfg runId decision feedback
  | .approveChangeReview runId decision feedback =>
    approveChangeReview cfg runId decision feedback
  | .resolveCheckpoint runId decision note =>
    resolveCheckpoint cfg runId decision note

-- ==== the machine

/-- The orchestrator as a machine over one run's world. -/
def machine : Machine Resp Env Answer World Err Call Run RunStatus where
  exec := World.exec
  decode := decode
  onCall := fun w c => w.record (.called c)
  onStop := fun w => w.record (.stopped w.run.stage)
  entry := entry cfg
  body := driveBody cfg

/-- The worlds `create_run` makes: an accepted row and empty stores. -/
def Initial (w : World) : Prop :=
  ∃ jiraKey repo branch capacityClass traceId runId attemptId : String,
    runId ≠ "" ∧
    Registry.Run.createRun cfg.tenantId jiraKey repo branch capacityClass
      traceId runId attemptId = .ok w.run ∧
    w.plans = PlanStore.empty ∧ w.progress = none ∧ w.hist = []

/-- A created run starts at intake, unpaused. -/
theorem Initial.row {cfg : Config} {w : World} (h : Initial cfg w) :
    w.run.stage = .intake ∧ w.run.checkpointPointer = none := by
  obtain ⟨key, repo, branch, cls, trace, id, att, _, hrow, _⟩ := h
  unfold Registry.Run.createRun at hrow
  split at hrow
  · cases hrow
  · split at hrow
    · cases hrow
    · split at hrow
      · cases hrow
      · injection hrow with hrow
        rw [← hrow]
        exact ⟨rfl, rfl⟩

/-- System states of `Pid` orchestrator processes on one run. -/
abbrev State (Pid : Type) : Type :=
  Sys Resp World Err Call Run RunStatus Pid

/-- The actions of such a system. -/
abbrev Act (Pid : Type) : Type := Action Pid Answer Call

/-- The event a step leaves in the history, if it ends an outside
call. -/
def eventAt {Pid : Type} (s : State Pid) (p : Pid) (ans : Answer) :
    Option Event :=
  match s.procs p with
  | some ⟨_, _, .op e _⟩ => (decode e ans).bind (eventOf e)
  | _ => none

/-- The process is about to stop with an exception. -/
def raising {Pid : Type} (s : State Pid) (p : Pid) : Bool :=
  match s.procs p with
  | some ⟨_, _, .raise _⟩ => true
  | _ => false

end SdlcOs.Orchestrator
