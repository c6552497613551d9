/-
The worker's drive loop (deploy/run-worker/_run_lib.py): `drive`, the
entrypoints that share it, and the resolver `jira_poll_run.py` gives it.

One turn of `drive`'s `while` is `driveTurn`; the orchestrator's calls
are calls of the machine below, one `call` for each call of the source.
-/
import SdlcOs.Worker.World

namespace SdlcOs.Worker

open Effects
open Orchestrator (Call Exn PauseKind PlanArtifact Reply Run RunStatus)
open Registry (Stage)

-- ==== settings

/-- What a worker reads of its configuration: the stripped
`AUTONOMY_LEVEL`, the two Jira statuses it moves an issue to, the id
`create_run` gives the issue's run, and the texts of its comments, which
it never reads back. -/
structure Settings where
  autonomyLevel : String
  approvalStatus : String
  doneStatus : String
  runId : String
  wording : Notice → String

/-- How the worker's own code raises. -/
inductive Err : Type where
  | orchestrator (x : Orchestrator.Err)
  | outside (x : Exn)
  | unknownAutonomyLevel (raw : String)
  | unexpectedGateStage (stage : Stage)
  | unexpectedPauseKind (kind : Option PauseKind)

/-- Worker code. -/
abbrev Code : Type → Type :=
  Host.Text Resp Orchestrator.Err Call RunStatus Origin Err

/-- Make one request. -/
def ask (e : Req) : Code (Resp e) := Prog.perform (Task.own e)

/-- Call the orchestrator; its exceptions propagate. -/
def call (c : Call) (origin : Origin) : Code RunStatus := do
  let r : Except Orchestrator.Err RunStatus ←
    Prog.perform (Task.call c origin)
  match r with
  | .ok status => pure status
  | .error x => .raise (.orchestrator x)

/-- The result of a call outside; its exceptions propagate. -/
def expect {α : Type} : Reply α → Code α
  | .returned a => pure a
  | .raised x => .raise (.outside x)

/-- `_default_autonomy_level`. -/
def defaultAutonomyLevel (cfg : Settings) (fallback : String) :
    Code AutonomyLevel :=
  let raw := if cfg.autonomyLevel = "" then fallback else cfg.autonomyLevel
  match parseLevel raw with
  | some level => pure level
  | none => .raise (.unknownAutonomyLevel raw)

-- ==== drive

/-- `artifact.get("risk", {}).get("cross_cutting_or_high_risk", False)`
of the latest plan, if there is one. -/
def highRisk : Option PlanArtifact → Bool
  | none => false
  | some artifact => artifact.crossCuttingOrHighRisk

/-- `drive`'s `auto_decision` at a pause. -/
def autoDecision (level : AutonomyLevel) (status : RunStatus) :
    Code (Option String) :=
  if status.pauseKind = some .gate then
    if status.stage = .planApprovalGate then do
      let artifact ← ask (.loadLatest status.runId)
      if requiresPlanApprovalGate level (highRisk artifact) then pure none
      else pure (some "approve")
    else if status.stage = .changeReviewGate then
      if requiresChangeReviewGate level false then pure none
      else pure (some "approve")
    else pure none
  else pure none

/-- The call a decision at a pause of `drive` is passed to. -/
def passDecision (level : AutonomyLevel) (status : RunStatus)
    (decision : String) : Code RunStatus :=
  match status.pauseKind with
  | some .gate =>
    if status.stage = .planApprovalGate then
      call (.approvePlan status.runId decision none) (.drive level)
    else if status.stage = .changeReviewGate then
      call (.approveChangeReview status.runId decision none) (.drive level)
    else .raise (.unexpectedGateStage status.stage)
  | some .checkpoint =>
    call (.resolveCheckpoint status.runId decision none) (.drive level)
  | none => .raise (.unexpectedPauseKind none)

/-- The decisions that end a run. -/
def abandons (decision : String) : Bool :=
  decision = "reject" || decision = "stop"

/-- Ask the policy, then the resolver. -/
def driveDecision (level : AutonomyLevel)
    (resolve : RunStatus → Code (Option String)) (status : RunStatus) :
    Code (Option String) := do
  match ← autoDecision level status with
  | some d => pure (some d)
  | none => resolve status

/-- One turn of `drive`'s loop. -/
def driveTurn (level : AutonomyLevel)
    (resolve : RunStatus → Code (Option String)) (status : RunStatus) :
    Code (Ctl RunStatus RunOutcome) :=
  if status.paused = true then do
    match ← driveDecision level resolve status with
    | none =>
      pure (.done { exitCode := 2, runId := status.runId
                    finalStage := status.stage, paused := true
                    pauseKind := status.pauseKind })
    | some decision => do
      let status ← passDecision level status decision
      if abandons decision then
        pure (.done { exitCode := 1, runId := status.runId
                      finalStage := status.stage })
      else pure (.again status)
  else do
    let prUrl ← ask .prUrl
    pure (.done { exitCode := 0, runId := status.runId
                  finalStage := status.stage, prUrl := prUrl })

-- ==== resolvers

/-- The plan `_describe_pause` loads for its text. -/
def describedPlan (status : RunStatus) : Code (Option PlanArtifact) :=
  if status.pauseKind = some .gate ∧ status.stage = .planApprovalGate then
    ask (.loadLatest status.runId)
  else pure none

/-- `if assignee_account_id:`, with the assignment it guards. -/
def assign : Option String → Code Unit
  | none => pure ()
  | some accountId =>
    if accountId = "" then pure ()
    else do
      let _ ← expect (← ask (.assignIssue accountId))
      pure ()

/-- The record `_on_pause` writes. -/
def Record.ofPause (env : Environment) (status : RunStatus)
    (lastSeen : Option Nat) : Record :=
  { runId := status.runId, taskDescription := env.taskDescription
    branchName := env.branchName, worktreePath := env.worktreePath
    pauseKind := status.pauseKind, stage := status.stage
    lastSeenCommentId := lastSeen }

/-- `_on_pause`: comment, assign, and write the pending record. -/
def onPause (env : Environment) (assignee : Option String)
    (status : RunStatus) : Code Unit := do
  let plan ← describedPlan status
  let lastSeen ← expect (← ask (.postComment (.paused status plan)))
  assign assignee
  ask (.savePending (some (.ofPause env status lastSeen)))

/-- `_async_resolve`. -/
def asyncResolve (env : Environment) (assignee : Option String)
    (status : RunStatus) : Code (Option String) := do
  onPause env assignee status
  pure none

/-- Any other resolver: it answers what it answers. -/
def interactiveResolve (status : RunStatus) : Code (Option String) := do
  expect (← ask (.resolve status))

-- ==== frames

/-- Which of the worker's entries a drive belongs to. -/
inductive Site : Type where
  | once
  | pickup
  | reply
  deriving DecidableEq, Repr

/-- What a drive keeps from turn to turn, beside the status. -/
structure Frame where
  site : Site
  level : AutonomyLevel
  env : Environment
  assignee : Option String
  deriving DecidableEq, Repr

/-- The resolver an entry gives to `drive`. -/
def Frame.resolver (f : Frame) : RunStatus → Code (Option String) :=
  match f.site with
  | .once => interactiveResolve
  | _ => asyncResolve f.env f.assignee

/-- How an entry of the worker comes out: into its drive loop, or over,
with the outcome of the run if it had one. -/
abbrev Turn : Type := Ctl (Frame × RunStatus) (Option RunOutcome)

/-- `start_run`: the drive of a created run. -/
def startRun (cfg : Settings) : Code RunStatus :=
  call (.resumeRun cfg.runId) .start

/-- `run_once`. -/
def runOnce (cfg : Settings) (taskDescription : String) : Code Turn := do
  let env ← expect (← ask (.buildEnvironment taskDescription none))
  let status ← startRun cfg
  let level ← defaultAutonomyLevel cfg "L1"
  pure (.again (⟨.once, level, env, none⟩, status))

/-- `start_run_async`. -/
def startRunAsync (cfg : Settings) (taskDescription : String)
    (assignee : Option String) : Code Turn := do
  let env ← expect (← ask (.buildEnvironment taskDescription none))
  let status ← startRun cfg
  let level ← defaultAutonomyLevel cfg "L3"
  pure (.again (⟨.pickup, level, env, assignee⟩, status))

/-- The call a reply's decision is passed to. -/
def passReply (record : Record) (c : Comment) (decision : String)
    (status : RunStatus) : Code RunStatus :=
  if status.pauseKind = some .gate then
    if status.stage = .planApprovalGate then
      call (.approvePlan record.runId decision none) (.reply c)
    else if status.stage = .changeReviewGate then
      call (.approveChangeReview record.runId decision none) (.reply c)
    else .raise (.unexpectedGateStage status.stage)
  else call (.resolveCheckpoint record.runId decision none) (.reply c)

/-- `resume_paused_run_async`, with the comment its decision was read in
for the log. A decision that abandons the run ends here, with the
outcome in the place of a drive. -/
def resumePausedRunAsync (cfg : Settings) (record : Record) (c : Comment)
    (decision : String) (assignee : Option String) :
    Code (Ctl (Frame × RunStatus) RunOutcome) := do
  let env ← expect (← ask (.buildEnvironment record.taskDescription
    (some (record.branchName, record.worktreePath))))
  let status ← call (.resumeRun record.runId) .resume
  if status.paused = true ∧ status.pauseKind = record.pauseKind ∧
      status.stage = record.stage then do
    let status ← passReply record c decision status
    if abandons decision then
      pure (.done { exitCode := 1, runId := status.runId
                    finalStage := status.stage })
    else do
      let level ← defaultAutonomyLevel cfg "L3"
      pure (.again (⟨.reply, level, env, assignee⟩, status))
  else do
    let level ← defaultAutonomyLevel cfg "L3"
    pure (.again (⟨.reply, level, env, assignee⟩, status))

end SdlcOs.Worker
