/-
The run worker's outside: what `_run_lib.py` and `jira_poll_run.py` ask
for besides the orchestrator's calls, and one issue's side of it.

# One issue

A worker keeps a record per issue, and an issue has one run; what a tick
does for one issue reads and writes that issue's record and comments
only. So the world here is one issue and its run: an entry of the
worker is what it does for this issue, and a comment others write,
people or the worker for some other reason, is the outside's move.

# Answers

Whatever goes through the Jira client can be answered, refused or raise,
and a comment whose posting was refused or raised may have landed all
the same (`Posting`). Comment ids grow with time: a new comment's id is
past the last one by any gap.

# The log

`log` is ghost: the calls the worker made with the run's row and plan at
that moment, the statuses that came back, the decisions resolvers gave
and the notifications that landed. `noted` is the row the run had when
its pending record was written.

# Autonomy

The levels (gates/autonomy.py) say which of the two human gates are
mandatory, and whether the implementation is run at all.
-/
import SdlcOs.Dispatch.Signing
import SdlcOs.Effects.Hosted
import SdlcOs.Gates.Service
import SdlcOs.Orchestrator.Core

namespace SdlcOs.Worker

/-- `AutonomyLevel`, in ascending order of autonomy. -/
inductive AutonomyLevel : Type where
  | l0Assisted
  | l1Supervised
  | l2Delegated
  | l3AutonomousToPr
  deriving DecidableEq, Repr

/-- `AutonomyLevel.value`. -/
def AutonomyLevel.value : AutonomyLevel → String
  | .l0Assisted => "L0"
  | .l1Supervised => "L1"
  | .l2Delegated => "L2"
  | .l3AutonomousToPr => "L3"

/-- `_ORDER`. -/
def AutonomyLevel.order : List AutonomyLevel :=
  [.l0Assisted, .l1Supervised, .l2Delegated, .l3AutonomousToPr]

/-- `parse_level`; nothing stands for `UnknownAutonomyLevelError`. -/
def parseLevel (raw : String) : Option AutonomyLevel :=
  AutonomyLevel.order.find? fun l => l.value = raw

theorem parseLevel_value (l : AutonomyLevel) : parseLevel l.value = some l := by
  cases l <;> rfl

/-- `requires_plan_approval_gate`. -/
def requiresPlanApprovalGate (level : AutonomyLevel) (highRisk : Bool) :
    Bool :=
  match level with
  | .l0Assisted => true
  | .l1Supervised => true
  | .l2Delegated => highRisk
  | .l3AutonomousToPr => false

/-- `requires_change_review_gate`. -/
def requiresChangeReviewGate (level : AutonomyLevel) (pulledFromBatch : Bool) :
    Bool :=
  match level with
  | .l0Assisted => false
  | .l1Supervised => true
  | .l2Delegated => pulledFromBatch
  | .l3AutonomousToPr => false

/-- `runs_autonomous_implementation`. -/
def runsAutonomousImplementation (level : AutonomyLevel) : Bool :=
  level ≠ .l0Assisted

open Effects
open Orchestrator (Call Exn PauseKind PlanArtifact Reply Run RunStatus)
open Registry (Stage)

-- ==== data

/-- A comment, as `list_comments` has it. -/
structure Comment where
  id : Nat
  body : String
  deriving DecidableEq, Repr

/-- What the worker writes on an issue. -/
inductive Notice : Type where
  | pickedUp
  | paused (status : RunStatus) (plan : Option PlanArtifact)
  | opened (prUrl : Option String) (finalStage : Option Stage)
  | abandoned (finalStage : Option Stage) (exitCode : Nat)
  deriving DecidableEq

/-- The parts of an `Environment` the worker itself reads. -/
structure Environment where
  taskDescription : String
  branchName : String
  worktreePath : String
  deriving DecidableEq, Repr

/-- An issue's entry of `jira_pending_decisions.json`. -/
structure Record where
  runId : String
  taskDescription : String
  branchName : String
  worktreePath : String
  pauseKind : Option PauseKind
  stage : Stage
  lastSeenCommentId : Option Nat
  deriving DecidableEq, Repr

/-- `RunOutcome`. -/
structure RunOutcome where
  exitCode : Nat
  runId : Option String := none
  finalStage : Option Stage := none
  prUrl : Option String := none
  paused : Bool := false
  pauseKind : Option PauseKind := none
  deriving DecidableEq, Repr

/-- On whose behalf a call of the orchestrator is made: to start or
resume the run, by `drive` at its level, or with the decision read in a
comment. -/
inductive Origin : Type where
  | start
  | resume
  | drive (level : AutonomyLevel)
  | reply (c : Comment)
  deriving DecidableEq, Repr

/-- What the log records. -/
inductive Event : Type where
  | called (c : Call) (origin : Origin) (row : Run)
      (plan : Option PlanArtifact)
  | produced (status : RunStatus)
  | asked (status : RunStatus) (decision : Option String)
  | notified (commentId : Nat) (row : Run)
  deriving DecidableEq

-- ==== requests

/-- Everything the worker asks for besides the orchestrator's calls.
`findStories` is whether the search lists the issue, `getIssue` the task
text of an issue that is opted in. -/
inductive Req : Type where
  | buildEnvironment (taskDescription : String)
      (existing : Option (String × String))
  | loadLatest (runId : String)
  | resolve (status : RunStatus)
  | prUrl
  | whoami
  | findStories
  | getIssue
  | listComments
  | postComment (notice : Notice)
  | assignIssue (accountId : String)
  | transitionStatus (targetStatus : String) (comment : Notice)
  | loadPending
  | savePending (record : Option Record)
  | loadProcessed
  | markProcessed

/-- What each request is answered with. -/
@[reducible] def Resp : Req → Type
  | .buildEnvironment .. => Reply Environment
  | .loadLatest _ => Option PlanArtifact
  | .resolve _ => Reply (Option String)
  | .prUrl => Option String
  | .whoami => Reply (Option String)
  | .findStories => Reply Bool
  | .getIssue => Reply (Option String)
  | .listComments => Reply (Option (List Comment))
  | .postComment _ => Reply (Option Nat)
  | .assignIssue _ => Reply Bool
  | .transitionStatus .. => Reply Bool
  | .loadPending => Option Record
  | .savePending _ => Unit
  | .loadProcessed => Bool
  | .markProcessed => Unit

/-- How a `post_comment` ends, with the id gap of a comment that landed. -/
inductive Posting : Type where
  | ok (gap : Nat)
  | refused (landed : Option Nat)
  | raised (landed : Option Nat) (x : Exn)
  deriving DecidableEq, Repr

/-- The environment's part in a request. -/
@[reducible] def Env : Req → Type
  | .buildEnvironment .. => Reply Environment
  | .loadLatest _ => Unit
  | .resolve _ => Reply (Option String)
  | .prUrl => Option String
  | .whoami => Reply (Option String)
  | .findStories => Reply Bool
  | .getIssue => Reply (Option String)
  | .listComments => Reply Bool
  | .postComment _ => Posting
  | .assignIssue _ => Reply Bool
  | .transitionStatus .. => Option Nat × Reply Bool
  | .loadPending | .savePending _ => Unit
  | .loadProcessed | .markProcessed => Unit

/-- The environment's moves, as one type. -/
inductive Answer : Type where
  | auto
  | environment (r : Reply Environment)
  | decision (r : Reply (Option String))
  | url (r : Option String)
  | text (r : Reply (Option String))
  | outcome (r : Reply Bool)
  | posting (r : Posting)
  | transition (landed : Option Nat) (r : Reply Bool)
  deriving DecidableEq, Repr

/-- Read an environment move as the part a request needs. -/
def decode : (e : Req) → Answer → Option (Env e)
  | .buildEnvironment .., .environment r => some r
  | .loadLatest _, .auto => some ()
  | .resolve _, .decision r => some r
  | .prUrl, .url r => some r
  | .whoami, .text r => some r
  | .findStories, .outcome r => some r
  | .getIssue, .text r => some r
  | .listComments, .outcome r => some r
  | .postComment _, .posting r => some r
  | .assignIssue _, .outcome r => some r
  | .transitionStatus .., .transition landed r => some (landed, r)
  | .loadPending, .auto => some ()
  | .savePending _, .auto => some ()
  | .loadProcessed, .auto => some ()
  | .markProcessed, .auto => some ()
  | _, _ => none

-- ==== store

/-- One issue's side of the world: its comments, its entries in the two
data files, whether its run was started, and the ghost log. -/
structure Store where
  comments : List Comment
  pending : Option Record
  processed : Bool
  started : Bool
  log : List Event
  noted : Option Run
  deriving DecidableEq

namespace Store

/-- The least id a new comment may have. -/
def nextId (l : Store) : Nat :=
  match l.comments.getLast? with
  | none => 0
  | some c => c.id + 1

/-- A comment lands, its id past the others by a gap. -/
def comment (l : Store) (gap : Nat) (body : String) : Store :=
  { l with comments := l.comments ++ [⟨l.nextId + gap, body⟩] }

/-- Add an event to the log. -/
def record (l : Store) (ev : Event) : Store :=
  { l with log := l.log ++ [ev] }

/-- A notice lands, if it does; one about a pause is a notification. -/
def land (l : Store) (wording : Notice → String) (row : Run) (n : Notice) :
    Option Nat → Store
  | none => l
  | some gap =>
    match n with
    | .paused .. =>
      (l.comment gap (wording n)).record
        (.notified (l.nextId + gap) row)
    | _ => l.comment gap (wording n)

/-- What a request of the worker's own does. -/
def exec (wording : Notice → String) (l : Store) (w : Orchestrator.World) :
    (e : Req) → Env e → Store × Resp e
  | .buildEnvironment .., r => (l, r)
  | .loadLatest _, _ => (l, w.plans.latest)
  | .resolve status, r =>
    match r with
    | .returned decision => (l.record (.asked status decision), r)
    | .raised _ => (l, r)
  | .prUrl, r => (l, r)
  | .whoami, r => (l, r)
  | .findStories, r => (l, r)
  | .getIssue, r => (l, r)
  | .listComments, r =>
    match r with
    | .returned true => (l, .returned (some l.comments))
    | .returned false => (l, .returned none)
    | .raised x => (l, .raised x)
  | .postComment n, r =>
    match r with
    | .ok gap =>
      (l.land wording w.run n (some gap), .returned (some (l.nextId + gap)))
    | .refused landed => (l.land wording w.run n landed, .returned none)
    | .raised landed x => (l.land wording w.run n landed, .raised x)
  | .assignIssue _, r => (l, r)
  | .transitionStatus _ n, (landed, r) => (l.land wording w.run n landed, r)
  | .loadPending, _ => (l, l.pending)
  | .savePending record, _ =>
    ({ l with pending := record, noted := record.map fun _ => w.run }, ())
  | .loadProcessed, _ => (l, l.processed)
  | .markProcessed, _ => ({ l with processed := true }, ())

/-- A call is made. -/
def onCall (l : Store) (w : Orchestrator.World) (c : Call) (origin : Origin) :
    Store :=
  let l := l.record (.called c origin w.run w.plans.latest)
  if origin = .start then { l with started := true } else l

/-- A call came back. -/
def onReturn (l : Store) : Except Orchestrator.Err RunStatus → Store
  | .ok status => l.record (.produced status)
  | .error _ => l

end Store

end SdlcOs.Worker
