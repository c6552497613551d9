/-
The Jira poller (deploy/run-worker/jira_poll_run.py): a tick for one
issue, and the worker as a host over the orchestrator.

An exception while a run is started or resumed is caught by the source
and nothing more is done for the issue in this tick but, in
`_poll_once`, a comment; that comment is among those others write.
-/
import SdlcOs.Worker.Drive

namespace SdlcOs.Worker

open Effects
open Orchestrator (Call PauseKind Run RunStatus)

-- ==== replies

/-- `_POSITIVE_WORDS`. -/
def positiveWords : List String :=
  ["approve", "approved", "yes", "y", "continue", "lgtm", "go", "proceed"]

/-- `_NEGATIVE_WORDS`. -/
def negativeWords : List String :=
  ["reject", "rejected", "no", "n", "stop", "abandon", "cancel"]

/-- `.rstrip(".!?")`. -/
def rstripMarks (s : String) : String :=
  .ofList ((s.toList.reverse.dropWhile fun c =>
    c = '.' || c = '!' || c = '?').reverse)

/-- `comment_body.strip().lower().rstrip(".!?")`. The words it is looked
up among are ASCII without a `k`, and no other letter lowers to one of
their letters. -/
def replyWord (body : String) : String :=
  rstripMarks (Dispatch.asciiLower (Gates.strip body))

/-- `_match_decision`. -/
def matchDecision (body : String) (kind : Option PauseKind) : Option String :=
  let word := replyWord body
  if word ∈ positiveWords then
    some (if kind = some .gate then "approve" else "continue")
  else if word ∈ negativeWords then
    some (if kind = some .gate then "reject" else "stop")
  else none

/-- `last_seen`, minus one where the record has none. -/
def Record.lastSeen (r : Record) : Int :=
  match r.lastSeenCommentId with
  | none => -1
  | some id => id

/-- The comments past a record's last seen one. -/
def Record.newComments (r : Record) (comments : List Comment) :
    List Comment :=
  comments.filter fun c => r.lastSeen < c.id

/-- The most recent comment that matches, with its decision. -/
def Record.newestDecision (r : Record) (comments : List Comment) :
    Option (Comment × String) :=
  (r.newComments comments).reverse.findSome? fun c =>
    (matchDecision c.body r.pauseKind).map fun d => (c, d)

-- ==== ticks

/-- `_finish_issue`. -/
def finishIssue (cfg : Settings) (outcome : RunOutcome) : Code Unit :=
  if outcome.exitCode = 0 then do
    let notice := Notice.opened outcome.prUrl outcome.finalStage
    if ← expect (← ask (.transitionStatus cfg.doneStatus notice)) then
      pure ()
    else do
      let _ ← expect (← ask (.postComment notice))
      pure ()
  else do
    let _ ← expect (← ask (.postComment
      (.abandoned outcome.finalStage outcome.exitCode)))
    pure ()

/-- What an entry does with the outcome of its run. -/
def settle (cfg : Settings) (site : Site) (outcome : RunOutcome) :
    Code (Option RunOutcome) :=
  match site with
  | .once => pure (some outcome)
  | .pickup =>
    if outcome.paused then pure (some outcome)
    else do
      finishIssue cfg outcome
      ask .markProcessed
      pure (some outcome)
  | .reply =>
    if outcome.paused then pure (some outcome)
    else do
      finishIssue cfg outcome
      ask (.savePending none)
      ask .markProcessed
      pure (some outcome)

/-- `_check_pending_decisions`, for one issue. -/
def checkPendingDecisions (cfg : Settings) : Code Turn := do
  match ← ask .loadPending with
  | none => pure (.done none)
  | some record => do
    let botAccountId ← expect (← ask .whoami)
    match ← expect (← ask .listComments) with
    | none => pure (.done none)
    | some comments =>
      match record.newestDecision comments with
      | none => pure (.done none)
      | some (c, decision) => do
        match ← resumePausedRunAsync cfg record c decision
            botAccountId with
        | .again t => pure (.again t)
        | .done outcome => do
          let outcome ← settle cfg .reply outcome
          pure (.done outcome)

/-- `_poll_once`, for one issue. -/
def pollOnce (cfg : Settings) : Code Turn := do
  let processed ← ask .loadProcessed
  let pending ← ask .loadPending
  let listed ← expect (← ask .findStories)
  if listed = true ∧ processed = false ∧ pending = none then do
    match ← expect (← ask .getIssue) with
    | none => pure (.done none)
    | some taskDescription => do
      let _ ← expect (← ask (.transitionStatus cfg.approvalStatus .pickedUp))
      let botAccountId ← expect (← ask .whoami)
      startRunAsync cfg taskDescription botAccountId
  else pure (.done none)

-- ==== machine

/-- The worker's entries. -/
inductive Entry : Type where
  | runOnce (taskDescription : String)
  | pollOnce
  | checkPendingDecisions
  deriving DecidableEq, Repr

/-- The program of each entry. -/
def entry (cfg : Settings) : Entry → Code Turn
  | .runOnce taskDescription => runOnce cfg taskDescription
  | .pollOnce => pollOnce cfg
  | .checkPendingDecisions => checkPendingDecisions cfg

/-- One turn of an entry's drive loop, with what the entry does at its
end. -/
def body (cfg : Settings) : Frame × RunStatus → Code Turn
  | (f, status) => do
    match ← driveTurn f.level f.resolver status with
    | .again status => pure (.again (f, status))
    | .done outcome => do
      let outcome ← settle cfg f.site outcome
      pure (.done outcome)

/-- Somebody writes a comment. -/
structure Writing where
  gap : Nat
  text : String
  deriving DecidableEq, Repr

/-- The worker as a host over the orchestrator. A run is started once: a
second start is another run. -/
def worker (cfg : Settings) : Host Resp Env Answer Store Orchestrator.World
    Writing Orchestrator.Err Call RunStatus Origin Err Entry
    (Frame × RunStatus) (Option RunOutcome) where
  exec := Store.exec cfg.wording
  decode := decode
  onCall := Store.onCall
  onReturn := fun l _ _ r => l.onReturn r
  outside := fun l o => l.comment o.gap o.text
  accept := fun l c =>
    if c ≠ .checkPendingDecisions ∧ l.started = true then none else some l
  entry := entry cfg
  body := body cfg

instance : Inhabited Orchestrator.Answer := ⟨.auto⟩

/-- A system of the worker and its run. -/
abbrev State : Type :=
  Hosted Resp Orchestrator.Resp Store Orchestrator.World Orchestrator.Err
    Call Run RunStatus Origin Err (Frame × RunStatus) (Option RunOutcome)

/-- The moves of such a system. -/
abbrev Act : Type := Deed Answer Orchestrator.Answer Writing Entry

/-- An issue nothing was done for yet, whatever its comments, and a
created run. -/
def Initial (ocfg : Orchestrator.Config) (l : Store)
    (w : Orchestrator.World) : Prop :=
  l.comments.Pairwise (fun c c' => c.id < c'.id) ∧ l.pending = none ∧
    l.processed = false ∧ l.started = false ∧ l.log = [] ∧
    l.noted = none ∧ Orchestrator.Initial ocfg w

/-- The states of the runs all of whose moves met `cond`. -/
abbrev Reach (ocfg : Orchestrator.Config) (cfg : Settings)
    (cond : State → Act → Prop) (s : State) : Prop :=
  Host.Reach (Orchestrator.machine ocfg) (worker cfg) (Initial ocfg) cond s

end SdlcOs.Worker
