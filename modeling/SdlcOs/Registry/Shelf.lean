/-
What the registry is for: a shelf of rows, each changed by one atomic
operation at a time.

# Two levels

`Service` reads, checks and writes in steps of its own over three tables;
the run's owner only ever thinks of a row and of the operations of `Run`
on it. A `Shelf` holds the rows by run id. `Op` lists the calls a run's
owner makes, `Op.call` is the service call each one is, and `Op.apply`
what it is meant to do: the operation of `Run` on the row it names, at
once.

# Answers

`Agrees` compares what a service call came back with to what the atomic
operation says. The three differences it allows are the service's own: a
write that was overtaken between its check and its transaction is refused
in other words, a write is answered with the row as read back after it,
and an attempt with its whole row.
-/
import SdlcOs.Proofs.Registry.Store

namespace SdlcOs.Registry

-- ==== rows

/-- The row of a run, as its owner sees it. -/
def RunRow.run (r : RunRow) : Run String where
  id := r.id
  tenantId := r.tenantId
  jiraKey := r.jiraKey
  repo := r.repo
  branch := r.branch
  stage := r.stage
  checkpointPointer := r.checkpointPointer
  traceId := r.traceId
  currentAttemptId := r.currentAttemptId.getD ""
  version := r.version.toNat

/-- The rows by run id. -/
abbrev Shelf : Type := String → Option (Run String)

/-- The shelf a database holds. -/
def Db.shelf (db : Db) : Shelf :=
  fun id => (db.runs.find? (·.id = id)).map RunRow.run

/-- A row no caller sees: what an operation on a missing run is decided
on. -/
def Run.nobody : Run String where
  id := ""
  tenantId := ""
  jiraKey := ""
  repo := ""
  branch := ""
  stage := .intake
  checkpointPointer := none
  traceId := ""
  currentAttemptId := ""
  version := 0

/-- An operation on the row of a run. -/
def Shelf.on {α : Type} (m : Shelf) (runId : String)
    (f : Run String → Run String × Result α) : Shelf × Result α :=
  match m runId with
  | some row => (Function.update m runId (some (f row).1), (f row).2)
  | none => (m, (f Run.nobody).2)

-- ==== operations

namespace Service

/-- The calls a run's owner makes. A checkpoint pointer is never empty,
and a checkpoint leaves the capacity class alone. -/
inductive Op : Type where
  | create (tenantId jiraKey repo branch capacityClass traceId : String)
      (worktree : Option String)
  | get (tenantId runId : String)
  | transition (tenantId runId : String) (expectedVersion : Nat)
      (nextStage : Stage)
  | append (tenantId runId : String) (expectedVersion : Nat)
      (reason : String) (startingStage : Stage) (traceId : String)
  | checkpoint (tenantId runId : String) (expectedVersion : Nat)
      (pointer : { text : String // text ≠ "" })
  deriving DecidableEq, Repr

namespace Op

/-- The call of the service. -/
def call : Op → Call
  | create t key repo branch cls trace worktree =>
    .createRun (.text t) key repo branch cls trace worktree
  | get t id => .getRun (.text t) id
  | transition t id v next => .transitionStage (.text t) id v next.token
  | append t id v reason start trace =>
    .appendAttempt (.text t) id v reason start.token trace
  | checkpoint t id v pointer =>
    .writeCheckpoint (.text t) id v pointer none

/-- What an operation is answered with: the row it has made or changed,
the row it has seen, or the id of a new attempt. -/
inductive Reply : Type where
  | row (r : Result (Run String))
  | seen (r : Result (Run String))
  | attempt (r : Result String)

/-- The operation was accepted. -/
def Reply.isOk : Reply → Bool
  | .row (.ok _) => true
  | .seen (.ok _) => true
  | .attempt (.ok _) => true
  | _ => false

/-- What an operation does to the shelf, given the ids that are drawn for
a new run and a new attempt. -/
def apply (m : Shelf) (runId attemptId : String) : Op → Shelf × Reply
  | create t key repo branch cls trace _ =>
    match Run.createRun t key repo branch cls trace runId attemptId with
    | .ok row => (Function.update m runId (some row), .row (.ok row))
    | refused => (m, .row refused)
  | get t id =>
    (m, .seen (m.on id fun row => (row, row.getRun t id)).2)
  | transition t id v next =>
    ((m.on id fun row => row.transitionStage t id v next).1,
      .row (m.on id fun row => row.transitionStage t id v next).2)
  | append t id v reason start trace =>
    ((m.on id fun row =>
        row.appendAttempt t id v reason start trace attemptId).1,
      .attempt (m.on id fun row =>
        row.appendAttempt t id v reason start trace attemptId).2)
  | checkpoint t id v pointer =>
    ((m.on id fun row => row.writeCheckpoint t id v pointer.val).1,
      .row (m.on id fun row => row.writeCheckpoint t id v pointer.val).2)

/-- A run is created under an id that no run has. -/
def Fresh (m : Shelf) (runId : String) : Op → Prop
  | create .. => m runId = none
  | _ => True

end Op

-- ==== answers

/-- The same refusal, or that of a write that was overtaken. -/
def SameError (e e' : ErrorInfo) : Prop :=
  e' = e ∨ e.code = .staleVersion ∧ e' = staleWrite

/-- What the call came back with is what the operation answers. -/
def Agrees (db : Db) : Op.Reply → Outcome → Prop
  | .row (.ok row), .run (.ok r) => ∃ r₀ ∈ db.runs, r₀.run = row ∧ Later r₀ r
  | .row (.fail e), .run (.fail e') => SameError e e'
  | .row .empty, .run .empty => True
  | .seen (.ok row), .run (.ok r) => r.run = row
  | .seen .empty, .run .empty => True
  | .attempt (.ok id), .attempt (.ok a) => a.id = id
  | .attempt (.fail e), .attempt (.fail e') => SameError e e'
  | .attempt .empty, .attempt .empty => True
  | _, _ => False

end Service

end SdlcOs.Registry
