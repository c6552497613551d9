/-
`RegistryService` (run_registry/service.py) as effect programs over the
store.

# Requests

Each method reads, checks, writes in one transaction and, when the write
was committed, reads again. Only the reads and the transaction touch the
database, each in one atomic step; between two of them other service
instances, in other processes, may act. The per-instance lock orders the
threads of one process and is not needed here: a process of the machine
is one call.

# Results

A method returns a `Result`; an exception of sqlite3 propagates, after
the rollback.

# The ghost

`consumed` lists the (run, version) pairs that a committed write was
guarded by, latest first. No request reads it.

# Runs, written down

A script is a list of actions; a call is written with the answers of its
requests, most of which the database gives itself (`Answer.auto`). The
examples of the proof modules all start from `opening`: one tenant
creates one run in a fresh database.
-/
import SdlcOs.Effects.System
import SdlcOs.Registry.Tables

namespace SdlcOs.Registry

open Effects

namespace Service

-- ==== requests

/-- What the service asks of the store and of its environment. -/
inductive Req : Type where
  | getRun (tenantId : TenantArg) (runId : String)
  | listRuns (tenantId : TenantArg) (stage : Option String)
      (limit offset : Int)
  | listAttempts (runId : String) (tenantId : TenantArg)
  | transact (txn : Txn)
  | nowIso
  | newId

/-- What each request is answered with. -/
@[reducible] def Resp : Req → Type
  | .getRun .. => Option RunRow
  | .listRuns .. => List RunRow
  | .listAttempts .. => List AttemptRow
  | .transact _ => TxnResult
  | .nowIso => String
  | .newId => { id : String // id ≠ "" }

/-- The environment's part: the clock and the generated ids. -/
@[reducible] def Env : Req → Type
  | .nowIso => String
  | .newId => { id : String // id ≠ "" }
  | _ => Unit

/-- The environment's moves, as one type. -/
inductive Answer : Type where
  | auto
  | time (ts : String)
  | id (s : String)
  deriving DecidableEq, Repr

/-- Read an environment move as the part a request needs. A generated id
is never empty. -/
def decode : (e : Req) → Answer → Option (Env e)
  | .getRun .., .auto => some ()
  | .listRuns .., .auto => some ()
  | .listAttempts .., .auto => some ()
  | .transact _, .auto => some ()
  | .nowIso, .time ts => some ts
  | .newId, .id s => if h : s ≠ "" then some ⟨s, h⟩ else none
  | _, _ => none

/-- The database, and the versions that committed writes were guarded
by. -/
structure World where
  db : Db
  consumed : List (String × Int)
  deriving DecidableEq, Repr

/-- The run and the version a transaction is guarded by. `create_run` has
neither. -/
def Txn.guard : Txn → Option (String × Int)
  | .create .. => none
  | .append _ runId v .. => some (runId, v)
  | .transition _ runId v .. => some (runId, v)
  | .write _ runId v .. => some (runId, v)

/-- What a request does. -/
def exec (w : World) : (e : Req) → Env e → World × Resp e
  | .getRun tenantId runId, _ => (w, w.db.getRun tenantId runId)
  | .listRuns tenantId stage limit offset, _ =>
    (w, w.db.listRuns tenantId stage limit offset)
  | .listAttempts runId tenantId, _ => (w, w.db.listAttempts runId tenantId)
  | .transact txn, _ =>
    let r := w.db.transact txn
    match r.2 with
    | .committed =>
      (⟨r.1, (Txn.guard txn).toList ++ w.consumed⟩, r.2)
    | _ => (w, r.2)
  | .nowIso, ts => (w, ts)
  | .newId, id => (w, id)

-- ==== methods

/-- What a method raises: an exception of sqlite3, or one of its own
assertions. -/
inductive Err : Type where
  | sql (e : SqlError)
  | assertion
  | stopIteration
  deriving DecidableEq, Repr

/-- Service code. -/
abbrev Code : Type → Type := Prog Resp Err

/-- Make one request. -/
def ask (e : Req) : Code (Resp e) := Prog.perform e

/-- `stages.is_valid_stage`, with the stage a text names. -/
def stageOf (text : String) : Option Stage :=
  [Stage.intake, .research, .planAuthoring, .planApprovalGate,
    .implementation, .verification, .changeReviewGate, .packaging,
    .retrospective, .completed, .abandoned].find? (·.token = text)

/-- `_VALID_REASONS`. -/
def validReasons : List String :=
  ["initial", "re-plan", "retry", "resumed-after-interruption"]

/-- `_VALID_CAPACITY_CLASSES`. -/
def validCapacityClasses : List String := ["spot", "on_demand"]

/-- A failure of the given kind. -/
def invalid {α : Type} (message : String) : Result α :=
  .fail ⟨.invalidInput, message⟩

/-- The refusal of a stale expected version. -/
def staleVersion (expected current : Int) : ErrorInfo :=
  ⟨.staleVersion, "expected version " ++ toString expected ++
    ", current version is " ++ toString current ++
    "; re-read the run before retrying"⟩

/-- The refusal of a write that was overtaken. -/
def staleWrite : ErrorInfo :=
  ⟨.staleVersion,
    "version changed concurrently; re-read the run before retrying"⟩

/-- `'{stage}' is not a known stage`. -/
def unknownStage {α : Type} (text : String) : Result α :=
  invalid ("'" ++ text ++ "' is not a known stage")

/-- The refusal of a capacity class. -/
def badCapacityClass {α : Type} : Result α :=
  invalid "capacity_class must be one of ['on_demand', 'spot']"

/-- `create_run`. -/
def createRun (tenantId : TenantArg) (jiraKey repo branch capacityClass
    traceId : String) (worktree : Option String) : Code (Result RunRow) :=
  match tenantId with
  | .other => pure (invalid "tenant_id is required")
  | .text tenant =>
    if tenant = "" then pure (invalid "tenant_id is required")
    else if jiraKey = "" ∨ repo = "" ∨ branch = "" ∨ traceId = "" then
      pure (invalid "jira_key, repo, branch, and trace_id are required")
    else if capacityClass ∉ validCapacityClasses then
      pure badCapacityClass
    else do
      let ts ← ask .nowIso
      let runId ← ask .newId
      let attemptId ← ask .newId
      let entryId ← ask .newId
      let row : RunRow :=
        { id := runId, tenantId := tenant, jiraKey := jiraKey
          repo := repo, branch := branch, worktree := worktree
          stage := .intake, execCloudProvider := none
          execRegionAz := none, execNodeId := none
          capacityClass := capacityClass, checkpointPointer := none
          traceId := traceId, currentAttemptId := none, version := 1
          createdAt := ts, updatedAt := ts }
      match ← ask (.transact (.create row attemptId entryId)) with
      | .raised e => .raise (.sql e)
      | .stale => .raise .assertion
      | .committed => do
        match ← ask (.getRun tenantId runId) with
        | none => .raise .assertion
        | some run => pure (.ok run)

/-- `get_run`. -/
def getRun (tenantId : TenantArg) (runId : String) :
    Code (Result RunRow) := do
  match ← ask (.getRun tenantId runId) with
  | none => pure .empty
  | some run => pure (.ok run)

/-- `list_runs`. -/
def listRuns (tenantId : TenantArg) (stage : Option String)
    (limit offset : Int) : Code (Result (List RunRow)) := do
  match ← ask (.listRuns tenantId stage limit offset) with
  | [] => pure .empty
  | runs => pure (.ok runs)

/-- `list_attempts`: the run and its attempts are read under one lock,
but in two statements. -/
def listAttempts (tenantId : TenantArg) (runId : String) :
    Code (Result (List AttemptRow)) := do
  match ← ask (.getRun tenantId runId) with
  | none => pure .empty
  | some _ => do
    match ← ask (.listAttempts runId tenantId) with
    | [] => pure .empty
    | attempts => pure (.ok attempts)

/-- `append_attempt`. -/
def appendAttempt (tenantId : TenantArg) (runId : String)
    (expectedVersion : Int) (reason startingStage traceId : String) :
    Code (Result AttemptRow) :=
  if reason ∉ validReasons then
    pure (invalid "reason must be one of ['initial', 're-plan', 'resumed-after-interruption', 'retry']")
  else
    match stageOf startingStage with
    | none => pure (unknownStage startingStage)
    | some start =>
      if traceId = "" then pure (invalid "trace_id is required")
      else do
        match tenantId, ← ask (.getRun tenantId runId) with
        | .text tenant, some run =>
          if run.version ≠ expectedVersion then
            pure (.fail (staleVersion expectedVersion run.version))
          else if start ≠ run.stage ∧
              run.stage.isLegalTransition start = false then
            pure (.fail ⟨.illegalTransition,
              "cannot start a new attempt at '" ++ startingStage ++
              "' from current stage '" ++ run.stage.token ++ "'"⟩)
          else do
            let ts ← ask .nowIso
            let attemptId ← ask .newId
            let entryId ← ask .newId
            match ← ask (.transact (.append tenant runId expectedVersion
                run.currentAttemptId reason start traceId ts attemptId
                entryId)) with
            | .raised e => .raise (.sql e)
            | .stale => pure (.fail staleWrite)
            | .committed => do
              let attempts ← ask (.listAttempts runId tenantId)
              match attempts.find? (·.id = attemptId.val) with
              | none => .raise .stopIteration
              | some attempt => pure (.ok attempt)
        | _, _ => pure .empty

/-- The re-read a committed write ends with. -/
def reread (tenantId : TenantArg) (runId : String) :
    Code (Result RunRow) := do
  match ← ask (.getRun tenantId runId) with
  | none => .raise .assertion
  | some updated => pure (.ok updated)

/-- `transition_stage`. -/
def transitionStage (tenantId : TenantArg) (runId : String)
    (expectedVersion : Int) (nextStage : String) : Code (Result RunRow) :=
  match stageOf nextStage with
  | none => pure (unknownStage nextStage)
  | some next => do
    match tenantId, ← ask (.getRun tenantId runId) with
    | .text tenant, some run =>
      if run.version ≠ expectedVersion then
        pure (.fail (staleVersion expectedVersion run.version))
      else if run.stage.isLegalTransition next = false then
        pure (.fail ⟨.illegalTransition, "'" ++ nextStage ++
          "' is not a legal next stage from '" ++ run.stage.token ++
          "'"⟩)
      else do
        let ts ← ask .nowIso
        let entryId ← ask .newId
        match run.currentAttemptId with
        | none => .raise .assertion
        | some current => do
          match ← ask (.transact (.transition tenant runId
              expectedVersion current next ts entryId)) with
          | .raised e => .raise (.sql e)
          | .stale => pure (.fail staleWrite)
          | .committed => reread tenantId runId
    | _, _ => pure .empty

/-- `_write_fields`. -/
def writeFields (tenantId : TenantArg) (runId : String)
    (expectedVersion : Int) (fields : Fields) : Code (Result RunRow) := do
  match tenantId, ← ask (.getRun tenantId runId) with
  | .text tenant, some run =>
    if run.version ≠ expectedVersion then
      pure (.fail (staleVersion expectedVersion run.version))
    else do
      let ts ← ask .nowIso
      match ← ask (.transact (.write tenant runId expectedVersion fields
          ts)) with
      | .raised e => .raise (.sql e)
      | .stale => pure (.fail staleWrite)
      | .committed => reread tenantId runId
  | _, _ => pure .empty

/-- `write_checkpoint`. -/
def writeCheckpoint (tenantId : TenantArg) (runId : String)
    (expectedVersion : Int) (checkpointPointer : String)
    (capacityClass : Option String) : Code (Result RunRow) :=
  if checkpointPointer = "" then
    pure (invalid "checkpoint_pointer is required")
  else if ∃ c ∈ capacityClass, c ∉ validCapacityClasses then
    pure badCapacityClass
  else
    writeFields tenantId runId expectedVersion
      { checkpointPointer := some checkpointPointer
        capacityClass := capacityClass }

/-- `write_execution_location`. -/
def writeExecutionLocation (tenantId : TenantArg) (runId : String)
    (expectedVersion : Int) (cloudProvider regionAz nodeId : Option String) :
    Code (Result RunRow) :=
  if cloudProvider = none ∧ regionAz = none ∧ nodeId = none then
    pure (invalid
      "at least one of cloud_provider, region_az, node_id is required")
  else
    writeFields tenantId runId expectedVersion
      { execCloudProvider := cloudProvider, execRegionAz := regionAz
        execNodeId := nodeId }

-- ==== the machine

/-- The methods, with their arguments. -/
inductive Call : Type where
  | createRun (tenantId : TenantArg) (jiraKey repo branch capacityClass
      traceId : String) (worktree : Option String)
  | getRun (tenantId : TenantArg) (runId : String)
  | listRuns (tenantId : TenantArg) (stage : Option String)
      (limit offset : Int)
  | listAttempts (tenantId : TenantArg) (runId : String)
  | appendAttempt (tenantId : TenantArg) (runId : String)
      (expectedVersion : Int) (reason startingStage traceId : String)
  | transitionStage (tenantId : TenantArg) (runId : String)
      (expectedVersion : Int) (nextStage : String)
  | writeCheckpoint (tenantId : TenantArg) (runId : String)
      (expectedVersion : Int) (checkpointPointer : String)
      (capacityClass : Option String)
  | writeExecutionLocation (tenantId : TenantArg) (runId : String)
      (expectedVersion : Int) (cloudProvider regionAz nodeId : Option String)
  deriving DecidableEq, Repr

/-- The tenant a call is made for. -/
def Call.tenantId : Call → TenantArg
  | .createRun t .. => t
  | .getRun t _ => t
  | .listRuns t .. => t
  | .listAttempts t _ => t
  | .appendAttempt t .. => t
  | .transitionStage t .. => t
  | .writeCheckpoint t .. => t
  | .writeExecutionLocation t .. => t

/-- What a call returns. -/
inductive Outcome : Type where
  | run (r : Result RunRow)
  | runs (r : Result (List RunRow))
  | attempt (r : Result AttemptRow)
  | attempts (r : Result (List AttemptRow))
  deriving DecidableEq, Repr

/-- Return a method's result. -/
def returning {α : Type} (f : α → Outcome) (m : Code α) :
    Code (Ctl Empty Outcome) := do
  let r ← m
  pure (.done (f r))

/-- The program of each call. -/
def entry : Call → Code (Ctl Empty Outcome)
  | .createRun t key repo branch cls trace worktree =>
    returning .run (createRun t key repo branch cls trace worktree)
  | .getRun t id => returning .run (getRun t id)
  | .listRuns t stage limit offset =>
    returning .runs (listRuns t stage limit offset)
  | .listAttempts t id => returning .attempts (listAttempts t id)
  | .appendAttempt t id v reason start trace =>
    returning .attempt (appendAttempt t id v reason start trace)
  | .transitionStage t id v next =>
    returning .run (transitionStage t id v next)
  | .writeCheckpoint t id v pointer cls =>
    returning .run (writeCheckpoint t id v pointer cls)
  | .writeExecutionLocation t id v cloud region node =>
    returning .run (writeExecutionLocation t id v cloud region node)

/-- Service instances over one database. -/
def machine : Machine Resp Env Answer World Err Call Empty Outcome where
  exec := exec
  decode := decode
  onCall := fun w _ => w
  onStop := fun w => w
  entry := entry
  body := fun st => nomatch st

/-- A freshly migrated database. -/
def Initial (w : World) : Prop := w = ⟨.empty, []⟩

/-- System states of `Pid` service processes. -/
abbrev State (Pid : Type) : Type :=
  Sys Resp World Err Call Empty Outcome Pid

/-- The actions of such a system. -/
abbrev Act (Pid : Type) : Type := Action Pid Answer Call

end Service

-- ==== runs, written down

namespace Service

/-- Steps of a process, with the answers of its requests. -/
def steps {Pid : Type} (p : Pid) (answers : List Answer) : List (Act Pid) :=
  answers.map (.step p)

/-- A call from its start to its return. -/
def calling {Pid : Type} (p : Pid) (c : Call) (answers : List Answer) :
    List (Act Pid) :=
  .call p c :: steps p (answers ++ [.auto])

/-- A tenant creates a run. -/
def opening : List (Act Bool) :=
  calling false
    (.createRun (.text "acme") "KEY-1" "repo" "branch" "spot" "trace" none)
    [.time "t1", .id "run", .id "first", .id "entry", .auto, .auto]

section

variable {Pid : Type} [DecidableEq Pid]

/-- Play a script on a fresh database and test the state it ends in. -/
def plays (chk : State Pid → Act Pid → Bool) (script : List (Act Pid))
    (test : State Pid → Bool) : Bool :=
  (machine.run chk script (Sys.idle ⟨.empty, []⟩)).any test

theorem reach_of_plays {cond : State Pid → Act Pid → Prop}
    (chk : State Pid → Act Pid → Bool)
    (hchk : ∀ s a, chk s a = true → cond s a) (script : List (Act Pid))
    (test : State Pid → Bool) (h : plays chk script test = true) :
    ∃ s, machine.Reach Initial cond s ∧ test s = true :=
  Machine.reach_of_any hchk (show Initial _ from rfl) h

/-- Play a script, then a call and the actions after it, and test the
state before the call, its steps and the state at the end. -/
def playsCall (chk : State Pid → Act Pid → Bool) (script : List (Act Pid))
    (p : Pid) (c : Call) (acts : List (Act Pid))
    (test : State Pid × List (World × World) × State Pid → Bool) : Bool :=
  (machine.runServe chk script p c acts (Sys.idle ⟨.empty, []⟩)).any test

theorem serves_of_plays {cond : State Pid → Act Pid → Prop}
    (chk : State Pid → Act Pid → Bool)
    (hchk : ∀ s a, chk s a = true → cond s a) (script : List (Act Pid))
    (p : Pid) (c : Call) (acts : List (Act Pid))
    (test : State Pid × List (World × World) × State Pid → Bool)
    (h : playsCall chk script p c acts test = true) :
    ∃ s₀ ws s, machine.Reach Initial cond s₀ ∧
      machine.Serves cond p c s₀ ws s ∧ test (s₀, ws, s) = true :=
  Machine.serves_of_any hchk (show Initial _ from rfl) h

end

end Service

end SdlcOs.Registry
