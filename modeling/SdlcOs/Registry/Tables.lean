/-
The Run Registry's store: its three tables (migrations/0001_init.sql)
and the statements the service runs on them (repository.py).

# Tables

A table is the list of its rows in insertion order. A primary key that
is taken and a foreign key that names nothing make an insert fail, which
is all the schema can reject here: the CHECK constraints repeat what the
service has validated, and `Stage` has no value outside the vocabulary.

# Tenants

A `tenant_id` argument may be anything a caller passes, so it is a
`TenantArg`; in a column it is text. `_is_valid_tenant_id` accepts only
non-empty text.

# Transactions

A write is a transaction from its first statement to its commit or
rollback, and the database serialises those, so a `Txn` is one atomic
step. The ids and the timestamp it inserts are drawn before it.
-/
import Mathlib.Data.List.Sort
import Mathlib.Data.List.Defs
import SdlcOs.Registry.Run

namespace SdlcOs.Registry

-- ==== rows

/-- A row of `runs`. -/
structure RunRow where
  id : String
  tenantId : String
  jiraKey : String
  repo : String
  branch : String
  worktree : Option String
  stage : Stage
  execCloudProvider : Option String
  execRegionAz : Option String
  execNodeId : Option String
  capacityClass : String
  checkpointPointer : Option String
  traceId : String
  currentAttemptId : Option String
  version : Int
  createdAt : String
  updatedAt : String
  deriving DecidableEq, Repr

/-- A row of `attempts`. -/
structure AttemptRow where
  id : String
  runId : String
  tenantId : String
  attemptNumber : Nat
  reason : String
  startingStage : Stage
  traceId : String
  startTs : String
  endTs : Option String
  createdAt : String
  deriving DecidableEq, Repr

/-- A row of `stage_history`. -/
structure HistoryRow where
  id : String
  runId : String
  attemptId : String
  tenantId : String
  stage : Stage
  enteredAt : String
  exitedAt : Option String
  deriving DecidableEq, Repr

/-- The database. -/
structure Db where
  runs : List RunRow
  attempts : List AttemptRow
  stageHistory : List HistoryRow
  deriving DecidableEq, Repr

/-- A freshly migrated database. -/
def Db.empty : Db := ⟨[], [], []⟩

-- ==== arguments

/-- A `tenant_id` as a caller passes it: text, or a value of another
type. -/
inductive TenantArg : Type where
  | text (s : String)
  | other
  deriving DecidableEq, Repr

/-- `_is_valid_tenant_id`. -/
def TenantArg.isValid : TenantArg → Bool
  | .text s => s ≠ ""
  | .other => false

/-- The columns an `update_run` sets; what is left out stays. -/
structure Fields where
  stage : Option Stage := none
  currentAttemptId : Option String := none
  traceId : Option String := none
  checkpointPointer : Option String := none
  capacityClass : Option String := none
  execCloudProvider : Option String := none
  execRegionAz : Option String := none
  execNodeId : Option String := none
  deriving DecidableEq, Repr

/-- What sqlite3 raises here. -/
inductive SqlError : Type where
  | uniqueViolation
  | foreignKeyViolation
  deriving DecidableEq, Repr

-- ==== row updates

/-- Seal a row of `attempts`. -/
def AttemptRow.close (attemptId tenantId ts : String) (a : AttemptRow) :
    AttemptRow :=
  if a.id = attemptId ∧ a.tenantId = tenantId ∧ a.endTs = none then
    { a with endTs := some ts }
  else a

/-- Close a row of `stage_history`. -/
def HistoryRow.close (runId tenantId ts : String) (h : HistoryRow) :
    HistoryRow :=
  if h.runId = runId ∧ h.tenantId = tenantId ∧ h.exitedAt = none then
    { h with exitedAt := some ts }
  else h

/-- The row with some columns set, its version bumped. -/
def RunRow.set (r : RunRow) (fields : Fields) (ts : String) : RunRow :=
  { r with
    stage := fields.stage.getD r.stage
    currentAttemptId := fields.currentAttemptId <|> r.currentAttemptId
    traceId := fields.traceId.getD r.traceId
    checkpointPointer := fields.checkpointPointer <|> r.checkpointPointer
    capacityClass := fields.capacityClass.getD r.capacityClass
    execCloudProvider := fields.execCloudProvider <|> r.execCloudProvider
    execRegionAz := fields.execRegionAz <|> r.execRegionAz
    execNodeId := fields.execNodeId <|> r.execNodeId
    version := r.version + 1
    updatedAt := ts }

/-- The rows an `update_run` hits. -/
def RunRow.hit (tenantId runId : String) (expectedVersion : Int)
    (r : RunRow) : Bool :=
  r.id = runId ∧ r.tenantId = tenantId ∧ r.version = expectedVersion

@[simp] theorem AttemptRow.close_runId (id tenant ts : String)
    (a : AttemptRow) : (a.close id tenant ts).runId = a.runId := by
  unfold AttemptRow.close
  split <;> rfl

@[simp] theorem AttemptRow.close_tenantId (id tenant ts : String)
    (a : AttemptRow) : (a.close id tenant ts).tenantId = a.tenantId := by
  unfold AttemptRow.close
  split <;> rfl

@[simp] theorem AttemptRow.close_id (id tenant ts : String)
    (a : AttemptRow) : (a.close id tenant ts).id = a.id := by
  unfold AttemptRow.close
  split <;> rfl

@[simp] theorem AttemptRow.close_attemptNumber (id tenant ts : String)
    (a : AttemptRow) :
    (a.close id tenant ts).attemptNumber = a.attemptNumber := by
  unfold AttemptRow.close
  split <;> rfl

@[simp] theorem HistoryRow.close_id (id tenant ts : String)
    (h : HistoryRow) : (h.close id tenant ts).id = h.id := by
  unfold HistoryRow.close
  split <;> rfl

@[simp] theorem HistoryRow.close_runId (id tenant ts : String)
    (h : HistoryRow) : (h.close id tenant ts).runId = h.runId := by
  unfold HistoryRow.close
  split <;> rfl

@[simp] theorem HistoryRow.close_tenantId (id tenant ts : String)
    (h : HistoryRow) : (h.close id tenant ts).tenantId = h.tenantId := by
  unfold HistoryRow.close
  split <;> rfl

@[simp] theorem HistoryRow.close_attemptId (id tenant ts : String)
    (h : HistoryRow) : (h.close id tenant ts).attemptId = h.attemptId := by
  unfold HistoryRow.close
  split <;> rfl

@[simp] theorem HistoryRow.close_stage (id tenant ts : String)
    (h : HistoryRow) : (h.close id tenant ts).stage = h.stage := by
  unfold HistoryRow.close
  split <;> rfl

namespace Db

-- ==== queries

/-- `get_run`. -/
def getRun (db : Db) (tenantId : TenantArg) (runId : String) :
    Option RunRow :=
  if tenantId.isValid = false ∨ runId = "" then none
  else db.runs.find? fun r => r.id = runId ∧ .text r.tenantId = tenantId

/-- `LIMIT ? OFFSET ?`: a negative limit is none, a negative offset is
zero. -/
def page {α : Type} (limit offset : Int) (rows : List α) : List α :=
  let rest := rows.drop offset.toNat
  if limit < 0 then rest else rest.take limit.toNat

/-- `list_runs`: latest first. -/
def listRuns (db : Db) (tenantId : TenantArg) (stage : Option String)
    (limit offset : Int) : List RunRow :=
  if tenantId.isValid = false then []
  else page limit offset
    ((db.runs.filter fun r => .text r.tenantId = tenantId ∧
      (stage = none ∨ stage = some r.stage.token)).insertionSort
        fun a b => b.createdAt ≤ a.createdAt)

/-- `count_attempts`. -/
def countAttempts (db : Db) (runId tenantId : String) : Nat :=
  db.attempts.countP fun a => a.runId = runId ∧ a.tenantId = tenantId

/-- `list_attempts`. -/
def listAttempts (db : Db) (runId : String) (tenantId : TenantArg) :
    List AttemptRow :=
  if tenantId.isValid = false ∨ runId = "" then []
  else (db.attempts.filter fun a =>
    a.runId = runId ∧ .text a.tenantId = tenantId).insertionSort
      fun a b => a.attemptNumber ≤ b.attemptNumber

-- ==== statements

/-- `insert_run`. -/
def insertRun (db : Db) (row : RunRow) : Except SqlError Db :=
  if db.runs.any (·.id = row.id) then .error .uniqueViolation
  else .ok { db with runs := db.runs ++ [row] }

/-- `insert_attempt`. -/
def insertAttempt (db : Db) (row : AttemptRow) : Except SqlError Db :=
  if db.attempts.any (·.id = row.id) then .error .uniqueViolation
  else if ¬ db.runs.any (·.id = row.runId) then .error .foreignKeyViolation
  else .ok { db with attempts := db.attempts ++ [row] }

/-- `insert_stage_history`. -/
def insertStageHistory (db : Db) (row : HistoryRow) : Except SqlError Db :=
  if db.stageHistory.any (·.id = row.id) then .error .uniqueViolation
  else if ¬ db.runs.any (·.id = row.runId) ∨
      ¬ db.attempts.any (·.id = row.attemptId) then
    .error .foreignKeyViolation
  else .ok { db with stageHistory := db.stageHistory ++ [row] }

/-- `close_attempt`. -/
def closeAttempt (db : Db) (attemptId tenantId ts : String) : Db :=
  { db with
    attempts := db.attempts.map (AttemptRow.close attemptId tenantId ts) }

/-- `close_open_stage_history`. -/
def closeOpenStageHistory (db : Db) (runId tenantId ts : String) : Db :=
  { db with
    stageHistory := db.stageHistory.map (HistoryRow.close runId tenantId ts) }

/-- `update_run`: the table after it, and the number of rows updated. -/
def updateRun (db : Db) (tenantId runId : String) (expectedVersion : Int)
    (fields : Fields) (ts : String) : Db × Nat :=
  ({ db with
      runs := db.runs.map fun r =>
        if r.hit tenantId runId expectedVersion then r.set fields ts
        else r },
    db.runs.countP (RunRow.hit tenantId runId expectedVersion))

/-- The `UPDATE runs SET current_attempt_id` of `create_run`. -/
def setCurrentAttempt (db : Db) (attemptId runId tenantId : String) : Db :=
  { db with
    runs := db.runs.map fun r =>
      if r.id = runId ∧ r.tenantId = tenantId then
        { r with currentAttemptId := some attemptId }
      else r }

end Db

-- ==== transactions

/-- The write transactions of the service, with the values drawn for
them. -/
inductive Txn : Type where
  | create (row : RunRow) (attemptId entryId : String)
  | append (tenantId runId : String) (expectedVersion : Int)
      (currentAttemptId : Option String) (reason : String)
      (startingStage : Stage) (traceId ts attemptId entryId : String)
  | transition (tenantId runId : String) (expectedVersion : Int)
      (currentAttemptId : String) (nextStage : Stage) (ts entryId : String)
  | write (tenantId runId : String) (expectedVersion : Int)
      (fields : Fields) (ts : String)
  deriving DecidableEq, Repr

/-- How a transaction ended. -/
inductive TxnResult : Type where
  | committed
  | stale
  | raised (error : SqlError)
  deriving DecidableEq, Repr

namespace Db

/-- The statements of `create_run`. -/
def create (db : Db) (row : RunRow) (attemptId entryId : String) :
    Except SqlError Db := do
  let db ← db.insertRun row
  let db ← db.insertAttempt
    { id := attemptId, runId := row.id, tenantId := row.tenantId
      attemptNumber := 1, reason := "initial", startingStage := .intake
      traceId := row.traceId, startTs := row.createdAt, endTs := none
      createdAt := row.createdAt }
  let db ← db.insertStageHistory
    { id := entryId, runId := row.id, attemptId := attemptId
      tenantId := row.tenantId, stage := .intake, enteredAt := row.createdAt
      exitedAt := none }
  pure (db.setCurrentAttempt attemptId row.id row.tenantId)

/-- The statements of `append_attempt`, with the rows updated at the
end. -/
def append (db : Db) (tenantId runId : String) (expectedVersion : Int)
    (currentAttemptId : Option String) (reason : String)
    (startingStage : Stage) (traceId ts attemptId entryId : String) :
    Except SqlError (Db × Nat) := do
  -- `if run.current_attempt_id`
  let db := match currentAttemptId with
    | some current =>
      if current = "" then db else db.closeAttempt current tenantId ts
    | none => db
  let db := db.closeOpenStageHistory runId tenantId ts
  let attemptNumber := db.countAttempts runId tenantId + 1
  let db ← db.insertAttempt
    { id := attemptId, runId := runId, tenantId := tenantId
      attemptNumber := attemptNumber, reason := reason
      startingStage := startingStage, traceId := traceId, startTs := ts
      endTs := none, createdAt := ts }
  let db ← db.insertStageHistory
    { id := entryId, runId := runId, attemptId := attemptId
      tenantId := tenantId, stage := startingStage, enteredAt := ts
      exitedAt := none }
  pure (db.updateRun tenantId runId expectedVersion
    { stage := some startingStage, currentAttemptId := some attemptId
      traceId := some traceId } ts)

/-- The statements of `transition_stage`. -/
def transition (db : Db) (tenantId runId : String) (expectedVersion : Int)
    (currentAttemptId : String) (nextStage : Stage) (ts entryId : String) :
    Except SqlError (Db × Nat) := do
  let db := db.closeOpenStageHistory runId tenantId ts
  let db ← db.insertStageHistory
    { id := entryId, runId := runId, attemptId := currentAttemptId
      tenantId := tenantId, stage := nextStage, enteredAt := ts
      exitedAt := none }
  let db := if nextStage ∈ Stage.terminalStages then
      db.closeAttempt currentAttemptId tenantId ts
    else db
  pure (db.updateRun tenantId runId expectedVersion
    { stage := some nextStage } ts)

/-- Commit, or roll back: an update that hit no row and an exception both
leave the database as it was. -/
def settle (db : Db) : Except SqlError (Db × Nat) → Db × TxnResult
  | .error e => (db, .raised e)
  | .ok (db', rowcount) =>
    if rowcount = 0 then (db, .stale) else (db', .committed)

/-- Run a transaction. -/
def transact (db : Db) : Txn → Db × TxnResult
  | .create row attemptId entryId =>
    db.settle ((db.create row attemptId entryId).map fun db' => (db', 1))
  | .append tenantId runId v current reason start trace ts attemptId entryId =>
    db.settle (db.append tenantId runId v current reason start trace ts
      attemptId entryId)
  | .transition tenantId runId v current next ts entryId =>
    db.settle (db.transition tenantId runId v current next ts entryId)
  | .write tenantId runId v fields ts =>
    db.settle (.ok (db.updateRun tenantId runId v fields ts))

-- ==== inversion

/-- The rows of `runs` after an update. -/
def updatedRuns (db : Db) (tenantId runId : String) (v : Int)
    (fields : Fields) (ts : String) : List RunRow :=
  db.runs.map fun r => if r.hit tenantId runId v then r.set fields ts else r

/-- The rows of `attempts` after the current one, if there is one, was
sealed. -/
def sealedAttempts (db : Db) (current : Option String) (tenantId ts : String) :
    List AttemptRow :=
  match current with
  | some id =>
    if id = "" then db.attempts
    else db.attempts.map (AttemptRow.close id tenantId ts)
  | none => db.attempts

/-- The rows of `stage_history` after the open ones of a run were
closed. -/
def closedHistory (db : Db) (runId tenantId ts : String) :
    List HistoryRow :=
  db.stageHistory.map (HistoryRow.close runId tenantId ts)

/-- Everything a committed transaction does. -/
inductive Commits (db : Db) : Txn → Db → Prop
  | create {row : RunRow} {attemptId entryId : String}
      (hrun : ∀ r ∈ db.runs, r.id ≠ row.id)
      (hattempt : ∀ a ∈ db.attempts, a.id ≠ attemptId) :
      Commits db (.create row attemptId entryId)
        { runs := db.runs ++ [{ row with currentAttemptId := some attemptId }]
          attempts := db.attempts ++
            [{ id := attemptId, runId := row.id, tenantId := row.tenantId
               attemptNumber := 1, reason := "initial"
               startingStage := .intake, traceId := row.traceId
               startTs := row.createdAt, endTs := none
               createdAt := row.createdAt }]
          stageHistory := db.stageHistory ++
            [{ id := entryId, runId := row.id, attemptId := attemptId
               tenantId := row.tenantId, stage := .intake
               enteredAt := row.createdAt, exitedAt := none }] }
  | append {tenantId runId : String} {v : Int} {current : Option String}
      {reason : String} {start : Stage} {trace ts attemptId entryId : String}
      (hhit : ∃ r ∈ db.runs, r.hit tenantId runId v = true)
      (hattempt : ∀ a ∈ db.attempts, a.id ≠ attemptId) :
      Commits db (.append tenantId runId v current reason start trace ts
          attemptId entryId)
        { runs := db.updatedRuns tenantId runId v
            { stage := some start, currentAttemptId := some attemptId
              traceId := some trace } ts
          attempts := db.sealedAttempts current tenantId ts ++
            [{ id := attemptId, runId := runId, tenantId := tenantId
               attemptNumber := db.countAttempts runId tenantId + 1
               reason := reason, startingStage := start, traceId := trace
               startTs := ts, endTs := none, createdAt := ts }]
          stageHistory := db.closedHistory runId tenantId ts ++
            [{ id := entryId, runId := runId, attemptId := attemptId
               tenantId := tenantId, stage := start, enteredAt := ts
               exitedAt := none }] }
  | transition {tenantId runId : String} {v : Int} {current : String}
      {next : Stage} {ts entryId : String}
      (hhit : ∃ r ∈ db.runs, r.hit tenantId runId v = true) :
      Commits db (.transition tenantId runId v current next ts entryId)
        { runs := db.updatedRuns tenantId runId v { stage := some next } ts
          attempts := if next ∈ Stage.terminalStages then
              db.attempts.map (AttemptRow.close current tenantId ts)
            else db.attempts
          stageHistory := db.closedHistory runId tenantId ts ++
            [{ id := entryId, runId := runId, attemptId := current
               tenantId := tenantId, stage := next, enteredAt := ts
               exitedAt := none }] }
  | write {tenantId runId : String} {v : Int} {fields : Fields}
      {ts : String} (hhit : ∃ r ∈ db.runs, r.hit tenantId runId v = true) :
      Commits db (.write tenantId runId v fields ts)
        { db with runs := db.updatedRuns tenantId runId v fields ts }

theorem settle_refused {db : Db} {r : Except SqlError (Db × Nat)}
    (h : (db.settle r).2 ≠ .committed) : (db.settle r).1 = db := by
  unfold settle at h ⊢
  split
  · rfl
  · next db' n =>
    by_cases hn : n = 0
    · rw [if_pos hn]
    · simp only [if_neg hn] at h
      exact absurd rfl h

theorem settle_committed {db : Db} {r : Except SqlError (Db × Nat)}
    (h : (db.settle r).2 = .committed) :
    ∃ n, r = .ok ((db.settle r).1, n) ∧ n ≠ 0 := by
  unfold settle at h ⊢
  split at h
  · cases h
  · next db' n =>
    by_cases hn : n = 0
    · rw [if_pos hn] at h
      cases h
    · exact ⟨n, by simp only [if_neg hn], hn⟩

theorem transact_refused {db : Db} {txn : Txn}
    (h : (db.transact txn).2 ≠ .committed) : (db.transact txn).1 = db := by
  cases txn <;> exact settle_refused h

theorem insertRun_inv {db db' : Db} {row : RunRow}
    (h : db.insertRun row = .ok db') :
    (∀ r ∈ db.runs, r.id ≠ row.id) ∧
      db' = { db with runs := db.runs ++ [row] } := by
  unfold insertRun at h
  split at h
  · cases h
  · next hfresh =>
    injection h with h
    exact ⟨by simpa using hfresh, h.symm⟩

theorem insertAttempt_inv {db db' : Db} {row : AttemptRow}
    (h : db.insertAttempt row = .ok db') :
    (∀ a ∈ db.attempts, a.id ≠ row.id) ∧
      db' = { db with attempts := db.attempts ++ [row] } := by
  unfold insertAttempt at h
  split at h
  · cases h
  · next hfresh =>
    split at h
    · cases h
    · injection h with h
      exact ⟨by simpa using hfresh, h.symm⟩

theorem insertStageHistory_inv {db db' : Db} {row : HistoryRow}
    (h : db.insertStageHistory row = .ok db') :
    db' = { db with stageHistory := db.stageHistory ++ [row] } := by
  unfold insertStageHistory at h
  split at h
  · cases h
  · split at h
    · cases h
    · injection h with h
      exact h.symm

theorem bind_ok_inv {α β : Type} {m : Except SqlError α}
    {f : α → Except SqlError β} {b : β} (h : (m >>= f) = .ok b) :
    ∃ a, m = .ok a ∧ f a = .ok b := by
  cases m with
  | error e => cases h
  | ok a => exact ⟨a, rfl, h⟩

theorem bind_ok {α β : Type} {m : Except SqlError α}
    {f : α → Except SqlError β} {a : α} {b : β} (hm : m = .ok a)
    (hf : f a = .ok b) : (m >>= f) = .ok b := by
  subst hm
  exact hf

theorem map_ok_inv {α β : Type} {m : Except SqlError α} {f : α → β} {b : β}
    (h : m.map f = .ok b) : ∃ a, m = .ok a ∧ f a = b := by
  cases m with
  | error e => cases h
  | ok a => exact ⟨a, rfl, Except.ok.inj h⟩

theorem create_inv {db db' : Db} {row : RunRow} {attemptId entryId : String}
    (h : db.create row attemptId entryId = .ok db') :
    db.Commits (.create row attemptId entryId) db' := by
  unfold create at h
  obtain ⟨db₁, h₁, h⟩ := bind_ok_inv h
  obtain ⟨db₂, h₂, h⟩ := bind_ok_inv h
  obtain ⟨db₃, h₃, h⟩ := bind_ok_inv h
  obtain ⟨hrun, rfl⟩ := insertRun_inv h₁
  obtain ⟨hattempt, rfl⟩ := insertAttempt_inv h₂
  obtain rfl := insertStageHistory_inv h₃
  injection h with h
  -- the update finds the new row only: the id was free
  have hold : db.runs.map (fun r =>
      if r.id = row.id ∧ r.tenantId = row.tenantId then
        { r with currentAttemptId := some attemptId }
      else r) = db.runs := by
    refine (List.map_congr_left fun r hr => ?_).trans (List.map_id _)
    exact if_neg fun heq => hrun r hr heq.1
  have hcommits : db.Commits (.create row attemptId entryId) _ :=
    .create hrun hattempt
  rw [← h]
  unfold setCurrentAttempt
  rw [List.map_append, hold]
  simpa using hcommits

theorem countP_hit {db : Db} {tenantId runId : String} {v : Int}
    (h : db.runs.countP (RunRow.hit tenantId runId v) ≠ 0) :
    ∃ r ∈ db.runs, r.hit tenantId runId v = true :=
  List.countP_pos_iff.1 (Nat.pos_of_ne_zero h)

theorem countAttempts_sealed (db : Db) (current : Option String)
    (tenantId runId ts : String) :
    (db.sealedAttempts current tenantId ts).countP
        (fun a => a.runId = runId ∧ a.tenantId = tenantId) =
      db.countAttempts runId tenantId := by
  unfold sealedAttempts countAttempts
  split
  · split
    · rfl
    · simp [List.countP_map, Function.comp_def]
  · rfl

theorem sealedAttempts_fresh {db : Db} {current : Option String}
    {tenantId ts attemptId : String}
    (h : ∀ a ∈ db.sealedAttempts current tenantId ts, a.id ≠ attemptId) :
    ∀ a ∈ db.attempts, a.id ≠ attemptId := by
  unfold sealedAttempts at h
  split at h
  · split at h
    · exact h
    · intro a ha
      have hclosed := h _ (List.mem_map_of_mem ha)
      rwa [AttemptRow.close_id] at hclosed
  · exact h

theorem seal_eq (db : Db) (current : Option String) (tenantId ts : String) :
    (match current with
      | some id => if id = "" then db else db.closeAttempt id tenantId ts
      | none => db) =
      { db with attempts := db.sealedAttempts current tenantId ts } := by
  unfold sealedAttempts
  split
  · split <;> rfl
  · rfl

theorem append_inv {db db' : Db} {tenantId runId : String} {v : Int}
    {current : Option String} {reason : String} {start : Stage}
    {trace ts attemptId entryId : String} {n : Nat} (hn : n ≠ 0)
    (h : db.append tenantId runId v current reason start trace ts attemptId
      entryId = .ok (db', n)) :
    db.Commits (.append tenantId runId v current reason start trace ts
      attemptId entryId) db' := by
  unfold append at h
  rw [seal_eq] at h
  obtain ⟨db₁, h₁, h⟩ := bind_ok_inv h
  obtain ⟨db₂, h₂, h⟩ := bind_ok_inv h
  obtain ⟨hattempt, rfl⟩ := insertAttempt_inv h₁
  obtain rfl := insertStageHistory_inv h₂
  injection h with h
  obtain ⟨rfl, rfl⟩ := Prod.mk.inj h
  have hcount := countAttempts_sealed db current tenantId runId ts
  have hfresh : ∀ a ∈ db.attempts, a.id ≠ attemptId :=
    sealedAttempts_fresh hattempt
  have hhit : ∃ r ∈ db.runs, r.hit tenantId runId v = true := countP_hit hn
  have hcommits : db.Commits (.append tenantId runId v current reason start
    trace ts attemptId entryId) _ := .append hhit hfresh
  rw [← hcount] at hcommits
  exact hcommits

theorem transition_inv {db db' : Db} {tenantId runId : String} {v : Int}
    {current : String} {next : Stage} {ts entryId : String} {n : Nat}
    (hn : n ≠ 0)
    (h : db.transition tenantId runId v current next ts entryId =
      .ok (db', n)) :
    db.Commits (.transition tenantId runId v current next ts entryId)
      db' := by
  unfold transition at h
  obtain ⟨db₁, h₁, h⟩ := bind_ok_inv h
  obtain rfl := insertStageHistory_inv h₁
  injection h with h
  obtain ⟨rfl, rfl⟩ := Prod.mk.inj h
  by_cases hterm : next ∈ Stage.terminalStages
  · rw [if_pos hterm] at hn ⊢
    have hhit : ∃ r ∈ db.runs, r.hit tenantId runId v = true := countP_hit hn
    have hcommits : db.Commits (.transition tenantId runId v current next ts
      entryId) _ := .transition hhit
    rw [if_pos hterm] at hcommits
    exact hcommits
  · rw [if_neg hterm] at hn ⊢
    have hhit : ∃ r ∈ db.runs, r.hit tenantId runId v = true := countP_hit hn
    have hcommits : db.Commits (.transition tenantId runId v current next ts
      entryId) _ := .transition hhit
    rw [if_neg hterm] at hcommits
    exact hcommits

theorem transact_committed {db : Db} {txn : Txn}
    (h : (db.transact txn).2 = .committed) :
    db.Commits txn (db.transact txn).1 := by
  cases txn with
  | create row attemptId entryId =>
    obtain ⟨n, hr, hn⟩ := settle_committed h
    obtain ⟨db', hrow, heq⟩ := map_ok_inv hr
    exact create_inv (hrow.trans (congrArg _ (Prod.mk.inj heq).1))
  | append tenantId runId v current reason start trace ts attemptId entryId =>
    obtain ⟨n, hr, hn⟩ := settle_committed h
    exact append_inv hn hr
  | transition tenantId runId v current next ts entryId =>
    obtain ⟨n, hr, hn⟩ := settle_committed h
    exact transition_inv hn hr
  | write tenantId runId v fields ts =>
    obtain ⟨n, hr, hn⟩ := settle_committed h
    injection hr with hr
    obtain ⟨hdb, rfl⟩ := Prod.mk.inj hr
    have hcommits : db.Commits (.write tenantId runId v fields ts) _ :=
      .write (countP_hit hn)
    unfold transact
    rw [← hdb]
    exact hcommits

end Db

end SdlcOs.Registry
