/-
The metrics of a tenant's runs (evaluation-harness: metrics/cost.py,
metrics/cycle_time.py, metrics/success.py, task_classification.py).

A report asks the registry for a tenant's runs, ten thousand at most, and
for the attempts of each (`dataOf`); nothing is written between its
requests. Numbers are rational and nothing is rounded. What `parse_iso`
makes of a text, in seconds, is the clock's; of the empty text it makes
nothing.
-/
import Mathlib.Algebra.Order.Ring.Rat
import SdlcOs.Effects.Complete
import SdlcOs.Registry.Service

namespace SdlcOs.Evaluation

open Effects
open Registry
open Registry.Service (Code Req Env World machine)

-- ==== the registry

/-- An environment that is asked for nothing. -/
def unasked (_ : Log Service.Resp) : (e : Req) → Env e
  | .getRun .. => ()
  | .listRuns .. => ()
  | .listAttempts .. => ()
  | .transact _ => ()
  | .nowIso => ""
  | .newId => ⟨"id", by decide⟩

/-- `result.data if result.is_ok else []`. -/
def dataOf {α : Type} (w : World) (m : Code (Result (List α))) : List α :=
  match (machine.complete unasked m [] w).2 with
  | .ok (.ok data) => data
  | _ => []

/-- The runs that a report lists. -/
def listed (w : World) (tenantId : TenantArg) : List RunRow :=
  dataOf w (Service.listRuns tenantId none 10000 0)

/-- `sorted(attempts, key=lambda a: a.attempt_number)`, of a run's. -/
def ordered (w : World) (tenantId : TenantArg) (run : RunRow) :
    List AttemptRow :=
  (dataOf w (Service.listAttempts tenantId run.id)).insertionSort
    fun a b => a.attemptNumber ≤ b.attemptNumber

/-- `run.stage == stages.COMPLETED`. -/
def isCompleted (run : RunRow) : Bool := run.stage = .completed

-- ==== times

/-- `parse_iso`, in seconds. -/
structure Clock where
  parseIso : String → Option ℚ
  empty : parseIso "" = none

/-- A `ValueError`: with a message, or of a text that is no timestamp. -/
inductive Raised : Type where
  | valueError (message : String)
  | isoformat (text : String)
  deriving DecidableEq, Repr

def Clock.parse (C : Clock) (ts : String) : Except Raised ℚ :=
  match C.parseIso ts with
  | some x => .ok x
  | none => .error (.isoformat ts)

/-- A timestamp that is there. -/
def truthy (ts : Option String) : Option String := ts.filter (· ≠ "")

-- ==== cost

/-- `CostReport`. -/
structure CostReport where
  tenantId : TenantArg
  completedTaskCount : Nat
  totalCost : ℚ
  completedTaskCost : ℚ
  discardedCost : ℚ
  costPerCompletedTask : Option ℚ

/-- What the loop adds up. -/
structure Spend where
  total : ℚ
  completed : ℚ
  discarded : ℚ
  count : Nat

section Cost

variable (costForAttempt : AttemptRow → ℚ)

/-- The attempts of a run, the last of which is final. -/
def spendAttempts (completed : Bool) : List AttemptRow → Spend → Spend
  | [], s => s
  | attempt :: rest, s =>
    let cost := costForAttempt attempt
    spendAttempts completed rest
      (if completed && rest.isEmpty then
        { s with total := s.total + cost
                 completed := s.completed + cost }
      else
        { s with total := s.total + cost
                 discarded := s.discarded + cost })

/-- One run. -/
def spendRun (w : World) (tenantId : TenantArg) (s : Spend) (run : RunRow) :
    Spend :=
  if (ordered w tenantId run).isEmpty then s
  else spendAttempts costForAttempt (isCompleted run)
    (ordered w tenantId run)
    (if isCompleted run then { s with count := s.count + 1 } else s)

/-- `compute_cost_per_completed_task`. -/
def computeCostPerCompletedTask (w : World) (tenantId : TenantArg) :
    CostReport :=
  let s := (listed w tenantId).foldl (spendRun costForAttempt w tenantId)
    ⟨0, 0, 0, 0⟩
  { tenantId := tenantId
    completedTaskCount := s.count
    totalCost := s.total
    completedTaskCost := s.completed
    discardedCost := s.discarded
    costPerCompletedTask :=
      if s.count = 0 then none else some (s.total / s.count) }

end Cost

-- ==== cycle time

/-- `CycleTimeEntry`. -/
structure CycleTimeEntry where
  runId : String
  jiraKey : String
  hours : ℚ

/-- `CycleTimeReport`. -/
structure CycleTimeReport where
  tenantId : TenantArg
  humanBaselineHours : ℚ
  entries : List CycleTimeEntry
  meanSystemHours : Option ℚ
  deltaVsBaselineHours : Option ℚ

section Times

variable (C : Clock) (w : World) (tenantId : TenantArg)

/-- The entry of a run, if it has one. -/
def cycleEntry (run : RunRow) : Except Raised (Option CycleTimeEntry) :=
  if !isCompleted run then .ok none
  else match ordered w tenantId run with
    | [] => .ok none
    | first :: rest =>
      match truthy (rest.getLast?.getD first).endTs with
      | none => .ok none
      | some endTs => do
        let finish ← C.parse endTs
        let start ← C.parse first.startTs
        .ok (some ⟨run.id, run.jiraKey, (finish - start) / 3600⟩)

/-- `compute_cycle_time`. -/
def computeCycleTime (humanBaselineHours : Option ℚ) :
    Except Raised CycleTimeReport :=
  match humanBaselineHours with
  | none => .error (.valueError ("human_baseline_hours is required " ++
      "(Section 20.2: cycle time is measured against an equivalent human " ++
      "baseline, never silently assumed to be zero)"))
  | some baseline =>
    if baseline < 0 then
      .error (.valueError "human_baseline_hours must be >= 0")
    else do
      let found ← (listed w tenantId).mapM (cycleEntry C w tenantId)
      let entries := found.filterMap id
      let mean : Option ℚ :=
        if entries.isEmpty then none
        else some ((entries.map (·.hours)).sum / entries.length)
      .ok
        { tenantId := tenantId
          humanBaselineHours := baseline
          entries := entries
          meanSystemHours := mean
          deltaVsBaselineHours := mean.map (· - baseline) }

-- ==== success

/-- `HorizonThresholds`. -/
structure HorizonThresholds where
  attemptCount : Int := 3
  elapsedHours : ℚ := 4

/-- `classify_horizon`: whether the horizon is long. `now` is the time if
the last attempt has not ended. -/
def isLongHorizon (thresholds : HorizonThresholds) (now : ℚ) :
    List AttemptRow → Except Raised Bool
  | [] => .ok false
  | first :: rest => do
    let last := rest.getLast?.getD first
    let firstStart ← C.parse first.startTs
    let finish ← match truthy last.endTs with
      | some endTs => C.parse endTs
      | none => .ok now
    .ok (thresholds.attemptCount ≤ (last.attemptNumber : Int) ||
      thresholds.elapsedHours ≤ (finish - firstStart) / 3600)

/-- What the loop counts. -/
structure Tally where
  shortTotal : Nat
  shortSuccess : Nat
  longTotal : Nat
  longSuccess : Nat

/-- `SuccessRateReport`. -/
structure SuccessRateReport where
  tenantId : TenantArg
  overallSuccessRate : ℚ
  overallCount : Nat
  shortTaskSuccessRate : Option ℚ
  shortTaskCount : Nat
  longHorizonSuccessRate : Option ℚ
  longHorizonCount : Nat

/-- One run. -/
def tallyRun (thresholds : HorizonThresholds) (now : RunRow → ℚ)
    (reworkRunIds : List String) (t : Tally) (run : RunRow) :
    Except Raised Tally := do
  let isLong ← isLongHorizon C thresholds (now run) (ordered w tenantId run)
  let isSuccess := isCompleted run && !reworkRunIds.contains run.id
  if isLong then
    .ok { t with longTotal := t.longTotal + 1
                 longSuccess := t.longSuccess + isSuccess.toNat }
  else
    .ok { t with shortTotal := t.shortTotal + 1
                 shortSuccess := t.shortSuccess + isSuccess.toNat }

/-- A rate, if there is something to divide by. -/
def rate (success total : Nat) : Option ℚ :=
  if total = 0 then none else some (success / total)

/-- `compute_task_success_rate`. -/
def computeTaskSuccessRate (reworkRunIds : List String)
    (thresholds : HorizonThresholds) (now : RunRow → ℚ) :
    Except Raised SuccessRateReport := do
  let t ← (listed w tenantId).foldlM
    (tallyRun C w tenantId thresholds now reworkRunIds) ⟨0, 0, 0, 0⟩
  let overallTotal := t.shortTotal + t.longTotal
  let overallSuccess := t.shortSuccess + t.longSuccess
  .ok
    { tenantId := tenantId
      overallSuccessRate := (rate overallSuccess overallTotal).getD 0
      overallCount := overallTotal
      shortTaskSuccessRate := rate t.shortSuccess t.shortTotal
      shortTaskCount := t.shortTotal
      longHorizonSuccessRate := rate t.longSuccess t.longTotal
      longHorizonCount := t.longTotal }

end Times

end SdlcOs.Evaluation
