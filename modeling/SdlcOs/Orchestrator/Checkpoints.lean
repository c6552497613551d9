/-
Section 9.3 checkpoint triggers against Section 9.4 budgets
(orchestrator/checkpoints.py).

# Numbers

Wall-clock minutes, cost ceilings and spend are rationals where the
source has floats; no function here rounds. `lines_changed` is an
integer and not a natural: it is what a backend reports, and nothing
between the backend and this file checks its sign.

# Signatures

The source's `signature` is the text `kind:json.dumps(details)` with
sorted keys. The four shapes of `details` hold numbers, one boolean and
a list of file names, which that rendering keeps apart, so a signature
is modelled as the pair it renders: the kind and the details. `reason`
is likewise kept as the values its text interpolates.
-/
import Mathlib.Data.String.Basic
import Mathlib.Data.List.Sort
import Mathlib.Data.List.Dedup
import Mathlib.Algebra.Order.Ring.Rat

namespace SdlcOs.Orchestrator

/-- Python's `sorted(set(xs))`. -/
def sortedSet (xs : List String) : List String :=
  xs.dedup.insertionSort (fun a b => a ≤ b)

@[simp] theorem mem_sortedSet {xs : List String} {x : String} :
    x ∈ sortedSet xs ↔ x ∈ xs := by
  simp [sortedSet]

-- ==== budgets

/-- `STORY_SIZES`. -/
inductive StorySize : Type where
  | S
  | M
  | L
  | XL
  deriving DecidableEq, Repr

/-- `Budget`. The two size thresholds are naturals: the plan artifact's
schema puts their minimum at zero and no plan is stored without it. -/
structure Budget where
  storySize : StorySize
  wallClockMinutes : ℚ
  costCeilingUsd : ℚ
  sizeCheckpointLines : Nat
  sizeCheckpointFiles : Nat
  deriving DecidableEq

/-- `DEFAULT_BUDGETS`: XL is not a runnable budget. -/
def defaultBudgets : StorySize → Option Budget
  | .S => some ⟨.S, 30, 5, 150, 5⟩
  | .M => some ⟨.M, 120, 20, 400, 15⟩
  | .L => some ⟨.L, 360, 60, 800, 30⟩
  | .XL => none

/-- `TIME_COST_WARNING_FRACTION`. -/
def timeCostWarningFraction : ℚ := 4 / 5

/-- `SINGLE_FILE_LINE_MULTIPLIER`. -/
def singleFileLineMultiplier : Nat := 3

/-- `DEFAULT_STUCK_RETRY_BUDGET`. -/
def defaultStuckRetryBudget : Nat := 3

/-- `next_size_class`: the largest size is its own successor. -/
def nextSizeClass : StorySize → StorySize
  | .S => .M
  | .M => .L
  | .L => .XL
  | .XL => .XL

/-- `resolve_budget`; `none` is `XLNotRunnableError`. -/
def resolveBudget (storySize : StorySize) (crossCuttingOrHighRisk : Bool)
    (budgets : StorySize → Option Budget) : Option Budget :=
  budgets (if crossCuttingOrHighRisk then nextSizeClass storySize else storySize)

-- ==== triggers

/-- `DiffStats`. -/
structure DiffStats where
  filesTouched : List String
  linesChanged : Int
  deriving DecidableEq, Repr

/-- The kinds of checkpoint. -/
inductive TriggerKind : Type where
  | size
  | risk
  | timeCost
  | stuck
  deriving DecidableEq, Repr

/-- The `details` dictionary of each kind. -/
inductive Details : Type where
  | size (linesChanged : Int) (filesTouched thresholdLines thresholdFiles : Nat)
  | risk (outOfScopeFiles : List String)
  | timeCost (elapsedMinutes spendUsd budgetMinutes budgetCostUsd : ℚ)
      (hardStop : Bool)
  | stuck (consecutiveFailures retryBudget : Nat)
  deriving DecidableEq

/-- `details.get("out_of_scope_files", [])`. -/
def Details.outOfScopeFiles : Details → List String
  | .risk files => files
  | _ => []

/-- The values a trigger's `reason` text interpolates. -/
inductive Reason : Type where
  | size (linesChanged : Int) (filesTouched : Nat) (storySize : StorySize)
      (thresholdLines thresholdFiles : Nat)
  | risk (outOfScopeFiles : List String)
  | timeCost (elapsedMinutes spendUsd : ℚ) (storySize : StorySize)
      (budgetMinutes budgetCostUsd : ℚ)
  | stuck (consecutiveFailures retryBudget : Nat)
  deriving DecidableEq

/-- What `signature` fingerprints: the kind and its details. -/
structure Signature where
  kind : TriggerKind
  details : Details
  deriving DecidableEq

/-- `CheckpointTrigger`. -/
structure CheckpointTrigger where
  kind : TriggerKind
  reason : Reason
  details : Details
  deriving DecidableEq

/-- `CheckpointTrigger.signature`. -/
def CheckpointTrigger.signature (t : CheckpointTrigger) : Signature :=
  ⟨t.kind, t.details⟩

/-- The line threshold `check_size` applies: wider for a single file. -/
def effectiveLineThreshold (diffStats : DiffStats) (budget : Budget) : Nat :=
  if diffStats.filesTouched.length ≤ 1 then
    budget.sizeCheckpointLines * singleFileLineMultiplier
  else budget.sizeCheckpointLines

/-- `check_size`. -/
def checkSize (diffStats : DiffStats) (budget : Budget) :
    Option CheckpointTrigger :=
  let threshold := effectiveLineThreshold diffStats budget
  let files := diffStats.filesTouched.length
  if diffStats.linesChanged > threshold ∨ files > budget.sizeCheckpointFiles then
    some ⟨.size,
      .size diffStats.linesChanged files budget.storySize threshold
        budget.sizeCheckpointFiles,
      .size diffStats.linesChanged files threshold budget.sizeCheckpointFiles⟩
  else none

/-- The files `check_risk` reports: touched and not declared. -/
def outOfScopeTouches (filesTouched declaredScopeIn : List String) :
    List String :=
  sortedSet (filesTouched.filter (· ∉ declaredScopeIn))

/-- `check_risk`: the set difference with the declared scope. -/
def checkRisk (diffStats : DiffStats) (declaredScopeIn : List String) :
    Option CheckpointTrigger :=
  let out := outOfScopeTouches diffStats.filesTouched declaredScopeIn
  if out ≠ [] then some ⟨.risk, .risk out, .risk out⟩ else none

/-- `check_time_cost`. -/
def checkTimeCost (elapsedMinutes spendUsd : ℚ) (budget : Budget) :
    Option CheckpointTrigger :=
  let warnMinutes := budget.wallClockMinutes * timeCostWarningFraction
  let warnCost := budget.costCeilingUsd * timeCostWarningFraction
  if elapsedMinutes ≥ warnMinutes ∨ spendUsd ≥ warnCost then
    some ⟨.timeCost,
      .timeCost elapsedMinutes spendUsd budget.storySize
        budget.wallClockMinutes budget.costCeilingUsd,
      .timeCost elapsedMinutes spendUsd budget.wallClockMinutes
        budget.costCeilingUsd
        (decide (elapsedMinutes ≥ budget.wallClockMinutes ∨
          spendUsd ≥ budget.costCeilingUsd))⟩
  else none

/-- The trigger `check_stuck` produces at a failure count. -/
def stuckTrigger (failures retryBudget : Nat) : CheckpointTrigger :=
  ⟨.stuck, .stuck failures retryBudget, .stuck failures retryBudget⟩

/-- `check_stuck`. -/
def checkStuck (consecutiveSameStageFailures retryBudget : Nat) :
    Option CheckpointTrigger :=
  if consecutiveSameStageFailures ≥ retryBudget then
    some (stuckTrigger consecutiveSameStageFailures retryBudget)
  else none

/-- `evaluate_checkpoints`: every kind that fired, in the order size,
risk, time/cost, stuck. -/
def evaluateCheckpoints (diffStats : DiffStats) (declaredScopeIn : List String)
    (budget : Budget) (elapsedMinutes spendUsd : ℚ)
    (consecutiveSameStageFailures : Nat) : List CheckpointTrigger :=
  [checkSize diffStats budget,
    checkRisk diffStats declaredScopeIn,
    checkTimeCost elapsedMinutes spendUsd budget,
    checkStuck consecutiveSameStageFailures defaultStuckRetryBudget].filterMap id

-- ==== what each kind means

theorem checkSize_kind {d : DiffStats} {b : Budget} {t : CheckpointTrigger}
    (h : checkSize d b = some t) : t.kind = .size := by
  simp only [checkSize] at h
  split at h
  · injection h with h
    rw [← h]
  · cases h

theorem checkRisk_kind {d : DiffStats} {scope : List String}
    {t : CheckpointTrigger} (h : checkRisk d scope = some t) :
    t.kind = .risk ∧
      t.details = .risk (outOfScopeTouches d.filesTouched scope) := by
  simp only [checkRisk] at h
  split at h
  · injection h with h
    rw [← h]
    exact ⟨rfl, rfl⟩
  · cases h

theorem checkTimeCost_kind {e s : ℚ} {b : Budget} {t : CheckpointTrigger}
    (h : checkTimeCost e s b = some t) : t.kind = .timeCost := by
  simp only [checkTimeCost] at h
  split at h
  · injection h with h
    rw [← h]
  · cases h

theorem checkRisk_eq_none {d : DiffStats} {scope : List String}
    (h : ∀ f ∈ d.filesTouched, f ∈ scope) : checkRisk d scope = none := by
  have hout : outOfScopeTouches d.filesTouched scope = [] := by
    rw [List.eq_nil_iff_forall_not_mem]
    intro f hf
    simp only [outOfScopeTouches, mem_sortedSet, List.mem_filter,
      decide_eq_true_eq] at hf
    exact hf.2 (h f hf.1)
  simp [checkRisk, hout]

theorem check_empty (b : Budget) (scope : List String) :
    checkSize ⟨[], 0⟩ b = none ∧ checkRisk ⟨[], 0⟩ scope = none := by
  refine ⟨?_, checkRisk_eq_none (by simp)⟩
  simp only [checkSize]
  rw [if_neg]
  simp only [List.length_nil]
  omega

theorem mem_evaluateCheckpoints {d : DiffStats} {scope : List String}
    {b : Budget} {e s : ℚ} {n : Nat} {t : CheckpointTrigger} :
    t ∈ evaluateCheckpoints d scope b e s n ↔
      checkSize d b = some t ∨ checkRisk d scope = some t ∨
        checkTimeCost e s b = some t ∨
          checkStuck n defaultStuckRetryBudget = some t := by
  simp [evaluateCheckpoints, eq_comm]

-- ==== the stuck trigger's turn

/-- The triggers not yet acknowledged. -/
def unacknowledged (acknowledged : List Signature)
    (triggers : List CheckpointTrigger) : List CheckpointTrigger :=
  triggers.filter fun t => t.signature ∉ acknowledged

/-- `next((t for t in triggers if t.kind == "stuck"), None)`. -/
def findStuck (triggers : List CheckpointTrigger) : Option CheckpointTrigger :=
  triggers.find? fun t => t.kind = .stuck

/-- Whatever the other kinds do, an evaluation offers the stuck trigger
exactly when the count has reached the retry budget and that very count
has not been acknowledged. -/
theorem findStuck_evaluate (acked : List Signature) (d : DiffStats)
    (scope : List String) (b : Budget) (e s : ℚ) (n : Nat) :
    findStuck (unacknowledged acked (evaluateCheckpoints d scope b e s n)) =
      if defaultStuckRetryBudget ≤ n ∧
          (stuckTrigger n defaultStuckRetryBudget).signature ∉ acked
      then some (stuckTrigger n defaultStuckRetryBudget) else none := by
  have hmem : ∀ t ∈ unacknowledged acked (evaluateCheckpoints d scope b e s n),
      t.kind = .stuck →
        t = stuckTrigger n defaultStuckRetryBudget ∧
          defaultStuckRetryBudget ≤ n ∧ t.signature ∉ acked := by
    intro t ht hkind
    simp only [unacknowledged, List.mem_filter, decide_eq_true_eq] at ht
    obtain ⟨ht, hack⟩ := ht
    rcases mem_evaluateCheckpoints.1 ht with h | h | h | h
    · rw [checkSize_kind h] at hkind; cases hkind
    · rw [(checkRisk_kind h).1] at hkind; cases hkind
    · rw [checkTimeCost_kind h] at hkind; cases hkind
    · unfold checkStuck at h
      split at h
      · next hn =>
        injection h with h
        exact ⟨h.symm, hn, hack⟩
      · cases h
  unfold findStuck
  split
  · next hcond =>
    have hin : stuckTrigger n defaultStuckRetryBudget ∈
        unacknowledged acked (evaluateCheckpoints d scope b e s n) := by
      simp only [unacknowledged, List.mem_filter, decide_eq_true_eq]
      refine ⟨mem_evaluateCheckpoints.2 (Or.inr (Or.inr (Or.inr ?_))), hcond.2⟩
      simp [checkStuck, hcond.1]
    cases hf : (unacknowledged acked
        (evaluateCheckpoints d scope b e s n)).find?
          (fun t => t.kind = .stuck) with
    | none =>
      have := List.find?_eq_none.1 hf _ hin
      simp [stuckTrigger] at this
    | some t =>
      have ht := List.mem_of_find?_eq_some hf
      have hk : t.kind = .stuck := by simpa using List.find?_some hf
      rw [(hmem t ht hk).1]
  · next hcond =>
    rw [List.find?_eq_none]
    intro t ht hkind
    have hk : t.kind = .stuck := by simpa using hkind
    obtain ⟨heq, hn, hack⟩ := hmem t ht hk
    exact hcond ⟨hn, heq ▸ hack⟩

end SdlcOs.Orchestrator
