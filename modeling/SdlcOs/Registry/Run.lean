/-
One run's row in the Run Registry, and what each `RegistryService`
operation does to it (run_registry/stages.py, service.py, repository.py).

# Stages

There are nine stages, two of them terminal. An inductive `Stage` makes
`is_valid_stage` a matter of typing, so the "unknown stage" arms of the
source have no counterpart here: there is no way to name a stage outside
`ALL_STAGES`.

# What a row is

The service's mutating operations touch one row of `runs`, found by
(tenant, id) and guarded by the caller's last-read version. This file is
that row and those operations. The history tables are not here: no
operation reads them to decide what to do to the row.

`current_attempt_id` is not optional: `create_run` sets it in the
transaction that inserts the row and nothing clears it, which is what
`transition_stage` asserts.

# Results

`Result` is the envelope every operation returns (result.py): a value,
the distinct empty result that also covers "wrong tenant", or a named
error with its text.
-/
import Mathlib.Logic.Basic

namespace SdlcOs.Registry

/-- `ALL_STAGES`, in the order of the source. -/
inductive Stage : Type where
  | intake
  | research
  | planAuthoring
  | planApprovalGate
  | implementation
  | verification
  | changeReviewGate
  | packaging
  | retrospective
  | completed
  | abandoned
  deriving DecidableEq, Repr

namespace Stage

/-- `TERMINAL_STAGES`. -/
def terminalStages : List Stage := [.completed, .abandoned]

/-- `_LEGAL_TRANSITIONS`: the stages a transition may move to. -/
def legalTransitions : Stage → List Stage
  | .intake => [.research, .abandoned]
  | .research => [.planAuthoring, .abandoned]
  | .planAuthoring => [.planApprovalGate, .abandoned]
  | .planApprovalGate => [.implementation, .planAuthoring, .abandoned]
  | .implementation => [.verification, .abandoned]
  | .verification => [.changeReviewGate, .implementation, .abandoned]
  | .changeReviewGate => [.packaging, .implementation, .abandoned]
  | .packaging => [.retrospective, .abandoned]
  | .retrospective => [.completed, .abandoned]
  | .completed => []
  | .abandoned => []

/-- `is_legal_transition`. -/
def isLegalTransition (current next : Stage) : Bool :=
  next ∈ current.legalTransitions

/-- The stage's token in the source. -/
def token : Stage → String
  | .intake => "intake"
  | .research => "research"
  | .planAuthoring => "plan_authoring"
  | .planApprovalGate => "plan_approval_gate"
  | .implementation => "implementation"
  | .verification => "verification"
  | .changeReviewGate => "change_review_gate"
  | .packaging => "packaging"
  | .retrospective => "retrospective"
  | .completed => "completed"
  | .abandoned => "abandoned"

-- ==== shape of the graph

/-- The stages before a plan has been approved. -/
def planning : Stage → Bool
  | .intake | .research | .planAuthoring | .planApprovalGate => true
  | _ => false

/-- The two human gates. -/
def gate : Stage → Bool
  | .planApprovalGate | .changeReviewGate => true
  | _ => false

theorem planning_of_legal {current next : Stage}
    (h : isLegalTransition current next = true)
    (hn : next.planning = true) : current.planning = true := by
  cases current <;> cases next <;> simp_all [isLegalTransition, legalTransitions, planning]

end Stage

-- ==== envelopes

/-- `errors.ErrorCode`, the codes the row operations use. -/
inductive ErrorCode : Type where
  | illegalTransition
  | staleVersion
  | invalidInput
  deriving DecidableEq, Repr

/-- `result.ErrorInfo`. -/
structure ErrorInfo where
  code : ErrorCode
  message : String
  deriving DecidableEq, Repr

/-- `result.Result`. -/
inductive Result (α : Type) : Type where
  | ok (data : α)
  | empty
  | fail (error : ErrorInfo)
  deriving DecidableEq, Repr

/-- The `error` field of a result: present only on the error branch. -/
def Result.error {α : Type} : Result α → Option ErrorInfo
  | .fail e => some e
  | _ => none

-- ==== rows

/-- `models.Run`, generic in what its checkpoint pointer holds. The
fields no operation of the orchestrator reads (worktree, capacity class,
execution location, timestamps) are left out. -/
structure Run (Pointer : Type) where
  id : String
  tenantId : String
  jiraKey : String
  repo : String
  branch : String
  stage : Stage
  checkpointPointer : Option Pointer
  traceId : String
  currentAttemptId : String
  version : Nat
  deriving DecidableEq, Repr

namespace Run

variable {Pointer : Type}

/-- `create_run`: the row it inserts, at intake and version 1, with the
generated run and attempt ids. -/
def createRun (tenantId jiraKey repo branch capacityClass traceId : String)
    (runId attemptId : String) : Result (Run Pointer) :=
  if tenantId = "" then
    .fail ⟨.invalidInput, "tenant_id is required"⟩
  else if jiraKey = "" ∨ repo = "" ∨ branch = "" ∨ traceId = "" then
    .fail ⟨.invalidInput, "jira_key, repo, branch, and trace_id are required"⟩
  else if capacityClass ≠ "spot" ∧ capacityClass ≠ "on_demand" then
    .fail ⟨.invalidInput, "capacity_class must be one of ['on_demand', 'spot']"⟩
  else
    .ok { id := runId, tenantId := tenantId, jiraKey := jiraKey, repo := repo
          branch := branch, stage := .intake, checkpointPointer := none
          traceId := traceId, currentAttemptId := attemptId, version := 1 }

/-- The row is the one a caller with this tenant and run id sees. -/
def Visible (row : Run Pointer) (tenantId runId : String) : Prop :=
  tenantId ≠ "" ∧ runId ≠ "" ∧ row.id = runId ∧ row.tenantId = tenantId

instance (row : Run Pointer) (tenantId runId : String) :
    Decidable (row.Visible tenantId runId) :=
  inferInstanceAs (Decidable (_ ∧ _))

/-- `get_run`: fail closed, so a wrong tenant and a missing run look the
same. -/
def getRun (row : Run Pointer) (tenantId runId : String) :
    Result (Run Pointer) :=
  if row.Visible tenantId runId then .ok row else .empty

/-- The refusal of a stale expected version. -/
def staleVersion (expected current : Nat) : ErrorInfo :=
  ⟨.staleVersion, "expected version " ++ toString expected ++
    ", current version is " ++ toString current ++
    "; re-read the run before retrying"⟩

/-- `transition_stage`: the row after the call, and the result. -/
def transitionStage (row : Run Pointer) (tenantId runId : String)
    (expectedVersion : Nat) (nextStage : Stage) :
    Run Pointer × Result (Run Pointer) :=
  if ¬ row.Visible tenantId runId then (row, .empty)
  else if row.version ≠ expectedVersion then
    (row, .fail (staleVersion expectedVersion row.version))
  else if row.stage.isLegalTransition nextStage = false then
    (row, .fail ⟨.illegalTransition, "'" ++ nextStage.token ++
      "' is not a legal next stage from '" ++ row.stage.token ++ "'"⟩)
  else
    let updated := { row with stage := nextStage, version := row.version + 1 }
    (updated, .ok updated)

/-- `append_attempt`, with the id it generates for the new attempt. The
reasons are those of `_VALID_REASONS`. -/
def appendAttempt (row : Run Pointer) (tenantId runId : String)
    (expectedVersion : Nat) (reason : String) (startingStage : Stage)
    (traceId attemptId : String) : Run Pointer × Result String :=
  if reason ∉ ["initial", "re-plan", "retry", "resumed-after-interruption"] then
    (row, .fail ⟨.invalidInput, "reason must be one of ['initial', 're-plan', 'resumed-after-interruption', 'retry']"⟩)
  else if traceId = "" then
    (row, .fail ⟨.invalidInput, "trace_id is required"⟩)
  else if ¬ row.Visible tenantId runId then (row, .empty)
  else if row.version ≠ expectedVersion then
    (row, .fail (staleVersion expectedVersion row.version))
  else if startingStage ≠ row.stage ∧
      row.stage.isLegalTransition startingStage = false then
    (row, .fail ⟨.illegalTransition, "cannot start a new attempt at '" ++
      startingStage.token ++ "' from current stage '" ++ row.stage.token ++ "'"⟩)
  else
    ({ row with stage := startingStage, currentAttemptId := attemptId
                traceId := traceId, version := row.version + 1 },
      .ok attemptId)

/-- `write_checkpoint` without a capacity class, which is how the
orchestrator calls it. A pointer here is never the empty text. -/
def writeCheckpoint (row : Run Pointer) (tenantId runId : String)
    (expectedVersion : Nat) (pointer : Pointer) :
    Run Pointer × Result (Run Pointer) :=
  if ¬ row.Visible tenantId runId then (row, .empty)
  else if row.version ≠ expectedVersion then
    (row, .fail (staleVersion expectedVersion row.version))
  else
    let updated := { row with checkpointPointer := some pointer
                              version := row.version + 1 }
    (updated, .ok updated)

-- ==== inversion

section Inversion

variable (row : Run Pointer) (tenantId runId : String) (v : Nat)

/-- A refused call leaves the row as it was and returns no data. -/
def Refused {α : Type} (r : Run Pointer × Result α) :
    Prop :=
  r.1 = row ∧ ∀ data, r.2 ≠ .ok data

/-- A transition is refused, or was made at the current version along an
edge of the graph. -/
theorem transitionStage_inv (next : Stage) :
    row.Refused (row.transitionStage tenantId runId v next) ∨
      (row.version = v ∧ row.stage.isLegalTransition next = true ∧
        row.transitionStage tenantId runId v next =
          ({ row with stage := next, version := row.version + 1 },
            .ok { row with stage := next, version := row.version + 1 })) := by
  unfold transitionStage
  split
  · exact Or.inl ⟨rfl, fun _ h => by cases h⟩
  · split
    · exact Or.inl ⟨rfl, fun _ h => by cases h⟩
    · next hv =>
      split
      · exact Or.inl ⟨rfl, fun _ h => by cases h⟩
      · next hlegal =>
        exact Or.inr ⟨not_not.1 hv, by simpa using hlegal, rfl⟩

/-- A new attempt is refused, or starts where the run is or at a legal
next stage. -/
theorem appendAttempt_inv (reason : String) (start : Stage)
    (traceId attemptId : String) :
    row.Refused
        (row.appendAttempt tenantId runId v reason start traceId attemptId) ∨
      (row.version = v ∧
        (start = row.stage ∨ row.stage.isLegalTransition start = true) ∧
        row.appendAttempt tenantId runId v reason start traceId attemptId =
          ({ row with stage := start, currentAttemptId := attemptId
                      traceId := traceId, version := row.version + 1 },
            .ok attemptId)) := by
  unfold appendAttempt
  split
  · exact Or.inl ⟨rfl, fun _ h => by cases h⟩
  · split
    · exact Or.inl ⟨rfl, fun _ h => by cases h⟩
    · split
      · exact Or.inl ⟨rfl, fun _ h => by cases h⟩
      · split
        · exact Or.inl ⟨rfl, fun _ h => by cases h⟩
        · next hv =>
          split
          · exact Or.inl ⟨rfl, fun _ h => by cases h⟩
          · next hstart =>
            refine Or.inr ⟨not_not.1 hv, ?_, rfl⟩
            by_cases hs : start = row.stage
            · exact Or.inl hs
            · refine Or.inr ?_
              simpa [hs] using hstart

theorem writeCheckpoint_inv (pointer : Pointer) :
    row.Refused (row.writeCheckpoint tenantId runId v pointer) ∨
      (row.version = v ∧
        row.writeCheckpoint tenantId runId v pointer =
          ({ row with checkpointPointer := some pointer
                      version := row.version + 1 },
            .ok { row with checkpointPointer := some pointer
                           version := row.version + 1 })) := by
  unfold writeCheckpoint
  split
  · exact Or.inl ⟨rfl, fun _ h => by cases h⟩
  · split
    · exact Or.inl ⟨rfl, fun _ h => by cases h⟩
    · next hv => exact Or.inr ⟨not_not.1 hv, rfl⟩

end Inversion

end Run

end SdlcOs.Registry
