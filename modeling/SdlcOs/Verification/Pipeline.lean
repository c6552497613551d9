/-
One story's verification attempts against its retry budget
(verification_pipeline/budgets.py, report.py and pipeline.py).

A pipeline and its budget are changed by `submit_attempt` only, so an
attempt takes a pipeline to the next. Budgets are integers, as in the
source: nothing there keeps `max_attempts` from being negative.
-/
import SdlcOs.Verification.CompletionCheck

namespace SdlcOs.Verification

variable {σ δ : Type}

-- ==== budgets

/-- `StorySize`. -/
inductive StorySize : Type where
  | S
  | M
  | L
  | XL
  deriving DecidableEq, Repr

/-- The `ValueError`s of a budget. -/
inductive BudgetError : Type where
  /-- "XL stories are not run directly (Sec. 9.4); decompose first." -/
  | notRun
  /-- "retry budget already exhausted; escalate instead of retrying
  again" -/
  | exhausted
  deriving DecidableEq, Repr

/-- `RetryBudget`. -/
structure RetryBudget where
  maxAttempts : Int
  attemptsUsed : Int
  deriving DecidableEq, Repr

namespace RetryBudget

/-- `RetryBudget(max_attempts=n)`. -/
def new (n : Int) : RetryBudget := ⟨n, 0⟩

/-- `RETRY_ATTEMPTS_BY_SIZE`. -/
def attemptsBySize : StorySize → Option Int
  | .S => some 2
  | .M => some 3
  | .L => some 4
  | .XL => none

/-- `RetryBudget.for_story_size`. -/
def forStorySize (size : StorySize) : Except BudgetError RetryBudget :=
  match attemptsBySize size with
  | none => .error .notRun
  | some n => .ok (new n)

/-- `exhausted`. -/
def exhausted (b : RetryBudget) : Bool := b.maxAttempts ≤ b.attemptsUsed

/-- `remaining`. -/
def remaining (b : RetryBudget) : Int := max 0 (b.maxAttempts - b.attemptsUsed)

/-- `consume`. -/
def consume (b : RetryBudget) : Except BudgetError RetryBudget :=
  if b.exhausted then .error .exhausted
  else .ok { b with attemptsUsed := b.attemptsUsed + 1 }

end RetryBudget

-- ==== reports

/-- `VerificationReport`. -/
structure VerificationReport (σ δ : Type) where
  storyId : String
  attempt : Nat
  layerResults : List (Result σ δ)
  retryAttemptsUsed : Int
  retryAttemptsMax : Int
  escalated : Bool

namespace VerificationReport

variable (r : VerificationReport σ δ)

/-- The names `all_layers_ran` expects. -/
def expected : List String :=
  ["existing_test_suite", "acceptance_criteria_mapping", "static_analysis",
    "security_scan", "isolated_context_review",
    "behavioral_regression_check", "cross_codebase_completion_check"]

/-- `all_layers_ran`. -/
def allLayersRan : Bool :=
  expected.all fun name => r.layerResults.any fun l => l.name = name

/-- `eligible_for_human_review`. -/
def eligibleForHumanReview : Bool :=
  if r.allLayersRan = false then false
  else !r.layerResults.any Result.blocksHumanReview

/-- `by_name`. -/
def byName (name : String) : Option (Result σ δ) :=
  r.layerResults.find? fun l => l.name = name

end VerificationReport

/-- A layer in `to_dict`. -/
structure LayerDict (σ δ : Type) where
  name : String
  status : Status
  summary : σ
  details : δ

/-- `to_dict`. -/
structure ReportDict (σ δ : Type) where
  storyId : String
  attempt : Nat
  eligibleForHumanReview : Bool
  retryAttemptsUsed : Int
  retryAttemptsMax : Int
  escalated : Bool
  layers : List (LayerDict σ δ)

def VerificationReport.toDict (r : VerificationReport σ δ) :
    ReportDict σ δ where
  storyId := r.storyId
  attempt := r.attempt
  eligibleForHumanReview := r.eligibleForHumanReview
  retryAttemptsUsed := r.retryAttemptsUsed
  retryAttemptsMax := r.retryAttemptsMax
  escalated := r.escalated
  layers := r.layerResults.map fun l =>
    ⟨l.name, l.status, l.summary, l.details⟩

-- ==== attempts

/-- `VerificationPipeline`. -/
structure VerificationPipeline (σ δ : Type) where
  storyId : String
  retryBudget : RetryBudget
  history : List (VerificationReport σ δ)

namespace VerificationPipeline

variable (p : VerificationPipeline σ δ)

/-- `VerificationPipeline(story_id=..., retry_budget=...)`. -/
def new (storyId : String) (retryBudget : RetryBudget) :
    VerificationPipeline σ δ :=
  ⟨storyId, retryBudget, []⟩

/-- The report an attempt starts from. -/
def reportOf (layerResults : List (Result σ δ)) : VerificationReport σ δ where
  storyId := p.storyId
  attempt := p.history.length + 1
  layerResults := layerResults
  retryAttemptsUsed := p.retryBudget.attemptsUsed
  retryAttemptsMax := p.retryBudget.maxAttempts
  escalated := false

/-- `submit_attempt`. -/
def submitAttempt (layerResults : List (Result σ δ)) :
    Except BudgetError
      (VerificationReport σ δ × VerificationPipeline σ δ) :=
  let report := p.reportOf layerResults
  if report.eligibleForHumanReview then
    .ok (report, { p with history := p.history ++ [report] })
  else if p.retryBudget.exhausted then
    let report := { report with escalated := true }
    .ok (report, { p with history := p.history ++ [report] })
  else
    p.retryBudget.consume.map fun budget =>
      let report := { report with retryAttemptsUsed := budget.attemptsUsed }
      (report, ⟨p.storyId, budget, p.history ++ [report]⟩)

/-- `full_diagnostics`. -/
def fullDiagnostics : List (ReportDict σ δ) :=
  p.history.map VerificationReport.toDict

/-- A sequence of attempts: the reports returned, and the pipeline left. -/
def submitAll (p : VerificationPipeline σ δ) :
    List (List (Result σ δ)) → Except BudgetError
      (List (VerificationReport σ δ) × VerificationPipeline σ δ)
  | [] => .ok ([], p)
  | layerResults :: rest =>
    (p.submitAttempt layerResults).bind fun (report, p) =>
      (submitAll p rest).map fun (reports, p) => (report :: reports, p)

end VerificationPipeline

end SdlcOs.Verification
