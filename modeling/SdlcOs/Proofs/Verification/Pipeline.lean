/-
The retry budget over a whole story.

# The invariant

The counter, the history and the reports' own copies of the counter are
written on three paths. What ties them is the number of ineligible
reports: the counter is that number, up to the budget, and a report is
escalated when the number before it has reached the budget (`Counted`).
One attempt keeps it (`submitAttempt_counted`), so a sequence of them does
(`submitAll_counted`).

# Negative budgets

Nothing keeps `max_attempts` from being negative. Such a budget is spent
from the start, as one of 0 is, and its counter is above it.
-/
import SdlcOs.Verification.Pipeline

namespace SdlcOs.Verification

variable {σ δ : Type}

namespace VerificationReport

/-- Neither eligible nor escalated: a retry. -/
def pending (r : VerificationReport σ δ) : Bool :=
  !r.eligibleForHumanReview && !r.escalated

/-- How many reports of some are ineligible. -/
def ineligible (reports : List (VerificationReport σ δ)) : Nat :=
  reports.countP fun r => !r.eligibleForHumanReview

theorem eligible_iff (r : VerificationReport σ δ) :
    r.eligibleForHumanReview = true ↔
      (∀ name ∈ expected, ∃ l ∈ r.layerResults, l.name = name) ∧
        ∀ l ∈ r.layerResults, l.blocksHumanReview = false := by
  have hran : r.allLayersRan = true ↔
      ∀ name ∈ expected, ∃ l ∈ r.layerResults, l.name = name := by
    unfold allLayersRan
    simp only [List.all_eq_true, List.any_eq_true, decide_eq_true_eq]
  unfold eligibleForHumanReview
  cases hall : r.allLayersRan with
  | false =>
    rw [hall] at hran
    exact iff_of_false (fun h => Bool.noConfusion h)
      fun h => Bool.noConfusion (hran.2 h.1)
  | true =>
    rw [hall] at hran
    rw [if_neg (by decide)]
    constructor
    · intro h
      refine ⟨hran.1 rfl, ?_⟩
      simpa using h
    · intro h
      simpa using h.2

end VerificationReport

open VerificationReport VerificationPipeline

-- ==== invariant

/-- What holds of a pipeline whose budget was `max_attempts` in its first
attempt: everything is told by its history. -/
structure Counted (maxAttempts : Int) (p : VerificationPipeline σ δ) :
    Prop where
  max : p.retryBudget.maxAttempts = maxAttempts
  used : p.retryBudget.attemptsUsed =
    min (Max.max 0 maxAttempts) (ineligible p.history)
  pending : (p.history.countP VerificationReport.pending : Int) =
    p.retryBudget.attemptsUsed
  numbered : p.history.map VerificationReport.attempt =
    List.range' 1 p.history.length
  escalated : ∀ i r, p.history[i]? = some r → (r.escalated = true ↔
    r.eligibleForHumanReview = false ∧
      maxAttempts ≤ ineligible (p.history.take i))

section Attempt

variable {maxAttempts : Int} {p p' : VerificationPipeline σ δ}
variable {layerResults : List (Result σ δ)} {r : VerificationReport σ δ}

theorem counted_new (storyId : String) (maxAttempts : Int) :
    Counted maxAttempts
      (VerificationPipeline.new (σ := σ) (δ := δ) storyId
        (RetryBudget.new maxAttempts)) := by
  refine ⟨rfl, ?_, rfl, rfl, fun i r h => ?_⟩
  · show (0 : Int) = min (Max.max 0 maxAttempts) 0
    omega
  · cases h

/-- What one attempt is: its report is added to the history, and the three
paths differ in the counter and in `escalated`. -/
structure Attempted (p p' : VerificationPipeline σ δ)
    (layerResults : List (Result σ δ)) (r : VerificationReport σ δ) :
    Prop where
  history : p'.history = p.history ++ [r]
  layers : r.layerResults = layerResults
  attempt : r.attempt = p.history.length + 1
  max : p'.retryBudget.maxAttempts = p.retryBudget.maxAttempts
  escalated : r.escalated = (!r.eligibleForHumanReview &&
    p.retryBudget.exhausted)
  used : p'.retryBudget.attemptsUsed = p.retryBudget.attemptsUsed +
    if r.pending then 1 else 0

theorem submitAttempt_ok (p : VerificationPipeline σ δ)
    (layerResults : List (Result σ δ)) :
    ∃ r p', p.submitAttempt layerResults = .ok (r, p') ∧
      Attempted p p' layerResults r := by
  unfold submitAttempt
  dsimp only
  cases heligible : (p.reportOf layerResults).eligibleForHumanReview with
  | true =>
    rw [if_pos rfl]
    refine ⟨_, _, rfl, rfl, rfl, rfl, rfl, ?_, ?_⟩
    · rw [heligible]
      rfl
    · unfold VerificationReport.pending
      rw [heligible]
      exact (Int.add_zero _).symm
  | false =>
    rw [if_neg (by decide)]
    -- eligibility is of the layers alone
    have hsame : ∀ r : VerificationReport σ δ,
        r.layerResults = layerResults →
          r.eligibleForHumanReview = false := fun r hr => by
      rw [← heligible]
      unfold VerificationReport.eligibleForHumanReview
        VerificationReport.allLayersRan
      rw [hr]
      rfl
    cases hspent : p.retryBudget.exhausted with
    | true =>
      rw [if_pos rfl]
      refine ⟨_, _, rfl, rfl, rfl, rfl, rfl, ?_, ?_⟩
      · rw [hsame _ rfl, hspent]
        rfl
      · unfold VerificationReport.pending
        rw [Bool.not_true, Bool.and_false]
        exact (Int.add_zero _).symm
    | false =>
      rw [if_neg (by decide)]
      unfold RetryBudget.consume
      rw [if_neg (by rw [hspent]; decide)]
      refine ⟨_, _, rfl, rfl, rfl, rfl, rfl, ?_, ?_⟩
      · rw [hspent, Bool.and_false]
        rfl
      · unfold VerificationReport.pending
        rw [hsame _ rfl]
        rfl

/-- And keeps what the counters say. -/
theorem submitAttempt_counted (h : Counted maxAttempts p)
    (ha : Attempted p p' layerResults r) : Counted maxAttempts p' := by
  have hmax := h.max
  have hused := h.used
  have hspent : p.retryBudget.exhausted = true ↔
      maxAttempts ≤ ineligible p.history := by
    unfold RetryBudget.exhausted
    rw [decide_eq_true_iff, hmax, hused]
    omega
  have hnew : ineligible p'.history = ineligible p.history +
      if r.eligibleForHumanReview then 0 else 1 := by
    unfold ineligible
    rw [ha.history, List.countP_append, List.countP_singleton]
    cases r.eligibleForHumanReview
    · rfl
    · rfl
  have hescalated : r.escalated = true ↔ r.eligibleForHumanReview = false ∧
      maxAttempts ≤ ineligible p.history := by
    rw [ha.escalated, Bool.and_eq_true, hspent, Bool.not_eq_true']
  have hpending : r.pending = true ↔ r.eligibleForHumanReview = false ∧
      ¬ maxAttempts ≤ ineligible p.history := by
    unfold VerificationReport.pending
    rw [Bool.and_eq_true, Bool.not_eq_true', Bool.not_eq_true',
      ← Bool.not_eq_true r.escalated, hescalated]
    tauto
  have hstep := ha.used
  refine ⟨ha.max.trans hmax, ?_, ?_, ?_, ?_⟩
  · rw [hstep, hnew, hused]
    cases heligible : r.eligibleForHumanReview with
    | true =>
      rw [if_neg fun hp => Bool.noConfusion
        (heligible.symm.trans (hpending.1 hp).1)]
      simp
    | false =>
      by_cases hless : maxAttempts ≤ ineligible p.history
      · rw [if_neg fun hp => (hpending.1 hp).2 hless]
        simp
        omega
      · rw [if_pos (hpending.2 ⟨heligible, hless⟩)]
        simp
        omega
  · rw [ha.history, List.countP_append, List.countP_singleton, hstep,
      ← h.pending]
    cases r.pending
    · rfl
    · rfl
  · rw [ha.history, List.map_append, h.numbered, List.length_append,
      List.length_singleton, List.range'_concat, List.map_singleton,
      ha.attempt, Nat.one_mul, Nat.add_comm]
  · intro i r' hget
    rw [ha.history] at hget ⊢
    by_cases hi : i < p.history.length
    · rw [List.getElem?_append_left hi] at hget
      rw [List.take_append_of_le_length (Nat.le_of_lt hi)]
      exact h.escalated i r' hget
    · have hlast : i = p.history.length := by
        have hlt := (List.getElem?_eq_some_iff.1 hget).1
        rw [List.length_append, List.length_singleton] at hlt
        omega
      rw [hlast, List.getElem?_concat_length] at hget
      obtain rfl := Option.some.inj hget
      rw [hlast, List.take_left']
      · exact hescalated
      · rfl

end Attempt

-- ==== runs

/-- A sequence of attempts never raises, returns what it adds to the
history, and keeps what the counters say. -/
theorem submitAll_counted {maxAttempts : Int} {p : VerificationPipeline σ δ}
    (attempts : List (List (Result σ δ))) (h : Counted maxAttempts p) :
    ∃ reports p', p.submitAll attempts = .ok (reports, p') ∧
      Counted maxAttempts p' ∧ p'.history = p.history ++ reports ∧
      reports.map VerificationReport.layerResults = attempts := by
  induction attempts generalizing p with
  | nil => exact ⟨[], p, rfl, h, (List.append_nil _).symm, rfl⟩
  | cons layerResults attempts ih =>
    obtain ⟨r, p₁, hsubmit, ha⟩ := submitAttempt_ok p layerResults
    obtain ⟨reports, p', hrest, hcounted, hhistory, hlayers⟩ :=
      ih (submitAttempt_counted h ha)
    refine ⟨r :: reports, p', ?_, hcounted, ?_, ?_⟩
    · rw [VerificationPipeline.submitAll, hsubmit]
      show (p₁.submitAll attempts).map _ = _
      rw [hrest]
      rfl
    · rw [hhistory, ha.history, List.append_assoc]
      rfl
    · rw [List.map_cons, ha.layers, hlayers]

/-- What a pipeline owes after some attempts, with a budget of so many. -/
structure Kept (budget : Int) (attempts : List (List (Result σ δ)))
    (reports : List (VerificationReport σ δ))
    (p : VerificationPipeline σ δ) : Prop where
  layers : reports.map VerificationReport.layerResults = attempts
  eligible : ∀ r ∈ reports, r.eligibleForHumanReview = true ↔
    (∀ name ∈ expected, ∃ l ∈ r.layerResults, l.name = name) ∧
      ∀ l ∈ r.layerResults, l.blocksHumanReview = false
  pending : (reports.countP VerificationReport.pending : Int) ≤ budget
  escalated : ∀ i r, reports[i]? = some r → (r.escalated = true ↔
    r.eligibleForHumanReview = false ∧
      budget ≤ ineligible (reports.take i))
  numbered : reports.map VerificationReport.attempt =
    List.range' 1 reports.length
  history : p.history = reports
  used : p.retryBudget.attemptsUsed ≤ budget

/-- Whatever the layers say, attempt after attempt, the pipeline keeps to
its budget, a negative one being none. -/
theorem attempts_within_budget (storyId : String) (maxAttempts : Int)
    (attempts : List (List (Result σ δ))) :
    ∃ reports p, (VerificationPipeline.new storyId
        (RetryBudget.new maxAttempts)).submitAll attempts =
          .ok (reports, p) ∧
      Kept (max 0 maxAttempts) attempts reports p := by
  obtain ⟨reports, p, hall, h, hhistory, hlayers⟩ :=
    submitAll_counted attempts (counted_new storyId maxAttempts)
  obtain rfl : p.history = reports := hhistory
  have hused := h.used
  have hpending := h.pending
  refine ⟨_, p, hall, hlayers, fun r _ => eligible_iff r, ?_,
    fun i r hget => ?_, h.numbered, rfl, ?_⟩
  · omega
  · rw [h.escalated i r hget]
    have hbound : maxAttempts ≤ ineligible (p.history.take i) ↔
        max 0 maxAttempts ≤ ineligible (p.history.take i) := by
      omega
    rw [hbound]
  · omega

/-- A negative budget is exceeded before the first attempt. -/
theorem negative_budget_exceeded :
    ¬ ∀ (maxAttempts : Int) (attempts : List (List (Result Unit Unit))),
      ∃ reports p, (VerificationPipeline.new "story"
          (RetryBudget.new maxAttempts)).submitAll attempts =
            .ok (reports, p) ∧
        Kept maxAttempts attempts reports p := by
  intro h
  obtain ⟨reports, p, hall, hkept⟩ := h (-1) []
  injection hall with hall
  injection hall with hreports _
  have hpending := hkept.pending
  rw [← hreports] at hpending
  revert hpending
  decide

end SdlcOs.Verification
