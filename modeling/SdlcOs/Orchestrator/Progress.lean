/-
Durable per-run implementation progress (orchestrator/progress.py) and
the two scans of the subtask graph that read it (core.py,
`_next_subtask` and `_ready_subtask_batch`).
-/
import SdlcOs.Orchestrator.PlanArtifact

namespace SdlcOs.Orchestrator

/-- `RunProgress`. The failure counter is a natural: it starts at zero
and only ever goes up by one or back to zero. -/
structure RunProgress where
  runId : String
  attemptId : String
  completedSubtaskIds : List String
  filesTouched : List String
  linesChanged : Int
  spendUsd : ℚ
  consecutiveSameStageFailures : Nat
  startedAt : Time
  acknowledgedCheckpointSignatures : List Signature
  lastVerificationFailureSummary : String
  deriving DecidableEq

namespace RunProgress

/-- The record `start_new` saves: every counter at its default. -/
def fresh (runId attemptId : String) (now : Time) : RunProgress :=
  { runId := runId, attemptId := attemptId, completedSubtaskIds := []
    filesTouched := [], linesChanged := 0, spendUsd := 0
    consecutiveSameStageFailures := 0, startedAt := now
    acknowledgedCheckpointSignatures := []
    lastVerificationFailureSummary := "" }

/-- `elapsed_minutes`. -/
def elapsedMinutes (p : RunProgress) (now : Time) : ℚ :=
  ((now - p.startedAt : Int) : ℚ) / 60000000

/-- The accumulated diff. -/
def diffStats (p : RunProgress) : DiffStats :=
  ⟨p.filesTouched, p.linesChanged⟩

/-- Fold one diff into the accumulated one. -/
def addDiff (p : RunProgress) (diff : DiffOutput) : RunProgress :=
  { p with
    filesTouched := sortedSet (p.filesTouched ++ diff.filesTouched)
    linesChanged := p.linesChanged + diff.linesChanged }

/-- One turn of the `zip(batch, diffs)` loop: the subtask is done and
its diff is folded in. -/
def complete (p : RunProgress) (st : SubtaskEntry) (diff : DiffOutput) :
    RunProgress :=
  { p with
    completedSubtaskIds := p.completedSubtaskIds ++ [st.taskId] }.addDiff diff

/-- The whole loop over a batch and its diffs. -/
def completeAll (p : RunProgress) (done : List (SubtaskEntry × DiffOutput)) :
    RunProgress :=
  done.foldl (fun p d => p.complete d.1 d.2) p

/-- The record after a batch succeeded: the diffs folded in and the
failure count back to zero. -/
def afterBatch (p : RunProgress) (done : List (SubtaskEntry × DiffOutput)) :
    RunProgress :=
  { p.completeAll done with consecutiveSameStageFailures := 0 }

/-- The record after a fix-up succeeded: the pending failure is cleared,
the failure count is not. -/
def afterFixup (p : RunProgress) (diff : DiffOutput) : RunProgress :=
  { p.addDiff diff with lastVerificationFailureSummary := "" }

/-- The record after an implementation attempt raised. -/
def afterFailure (p : RunProgress) : RunProgress :=
  { p with
    consecutiveSameStageFailures := p.consecutiveSameStageFailures + 1 }

/-- The record after a verification passed. -/
def afterPass (p : RunProgress) : RunProgress :=
  { p with
    consecutiveSameStageFailures := 0
    lastVerificationFailureSummary := "" }

/-- The record after a verification failed with a summary. -/
def afterVerificationFailure (p : RunProgress) (summary : String) :
    RunProgress :=
  { p with
    consecutiveSameStageFailures := p.consecutiveSameStageFailures + 1
    lastVerificationFailureSummary := summary }

/-- The record with one more signature acknowledged. -/
def acknowledge (p : RunProgress) (signature : Signature) : RunProgress :=
  if signature ∈ p.acknowledgedCheckpointSignatures then p
  else { p with
    acknowledgedCheckpointSignatures :=
      p.acknowledgedCheckpointSignatures ++ [signature] }

theorem completeAll_done (done : List (SubtaskEntry × DiffOutput)) :
    ∀ p : RunProgress, (p.completeAll done).completedSubtaskIds =
      p.completedSubtaskIds ++ done.map (·.1.taskId) := by
  induction done with
  | nil => intro p; simp [RunProgress.completeAll]
  | cons d rest ih =>
    intro p
    show ((p.complete d.1 d.2).completeAll rest).completedSubtaskIds = _
    rw [ih]
    simp [RunProgress.complete, RunProgress.addDiff]

theorem map_fst_zip_take {α β : Type} : ∀ (l : List α) (l' : List β),
    (l.zip l').map Prod.fst = l.take l'.length
  | [], l' => by simp
  | _ :: _, [] => by simp
  | a :: l, b :: l' => by simp [map_fst_zip_take l l']

/-- A batch adds the ids of as many of its members as there were
diffs. -/
theorem afterBatch_done (p : RunProgress) (batch : List SubtaskEntry)
    (diffs : List DiffOutput) :
    (p.afterBatch (batch.zip diffs)).completedSubtaskIds =
      p.completedSubtaskIds ++ (batch.take diffs.length).map (·.taskId) := by
  have hzip : (batch.zip diffs).map Prod.fst = batch.take diffs.length :=
    map_fst_zip_take batch diffs
  show (p.completeAll (batch.zip diffs)).completedSubtaskIds = _
  rw [completeAll_done, ← hzip, List.map_map]
  rfl

theorem mem_acknowledge (p : RunProgress) (signature : Signature) :
    signature ∈ (p.acknowledge signature).acknowledgedCheckpointSignatures := by
  unfold acknowledge
  split
  · next h => exact h
  · exact List.mem_append.2 (Or.inr (List.mem_singleton.2 rfl))

theorem completeAll_acknowledged (done : List (SubtaskEntry × DiffOutput)) :
    ∀ p : RunProgress,
      (p.completeAll done).acknowledgedCheckpointSignatures =
        p.acknowledgedCheckpointSignatures := by
  induction done with
  | nil => intro p; rfl
  | cons d rest ih => intro p; exact ih (p.complete d.1 d.2)

theorem afterBatch_acknowledged (p : RunProgress)
    (done : List (SubtaskEntry × DiffOutput)) :
    (p.afterBatch done).acknowledgedCheckpointSignatures =
      p.acknowledgedCheckpointSignatures :=
  completeAll_acknowledged done p

theorem completeAll_lines (done : List (SubtaskEntry × DiffOutput))
    (hpos : ∀ d ∈ done, 0 ≤ d.2.linesChanged) :
    ∀ p : RunProgress, p.linesChanged ≤ (p.completeAll done).linesChanged := by
  induction done with
  | nil => intro p; exact le_refl _
  | cons d rest ih =>
    intro p
    have hfirst : p.linesChanged ≤ (p.complete d.1 d.2).linesChanged := by
      have hd := hpos d (List.mem_cons_self ..)
      show p.linesChanged ≤ p.linesChanged + d.2.linesChanged
      omega
    exact hfirst.trans
      (ih (fun d' hd' => hpos d' (List.mem_cons_of_mem _ hd')) _)

theorem afterBatch_spend (p : RunProgress)
    (done : List (SubtaskEntry × DiffOutput)) :
    (p.afterBatch done).spendUsd = p.spendUsd := by
  show (p.completeAll done).spendUsd = p.spendUsd
  induction done generalizing p with
  | nil => rfl
  | cons d rest ih => exact ih (p.complete d.1 d.2)

theorem acknowledge_spend (p : RunProgress) (signature : Signature) :
    (p.acknowledge signature).spendUsd = p.spendUsd := by
  unfold acknowledge
  split <;> rfl

end RunProgress

-- ==== scanning the graph

/-- Not done yet, and every dependency is done. -/
def ready (done : List String) (st : SubtaskEntry) : Bool :=
  st.taskId ∉ done && st.dependsOn.all (· ∈ done)

/-- `_next_subtask`: the first ready entry, in plan order. -/
def nextSubtask (artifact : PlanArtifact) (progress : RunProgress) :
    Option SubtaskEntry :=
  artifact.subtasks.find? (ready progress.completedSubtaskIds)

/-- `_ready_subtask_batch`: the ready entries of the first one's parallel
group, or the first one alone. -/
def readySubtaskBatch (artifact : PlanArtifact) (progress : RunProgress)
    (first : SubtaskEntry) : List SubtaskEntry :=
  if truthy first.parallelGroup = false then [first]
  else artifact.subtasks.filter fun st =>
    st.taskId ∉ progress.completedSubtaskIds &&
      st.parallelGroup = first.parallelGroup &&
        st.dependsOn.all (· ∈ progress.completedSubtaskIds)

theorem nextSubtask_some {artifact : PlanArtifact} {progress : RunProgress}
    {st : SubtaskEntry} (h : nextSubtask artifact progress = some st) :
    st ∈ artifact.subtasks ∧ ready progress.completedSubtaskIds st = true :=
  ⟨List.mem_of_find?_eq_some h, List.find?_some h⟩

theorem nextSubtask_none {artifact : PlanArtifact} {progress : RunProgress}
    (h : nextSubtask artifact progress = none) :
    ∀ st ∈ artifact.subtasks, ready progress.completedSubtaskIds st = false := by
  intro st hst
  have hnot := List.find?_eq_none.1 h st hst
  simpa using hnot

theorem mem_readySubtaskBatch {artifact : PlanArtifact}
    {progress : RunProgress} {first st : SubtaskEntry}
    (h : nextSubtask artifact progress = some first)
    (hst : st ∈ readySubtaskBatch artifact progress first) :
    st ∈ artifact.subtasks ∧ ready progress.completedSubtaskIds st = true := by
  unfold readySubtaskBatch at hst
  split at hst
  · rw [List.mem_singleton] at hst
    subst hst
    exact nextSubtask_some h
  · rw [List.mem_filter] at hst
    obtain ⟨hmem, hcond⟩ := hst
    rw [Bool.and_eq_true, Bool.and_eq_true] at hcond
    refine ⟨hmem, ?_⟩
    rw [ready, Bool.and_eq_true]
    exact ⟨hcond.1.1, hcond.2⟩

theorem first_mem_readySubtaskBatch {artifact : PlanArtifact}
    {progress : RunProgress} {first : SubtaskEntry}
    (h : nextSubtask artifact progress = some first) :
    first ∈ readySubtaskBatch artifact progress first := by
  obtain ⟨hmem, hready⟩ := nextSubtask_some h
  rw [ready, Bool.and_eq_true] at hready
  unfold readySubtaskBatch
  split
  · exact List.mem_singleton.2 rfl
  · rw [List.mem_filter]
    refine ⟨hmem, ?_⟩
    rw [Bool.and_eq_true, Bool.and_eq_true]
    exact ⟨⟨hready.1, by simp⟩, hready.2⟩

theorem readySubtaskBatch_ne_nil {artifact : PlanArtifact}
    {progress : RunProgress} {first : SubtaskEntry}
    (h : nextSubtask artifact progress = some first) :
    readySubtaskBatch artifact progress first ≠ [] :=
  List.ne_nil_of_mem (first_mem_readySubtaskBatch h)

end SdlcOs.Orchestrator
