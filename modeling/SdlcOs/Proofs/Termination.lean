/-
The drive loop terminates.

# The measure

One call of `_drive` by one process, against a backend and a verifier
each of whose calls returns (one diff for each subtask) or raises. The
turns that go round again decrease, lexicographically:

- the rank of the stage, with IMPLEMENTATION and VERIFICATION at one
  rank, since they loop into each other;
- the entries of the plan whose ids are not completed: a batch that
  returns completes at least its first subtask, and may set the failure
  count back to zero;
- the patience: how many more failures can go by before one pauses. The
  acknowledged signatures are finitely many and a drive adds none, so
  past the largest acknowledged count (and three) every failure pauses;
- the phase: implementation before verification.

A turn that pauses leaves a question, and the next turn returns.

Nothing is assumed about the world the drive starts from: any plan, any
record and any acknowledged signatures will do.
-/
import Mathlib.Data.Prod.Lex
import SdlcOs.Effects.Ends
import SdlcOs.Proofs.Seq.Turn

namespace SdlcOs.Orchestrator

open Effects
open Registry (Stage Result ErrorInfo)

namespace Termination

-- ==== the measure

/-- How far a stage is from the end of a drive. -/
def rank : Stage → Nat
  | .intake => 6
  | .research => 5
  | .planAuthoring => 4
  | .implementation => 3
  | .verification => 3
  | .packaging => 2
  | .retrospective => 1
  | _ => 0

/-- Implementation comes before verification. -/
def phase : Stage → Nat
  | .implementation => 1
  | _ => 0

/-- One past the count a signature acknowledges. -/
def acknowledgedCount (signature : Signature) : Nat :=
  match signature.details with
  | .stuck failures _ => failures + 1
  | _ => 0

/-- A count from which on every failure pauses. -/
def limit (acknowledged : List Signature) : Nat :=
  (acknowledged.map acknowledgedCount).foldr max defaultStuckRetryBudget

/-- The entries of the plan that are not completed. -/
def undone (w : World) : Nat :=
  (w.subtasks.filter fun st => st.taskId ∉ w.done).length

/-- The failures that can go by without a pause. -/
def patience (w : World) : Nat := limit w.acknowledged - w.failures

/-- What every turn that goes round again decreases. -/
def measure (w : World) : ℕ ×ₗ ℕ ×ₗ ℕ ×ₗ ℕ :=
  if pendingCheckpoint w.run = .ok none then
    toLex (rank w.run.stage + 1, toLex (undone w,
      toLex (patience w, phase w.run.stage)))
  else toLex (0, toLex (0, toLex (0, 0)))

variable {w w' : World}

theorem measure_of_noPending (h : w.NoPending) :
    measure w = toLex (rank w.run.stage + 1, toLex (undone w,
      toLex (patience w, phase w.run.stage))) := if_pos h

theorem measure_lt_of_pending (hno : w.NoPending) (h : ¬ w'.NoPending) :
    measure w' < measure w := by
  have hzero : measure w' = toLex (0, toLex (0, toLex (0, 0))) := if_neg h
  rw [hzero, measure_of_noPending hno, Prod.Lex.toLex_lt_toLex]
  exact Or.inl (Nat.succ_pos _)

theorem measure_lt_of_rank (hno : w.NoPending)
    (h : rank w'.run.stage < rank w.run.stage) : measure w' < measure w := by
  by_cases hno' : w'.NoPending
  · rw [measure_of_noPending hno', measure_of_noPending hno,
      Prod.Lex.toLex_lt_toLex]
    exact Or.inl (Nat.succ_lt_succ h)
  · exact measure_lt_of_pending hno hno'

theorem measure_lt_of_rest (hno : w.NoPending)
    (hr : rank w'.run.stage = rank w.run.stage)
    (h : (toLex (undone w', toLex (patience w', phase w'.run.stage)) :
        ℕ ×ₗ ℕ ×ₗ ℕ) <
      toLex (undone w, toLex (patience w, phase w.run.stage))) :
    measure w' < measure w := by
  by_cases hno' : w'.NoPending
  · rw [measure_of_noPending hno', measure_of_noPending hno,
      Prod.Lex.toLex_lt_toLex, hr]
    exact Or.inr ⟨rfl, h⟩
  · exact measure_lt_of_pending hno hno'

theorem measure_lt_of_undone (hno : w.NoPending)
    (hr : rank w'.run.stage = rank w.run.stage)
    (h : undone w' < undone w) : measure w' < measure w := by
  refine measure_lt_of_rest hno hr ?_
  rw [Prod.Lex.toLex_lt_toLex]
  exact Or.inl h

theorem measure_lt_of_patience (hno : w.NoPending)
    (hr : rank w'.run.stage = rank w.run.stage)
    (hu : undone w' = undone w) (h : patience w' < patience w) :
    measure w' < measure w := by
  refine measure_lt_of_rest hno hr ?_
  rw [Prod.Lex.toLex_lt_toLex]
  refine Or.inr ⟨hu, ?_⟩
  rw [Prod.Lex.toLex_lt_toLex]
  exact Or.inl h

theorem measure_lt_of_phase (hno : w.NoPending)
    (hr : rank w'.run.stage = rank w.run.stage)
    (hu : undone w' = undone w) (hp : patience w' = patience w)
    (h : phase w'.run.stage < phase w.run.stage) :
    measure w' < measure w := by
  refine measure_lt_of_rest hno hr ?_
  rw [Prod.Lex.toLex_lt_toLex]
  refine Or.inr ⟨hu, ?_⟩
  rw [Prod.Lex.toLex_lt_toLex]
  exact Or.inr ⟨hp, h⟩

-- ==== patience

theorem le_limit (acknowledged : List Signature) :
    defaultStuckRetryBudget ≤ limit acknowledged := by
  unfold limit
  induction acknowledged with
  | nil => exact le_refl _
  | cons s rest ih => exact ih.trans (le_max_right _ _)

theorem acknowledged_lt_limit {acknowledged : List Signature} {n b : Nat}
    (h : (stuckTrigger n b).signature ∈ acknowledged) :
    n < limit acknowledged := by
  unfold limit
  induction acknowledged with
  | nil => cases h
  | cons s rest ih =>
    rcases List.mem_cons.1 h with rfl | h
    · show n + 1 ≤ max (n + 1) _
      exact Nat.le_max_left _ _
    · exact (ih h).trans_le (le_max_right _ _)

theorem failures_lt_limit {p : RunProgress} (h : ¬ StuckOpen p) :
    p.consecutiveSameStageFailures <
      limit p.acknowledgedCheckpointSignatures := by
  by_cases hn : defaultStuckRetryBudget ≤ p.consecutiveSameStageFailures
  · by_contra hlt
    refine h ⟨hn, fun hmem => hlt (acknowledged_lt_limit hmem)⟩
  · exact (Nat.lt_of_not_le hn).trans_le (le_limit _)

theorem patience_lt {p p' : RunProgress} (hp : w.Current p)
    (hp' : w'.progress = some p')
    (hn : p'.consecutiveSameStageFailures =
      p.consecutiveSameStageFailures + 1)
    (hack : p'.acknowledgedCheckpointSignatures =
      p.acknowledgedCheckpointSignatures)
    (hopen : ¬ StuckOpen p') : patience w' < patience w := by
  have hcur : w'.Current p' := Or.inl hp'
  have hlt := failures_lt_limit hopen
  unfold patience
  rw [hcur.failures, hcur.acknowledged, hp.failures, hp.acknowledged]
  rw [hn, hack] at hlt
  rw [hn, hack]
  omega

theorem patience_eq {p p' : RunProgress} (hp : w.Current p)
    (hp' : w'.progress = some p')
    (hn : p'.consecutiveSameStageFailures = p.consecutiveSameStageFailures)
    (hack : p'.acknowledgedCheckpointSignatures =
      p.acknowledgedCheckpointSignatures) : patience w' = patience w := by
  have hcur : w'.Current p' := Or.inl hp'
  unfold patience
  rw [hcur.failures, hcur.acknowledged, hp.failures, hp.acknowledged, hn,
    hack]

-- ==== subtasks

theorem undone_eq {p p' : RunProgress} (hp : w.Current p)
    (hp' : w'.progress = some p') (hplans : w'.plans = w.plans)
    (hdone : p'.completedSubtaskIds = p.completedSubtaskIds) :
    undone w' = undone w := by
  have hcur : w'.Current p' := Or.inl hp'
  unfold undone World.subtasks
  rw [hcur.done, hp.done, hplans, hdone]

/-- A batch that returned with a diff for each subtask completes its
first one, which was not completed. -/
theorem undone_lt {plan : PlanArtifact} {p : RunProgress}
    {first : SubtaskEntry} {diffs : List DiffOutput} (hp : w.Current p)
    (hplan : w.plans.latest = some plan)
    (hnext : nextSubtask plan p = some first)
    (hlen : diffs.length = (readySubtaskBatch plan p first).length)
    (hplans : w'.plans = w.plans)
    (hp' : w'.progress = some
      (p.afterBatch ((readySubtaskBatch plan p first).zip diffs))) :
    undone w' < undone w := by
  have hcur := World.Current.done (Or.inl hp')
  have hids : w'.done = p.completedSubtaskIds ++
      (readySubtaskBatch plan p first).map (·.taskId) := by
    rw [hcur, RunProgress.afterBatch_done, hlen, List.take_length]
  have hsub : w.subtasks = plan.subtasks := by simp [World.subtasks, hplan]
  have hsub' : w'.subtasks = plan.subtasks := by
    simp [World.subtasks, hplans, hplan]
  obtain ⟨hmem, hready⟩ := nextSubtask_some hnext
  rw [ready, Bool.and_eq_true, decide_eq_true_eq] at hready
  unfold undone
  rw [hsub, hsub', hids, hp.done]
  -- what is left after the batch is what was left, less at least `first`
  have hfilter : plan.subtasks.filter (fun st => st.taskId ∉
      p.completedSubtaskIds ++
        (readySubtaskBatch plan p first).map (·.taskId)) =
      (plan.subtasks.filter
        (fun st => st.taskId ∉ p.completedSubtaskIds)).filter
        (fun st => st.taskId ∉
          (readySubtaskBatch plan p first).map (·.taskId)) := by
    rw [List.filter_filter]
    refine List.filter_congr fun st _ => ?_
    simp only [List.mem_append, not_or, Bool.decide_and, Bool.and_comm]
  rw [hfilter, List.length_filter_lt_length_iff_exists]
  refine ⟨first, ?_, ?_⟩
  · rw [List.mem_filter, decide_eq_true_eq]
    exact ⟨hmem, hready.1⟩
  · rw [decide_eq_true_eq, not_not]
    exact List.mem_map_of_mem (first_mem_readySubtaskBatch hnext)

-- ==== one turn

/-- The backend returns one diff for each subtask it is handed. -/
def OneDiff : Event → Prop
  | .implemented _ sts (.returned diffs) => diffs.length = sts.length
  | _ => True

/-- Calls return or raise; only the number of diffs is assumed. -/
def spec : Spec where
  stopOk := fun _ => False
  okEvent := fun _ ev => OneDiff ev
  inv := fun _ => True

theorem cut (w : World) : spec.Cut w := fun _ => trivial

theorem moves_of_lt {next : Stage}
    (h : measure (w'.moved next) < measure w) :
    Spec.Moves spec w' next fun w'' => measure w'' < measure w :=
  ⟨trivial, cut _, h⟩

theorem moves_of_rank {next : Stage} (hno : w.NoPending)
    (h : rank next < rank w.run.stage) :
    Spec.Moves spec w' next fun w'' => measure w'' < measure w :=
  moves_of_lt (measure_lt_of_rank hno h)

theorem moves_to_verification {p p' : RunProgress} (hno : w.NoPending)
    (hst : w.run.stage = .implementation) (hp : w.Current p)
    (hp' : w'.progress = some p') (hplans : w'.plans = w.plans)
    (hdone : p'.completedSubtaskIds = p.completedSubtaskIds)
    (hn : p'.consecutiveSameStageFailures = p.consecutiveSameStageFailures)
    (hack : p'.acknowledgedCheckpointSignatures =
      p.acknowledgedCheckpointSignatures) :
    Spec.Moves spec w' .verification fun w'' => measure w'' < measure w := by
  refine moves_of_lt (measure_lt_of_phase hno ?_ ?_ ?_ ?_)
  · rw [hst]; rfl
  · exact undone_eq hp hp' hplans hdone
  · exact patience_eq hp hp' hn hack
  · show phase .verification < phase w.run.stage
    rw [hst]
    decide

theorem failStep {p : RunProgress} (hno : w.NoPending) (hp : w.Current p)
    (hstage : w'.run.stage = w.run.stage) (hplans : w'.plans = w.plans) :
    Spec.FailStep spec w' p
      (Spec.ImplDone spec fun w'' => measure w'' < measure w) where
  saved := cut _
  paused := fun _ id at' => ⟨cut _,
    measure_lt_of_pending hno (World.pending_pausedAt _ _ id at')⟩
  proceed := by
    intro hopen
    refine ⟨cut _, measure_lt_of_patience hno (congrArg rank hstage) ?_ ?_⟩
    · exact undone_eq hp rfl hplans rfl
    · exact patience_lt hp rfl rfl rfl hopen

theorem implStep {cfg : Config} {artifact : PlanArtifact} {p : RunProgress}
    (hno : w.NoPending) (hst : w.run.stage = .implementation)
    (hplan : w.plans.latest = some artifact) (hp : w.Current p) :
    Spec.ImplStep spec cfg w artifact p
      (Spec.ImplDone spec fun w' => measure w' < measure w) where
  loaded := cut _
  verify := by
    intro _ _
    exact ⟨cut _, moves_to_verification hno hst hp rfl rfl rfl rfl rfl⟩
  may := trivial
  fixupRaised := fun _ _ _ _ _ => ⟨cut _, failStep hno hp rfl rfl⟩
  fixup := by
    intro _ _ st diff _
    exact ⟨cut _, cut _,
      moves_to_verification hno hst hp rfl rfl rfl rfl rfl⟩
  batchRaised := fun _ _ _ _ _ _ => ⟨cut _, failStep hno hp rfl rfl⟩
  batch := by
    intro first batch hnext hbatch diffs hdiffs
    subst hbatch
    have hlen : diffs.length = (readySubtaskBatch artifact p first).length :=
      hdiffs.trans (List.length_map _)
    refine ⟨cut _, cut _, ?_, ?_, ?_⟩
    · intro _ _ t _ _ _ id at'
      exact ⟨cut _,
        measure_lt_of_pending hno (World.pending_pausedAt _ _ id at')⟩
    · intro _ _ _ _ _
      exact ⟨cut _, measure_lt_of_undone hno rfl
        (undone_lt hp hplan hnext hlen rfl rfl)⟩
    · intro _ _ _ _ _
      refine ⟨cut _, moves_of_lt (measure_lt_of_undone hno ?_ ?_)⟩
      · rw [hst]; rfl
      · exact undone_lt hp hplan hnext hlen rfl rfl

theorem verStep (hno : w.NoPending) (hst : w.run.stage = .verification) :
    Spec.VerStep spec w
      (Spec.VerDone spec (fun w' => measure w' < measure w)
        fun _ => True) where
  may := trivial
  called := fun _ _ => cut _
  loaded := fun _ _ _ _ => cut _
  passed := fun _ _ _ _ _ => ⟨cut _, trivial, cut _, trivial⟩
  failed := fun _ _ _ _ _ => cut _
  stuck := fun _ _ _ _ _ _ id at' => ⟨cut _,
    measure_lt_of_pending hno (World.pending_pausedAt _ _ id at')⟩
  retry := by
    intro res p _ hp _ hopen
    -- back to IMPLEMENTATION, which has the same rank
    refine ⟨cut _, moves_of_lt (measure_lt_of_patience hno ?_ ?_ ?_)⟩
    · rw [hst]; rfl
    · exact undone_eq hp rfl rfl rfl
    · exact patience_lt hp rfl rfl rfl hopen

/-- Every turn that goes round again decreases the measure. -/
theorem turns (cfg : Config) (hno : w.NoPending) :
    Spec.Turns spec cfg w (fun w' => measure w' < measure w)
      fun _ => True where
  intake := fun hst => moves_of_rank hno (by rw [hst]; decide)
  research := fun hst => moves_of_rank hno (by rw [hst]; decide)
  author := fun _ _ _ => ⟨cut _, fun _ _ =>
    ⟨cut _, trivial, cut _, trivial⟩⟩
  implement := fun hst _ _ hplan hp => implStep hno hst hplan hp
  verify := verStep hno
  package := fun hst _ => ⟨trivial, fun _ =>
    ⟨cut _, moves_of_rank hno (by rw [hst]; decide)⟩⟩
  unpackaged := fun hst _ => moves_of_rank hno (by rw [hst]; decide)
  retrospective := fun _ => ⟨trivial, cut _, trivial⟩

-- ==== the drive

/-- The answers the environment may give: every call returns or raises,
and a parallel call that returns has one diff for each subtask. -/
def OneDiffEach (_ : World) : (e : Req) → Env e → Prop
  | .implementSubtasksParallel _ sts, .returned diffs =>
    diffs.length = sts.length
  | _, _ => True

theorem assume_of_oneDiffEach {ph : Phase Call Run} {e : Req} {x : Env e}
    (h : OneDiffEach w e x) : spec.contract.assume ph w e x := by
  intro ev hev
  cases e with
  | implementSubtask site ctx st =>
    cases x with
    | returned diff =>
      obtain rfl := Option.some.inj hev
      rfl
    | raised exc =>
      obtain rfl := Option.some.inj hev
      trivial
  | implementSubtasksParallel ctx sts =>
    obtain rfl := Option.some.inj hev
    cases x with
    | returned diffs => exact h
    | raised exc => trivial
  | authorPlan ctx =>
    cases x with
    | returned out =>
      obtain rfl := Option.some.inj hev
      trivial
    | raised exc => cases hev
  | rePlan ctx feedback =>
    cases x with
    | returned out =>
      obtain rfl := Option.some.inj hev
      trivial
    | raised exc => cases hev
  | verify ctx =>
    obtain rfl := Option.some.inj hev
    trivial
  | packaging run =>
    obtain rfl := Option.some.inj hev
    trivial
  | _ => cases hev

theorem loop_ends (cfg : Config) {run : Run}
    (hrun : w.run = run) (hseen : w.Seen cfg) :
    (machine cfg).Ends OneDiffEach RunStatus.Final (driveBody cfg run) w := by
  let head : Run → World → Prop := fun run w => w.run = run ∧ w.Seen cfg
  have hhead : head run w := ⟨hrun, hseen⟩
  refine Machine.ends_of_measure (K := spec.contract) (μ := fun _ w => measure w)
    (M := machine cfg) (fun _ _ _ _ h => assume_of_oneDiffEach h) ?_ hhead
  rintro run w ⟨hrun, hseen⟩
  refine (Spec.wp_driveBody hrun hseen (cut w) trivial (turns cfg)).mono ?_
  intro c w' hc
  cases c with
  | again run' => exact ⟨⟨hc.1, hc.2.1⟩, hc.2.2⟩
  | done st => exact hc.1

/-- Whatever is stored and however the outside calls end, a call of
`_drive` by a single process takes finitely many steps and ends paused,
at a terminal stage or in an exception. -/
theorem drive_terminates (cfg : Config) (w : World) (runId : String) :
    (machine cfg).Ends OneDiffEach RunStatus.Final (drive cfg runId) w ∧
      ∀ (Pid : Type) [DecidableEq Pid] (p : Pid) (ph : Phase Call Run)
        (run : Nat → State Pid), (run 0).world = w →
        (run 0).procs p = some ⟨ph, [], drive cfg runId⟩ →
          ¬ ∀ n, (machine cfg).Takes OneDiffEach p (run n) (run (n + 1)) := by
  have hends : (machine cfg).Ends OneDiffEach RunStatus.Final
      (drive cfg runId) w := by
    have hwp : (machine cfg).Wp spec.contract (.entry (.resumeRun runId))
        (fun c w => ∃ run, c = .again run ∧ w.run = run ∧ w.Seen cfg)
        (drive cfg runId) w :=
      Spec.wp_seq (Spec.wp_getRun_any (cut w) fun hseen _ =>
        ⟨_, rfl, rfl, hseen⟩)
    refine hwp.ends (fun _ _ _ h => assume_of_oneDiffEach h) ?_
    rintro c w ⟨run, rfl, hrun, hseen⟩
    exact .again (loop_ends cfg hrun hseen)
  exact ⟨hends, fun Pid _ p ph run hw hp =>
    hends.no_infinite_run run hw ⟨ph, [], hp⟩⟩

end Termination

end SdlcOs.Orchestrator
