/-
The implementation and verification steps, sequentially.

`StuckOpen` is the one thing both failure paths ask: has the failure
count reached the retry budget at a count nobody has acknowledged. The
other triggers an evaluation may offer are alerted on and dropped there
(`findStuck_evaluate`), so only the regular batch path (`settleBatch`)
mentions them.

`ImplStep` and `VerStep` collect what a step owes: one field for each way
through it. They are stated for an arbitrary postcondition so that the
same lemmas serve the invariants (Turn.lean) and termination.
-/
import SdlcOs.Proofs.Seq.Requests

namespace SdlcOs.Orchestrator

open Effects
open Registry (Stage Result ErrorInfo)

-- ==== vocabulary

/-- The record a step works on: the stored one, or a fresh one if none is
stored. -/
def World.Current (w : World) (p : RunProgress) : Prop :=
  w.progress = some p ∨
    (w.progress = none ∧
      ∃ now, p = RunProgress.fresh w.run.id w.run.currentAttemptId now)

namespace World

/-- The entries of the latest plan. -/
def subtasks (w : World) : List SubtaskEntry :=
  (w.plans.latest.map (·.subtasks)).getD []

/-- The completed ids of the stored record; none before there is one. -/
def done (w : World) : List String :=
  (w.progress.map (·.completedSubtaskIds)).getD []

/-- The failure count of the stored record. -/
def failures (w : World) : Nat :=
  (w.progress.map (·.consecutiveSameStageFailures)).getD 0

/-- The acknowledged signatures of the stored record. -/
def acknowledged (w : World) : List Signature :=
  (w.progress.map (·.acknowledgedCheckpointSignatures)).getD []

variable {w : World} {p : RunProgress}

theorem Current.done (h : w.Current p) : w.done = p.completedSubtaskIds := by
  rcases h with hp | ⟨hp, now, rfl⟩
  · simp [World.done, hp]
  · simp [World.done, hp, RunProgress.fresh]

theorem Current.failures (h : w.Current p) :
    w.failures = p.consecutiveSameStageFailures := by
  rcases h with hp | ⟨hp, now, rfl⟩
  · simp [World.failures, hp]
  · simp [World.failures, hp, RunProgress.fresh]

theorem Current.acknowledged (h : w.Current p) :
    w.acknowledged = p.acknowledgedCheckpointSignatures := by
  rcases h with hp | ⟨hp, now, rfl⟩
  · simp [World.acknowledged, hp]
  · simp [World.acknowledged, hp, RunProgress.fresh]

end World

/-- The failure count has reached the retry budget, and no one has
acknowledged this count. -/
def StuckOpen (p : RunProgress) : Prop :=
  defaultStuckRetryBudget ≤ p.consecutiveSameStageFailures ∧
    (stuckTrigger p.consecutiveSameStageFailures
      defaultStuckRetryBudget).signature ∉ p.acknowledgedCheckpointSignatures

instance (p : RunProgress) : Decidable (StuckOpen p) :=
  inferInstanceAs (Decidable (_ ∧ _))

/-- The trigger a failure path pauses at. -/
def stuckAt (p : RunProgress) : CheckpointTrigger :=
  stuckTrigger p.consecutiveSameStageFailures defaultStuckRetryBudget

/-- The run paused at a trigger. -/
def World.pausedAt (w : World) (t : CheckpointTrigger) (id : String)
    (createdAt : Time) : World :=
  w.pointed (.elicitation (.ofTrigger w.run t id createdAt))

theorem findStuck_open {p : RunProgress} (scope : List String) (b : Budget)
    (now : Time) :
    findStuck (openTriggers p scope b now) =
      if StuckOpen p then some (stuckAt p) else none :=
  findStuck_evaluate _ _ _ _ _ _ _

namespace World

@[simp] theorem pausedAt_plans (w : World) (t : CheckpointTrigger)
    (id : String) (at' : Time) : (w.pausedAt t id at').plans = w.plans := rfl
@[simp] theorem pausedAt_progress (w : World) (t : CheckpointTrigger)
    (id : String) (at' : Time) :
    (w.pausedAt t id at').progress = w.progress := rfl
@[simp] theorem pausedAt_stage (w : World) (t : CheckpointTrigger)
    (id : String) (at' : Time) :
    (w.pausedAt t id at').run.stage = w.run.stage := rfl
@[simp] theorem pausedAt_hist (w : World) (t : CheckpointTrigger)
    (id : String) (at' : Time) : (w.pausedAt t id at').hist = w.hist := rfl
@[simp] theorem pausedAt_pointer (w : World) (t : CheckpointTrigger)
    (id : String) (at' : Time) :
    (w.pausedAt t id at').run.checkpointPointer =
      some (.elicitation (.ofTrigger w.run t id at')) := rfl

end World

-- ==== the pieces

namespace Spec

variable {S : Spec} {cfg : Config} {ph : Phase Call Run}

theorem wp_loadOrStart {run : Run} {Q : RunProgress → World → Prop}
    {w : World} (hrun : w.run = run) (hcut : S.Cut w)
    (h : ∀ p, w.Current p → Q p (w.progressSaved p)) :
    S.Wp cfg ph Q (loadOrStart run) w := by
  subst hrun
  unfold loadOrStart
  refine wp_seq (wp_quiet rfl hcut fun x => ?_)
  have hload : (w.exec (.loadProgress w.run.id) x).2 = w.progress := rfl
  rw [hload]
  cases hp : w.progress with
  | some p =>
    have hQ := h p (Or.inl hp)
    rw [World.progressSaved_self hp] at hQ
    exact hQ
  | none =>
    unfold startNew
    refine wp_seq (wp_quiet rfl hcut fun now => ?_)
    refine wp_seq (wp_saveProgress hcut ?_)
    exact h _ (Or.inr ⟨hp, now, rfl⟩)

theorem wp_pauseAt {run : Run} {t : CheckpointTrigger}
    {Q : Unit → World → Prop} {w : World} (hrun : w.run = run)
    (hcut : S.Cut w)
    (h : ∀ id createdAt, Q () (w.pausedAt t id createdAt)) :
    S.Wp cfg ph Q (pauseAt cfg run t) w := by
  subst hrun
  unfold pauseAt
  refine wp_seq (wp_quiet rfl hcut fun id => ?_)
  refine wp_seq (wp_quiet rfl hcut fun createdAt => ?_)
  exact wp_seq (wp_writeCheckpointPointer rfl hcut (h id createdAt))

/-- What an evaluation of the failure paths comes to: a pause at the
stuck trigger, or nothing. -/
theorem wp_pauseIfStuck {α : Type} {run : Run} {p : RunProgress}
    {scope : List String} {b : Budget} {yes no : α} {Q : α → World → Prop}
    {w : World} (hrun : w.run = run) (hcut : S.Cut w)
    (hpause : StuckOpen p →
      ∀ id createdAt, Q yes (w.pausedAt (stuckAt p) id createdAt))
    (hgo : ¬ StuckOpen p → Q no w) :
    S.Wp cfg ph Q (do
      let now ← ask .clock
      let triggers := openTriggers p scope b now
      alertOnTriggers cfg run triggers
      match findStuck triggers with
      | some stuck => do
        pauseAt cfg run stuck
        pure yes
      | none => pure no) w := by
  refine wp_seq (wp_quiet rfl hcut fun now => ?_)
  refine wp_seq (wp_observeEach hcut ?_)
  rw [findStuck_open]
  by_cases hs : StuckOpen p
  · rw [if_pos hs]
    exact wp_seq (wp_pauseAt hrun hcut (hpause hs))
  · rw [if_neg hs]
    exact hgo hs

/-- What a failed implementation attempt owes: its record saved, and
either a pause or another round. -/
structure FailStep (S : Spec) (w : World) (p : RunProgress)
    (Q : ImplOutcome → World → Prop) : Prop where
  saved : S.Cut (w.progressSaved p.afterFailure)
  paused : StuckOpen p.afterFailure → ∀ id createdAt,
    Q .paused ((w.progressSaved p.afterFailure).pausedAt
      (stuckAt p.afterFailure) id createdAt)
  proceed : ¬ StuckOpen p.afterFailure →
    Q .proceed (w.progressSaved p.afterFailure)

theorem wp_handleImplementationFailure {run : Run} {p : RunProgress}
    {artifact : PlanArtifact} {exc : Exn} {Q : ImplOutcome → World → Prop}
    {w : World} (hrun : w.run = run) (hcut : S.Cut w)
    (h : FailStep S w p Q) :
    S.Wp cfg ph Q (handleImplementationFailure cfg run p artifact exc) w := by
  unfold handleImplementationFailure
  refine wp_seq (wp_saveProgress hcut ?_)
  refine wp_seq (wp_observe h.saved ?_)
  cases artifactBudget cfg artifact with
  | none => exact h.saved
  | some budget =>
    exact wp_pauseIfStuck hrun h.saved h.paused h.proceed

/-- What a successful batch owes: its record saved, and either a pause at
the first open trigger or, with none open, the next round. -/
structure BatchStep (S : Spec) (cfg : Config) (w : World)
    (artifact : PlanArtifact) (p : RunProgress)
    (Q : ImplOutcome → World → Prop) : Prop where
  saved : S.Cut (w.progressSaved p)
  paused : ∀ budget now t rest, artifactBudget cfg artifact = some budget →
    openTriggers p artifact.inScope budget now = t :: rest →
      ∀ id createdAt, Q .paused ((w.progressSaved p).pausedAt t id createdAt)
  proceed : ∀ budget now, artifactBudget cfg artifact = some budget →
    openTriggers p artifact.inScope budget now = [] →
      (nextSubtask artifact p).isSome → Q .proceed (w.progressSaved p)
  verify : ∀ budget now, artifactBudget cfg artifact = some budget →
    openTriggers p artifact.inScope budget now = [] →
      nextSubtask artifact p = none → Q .verify (w.progressSaved p)

theorem wp_settleBatch {run : Run} {artifact : PlanArtifact}
    {p : RunProgress} {batch : List SubtaskEntry} {diffs : List DiffOutput}
    {Q : ImplOutcome → World → Prop} {w : World} (hrun : w.run = run)
    (hcut : S.Cut w)
    (h : BatchStep S cfg w artifact (p.afterBatch (batch.zip diffs)) Q) :
    S.Wp cfg ph Q (settleBatch cfg run artifact p batch diffs) w := by
  unfold settleBatch
  refine wp_seq (wp_saveProgress hcut ?_)
  refine wp_seq (wp_observeEach h.saved ?_)
  cases hb : artifactBudget cfg artifact with
  | none => exact h.saved
  | some budget =>
    refine wp_seq (wp_quiet rfl h.saved fun now => ?_)
    refine wp_seq (wp_observeEach h.saved ?_)
    have hclock : (w.progressSaved (p.afterBatch (batch.zip diffs))).exec
        .clock now =
        (w.progressSaved (p.afterBatch (batch.zip diffs)), now) := rfl
    simp only [hclock]
    cases ht : openTriggers (p.afterBatch (batch.zip diffs))
        artifact.inScope budget now with
    | cons t rest =>
      exact wp_seq (wp_pauseAt hrun h.saved
        (h.paused budget now t rest hb ht))
    | nil =>
      show Q _ _
      cases hn : nextSubtask artifact (p.afterBatch (batch.zip diffs)) with
      | none => exact h.verify budget now hb ht hn
      | some st =>
        exact h.proceed budget now hb ht (by rw [hn]; rfl)

-- ==== the implementation step

/-- The subtasks of a batch go out in one call, whichever way the split
of `dispatch` falls. -/
theorem wp_dispatch {ctx : RunContext} {sts : List SubTask}
    {Q : Reply (List DiffOutput) → World → Prop} {w : World}
    (hne : sts ≠ []) (hcut : S.Cut w) (hmay : S.mayImplement w)
    (hbatch : 2 ≤ sts.length → S.mayBatch w sts)
    (h : ∀ r, S.okEvent w (.implemented .planned sts r) →
      Q r (w.record (.implemented .planned sts r))) :
    S.Wp cfg ph Q (dispatch ctx sts) w := by
  unfold dispatch
  split
  · exact absurd rfl hne
  · next st =>
    refine wp_seq ⟨hcut, hmay, fun x hx => ?_⟩
    cases x with
    | returned diff => exact h _ (hx _ rfl)
    | raised x => exact h _ (hx _ rfl)
  · next hone =>
    have htwo : 2 ≤ sts.length := by
      cases sts with
      | nil => exact absurd rfl hne
      | cons st rest =>
        cases rest with
        | nil => exact absurd rfl (hone st)
        | cons st' rest => exact Nat.le_add_left 2 rest.length
    exact ⟨hcut, ⟨hmay, hbatch htwo⟩, fun x hx => h x (hx _ rfl)⟩

/-- What an implementation step over a loaded plan and record owes, by
the ways through it: nothing to do, a fix-up, or a batch. -/
structure ImplStep (S : Spec) (cfg : Config) (w : World)
    (artifact : PlanArtifact) (p : RunProgress)
    (Q : ImplOutcome → World → Prop) : Prop where
  loaded : S.Cut (w.progressSaved p)
  verify : nextSubtask artifact p = none →
    p.lastVerificationFailureSummary = "" → Q .verify (w.progressSaved p)
  may : S.mayImplement (w.progressSaved p)
  mayBatch : ∀ first, nextSubtask artifact p = some first →
    2 ≤ (readySubtaskBatch artifact p first).length →
      S.mayBatch (w.progressSaved p)
        ((readySubtaskBatch artifact p first).map SubTask.ofEntry) := by
    exact fun _ _ _ => trivial
  fixupRaised : nextSubtask artifact p = none →
    p.lastVerificationFailureSummary ≠ "" → ∀ st x,
      S.okEvent (w.progressSaved p) (.implemented .fixup [st] (.raised x)) →
        S.Cut ((w.progressSaved p).record
          (.implemented .fixup [st] (.raised x))) ∧
        FailStep S ((w.progressSaved p).record
          (.implemented .fixup [st] (.raised x))) p Q
  fixup : nextSubtask artifact p = none →
    p.lastVerificationFailureSummary ≠ "" → ∀ st diff,
      S.okEvent (w.progressSaved p)
        (.implemented .fixup [st] (.returned [diff])) →
        S.Cut ((w.progressSaved p).record
          (.implemented .fixup [st] (.returned [diff]))) ∧
        Q .verify (((w.progressSaved p).record
          (.implemented .fixup [st] (.returned [diff]))).progressSaved
            (p.afterFixup diff))
  batchRaised : ∀ first batch, nextSubtask artifact p = some first →
    batch = readySubtaskBatch artifact p first → ∀ x,
      S.okEvent (w.progressSaved p)
        (.implemented .planned (batch.map SubTask.ofEntry) (.raised x)) →
        S.Cut ((w.progressSaved p).record
          (.implemented .planned (batch.map SubTask.ofEntry) (.raised x))) ∧
        FailStep S ((w.progressSaved p).record
          (.implemented .planned (batch.map SubTask.ofEntry) (.raised x))) p Q
  batch : ∀ first batch, nextSubtask artifact p = some first →
    batch = readySubtaskBatch artifact p first → ∀ diffs,
      S.okEvent (w.progressSaved p)
        (.implemented .planned (batch.map SubTask.ofEntry)
          (.returned diffs)) →
        S.Cut ((w.progressSaved p).record
          (.implemented .planned (batch.map SubTask.ofEntry)
            (.returned diffs))) ∧
        BatchStep S cfg ((w.progressSaved p).record
          (.implemented .planned (batch.map SubTask.ofEntry)
            (.returned diffs))) artifact (p.afterBatch (batch.zip diffs)) Q

theorem wp_implementationStep {run : Run} {Q : ImplOutcome → World → Prop}
    {w : World} (hrun : w.run = run) (hcut : S.Cut w)
    (h : ∀ artifact p, w.plans.latest = some artifact → w.Current p →
      ImplStep S cfg w artifact p Q) :
    S.Wp cfg ph Q (implementationStep cfg run) w := by
  unfold implementationStep
  refine wp_seq (wp_quiet rfl hcut fun x => ?_)
  have hload : (w.exec (.loadLatest run.id) x).2 = w.plans.latest := rfl
  rw [hload]
  cases hplan : w.plans.latest with
  | none => exact hcut
  | some artifact =>
    refine wp_seq (wp_loadOrStart hrun hcut fun p hp => ?_)
    have hstep := h artifact p hplan hp
    cases hnext : nextSubtask artifact p with
    | none =>
      show S.Wp cfg ph Q (if p.lastVerificationFailureSummary = ""
        then _ else _) _
      by_cases hsum : p.lastVerificationFailureSummary = ""
      · rw [if_pos hsum]
        exact hstep.verify hnext hsum
      · rw [if_neg hsum]
        refine wp_seq (wp_quiet rfl hstep.loaded fun hex => ?_)
        refine wp_seq (wp_runContext hstep.loaded fun ctx => ?_)
        refine wp_seq ⟨hstep.loaded, hstep.may, fun r hr => ?_⟩
        cases r with
        | raised x =>
          obtain ⟨hc, hf⟩ := hstep.fixupRaised hnext hsum _ x (hr _ rfl)
          exact wp_handleImplementationFailure hrun hc hf
        | returned diff =>
          obtain ⟨hc, hQ⟩ := hstep.fixup hnext hsum _ diff (hr _ rfl)
          exact wp_seq (wp_saveProgress hc hQ)
    | some first =>
      refine wp_seq (wp_runContext hstep.loaded fun ctx => ?_)
      have hne : (readySubtaskBatch artifact p first).map SubTask.ofEntry
          ≠ [] := by
        rw [ne_eq, List.map_eq_nil_iff]
        exact readySubtaskBatch_ne_nil hnext
      have hbatch := hstep.mayBatch first hnext
      rw [← List.length_map SubTask.ofEntry] at hbatch
      refine wp_seq (wp_dispatch hne hstep.loaded hstep.may hbatch
        fun r hr => ?_)
      cases r with
      | raised x =>
        obtain ⟨hc, hf⟩ := hstep.batchRaised first _ hnext rfl x hr
        exact wp_handleImplementationFailure hrun hc hf
      | returned diffs =>
        obtain ⟨hc, hb⟩ := hstep.batch first _ hnext rfl diffs hr
        exact wp_settleBatch hrun hc hb

-- ==== the verification step

/-- What a verification step owes, by the ways through it. -/
structure VerStep (S : Spec) (w : World) (Q : VerOutcome → World → Prop) :
    Prop where
  may : S.mayVerify w
  called : ∀ r, S.okEvent w (.verified r) → S.Cut (w.record (.verified r))
  loaded : ∀ res p, S.okEvent w (.verified (.returned res)) → w.Current p →
    S.Cut ((w.record (.verified (.returned res))).progressSaved p)
  passed : ∀ res p, S.okEvent w (.verified (.returned res)) → w.Current p →
    res.passed = true →
      Q .passed ((w.record (.verified (.returned res))).progressSaved
        p.afterPass)
  failed : ∀ res p, S.okEvent w (.verified (.returned res)) → w.Current p →
    res.passed = false →
      S.Cut ((w.record (.verified (.returned res))).progressSaved
        (p.afterVerificationFailure res.summary))
  stuck : ∀ res p, S.okEvent w (.verified (.returned res)) → w.Current p →
    res.passed = false → StuckOpen (p.afterVerificationFailure res.summary) →
      ∀ id createdAt,
        Q .stuck (((w.record (.verified (.returned res))).progressSaved
          (p.afterVerificationFailure res.summary)).pausedAt
            (stuckAt (p.afterVerificationFailure res.summary)) id createdAt)
  retry : ∀ res p, S.okEvent w (.verified (.returned res)) → w.Current p →
    res.passed = false → ¬ StuckOpen (p.afterVerificationFailure res.summary) →
      Q .retry ((w.record (.verified (.returned res))).progressSaved
        (p.afterVerificationFailure res.summary))

theorem wp_verificationStep {run : Run} {Q : VerOutcome → World → Prop}
    {w : World} (hrun : w.run = run) (hcut : S.Cut w)
    (h : VerStep S w Q) :
    S.Wp cfg ph Q (verificationStep cfg run) w := by
  unfold verificationStep
  refine wp_seq (wp_runContext hcut fun ctx => ?_)
  refine wp_seq ⟨hcut, h.may, fun r hr => ?_⟩
  have hok := hr _ rfl
  cases r with
  | raised x => exact h.called _ hok
  | returned res =>
    refine wp_seq (wp_loadOrStart hrun (h.called _ hok) fun p hp => ?_)
    have hloaded := h.loaded res p hok hp
    cases hpass : res.passed with
    | true =>
      exact wp_seq (wp_saveProgress hloaded (h.passed res p hok hp hpass))
    | false =>
      have hfail := h.failed res p hok hp hpass
      refine wp_seq (wp_saveProgress hloaded ?_)
      refine wp_seq (wp_quiet rfl hfail fun _ => ?_)
      refine wp_seq (wp_quiet rfl hfail fun _ => ?_)
      split
      · exact hfail
      · refine wp_seq (wp_quiet rfl hfail fun _ => ?_)
        split
        · exact hfail
        · split
          · exact hfail
          · exact wp_pauseIfStuck hrun hfail
              (h.stuck res p hok hp hpass) (h.retry res p hok hp hpass)

end Spec

end SdlcOs.Orchestrator
