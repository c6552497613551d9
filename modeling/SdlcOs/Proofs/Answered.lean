/-
Which size and risk violations have been answered when the run leaves
implementation.

# Where the code evaluates

Only the regular batch path evaluates the accumulated diff, and it
presents the first open trigger. Three ways around it remain. A fix-up
changes the diff and goes straight back to verification. An answer
acknowledges one trigger, and with no subtask left to run nothing looks
at a second one. And a process that stops between saving a last batch
and writing its question (or between marking the question resolved and
recording the answer) leaves an open trigger behind with no question.

`terms` excludes exactly these three. Under them a run with nothing left
to implement and no question open has no open trigger (`Inv`).

# Extending the scope

`extend_scope` widens the declared scope by the files the question
named. That answers the risk trigger because the record does not change
while its question is pending, so the named files are still the files
out of scope (`asked_risk`).
-/
import SdlcOs.Orchestrator.Script
import SdlcOs.Proofs.Seq.Turn

namespace SdlcOs.Orchestrator

open Effects
open Registry (Stage Result ErrorInfo)

namespace Answered

-- ==== vocabulary

/-- The size and risk triggers of a record, against the budget and scope
of a plan, that nobody has acknowledged. -/
def openSizeRisk (plan : PlanArtifact) (p : RunProgress) :
    List CheckpointTrigger :=
  unacknowledged p.acknowledgedCheckpointSignatures
    ([checkSize p.diffStats plan.budget,
      checkRisk p.diffStats plan.inScope].filterMap id)

/-- No size or risk violation of the saved record is left unanswered. -/
def AllAnswered (w : World) : Prop :=
  ∀ plan ∈ w.plans.latest, ∀ p ∈ w.progress, openSizeRisk plan p = []

/-- Nothing is left to implement. -/
def Exhausted (w : World) : Prop :=
  ∀ plan ∈ w.plans.latest, ∀ p ∈ w.progress, nextSubtask plan p = none

/-- A stop here would leave an open trigger that nothing asks about. -/
def Unasked (w : World) : Prop :=
  w.run.stage = .implementation ∧ w.NoPending ∧ Exhausted w ∧
    ¬ AllAnswered w

/-- The pending question is the only open one. -/
def OnlyQuestion (w : World) : Prop :=
  ∀ e ∈ w.question, ∀ plan ∈ w.plans.latest, ∀ p ∈ w.progress,
    ∀ t ∈ openSizeRisk plan p, some t.signature = e.signature

/-- The fix-up leaves no open trigger. -/
def CleanFixup (w : World) : Event → Prop
  | .implemented .fixup _ (.returned diffs) =>
    ∀ diff ∈ diffs, ∀ plan ∈ w.plans.latest, ∀ p ∈ w.progress,
      openSizeRisk plan (p.afterFixup diff) = []
  | _ => True

/-- The call answers a question that is not the only one, with nothing
left to implement. -/
def AnswersOne (w : World) : Call → Prop
  | .resolveCheckpoint _ decision _ =>
    decision ≠ "stop" → w.run.stage = .implementation → Exhausted w →
      OnlyQuestion w
  | _ => True

/-- The runs that keep off the three ways around. -/
def terms : Terms where
  stopOk := fun w => ¬ Unasked w
  callOk := AnswersOne
  okEvent := CleanFixup

instance (w : World) : Decidable (AllAnswered w) :=
  inferInstanceAs (Decidable (∀ plan ∈ w.plans.latest, ∀ p ∈ w.progress, _))

instance (w : World) : Decidable (Exhausted w) :=
  inferInstanceAs (Decidable (∀ plan ∈ w.plans.latest, ∀ p ∈ w.progress, _))

instance (w : World) : Decidable (Unasked w) :=
  inferInstanceAs (Decidable (_ ∧ pendingCheckpoint w.run = .ok none ∧ _ ∧ _))

instance (w : World) : Decidable (OnlyQuestion w) :=
  inferInstanceAs (Decidable (∀ e ∈ w.question, ∀ plan ∈ w.plans.latest,
    ∀ p ∈ w.progress, ∀ t ∈ openSizeRisk plan p, _))

instance (w : World) (ev : Event) : Decidable (terms.okEvent w ev) :=
  match ev with
  | .implemented .fixup _ (.returned diffs) =>
    inferInstanceAs (Decidable (∀ diff ∈ diffs, ∀ plan ∈ w.plans.latest,
      ∀ p ∈ w.progress, openSizeRisk plan (p.afterFixup diff) = []))
  | .implemented .fixup _ (.raised _) => isTrue trivial
  | .implemented .planned _ _ => isTrue trivial
  | .called _ | .stopped _ | .authored _ | .replanned _ _ | .verified _
  | .packaged | .approved _ | .answered _ => isTrue trivial

instance (w : World) (c : Call) : Decidable (terms.callOk w c) :=
  match c with
  | .resolveCheckpoint _ decision _ =>
    inferInstanceAs (Decidable (decision ≠ "stop" →
      w.run.stage = .implementation → Exhausted w → OnlyQuestion w))
  | .resumeRun _ | .approvePlan .. | .approveChangeReview .. => isTrue trivial

instance (w : World) : Decidable (terms.stopOk w) :=
  inferInstanceAs (Decidable (¬ Unasked w))

-- ==== the evaluation

theorem mem_openSizeRisk {plan : PlanArtifact} {p : RunProgress}
    {t : CheckpointTrigger} :
    t ∈ openSizeRisk plan p ↔
      (checkSize p.diffStats plan.budget = some t ∨
        checkRisk p.diffStats plan.inScope = some t) ∧
      t.signature ∉ p.acknowledgedCheckpointSignatures := by
  simp only [openSizeRisk, unacknowledged, List.mem_filter,
    List.mem_filterMap, decide_eq_true_eq, id_eq, List.mem_cons,
    List.not_mem_nil, or_false]
  refine and_congr_left fun _ => ?_
  constructor
  · rintro ⟨_, h | h, ht⟩
    · exact Or.inl (h ▸ ht)
    · exact Or.inr (h ▸ ht)
  · rintro (h | h)
    · exact ⟨_, Or.inl rfl, h⟩
    · exact ⟨_, Or.inr rfl, h⟩

theorem openSizeRisk_congr {plan : PlanArtifact} {p p' : RunProgress}
    (hdiff : p'.diffStats = p.diffStats)
    (hack : p'.acknowledgedCheckpointSignatures =
      p.acknowledgedCheckpointSignatures) :
    openSizeRisk plan p' = openSizeRisk plan p := by
  rw [openSizeRisk, openSizeRisk, hdiff, hack]

theorem openSizeRisk_fresh (plan : PlanArtifact) (id attempt : String)
    (now : Time) : openSizeRisk plan (.fresh id attempt now) = [] := by
  obtain ⟨hsize, hrisk⟩ := check_empty plan.budget plan.inScope
  rw [List.eq_nil_iff_forall_not_mem]
  intro t ht
  rcases (mem_openSizeRisk.1 ht).1 with h | h
  · rw [show (RunProgress.fresh id attempt now).diffStats = ⟨[], 0⟩ from rfl,
      hsize] at h
    cases h
  · rw [show (RunProgress.fresh id attempt now).diffStats = ⟨[], 0⟩ from rfl,
      hrisk] at h
    cases h

theorem openSizeRisk_of_none {plan : PlanArtifact} {p : RunProgress}
    {now : Time} (h : openTriggers p plan.inScope plan.budget now = []) :
    openSizeRisk plan p = [] := by
  rw [List.eq_nil_iff_forall_not_mem] at h ⊢
  intro t ht
  obtain ⟨hfired, hack⟩ := mem_openSizeRisk.1 ht
  refine h t ?_
  rw [openTriggers, unacknowledged, List.mem_filter]
  refine ⟨?_, by simpa using hack⟩
  rw [mem_evaluateCheckpoints]
  rcases hfired with h | h
  · exact Or.inl h
  · exact Or.inr (Or.inl h)

theorem openSizeRisk_acknowledge {plan : PlanArtifact} {p : RunProgress}
    {sig : Signature} (h : ∀ t ∈ openSizeRisk plan p, t.signature = sig) :
    openSizeRisk plan (p.acknowledge sig) = [] := by
  have hack : ∀ s, s ∈ (p.acknowledge sig).acknowledgedCheckpointSignatures ↔
      s ∈ p.acknowledgedCheckpointSignatures ∨ s = sig := by
    intro s
    unfold RunProgress.acknowledge
    split
    · next hin =>
      constructor
      · exact Or.inl
      · rintro (h | rfl)
        · exact h
        · exact hin
    · simp
  have hdiff : (p.acknowledge sig).diffStats = p.diffStats := by
    unfold RunProgress.acknowledge
    split <;> rfl
  rw [List.eq_nil_iff_forall_not_mem]
  intro t ht
  obtain ⟨hfired, hnot⟩ := mem_openSizeRisk.1 ht
  rw [hdiff] at hfired
  rw [hack, not_or] at hnot
  exact hnot.2 (h t (mem_openSizeRisk.2 ⟨hfired, hnot.1⟩))

/-- Once the scope holds every file that was out of it, no risk trigger
fires. -/
theorem checkRisk_extended (p : RunProgress) (plan : PlanArtifact)
    (now : Time) :
    checkRisk p.diffStats (plan.extendScope
      (outOfScopeTouches p.filesTouched plan.inScope) now).inScope = none := by
  refine checkRisk_eq_none ?_
  intro f hf
  show f ∈ sortedSet _
  rw [mem_sortedSet, List.mem_append]
  by_cases hin : f ∈ plan.inScope
  · exact Or.inl hin
  · refine Or.inr ?_
    simp only [outOfScopeTouches, mem_sortedSet, List.mem_filter,
      decide_eq_true_eq]
    exact ⟨hf, hin⟩

theorem openSizeRisk_extended {plan : PlanArtifact} {p : RunProgress}
    {files : List String} {now : Time}
    (hfiles : files = outOfScopeTouches p.filesTouched plan.inScope)
    (h : openSizeRisk plan p = []) :
    openSizeRisk (plan.extendScope files now) p = [] := by
  rw [List.eq_nil_iff_forall_not_mem] at h ⊢
  intro t ht
  obtain ⟨hfired, hack⟩ := mem_openSizeRisk.1 ht
  rcases hfired with hsize | hrisk
  · exact h t (mem_openSizeRisk.2 ⟨Or.inl hsize, hack⟩)
  · rw [hfiles, checkRisk_extended] at hrisk
    cases hrisk

-- ==== the invariant

/-- A pending question carries its own signature, and one about risk
names the files that are out of scope now. -/
structure Asked (w : World) (e : Elicitation) : Prop where
  signed : e.signature = some ⟨e.trigger, e.details⟩
  risk : e.trigger = .risk → ∀ plan ∈ w.plans.latest, ∀ p ∈ w.progress,
    e.details = .risk (outOfScopeTouches p.filesTouched plan.inScope)

/-- What every world between turns satisfies. -/
structure Inv (cfg : Config) (w : World) : Prop where
  unstarted : w.run.stage.planning = true →
    w.progress = none ∧ w.run.checkpointPointer = none
  budgeted : ∀ plan ∈ w.plans.latest,
    artifactBudget cfg plan = some plan.budget
  exhausted : w.run.stage = .implementation → w.NoPending →
    Exhausted w → AllAnswered w
  verified : w.run.stage = .verification ∨ w.run.stage = .changeReviewGate →
    AllAnswered w
  asked : ∀ e ∈ w.question, Asked w e

/-- Under the terms, no turn moves the run on to verification with a size
or risk violation nobody answered. -/
def spec (cfg : Config) : Spec where
  toTerms := terms
  inv := Inv cfg
  mayMove := fun w next => next = .verification → AllAnswered w

variable {cfg : Config} {w w' : World}

theorem Asked.frame {e : Elicitation} (h : Asked w e)
    (hlatest : w'.plans.latest = w.plans.latest)
    (hprog : w'.progress = w.progress) : Asked w' e := by
  refine ⟨h.signed, ?_⟩
  rw [hlatest, hprog]
  exact h.risk

theorem Inv.record (h : Inv cfg w) (ev : Event) : Inv cfg (w.record ev) :=
  ⟨h.unstarted, h.budgeted, h.exhausted, h.verified,
    fun e he => (h.asked e he).frame rfl rfl⟩

theorem cut_of_inv (h : Inv cfg w) : (spec cfg).Cut w := fun _ => h.record _

theorem round_of_inv (h : Inv cfg w) :
    (spec cfg).Cut w ∧ (spec cfg).inv w := ⟨cut_of_inv h, h⟩

theorem moves_of_inv {next : Stage} (hne : next ≠ .verification)
    (h : Inv cfg (w.moved next)) :
    (spec cfg).Moves w next (spec cfg).inv :=
  ⟨fun he => absurd he hne, cut_of_inv h, h⟩

theorem allAnswered_iff {plan : PlanArtifact} {p : RunProgress}
    (hplan : w.plans.latest = some plan) (hp : w.progress = some p) :
    AllAnswered w ↔ openSizeRisk plan p = [] := by
  simp [AllAnswered, hplan, hp]

theorem exhausted_iff {plan : PlanArtifact} {p : RunProgress}
    (hplan : w.plans.latest = some plan) (hp : w.progress = some p) :
    Exhausted w ↔ nextSubtask plan p = none := by
  simp [Exhausted, hplan, hp]

theorem inv_planning (hplanning : w.run.stage.planning = true)
    (hbud : ∀ plan ∈ w.plans.latest, artifactBudget cfg plan = some plan.budget)
    (hnone : w.progress = none) (hptr : w.run.checkpointPointer = none) :
    Inv cfg w where
  unstarted := fun _ => ⟨hnone, hptr⟩
  budgeted := hbud
  exhausted := by
    intro hst
    rw [hst] at hplanning
    cases hplanning
  verified := by
    rintro (hst | hst) <;> rw [hst] at hplanning <;> cases hplanning
  asked := by
    have hno : w.NoPending := by
      simp [World.NoPending, pendingCheckpoint, hptr]
    rw [World.question_of_noPending hno]
    intro e he
    cases he

theorem inv_unasked (hnp : w.run.stage.planning = false)
    (hbud : ∀ plan ∈ w.plans.latest, artifactBudget cfg plan = some plan.budget)
    (hno : w.NoPending)
    (hex : w.run.stage = .implementation → Exhausted w → AllAnswered w)
    (hver : w.run.stage = .verification ∨ w.run.stage = .changeReviewGate →
      AllAnswered w) : Inv cfg w where
  unstarted := by
    rw [hnp]
    intro hc
    cases hc
  budgeted := hbud
  exhausted := fun hst _ => hex hst
  verified := hver
  asked := by
    rw [World.question_of_noPending hno]
    intro e he
    cases he

theorem inv_paused {t : CheckpointTrigger} {id : String} {createdAt : Time}
    (hst : w.run.stage.planning = false)
    (hbud : ∀ plan ∈ w.plans.latest, artifactBudget cfg plan = some plan.budget)
    (hver : w.run.stage = .verification ∨ w.run.stage = .changeReviewGate →
      AllAnswered w)
    (hrisk : t.kind = .risk → ∀ plan ∈ w.plans.latest, ∀ p ∈ w.progress,
      t.details = .risk (outOfScopeTouches p.filesTouched plan.inScope)) :
    Inv cfg (w.pausedAt t id createdAt) where
  unstarted := by
    intro hc
    rw [World.pausedAt_stage, hst] at hc
    cases hc
  budgeted := hbud
  exhausted := by
    intro _ hno
    exact absurd hno (World.pending_pausedAt w t id createdAt)
  verified := hver
  asked := by
    rw [World.question_pausedAt]
    intro e he
    obtain rfl := Option.some.inj he
    exact ⟨rfl, hrisk⟩

-- ==== the steps

theorem openTriggers_risk {p : RunProgress} {scope : List String}
    {b : Budget} {now : Time} {t : CheckpointTrigger}
    (ht : t ∈ openTriggers p scope b now) (hkind : t.kind = .risk) :
    t.details = .risk (outOfScopeTouches p.filesTouched scope) := by
  rw [openTriggers, unacknowledged, List.mem_filter] at ht
  rcases mem_evaluateCheckpoints.1 ht.1 with h | h | h | h
  · rw [checkSize_kind h] at hkind
    cases hkind
  · exact (checkRisk_kind h).2
  · rw [checkTimeCost_kind h] at hkind
    cases hkind
  · unfold checkStuck at h
    split at h
    · injection h with h
      rw [← h] at hkind
      cases hkind
    · cases h

/-- The record a step works on is answered once nothing is left to
implement. -/
theorem current_answered {plan : PlanArtifact} {p : RunProgress}
    (hex : Exhausted w → AllAnswered w)
    (hplan : w.plans.latest = some plan) (hp : w.Current p)
    (hnext : nextSubtask plan p = none) : openSizeRisk plan p = [] := by
  rcases hp with hp | ⟨_, now, rfl⟩
  · exact (allAnswered_iff hplan hp).1
      (hex ((exhausted_iff hplan hp).2 hnext))
  · exact openSizeRisk_fresh _ _ _ _

theorem implStep {plan : PlanArtifact} {p : RunProgress}
    (hst : w.run.stage = .implementation) (h : Inv cfg w)
    (hno : w.NoPending) (hplan : w.plans.latest = some plan)
    (hp : w.Current p) :
    (spec cfg).ImplStep cfg w plan p ((spec cfg).ImplDone (spec cfg).inv) := by
  have hopen := current_answered (h.exhausted hst hno) hplan hp
  have hbud : artifactBudget cfg plan = some plan.budget :=
    h.budgeted plan hplan
  -- worlds of this turn whose row is still unpaused
  have hround : ∀ (w' : World) (p' : RunProgress),
      w'.run.stage = w.run.stage →
      w'.run.checkpointPointer = w.run.checkpointPointer →
      w'.plans = w.plans → w'.progress = some p' →
      (nextSubtask plan p' = none → openSizeRisk plan p' = []) →
        Inv cfg w' := by
    intro w' p' hst' hptr hplans hp' hans
    have hplan' : w'.plans.latest = some plan := by rw [hplans, hplan]
    refine inv_unasked (by rw [hst', hst]; rfl) ?_ (World.noPending_congr hptr hno)
      ?_ ?_
    · rw [hplans]
      exact h.budgeted
    · intro _ hex
      exact (allAnswered_iff hplan' hp').2
        (hans ((exhausted_iff hplan' hp').1 hex))
    · rw [hst', hst]
      rintro (hc | hc) <;> cases hc
  have hverify : ∀ (w' : World) (p' : RunProgress),
      w'.run.stage = w.run.stage →
      w'.run.checkpointPointer = w.run.checkpointPointer →
      w'.plans = w.plans → w'.progress = some p' →
      openSizeRisk plan p' = [] →
        (spec cfg).ImplDone (spec cfg).inv .verify w' := by
    intro w' p' hst' hptr hplans hp' hans
    have hinv := hround w' p' hst' hptr hplans hp' (fun _ => hans)
    have hall : AllAnswered w' :=
      (allAnswered_iff (by rw [hplans, hplan]) hp').2 hans
    have hmoved : Inv cfg (w'.moved .verification) :=
      { unstarted := fun hc => by cases hc
        budgeted := hinv.budgeted
        exhausted := fun hc => by cases hc
        verified := fun _ => hall
        asked := fun e he => (hinv.asked e he).frame rfl rfl }
    exact ⟨cut_of_inv hinv, fun _ => hall, cut_of_inv hmoved, hmoved⟩
  have hfail : ∀ w' : World, w'.run = w.run → w'.plans = w.plans →
      (spec cfg).FailStep w' p ((spec cfg).ImplDone (spec cfg).inv) := by
    intro w' hrun hplans
    have hsaved : Inv cfg (w'.progressSaved p.afterFailure) :=
      hround _ p.afterFailure (by rw [← hrun]; rfl) (by rw [← hrun]; rfl)
        hplans rfl hopen
    refine ⟨cut_of_inv hsaved, ?_, fun _ => round_of_inv hsaved⟩
    intro _ id createdAt
    refine round_of_inv (inv_paused ?_ hsaved.budgeted hsaved.verified ?_)
    · rw [World.progressSaved_run, hrun, hst]
      rfl
    · intro hc
      cases hc
  refine
    { loaded := cut_of_inv (hround _ p rfl rfl rfl rfl hopen)
      verify := fun hnext _ => hverify _ p rfl rfl rfl rfl (hopen hnext)
      may := trivial
      fixupRaised := fun _ _ _ _ _ =>
        ⟨cut_of_inv (hround _ p rfl rfl rfl rfl hopen), hfail _ rfl rfl⟩
      fixup := ?_
      batchRaised := fun _ _ _ _ _ _ =>
        ⟨cut_of_inv (hround _ p rfl rfl rfl rfl hopen), hfail _ rfl rfl⟩
      batch := ?_ }
  · -- a fix-up goes back to verification unevaluated
    intro _ _ st diff hok
    refine ⟨cut_of_inv (hround _ p rfl rfl rfl rfl hopen), ?_⟩
    exact hverify _ (p.afterFixup diff) rfl rfl rfl rfl
      (hok diff (List.mem_singleton.2 rfl) plan hplan p rfl)
  · rintro first batch _ rfl diffs _
    refine ⟨cut_of_inv (hround _ p rfl rfl rfl rfl hopen), ?_⟩
    refine ⟨?_, ?_, ?_, ?_⟩
    · -- a stop after the save: the terms keep it off an unasked trigger
      intro hstop
      refine Inv.record ?_ _
      refine hround _ _ rfl rfl rfl rfl ?_
      intro hnext
      by_contra hne
      refine hstop ⟨hst, hno, ?_, ?_⟩
      · exact (exhausted_iff (w := World.progressSaved _ _) hplan rfl).2 hnext
      · intro hall
        exact hne ((allAnswered_iff (w := World.progressSaved _ _) hplan
          rfl).1 hall)
    · intro budget now t rest hb ht id createdAt
      refine round_of_inv (inv_paused ?_ h.budgeted ?_ ?_)
      · show w.run.stage.planning = false
        rw [hst]
        rfl
      · intro hc
        replace hc : w.run.stage = .verification ∨
          w.run.stage = .changeReviewGate := hc
        rw [hst] at hc
        rcases hc with hc | hc <;> cases hc
      · intro hkind plan' hplan' p' hp'
        obtain rfl : plan = plan' := Option.some.inj (hplan.symm.trans hplan')
        obtain rfl := Option.some.inj hp'
        exact openTriggers_risk (ht ▸ List.mem_cons_self) hkind
    · intro budget now hb ht hsome
      refine round_of_inv (hround _ _ rfl rfl rfl rfl ?_)
      intro hnext
      rw [hnext] at hsome
      cases hsome
    · intro budget now hb ht hnext
      obtain rfl : plan.budget = budget := Option.some.inj (hbud.symm.trans hb)
      exact hverify _ _ rfl rfl rfl rfl (openSizeRisk_of_none ht)

theorem current_allAnswered {p p' : RunProgress} (hall : AllAnswered w)
    (hp : w.Current p) (hdiff : p'.diffStats = p.diffStats)
    (hack : p'.acknowledgedCheckpointSignatures =
      p.acknowledgedCheckpointSignatures)
    (hlatest : w'.plans.latest = w.plans.latest)
    (hp' : w'.progress = some p') : AllAnswered w' := by
  intro plan hplan q hq
  rw [hlatest] at hplan
  obtain rfl : p' = q := Option.some.inj (hp'.symm.trans hq)
  rw [openSizeRisk_congr hdiff hack]
  rcases hp with hp | ⟨_, now, rfl⟩
  · exact hall plan hplan p hp
  · exact openSizeRisk_fresh _ _ _ _

theorem verStep (hst : w.run.stage = .verification) (h : Inv cfg w)
    (hno : w.NoPending) :
    (spec cfg).VerStep w ((spec cfg).VerDone (spec cfg).inv (spec cfg).inv) := by
  have hall := h.verified (Or.inl hst)
  -- every world of this turn, paused or moved on, is answered
  have hround : ∀ (p : RunProgress), w.Current p → ∀ (w' : World)
      (p' : RunProgress), p'.diffStats = p.diffStats →
      p'.acknowledgedCheckpointSignatures =
        p.acknowledgedCheckpointSignatures →
      w'.run.stage.planning = false →
      w'.run.checkpointPointer = w.run.checkpointPointer →
      w'.plans = w.plans → w'.progress = some p' → Inv cfg w' := by
    intro p hp w' p' hdiff hack hnp hptr hplans hp'
    have hall' : AllAnswered w' :=
      current_allAnswered hall hp hdiff hack (by rw [hplans]) hp'
    refine inv_unasked hnp ?_ (World.noPending_congr hptr hno) (fun _ _ => hall')
      (fun _ => hall')
    rw [hplans]
    exact h.budgeted
  have hnp : w.run.stage.planning = false := by
    rw [hst]
    rfl
  refine ⟨trivial, fun _ _ => cut_of_inv (h.record _), ?_, ?_, ?_, ?_, ?_⟩
  · intro res p _ hp
    exact cut_of_inv (hround p hp _ p rfl rfl hnp rfl rfl rfl)
  · intro res p _ hp _
    exact ⟨cut_of_inv (hround p hp _ p.afterPass rfl rfl hnp rfl rfl rfl),
      moves_of_inv (by decide)
        (hround p hp _ p.afterPass rfl rfl rfl rfl rfl rfl)⟩
  · intro res p _ hp _
    exact cut_of_inv (hround p hp _ (p.afterVerificationFailure res.summary)
      rfl rfl hnp rfl rfl rfl)
  · intro res p _ hp _ _ id createdAt
    have hsaved := hround p hp
      ((w.record (.verified (.returned res))).progressSaved
        (p.afterVerificationFailure res.summary))
      (p.afterVerificationFailure res.summary) rfl rfl hnp rfl rfl rfl
    refine round_of_inv (inv_paused hnp hsaved.budgeted hsaved.verified ?_)
    intro hc
    cases hc
  · intro res p _ hp _ _
    exact ⟨cut_of_inv (hround p hp _ (p.afterVerificationFailure res.summary)
        rfl rfl hnp rfl rfl rfl),
      moves_of_inv (by decide) (hround p hp _
        (p.afterVerificationFailure res.summary) rfl rfl rfl rfl rfl rfl)⟩

/-- Moving an unpaused or answered run keeps the invariant where the new
stage asks for nothing more. -/
theorem Inv.moved {next : Stage} (h : Inv cfg w)
    (hnp : next.planning = false)
    (hall : next = .implementation ∨ next = .verification ∨
      next = .changeReviewGate → AllAnswered w) : Inv cfg (w.moved next) where
  unstarted := by
    rw [World.moved_stage, hnp]
    intro hc
    cases hc
  budgeted := h.budgeted
  exhausted := fun hst _ _ => hall (Or.inl hst)
  verified := fun hst => hall (Or.inr hst)
  asked := fun e he => (h.asked e he).frame rfl rfl

theorem generated_budget {out : PlanOutput} {text : String}
    {artifact : PlanArtifact} (h : Generated cfg w out text artifact) :
    artifactBudget cfg artifact = some artifact.budget := by
  obtain ⟨budget, now, demoted, hbud, hgen⟩ := h
  obtain ⟨hsize, hcross, hb⟩ := generatePlanArtifact_risk hgen
  rw [artifactBudget, hsize, hcross, hb]
  exact hbud

theorem turns (h : Inv cfg w) (hno : w.NoPending) :
    (spec cfg).Turns cfg w (spec cfg).inv (spec cfg).inv where
  intake := by
    intro hst
    obtain ⟨hnone, hptr⟩ := h.unstarted (by rw [hst]; rfl)
    exact moves_of_inv (by decide) (inv_planning rfl h.budgeted hnone hptr)
  research := by
    intro hst
    obtain ⟨hnone, hptr⟩ := h.unstarted (by rw [hst]; rfl)
    exact moves_of_inv (by decide) (inv_planning rfl h.budgeted hnone hptr)
  author := by
    intro hst out _
    obtain ⟨hnone, hptr⟩ := h.unstarted (by rw [hst]; rfl)
    refine ⟨cut_of_inv (h.record _), ?_⟩
    intro artifact hgen
    have hbud : ∀ plan ∈ some artifact,
        artifactBudget cfg plan = some plan.budget := by
      intro plan hplan
      obtain rfl := Option.some.inj hplan
      exact generated_budget hgen
    refine ⟨cut_of_inv (inv_planning ?_ hbud hnone hptr),
      moves_of_inv (by decide) (inv_planning rfl hbud hnone hptr)⟩
    show w.run.stage.planning = true
    rw [hst]
    rfl
  implement := fun hst _ _ hplan hp => implStep hst h hno hplan hp
  verify := fun hst => verStep hst h hno
  package := fun _ _ => ⟨trivial, fun _ => ⟨cut_of_inv (h.record _),
    moves_of_inv (by decide) ((h.record _).moved rfl (by simp))⟩⟩
  unpackaged := fun _ _ =>
    moves_of_inv (by decide) (h.moved rfl (by simp))
  retrospective := fun _ =>
    moves_of_inv (by decide) (h.moved rfl (by simp))

-- ==== public calls

theorem planCall {decision feedback : String}
    (hst : w.run.stage = .planApprovalGate) (h : Inv cfg w) :
    (spec cfg).PlanCall cfg w decision feedback := by
  obtain ⟨hnone, hptr⟩ := h.unstarted (by rw [hst]; rfl)
  have hno : w.NoPending := by
    simp [World.NoPending, pendingCheckpoint, hptr]
  have hvac : AllAnswered w := by
    intro plan _ p hp
    rw [hnone] at hp
    cases hp
  refine ⟨fun _ => ⟨cut_of_inv (h.moved rfl fun _ => hvac), ?_⟩, ?_, ?_, ?_⟩
  · intro now
    refine inv_unasked rfl h.budgeted hno (fun _ _ => ?_) (fun hc => ?_)
    · intro plan _ p hp
      obtain rfl := Option.some.inj hp
      exact openSizeRisk_fresh _ _ _ _
    · rcases hc with hc | hc <;> cases hc
  · intro _ id
    exact cut_of_inv (inv_planning rfl h.budgeted hnone hptr)
  · intro _ id out _
    refine ⟨cut_of_inv (inv_planning rfl h.budgeted hnone hptr), ?_⟩
    intro artifact hgen
    have hbud : ∀ plan ∈ some artifact,
        artifactBudget cfg plan = some plan.budget := by
      intro plan hplan
      obtain rfl := Option.some.inj hplan
      exact generated_budget hgen
    exact ⟨cut_of_inv (inv_planning rfl hbud hnone hptr),
      inv_planning rfl hbud hnone hptr⟩
  · intro _
    exact h.moved rfl (by simp)

theorem reviewCall {decision : String}
    (hst : w.run.stage = .changeReviewGate) (h : Inv cfg w) :
    (spec cfg).ReviewCall w decision := by
  have hall := h.verified (Or.inr hst)
  exact ⟨fun _ => h.moved rfl fun _ => hall, fun _ => h.moved rfl fun _ => hall,
    fun _ => h.moved rfl fun _ => hall⟩

/-- The answered question was the only open one, so its acknowledgement
leaves none. -/
theorem acked_answered {e : Elicitation} {sig : Signature}
    (hsig : e.signature = some sig)
    (h : ∀ plan ∈ w.plans.latest, ∀ p ∈ w.progress,
      ∀ t ∈ openSizeRisk plan p, some t.signature = e.signature) :
    AllAnswered (Spec.acked w e) := by
  intro plan hplan q hq
  rw [Spec.acked_plans] at hplan
  cases hp : w.progress with
  | none =>
    rw [Spec.acked_progress_none hp] at hq
    cases hq
  | some p =>
    simp only [Spec.acked, hp, hsig] at hq
    obtain rfl := Option.some.inj hq
    refine openSizeRisk_acknowledge fun t ht => ?_
    have hsame := h plan hplan p hp t ht
    rw [hsig] at hsame
    exact Option.some.inj hsame

theorem acked_exhausted {e : Elicitation}
    (h : Exhausted (Spec.acked w e)) : Exhausted w := by
  intro plan hplan p hp
  have hnext := h plan (by rw [Spec.acked_plans]; exact hplan)
  have hp' : w.progress = some p := hp
  cases hs : e.signature with
  | none =>
    refine hnext p ?_
    simp only [Spec.acked, hp', hs]
    exact rfl
  | some sig =>
    have hn := hnext (p.acknowledge sig) (by
      simp only [Spec.acked, hp', hs]
      rfl)
    unfold RunProgress.acknowledge at hn
    split at hn <;> exact hn

theorem acked_inv {a : World} {e : Elicitation} (h : Inv cfg w)
    (hnp : w.run.stage.planning = false) (hst : a.run.stage = w.run.stage)
    (hplans : a.plans = w.plans) (hprog : a.progress = w.progress)
    (hno : a.NoPending) (hasked : Asked w e)
    (honly : w.run.stage = .implementation → Exhausted w →
      ∀ plan ∈ w.plans.latest, ∀ p ∈ w.progress,
        ∀ t ∈ openSizeRisk plan p, some t.signature = e.signature) :
    Inv cfg (Spec.acked a e) := by
  have hrun := Spec.acked_run a e
  refine inv_unasked ?_ ?_ ?_ ?_ ?_
  · rw [hrun, hst]
    exact hnp
  · rw [Spec.acked_plans, hplans]
    exact h.budgeted
  · exact World.noPending_congr (by rw [hrun]) hno
  · intro hst' hex
    rw [hrun, hst] at hst'
    refine acked_answered hasked.signed ?_
    rw [hplans, hprog]
    refine honly hst' ?_
    have hex' := acked_exhausted hex
    unfold Exhausted at hex' ⊢
    rw [hplans, hprog] at hex'
    exact hex'
  · intro hst'
    rw [hrun, hst] at hst'
    refine acked_answered hasked.signed ?_
    rw [hplans, hprog]
    intro plan hplan p hp t ht
    rw [h.verified hst' plan hplan p hp] at ht
    cases ht

/-- The scope extended by the files the question named: they are still
the files out of scope. -/
theorem extended_inv {a : World} {e : Elicitation} {plan : PlanArtifact}
    {at' : Time} (h : Inv cfg (Spec.acked a e)) (hno : a.NoPending)
    (hnp : a.run.stage.planning = false)
    (hplan : a.plans.latest = some plan)
    (hsig : e.signature = some ⟨e.trigger, e.details⟩)
    (hrisk : ∀ p ∈ a.progress,
      e.details = .risk (outOfScopeTouches p.filesTouched plan.inScope)) :
    Inv cfg ((Spec.acked a e).planSaved
      (plan.extendScope e.details.outOfScopeFiles at')) := by
  have hlatest : (Spec.acked a e).plans.latest = some plan := by
    rw [Spec.acked_plans]
    exact hplan
  have hext : AllAnswered (Spec.acked a e) → AllAnswered
      ((Spec.acked a e).planSaved
        (plan.extendScope e.details.outOfScopeFiles at')) := by
    intro hall plan' hplan' q hq
    obtain rfl := Option.some.inj hplan'
    refine openSizeRisk_extended ?_ (hall plan hlatest q hq)
    rw [World.planSaved_progress] at hq
    cases hp : a.progress with
    | none =>
      rw [Spec.acked_progress_none hp] at hq
      cases hq
    | some p =>
      simp only [Spec.acked, hp, hsig] at hq
      obtain rfl := Option.some.inj hq
      rw [hrisk p hp]
      unfold RunProgress.acknowledge
      split <;> rfl
  refine inv_unasked ?_ ?_ ?_ ?_ ?_
  · rw [World.planSaved_run, Spec.acked_run]
    exact hnp
  · intro plan' hplan'
    obtain rfl := Option.some.inj hplan'
    exact h.budgeted plan hlatest
  · refine World.noPending_congr ?_ hno
    rw [World.planSaved_run, Spec.acked_run]
  · intro hst hex
    refine hext (h.exhausted hst ?_ ?_)
    · exact World.noPending_congr (by rw [Spec.acked_run]) hno
    · intro plan' hplan' q hq
      obtain rfl := Option.some.inj (hlatest.symm.trans hplan')
      exact hex _ rfl q hq
  · intro hst
    exact hext (h.verified hst)

theorem resolveCall {id decision : String} {note : Option String}
    {e : Elicitation} {now : Time} (h : Inv cfg w)
    (hcall : AnswersOne w (.resolveCheckpoint id decision note))
    (hpend : pendingCheckpoint w.run = .ok (some e)) :
    (spec cfg).ResolveCall
      (w.record (.called (.resolveCheckpoint id decision note))) e decision
      note now := by
  have hq := World.question_of_pending hpend
  have hasked := h.asked e hq
  have hno := Spec.noPending_answeredBy
    (w.record (.called (.resolveCheckpoint id decision note))) e decision note
    now
  have hnp : w.run.stage.planning = false := by
    rw [Bool.eq_false_iff]
    intro hc
    have hptr := (h.unstarted hc).2
    simp [pendingCheckpoint, hptr] at hpend
  have hack : decision ≠ "stop" → Inv cfg (Spec.acked (Spec.answeredBy
      (w.record (.called (.resolveCheckpoint id decision note))) e decision
        note now) e) := fun hd =>
    acked_inv h hnp rfl rfl rfl hno hasked fun hst hex =>
      hcall hd hst hex e hq
  refine ⟨?_, ?_, fun hd => cut_of_inv (hack hd), ?_, fun hd _ => hack hd⟩
  · -- the question is marked answered, the answer not yet recorded
    intro hstop
    refine Inv.record ?_ _
    refine inv_unasked hnp h.budgeted hno ?_ h.verified
    intro hst hex
    by_contra hall
    exact hstop ⟨hst, hno, hex, hall⟩
  · intro _ _
    refine inv_unasked rfl h.budgeted (World.noPending_congr rfl hno) ?_ ?_
    · intro hc
      cases hc
    · rintro (hc | hc) <;> cases hc
  · intro hd hrisk plan at' hplan
    refine extended_inv (hack ?_) hno hnp hplan hasked.signed ?_
    · rw [hd]
      decide
    · exact hasked.risk hrisk plan hplan

theorem keeps (cfg : Config) : (spec cfg).Keeps cfg where
  cut := fun _ h => cut_of_inv h
  called := fun _ _ h _ => Inv.record h _
  turn := fun _ h hno => turns h hno
  plan := fun _ _ _ _ h _ _ hst => planCall hst (Inv.record h _)
  review := fun _ _ _ _ h _ _ hst => reviewCall hst (Inv.record h _)
  resolve := fun _ _ _ _ _ _ h hcall _ hpend => resolveCall h hcall hpend

theorem inv_initial (h : Initial cfg w) : Inv cfg w := by
  obtain ⟨hst, hptr⟩ := h.row
  obtain ⟨_, _, _, _, _, _, _, _, _, hplans, hprog, _⟩ := h
  refine inv_planning ?_ ?_ hprog hptr
  · rw [hst]
    rfl
  · rw [hplans]
    intro plan hplan
    cases hplan

-- ==== the result

/-- In every run that keeps the terms, the drive moves the run on to
verification only when every size and risk violation of the saved
record, against the latest plan's budget and scope, was acknowledged. -/
theorem answered_at_verification (cfg : Config) {s : State Unit}
    (hs : (machine cfg).Reach (Initial cfg) terms.Kept s) {e : Req}
    (ha : s.Drives () e) (he : e.movesTo .verification = true) :
    AllAnswered s.world := by
  have hset := (keeps cfg).settled (fun _ => inv_initial)
    (Spec.covers_of_kept fun _ _ h => h) hs
  exact Spec.mayMove_of_settled hset ha he rfl

/-- A stray file is asked about, and the scope extended over it. -/
def extendedRun : List (Act Unit) :=
  Sample.strayed () [Sample.task "t1"] ++
    calling () (.resolveCheckpoint "run" "extend_scope" none) 1 ++
    answering () (.time 0) 4 ++ answering () (.time 0) 6

theorem answered_at_verification_extendedRun :
    ∃ s : State Unit,
      (machine Sample.cfg).Reach (Initial Sample.cfg) terms.Kept s ∧
      (∃ e, s.Drives () e ∧ e.movesTo .verification = true) ∧
      s.world.progress.isSome ∧ AllAnswered s.world := by
  obtain ⟨s, hs, htest⟩ := reach_of_plays_checked Sample.initial_sample
    terms.Kept extendedRun
    (fun s => driving s () (Req.movesTo .verification) &&
      s.world.progress.isSome) (by decide +kernel)
  rw [Bool.and_eq_true] at htest
  obtain ⟨e, ha, he⟩ := driving_inv htest.1
  exact ⟨s, hs, ⟨e, ha, he⟩, htest.2, answered_at_verification _ hs ha he⟩

/-- A fix-up that strays out of scope goes back to verification without a
question. -/
theorem unanswered_fixup :
    ¬ ∀ s : State Unit,
      (machine Sample.cfg).Reach (Initial Sample.cfg) (fun _ _ => True) s →
        (∃ e, s.Drives () e ∧ e.movesTo .verification = true) →
          AllAnswered s.world := by
  intro hclaim
  obtain ⟨s, hs, htest⟩ := reach_of_plays_free Sample.initial_sample
    (Sample.approved () [Sample.task "t1"] ++ answering () Sample.diff 1 ++
      answering () (.time 0) 4 ++
      answering () (.verdict (.returned ⟨false, "broken"⟩)) 5 ++
      answering () (.time 0) 5 ++ answering () (.uuid "c0ffee00") 1 ++
      answering () Sample.strayDiff 2)
    (fun s => driving s () (Req.movesTo .verification) &&
      decide (¬ AllAnswered s.world)) (by decide +kernel)
  rw [Bool.and_eq_true, decide_eq_true_eq] at htest
  exact htest.2 (hclaim s hs (driving_inv htest.1))

end Answered

end SdlcOs.Orchestrator
