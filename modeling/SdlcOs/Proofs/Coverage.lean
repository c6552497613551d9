/-
Which subtasks have been handed over when the run leaves implementation.

# The scan

`_next_subtask` looks for a READY entry, so its `None` means "nothing is
ready", and `_implementation_step` takes it for "every subtask is done".
The two agree exactly on plans whose every entry can be discharged: each
dependency names an entry that can itself be discharged. A cycle or a
dangling dependency leaves entries that are never ready.

# Repeated ids

Completion is recorded by task id, so two entries of one id are done as
soon as one of them is. They are both handed over only if they go out in
the same batch.

# The invariant

The stored record came about by working through the plan (`Schedule`),
and an entry whose id it holds has been handed over in a call that
returned (`Cov`), if the plan keeps its repeated ids together. No record
exists before the plan is approved, so re-planning never meets stale
ids.
-/
import Mathlib.Data.List.Infix
import SdlcOs.Orchestrator.Script
import SdlcOs.Proofs.Seq.Turn

namespace SdlcOs.Orchestrator

open Effects
open Registry (Stage Result ErrorInfo)

-- ==== vocabulary

namespace Coverage

/-- The entry was part of a backend call that returned. -/
def Handed (hist : List Event) (st : SubtaskEntry) : Prop :=
  ∃ site sts diffs, Event.implemented site sts (.returned diffs) ∈ hist ∧
    SubTask.ofEntry st ∈ sts

/-- Every entry of the latest plan was handed over and its id saved as
completed. -/
def Covered (w : World) : Prop :=
  ∀ st ∈ w.subtasks, Handed w.hist st ∧ st.taskId ∈ w.done

/-- The entry can be discharged: each of its dependencies names an entry
of the plan that can be discharged before it. -/
inductive Dischargeable (subtasks : List SubtaskEntry) : SubtaskEntry → Prop
  | intro {st : SubtaskEntry} (hst : st ∈ subtasks)
      (provider : String → SubtaskEntry)
      (hname : ∀ d ∈ st.dependsOn, (provider d).taskId = d)
      (hdis : ∀ d ∈ st.dependsOn, Dischargeable subtasks (provider d)) :
      Dischargeable subtasks st

/-- No entry waits for something that never comes. -/
def Unblocked (subtasks : List SubtaskEntry) : Prop :=
  ∀ st ∈ subtasks, Dischargeable subtasks st

/-- A batch that leaves out no entry sharing a task id with one of its
members. -/
def Whole (subtasks : List SubtaskEntry) (batch : List SubTask) : Prop :=
  ∀ st ∈ subtasks, SubTask.ofEntry st ∈ batch →
    ∀ st' ∈ subtasks, st'.taskId = st.taskId → SubTask.ofEntry st' ∈ batch

/-- The lists of completed ids that working through a plan can lead to:
batch by batch, of each batch as many subtasks as there were diffs. -/
inductive Schedule (plan : PlanArtifact) : List String → Prop
  | start : Schedule plan []
  | batch {p : RunProgress} {first : SubtaskEntry} (n : Nat)
      (hp : Schedule plan p.completedSubtaskIds)
      (hnext : nextSubtask plan p = some first) :
      Schedule plan (p.completedSubtaskIds ++
        ((readySubtaskBatch plan p first).take n).map (·.taskId))

/-- However the plan is worked through, the entries of one task id always
go out in one batch. -/
def Together (plan : PlanArtifact) : Prop :=
  ∀ p first, Schedule plan p.completedSubtaskIds →
    nextSubtask plan p = some first →
      Whole plan.subtasks ((readySubtaskBatch plan p first).map SubTask.ofEntry)

-- ==== the scan

theorem done_of_dischargeable {subtasks : List SubtaskEntry}
    {done : List String}
    (hnone : ∀ st ∈ subtasks, ready done st = false) {st : SubtaskEntry}
    (h : Dischargeable subtasks st) : st.taskId ∈ done := by
  induction h with
  | @intro st hst provider hname _ ih =>
    by_contra hnot
    have hdeps : st.dependsOn.all (· ∈ done) = true := by
      rw [List.all_eq_true]
      intro d hd
      rw [decide_eq_true_eq, ← hname d hd]
      exact ih d hd
    have hready : ready done st = true := by
      rw [ready, hdeps, Bool.and_true, decide_eq_true_eq]
      exact hnot
    rw [hnone st hst] at hready
    cases hready

/-- Entries recorded as completed were handed over. -/
def Cov (subtasks : List SubtaskEntry) (done : List String)
    (hist : List Event) : Prop :=
  ∀ st ∈ subtasks, st.taskId ∈ done → Handed hist st

theorem Cov.mono {subtasks : List SubtaskEntry} {done : List String}
    {hist hist' : List Event} (h : Cov subtasks done hist)
    (hsuf : hist <:+ hist') : Cov subtasks done hist' := by
  intro st hst hdone
  obtain ⟨site, sts, diffs, hmem, hin⟩ := h st hst hdone
  exact ⟨site, sts, diffs, hsuf.mem hmem, hin⟩

theorem cov_nil (subtasks : List SubtaskEntry) (hist : List Event) :
    Cov subtasks [] hist := by
  intro st _ hdone
  cases hdone

theorem covered_of_none {w : World} {plan : PlanArtifact} {p : RunProgress}
    (hplan : w.plans.latest = some plan) (hp : w.progress = some p)
    (hcov : Cov plan.subtasks w.done w.hist)
    (hnext : nextSubtask plan p = none) (hfree : Unblocked plan.subtasks) :
    Covered w := by
  have hsub : w.subtasks = plan.subtasks := by
    simp [World.subtasks, hplan]
  have hdone : w.done = p.completedSubtaskIds := by
    simp [World.done, hp]
  rw [Covered, hsub]
  intro st hst
  have hin : st.taskId ∈ w.done := by
    rw [hdone]
    exact done_of_dischargeable (nextSubtask_none hnext) (hfree st hst)
  exact ⟨hcov st hst hin, hin⟩

-- ==== batches

theorem mem_afterBatch {p : RunProgress} {batch : List SubtaskEntry}
    {diffs : List DiffOutput} {id : String}
    (h : id ∈ (p.afterBatch (batch.zip diffs)).completedSubtaskIds) :
    id ∈ p.completedSubtaskIds ∨ ∃ st ∈ batch, st.taskId = id := by
  rw [RunProgress.afterBatch_done, List.mem_append, List.mem_map] at h
  rcases h with h | ⟨st, hmem, hid⟩
  · exact Or.inl h
  · exact Or.inr ⟨st, List.mem_of_mem_take hmem, hid⟩

theorem Cov.batch {plan : PlanArtifact} {p : RunProgress}
    {hist : List Event} {first : SubtaskEntry} {diffs : List DiffOutput}
    (h : Cov plan.subtasks p.completedSubtaskIds hist)
    (hnext : nextSubtask plan p = some first)
    (hwhole : Whole plan.subtasks
      ((readySubtaskBatch plan p first).map SubTask.ofEntry)) :
    Cov plan.subtasks
      (p.afterBatch ((readySubtaskBatch plan p first).zip
        diffs)).completedSubtaskIds
      (.implemented .planned
        ((readySubtaskBatch plan p first).map SubTask.ofEntry)
        (.returned diffs) :: hist) := by
  intro st hst hdone
  rcases mem_afterBatch hdone with hold | ⟨st', hst', hid⟩
  · exact h.mono (List.suffix_cons _ _) st hst hold
  · have hin : SubTask.ofEntry st' ∈
        (readySubtaskBatch plan p first).map SubTask.ofEntry :=
      List.mem_map_of_mem hst'
    exact ⟨.planned, _, diffs, List.mem_cons_self,
      hwhole st' (mem_readySubtaskBatch hnext hst').1 hin st hst hid.symm⟩

-- ==== the invariant

/-- A record that came about by working through the plan, and covers what
it completes. -/
structure Worked (plan : PlanArtifact) (done : List String)
    (hist : List Event) : Prop where
  schedule : Schedule plan done
  cov : Together plan → Cov plan.subtasks done hist

/-- What every world between turns satisfies. -/
structure Inv (w : World) : Prop where
  unstarted : w.run.stage.planning = true → w.progress = none
  worked : ∀ plan, w.plans.latest = some plan → Worked plan w.done w.hist

/-- Coverage as a spec: no turn moves an unblocked plan that keeps its
repeated ids together on to verification uncovered. -/
def spec : Spec where
  inv := Inv
  mayMove := fun w next =>
    next = .verification → ∀ plan, w.plans.latest = some plan →
      Unblocked plan.subtasks → Together plan → Covered w

theorem Worked.mono {plan : PlanArtifact} {done : List String}
    {hist hist' : List Event} (h : Worked plan done hist)
    (hsuf : hist <:+ hist') : Worked plan done hist' :=
  ⟨h.schedule, fun ht => (h.cov ht).mono hsuf⟩

theorem worked_start (plan : PlanArtifact) (hist : List Event) :
    Worked plan [] hist :=
  ⟨.start, fun _ => cov_nil _ _⟩

/-- The batch the plan offers next, returned with any number of diffs,
leaves a worked record. -/
theorem Worked.batch {plan : PlanArtifact} {p : RunProgress}
    {hist : List Event} {first : SubtaskEntry} {diffs : List DiffOutput}
    (h : Worked plan p.completedSubtaskIds hist)
    (hnext : nextSubtask plan p = some first) :
    Worked plan
      (p.afterBatch ((readySubtaskBatch plan p first).zip
        diffs)).completedSubtaskIds
      (.implemented .planned
        ((readySubtaskBatch plan p first).map SubTask.ofEntry)
        (.returned diffs) :: hist) := by
  refine ⟨?_, ?_⟩
  · rw [RunProgress.afterBatch_done]
    exact .batch diffs.length h.schedule hnext
  · intro ht
    exact (h.cov ht).batch hnext (ht p first h.schedule hnext)

theorem Schedule.congr {plan plan' : PlanArtifact} {done : List String}
    (hsub : plan'.subtasks = plan.subtasks) (h : Schedule plan done) :
    Schedule plan' done := by
  induction h with
  | start => exact .start
  | @batch p first n _ hnext ih =>
    have hbatch : readySubtaskBatch plan p first =
        readySubtaskBatch plan' p first := by
      rw [readySubtaskBatch, readySubtaskBatch, hsub]
    rw [hbatch]
    refine .batch n ih ?_
    rw [nextSubtask, hsub]
    exact hnext

theorem Together.congr {plan plan' : PlanArtifact}
    (hsub : plan'.subtasks = plan.subtasks) (h : Together plan') :
    Together plan := by
  intro p first hp hnext
  have hbatch : readySubtaskBatch plan p first =
      readySubtaskBatch plan' p first := by
    rw [readySubtaskBatch, readySubtaskBatch, hsub]
  rw [hbatch, ← hsub]
  refine h p first (hp.congr hsub) ?_
  rw [nextSubtask, hsub]
  exact hnext

theorem Worked.congr {plan plan' : PlanArtifact} {done : List String}
    {hist : List Event} (hsub : plan'.subtasks = plan.subtasks)
    (h : Worked plan done hist) : Worked plan' done hist := by
  refine ⟨h.schedule.congr hsub, fun ht => ?_⟩
  rw [hsub]
  exact h.cov (ht.congr hsub)

theorem Inv.grow {w w' : World} (h : Inv w)
    (hplanning : w'.run.stage.planning = true → w'.progress = none)
    (hlatest : w'.plans.latest = w.plans.latest) (hdone : w'.done = w.done)
    (hhist : w.hist <:+ w'.hist) : Inv w' := by
  refine ⟨hplanning, ?_⟩
  intro plan hplan
  rw [hlatest] at hplan
  rw [hdone]
  exact (h.worked plan hplan).mono hhist

theorem Inv.record {w : World} (h : Inv w) (ev : Event) :
    Inv (w.record ev) :=
  h.grow h.unstarted rfl rfl (List.suffix_cons _ _)

theorem cut_of_inv {w : World} (h : Inv w) : spec.Cut w :=
  fun _ => h.record _

theorem inv_unstarted {w : World} (h : w.progress = none) : Inv w := by
  refine ⟨fun _ => h, ?_⟩
  intro plan _
  have hdone : w.done = [] := by simp [World.done, h]
  rw [hdone]
  exact worked_start _ _

theorem moves_of_inv {w : World} {next : Stage} (hne : next ≠ .verification)
    (h : Inv (w.moved next)) : spec.Moves w next spec.inv :=
  ⟨fun he => absurd he hne, cut_of_inv h, h⟩

-- ==== the steps

theorem implStep {cfg : Config} {w : World} {plan : PlanArtifact}
    {p : RunProgress} (hst : w.run.stage = .implementation) (h : Inv w)
    (hplan : w.plans.latest = some plan) (hp : w.Current p) :
    spec.ImplStep cfg w plan p (spec.ImplDone spec.inv) := by
  have hnot : w.run.stage.planning = true → False := by
    rw [hst]
    intro hc
    cases hc
  -- a world with the same plan, whose record completes what `p` completes
  have hround : ∀ w' : World, w'.run.stage = w.run.stage →
      w'.plans.latest = w.plans.latest → w'.done = p.completedSubtaskIds →
        w.hist <:+ w'.hist → spec.Cut w' ∧ spec.inv w' := by
    intro w' hst' hsub' hdone' hhist
    have hinv : Inv w' := h.grow
      (fun hpl => (hnot (hst' ▸ hpl)).elim) hsub'
      (hdone'.trans hp.done.symm) hhist
    exact ⟨cut_of_inv hinv, hinv⟩
  have hcut : ∀ w' : World, w'.run.stage = w.run.stage →
      w'.plans.latest = w.plans.latest → w'.done = p.completedSubtaskIds →
        w.hist <:+ w'.hist → spec.Cut w' :=
    fun w' h₁ h₂ h₃ h₄ => (hround w' h₁ h₂ h₃ h₄).1
  have hinvp : ∀ w' : World, w'.run.stage = w.run.stage →
      w'.plans.latest = w.plans.latest → w'.done = p.completedSubtaskIds →
        w.hist <:+ w'.hist → Inv w' :=
    fun w' h₁ h₂ h₃ h₄ => (hround w' h₁ h₂ h₃ h₄).2
  -- leaving for verification, with nothing ready
  have hverify : ∀ (w' : World) (p' : RunProgress), Inv w' →
      w'.run.stage = w.run.stage → w'.plans.latest = some plan →
        w'.progress = some p' → nextSubtask plan p' = none →
          spec.ImplDone spec.inv .verify w' := by
    intro w' p' hinv hst' hplan' hp' hnext
    refine ⟨cut_of_inv hinv, ?_, ?_⟩
    · intro _ plan' hlatest hfree htog
      obtain rfl : plan = plan' := Option.some.inj (hplan'.symm.trans hlatest)
      exact covered_of_none hplan' hp' ((hinv.worked plan hplan').cov htog)
        hnext hfree
    · have hmoved : Inv (w'.moved .verification) :=
        hinv.grow (fun hpl => by cases hpl) rfl rfl (List.suffix_append _ _)
      exact ⟨cut_of_inv hmoved, hmoved⟩
  have hfail : ∀ ev, spec.FailStep ((w.progressSaved p).record ev) p
      (spec.ImplDone spec.inv) := fun ev =>
    { saved := hcut _ rfl rfl rfl (List.suffix_cons _ _)
      paused := fun _ _ _ => hround _ rfl rfl rfl (List.suffix_cons _ _)
      proceed := fun _ => hround _ rfl rfl rfl (List.suffix_cons _ _) }
  refine
    { loaded := hcut _ rfl rfl rfl List.suffix_rfl
      verify := fun hnext _ => hverify _ p
        (hinvp _ rfl rfl rfl List.suffix_rfl) rfl hplan rfl hnext
      may := trivial
      fixupRaised := fun _ _ st x _ =>
        ⟨hcut _ rfl rfl rfl (List.suffix_cons _ _), hfail _⟩
      fixup := fun hnext _ st d _ =>
        ⟨hcut _ rfl rfl rfl (List.suffix_cons _ _), hverify _ (p.afterFixup d)
          (hinvp _ rfl rfl rfl (List.suffix_cons _ _)) rfl hplan rfl hnext⟩
      batchRaised := fun _ _ _ _ x _ =>
        ⟨hcut _ rfl rfl rfl (List.suffix_cons _ _), hfail _⟩
      batch := ?_ }
  -- the one branch that completes ids
  rintro first batch hnext rfl diffs _
  have hworked : Worked plan p.completedSubtaskIds w.hist := by
    rw [← hp.done]
    exact h.worked plan hplan
  have hinv : ∀ w' : World, w'.run.stage = w.run.stage →
      w'.plans.latest = w.plans.latest →
      w'.done = (p.afterBatch ((readySubtaskBatch plan p first).zip
        diffs)).completedSubtaskIds →
      w'.hist = .implemented .planned
        ((readySubtaskBatch plan p first).map SubTask.ofEntry)
          (.returned diffs) :: w.hist → Inv w' := by
    intro w' hst' hplan' hdone' hhist'
    refine ⟨fun hpl => (hnot (hst' ▸ hpl)).elim, ?_⟩
    intro plan' hlatest
    obtain rfl : plan = plan' :=
      Option.some.inj ((hplan'.trans hplan).symm.trans hlatest)
    rw [hdone', hhist']
    exact hworked.batch hnext
  exact ⟨hcut _ rfl rfl rfl (List.suffix_cons _ _),
    { saved := cut_of_inv (hinv _ rfl rfl rfl rfl)
      paused := fun _ _ t _ _ _ id createdAt =>
        ⟨cut_of_inv (hinv _ rfl rfl rfl rfl), hinv _ rfl rfl rfl rfl⟩
      proceed := fun _ _ _ _ _ =>
        ⟨cut_of_inv (hinv _ rfl rfl rfl rfl), hinv _ rfl rfl rfl rfl⟩
      verify := fun _ _ _ _ hn =>
        hverify _ _ (hinv _ rfl rfl rfl rfl) rfl hplan rfl hn }⟩

theorem verStep {w : World} (hst : w.run.stage = .verification)
    (h : Inv w) : spec.VerStep w (spec.VerDone spec.inv spec.inv) := by
  have hnot : w.run.stage.planning = true → False := by
    rw [hst]
    intro hc
    cases hc
  have hround : ∀ (p : RunProgress), w.Current p → ∀ w' : World,
      (w'.run.stage.planning = true → False) →
      w'.plans.latest = w.plans.latest → w'.done = p.completedSubtaskIds →
        w.hist <:+ w'.hist → spec.inv w' := by
    intro p hp w' hst' hsub' hdone' hhist
    exact h.grow (fun hpl => (hst' hpl).elim) hsub'
      (hdone'.trans hp.done.symm) hhist
  refine ⟨trivial, fun r _ => cut_of_inv (h.record _), ?_, ?_, ?_, ?_, ?_⟩
  · intro res p _ hp
    exact cut_of_inv (hround p hp _ hnot rfl rfl (List.suffix_cons _ _))
  · intro res p _ hp _
    exact ⟨cut_of_inv (hround p hp _ hnot rfl rfl (List.suffix_cons _ _)),
      moves_of_inv (by decide)
        (hround p hp _ (fun hpl => by cases hpl) rfl rfl
          ((List.suffix_cons _ _).trans (List.suffix_append _ _)))⟩
  · intro res p _ hp _
    exact cut_of_inv (hround p hp _ hnot rfl rfl (List.suffix_cons _ _))
  · intro res p _ hp _ _ id createdAt
    exact ⟨cut_of_inv (hround p hp _ hnot rfl rfl (List.suffix_cons _ _)),
      hround p hp _ hnot rfl rfl (List.suffix_cons _ _)⟩
  · intro res p _ hp _ _
    exact ⟨cut_of_inv (hround p hp _ hnot rfl rfl (List.suffix_cons _ _)),
      moves_of_inv (by decide)
        (hround p hp _ (fun hpl => by cases hpl) rfl rfl
          ((List.suffix_cons _ _).trans (List.suffix_append _ _)))⟩

theorem turns {cfg : Config} {w : World} (h : Inv w) :
    spec.Turns cfg w spec.inv spec.inv where
  intake := by
    intro hst
    have hnone := h.unstarted (by rw [hst]; rfl)
    exact moves_of_inv (by decide) (inv_unstarted hnone)
  research := by
    intro hst
    have hnone := h.unstarted (by rw [hst]; rfl)
    exact moves_of_inv (by decide) (inv_unstarted hnone)
  author := by
    intro hst out _
    have hnone := h.unstarted (by rw [hst]; rfl)
    refine ⟨cut_of_inv (inv_unstarted hnone), ?_⟩
    intro artifact _
    exact ⟨cut_of_inv (inv_unstarted hnone),
      moves_of_inv (by decide) (inv_unstarted hnone)⟩
  implement := fun hst _ _ hplan hp => implStep hst h hplan hp
  verify := fun hst => verStep hst h
  package := fun _ _ => ⟨trivial, fun _ => ⟨cut_of_inv (h.record _),
    moves_of_inv (by decide) ((h.record _).grow (fun hpl => by cases hpl)
      rfl rfl (List.suffix_append _ _))⟩⟩
  unpackaged := fun _ _ => moves_of_inv (by decide)
    (h.grow (fun hpl => by cases hpl) rfl rfl (List.suffix_append _ _))
  retrospective := fun _ => moves_of_inv (by decide)
    (h.grow (fun hpl => by cases hpl) rfl rfl (List.suffix_append _ _))

-- ==== public calls

theorem planCall {cfg : Config} {w : World} {decision feedback : String}
    (hst : w.run.stage = .planApprovalGate) (h : Inv w) :
    spec.PlanCall cfg w decision feedback := by
  have hnone := h.unstarted (by rw [hst]; rfl)
  refine ⟨fun _ => ⟨cut_of_inv (inv_unstarted hnone), ?_⟩,
    fun _ _ => cut_of_inv (inv_unstarted hnone),
    fun _ _ _ _ => ⟨cut_of_inv (inv_unstarted hnone), fun _ _ =>
      ⟨cut_of_inv (inv_unstarted hnone), inv_unstarted hnone⟩⟩,
    fun _ => inv_unstarted hnone⟩
  intro now
  exact ⟨fun hpl => (by cases hpl), fun _ _ => worked_start _ _⟩

theorem reviewCall {w : World} {decision : String} (h : Inv w) :
    spec.ReviewCall w decision := by
  have hmove : ∀ next : Stage, (next.planning = true → False) →
      Inv (w.moved next) := fun next hn =>
    h.grow (fun hpl => (hn hpl).elim) rfl rfl (List.suffix_append _ _)
  exact ⟨fun _ => hmove _ (fun hpl => by cases hpl),
    fun _ => hmove _ (fun hpl => by cases hpl),
    fun _ => hmove _ (fun hpl => by cases hpl)⟩

theorem acked_done (w : World) (e : Elicitation) :
    (Spec.acked w e).done = w.done := by
  unfold Spec.acked
  split
  · next p sig hp hs =>
    show (p.acknowledge sig).completedSubtaskIds = w.done
    simp only [World.done, hp, RunProgress.acknowledge]
    split <;> rfl
  · rfl

theorem Inv.acked {w : World} (h : Inv w) (e : Elicitation) :
    Inv (Spec.acked w e) := by
  refine h.grow ?_ ?_ (acked_done w e) ?_
  · intro hpl
    rw [Spec.acked_run] at hpl
    exact Spec.acked_progress_none (h.unstarted hpl)
  · rw [Spec.acked_plans]
  · rw [Spec.acked_hist]

theorem resolveCall {w : World} {e : Elicitation} {decision : String}
    {note : Option String} {now : Time} (h : Inv w) :
    spec.ResolveCall w e decision note now := by
  have hans : Inv (Spec.answeredBy w e decision note now) :=
    h.grow h.unstarted rfl rfl (List.suffix_append _ _)
  have hack := hans.acked e
  refine ⟨cut_of_inv hans, ?_, fun _ => cut_of_inv hack, ?_,
    fun _ _ => hack⟩
  · intro _ _
    exact hans.grow (fun hpl => by cases hpl) rfl rfl (List.suffix_append _ _)
  · intro _ _ artifact at' hplan
    -- the extended plan has the same entries
    refine ⟨hack.unstarted, ?_⟩
    intro plan' hlatest
    obtain rfl := Option.some.inj hlatest
    refine @Worked.congr artifact _ _ _ rfl (hack.worked artifact ?_)
    rw [Spec.acked_plans]
    exact hplan

theorem keeps (cfg : Config) : spec.Keeps cfg where
  cut := fun _ h => cut_of_inv h
  called := fun _ _ h _ => Inv.record h _
  turn := fun _ h _ => turns h
  plan := fun _ _ _ _ h _ _ hst => planCall hst (Inv.record h _)
  review := fun _ _ _ _ h _ _ _ => reviewCall (Inv.record h _)
  resolve := fun _ _ _ _ _ _ h _ _ _ => resolveCall (Inv.record h _)

-- ==== the result

/-- In every sequential run, whenever the drive moves the run on to
verification and the latest plan leaves no entry blocked and keeps its
repeated ids together, every entry of that plan was handed over in a
call that returned and its id is saved as completed. -/
theorem covered_at_verification (cfg : Config) {s : State Unit}
    (hs : (machine cfg).Reach (Initial cfg) (fun _ _ => True) s) {e : Req}
    (ha : s.Drives () e) (he : e.movesTo .verification = true) {plan : PlanArtifact}
    (hplan : s.world.plans.latest = some plan)
    (hfree : Unblocked plan.subtasks) (htog : Together plan) :
    Covered s.world := by
  have hinit : ∀ w, Initial cfg w → spec.inv w := by
    rintro w ⟨_, _, _, _, _, _, _, _, _, _, hprog, _⟩
    exact inv_unstarted hprog
  have hset := (keeps cfg).settled hinit (Spec.covers_free rfl) hs
  exact Spec.mayMove_of_settled hset ha he rfl plan hplan hfree htog

/-- A plan in which every entry stands after those it depends on leaves no
entry blocked. -/
theorem unblocked_of_ordered {subtasks : List SubtaskEntry}
    (h : ∀ i : Fin subtasks.length, ∀ d ∈ (subtasks.get i).dependsOn,
      ∃ j < i, (subtasks.get j).taskId = d) : Unblocked subtasks := by
  have hentry : ∀ i, Dischargeable subtasks (subtasks.get i) := by
    intro i
    induction i using WellFoundedLT.induction with
    | ind i ih =>
      have : Nonempty (Fin subtasks.length) := ⟨i⟩
      choose! provider hlt hname using h i
      exact .intro (List.get_mem subtasks i) (fun d => subtasks.get (provider d))
        hname (fun d hd => ih _ (hlt d hd))
  intro st hst
  obtain ⟨i, rfl⟩ := List.mem_iff_get.1 hst
  exact hentry i

theorem together_of_nodup {plan : PlanArtifact}
    (h : (plan.subtasks.map (·.taskId)).Nodup) : Together plan := by
  intro p first _ _ st hst hin st' hst' hid
  rw [List.inj_on_of_nodup_map h hst' hst hid]
  exact hin

/-- A subtask, and a group of two that depend on it. -/
def dependent : List SubTask :=
  [Sample.task "t1"] ++ ["t2", "t3"].map fun id =>
    { taskId := id, description := "write it", parallelGroup := some "g"
      dependsOn := ["t1"], interfaceContract := some "def f() -> int" }

/-- The first goes out alone, then the group, up to the move. -/
def coveredRun : List (Act Unit) :=
  Sample.approved () dependent ++
    answering () Sample.diff 1 ++ answering () (.time 0) 5 ++
    answering () (.diffs (.returned
      [⟨["src/story.py"], 10⟩, ⟨["src/story.py"], 20⟩])) 1 ++
    answering () (.time 0) 1

theorem covered_at_verification_coveredRun :
    ∃ s : State Unit,
      (machine Sample.cfg).Reach (Initial Sample.cfg) (fun _ _ => True) s ∧
      (∃ e, s.Drives () e ∧ e.movesTo .verification = true) ∧
      s.world.done = ["t1", "t2", "t3"] ∧ Covered s.world := by
  obtain ⟨s, hs, htest⟩ := reach_of_plays_free Sample.initial_sample
    coveredRun
    (fun s => driving s () (Req.movesTo .verification) &&
      decide (s.world.done = ["t1", "t2", "t3"]) &&
        decide (s.world.plans.latest.map (·.subtasks) =
          some (dependent.map SubtaskEntry.ofSubTask))) (by decide +kernel)
  simp only [Bool.and_eq_true, decide_eq_true_eq] at htest
  obtain ⟨⟨hdrives, hdone⟩, hlatest⟩ := htest
  obtain ⟨e, ha, he⟩ := driving_inv hdrives
  obtain ⟨plan, hplan, hsub⟩ := Option.map_eq_some_iff.1 hlatest
  have hfree : Unblocked plan.subtasks := by
    rw [hsub]
    exact unblocked_of_ordered (by decide)
  have htog : Together plan := by
    apply together_of_nodup
    rw [hsub]
    decide
  exact ⟨s, hs, ⟨e, ha, he⟩, hdone,
    covered_at_verification _ hs ha he hplan hfree htog⟩

/-- A subtask that waits for itself: the run goes on to verification with
nothing ever handed over. -/
theorem uncovered_cycle :
    ¬ ∀ s : State Unit,
      (machine Sample.cfg).Reach (Initial Sample.cfg) (fun _ _ => True) s →
        (∃ e, s.Drives () e ∧ e.movesTo .verification = true) → Covered s.world := by
  intro hclaim
  obtain ⟨s, hs, htest⟩ := reach_of_plays_free Sample.initial_sample
    (Sample.authored () [Sample.task "t1" ["t1"]] ++
      calling () (.approvePlan "run" "approve" none) 2 ++
      answering () (.time 0) 6)
    (fun s => driving s () (Req.movesTo .verification) && decide (s.world.subtasks ≠ [] ∧
      s.world.done = [])) (by decide +kernel)
  rw [Bool.and_eq_true, decide_eq_true_eq] at htest
  obtain ⟨st, hst⟩ := List.exists_mem_of_ne_nil _ htest.2.1
  have hin := (hclaim s hs (driving_inv htest.1) st hst).2
  rw [htest.2.2] at hin
  cases hin

end Coverage

end SdlcOs.Orchestrator
