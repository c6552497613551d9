/-
What follows an implementation attempt that raised.

# The claim

Nothing of a failed attempt is recorded but its count, so the next turn
finds the same plan and the same completed ids, and hands the same work
over again: the same batch, or another fix-up of the same failure
(`retried`). The run stays at implementation until an attempt returns, or
is abandoned, so it is never anywhere else while the last attempt raised
(`stays`).

# The invariant

`Due` says of a world what the next attempt is going to be. It reads the
plan's entries, the completed ids and the pending failure summary, and no
human decision changes any of these while the run is being implemented.
-/
import SdlcOs.Proofs.Seq.Turn

namespace SdlcOs.Orchestrator

open Effects
open Registry (Stage Result ErrorInfo)

namespace Retry

-- ==== vocabulary

/-- An implementation attempt: where it was made, with which subtasks, and
what came of it. -/
structure Attempt where
  site : Site
  subtasks : List SubTask
  out : Reply (List DiffOutput)

/-- The latest attempt of a history. -/
def lastAttempt : List Event → Option Attempt
  | [] => none
  | .implemented site sts out :: _ => some ⟨site, sts, out⟩
  | _ :: hist => lastAttempt hist

/-- The latest attempt raised, and was made so. -/
def Failing (hist : List Event) (site : Site) (sts : List SubTask) : Prop :=
  ∃ x, lastAttempt hist = some ⟨site, sts, .raised x⟩

/-- After an attempt that raised comes one at the same place, and with the
same subtasks, but for fix-ups. -/
def Retried : List Event → Prop
  | [] => True
  | .implemented site sts _ :: hist =>
    (∀ site' sts', Failing hist site' sts' →
      site' = site ∧ (site = .planned → sts' = sts)) ∧ Retried hist
  | _ :: hist => Retried hist

/-- The event is no attempt. -/
def other : Event → Bool
  | .implemented .. => false
  | _ => true

theorem lastAttempt_other {ev : Event} (h : other ev = true)
    (hist : List Event) : lastAttempt (ev :: hist) = lastAttempt hist := by
  cases ev <;> first | rfl | cases h

theorem retried_other {ev : Event} (h : other ev = true)
    {hist : List Event} (hr : Retried hist) : Retried (ev :: hist) := by
  cases ev <;> first | exact hr | cases h

/-- Events that are no attempts. -/
def Others (evs : List Event) : Prop := ∀ ev ∈ evs, other ev = true

theorem lastAttempt_others {evs : List Event} (h : Others evs)
    (hist : List Event) : lastAttempt (evs ++ hist) = lastAttempt hist := by
  induction evs with
  | nil => rfl
  | cons ev evs ih =>
    rw [List.cons_append, lastAttempt_other (h ev List.mem_cons_self)]
    exact ih fun ev' hev' => h ev' (List.mem_cons_of_mem _ hev')

theorem retried_others {evs : List Event} (h : Others evs)
    {hist : List Event} (hr : Retried hist) : Retried (evs ++ hist) := by
  induction evs with
  | nil => exact hr
  | cons ev evs ih =>
    exact retried_other (h ev List.mem_cons_self)
      (ih fun ev' hev' => h ev' (List.mem_cons_of_mem _ hev'))

theorem others_nil : Others [] := by
  intro ev hev
  cases hev

theorem others_one {ev : Event} (h : other ev = true) :
    Others [ev] := by
  intro ev' hev'
  rw [List.mem_singleton.1 hev']
  exact h

theorem others_moveEvents (w : World) (next : Stage) :
    Others (w.moveEvents next) := by
  intro ev hev
  unfold World.moveEvents at hev
  split at hev
  · rw [List.mem_singleton.1 hev]
    rfl
  · cases hev

theorem others_pointerEvents (ptr : Pointer) :
    Others (World.pointerEvents ptr) := by
  intro ev hev
  unfold World.pointerEvents at hev
  split at hev
  · split at hev
    · rw [List.mem_singleton.1 hev]
      rfl
    · cases hev
  · cases hev

-- ==== the invariant

/-- The next attempt over a plan and a record: at this place, with these
subtasks. -/
def Next (artifact : PlanArtifact) (p : RunProgress) :
    Site → List SubTask → Prop
  | .planned, sts => ∃ first, nextSubtask artifact p = some first ∧
      sts = (readySubtaskBatch artifact p first).map SubTask.ofEntry
  | .fixup, _ => nextSubtask artifact p = none ∧
      p.lastVerificationFailureSummary ≠ ""

/-- The next attempt in a world. -/
def Due (w : World) (site : Site) (sts : List SubTask) : Prop :=
  ∃ artifact p, w.plans.latest = some artifact ∧ w.progress = some p ∧
    Next artifact p site sts

/-- What every world between turns satisfies. -/
structure Inv (w : World) : Prop where
  unstarted : w.run.stage.planning = true → lastAttempt w.hist = none
  retried : Retried w.hist
  due : ∀ site sts, Failing w.hist site sts →
    w.run.stage = .implementation ∧ Due w site sts ∨
      w.run.stage = .abandoned

/-- No turn changes what is due but an attempt. -/
def spec : Spec where
  inv := Inv

theorem Next.congr {artifact artifact' : PlanArtifact} {p p' : RunProgress}
    (hsub : artifact'.subtasks = artifact.subtasks)
    (hdone : p'.completedSubtaskIds = p.completedSubtaskIds)
    (hsum : p'.lastVerificationFailureSummary =
      p.lastVerificationFailureSummary)
    {site : Site} {sts : List SubTask} (h : Next artifact p site sts) :
    Next artifact' p' site sts := by
  have hnext : nextSubtask artifact' p' = nextSubtask artifact p := by
    unfold nextSubtask
    rw [hsub, hdone]
  cases site with
  | planned =>
    obtain ⟨first, hfirst, hsts⟩ := h
    refine ⟨first, hnext.trans hfirst, hsts.trans ?_⟩
    unfold readySubtaskBatch
    rw [hsub, hdone]
  | fixup => exact ⟨hnext.trans h.1, by rw [hsum]; exact h.2⟩

/-- A record kept apart from what is due. -/
def Same (p p' : RunProgress) : Prop :=
  p'.completedSubtaskIds = p.completedSubtaskIds ∧
    p'.lastVerificationFailureSummary = p.lastVerificationFailureSummary

theorem same_acknowledge (p : RunProgress) (sig : Signature) :
    Same p (p.acknowledge sig) := by
  unfold RunProgress.acknowledge
  split
  · exact ⟨rfl, rfl⟩
  · exact ⟨rfl, rfl⟩

theorem Due.congr {w w' : World} {site : Site} {sts : List SubTask}
    (hplan : ∀ a, w.plans.latest = some a →
      ∃ a', w'.plans.latest = some a' ∧ a'.subtasks = a.subtasks)
    (hprog : ∀ p, w.progress = some p →
      ∃ p', w'.progress = some p' ∧ Same p p')
    (h : Due w site sts) : Due w' site sts := by
  obtain ⟨a, p, ha, hp, hnext⟩ := h
  obtain ⟨a', ha', hsub⟩ := hplan a ha
  obtain ⟨p', hp', hsame⟩ := hprog p hp
  exact ⟨a', p', ha', hp', hnext.congr hsub hsame.1 hsame.2⟩

/-- Worlds that differ in nothing an attempt is read off. -/
structure Alike (w w' : World) : Prop where
  stage : w'.run.stage = w.run.stage
  plan : ∀ a, w.plans.latest = some a →
    ∃ a', w'.plans.latest = some a' ∧ a'.subtasks = a.subtasks
  progress : ∀ p, w.progress = some p →
    ∃ p', w'.progress = some p' ∧ Same p p'
  hist : ∃ evs, Others evs ∧ w'.hist = evs ++ w.hist

theorem Inv.alike {w w' : World} (h : Inv w) (ha : Alike w w') : Inv w' := by
  obtain ⟨evs, hevs, hhist⟩ := ha.hist
  have hlast : lastAttempt w'.hist = lastAttempt w.hist := by
    rw [hhist]
    exact lastAttempt_others hevs _
  refine ⟨?_, ?_, ?_⟩
  · rw [ha.stage, hlast]
    exact h.unstarted
  · rw [hhist]
    exact retried_others hevs h.retried
  · intro site sts hf
    unfold Failing at hf
    rw [hlast] at hf
    rw [ha.stage]
    rcases h.due site sts hf with ⟨hst, hdue⟩ | hst
    · exact Or.inl ⟨hst, hdue.congr ha.plan ha.progress⟩
    · exact Or.inr hst

theorem alike_refl_plan {w : World} : ∀ a, w.plans.latest = some a →
    ∃ a', w.plans.latest = some a' ∧ a'.subtasks = a.subtasks :=
  fun a ha => ⟨a, ha, rfl⟩

theorem alike_refl_progress {w : World} : ∀ p, w.progress = some p →
    ∃ p', w.progress = some p' ∧ Same p p' :=
  fun p hp => ⟨p, hp, rfl, rfl⟩

theorem Inv.record {w : World} (h : Inv w) {ev : Event}
    (hev : other ev = true) : Inv (w.record ev) :=
  h.alike ⟨rfl, alike_refl_plan, alike_refl_progress,
    [ev], others_one hev, rfl⟩

theorem cut_of_inv {w : World} (h : Inv w) : spec.Cut w :=
  fun _ => h.record rfl

/-- The latest attempt did not raise: there is nothing to say but that it
was no retry of another. -/
theorem inv_of_settled {w : World}
    (hstart : w.run.stage.planning = true → lastAttempt w.hist = none)
    (hr : Retried w.hist) (hno : ∀ site sts, ¬ Failing w.hist site sts) :
    Inv w :=
  ⟨hstart, hr, fun site sts hf => absurd hf (hno site sts)⟩

theorem not_failing_of_none {hist : List Event} (h : lastAttempt hist = none)
    (site : Site) (sts : List SubTask) : ¬ Failing hist site sts := by
  rintro ⟨x, hx⟩
  rw [h] at hx
  cases hx

/-- Outside implementation, and short of being abandoned, the latest
attempt did not raise. -/
theorem Inv.not_failing {w : World} (h : Inv w)
    (hst : w.run.stage ≠ .implementation) (hst' : w.run.stage ≠ .abandoned)
    (site : Site) (sts : List SubTask) : ¬ Failing w.hist site sts := by
  intro hf
  rcases h.due site sts hf with ⟨heq, _⟩ | heq
  · exact hst heq
  · exact hst' heq

/-- A move of a run whose latest attempt did not raise. -/
theorem Inv.moved {w : World} (h : Inv w) {next : Stage}
    (hno : ∀ site sts, ¬ Failing w.hist site sts)
    (hpl : next.planning = true → w.run.stage.planning = true) :
    Inv (w.moved next) := by
  have hlast : lastAttempt (w.moved next).hist = lastAttempt w.hist :=
    lastAttempt_others (others_moveEvents w next) _
  refine inv_of_settled ?_ (retried_others (others_moveEvents w next)
    h.retried) fun site sts hf => ?_
  · intro hplan
    rw [hlast]
    exact h.unstarted (hpl hplan)
  · unfold Failing at hf
    rw [hlast] at hf
    exact hno site sts hf

theorem inv_unstarted {w : World} (hr : Retried w.hist)
    (h : lastAttempt w.hist = none) : Inv w :=
  inv_of_settled (fun _ => h) hr (not_failing_of_none h)

theorem moves_of_inv {w : World} {next : Stage} (h : Inv (w.moved next)) :
    spec.Moves w next spec.inv :=
  ⟨trivial, cut_of_inv h, h⟩

-- ==== the steps

section Attempts

variable {w : World} {plan : PlanArtifact} {p : RunProgress}

theorem Inv.attempt (h : Inv w) (hst : w.run.stage = .implementation)
    (hplan : w.plans.latest = some plan) (hp : w.Current p) {site : Site}
    {sts : List SubTask} (hnext : Next plan p site sts)
    (out : Reply (List DiffOutput)) :
    Retried (.implemented site sts out :: w.hist) := by
  refine ⟨fun site' sts' hf => ?_, h.retried⟩
  rcases h.due site' sts' hf with ⟨_, a, p', ha, hp', hdue⟩ | habandoned
  · obtain rfl := Option.some.inj (ha.symm.trans hplan)
    have hsame : p = p' := by
      rcases hp with hp | ⟨hp, _⟩
      · exact Option.some.inj (hp.symm.trans hp')
      · rw [hp] at hp'
        cases hp'
    subst hsame
    cases site with
    | planned =>
      obtain ⟨first, hfirst, rfl⟩ := hnext
      cases site' with
      | planned =>
        obtain ⟨first', hfirst', rfl⟩ := hdue
        obtain rfl := Option.some.inj (hfirst.symm.trans hfirst')
        exact ⟨rfl, fun _ => rfl⟩
      | fixup =>
        rw [hdue.1] at hfirst
        cases hfirst
    | fixup =>
      cases site' with
      | planned =>
        obtain ⟨first', hfirst', _⟩ := hdue
        rw [hnext.1] at hfirst'
        cases hfirst'
      | fixup => exact ⟨rfl, fun hc => absurd hc (by decide)⟩
  · rw [hst] at habandoned
    cases habandoned

theorem inv_raised (hst : w.run.stage = .implementation)
    (hplan : w.plans.latest = some plan) {site : Site} {sts : List SubTask}
    (hnext : Next plan p site sts) {w' : World} {p' : RunProgress}
    {x : Exn} (hst' : w'.run.stage = w.run.stage)
    (hplan' : w'.plans.latest = w.plans.latest)
    (hp' : w'.progress = some p') (hsame : Same p p')
    (hhist : w'.hist = .implemented site sts (.raised x) :: w.hist)
    (hr : Retried w'.hist) : Inv w' := by
  refine ⟨?_, hr, ?_⟩
  · rw [hst', hst]
    intro hc
    cases hc
  · intro site' sts' hf
    unfold Failing at hf
    rw [hhist] at hf
    obtain ⟨x', hx'⟩ := hf
    obtain ⟨rfl, rfl, _⟩ := Attempt.mk.inj (Option.some.inj hx')
    exact Or.inl ⟨hst'.trans hst, plan, p', hplan'.trans hplan, hp',
      hnext.congr rfl hsame.1 hsame.2⟩

theorem inv_returned {w' : World} {site : Site} {sts : List SubTask} {diffs : List DiffOutput}
    (hpl : w'.run.stage.planning = false)
    (hhist : w'.hist = .implemented site sts (.returned diffs) :: w.hist)
    (hr : Retried w'.hist) : Inv w' := by
  refine inv_of_settled (fun hc => ?_) hr fun site' sts' hf => ?_
  · rw [hpl] at hc
    cases hc
  · unfold Failing at hf
    rw [hhist] at hf
    obtain ⟨x', hx'⟩ := hf
    cases Option.some.inj hx'

end Attempts

theorem not_failing_returned {hist : List Event} {site : Site}
    {sts : List SubTask} {diffs : List DiffOutput} (site' : Site)
    (sts' : List SubTask) : ¬ Failing
      (.implemented site sts (.returned diffs) :: hist) site' sts' := by
  rintro ⟨x, hx⟩
  cases Option.some.inj hx

theorem alike_loaded {w : World} {p : RunProgress} (hp : w.Current p) :
    Alike w (w.progressSaved p) := by
  refine ⟨rfl, alike_refl_plan, fun p' hp' => ⟨p, rfl, ?_⟩, [], others_nil,
    rfl⟩
  rcases hp with hp | ⟨hp, _⟩
  · obtain rfl := Option.some.inj (hp.symm.trans hp')
    exact ⟨rfl, rfl⟩
  · rw [hp] at hp'
    cases hp'

theorem Inv.nothing_due {w : World} {plan : PlanArtifact} {p : RunProgress}
    (h : Inv w) (hst : w.run.stage = .implementation)
    (hplan : w.plans.latest = some plan) (hp : w.progress = some p)
    (hnext : nextSubtask plan p = none)
    (hsum : p.lastVerificationFailureSummary = "") (site : Site)
    (sts : List SubTask) : ¬ Failing w.hist site sts := by
  intro hf
  rcases h.due site sts hf with ⟨_, a, p', ha, hp', hdue⟩ | habandoned
  · obtain rfl := Option.some.inj (ha.symm.trans hplan)
    obtain rfl := Option.some.inj (hp'.symm.trans hp)
    cases site with
    | planned =>
      obtain ⟨first, hfirst, _⟩ := hdue
      rw [hnext] at hfirst
      cases hfirst
    | fixup => exact hdue.2 hsum
  · rw [hst] at habandoned
    cases habandoned

theorem implStep {cfg : Config} {w : World} {plan : PlanArtifact}
    {p : RunProgress} (hst : w.run.stage = .implementation) (h : Inv w)
    (hplan : w.plans.latest = some plan) (hp : w.Current p) :
    spec.ImplStep cfg w plan p (spec.ImplDone spec.inv) := by
  have hload : Inv (w.progressSaved p) := h.alike (alike_loaded hp)
  -- what is due after an attempt that raised is what was due before it
  have hraised : ∀ (site : Site) (sts : List SubTask) (x : Exn) (w' : World)
      (p' : RunProgress), Next plan p site sts → w'.run.stage = w.run.stage →
      w'.plans.latest = w.plans.latest → w'.progress = some p' → Same p p' →
      w'.hist = .implemented site sts (.raised x) :: w.hist → Inv w' := by
    intro site sts x w' p' hnext hst' hplan' hp' hsame hhist
    refine inv_raised hst hplan hnext hst' hplan' hp' hsame hhist ?_
    rw [hhist]
    exact h.attempt hst hplan hp hnext _
  have hreturned : ∀ (site : Site) (sts : List SubTask)
      (diffs : List DiffOutput) (w' : World), Next plan p site sts →
      w'.run.stage = w.run.stage →
      w'.hist = .implemented site sts (.returned diffs) :: w.hist →
        Inv w' := by
    intro site sts diffs w' hnext hst' hhist
    refine inv_returned (by rw [hst', hst]; rfl) hhist ?_
    rw [hhist]
    exact h.attempt hst hplan hp hnext _
  have hverify : ∀ w' : World, Inv w' →
      (∀ site sts, ¬ Failing w'.hist site sts) →
        spec.ImplDone spec.inv .verify w' := fun w' hinv hno =>
    ⟨cut_of_inv hinv, moves_of_inv (hinv.moved hno fun hc => absurd hc (by decide))⟩
  have hfail : ∀ (site : Site) (sts : List SubTask) (x : Exn),
      Next plan p site sts →
        spec.Cut ((w.progressSaved p).record
          (.implemented site sts (.raised x))) ∧
        spec.FailStep ((w.progressSaved p).record
          (.implemented site sts (.raised x))) p (spec.ImplDone spec.inv) := by
    intro site sts x hnext
    have hsame : Same p p.afterFailure := ⟨rfl, rfl⟩
    exact ⟨cut_of_inv (hraised site sts x _ p hnext rfl rfl rfl ⟨rfl, rfl⟩
        rfl),
      { saved := cut_of_inv (hraised site sts x _ _ hnext rfl rfl rfl hsame
          rfl)
        paused := fun _ _ _ =>
          ⟨cut_of_inv (hraised site sts x _ _ hnext rfl rfl rfl hsame rfl),
            hraised site sts x _ _ hnext rfl rfl rfl hsame rfl⟩
        proceed := fun _ =>
          ⟨cut_of_inv (hraised site sts x _ _ hnext rfl rfl rfl hsame rfl),
            hraised site sts x _ _ hnext rfl rfl rfl hsame rfl⟩ }⟩
  refine
    { loaded := cut_of_inv hload
      verify := fun hnext hsum => hverify _ hload
        (hload.nothing_due hst hplan rfl hnext hsum)
      may := trivial
      fixupRaised := fun hnext hsum st x _ =>
        hfail .fixup [st] x ⟨hnext, hsum⟩
      fixup := fun hnext hsum st d _ =>
        ⟨cut_of_inv (hreturned .fixup [st] [d] _ ⟨hnext, hsum⟩ rfl rfl),
          hverify _ (hreturned .fixup [st] [d] _ ⟨hnext, hsum⟩ rfl rfl)
            not_failing_returned⟩
      batchRaised := fun first batch hnext hbatch x _ =>
        hfail .planned _ x ⟨first, hnext, by rw [hbatch]⟩
      batch := ?_ }
  intro first batch hnext hbatch diffs _
  have hdue : Next plan p .planned (batch.map SubTask.ofEntry) :=
    ⟨first, hnext, by rw [hbatch]⟩
  exact ⟨cut_of_inv (hreturned _ _ diffs _ hdue rfl rfl),
    { saved := cut_of_inv (hreturned _ _ diffs _ hdue rfl rfl)
      paused := fun _ _ _ _ _ _ _ _ =>
        ⟨cut_of_inv (hreturned _ _ diffs _ hdue rfl rfl),
          hreturned _ _ diffs _ hdue rfl rfl⟩
      proceed := fun _ _ _ _ _ =>
        ⟨cut_of_inv (hreturned _ _ diffs _ hdue rfl rfl),
          hreturned _ _ diffs _ hdue rfl rfl⟩
      verify := fun _ _ _ _ _ =>
        hverify _ (hreturned _ _ diffs _ hdue rfl rfl)
          not_failing_returned }⟩

/-- Away from implementation a record may be replaced and the history grow
by events that are no attempts. -/
theorem Inv.elsewhere {w w' : World} (h : Inv w)
    (hst : w.run.stage = .verification) (hst' : w'.run.stage = w.run.stage)
    {evs : List Event} (hevs : Others evs) (hhist : w'.hist = evs ++ w.hist) :
    Inv w' := by
  have hlast : lastAttempt w'.hist = lastAttempt w.hist := by
    rw [hhist]
    exact lastAttempt_others hevs _
  refine inv_of_settled ?_ (by rw [hhist]; exact retried_others hevs h.retried)
    fun site sts hf => ?_
  · rw [hst', hst]
    intro hc
    cases hc
  · unfold Failing at hf
    rw [hlast] at hf
    exact h.not_failing (by rw [hst]; decide) (by rw [hst]; decide) site sts hf

theorem verStep {w : World} (hst : w.run.stage = .verification)
    (h : Inv w) : spec.VerStep w (spec.VerDone spec.inv spec.inv) := by
  have hround : ∀ r, ∀ w' : World, w'.run.stage = w.run.stage →
      w'.hist = .verified r :: w.hist → Inv w' := fun r w' hst' hhist =>
    h.elsewhere hst hst' (others_one rfl) hhist
  have hmove : ∀ r (next : Stage), (next.planning = true → False) →
      ∀ w' : World, w'.run.stage = w.run.stage →
      w'.hist = .verified r :: w.hist → spec.Moves w' next spec.inv := by
    intro r next hnext w' hst' hhist
    have hinv := hround r w' hst' hhist
    refine moves_of_inv (hinv.moved ?_ fun hc => (hnext hc).elim)
    exact hinv.not_failing (by rw [hst', hst]; decide)
      (by rw [hst', hst]; decide)
  refine ⟨trivial, fun r _ => cut_of_inv (hround r _ rfl rfl), ?_, ?_, ?_, ?_,
    ?_⟩
  · intro res p _ _
    exact cut_of_inv (hround _ _ rfl rfl)
  · intro res p _ _ _
    exact ⟨cut_of_inv (hround _ _ rfl rfl),
      hmove _ _ (by decide) _ rfl rfl⟩
  · intro res p _ _ _
    exact cut_of_inv (hround _ _ rfl rfl)
  · intro res p _ _ _ _ id createdAt
    exact ⟨cut_of_inv (hround _ _ rfl rfl), hround _ _ rfl rfl⟩
  · intro res p _ _ _ _
    exact ⟨cut_of_inv (hround _ _ rfl rfl),
      hmove _ _ (by decide) _ rfl rfl⟩

theorem turns {cfg : Config} {w : World} (h : Inv w) :
    spec.Turns cfg w spec.inv spec.inv where
  intake := by
    intro hst
    have hnone := h.unstarted (by rw [hst]; rfl)
    exact moves_of_inv (h.moved (not_failing_of_none hnone)
      fun _ => by rw [hst]; rfl)
  research := by
    intro hst
    have hnone := h.unstarted (by rw [hst]; rfl)
    exact moves_of_inv (h.moved (not_failing_of_none hnone)
      fun _ => by rw [hst]; rfl)
  author := by
    intro hst out _
    have hnone := h.unstarted (by rw [hst]; rfl)
    have hout := @Inv.record w h (.authored out) rfl
    refine ⟨cut_of_inv hout, ?_⟩
    intro artifact _
    have hplan : Inv ((w.record (.authored out)).planSaved artifact) :=
      inv_unstarted hout.retried hnone
    exact ⟨cut_of_inv hplan, moves_of_inv (hplan.moved
      (not_failing_of_none hnone) fun _ => by
        show w.run.stage.planning = true
        rw [hst]
        rfl)⟩
  implement := fun hst _ _ hplan hp => implStep hst h hplan hp
  verify := fun hst => verStep hst h
  package := by
    intro hst _
    have hout := @Inv.record w h .packaged rfl
    refine ⟨trivial, fun _ => ⟨cut_of_inv hout, moves_of_inv (hout.moved
      (hout.not_failing ?_ ?_) fun hc => absurd hc (by decide))⟩⟩
    · show w.run.stage ≠ _
      rw [hst]
      decide
    · show w.run.stage ≠ _
      rw [hst]
      decide
  unpackaged := fun hst _ => moves_of_inv (h.moved
    (h.not_failing (by rw [hst]; decide) (by rw [hst]; decide))
    fun hc => absurd hc (by decide))
  retrospective := fun hst => moves_of_inv (h.moved
    (h.not_failing (by rw [hst]; decide) (by rw [hst]; decide))
    fun hc => absurd hc (by decide))

-- ==== public calls

theorem planCall {cfg : Config} {w : World} {decision feedback : String}
    (hst : w.run.stage = .planApprovalGate) (h : Inv w) :
    spec.PlanCall cfg w decision feedback := by
  have hnone := h.unstarted (by rw [hst]; rfl)
  have hmoved : ∀ next : Stage, Retried (w.moved next).hist ∧
      lastAttempt (w.moved next).hist = none := fun next =>
    ⟨retried_others (others_moveEvents w next) h.retried,
      (lastAttempt_others (others_moveEvents w next) _).trans hnone⟩
  have hout : ∀ out, Retried (.replanned feedback out :: w.hist) := fun out =>
    retried_other rfl h.retried
  refine ⟨fun _ => ⟨cut_of_inv (inv_unstarted (hmoved _).1 (hmoved _).2),
      fun now => inv_unstarted (hmoved _).1 (hmoved _).2⟩,
    fun _ id => cut_of_inv (inv_unstarted h.retried hnone),
    fun _ id out _ => ⟨cut_of_inv (inv_unstarted (hout out) hnone),
      fun artifact _ => ⟨cut_of_inv (inv_unstarted (hout out) hnone), ?_⟩⟩,
    fun _ => inv_unstarted (hmoved _).1 (hmoved _).2⟩
  have hinv : Inv (((w.reattempted id).record
      (.replanned feedback out)).planSaved artifact) :=
    inv_unstarted (hout out) hnone
  exact hinv.moved (not_failing_of_none hnone) fun _ => rfl

theorem reviewCall {w : World} {decision : String}
    (hst : w.run.stage = .changeReviewGate) (h : Inv w) :
    spec.ReviewCall w decision := by
  have hno := h.not_failing (by rw [hst]; decide) (by rw [hst]; decide)
  exact ⟨fun _ => h.moved hno fun hc => absurd hc (by decide),
    fun _ => h.moved hno fun hc => absurd hc (by decide),
    fun _ => h.moved hno fun hc => absurd hc (by decide)⟩

theorem alike_answered (w : World) (e : Elicitation) (decision : String)
    (note : Option String) (now : Time) :
    Alike w (Spec.answeredBy w e decision note now) :=
  ⟨rfl, alike_refl_plan, alike_refl_progress, _, others_pointerEvents _, rfl⟩

theorem alike_acked (w : World) (e : Elicitation) :
    Alike w (Spec.acked w e) := by
  refine ⟨congrArg _ (Spec.acked_run w e), ?_, ?_, [], others_nil,
    Spec.acked_hist w e⟩
  · rw [Spec.acked_plans]
    exact alike_refl_plan
  · intro p hp
    unfold Spec.acked
    split
    · next p' sig hp' hs =>
      obtain rfl := Option.some.inj (hp.symm.trans hp')
      exact ⟨_, rfl, same_acknowledge _ _⟩
    · exact ⟨p, hp, rfl, rfl⟩

theorem Inv.abandoned {w : World} (h : Inv w) : Inv (w.moved .abandoned) := by
  refine ⟨fun hc => Bool.noConfusion (hc : false = true), ?_,
    fun _ _ _ => Or.inr rfl⟩
  exact retried_others (others_moveEvents w _) h.retried

theorem resolveCall {w : World} {e : Elicitation} {decision : String}
    {note : Option String} {now : Time} (h : Inv w) :
    spec.ResolveCall w e decision note now := by
  have hans : Inv (Spec.answeredBy w e decision note now) :=
    h.alike (alike_answered w e decision note now)
  have hack := hans.alike (alike_acked _ e)
  refine ⟨cut_of_inv hans, fun _ _ => hans.abandoned,
    fun _ => cut_of_inv hack, ?_, fun _ _ => hack⟩
  intro _ _ artifact at' hplan
  -- the extended plan has the same entries
  refine hack.alike ⟨rfl, fun a ha => ⟨_, rfl, ?_⟩, alike_refl_progress, [],
    others_nil, rfl⟩
  rw [Spec.acked_plans] at ha
  obtain rfl := Option.some.inj (ha.symm.trans hplan)
  rfl

theorem keeps (cfg : Config) : spec.Keeps cfg where
  cut := fun _ h => cut_of_inv h
  called := fun _ _ h _ => Inv.record h rfl
  turn := fun _ h _ => turns h
  plan := fun _ _ _ _ h _ _ hst => planCall hst (Inv.record h rfl)
  review := fun _ _ _ _ h _ _ hst => reviewCall hst (Inv.record h rfl)
  resolve := fun _ _ _ _ _ _ h _ _ _ => resolveCall (Inv.record h rfl)

-- ==== the result

theorem inv_of_reach (cfg : Config) {s : State Unit}
    (hs : (machine cfg).Reach (Initial cfg) (fun _ _ => True) s) :
    Inv s.world := by
  have hinit : ∀ w, Initial cfg w → spec.inv w := by
    rintro w ⟨_, _, _, _, _, _, _, _, _, _, _, hhist⟩
    exact inv_unstarted (by rw [hhist]; exact trivial) (by rw [hhist]; rfl)
  have hset := (keeps cfg).settled hinit (Spec.covers_free rfl) hs
  cases hp : s.procs () with
  | none => exact hset.resting fun _ => hp
  | some pr =>
    have hcut := (hset.running () pr hp).cut trivial
    refine ⟨hcut.unstarted, hcut.retried, fun site sts hf => ?_⟩
    exact hcut.due site sts hf

/-- In every sequential run: after an attempt that raised comes one with
the same subtasks, but for fix-ups. -/
theorem retried (cfg : Config) {s : State Unit}
    (hs : (machine cfg).Reach (Initial cfg) (fun _ _ => True) s) :
    Retried s.world.hist :=
  (inv_of_reach cfg hs).retried

end Retry

end SdlcOs.Orchestrator
