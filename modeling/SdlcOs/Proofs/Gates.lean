/-
The two human gates.

# What is enforced where

No single place of core.py enforces the gates: the stage graph, the
branches of the drive loop and the three public calls do so together.
`Earned` says, stage by stage, what the run's history must show for the
run to be there; it is the invariant. Packaging is earned by a passing
verification, then an approval of the change review, with no backend
call in between; everything from implementation to the change review is
earned by an approval of the plan.

The system may crash anywhere and the environment may answer anything:
the spec below restricts nothing.
-/
import SdlcOs.Orchestrator.Script
import SdlcOs.Proofs.Seq.Turn

namespace SdlcOs.Orchestrator

open Effects
open Registry (Stage Result ErrorInfo)

namespace Gates

-- ==== vocabulary

/-- A call of `implement_subtask` or `implement_subtasks_parallel`. -/
def Implements : Event → Prop
  | .implemented .. => True
  | _ => False

/-- Someone called `approve_plan('approve')` on the run. -/
def PlanApproved (runId : String) (hist : List Event) : Prop :=
  ∃ feedback, Event.called (.approvePlan runId "approve" feedback) ∈ hist

/-- A verification passed and nothing was implemented since. -/
def VerifiedClean (hist : List Event) : Prop :=
  ∃ since before res, hist = since ++ Event.verified (.returned res) :: before ∧
    res.passed = true ∧ ∀ ev ∈ since, ¬ Implements ev

/-- A verification passed, then someone called
`approve_change_review('approve')` on the run, and nothing was
implemented since the verification. -/
def ReviewApproved (runId : String) (hist : List Event) : Prop :=
  ∃ since between before feedback res,
    hist = since ++ Event.called
        (.approveChangeReview runId "approve" feedback) ::
      (between ++ Event.verified (.returned res) :: before) ∧
    res.passed = true ∧ (∀ ev ∈ since, ¬ Implements ev) ∧
      ∀ ev ∈ between, ¬ Implements ev

/-- What the history must show for the run to be at a stage. -/
def Earned (runId : String) : Stage → List Event → Prop
  | .implementation, hist => PlanApproved runId hist
  | .verification, hist => PlanApproved runId hist
  | .changeReviewGate, hist => PlanApproved runId hist ∧ VerifiedClean hist
  | .packaging, hist => ReviewApproved runId hist
  | _, _ => True

-- ==== history algebra

variable {runId : String} {hist : List Event} {ev : Event}

theorem PlanApproved.cons (h : PlanApproved runId hist) :
    PlanApproved runId (ev :: hist) := by
  obtain ⟨fb, hmem⟩ := h
  exact ⟨fb, List.mem_cons_of_mem _ hmem⟩

theorem VerifiedClean.cons (hev : ¬ Implements ev) (h : VerifiedClean hist) :
    VerifiedClean (ev :: hist) := by
  obtain ⟨since, before, res, rfl, hpass, hclean⟩ := h
  refine ⟨ev :: since, before, res, rfl, hpass, ?_⟩
  intro ev' hmem
  rcases List.mem_cons.1 hmem with rfl | hmem
  · exact hev
  · exact hclean ev' hmem

theorem ReviewApproved.cons (hev : ¬ Implements ev)
    (h : ReviewApproved runId hist) : ReviewApproved runId (ev :: hist) := by
  obtain ⟨since, between, before, fb, res, rfl, hpass, hsince, hbtw⟩ := h
  refine ⟨ev :: since, between, before, fb, res, rfl, hpass, ?_, hbtw⟩
  intro ev' hmem
  rcases List.mem_cons.1 hmem with rfl | hmem
  · exact hev
  · exact hsince ev' hmem

theorem VerifiedClean.approve {feedback : Option String}
    (h : VerifiedClean hist) :
    ReviewApproved runId
      (.called (.approveChangeReview runId "approve" feedback) :: hist) := by
  obtain ⟨since, before, res, rfl, hpass, hclean⟩ := h
  refine ⟨[], since, before, feedback, res, rfl, hpass, ?_, hclean⟩
  intro ev' hmem
  cases hmem

theorem Earned.cons {stage : Stage} (hev : ¬ Implements ev)
    (h : Earned runId stage hist) : Earned runId stage (ev :: hist) := by
  cases stage with
  | implementation => exact PlanApproved.cons h
  | verification => exact PlanApproved.cons h
  | changeReviewGate => exact ⟨h.1.cons, h.2.cons hev⟩
  | packaging => exact ReviewApproved.cons hev h
  | _ => exact trivial

-- ==== the invariant

/-- The gates as a spec: the run is only ever where its history entitles
it to be, and works only where it is entitled to. -/
def spec : Spec where
  inv := fun w => Earned w.run.id w.run.stage w.hist
  mayImplement := fun w => PlanApproved w.run.id w.hist
  mayPackage := fun w => ReviewApproved w.run.id w.hist

theorem cut_of_inv {w : World} (h : spec.inv w) : spec.Cut w :=
  fun _ => Earned.cons (fun hev => hev) h

theorem moves_of_inv {w : World} {next : Stage}
    (h : spec.inv (w.moved next)) : spec.Moves w next spec.inv :=
  ⟨trivial, cut_of_inv h, h⟩

/-- At a stage whose entitlement is the plan's approval, any event will
do. -/
theorem implStep {cfg : Config} {w : World} {artifact : PlanArtifact}
    {p : RunProgress} (hst : w.run.stage = .implementation)
    (h : PlanApproved w.run.id w.hist) :
    spec.ImplStep cfg w artifact p (spec.ImplDone spec.inv) := by
  -- every world on the way is at this stage or one transition further, and
  -- both are earned by the approval alone
  have hround : ∀ w' : World, w'.run.id = w.run.id →
      w'.run.stage = .implementation → PlanApproved w.run.id w'.hist →
        spec.Cut w' ∧ spec.inv w' := by
    intro w' hid hst' happ
    have hinv : Earned w'.run.id w'.run.stage w'.hist := by
      rw [hid, hst']
      exact happ
    exact ⟨cut_of_inv hinv, hinv⟩
  have hcut : ∀ w' : World, w'.run.id = w.run.id →
      w'.run.stage = .implementation → PlanApproved w.run.id w'.hist →
        spec.Cut w' := fun w' hid hst' happ => (hround w' hid hst' happ).1
  have hverify : ∀ w' : World, w'.run.id = w.run.id →
      w'.run.stage = .implementation → PlanApproved w.run.id w'.hist →
        spec.ImplDone spec.inv .verify w' := by
    intro w' hid hst' happ
    refine ⟨hcut w' hid hst' happ, moves_of_inv ?_⟩
    show PlanApproved w'.run.id (w'.moved .verification).hist
    rw [hid, World.moved_hist_of_ne (by rw [hst']; decide)]
    exact happ
  have hfail : ∀ w' : World, w'.run.id = w.run.id →
      w'.run.stage = .implementation → PlanApproved w.run.id w'.hist →
        spec.FailStep w' p (spec.ImplDone spec.inv) := by
    intro w' hid hst' happ
    exact
      { saved := hcut _ hid hst' happ
        paused := fun _ _ _ => hround _ hid hst' happ
        proceed := fun _ => hround _ hid hst' happ }
  exact
    { loaded := hcut _ rfl hst h
      verify := fun _ _ => hverify _ rfl hst h
      may := h
      fixupRaised := fun _ _ _ _ _ =>
        ⟨hcut _ rfl hst h.cons, hfail _ rfl hst h.cons⟩
      fixup := fun _ _ _ _ _ =>
        ⟨hcut _ rfl hst h.cons, hverify _ rfl hst h.cons⟩
      batchRaised := fun _ _ _ _ _ _ =>
        ⟨hcut _ rfl hst h.cons, hfail _ rfl hst h.cons⟩
      batch := fun _ _ _ _ _ _ =>
        ⟨hcut _ rfl hst h.cons,
          { saved := hcut _ rfl hst h.cons
            paused := fun _ _ _ _ _ _ _ _ => hround _ rfl hst h.cons
            proceed := fun _ _ _ _ _ => hround _ rfl hst h.cons
            verify := fun _ _ _ _ _ => hverify _ rfl hst h.cons }⟩ }

theorem inv_planning {w : World} (h : w.run.stage.planning = true) :
    spec.inv w := by
  show Earned w.run.id w.run.stage w.hist
  cases hst : w.run.stage <;> rw [hst] at h <;>
    first | exact trivial | cases h

theorem verStep {w : World} (hst : w.run.stage = .verification)
    (h : PlanApproved w.run.id w.hist) :
    spec.VerStep w (spec.VerDone spec.inv spec.inv) := by
  have hround : ∀ w' : World, w'.run.id = w.run.id →
      w'.run.stage = .verification → PlanApproved w.run.id w'.hist →
        spec.Cut w' ∧ spec.inv w' := by
    intro w' hid hst' happ
    have hinv : Earned w'.run.id w'.run.stage w'.hist := by
      rw [hid, hst']
      exact happ
    exact ⟨cut_of_inv hinv, hinv⟩
  have hcut : ∀ w' : World, w'.run.id = w.run.id →
      w'.run.stage = .verification → PlanApproved w.run.id w'.hist →
        spec.Cut w' := fun w' hid hst' happ => (hround w' hid hst' happ).1
  refine ⟨trivial, fun _ _ => hcut _ rfl hst h.cons,
    fun _ _ _ _ => hcut _ rfl hst h.cons, ?_,
    fun _ _ _ _ _ => hcut _ rfl hst h.cons,
    fun _ _ _ _ _ _ _ _ => hround _ rfl hst h.cons, ?_⟩
  · -- a pass: the event just recorded is the clean verification
    intro res p _ _ hpass
    refine ⟨hcut _ rfl hst h.cons, moves_of_inv ?_⟩
    refine ⟨?_, ?_⟩
    · rw [World.moved_hist_of_ne (by simp [hst])]
      exact h.cons
    · rw [World.moved_hist_of_ne (by simp [hst])]
      exact ⟨[], w.hist, res, rfl, hpass, by simp⟩
  · intro res p _ _ _ _
    refine ⟨hcut _ rfl hst h.cons, moves_of_inv ?_⟩
    show PlanApproved w.run.id _
    rw [World.moved_hist_of_ne (by simp [hst])]
    exact h.cons

theorem turns {cfg : Config} {w : World} (h : spec.inv w) :
    spec.Turns cfg w spec.inv spec.inv where
  intake := fun _ => moves_of_inv trivial
  research := fun _ => moves_of_inv trivial
  author := by
    intro hst out _
    refine ⟨cut_of_inv (inv_planning (by simp [hst]; rfl)), ?_⟩
    intro artifact _
    exact ⟨cut_of_inv (inv_planning (by simp [hst]; rfl)),
      moves_of_inv trivial⟩
  implement := by
    intro hst artifact p _ _
    have happ : Earned w.run.id w.run.stage w.hist := h
    rw [hst] at happ
    exact implStep hst happ
  verify := by
    intro hst
    have happ : Earned w.run.id w.run.stage w.hist := h
    rw [hst] at happ
    exact verStep hst happ
  package := by
    intro hst _
    have hrev : Earned w.run.id w.run.stage w.hist := h
    rw [hst] at hrev
    refine ⟨hrev, fun _ => ⟨cut_of_inv ?_, moves_of_inv trivial⟩⟩
    exact Earned.cons (fun hev => hev) h
  unpackaged := fun _ _ => moves_of_inv trivial
  retrospective := fun _ => moves_of_inv trivial

theorem planCall {cfg : Config} {w : World} {id decision : String}
    {feedback : Option String} (hid : w.run.id = id) :
    spec.PlanCall cfg (w.record (.called (.approvePlan id decision feedback)))
      decision (feedback.getD "") := by
  have happ : decision = "approve" → ∀ now, spec.inv
      (((w.record (.called (.approvePlan id decision feedback))).moved
        .implementation).progressSaved
          (.fresh w.run.id w.run.currentAttemptId now)) := by
    rintro rfl now
    refine ⟨feedback, List.mem_append_right _ ?_⟩
    rw [← hid]
    exact List.mem_cons_self
  refine ⟨fun hd => ⟨?_, happ hd⟩, fun _ _ => cut_of_inv trivial,
    fun _ _ _ _ => ⟨cut_of_inv trivial, fun _ _ =>
      ⟨cut_of_inv trivial, trivial⟩⟩, fun _ => trivial⟩
  exact cut_of_inv (happ hd 0)

theorem reviewCall {w : World} {id decision : String}
    {feedback : Option String} (hid : w.run.id = id)
    (hst : w.run.stage = .changeReviewGate) (h : spec.inv w) :
    spec.ReviewCall
      (w.record (.called (.approveChangeReview id decision feedback)))
      decision := by
  have hearn : Earned w.run.id w.run.stage w.hist := h
  rw [hst] at hearn
  have hhist : ∀ next, ((w.record (.called (.approveChangeReview id decision
      feedback))).moved next).hist =
        .called (.approveChangeReview id decision feedback) :: w.hist :=
    fun next => World.moved_hist_of_ne (by simp [hst])
  refine ⟨?_, ?_, fun _ => trivial⟩
  · rintro rfl
    show ReviewApproved w.run.id _
    rw [hhist, hid]
    exact hearn.2.approve
  · rintro rfl
    show PlanApproved w.run.id _
    rw [hhist]
    exact hearn.1.cons

theorem resolveCall {w : World} {e : Elicitation} {decision : String}
    {note : Option String} {now : Time} (h : spec.inv w) :
    spec.ResolveCall w e decision note now := by
  have hans : spec.inv (Spec.answeredBy w e decision note now) :=
    Earned.cons (fun hev => hev) h
  have hack : spec.inv
      (Spec.acked (Spec.answeredBy w e decision note now) e) := by
    show Earned _ _ _
    rw [Spec.acked_run, Spec.acked_hist]
    exact hans
  exact ⟨cut_of_inv hans, fun _ _ => trivial, fun _ => cut_of_inv hack,
    fun _ _ _ _ _ => hack, fun _ _ => hack⟩

theorem keeps (cfg : Config) : spec.Keeps cfg where
  cut := fun _ h => cut_of_inv h
  called := fun _ _ h _ => Earned.cons (fun hev => hev) h
  turn := fun _ h _ => turns h
  plan := fun _ _ _ _ _ _ hid _ => planCall hid
  review := fun _ _ _ _ h _ hid hst => reviewCall hid hst h
  resolve := fun _ _ _ _ _ _ h _ _ _ =>
    resolveCall (Earned.cons (fun hev => hev) h)

theorem inv_initial {cfg : Config} {w : World} (h : Initial cfg w) :
    spec.inv w := by
  refine inv_planning ?_
  rw [h.row.1]
  rfl

-- ==== the result

/-- In every state of every sequential run, whoever is about to package
does so after an approved change review of a verification that passed,
with nothing implemented since that verification; and whoever is about
to implement does so after an approval of the plan. -/
theorem gates_enforced (cfg : Config) {s : State Unit}
    (hs : (machine cfg).Reach (Initial cfg) (fun _ _ => True) s) {e : Req}
    (ha : s.Asks () e) :
    (e.packages = true → ReviewApproved s.world.run.id s.world.hist) ∧
      (e.implements = true → PlanApproved s.world.run.id s.world.hist) := by
  have hset := (keeps cfg).settled (fun _ => inv_initial) (Spec.covers_free rfl) hs
  exact ⟨Spec.mayPackage_of_settled hset ha,
    Spec.mayImplement_of_settled hset ha⟩

/-- A run of one subtask, up to its packaging. -/
def packagedRun : List (Act Unit) :=
  Sample.approved () [Sample.task "t1"] ++ answering () Sample.diff 1 ++
    answering () (.time 0) 4 ++
    answering () (.verdict (.returned ⟨true, "ok"⟩)) 5 ++
    calling () (.approveChangeReview "run" "approve" none) 4

theorem gates_enforced_packagedRun :
    ∃ s : State Unit,
      (machine Sample.cfg).Reach (Initial Sample.cfg) (fun _ _ => True) s ∧
      (∃ e, s.Asks () e ∧ e.packages = true) ∧
      ReviewApproved s.world.run.id s.world.hist := by
  obtain ⟨s, hs, htest⟩ := reach_of_plays_free Sample.initial_sample
    packagedRun (fun s => asking s () Req.packages) (by decide +kernel)
  obtain ⟨e, ha, he⟩ := asking_inv htest
  exact ⟨s, hs, ⟨e, ha, he⟩, (gates_enforced Sample.cfg hs ha).1 he⟩

end Gates

end SdlcOs.Orchestrator
