/-
What happens between two verifications.

# Routes back into verification

A failed verification saves its summary, and the next implementation
step turns a non-empty summary into a fix-up: that is the route on which
code is always changed first. The other routes re-verify unchanged code.
By design, a stuck question raised at verification and answered goes on
where it was raised; and a process that stopped at verification starts
the stage over. Two more lose the summary: a failure whose summary is
the empty text, and `approve_change_review('request_changes')`, whose
feedback nothing reads. `terms` leaves those two out.

# The invariant

Whether the next verification is due is a matter of the history since
the last one (`renewedSince`). At IMPLEMENTATION it is renewed unless a
summary waits for its fix-up; at VERIFICATION it is renewed unless a
question, which is then a stuck one raised there, is pending.
-/
import SdlcOs.Orchestrator.Script
import SdlcOs.Proofs.Seq.Turn

namespace SdlcOs.Orchestrator

open Effects
open Registry (Stage Result ErrorInfo)

namespace Reverify

-- ==== vocabulary

/-- A backend call that returned. -/
def implementedOk : Event → Bool
  | .implemented _ _ (.returned _) => true
  | _ => false

/-- The answer to a stuck question raised at verification. -/
def answeredStuck : Event → Bool
  | .answered e => e.trigger = .stuck && e.stage = .verification
  | _ => false

/-- A process stopped with the run at verification. -/
def stoppedVerifying : Event → Bool
  | .stopped stage => stage = .verification
  | _ => false

/-- What makes another verification due. -/
def renews (ev : Event) : Bool :=
  implementedOk ev || answeredStuck ev || stoppedVerifying ev

/-- An event of a kind happened since the last verification call, or
there was no such call. -/
def renewedSince (kind : Event → Bool) : List Event → Bool
  | [] => true
  | .verified _ :: _ => false
  | ev :: rest => kind ev || renewedSince kind rest

/-- No verification fails without a summary. -/
def Summarised : Event → Prop
  | .verified (.returned res) => res.passed = false → res.summary ≠ ""
  | _ => True

/-- No one asks for changes at the change review. -/
def NoChangesAsked : Call → Prop
  | .approveChangeReview _ decision _ => decision ≠ "request_changes"
  | _ => True

/-- The runs that do not lose a summary. -/
def terms : Terms where
  callOk := fun _ => NoChangesAsked
  okEvent := fun _ => Summarised

instance (w : World) : Decidable (terms.stopOk w) := isTrue trivial

instance (w : World) (c : Call) : Decidable (terms.callOk w c) :=
  match c with
  | .approveChangeReview _ decision _ =>
    inferInstanceAs (Decidable (decision ≠ "request_changes"))
  | .resumeRun _ | .approvePlan .. | .resolveCheckpoint .. => isTrue trivial

instance (w : World) (ev : Event) : Decidable (terms.okEvent w ev) :=
  match ev with
  | .verified (.returned res) =>
    inferInstanceAs (Decidable (res.passed = false → res.summary ≠ ""))
  | .verified (.raised _) => isTrue trivial
  | .called _ | .stopped _ | .authored _ | .replanned _ _ | .implemented ..
  | .packaged | .approved _ | .answered _ => isTrue trivial

-- ==== history algebra

variable {kind : Event → Bool} {hist : List Event} {ev : Event}

theorem renewedSince_of_kind (hkind : kind ev = true)
    (hnot : ∀ r, ev ≠ .verified r) :
    renewedSince kind (ev :: hist) = true := by
  cases ev with
  | verified r => exact absurd rfl (hnot r)
  | _ =>
    rw [renewedSince, hkind, Bool.true_or]
    intro r hr
    cases hr

theorem renewedSince_cons (hnot : ∀ r, ev ≠ .verified r)
    (h : renewedSince kind hist = true) :
    renewedSince kind (ev :: hist) = true := by
  cases ev with
  | verified r => exact absurd rfl (hnot r)
  | _ =>
    rw [renewedSince, h, Bool.or_true]
    intro r hr
    cases hr

theorem renewedSince_moved {w : World} {next : Stage}
    (h : renewedSince kind w.hist = true) :
    renewedSince kind (w.moved next).hist = true := by
  rw [World.moved_hist]
  unfold World.moveEvents
  split
  · exact renewedSince_cons (fun r hr => by cases hr) h
  · exact h

-- ==== the invariant

/-- Another verification is due. -/
def Renewed (w : World) : Prop := renewedSince renews w.hist = true

/-- What every world between turns satisfies. -/
structure Inv (w : World) : Prop where
  planning : w.run.stage.planning = true → Renewed w
  implementing : w.run.stage = .implementation → ∀ p, w.Current p →
    p.lastVerificationFailureSummary = "" → Renewed w
  verifying : w.run.stage = .verification → w.NoPending → Renewed w
  asked : w.run.stage = .verification → ∀ e ∈ w.question,
    e.trigger = .stuck ∧ e.stage = .verification

/-- Under the terms, no verification is called before it is due. -/
def spec : Spec where
  toTerms := terms
  inv := Inv
  mayVerify := Renewed

variable {w w' : World}

theorem Inv.record (h : Inv w) (hnot : ∀ r, ev ≠ .verified r) :
    Inv (w.record ev) where
  planning := fun hst => renewedSince_cons hnot (h.planning hst)
  implementing := fun hst p hp hs =>
    renewedSince_cons hnot (h.implementing hst p hp hs)
  verifying := fun hst hno => renewedSince_cons hnot (h.verifying hst hno)
  asked := h.asked

theorem cut_of_inv (h : Inv w) : spec.Cut w :=
  fun _ => h.record fun r hr => by cases hr

theorem round_of_inv (h : Inv w) : spec.Cut w ∧ spec.inv w :=
  ⟨cut_of_inv h, h⟩

theorem moves_of_inv {next : Stage} (h : Inv (w.moved next)) :
    spec.Moves w next spec.inv :=
  ⟨trivial, cut_of_inv h, h⟩

/-- A world where a verification is due, away from verification or with
nothing asked there. -/
theorem inv_renewed (hr : Renewed w)
    (hasked : w.run.stage = .verification → w.NoPending) : Inv w where
  planning := fun _ => hr
  implementing := fun _ _ _ _ => hr
  verifying := fun _ _ => hr
  asked := by
    intro hst
    rw [World.question_of_noPending (hasked hst)]
    intro e he
    cases he

theorem inv_past {next : Stage} (hnp : next.planning = false)
    (hi : next ≠ .implementation) (hv : next ≠ .verification) :
    Inv (w.moved next) where
  planning := by
    rw [World.moved_stage, hnp]
    intro hc
    cases hc
  implementing := fun hst => absurd hst hi
  verifying := fun hst => absurd hst hv
  asked := fun hst => absurd hst hv

theorem inv_implementing {p : RunProgress}
    (hst : w.run.stage = .implementation) (hp : w.progress = some p)
    (hr : p.lastVerificationFailureSummary = "" → Renewed w) : Inv w where
  planning := by
    rw [hst]
    intro hc
    cases hc
  implementing := by
    rintro _ q (hq | ⟨hq, _⟩) hs
    · obtain rfl : p = q := Option.some.inj (hp.symm.trans hq)
      exact hr hs
    · rw [hp] at hq
      cases hq
  verifying := by
    rw [hst]
    intro hc
    cases hc
  asked := by
    rw [hst]
    intro hc
    cases hc

/-- Whatever a turn of verification has done, a process that stops there
makes the verification due again. -/
theorem cut_verifying (hst : w.run.stage = .verification)
    (hno : w.NoPending) : spec.Cut w := by
  intro _
  refine inv_renewed (renewedSince_of_kind ?_ fun r hr => by cases hr)
    (fun _ => hno)
  rw [hst]
  rfl

-- ==== the steps

theorem implStep {cfg : Config} {plan : PlanArtifact} {p : RunProgress}
    (hst : w.run.stage = .implementation) (h : Inv w) (hno : w.NoPending)
    (hp : w.Current p) :
    spec.ImplStep cfg w plan p (spec.ImplDone spec.inv) := by
  have hwait := h.implementing hst p hp
  have hverify : ∀ w' : World, w'.run.stage = .implementation →
      w'.NoPending → Renewed w' → spec.ImplDone spec.inv .verify w' := by
    intro w' hst' hno' hr
    have hinv : Inv w' := inv_renewed hr fun _ => hno'
    have hmoved : Inv (w'.moved .verification) :=
      inv_renewed (renewedSince_moved hr) fun _ => hno'
    exact ⟨cut_of_inv hinv, moves_of_inv hmoved⟩
  -- a raise leaves the summary where it was
  have hraised : ∀ (w' : World) (p' : RunProgress) (site : Site)
      (sts : List SubTask) (x : Exn), w'.run.stage = .implementation →
      w'.progress = some p' → p'.lastVerificationFailureSummary =
        p.lastVerificationFailureSummary →
      w'.hist = .implemented site sts (.raised x) :: w.hist → Inv w' := by
    intro w' p' site sts x hst' hp' hsum hhist
    refine inv_implementing hst' hp' fun hs => ?_
    show renewedSince renews w'.hist = true
    rw [hhist]
    exact renewedSince_cons (fun r hr => by cases hr) (hwait (hsum ▸ hs))
  have hfail : ∀ (site : Site) (sts : List SubTask) (x : Exn),
      spec.FailStep ((w.progressSaved p).record
        (.implemented site sts (.raised x))) p (spec.ImplDone spec.inv) := by
    intro site sts x
    refine ⟨cut_of_inv (hraised _ p.afterFailure site sts x hst rfl rfl rfl),
      ?_, ?_⟩
    · intro _ id createdAt
      exact round_of_inv
        (hraised _ p.afterFailure site sts x hst rfl rfl rfl)
    · intro _
      exact round_of_inv
        (hraised _ p.afterFailure site sts x hst rfl rfl rfl)
  -- a return is what renews
  have hreturned : ∀ (w' : World) (site : Site) (sts : List SubTask)
      (diffs : List DiffOutput),
      w'.hist = .implemented site sts (.returned diffs) :: w.hist →
        Renewed w' := by
    intro w' site sts diffs hhist
    show renewedSince renews w'.hist = true
    rw [hhist]
    exact renewedSince_of_kind rfl fun r hr => by cases hr
  have hnotver : ∀ w' : World, w'.run.stage = .implementation →
      w'.run.stage = .verification → w'.NoPending := by
    intro w' hst' hc
    rw [hst'] at hc
    cases hc
  refine
    { loaded := cut_of_inv (inv_implementing hst rfl fun hs => hwait hs)
      verify := fun _ hs => hverify _ hst hno (hwait hs)
      may := trivial
      fixupRaised := fun _ _ st x _ =>
        ⟨cut_of_inv (hraised _ p .fixup [st] x hst rfl rfl rfl),
          hfail .fixup [st] x⟩
      fixup := fun _ _ st d _ =>
        ⟨cut_of_inv (inv_renewed (hreturned _ .fixup [st] [d] rfl)
            (hnotver _ hst)),
          hverify _ hst hno (hreturned _ .fixup [st] [d] rfl)⟩
      batchRaised := fun _ _ _ _ x _ =>
        ⟨cut_of_inv (hraised _ p .planned _ x hst rfl rfl rfl),
          hfail .planned _ x⟩
      batch := ?_ }
  intro first batch _ _ diffs _
  refine ⟨cut_of_inv (inv_renewed (hreturned _ .planned _ diffs rfl)
    (hnotver _ hst)), ?_⟩
  exact
    { saved := cut_of_inv (inv_renewed (hreturned _ .planned _ diffs rfl)
        (hnotver _ hst))
      paused := fun _ _ _ _ _ _ _ _ => round_of_inv
        (inv_renewed (hreturned _ .planned _ diffs rfl) (hnotver _ hst))
      proceed := fun _ _ _ _ _ => round_of_inv
        (inv_renewed (hreturned _ .planned _ diffs rfl) (hnotver _ hst))
      verify := fun _ _ _ _ _ =>
        hverify _ hst hno (hreturned _ .planned _ diffs rfl) }

theorem verStep (hst : w.run.stage = .verification) (h : Inv w)
    (hno : w.NoPending) :
    spec.VerStep w (spec.VerDone spec.inv spec.inv) := by
  refine ⟨h.verifying hst hno, fun _ _ => cut_verifying hst hno,
    fun _ _ _ _ => cut_verifying hst hno, ?_,
    fun _ _ _ _ _ => cut_verifying hst hno, ?_, ?_⟩
  · intro res p _ _ _
    exact ⟨cut_verifying hst hno,
      moves_of_inv (inv_past rfl (by decide) (by decide))⟩
  · intro res p _ _ _ _ id createdAt
    refine round_of_inv ⟨?_, ?_, ?_, ?_⟩
    · intro hc
      rw [World.pausedAt_stage] at hc
      replace hc : w.run.stage.planning = true := hc
      rw [hst] at hc
      cases hc
    · intro hc
      replace hc : w.run.stage = .implementation := hc
      rw [hst] at hc
      cases hc
    · intro _ hc
      exact absurd hc (World.pending_pausedAt _ _ _ _)
    · intro _
      rw [World.question_pausedAt]
      intro e he
      obtain rfl := Option.some.inj he
      exact ⟨rfl, hst⟩
  · intro res p hok _ hpass _
    refine ⟨cut_verifying hst hno, moves_of_inv ?_⟩
    refine inv_implementing rfl rfl fun hs => ?_
    exact absurd hs (hok hpass)

theorem turns {cfg : Config} (h : Inv w) (hno : w.NoPending) :
    spec.Turns cfg w spec.inv spec.inv where
  intake := fun hst => moves_of_inv (inv_renewed
    (renewedSince_moved (h.planning (by rw [hst]; rfl))) (fun _ => hno))
  research := fun hst => moves_of_inv (inv_renewed
    (renewedSince_moved (h.planning (by rw [hst]; rfl))) (fun _ => hno))
  author := by
    intro hst out _
    have hr : Renewed (w.record (.authored out)) :=
      renewedSince_cons (fun r hr => by cases hr)
        (h.planning (by rw [hst]; rfl))
    refine ⟨cut_of_inv (inv_renewed hr fun _ => hno), ?_⟩
    intro artifact _
    exact ⟨cut_of_inv (inv_renewed hr fun _ => hno),
      moves_of_inv (inv_renewed (renewedSince_moved hr) fun _ => hno)⟩
  implement := fun hst _ _ _ hp => implStep hst h hno hp
  verify := fun hst => verStep hst h hno
  package := fun _ _ => ⟨trivial, fun _ =>
    ⟨cut_of_inv (h.record fun r hr => by cases hr),
      moves_of_inv (inv_past rfl (by decide) (by decide))⟩⟩
  unpackaged := fun _ _ =>
    moves_of_inv (inv_past rfl (by decide) (by decide))
  retrospective := fun _ =>
    moves_of_inv (inv_past rfl (by decide) (by decide))

-- ==== public calls

theorem planCall {cfg : Config} {decision feedback : String}
    (hst : w.run.stage = .planApprovalGate) (h : Inv w) :
    spec.PlanCall cfg w decision feedback := by
  have hr := h.planning (by rw [hst]; rfl)
  have himp : Inv (w.moved .implementation) :=
    inv_renewed (renewedSince_moved hr) fun hc => by cases hc
  refine ⟨fun _ => ⟨cut_of_inv himp, fun now => ?_⟩, ?_, ?_,
    fun _ => inv_past rfl (by decide) (by decide)⟩
  · exact inv_renewed (renewedSince_moved hr) fun hc => by cases hc
  · intro _ id
    exact cut_of_inv (inv_renewed hr fun hc => by cases hc)
  · intro _ id out _
    have hr' : Renewed ((w.reattempted id).record
        (.replanned feedback out)) :=
      renewedSince_cons (fun r hr => by cases hr) hr
    refine ⟨cut_of_inv (inv_renewed hr' fun hc => by cases hc), ?_⟩
    intro artifact _
    exact ⟨cut_of_inv (inv_renewed hr' fun hc => by cases hc),
      inv_renewed (renewedSince_moved hr') fun hc => by cases hc⟩

theorem reviewCall {decision : String} (hd : decision ≠ "request_changes") :
    spec.ReviewCall w decision :=
  ⟨fun _ => inv_past rfl (by decide) (by decide),
    fun hc => absurd hc hd, fun _ => inv_past rfl (by decide) (by decide)⟩

theorem Inv.answered {e : Elicitation} {decision : String}
    {note : Option String} {now : Time} (h : Inv w)
    (hpend : pendingCheckpoint w.run = .ok (some e)) :
    Inv (Spec.answeredBy w e decision note now) where
  planning := fun hst =>
    renewedSince_cons (fun r hr => by cases hr) (h.planning hst)
  implementing := fun hst p hp hs =>
    renewedSince_cons (fun r hr => by cases hr) (h.implementing hst p hp hs)
  verifying := by
    intro hst _
    obtain ⟨htrig, hstage⟩ :=
      h.asked hst e (World.question_of_pending hpend)
    refine renewedSince_of_kind ?_ fun r hr => by cases hr
    simp [renews, answeredStuck, Elicitation.resolve, htrig, hstage]
  asked := by
    intro _
    rw [World.question_of_noPending
      (Spec.noPending_answeredBy w e decision note now)]
    intro e' he'
    cases he'

theorem Inv.acked {e : Elicitation} (h : Inv w) : Inv (Spec.acked w e) := by
  have hrun := Spec.acked_run w e
  have hren : Renewed w → Renewed (Spec.acked w e) := by
    intro hr
    show renewedSince renews (Spec.acked w e).hist = true
    rw [Spec.acked_hist]
    exact hr
  refine ⟨?_, ?_, ?_, ?_⟩
  · intro hst
    rw [hrun] at hst
    exact hren (h.planning hst)
  · intro hst q hq hs
    rw [hrun] at hst
    rcases Spec.acked_current hq with hq | ⟨p, sig, hp, rfl⟩
    · exact hren (h.implementing hst q hq hs)
    · refine hren (h.implementing hst p hp ?_)
      unfold RunProgress.acknowledge at hs
      split at hs <;> exact hs
  · intro hst hno
    rw [hrun] at hst
    exact hren (h.verifying hst (World.noPending_congr (by rw [hrun]) hno))
  · intro hst e' he'
    rw [hrun] at hst
    refine h.asked hst e' ?_
    unfold World.question at he' ⊢
    rw [hrun] at he'
    exact he'

theorem resolveCall {e : Elicitation} {decision : String}
    {note : Option String} {now : Time} (h : Inv w)
    (hpend : pendingCheckpoint w.run = .ok (some e)) :
    spec.ResolveCall w e decision note now := by
  have hans : Inv (Spec.answeredBy w e decision note now) := h.answered hpend
  have hack : Inv (Spec.acked (Spec.answeredBy w e decision note now) e) :=
    hans.acked
  exact ⟨cut_of_inv hans, fun _ _ => inv_past rfl (by decide) (by decide),
    fun _ => cut_of_inv hack,
    fun _ _ _ _ _ => ⟨hack.planning, hack.implementing, hack.verifying,
      hack.asked⟩, fun _ _ => hack⟩

theorem keeps (cfg : Config) : spec.Keeps cfg where
  cut := fun _ h => cut_of_inv h
  called := fun _ _ h _ => Inv.record h fun r hr => by cases hr
  turn := fun _ h hno => turns h hno
  plan := fun _ _ _ _ h _ _ hst =>
    planCall hst (Inv.record h fun r hr => by cases hr)
  review := fun _ _ _ _ _ hcall _ _ => reviewCall hcall
  resolve := fun _ _ _ _ _ _ h _ _ hpend =>
    resolveCall (Inv.record h fun r hr => by cases hr) hpend

theorem inv_initial {cfg : Config} (h : Initial cfg w) : Inv w := by
  obtain ⟨hst, _⟩ := h.row
  obtain ⟨_, _, _, _, _, _, _, _, _, _, _, hhist⟩ := h
  refine inv_renewed ?_ ?_
  · show renewedSince renews w.hist = true
    rw [hhist]
    rfl
  · rw [hst]
    intro hc
    cases hc

-- ==== the result

/-- In every run that loses no summary, a verification is called only if,
since the last one, a backend call returned, a stuck question raised at
verification was answered, or a process stopped at verification. -/
theorem verify_renewed (cfg : Config) {s : State Unit}
    (hs : (machine cfg).Reach (Initial cfg) terms.Kept s) {e : Req}
    (ha : s.Asks () e) (he : e.verifies = true) :
    renewedSince renews s.world.hist = true := by
  have hset := (keeps cfg).settled (fun _ => inv_initial)
    (Spec.covers_of_kept fun _ _ h => h) hs
  exact Spec.mayVerify_of_settled hset ha he

/-- A verification fails and is fixed up. -/
def failedOnce : List (Act Unit) :=
  answering () (.verdict (.returned ⟨false, "broken"⟩)) 5 ++
    answering () (.time 0) 5 ++ answering () (.uuid "c0ffee00") 1 ++
    answering () Sample.diff 5

/-- The run up to its first verification. -/
def implementedRun : List (Act Unit) :=
  Sample.approved () [Sample.task "t1"] ++ answering () Sample.diff 1 ++
    answering () (.time 0) 4

theorem verify_renewed_failedOnce :
    ∃ s : State Unit,
      (machine Sample.cfg).Reach (Initial Sample.cfg) terms.Kept s ∧
      (∃ e, s.Asks () e ∧ e.verifies = true) ∧
      (∃ r, Event.verified r ∈ s.world.hist) ∧
      renewedSince renews s.world.hist = true := by
  obtain ⟨s, hs, htest⟩ := reach_of_plays_checked Sample.initial_sample
    terms.Kept (implementedRun ++ failedOnce)
    (fun s => asking s () Req.verifies && decide
      (Event.verified (.returned ⟨false, "broken"⟩) ∈ s.world.hist))
    (by decide +kernel)
  rw [Bool.and_eq_true, decide_eq_true_eq] at htest
  obtain ⟨e, ha, he⟩ := asking_inv htest.1
  exact ⟨s, hs, ⟨e, ha, he⟩, ⟨_, htest.2⟩, verify_renewed _ hs ha he⟩

/-- The third failure in a row raises a stuck question at verification;
answered, the run verifies again with nothing implemented in between. -/
theorem reverified_after_stuck :
    ¬ ∀ s : State Unit,
      (machine Sample.cfg).Reach (Initial Sample.cfg) (fun _ _ => True) s →
        (∃ e, s.Asks () e ∧ e.verifies = true) →
          renewedSince implementedOk s.world.hist = true := by
  intro hclaim
  obtain ⟨s, hs, htest⟩ := reach_of_plays_free Sample.initial_sample
    (implementedRun ++ failedOnce ++ failedOnce ++
      answering () (.verdict (.returned ⟨false, "broken"⟩)) 5 ++
      answering () (.time 0) 0 ++ answering () (.uuid "c1") 0 ++
      answering () (.time 0) 4 ++
      calling () (.resolveCheckpoint "run" "continue" none) 1 ++
      answering () (.time 0) 6)
    (fun s => asking s () Req.verifies &&
      !renewedSince implementedOk s.world.hist) (by decide +kernel)
  rw [Bool.and_eq_true, Bool.not_eq_true'] at htest
  have hren := hclaim s hs (asking_inv htest.1)
  rw [htest.2] at hren
  cases hren

end Reverify

end SdlcOs.Orchestrator
