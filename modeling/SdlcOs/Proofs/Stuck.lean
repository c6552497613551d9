/-
The stuck question.

# The law

Failures are counted over the history: a failed implementation call or a
failed verification adds one, a regular batch or a passed verification
starts over, a fix-up does neither (`streak`). Once a failure brings the
streak to the retry budget, a stuck question must be answered before the
backend is called again (`unanswered`), and every further failure of the
streak needs an answer of its own.

# Where the code falls short

The saved counter goes back to zero with the streak, but the
acknowledged signatures stay, and a signature holds nothing but the
count: an answer given at count three silences every later streak at
three. And the counter, the question and the failure itself are three
separate writes, so a process that stops between them loses a failure
or its question. `terms` excludes exactly these.

# The invariant

The saved counter is never behind the streak, and an unanswered failure
has its question pending.
-/
import SdlcOs.Orchestrator.Script
import SdlcOs.Proofs.Seq.Turn

namespace SdlcOs.Orchestrator

open Effects
open Registry (Stage Result ErrorInfo)

namespace Stuck

-- ==== vocabulary

/-- A failed implementation call or a failed verification. -/
def fails : Event → Bool
  | .implemented _ _ (.raised _) => true
  | .verified (.returned res) => !res.passed
  | _ => false

/-- A regular batch that returned, or a verification that passed. -/
def resets : Event → Bool
  | .implemented .planned _ (.returned _) => true
  | .verified (.returned res) => res.passed
  | _ => false

/-- The answer to a stuck question. -/
def answersStuck : Event → Bool
  | .answered e => e.trigger = .stuck
  | _ => false

/-- The failures since the last reset. -/
def streak : List Event → Nat
  | [] => 0
  | ev :: rest =>
    if resets ev then 0
    else if fails ev then streak rest + 1
    else streak rest

/-- The last failure reached the retry budget and no stuck question was
answered since. -/
def unanswered : List Event → Bool
  | [] => false
  | ev :: rest =>
    if resets ev then false
    else if fails ev then defaultStuckRetryBudget ≤ streak rest + 1
    else if answersStuck ev then false
    else unanswered rest

/-- A stuck question is pending. -/
def StuckPending (w : World) : Prop := ∃ e ∈ w.question, e.trigger = .stuck

/-- The saved counter is not behind the streak. -/
def Counted (w : World) : Prop := streak w.hist ≤ w.failures

/-- An unanswered failure has its question. -/
def Posed (w : World) : Prop :=
  unanswered w.hist = true → StuckPending w

/-- The failure does not reach the retry budget at a count that an
earlier answer already acknowledged. -/
def FreshCount (w : World) (ev : Event) : Prop :=
  fails ev = true → defaultStuckRetryBudget ≤ streak w.hist + 1 →
    ∀ p ∈ w.progress,
      (stuckAt p.afterFailure).signature ∉ p.acknowledgedCheckpointSignatures

/-- The runs in which no failure is lost and no old answer silences a new
streak. -/
def terms : Terms where
  stopOk := fun w => Counted w ∧ Posed w
  okEvent := FreshCount

instance (w : World) : Decidable (terms.stopOk w) :=
  inferInstanceAs (Decidable (streak w.hist ≤ w.failures ∧
    (unanswered w.hist = true → ∃ e ∈ w.question, e.trigger = .stuck)))

instance (w : World) (c : Call) : Decidable (terms.callOk w c) :=
  isTrue trivial

instance (w : World) (ev : Event) : Decidable (terms.okEvent w ev) :=
  inferInstanceAs (Decidable (_ → _ → ∀ p ∈ w.progress, _))

-- ==== history algebra

variable {ev : Event} {hist : List Event}

/-- An event that neither fails, resets nor answers. -/
def idle (ev : Event) : Bool := !resets ev && !fails ev && !answersStuck ev

theorem streak_of_not (hr : resets ev = false) (hf : fails ev = false) :
    streak (ev :: hist) = streak hist := by
  rw [streak, hr, hf]
  rfl

theorem unanswered_idle (h : idle ev = true) :
    unanswered (ev :: hist) = unanswered hist := by
  simp only [idle, Bool.and_eq_true, Bool.not_eq_true'] at h
  rw [unanswered, h.1.1, h.1.2, h.2]
  rfl

theorem streak_idle (h : idle ev = true) :
    streak (ev :: hist) = streak hist := by
  simp only [idle, Bool.and_eq_true, Bool.not_eq_true'] at h
  exact streak_of_not h.1.1 h.1.2

theorem not_resets_of_fails (h : fails ev = true) : resets ev = false := by
  cases ev with
  | implemented site sts r => cases r <;> cases site <;> cases h <;> rfl
  | verified r =>
    cases r with
    | returned res => simpa [fails, resets] using h
    | raised x => cases h
  | _ => cases h

theorem streak_fails (h : fails ev = true) :
    streak (ev :: hist) = streak hist + 1 := by
  rw [streak, not_resets_of_fails h, h]
  rfl

theorem unanswered_fails (h : fails ev = true) :
    unanswered (ev :: hist) =
      decide (defaultStuckRetryBudget ≤ streak hist + 1) := by
  rw [unanswered, not_resets_of_fails h, h]
  rfl

theorem streak_resets (h : resets ev = true) : streak (ev :: hist) = 0 := by
  rw [streak, h]
  rfl

theorem unanswered_resets (h : resets ev = true) :
    unanswered (ev :: hist) = false := by
  rw [unanswered, h]
  rfl

theorem streak_moved (w : World) (next : Stage) :
    streak (w.moved next).hist = streak w.hist := by
  rw [World.moved_hist]
  unfold World.moveEvents
  split
  · exact streak_idle rfl
  · rfl

theorem unanswered_moved (w : World) (next : Stage) :
    unanswered (w.moved next).hist = unanswered w.hist := by
  rw [World.moved_hist]
  unfold World.moveEvents
  split
  · exact unanswered_idle rfl
  · rfl

theorem streak_of_unanswered : ∀ {hist : List Event},
    unanswered hist = true → defaultStuckRetryBudget ≤ streak hist := by
  intro hist
  induction hist with
  | nil =>
    intro h
    cases h
  | cons ev rest ih =>
    intro h
    by_cases hr : resets ev = true
    · rw [unanswered_resets hr] at h
      cases h
    · by_cases hf : fails ev = true
      · rw [unanswered_fails hf, decide_eq_true_eq] at h
        rw [streak_fails hf]
        exact h
      · rw [Bool.not_eq_true] at hr hf
        rw [streak_of_not hr hf]
        simp only [unanswered, hr, hf] at h
        split at h
        · cases h
        · split at h
          · cases h
          · exact ih h

theorem not_unanswered_of_streak (h : streak hist = 0) :
    unanswered hist = false := by
  rw [Bool.eq_false_iff]
  intro hc
  have h3 := streak_of_unanswered hc
  rw [h] at h3
  exact absurd h3 (by decide)

-- ==== the invariant

/-- What every world between turns satisfies. -/
structure Inv (w : World) : Prop where
  unstarted : w.run.stage.planning = true → streak w.hist = 0
  counted : Counted w
  posed : Posed w

/-- Under the terms, the backend and the verifier are called only with
every failure at the retry budget answered. -/
def spec : Spec where
  toTerms := terms
  inv := Inv
  mayImplement := fun w => unanswered w.hist = false
  mayVerify := fun w => unanswered w.hist = false

variable {w w' : World}

theorem Inv.record (h : Inv w) (hidle : idle ev = true) :
    Inv (w.record ev) := by
  refine ⟨?_, ?_, ?_⟩
  · intro hst
    rw [World.record_hist, streak_idle hidle]
    exact h.unstarted hst
  · rw [Counted, World.record_hist, streak_idle hidle]
    exact h.counted
  · intro hun
    rw [World.record_hist, unanswered_idle hidle] at hun
    exact h.posed hun

theorem cut_of_inv (h : Inv w) : spec.Cut w := fun _ => h.record rfl

theorem round_of_inv (h : Inv w) : spec.Cut w ∧ spec.inv w :=
  ⟨cut_of_inv h, h⟩

theorem moves_of_inv {next : Stage} (h : Inv (w.moved next)) :
    spec.Moves w next spec.inv :=
  ⟨trivial, cut_of_inv h, h⟩

theorem cut_of_terms (hst : w.run.stage.planning = false) : spec.Cut w := by
  rintro ⟨hcount, hpose⟩
  refine Inv.record ⟨?_, hcount, hpose⟩ rfl
  rw [hst]
  intro hc
  cases hc

theorem answered_of_noPending (h : Inv w) (hno : w.NoPending) :
    unanswered w.hist = false := by
  rw [Bool.eq_false_iff]
  intro hc
  obtain ⟨e, he, _⟩ := h.posed hc
  rw [World.question_of_noPending hno] at he
  cases he

theorem inv_answered {p : RunProgress}
    (hst : w.run.stage.planning = false) (hp : w.progress = some p)
    (hcount : streak w.hist ≤ p.consecutiveSameStageFailures)
    (hans : unanswered w.hist = false) : Inv w := by
  refine ⟨?_, ?_, ?_⟩
  · rw [hst]
    intro hc
    cases hc
  · rw [Counted, World.Current.failures (Or.inl hp)]
    exact hcount
  · rw [Posed, hans]
    intro hc
    cases hc

theorem inv_paused {p p' : RunProgress} {id : String} {createdAt : Time}
    (hst : w.run.stage.planning = false) (hp : w.progress = some p)
    (hcount : streak w.hist ≤ p.consecutiveSameStageFailures) :
    Inv (w.pausedAt (stuckAt p') id createdAt) := by
  refine ⟨?_, ?_, ?_⟩
  · intro hc
    rw [World.pausedAt_stage, hst] at hc
    cases hc
  · rw [Counted, World.Current.failures (w := w.pausedAt (stuckAt p') id createdAt)
      (Or.inl hp)]
    exact hcount
  · intro _
    exact ⟨.ofTrigger w.run (stuckAt p') id createdAt,
      World.question_pausedAt _ _ _ _, rfl⟩

/-- A failure that does not pause did not reach the budget: the terms
leave no other reason. -/
theorem answered_of_not_stuckOpen {p p' : RunProgress}
    (hfresh : FreshCount w ev) (hfail : fails ev = true)
    (hp : w.Current p)
    (hcount : streak w.hist ≤ p.consecutiveSameStageFailures)
    (hopen : ¬ StuckOpen p')
    (hn : p'.consecutiveSameStageFailures =
      p.consecutiveSameStageFailures + 1)
    (hack : p'.acknowledgedCheckpointSignatures =
      p.acknowledgedCheckpointSignatures) :
    unanswered (ev :: w.hist) = false := by
  rw [unanswered_fails hfail, decide_eq_false_iff_not]
  intro h3
  have hsig : (stuckAt p.afterFailure).signature ∉
      p.acknowledgedCheckpointSignatures := by
    rcases hp with hp | ⟨_, now, rfl⟩
    · exact hfresh hfail h3 p hp
    · exact List.not_mem_nil
  refine hopen ⟨?_, ?_⟩
  · rw [hn]
    omega
  · rw [hn, hack]
    exact hsig

-- ==== the steps

theorem implStep {cfg : Config} {plan : PlanArtifact} {p : RunProgress}
    (hst : w.run.stage = .implementation) (h : Inv w) (hno : w.NoPending)
    (hp : w.Current p) :
    spec.ImplStep cfg w plan p (spec.ImplDone spec.inv) := by
  have hans := answered_of_noPending h hno
  have hcount : streak w.hist ≤ p.consecutiveSameStageFailures := by
    rw [← hp.failures]
    exact h.counted
  have hnp : w.run.stage.planning = false := by
    rw [hst]
    rfl
  have hverify : ∀ (w' : World) (p' : RunProgress),
      w'.run.stage.planning = false → w'.progress = some p' →
      streak w'.hist ≤ p'.consecutiveSameStageFailures →
      unanswered w'.hist = false → spec.ImplDone spec.inv .verify w' := by
    intro w' p' hnp' hp' hc hu
    refine ⟨cut_of_inv (inv_answered hnp' hp' hc hu), moves_of_inv ?_⟩
    refine inv_answered rfl hp' ?_ ?_
    · rw [streak_moved]
      exact hc
    · rw [unanswered_moved]
      exact hu
  have hfail : ∀ (site : Site) (sts : List SubTask) (x : Exn),
      FreshCount (w.progressSaved p) (.implemented site sts (.raised x)) →
      spec.FailStep ((w.progressSaved p).record
        (.implemented site sts (.raised x))) p (spec.ImplDone spec.inv) := by
    intro site sts x hok
    have hc : streak (.implemented site sts (.raised x) :: w.hist) ≤
        p.afterFailure.consecutiveSameStageFailures := by
      rw [streak_fails rfl]
      exact Nat.succ_le_succ hcount
    refine ⟨cut_of_terms hnp, ?_, ?_⟩
    · intro _ id createdAt
      exact round_of_inv (inv_paused hnp rfl hc)
    · intro hopen
      exact round_of_inv (inv_answered hnp rfl hc
        (answered_of_not_stuckOpen hok rfl (Or.inl rfl) hcount hopen rfl rfl))
  refine
    { loaded := cut_of_inv (inv_answered hnp rfl hcount hans)
      verify := fun _ _ => hverify _ p hnp rfl hcount hans
      may := hans
      fixupRaised := fun _ _ st x hx =>
        ⟨cut_of_terms hnp, hfail .fixup [st] x hx⟩
      fixup := fun _ _ st d _ =>
        ⟨cut_of_terms hnp, hverify _ (p.afterFixup d) hnp rfl
          (by rw [World.progressSaved_hist, World.record_hist,
            streak_idle rfl]; exact hcount)
          (by rw [World.progressSaved_hist, World.record_hist,
            unanswered_idle rfl]; exact hans)⟩
      batchRaised := fun _ _ _ _ x hx =>
        ⟨cut_of_terms hnp, hfail .planned _ x hx⟩
      batch := ?_ }
  intro first batch _ _ diffs _
  refine ⟨cut_of_terms hnp, cut_of_terms hnp, ?_, ?_, ?_⟩
  · intro _ _ t _ _ _ id createdAt
    refine round_of_inv (inv_answered (p := p.afterBatch (batch.zip diffs))
      hnp rfl ?_ (unanswered_resets rfl))
    rw [World.pausedAt_hist, World.progressSaved_hist, World.record_hist,
      streak_resets rfl]
    exact Nat.zero_le _
  · intro _ _ _ _ _
    refine round_of_inv (inv_answered (p := p.afterBatch (batch.zip diffs))
      hnp rfl ?_ (unanswered_resets rfl))
    rw [World.progressSaved_hist, World.record_hist, streak_resets rfl]
    exact Nat.zero_le _
  · intro _ _ _ _ _
    refine hverify _ _ hnp rfl ?_ (unanswered_resets rfl)
    rw [World.progressSaved_hist, World.record_hist, streak_resets rfl]
    exact Nat.zero_le _

theorem verStep (hst : w.run.stage = .verification) (h : Inv w)
    (hno : w.NoPending) :
    spec.VerStep w (spec.VerDone spec.inv spec.inv) := by
  have hans := answered_of_noPending h hno
  have hnp : w.run.stage.planning = false := by
    rw [hst]
    rfl
  have hfails : ∀ res : VerificationResult, res.passed = false →
      fails (.verified (.returned res)) = true := by
    intro res hres
    simp [fails, hres]
  have hcounted : ∀ p : RunProgress, w.Current p →
      streak w.hist ≤ p.consecutiveSameStageFailures := by
    intro p hp
    rw [← hp.failures]
    exact h.counted
  have hcount : ∀ (res : VerificationResult) (p : RunProgress),
      w.Current p → res.passed = false →
      streak (.verified (.returned res) :: w.hist) ≤
        (p.afterVerificationFailure
          res.summary).consecutiveSameStageFailures := by
    intro res p hp hres
    rw [streak_fails (hfails res hres)]
    exact Nat.succ_le_succ (hcounted p hp)
  refine ⟨hans, fun _ _ => cut_of_terms hnp, fun _ _ _ _ => cut_of_terms hnp,
    ?_, fun _ _ _ _ _ => cut_of_terms hnp, ?_, ?_⟩
  · intro res p _ hp hpass
    have hres : resets (.verified (.returned res)) = true := hpass
    refine ⟨cut_of_terms hnp, moves_of_inv ?_⟩
    refine inv_answered rfl rfl ?_ ?_
    · rw [streak_moved]
      show streak (.verified (.returned res) :: w.hist) ≤ _
      rw [streak_resets hres]
      exact Nat.zero_le _
    · rw [unanswered_moved]
      exact unanswered_resets hres
  · intro res p _ hp hpass _ id createdAt
    exact round_of_inv (inv_paused hnp rfl (hcount res p hp hpass))
  · intro res p hok hp hpass hopen
    have hun : unanswered (.verified (.returned res) :: w.hist) = false :=
      answered_of_not_stuckOpen hok (hfails res hpass) hp (hcounted p hp)
        hopen rfl rfl
    refine ⟨cut_of_terms hnp, moves_of_inv (inv_answered rfl rfl ?_ ?_)⟩
    · rw [streak_moved]
      exact hcount res p hp hpass
    · rw [unanswered_moved]
      exact hun

theorem inv_unstarted (h : streak w.hist = 0) : Inv w := by
  refine ⟨fun _ => h, ?_, ?_⟩
  · rw [Counted, h]
    exact Nat.zero_le _
  · rw [Posed, not_unanswered_of_streak h]
    intro hc
    cases hc

/-- Moves leave the record, the question and the count alone. -/
theorem Inv.moved {next : Stage} (h : Inv w)
    (hnp : next.planning = false) : Inv (w.moved next) := by
  refine ⟨?_, ?_, ?_⟩
  · rw [World.moved_stage, hnp]
    intro hc
    cases hc
  · rw [Counted, streak_moved]
    exact h.counted
  · intro hun
    rw [unanswered_moved] at hun
    exact h.posed hun

theorem turns {cfg : Config} (h : Inv w) (hno : w.NoPending) :
    spec.Turns cfg w spec.inv spec.inv where
  intake := by
    intro hst
    have hz := h.unstarted (by rw [hst]; rfl)
    refine moves_of_inv (inv_unstarted ?_)
    rw [streak_moved]
    exact hz
  research := by
    intro hst
    have hz := h.unstarted (by rw [hst]; rfl)
    refine moves_of_inv (inv_unstarted ?_)
    rw [streak_moved]
    exact hz
  author := by
    intro hst out _
    have hz := h.unstarted (by rw [hst]; rfl)
    have hz' : streak (w.record (.authored out)).hist = 0 := by
      rw [World.record_hist, streak_idle rfl]
      exact hz
    refine ⟨cut_of_inv (inv_unstarted hz'), ?_⟩
    intro artifact _
    refine ⟨cut_of_inv (inv_unstarted hz'), moves_of_inv (inv_unstarted ?_)⟩
    rw [streak_moved]
    exact hz'
  implement := fun hst _ _ _ hp => implStep hst h hno hp
  verify := fun hst => verStep hst h hno
  package := fun _ _ => ⟨trivial, fun _ => ⟨cut_of_inv (h.record rfl),
    moves_of_inv ((h.record rfl).moved rfl)⟩⟩
  unpackaged := fun _ _ => moves_of_inv (h.moved rfl)
  retrospective := fun _ => moves_of_inv (h.moved rfl)

-- ==== public calls

theorem planCall {cfg : Config} {decision feedback : String}
    (hst : w.run.stage = .planApprovalGate) (h : Inv w) :
    spec.PlanCall cfg w decision feedback := by
  have hz := h.unstarted (by rw [hst]; rfl)
  have hz' : streak (w.moved .implementation).hist = 0 := by
    rw [streak_moved]
    exact hz
  refine ⟨fun _ => ⟨cut_of_inv (inv_unstarted hz'),
    fun _ => inv_unstarted hz'⟩, fun _ _ => cut_of_inv (inv_unstarted hz),
    ?_, fun _ => h.moved rfl⟩
  intro _ id out _
  have hz'' : streak ((w.reattempted id).record
      (.replanned feedback out)).hist = 0 := by
    rw [World.record_hist, streak_idle rfl]
    exact hz
  refine ⟨cut_of_inv (inv_unstarted hz''), ?_⟩
  intro artifact _
  refine ⟨cut_of_inv (inv_unstarted hz''), inv_unstarted ?_⟩
  rw [streak_moved]
  exact hz''

theorem reviewCall {decision : String} (h : Inv w) :
    spec.ReviewCall w decision :=
  ⟨fun _ => h.moved rfl, fun _ => h.moved rfl, fun _ => h.moved rfl⟩

/-- Whatever the question was about, its answer leaves nothing
unanswered: if a failure was, the question was the stuck one. -/
theorem answered_unanswered {e : Elicitation} {decision : String}
    {note : Option String} {now : Time} (h : Inv w)
    (hpend : pendingCheckpoint w.run = .ok (some e)) :
    unanswered (Spec.answeredBy w e decision note now).hist = false := by
  show unanswered (.answered (e.resolve decision note now) :: w.hist) = false
  by_cases htrig : e.trigger = .stuck
  · have hans : answersStuck (.answered (e.resolve decision note now)) =
        true := decide_eq_true htrig
    simp [unanswered, resets, fails, hans]
  · have hidle : idle (.answered (e.resolve decision note now)) = true := by
      have hans : answersStuck (.answered (e.resolve decision note now)) =
        false := decide_eq_false htrig
      simp [idle, resets, fails, hans]
    rw [unanswered_idle hidle, Bool.eq_false_iff]
    intro hun
    obtain ⟨e', he', ht⟩ := h.posed hun
    rw [World.question_of_pending hpend] at he'
    obtain rfl := Option.some.inj he'
    exact htrig ht

theorem Inv.answered {e : Elicitation} {decision : String}
    {note : Option String} {now : Time} (h : Inv w)
    (hpend : pendingCheckpoint w.run = .ok (some e)) :
    Inv (Spec.answeredBy w e decision note now) := by
  have hstreak : streak (Spec.answeredBy w e decision note now).hist =
      streak w.hist := streak_of_not rfl rfl
  refine ⟨?_, ?_, ?_⟩
  · intro hst
    rw [hstreak]
    exact h.unstarted hst
  · rw [Counted, hstreak]
    exact h.counted
  · rw [Posed, answered_unanswered h hpend]
    intro hc
    cases hc

theorem acked_count (w : World) (e : Elicitation) :
    (Spec.acked w e).failures = w.failures := by
  unfold Spec.acked
  split
  · next p sig hp _ =>
    show (p.acknowledge sig).consecutiveSameStageFailures = w.failures
    rw [World.Current.failures (Or.inl hp)]
    unfold RunProgress.acknowledge
    split <;> rfl
  · rfl

theorem Inv.acked {e : Elicitation} (h : Inv w)
    (hans : unanswered w.hist = false) : Inv (Spec.acked w e) := by
  have hhist := Spec.acked_hist w e
  refine ⟨?_, ?_, ?_⟩
  · rw [Spec.acked_run, hhist]
    exact h.unstarted
  · rw [Counted, hhist, acked_count]
    exact h.counted
  · rw [Posed, hhist, hans]
    intro hc
    cases hc

theorem resolveCall {e : Elicitation} {decision : String}
    {note : Option String} {now : Time} (h : Inv w)
    (hpend : pendingCheckpoint w.run = .ok (some e)) :
    spec.ResolveCall w e decision note now := by
  have hans : Inv (Spec.answeredBy w e decision note now) := h.answered hpend
  have hack : Inv (Spec.acked (Spec.answeredBy w e decision note now) e) :=
    hans.acked (answered_unanswered h hpend)
  exact ⟨cut_of_inv hans, fun _ _ => hans.moved rfl,
    fun _ => cut_of_inv hack,
    fun _ _ _ _ _ => ⟨hack.unstarted, hack.counted, hack.posed⟩,
    fun _ _ => hack⟩

theorem keeps (cfg : Config) : spec.Keeps cfg where
  cut := fun _ h => cut_of_inv h
  called := fun _ _ h _ => Inv.record h rfl
  turn := fun _ h hno => turns h hno
  plan := fun _ _ _ _ h _ _ hst => planCall hst (Inv.record h rfl)
  review := fun _ _ _ _ h _ _ _ => reviewCall (Inv.record h rfl)
  resolve := fun _ _ _ _ _ _ h _ _ hpend =>
    resolveCall (Inv.record h rfl) hpend

theorem inv_initial {cfg : Config} (h : Initial cfg w) : Inv w := by
  obtain ⟨_, _, _, _, _, _, _, _, _, _, _, hhist⟩ := h
  refine inv_unstarted ?_
  rw [hhist]
  rfl

-- ==== the result

/-- In every run that keeps the terms, the backend and the verifier are
called only when every failure that reached the retry budget had its
stuck question answered; and when no process runs, an unanswered failure
has its question pending. -/
theorem stuck_law (cfg : Config) {s : State Unit}
    (hs : (machine cfg).Reach (Initial cfg) terms.Kept s) :
    (∀ e, s.Asks () e → e.implements = true ∨ e.verifies = true →
      unanswered s.world.hist = false) ∧
    (s.procs () = none → unanswered s.world.hist = true →
      StuckPending s.world) := by
  have hset := (keeps cfg).settled (fun _ => inv_initial)
    (Spec.covers_of_kept fun _ _ h => h) hs
  refine ⟨?_, ?_⟩
  · rintro e ha (he | he)
    · exact Spec.mayImplement_of_settled hset ha he
    · exact Spec.mayVerify_of_settled hset ha he
  · intro hnone hun
    have hinv : Inv s.world := hset.resting fun _ => hnone
    exact hinv.posed hun

/-- The backend raises on a subtask, and the step goes round. -/
def raisedOnce : List (Act Unit) :=
  answering () (.diff (.raised ⟨"RuntimeError", "boom"⟩)) 1 ++
    answering () (.time 0) 5

/-- The third raise in a row pauses; the question is answered. -/
def stuckOnce : List (Act Unit) :=
  raisedOnce ++ raisedOnce ++
    answering () (.diff (.raised ⟨"RuntimeError", "boom"⟩)) 1 ++
    answering () (.time 0) 0 ++ answering () (.uuid "c1") 0 ++
    answering () (.time 0) 4 ++
    calling () (.resolveCheckpoint "run" "continue" none) 1 ++
    answering () (.time 0) 8

theorem stuck_law_stuckOnce :
    ∃ s : State Unit,
      (machine Sample.cfg).Reach (Initial Sample.cfg) terms.Kept s ∧
      (∃ e, s.Asks () e ∧ e.implements = true) ∧
      streak s.world.hist = 3 ∧ unanswered s.world.hist = false := by
  obtain ⟨s, hs, htest⟩ := reach_of_plays_checked Sample.initial_sample
    terms.Kept (Sample.approved () [Sample.task "t1"] ++ stuckOnce)
    (fun s => asking s () Req.implements &&
      decide (streak s.world.hist = 3)) (by decide +kernel)
  rw [Bool.and_eq_true, decide_eq_true_eq] at htest
  obtain ⟨e, ha, he⟩ := asking_inv htest.1
  exact ⟨s, hs, ⟨e, ha, he⟩, htest.2, (stuck_law _ hs).1 e ha (Or.inl he)⟩

/-- An answer at the third failure of one subtask silences the third
failure of the next one: the backend is called a fourth time. -/
theorem silenced_streak :
    ¬ ∀ s : State Unit,
      (machine Sample.cfg).Reach (Initial Sample.cfg) (fun _ _ => True) s →
        ∀ e, s.Asks () e → e.implements = true →
          unanswered s.world.hist = false := by
  intro hclaim
  obtain ⟨s, hs, htest⟩ := reach_of_plays_free Sample.initial_sample
    (Sample.approved () [Sample.task "t1", Sample.task "t2"] ++ stuckOnce ++
      answering () Sample.diff 1 ++ answering () (.time 0) 5 ++
      raisedOnce ++ raisedOnce ++ raisedOnce)
    (fun s => asking s () Req.implements && unanswered s.world.hist)
    (by decide +kernel)
  rw [Bool.and_eq_true] at htest
  obtain ⟨e, ha, he⟩ := asking_inv htest.1
  have hans := hclaim s hs e ha he
  rw [htest.2] at hans
  cases hans

end Stuck

end SdlcOs.Orchestrator
