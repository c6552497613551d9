/-
Gates under interference: who moves a run out of a human gate.

Any number of processes drive one run, each registry and store call
being one step. `_drive` re-reads the run after a step's outcome is
known and moves it under the version it has just read, so the version
check says nothing about the stage the outcome was computed at.

- "verify" and "passed" move to stages no gate has an edge to, so they
  are refused at a gate.
- "retry" moves to implementation, an edge both gates have. Planning is
  over once a verification has begun, so the plan gate is out of reach;
  the change review gate is not, if another process's verification of
  the same run has passed meanwhile. The IMPLEMENTATION branch looks at
  the row it re-read before it moves it; this branch does not.

`gates_left_by_answers`: in every run in which no failed verification
re-reads the run at the change review gate, only the public calls that
answer a gate or a checkpoint move it out of one.
-/
import SdlcOs.Orchestrator.Script
import SdlcOs.Proofs.Conc.Rows

namespace SdlcOs.Orchestrator

open Effects
open Registry (Stage Result ErrorInfo)

namespace GateRace

open Conc

-- ==== the condition

instance (lg : Heard) : Decidable (Failed lg) :=
  inferInstanceAs (Decidable (_ ∧ _))

/-- The process is about to re-read the run after a verification that
failed and did not pause. -/
def rereads {Pid : Type} (s : State Pid) (p : Pid) : Bool :=
  match s.procs p with
  | some ⟨.loop st, lg, .op (.getRun ..) _⟩ =>
    st.stage = .verification && decide (Failed lg)
  | _ => false

/-- No failed verification re-reads the run at the change review
gate. -/
def Unraced {Pid : Type} (s : State Pid) : Act Pid → Prop
  | .step p _ => rereads s p = true → s.world.run.stage ≠ .changeReviewGate
  | _ => True

instance {Pid : Type} (s : State Pid) (a : Act Pid) :
    Decidable (Unraced s a) :=
  match a with
  | .call _ _ => isTrue trivial
  | .step _ _ => inferInstanceAs (Decidable (_ → _))
  | .crash _ => isTrue trivial

-- ==== the discipline

/-- What a turn's re-reads say: planning is not re-entered, and a retry
does not find the run at the change review gate. -/
def Reread (st : Run) : Heard → Prop
  | [] => True
  | ⟨.getRun .., .ok run⟩ :: lg =>
    ((st.stage.planning = false → run.stage.planning = false) ∧
      (st.stage = .verification → Failed lg →
        run.stage ≠ .changeReviewGate)) ∧ Reread st lg
  | _ :: lg => Reread st lg

/-- What a process knows: its rows are the run's, and its re-reads are as
they should be. -/
def Knows (ph : Phase Call Run) (lg : Heard) (w : World) : Prop :=
  Rows ph lg w ∧ ∀ st, ph = .loop st → Reread st lg

/-- The discipline of processes that do not race for the change review
gate. -/
def discipline : Discipline Resp Env World Call Run where
  may := asks
  handsOn := Holds
  assume := fun ph lg w e _ => ∀ st t id, ph = .loop st →
    st.stage = .verification → Failed lg → e = .getRun t id →
      w.run.stage ≠ .changeReviewGate
  inv := fun _ => True
  rel := fun w w' => Later w.run w'.run
  knows := Knows

theorem reread_asked {st : Run} {lg : Heard} {w : World} {e : Req}
    {x : Env e} (hrows : Rows (.loop st) lg w) (h : Reread st lg)
    (hno : ∀ t id, st.stage = .verification → Failed lg → e = .getRun t id →
      w.run.stage ≠ .changeReviewGate) :
    Reread st (⟨e, (w.exec e x).2⟩ :: lg) := by
  cases e with
  | getRun t id =>
    have hget : (w.exec (.getRun t id) x).2 = w.run.getRun t id := rfl
    rw [hget]
    unfold Registry.Run.getRun
    split
    · refine ⟨⟨(hrows st (Or.inl rfl)).past, ?_⟩, h⟩
      exact fun hst hf => hno t id hst hf rfl
    · exact h
  | _ => exact h

theorem sound (cfg : Config) : discipline.Sound (machine cfg) where
  stable := fun hrel hk => ⟨hk.1.stable hrel, hk.2⟩
  called := fun _ _ => ⟨trivial, .refl _⟩
  stopped := fun _ => ⟨trivial, .refl _⟩
  entered := fun c _ => ⟨rows_entry c _, fun _ hc => by cases hc⟩
  asked := by
    intro w ph lg e x _ hk _ hassume
    refine ⟨trivial, exec_later w e x, hk.1.asked, ?_⟩
    rintro st rfl
    exact reread_asked hk.1 (hk.2 st rfl)
      fun t id hst hf he => hassume st t id rfl hst hf he
  again := fun _ hk hheld => ⟨hk.1.again hheld, fun _ _ => trivial⟩

-- ==== results

/-- A turn of the drive that moves the run does not move it out of a
gate. -/
theorem not_gate_of_moves {st : Run} {lg : Heard} {w : World} {next : Stage}
    (hk : Knows (.loop st) lg w)
    (hlegal : w.run.stage.isLegalTransition next = true)
    (hmoves : Moves (.loop st) lg w.run next) : w.run.stage.gate = false := by
  rcases hmoves with ⟨hrun, hgate⟩ | ⟨t, id, lg', rfl, hnext⟩
  · rw [hrun]
    exact hgate
  · obtain ⟨⟨hpast, hreview⟩, _⟩ := hk.2 st rfl
    rcases hnext with rfl | rfl | ⟨rfl, hst, hfailed⟩
    · revert hlegal
      cases w.run.stage <;> decide
    · revert hlegal
      cases w.run.stage <;> decide
    · have hno := hreview hst hfailed
      have hplan := hpast (by rw [hst]; rfl)
      revert hno hplan
      cases w.run.stage <;> decide

/-- Only the calls that answer a gate or a checkpoint move the run out of
a gate, however the processes are interleaved. -/
theorem gates_left_by_answers (cfg : Config) {Pid : Type}
    [DecidableEq Pid] {s s' : State Pid} {a : Act Pid}
    (hs : (machine cfg).Reach (Initial cfg) Unraced s)
    (h : (machine cfg).apply a s = some s')
    (hgate : s.world.run.stage.gate = true)
    (hleft : s'.world.run.stage ≠ s.world.run.stage) :
    ∃ p ans pr c, a = .step p ans ∧ s.procs p = some pr ∧
      pr.phase = .entry c ∧ answers c = true := by
  have hall : Machine.Allows (machine cfg) discipline
      (Unraced : State Pid → Act Pid → Prop) := by
    rintro s p ans ⟨ph, lg, prog⟩ e k x hc hp rfl _ st t id rfl hst hf rfl
    refine hc ?_
    simp [rereads, hp, hst, hf]
  have hord := Machine.Reach.interleaved (follows_of_asks rfl rfl cfg)
    (sound cfg) (fun _ => .refl _) (fun _ _ => trivial) hall hs
  cases Machine.apply_inv h with
  | @op p ans pr e k x hp hprog hx =>
    have hpr := hord.procs p pr hp
    have hmay : asks pr.phase pr.log e := hpr.may hprog
    rcases exec_moves hleft with ⟨t, id, next, rfl, hlegal⟩ |
      ⟨t, id, v, reason, start, trace, rfl⟩
    · obtain ⟨run, hheld, hv, hmoves⟩ := hmay
      have hrun : s.world.run = run := hpr.knows.1.lands hheld hv
      cases hph : pr.phase with
      | entry c =>
        rw [hph] at hmoves
        exact ⟨p, ans, pr, c, rfl, hp, hph, hmoves⟩
      | loop st =>
        have hknows : Knows pr.phase pr.log s.world := hpr.knows
        rw [hph] at hmoves hknows
        rw [← hrun] at hmoves
        have hno := not_gate_of_moves hknows hlegal hmoves
        rw [hno] at hgate
        cases hgate
    · obtain ⟨c, hph, hc⟩ := hmay
      exact ⟨p, ans, pr, c, rfl, hp, hph, hc⟩
  | _ => exact absurd rfl hleft

/-- The next step of a process moves the run out of a gate. -/
def leaves (s : State Bool) (p : Bool) : Bool :=
  s.world.run.stage.gate &&
    ((machine Sample.cfg).apply (.step p .auto) s).any fun s' =>
      s'.world.run.stage ≠ s.world.run.stage

theorem leaves_inv {s : State Bool} {p : Bool} (h : leaves s p = true) :
    s.world.run.stage.gate = true ∧
      ∃ s', (machine Sample.cfg).apply (.step p .auto) s = some s' ∧
        s'.world.run.stage ≠ s.world.run.stage := by
  unfold leaves at h
  rw [Bool.and_eq_true] at h
  obtain ⟨s', happ, hne⟩ := (Option.any_eq_true _ _).1 h.2
  exact ⟨h.1, s', happ, of_decide_eq_true hne⟩

/-- The plan is approved while another process drives the run. -/
theorem gates_left_by_answers_approved :
    ∃ s s' : State Bool,
      (machine Sample.cfg).Reach (Initial Sample.cfg) Unraced s ∧
      (machine Sample.cfg).apply (.step true .auto) s = some s' ∧
      s.world.run.stage.gate = true ∧
      s'.world.run.stage ≠ s.world.run.stage ∧
      ∃ p ans pr c, (.step true .auto : Act Bool) = .step p ans ∧
        s.procs p = some pr ∧ pr.phase = .entry c ∧ answers c = true := by
  obtain ⟨s, hs, htest⟩ := reach_of_plays_checked Sample.initial_sample
    Unraced (Sample.authored true [Sample.task "t1"] ++
      calling false (.resumeRun "run") 1 ++
      calling true (.approvePlan "run" "approve" none) 1)
    (fun s => leaves s true) (by decide +kernel)
  obtain ⟨hgate, s', happ, hne⟩ := leaves_inv htest
  exact ⟨s, s', hs, happ, hgate, hne,
    gates_left_by_answers _ hs happ hgate hne⟩

/-- Two processes verify the same run. One fails; the other passes, and
the run waits at the change review gate; the first, which has not looked
since, moves it back to implementation. -/
theorem review_gate_left_by_retry :
    ¬ ∀ (s s' : State Bool) (a : Act Bool),
      (machine Sample.cfg).Reach (Initial Sample.cfg) (fun _ _ => True) s →
        (machine Sample.cfg).apply a s = some s' →
          s.world.run.stage.gate = true →
            s'.world.run.stage ≠ s.world.run.stage →
              ∃ p ans pr c, a = .step p ans ∧ s.procs p = some pr ∧
                pr.phase = .entry c ∧ answers c = true := by
  intro hclaim
  obtain ⟨s, hs, htest⟩ := reach_of_plays_free Sample.initial_sample
    (Sample.approved true [Sample.task "t1"] ++
      answering true Sample.diff 1 ++ answering true (.time 0) 4 ++
      calling false (.resumeRun "run") 3 ++
      answering true (.verdict (.returned ⟨false, "broken"⟩)) 5 ++
      answering true (.time 0) 0 ++
      answering false (.verdict (.returned ⟨true, ""⟩)) 5 ++
      [.step true .auto])
    (fun s => leaves s true && driving s true fun _ => true)
    (by decide +kernel)
  rw [Bool.and_eq_true] at htest
  obtain ⟨hgate, s', happ, hne⟩ := leaves_inv htest.1
  obtain ⟨p, ans, pr, c, hact, hp, hph, _⟩ :=
    hclaim s s' _ hs happ hgate hne
  obtain ⟨e, ⟨pr', st, k, hp', hph', _⟩, _⟩ := driving_inv htest.2
  cases hact
  cases hp.symm.trans hp'
  cases hph.symm.trans hph'

end GateRace

end SdlcOs.Orchestrator
