/-
Progress under interference: what a later record keeps of an earlier one.

A step loads the record, makes a long call and saves the whole record
back. No version guards the store, so a save throws away whatever
another process saved since the load; and `approve_plan` saves a fresh
record after its move is already visible, over what a process that saw
the move may have saved.

`Exclusive` are the runs in which no save does so: each finds in the
store what its process last loaded or saved. There a record only grows,
whatever else is interleaved.
-/
import SdlcOs.Orchestrator.Script
import SdlcOs.Proofs.Conc.Paths

namespace SdlcOs.Orchestrator

open Effects
open Registry (Stage Result ErrorInfo)

namespace ProgressRace

open Conc

-- ==== vocabulary

/-- The later record has everything of the earlier one, and no fewer
lines. -/
def Keeps (p p' : RunProgress) : Prop :=
  p.completedSubtaskIds ⊆ p'.completedSubtaskIds ∧
    p.acknowledgedCheckpointSignatures ⊆
      p'.acknowledgedCheckpointSignatures ∧
    p.linesChanged ≤ p'.linesChanged

instance (p p' : RunProgress) : Decidable (Keeps p p') :=
  inferInstanceAs (Decidable ((∀ id, id ∈ _ → _) ∧ (∀ sig, sig ∈ _ → _) ∧ _))

theorem Keeps.refl (p : RunProgress) : Keeps p p :=
  ⟨List.Subset.refl _, List.Subset.refl _, le_refl _⟩

theorem Keeps.trans {p p' p'' : RunProgress} (h : Keeps p p')
    (h' : Keeps p' p'') : Keeps p p'' :=
  ⟨List.Subset.trans h.1 h'.1, List.Subset.trans h.2.1 h'.2.1,
    h.2.2.trans h'.2.2⟩

/-- The diffs of a call that ended have no negative line count. -/
def NonNegative : Event → Prop
  | .implemented _ _ (.returned diffs) => ∀ d ∈ diffs, 0 ≤ d.linesChanged
  | _ => True

instance (ev : Event) : Decidable (NonNegative ev) :=
  match ev with
  | .implemented _ _ (.returned diffs) =>
    inferInstanceAs (Decidable (∀ d ∈ diffs, 0 ≤ d.linesChanged))
  | .implemented _ _ (.raised _) | .called _ | .stopped _ | .authored _
  | .replanned .. | .verified _ | .packaged | .approved _ | .answered _ =>
    isTrue trivial

/-- What a process about to save a record has heard. -/
def saving {Pid : Type} (s : State Pid) (p : Pid) : Option Heard :=
  match s.procs p with
  | some ⟨_, lg, .op (.saveProgress _) _⟩ => some lg
  | _ => none

/-- Every save finds what its process last loaded or saved, and no diff
takes lines away. -/
def Exclusive {Pid : Type} (s : State Pid) : Act Pid → Prop
  | .step p ans =>
    (∀ lg ∈ saving s p, s.world.progress = lastRecord lg) ∧
      ∀ ev ∈ eventAt s p ans, NonNegative ev
  | _ => True

instance {Pid : Type} (s : State Pid) (a : Act Pid) :
    Decidable (Exclusive s a) :=
  match a with
  | .call _ _ => isTrue trivial
  | .step _ _ => inferInstanceAs (Decidable (_ ∧ _))
  | .crash _ => isTrue trivial

-- ==== the discipline

/-- The stored record is kept. -/
def Rel (w w' : World) : Prop :=
  ∀ p, w.progress = some p → ∃ p', w'.progress = some p' ∧ Keeps p p'

theorem rel_of_eq {w w' : World} (h : w'.progress = w.progress) :
    Rel w w' :=
  fun p hp => ⟨p, h.trans hp, .refl p⟩

theorem Rel.trans {w w' w'' : World} (h : Rel w w') (h' : Rel w' w'') :
    Rel w w'' := by
  intro p hp
  obtain ⟨p', hp', hk⟩ := h p hp
  obtain ⟨p'', hp'', hk'⟩ := h' p' hp'
  exact ⟨p'', hp'', hk.trans hk'⟩

/-- The discipline of processes that do not overwrite each other's
records. -/
def discipline : Discipline Resp Env World Call Run where
  may := asks
  handsOn := Holds
  assume := fun _ lg w e x =>
    (∀ p, e = .saveProgress p → w.progress = lastRecord lg) ∧
      ∀ ev, eventOf e x = some ev → NonNegative ev
  inv := fun _ => True
  rel := Rel
  knows := fun _ lg _ => ∀ x ∈ lg, ∀ d ∈ diffsOf x, 0 ≤ d.linesChanged

theorem exec_progress {w : World} {e : Req} {x : Env e}
    (h : ∀ p, e ≠ .saveProgress p) : (w.exec e x).1.progress = w.progress := by
  cases e with
  | saveProgress p => exact absurd rfl (h p)
  | transitionStage t id v next =>
    rcases World.exec_transition_inv next x with ⟨res, hsame, _⟩ |
      ⟨_, _, hland⟩
    · rw [hsame]
    · rw [hland]
      rfl
  | writeCheckpoint t id v ptr =>
    rcases World.exec_writeCheckpoint_inv ptr x with ⟨res, hsame, _⟩ |
      ⟨_, hland⟩
    · rw [hsame]
    · rw [hland]
      rfl
  | authorPlan ctx => cases x <;> rfl
  | rePlan ctx feedback => cases x <;> rfl
  | _ => rfl

theorem diffsOf_exec {w : World} {e : Req} {x : Env e}
    (h : ∀ ev, eventOf e x = some ev → NonNegative ev) :
    ∀ d ∈ diffsOf ⟨e, (w.exec e x).2⟩, 0 ≤ d.linesChanged := by
  cases e with
  | implementSubtask site ctx st =>
    cases x with
    | returned diff => exact h _ rfl
    | raised exc =>
      intro d hd
      cases hd
  | implementSubtasksParallel ctx sts =>
    cases x with
    | returned diffs => exact h _ rfl
    | raised exc =>
      intro d hd
      cases hd
  | _ =>
    intro d hd
    cases hd

theorem sound (cfg : Config) : discipline.Sound (machine cfg) where
  stable := fun _ hk => hk
  called := fun _ _ => ⟨trivial, rel_of_eq rfl⟩
  stopped := fun _ => ⟨trivial, rel_of_eq rfl⟩
  entered := fun _ _ x hx => by cases hx
  asked := by
    intro w ph lg e x _ hk hmay hok
    refine ⟨trivial, ?_, ?_⟩
    · by_cases hsave : ∃ p, e = .saveProgress p
      · obtain ⟨p', rfl⟩ := hsave
        intro p hp
        have hlast : p ∈ lastRecord lg := (hok.1 p' rfl).symm.trans hp
        obtain ⟨hdone, hack, hlines⟩ := hmay p hlast
        exact ⟨p', rfl, hdone, hack, hlines hk⟩
      · exact rel_of_eq (exec_progress fun p hp => hsave ⟨p, hp⟩)
    · intro y hy
      rcases List.mem_cons.1 hy with rfl | hy
      · exact diffsOf_exec hok.2
      · exact hk y hy
  again := fun _ _ _ x hx => by cases hx

-- ==== results

/-- From any state of such a run on, every later record keeps what the
stored one has, whatever the interleaving. -/
theorem progress_kept (cfg : Config) {Pid : Type} [DecidableEq Pid]
    {s s' : State Pid}
    (hs : (machine cfg).Reach (Initial cfg) Exclusive s)
    (h : (machine cfg).Leads Exclusive s s') {p : RunProgress}
    (hp : s.world.progress = some p) :
    ∃ p', s'.world.progress = some p' ∧ Keeps p p' := by
  have hall : Machine.Allows (machine cfg) discipline
      (Exclusive : State Pid → Act Pid → Prop) := by
    rintro s q ans ⟨ph, lg, prog⟩ e k x hc hq rfl hx
    refine ⟨?_, ?_⟩
    · rintro p' rfl
      refine hc.1 lg ?_
      simp [saving, hq]
    · intro ev hev
      refine hc.2 ev ?_
      simp only [eventAt, hq]
      rw [show decode e ans = some x from hx]
      exact hev
  have hF := follows_of_asks (D := discipline) rfl rfl cfg
  have hrefl : ∀ w, discipline.rel w w := fun _ => rel_of_eq rfl
  have hord := Machine.Reach.interleaved hF (sound cfg) hrefl
    (fun _ _ => trivial) hall hs
  exact (hord.leads hF (sound cfg) hrefl Rel.trans hall h).2 p hp

/-- Two processes work on the run in turn, and the second completes the
second subtask. -/
theorem progress_kept_inTurn :
    ∃ (s s' : State Bool) (p : RunProgress),
      (machine Sample.cfg).Reach (Initial Sample.cfg) Exclusive s ∧
      (machine Sample.cfg).Leads Exclusive s s' ∧
      s.world.progress = some p ∧
      ∃ p', s'.world.progress = some p' ∧ Keeps p p' := by
  obtain ⟨s, hs, htest⟩ := reach_of_plays_checked Sample.initial_sample
    Exclusive (Sample.approved true [Sample.task "t1", Sample.task "t2"] ++
      answering true Sample.diff 1 ++ answering true (.time 0) 5 ++
      calling false (.resumeRun "run") 5 ++ answering false Sample.diff 0)
    (fun s => decide (Exclusive s (.step false .auto)) &&
      (((machine Sample.cfg).apply (.step false .auto) s).isSome &&
        s.world.progress.isSome))
    (by decide +kernel)
  rw [Bool.and_eq_true, Bool.and_eq_true, decide_eq_true_eq] at htest
  obtain ⟨hc, happ, hprog⟩ := htest
  obtain ⟨s', happ⟩ := Option.isSome_iff_exists.1 happ
  obtain ⟨p, hp⟩ := Option.isSome_iff_exists.1 hprog
  have hleads : (machine Sample.cfg).Leads Exclusive s s' :=
    .step (.refl s) hc happ
  exact ⟨s, s', p, hs, hleads, hp, progress_kept _ hs hleads hp⟩

/-- The next step of a process saves a record of the same attempt that has
lost something. -/
def loses (s : State Bool) (q : Bool) : Bool :=
  ((machine Sample.cfg).apply (.step q .auto) s).any fun s' =>
    match s.world.progress, s'.world.progress with
    | some p, some p' => p'.attemptId = p.attemptId && !decide (Keeps p p')
    | _, _ => false

theorem loses_inv {s : State Bool} {q : Bool} (h : loses s q = true) :
    ∃ s' p p', (machine Sample.cfg).apply (.step q .auto) s = some s' ∧
      s.world.progress = some p ∧ s'.world.progress = some p' ∧
      p'.attemptId = p.attemptId ∧ ¬ Keeps p p' := by
  obtain ⟨s', happ, hlost⟩ := (Option.any_eq_true _ _).1 h
  split at hlost
  · next p p' hp hp' =>
    rw [Bool.and_eq_true, decide_eq_true_eq] at hlost
    exact ⟨s', p, p', happ, hp, hp', hlost.1, by simpa using hlost.2⟩
  · cases hlost

/-- Both processes load the record before the first subtask. One then
completes both subtasks; the other, still on the first, saves over it,
and the second subtask is no longer completed. -/
theorem completed_subtask_lost :
    ¬ ∀ (s s' : State Bool) (p p' : RunProgress),
      (machine Sample.cfg).Reach (Initial Sample.cfg) (fun _ _ => True) s →
        (machine Sample.cfg).Leads (fun _ _ => True) s s' →
          s.world.progress = some p → s'.world.progress = some p' →
            p'.attemptId = p.attemptId → Keeps p p' := by
  intro hclaim
  obtain ⟨s, hs, htest⟩ := reach_of_plays_free Sample.initial_sample
    (Sample.approved true [Sample.task "t1", Sample.task "t2"] ++
      calling false (.resumeRun "run") 5 ++
      answering true Sample.diff 1 ++ answering true (.time 0) 5 ++
      answering true Sample.diff 1 ++ answering false Sample.diff 0)
    (fun s => loses s false) (by decide +kernel)
  obtain ⟨s', p, p', happ, hp, hp', hatt, hlost⟩ := loses_inv htest
  exact hlost (hclaim s s' p p' hs (.step (.refl s) trivial happ) hp hp' hatt)

end ProgressRace

end SdlcOs.Orchestrator
