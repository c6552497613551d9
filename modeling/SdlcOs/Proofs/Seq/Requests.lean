/-
Sequential specifications of the orchestrator's helpers: one process at
a time, crashes allowed.

# Specs

A `Spec` is a contract in the orchestrator's own words: an invariant of
the worlds in which no turn is under way, which events the environment
may produce, and what must hold when the drive is
about to implement, verify, package or move the run. `Spec.contract`
reads it as a contract over requests, so that requests nobody has an
opinion about carry no obligation.

# One lemma per helper

Each lemma below gives one helper's weakest precondition in closed form:
the worlds it can pass through and the one it ends in. A world differs
from the one before by a named update (`moved`, `pointed`, `planSaved`,
`progressSaved`, `record`), and loads, clocks, ids and observability
calls do not appear at all: they leave the world as it is.

In a sequential system the snapshot a turn works on is the stored row,
so the lemmas speak of `w.run` where the code has its local `run`.
-/
import SdlcOs.Effects.Wp
import SdlcOs.Orchestrator.Core

namespace SdlcOs.Orchestrator

open Effects
open Registry (Stage Result ErrorInfo)

namespace World

/-- The orchestrator of a tenant sees the run. -/
def Seen (cfg : Config) (w : World) : Prop :=
  w.run.Visible cfg.tenantId w.run.id

@[simp] theorem seen_record {cfg : Config} {w : World} {ev : Event} :
    (w.record ev).Seen cfg ↔ w.Seen cfg := Iff.rfl
@[simp] theorem seen_planSaved {cfg : Config} {w : World} {a : PlanArtifact} :
    (w.planSaved a).Seen cfg ↔ w.Seen cfg := Iff.rfl
@[simp] theorem seen_progressSaved {cfg : Config} {w : World}
    {p : RunProgress} : (w.progressSaved p).Seen cfg ↔ w.Seen cfg := Iff.rfl
@[simp] theorem seen_moved {cfg : Config} {w : World} {next : Stage} :
    (w.moved next).Seen cfg ↔ w.Seen cfg := Iff.rfl
@[simp] theorem seen_pointed {cfg : Config} {w : World} {ptr : Pointer} :
    (w.pointed ptr).Seen cfg ↔ w.Seen cfg := Iff.rfl
@[simp] theorem seen_reattempted {cfg : Config} {w : World} {id : String} :
    (w.reattempted id).Seen cfg ↔ w.Seen cfg := Iff.rfl

end World

-- ==== specs

/-- What a run is assumed to do: where its processes stop, which calls
are made and how outside calls end. What is left out is not
restricted. -/
structure Terms where
  stopOk : World → Prop := fun _ => True
  callOk : World → Call → Prop := fun _ _ => True
  okEvent : World → Event → Prop := fun _ _ => True

/-- An action keeps the terms in the state it is taken in. -/
def Terms.Kept {Pid : Type} (T : Terms) (s : State Pid) : Act Pid → Prop
  | .call _ c => T.callOk s.world c
  | .step p ans =>
    (∀ ev ∈ eventAt s p ans, T.okEvent s.world ev) ∧
      (raising s p = true → T.stopOk s.world)
  | .crash _ => T.stopOk s.world

instance {Pid : Type} (T : Terms) [∀ w, Decidable (T.stopOk w)]
    [∀ w c, Decidable (T.callOk w c)] [∀ w ev, Decidable (T.okEvent w ev)]
    (s : State Pid) (a : Act Pid) : Decidable (T.Kept s a) :=
  match a with
  | .call _ c => inferInstanceAs (Decidable (T.callOk s.world c))
  | .step _ _ => inferInstanceAs (Decidable (_ ∧ _))
  | .crash _ => inferInstanceAs (Decidable (T.stopOk s.world))

/-- A sequential contract in the orchestrator's words: the terms of the
runs it speaks of, an invariant between turns, and what must hold when
work is about to be done. `mayMove` is about the moves of drive turns
only: the public calls move the run on a human's say-so. -/
structure Spec extends Terms where
  inv : World → Prop
  mayImplement : World → Prop := fun _ => True
  mayBatch : World → List SubTask → Prop := fun _ _ => True
  mayVerify : World → Prop := fun _ => True
  mayPackage : World → Prop := fun _ => True
  mayAuthor : World → Prop := fun _ => True
  mayMove : World → Stage → Prop := fun _ _ => True

namespace Spec

/-- What a spec asks of a request. -/
def oblige (S : Spec) (ph : Phase Call Run) (w : World) : Req → Prop
  | .implementSubtask .. => S.mayImplement w
  | .implementSubtasksParallel _ sts => S.mayImplement w ∧ S.mayBatch w sts
  | .verify _ => S.mayVerify w
  | .packaging _ => S.mayPackage w
  | .authorPlan _ => S.mayAuthor w
  | .transitionStage _ _ _ next =>
    match ph with
    | .loop _ => S.mayMove w next
    | .entry _ => True
  | _ => True

/-- A spec as a contract. -/
def contract (S : Spec) : Contract Env World Call Run where
  rest := S.inv
  stopOk := S.stopOk
  callOk := S.callOk
  assume := fun _ w e x => ∀ ev, eventOf e x = some ev → S.okEvent w ev
  oblige := S.oblige

section Obliged

variable {Pid : Type} {S : Spec} {cfg : Config} {head : Run → World → Prop}
variable {s : State Pid} {p : Pid} {e : Req}
variable (hs : Machine.Settled (machine cfg) S.contract head s)
include hs

theorem mayImplement_of_settled (ha : s.Asks p e)
    (he : e.implements = true) : S.mayImplement s.world := by
  obtain ⟨ph, hob⟩ := hs.obliged ha
  cases e <;> first | exact hob | exact hob.1 | cases he

theorem mayBatch_of_settled {ctx : RunContext} {sts : List SubTask}
    (ha : s.Asks p (.implementSubtasksParallel ctx sts)) :
    S.mayBatch s.world sts := by
  obtain ⟨ph, hob⟩ := hs.obliged ha
  exact hob.2

theorem mayVerify_of_settled (ha : s.Asks p e)
    (he : e.verifies = true) : S.mayVerify s.world := by
  obtain ⟨ph, hob⟩ := hs.obliged ha
  cases e <;> first | exact hob | cases he

theorem mayPackage_of_settled (ha : s.Asks p e)
    (he : e.packages = true) : S.mayPackage s.world := by
  obtain ⟨ph, hob⟩ := hs.obliged ha
  cases e <;> first | exact hob | cases he

theorem mayAuthor_of_settled (ha : s.Asks p e)
    (he : e.authors = true) : S.mayAuthor s.world := by
  obtain ⟨ph, hob⟩ := hs.obliged ha
  cases e <;> first | exact hob | cases he

theorem mayMove_of_settled {next : Stage} (ha : s.Drives p e)
    (he : e.movesTo next = true) : S.mayMove s.world next := by
  obtain ⟨st, hob⟩ := hs.driven ha
  cases e with
  | transitionStage t id v next' =>
    have hnext : next' = next := of_decide_eq_true he
    exact hnext ▸ hob
  | _ => cases he

end Obliged

/-- Stopping here leaves a world fit to rest in. -/
def Cut (S : Spec) (w : World) : Prop :=
  S.stopOk w → S.inv (w.record (.stopped w.run.stage))

/-- Weakest preconditions of orchestrator code under a spec. -/
abbrev Wp (S : Spec) (cfg : Config) (ph : Phase Call Run) {α : Type}
    (Q : α → World → Prop) (m : Code α) (w : World) : Prop :=
  (machine cfg).Wp S.contract ph Q m w

variable {S : Spec} {cfg : Config} {ph : Phase Call Run} {α : Type}

/-- What a move owes, phase by phase. -/
def MayMove (S : Spec) (ph : Phase Call Run) (w : World) (next : Stage) :
    Prop :=
  match ph with
  | .loop _ => S.mayMove w next
  | .entry _ => True

-- ==== requests

/-- A request that leaves the world alone and that no spec has an
opinion about. -/
def quiet : Req → Bool
  | .getRun .. | .loadLatest _ | .loadProgress _ | .research _ | .observe _
  | .nowIso | .clock | .uuid4 => true
  | _ => false

/-- Sequencing, backwards: the first program must end where the second
may begin. -/
theorem wp_seq {β : Type} {Q : β → World → Prop} {f : α → Code β}
    {m : Code α} {w : World}
    (h : S.Wp cfg ph (fun a w => S.Wp cfg ph Q (f a) w) m w) :
    S.Wp cfg ph Q (m >>= f) w :=
  Machine.wp_bind.2 h

theorem wp_quiet {e : Req} {Q : Resp e → World → Prop} {w : World}
    (he : quiet e = true) (hcut : S.Cut w)
    (h : ∀ x, Q (w.exec e x).2 w) : S.Wp cfg ph Q (ask e) w := by
  refine ⟨hcut, ?_, fun x _ => ?_⟩
  · cases e <;> first | exact trivial | cases he
  · cases e <;> first | exact h x | cases he

theorem wp_savePlan {a : PlanArtifact} {Q : Unit → World → Prop} {w : World}
    (hcut : S.Cut w) (h : Q () (w.planSaved a)) :
    S.Wp cfg ph Q (ask (.savePlan a)) w :=
  ⟨hcut, trivial, fun _ _ => h⟩

theorem wp_saveProgress {p : RunProgress} {Q : Unit → World → Prop}
    {w : World} (hcut : S.Cut w) (h : Q () (w.progressSaved p)) :
    S.Wp cfg ph Q (ask (.saveProgress p)) w :=
  ⟨hcut, trivial, fun _ _ => h⟩

theorem wp_observe {o : Observation} {Q : Unit → World → Prop} {w : World}
    (hcut : S.Cut w) (h : Q () w) : S.Wp cfg ph Q (observe cfg o) w := by
  unfold observe
  split
  · refine wp_seq (wp_quiet rfl hcut fun x => ?_)
    cases x with
    | returned a => exact h
    | raised x => exact hcut
  · exact h

theorem wp_observeEach {ι : Type} {f : ι → Observation} {l : List ι}
    {Q : Unit → World → Prop} {w : World} (hcut : S.Cut w) (h : Q () w) :
    S.Wp cfg ph Q (Prog.each (fun i => observe cfg (f i)) l) w := by
  have hloop : S.Wp cfg ph (fun _ w' => w' = w)
      (Prog.each (fun i => observe cfg (f i)) l) w := by
    refine Machine.wp_each (P := fun w' => w' = w) ?_ rfl
    intro i w' hw'
    subst hw'
    exact wp_observe hcut rfl
  refine hloop.mono ?_
  intro _ w' hw'
  rw [hw']
  exact h

theorem wp_getRun {runId : String} {Q : Run → World → Prop} {w : World}
    (hid : w.run.id = runId) (hseen : w.Seen cfg) (hcut : S.Cut w)
    (h : Q w.run w) : S.Wp cfg ph Q (getRun cfg runId) w := by
  subst hid
  unfold getRun
  refine wp_seq (wp_quiet rfl hcut fun x => ?_)
  have hget : (w.exec (.getRun cfg.tenantId w.run.id) x).2 = .ok w.run :=
    if_pos hseen
  rw [hget]
  exact h

/-- Reading a run under any id: the row if it is this one's, else the
call raises. -/
theorem wp_getRun_any {runId : String} {Q : Run → World → Prop} {w : World}
    (hcut : S.Cut w)
    (h : w.Seen cfg → w.run.id = runId → Q w.run w) :
    S.Wp cfg ph Q (getRun cfg runId) w := by
  by_cases hvis : w.run.Visible cfg.tenantId runId
  · have hid : w.run.id = runId := hvis.2.2.1
    subst hid
    exact wp_getRun rfl hvis hcut (h hvis rfl)
  · unfold getRun
    refine wp_seq (wp_quiet rfl hcut fun x => ?_)
    have hget : (w.exec (.getRun cfg.tenantId runId) x).2 = .empty :=
      if_neg hvis
    rw [hget]
    exact hcut

theorem wp_runContext {Q : RunContext → World → Prop} {run : Run} {w : World}
    (hcut : S.Cut w) (h : ∀ ctx, Q ctx w) :
    S.Wp cfg ph Q (runContext run) w := by
  unfold runContext
  exact wp_seq (wp_quiet rfl hcut fun _ => h _)

/-- A move of the run lands if the registry's graph allows it, and raises
otherwise. -/
theorem wp_transition {run : Run} {next : Stage} {Q : Run → World → Prop}
    {w : World} (hrun : w.run = run) (hcut : S.Cut w)
    (hmay : S.MayMove ph w next)
    (h : w.run.stage.isLegalTransition next = true →
      S.Cut (w.moved next) ∧ Q (w.moved next).run (w.moved next)) :
    S.Wp cfg ph Q (transition cfg run next) w := by
  subst hrun
  unfold transition
  refine wp_seq ⟨hcut, hmay, fun x _ => ?_⟩
  rcases World.exec_transition_inv next x with ⟨res, hsame, hno⟩ |
    ⟨_, hlegal, hland⟩
  · rw [show (machine cfg).exec w _ x = _ from hsame]
    cases res with
    | ok upd => exact absurd rfl (hno upd)
    | empty => exact hcut
    | fail err => exact hcut
  · rw [show (machine cfg).exec w _ x = _ from hland]
    exact wp_seq (wp_observe (h hlegal).1 (h hlegal).2)

theorem wp_appendAttempt {run : Run} {Q : Result String → World → Prop}
    {w : World} (hrun : w.run = run) (hcut : S.Cut w)
    (hok : ∀ id, Q (.ok id) (w.reattempted id))
    (hno : ∀ res, (∀ id, res ≠ .ok id) → Q res w) :
    S.Wp cfg ph Q (ask (.appendAttempt cfg.tenantId run.id run.version
      "re-plan" .planAuthoring run.traceId)) w := by
  subst hrun
  refine ⟨hcut, trivial, fun id _ => ?_⟩
  rcases World.exec_appendAttempt_inv "re-plan" .planAuthoring w.run.traceId
    id with ⟨res, hsame, hrefused⟩ | ⟨_, _, hland⟩
  · rw [show (machine cfg).exec w _ id = _ from hsame]
    exact hno res hrefused
  · rw [show (machine cfg).exec w _ id = _ from hland]
    exact hok id

theorem wp_writeCheckpointPointer {run : Run} {ptr : Pointer}
    {Q : Run → World → Prop} {w : World} (hrun : w.run = run)
    (hcut : S.Cut w) (h : Q (w.pointed ptr).run (w.pointed ptr)) :
    S.Wp cfg ph Q (writeCheckpointPointer cfg run ptr) w := by
  subst hrun
  unfold writeCheckpointPointer
  refine wp_seq ⟨hcut, trivial, fun x _ => ?_⟩
  rcases World.exec_writeCheckpoint_inv ptr x with ⟨res, hsame, hno⟩ |
    ⟨_, hland⟩
  · rw [show (machine cfg).exec w _ x = _ from hsame]
    cases res with
    | ok upd => exact absurd rfl (hno upd)
    | empty => exact hcut
    | fail err => exact hcut
  · rw [show (machine cfg).exec w _ x = _ from hland]
    exact h

end Spec

end SdlcOs.Orchestrator
