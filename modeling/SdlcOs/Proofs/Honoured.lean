/-
Human answers are honoured by every later resume, unless the process
that took one stops half-way through writing it down.

# Where answers are lost

A public call makes its writes one by one, in three stores, and the
process may stop between any two of them. Most calls make a single write
that matters. Two do not:

- `approve_plan` with "request_changes" opens a new attempt, which takes
  the run back to plan authoring, and has the plan revised only then; a
  resume from there authors a plan that never saw the feedback;
- `resolve_checkpoint` marks the elicitation resolved before it abandons
  the run, records the acknowledgement or widens the scope; a resume
  from there finds no question and goes on.

And `resolve_checkpoint` takes any decision it does not know for
"continue".

# The result

`Outstanding` names the stretch between the first write and the last.
In every run in which no process stops inside it, at any later point of
any number of resumes, either the question is still open, with nothing
changed and no agent at work, or the decision has its full effect
(`answers_honoured`).

The call itself is followed with `Trail`; what it leaves is kept by the
resumes (`Decisions.keeps`).
-/
import SdlcOs.Effects.Ends
import SdlcOs.Orchestrator.Script
import SdlcOs.Proofs.Decisions

namespace SdlcOs.Orchestrator

open Effects
open Registry (Stage Result ErrorInfo)

namespace Decisions

-- ==== writes

/-- A durable write. -/
inductive Mark : Type where
  | appended
  | moved
  | pointed
  | planSaved
  | recordSaved
  deriving DecidableEq

/-- The write an answered request was, if it landed. -/
def markOf : ((e : Req) × Resp e) → Option Mark
  | ⟨.appendAttempt .., .ok _⟩ => some .appended
  | ⟨.transitionStage .., .ok _⟩ => some .moved
  | ⟨.writeCheckpoint .., .ok _⟩ => some .pointed
  | ⟨.savePlan _, _⟩ => some .planSaved
  | ⟨.saveProgress _, _⟩ => some .recordSaved
  | _ => none

/-- Keep the writes of a log. -/
def note (ms : List Mark) (x : (e : Req) × Resp e) : List Mark :=
  (markOf x).toList ++ ms

/-- The write that completes the answer to a checkpoint. -/
def lastWrite (w₀ : World) (decision : String) : Mark :=
  if decision = "stop" then .moved
  else if decision = "extend_scope" ∧
      w₀.question.map (·.trigger) = some .risk then .planSaved
  else .recordSaved

/-- The first of a call's writes is made and the last is not. -/
def Outstanding (w₀ : World) (c : Call) (ms : List Mark) : Prop :=
  match c with
  | .approvePlan _ decision _ =>
    decision = "request_changes" ∧ .appended ∈ ms ∧ .moved ∉ ms
  | .resolveCheckpoint _ decision _ =>
    .pointed ∈ ms ∧ lastWrite w₀ decision ∉ ms
  | _ => False

instance (w₀ : World) (c : Call) (ms : List Mark) :
    Decidable (Outstanding w₀ c ms) :=
  match c with
  | .approvePlan .. => inferInstanceAs (Decidable (_ ∧ _))
  | .resolveCheckpoint .. => inferInstanceAs (Decidable (_ ∧ _))
  | .approveChangeReview .. => inferInstanceAs (Decidable False)
  | .resumeRun _ => inferInstanceAs (Decidable False)

-- ==== helpers

section Trails

variable {cfg : Config} {P : List Mark → World → Prop} {α β : Type}
variable {ms : List Mark} {w : World}

/-- Trails of orchestrator code, with its writes for memory. -/
abbrev Trail (cfg : Config) (P : List Mark → World → Prop)
    (Q : α → List Mark → World → Prop) (prog : Code α) (ms : List Mark)
    (w : World) : Prop :=
  (machine cfg).Trail note P Q prog ms w

theorem trail_seq {Q : β → List Mark → World → Prop} {f : α → Code β}
    {prog : Code α}
    (h : Trail cfg P (fun a ms w => Trail cfg P Q (f a) ms w) prog ms w) :
    Trail cfg P Q (prog >>= f) ms w :=
  Machine.trail_bind h

theorem trail_quiet {e : Req} {Q : Resp e → List Mark → World → Prop}
    (he : Spec.quiet e = true) (hP : P ms w)
    (h : ∀ x, Q (w.exec e x).2 ms w) : Trail cfg P Q (ask e) ms w := by
  refine ⟨hP, fun x => ?_⟩
  have hQ := h x
  cases e <;> first | exact hQ | cases he

theorem trail_saveProgress {p : RunProgress}
    {Q : Unit → List Mark → World → Prop} (hP : P ms w)
    (h : Q () (.recordSaved :: ms) (w.progressSaved p)) :
    Trail cfg P Q (ask (.saveProgress p)) ms w :=
  ⟨hP, fun _ => h⟩

theorem trail_savePlan {a : PlanArtifact}
    {Q : Unit → List Mark → World → Prop} (hP : P ms w)
    (h : Q () (.planSaved :: ms) (w.planSaved a)) :
    Trail cfg P Q (ask (.savePlan a)) ms w :=
  ⟨hP, fun _ => h⟩

theorem trail_observe {o : Observation} {Q : Unit → List Mark → World → Prop}
    (hP : P ms w) (h : Q () ms w) :
    Trail cfg P Q (observe cfg o) ms w := by
  unfold observe
  split
  · refine trail_seq (trail_quiet rfl hP fun x => ?_)
    cases x with
    | returned a => exact h
    | raised x => exact hP
  · exact h

theorem trail_getRun {runId : String} {Q : Run → List Mark → World → Prop}
    (hP : P ms w)
    (h : w.Seen cfg → w.run.id = runId → Q w.run ms w) :
    Trail cfg P Q (getRun cfg runId) ms w := by
  unfold getRun
  refine trail_seq (trail_quiet rfl hP fun x => ?_)
  by_cases hvis : w.run.Visible cfg.tenantId runId
  · have hid : w.run.id = runId := hvis.2.2.1
    have hget : (w.exec (.getRun cfg.tenantId runId) x).2 = .ok w.run :=
      if_pos hvis
    rw [hget]
    refine h ?_ hid
    rw [← hid] at hvis
    exact hvis
  · have hget : (w.exec (.getRun cfg.tenantId runId) x).2 = .empty :=
      if_neg hvis
    rw [hget]
    exact hP

theorem trail_transition {run : Run} {next : Stage}
    {Q : Run → List Mark → World → Prop} (hrun : w.run = run) (hP : P ms w)
    (hmoved : P (.moved :: ms) (w.moved next))
    (h : Q (w.moved next).run (.moved :: ms) (w.moved next)) :
    Trail cfg P Q (transition cfg run next) ms w := by
  subst hrun
  unfold transition
  refine trail_seq ⟨hP, fun x => ?_⟩
  rcases World.exec_transition_inv next x with ⟨res, hsame, hno⟩ |
    ⟨_, _, hland⟩
  · rw [show (machine cfg).exec w _ x = _ from hsame]
    cases res with
    | ok upd => exact absurd rfl (hno upd)
    | empty => exact hP
    | fail err => exact hP
  · rw [show (machine cfg).exec w _ x = _ from hland]
    exact trail_seq (trail_observe hmoved h)

theorem trail_writeCheckpointPointer {run : Run} {ptr : Pointer}
    {Q : Run → List Mark → World → Prop} (hrun : w.run = run) (hP : P ms w)
    (h : Q (w.pointed ptr).run (.pointed :: ms) (w.pointed ptr)) :
    Trail cfg P Q (writeCheckpointPointer cfg run ptr) ms w := by
  subst hrun
  unfold writeCheckpointPointer
  refine trail_seq ⟨hP, fun x => ?_⟩
  rcases World.exec_writeCheckpoint_inv ptr x with ⟨res, hsame, hno⟩ |
    ⟨_, hland⟩
  · rw [show (machine cfg).exec w _ x = _ from hsame]
    cases res with
    | ok upd => exact absurd rfl (hno upd)
    | empty => exact hP
    | fail err => exact hP
  · rw [show (machine cfg).exec w _ x = _ from hland]
    exact h

theorem trail_appendAttempt {run : Run}
    {Q : Result String → List Mark → World → Prop} (hrun : w.run = run)
    (hP : P ms w)
    (hok : ∀ id, Q (.ok id) (.appended :: ms) (w.reattempted id))
    (hno : ∀ res, (∀ id, res ≠ .ok id) → Q res ms w) :
    Trail cfg P Q (ask (.appendAttempt cfg.tenantId run.id run.version
      "re-plan" .planAuthoring run.traceId)) ms w := by
  subst hrun
  refine ⟨hP, fun id => ?_⟩
  rcases World.exec_appendAttempt_inv "re-plan" .planAuthoring w.run.traceId
    id with ⟨res, hsame, hrefused⟩ | ⟨_, _, hland⟩
  · rw [show (machine cfg).exec w _ id = _ from hsame]
    have hQ := hno res hrefused
    cases res with
    | ok data => exact absurd rfl (hrefused data)
    | empty => exact hQ
    | fail err => exact hQ
  · rw [show (machine cfg).exec w _ id = _ from hland]
    exact hok id

theorem trail_rePlan {run : Run} {feedback : String}
    {Q : PlanOutput → List Mark → World → Prop} (hP : P ms w)
    (h : ∀ out, Q out ms (w.record (.replanned feedback out))) :
    Trail cfg P Q (rePlan run feedback) ms w := by
  unfold rePlan runContext
  refine trail_seq (trail_seq (trail_quiet rfl hP fun latest => ?_))
  refine trail_seq ⟨hP, fun r => ?_⟩
  cases r with
  | raised x => exact hP
  | returned out => exact h out

theorem trail_startNew {run : Run} {Q : RunProgress → List Mark → World → Prop}
    (hP : P ms w)
    (h : ∀ p, Q p (.recordSaved :: ms) (w.progressSaved p)) :
    Trail cfg P Q (startNew run) ms w := by
  unfold startNew
  refine trail_seq (trail_quiet rfl hP fun now => ?_)
  exact trail_seq (trail_saveProgress hP (h _))

theorem trail_generateAndStorePlan {run : Run} {out : PlanOutput}
    {text : String} {Q : Unit → List Mark → World → Prop}
    (hrun : w.run = run) (hP : P ms w)
    (h : ∀ artifact, Generated cfg w out text artifact →
      Q () (.planSaved :: ms) (w.planSaved artifact)) :
    Trail cfg P Q (generateAndStorePlan cfg run out text) ms w := by
  subst hrun
  unfold generateAndStorePlan
  split
  · exact hP
  · next budget hb =>
    refine trail_seq (trail_quiet rfl hP fun x => ?_)
    have hload : (w.exec (.loadLatest w.run.id) x).2 = w.plans.latest := rfl
    rw [hload]
    refine trail_seq (trail_quiet rfl hP fun now => ?_)
    split
    · exact hP
    · next artifact demoted hgen =>
      have hQ := h artifact ⟨budget, _, demoted, hb, hgen⟩
      split
      · exact trail_seq (trail_observe hP (trail_savePlan hP hQ))
      · exact trail_savePlan hP hQ

theorem trail_acknowledge {run : Run} {e : Elicitation}
    {Q : Unit → List Mark → World → Prop} (hP : P ms w)
    (h : ∀ ms', ms' = ms ∨ ms' = .recordSaved :: ms →
      Q () ms' (Spec.acked w e)) :
    Trail cfg P Q (acknowledge run e) ms w := by
  unfold acknowledge
  refine trail_seq (trail_quiet rfl hP fun x => ?_)
  have hload : (w.exec (.loadProgress run.id) x).2 = w.progress := rfl
  rw [hload]
  unfold Spec.acked at h
  cases hp : w.progress with
  | none =>
    rw [hp] at h
    exact h ms (Or.inl rfl)
  | some p =>
    cases hs : e.signature with
    | none =>
      rw [hp, hs] at h
      exact h ms (Or.inl rfl)
    | some signature =>
      rw [hp, hs] at h
      exact trail_saveProgress hP (h _ (Or.inr rfl))

theorem trail_extendDeclaredScope {run : Run} {files : List String}
    {Q : Unit → List Mark → World → Prop} (hP : P ms w)
    (h : ∀ (artifact : PlanArtifact) now, w.plans.latest = some artifact →
      Q () (.planSaved :: ms) (w.planSaved (artifact.extendScope files now))) :
    Trail cfg P Q (extendDeclaredScope run files) ms w := by
  unfold extendDeclaredScope
  refine trail_seq (trail_quiet rfl hP fun x => ?_)
  have hload : (w.exec (.loadLatest run.id) x).2 = w.plans.latest := rfl
  rw [hload]
  cases hplan : w.plans.latest with
  | none => exact hP
  | some artifact =>
    refine trail_seq (trail_quiet rfl hP fun now => ?_)
    exact trail_savePlan hP (h artifact _ hplan)

end Trails

-- ==== the calls

/-- Where a call may be stopped. -/
def Safe (c : Call) (w₀ : World) (ms : List Mark) (w : World) : Prop :=
  ¬ Outstanding w₀ c ms → Kept c w₀ w

/-- How a call comes out. -/
def Lands (cfg : Config) (c : Call) (w₀ : World) :
    Turn → List Mark → World → Prop
  | .again run, _, w => Kept c w₀ w ∧ w.run = run ∧ w.Seen cfg
  | .done _, _, w => Kept c w₀ w

section Calls

variable {cfg : Config} {c : Call} {w₀ w : World} {ms : List Mark}

theorem Effect.safe (h : Effect c w₀ w) : Safe c w₀ ms w := fun _ => Or.inr h

theorem safe_called (c : Call) (w₀ : World) :
    Safe c w₀ ms (w₀.record (.called c)) :=
  fun _ => Or.inl ⟨rfl, rfl, rfl⟩

theorem trail_drive {runId : String} (h : Effect c w₀ w) :
    Trail cfg (Safe c w₀) (Lands cfg c w₀) (drive cfg runId) ms w :=
  trail_seq (trail_getRun h.safe fun hseen _ => ⟨Or.inr h, rfl, hseen⟩)

theorem trail_leave {run : Run} {next : Stage} {f : Run → RunStatus}
    (hrun : w.run = run) (hP : Safe c w₀ ms w)
    (h : Effect c w₀ (w.moved next)) :
    Trail cfg (Safe c w₀) (Lands cfg c w₀) (do
      let run ← transition cfg run next
      pure (.done (f run))) ms w :=
  trail_seq (trail_transition hrun hP h.safe (Or.inr h))

/-- The `request_changes` branch: once the attempt is appended the answer
is outstanding until the run is back at the gate. -/
theorem trail_requestPlanChanges {id : String} {feedback : Option String}
    (hc : c = .approvePlan id "request_changes" feedback) :
    Trail cfg (Safe c w₀) (Lands cfg c w₀)
      (requestPlanChanges cfg w₀.run (feedback.getD "")) []
      (w₀.record (.called c)) := by
  have hbetween : ∀ ms w, Mark.appended ∈ ms → Mark.moved ∉ ms →
      Safe c w₀ ms w := by
    intro ms w happ hmov hout
    refine absurd ?_ hout
    rw [hc]
    exact ⟨rfl, happ, hmov⟩
  have hfresh : Safe c w₀ [] (w₀.record (.called c)) := safe_called c w₀
  unfold requestPlanChanges
  refine trail_seq (trail_appendAttempt rfl hfresh (fun attempt => ?_) ?_)
  · have happended : ∀ w, Safe c w₀ [.appended] w :=
      fun w => hbetween _ w (by decide) (by decide)
    refine trail_seq (trail_getRun (happended _) fun _ _ => ?_)
    refine trail_seq (trail_rePlan (happended _) fun out => ?_)
    refine trail_seq (trail_generateAndStorePlan rfl (happended _)
      fun artifact hgen => ?_)
    refine trail_leave rfl (hbetween _ _ (by decide) (by decide)) ?_
    obtain ⟨budget, now, demoted, _, hgen⟩ := hgen
    subst hc
    refine ⟨rfl, ?_, fun hd => absurd hd (by decide), fun _ => ?_⟩
    · show w₀.run.version < w₀.run.version + 1 + 1
      omega
    · refine ⟨out, artifact, ⟨[.replanned (feedback.getD "") out,
        .called (.approvePlan id "request_changes" feedback)], rfl,
        List.mem_cons_self ..⟩, rfl, _, _, budget, now, demoted, hgen⟩
  · intro res hres
    split
    · next id => exact absurd rfl (hres id)
    · exact hfresh

theorem trail_approvePlan {id decision : String} {feedback : Option String}
    (hc : c = .approvePlan id decision feedback) :
    Trail cfg (Safe c w₀) (Lands cfg c w₀)
      (approvePlan cfg id decision feedback) [] (w₀.record (.called c)) := by
  have hfresh : Safe c w₀ [] (w₀.record (.called c)) := safe_called c w₀
  unfold approvePlan
  refine trail_seq (trail_getRun hfresh fun _ _ => ?_)
  split
  · exact hfresh
  · split
    · next hd =>
      have heff : ∀ w : World, w.plans = w₀.plans →
          w.run.stage = .implementation →
          w.run.version = w₀.run.version + 1 → Effect c w₀ w := by
        intro w hplans hst hver
        subst hc hd
        refine ⟨by rw [hst]; rfl, by omega, fun _ => hplans,
          fun hd => absurd hd (by decide)⟩
      have hmoved := heff ((w₀.record (.called c)).moved .implementation)
        rfl rfl rfl
      refine trail_seq (trail_transition rfl hfresh hmoved.safe ?_)
      refine trail_seq (trail_startNew hmoved.safe fun p => ?_)
      exact trail_drive (heff _ rfl rfl rfl)
    · split
      · next hd =>
        subst hd
        exact trail_requestPlanChanges hc
      · split
        · next hd =>
          refine trail_leave rfl hfresh ?_
          subst hc hd
          exact ⟨rfl, Nat.lt_succ_self _, fun hd => absurd hd (by decide),
            fun hd => absurd hd (by decide)⟩
        · exact hfresh

theorem trail_approveChangeReview {id decision : String}
    {feedback : Option String}
    (hc : c = .approveChangeReview id decision feedback) :
    Trail cfg (Safe c w₀) (Lands cfg c w₀)
      (approveChangeReview cfg id decision feedback) []
      (w₀.record (.called c)) := by
  have hfresh : Safe c w₀ [] (w₀.record (.called c)) := safe_called c w₀
  have heff : ∀ next, (verdictOf c).region next = true →
      Effect c w₀ ((w₀.record (.called c)).moved next) := by
    intro next hreg
    refine ⟨hreg, Nat.lt_succ_self _, ?_⟩
    rw [hc]
    exact trivial
  unfold approveChangeReview
  refine trail_seq (trail_getRun hfresh fun _ _ => ?_)
  split
  · exact hfresh
  · split
    · next hd =>
      have hmoved := heff .packaging (by subst hc hd; rfl)
      exact trail_seq (trail_transition rfl hfresh hmoved.safe
        (trail_drive hmoved))
    · split
      · next hd =>
        have hmoved := heff .implementation (by subst hc hd; rfl)
        exact trail_seq (trail_transition rfl hfresh hmoved.safe
          (trail_drive hmoved))
      · split
        · next hd =>
          exact trail_leave rfl hfresh
            (heff .abandoned (by subst hc hd; rfl))
        · exact hfresh

theorem acked_acknowledged {e : Elicitation} {p : RunProgress}
    (hp : w.progress = some p) :
    ∃ p', (Spec.acked w e).progress = some p' ∧
      ∀ signature, e.signature = some signature →
        signature ∈ p'.acknowledgedCheckpointSignatures := by
  unfold Spec.acked
  rw [hp]
  cases hs : e.signature with
  | none => exact ⟨p, hp, fun _ h => by cases h⟩
  | some signature =>
    refine ⟨_, rfl, ?_⟩
    rintro _ ⟨⟩
    exact p.mem_acknowledge signature

theorem since_answered (c : Call) (w₀ : World) (e : Elicitation)
    (decision : String) (note : Option String) (now : Time) :
    Since w₀ (Spec.answeredBy (w₀.record (.called c)) e decision note now)
      (.answered (e.resolve decision note now)) :=
  ⟨[.answered (e.resolve decision note now), .called c], rfl,
    List.mem_cons_self ..⟩

/-- An answer to go on that is on record, with the violation
acknowledged, has its effect once the scope is as asked. -/
theorem effect_of_resolved {id decision : String} {note : Option String}
    {e : Elicitation} {now : Time} (hasked : Asked w₀) (hdoc : Documented c)
    (hc : c = .resolveCheckpoint id decision note) (hd : decision ≠ "stop")
    (hpend : pendingCheckpoint w₀.run = .ok (some e))
    (hrun : w.run = (Spec.answeredBy (w₀.record (.called c)) e decision note
      now).run)
    (hhist : w.hist = (Spec.answeredBy (w₀.record (.called c)) e decision
      note now).hist)
    (hprog : w.progress = (Spec.acked (Spec.answeredBy (w₀.record (.called c))
      e decision note now) e).progress)
    (hext : decision = "extend_scope" → e.trigger = .risk →
      ∃ plan, w.plans.latest = some plan ∧
        ∀ file ∈ e.details.outOfScopeFiles, file ∈ plan.inScope) :
    Effect c w₀ w := by
  obtain ⟨hstage, p, hp⟩ := hasked e hpend
  have hverdict : verdictOf c = .proceed := by
    have hknown := hdoc id decision note hc
    rw [hc] at hknown ⊢
    simp only [verdictOf, if_neg hd] at hknown ⊢
    split at hknown
    · next hgo => rw [if_pos hgo]
    · exact absurd rfl hknown
  have hst : w.run.stage = w₀.run.stage := by rw [hrun]; rfl
  refine ⟨?_, ?_, ?_⟩
  · rw [hverdict, hst]
    rcases hstage with hs | hs <;> rw [hs] <;> rfl
  · rw [hrun]
    exact Nat.lt_succ_self _
  · rw [hc]
    intro e' he'
    obtain rfl : e = e' := by
      rw [hpend] at he'
      injection he' with he'
      exact Option.some.inj he'
    refine ⟨⟨now, ?_⟩, fun _ => ⟨?_, hext⟩⟩
    · obtain ⟨evs, hevs, hmem⟩ := since_answered c w₀ e decision note now
      exact ⟨evs, hhist.trans hevs, hmem⟩
    · rw [hprog]
      exact acked_acknowledged hp

theorem lastWrite_ne_pointed (w₀ : World) (decision : String) :
    lastWrite w₀ decision ≠ .pointed := by
  unfold lastWrite
  split
  · decide
  · split <;> decide

theorem trail_resolveCheckpoint {id decision : String}
    {note : Option String} (hasked : Asked w₀) (hdoc : Documented c)
    (hc : c = .resolveCheckpoint id decision note) :
    Trail cfg (Safe c w₀) (Lands cfg c w₀)
      (resolveCheckpoint cfg id decision note) []
      (w₀.record (.called c)) := by
  have hfresh : Safe c w₀ [] (w₀.record (.called c)) := safe_called c w₀
  have hbetween : ∀ ms w, Mark.pointed ∈ ms → lastWrite w₀ decision ∉ ms →
      Safe c w₀ ms w := by
    intro ms w hptr hlast hout
    refine absurd ?_ hout
    rw [hc]
    exact ⟨hptr, hlast⟩
  have hpointed : ∀ w, Safe c w₀ [.pointed] w := by
    intro w
    refine hbetween _ w (by decide) ?_
    rw [List.mem_singleton]
    exact lastWrite_ne_pointed w₀ decision
  unfold resolveCheckpoint
  refine trail_seq (trail_getRun hfresh fun _ _ => ?_)
  split
  · exact hfresh
  · exact hfresh
  · next e hpend =>
    refine trail_seq (trail_quiet rfl hfresh fun now => ?_)
    refine trail_seq (trail_writeCheckpointPointer rfl hfresh ?_)
    split
    · next hd =>
      refine trail_leave rfl (hpointed _) ?_
      subst hc hd
      refine ⟨rfl, ?_, ?_⟩
      · show w₀.run.version < w₀.run.version + 1 + 1
        omega
      · intro e' he'
        rw [show pendingCheckpoint w₀.run = .ok (some e) from hpend] at he'
        obtain rfl := Option.some.inj (Except.ok.inj he')
        exact ⟨⟨_, (since_answered _ _ _ _ _ _).carry (carries_moved _ _)⟩,
          fun hd => absurd rfl hd⟩
    · next hd =>
      refine trail_seq (trail_acknowledge (hpointed _) fun ms' hms => ?_)
      split
      · next hext =>
        have htrigger : w₀.question.map (·.trigger) = some .risk := by
          rw [World.question_of_pending (w := w₀) hpend, Option.map_some,
            hext.2]
        have hlast : lastWrite w₀ decision = .planSaved := by
          unfold lastWrite
          rw [if_neg hd, if_pos ⟨hext.1, htrigger⟩]
        have hsafe : ∀ w, Safe c w₀ ms' w := by
          intro w
          rcases hms with rfl | rfl
          · exact hpointed w
          · exact hbetween _ w (by decide) (by rw [hlast]; decide)
        refine trail_seq (trail_extendDeclaredScope (hsafe _)
          fun artifact at' _ => trail_drive ?_)
        refine effect_of_resolved hasked hdoc hc hd hpend
          (Spec.acked_run _ _) (Spec.acked_hist _ _) rfl fun _ _ =>
          ⟨_, rfl, fun file hfile => ?_⟩
        exact mem_sortedSet.2 (List.mem_append.2 (Or.inr hfile))
      · next hext =>
        refine trail_drive ?_
        exact effect_of_resolved hasked hdoc hc hd hpend
          (Spec.acked_run _ _) (Spec.acked_hist _ _) rfl
          fun hd' ht => absurd ⟨hd', ht⟩ hext

theorem trail_entry (hasked : Asked w₀) (hposed : Posed w₀ c)
    (hdoc : Documented c) :
    Trail cfg (Safe c w₀) (Lands cfg c w₀) (entry cfg c) []
      (w₀.record (.called c)) := by
  cases hc : c with
  | resumeRun id =>
    rw [hc] at hposed
    exact hposed.elim
  | approvePlan id decision feedback => exact trail_approvePlan rfl
  | approveChangeReview id decision feedback =>
    exact trail_approveChangeReview rfl
  | resolveCheckpoint id decision note =>
    rw [hc] at hdoc
    exact trail_resolveCheckpoint hasked hdoc rfl

theorem ends_getRun {id : String} {f : Run → Code Turn}
    {fin : RunStatus → Prop} (h : ∀ run, ∃ x, f run = .raise x) :
    (machine cfg).Ends (fun _ _ _ => True) fin (getRun cfg id >>= f) w := by
  refine .op fun x _ => ?_
  cases ((machine cfg).exec w (.getRun cfg.tenantId id) x).2 with
  | ok run =>
    obtain ⟨err, herr⟩ := h run
    show (machine cfg).Ends _ _ (f run) _
    rw [herr]
    exact .raised
  | empty => exact .raised
  | fail err => exact .raised

theorem unknown_raises (hposed : Posed w₀ c) (hdoc : Documented c)
    (hv : verdictOf c = .unknown) :
    (machine cfg).Ends (fun _ _ _ => True) (fun _ => False) (entry cfg c)
      w := by
  cases c with
  | resumeRun id => exact hposed.elim
  | resolveCheckpoint id decision note =>
    exact absurd hv (hdoc id decision note rfl)
  | approvePlan id decision feedback =>
    refine ends_getRun fun run => ?_
    split
    · exact ⟨_, rfl⟩
    · simp only [verdictOf] at hv
      split at hv
      · cases hv
      · next h₁ =>
        split at hv
        · cases hv
        · next h₂ =>
          split at hv
          · cases hv
          · next h₃ => exact ⟨_, by rw [if_neg h₁, if_neg h₂, if_neg h₃]⟩
  | approveChangeReview id decision feedback =>
    refine ends_getRun fun run => ?_
    split
    · exact ⟨_, rfl⟩
    · simp only [verdictOf] at hv
      split at hv
      · cases hv
      · next h₁ =>
        split at hv
        · cases hv
        · next h₂ =>
          split at hv
          · cases hv
          · next h₃ => exact ⟨_, by rw [if_neg h₁, if_neg h₂, if_neg h₃]⟩

end Calls

-- ==== runs

/-- The process is still in the call. -/
def Calling (c : Call) (s : State Unit) : Prop :=
  ∃ lg prog, s.procs () = some ⟨.entry c, lg, prog⟩

/-- The process is in the call, with a write outstanding. -/
def stranded (c : Call) (w₀ : World) (s : State Unit) : Bool :=
  match s.procs () with
  | some ⟨.entry c', lg, _⟩ =>
    c' = c && decide (Outstanding w₀ c (Machine.recollect note [] lg))
  | _ => false

/-- Only resumes follow the call, and no process stops half-way through
it. -/
def Unbroken (c : Call) (w₀ : World) (s : State Unit) : Act Unit → Prop
  | .call _ c' => resumes c' = true
  | .step p _ => raising s p = true → stranded c w₀ s = false
  | .crash _ => stranded c w₀ s = false

instance (c : Call) (w₀ : World) (s : State Unit) (a : Act Unit) :
    Decidable (Unbroken c w₀ s a) :=
  match a with
  | .call _ c' => inferInstanceAs (Decidable (resumes c' = true))
  | .step _ _ => inferInstanceAs (Decidable (_ → _))
  | .crash _ => inferInstanceAs (Decidable (_ = false))

section Runs

variable {cfg : Config} {c : Call} {w₀ : World} {s s' : State Unit}

/-- The call is under way and every point ahead of it is known, or it is
over and what it left is kept. -/
def Standing (cfg : Config) (c : Call) (w₀ : World) (s : State Unit) : Prop :=
  (∃ lg prog, s.procs () = some ⟨.entry c, lg, prog⟩ ∧
    Trail cfg (Safe c w₀) (Lands cfg c w₀) prog (Machine.recollect note [] lg)
      s.world) ∨
  (¬ Calling c s ∧ Machine.Settled (machine cfg) (spec c w₀).contract
    (Spec.Head (spec c w₀) cfg) s)

theorem safe_of_trail {prog : Code Turn} {ms : List Mark} {w : World}
    (h : Trail cfg (Safe c w₀) (Lands cfg c w₀) prog ms w) :
    Safe c w₀ ms w := by
  cases prog with
  | ret t =>
    cases t with
    | again run => exact fun _ => h.1
    | done st => exact fun _ => h
  | raise x => exact h
  | op e k => exact h.1

theorem standing_put_none {w : World} (h : Kept c w₀ w) :
    Standing cfg c w₀ (s.put w () none) := by
  refine Or.inr ⟨?_, Machine.settled_put_none h⟩
  rintro ⟨lg, prog, hp⟩
  rw [Sys.put_procs_self] at hp
  cases hp

theorem covers (cfg : Config) (c : Call) (w₀ : World) :
    (spec c w₀).Covers cfg (Unbroken c w₀) := by
  refine Spec.covers_of_kept fun s a hc => ?_
  cases a with
  | call p c' => exact hc
  | step p ans => exact ⟨fun _ _ => trivial, fun _ => trivial⟩
  | crash p => exact trivial

theorem standing_step_calling {a : Act Unit} {lg : Log Resp}
    {prog : Code Turn} (hposed : Posed w₀ c)
    (hproc : s.procs () = some ⟨.entry c, lg, prog⟩)
    (htrail : Trail cfg (Safe c w₀) (Lands cfg c w₀) prog
      (Machine.recollect note [] lg) s.world)
    (hc : Unbroken c w₀ s a) (h : (machine cfg).apply a s = some s') :
    Standing cfg c w₀ s' := by
  -- stopping is safe unless the process is stranded
  have hstop : stranded c w₀ s = false →
      Kept c w₀ ((machine cfg).onStop s.world) := by
    intro hno
    refine (safe_of_trail htrail ?_).record _
    simpa [stranded, hproc] using hno
  cases Machine.apply_inv h with
  | @call p c' hp =>
    rw [hproc] at hp
    cases hp
  | @done p ans pr b hp hprog =>
    obtain rfl := Option.some.inj (hproc.symm.trans hp)
    obtain rfl : prog = _ := hprog
    exact standing_put_none htrail
  | @again p ans pr run hp hprog =>
    obtain rfl := Option.some.inj (hproc.symm.trans hp)
    obtain rfl : prog = _ := hprog
    obtain ⟨hkept, hrun, hseen⟩ := htrail
    refine Or.inr ⟨?_, Machine.settled_put_some
      ((keeps hposed).wp_turn ⟨hrun, hseen, hkept⟩)⟩
    rintro ⟨lg', prog', hp'⟩
    rw [Sys.put_procs_self] at hp'
    cases hp'
  | @raised p ans pr x hp hprog =>
    obtain rfl := Option.some.inj (hproc.symm.trans hp)
    obtain rfl : prog = _ := hprog
    refine standing_put_none (hstop (hc ?_))
    simp only [raising, hproc]
  | @op p ans pr e k x hp hprog hx =>
    obtain rfl := Option.some.inj (hproc.symm.trans hp)
    obtain rfl : prog = _ := hprog
    exact Or.inl ⟨_, _, Sys.put_procs_self .., htrail.2 x⟩
  | @crash p pr hp => exact standing_put_none (hstop hc)

theorem standing_step_over {a : Act Unit} (hposed : Posed w₀ c)
    (hover : ¬ Calling c s)
    (hset : Machine.Settled (machine cfg) (spec c w₀).contract
      (Spec.Head (spec c w₀) cfg) s)
    (hc : Unbroken c w₀ s a) (h : (machine cfg).apply a s = some s') :
    Standing cfg c w₀ s' := by
  have hk : (spec c w₀).Keeps cfg := keeps hposed
  refine Or.inr ⟨?_, hset.step (covers cfg c w₀) (fun _ _ => hk.wp_call)
    (fun _ _ => hk.wp_turn) hc h⟩
  rintro ⟨lg, prog, hp'⟩
  cases Machine.apply_inv h with
  | @call p c' hp =>
    rw [Sys.put_procs_self] at hp'
    cases hp'
    cases c <;> first | exact hposed | cases hc
  | @done p ans pr b hp hprog =>
    rw [Sys.put_procs_self] at hp'
    cases hp'
  | @again p ans pr run hp hprog =>
    rw [Sys.put_procs_self] at hp'
    cases hp'
  | @raised p ans pr x hp hprog =>
    rw [Sys.put_procs_self] at hp'
    cases hp'
  | @op p ans pr e k x hp hprog hx =>
    rw [Sys.put_procs_self] at hp'
    obtain ⟨ph, lg', prog'⟩ := pr
    cases hp'
    exact hover ⟨lg', prog', hp⟩
  | @crash p pr hp =>
    rw [Sys.put_procs_self] at hp'
    cases hp'

theorem standing_of_leads (hposed : Posed w₀ c) (hs : Standing cfg c w₀ s)
    (hrun : (machine cfg).Leads (Unbroken c w₀) s s') :
    Standing cfg c w₀ s' := by
  induction hrun with
  | refl => exact hs
  | step _ hc happ ih =>
    rcases ih with ⟨lg, prog, hproc, htrail⟩ | ⟨hover, hset⟩
    · exact standing_step_calling hposed hproc htrail hc happ
    · exact standing_step_over hposed hover hset hc happ

/-- What an answer is owed in a later state: once the call is over, the
question is open or the decision has its effect; nothing works before
that, nor ever on a run that was to be abandoned; and a decision that is
not known is refused. -/
structure Honoured (cfg : Config) (c : Call) (w₀ : World) (s : State Unit) :
    Prop where
  kept : ¬ Calling c s → Kept c w₀ s.world
  works : ¬ Calling c s → ∀ e, s.Asks () e → agentWork e = true →
    Effect c w₀ s.world ∧ verdictOf c ≠ .abandon
  refused : verdictOf c = .unknown →
    (machine cfg).Ends (fun _ _ _ => True) (fun _ => False) (entry cfg c)
      (w₀.record (.called c)) ∧ (¬ Calling c s → Open w₀ s.world)

theorem kept_of_settled
    (hset : Machine.Settled (machine cfg) (spec c w₀).contract
      (Spec.Head (spec c w₀) cfg) s) : Kept c w₀ s.world := by
  cases hp : s.procs () with
  | none => exact hset.resting fun _ => hp
  | some pr => exact Kept.of_stopped ((hset.running () pr hp).cut trivial)

theorem working_of_settled {e : Req}
    (hset : Machine.Settled (machine cfg) (spec c w₀).contract
      (Spec.Head (spec c w₀) cfg) s) (ha : s.Asks () e)
    (he : agentWork e = true) : Working c w₀ s.world := by
  simp only [agentWork, Bool.or_eq_true] at he
  rcases he with ((he | he) | he) | he
  · exact Spec.mayImplement_of_settled hset ha he
  · exact Spec.mayVerify_of_settled hset ha he
  · exact Spec.mayPackage_of_settled hset ha he
  · exact Spec.mayAuthor_of_settled hset ha he

theorem honoured_of_standing (hposed : Posed w₀ c) (hdoc : Documented c)
    (hs : Standing cfg c w₀ s) : Honoured cfg c w₀ s := by
  have hset : ¬ Calling c s → Machine.Settled (machine cfg)
      (spec c w₀).contract (Spec.Head (spec c w₀) cfg) s := by
    intro hover
    rcases hs with ⟨lg, prog, hproc, _⟩ | ⟨_, hset⟩
    · exact absurd ⟨lg, prog, hproc⟩ hover
    · exact hset
  refine ⟨fun hover => kept_of_settled (hset hover),
    fun hover e ha he => working_of_settled (hset hover) ha he,
    fun hv => ⟨unknown_raises hposed hdoc hv, fun hover => ?_⟩⟩
  rcases kept_of_settled (hset hover) with hopen | heff
  · exact hopen
  · have hreg := heff.region
    rw [hv] at hreg
    cases hreg

end Runs

/-- In every run in which only resumes follow an answer, its decision is
a documented one and no process stops half-way through writing it, every
state honours the answer. -/
theorem answers_honoured (cfg : Config) {s₀ s₁ s : State Unit} {c : Call}
    (hs₀ : (machine cfg).Reach (Initial cfg) (fun _ _ => True) s₀)
    (hposed : Posed s₀.world c) (hdoc : Documented c)
    (hcall : (machine cfg).apply (.call () c) s₀ = some s₁)
    (hrun : (machine cfg).Leads (Unbroken c s₀.world) s₁ s) :
    Honoured cfg c s₀.world s := by
  refine honoured_of_standing hposed hdoc (standing_of_leads hposed ?_ hrun)
  cases Machine.apply_inv hcall with
  | @call p c' hp =>
    exact Or.inl ⟨[], _, Sys.put_procs_self ..,
      trail_entry (asked_of_reach hs₀ hp) hposed hdoc⟩

theorem not_calling_of_drives {c : Call} {s : State Unit} {e : Req}
    (h : s.Drives () e) : ¬ Calling c s := by
  rintro ⟨lg, prog, hproc⟩
  obtain ⟨pr, st, k, hp, hph, _⟩ := h
  obtain rfl := Option.some.inj (hproc.symm.trans hp)
  cases hph

theorem posed_of_question {w : World} {id decision : String}
    {note : Option String} (h : w.question.isSome = true) :
    Posed w (.resolveCheckpoint id decision note) := by
  obtain ⟨e, he⟩ := Option.isSome_iff_exists.1 h
  exact ⟨e, World.pending_of_question he⟩

/-- "continue" is written down in full before the process crashes; the
next resume hands out the second subtask, with the violation
acknowledged. -/
theorem answers_honoured_continued :
    ∃ (s₀ s₁ s : State Unit) (c : Call),
      (machine Sample.cfg).Reach (Initial Sample.cfg) (fun _ _ => True) s₀ ∧
      Posed s₀.world c ∧ Documented c ∧
      (machine Sample.cfg).apply (.call () c) s₀ = some s₁ ∧
      (machine Sample.cfg).Leads (Unbroken c s₀.world) s₁ s ∧
      (∃ e, s.Drives () e ∧ agentWork e = true) ∧
      Honoured Sample.cfg c s₀.world s := by
  have hdoc : Documented (.resolveCheckpoint "run" "continue" none) :=
    fun _ _ _ _ => by decide
  obtain ⟨s₀, hs₀, htest⟩ := reach_of_plays_free Sample.initial_sample
    (Sample.strayed () [Sample.task "t1", Sample.task "t2"])
    (fun s₀ => s₀.world.question.isSome && continues Sample.cfg ()
      (.resolveCheckpoint "run" "continue" none)
      (fun s a => decide (Unbroken
        (.resolveCheckpoint "run" "continue" none) s₀.world s a))
      (.step () .auto :: answering () (.time 0) 3 ++ [.crash ()] ++
        calling () (.resumeRun "run") 5)
      (fun s => driving s () agentWork) s₀) (by decide +kernel)
  rw [Bool.and_eq_true] at htest
  have hposed : Posed s₀.world (.resolveCheckpoint "run" "continue" none) :=
    posed_of_question htest.1
  obtain ⟨s₁, s, hcall, hrun, hdrives⟩ := continues_inv
    (fun _ _ hc => of_decide_eq_true hc) htest.2
  exact ⟨s₀, s₁, s, _, hs₀, hposed, hdoc, hcall, hrun, driving_inv hdrives,
    answers_honoured _ hs₀ hposed hdoc hcall hrun⟩

/-- Only resumes follow the call; processes stop anywhere. -/
def Resumed (_ : State Unit) : Act Unit → Prop
  | .call _ c => resumes c = true
  | _ => True

instance (s : State Unit) (a : Act Unit) : Decidable (Resumed s a) :=
  match a with
  | .call _ c => inferInstanceAs (Decidable (resumes c = true))
  | .step _ _ => inferInstanceAs (Decidable True)
  | .crash _ => inferInstanceAs (Decidable True)

/-- "stop" marks the elicitation resolved, and the process crashes before
it abandons the run; the next resume hands out the second subtask. -/
theorem stop_lost :
    ¬ ∀ (s₀ s₁ s : State Unit) (c : Call),
      (machine Sample.cfg).Reach (Initial Sample.cfg) (fun _ _ => True) s₀ →
        Posed s₀.world c →
          (machine Sample.cfg).apply (.call () c) s₀ = some s₁ →
            (machine Sample.cfg).Leads Resumed s₁ s →
              Honoured Sample.cfg c s₀.world s := by
  intro hclaim
  obtain ⟨s₀, hs₀, htest⟩ := reach_of_plays_free Sample.initial_sample
    (Sample.strayed () [Sample.task "t1", Sample.task "t2"])
    (fun s₀ => s₀.world.question.isSome && continues Sample.cfg ()
      (.resolveCheckpoint "run" "stop" none)
      (fun s a => decide (Resumed s a))
      (.step () .auto :: answering () (.time 0) 1 ++ [.crash ()] ++
        calling () (.resumeRun "run") 5)
      (fun s => driving s () agentWork) s₀) (by decide +kernel)
  rw [Bool.and_eq_true] at htest
  obtain ⟨s₁, s, hcall, hrun, hdrives⟩ := continues_inv
    (fun _ _ hc => of_decide_eq_true hc) htest.2
  obtain ⟨e, hdr, he⟩ := driving_inv hdrives
  have hhon := hclaim s₀ s₁ s _ hs₀ (posed_of_question htest.1) hcall hrun
  obtain ⟨_, hlost⟩ := hhon.works (not_calling_of_drives hdr) e hdr.asks he
  exact hlost rfl

end Decisions

end SdlcOs.Orchestrator
