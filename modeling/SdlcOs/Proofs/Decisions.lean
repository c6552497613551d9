/-
What a human's answer comes to, and that resumes keep it.

# Verdicts and effects

A decision has a verdict, and a verdict a region of stages that the
drive does not leave (`region_closed`). `Effect` says that a decision
has its full effect: the run is in the region of the verdict, and what
the decision was to leave in the stores is there. `Open` says that the
question still stands and nothing has changed.

# Resumes

`keeps`: from a world in which one or the other holds, any number of
resumes, with backend, verifier and packaging answering as they like and
processes stopping anywhere, come to such a world again; and work is
handed out only once the decision has its effect, and never if it was to
abandon the run.

`asked_of_reach` adds what the runs before the call owe: a checkpoint is
raised at one of the working stages, over a saved record.
-/
import SdlcOs.Proofs.Seq.Turn

namespace SdlcOs.Orchestrator

open Effects
open Registry (Stage Result ErrorInfo)

namespace Decisions

-- ==== decisions

/-- What a decision asks for. -/
inductive Verdict : Type where
  | proceed
  | replan (feedback : String)
  | finish
  | abandon
  | unknown
  deriving DecidableEq

/-- The decisions the calls document. -/
def verdictOf : Call → Verdict
  | .approvePlan _ decision feedback =>
    if decision = "approve" then .proceed
    else if decision = "request_changes" then .replan (feedback.getD "")
    else if decision = "reject" then .abandon
    else .unknown
  | .approveChangeReview _ decision _ =>
    if decision = "approve" then .finish
    else if decision = "request_changes" then .proceed
    else if decision = "reject" then .abandon
    else .unknown
  | .resolveCheckpoint _ decision _ =>
    if decision = "stop" then .abandon
    else if decision = "continue" ∨ decision = "extend_scope" then .proceed
    else .unknown
  | .resumeRun _ => .unknown

/-- Where the run is once a decision has been carried out, for as long as
only the drive moves it. -/
def Verdict.region : Verdict → Stage → Bool
  | .proceed, .implementation => true
  | .proceed, .verification => true
  | .proceed, .changeReviewGate => true
  | .replan _, .planApprovalGate => true
  | .finish, .packaging => true
  | .finish, .retrospective => true
  | .finish, .completed => true
  | .abandon, .abandoned => true
  | _, _ => false

/-- The call answers a question that is open. -/
def Posed (w : World) : Call → Prop
  | .approvePlan .. => w.run.stage = .planApprovalGate
  | .approveChangeReview .. => w.run.stage = .changeReviewGate
  | .resolveCheckpoint .. => ∃ e, pendingCheckpoint w.run = .ok (some e)
  | .resumeRun _ => False

/-- Decisions on a checkpoint are the three documented ones. -/
def Documented (c : Call) : Prop :=
  ∀ id decision note, c = .resolveCheckpoint id decision note →
    verdictOf c ≠ .unknown

-- ==== effects

/-- An event of the history since a world. -/
def Since (w₀ w : World) (ev : Event) : Prop :=
  ∃ evs, w.hist = evs ++ w₀.hist ∧ ev ∈ evs

/-- The latest plan is one the backend made of a feedback since. -/
def Replanned (w₀ w : World) (feedback : String) : Prop :=
  ∃ out artifact, Since w₀ w (.replanned feedback out) ∧
    w.plans.latest = some artifact ∧ ∃ id n budget now demoted,
      generatePlanArtifact id n out budget ("re-plan: " ++ feedback) now =
        .ok (artifact, demoted)

/-- The answer to an elicitation is on record, and unless it was to stop
its violation is acknowledged and the scope extended as asked. -/
def Resolved (w₀ w : World) (e : Elicitation) (decision : String)
    (note : Option String) : Prop :=
  (∃ now, Since w₀ w (.answered (e.resolve decision note now))) ∧
    (decision ≠ "stop" →
      (∃ p, w.progress = some p ∧ ∀ signature, e.signature = some signature →
        signature ∈ p.acknowledgedCheckpointSignatures) ∧
      (decision = "extend_scope" → e.trigger = .risk →
        ∃ plan, w.plans.latest = some plan ∧
          ∀ file ∈ e.details.outOfScopeFiles, file ∈ plan.inScope))

/-- What a decision leaves in the stores. -/
def Stored (w₀ w : World) : Call → Prop
  | .approvePlan _ decision feedback =>
    (decision = "approve" → w.plans = w₀.plans) ∧
      (decision = "request_changes" →
        Replanned w₀ w (feedback.getD ""))
  | .resolveCheckpoint _ decision note =>
    ∀ e, pendingCheckpoint w₀.run = .ok (some e) →
      Resolved w₀ w e decision note
  | _ => True

/-- The decision has its full effect. -/
structure Effect (c : Call) (w₀ w : World) : Prop where
  region : (verdictOf c).region w.run.stage = true
  moved : w₀.run.version < w.run.version
  stored : Stored w₀ w c

/-- Nothing has changed. -/
structure Open (w₀ w : World) : Prop where
  run : w.run = w₀.run
  plans : w.plans = w₀.plans
  progress : w.progress = w₀.progress

/-- The question is still open, or the decision has its effect. -/
def Kept (c : Call) (w₀ w : World) : Prop := Open w₀ w ∨ Effect c w₀ w

/-- Work handed to an agent, the verifier or the packaging. -/
def agentWork (e : Req) : Bool :=
  e.implements || e.verifies || e.packages || e.authors

-- ==== what is carried

/-- A later world that has forgotten nothing the effects speak of. -/
structure Carries (w w' : World) : Prop where
  hist : ∃ evs, w'.hist = evs ++ w.hist
  plans : w'.plans = w.plans
  version : w.run.version ≤ w'.run.version
  acknowledged : ∀ p, w.progress = some p → ∃ p', w'.progress = some p' ∧
    p.acknowledgedCheckpointSignatures ⊆ p'.acknowledgedCheckpointSignatures

section Carries

variable {c : Call} {w₀ w w' w'' : World} {p p' : RunProgress}

theorem Carries.trans (h : Carries w w') (h' : Carries w' w'') :
    Carries w w'' := by
  obtain ⟨evs, hevs⟩ := h.hist
  obtain ⟨evs', hevs'⟩ := h'.hist
  refine ⟨⟨evs' ++ evs, ?_⟩, h'.plans.trans h.plans,
    h.version.trans h'.version, ?_⟩
  · rw [hevs', hevs, List.append_assoc]
  · intro p hp
    obtain ⟨p', hp', hsub⟩ := h.acknowledged p hp
    obtain ⟨p'', hp'', hsub'⟩ := h'.acknowledged p' hp'
    exact ⟨p'', hp'', List.Subset.trans hsub hsub'⟩

theorem carries_refl (w : World) : Carries w w :=
  ⟨⟨[], rfl⟩, rfl, le_refl _, fun p hp => ⟨p, hp, List.Subset.refl _⟩⟩

theorem carries_record (w : World) (ev : Event) : Carries w (w.record ev) :=
  ⟨⟨[ev], rfl⟩, rfl, le_refl _, fun p hp => ⟨p, hp, List.Subset.refl _⟩⟩

theorem carries_moved (w : World) (next : Stage) :
    Carries w (w.moved next) :=
  ⟨⟨_, rfl⟩, rfl, Nat.le_succ _, fun p hp => ⟨p, hp, List.Subset.refl _⟩⟩

theorem carries_pausedAt (w : World) (t : CheckpointTrigger) (id : String)
    (at' : Time) : Carries w (w.pausedAt t id at') :=
  ⟨⟨_, rfl⟩, rfl, Nat.le_succ _, fun p hp => ⟨p, hp, List.Subset.refl _⟩⟩

/-- Saving a record that keeps the acknowledgements of the current
one. -/
theorem carries_saved (hp : w.Current p)
    (hack : p.acknowledgedCheckpointSignatures ⊆
      p'.acknowledgedCheckpointSignatures) :
    Carries w (w.progressSaved p') := by
  refine ⟨⟨[], rfl⟩, rfl, le_refl _, ?_⟩
  intro q hq
  rcases hp with hp | ⟨hnone, _⟩
  · obtain rfl := Option.some.inj (hp.symm.trans hq)
    exact ⟨p', rfl, hack⟩
  · rw [hnone] at hq
    cases hq

theorem Since.carry {ev : Event} (h : Since w₀ w ev) (hc : Carries w w') :
    Since w₀ w' ev := by
  obtain ⟨evs, hhist, hev⟩ := h
  obtain ⟨evs', hhist'⟩ := hc.hist
  refine ⟨evs' ++ evs, ?_, List.mem_append.2 (Or.inr hev)⟩
  rw [hhist', hhist, List.append_assoc]

theorem Resolved.carry {e : Elicitation} {decision : String}
    {note : Option String} (h : Resolved w₀ w e decision note)
    (hc : Carries w w') : Resolved w₀ w' e decision note := by
  obtain ⟨⟨now, hans⟩, hrest⟩ := h
  refine ⟨⟨now, hans.carry hc⟩, fun hd => ?_⟩
  obtain ⟨⟨p, hp, hsig⟩, hext⟩ := hrest hd
  refine ⟨?_, fun hd' ht => ?_⟩
  · obtain ⟨p', hp', hsub⟩ := hc.acknowledged p hp
    exact ⟨p', hp', fun s hs => hsub (hsig s hs)⟩
  · obtain ⟨plan, hplan, hfiles⟩ := hext hd' ht
    exact ⟨plan, by rw [hc.plans]; exact hplan, hfiles⟩

theorem Stored.carry (h : Stored w₀ w c) (hc : Carries w w') :
    Stored w₀ w' c := by
  cases c with
  | resumeRun id => exact trivial
  | approveChangeReview id decision feedback => exact trivial
  | approvePlan id decision feedback =>
    refine ⟨fun hd => hc.plans.trans (h.1 hd), fun hd => ?_⟩
    obtain ⟨out, artifact, hsince, hlatest, hgen⟩ := h.2 hd
    exact ⟨out, artifact, hsince.carry hc, by rw [hc.plans]; exact hlatest,
      hgen⟩
  | resolveCheckpoint id decision note => exact fun e he => (h e he).carry hc

theorem Effect.carry (h : Effect c w₀ w) (hc : Carries w w')
    (hreg : (verdictOf c).region w'.run.stage = true) : Effect c w₀ w' :=
  ⟨hreg, h.moved.trans_le hc.version, h.stored.carry hc⟩

end Carries

-- ==== resumes keep the answer

/-- The decision has its effect, and it was not to abandon the run. -/
def Working (c : Call) (w₀ w : World) : Prop :=
  Effect c w₀ w ∧ verdictOf c ≠ .abandon

/-- The call that answers nothing. -/
def resumes : Call → Bool
  | .resumeRun _ => true
  | _ => false

/-- Resumes keep an answer, and no agent works before it has its
effect. -/
def spec (c : Call) (w₀ : World) : Spec where
  callOk := fun _ c' => resumes c' = true
  inv := Kept c w₀
  mayImplement := Working c w₀
  mayVerify := Working c w₀
  mayPackage := Working c w₀
  mayAuthor := Working c w₀

section Resumes

variable {c : Call} {w₀ w : World} {cfg : Config}

theorem Kept.record (h : Kept c w₀ w) (ev : Event) :
    Kept c w₀ (w.record ev) := by
  rcases h with hopen | heff
  · exact Or.inl ⟨hopen.run, hopen.plans, hopen.progress⟩
  · exact Or.inr (heff.carry (carries_record w ev) heff.region)

theorem Since.of_stopped {ev : Event} {stage : Stage}
    (h : Since w₀ (w.record (.stopped stage)) ev)
    (hev : ev ≠ .stopped stage) : Since w₀ w ev := by
  obtain ⟨evs, hhist, hmem⟩ := h
  cases evs with
  | nil => cases hmem
  | cons ev' evs =>
    injection hhist with hev' hhist
    rcases List.mem_cons.1 hmem with rfl | hmem
    · exact absurd hev'.symm hev
    · exact ⟨evs, hhist, hmem⟩

theorem Stored.of_stopped {stage : Stage}
    (h : Stored w₀ (w.record (.stopped stage)) c) : Stored w₀ w c := by
  cases c with
  | resumeRun id => exact trivial
  | approveChangeReview id decision feedback => exact trivial
  | approvePlan id decision feedback =>
    refine ⟨h.1, fun hd => ?_⟩
    obtain ⟨out, artifact, hsince, hrest⟩ := h.2 hd
    exact ⟨out, artifact, hsince.of_stopped (by simp), hrest⟩
  | resolveCheckpoint id decision note =>
    intro e he
    obtain ⟨⟨now, hsince⟩, hrest⟩ := h e he
    exact ⟨⟨now, hsince.of_stopped (by simp)⟩, hrest⟩

theorem Kept.of_stopped {stage : Stage}
    (h : Kept c w₀ (w.record (.stopped stage))) : Kept c w₀ w := by
  rcases h with hopen | heff
  · exact Or.inl ⟨hopen.run, hopen.plans, hopen.progress⟩
  · exact Or.inr ⟨heff.region, heff.moved, heff.stored.of_stopped⟩

theorem cut_of_kept (h : Kept c w₀ w) : (spec c w₀).Cut w :=
  fun _ => h.record _

/-- The moves of the drive after planning. -/
def driveMoves : List (Stage × Stage) :=
  [(.implementation, .verification), (.verification, .changeReviewGate),
    (.verification, .implementation), (.packaging, .retrospective),
    (.retrospective, .completed)]

/-- The drive leaves no region. -/
theorem region_closed {v : Verdict} {stage next : Stage}
    (h : v.region stage = true) (hmove : (stage, next) ∈ driveMoves) :
    v.region next = true := by
  simp only [driveMoves, List.mem_cons, Prod.mk.injEq, List.not_mem_nil,
    or_false] at hmove
  rcases hmove with ⟨rfl, rfl⟩ | ⟨rfl, rfl⟩ | ⟨rfl, rfl⟩ | ⟨rfl, rfl⟩ |
    ⟨rfl, rfl⟩ <;> cases v <;> first | rfl | cases h

/-- An effect excludes the stages of no region, and with agents at work
the run was not abandoned. -/
theorem Effect.working (h : Effect c w₀ w)
    (hst : w.run.stage ≠ .abandoned) : Working c w₀ w := by
  refine ⟨h, fun hv => hst ?_⟩
  have hreg := h.region
  rw [hv] at hreg
  cases hs : w.run.stage <;> rw [hs] at hreg <;> first | rfl | cases hreg

theorem kept_of_carries {w' : World} (h : Effect c w₀ w)
    (hc : Carries w w') (hst : w'.run.stage = w.run.stage) :
    Kept c w₀ w' :=
  Or.inr (h.carry hc (by rw [hst]; exact h.region))

theorem moves_of_carries {w' : World} {next : Stage} (h : Effect c w₀ w)
    (hc : Carries w w') (hmove : (w.run.stage, next) ∈ driveMoves) :
    (spec c w₀).Moves w' next (Kept c w₀) := by
  have hkept : Kept c w₀ (w'.moved next) :=
    Or.inr (h.carry (hc.trans (carries_moved w' next))
      (region_closed h.region hmove))
  exact ⟨trivial, cut_of_kept hkept, hkept⟩

theorem implStep {artifact : PlanArtifact} {p : RunProgress}
    (h : Effect c w₀ w) (hst : w.run.stage = .implementation)
    (hp : w.Current p) :
    (spec c w₀).ImplStep cfg w artifact p
      ((spec c w₀).ImplDone (Kept c w₀)) := by
  -- every world on the way carries the effect, at this stage
  have hround : ∀ w' : World, Carries w w' → w'.run.stage = w.run.stage →
      (spec c w₀).Cut w' ∧ Kept c w₀ w' := by
    intro w' hc hst'
    have hkept := kept_of_carries h hc hst'
    exact ⟨cut_of_kept hkept, hkept⟩
  have hverify : ∀ w' : World, Carries w w' →
      w'.run.stage = w.run.stage →
        (spec c w₀).ImplDone (Kept c w₀) .verify w' := by
    intro w' hc hst'
    refine ⟨(hround w' hc hst').1, moves_of_carries h hc ?_⟩
    rw [hst]
    decide
  have hload : Carries w (w.progressSaved p) :=
    carries_saved hp (List.Subset.refl _)
  have hsaved : ∀ (ev : Event) (p' : RunProgress),
      p.acknowledgedCheckpointSignatures ⊆
        p'.acknowledgedCheckpointSignatures →
      Carries w (((w.progressSaved p).record ev).progressSaved p') := by
    intro ev p' hack
    refine hload.trans ((carries_record _ ev).trans ?_)
    exact carries_saved (p := p) (Or.inl rfl) hack
  have hfail : ∀ ev, (spec c w₀).FailStep ((w.progressSaved p).record ev) p
      ((spec c w₀).ImplDone (Kept c w₀)) := by
    intro ev
    have hc := hsaved ev p.afterFailure (List.Subset.refl _)
    exact
      { saved := (hround _ hc rfl).1
        paused := fun _ _ _ =>
          hround _ (hc.trans (carries_pausedAt _ _ _ _)) rfl
        proceed := fun _ => hround _ hc rfl }
  have hcalled : ∀ ev, (spec c w₀).Cut ((w.progressSaved p).record ev) :=
    fun ev => (hround _ (hload.trans (carries_record _ ev)) rfl).1
  have hwork : Working c w₀ (w.progressSaved p) := by
    refine Effect.working (h.carry hload h.region) ?_
    rw [World.progressSaved_run, hst]
    decide
  exact
    { loaded := (hround _ hload rfl).1
      verify := fun _ _ => hverify _ hload rfl
      may := hwork
      fixupRaised := fun _ _ _ _ _ => ⟨hcalled _, hfail _⟩
      fixup := fun _ _ _ diff _ =>
        ⟨hcalled _, hverify _ (hsaved _ (p.afterFixup diff)
          (List.Subset.refl _)) rfl⟩
      batchRaised := fun _ _ _ _ _ _ => ⟨hcalled _, hfail _⟩
      batch := by
        intro first batch _ _ diffs _
        have hack : p.acknowledgedCheckpointSignatures ⊆
            (p.afterBatch (batch.zip diffs)).acknowledgedCheckpointSignatures
            := by
          rw [RunProgress.afterBatch_acknowledged]
          exact List.Subset.refl _
        have hc := hsaved (.implemented .planned (batch.map SubTask.ofEntry)
          (.returned diffs)) _ hack
        exact ⟨hcalled _,
          { saved := (hround _ hc rfl).1
            paused := fun _ _ _ _ _ _ _ _ =>
              hround _ (hc.trans (carries_pausedAt _ _ _ _)) rfl
            proceed := fun _ _ _ _ _ => hround _ hc rfl
            verify := fun _ _ _ _ _ => hverify _ hc rfl }⟩ }

theorem verStep (h : Effect c w₀ w) (hst : w.run.stage = .verification) :
    (spec c w₀).VerStep w
      ((spec c w₀).VerDone (Kept c w₀) (Kept c w₀)) := by
  have hround : ∀ w' : World, Carries w w' → w'.run.stage = w.run.stage →
      (spec c w₀).Cut w' ∧ Kept c w₀ w' := by
    intro w' hc hst'
    have hkept := kept_of_carries h hc hst'
    exact ⟨cut_of_kept hkept, hkept⟩
  have hsaved : ∀ (ev : Event) (p p' : RunProgress), w.Current p →
      p.acknowledgedCheckpointSignatures ⊆
        p'.acknowledgedCheckpointSignatures →
      Carries w ((w.record ev).progressSaved p') := by
    intro ev p p' hp hack
    exact (carries_record w ev).trans (carries_saved hp hack)
  exact
    { may := h.working (by rw [hst]; decide)
      called := fun _ _ => (hround _ (carries_record w _) rfl).1
      loaded := fun _ p _ hp =>
        (hround _ (hsaved _ p p hp (List.Subset.refl _)) rfl).1
      passed := by
        intro res p _ hp _
        have hc := hsaved (.verified (.returned res)) p p.afterPass hp
          (List.Subset.refl _)
        exact ⟨(hround _ hc rfl).1,
          moves_of_carries h hc (by rw [hst]; decide)⟩
      failed := fun res p _ hp _ => (hround _ (hsaved _ p
        (p.afterVerificationFailure res.summary) hp
        (List.Subset.refl _)) rfl).1
      stuck := fun res p _ hp _ _ _ _ => hround _ ((hsaved _ p
        (p.afterVerificationFailure res.summary) hp
        (List.Subset.refl _)).trans (carries_pausedAt _ _ _ _)) rfl
      retry := by
        intro res p _ hp _ _
        have hc := hsaved (.verified (.returned res)) p
          (p.afterVerificationFailure res.summary) hp (List.Subset.refl _)
        exact ⟨(hround _ hc rfl).1,
          moves_of_carries h hc (by rw [hst]; decide)⟩ }

theorem Open.gate (h : Open w₀ w) (hposed : Posed w₀ c)
    (hno : w.NoPending) : w.run.stage.gate = true := by
  rw [h.run]
  cases c with
  | resumeRun id => exact hposed.elim
  | approvePlan id decision feedback =>
    rw [show w₀.run.stage = .planApprovalGate from hposed]
    rfl
  | approveChangeReview id decision feedback =>
    rw [show w₀.run.stage = .changeReviewGate from hposed]
    rfl
  | resolveCheckpoint id decision note =>
    obtain ⟨e, he⟩ := hposed
    have hnone : pendingCheckpoint w.run = .ok none := hno
    rw [h.run, he] at hnone
    cases hnone

theorem Effect.not_planning (h : Effect c w₀ w) {stage : Stage}
    (hst : w.run.stage = stage)
    (hno : stage ∈ [Stage.intake, .research, .planAuthoring]) : False := by
  have hreg := h.region
  rw [hst] at hreg
  simp only [List.mem_cons, List.not_mem_nil, or_false] at hno
  rcases hno with rfl | rfl | rfl <;> cases hv : verdictOf c <;>
    rw [hv] at hreg <;> cases hreg

theorem turns (hposed : Posed w₀ c) (h : Kept c w₀ w) (hno : w.NoPending) :
    (spec c w₀).Turns cfg w (Kept c w₀) (Kept c w₀) := by
  rcases h with hopen | heff
  · have hgate := hopen.gate hposed hno
    refine ⟨?_, ?_, ?_, ?_, ?_, ?_, ?_, ?_, ?_⟩ <;>
      (intro hst; rw [hst] at hgate; cases hgate)
  · exact
      { intake := fun hst => (heff.not_planning hst (by decide)).elim
        research := fun hst => (heff.not_planning hst (by decide)).elim
        mayAuthor := fun hst => (heff.not_planning hst (by decide)).elim
        author := fun hst => (heff.not_planning hst (by decide)).elim
        implement := fun hst _ _ _ hp => implStep heff hst hp
        verify := fun hst => verStep heff hst
        package := by
          intro hst _
          refine ⟨heff.working (by rw [hst]; decide), fun _ => ?_⟩
          have hc := carries_record w .packaged
          exact ⟨cut_of_kept (kept_of_carries heff hc rfl),
            moves_of_carries heff hc (by rw [hst]; decide)⟩
        unpackaged := fun hst _ =>
          moves_of_carries heff (carries_refl w) (by rw [hst]; decide)
        retrospective := fun hst =>
          moves_of_carries heff (carries_refl w) (by rw [hst]; decide) }

/-- Resumes keep what the call left. -/
theorem keeps (hposed : Posed w₀ c) : (spec c w₀).Keeps cfg where
  cut := fun _ h => cut_of_kept h
  called := fun _ _ h _ => h.record _
  turn := fun _ h hno => turns hposed h hno
  plan := by
    intro _ _ _ _ _ hc
    cases hc
  review := by
    intro _ _ _ _ _ hc
    cases hc
  resolve := by
    intro _ _ _ _ _ _ _ hc
    cases hc

end Resumes

-- ==== open checkpoints

/-- A checkpoint is raised at one of the working stages, over a saved
record. -/
def Asked (w : World) : Prop :=
  ∀ e, pendingCheckpoint w.run = .ok (some e) →
    (w.run.stage = .implementation ∨ w.run.stage = .verification) ∧
      ∃ p, w.progress = some p

section Asked

variable {w w' : World} {cfg : Config}

def askedSpec : Spec where
  inv := Asked

theorem asked_of_noPending (h : w.NoPending) : Asked w := by
  intro e he
  have hnone : pendingCheckpoint w.run = .ok none := h
  rw [he] at hnone
  cases hnone

theorem asked_cut (h : Asked w) : askedSpec.Cut w := fun _ => h

theorem asked_rest (hno : w.NoPending)
    (hptr : w'.run.checkpointPointer = w.run.checkpointPointer) :
    askedSpec.Cut w' ∧ Asked w' := by
  have h := asked_of_noPending (World.noPending_congr hptr hno)
  exact ⟨asked_cut h, h⟩

theorem asked_moves {next : Stage} (hno : w.NoPending)
    (hptr : w'.run.checkpointPointer = w.run.checkpointPointer) :
    askedSpec.Moves w' next Asked := by
  obtain ⟨hc, h⟩ : askedSpec.Cut (w'.moved next) ∧ Asked (w'.moved next) :=
    asked_rest hno hptr
  exact ⟨trivial, hc, h⟩

theorem asked_pausedAt {p : RunProgress} {t : CheckpointTrigger}
    {id : String} {at' : Time}
    (hst : w'.run.stage = .implementation ∨ w'.run.stage = .verification)
    (hp : w'.progress = some p) :
    askedSpec.Cut (w'.pausedAt t id at') ∧ Asked (w'.pausedAt t id at') := by
  have h : Asked (w'.pausedAt t id at') := fun _ _ => ⟨hst, p, hp⟩
  exact ⟨asked_cut h, h⟩

theorem asked_implStep {artifact : PlanArtifact} {p : RunProgress}
    (hst : w.run.stage = .implementation) (hno : w.NoPending) :
    askedSpec.ImplStep cfg w artifact p (askedSpec.ImplDone Asked) := by
  have hrest : ∀ w' : World,
      w'.run.checkpointPointer = w.run.checkpointPointer →
        askedSpec.Cut w' ∧ Asked w' := fun _ hptr => asked_rest hno hptr
  have hcut : ∀ w' : World,
      w'.run.checkpointPointer = w.run.checkpointPointer →
        askedSpec.Cut w' := fun w' hptr => (hrest w' hptr).1
  have hfail : ∀ ev, askedSpec.FailStep ((w.progressSaved p).record ev) p
      (askedSpec.ImplDone Asked) := fun ev =>
    { saved := hcut _ rfl
      paused := fun _ _ _ => asked_pausedAt (Or.inl hst) rfl
      proceed := fun _ => hrest _ rfl }
  have hverify : ∀ w' : World,
      w'.run.checkpointPointer = w.run.checkpointPointer →
        askedSpec.ImplDone Asked .verify w' :=
    fun w' hptr => ⟨hcut w' hptr, asked_moves hno hptr⟩
  exact
    { loaded := hcut _ rfl
      verify := fun _ _ => hverify _ rfl
      may := trivial
      fixupRaised := fun _ _ _ _ _ => ⟨hcut _ rfl, hfail _⟩
      fixup := fun _ _ _ _ _ => ⟨hcut _ rfl, hverify _ rfl⟩
      batchRaised := fun _ _ _ _ _ _ => ⟨hcut _ rfl, hfail _⟩
      batch := fun _ _ _ _ _ _ => ⟨hcut _ rfl,
        { saved := hcut _ rfl
          paused := fun _ _ _ _ _ _ _ _ => asked_pausedAt (Or.inl hst) rfl
          proceed := fun _ _ _ _ _ => hrest _ rfl
          verify := fun _ _ _ _ _ => hverify _ rfl }⟩ }

theorem asked_turns (hno : w.NoPending) :
    askedSpec.Turns cfg w Asked Asked := by
  have hcut : ∀ w' : World,
      w'.run.checkpointPointer = w.run.checkpointPointer →
        askedSpec.Cut w' := fun _ hptr => (asked_rest hno hptr).1
  exact
    { intake := fun _ => asked_moves hno rfl
      research := fun _ => asked_moves hno rfl
      author := fun _ _ _ => ⟨hcut _ rfl, fun _ _ =>
        ⟨hcut _ rfl, asked_moves hno rfl⟩⟩
      implement := fun hst _ _ _ _ => asked_implStep hst hno
      verify := fun hst =>
        { may := trivial
          called := fun _ _ => hcut _ rfl
          loaded := fun _ _ _ _ => hcut _ rfl
          passed := fun _ _ _ _ _ => ⟨hcut _ rfl, asked_moves hno rfl⟩
          failed := fun _ _ _ _ _ => hcut _ rfl
          stuck := fun _ _ _ _ _ _ _ _ => asked_pausedAt (Or.inr hst) rfl
          retry := fun _ _ _ _ _ _ => ⟨hcut _ rfl, asked_moves hno rfl⟩ }
      package := fun _ _ => ⟨trivial, fun _ =>
        ⟨hcut _ rfl, asked_moves hno rfl⟩⟩
      unpackaged := fun _ _ => asked_moves hno rfl
      retrospective := fun _ => asked_moves hno rfl }

theorem asked_of_gate (h : Asked w)
    (hst : w.run.stage ≠ .implementation ∧ w.run.stage ≠ .verification)
    (hptr : w'.run.checkpointPointer = w.run.checkpointPointer) :
    Asked w' := by
  intro e he
  have hpend : pendingCheckpoint w.run = .ok (some e) := by
    rw [pendingCheckpoint, ← hptr]
    exact he
  rcases (h e hpend).1 with hs | hs
  · exact absurd hs hst.1
  · exact absurd hs hst.2

theorem asked_keeps (cfg : Config) : askedSpec.Keeps cfg where
  cut := fun _ h => asked_cut h
  called := fun _ _ h _ => h
  turn := fun _ _ hno => asked_turns hno
  plan := by
    intro w id decision feedback h _ _ hst
    have hgate : ∀ w' : World,
        w'.run.checkpointPointer = w.run.checkpointPointer → Asked w' :=
      fun w' hptr => asked_of_gate h (by rw [hst]; decide) hptr
    exact
      { approved := fun _ => ⟨asked_cut (hgate _ rfl), fun _ => hgate _ rfl⟩
        reattempted := fun _ _ => asked_cut (hgate _ rfl)
        replanned := fun _ _ _ _ => ⟨asked_cut (hgate _ rfl), fun _ _ =>
          ⟨asked_cut (hgate _ rfl), hgate _ rfl⟩⟩
        rejected := fun _ => hgate _ rfl }
  review := by
    intro w id decision feedback h _ _ hst
    have hgate : ∀ w' : World,
        w'.run.checkpointPointer = w.run.checkpointPointer → Asked w' :=
      fun w' hptr => asked_of_gate h (by rw [hst]; decide) hptr
    exact ⟨fun _ => hgate _ rfl, fun _ => hgate _ rfl, fun _ => hgate _ rfl⟩
  resolve := by
    intro w id decision note e now h _ _ _
    have hno := Spec.noPending_answeredBy
      (w.record (.called (.resolveCheckpoint id decision note))) e decision
      note now
    have hrest : ∀ w' : World, w'.run.checkpointPointer =
        (Spec.answeredBy (w.record (.called (.resolveCheckpoint id decision
          note))) e decision note now).run.checkpointPointer → Asked w' :=
      fun w' hptr => (asked_rest hno hptr).2
    have hacked := Spec.acked_run (Spec.answeredBy (w.record (.called
      (.resolveCheckpoint id decision note))) e decision note now) e
    exact
      { answered := asked_cut (hrest _ rfl)
        stopped := fun _ _ => hrest _ rfl
        acknowledged := fun _ =>
          asked_cut (hrest _ (congrArg (·.checkpointPointer) hacked))
        extended := fun _ _ _ _ _ =>
          hrest _ (congrArg (·.checkpointPointer) hacked)
        continued := fun _ _ =>
          hrest _ (congrArg (·.checkpointPointer) hacked) }

/-- In every state of a run where nothing is under way. -/
theorem asked_of_reach {s : State Unit}
    (hs : (machine cfg).Reach (Initial cfg) (fun _ _ => True) s)
    (hidle : s.procs () = none) : Asked s.world := by
  have hset := (asked_keeps cfg).settled
    (fun w hw => asked_of_noPending (by
      show pendingCheckpoint w.run = .ok none
      rw [pendingCheckpoint, hw.row.2])) (Spec.covers_free rfl) hs
  exact hset.resting fun _ => hidle

end Asked

end Decisions

end SdlcOs.Orchestrator
