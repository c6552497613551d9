/-
From turns to runs, sequentially.

`Turns` collects what one turn of the drive loop owes at a world with no
pending checkpoint, stage by stage; `Keeps` adds what the public calls
owe. Each field names the worlds a crash could leave behind on that path
and the one the path ends in, so a proof that a spec is kept reads as a
walk through core.py. `Keeps.settled` is then the one induction over
runs that every sequential result uses.
-/
import SdlcOs.Proofs.Seq.Steps

namespace SdlcOs.Orchestrator

open Effects
open Registry (Stage Result ErrorInfo)

/-- No checkpoint is pending. -/
def World.NoPending (w : World) : Prop := pendingCheckpoint w.run = .ok none

/-- The pending question, if there is one. -/
def World.question (w : World) : Option Elicitation :=
  match pendingCheckpoint w.run with
  | .ok e => e
  | .error _ => none

theorem World.noPending_congr {w w' : World}
    (h : w'.run.checkpointPointer = w.run.checkpointPointer)
    (hno : w.NoPending) : w'.NoPending := by
  have hpend : pendingCheckpoint w'.run = pendingCheckpoint w.run := by
    rw [pendingCheckpoint, pendingCheckpoint, h]
  exact hpend.trans hno

theorem World.question_of_noPending {w : World} (h : w.NoPending) :
    w.question = none := by
  unfold World.question
  rw [show pendingCheckpoint w.run = .ok none from h]

theorem World.question_of_pending {w : World} {e : Elicitation}
    (h : pendingCheckpoint w.run = .ok (some e)) : w.question = some e := by
  unfold World.question
  rw [h]

theorem World.pending_of_question {w : World} {e : Elicitation}
    (h : w.question = some e) : pendingCheckpoint w.run = .ok (some e) := by
  unfold World.question at h
  split at h
  · next e' he' => rw [he', h]
  · cases h

theorem World.question_pausedAt (w : World) (t : CheckpointTrigger)
    (id : String) (createdAt : Time) :
    (w.pausedAt t id createdAt).question =
      some (.ofTrigger w.run t id createdAt) := by
  refine World.question_of_pending ?_
  simp [pendingCheckpoint, World.pausedAt, World.pointed,
    Elicitation.ofTrigger]

theorem World.pending_pausedAt (w : World) (t : CheckpointTrigger)
    (id : String) (createdAt : Time) :
    ¬ (w.pausedAt t id createdAt).NoPending := by
  simp [World.NoPending, pendingCheckpoint, World.pausedAt, World.pointed,
    Elicitation.ofTrigger]

/-- A turn's result: round again with the stored row, or a return. -/
def Turned (cfg : Config) (go stay : World → Prop) : Turn → World → Prop
  | .again run, w => w.run = run ∧ w.Seen cfg ∧ go w
  | .done st, w => st.Final ∧ stay w

/-- The artifact `_generate_and_store_plan` makes of an output. -/
def Generated (cfg : Config) (w : World) (out : PlanOutput) (text : String)
    (artifact : PlanArtifact) : Prop :=
  ∃ budget now demoted,
    resolveBudget out.storySize out.crossCuttingOrHighRisk cfg.budgets =
      some budget ∧
    generatePlanArtifact w.run.id
      (PlanStore.latestVersionNumber w.plans.latest + 1) out budget text now =
        .ok (artifact, demoted)

namespace Spec

variable {S : Spec} {cfg : Config} {ph : Phase Call Run}

theorem wp_generateAndStorePlan {run : Run} {out : PlanOutput}
    {text : String} {Q : Unit → World → Prop} {w : World}
    (hrun : w.run = run) (hcut : S.Cut w)
    (h : ∀ artifact, Generated cfg w out text artifact →
      Q () (w.planSaved artifact)) :
    S.Wp cfg ph Q (generateAndStorePlan cfg run out text) w := by
  subst hrun
  unfold generateAndStorePlan
  split
  · exact hcut
  · next budget hb =>
    refine wp_seq (wp_quiet rfl hcut fun x => ?_)
    have hload : (w.exec (.loadLatest w.run.id) x).2 = w.plans.latest := rfl
    rw [hload]
    refine wp_seq (wp_quiet rfl hcut fun now => ?_)
    split
    · exact hcut
    · next artifact demoted hgen =>
      have hQ := h artifact ⟨budget, _, demoted, hb, hgen⟩
      split
      · exact wp_seq (wp_observe hcut (wp_savePlan hcut hQ))
      · exact wp_savePlan hcut hQ

/-- What a move of a drive turn owes. -/
def Moves (S : Spec) (w : World) (next : Stage) (P : World → Prop) : Prop :=
  S.mayMove w next ∧ S.Cut (w.moved next) ∧ P (w.moved next)

theorem wp_moveAgain {run : Run} {next : Stage} {go stay : World → Prop}
    {w : World} {st : Run} (hrun : w.run = run) (hseen : w.Seen cfg)
    (hcut : S.Cut w) (h : Moves S w next go) :
    S.Wp cfg (.loop st) (Turned cfg go stay) (do
      let run ← transition cfg run next
      pure (.again run)) w :=
  wp_seq (wp_transition hrun hcut h.1 fun _ =>
    ⟨h.2.1, rfl, hseen, h.2.2⟩)

theorem wp_moveDone {run : Run} {next : Stage} {go stay : World → Prop}
    {w : World} {st : Run} {f : Run → RunStatus}
    (hf : ∀ run : Run, run.stage = next → (f run).Final)
    (hrun : w.run = run) (hcut : S.Cut w)
    (h : Moves S w next stay) :
    S.Wp cfg (.loop st) (Turned cfg go stay) (do
      let run ← transition cfg run next
      pure (.done (f run))) w :=
  wp_seq (wp_transition hrun hcut h.1 fun _ =>
    ⟨h.2.1, hf _ rfl, h.2.2⟩)

theorem final_paused {run : Run} {kind : Option PauseKind}
    {e : Option Elicitation} : (status run true kind e).Final := Or.inl rfl

theorem final_terminal {run : Run}
    (h : run.stage ∈ Stage.terminalStages) : (status run false none).Final :=
  Or.inr h

-- ==== the two working stages

/-- What the IMPLEMENTATION branch owes after its step. -/
def ImplDone (S : Spec) (go : World → Prop) : ImplOutcome → World → Prop
  | .paused, w => S.Cut w ∧ go w
  | .proceed, w => S.Cut w ∧ go w
  | .verify, w => S.Cut w ∧ Moves S w .verification go

/-- What the VERIFICATION branch owes after its step. -/
def VerDone (S : Spec) (go stay : World → Prop) : VerOutcome → World → Prop
  | .passed, w => S.Cut w ∧ Moves S w .changeReviewGate stay
  | .retry, w => S.Cut w ∧ Moves S w .implementation go
  | .stuck, w => S.Cut w ∧ go w

/-- The steps leave the run where it is: same row but for its pointer and
version. -/
def Steady (w w' : World) : Prop :=
  w'.run.id = w.run.id ∧ w'.run.tenantId = w.run.tenantId ∧
    w'.run.stage = w.run.stage

theorem Steady.seen {w w' : World} (h : Steady w w') (hw : w.Seen cfg) :
    w'.Seen cfg := by
  obtain ⟨hid, hten, _⟩ := h
  obtain ⟨ht, hi, _, hrow⟩ := hw
  refine ⟨ht, ?_, rfl, ?_⟩
  · rw [hid]; exact hi
  · rw [hten]; exact hrow

theorem FailStep.steady {w w₀ : World} {p : RunProgress}
    {Q : ImplOutcome → World → Prop} (hw : Steady w₀ w)
    (h : FailStep S w p Q) :
    FailStep S w p (fun o w' => Q o w' ∧ Steady w₀ w') where
  saved := h.saved
  paused := fun hs id at' => ⟨h.paused hs id at', hw⟩
  proceed := fun hs => ⟨h.proceed hs, hw⟩

theorem BatchStep.steady {w w₀ : World} {artifact : PlanArtifact}
    {p : RunProgress} {Q : ImplOutcome → World → Prop} (hw : Steady w₀ w)
    (h : BatchStep S cfg w artifact p Q) :
    BatchStep S cfg w artifact p (fun o w' => Q o w' ∧ Steady w₀ w') where
  saved := h.saved
  paused := fun b now t rest hb ht id at' =>
    ⟨h.paused b now t rest hb ht id at', hw⟩
  proceed := fun b now hb ht hn => ⟨h.proceed b now hb ht hn, hw⟩
  verify := fun b now hb ht hn => ⟨h.verify b now hb ht hn, hw⟩

theorem ImplStep.steady {w : World} {artifact : PlanArtifact}
    {p : RunProgress} {Q : ImplOutcome → World → Prop}
    (h : ImplStep S cfg w artifact p Q) :
    ImplStep S cfg w artifact p (fun o w' => Q o w' ∧ Steady w w') where
  loaded := h.loaded
  verify := fun hn hs => ⟨h.verify hn hs, rfl, rfl, rfl⟩
  may := h.may
  mayBatch := h.mayBatch
  fixupRaised := fun hn hs st x hx =>
    ⟨(h.fixupRaised hn hs st x hx).1,
      (h.fixupRaised hn hs st x hx).2.steady ⟨rfl, rfl, rfl⟩⟩
  fixup := fun hn hs st d hd =>
    ⟨(h.fixup hn hs st d hd).1, (h.fixup hn hs st d hd).2, rfl, rfl, rfl⟩
  batchRaised := fun f b hn hb x hx =>
    ⟨(h.batchRaised f b hn hb x hx).1,
      (h.batchRaised f b hn hb x hx).2.steady ⟨rfl, rfl, rfl⟩⟩
  batch := fun f b hn hb d hd =>
    ⟨(h.batch f b hn hb d hd).1,
      (h.batch f b hn hb d hd).2.steady ⟨rfl, rfl, rfl⟩⟩

theorem VerStep.steady {w : World} {Q : VerOutcome → World → Prop}
    (h : VerStep S w Q) :
    VerStep S w (fun o w' => Q o w' ∧ Steady w w') where
  may := h.may
  called := h.called
  loaded := h.loaded
  passed := fun res p hok hp hpass =>
    ⟨h.passed res p hok hp hpass, rfl, rfl, rfl⟩
  failed := h.failed
  stuck := fun res p hok hp hpass hs id at' =>
    ⟨h.stuck res p hok hp hpass hs id at', rfl, rfl, rfl⟩
  retry := fun res p hok hp hpass hs =>
    ⟨h.retry res p hok hp hpass hs, rfl, rfl, rfl⟩

-- ==== one turn

/-- What one turn of the drive loop owes, stage by stage. -/
structure Turns (S : Spec) (cfg : Config) (w : World)
    (go stay : World → Prop) : Prop where
  intake : w.run.stage = .intake → Moves S w .research go
  research : w.run.stage = .research → Moves S w .planAuthoring go
  mayAuthor : w.run.stage = .planAuthoring → S.mayAuthor w := by
    exact fun _ => trivial
  author : w.run.stage = .planAuthoring → ∀ out,
    S.okEvent w (.authored out) →
      S.Cut (w.record (.authored out)) ∧
      ∀ artifact, Generated cfg w out ("plan for " ++ w.run.jiraKey) artifact →
        S.Cut ((w.record (.authored out)).planSaved artifact) ∧
        Moves S ((w.record (.authored out)).planSaved artifact)
          .planApprovalGate stay
  implement : w.run.stage = .implementation → ∀ artifact p,
    w.plans.latest = some artifact → w.Current p →
      ImplStep S cfg w artifact p (ImplDone S go)
  verify : w.run.stage = .verification → VerStep S w (VerDone S go stay)
  package : w.run.stage = .packaging → cfg.packaging = true →
    S.mayPackage w ∧ (S.okEvent w .packaged →
      S.Cut (w.record .packaged) ∧
      Moves S (w.record .packaged) .retrospective go)
  unpackaged : w.run.stage = .packaging → cfg.packaging = false →
    Moves S w .retrospective go
  retrospective : w.run.stage = .retrospective → Moves S w .completed stay

theorem wp_driveBody {run : Run} {go stay : World → Prop} {w : World}
    (hrun : w.run = run) (hseen : w.Seen cfg) (hcut : S.Cut w)
    (hstay : stay w) (h : w.NoPending → Turns S cfg w go stay) :
    S.Wp cfg (.loop run) (Turned cfg go stay) (driveBody cfg run) w := by
  subst hrun
  unfold driveBody
  split
  · exact hcut
  · exact ⟨final_paused, hstay⟩
  · next hpend =>
    have ht := h hpend
    split
    · next hst => exact wp_moveAgain rfl hseen hcut (ht.intake hst)
    · next hst =>
      refine wp_seq ?_
      unfold Orchestrator.research
      split
      · refine wp_seq (wp_quiet rfl hcut fun r => ?_)
        cases r with
        | returned u => exact wp_moveAgain rfl hseen hcut (ht.research hst)
        | raised x => exact hcut
      · exact wp_moveAgain rfl hseen hcut (ht.research hst)
    · next hst =>
      refine wp_seq ?_
      unfold Orchestrator.authorPlan
      refine wp_seq (wp_runContext hcut fun ctx => ?_)
      refine wp_seq ⟨hcut, ht.mayAuthor hst, fun r hr => ?_⟩
      cases r with
      | raised x => exact hcut
      | returned out =>
        obtain ⟨hc, hgen⟩ := ht.author hst out (hr _ rfl)
        refine wp_seq (wp_generateAndStorePlan rfl hc fun artifact ha => ?_)
        obtain ⟨hc', hm⟩ := hgen artifact ha
        exact wp_moveDone (fun _ _ => final_paused) rfl hc' hm
    · exact ⟨final_paused, hstay⟩
    · next hst =>
      refine wp_seq ((wp_implementationStep rfl hcut
        fun a p ha hp => (ht.implement hst a p ha hp).steady).mono ?_)
      rintro o w' ⟨hdone, hsteady⟩
      have hseen' := hsteady.seen hseen
      unfold afterImplementation
      cases o with
      | paused =>
        exact wp_seq (wp_getRun hsteady.1 hseen' hdone.1
          ⟨rfl, hseen', hdone.2⟩)
      | proceed =>
        exact wp_seq (wp_getRun hsteady.1 hseen' hdone.1
          ⟨rfl, hseen', hdone.2⟩)
      | verify =>
        refine wp_seq (wp_getRun hsteady.1 hseen' hdone.1 ?_)
        show S.Wp cfg _ _ (if w'.run.stage ≠ .verification then _ else _) w'
        rw [if_pos (by rw [hsteady.2.2, hst]; decide)]
        exact wp_moveAgain rfl hseen' hdone.1 hdone.2
    · next hst =>
      refine wp_seq ((wp_verificationStep rfl hcut
        (ht.verify hst).steady).mono ?_)
      rintro o w' ⟨hdone, hsteady⟩
      have hseen' := hsteady.seen hseen
      unfold afterVerification
      cases o with
      | passed =>
        refine wp_seq (wp_getRun hsteady.1 hseen' hdone.1 ?_)
        exact wp_moveDone (fun _ _ => final_paused) rfl hdone.1
          hdone.2
      | retry =>
        refine wp_seq (wp_getRun hsteady.1 hseen' hdone.1 ?_)
        exact wp_moveAgain rfl hseen' hdone.1 hdone.2
      | stuck =>
        exact wp_seq (wp_getRun hsteady.1 hseen' hdone.1
          ⟨rfl, hseen', hdone.2⟩)
    · exact ⟨final_paused, hstay⟩
    · next hst =>
      refine wp_seq ?_
      unfold Orchestrator.package
      split
      · next hcfg =>
        obtain ⟨hmay, hok⟩ := ht.package hst hcfg
        refine wp_seq ⟨hcut, hmay, fun r hr => ?_⟩
        obtain ⟨hc, hm⟩ := hok (hr _ rfl)
        cases r with
        | returned u => exact wp_moveAgain rfl hseen hc hm
        | raised x => exact hc
      · next hcfg =>
        exact wp_moveAgain rfl hseen hcut
          (ht.unpackaged hst (by simpa using hcfg))
    · next hst =>
      refine wp_moveDone (fun run hrun => final_terminal ?_) rfl hcut
        (ht.retrospective hst)
      rw [hrun]
      decide
    · next hst => exact ⟨final_terminal (by rw [hst]; decide), hstay⟩
    · next hst => exact ⟨final_terminal (by rw [hst]; decide), hstay⟩

-- ==== public calls

/-- The world after `resolve_checkpoint` acknowledged an elicitation. -/
def acked (w : World) (e : Elicitation) : World :=
  match w.progress, e.signature with
  | some p, some signature => w.progressSaved (p.acknowledge signature)
  | _, _ => w

/-- The world after an elicitation was answered. -/
def answeredBy (w : World) (e : Elicitation) (decision : String)
    (note : Option String) (now : Time) : World :=
  w.pointed (.elicitation (e.resolve decision note now))

@[simp] theorem acked_run (w : World) (e : Elicitation) :
    (acked w e).run = w.run := by
  unfold acked
  split <;> rfl

@[simp] theorem acked_plans (w : World) (e : Elicitation) :
    (acked w e).plans = w.plans := by
  unfold acked
  split <;> rfl

@[simp] theorem acked_hist (w : World) (e : Elicitation) :
    (acked w e).hist = w.hist := by
  unfold acked
  split <;> rfl

theorem acked_progress_none {w : World} {e : Elicitation}
    (h : w.progress = none) : (acked w e).progress = none := by
  unfold acked
  rw [h]
  exact h

theorem noPending_answeredBy (w : World) (e : Elicitation)
    (decision : String) (note : Option String) (now : Time) :
    (answeredBy w e decision note now).NoPending := by
  simp [World.NoPending, pendingCheckpoint, answeredBy, World.pointed,
    Elicitation.resolve]

theorem acked_current {w : World} {e : Elicitation} {q : RunProgress}
    (h : (acked w e).Current q) :
    w.Current q ∨ ∃ p sig, w.Current p ∧ q = p.acknowledge sig := by
  unfold acked at h
  split at h
  · next p sig hp hs =>
    rcases h with hq | ⟨hq, _⟩
    · exact Or.inr ⟨p, sig, Or.inl hp, (Option.some.inj hq).symm⟩
    · cases hq
  · exact Or.inl h

/-- What `approve_plan` owes in the world its call was recorded in. -/
structure PlanCall (S : Spec) (cfg : Config) (w : World) (decision : String)
    (feedback : String) : Prop where
  approved : decision = "approve" →
    S.Cut (w.moved .implementation) ∧ ∀ now,
      S.inv ((w.moved .implementation).progressSaved
        (.fresh w.run.id w.run.currentAttemptId now))
  reattempted : decision = "request_changes" → ∀ id,
    S.Cut (w.reattempted id)
  replanned : decision = "request_changes" → ∀ id out,
    S.okEvent (w.reattempted id) (.replanned feedback out) →
      S.Cut ((w.reattempted id).record (.replanned feedback out)) ∧
      ∀ artifact, Generated cfg (w.reattempted id) out
          ("re-plan: " ++ feedback) artifact →
        S.Cut (((w.reattempted id).record
          (.replanned feedback out)).planSaved artifact) ∧
        S.inv ((((w.reattempted id).record
          (.replanned feedback out)).planSaved artifact).moved
            .planApprovalGate)
  rejected : decision = "reject" → S.inv (w.moved .abandoned)

/-- What `approve_change_review` owes. -/
structure ReviewCall (S : Spec) (w : World) (decision : String) : Prop where
  approved : decision = "approve" → S.inv (w.moved .packaging)
  changes : decision = "request_changes" → S.inv (w.moved .implementation)
  rejected : decision = "reject" → S.inv (w.moved .abandoned)

/-- What `resolve_checkpoint` owes for a pending elicitation. -/
structure ResolveCall (S : Spec) (w : World) (e : Elicitation)
    (decision : String) (note : Option String) (now : Time) : Prop where
  answered : S.Cut (answeredBy w e decision note now)
  stopped : decision = "stop" →
    w.run.stage.isLegalTransition .abandoned = true →
      S.inv ((answeredBy w e decision note now).moved .abandoned)
  acknowledged : decision ≠ "stop" →
    S.Cut (acked (answeredBy w e decision note now) e)
  extended : decision = "extend_scope" → e.trigger = .risk →
    ∀ artifact at', w.plans.latest = some artifact →
      S.inv ((acked (answeredBy w e decision note now) e).planSaved
        (artifact.extendScope e.details.outOfScopeFiles at'))
  continued : decision ≠ "stop" →
    ¬ (decision = "extend_scope" ∧ e.trigger = .risk) →
      S.inv (acked (answeredBy w e decision note now) e)

/-- A spec the orchestrator keeps: what its invariant owes at a stop, at
a call, at a turn and at each human decision. -/
structure Keeps (S : Spec) (cfg : Config) : Prop where
  cut : ∀ w, S.inv w → S.Cut w
  called : ∀ w c, S.inv w → S.callOk w c → S.inv (w.record (.called c))
  turn : ∀ w, S.inv w → w.NoPending → Turns S cfg w S.inv S.inv
  plan : ∀ w id decision feedback, S.inv w →
    S.callOk w (.approvePlan id decision feedback) → w.run.id = id →
    w.run.stage = .planApprovalGate →
      PlanCall S cfg (w.record (.called (.approvePlan id decision feedback)))
        decision (feedback.getD "")
  review : ∀ w id decision feedback, S.inv w →
    S.callOk w (.approveChangeReview id decision feedback) → w.run.id = id →
    w.run.stage = .changeReviewGate →
      ReviewCall S
        (w.record (.called (.approveChangeReview id decision feedback)))
        decision
  resolve : ∀ w id decision note e now, S.inv w →
    S.callOk w (.resolveCheckpoint id decision note) → w.run.id = id →
    pendingCheckpoint w.run = .ok (some e) →
      ResolveCall S
        (w.record (.called (.resolveCheckpoint id decision note))) e decision
        note now

variable (hk : Keeps S cfg)
include hk

theorem wp_enter {w : World} (hseen : w.Seen cfg) (hinv : S.inv w) :
    S.Wp cfg ph (Turned cfg S.inv S.inv) (drive cfg w.run.id) w :=
  wp_seq (wp_getRun rfl hseen (hk.cut w hinv) ⟨rfl, hseen, hinv⟩)

theorem wp_leave {w : World} {run : Run} {next : Stage} {c : Call}
    {f : Run → RunStatus} (hf : ∀ run : Run, run.stage = next → (f run).Final)
    (hrun : w.run = run) (hcut : S.Cut w)
    (h : w.run.stage.isLegalTransition next = true → S.inv (w.moved next)) :
    S.Wp cfg (.entry c) (Turned cfg S.inv S.inv) (do
      let run ← transition cfg run next
      pure (.done (f run))) w :=
  wp_seq (wp_transition hrun hcut trivial fun hl =>
    ⟨hk.cut _ (h hl), hf _ rfl, h hl⟩)

omit hk in
theorem final_abandoned (run : Run) (h : run.stage = .abandoned) :
    (status run false none).Final :=
  final_terminal (by rw [h]; decide)

theorem wp_approvePlan {runId decision : String} {feedback : Option String}
    {c : Call} {w : World} (hinv : S.inv w)
    (h : w.run.id = runId → w.run.stage = .planApprovalGate →
      PlanCall S cfg w decision (feedback.getD "")) :
    S.Wp cfg (.entry c) (Turned cfg S.inv S.inv)
      (approvePlan cfg runId decision feedback) w := by
  have hcut := hk.cut w hinv
  unfold approvePlan
  refine wp_seq (wp_getRun_any hcut fun hseen hid => ?_)
  split
  · exact hcut
  · next hgate =>
    have hp := h hid (not_not.1 hgate)
    split
    · next hd =>
      obtain ⟨hc, hi⟩ := hp.approved hd
      refine wp_seq (wp_transition rfl hcut trivial fun _ => ⟨hc, ?_⟩)
      unfold startNew
      refine wp_seq (wp_seq (wp_quiet rfl hc fun now => ?_))
      refine wp_seq (wp_saveProgress hc ?_)
      exact wp_enter hk hseen (hi now)
    · split
      · next hd =>
        unfold requestPlanChanges
        refine wp_seq (wp_appendAttempt rfl hcut (fun id => ?_) ?_)
        · have hc := hp.reattempted hd id
          refine wp_seq (wp_getRun rfl hseen hc ?_)
          unfold rePlan
          refine wp_seq (wp_seq (wp_runContext hc fun ctx => ?_))
          refine wp_seq ⟨hc, trivial, fun r hr => ?_⟩
          cases r with
          | raised x => exact hc
          | returned out =>
            obtain ⟨hc', hgen⟩ := hp.replanned hd id out (hr _ rfl)
            refine wp_seq (wp_generateAndStorePlan rfl hc'
              fun artifact ha => ?_)
            obtain ⟨hc'', hi⟩ := hgen artifact ha
            exact wp_leave hk (fun _ _ => final_paused) rfl hc''
              fun _ => hi
        · intro res hres
          split
          · next id => exact absurd rfl (hres id)
          · exact hcut
      · split
        · next hd =>
          exact wp_leave hk final_abandoned rfl hcut fun _ =>
            hp.rejected hd
        · exact hcut

theorem wp_approveChangeReview {runId decision : String}
    (feedback : Option String) {c : Call} {w : World} (hinv : S.inv w)
    (h : w.run.id = runId → w.run.stage = .changeReviewGate →
      ReviewCall S w decision) :
    S.Wp cfg (.entry c) (Turned cfg S.inv S.inv)
      (approveChangeReview cfg runId decision feedback) w := by
  have hcut := hk.cut w hinv
  unfold approveChangeReview
  refine wp_seq (wp_getRun_any hcut fun hseen hid => ?_)
  split
  · exact hcut
  · next hgate =>
    have hp := h hid (not_not.1 hgate)
    split
    · next hd =>
      have hi := hp.approved hd
      exact wp_seq (wp_transition rfl hcut trivial fun _ =>
        ⟨hk.cut _ hi, wp_enter hk hseen hi⟩)
    · split
      · next hd =>
        have hi := hp.changes hd
        exact wp_seq (wp_transition rfl hcut trivial fun _ =>
          ⟨hk.cut _ hi, wp_enter hk hseen hi⟩)
      · split
        · next hd =>
          exact wp_leave hk final_abandoned rfl hcut fun _ =>
            hp.rejected hd
        · exact hcut

omit hk in
theorem wp_acknowledge {run : Run} {e : Elicitation} {Q : Unit → World → Prop}
    {w : World} (hcut : S.Cut w) (h : Q () (acked w e)) :
    S.Wp cfg ph Q (acknowledge run e) w := by
  unfold acknowledge
  refine wp_seq (wp_quiet rfl hcut fun x => ?_)
  have hload : (w.exec (.loadProgress run.id) x).2 = w.progress := rfl
  rw [hload]
  unfold acked at h
  cases hp : w.progress with
  | none =>
    rw [hp] at h
    exact h
  | some p =>
    cases hs : e.signature with
    | none =>
      rw [hp, hs] at h
      exact h
    | some signature =>
      rw [hp, hs] at h
      exact wp_saveProgress hcut h

omit hk in
theorem wp_extendDeclaredScope {run : Run} {files : List String}
    {Q : Unit → World → Prop} {w : World} (hcut : S.Cut w)
    (h : ∀ artifact at', w.plans.latest = some artifact →
      Q () (w.planSaved (artifact.extendScope files at'))) :
    S.Wp cfg ph Q (extendDeclaredScope run files) w := by
  unfold extendDeclaredScope
  refine wp_seq (wp_quiet rfl hcut fun x => ?_)
  have hload : (w.exec (.loadLatest run.id) x).2 = w.plans.latest := rfl
  rw [hload]
  cases hplan : w.plans.latest with
  | none => exact hcut
  | some artifact =>
    refine wp_seq (wp_quiet rfl hcut fun at' => ?_)
    exact wp_savePlan hcut (h artifact _ hplan)

theorem wp_resolveCheckpoint {runId decision : String} {note : Option String}
    {c : Call} {w : World} (hinv : S.inv w)
    (h : ∀ e now, w.run.id = runId →
      pendingCheckpoint w.run = .ok (some e) →
      ResolveCall S w e decision note now) :
    S.Wp cfg (.entry c) (Turned cfg S.inv S.inv)
      (resolveCheckpoint cfg runId decision note) w := by
  have hcut := hk.cut w hinv
  unfold resolveCheckpoint
  refine wp_seq (wp_getRun_any hcut fun hseen hid => ?_)
  split
  · exact hcut
  · exact hcut
  · next e hpend =>
    refine wp_seq (wp_quiet rfl hcut fun now => ?_)
    have hr := h e now hid hpend
    refine wp_seq (wp_writeCheckpointPointer rfl hcut ?_)
    split
    · next hd =>
      exact wp_leave hk final_abandoned rfl hr.answered (hr.stopped hd)
    · next hd =>
      refine wp_seq (wp_acknowledge hr.answered ?_)
      have hrun := acked_run (answeredBy w e decision note now) e
      have hplans := acked_plans (answeredBy w e decision note now) e
      have hseen' : (acked (answeredBy w e decision note now) e).Seen cfg := by
        unfold World.Seen
        rw [hrun]
        exact hseen
      split
      · next hext =>
        refine wp_seq (wp_extendDeclaredScope (hr.acknowledged hd)
          fun artifact at' hplan => ?_)
        have hlatest : w.plans.latest = some artifact :=
          (congrArg PlanStore.latest hplans).symm.trans hplan
        have hi := hr.extended hext.1 hext.2 artifact at' hlatest
        exact wp_seq (wp_getRun (congrArg (·.id) hrun) hseen'
          (hk.cut _ hi) ⟨rfl, hseen', hi⟩)
      · next hext =>
        have hi := hr.continued hd hext
        exact wp_seq (wp_getRun (congrArg (·.id) hrun) hseen'
          (hk.cut _ hi) ⟨rfl, hseen', hi⟩)

-- ==== whole runs

/-- The loop's head: the turn works on the stored row. -/
def Head (S : Spec) (cfg : Config) (run : Run) (w : World) : Prop :=
  w.run = run ∧ w.Seen cfg ∧ S.inv w

omit hk in
theorem post_of_turned (hk : Keeps S cfg) (c : Turn) (w : World)
    (h : Turned cfg S.inv S.inv c w) :
    (machine cfg).Post S.contract (Head S cfg) c w := by
  cases c with
  | again run => exact ⟨hk.cut w h.2.2, h⟩
  | done st => exact ⟨hk.cut w h.2, h.2⟩

theorem wp_entry {c : Call} {w : World} (hinv : S.inv w)
    (hcall : S.callOk w c) :
    S.Wp cfg (.entry c) (Turned cfg S.inv S.inv) (entry cfg c)
      (w.record (.called c)) := by
  have hinv' := hk.called w c hinv hcall
  cases c with
  | resumeRun id =>
    exact wp_seq (wp_getRun_any (hk.cut _ hinv') fun hseen _ =>
      ⟨rfl, hseen, hinv'⟩)
  | approvePlan id decision feedback =>
    exact wp_approvePlan hk hinv' fun hid hst =>
      hk.plan w id decision feedback hinv hcall hid hst
  | approveChangeReview id decision feedback =>
    exact wp_approveChangeReview hk feedback hinv' fun hid hst =>
      hk.review w id decision feedback hinv hcall hid hst
  | resolveCheckpoint id decision note =>
    exact wp_resolveCheckpoint hk hinv' fun e now hid hpend =>
      hk.resolve w id decision note e now hinv hcall hid hpend

/-- A run's conditions cover a spec's assumptions. -/
abbrev Covers {Pid : Type} (S : Spec) (cfg : Config)
    (cond : State Pid → Act Pid → Prop) : Prop :=
  Machine.Meets (machine cfg) S.contract cond

omit hk in
theorem covers_of_kept {Pid : Type} {cond : State Pid → Act Pid → Prop}
    (h : ∀ s a, cond s a → S.toTerms.Kept s a) : S.Covers cfg cond where
  call := fun s p c hc _ => h s (.call p c) hc
  op := by
    intro s p ans pr e k x hc hp hprog hx ev hev
    refine (h s (.step p ans) hc).1 ev ?_
    obtain ⟨ph, lg, prog⟩ := pr
    obtain rfl : prog = .op e k := hprog
    simp only [eventAt, hp]
    rw [show decode e ans = some x from hx]
    exact hev
  raised := by
    intro s p ans pr x hc hp hprog
    refine (h s (.step p ans) hc).2 ?_
    obtain ⟨ph, lg, prog⟩ := pr
    obtain rfl : prog = .raise x := hprog
    simp only [raising, hp]
  crash := fun s p pr hc _ => h s (.crash p) hc

omit hk in
theorem covers_free {Pid : Type} (h : S.toTerms = {}) :
    S.Covers cfg (fun (_ : State Pid) (_ : Act Pid) => True) := by
  refine covers_of_kept fun s a _ => ?_
  rw [h]
  cases a with
  | call p c => exact trivial
  | step p ans => exact ⟨fun _ _ => trivial, fun _ => trivial⟩
  | crash p => exact trivial

theorem Keeps.wp_call {w : World} {c : Call} (hinv : S.inv w)
    (hcall : S.callOk w c) :
    S.Wp cfg (.entry c) ((machine cfg).Post S.contract (Head S cfg))
      (entry cfg c) (w.record (.called c)) :=
  (wp_entry hk hinv hcall).mono (post_of_turned hk)

theorem Keeps.wp_turn {run : Run} {w : World} (h : Head S cfg run w) :
    S.Wp cfg (.loop run) ((machine cfg).Post S.contract (Head S cfg))
      (driveBody cfg run) w := by
  obtain ⟨hrun, hseen, hinv⟩ := h
  exact (wp_driveBody hrun hseen (hk.cut w hinv) hinv
    (hk.turn w hinv)).mono (post_of_turned hk)

/-- Every state of every sequential run that meets a kept spec's
conditions is settled. -/
theorem Keeps.settled {Pid : Type} [DecidableEq Pid] [Subsingleton Pid]
    {init : World → Prop} {cond : State Pid → Act Pid → Prop}
    (hinit : ∀ w, init w → S.inv w) (hcover : Covers S cfg cond)
    {s : State Pid} (hs : (machine cfg).Reach init cond s) :
    Machine.Settled (machine cfg) S.contract (Head S cfg) s :=
  Machine.Reach.sequential hinit hcover (fun _ _ => hk.wp_call)
    (fun _ _ => hk.wp_turn) hs

end Spec

end SdlcOs.Orchestrator
