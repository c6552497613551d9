/-
Cost accounting: the spend in the progress record, the amounts shipped to
the ledger, and the diffs the backend returned.

# Three books

`_implementation_step` ships one amount per subtask of a batch and
`evaluate_checkpoints` compares `progress.spend_usd` with the cost
ceiling. `Agrees` says that the two agree, that the ledger counts every
diff once, and that the warning follows. `metered` is the orchestrator
with the ledger beside its world; it is the orchestrator's own system
when the ledger is forgotten (`metered_forgets`).

# What the code does

Nothing ever adds to `spend_usd`, and a fix-up's diff is not shipped. So
the books agree as long as they are empty, along every run in which no
backend call returns a diff that changes a line, and a first such diff
parts them (`breaks`).

# Durability

The ledger outlives every process here, as the source says a real
deployment keeps it; the default store dies with its process, which only
takes amounts away from it.
-/
import Mathlib.Algebra.Order.BigOperators.Group.List
import Mathlib.Algebra.Order.Field.Rat
import Mathlib.Algebra.Order.Ring.Cast
import SdlcOs.Effects.Flow
import SdlcOs.Observability.Metrics
import SdlcOs.Proofs.ProgressRace

namespace SdlcOs.Orchestrator.Cost

open Effects
open Effects.Prog (Carries carries_bind carries_each)
open Observability (CostMetricStore)
open Registry (Stage Result ErrorInfo)

-- ==== the machine

/-- What a request does to the ledger. -/
def note (m : CostMetricStore) : Req → CostMetricStore
  | .observe (.recordCostIncrement _ runId _ unitId amountUsd) =>
    (m.recordCostIncrement runId unitId amountUsd).1
  | _ => m

/-- The orchestrator with its ledger. -/
def metered (cfg : Config) :
    Machine Resp Env Answer (World × CostMetricStore) Err Call Run RunStatus :=
  (machine cfg).beside note

/-- A created run and an empty ledger. -/
def Starts (cfg : Config) (w : World × CostMetricStore) : Prop :=
  Initial cfg w.1 ∧ w.2 = .empty

/-- States of the metered system. -/
abbrev Metered (Pid : Type) : Type :=
  Sys Resp (World × CostMetricStore) Err Call Run RunStatus Pid

/-- The metered system is the orchestrator's own, with the ledger
forgotten. -/
theorem metered_forgets {Pid : Type} [DecidableEq Pid] {cfg : Config}
    {s : Metered Pid}
    (hs : (metered cfg).Reach (Starts cfg) (fun _ _ => True) s) :
    (machine cfg).Reach (Initial cfg) (fun _ _ => True)
      (Machine.forget s) :=
  Machine.Reach.forget (fun _ h => h.1) (fun _ _ _ => trivial) hs

-- ==== the three books

/-- The amount a diff is accounted at. -/
def unitCost (diff : DiffOutput) : ℚ := (diff.linesChanged : ℚ) / 100

/-- The diffs that an implementation call returned. -/
def diffsOf : Event → List DiffOutput
  | .implemented _ _ (.returned diffs) => diffs
  | _ => []

/-- The cost of every diff returned so far. -/
def returnedUsd (hist : List Event) : ℚ :=
  ((hist.flatMap diffsOf).map unitCost).sum

/-- The books agree. -/
structure Agrees (w : World) (m : CostMetricStore) : Prop where
  spend : ∀ p, w.progress = some p → p.spendUsd = m.cumulativeCost w.run.id
  counted : m.cumulativeCost w.run.id = returnedUsd w.hist
  warned : ∀ p, w.progress = some p → ∀ scope budget now,
    budget.costCeilingUsd * timeCostWarningFraction ≤
      m.cumulativeCost w.run.id →
    ∃ t ∈ evaluateCheckpoints p.diffStats scope budget (p.elapsedMinutes now)
      p.spendUsd p.consecutiveSameStageFailures, t.kind = .timeCost

/-- A record whose spend is the shipped cost warns when the shipped cost
reaches the threshold. -/
theorem warns {p : RunProgress} {shipped : ℚ} (hspend : p.spendUsd = shipped)
    (scope : List String) (budget : Budget) (now : Time)
    (hreach : budget.costCeilingUsd * timeCostWarningFraction ≤ shipped) :
    ∃ t ∈ evaluateCheckpoints p.diffStats scope budget (p.elapsedMinutes now)
      p.spendUsd p.consecutiveSameStageFailures, t.kind = .timeCost := by
  have hcond : p.elapsedMinutes now ≥
        budget.wallClockMinutes * timeCostWarningFraction ∨
      p.spendUsd ≥ budget.costCeilingUsd * timeCostWarningFraction := by
    rw [hspend]
    exact Or.inr hreach
  have hfires : (checkTimeCost (p.elapsedMinutes now) p.spendUsd
      budget).isSome = true := by
    simp only [checkTimeCost]
    rw [if_pos hcond]
    rfl
  obtain ⟨t, ht⟩ := Option.isSome_iff_exists.1 hfires
  exact ⟨t, mem_evaluateCheckpoints.2 (Or.inr (Or.inr (Or.inl ht))),
    checkTimeCost_kind ht⟩

-- ==== while nothing costs

/-- The answers of a run in which nothing has cost anything. -/
def Free : (e : Req) → Resp e → Prop
  | .loadProgress _, r => ∀ p, r = some p → p.spendUsd = 0
  | .implementSubtask .., r => ∀ d, r = .returned d → d.linesChanged = 0
  | .implementSubtasksParallel .., r =>
    ∀ ds, r = .returned ds → ∀ d ∈ ds, d.linesChanged = 0
  | _, _ => True

/-- The requests that keep it so. -/
def Cheap : Req → Prop
  | .saveProgress p => p.spendUsd = 0
  | .observe (.recordCostIncrement _ _ _ _ amountUsd) => amountUsd = 0
  | _ => True

/-- Code that makes only cheap requests as long as the answers are
free. -/
abbrev Quiet {α : Type} (m : Code α) : Prop :=
  Carries Free Cheap (fun _ => True) m

section Quiet

variable {cfg : Config} {α β : Type}

theorem quiet_bind {m : Code α} {f : α → Code β} (hm : Quiet m)
    (hf : ∀ a, Quiet (f a)) : Quiet (m >>= f) :=
  carries_bind (hm.mono fun a _ => hf a)

theorem quiet_ask {e : Req} (he : Cheap e) : Quiet (ask e) :=
  ⟨he, fun _ _ => trivial⟩

theorem quiet_getRun {runId : String} : Quiet (getRun cfg runId) := by
  unfold getRun
  refine quiet_bind (quiet_ask trivial) fun r => ?_
  cases r <;> exact trivial

theorem quiet_observe {o : Observation} (ho : Cheap (.observe o)) :
    Quiet (observe cfg o) := by
  unfold observe
  split
  · refine quiet_bind (quiet_ask ho) fun r => ?_
    cases r <;> exact trivial
  · exact trivial

theorem quiet_transition {run : Run} {next : Stage} :
    Quiet (transition cfg run next) := by
  unfold transition
  refine quiet_bind (quiet_ask trivial) fun r => ?_
  cases r with
  | ok updated => exact quiet_bind (quiet_observe trivial) fun _ => trivial
  | empty => exact trivial
  | fail err => exact trivial

theorem quiet_writeCheckpointPointer {run : Run} {ptr : Pointer} :
    Quiet (writeCheckpointPointer cfg run ptr) := by
  unfold writeCheckpointPointer
  refine quiet_bind (quiet_ask trivial) fun r => ?_
  cases r <;> exact trivial

theorem quiet_runContext {run : Run} : Quiet (runContext run) := by
  unfold runContext
  exact quiet_bind (quiet_ask trivial) fun _ => trivial

theorem quiet_generateAndStorePlan {run : Run} {out : PlanOutput}
    {text : String} : Quiet (generateAndStorePlan cfg run out text) := by
  unfold generateAndStorePlan
  split
  · exact trivial
  · refine quiet_bind (quiet_ask trivial) fun _ => ?_
    refine quiet_bind (quiet_ask trivial) fun _ => ?_
    split
    · exact trivial
    · split
      · refine quiet_bind (quiet_observe trivial) fun _ => ?_
        exact quiet_ask trivial
      · exact quiet_ask trivial

theorem quiet_extendDeclaredScope {run : Run} {files : List String} :
    Quiet (extendDeclaredScope run files) := by
  unfold extendDeclaredScope
  refine quiet_bind (quiet_ask trivial) fun r => ?_
  cases r with
  | none => exact trivial
  | some artifact =>
    refine quiet_bind (quiet_ask trivial) fun _ => ?_
    exact quiet_ask trivial

theorem quiet_alertOnTriggers {run : Run}
    {triggers : List CheckpointTrigger} :
    Quiet (alertOnTriggers cfg run triggers) :=
  carries_each fun _ _ => quiet_observe trivial

theorem quiet_pauseAt {run : Run} {t : CheckpointTrigger} :
    Quiet (pauseAt cfg run t) := by
  unfold pauseAt
  refine quiet_bind (quiet_ask trivial) fun _ => ?_
  refine quiet_bind (quiet_ask trivial) fun _ => ?_
  exact quiet_bind quiet_writeCheckpointPointer fun _ => trivial

theorem carries_startNew {run : Run} :
    Carries Free Cheap (fun p => p.spendUsd = 0) (startNew run) := by
  unfold startNew
  exact ⟨trivial, fun now _ => ⟨rfl, fun _ _ => rfl⟩⟩

theorem carries_loadOrStart {run : Run} :
    Carries Free Cheap (fun p => p.spendUsd = 0) (loadOrStart run) := by
  unfold loadOrStart
  refine ⟨trivial, fun r hr => ?_⟩
  cases r with
  | some p => exact hr p rfl
  | none => exact carries_startNew

-- ----------------------------------------------------- the two steps

variable {run : Run} {artifact : PlanArtifact} {progress : RunProgress}

theorem quiet_handleImplementationFailure {x : Exn}
    (hp : progress.spendUsd = 0) :
    Quiet (handleImplementationFailure cfg run progress artifact x) := by
  unfold handleImplementationFailure
  refine quiet_bind (quiet_ask hp) fun _ => ?_
  refine quiet_bind (quiet_observe trivial) fun _ => ?_
  split
  · exact trivial
  · refine quiet_bind (quiet_ask trivial) fun _ => ?_
    refine quiet_bind quiet_alertOnTriggers fun _ => ?_
    split
    · exact quiet_bind quiet_pauseAt fun _ => trivial
    · exact trivial

theorem carries_dispatch {ctx : RunContext} {subtasks : List SubTask} :
    Carries Free Cheap
      (fun r => ∀ ds, r = .returned ds → ∀ d ∈ ds, d.linesChanged = 0)
      (dispatch ctx subtasks) := by
  unfold dispatch
  split
  · intro ds h
    cases h
  · refine ⟨trivial, fun r hr => ?_⟩
    cases r with
    | returned diff =>
      intro ds h d hd
      injection h with h
      subst h
      obtain rfl := List.mem_singleton.1 hd
      exact hr d rfl
    | raised x =>
      intro ds h
      cases h
  · exact ⟨trivial, fun r hr => hr⟩

theorem quiet_settleBatch {batch : List SubtaskEntry}
    {diffs : List DiffOutput} (hp : progress.spendUsd = 0)
    (hdiffs : ∀ d ∈ diffs, d.linesChanged = 0) :
    Quiet (settleBatch cfg run artifact progress batch diffs) := by
  have hsaved : (progress.afterBatch (batch.zip diffs)).spendUsd = 0 := by
    rw [RunProgress.afterBatch_spend]
    exact hp
  have hamount : ∀ d ∈ batch.zip diffs,
      ((d.2.linesChanged : ℚ) / 100) = 0 := by
    intro d hd
    rw [hdiffs d.2 (List.of_mem_zip hd).2, Int.cast_zero, zero_div]
  unfold settleBatch
  refine quiet_bind (quiet_ask hsaved) fun _ => ?_
  refine quiet_bind (carries_each fun d hd =>
    quiet_observe (hamount d hd)) fun _ => ?_
  split
  · exact trivial
  · refine quiet_bind (quiet_ask trivial) fun _ => ?_
    refine quiet_bind quiet_alertOnTriggers fun _ => ?_
    split
    · exact quiet_bind quiet_pauseAt fun _ => trivial
    · exact trivial

theorem quiet_implementationStep : Quiet (implementationStep cfg run) := by
  unfold implementationStep
  refine quiet_bind (quiet_ask trivial) fun r => ?_
  cases r with
  | none => exact trivial
  | some artifact =>
    refine carries_bind (carries_loadOrStart.mono fun progress hp => ?_)
    split
    · split
      · exact trivial
      · refine quiet_bind (quiet_ask trivial) fun _ => ?_
        refine quiet_bind quiet_runContext fun _ => ?_
        refine quiet_bind (quiet_ask trivial) fun r => ?_
        cases r with
        | raised x => exact quiet_handleImplementationFailure hp
        | returned diff => exact quiet_bind (quiet_ask hp) fun _ => trivial
    · refine quiet_bind quiet_runContext fun _ => ?_
      refine carries_bind (carries_dispatch.mono fun r hr => ?_)
      cases r with
      | raised x => exact quiet_handleImplementationFailure hp
      | returned diffs => exact quiet_settleBatch hp (hr diffs rfl)

theorem quiet_verificationStep : Quiet (verificationStep cfg run) := by
  unfold verificationStep
  refine quiet_bind quiet_runContext fun _ => ?_
  refine quiet_bind (quiet_ask trivial) fun r => ?_
  cases r with
  | raised x => exact trivial
  | returned result =>
    refine carries_bind (carries_loadOrStart.mono fun progress hp => ?_)
    split
    · exact quiet_bind (quiet_ask hp) fun _ => trivial
    · refine quiet_bind (quiet_ask hp) fun _ => ?_
      refine quiet_bind (quiet_ask trivial) fun _ => ?_
      refine quiet_bind (quiet_ask trivial) fun forSize => ?_
      cases forSize with
      | none => exact trivial
      | some forSize =>
        refine quiet_bind (quiet_ask trivial) fun forRisk => ?_
        cases forRisk with
        | none => exact trivial
        | some forRisk =>
          dsimp only
          split
          · exact trivial
          · refine quiet_bind (quiet_ask trivial) fun _ => ?_
            refine quiet_bind quiet_alertOnTriggers fun _ => ?_
            split
            · exact quiet_bind quiet_pauseAt fun _ => trivial
            · exact trivial

-- ------------------------------------------------- turns and calls

theorem quiet_afterImplementation {outcome : ImplOutcome} :
    Quiet (afterImplementation cfg run outcome) := by
  unfold afterImplementation
  refine quiet_bind quiet_getRun fun _ => ?_
  cases outcome with
  | paused => exact trivial
  | proceed => exact trivial
  | verify =>
    dsimp only
    split
    · exact quiet_bind quiet_transition fun _ => trivial
    · exact trivial

theorem quiet_afterVerification {outcome : VerOutcome} :
    Quiet (afterVerification cfg run outcome) := by
  unfold afterVerification
  refine quiet_bind quiet_getRun fun _ => ?_
  cases outcome with
  | passed => exact quiet_bind quiet_transition fun _ => trivial
  | retry => exact quiet_bind quiet_transition fun _ => trivial
  | stuck => exact trivial

theorem quiet_research : Quiet (research cfg run) := by
  unfold research
  split
  · refine quiet_bind (quiet_ask trivial) fun r => ?_
    cases r <;> exact trivial
  · exact trivial

theorem quiet_package : Quiet (package cfg run) := by
  unfold package
  split
  · refine quiet_bind (quiet_ask trivial) fun r => ?_
    cases r <;> exact trivial
  · exact trivial

theorem quiet_authorPlan : Quiet (authorPlan run) := by
  unfold authorPlan
  refine quiet_bind quiet_runContext fun _ => ?_
  refine quiet_bind (quiet_ask trivial) fun r => ?_
  cases r <;> exact trivial

theorem quiet_rePlan {feedback : String} : Quiet (rePlan run feedback) := by
  unfold rePlan
  refine quiet_bind quiet_runContext fun _ => ?_
  refine quiet_bind (quiet_ask trivial) fun r => ?_
  cases r <;> exact trivial

theorem quiet_driveBody : Quiet (driveBody cfg run) := by
  have hlast : ∀ (next : Stage) (f : Run → Turn),
      Quiet (transition cfg run next >>= fun r => pure (f r)) :=
    fun next f => quiet_bind quiet_transition fun _ => trivial
  unfold driveBody
  split
  · exact trivial
  · exact trivial
  · cases run.stage with
    | intake => exact hlast _ _
    | research => exact quiet_bind quiet_research fun _ => hlast _ _
    | planAuthoring =>
      refine quiet_bind quiet_authorPlan fun _ => ?_
      exact quiet_bind quiet_generateAndStorePlan fun _ => hlast _ _
    | planApprovalGate => exact trivial
    | implementation =>
      exact quiet_bind quiet_implementationStep fun _ =>
        quiet_afterImplementation
    | verification =>
      exact quiet_bind quiet_verificationStep fun _ =>
        quiet_afterVerification
    | changeReviewGate => exact trivial
    | packaging => exact quiet_bind quiet_package fun _ => hlast _ _
    | retrospective => exact hlast _ _
    | completed => exact trivial
    | abandoned => exact trivial

theorem quiet_drive {runId : String} : Quiet (drive cfg runId) := by
  unfold drive
  exact quiet_bind quiet_getRun fun _ => trivial

theorem quiet_abandon : Quiet (transition cfg run .abandoned >>= fun r =>
    pure (Ctl.done (status r false none)) : Code Turn) :=
  quiet_bind quiet_transition fun _ => trivial

theorem quiet_requestPlanChanges {feedback : String} :
    Quiet (requestPlanChanges cfg run feedback) := by
  unfold requestPlanChanges
  refine quiet_bind (quiet_ask trivial) fun r => ?_
  cases r with
  | ok id =>
    refine quiet_bind quiet_getRun fun _ => ?_
    refine quiet_bind quiet_rePlan fun _ => ?_
    refine quiet_bind quiet_generateAndStorePlan fun _ => ?_
    exact quiet_bind quiet_transition fun _ => trivial
  | empty => exact trivial
  | fail err => exact trivial

theorem quiet_approvePlan {runId decision : String}
    {feedback : Option String} :
    Quiet (approvePlan cfg runId decision feedback) := by
  unfold approvePlan
  refine quiet_bind quiet_getRun fun run => ?_
  split
  · exact trivial
  · split
    · refine quiet_bind quiet_transition fun _ => ?_
      refine quiet_bind (carries_startNew.mono fun _ _ => trivial) fun _ => ?_
      exact quiet_drive
    · split
      · exact quiet_requestPlanChanges
      · split
        · exact quiet_abandon
        · exact trivial

theorem quiet_approveChangeReview {runId decision : String}
    (feedback : Option String) :
    Quiet (approveChangeReview cfg runId decision feedback) := by
  unfold approveChangeReview
  refine quiet_bind quiet_getRun fun run => ?_
  split
  · exact trivial
  · split
    · exact quiet_bind quiet_transition fun _ => quiet_drive
    · split
      · exact quiet_bind quiet_transition fun _ => quiet_drive
      · split
        · exact quiet_abandon
        · exact trivial

theorem quiet_acknowledge {pending : Elicitation} :
    Quiet (acknowledge run pending) := by
  unfold acknowledge
  refine ⟨trivial, fun r hr => ?_⟩
  cases r with
  | none => exact trivial
  | some progress =>
    cases pending.signature with
    | none => exact trivial
    | some signature =>
      refine quiet_ask ?_
      show (progress.acknowledge signature).spendUsd = 0
      rw [RunProgress.acknowledge_spend]
      exact hr progress rfl

theorem quiet_resolveCheckpoint {runId decision : String}
    {reply : Option String} :
    Quiet (resolveCheckpoint cfg runId decision reply) := by
  unfold resolveCheckpoint
  refine quiet_bind quiet_getRun fun run => ?_
  split
  · exact trivial
  · exact trivial
  · refine quiet_bind (quiet_ask trivial) fun _ => ?_
    refine quiet_bind quiet_writeCheckpointPointer fun run => ?_
    split
    · exact quiet_abandon
    · refine quiet_bind quiet_acknowledge fun _ => ?_
      split
      · exact quiet_bind quiet_extendDeclaredScope fun _ => quiet_drive
      · exact quiet_drive

end Quiet

-- ==== unspent worlds

/-- The diffs an outside call adds to the history. -/
def newDiffs (e : Req) (x : Env e) : List DiffOutput :=
  (eventOf e x).elim [] diffsOf

theorem exec_diffs (w : World) (e : Req) (x : Env e) :
    (w.exec e x).1.hist.flatMap diffsOf =
      newDiffs e x ++ w.hist.flatMap diffsOf := by
  have hmove : ∀ next, (w.moveEvents next ++ w.hist).flatMap diffsOf =
      w.hist.flatMap diffsOf := by
    intro next
    unfold World.moveEvents
    split <;> rfl
  have hpoint : ∀ ptr, (World.pointerEvents ptr ++ w.hist).flatMap diffsOf =
      w.hist.flatMap diffsOf := by
    intro ptr
    cases ptr with
    | foreign text => rfl
    | elicitation e =>
      unfold World.pointerEvents
      dsimp only
      split <;> rfl
  cases e with
  | transitionStage t id v next =>
    rcases World.exec_transition_inv next x with ⟨res, hsame, _⟩ |
      ⟨_, _, hland⟩
    · rw [hsame]
      rfl
    · rw [hland]
      exact hmove next
  | writeCheckpoint t id v ptr =>
    rcases World.exec_writeCheckpoint_inv ptr x with ⟨res, hsame, _⟩ |
      ⟨_, hland⟩
    · rw [hsame]
      rfl
    · rw [hland]
      exact hpoint ptr
  | authorPlan ctx => cases x <;> rfl
  | rePlan ctx feedback => cases x <;> rfl
  | implementSubtask site ctx st => cases x <;> rfl
  | _ => rfl

theorem newDiffs_frame {e : Req} {x : Env e} (h : newDiffs e x ≠ []) :
    (∀ m, note m e = m) ∧ ∀ w : World, (w.exec e x).1.run = w.run := by
  cases e with
  | implementSubtask site ctx st => exact ⟨fun _ => rfl, fun _ => rfl⟩
  | implementSubtasksParallel ctx sts => exact ⟨fun _ => rfl, fun _ => rfl⟩
  | authorPlan ctx => cases x <;> exact absurd rfl h
  | rePlan ctx feedback => cases x <;> exact absurd rfl h
  | _ => exact absurd rfl h

theorem note_cumulative {e : Req} (he : Cheap e) (m : CostMetricStore)
    (runId : String) :
    (note m e).cumulativeCost runId = m.cumulativeCost runId := by
  cases e with
  | observe o =>
    cases o with
    | recordCostIncrement trace id tenant unit amount =>
      obtain rfl : amount = 0 := he
      exact CostMetricStore.apply_zero ..
    | _ => rfl
  | _ => rfl

/-- Nothing has cost anything. -/
structure Unspent (w : World × CostMetricStore) : Prop where
  spend : ∀ p, w.1.progress = some p → p.spendUsd = 0
  shipped : ∀ runId, w.2.cumulativeCost runId = 0
  diffs : ∀ d ∈ w.1.hist.flatMap diffsOf, d.linesChanged = 0

theorem Unspent.agrees {w : World × CostMetricStore} (h : Unspent w) :
    Agrees w.1 w.2 := by
  have hspend : ∀ p, w.1.progress = some p →
      p.spendUsd = w.2.cumulativeCost w.1.run.id := by
    intro p hp
    rw [h.spend p hp, h.shipped]
  refine ⟨hspend, ?_, fun p hp scope budget now =>
    warns (hspend p hp) scope budget now⟩
  have hzero : ∀ cost ∈ (w.1.hist.flatMap diffsOf).map unitCost,
      cost = 0 := by
    intro cost hcost
    obtain ⟨d, hd, rfl⟩ := List.mem_map.1 hcost
    rw [unitCost, h.diffs d hd, Int.cast_zero, zero_div]
  rw [h.shipped]
  exact (List.sum_eq_zero hzero).symm

/-- A cheap request whose call returned no changed line keeps it so, and
is given a free answer. -/
theorem Unspent.asked {w : World × CostMetricStore} (h : Unspent w)
    {e : Req} {x : Env e} (he : Cheap e)
    (hx : ∀ d ∈ newDiffs e x, d.linesChanged = 0) :
    Unspent ((w.1.exec e x).1, note w.2 e) ∧ Free e (w.1.exec e x).2 := by
  refine ⟨⟨?_, ?_, ?_⟩, ?_⟩
  · by_cases hsave : ∃ p, e = .saveProgress p
    · obtain ⟨p, rfl⟩ := hsave
      intro p' hp'
      obtain rfl := Option.some.inj hp'
      exact he
    · intro p hp
      rw [ProgressRace.exec_progress fun p hp => hsave ⟨p, hp⟩] at hp
      exact h.spend p hp
  · intro runId
    rw [note_cumulative he]
    exact h.shipped runId
  · intro d hd
    rw [exec_diffs] at hd
    rcases List.mem_append.1 hd with hd | hd
    · exact hx d hd
    · exact h.diffs d hd
  · cases e with
    | loadProgress id => exact h.spend
    | implementSubtask site ctx st =>
      intro d hd
      have hret : x = .returned d := hd
      subst hret
      exact hx d (List.mem_singleton.2 rfl)
    | implementSubtasksParallel ctx sts =>
      intro ds hds d hd
      have hret : x = .returned ds := hds
      subst hret
      exact hx d hd
    | _ => exact trivial

-- ==== results

/-- No diff of the event changes a line. -/
def Lineless (ev : Event) : Prop := ∀ d ∈ diffsOf ev, d.linesChanged = 0

instance (ev : Event) : Decidable (Lineless ev) :=
  inferInstanceAs (Decidable (∀ d ∈ diffsOf ev, _))

/-- Runs in which no backend call returns a diff that changes a line. -/
def Unbilled {Pid : Type} (s : Metered Pid) : Act Pid → Prop
  | .step p ans => ∀ ev ∈ eventAt (Machine.forget s) p ans, Lineless ev
  | _ => True

instance {Pid : Type} (s : Metered Pid) (a : Act Pid) :
    Decidable (Unbilled s a) :=
  match a with
  | .call _ _ => isTrue trivial
  | .step p ans => inferInstanceAs
      (Decidable (∀ ev ∈ eventAt (Machine.forget s) p ans, Lineless ev))
  | .crash _ => isTrue trivial

theorem eventAt_op {Pid : Type} {s : Metered Pid} {p : Pid} {ans : Answer}
    {pr : Proc Resp Err Call Run RunStatus} {e : Req}
    {k : Resp e → Code Turn} {x : Env e} (hp : s.procs p = some pr)
    (hprog : pr.prog = .op e k) (hx : decode e ans = some x) :
    eventAt (Machine.forget s) p ans = eventOf e x := by
  obtain ⟨ph, lg, prog⟩ := pr
  obtain rfl : prog = .op e k := hprog
  have hforget : (Machine.forget s).procs p = some ⟨ph, lg, .op e k⟩ := hp
  simp only [eventAt, hforget, hx, Option.bind_some]

theorem carrier (cfg : Config) : (metered cfg).Carrier Free Cheap
    (fun e x => ∀ d ∈ newDiffs e x, d.linesChanged = 0) Unspent where
  entry := by
    intro c
    cases c with
    | resumeRun runId => exact quiet_drive
    | approvePlan runId decision feedback => exact quiet_approvePlan
    | approveChangeReview runId decision feedback =>
      exact quiet_approveChangeReview feedback
    | resolveCheckpoint runId decision reply => exact quiet_resolveCheckpoint
  body _ := quiet_driveBody
  called c h := ⟨h.spend, h.shipped, h.diffs⟩
  stopped h := ⟨h.spend, h.shipped, h.diffs⟩
  asked h he hx := h.asked he hx

-- ------------------------------------------------------- sample runs

namespace Sample

/-- A tenant with an observer. -/
def cfg : Config := { Orchestrator.Sample.cfg with observability := true }

/-- The observer returns, and then `n` steps that need no answer. -/
def seen (n : Nat) : List (Act Unit) :=
  answering () (.effect (.returned ())) n

/-- A diff of one file inside the declared scope. -/
def diff (lines : Int) : Answer := .diff (.returned ⟨["src/story.py"], lines⟩)

/-- The plan was approved and its one subtask returned a diff of so many
lines: the run is about to be verified. -/
def built (lines : Int) : List (Act Unit) :=
  calling () (.resumeRun "run") 3 ++ seen 2 ++ seen 2 ++
    answering () (.plan (.returned
      (Orchestrator.Sample.plan [Orchestrator.Sample.task "t1"]))) 1 ++
    answering () (.time 0) 2 ++ seen 1 ++
    calling () (.approvePlan "run" "approve" none) 2 ++ seen 0 ++
    answering () (.time 0) 6 ++ answering () (diff lines) 1 ++ seen 0 ++
    answering () (.time 0) 2 ++ seen 2

/-- The verification failed once, the fix-up returned a diff as well, and
the run waits for its change review. -/
def fixed (lines fixup : Int) : List (Act Unit) :=
  built lines ++
    answering () (.verdict (.returned ⟨false, "it fails"⟩)) 5 ++
    answering () (.time 0) 2 ++ seen 3 ++
    answering () (.uuid "0123456789") 1 ++ answering () (diff fixup) 3 ++
    seen 2 ++ answering () (.verdict (.returned ⟨true, "it works"⟩)) 4 ++
    seen 1

theorem starts : Starts cfg (Orchestrator.Sample.world, .empty) :=
  ⟨Orchestrator.Sample.initial_sample, rfl⟩

/-- The state a script ends in is reached by steps that all met the
condition. -/
theorem reach_of_plays (cond : Metered Unit → Act Unit → Prop)
    [∀ s a, Decidable (cond s a)] (script : List (Act Unit))
    (test : Metered Unit → Bool)
    (h : ((metered cfg).run (fun s a => decide (cond s a)) script
      (Sys.idle (Orchestrator.Sample.world, .empty))).any test = true) :
    ∃ s, (metered cfg).Reach (Starts cfg) cond s ∧ test s = true :=
  Machine.reach_of_any (fun _ _ hc => of_decide_eq_true hc) starts h

end Sample

/-- In every state of such a run the books agree. -/
theorem books_agree {cfg : Config} {Pid : Type} [DecidableEq Pid]
    {s : Metered Pid}
    (hs : (metered cfg).Reach (Starts cfg) Unbilled s) :
    Agrees s.world.1 s.world.2 := by
  have hinit : ∀ w, Starts cfg w → Unspent w := by
    rintro w ⟨⟨_, _, _, _, _, _, _, _, _, _, hprog, hhist⟩, hledger⟩
    refine ⟨?_, ?_, ?_⟩
    · intro p hp
      rw [hprog] at hp
      cases hp
    · intro runId
      rw [hledger]
      rfl
    · intro d hd
      rw [hhist] at hd
      cases hd
  refine (hs.carried (carrier cfg) hinit ?_).agrees
  intro s p ans pr e k x hc hp hprog hx d hd
  have hev := eventAt_op hp hprog hx
  rw [newDiffs, ← hev] at hd
  cases hat : eventAt (Machine.forget s) p ans with
  | none =>
    rw [hat] at hd
    cases hd
  | some ev =>
    rw [hat] at hd
    exact hc ev hat d hd

/-- A subtask and a fix-up that change no line leave the books empty. -/
theorem books_agree_lineless :
    ∃ s : Metered Unit,
      (metered Sample.cfg).Reach (Starts Sample.cfg) Unbilled s ∧
      s.world.1.run.stage = .changeReviewGate ∧
      (s.world.1.hist.flatMap diffsOf).length = 2 ∧
      Agrees s.world.1 s.world.2 := by
  obtain ⟨s, hs, htest⟩ := Sample.reach_of_plays Unbilled (Sample.fixed 0 0)
    (fun s => s.world.1.run.stage = .changeReviewGate &&
      (s.world.1.hist.flatMap diffsOf).length = 2) (by decide +kernel)
  rw [Bool.and_eq_true, decide_eq_true_eq, decide_eq_true_eq] at htest
  exact ⟨s, hs, htest.1, htest.2, books_agree hs⟩

/-- Diffs that take no lines away, and of which one adds some, cost
something. -/
theorem cost_pos {diffs : List DiffOutput}
    (hpos : ∀ d ∈ diffs, 0 ≤ d.linesChanged)
    (hsome : ∃ d ∈ diffs, d.linesChanged ≠ 0) :
    0 < (diffs.map unitCost).sum := by
  obtain ⟨d, hd, hne⟩ := hsome
  have hcosts : ∀ c ∈ diffs.map unitCost, 0 ≤ c := by
    intro c hc
    obtain ⟨d', hd', rfl⟩ := List.mem_map.1 hc
    exact div_nonneg (Int.cast_nonneg (hpos d' hd')) (by decide)
  have hcost : 0 < unitCost d := by
    have hlines : 0 < d.linesChanged :=
      lt_of_le_of_ne (hpos d hd) (Ne.symm hne)
    exact div_pos (Int.cast_pos.2 hlines) (by decide)
  exact hcost.trans_le
    (List.single_le_sum hcosts _ (List.mem_map_of_mem hd))

/-- The condition is exact: where the books agree, a step in which the
backend returns a diff that adds lines parts them. -/
theorem breaks {cfg : Config} {Pid : Type} [DecidableEq Pid]
    {s s' : Metered Pid} {p : Pid} {ans : Answer}
    (hagrees : Agrees s.world.1 s.world.2)
    (happ : (metered cfg).apply (.step p ans) s = some s') {ev : Event}
    (hev : eventAt (Machine.forget s) p ans = some ev)
    (hpos : ∀ d ∈ diffsOf ev, 0 ≤ d.linesChanged) (hbill : ¬ Lineless ev) :
    ¬ Agrees s'.world.1 s'.world.2 := by
  intro hagrees'
  have hsome : ∃ d ∈ diffsOf ev, d.linesChanged ≠ 0 := by
    unfold Lineless at hbill
    push Not at hbill
    exact hbill
  have hcost := cost_pos hpos hsome
  have hno : ∀ pr, s.procs p = some pr → (∀ e k, pr.prog ≠ .op e k) →
      False := by
    intro pr hp hprog
    obtain ⟨ph, lg, prog⟩ := pr
    have hforget : (Machine.forget s).procs p = some ⟨ph, lg, prog⟩ := hp
    unfold eventAt at hev
    rw [hforget] at hev
    cases prog with
    | op e k => exact hprog e k rfl
    | _ => cases hev
  cases Machine.apply_inv happ with
  | done hp hprog => exact hno _ hp fun e k h => by rw [hprog] at h; cases h
  | again hp hprog => exact hno _ hp fun e k h => by rw [hprog] at h; cases h
  | raised hp hprog => exact hno _ hp fun e k h => by rw [hprog] at h; cases h
  | @op _ _ pr e k x hp hprog hx =>
    have hat : eventOf e x = some ev :=
      (eventAt_op hp hprog hx).symm.trans hev
    have hnew : newDiffs e x = diffsOf ev := by
      unfold newDiffs
      rw [hat]
      rfl
    obtain ⟨hledger, hrow⟩ := newDiffs_frame (e := e) (x := x) (by
      rw [hnew]
      obtain ⟨d, hd, _⟩ := hsome
      exact List.ne_nil_of_mem hd)
    have hreturned : returnedUsd (s.world.1.exec e x).1.hist =
        ((diffsOf ev).map unitCost).sum + returnedUsd s.world.1.hist := by
      unfold returnedUsd
      rw [exec_diffs, hnew, List.map_append, List.sum_append]
    have hcounted : (note s.world.2 e).cumulativeCost
        (s.world.1.exec e x).1.run.id =
          returnedUsd (s.world.1.exec e x).1.hist := hagrees'.counted
    rw [hledger, hrow, hreturned, hagrees.counted] at hcounted
    exact absurd hcounted (ne_of_lt (lt_add_of_pos_left _ hcost))

/-- The books of a run at rest have parted, and an evaluation under the
plan's own scope and budget raises nothing, although the shipped cost has
reached the threshold. -/
def parted (s : Metered Unit) : Bool :=
  (s.procs ()).isNone &&
    match s.world.1.progress, s.world.1.plans.latest with
    | some p, some plan =>
      match artifactBudget Sample.cfg plan with
      | some budget =>
        let shipped := s.world.2.cumulativeCost s.world.1.run.id
        decide (p.spendUsd ≠ shipped ∧
          shipped ≠ returnedUsd s.world.1.hist ∧
          budget.costCeilingUsd * timeCostWarningFraction ≤ shipped ∧
          evaluateCheckpoints p.diffStats plan.inScope budget
            (p.elapsedMinutes 0) p.spendUsd
            p.consecutiveSameStageFailures = [])
      | none => false
    | _, _ => false

/-- A run waits for its change review with 4.40 USD shipped on a budget of
5: nothing was added to its spend, the diff of its fix-up was not
shipped, and an evaluation raises no trigger. -/
theorem books_part :
    ∃ (s : Metered Unit) (p : RunProgress) (plan : PlanArtifact)
        (budget : Budget),
      (metered Sample.cfg).Reach (Starts Sample.cfg) (fun _ _ => True) s ∧
      s.procs () = none ∧ s.world.1.progress = some p ∧
      s.world.1.plans.latest = some plan ∧
      artifactBudget Sample.cfg plan = some budget ∧
      p.spendUsd ≠ s.world.2.cumulativeCost s.world.1.run.id ∧
      s.world.2.cumulativeCost s.world.1.run.id ≠
        returnedUsd s.world.1.hist ∧
      budget.costCeilingUsd * timeCostWarningFraction ≤
        s.world.2.cumulativeCost s.world.1.run.id ∧
      evaluateCheckpoints p.diffStats plan.inScope budget
        (p.elapsedMinutes 0) p.spendUsd p.consecutiveSameStageFailures =
          [] := by
  obtain ⟨s, hs, htest⟩ := Sample.reach_of_plays (fun _ _ => True)
    (Sample.fixed 440 10) parted (by decide +kernel)
  unfold parted at htest
  rw [Bool.and_eq_true] at htest
  obtain ⟨hidle, htest⟩ := htest
  split at htest
  · next p plan hp hplan =>
    split at htest
    · next budget hbudget =>
      obtain ⟨hspend, hcounted, hreach, hnone⟩ := of_decide_eq_true htest
      exact ⟨s, p, plan, budget, hs, Option.isNone_iff_eq_none.1 hidle, hp,
        hplan, hbudget, hspend, hcounted, hreach, hnone⟩
    · cases htest
  · cases htest

end SdlcOs.Orchestrator.Cost
