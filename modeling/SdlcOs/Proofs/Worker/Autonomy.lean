/-
The drive loop and the autonomy policy.

# What drive consults

`drive` asks the policy about the plan gate with the plan's own risk,
and about the change review with `pulled_from_batch` always false; it
never asks whether the level implements at all. So the policy is
honoured as long as no run at L2 comes to its change review after a
checkpoint, and nobody approves a plan at L0.

# How the two halves meet

What drive may do without asking is told from the worker's log alone, by
a monitor (`policy`). That nothing is implemented at L0 is a fact about
the orchestrator below: a run whose plan nobody approves stays in
planning (`Drafting.spec`), and the worker's pact says that its calls
approve none.
-/
import SdlcOs.Effects.Monitor
import SdlcOs.Proofs.Seq.Turn
import SdlcOs.Proofs.Worker.Rules
import SdlcOs.Worker.Script

namespace SdlcOs.Orchestrator

open Effects
open Registry (Stage)

namespace Drafting

-- ==== runs without approval

/-- The call approves no plan. -/
def ApprovesNoPlan : Call → Prop
  | .approvePlan _ decision _ => decision ≠ "approve"
  | _ => True

/-- The run is being planned, or was given up. -/
def Planned (w : World) : Prop :=
  w.run.stage.planning = true ∨ w.run.stage = .abandoned

/-- Where no plan is approved, the run stays in planning and nothing is
implemented or packaged. -/
def spec : Spec where
  callOk := fun _ => ApprovesNoPlan
  inv := Planned
  mayImplement := fun _ => False
  mayPackage := fun _ => False

theorem cut_of_planned {w : World} (h : Planned w) : spec.Cut w := fun _ => h

theorem planned_ne {w : World} (h : Planned w) {stage : Stage}
    (hst : w.run.stage = stage) (hplan : stage.planning = false)
    (hab : stage ≠ .abandoned) : False := by
  rcases h with h | h
  · rw [hst, hplan] at h
    cases h
  · exact hab (hst.symm.trans h)

theorem moves_to {w : World} {next : Stage} (h : next.planning = true) :
    spec.Moves w next Planned :=
  ⟨trivial, cut_of_planned (Or.inl h), Or.inl h⟩

theorem turns {cfg : Config} {w : World} (h : Planned w) :
    spec.Turns cfg w Planned Planned where
  intake := fun _ => moves_to rfl
  research := fun _ => moves_to rfl
  author := fun _ _ _ =>
    ⟨cut_of_planned h, fun _ _ => ⟨cut_of_planned h, moves_to rfl⟩⟩
  implement := fun hst _ _ _ _ =>
    (planned_ne h hst rfl (by decide)).elim
  verify := fun hst => (planned_ne h hst rfl (by decide)).elim
  package := fun hst _ => (planned_ne h hst rfl (by decide)).elim
  unpackaged := fun hst _ => (planned_ne h hst rfl (by decide)).elim
  retrospective := fun hst => (planned_ne h hst rfl (by decide)).elim

theorem planCall {cfg : Config} {w : World} {decision feedback : String}
    (hno : decision ≠ "approve") : spec.PlanCall cfg w decision feedback where
  approved := fun hd => absurd hd hno
  reattempted := fun _ _ => cut_of_planned (Or.inl rfl)
  replanned := fun _ _ _ _ =>
    ⟨cut_of_planned (Or.inl rfl), fun _ _ =>
      ⟨cut_of_planned (Or.inl rfl), Or.inl rfl⟩⟩
  rejected := fun _ => Or.inr rfl

theorem resolveCall {w : World} {e : Elicitation} {decision : String}
    {note : Option String} {now : Time} (h : Planned w) :
    spec.ResolveCall w e decision note now := by
  have hans : Planned (Spec.answeredBy w e decision note now) := h
  have hack : Planned
      (Spec.acked (Spec.answeredBy w e decision note now) e) := by
    unfold Planned
    rw [Spec.acked_run]
    exact hans
  exact ⟨cut_of_planned hans, fun _ _ => Or.inr rfl,
    fun _ => cut_of_planned hack, fun _ _ _ _ _ => hack, fun _ _ => hack⟩

theorem keeps (cfg : Config) : spec.Keeps cfg where
  cut := fun _ h => cut_of_planned h
  called := fun _ _ h _ => h
  turn := fun _ h _ => turns h
  plan := fun _ _ _ _ _ hok _ _ => planCall hok
  review := fun _ _ _ _ h _ _ hst =>
    (planned_ne h hst rfl (by decide)).elim
  resolve := fun _ _ _ _ _ _ h _ _ _ => resolveCall h

theorem planned_initial {cfg : Config} {w : World} (h : Initial cfg w) :
    Planned w := by
  refine Or.inl ?_
  rw [h.row.1]
  rfl

/-- In every run whose calls approve no plan, the run is never past its
planning, and nobody is about to package it. -/
theorem drafting (cfg : Config) {s : State Unit}
    (hs : (machine cfg).Reach (Initial cfg) (Host.Calls ApprovesNoPlan) s) :
    Planned s.world ∧ ∀ e, s.Asks () e → e.packages = false := by
  have hcover : spec.Covers cfg (Host.Calls ApprovesNoPlan) := by
    refine Spec.covers_of_kept fun s a hc => ?_
    cases a with
    | call p c => exact hc
    | step p ans => exact ⟨fun _ _ => trivial, fun _ => trivial⟩
    | crash p => exact trivial
  have hset := (keeps cfg).settled (fun _ => planned_initial) hcover hs
  refine ⟨?_, fun e ha => ?_⟩
  · cases hp : s.procs () with
    | none => exact hset.resting fun _ => hp
    | some pr =>
      -- a process may be stopped where it is, and that moves no run
      have hcut := (hset.running () pr hp).cut
      exact hcut trivial
  · cases hpack : e.packages with
    | false => rfl
    | true => exact (Spec.mayPackage_of_settled hset ha hpack).elim

end Drafting

end SdlcOs.Orchestrator

namespace SdlcOs.Worker

open Effects
open Orchestrator (Call PauseKind PlanArtifact Reply Run RunStatus)
open Registry (Stage)

namespace Autonomy

-- ==== vocabulary

/-- What a reader of the log keeps: whether the run has paused at a
checkpoint, and what a resolver has just answered. -/
structure Watch where
  pulled : Bool
  answer : Option String
  deriving DecidableEq, Repr

/-- The status is a pause at a checkpoint. -/
def checkpointPause (status : RunStatus) : Bool :=
  status.paused && decide (status.pauseKind = some .checkpoint)

/-- The autonomy policy as a monitor of the worker's log: `drive`
approves a gate on a resolver's word, or where the policy waives it, with
`pulled_from_batch` true once the run has paused at a checkpoint. -/
def policy : Monitor Watch Event where
  init := ⟨false, none⟩
  advance := fun m ev =>
    match ev with
    | .called .. => { m with answer := none }
    | .produced status => ⟨m.pulled || checkpointPause status, none⟩
    | .asked _ decision => { m with answer := decision }
    | .notified .. => m
  allowed := fun m ev =>
    match ev with
    | .called (.approvePlan _ decision _) (.drive level) _ plan =>
      decision = "approve" → m.answer = some "approve" ∨
        requiresPlanApprovalGate level (highRisk plan) = false
    | .called (.approveChangeReview _ decision _) (.drive level) _ _ =>
      decision = "approve" → m.answer = some "approve" ∨
        requiresChangeReviewGate level m.pulled = false
    | _ => True

/-- The worker's runs are at a level that implements nothing. -/
def Assisted (cfg : Settings) : Prop :=
  (parseLevel cfg.autonomyLevel).any
    (fun level => !runsAutonomousImplementation level) = true

instance (cfg : Settings) : Decidable (Assisted cfg) :=
  inferInstanceAs (Decidable (_ = true))

/-- The worker has honoured the policy so far: each approval of `drive`
was given or waived, and at a level that implements nothing the run is
not in implementation and nobody is about to open its pull request. -/
structure Honoured (cfg : Settings) (s : State) : Prop where
  gates : policy.Accepts s.store.log
  assisted : Assisted cfg → s.below.world.run.stage ≠ .implementation ∧
    ∀ e, s.below.Asks () e → e.packages = false

/-- A decision at a plan gate approves the plan. -/
def ApprovesPlan (status : RunStatus) (decision : Option String) : Prop :=
  status.pauseKind = some .gate ∧ status.stage = .planApprovalGate ∧
    decision = some "approve"

instance (status : RunStatus) (decision : Option String) :
    Decidable (ApprovesPlan status decision) :=
  inferInstanceAs (Decidable (_ ∧ _))

/-- The loop is about to take a turn at a change review, at L2, of a run
that has paused at a checkpoint. -/
def PulledReview (t : Frame × RunStatus) (log : List Event) : Prop :=
  t.1.level = .l2Delegated ∧ t.2.paused = true ∧
    t.2.pauseKind = some .gate ∧ t.2.stage = .changeReviewGate ∧
    (policy.state log).pulled = true

instance (t : Frame × RunStatus) (log : List Event) :
    Decidable (PulledReview t log) :=
  inferInstanceAs (Decidable (_ ∧ _))

/-- The moves under which the policy is honoured: no turn of the loop is
a pulled review, and at a level that implements nothing neither a
resolver nor a reply approves the plan. -/
def heeds (cfg : Settings) (s : State) : Act → Bool
  | .own (.decision (.returned decision)) =>
    match s.prog with
    | some (.op (.own (.resolve status)) _) =>
      !decide (Assisted cfg ∧ ApprovesPlan status decision)
    | _ => true
  | .proceed =>
    match s.prog with
    | some (.ret (.again t)) => !decide (PulledReview t s.store.log)
    | some (.op (.call (.approvePlan _ decision _) (.reply _)) _) =>
      !decide (Assisted cfg ∧ decision = "approve")
    | _ => true
  | _ => true

/-- The move heeds the conditions. -/
def Heeding (cfg : Settings) (s : State) (a : Act) : Prop :=
  heeds cfg s a = true

-- ==== the pact

/-- What the worker is held to. -/
def pact (cfg : Settings) : WPact where
  inv := fun l _ => policy.Accepts l.log
  assume := fun _ _ e x =>
    match e, x with
    | .resolve status, .returned decision =>
      ¬ (Assisted cfg ∧ ApprovesPlan status decision)
    | _, _ => True
  allow := fun _ _ c o =>
    match c, o with
    | .approvePlan _ decision _, .reply _ =>
      ¬ (Assisted cfg ∧ decision = "approve")
    | _, _ => True
  turn := fun t l _ => ¬ PulledReview t l.log
  oblige := fun l w task =>
    match task with
    | .own _ => True
    | .call c o =>
      policy.allowed (policy.state l.log)
        (.called c o w.run w.plans.latest) ∧
      (Assisted cfg → Orchestrator.Drafting.ApprovesNoPlan c)
  rely := fun l l' => l'.log = l.log
  guar := fun _ _ => True
  callOk := fun c => Assisted cfg → Orchestrator.Drafting.ApprovesNoPlan c

theorem accepts_land {l : Store} {wording : Notice → String} {row : Run}
    {n : Notice} {landed : Option Nat} (h : policy.Accepts l.log) :
    policy.Accepts (l.land wording row n landed).log := by
  cases landed with
  | none => exact h
  | some gap =>
    cases n with
    | paused status plan =>
      exact Monitor.accepts_snoc.2 ⟨h, trivial⟩
    | _ => exact h

theorem accepts_exec {cfg : Settings} {l : Store} {w : Orchestrator.World}
    {e : Req} {x : Env e} (h : policy.Accepts l.log) :
    policy.Accepts (l.exec cfg.wording w e x).1.log := by
  cases e with
  | resolve status =>
    cases x with
    | returned decision => exact Monitor.accepts_snoc.2 ⟨h, trivial⟩
    | raised x => exact h
  | listComments =>
    cases x with
    | returned b => cases b <;> exact h
    | raised x => exact h
  | postComment n => cases x <;> exact accepts_land h
  | transitionStatus target n => exact accepts_land h
  | _ => exact h

theorem log_onCall (l : Store) (w : Orchestrator.World) (c : Call)
    (o : Origin) : (l.onCall w c o).log =
      l.log ++ [.called c o w.run w.plans.latest] := by
  unfold Store.onCall
  split <;> rfl

theorem pact_sound (ocfg : Orchestrator.Config) (cfg : Settings) :
    (pact cfg).Sound (Orchestrator.machine ocfg) (worker cfg) where
  rely_refl := fun _ => rfl
  rely_trans := fun _ _ _ h h' => h'.trans h
  guar_refl := fun _ => trivial
  guar_trans := fun _ _ _ _ _ => trivial
  outside := fun _ _ => rfl
  exec := fun _ _ _ => trivial
  onCall := fun _ _ => trivial
  onStop := fun _ => trivial
  inv_outside := fun _ _ _ h => h
  inv_guar := fun _ _ _ h _ => h
  inv_accept := by
    intro l w c l' h haccept
    simp only [worker] at haccept
    split at haccept
    · cases haccept
    · obtain rfl := Option.some.inj haccept
      exact h
  inv_own := fun _ _ _ _ h _ _ => accepts_exec h
  inv_call := by
    intro l w c o h hob
    show policy.Accepts (l.onCall w c o).log
    rw [log_onCall]
    exact Monitor.accepts_snoc.2 ⟨h, hob.1⟩
  inv_return := by
    intro l w c r h
    cases r with
    | ok status => exact Monitor.accepts_snoc.2 ⟨h, trivial⟩
    | error x => exact h
  callOk := fun _ _ _ _ hob => hob.2

-- ==== one decision

section Programs

variable {cfg : Settings} {α β : Type} {l : Store} {w : Orchestrator.World}

theorem lenient : Lenient (pact cfg) := fun _ _ _ _ => trivial

/-- At a level that implements nothing, a drive is at that level. -/
def Fits (cfg : Settings) (f : Frame) : Prop :=
  Assisted cfg → f.level = .l0Assisted

theorem fits_default {fallback : String} {level : AutonomyLevel} {f : Frame}
    (h : parseLevel (if cfg.autonomyLevel = "" then fallback
      else cfg.autonomyLevel) = some level) (hf : f.level = level) :
    Fits cfg f := by
  intro hass
  obtain ⟨own, hown, himpl⟩ := (Option.any_eq_true _ _).1 hass
  have hne : cfg.autonomyLevel ≠ "" := by
    intro hempty
    rw [hempty] at hown
    cases hown
  rw [if_neg hne, hown] at h
  obtain rfl := Option.some.inj h
  rw [hf]
  cases own with
  | l0Assisted => rfl
  | _ => cases himpl

/-- What a decision about a pause must come with to be passed on. -/
structure Licensed (cfg : Settings) (level : AutonomyLevel)
    (status : RunStatus) (log : List Event) (w : Orchestrator.World)
    (d : String) : Prop where
  plan : status.stage = .planApprovalGate → d = "approve" →
    (policy.state log).answer = some "approve" ∨
      requiresPlanApprovalGate level (highRisk w.plans.latest) = false
  review : status.stage = .changeReviewGate → d = "approve" →
    (policy.state log).answer = some "approve" ∨
      requiresChangeReviewGate level (policy.state log).pulled = false
  assisted : Assisted cfg → ¬ ApprovesPlan status (some d)

/-- What drive decides by itself at a gate it finds waived. -/
def Waived (level : AutonomyLevel) (status : RunStatus)
    (w : Orchestrator.World) (d : String) : Prop :=
  d = "approve" ∧ status.pauseKind = some .gate ∧
    ((status.stage = .planApprovalGate ∧
        requiresPlanApprovalGate level (highRisk w.plans.latest) = false) ∨
      (status.stage = .changeReviewGate ∧
        requiresChangeReviewGate level false = false))

/-- `auto_decision` is made only where the policy, as drive asks it,
waives the gate. -/
theorem safe_autoDecision (level : AutonomyLevel) (status : RunStatus) :
    Safe cfg (pact cfg) (fun auto l' w' => w' = w ∧ l'.log = l.log ∧
      ∀ d ∈ auto, Waived level status w d) (autoDecision level status) l w := by
  have hnone : ∀ d ∈ (none : Option String), Waived level status w d := by
    intro d hd
    cases hd
  unfold autoDecision
  split
  · next hgate =>
    split
    · next hst =>
      refine safe_ask fun l' hrely _ => ⟨trivial, fun _ _ => ?_⟩
      show Safe cfg (pact cfg) _
        (if requiresPlanApprovalGate level (highRisk w.plans.latest) then _
          else _) l' w
      split
      · exact ⟨rfl, hrely, hnone⟩
      · next hreq =>
        refine ⟨rfl, hrely, fun d hd => ?_⟩
        obtain rfl := Option.some.inj hd
        exact ⟨rfl, hgate, Or.inl ⟨hst, Bool.not_eq_true _ ▸ hreq⟩⟩
    · split
      · next hst =>
        split
        · exact ⟨rfl, rfl, hnone⟩
        · next hreq =>
          refine ⟨rfl, rfl, fun d hd => ?_⟩
          obtain rfl := Option.some.inj hd
          exact ⟨rfl, hgate, Or.inr ⟨hst, Bool.not_eq_true _ ▸ hreq⟩⟩
      · exact ⟨rfl, rfl, hnone⟩
  · exact ⟨rfl, rfl, hnone⟩

/-- Where a review that was not pulled is waived, it is waived with what
the log shows. -/
theorem Waived.licensed {f : Frame} {status : RunStatus} {d : String}
    {log : List Event} (h : Waived f.level status w d) (hf : Fits cfg f)
    (hpaused : status.paused = true) (hturn : ¬ PulledReview (f, status) log) :
    Licensed cfg f.level status log w d := by
  obtain ⟨rfl, hgate, hwaive⟩ := h
  refine ⟨fun hst _ => ?_, fun hst _ => ?_, fun hass happ => ?_⟩
  · rcases hwaive with ⟨_, hreq⟩ | ⟨hst', _⟩
    · exact Or.inr hreq
    · rw [hst] at hst'
      cases hst'
  · rcases hwaive with ⟨hst', _⟩ | ⟨_, hreq⟩
    · rw [hst] at hst'
      cases hst'
    · refine Or.inr ?_
      cases hlevel : f.level with
      | l0Assisted => rfl
      | l1Supervised =>
        rw [hlevel] at hreq
        cases hreq
      | l2Delegated =>
        show (policy.state log).pulled = false
        cases hpull : (policy.state log).pulled with
        | false => rfl
        | true =>
          exact absurd ⟨hlevel, hpaused, hgate, hst, hpull⟩ hturn
      | l3AutonomousToPr => rfl
  · -- the plan gate is never waived at the level of an assisted run
    rcases hwaive with ⟨_, hreq⟩ | ⟨hst, _⟩
    · rw [hf hass] at hreq
      cases hreq
    · rw [happ.2.1] at hst
      cases hst

theorem safe_onPause {env : Environment} {assignee : Option String}
    {status : RunStatus} {Q : Unit → Store → Orchestrator.World → Prop}
    (h : ∀ l', Q () l' w) :
    Safe cfg (pact cfg) Q (onPause env assignee status) l w := by
  unfold onPause
  refine safe_describedPlan lenient fun plan l₁ => ?_
  refine safe_any lenient rfl fun posted l₂ => safe_expect fun lastSeen _ => ?_
  refine safe_assign lenient rfl fun l₃ _ => ?_
  exact Host.safe_own fun _ _ _ => ⟨trivial, fun _ _ => h _⟩

/-- What a resolver answers has just been logged, and is no approval of a
plan at a level that implements nothing. -/
theorem safe_resolver (f : Frame) (status : RunStatus) :
    Safe cfg (pact cfg) (fun decision l' w' => w' = w ∧
      ∀ d, decision = some d → Licensed cfg f.level status l'.log w d)
      (f.resolver status) l w := by
  have hasync : Safe cfg (pact cfg) (fun decision l' w' => w' = w ∧
      ∀ d, decision = some d → Licensed cfg f.level status l'.log w d)
      (asyncResolve f.env f.assignee status) l w := by
    refine Host.safe_bind (safe_onPause fun l' => ⟨rfl, fun d hd => ?_⟩)
    cases hd
  unfold Frame.resolver
  cases f.site with
  | once =>
    refine safe_ask fun l' _ _ => ⟨trivial, fun x hx => ?_⟩
    cases x with
    | raised x => exact trivial
    | returned decision =>
      refine ⟨rfl, fun d hd => ?_⟩
      subst hd
      have hans : (policy.state
          (l'.record (.asked status (some d))).log).answer = some d := by
        show (policy.state (l'.log ++ [_])).answer = some d
        rw [Monitor.state_snoc]
        rfl
      exact ⟨fun _ hd => Or.inl (hd ▸ hans),
        fun _ hd => Or.inl (hd ▸ hans), fun hass happ =>
          hx ⟨hass, happ⟩⟩
  | pickup => exact hasync
  | reply => exact hasync

theorem safe_passDecision {f : Frame} {status : RunStatus} {d : String}
    {Q : RunStatus → Store → Orchestrator.World → Prop}
    (hlic : Licensed cfg f.level status l.log w d)
    (h : ∀ status' l' w', Q status' l' w') :
    Safe cfg (pact cfg) Q (passDecision f.level status d) l w := by
  unfold passDecision
  split
  · next hgate =>
    split
    · next hst =>
      refine safe_call fun l' hrely _ _ => ⟨⟨fun hd => ?_, fun hass hd => ?_⟩,
        fun _ _ _ _ _ => h _ _ _⟩
      · rw [show l'.log = l.log from hrely]
        exact hlic.plan hst hd
      · exact hlic.assisted hass ⟨hgate, hst, congrArg some hd⟩
    · split
      · next hst =>
        refine safe_call fun l' hrely _ _ => ⟨⟨fun hd => ?_, fun _ => trivial⟩,
          fun _ _ _ _ _ => h _ _ _⟩
        rw [show l'.log = l.log from hrely]
        exact hlic.review hst hd
      · exact trivial
  · exact safe_call fun _ _ _ _ => ⟨⟨trivial, fun _ => trivial⟩,
      fun _ _ _ _ _ => h _ _ _⟩
  · exact trivial

theorem safe_driveDecision {f : Frame} {status : RunStatus} (hf : Fits cfg f)
    (hpaused : status.paused = true)
    (hturn : ¬ PulledReview (f, status) l.log) :
    Safe cfg (pact cfg) (fun decision l' w' => w' = w ∧
      ∀ d, decision = some d → Licensed cfg f.level status l'.log w d)
      (driveDecision f.level f.resolver status) l w := by
  refine Host.safe_bind ((safe_autoDecision f.level status).mono ?_)
  rintro auto l₁ w₁ ⟨rfl, hlog, hauto⟩
  cases auto with
  | none => exact safe_resolver f status
  | some d =>
    refine ⟨rfl, fun d' hd => ?_⟩
    rw [← Option.some.inj hd, hlog]
    exact (hauto d rfl).licensed hf hpaused hturn

theorem safe_driveTurn {f : Frame} {status : RunStatus}
    {Q : Ctl RunStatus RunOutcome → Store → Orchestrator.World → Prop}
    (hf : Fits cfg f) (hturn : ¬ PulledReview (f, status) l.log)
    (h : ∀ ctl l' w', Q ctl l' w') :
    Safe cfg (pact cfg) Q (driveTurn f.level f.resolver status) l w := by
  unfold driveTurn
  split
  · next hpaused =>
    refine Host.safe_bind ((safe_driveDecision hf hpaused hturn).mono ?_)
    rintro decision l₁ w₁ ⟨rfl, hlic⟩
    cases decision with
    | none => exact h _ _ _
    | some d =>
      refine Host.safe_bind (safe_passDecision (hlic d rfl) ?_)
      intro status' l' w'
      show Safe cfg (pact cfg) Q (if abandons d then _ else _) l' w'
      split
      · exact h _ _ _
      · exact h _ _ _
  · exact safe_any lenient rfl fun _ _ => h _ _ _

-- ==== entries

/-- What an entry comes to: its loop fits the run's level. -/
def headed (cfg : Settings) (t : Frame × RunStatus) (_ : Store)
    (_ : Orchestrator.World) : Prop := Fits cfg t.1

theorem safe_calls {c : Call} {o : Origin} {f : RunStatus → Code β}
    {Q : β → Store → Orchestrator.World → Prop}
    (hob : ∀ (l' : Store) (w' : Orchestrator.World),
      (pact cfg).allow l' w' c o → (pact cfg).oblige l' w' (.call c o))
    (h : ∀ status l' w', Safe cfg (pact cfg) Q (f status) l' w') :
    Safe cfg (pact cfg) Q (call c o >>= f) l w :=
  Host.safe_bind (safe_call fun l' _ _ hallow =>
    ⟨hob l' w hallow, fun _ _ _ _ _ => h _ _ _⟩)

theorem safe_startRun {f : RunStatus → Code β}
    {Q : β → Store → Orchestrator.World → Prop}
    (h : ∀ status l' w', Safe cfg (pact cfg) Q (f status) l' w') :
    Safe cfg (pact cfg) Q (startRun cfg >>= f) l w :=
  safe_calls (fun _ _ _ => ⟨trivial, fun _ => trivial⟩) h

theorem safe_passReply {record : Record} {c : Comment} {d : String}
    {status : RunStatus} {Q : RunStatus → Store → Orchestrator.World → Prop}
    (h : ∀ status' l' w', Q status' l' w') :
    Safe cfg (pact cfg) Q (passReply record c d status) l w := by
  unfold passReply
  split
  · split
    · refine safe_call fun l' _ _ hallow => ⟨⟨trivial, fun hass hd => ?_⟩,
        fun _ _ _ _ _ => h _ _ _⟩
      exact hallow ⟨hass, hd⟩
    · split
      · exact safe_call fun _ _ _ _ => ⟨⟨trivial, fun _ => trivial⟩,
          fun _ _ _ _ _ => h _ _ _⟩
      · exact trivial
  · exact safe_call fun _ _ _ _ => ⟨⟨trivial, fun _ => trivial⟩,
      fun _ _ _ _ _ => h _ _ _⟩

theorem safe_resumePausedRunAsync {record : Record} {c : Comment} {d : String}
    {assignee : Option String} :
    Safe cfg (pact cfg) (fun ctl _ _ => ∀ t, ctl = .again t → Fits cfg t.1)
      (resumePausedRunAsync cfg record c d assignee) l w := by
  have hdrive : ∀ (env : Environment) (status : RunStatus) (l' : Store)
      (w' : Orchestrator.World),
      Safe cfg (pact cfg) (fun ctl _ _ => ∀ t, ctl = .again t → Fits cfg t.1)
        (defaultAutonomyLevel cfg "L3" >>= fun level =>
          pure (Ctl.again ((⟨.reply, level, env, assignee⟩ : Frame), status) :
            Ctl (Frame × RunStatus) RunOutcome)) l' w' := by
    intro env status l' w'
    refine safe_defaultAutonomyLevel fun level hlevel t ht => ?_
    injection ht with ht
    subst ht
    exact fits_default hlevel rfl
  unfold resumePausedRunAsync
  refine safe_any lenient rfl fun _ _ => safe_expect fun env _ => ?_
  refine safe_calls (fun _ _ _ => ⟨trivial, fun _ => trivial⟩) ?_
  intro status l₁ w₁
  split
  · refine Host.safe_bind (safe_passReply fun status' l₂ w₂ => ?_)
    show Safe cfg (pact cfg) _ (if abandons d then _ else _) l₂ w₂
    split
    · intro t ht
      cases ht
    · exact hdrive env status' l₂ w₂
  · exact hdrive env status l₁ w₁

theorem safe_entry (c : Entry) :
    Safe cfg (pact cfg) (Host.Post (headed cfg)) (entry cfg c) l w := by
  cases c with
  | runOnce task =>
    refine safe_any lenient rfl fun _ _ => safe_expect fun env _ => ?_
    refine safe_startRun fun status l' w' => ?_
    exact safe_defaultAutonomyLevel fun level hlevel =>
      fits_default hlevel rfl
  | pollOnce =>
    refine safe_pollOnce lenient (fun _ => trivial) fun task bot l' => ?_
    refine safe_any lenient rfl fun _ _ => safe_expect fun env _ => ?_
    refine safe_startRun fun status l' w' => ?_
    exact safe_defaultAutonomyLevel fun level hlevel =>
      fits_default hlevel rfl
  | checkPendingDecisions =>
    refine safe_any lenient rfl fun pending _ => ?_
    cases pending with
    | none => exact trivial
    | some record =>
      refine safe_any lenient rfl fun _ _ => safe_expect fun bot _ => ?_
      refine safe_any lenient rfl fun _ _ => safe_expect fun comments _ => ?_
      cases comments with
      | none => exact trivial
      | some comments =>
        dsimp only
        split
        · exact trivial
        · refine Host.safe_bind (safe_resumePausedRunAsync.mono ?_)
          intro ctl l' w' hctl
          cases ctl with
          | again t => exact hctl t rfl
          | done outcome =>
            exact safe_settle lenient fun _ _ => trivial

theorem safe_body {t : Frame × RunStatus} (hf : Fits cfg t.1)
    (hturn : ¬ PulledReview t l.log) :
    Safe cfg (pact cfg) (Host.Post (headed cfg)) (body cfg t) l w := by
  refine Host.safe_bind (safe_driveTurn hf hturn ?_)
  intro ctl l' w'
  cases ctl with
  | again status => exact hf
  | done outcome => exact safe_settle lenient fun _ _ => trivial

end Programs

-- ==== the runs

theorem heeding_meets (cfg : Settings) :
    Host.Meets (worker cfg) (pact cfg) (Heeding cfg) where
  own := by
    intro s ans e k x hc hp hx
    cases e with
    | resolve status =>
      cases ans with
      | decision r =>
        obtain rfl := Option.some.inj hx
        cases r with
        | returned decision =>
          unfold Heeding at hc
          simp only [heeds, hp, Bool.not_eq_true', decide_eq_false_iff_not]
            at hc
          exact hc
        | raised x => exact trivial
      | _ => cases hx
    | _ => exact trivial
  call := by
    intro s c o k hc hp _
    cases c with
    | approvePlan runId decision feedback =>
      cases o with
      | reply cm =>
        unfold Heeding at hc
        simp only [heeds, hp, Bool.not_eq_true', decide_eq_false_iff_not]
          at hc
        exact hc
      | _ => exact trivial
    | _ => exact trivial
  turn := by
    intro s t hc hp
    unfold Heeding at hc
    simp only [heeds, hp, Bool.not_eq_true', decide_eq_false_iff_not] at hc
    exact hc

/-- In every run whose moves heed the two conditions, the worker honours
the autonomy policy. -/
theorem policy_honoured (ocfg : Orchestrator.Config) (cfg : Settings)
    {s : State} (hs : Reach ocfg cfg (Heeding cfg) s) : Honoured cfg s := by
  have hstart : ∀ l w, Initial ocfg l w →
      (pact cfg).inv l w ∧ Orchestrator.Initial ocfg w := by
    intro l w h
    refine ⟨?_, h.2.2.2.2.2.2⟩
    show policy.Accepts l.log
    rw [h.2.2.2.2.1]
    exact Monitor.accepts_nil
  have hset := Host.Reach.settled (pact_sound ocfg cfg) hstart
    (heeding_meets cfg) (fun _ _ c _ _ _ => safe_entry c)
    (fun t l l' w (hf : headed cfg t l w) _ _ hturn => safe_body hf hturn) hs
  refine ⟨hset.inv, fun hass => ?_⟩
  have hbelow : (Orchestrator.machine ocfg).Reach (Orchestrator.Initial ocfg)
      (Host.Calls Orchestrator.Drafting.ApprovesNoPlan) s.below := by
    refine hset.below.mono fun s a hc => ?_
    cases a with
    | call p c => exact hc hass
    | _ => exact trivial
  obtain ⟨hplan, hpack⟩ := Orchestrator.Drafting.drafting ocfg hbelow
  exact ⟨fun hst =>
    Orchestrator.Drafting.planned_ne hplan hst rfl (by decide), hpack⟩

/-- The condition on reviews is needed: a pulled review is approved
without asking, two moves later. -/
theorem slighted_of_pulled {ocfg : Orchestrator.Config} {cfg : Settings}
    {s : State} {t : Frame × RunStatus}
    (hp : s.prog = some (.ret (.again t))) (hnone : s.below.procs () = none)
    (hans : (policy.state s.store.log).answer = none)
    (hpull : PulledReview t s.store.log) :
    ∃ s₁ s₂, (worker cfg).apply (Orchestrator.machine ocfg) .proceed s =
        some s₁ ∧
      (worker cfg).apply (Orchestrator.machine ocfg) .proceed s₁ = some s₂ ∧
      ¬ policy.Accepts s₂.store.log := by
  obtain ⟨⟨site, level, env, assignee⟩, ⟨id, stage, v, paused, kind, ck⟩⟩ := t
  obtain ⟨hlevel, hpaused, hgate, hst, hpulled⟩ := hpull
  dsimp only at hlevel hpaused hgate hst
  subst hlevel hpaused hgate hst
  -- the turn comes at once to the call, without a request before it
  obtain ⟨k, hbody⟩ : ∃ k, body cfg
      (⟨site, .l2Delegated, env, assignee⟩,
        ⟨id, .changeReviewGate, v, true, some .gate, ck⟩) =
      .op (.call (.approveChangeReview id "approve" none)
        (.drive .l2Delegated)) k := ⟨_, rfl⟩
  have hagain := Host.apply_again (M := Orchestrator.machine ocfg)
    (H := worker cfg) hp
  obtain ⟨s₂, happ, hstore⟩ := Host.apply_called
    (M := Orchestrator.machine ocfg) (H := worker cfg)
    (s := { s with prog := some (body cfg
      (⟨site, .l2Delegated, env, assignee⟩,
        ⟨id, .changeReviewGate, v, true, some .gate, ck⟩)) })
    (congrArg some hbody) hnone
  refine ⟨_, s₂, hagain, happ, fun hacc => ?_⟩
  rw [hstore] at hacc
  have hallowed : policy.allowed (policy.state s.store.log)
      (.called (.approveChangeReview id "approve" none)
        (.drive .l2Delegated) s.below.world.run
        s.below.world.plans.latest) := by
    refine (Monitor.accepts_snoc.1 ?_).2
    rw [← log_onCall]
    exact hacc
  rcases hallowed rfl with hasked | hwaived
  · rw [hans] at hasked
    cases hasked
  · rw [hpulled] at hwaived
    cases hwaived

/-- A run at L2 without a checkpoint, up to the review nobody was asked
about. -/
def reviewedRun : List Act :=
  Sample.once ++ Sample.authored [Orchestrator.Sample.task "t1"] ++
    Sample.approved ++ [.below Orchestrator.Sample.diff] ++ stepping 1 ++
    [.below (.time 0)] ++ stepping 4 ++
    [.below (.verdict (.returned ⟨true, "ok"⟩))] ++ stepping 4 ++
    [.proceed, .proceed, .proceed]

theorem policy_honoured_reviewed :
    ∃ s, Reach Orchestrator.Sample.cfg (Sample.settings "L2")
        (Heeding (Sample.settings "L2")) s ∧
      s.below.world.run.stage = .changeReviewGate ∧
      Honoured (Sample.settings "L2") s := by
  obtain ⟨s, hs, htest⟩ := reach_of_plays (Sample.settings "L2")
    Sample.initial_sample (heeds (Sample.settings "L2")) (fun _ _ h => h)
    reviewedRun
    (fun s => decide (s.below.world.run.stage = .changeReviewGate))
    (by decide +kernel)
  exact ⟨s, hs, of_decide_eq_true htest,
    policy_honoured Orchestrator.Sample.cfg (Sample.settings "L2") hs⟩

/-- A run at L0 whose plan the terminal approves. -/
def assistedRun : List Act :=
  Sample.once ++ Sample.authored [Orchestrator.Sample.task "t1"] ++
    [.proceed, .own .auto, .own (.decision (.returned (some "approve"))),
      .proceed] ++ stepping 2

/-- A run at L2 that comes to its review after a checkpoint. -/
def pulledRun : List Act :=
  Sample.once ++ Sample.authored [Orchestrator.Sample.task "t1"] ++
    Sample.approved ++ Sample.strayed "src/other.py" "c1" ++
    [.proceed, .own (.decision (.returned (some "continue"))), .proceed] ++
    stepping 1 ++ [.below (.time 0)] ++ stepping 11 ++
    [.below (.verdict (.returned ⟨true, "ok"⟩))] ++ stepping 4 ++
    [.proceed, .proceed, .proceed]

/-- The last event of a state's log is not one the policy allows. -/
def lastRefused (s : State) : Bool :=
  match s.store.log.getLast? with
  | some (.called (.approveChangeReview _ "approve" _) (.drive level) _ _) =>
    let m := policy.state s.store.log.dropLast
    decide (m.answer ≠ some "approve") &&
      requiresChangeReviewGate level m.pulled
  | _ => false

theorem not_accepts_of_lastRefused {s : State} (h : lastRefused s = true) :
    ¬ policy.Accepts s.store.log := by
  unfold lastRefused at h
  split at h
  · next id fb level row plan hlast =>
    intro hacc
    obtain ⟨pre, hlog⟩ := List.getLast?_eq_some_iff.1 hlast
    rw [hlog] at hacc h
    rw [List.dropLast_concat] at h
    obtain ⟨hans, hreq⟩ := (Bool.and_eq_true _ _).mp h
    rcases (Monitor.accepts_snoc.1 hacc).2 rfl with hasked | hwaived
    · exact of_decide_eq_true hans hasked
    · rw [hreq] at hwaived
      cases hwaived
  · cases h

/-- At L0 an approved plan is implemented, and at L2 a review is waived
after a checkpoint. -/
theorem policy_slighted :
    (∃ s, Reach Orchestrator.Sample.cfg (Sample.settings "L0")
        (fun _ _ => True) s ∧ ¬ Honoured (Sample.settings "L0") s) ∧
      ∃ s, Reach Orchestrator.Sample.cfg (Sample.settings "L2")
        (fun _ _ => True) s ∧ ¬ policy.Accepts s.store.log := by
  constructor
  · obtain ⟨s, hs, htest⟩ := reach_of_plays (Sample.settings "L0")
      Sample.initial_sample (fun _ _ => true) (fun _ _ _ => trivial)
      assistedRun
      (fun s => decide (s.below.world.run.stage = .implementation))
      (by decide +kernel)
    exact ⟨s, hs, fun hhon =>
      (hhon.assisted (by decide)).1 (of_decide_eq_true htest)⟩
  · obtain ⟨s, hs, htest⟩ := reach_of_plays (Sample.settings "L2")
      Sample.initial_sample (fun _ _ => true) (fun _ _ _ => trivial)
      pulledRun lastRefused (by decide +kernel)
    exact ⟨s, hs, not_accepts_of_lastRefused htest⟩

end Autonomy

end SdlcOs.Worker
