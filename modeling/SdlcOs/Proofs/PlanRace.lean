/-
Plans under interference: which plan the backend works from.

The registry refuses a move under a stale version; the plan store takes
whatever is saved last. A slow `author_plan` or `re_plan` therefore
saves its plan before its own move is refused, and if another process's
plan has been approved meanwhile, the saved one takes its place.

`Timely` excludes exactly that: no authored plan is saved once the run
has left planning. What is saved then is what `resolve_checkpoint` saves:
a plan it loaded after the approval, with the files of an elicitation
that was answered "extend_scope" (`Widened`).
-/
import SdlcOs.Orchestrator.Script
import SdlcOs.Proofs.Conc.Rows

namespace SdlcOs.Orchestrator

open Effects
open Registry (Stage Result ErrorInfo)

namespace PlanRace

open Conc

-- ==== vocabulary

/-- An elicitation answered with the extension of the scope. -/
def Extension (e : Elicitation) : Prop :=
  e.trigger = .risk ∧ ∃ note now, e.resolution = some ⟨"extend_scope", note, now⟩

/-- A plan, or a later version of it that differs by answered extensions
of its scope. -/
inductive Widened (hist : List Event) (plan : PlanArtifact) :
    PlanArtifact → Prop
  | same : Widened hist plan plan
  | extend {a : PlanArtifact} {e : Elicitation} (now : Time)
      (h : Widened hist plan a) (he : .answered e ∈ hist)
      (hext : Extension e) :
      Widened hist plan (a.extendScope e.details.outOfScopeFiles now)

theorem Widened.mono {hist hist' : List Event} {plan a : PlanArtifact}
    (hsub : hist ⊆ hist') (h : Widened hist plan a) :
    Widened hist' plan a := by
  induction h with
  | same => exact .same
  | extend now _ he hext ih => exact .extend now ih (hsub he) hext

/-- Extending the scope leaves the subtasks alone. -/
theorem Widened.subtasks {hist : List Event} {plan a : PlanArtifact}
    (h : Widened hist plan a) : a.subtasks = plan.subtasks := by
  induction h with
  | same => rfl
  | extend now _ _ _ ih => exact ih

/-- A plan the run's approval covers. -/
def Sanctioned (w : World) (a : PlanArtifact) : Prop :=
  ∀ ap, .approved ap ∈ w.hist → ∃ plan, ap = some plan ∧
    Widened w.hist plan a

/-- The plan an action saves as an author or a re-planner. -/
def authors {Pid : Type} (s : State Pid) (p : Pid) : Bool :=
  match s.procs p with
  | some ⟨.entry (.resolveCheckpoint ..), _, _⟩ => false
  | some ⟨_, _, .op (.savePlan _) _⟩ => true
  | _ => false

/-- No authored plan is saved once the run has left planning. -/
def Timely {Pid : Type} (s : State Pid) : Act Pid → Prop
  | .step p _ => authors s p = true → s.world.run.stage.planning = true
  | _ => True

instance {Pid : Type} (s : State Pid) (a : Act Pid) :
    Decidable (Timely s a) :=
  match a with
  | .call _ _ => isTrue trivial
  | .step _ _ => inferInstanceAs (Decidable (_ → _))
  | .crash _ => isTrue trivial

-- ==== the invariant

/-- The latest plan is covered by the approval, and what comes after
planning comes after it. -/
structure Inv (w : World) : Prop where
  covered : ∀ a, w.plans.latest = some a → Sanctioned w a
  approved : ∀ ap, .approved ap ∈ w.hist → w.run.stage.planning = false
  asked : ∀ e, pendingCheckpoint w.run = .ok (some e) →
    w.run.stage.planning = false
  answered : ∀ e, .answered e ∈ w.hist → w.run.stage.planning = false

/-- What every action does: the row moves on, nothing is forgotten, and
nothing is approved after planning. -/
structure Rel (w w' : World) : Prop where
  row : Later w.run w'.run
  hist : w.hist ⊆ w'.hist
  approved : w.run.stage.planning = false → ∀ ap,
    .approved ap ∈ w'.hist → .approved ap ∈ w.hist

theorem Rel.refl (w : World) : Rel w w :=
  ⟨.refl _, List.Subset.refl _, fun _ _ h => h⟩

theorem Rel.sanctioned {w w' : World} {a : PlanArtifact} (h : Rel w w')
    (hpast : w.run.stage.planning = false) (ha : Sanctioned w a) :
    Sanctioned w' a := by
  intro ap hap
  obtain ⟨plan, hplan, hwide⟩ := ha ap (h.approved hpast ap hap)
  exact ⟨plan, hplan, hwide.mono h.hist⟩

/-- The events that approve a plan or answer a checkpoint. -/
def decides : Event → Bool
  | .approved _ => true
  | .answered _ => true
  | _ => false

/-- An action that leaves plans and pointer alone and decides nothing. -/
structure Calm (w w' : World) : Prop where
  row : Later w.run w'.run
  pointer : w'.run.checkpointPointer = w.run.checkpointPointer
  plans : w'.plans = w.plans
  hist : w.hist ⊆ w'.hist
  decided : ∀ ev ∈ w'.hist, decides ev = true → ev ∈ w.hist

theorem Calm.rel {w w' : World} (h : Calm w w') : Rel w w' :=
  ⟨h.row, h.hist, fun _ _ hap => h.decided _ hap rfl⟩

theorem Calm.inv {w w' : World} (h : Calm w w') (hinv : Inv w) : Inv w' where
  covered := by
    intro a ha ap hap
    rw [h.plans] at ha
    obtain ⟨plan, hplan, hwide⟩ :=
      hinv.covered a ha ap (h.decided _ hap rfl)
    exact ⟨plan, hplan, hwide.mono h.hist⟩
  approved := fun ap hap =>
    h.row.past (hinv.approved ap (h.decided _ hap rfl))
  asked := by
    intro e he
    have hpend : pendingCheckpoint w'.run = pendingCheckpoint w.run := by
      rw [pendingCheckpoint, pendingCheckpoint, h.pointer]
    exact h.row.past (hinv.asked e (hpend.symm.trans he))
  answered := fun e he =>
    h.row.past (hinv.answered e (h.decided _ he rfl))

theorem calm_record (w : World) {ev : Event} (hev : decides ev = false) :
    Calm w (w.record ev) where
  row := .refl _
  pointer := rfl
  plans := rfl
  hist := List.subset_cons_self _ _
  decided := by
    intro ev' hmem hdec
    rcases List.mem_cons.1 hmem with rfl | hmem
    · rw [hev] at hdec
      cases hdec
    · exact hmem

theorem calm_refl (w : World) : Calm w w :=
  ⟨.refl _, rfl, rfl, List.Subset.refl _, fun _ h _ => h⟩

/-- The requests that save a plan, move the run or write a pointer. -/
def decisive : Req → Bool
  | .savePlan _ | .transitionStage .. | .writeCheckpoint .. => true
  | _ => false

theorem exec_calm {w : World} {e : Req} {x : Env e}
    (he : decisive e = false) : Calm w (w.exec e x).1 := by
  cases e with
  | savePlan a => cases he
  | transitionStage t id v next => cases he
  | writeCheckpoint t id v ptr => cases he
  | appendAttempt t id v reason start trace =>
    have hrow := exec_later w (.appendAttempt t id v reason start trace) x
    rcases World.exec_appendAttempt_inv reason start trace x with
      ⟨res, hsame, _⟩ | ⟨_, _, hland⟩
    · rw [hsame]
      exact calm_refl w
    · rw [hland] at hrow ⊢
      exact ⟨hrow, rfl, rfl, List.Subset.refl _, fun _ h _ => h⟩
  | authorPlan ctx =>
    cases x with
    | returned out => exact calm_record w rfl
    | raised exc => exact calm_refl w
  | rePlan ctx feedback =>
    cases x with
    | returned out => exact calm_record w rfl
    | raised exc => exact calm_refl w
  | implementSubtask site ctx st => exact calm_record w rfl
  | implementSubtasksParallel ctx sts => exact calm_record w rfl
  | verify ctx => exact calm_record w rfl
  | packaging run => exact calm_record w rfl
  | saveProgress progress =>
    exact ⟨.refl _, rfl, rfl, List.Subset.refl _, fun _ h _ => h⟩
  | _ => exact calm_refl w

-- ==== decisive requests

section Decisive

variable {w : World}

theorem moved_rel {next : Stage}
    (hlegal : w.run.stage.isLegalTransition next = true) :
    Rel w (w.moved next) := by
  refine ⟨.bumped rfl (Stage.planning_of_legal hlegal),
    List.subset_append_right _ _, ?_⟩
  intro hpast ap hap
  have hst : w.run.stage ≠ .planApprovalGate := by
    intro hst
    rw [hst] at hpast
    cases hpast
  rw [World.moved_hist_of_ne hst] at hap
  exact hap

/-- A move keeps the invariant; the approval of a plan covers the latest
one. -/
theorem moved_inv {next : Stage} (hinv : Inv w)
    (hlegal : w.run.stage.isLegalTransition next = true) :
    Inv (w.moved next) := by
  have hrel := moved_rel hlegal
  by_cases happ : w.run.stage = .planApprovalGate ∧ next = .implementation
  · -- nothing was approved before
    have hnone : ∀ ap, Event.approved ap ∉ w.hist := by
      intro ap hap
      have hpast := hinv.approved ap hap
      rw [happ.1] at hpast
      cases hpast
    have hhist : (w.moved next).hist = .approved w.plans.latest :: w.hist := by
      show w.moveEvents next ++ w.hist = _
      rw [World.moveEvents, if_pos happ]
      rfl
    have hpast : (w.moved next).run.stage.planning = false := by
      rw [World.moved_stage, happ.2]
      rfl
    refine ⟨?_, fun _ _ => hpast, fun _ _ => hpast, fun _ _ => hpast⟩
    intro a ha ap hap
    rw [hhist] at hap
    rcases List.mem_cons.1 hap with hap | hap
    · injection hap with hap
      exact ⟨a, hap.trans ha, .same⟩
    · exact absurd hap (hnone ap)
  · have hhist : (w.moved next).hist = w.hist := by
      show w.moveEvents next ++ w.hist = _
      rw [World.moveEvents, if_neg happ]
      rfl
    refine Calm.inv ⟨hrel.row, rfl, rfl, hrel.hist, ?_⟩ hinv
    intro ev hev _
    rw [hhist] at hev
    exact hev

theorem pointed_rel (w : World) (ptr : Pointer) : Rel w (w.pointed ptr) := by
  refine ⟨.bumped rfl fun h => h, List.subset_append_right _ _, ?_⟩
  intro _ ap hap
  rcases List.mem_append.1 hap with hap | hap
  · unfold World.pointerEvents at hap
    split at hap
    · split at hap
      · cases List.mem_singleton.1 hap
      · cases hap
    · cases hap
  · exact hap

theorem pointed_inv {ptr : Pointer} (hinv : Inv w)
    (hpast : w.run.stage.planning = false) : Inv (w.pointed ptr) := by
  have hrel := pointed_rel w ptr
  refine ⟨?_, fun _ _ => hpast, fun _ _ => hpast, fun _ _ => hpast⟩
  intro a ha
  exact hrel.sanctioned hpast (hinv.covered a ha)

theorem planSaved_rel (w : World) (a : PlanArtifact) :
    Rel w (w.planSaved a) :=
  ⟨.refl _, List.Subset.refl _, fun _ _ h => h⟩

theorem planSaved_inv {a : PlanArtifact} (hinv : Inv w)
    (ha : Sanctioned w a) : Inv (w.planSaved a) := by
  refine ⟨?_, hinv.approved, hinv.asked, hinv.answered⟩
  intro b hb
  rw [World.planSaved_latest] at hb
  obtain rfl := Option.some.inj hb
  exact ha

theorem sanctioned_of_planning {a : PlanArtifact} (hinv : Inv w)
    (hplan : w.run.stage.planning = true) : Sanctioned w a := by
  intro ap hap
  have hpast := hinv.approved ap hap
  rw [hplan] at hpast
  cases hpast

end Decisive

-- ==== the discipline

/-- A process that has been told planning is over: its turn began later,
or it has answered a checkpoint. -/
def Past (ph : Phase Call Run) (lg : Heard) : Prop :=
  (∃ st, ph = .loop st ∧ st.stage.planning = false) ∨ ∃ e, Answered lg e

/-- The plans a process loaded after planning are sanctioned. -/
def Loaded (ph : Phase Call Run) (w : World) : Heard → Prop
  | [] => True
  | ⟨.loadLatest _, some a⟩ :: lg =>
    (Past ph lg → w.run.stage.planning = false ∧ Sanctioned w a) ∧
      Loaded ph w lg
  | _ :: lg => Loaded ph w lg

/-- What a process knows. -/
structure Knows (ph : Phase Call Run) (lg : Heard) (w : World) : Prop where
  rows : Rows ph lg w
  answered : ∀ e, Answered lg e → .answered e ∈ w.hist
  loaded : Loaded ph w lg

/-- The discipline of processes whose plans are saved in time. -/
def discipline : Discipline Resp Env World Call Run where
  may := asks
  handsOn := Holds
  assume := fun ph _ w e _ => ∀ a, e = .savePlan a →
    (∀ id decision note, ph ≠ .entry (.resolveCheckpoint id decision note)) →
      w.run.stage.planning = true
  inv := Inv
  rel := Rel
  knows := Knows

section Knows

variable {ph : Phase Call Run} {lg : Heard} {w w' : World}

theorem Loaded.stable (hrel : Rel w w') :
    ∀ {lg : Heard}, Loaded ph w lg → Loaded ph w' lg := by
  intro lg
  induction lg with
  | nil => exact fun _ => trivial
  | cons x lg ih =>
    obtain ⟨e, r⟩ := x
    cases e with
    | loadLatest id =>
      cases r with
      | none => exact ih
      | some a =>
        rintro ⟨ha, h⟩
        refine ⟨fun hpast => ?_, ih h⟩
        obtain ⟨hp, hs⟩ := ha hpast
        exact ⟨hrel.row.past hp, hrel.sanctioned hp hs⟩
    | _ => exact ih

theorem Loaded.sanctioned {a : PlanArtifact} {st : Run}
    (hst : st.stage.planning = false) :
    ∀ {lg : Heard}, Loaded (.loop st) w lg → Loads lg a →
      Sanctioned w a := by
  intro lg
  induction lg with
  | nil =>
    rintro _ ⟨id, hmem⟩
    cases hmem
  | cons x lg ih =>
    rintro h ⟨id, hmem⟩
    rcases List.mem_cons.1 hmem with rfl | hmem
    · exact (h.1 (Or.inl ⟨st, rfl, hst⟩)).2
    · refine ih ?_ ⟨id, hmem⟩
      obtain ⟨e, r⟩ := x
      cases e with
      | loadLatest id =>
        cases r with
        | none => exact h
        | some b => exact h.2
      | _ => exact h

theorem Knows.past (hk : Knows ph lg w) (hinv : Inv w) (h : Past ph lg) :
    w.run.stage.planning = false := by
  rcases h with ⟨st, rfl, hst⟩ | ⟨e, he⟩
  · exact (hk.rows st (Or.inl rfl)).past hst
  · exact hinv.answered e (hk.answered e he)

theorem answered_asked {e : Req} {x : Env e}
    (hrel : w.hist ⊆ (w.exec e x).1.hist)
    (hk : ∀ el, Answered lg el → .answered el ∈ w.hist) (el : Elicitation)
    (h : Answered (⟨e, (w.exec e x).2⟩ :: lg) el) :
    .answered el ∈ (w.exec e x).1.hist := by
  obtain ⟨hres, t, id, v, run, hmem⟩ := h
  rcases List.mem_cons.1 hmem with hhead | hmem
  · cases e with
    | writeCheckpoint t' id' v' ptr =>
      rcases World.exec_writeCheckpoint_inv ptr x with ⟨res, hsame, hno⟩ |
        ⟨_, hland⟩
      · rw [hsame] at hhead
        cases hhead
        exact absurd rfl (hno run)
      · rw [hland] at hhead ⊢
        cases hhead
        show _ ∈ World.pointerEvents (.elicitation el) ++ w.hist
        rw [World.pointerEvents, if_pos hres]
        exact List.mem_append.2 (Or.inl (List.mem_singleton.2 rfl))
    | _ => cases hhead
  · exact hrel (hk el ⟨hres, t, id, v, run, hmem⟩)

theorem loaded_asked {e : Req} {x : Env e} (hinv : Inv w)
    (hk : Knows ph lg w) (hrel : Rel w (w.exec e x).1) :
    Loaded ph (w.exec e x).1 (⟨e, (w.exec e x).2⟩ :: lg) := by
  have hold := hk.loaded.stable hrel
  cases e with
  | loadLatest id =>
    show Loaded ph w (⟨.loadLatest id, w.plans.latest⟩ :: lg)
    cases hlatest : w.plans.latest with
    | none => exact hold
    | some a =>
      exact ⟨fun hpast => ⟨hk.past hinv hpast, hinv.covered a hlatest⟩,
        hold⟩
  | _ => exact hold

theorem sanctioned_of_widens {decision : String} {note : Option String}
    {a : PlanArtifact} (hk : Knows ph lg w)
    (h : Widens decision note lg a) : Sanctioned w a := by
  obtain ⟨rfl, e, now, base, id, t, lg', hrisk, hans, rfl, rfl⟩ := h
  have hbase := (hk.loaded.1 (Or.inr ⟨_, hans⟩)).2
  intro ap hap
  obtain ⟨plan, hplan, hwide⟩ := hbase ap hap
  have hin : .answered (e.resolve "extend_scope" note now) ∈ w.hist := by
    refine hk.answered _ ?_
    exact ((grown_cons ⟨.loadLatest id, some base⟩ lg').cons rfl).answered hans
  have hstep := Widened.extend (e := e.resolve "extend_scope" note now) t
    hwide hin ⟨hrisk, note, now, rfl⟩
  exact ⟨plan, hplan, hstep⟩

theorem past_of_points {run : Run} {ptr : Pointer} (hinv : Inv w)
    (hrun : w.run = run) (h : Points ph run ptr) :
    w.run.stage.planning = false := by
  cases ptr with
  | foreign text => exact h.elim
  | elicitation e =>
    rcases h with ⟨_, _, hst⟩ | ⟨_, _, _, pending, _, _, hpend, _⟩
    · rw [hrun]
      exact hst
    · exact hinv.asked pending (by rw [hrun]; exact hpend)

end Knows

theorem asked_inv {ph : Phase Call Run} {lg : Heard} {w : World} {e : Req}
    {x : Env e} (hinv : Inv w) (hk : Knows ph lg w) (hmay : asks ph lg e)
    (hok : discipline.assume ph lg w e x) :
    Inv (w.exec e x).1 ∧ Rel w (w.exec e x).1 := by
  cases hdec : decisive e with
  | false =>
    have hcalm : Calm w (w.exec e x).1 := exec_calm hdec
    exact ⟨hcalm.inv hinv, hcalm.rel⟩
  | true =>
    cases e with
    | savePlan a =>
      refine ⟨planSaved_inv hinv ?_, planSaved_rel w a⟩
      cases ph with
      | loop st =>
        refine sanctioned_of_planning hinv (hok a rfl ?_)
        exact fun _ _ _ hc => by cases hc
      | entry c =>
        cases c with
        | resolveCheckpoint id decision note =>
          exact sanctioned_of_widens hk hmay
        | _ =>
          refine sanctioned_of_planning hinv (hok a rfl ?_)
          exact fun _ _ _ hc => by cases hc
    | transitionStage t id v next =>
      rcases World.exec_transition_inv next x with ⟨res, hsame, _⟩ |
        ⟨_, hlegal, hland⟩
      · rw [hsame]
        exact ⟨hinv, .refl w⟩
      · rw [hland]
        exact ⟨moved_inv hinv hlegal, moved_rel hlegal⟩
    | writeCheckpoint t id v ptr =>
      rcases World.exec_writeCheckpoint_inv ptr x with ⟨res, hsame, _⟩ |
        ⟨hv, hland⟩
      · rw [hsame]
        exact ⟨hinv, .refl w⟩
      · rw [hland]
        obtain ⟨run, hheld, hrv, hpoints⟩ := hmay
        have hrun := hk.rows.lands hheld (hv.trans hrv)
        exact ⟨pointed_inv hinv (past_of_points hinv hrun hpoints),
          pointed_rel w ptr⟩
    | _ => cases hdec

theorem sound (cfg : Config) : discipline.Sound (machine cfg) where
  stable := fun hrel hk => ⟨hk.rows.stable hrel.row,
    fun e he => hrel.hist (hk.answered e he), hk.loaded.stable hrel⟩
  called := fun _ hinv => ⟨(calm_record _ rfl).inv hinv, (calm_record _ rfl).rel⟩
  stopped := fun hinv => ⟨(calm_record _ rfl).inv hinv, (calm_record _ rfl).rel⟩
  entered := by
    intro w c _
    refine ⟨rows_entry c w, ?_, trivial⟩
    rintro e ⟨_, _, _, _, _, hmem⟩
    cases hmem
  asked := by
    intro w ph lg e x hinv hk hmay hok
    obtain ⟨hinv', hrel⟩ := asked_inv hinv hk hmay hok
    exact ⟨hinv', hrel, hk.rows.asked, answered_asked hrel.hist hk.answered,
      loaded_asked hinv hk hrel⟩
  again := by
    intro w ph lg st _ hk hheld
    refine ⟨hk.rows.again hheld, ?_, trivial⟩
    rintro e ⟨_, _, _, _, _, hmem⟩
    cases hmem

theorem inv_initial {cfg : Config} {w : World} (h : Initial cfg w) :
    Inv w := by
  have hrow := h.row
  obtain ⟨_, _, _, _, _, _, _, _, _, _, _, hhist⟩ := h
  refine ⟨?_, ?_, ?_, ?_⟩
  · intro a _ ap hap
    rw [hhist] at hap
    cases hap
  · intro ap hap
    rw [hhist] at hap
    cases hap
  · intro e he
    rw [pendingCheckpoint, hrow.2] at he
    cases he
  · intro e he
    rw [hhist] at he
    cases he

-- ==== results

/-- Whatever the interleaving, the backend is handed subtasks of a plan
the turn loaded, and every plan the turn loaded is the one that was
latest when the run's plan was approved, or that plan with answered
extensions of its scope. -/
theorem implements_approved_plan (cfg : Config) {Pid : Type}
    [DecidableEq Pid] {s : State Pid}
    (hs : (machine cfg).Reach (Initial cfg) Timely s) {p : Pid}
    {pr : Proc Resp Err Call Run RunStatus} {e : Req}
    {k : Resp e → Code Turn} (hp : s.procs p = some pr)
    (hprog : pr.prog = .op e k) (he : e.implements = true)
    {ap : Option PlanArtifact} (hap : .approved ap ∈ s.world.hist) :
    (∃ a, WorksFrom pr.log e a) ∧ ∀ a, Loads pr.log a →
      ∃ plan, ap = some plan ∧ Widened s.world.hist plan a := by
  have hall : Machine.Allows (machine cfg) discipline
      (Timely : State Pid → Act Pid → Prop) := by
    rintro s p ans ⟨ph, lg, prog⟩ e k x hc hp rfl _ a rfl hph
    refine hc ?_
    unfold authors
    rw [hp]
    cases ph with
    | loop st => rfl
    | entry c =>
      cases c with
      | resolveCheckpoint id decision note => exact absurd rfl (hph _ _ _)
      | _ => rfl
  have hord := Machine.Reach.interleaved (follows_of_asks rfl rfl cfg)
    (sound cfg) Rel.refl (fun _ => inv_initial) hall hs
  have hpr := hord.procs p pr hp
  have hmay : asks pr.phase pr.log e := hpr.may hprog
  have himp : Implements pr.phase pr.log e := by
    cases e <;> first | exact hmay | cases he
  obtain ⟨⟨st, hph, hst⟩, hfrom⟩ := himp
  refine ⟨hfrom, fun a ha => ?_⟩
  have hloaded : Loaded pr.phase s.world pr.log := hpr.knows.loaded
  rw [hph] at hloaded
  exact hloaded.sanctioned (by rw [hst]; rfl) ha ap hap

/-- An approval is on record. -/
def approves : Event → Bool
  | .approved _ => true
  | _ => false

/-- The scope is extended by one process and the next subtask handed out
by the other. -/
theorem implements_approved_plan_extended :
    ∃ (s : State Bool) (pr : Proc Resp Err Call Run RunStatus) (e : Req)
      (k : Resp e → Code Turn) (ap : Option PlanArtifact),
      (machine Sample.cfg).Reach (Initial Sample.cfg) Timely s ∧
      s.procs false = some pr ∧ pr.prog = .op e k ∧ e.implements = true ∧
      .approved ap ∈ s.world.hist ∧
      (∃ a, WorksFrom pr.log e a) ∧ ∀ a, Loads pr.log a →
        ∃ plan, ap = some plan ∧ Widened s.world.hist plan a := by
  obtain ⟨s, hs, htest⟩ := reach_of_plays_checked Sample.initial_sample
    Timely (Sample.strayed true [Sample.task "t1", Sample.task "t2"] ++
      calling false (.resolveCheckpoint "run" "extend_scope" none) 1 ++
      answering false (.time 0) 4 ++ answering false (.time 0) 6)
    (fun s => asking s false Req.implements && s.world.hist.any approves)
    (by decide +kernel)
  rw [Bool.and_eq_true, List.any_eq_true] at htest
  obtain ⟨e, ⟨pr, k, hp, hprog⟩, he⟩ := asking_inv htest.1
  obtain ⟨ev, hev, happ⟩ := htest.2
  cases ev with
  | approved ap =>
    exact ⟨s, pr, e, k, ap, hs, hp, hprog, he, hev,
      implements_approved_plan _ hs hp hprog he hev⟩
  | _ => cases happ

/-- The process is about to hand out work, and has loaded a plan with
other subtasks than the approved one. -/
def swapped (s : State Bool) (p : Bool) : Bool :=
  match s.procs p with
  | some ⟨_, lg, .op e _⟩ =>
    e.implements && lg.any fun x =>
      match x with
      | ⟨.loadLatest _, some a⟩ => s.world.hist.any fun ev =>
        match ev with
        | .approved (some plan) => a.subtasks ≠ plan.subtasks
        | _ => false
      | _ => false
  | _ => false

theorem swapped_inv {s : State Bool} {p : Bool} (h : swapped s p = true) :
    ∃ (pr : Proc Resp Err Call Run RunStatus) (e : Req)
      (k : Resp e → Code Turn) (plan a : PlanArtifact),
      s.procs p = some pr ∧ pr.prog = .op e k ∧ e.implements = true ∧
      .approved (some plan) ∈ s.world.hist ∧ Loads pr.log a ∧
      a.subtasks ≠ plan.subtasks := by
  unfold swapped at h
  split at h
  · next ph lg e k hp =>
    rw [Bool.and_eq_true, List.any_eq_true] at h
    obtain ⟨he, x, hx, hload⟩ := h
    split at hload
    · next id a =>
      rw [List.any_eq_true] at hload
      obtain ⟨ev, hev, hne⟩ := hload
      split at hne
      · next plan =>
        exact ⟨_, e, k, plan, a, hp, rfl, he, hev, ⟨id, hx⟩,
          of_decide_eq_true hne⟩
      · cases hne
    · cases hload
  · cases h

/-- Two processes author a plan. One plan is approved; the other, slower,
is then saved over it, and the backend is handed its subtask. -/
theorem late_plan_implemented :
    ¬ ∀ (s : State Bool) (p : Bool) (pr : Proc Resp Err Call Run RunStatus)
      (e : Req) (k : Resp e → Code Turn) (ap : Option PlanArtifact),
      (machine Sample.cfg).Reach (Initial Sample.cfg) (fun _ _ => True) s →
        s.procs p = some pr → pr.prog = .op e k → e.implements = true →
          .approved ap ∈ s.world.hist →
            (∃ a, WorksFrom pr.log e a) ∧ ∀ a, Loads pr.log a →
              ∃ plan, ap = some plan ∧ Widened s.world.hist plan a := by
  intro hclaim
  obtain ⟨s, hs, htest⟩ := reach_of_plays_free Sample.initial_sample
    (calling true (.resumeRun "run") 7 ++
      calling false (.resumeRun "run") 3 ++
      answering true (.plan (.returned (Sample.plan [Sample.task "t1"]))) 1 ++
      answering true (.time 0) 3 ++
      calling true (.approvePlan "run" "approve" none) 2 ++
      answering false (.plan (.returned (Sample.plan [Sample.task "t2"]))) 1 ++
      answering false (.time 0) 1 ++ answering true (.time 0) 6)
    (fun s => swapped s true) (by decide +kernel)
  obtain ⟨pr, e, k, plan, a, hp, hprog, he, hap, ha, hne⟩ := swapped_inv htest
  obtain ⟨plan', hplan', hwide⟩ :=
    (hclaim s true pr e k _ hs hp hprog he hap).2 a ha
  cases hplan'
  exact hne hwide.subtasks

end PlanRace

end SdlcOs.Orchestrator
