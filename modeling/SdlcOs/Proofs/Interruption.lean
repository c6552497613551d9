/-
Interruptions and the pointer of a paused run.

# One field, two writers

The orchestrator keeps the question a run is paused on in the run's
`checkpoint_pointer`, and decodes the pointer at the start of every turn.
The interruption watcher puts the pointer it is given into the same
field. Each write is under a valid version, so the registry orders them
but does not tell them apart.

# What is true

The orchestrator alone never loses a question: only the answer to it is
written over it, and what it writes it can decode. So it comes down to the
watcher. `Gently` is what its write must be where it lands: the text of an
elicitation and, over a pending one, that very one. Then every question is
still there or answered, and every pointer decodes (`pending_kept`); any
other landing breaks one of the two (`harsh_breaks`).
-/
import SdlcOs.Effects.Parallel
import SdlcOs.Orchestrator.Script
import SdlcOs.Proofs.Conc.Rows
import SdlcOs.TenantCell.Watcher

namespace SdlcOs.TenantCell

open Effects
open Registry (Stage Result)
open Orchestrator (World Run Pointer Elicitation Event Config RunStatus
  pendingCheckpoint)
open Orchestrator.Conc (Heard Holds Rows Later)

-- ==== system

/-- Orchestrator processes and watchers over one run. -/
def both (cfg : Config) (observability : Bool) :
    Machines Orchestrator.Resp Orchestrator.Env Resp Env World
      Orchestrator.Answer Orchestrator.Err Orchestrator.Call Run RunStatus
      Answer Orchestrator.Exn Interruption Empty InterruptionResult :=
  ⟨Orchestrator.machine cfg, machine observability⟩

/-- Its states. -/
abbrev State (Pid₁ Pid₂ : Type) : Type :=
  Pair Orchestrator.Resp Resp World Orchestrator.Err Orchestrator.Call Run
    RunStatus Pid₁ Orchestrator.Exn Interruption Empty InterruptionResult Pid₂

/-- Its actions. -/
abbrev Act (Pid₁ Pid₂ : Type) : Type :=
  Action Pid₁ Orchestrator.Answer Orchestrator.Call ⊕
    Action Pid₂ Answer Interruption

/-- The run is paused on this elicitation. -/
def Pending (w : World) (e : Elicitation) : Prop :=
  pendingCheckpoint w.run = .ok (some e)

/-- The row's pointer can be decoded. -/
def Decodes (run : Run) : Prop := ∃ c, pendingCheckpoint run = .ok c

/-- A checkpoint of the watcher that the registry takes is the text of an
elicitation and, over a pending one, of that very one. -/
def Gently (w : World) : Req → Prop
  | .writeCheckpoint t id v pointer =>
    Accepts w.run t id v pointer →
      (∃ e, pointer = .elicitation e) ∧
        ∀ e, Pending w e → pointer = .elicitation e
  | _ => True

/-- No watcher lands anything else. -/
def Gentle {Pid₁ Pid₂ : Type} (s : State Pid₁ Pid₂) : Act Pid₁ Pid₂ → Prop
  | .inr (.step q _) => ∀ e, s.second.Asks q e → Gently s.world e
  | _ => True

-- ==== relation

/-- What an action may do to a question: keep it, or answer it. -/
structure Kept (w w' : World) : Prop where
  row : Later w.run w'.run
  asked : ∃ new, w'.hist = new ++ w.hist ∧ ∀ e, Pending w e →
    Pending w' e ∨
      ∃ decision note now, .answered (e.resolve decision note now) ∈ new

theorem Kept.refl (w : World) : Kept w w :=
  ⟨.refl _, [], rfl, fun _ h => Or.inl h⟩

theorem Kept.trans {w w' w'' : World} (h : Kept w w') (h' : Kept w' w'') :
    Kept w w'' := by
  obtain ⟨new, hnew, hkept⟩ := h.asked
  obtain ⟨new', hnew', hkept'⟩ := h'.asked
  refine ⟨h.row.trans h'.row, new' ++ new, ?_, ?_⟩
  · rw [hnew', hnew, List.append_assoc]
  · intro e he
    rcases hkept e he with hstill | ⟨d, n, t, hans⟩
    · rcases hkept' e hstill with hstill' | ⟨d, n, t, hans⟩
      · exact Or.inl hstill'
      · exact Or.inr ⟨d, n, t, List.mem_append_left _ hans⟩
    · exact Or.inr ⟨d, n, t, List.mem_append_right _ hans⟩

theorem Kept.same {w w' : World} {new : List Event}
    (hrow : Later w.run w'.run) (hhist : w'.hist = new ++ w.hist)
    (hptr : w'.run.checkpointPointer = w.run.checkpointPointer) :
    Kept w w' := by
  refine ⟨hrow, new, hhist, fun e he => Or.inl ?_⟩
  unfold Pending pendingCheckpoint at he ⊢
  rw [hptr]
  exact he

theorem Decodes.same {run run' : Run} (h : Decodes run)
    (hptr : run'.checkpointPointer = run.checkpointPointer) :
    Decodes run' := by
  unfold Decodes pendingCheckpoint at h ⊢
  rw [hptr]
  exact h

theorem pending_stored {w : World} {e : Elicitation} (h : Pending w e) :
    w.run.checkpointPointer = some (.elicitation e) ∧ e.status = .pending := by
  unfold Pending pendingCheckpoint at h
  split at h
  · cases h
  · cases h
  · next e' hptr =>
    split at h
    · next hstatus =>
      obtain rfl := Option.some.inj (Except.ok.inj h)
      exact ⟨hptr, hstatus⟩
    · cases h

theorem decodes_elicitation {run : Run} {e : Elicitation}
    (h : run.checkpointPointer = some (.elicitation e)) : Decodes run := by
  unfold Decodes pendingCheckpoint
  rw [h]
  exact ⟨_, rfl⟩

-- ==== orchestrator

/-- The history only grows, and only a checkpoint write changes the
pointer. -/
theorem exec_same (w : World) (e : Orchestrator.Req)
    (x : Orchestrator.Env e)
    (hpoints : ∀ t id v ptr, e ≠ .writeCheckpoint t id v ptr) :
    (∃ new, (w.exec e x).1.hist = new ++ w.hist) ∧
      (w.exec e x).1.run.checkpointPointer = w.run.checkpointPointer := by
  cases e with
  | writeCheckpoint t id v ptr => exact absurd rfl (hpoints t id v ptr)
  | transitionStage t id v next =>
    rcases World.exec_transition_inv next x with ⟨res, hsame, _⟩ |
      ⟨_, _, hland⟩
    · rw [hsame]
      exact ⟨⟨[], rfl⟩, rfl⟩
    · rw [hland]
      exact ⟨⟨_, rfl⟩, rfl⟩
  | appendAttempt t id v reason start trace =>
    rcases World.exec_appendAttempt_inv reason start trace x with
      ⟨res, hsame, _⟩ | ⟨_, _, hland⟩
    · rw [hsame]
      exact ⟨⟨[], rfl⟩, rfl⟩
    · rw [hland]
      exact ⟨⟨[], rfl⟩, rfl⟩
  | authorPlan ctx =>
    cases x with
    | returned out => exact ⟨⟨[_], rfl⟩, rfl⟩
    | raised y => exact ⟨⟨[], rfl⟩, rfl⟩
  | rePlan ctx feedback =>
    cases x with
    | returned out => exact ⟨⟨[_], rfl⟩, rfl⟩
    | raised y => exact ⟨⟨[], rfl⟩, rfl⟩
  | implementSubtask site ctx st => exact ⟨⟨[_], rfl⟩, rfl⟩
  | implementSubtasksParallel ctx sts => exact ⟨⟨[_], rfl⟩, rfl⟩
  | verify ctx => exact ⟨⟨[_], rfl⟩, rfl⟩
  | packaging run => exact ⟨⟨[_], rfl⟩, rfl⟩
  | _ => exact ⟨⟨[], rfl⟩, rfl⟩

/-- What the orchestrator may ask for; a turn asks for nothing while the
run is paused. -/
def asks (ph : Phase Orchestrator.Call Run) (lg : Heard)
    (e : Orchestrator.Req) : Prop :=
  Orchestrator.Conc.asks ph lg e ∧
    ∀ st, ph = .loop st → pendingCheckpoint st = .ok none

/-- The rows a process holds are old ones or the stored one, and can be
decoded. -/
def Knows (ph : Phase Orchestrator.Call Run) (lg : Heard) (w : World) :
    Prop :=
  Rows ph lg w ∧ ∀ run, Holds ph lg run → Decodes run

/-- The discipline of the orchestrator. -/
def driving : Discipline Orchestrator.Resp Orchestrator.Env World
    Orchestrator.Call Run where
  may := asks
  handsOn := Holds
  assume := fun _ _ _ _ _ => True
  inv := fun w => Decodes w.run
  rel := Kept
  knows := Knows

/-- The discipline of the watcher. -/
def watching : Discipline Resp Env World Interruption Empty where
  may := fun _ _ _ => True
  handsOn := fun _ _ st => nomatch st
  assume := fun _ _ w e _ => Gently w e
  inv := fun w => Decodes w.run
  rel := Kept
  knows := fun _ _ _ => True

theorem driving_follows (cfg : Config) :
    driving.Follows (Orchestrator.machine cfg) := by
  have hends : ∀ ph (c : Orchestrator.Turn) lg,
      Orchestrator.Conc.HandsOn ph c lg → driving.Ends ph c lg := by
    intro ph c lg h
    cases c with
    | again run => exact h
    | done st => exact trivial
  constructor
  · intro c
    exact ((Orchestrator.Conc.entry_paths cfg c).mono (hends _)).under
      fun st hst => by cases hst
  · intro st
    have hpaths := (Orchestrator.Conc.driveBody_paths cfg st).mono (hends _)
    cases hpending : pendingCheckpoint st with
    | error x =>
      show (Orchestrator.driveBody cfg st).Paths _ _ []
      unfold Orchestrator.driveBody
      rw [hpending]
      exact trivial
    | ok c =>
      cases c with
      | some e =>
        show (Orchestrator.driveBody cfg st).Paths _ _ []
        unfold Orchestrator.driveBody
        rw [hpending]
        exact trivial
      | none =>
        refine hpaths.under fun st' hst => ?_
        injection hst with hst
        rw [← hst]
        exact hpending

/-- What the orchestrator writes into the pointer: a question over none,
or the answer over its question. -/
theorem points_kept {w : World} {ph : Phase Orchestrator.Call Run}
    {lg : Heard} {t id : String} {v : Nat} {ptr : Pointer}
    (hk : Knows ph lg w) (hmay : asks ph lg (.writeCheckpoint t id v ptr))
    (hv : w.run.version = v) :
    (∃ e, ptr = .elicitation e) ∧ ∀ e, Pending w e →
      ∃ decision note now, .answered (e.resolve decision note now) ∈
        World.pointerEvents ptr := by
  obtain ⟨⟨run, hheld, hver, hpoints⟩, hidle⟩ := hmay
  have hrun : w.run = run := hk.1.lands hheld (hv.trans hver)
  cases ptr with
  | foreign text => exact hpoints.elim
  | elicitation e' =>
    refine ⟨⟨e', rfl⟩, fun e he => ?_⟩
    unfold Pending at he
    rw [hrun] at he
    rcases hpoints with ⟨_, hloop, _⟩ |
      ⟨_, decision, note, pending, now, _, hpending, rfl⟩
    · rw [hidle run hloop] at he
      cases he
    · rw [hpending] at he
      obtain rfl := Option.some.inj (Except.ok.inj he)
      have hevents : World.pointerEvents
          (.elicitation (pending.resolve decision note now)) =
          [.answered (pending.resolve decision note now)] := by
        simp [World.pointerEvents, Elicitation.resolve]
      rw [hevents]
      exact ⟨decision, note, now, List.mem_singleton_self _⟩

theorem driving_asked {w : World} {ph : Phase Orchestrator.Call Run}
    {lg : Heard} {e : Orchestrator.Req} {x : Orchestrator.Env e}
    (hinv : Decodes w.run) (hk : Knows ph lg w) (hmay : asks ph lg e) :
    Decodes (w.exec e x).1.run ∧ Kept w (w.exec e x).1 := by
  have hrow := Orchestrator.Conc.exec_later w e x
  by_cases hpoints : ∃ t id v ptr, e = .writeCheckpoint t id v ptr
  · obtain ⟨t, id, v, ptr, rfl⟩ := hpoints
    rcases World.exec_writeCheckpoint_inv ptr x with ⟨res, hsame, _⟩ |
      ⟨hv, hland⟩
    · rw [hsame]
      exact ⟨hinv, .refl w⟩
    · obtain ⟨⟨e', rfl⟩, hans⟩ := points_kept hk hmay hv
      rw [hland] at hrow ⊢
      exact ⟨decodes_elicitation rfl, hrow, _, rfl,
        fun e he => Or.inr (hans e he)⟩
  · obtain ⟨⟨new, hhist⟩, hptr⟩ := exec_same w e x
      fun t id v ptr he => hpoints ⟨t, id, v, ptr, he⟩
    exact ⟨hinv.same hptr, .same hrow hhist hptr⟩

theorem driving_sound (cfg : Config) :
    driving.Sound (Orchestrator.machine cfg) where
  stable := fun hrel hk => ⟨hk.1.stable hrel.row, hk.2⟩
  called := fun {w} c hinv => ⟨hinv, .same (.refl _)
    (show _ = [.called c] ++ w.hist from rfl) rfl⟩
  stopped := fun {w} hinv => ⟨hinv, .same (.refl _)
    (show _ = [.stopped w.run.stage] ++ w.hist from rfl) rfl⟩
  entered := by
    intro w c _
    refine ⟨Orchestrator.Conc.rows_entry c w, ?_⟩
    rintro run (hph | hmem)
    · cases hph
    · cases hmem
  asked := by
    intro w ph lg e x hinv hk hmay _
    obtain ⟨hinv', hkept⟩ := driving_asked (x := x) hinv hk hmay
    refine ⟨hinv', hkept, hk.1.asked, ?_⟩
    rintro run (hph | hmem)
    · exact hk.2 run (Or.inl hph)
    · rw [List.filterMap_cons] at hmem
      split at hmem
      · exact hk.2 run (Or.inr hmem)
      · next row hrow =>
        rcases List.mem_cons.1 hmem with rfl | hmem
        · rw [← Orchestrator.Conc.rowOf_exec hrow]
          exact hinv'
        · exact hk.2 run (Or.inr hmem)
  again := by
    intro w ph lg st _ hk hon
    refine ⟨hk.1.again hon, ?_⟩
    rintro run (hph | hmem)
    · injection hph with hph
      rw [← hph]
      exact hk.2 st hon
    · cases hmem

-- ==== watcher

theorem watching_follows (observability : Bool) :
    watching.Follows (machine observability) where
  entry := fun i => Prog.paths_free fun ctl lg => by
    cases ctl with
    | again st => cases st
    | done b => exact trivial
  body := fun st => nomatch st

theorem exec_run (w : World) (e : Req) (x : Env e)
    (hwrites : ∀ t id v ptr, e ≠ .writeCheckpoint t id v ptr) :
    (exec w e x).1 = w := by
  cases e with
  | writeCheckpoint t id v ptr => exact absurd rfl (hwrites t id v ptr)
  | _ => rfl

/-- A checkpoint of the watcher does nothing, or puts its pointer into the
row. -/
theorem exec_writes (w : World) (t id : String) (v : Nat) (ptr : Pointer) :
    (¬ Accepts w.run t id v ptr ∧
      (exec w (.writeCheckpoint t id v ptr) ()).1 = w) ∨
    (Accepts w.run t id v ptr ∧
      (exec w (.writeCheckpoint t id v ptr) ()).1 =
        { w with run := { w.run with
            checkpointPointer := some ptr
            version := w.run.version + 1 } }) := by
  rcases writeCheckpoint_inv w.run t id v ptr with ⟨hno, hrow⟩ |
    ⟨hland, hrow⟩
  · refine Or.inl ⟨hno, ?_⟩
    show { w with run := (writeCheckpoint w.run t id v ptr).1 } = w
    rw [hrow]
  · refine Or.inr ⟨hland, ?_⟩
    show { w with run := (writeCheckpoint w.run t id v ptr).1 } = _
    rw [hrow]

theorem watching_asked {w : World} {e : Req} {x : Env e}
    (hinv : Decodes w.run) (hgently : Gently w e) :
    Decodes (exec w e x).1.run ∧ Kept w (exec w e x).1 := by
  by_cases hwrites : ∃ t id v ptr, e = .writeCheckpoint t id v ptr
  · obtain ⟨t, id, v, ptr, rfl⟩ := hwrites
    rcases exec_writes w t id v ptr with ⟨_, hsame⟩ | ⟨hland, hw⟩
    · rw [show (exec w _ x).1 = w from hsame]
      exact ⟨hinv, .refl w⟩
    · obtain ⟨⟨e', rfl⟩, hover⟩ := hgently hland
      rw [show (exec w _ x).1 = _ from hw]
      refine ⟨decodes_elicitation rfl, .bumped rfl fun h => h, [], rfl, ?_⟩
      intro e he
      obtain ⟨_, hstatus⟩ := pending_stored he
      obtain rfl := Pointer.elicitation.inj (hover e he)
      refine Or.inl ?_
      unfold Pending pendingCheckpoint
      dsimp only
      rw [if_pos hstatus]
  · rw [exec_run w e x fun t id v ptr he => hwrites ⟨t, id, v, ptr, he⟩]
    exact ⟨hinv, .refl w⟩

theorem watching_sound (observability : Bool) :
    watching.Sound (machine observability) where
  stable := fun _ _ => trivial
  called := fun _ hinv => ⟨hinv, .refl _⟩
  stopped := fun hinv => ⟨hinv, .refl _⟩
  entered := fun _ _ => trivial
  asked := by
    intro w ph lg e x hinv _ _ hgently
    obtain ⟨hinv', hkept⟩ := watching_asked (x := x) hinv hgently
    exact ⟨hinv', hkept, trivial⟩
  again := by
    intro w ph lg st
    cases st

/-- A landing that is not gentle loses the question, or leaves a pointer
that cannot be decoded. -/
theorem harsh_breaks {w : World} {t id : String} {v : Nat} {ptr : Pointer}
    (h : ¬ Gently w (.writeCheckpoint t id v ptr)) :
    (∃ e, Pending w e ∧
      ¬ Pending (exec w (.writeCheckpoint t id v ptr) ()).1 e) ∨
    ¬ Decodes (exec w (.writeCheckpoint t id v ptr) ()).1.run := by
  unfold Gently at h
  obtain ⟨hland, hbad⟩ := Classical.not_imp.1 h
  rcases exec_writes w t id v ptr with ⟨hno, _⟩ | ⟨_, hw⟩
  · exact absurd hland hno
  · rw [hw]
    cases ptr with
    | foreign text =>
      refine Or.inr ?_
      rintro ⟨c, hc⟩
      cases hc
    | elicitation e' =>
      refine Or.inl ?_
      have hover : ∃ e, Pending w e ∧
          Pointer.elicitation e' ≠ .elicitation e := by
        by_contra hno
        refine hbad ⟨⟨e', rfl⟩, fun e he => ?_⟩
        by_contra hne
        exact hno ⟨e, he, hne⟩
      obtain ⟨e, he, hne⟩ := hover
      refine ⟨e, he, fun hafter => hne ?_⟩
      exact Option.some.inj (pending_stored hafter).1

-- ==== together

section Runs

variable {Pid₁ Pid₂ : Type} [DecidableEq Pid₁] [DecidableEq Pid₂]

theorem agree : Machines.Agree driving watching where
  inv := rfl
  rel := rfl
  refl := .refl

omit [DecidableEq Pid₁] [DecidableEq Pid₂] in
theorem allows (cfg : Config) (observability : Bool) :
    Machines.Allows (both cfg observability) driving watching
      (Gentle : State Pid₁ Pid₂ → Act Pid₁ Pid₂ → Prop) where
  first := fun _ _ _ _ _ _ _ _ _ _ _ => trivial
  second := by
    rintro t q ans pr e k x ⟨s, rfl, hc⟩ hq hprog _
    exact hc e ⟨pr, k, hq, hprog⟩

/-- What a run from `s` to `s'` has kept: every question it was paused on
is still there or has been answered, and every pointer that is stored or
held by a process of the orchestrator decodes. -/
structure Preserves (s s' : State Pid₁ Pid₂) : Prop where
  asked : ∃ new, s'.world.hist = new ++ s.world.hist ∧
    ∀ e, Pending s.world e → Pending s'.world e ∨
      ∃ decision note now, .answered (e.resolve decision note now) ∈ new
  stored : Decodes s'.world.run
  held : ∀ p pr run, s'.left p = some pr → Holds pr.phase pr.log run →
    Decodes run

/-- Where watchers land gently, no question is lost and every pointer
decodes. -/
theorem pending_kept {cfg : Config} {observability : Bool}
    {s s' : State Pid₁ Pid₂}
    (hs : (both cfg observability).Reach (Orchestrator.Initial cfg) Gentle s)
    (h : (both cfg observability).Leads Gentle s s') : Preserves s s' := by
  have hinit : ∀ w, Orchestrator.Initial cfg w → driving.inv w := by
    intro w hw
    show Decodes w.run
    unfold Decodes pendingCheckpoint
    rw [hw.row.2]
    exact ⟨_, rfl⟩
  have hord := hs.together (driving_follows cfg)
    (watching_follows observability) (driving_sound cfg)
    (watching_sound observability) agree (allows cfg observability) hinit
  obtain ⟨hord', hkept⟩ := hord.leads (driving_follows cfg)
    (watching_follows observability) (driving_sound cfg)
    (watching_sound observability) agree (allows cfg observability)
    Kept.trans h
  exact ⟨hkept.asked, hord'.first.inv,
    fun p pr run hp hrun => (hord'.first.procs p pr hp).knows.2 run hrun⟩

end Runs

-- ==== examples

/-- The run has strayed out of scope, waits for an answer, and is
interrupted: the watcher is about to write its checkpoint. -/
def interrupted (version : Nat) : List (Act Bool Unit) :=
  (Orchestrator.Sample.strayed true
    [Orchestrator.Sample.task "t1"]).map .inl ++
  [.inr (.call ()
    { node := ⟨"node", "tenant", "pool", "env"⟩, tenantId := "tenant"
      runId := "run", expectedVersion := version
      checkpointPointer :=
        .foreign "s3://checkpoints/run/attempt-1/checkpoint.json" })] ++
  ([.seconds 0, .seconds 0, .effect (.returned ()), .seconds 0, .seconds 0,
    .effect (.returned ()), .seconds 0, .seconds 0, .seconds 0,
    .drained (.returned ⟨0, 0, false⟩), .seconds 0, .seconds 0,
    .flushed (.returned true), .seconds 0,
    .seconds 0] : List Answer).map fun x => .inr (.step () x)

/-- Play a script on the sample run, then one more step of the watcher,
and test the two states. -/
def plays (chk : State Bool Unit → Act Bool Unit → Bool)
    (script : List (Act Bool Unit))
    (test : State Bool Unit → State Bool Unit → Bool) : Bool :=
  ((both Orchestrator.Sample.cfg false).run chk script
    (Pair.idle Orchestrator.Sample.world)).any fun s =>
      ((both Orchestrator.Sample.cfg false).run chk
        [.inr (.step () .auto)] s).any (test s)

theorem plays_inv {cond : State Bool Unit → Act Bool Unit → Prop}
    {chk : State Bool Unit → Act Bool Unit → Bool}
    (hchk : ∀ s a, chk s a = true → cond s a) {script : List (Act Bool Unit)}
    {test : State Bool Unit → State Bool Unit → Bool}
    (h : plays chk script test = true) :
    ∃ s s', (both Orchestrator.Sample.cfg false).Reach
        (Orchestrator.Initial Orchestrator.Sample.cfg) cond s ∧
      (both Orchestrator.Sample.cfg false).Leads cond s s' ∧
      test s s' = true := by
  obtain ⟨s, hrun, hrest⟩ := (Option.any_eq_true _ _).1 h
  obtain ⟨s', hrun', htest⟩ := (Option.any_eq_true _ _).1 hrest
  exact ⟨s, s',
    (Machines.Reach.init Orchestrator.Sample.initial_sample).leads
      (Machines.leads_of_run hchk (.refl _) hrun),
    Machines.leads_of_run hchk (.refl _) hrun', htest⟩

/-- The check of `Gentle` on the way. -/
def gentle (s : State Bool Unit) : Act Bool Unit → Bool
  | .inr (.step q _) =>
    match s.right q with
    | some ⟨_, _, .op (.writeCheckpoint t id v ptr) _⟩ =>
      !decide (Accepts s.world.run t id v ptr)
    | _ => true
  | _ => true

theorem gentle_sound (s : State Bool Unit) (a : Act Bool Unit)
    (h : gentle s a = true) : Gentle s a := by
  cases a with
  | inl a => exact trivial
  | inr a =>
    cases a with
    | call q i => exact trivial
    | crash q => exact trivial
    | step q ans =>
      rintro e ⟨⟨ph, lg, prog⟩, k, hq, rfl⟩
      cases e with
      | writeCheckpoint t id v ptr =>
        intro hland
        simp only [gentle, show s.right q = _ from hq, hland] at h
        cases h
      | _ => exact trivial

/-- The question a world is paused on. -/
def question (w : World) : Option Elicitation :=
  match pendingCheckpoint w.run with
  | .ok c => c
  | .error _ => none

/-- The watcher is late: the run has moved on from the version it was
given, and the question stays. -/
theorem pending_kept_stale :
    ∃ s s' : State Bool Unit,
      (both Orchestrator.Sample.cfg false).Reach
        (Orchestrator.Initial Orchestrator.Sample.cfg) Gentle s ∧
      (both Orchestrator.Sample.cfg false).Leads Gentle s s' ∧
      (question s.world).isSome = true ∧ Preserves s s' := by
  have hplays : plays gentle (interrupted 5)
      (fun s _ => (question s.world).isSome) = true := by decide +kernel
  obtain ⟨s, s', hs, h, htest⟩ := plays_inv gentle_sound hplays
  exact ⟨s, s', hs, h, htest, pending_kept hs h⟩

/-- The watcher's checkpoint takes the place of the question, under the
version the question was stored with, and cannot be decoded. -/
theorem pending_overwritten :
    ¬ ∀ s s' : State Bool Unit,
      (both Orchestrator.Sample.cfg false).Reach
        (Orchestrator.Initial Orchestrator.Sample.cfg) (fun _ _ => True) s →
      (both Orchestrator.Sample.cfg false).Leads (fun _ _ => True) s s' →
        Preserves s s' := by
  intro hclaim
  have hplays : plays (fun _ _ => true) (interrupted 6) (fun s s' =>
      (question s.world).isSome &&
        decide (s'.world.run.checkpointPointer = some (.foreign
          "s3://checkpoints/run/attempt-1/checkpoint.json"))) = true := by
    decide +kernel
  obtain ⟨s, s', hs, h, htest⟩ := plays_inv (fun _ _ _ => trivial) hplays
  rw [Bool.and_eq_true, decide_eq_true_eq] at htest
  obtain ⟨c, hc⟩ := (hclaim s s' hs h).stored
  unfold pendingCheckpoint at hc
  rw [htest.2] at hc
  cases hc

end SdlcOs.TenantCell
