/-
Optimistic concurrency: what a version number is worth.

# Writes

A guarded write takes a version and leaves the next one, so no version of
a run is taken twice (`versions_consumed_once`), and a call that does not
succeed has changed nothing: its side rows are part of the transaction
whose conditional update decides.

# Snapshots

A successful write returns the row it reads back after its commit,
outside the transaction. Another process may have written in between, and
its row, with its version, is then what the caller gets
(`snapshot_overtaken`). In every run in which no write of the run is
committed between a call's commit and its re-read, the call returns the
row it has produced, and whoever writes under that row's version later
writes over that very row (`returned_snapshot`).
-/
import SdlcOs.Proofs.Registry.Store

namespace SdlcOs.Registry

open Effects

namespace Service

-- ==== versions

/-- `SELECT version FROM runs WHERE id = ?`. -/
def versionOf (db : Db) (id : String) : Option Int :=
  (db.runs.find? (·.id = id)).map (·.version)

theorem versionOf_eq {db : Db} (hkeyed : Keyed db) {r : RunRow}
    (hr : r ∈ db.runs) : versionOf db r.id = some r.version := by
  unfold versionOf
  cases hfind : db.runs.find? (·.id = r.id) with
  | none =>
    have hno := List.find?_eq_none.1 hfind r hr
    simp at hno
  | some r' =>
    have hid : r'.id = r.id := by simpa using List.find?_some hfind
    rw [hkeyed.eq (List.mem_of_find?_eq_some hfind) hr hid]
    rfl

theorem versionOf_inv {db : Db} {id : String} {v : Int}
    (h : versionOf db id = some v) :
    ∃ r ∈ db.runs, r.id = id ∧ r.version = v := by
  unfold versionOf at h
  obtain ⟨r, hfind, hv⟩ := Option.map_eq_some_iff.1 h
  exact ⟨r, List.mem_of_find?_eq_some hfind,
    by simpa using List.find?_some hfind, hv⟩

/-- A write took the version `v` of a run and left the next one. -/
def Bumps (id : String) (v : Int) (w w' : World) : Prop :=
  versionOf w.db id = some v ∧ versionOf w'.db id = some (v + 1) ∧
    w'.consumed = (id, v) :: w.consumed

/-- The columns of `runs` a transaction sets. -/
def Txn.fields : Txn → Fields
  | .create .. => {}
  | .append _ _ _ _ _ start trace _ attemptId _ =>
    { stage := some start, currentAttemptId := some attemptId
      traceId := some trace }
  | .transition _ _ _ _ next _ _ => { stage := some next }
  | .write _ _ _ fields _ => fields

theorem updated_hit {db db' : Db} {tenantId runId : String} {v : Int}
    {fields : Fields} {ts : String}
    (h : db'.runs = db.updatedRuns tenantId runId v fields ts)
    (hhit : ∃ r ∈ db.runs, r.hit tenantId runId v = true) :
    ∃ r ∈ db.runs, ∃ ts, r.id = runId ∧ r.version = v ∧
      r.set fields ts ∈ db'.runs := by
  obtain ⟨r, hr, hhit⟩ := hhit
  obtain ⟨hid, _, hv⟩ := hit_iff.1 hhit
  refine ⟨r, hr, ts, hid, hv, ?_⟩
  have hmem : (if r.hit tenantId runId v then r.set fields ts else r) ∈
      db.updatedRuns tenantId runId v fields ts := mem_updatedRuns hr
  rw [if_pos hhit] at hmem
  rw [h]
  exact hmem

theorem commits_guarded {db db' : Db} {txn : Txn} {id : String} {v : Int}
    (h : db.Commits txn db') (hguard : Txn.guard txn = some (id, v)) :
    ∃ r ∈ db.runs, ∃ ts, r.id = id ∧ r.version = v ∧
      r.set (Txn.fields txn) ts ∈ db'.runs := by
  cases h with
  | create hrun hattempt => cases hguard
  | append hhit hattempt =>
    obtain ⟨rfl, rfl⟩ := Prod.mk.inj (Option.some.inj hguard)
    exact updated_hit rfl hhit
  | transition hhit =>
    obtain ⟨rfl, rfl⟩ := Prod.mk.inj (Option.some.inj hguard)
    exact updated_hit rfl hhit
  | write hhit =>
    obtain ⟨rfl, rfl⟩ := Prod.mk.inj (Option.some.inj hguard)
    exact updated_hit rfl hhit

theorem commits_bumps {w w' : World} {txn : Txn}
    (h : w.db.Commits txn w'.db)
    (hcons : w'.consumed = (Txn.guard txn).toList ++ w.consumed)
    (hkeyed : Keyed w.db) {id : String} {v : Int}
    (hguard : Txn.guard txn = some (id, v)) : Bumps id v w w' := by
  obtain ⟨r, hr, ts, rfl, rfl, hset⟩ := commits_guarded h hguard
  refine ⟨versionOf_eq hkeyed hr, ?_, ?_⟩
  · exact versionOf_eq (commits_keyed h hkeyed) hset
  · rw [hcons, hguard]
    rfl

-- ==== consumed once

/-- The versions taken so far are different, and behind the runs. -/
def Consumed (w : World) : Prop :=
  w.consumed.Nodup ∧
    ∀ x ∈ w.consumed, ∃ r ∈ w.db.runs, r.id = x.1 ∧ x.2 < r.version

theorem Consumed.committed {bad : Db → Txn → Prop} {w w' : World}
    {txn : Txn} (hkeyed : Keyed w.db) (h : Consumed w)
    (hc : Committed bad w txn w') : Consumed w' := by
  have hbehind : ∀ x ∈ w.consumed, ∃ r ∈ w'.db.runs, r.id = x.1 ∧
      x.2 < r.version := by
    intro x hx
    obtain ⟨r, hr, hid, hlt⟩ := h.2 x hx
    obtain ⟨r', hr', hlater⟩ := commits_onward hc.commits r hr
    have hle := hlater.version
    exact ⟨r', hr', hlater.id.trans hid, by omega⟩
  cases hguard : Txn.guard txn with
  | none =>
    have hsame : w'.consumed = w.consumed := by
      rw [hc.consumed, hguard]
      rfl
    unfold Consumed
    rw [hsame]
    exact ⟨h.1, hbehind⟩
  | some g =>
    obtain ⟨id, v⟩ := g
    obtain ⟨hv, hv', hcons⟩ :=
      commits_bumps hc.commits hc.consumed hkeyed hguard
    obtain ⟨r, hr, hid, hrv⟩ := versionOf_inv hv
    obtain ⟨r', hr', hid', hrv'⟩ := versionOf_inv hv'
    unfold Consumed
    rw [hcons]
    refine ⟨List.nodup_cons.2 ⟨?_, h.1⟩, ?_⟩
    · -- a version taken before is behind the row, this one is the row's
      intro hmem
      obtain ⟨r₀, hr₀, hid₀, hlt⟩ := h.2 _ hmem
      have hsame : r₀ = r := hkeyed.eq hr₀ hr (hid₀.trans hid.symm)
      rw [hsame, hrv] at hlt
      exact lt_irrefl v hlt
    · intro x hx
      rcases List.mem_cons.1 hx with rfl | hold
      · exact ⟨r', hr', hid', by show v < r'.version; omega⟩
      · exact hbehind x hold

-- ==== steps of a call

/-- A step answered a request. -/
def Serving (ww : World × World) (x : (e : Req) × Resp e) : Prop :=
  ∃ env, exec ww.1 x.1 env = (ww.2, x.2)

theorem serving_quiet {ww : World × World} {x : (e : Req) × Resp e}
    (h : Serving ww x) (hx : commitOf x = none) : ww.2 = ww.1 := by
  obtain ⟨env, hexec⟩ := h
  obtain ⟨w, w'⟩ := ww
  obtain ⟨e, r⟩ := x
  cases e with
  | transact txn =>
    simp only [exec] at hexec
    split at hexec
    · next hc =>
      obtain ⟨_, rfl⟩ := Prod.mk.inj hexec
      rw [hc] at hx
      cases hx
    · exact (Prod.mk.inj hexec).1.symm
  | _ => exact (Prod.mk.inj hexec).1.symm

theorem serving_commit {ww : World × World} {x : (e : Req) × Resp e}
    {txn : Txn} (h : Serving ww x) (hx : commitOf x = some txn) :
    ww.1.db.Commits txn ww.2.db ∧
      ww.2.consumed = (Txn.guard txn).toList ++ ww.1.consumed := by
  obtain ⟨env, hexec⟩ := h
  obtain ⟨w, w'⟩ := ww
  obtain ⟨e, r⟩ := x
  cases e with
  | transact txn' =>
    cases r with
    | committed =>
      obtain rfl := Option.some.inj hx
      simp only [exec] at hexec
      split at hexec
      · next hc =>
        obtain ⟨rfl, _⟩ := Prod.mk.inj hexec
        exact ⟨Db.transact_committed hc, rfl⟩
      · next hno => exact absurd (Prod.mk.inj hexec).2 hno
    | stale => cases hx
    | raised e => cases hx
  | _ => cases hx

theorem steps_quiet {ws : List (World × World)} {lg : Heard}
    (h : List.Forall₂ Serving ws lg) (hlg : commits lg = []) :
    ∀ ww ∈ ws, ww.2 = ww.1 := by
  induction h with
  | nil => intro ww hww; cases hww
  | @cons ww x ws lg hserving _ ih =>
    cases hx : commitOf x with
    | some txn =>
      rw [commits, List.filterMap_cons_some hx] at hlg
      cases hlg
    | none =>
      rw [commits, List.filterMap_cons_none hx] at hlg
      intro ww' hww'
      rcases List.mem_cons.1 hww' with rfl | hold
      · exact serving_quiet hserving hx
      · exact ih hlg ww' hold

/-- One that has committed once has changed the tables in that step
only. -/
theorem steps_once {ws : List (World × World)} {lg : Heard} {txn : Txn}
    (h : List.Forall₂ Serving ws lg) (hlg : commits lg = [txn]) :
    ∃ post ww pre, ws = post ++ ww :: pre ∧
      (∀ x ∈ post ++ pre, x.2 = x.1) ∧
      ww.1.db.Commits txn ww.2.db ∧
        ww.2.consumed = (Txn.guard txn).toList ++ ww.1.consumed := by
  induction h with
  | nil => cases hlg
  | @cons ww x ws lg hserving hrest ih =>
    cases hx : commitOf x with
    | some txn' =>
      rw [commits, List.filterMap_cons_some hx] at hlg
      obtain ⟨rfl, hnil⟩ := List.cons.inj hlg
      exact ⟨[], ww, ws, rfl, steps_quiet hrest hnil,
        serving_commit hserving hx⟩
    | none =>
      rw [commits, List.filterMap_cons_none hx] at hlg
      obtain ⟨post, ww', pre, rfl, hquiet, hcommit⟩ := ih hlg
      refine ⟨ww :: post, ww', pre, rfl, ?_, hcommit⟩
      intro y hy
      rcases List.mem_cons.1 hy with rfl | hold
      · exact serving_quiet hserving hx
      · exact hquiet y hold

section Runs

variable {Pid : Type} [DecidableEq Pid] {s₀ s : State Pid} {p : Pid}
variable {c : Call} {ws : List (World × World)} {o : Outcome}
variable {cond : State Pid → Act Pid → Prop}

theorem returned_log (hs : machine.Reach Initial cond s₀)
    (hserves : machine.Serves cond p c s₀ ws s) (hret : s.Returns p o) :
    ∃ pr, s.procs p = some pr ∧ pr.phase = .entry c ∧
      List.Forall₂ (machine.Answers cond p s₀) ws pr.log ∧
      Returned c o pr.log := by
  obtain ⟨pr, hp, hprog⟩ := hret
  have hreach := hs.leads hserves.leads
  cases hph : pr.phase with
  | loop st => cases st
  | entry c' =>
    obtain ⟨rfl, hall⟩ := hserves.log hp hph
    have hpaths := hreach.entered (Q := Ends) entry_paths hp hph
    rw [hprog] at hpaths
    exact ⟨pr, hp, hph, hall, hpaths⟩

theorem serving_of_answers {ww : World × World}
    {x : (e : Req) × Resp e} (h : machine.Answers cond p s₀ ww x) :
    Serving ww x := by
  obtain ⟨_, _, _, _, env, _, _, _, _, _, hexec⟩ := h
  exact ⟨env, hexec⟩

theorem makes_guard {txn : Txn} (h : Makes c txn) :
    Txn.guard txn = c.guard := by
  cases c <;> cases txn <;> simp_all [Makes, Txn.guard, Call.guard]

/-- In every run, no version of a run is taken twice; a call that does
not succeed changes no table; a guarded call that succeeds changes them
in one step, which takes the version the call expects. -/
theorem versions_consumed_once
    (hs : machine.Reach Initial (fun _ _ => True) s) :
    s.world.consumed.Nodup ∧
      ∀ s₀ p c ws o, machine.Reach Initial (fun _ _ => True) s₀ →
        machine.Serves (fun _ _ => True) p c s₀ ws s → s.Returns p o →
        (o.isOk = false → ∀ ww ∈ ws, ww.2.db = ww.1.db) ∧
        (o.isOk = true → ∀ id v, c.guard = some (id, v) →
          ∃ post ww pre, ws = post ++ ww :: pre ∧
            (∀ x ∈ post ++ pre, x.2.db = x.1.db) ∧
            Bumps id v ww.1 ww.2) := by
  have hord := store_orderly (J := Consumed)
    ⟨List.nodup_nil, fun _ h => by cases h⟩ Consumed.committed
    (hs.mono fun _ a _ => without_none a)
  refine ⟨hord.inv.2.1, ?_⟩
  intro s₀ p c ws o hs₀ hserves hret
  obtain ⟨pr, hp, hph, hall, hreturned⟩ := returned_log hs₀ hserves hret
  refine ⟨?_, ?_⟩
  · intro ho ww hww
    rw [steps_quiet (hall.imp fun _ _ => serving_of_answers)
      (hreturned.refused ho) ww hww]
  · intro ho id v hguard
    obtain ⟨txn, hcommits, hmakes⟩ := hreturned.wrote ho (by rw [hguard]; rfl)
    obtain ⟨post, ww, pre, rfl, hquiet, hcommit, hcons⟩ :=
      steps_once (hall.imp fun _ _ => serving_of_answers) hcommits
    refine ⟨post, ww, pre, rfl, ?_, ?_⟩
    · intro x hx
      rw [hquiet x hx]
    · obtain ⟨s₁, hleads, hworld⟩ := hserves.mem
        (List.mem_append_right post List.mem_cons_self)
      have hkeyed := reach_keyed (hs₀.leads hleads)
      rw [hworld] at hkeyed
      exact commits_bumps hcommit hcons hkeyed
        ((makes_guard hmakes).trans hguard)

end Runs

/-- Write a checkpoint under the first version of the run. -/
def checkpointing (pointer : String) : Call :=
  .writeCheckpoint (.text "acme") "run" 1 pointer none

/-- Two processes that write under one version: both have read the row
before the first of them commits. -/
def racing : List (Act Bool) :=
  [.step true .auto, .step false .auto, .step true (.time "t2"),
    .step false (.time "t3"), .step false .auto, .step true .auto,
    .step false .auto]

/-- Of two checkpoints that race for one version, one takes it and the other
changes nothing. -/
theorem versions_consumed_once_racing :
    (∃ s₀ ws s, machine.Reach Initial (fun _ _ => True) s₀ ∧
      machine.Serves (fun _ _ => True) false (checkpointing "mine") s₀ ws s ∧
      (s : State Bool).world.consumed.Nodup ∧
      ∃ post ww pre, ws = post ++ ww :: pre ∧
        (∀ x ∈ post ++ pre, x.2.db = x.1.db) ∧ Bumps "run" 1 ww.1 ww.2) ∧
    ∃ s₀ ws s, machine.Reach Initial (fun _ _ => True) s₀ ∧
      machine.Serves (fun _ _ => True) true (checkpointing "theirs") s₀ ws s ∧
      ("run", 1) ∈ (s : State Bool).world.consumed ∧
      ws.length = 3 ∧ ∀ ww ∈ ws, ww.2.db = ww.1.db := by
  constructor
  · obtain ⟨s₀, ws, s, hs₀, hserves, htest⟩ := serves_of_plays
      (fun _ _ => true) (fun _ _ _ => trivial)
      (opening ++ [.call true (checkpointing "theirs")]) false
      (checkpointing "mine") racing
      (fun x => (x.2.2.returned false).any (·.isOk)) (by decide +kernel)
    obtain ⟨o, ho, hok⟩ := (Option.any_eq_true _ _).1 htest
    obtain ⟨hnodup, hcalls⟩ :=
      versions_consumed_once (hs₀.leads hserves.leads)
    obtain ⟨_, hwrote⟩ :=
      hcalls s₀ false _ ws o hs₀ hserves (Sys.returns_of_returned ho)
    exact ⟨s₀, ws, s, hs₀, hserves, hnodup, hwrote hok "run" 1 rfl⟩
  · obtain ⟨s₀, ws, s, hs₀, hserves, htest⟩ := serves_of_plays
      (fun _ _ => true) (fun _ _ _ => trivial)
      (opening ++ [.call false (checkpointing "mine")]) true
      (checkpointing "theirs") racing
      (fun x => (x.2.2.returned true).any (fun o => o.isOk = false) &&
        decide (("run", 1) ∈ x.2.2.world.consumed ∧ x.2.1.length = 3))
      (by decide +kernel)
    rw [Bool.and_eq_true, decide_eq_true_eq] at htest
    obtain ⟨hreturned, htaken, hlength⟩ := htest
    obtain ⟨o, ho, hrefused⟩ := (Option.any_eq_true _ _).1 hreturned
    obtain ⟨hquiet, _⟩ :=
      (versions_consumed_once (hs₀.leads hserves.leads)).2 s₀ true _ ws o hs₀
        hserves (Sys.returns_of_returned ho)
    exact ⟨s₀, ws, s, hs₀, hserves, htaken, hlength,
      hquiet (of_decide_eq_true hrefused)⟩

-- ==== snapshots

/-- The columns a call was to write have the values it was given. -/
def Wrote : Call → RunRow → Prop
  | .transitionStage _ _ _ next, r => stageOf next = some r.stage
  | .writeCheckpoint _ _ _ pointer cls, r =>
    r.checkpointPointer = some pointer ∧ ∀ k ∈ cls, r.capacityClass = k
  | .writeExecutionLocation _ _ _ cloud region node, r =>
    (∀ x ∈ cloud, r.execCloudProvider = some x) ∧
      (∀ x ∈ region, r.execRegionAz = some x) ∧
      ∀ x ∈ node, r.execNodeId = some x
  | _, _ => True

theorem makes_wrote {c : Call} {txn : Txn} (h : Makes c txn) (r : RunRow)
    (ts : String) : Wrote c (r.set (Txn.fields txn) ts) := by
  cases c with
  | transitionStage t id v next =>
    cases txn with
    | transition tenant id' v' current stage ts' entryId =>
      exact h.2.2.2
    | write tenant id' v' fields ts' => cases h.2.2
    | _ => cases h
  | writeCheckpoint t id v pointer cls =>
    cases txn with
    | write tenant id' v' fields ts' =>
      obtain rfl := Option.some.inj h.2.2
      refine ⟨rfl, ?_⟩
      intro k hk
      obtain rfl := Option.mem_def.1 hk
      rfl
    | _ => cases h
  | writeExecutionLocation t id v cloud region node =>
    cases txn with
    | write tenant id' v' fields ts' =>
      obtain rfl := Option.some.inj h.2.2
      refine ⟨?_, ?_, ?_⟩
      all_goals
        intro x hx
        obtain rfl := Option.mem_def.1 hx
        rfl
    | _ => cases h
  | _ => trivial

/-- The write a process is about to read back: it has committed it just
now. -/
def rereads {Pid : Type} (s : State Pid) (p : Pid) : Option (String × Int) :=
  match s.procs p with
  | some ⟨_, ⟨.transact txn, .committed⟩ :: _, .op (.getRun ..) _⟩ =>
    Txn.guard txn
  | _ => none

/-- A process that reads its write back finds no other write of the run
in between. -/
def Unraced {Pid : Type} (s : State Pid) : Act Pid → Prop
  | .step p _ => ∀ g ∈ rereads s p, versionOf s.world.db g.1 = some (g.2 + 1)
  | _ => True

instance {Pid : Type} (s : State Pid) (a : Act Pid) :
    Decidable (Unraced s a) :=
  match a with
  | .call _ _ => isTrue trivial
  | .step p _ => inferInstanceAs (Decidable (∀ g ∈ rereads s p, _))
  | .crash _ => isTrue trivial

theorem Onward.same {db db' : Db} (h : Onward db db') (hkeyed : Keyed db')
    {r r' : RunRow} (hr : r ∈ db.runs) (hr' : r' ∈ db'.runs)
    (hid : r'.id = r.id) (hv : r'.version = r.version) : r' = r := by
  obtain ⟨r'', hr'', hlater⟩ := h r hr
  have hsame : r'' = r' := hkeyed.eq hr'' hr' (hlater.id.trans hid.symm)
  rw [hsame] at hlater
  exact hlater.same hv

section Runs

variable {Pid : Type} [DecidableEq Pid] {s₀ s : State Pid} {p : Pid}
variable {c : Call} {ws : List (World × World)}

/-- In every run in which no write of a run is committed between a call's
own commit and its re-read, a successful write returns the row it has
produced; a row of the run that is stored later under that version is
that row. -/
theorem returned_snapshot {r : RunRow} {id : String} {v : Int}
    (hs : machine.Reach Initial Unraced s₀)
    (hserves : machine.Serves Unraced p c s₀ ws s)
    (hguard : c.guard = some (id, v)) (hret : s.Returns p (.run (.ok r))) :
    r.version = v + 1 ∧ Wrote c r ∧
      (∃ ww ∈ ws, Bumps id v ww.1 ww.2 ∧ r ∈ ww.2.db.runs) ∧
      ∀ s', machine.Leads (fun _ _ => True) s s' →
        ∀ r' ∈ s'.world.db.runs, r'.id = r.id → r'.version = r.version →
          r' = r := by
  obtain ⟨pr, hp, hph, hall, hreturned⟩ := returned_log hs hserves hret
  obtain ⟨txn, id', lg, hmakes, hlog, hid'⟩ :=
    hreturned.reread r rfl (by rw [hguard]; rfl)
  rw [hguard] at hid'
  obtain rfl : id = id' := Option.some.inj hid'
  have hguard' : Txn.guard txn = some (id, v) :=
    (makes_guard hmakes).trans hguard
  -- the re-read, and the commit before it
  obtain ⟨s₁, s₂, ans, ws', k, env, hserves', rfl, hcond, happ, hpr, hexec,
    hleads⟩ := hserves.last hp hph hlog
  obtain ⟨s₃, s₄, ans', ws'', k', env', hserves'', rfl, hcond', happ', _,
    hexec', hleads'⟩ := hserves'.last hpr rfl rfl
  have hreach₁ := hs.leads hserves'.leads
  have hreach₃ := hs.leads hserves''.leads
  have hreach₄ : machine.Reach Initial Unraced s₄ :=
    .step hreach₃ hcond' happ'
  have hserved : Serving (s₃.world, s₄.world) ⟨.transact txn, .committed⟩ :=
    ⟨env', hexec'⟩
  have hcommit := serving_commit hserved rfl
  obtain ⟨r₀, hr₀, ts, hid₀, hv₀, hset⟩ :=
    commits_guarded hcommit.1 hguard'
  obtain ⟨hworld, hrow⟩ := Prod.mk.inj hexec
  obtain ⟨hr, hid, _⟩ := getRun_inv hrow
  have hkeyed := reach_keyed hreach₁
  have hversion : r.version = v + 1 := by
    have hfound : versionOf s₁.world.db id = some (v + 1) := by
      refine hcond (id, v) ?_
      unfold rereads
      rw [hpr]
      exact hguard'
    have hstored := versionOf_eq hkeyed hr
    rw [hid, hfound] at hstored
    exact (Option.some.inj hstored).symm
  have hsame : r = r₀.set (Txn.fields txn) ts := by
    refine (leads_onward hreach₄ hleads').same hkeyed hset hr ?_ ?_
    · exact hid.trans hid₀.symm
    · rw [hversion, ← hv₀]
      rfl
  refine ⟨hversion, ?_, ?_, ?_⟩
  · rw [hsame]
    exact makes_wrote hmakes r₀ ts
  · refine ⟨(s₃.world, s₄.world), by simp, ?_, ?_⟩
    · exact commits_bumps hcommit.1 hcommit.2 (reach_keyed hreach₃) hguard'
    · rw [hsame]
      exact hset
  · intro s' hs' r' hr' hid' hv'
    have hreach : machine.Reach Initial (fun _ _ => True) s :=
      (hs.leads hserves.leads).mono fun _ _ _ => trivial
    have hon := (leads_onward (.step hreach₁ hcond happ) hleads).trans
      (leads_onward hreach hs')
    refine hon.same (reach_keyed (hreach.leads hs')) ?_ hr' hid' hv'
    rw [← hworld]
    exact hr

end Runs

/-- The row a call came back with. -/
def Outcome.row : Outcome → Option RunRow
  | .run (.ok r) => some r
  | _ => none

theorem Outcome.row_eq_some {o : Outcome} {r : RunRow}
    (h : o.row = some r) : o = .run (.ok r) := by
  unfold Outcome.row at h
  split at h
  · rw [Option.some.inj h]
  · cases h

/-- A checkpoint is written to a fresh run, undisturbed. -/
theorem returned_snapshot_checkpoint :
    ∃ s₀ ws s r, machine.Reach Initial Unraced s₀ ∧
      machine.Serves Unraced false
        (.writeCheckpoint (.text "acme") "run" 1 "mine" none) s₀ ws s ∧
      (s : State Bool).Returns false (.run (.ok r)) ∧ r.version = 2 ∧
      r.checkpointPointer = some "mine" := by
  obtain ⟨s₀, ws, s, hs₀, hserves, htest⟩ := serves_of_plays
    (fun s a => decide (Unraced s a)) (fun _ _ h => of_decide_eq_true h)
    opening false (.writeCheckpoint (.text "acme") "run" 1 "mine" none)
    (steps false [.auto, .time "t2", .auto, .auto])
    (fun x => (x.2.2.returned false).any fun o => o.row.isSome)
    (by decide +kernel)
  obtain ⟨o, ho, hok⟩ := (Option.any_eq_true _ _).1 htest
  obtain ⟨r, hr⟩ := Option.isSome_iff_exists.1 hok
  rw [Outcome.row_eq_some hr] at ho
  have hret := Sys.returns_of_returned ho
  obtain ⟨hv, hwrote, _⟩ := returned_snapshot hs₀ hserves rfl hret
  exact ⟨s₀, ws, s, r, hs₀, hserves, hret, hv, hwrote.1⟩

/-- Another process's checkpoint is written between the commit and the
re-read: the first caller gets a row it has not written, with a version
that lets it write over the second caller's. -/
theorem snapshot_overtaken :
    ∃ s₀ ws s r, machine.Reach Initial (fun _ _ => True) s₀ ∧
      machine.Serves (fun _ _ => True) false
        (.writeCheckpoint (.text "acme") "run" 1 "mine" none) s₀ ws s ∧
      (s : State Bool).Returns false (.run (.ok r)) ∧ r.version ≠ 1 + 1 ∧
      ¬ Wrote (.writeCheckpoint (.text "acme") "run" 1 "mine" none) r := by
  obtain ⟨s₀, ws, s, hs₀, hserves, htest⟩ := serves_of_plays
    (fun _ _ => true) (fun _ _ _ => trivial) opening false
    (.writeCheckpoint (.text "acme") "run" 1 "mine" none)
    (steps false [.auto, .time "t2", .auto] ++
      calling true (.writeCheckpoint (.text "acme") "run" 2 "theirs" none)
        [.auto, .time "t3", .auto, .auto] ++ steps false [.auto])
    (fun x => (x.2.2.returned false).any fun o => o.row.any fun r =>
      r.version = 3 ∧ r.checkpointPointer = some "theirs")
    (by decide +kernel)
  obtain ⟨o, ho, hok⟩ := (Option.any_eq_true _ _).1 htest
  obtain ⟨r, hr, htheirs⟩ := (Option.any_eq_true _ _).1 hok
  obtain ⟨hv, hpointer⟩ := of_decide_eq_true htheirs
  rw [Outcome.row_eq_some hr] at ho
  refine ⟨s₀, ws, s, r, hs₀, hserves, Sys.returns_of_returned ho, ?_, ?_⟩
  · omega
  · intro hwrote
    have hmine := hwrote.1
    rw [hpointer] at hmine
    exact absurd hmine (by decide)

end Service

end SdlcOs.Registry
