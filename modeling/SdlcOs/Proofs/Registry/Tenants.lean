/-
Tenants do not interfere.

# Sequences of calls

`perform` makes calls one after the other, each with its own supply of
generated ids and its own time. It is the machine that is called
(`perform_leads`). Ids are generated by `uuid4`, so the supplies of
different calls have no id in common (`Distinct`).

# The statement

Take any sequence of calls and keep those of one tenant. Its calls have
the same results, up to a renaming of ids and timestamps, in both
sequences (`noninterference`).

# The argument

`ownDb` is what the tables have of a tenant. No transaction for another
tenant changes it (`transact_other`), and a transaction for the tenant
does the same to it as to the whole database (`transact_own`), so a
method cannot tell the two apart. The renaming is `perform_rename`.
-/
import SdlcOs.Proofs.Registry.Lifecycle
import SdlcOs.Proofs.Registry.Rename

namespace SdlcOs.Registry

open Effects

namespace Service

-- ==== calls

/-- The time of a call, and the ids that are generated for it. -/
structure Supply where
  ts : String
  id : Nat → { id : String // id ≠ "" }

/-- The environment of a call with this supply. -/
def Supply.env (S : Supply) (lg : Heard) : (e : Req) → Env e
  | .getRun .. => ()
  | .listRuns .. => ()
  | .listAttempts .. => ()
  | .transact _ => ()
  | .nowIso => S.ts
  | .newId => S.id (drawn lg).length

/-- What a program ends in. -/
def outcome : Ctl Empty Outcome → Outcome
  | .done o => o
  | .again st => nomatch st

/-- Make a call. -/
def call (w : World) (c : Call) (S : Supply) : World × Except Err Outcome :=
  let r := machine.complete S.env (entry c) [] w
  (r.1, r.2.map outcome)

/-- Make calls in order: each with the tenant it is for and its result. -/
def perform (w : World) : List (Call × Supply) →
    World × List (TenantArg × Except Err Outcome)
  | [] => (w, [])
  | (c, S) :: rest =>
    let r := call w c S
    let t := perform r.1 rest
    (t.1, (c.tenantId, r.2) :: t.2)

/-- The results of a tenant's calls. -/
def resultsOf (A : TenantArg) (l : List (TenantArg × Except Err Outcome)) :
    List (Except Err Outcome) :=
  (l.filter (·.1 = A)).map (·.2)

/-- No id is generated for two calls. -/
def Distinct (calls : List (Call × Supply)) : Prop :=
  calls.Pairwise fun x y => ∀ n m, (x.2.id n).val ≠ (y.2.id m).val

theorem decode_onto (e : Req) (x : Env e) : ∃ ans, decode e ans = some x := by
  cases e with
  | nowIso => exact ⟨.time x, rfl⟩
  | newId => exact ⟨.id x.val, dif_pos x.2⟩
  | _ => exact ⟨.auto, rfl⟩

instance : Inhabited Answer := ⟨.auto⟩

section Runs

variable {Pid : Type} [DecidableEq Pid]

/-- A call is a run of the machine. -/
theorem call_leads (p : Pid) (w : World) (c : Call) (S : Supply) :
    machine.Leads (fun _ _ => True) (Sys.idle w : State Pid)
      (Sys.idle (call w c S).1) := by
  have hcall : machine.apply (.call p c) (Sys.idle w : State Pid) =
      some ((Sys.idle w).put w p (some ⟨.entry c, [], entry c⟩)) := rfl
  have hrest : machine.Leads (fun _ _ => True)
      ((Sys.idle w : State Pid).put w p (some ⟨.entry c, [], entry c⟩))
      (((Sys.idle w).put w p (some ⟨.entry c, [], entry c⟩)).put
        (call w c S).1 p none) :=
    machine.complete_leads decode_onto (fun _ => rfl) (fun st => nomatch st)
      (Sys.put_procs_self ..)
  rw [Sys.put_put] at hrest
  have hidle : (Sys.idle w : State Pid).put (call w c S).1 p none =
      Sys.idle (call w c S).1 := by
    unfold Sys.put Sys.idle
    congr 1
    exact Function.update_eq_self p _
  rw [← hidle]
  exact (Machine.Leads.step (.refl _) trivial hcall).trans hrest

/-- So is a sequence of calls. -/
theorem perform_leads (p : Pid) (calls : List (Call × Supply)) (w : World) :
    machine.Leads (fun _ _ => True) (Sys.idle w : State Pid)
      (Sys.idle (perform w calls).1) := by
  induction calls generalizing w with
  | nil => exact .refl _
  | cons x rest ih =>
    exact (call_leads p w x.1 x.2).trans (ih (call w x.1 x.2).1)

end Runs

-- ==== tables

section Owned

variable {α : Type} {tenant : α → String} {f : α → α} {l : List α}
variable {A : TenantArg}

/-- The rows of a tenant. -/
def owned (tenant : α → String) (A : TenantArg) (l : List α) : List α :=
  l.filter fun x => .text (tenant x) = A

theorem mem_owned {x : α} :
    x ∈ owned tenant A l ↔ x ∈ l ∧ .text (tenant x) = A := by
  unfold owned
  rw [List.mem_filter, decide_eq_true_iff]

theorem owned_map (h : ∀ x, tenant (f x) = tenant x) :
    owned tenant A (l.map f) = (owned tenant A l).map f := by
  unfold owned
  rw [List.filter_map]
  congr 2
  funext x
  exact decide_eq_decide.2 (by rw [h x])

theorem owned_map_other (h : ∀ x, tenant (f x) = tenant x)
    (hsame : ∀ x, .text (tenant x) = A → f x = x) :
    owned tenant A (l.map f) = owned tenant A l := by
  rw [owned_map h]
  refine (List.map_congr_left fun x hx => ?_).trans (List.map_id _)
  exact hsame x (mem_owned.1 hx).2

theorem owned_append_own {x : α} {t : String} (hx : tenant x = t)
    (ht : .text t = A) :
    owned tenant A (l ++ [x]) = owned tenant A l ++ [x] := by
  unfold owned
  rw [List.filter_append, List.filter_singleton, hx, decide_eq_true ht]
  rfl

theorem owned_append_other {x : α} {t : String} (hx : tenant x = t)
    (ht : .text t ≠ A) : owned tenant A (l ++ [x]) = owned tenant A l := by
  unfold owned
  rw [List.filter_append, List.filter_singleton, hx, decide_eq_false ht]
  exact List.append_nil _

end Owned

/-- What the tables have of a tenant. -/
def ownDb (A : TenantArg) (db : Db) : Db where
  runs := owned (·.tenantId) A db.runs
  attempts := owned (·.tenantId) A db.attempts
  stageHistory := owned (·.tenantId) A db.stageHistory

section Tables

variable {A : TenantArg} {db db' : Db} {txn : Txn}

theorem ownDb_eq {d : Db}
    (hruns : owned (·.tenantId) A db.runs = d.runs)
    (hattempts : owned (·.tenantId) A db.attempts = d.attempts)
    (hhistory : owned (·.tenantId) A db.stageHistory = d.stageHistory) :
    ownDb A db = d := by
  unfold ownDb
  rw [hruns, hattempts, hhistory]

theorem updated_tenantId (r : RunRow) (t id : String) (v : Int) (f : Fields)
    (ts : String) :
    (if r.hit t id v then r.set f ts else r).tenantId = r.tenantId := by
  split <;> rfl

section Other

variable {t id ts : String} (ht : .text t ≠ A)

include ht

theorem updatedRuns_other {v : Int} {f : Fields} :
    owned (·.tenantId) A (db.updatedRuns t id v f ts) =
      owned (·.tenantId) A db.runs := by
  refine owned_map_other (fun r => updated_tenantId ..) fun r hr => ?_
  refine if_neg fun hhit => ht ?_
  rw [← (hit_iff.1 hhit).2.1]
  exact hr

theorem closeAttempts_other :
    owned (·.tenantId) A (db.attempts.map (AttemptRow.close id t ts)) =
      owned (·.tenantId) A db.attempts := by
  refine owned_map_other (fun a => AttemptRow.close_tenantId ..) ?_
  intro a ha
  refine if_neg fun hopen => ht ?_
  rw [← hopen.2.1]
  exact ha

theorem sealedAttempts_other {current : Option String} :
    owned (·.tenantId) A (db.sealedAttempts current t ts) =
      owned (·.tenantId) A db.attempts := by
  unfold Db.sealedAttempts
  split
  · split
    · rfl
    · exact closeAttempts_other ht
  · rfl

theorem closedHistory_other :
    owned (·.tenantId) A (db.closedHistory id t ts) =
      owned (·.tenantId) A db.stageHistory := by
  refine owned_map_other (fun h => HistoryRow.close_tenantId ..) ?_
  intro h hh
  refine if_neg fun hopen => ht ?_
  rw [← hopen.2.1]
  exact hh

end Other

/-- A transaction for another tenant changes nothing a tenant has. -/
theorem transact_other (ht : .text (Txn.tenant txn) ≠ A) :
    ownDb A (db.transact txn).1 = ownDb A db := by
  by_cases hc : (db.transact txn).2 = .committed
  · have hcommits := Db.transact_committed hc
    generalize (db.transact txn).1 = db' at hcommits
    cases hcommits with
    | create hrun hattempt =>
      exact ownDb_eq (owned_append_other rfl ht)
        (owned_append_other rfl ht) (owned_append_other rfl ht)
    | append hhit hattempt =>
      refine ownDb_eq (updatedRuns_other ht) ?_ ?_
      · exact Eq.trans (owned_append_other rfl ht) (sealedAttempts_other ht)
      · exact Eq.trans (owned_append_other rfl ht) (closedHistory_other ht)
    | transition hhit =>
      refine ownDb_eq (updatedRuns_other ht) ?_ ?_
      · split
        · exact closeAttempts_other ht
        · rfl
      · exact Eq.trans (owned_append_other rfl ht) (closedHistory_other ht)
    | write hhit => exact ownDb_eq (updatedRuns_other ht) rfl rfl
  · rw [Db.transact_refused hc]

-- ------------------------------------------------------------ own rows

theorem closeAttempts_own {id t ts : String} :
    owned (·.tenantId) A (db.attempts.map (AttemptRow.close id t ts)) =
      (ownDb A db).attempts.map (AttemptRow.close id t ts) :=
  owned_map fun _ => AttemptRow.close_tenantId ..

theorem sealedAttempts_own {current : Option String} {t ts : String} :
    owned (·.tenantId) A (db.sealedAttempts current t ts) =
      (ownDb A db).sealedAttempts current t ts := by
  unfold Db.sealedAttempts
  split
  · split
    · rfl
    · exact closeAttempts_own
  · rfl

theorem closedHistory_own {id t ts : String} :
    owned (·.tenantId) A (db.closedHistory id t ts) =
      (ownDb A db).closedHistory id t ts :=
  owned_map fun _ => HistoryRow.close_tenantId ..

theorem updatedRuns_own {t id ts : String} {v : Int} {f : Fields} :
    owned (·.tenantId) A (db.updatedRuns t id v f ts) =
      (ownDb A db).updatedRuns t id v f ts :=
  owned_map fun _ => updated_tenantId ..

theorem countAttempts_own {t : String} (ht : .text t = A) (id : String) :
    (ownDb A db).countAttempts id t = db.countAttempts id t := by
  unfold Db.countAttempts ownDb owned
  rw [List.countP_filter]
  refine List.countP_congr fun a _ => ?_
  rw [Bool.and_eq_true, decide_eq_true_iff, decide_eq_true_iff, ← ht]
  constructor
  · exact fun h => h.1
  · exact fun h => ⟨h, congrArg _ h.2⟩

theorem stored_own {t id : String} {r : RunRow} (ht : .text t = A)
    (h : Stored db t id r) : Stored (ownDb A db) t id r := by
  obtain ⟨hr, hid, htenant⟩ := h
  exact ⟨mem_owned.2 ⟨hr, by rw [htenant, ht]⟩, hid, htenant⟩

theorem hit_own {t id : String} {v : Int} (ht : .text t = A)
    (h : ∃ r ∈ db.runs, r.hit t id v = true) :
    ∃ r ∈ (ownDb A db).runs, r.hit t id v = true := by
  obtain ⟨r, hr, hhit⟩ := h
  exact ⟨r, mem_owned.2 ⟨hr, by rw [(hit_iff.1 hhit).2.1, ht]⟩, hhit⟩

theorem ownDb_commits {d : Db} (h : (ownDb A db).Commits txn d)
    (hruns : owned (·.tenantId) A db'.runs = d.runs)
    (hattempts : owned (·.tenantId) A db'.attempts = d.attempts)
    (hhistory : owned (·.tenantId) A db'.stageHistory = d.stageHistory) :
    (ownDb A db).Commits txn (ownDb A db') := by
  rw [ownDb_eq hruns hattempts hhistory]
  exact h

/-- A transaction of the tenant that commits could commit on its own rows,
with the same effect. -/
theorem commits_own (ht : .text (Txn.tenant txn) = A)
    (h : db.Commits txn db') : (ownDb A db).Commits txn (ownDb A db') := by
  have hmem : ∀ a ∈ (ownDb A db).attempts, a ∈ db.attempts :=
    fun a ha => (mem_owned.1 ha).1
  cases h with
  | create hrun hattempt =>
    exact ownDb_commits
      (.create (fun r hr => hrun r (mem_owned.1 hr).1)
        fun a ha => hattempt a (hmem a ha))
      (owned_append_own rfl ht) (owned_append_own rfl ht)
      (owned_append_own rfl ht)
  | append hhit hattempt =>
    refine ownDb_commits
      (.append (hit_own ht hhit) fun a ha => hattempt a (hmem a ha))
      updatedRuns_own ?_ ?_
    · dsimp only [Txn.tenant] at ht ⊢
      rw [countAttempts_own ht, ← sealedAttempts_own]
      exact owned_append_own rfl ht
    · dsimp only
      rw [← closedHistory_own]
      exact owned_append_own rfl ht
  | transition hhit =>
    refine ownDb_commits (.transition (hit_own ht hhit)) updatedRuns_own
      ?_ ?_
    · dsimp only
      split
      · exact closeAttempts_own
      · rfl
    · dsimp only
      rw [← closedHistory_own]
      exact owned_append_own rfl ht
  | write hhit =>
    exact ownDb_commits (.write (hit_own ht hhit)) updatedRuns_own rfl rfl

-- --------------------------------------------------------------- commits

/-- The id names no row. -/
structure Unused (db : Db) (id : String) : Prop where
  run : ∀ r ∈ db.runs, r.id ≠ id
  attempt : ∀ a ∈ db.attempts, a.id ≠ id
  entry : ∀ h ∈ db.stageHistory, h.id ≠ id

/-- Every run's current attempt is there, and is of the run's tenant. -/
def Tenanted (db : Db) : Prop :=
  ∀ r ∈ db.runs, ∃ a ∈ db.attempts, r.currentAttemptId = some a.id ∧
    a.tenantId = r.tenantId

theorem Unused.own {id : String} (h : Unused db id) :
    Unused (ownDb A db) id where
  run := fun r hr => h.run r (mem_owned.1 hr).1
  attempt := fun a ha => h.attempt a (mem_owned.1 ha).1
  entry := fun e he => h.entry e (mem_owned.1 he).1

theorem Tenanted.own (h : Tenanted db) : Tenanted (ownDb A db) := by
  intro r hr
  obtain ⟨hr, htenant⟩ := mem_owned.1 hr
  obtain ⟨a, ha, hcurrent, heq⟩ := h r hr
  exact ⟨a, mem_owned.2 ⟨ha, by rw [heq, htenant]⟩, hcurrent, heq⟩

theorem insertRun_ok {row : RunRow} (h : Unused db row.id) :
    db.insertRun row = .ok { db with runs := db.runs ++ [row] } := by
  unfold Db.insertRun
  exact if_neg (by simpa using h.run)

theorem insertAttempt_ok {row : AttemptRow}
    (hfresh : ∀ a ∈ db.attempts, a.id ≠ row.id)
    (hrun : ∃ r ∈ db.runs, r.id = row.runId) :
    db.insertAttempt row =
      .ok { db with attempts := db.attempts ++ [row] } := by
  unfold Db.insertAttempt
  rw [if_neg (by simpa using hfresh), if_neg (by simpa using hrun)]

theorem insertStageHistory_ok {row : HistoryRow}
    (hfresh : ∀ h ∈ db.stageHistory, h.id ≠ row.id)
    (hrun : ∃ r ∈ db.runs, r.id = row.runId)
    (hattempt : ∃ a ∈ db.attempts, a.id = row.attemptId) :
    db.insertStageHistory row =
      .ok { db with stageHistory := db.stageHistory ++ [row] } := by
  unfold Db.insertStageHistory
  rw [if_neg (by simpa using hfresh), if_neg ?_]
  simpa using ⟨hrun, hattempt⟩

theorem create_ok {row : RunRow} {attemptId entryId : String}
    (hfresh : ∀ id ∈ Txn.newIds (.create row attemptId entryId),
      Unused db id) :
    ∃ d, db.create row attemptId entryId = .ok d := by
  have hrun := hfresh row.id (by simp [Txn.newIds])
  have hattempt := hfresh attemptId (by simp [Txn.newIds])
  have hentry := hfresh entryId (by simp [Txn.newIds])
  have hnew : ∃ r ∈ db.runs ++ [row], r.id = row.id :=
    ⟨row, List.mem_append_right _ List.mem_cons_self, rfl⟩
  unfold Db.create
  exact ⟨_, Db.bind_ok (insertRun_ok hrun)
    (Db.bind_ok (insertAttempt_ok hattempt.attempt hnew)
      (Db.bind_ok (insertStageHistory_ok hentry.entry hnew
        ⟨_, List.mem_append_right _ List.mem_cons_self, rfl⟩) rfl))⟩

theorem closedHistory_fresh (id t ts : String) {entryId : String}
    (h : Unused db entryId) :
    ∀ e ∈ db.closedHistory id t ts, e.id ≠ entryId := by
  intro e he
  obtain ⟨g, hg, rfl⟩ := List.mem_map.1 he
  rw [HistoryRow.close_id]
  exact h.entry g hg

theorem append_ok (t : String) (v : Int) (current : Option String)
    (reason : String) (start : Stage) (trace ts : String)
    {id attemptId entryId : String} (hrun : ∃ r ∈ db.runs, r.id = id)
    (hattempt : Unused db attemptId) (hentry : Unused db entryId) :
    ∃ d, db.append t id v current reason start trace ts attemptId entryId =
      .ok (d, db.runs.countP (RunRow.hit t id v)) := by
  obtain ⟨f, hf, hsealed⟩ := sealedAttempts_keeps db current t ts
  have hfresh : ∀ a ∈ db.sealedAttempts current t ts, a.id ≠ attemptId := by
    intro a ha
    rw [hsealed] at ha
    obtain ⟨b, hb, rfl⟩ := List.mem_map.1 ha
    rw [(hf b).1]
    exact hattempt.attempt b hb
  have hclosed := closedHistory_fresh id t ts hentry
  unfold Db.append
  rw [Db.seal_eq]
  exact ⟨_, Db.bind_ok (insertAttempt_ok hfresh hrun)
    (Db.bind_ok (insertStageHistory_ok hclosed hrun
      ⟨_, List.mem_append_right _ List.mem_cons_self, rfl⟩) rfl)⟩

theorem transition_ok (t : String) (v : Int) (next : Stage) (ts : String)
    {id current entryId : String} (hrun : ∃ r ∈ db.runs, r.id = id)
    (hcurrent : ∃ a ∈ db.attempts, a.id = current)
    (hentry : Unused db entryId) :
    ∃ d, db.transition t id v current next ts entryId =
      .ok (d, db.runs.countP (RunRow.hit t id v)) := by
  have hclosed := closedHistory_fresh id t ts hentry
  unfold Db.transition
  by_cases hterm : next ∈ Stage.terminalStages
  · simp only [hterm, if_true]
    exact ⟨_, Db.bind_ok (insertStageHistory_ok hclosed hrun hcurrent) rfl⟩
  · simp only [hterm, if_false]
    exact ⟨_, Db.bind_ok (insertStageHistory_ok hclosed hrun hcurrent) rfl⟩

theorem settle_ok {d : Db} {n : Nat} (hn : n ≠ 0) :
    (db.settle (.ok (d, n))).2 = .committed := by
  unfold Db.settle
  simp only [if_neg hn]

theorem stored_hit {t id : String} {r : RunRow} (h : Stored db t id r) :
    db.runs.countP (RunRow.hit t id r.version) ≠ 0 :=
  (List.countP_pos_iff.2 ⟨r, h.1, hit_iff.2 ⟨h.2.1, h.2.2, rfl⟩⟩).ne'

theorem fits_committed (hfits : Fits (Stored db) txn) (ht : Tenanted db)
    (hfresh : ∀ id ∈ Txn.newIds txn, Unused db id) :
    (db.transact txn).2 = .committed := by
  unfold Db.transact
  cases txn with
  | create row attemptId entryId =>
    obtain ⟨d, hd⟩ := create_ok hfresh
    dsimp only
    rw [hd]
    exact settle_ok Nat.one_ne_zero
  | append t id v current reason start trace ts attemptId entryId =>
    obtain ⟨_, r, hr, rfl, _⟩ := hfits
    obtain ⟨d, hd⟩ := append_ok t r.version current reason start trace ts
      ⟨r, hr.1, hr.2.1⟩ (hfresh attemptId (by simp [Txn.newIds]))
      (hfresh entryId (by simp [Txn.newIds]))
    dsimp only
    rw [hd]
    exact settle_ok (stored_hit hr)
  | transition t id v current next ts entryId =>
    obtain ⟨r, hr, rfl, hcurrent, _⟩ := hfits
    obtain ⟨a, ha, hsome, _⟩ := ht r hr.1
    obtain ⟨d, hd⟩ := transition_ok t r.version next ts
      ⟨r, hr.1, hr.2.1⟩
      ⟨a, ha, Option.some.inj (hsome.symm.trans hcurrent)⟩
      (hfresh entryId (by simp [Txn.newIds]))
    dsimp only
    rw [hd]
    exact settle_ok (stored_hit hr)
  | write t id v fields ts =>
    obtain ⟨_, _, _, r, hr, rfl⟩ := hfits
    exact settle_ok (stored_hit hr)

theorem commits_unique {d d' : Db} (h : db.Commits txn d)
    (h' : db.Commits txn d') : d = d' := by
  cases h <;> cases h' <;> rfl

/-- A transaction for the tenant does the same to what the tenant has. -/
theorem transact_own (hfits : Fits (Stored db) txn) (hten : Tenanted db)
    (hfresh : ∀ id ∈ Txn.newIds txn, Unused db id)
    (ht : .text (Txn.tenant txn) = A) :
    (ownDb A db).transact txn =
      (ownDb A (db.transact txn).1, (db.transact txn).2) := by
  have hc := fits_committed hfits hten hfresh
  have hc' : ((ownDb A db).transact txn).2 = .committed := by
    refine fits_committed ?_ hten.own fun id hid => (hfresh id hid).own
    exact hfits.mono fun id r hr => stored_own ht hr
  have hdb := commits_unique (Db.transact_committed hc')
    (commits_own ht (Db.transact_committed hc))
  exact Prod.ext hdb (hc'.trans hc.symm)

end Tables

-- ==== a call

section Reads

variable {A : TenantArg} {db : Db}

theorem owned_find {α : Type} {tenant : α → String} {q : α → Bool}
    {l : List α} (h : ∀ x, q x = true → .text (tenant x) = A) :
    (owned tenant A l).find? q = l.find? q := by
  unfold owned
  rw [List.find?_filter]
  congr 1
  funext x
  by_cases hq : q x = true
  · rw [hq, decide_eq_true (h x hq)]
    rfl
  · simp [hq]

theorem owned_filter {α : Type} {tenant : α → String} {q : α → Bool}
    {l : List α} (h : ∀ x, q x = true → .text (tenant x) = A) :
    (owned tenant A l).filter q = l.filter q := by
  unfold owned
  rw [List.filter_filter]
  refine List.filter_congr fun x _ => ?_
  by_cases hq : q x = true
  · rw [hq, decide_eq_true (h x hq)]
    rfl
  · simp [hq]

theorem getRun_own (id : String) :
    (ownDb A db).getRun A id = db.getRun A id := by
  unfold Db.getRun ownDb
  rw [owned_find]
  intro r hr
  exact (of_decide_eq_true hr).2

theorem listRuns_own (stage : Option String) (limit offset : Int) :
    (ownDb A db).listRuns A stage limit offset =
      db.listRuns A stage limit offset := by
  unfold Db.listRuns ownDb
  rw [owned_filter]
  intro r hr
  exact (of_decide_eq_true hr).1

theorem listAttempts_own (id : String) :
    (ownDb A db).listAttempts id A = db.listAttempts id A := by
  unfold Db.listAttempts ownDb
  rw [owned_filter]
  intro a ha
  exact (of_decide_eq_true ha).2

end Reads

/-- The ids a call has generated are those of its supply. -/
def Draws (S : Supply) (lg : Heard) : Prop :=
  ∀ id ∈ drawn lg, ∃ n, id = (S.id n).val

theorem draws_nil (S : Supply) : Draws S [] :=
  fun _ hid => absurd hid List.not_mem_nil

theorem Draws.step {S : Supply} {lg : Heard} (h : Draws S lg) (w : World)
    (e : Req) : Draws S (⟨e, (exec w e (S.env lg e)).2⟩ :: lg) := by
  cases e with
  | newId =>
    intro id hid
    rcases List.mem_cons.1 hid with rfl | hold
    · exact ⟨_, rfl⟩
    · exact h id hold
  | _ => exact h

/-- A call on the whole database, and the same call on what the tenant has
of it. Until its transaction nothing has changed, so what it has read is
stored. -/
structure Twin (A : TenantArg) (db : Db) (S : Supply) (lg : Heard)
    (w w' : World) : Prop where
  own : w'.db = ownDb A w.db
  still : Quiet lg → w.db = db
  read : ∀ t id r, Read lg t id r → Quiet lg → Stored db t id r
  draws : Draws S lg

section Calls

variable {A : TenantArg} {db : Db} {S : Supply} {lg : Heard} {w w' : World}
variable {c : Call}

theorem Quiet.tail {x : (e : Req) × Resp e} (h : Quiet (x :: lg)) :
    Quiet lg := fun y hy => h y (List.mem_cons_of_mem _ hy)

theorem read_none {db : Db} {e : Req} {r : Resp e}
    (he : ∀ t id, e ≠ .getRun t id) :
    ∀ t id row, (⟨e, r⟩ : (e : Req) × Resp e) =
      ⟨.getRun (.text t) id, some row⟩ → Stored db t id row :=
  fun t id _ heq => absurd (Sigma.mk.inj heq).1 (he (.text t) id)

theorem Twin.asked (h : Twin A db S lg w w') {e : Req} {r : Resp e}
    (hread : ∀ t id row, (⟨e, r⟩ : (e : Req) × Resp e) =
      ⟨.getRun (.text t) id, some row⟩ → Stored w.db t id row)
    (hdraws : Draws S (⟨e, r⟩ :: lg)) :
    Twin A db S (⟨e, r⟩ :: lg) w w' where
  own := h.own
  still := fun hq => h.still hq.tail
  read := by
    intro t id row hr hq
    rcases List.mem_cons.1 hr with hnew | hold
    · rw [← h.still hq.tail]
      exact hread t id row hnew.symm
    · exact h.read t id row hold hq.tail
  draws := hdraws

theorem exec_db (w : World) (txn : Txn) (x : Env (.transact txn)) :
    (exec w (.transact txn) x).1.db = (w.db.transact txn).1 := by
  simp only [exec]
  split
  · rfl
  · next hrefused => exact (Db.transact_refused hrefused).symm

theorem Twin.transacted (hten : Tenanted db)
    (hfresh : ∀ n, Unused db (S.id n).val) (h : Twin A db S lg w w')
    (hc : c.tenantId = A) {txn : Txn}
    (hmay : asks (.entry c) lg (.transact txn)) :
    (exec w' (.transact txn) ()).2 = (exec w (.transact txn) ()).2 ∧
      Twin A db S (⟨.transact txn, (exec w (.transact txn) ()).2⟩ :: lg)
        (exec w (.transact txn) ()).1 (exec w' (.transact txn) ()).1 := by
  obtain ⟨hfits, htenant, hquiet, hids⟩ := hmay
  have hdb := h.still hquiet
  have hown : (ownDb A db).transact txn =
      (ownDb A (db.transact txn).1, (db.transact txn).2) := by
    refine transact_own ?_ hten ?_ (htenant.trans hc)
    · exact hfits.mono fun id r hr => h.read _ id r hr hquiet
    · intro id hid
      obtain ⟨n, rfl⟩ := h.draws id (hids id hid)
      exact hfresh n
  have hloud : ∀ {x}, ¬ Quiet (⟨.transact txn, x⟩ :: lg) :=
    fun hq => hq _ List.mem_cons_self txn rfl
  refine ⟨?_, ?_, fun hq => absurd hq hloud, fun _ _ _ _ hq => absurd hq hloud,
    h.draws⟩
  · rw [exec_answer, exec_answer, h.own, hdb, hown]
  · rw [exec_db, exec_db, h.own, hdb, hown]

theorem Twin.step (hten : Tenanted db)
    (hfresh : ∀ n, Unused db (S.id n).val) (h : Twin A db S lg w w')
    (hc : c.tenantId = A) {e : Req} (hmay : asks (.entry c) lg e) :
    (exec w' e (S.env lg e)).2 = (exec w e (S.env lg e)).2 ∧
      Twin A db S (⟨e, (exec w e (S.env lg e)).2⟩ :: lg)
        (exec w e (S.env lg e)).1 (exec w' e (S.env lg e)).1 := by
  have hdraws := h.draws.step w e
  cases e with
  | transact txn => exact h.transacted hten hfresh hc hmay
  | getRun t id =>
    have ht : t = A := hmay.trans hc
    refine ⟨?_, h.asked ?_ hdraws⟩
    · show w'.db.getRun t id = w.db.getRun t id
      rw [h.own, ht, getRun_own]
    · intro t' id' row heq
      obtain ⟨heq, hrow⟩ := Sigma.mk.inj heq
      obtain ⟨rfl, rfl⟩ := Req.getRun.inj heq
      obtain ⟨hmem, hid, htenant⟩ := getRun_inv (eq_of_heq hrow)
      exact ⟨hmem, hid, TenantArg.text.inj htenant⟩
  | listRuns t stage limit offset =>
    have ht : t = A := hmay.trans hc
    refine ⟨?_, h.asked (read_none nofun) hdraws⟩
    show w'.db.listRuns t stage limit offset = _
    rw [h.own, ht, listRuns_own]
    rfl
  | listAttempts id t =>
    have ht : t = A := hmay.trans hc
    refine ⟨?_, h.asked (read_none nofun) hdraws⟩
    show w'.db.listAttempts id t = _
    rw [h.own, ht, listAttempts_own]
    rfl
  | nowIso => exact ⟨rfl, h.asked (read_none nofun) hdraws⟩
  | newId => exact ⟨rfl, h.asked (read_none nofun) hdraws⟩

/-- A call for the tenant does the same to what the tenant has, and has
the same result there. -/
theorem call_own (hten : Tenanted w.db)
    (hfresh : ∀ n, Unused w.db (S.id n).val) (hc : c.tenantId = A)
    (hw : w'.db = ownDb A w.db) :
    (call w' c S).2 = (call w c S).2 ∧
      (call w' c S).1.db = ownDb A (call w c S).1.db := by
  have hstart : Twin A w.db S [] w w' :=
    ⟨hw, fun _ => rfl, fun _ _ _ hr => absurd hr List.not_mem_nil,
      draws_nil S⟩
  obtain ⟨hresult, lg, hend⟩ := machine.complete_sim
    (fun h hmay => h.step hten hfresh hc hmay) (entry_paths c) hstart
  exact ⟨congrArg (Except.map outcome) hresult, hend.own⟩

theorem call_other (hc : c.tenantId ≠ A) :
    ownDb A (call w c S).1.db = ownDb A w.db := by
  have hstep : ∀ {lg : Heard} {e : Req} {u : World},
      ownDb A u.db = ownDb A w.db → asks (.entry c) lg e →
      ownDb A (exec u e (S.env lg e)).1.db = ownDb A w.db := by
    intro lg e u h hmay
    rcases exec_inv u e (S.env lg e) with hsame | ⟨txn, rfl, _, hworld⟩
    · rw [hsame, h]
    · rw [hworld]
      show ownDb A (u.db.transact txn).1 = _
      rw [transact_other, h]
      rw [hmay.2.1]
      exact hc
  obtain ⟨_, hend⟩ := machine.complete_inv
    (I := fun _ u => ownDb A u.db = ownDb A w.db) hstep (entry_paths c) rfl
  exact hend

section Keys

variable {α : Type} {key : α → String} {f : α → α} {l : List α}
variable {id : String}

theorem unused_map (h : ∀ x ∈ l, key x ≠ id)
    (hf : ∀ x, key (f x) = key x) : ∀ y ∈ l.map f, key y ≠ id := by
  intro y hy
  obtain ⟨x, hx, rfl⟩ := List.mem_map.1 hy
  rw [hf]
  exact h x hx

theorem unused_append (h : ∀ x ∈ l, key x ≠ id) {x : α} (hx : id ≠ key x) :
    ∀ y ∈ l ++ [x], key y ≠ id := by
  intro y hy
  rcases List.mem_append.1 hy with hold | hnew
  · exact h y hold
  · obtain rfl := List.mem_singleton.1 hnew
    exact hx.symm

end Keys

theorem Unused.updated {t runId ts id : String} {v : Int} {f : Fields}
    (h : Unused db id) :
    ∀ r ∈ db.updatedRuns t runId v f ts, r.id ≠ id := by
  refine unused_map h.run fun r => ?_
  split <;> rfl

theorem Unused.commits {db' : Db} {txn : Txn} {id : String}
    (h : Unused db id) (hcommits : db.Commits txn db')
    (hid : id ∉ Txn.newIds txn) : Unused db' id := by
  have hnew : ∀ x ∈ Txn.newIds txn, id ≠ x :=
    fun x hx heq => hid (heq ▸ hx)
  cases hcommits with
  | create hrun hattempt =>
    exact ⟨unused_append h.run (hnew _ (by simp [Txn.newIds])),
      unused_append h.attempt (hnew _ (by simp [Txn.newIds])),
      unused_append h.entry (hnew _ (by simp [Txn.newIds]))⟩
  | @append t runId _ current _ _ _ ts _ _ hhit hattempt =>
    obtain ⟨f, hf, hsealed⟩ := sealedAttempts_keeps db current t ts
    refine ⟨h.updated, ?_, ?_⟩
    · dsimp only
      rw [hsealed]
      exact unused_append (unused_map h.attempt fun a => (hf a).1)
        (hnew _ (by simp [Txn.newIds]))
    · exact unused_append (closedHistory_fresh runId t ts h)
        (hnew _ (by simp [Txn.newIds]))
  | @transition t runId _ _ next ts _ hhit =>
    refine ⟨h.updated, ?_, ?_⟩
    · dsimp only
      split
      · exact unused_map h.attempt fun a => AttemptRow.close_id ..
      · exact h.attempt
    · exact unused_append (closedHistory_fresh runId t ts h)
        (hnew _ (by simp [Txn.newIds]))
  | write hhit => exact ⟨h.updated, h.attempt, h.entry⟩

theorem call_unused {id : String} (hid : ∀ n, (S.id n).val ≠ id)
    (h : Unused w.db id) : Unused (call w c S).1.db id := by
  have hstep : ∀ {lg : Heard} {e : Req} {u : World},
      Draws S lg ∧ Unused u.db id → asks (.entry c) lg e →
      Draws S (⟨e, (exec u e (S.env lg e)).2⟩ :: lg) ∧
        Unused (exec u e (S.env lg e)).1.db id := by
    intro lg e u h hmay
    refine ⟨h.1.step u e, ?_⟩
    rcases exec_inv u e (S.env lg e) with hsame | ⟨txn, rfl, hc, hworld⟩
    · rw [hsame]
      exact h.2
    · rw [hworld]
      refine h.2.commits (Db.transact_committed hc) fun hnew => ?_
      obtain ⟨n, hn⟩ := h.1 id (hmay.2.2.2 id hnew)
      exact hid n hn.symm
  obtain ⟨_, hend⟩ := machine.complete_inv
    (I := fun lg u => Draws S lg ∧ Unused u.db id) hstep (entry_paths c)
    ⟨draws_nil S, h⟩
  exact hend.2

end Calls

-- ==== renaming

/-- Rename the time and the ids of a call. -/
def Supply.rename (ρ : Renaming) (S : Supply) : Supply where
  ts := ρ.ts S.ts
  id := fun n =>
    ⟨ρ.id (S.id n).val, fun h => (S.id n).2 ((ρ.id_eq_empty _).1 h)⟩

/-- Rename the calls of a sequence. -/
def renameCalls (ρ : Renaming) (calls : List (Call × Supply)) :
    List (Call × Supply) :=
  calls.map fun x => (x.1.rename ρ, x.2.rename ρ)

section Renamed

variable (ρ : Renaming) {w w' : World}

theorem drawn_rename (lg : Heard) :
    (drawn ((translation ρ).log lg)).length = (drawn lg).length := by
  have hdrawn : drawn ((translation ρ).log lg) = (drawn lg).map ρ.id := by
    unfold drawn Translation.log
    rw [List.filterMap_map, List.map_filterMap]
    congr 1
    funext x
    obtain ⟨e, r⟩ := x
    cases e <;> rfl
  rw [hdrawn, List.length_map]

theorem exec_rename (S : Supply) {lg : Heard} {e : Req}
    (h : w'.db = ρ.db w.db) :
    (exec w' (renameReq ρ e)
        ((S.rename ρ).env ((translation ρ).log lg) (renameReq ρ e))).2 =
        renameResp ρ e (exec w e (S.env lg e)).2 ∧
      (exec w' (renameReq ρ e)
        ((S.rename ρ).env ((translation ρ).log lg) (renameReq ρ e))).1.db =
        ρ.db (exec w e (S.env lg e)).1.db := by
  cases e with
  | getRun t id =>
    refine ⟨?_, h⟩
    show w'.db.getRun t (ρ.id id) = _
    rw [h, ρ.getRun]
    rfl
  | listRuns t stage limit offset =>
    refine ⟨?_, h⟩
    show w'.db.listRuns t stage limit offset = _
    rw [h, ρ.listRuns]
    rfl
  | listAttempts id t =>
    refine ⟨?_, h⟩
    show w'.db.listAttempts (ρ.id id) t = _
    rw [h, ρ.listAttempts]
    rfl
  | transact txn =>
    show (exec w' (.transact (ρ.txn txn)) ()).2 =
        (exec w (.transact txn) ()).2 ∧
      (exec w' (.transact (ρ.txn txn)) ()).1.db =
        ρ.db (exec w (.transact txn) ()).1.db
    rw [exec_answer, exec_answer, exec_db, exec_db, h, ρ.transact]
    exact ⟨rfl, rfl⟩
  | nowIso => exact ⟨rfl, h⟩
  | newId =>
    refine ⟨Subtype.ext ?_, h⟩
    show ρ.id (S.id (drawn ((translation ρ).log lg)).length).val = _
    rw [drawn_rename]
    rfl

theorem call_rename (c : Call) (S : Supply) (h : w'.db = ρ.db w.db) :
    (call w' (c.rename ρ) (S.rename ρ)).2 =
        (call w c S).2.map (Outcome.rename ρ) ∧
      (call w' (c.rename ρ) (S.rename ρ)).1.db = ρ.db (call w c S).1.db := by
  have hrun : (machine.complete (S.rename ρ).env (entry (c.rename ρ)) []
        w').2 = (machine.complete S.env (entry c) [] w).2.map
          (endWith (Outcome.rename ρ)) ∧
      (machine.complete (S.rename ρ).env (entry (c.rename ρ)) [] w').1.db =
        ρ.db (machine.complete S.env (entry c) [] w).1.db :=
    complete_mirrors (R := fun u u' : World => u'.db = ρ.db u.db)
      (fun h => exec_rename ρ S h) (entry_mirrors c) [] h
  refine ⟨?_, hrun.2⟩
  unfold call
  dsimp only
  rw [hrun.1]
  cases (machine.complete S.env (entry c) [] w).2 with
  | error x => rfl
  | ok ctl =>
    cases ctl with
    | done o => rfl
    | again st => cases st

theorem perform_rename (calls : List (Call × Supply))
    (h : w'.db = ρ.db w.db) :
    (perform w' (renameCalls ρ calls)).2.map (·.2) =
      (perform w calls).2.map fun x => x.2.map (Outcome.rename ρ) := by
  induction calls generalizing w w' with
  | nil => rfl
  | cons x rest ih =>
    obtain ⟨hresult, hdb⟩ := call_rename ρ x.1 x.2 h
    exact congrArg₂ List.cons hresult (ih hdb)

end Renamed

-- ==== noninterference

section Runs

variable {Pid : Type} [DecidableEq Pid]

theorem reach_tenanted {cond : State Pid → Act Pid → Prop} {s : State Pid}
    (hs : machine.Reach Initial cond s) : Tenanted s.world.db := by
  have hviews := (views_orderly (consistent_inductive fun _ _ => False)
    (hs.mono fun _ a _ => without_named a)).inv.2
  intro r hr
  obtain ⟨a, ha, hcurrent, hrun, _⟩ := hviews.linked.current r hr
  refine ⟨a, ha, hcurrent, (hviews.each r hr).attemptTenants a ?_⟩
  exact List.mem_filter.2 ⟨ha, decide_eq_true hrun⟩

end Runs

/-- Keep a tenant's calls. -/
def callsOf (A : TenantArg) (calls : List (Call × Supply)) :
    List (Call × Supply) :=
  calls.filter (·.1.tenantId = A)

section

variable {A : TenantArg} {c : Call} {S : Supply}
variable {rest : List (Call × Supply)} {w : World}

theorem callsOf_own (hc : c.tenantId = A) :
    callsOf A ((c, S) :: rest) = (c, S) :: callsOf A rest := by
  simp [callsOf, hc]

theorem callsOf_other (hc : c.tenantId ≠ A) :
    callsOf A ((c, S) :: rest) = callsOf A rest := by
  simp [callsOf, hc]

theorem resultsOf_own (hc : c.tenantId = A) :
    resultsOf A (perform w ((c, S) :: rest)).2 =
      (call w c S).2 :: resultsOf A (perform (call w c S).1 rest).2 := by
  simp [resultsOf, perform, hc]

theorem resultsOf_other (hc : c.tenantId ≠ A) :
    resultsOf A (perform w ((c, S) :: rest)).2 =
      resultsOf A (perform (call w c S).1 rest).2 := by
  simp [resultsOf, perform, hc]

end

/-- On what a tenant has, its calls alone have the results they have among
everyone's on the whole database. -/
theorem perform_own (A : TenantArg) {calls : List (Call × Supply)}
    {w w' : World}
    (hreach : machine.Reach Initial (fun _ _ => True)
      (Sys.idle w : State Unit))
    (hdistinct : Distinct calls)
    (hfresh : ∀ x ∈ calls, ∀ n, Unused w.db (x.2.id n).val)
    (hw : w'.db = ownDb A w.db) :
    (perform w' (callsOf A calls)).2.map (·.2) =
      resultsOf A (perform w calls).2 := by
  induction calls generalizing w w' with
  | nil => rfl
  | cons x rest ih =>
    obtain ⟨c, S⟩ := x
    have hnew := List.pairwise_cons.1 hdistinct
    have hrest := fun {u'} => @ih (call w c S).1 u'
      (hreach.leads (call_leads () w c S)) hnew.2
      fun y hy n => call_unused (fun m => hnew.1 y hy m n)
        (hfresh y (List.mem_cons_of_mem _ hy) n)
    by_cases hc : c.tenantId = A
    · obtain ⟨hresult, hdb⟩ := call_own (reach_tenanted hreach)
        (hfresh (c, S) List.mem_cons_self) hc hw
      rw [callsOf_own hc, resultsOf_own hc, ← hrest hdb]
      exact congrArg (· :: _) hresult
    · rw [callsOf_other hc, resultsOf_other hc,
        ← hrest (hw.trans (call_other hc).symm)]

theorem unused_empty (id : String) : Unused .empty id where
  run := fun _ h => by cases h
  attempt := fun _ h => by cases h
  entry := fun _ h => by cases h

theorem rename_tenantId (ρ : Renaming) (c : Call) :
    (c.rename ρ).tenantId = c.tenantId := by
  cases c <;> rfl

theorem resultsOf_all {A : TenantArg} {calls : List (Call × Supply)}
    (h : ∀ x ∈ calls, x.1.tenantId = A) (w : World) :
    resultsOf A (perform w calls).2 = (perform w calls).2.map (·.2) := by
  induction calls generalizing w with
  | nil => rfl
  | cons x rest ih =>
    have hx := h x List.mem_cons_self
    have hrest := fun y hy => h y (List.mem_cons_of_mem x hy)
    rw [resultsOf_own hx, ih hrest]
    rfl

/-- Noninterference: a tenant's calls have the same results among
everyone's calls as without them, whatever ids and timestamps are generated
instead. -/
theorem noninterference (A : TenantArg) (calls : List (Call × Supply))
    (hdistinct : Distinct calls) (ρ : Renaming) :
    resultsOf A
        (perform ⟨.empty, []⟩ (renameCalls ρ (callsOf A calls))).2 =
      (resultsOf A (perform ⟨.empty, []⟩ calls).2).map
        (·.map (Outcome.rename ρ)) := by
  have hall : ∀ x ∈ renameCalls ρ (callsOf A calls), x.1.tenantId = A := by
    intro x hx
    obtain ⟨y, hy, rfl⟩ := List.mem_map.1 hx
    rw [rename_tenantId]
    exact of_decide_eq_true (List.mem_filter.1 hy).2
  let w : World := ⟨.empty, []⟩
  have hrenamed : w.db = ρ.db w.db := rfl
  have hown : w.db = ownDb A w.db := rfl
  rw [resultsOf_all hall, perform_rename ρ _ hrenamed,
    ← perform_own A (.init rfl) hdistinct (fun x _ n => unused_empty _)
      hown, List.map_map]
  rfl

/-- A supply of three ids. -/
def Supply.three (ts : String) (i j k : { id : String // id ≠ "" }) :
    Supply where
  ts := ts
  id
    | 0 => i
    | 1 => j
    | _ => k

theorem Supply.three_ids {ts : String} {i j k : { id : String // id ≠ "" }}
    (n : Nat) : ((Supply.three ts i j k).id n).val ∈ [i.val, j.val, k.val] :=
  match n with
  | 0 => List.mem_cons_self
  | 1 => List.mem_cons_of_mem _ List.mem_cons_self
  | _ + 2 => List.mem_cons_of_mem _ (List.mem_cons_of_mem _
      List.mem_cons_self)

/-- One tenant creates a run and reads it; in between another one tries to
move it, and a caller without a tenant asks for it. -/
def probed : List (Call × Supply) :=
  [(.createRun (.text "acme") "KEY-1" "repo" "branch" "spot" "trace" none,
      .three "t1" ⟨"run", by decide⟩ ⟨"first", by decide⟩
        ⟨"entry", by decide⟩),
    (.transitionStage (.text "rival") "run" 1 "research",
      .three "t2" ⟨"x", by decide⟩ ⟨"x", by decide⟩ ⟨"x", by decide⟩),
    (.getRun .other "run",
      .three "t3" ⟨"y", by decide⟩ ⟨"y", by decide⟩ ⟨"y", by decide⟩),
    (.getRun (.text "acme") "run",
      .three "t4" ⟨"z", by decide⟩ ⟨"z", by decide⟩ ⟨"z", by decide⟩)]

theorem distinct_of_ids {x y : Supply} {l l' : List String}
    (hx : ∀ n, (x.id n).val ∈ l) (hy : ∀ n, (y.id n).val ∈ l')
    (h : ∀ a ∈ l, a ∉ l') (n m : Nat) : (x.id n).val ≠ (y.id m).val :=
  fun heq => h _ (hx n) (heq ▸ hy m)

theorem probed_distinct : Distinct probed := by
  unfold Distinct probed
  simp only [List.pairwise_cons, List.mem_cons, List.not_mem_nil, or_false,
    forall_eq_or_imp, forall_eq, List.Pairwise.nil, and_true,
    false_implies, implies_true]
  refine ⟨⟨?_, ?_, ?_⟩, ⟨?_, ?_⟩, ?_⟩
  all_goals
    exact distinct_of_ids Supply.three_ids Supply.three_ids (by decide)

theorem noninterference_probed :
    resultsOf (.text "acme") (perform ⟨.empty, []⟩
        (renameCalls .same (callsOf (.text "acme") probed))).2 =
      (resultsOf (.text "acme") (perform ⟨.empty, []⟩ probed).2).map
        (·.map (Outcome.rename .same)) ∧
    (perform ⟨.empty, []⟩ probed).2[1]? =
      some (.text "rival", .ok (.run .empty)) :=
  ⟨noninterference (.text "acme") probed probed_distinct .same,
    by decide +kernel⟩

end Service

end SdlcOs.Registry
