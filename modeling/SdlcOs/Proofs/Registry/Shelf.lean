/-
What a transaction does to the shelf.

# Effects

A committed transaction that an operation makes (`Op.Makes`) does to the
shelf what the operation does (`Op.Makes.done`): it hits the row that was
read, which is the row of the shelf, at the version the caller expects.

# Refusals

A transaction that hits no row was overtaken: the row that was read has
moved on, and the operation of `Run` refuses it (`Op.Makes.refuses`).
-/
import SdlcOs.Registry.Shelf
import SdlcOs.Proofs.Registry.Times

namespace SdlcOs.Registry

open Effects

namespace Service

-- ==== the shelf

section Shelves

variable {db db' : Db} {r : RunRow}

theorem shelf_of_mem (hkeyed : Keyed db) (hr : r ∈ db.runs) :
    db.shelf r.id = some r.run := by
  unfold Db.shelf
  cases hfind : db.runs.find? (·.id = r.id) with
  | none =>
    have hno := List.find?_eq_none.1 hfind r hr
    simp at hno
  | some r' =>
    have hid : r'.id = r.id := by simpa using List.find?_some hfind
    rw [hkeyed.eq (List.mem_of_find?_eq_some hfind) hr hid]
    rfl

theorem shelf_of_free {id : String} (h : ∀ r ∈ db.runs, r.id ≠ id) :
    db.shelf id = none := by
  unfold Db.shelf
  rw [List.find?_eq_none.2]
  · rfl
  · intro r hr
    simpa using h r hr

theorem shelf_eq_none {id : String} (h : db.shelf id = none) :
    ∀ r ∈ db.runs, r.id ≠ id := by
  intro r hr
  unfold Db.shelf at h
  simpa using List.find?_eq_none.1 (Option.map_eq_none_iff.1 h) r hr

theorem shelf_updated (hkeyed : Keyed db) (hr : r ∈ db.runs)
    {fields : Fields} {ts : String}
    (h : db'.runs =
      db.updatedRuns r.tenantId r.id r.version fields ts) :
    db'.shelf =
      Function.update db.shelf r.id (some (r.set fields ts).run) := by
  have hkeyed' : Keyed db' := updatedRuns_keyed h hkeyed
  funext id
  by_cases hid : id = r.id
  · subst hid
    have hset : r.set fields ts ∈ db'.runs := by
      rw [h]
      exact set_mem_updatedRuns hr fields ts
    rw [Function.update_self]
    exact shelf_of_mem hkeyed' hset
  · rw [Function.update_of_ne hid]
    cases hold : db.shelf id with
    | none =>
      apply shelf_of_free
      intro r' hr'
      rw [h] at hr'
      obtain ⟨r₀, hr₀, rfl⟩ := List.mem_map.1 hr'
      have hne := shelf_eq_none hold r₀ hr₀
      split
      · exact hne
      · exact hne
    | some row =>
      unfold Db.shelf at hold
      obtain ⟨r₀, hfind, rfl⟩ := Option.map_eq_some_iff.1 hold
      have hid₀ : r₀.id = id := by simpa using List.find?_some hfind
      have hr₀ := List.mem_of_find?_eq_some hfind
      have hmem : r₀ ∈ db'.runs := by
        rw [h]
        have hmap : (if r₀.hit r.tenantId r.id r.version then
            r₀.set fields ts else r₀) ∈
              db.updatedRuns r.tenantId r.id r.version fields ts :=
          mem_updatedRuns hr₀
        have hmiss : ¬ r₀.hit r.tenantId r.id r.version = true := by
          intro hhit
          apply hid
          rw [← hid₀]
          exact (hit_iff.1 hhit).1
        rwa [if_neg hmiss] at hmap
      rw [← hid₀]
      exact shelf_of_mem hkeyed' hmem

theorem shelf_of_getRun (hkeyed : Keyed db) {t id : String}
    (h : db.getRun (.text t) id = some r) :
    db.shelf id = some r.run ∧ r.run.Visible t id := by
  obtain ⟨hr, hid, htenant⟩ := getRun_inv h
  subst hid
  refine ⟨shelf_of_mem hkeyed hr, ?_⟩
  unfold Db.getRun at h
  split at h
  · cases h
  · next hvalid =>
    rw [not_or] at hvalid
    refine ⟨?_, hvalid.2, rfl, TenantArg.text.inj htenant⟩
    simpa [TenantArg.isValid] using hvalid.1

theorem unseen_of_getRun {t id : String}
    (h : db.getRun (.text t) id = none) {row : Run String}
    (hrow : db.shelf id = some row) : ¬ row.Visible t id := by
  rintro ⟨ht, hid, hrid, hrt⟩
  unfold Db.shelf at hrow
  obtain ⟨r₀, hfind, rfl⟩ := Option.map_eq_some_iff.1 hrow
  unfold Db.getRun at h
  rw [if_neg (by simp [TenantArg.isValid, ht, hid])] at h
  have hno := List.find?_eq_none.1 h r₀ (List.mem_of_find?_eq_some hfind)
  apply hno
  have hrid' : r₀.id = id := hrid
  have hrt' : r₀.tenantId = t := hrt
  simp [hrid', hrt']

theorem nobody_unseen (t id : String) : ¬ Run.nobody.Visible t id := by
  rintro ⟨_, hid, hrid, _⟩
  exact hid hrid.symm

end Shelves

-- ==== versions

/-- Versions start at one. -/
def Positive (db : Db) : Prop := ∀ r ∈ db.runs, 1 ≤ r.version

theorem Positive.updated {db : Db} {t id ts : String} {v : Int}
    {fields : Fields} (h : Positive db) :
    ∀ r ∈ db.updatedRuns t id v fields ts, 1 ≤ r.version := by
  intro r hr
  obtain ⟨r₀, hr₀, rfl⟩ := List.mem_map.1 hr
  have hpos := h r₀ hr₀
  split
  · show 1 ≤ r₀.version + 1
    omega
  · exact hpos

theorem Positive.committed {bad : Db → Txn → Prop} {w w' : World}
    {txn : Txn} (h : Positive w.db) (hcom : Committed bad w txn w') :
    Positive w'.db := by
  obtain ⟨hcommits, hfits, -, -⟩ := hcom
  generalize w'.db = db' at hcommits
  cases hcommits with
  | create hrun hattempt =>
    intro r hr
    rcases List.mem_append.1 hr with hr | hr
    · exact h r hr
    · rw [List.mem_singleton.1 hr]
      show 1 ≤ _
      rw [hfits.2.1]
  | append hhit hattempt => exact h.updated
  | transition hhit => exact h.updated
  | write hhit => exact h.updated

theorem reach_positive {Pid : Type} [DecidableEq Pid] {s : State Pid}
    {cond : State Pid → Act Pid → Prop}
    (hs : machine.Reach Initial cond s) : Positive s.world.db :=
  (store_orderly (J := fun w => Positive w.db) (fun _ h => by cases h)
    (fun _ h hcom => h.committed hcom)
    (hs.mono fun _ a _ => without_none a)).inv.2

theorem run_set {r : RunRow} (hpos : 1 ≤ r.version) (fields : Fields)
    (ts : String) :
    (r.set fields ts).run =
      { r.run with
        stage := fields.stage.getD r.stage
        checkpointPointer := fields.checkpointPointer <|> r.checkpointPointer
        traceId := fields.traceId.getD r.traceId
        currentAttemptId :=
          (fields.currentAttemptId <|> r.currentAttemptId).getD ""
        version := r.run.version + 1 } := by
  have hversion : (r.version + 1).toNat = r.version.toNat + 1 := by omega
  simp [RunRow.run, RunRow.set, hversion]

-- ==== effects

section Effects

variable {m : Shelf} {row : Run String} {t id : String} {v : Nat}

theorem on_of_some {α : Type} (hrow : m id = some row)
    (f : Run String → Run String × Result α) :
    m.on id f = (Function.update m id (some (f row).1), (f row).2) := by
  simp [Shelf.on, hrow]

theorem transitionStage_ok {next : Stage} (hseen : row.Visible t id)
    (hv : row.version = v) (hlegal : row.stage.isLegalTransition next = true) :
    row.transitionStage t id v next =
      ({ row with stage := next, version := row.version + 1 },
        .ok { row with stage := next, version := row.version + 1 }) := by
  simp [Run.transitionStage, hseen, hv, hlegal]

theorem reason_ok {reason : String} (h : reason ∈ validReasons) :
    ¬ reason ∉
      ["initial", "re-plan", "retry", "resumed-after-interruption"] :=
  not_not.2 h

theorem appendAttempt_ok {reason trace attemptId : String} {start : Stage}
    (hreason : reason ∈ validReasons) (htrace : trace ≠ "")
    (hseen : row.Visible t id) (hv : row.version = v)
    (hstart : start = row.stage ∨
      row.stage.isLegalTransition start = true) :
    row.appendAttempt t id v reason start trace attemptId =
      ({ row with stage := start, currentAttemptId := attemptId
                  traceId := trace, version := row.version + 1 },
        .ok attemptId) := by
  have hstart' : ¬ (start ≠ row.stage ∧
      row.stage.isLegalTransition start = false) := by
    rintro ⟨hne, hillegal⟩
    rcases hstart with heq | hlegal
    · exact hne heq
    · rw [hlegal] at hillegal
      cases hillegal
  unfold Run.appendAttempt
  rw [if_neg (reason_ok hreason), if_neg htrace, if_neg (not_not.2 hseen),
    if_neg (not_not.2 hv), if_neg hstart']

theorem writeCheckpoint_ok {pointer : String} (hseen : row.Visible t id)
    (hv : row.version = v) :
    row.writeCheckpoint t id v pointer =
      ({ row with checkpointPointer := some pointer
                  version := row.version + 1 },
        .ok { row with checkpointPointer := some pointer
                       version := row.version + 1 }) := by
  simp [Run.writeCheckpoint, hseen, hv]

theorem createRun_ok {key repo branch cls trace runId attemptId : String}
    (h : Run.createRun t key repo branch cls trace runId attemptId =
      .ok row) :
    row =
      { id := runId, tenantId := t, jiraKey := key, repo := repo
        branch := branch, stage := .intake, checkpointPointer := none
        traceId := trace, currentAttemptId := attemptId, version := 1 } := by
  unfold Run.createRun at h
  split at h
  · cases h
  · split at h
    · cases h
    · split at h
      · cases h
      · injection h with h
        exact h.symm

end Effects

/-- The transaction an operation makes: with the ids and the time drawn
for it. -/
inductive Op.Makes : Op → Txn → Prop
  | create {t key repo branch cls trace ts : String}
      {worktree : Option String} {runId attemptId entryId : String}
      (hvalid : ∃ row, @Run.createRun String t key repo branch cls trace
        runId attemptId = .ok row) :
      Makes (.create t key repo branch cls trace worktree)
        (.create
          { id := runId, tenantId := t, jiraKey := key
            repo := repo, branch := branch, worktree := worktree
            stage := .intake, execCloudProvider := none
            execRegionAz := none, execNodeId := none
            capacityClass := cls, checkpointPointer := none
            traceId := trace, currentAttemptId := none, version := 1
            createdAt := ts, updatedAt := ts } attemptId entryId)
  | transition {t id : String} {v : Nat} {next : Stage}
      {current ts entryId : String} :
      Makes (.transition t id v next)
        (.transition t id v current next ts entryId)
  | append {t id : String} {v : Nat} {reason trace : String}
      {start : Stage} {current : Option String}
      {ts attemptId entryId : String} (hreason : reason ∈ validReasons)
      (htrace : trace ≠ "") :
      Makes (.append t id v reason start trace)
        (.append t id v current reason start trace ts attemptId entryId)
  | checkpoint {t id : String} {v : Nat}
      {pointer : { text : String // text ≠ "" }} {ts : String} :
      Makes (.checkpoint t id v pointer)
        (.write t id v
          { checkpointPointer := some pointer.val, capacityClass := none }
          ts)

/-- The id drawn for a new run. -/
def Txn.newRun : Txn → String
  | .create row .. => row.id
  | _ => ""

/-- The id drawn for a new attempt. -/
def Txn.newAttempt : Txn → String
  | .create _ attemptId _ => attemptId
  | .append _ _ _ _ _ _ _ _ attemptId _ => attemptId
  | _ => ""

/-- What a committed transaction of an operation has done. -/
structure Op.Done (op : Op) (txn : Txn) (db db' : Db) : Prop where
  shelf : db'.shelf =
    (op.apply db.shelf (Txn.newRun txn) (Txn.newAttempt txn)).1
  fresh : op.Fresh db.shelf (Txn.newRun txn)
  reply : (∃ r ∈ db'.runs, r.id = Txn.runId txn ∧
      (op.apply db.shelf (Txn.newRun txn) (Txn.newAttempt txn)).2 =
        .row (.ok r.run)) ∨
    (op.apply db.shelf (Txn.newRun txn) (Txn.newAttempt txn)).2 =
      .attempt (.ok (Txn.newAttempt txn))

section Done

variable {db db' : Db} {op : Op} {txn : Txn}

theorem stored_run (hkeyed : Keyed db) (hnamed : NamedRuns db)
    {t id : String} {v : Nat} {r : RunRow} (hr : Stored db t id r)
    (hv : r.version = (v : Int)) :
    db.shelf id = some r.run ∧ r.run.Visible t id ∧ r.run.version = v := by
  obtain ⟨hmem, rfl, rfl⟩ := hr
  obtain ⟨hid, ht⟩ := hnamed r hmem
  refine ⟨shelf_of_mem hkeyed hmem, ⟨ht, hid, rfl, rfl⟩, ?_⟩
  show r.version.toNat = v
  omega

theorem shelf_inserted {r : RunRow} (hkeyed' : Keyed db')
    (hruns : db'.runs = db.runs ++ [r]) :
    db'.shelf = Function.update db.shelf r.id (some r.run) := by
  funext id
  by_cases hid : id = r.id
  · subst hid
    rw [Function.update_self]
    apply shelf_of_mem hkeyed'
    simp [hruns]
  · rw [Function.update_of_ne hid]
    have hmiss : ¬ r.id = id := fun h => hid h.symm
    simp [Db.shelf, hruns, List.find?_append, hmiss]

/-- An operation that leaves a row of its own in place of the one that was
there, and is answered with it. -/
theorem done_of_row {r : RunRow}
    (hshelf : db'.shelf = Function.update db.shelf r.id (some r.run))
    (hr : r ∈ db'.runs) (hid : r.id = Txn.runId txn)
    (hfresh : op.Fresh db.shelf (Txn.newRun txn))
    (hop : op.apply db.shelf (Txn.newRun txn) (Txn.newAttempt txn) =
      (Function.update db.shelf r.id (some r.run), .row (.ok r.run))) :
    op.Done txn db db' where
  shelf := by rw [hop, hshelf]
  fresh := hfresh
  reply := Or.inl ⟨r, hr, hid, by rw [hop]⟩

theorem done_create
    {t key repo branch cls trace attemptId entryId : String}
    {worktree : Option String} {row : RunRow} {run : Run String}
    (hrow : Run.createRun t key repo branch cls trace row.id attemptId =
      .ok run)
    (hrun : { row with currentAttemptId := some attemptId : RunRow }.run = run)
    (hfree : ∀ r ∈ db.runs, r.id ≠ row.id) (hkeyed' : Keyed db')
    (hruns : db'.runs =
      db.runs ++ [{ row with currentAttemptId := some attemptId }]) :
    (Op.create t key repo branch cls trace worktree).Done
      (.create row attemptId entryId) db db' := by
  apply done_of_row (shelf_inserted hkeyed' hruns)
  · simp [hruns]
  · rfl
  · exact shelf_of_free hfree
  · simp [Op.apply, Txn.newRun, Txn.newAttempt, hrow, hrun]

theorem set_mem {r : RunRow} {fields : Fields} {ts : String}
    (hr : r ∈ db.runs)
    (hruns : db'.runs =
      db.updatedRuns r.tenantId r.id r.version fields ts) :
    r.set fields ts ∈ db'.runs := by
  rw [hruns]
  exact set_mem_updatedRuns hr fields ts

/-- The rows of `runs` that a committed transaction leaves. -/
def Txn.rows (db : Db) : Txn → List RunRow
  | .create row attemptId _ =>
    db.runs ++ [{ row with currentAttemptId := some attemptId }]
  | .append t id v _ _ start trace ts attemptId _ =>
    db.updatedRuns t id v
      { stage := some start, currentAttemptId := some attemptId
        traceId := some trace } ts
  | .transition t id v _ next ts _ =>
    db.updatedRuns t id v { stage := some next } ts
  | .write t id v fields ts => db.updatedRuns t id v fields ts

theorem commits_rows (h : db.Commits txn db') :
    db'.runs = Txn.rows db txn := by
  cases h <;> rfl

/-- What a committed transaction does to the shelf is what the operation
does. -/
theorem Op.Makes.done (h : op.Makes txn) (hkeyed : Keyed db)
    (hnamed : NamedRuns db) (hpos : Positive db)
    (hfits : Fits (Stored db) txn) (hcommits : db.Commits txn db') :
    op.Done txn db db' := by
  have hkeyed' : Keyed db' := commits_keyed hcommits hkeyed
  have hruns := commits_rows hcommits
  cases h with
  | create hvalid =>
    obtain ⟨row, hrow⟩ := hvalid
    cases hcommits with
    | create hrun hattempt =>
      exact done_create hrow (createRun_ok hrow).symm hrun hkeyed' rfl
  | @transition t id v next current ts entryId =>
    obtain ⟨r, hr, hv, hcur, hlegal⟩ := hfits
    obtain ⟨hrow, hseen, hversion⟩ := stored_run hkeyed hnamed hr hv
    obtain ⟨hmem, rfl, rfl⟩ := hr
    rw [Txn.rows, ← hv] at hruns
    apply done_of_row (shelf_updated hkeyed hmem hruns)
      (set_mem hmem hruns) rfl (by trivial)
    have hop := transitionStage_ok hseen hversion hlegal
    have hset := run_set (hpos r hmem) { stage := some next } ts
    rw [Op.apply, on_of_some hrow, hop, hset]
    simp [RunRow.run, RunRow.set]
  | @append t id v reason trace start current ts attemptId entryId hreason
      htrace =>
      obtain ⟨-, r, hr, hv, hcur, hstart⟩ := hfits
      obtain ⟨hrow, hseen, hversion⟩ := stored_run hkeyed hnamed hr hv
      obtain ⟨hmem, rfl, rfl⟩ := hr
      rw [Txn.rows, ← hv] at hruns
      have hset := run_set (hpos r hmem)
        { stage := some start, currentAttemptId := some attemptId
          traceId := some trace } ts
      have hop : r.run.appendAttempt r.tenantId r.id v reason start trace
          attemptId = _ :=
        appendAttempt_ok hreason htrace hseen hversion hstart
      refine ⟨?_, by trivial, Or.inr ?_⟩
      · rw [shelf_updated hkeyed hmem hruns, hset]
        simp only [Op.apply, on_of_some hrow, Txn.newAttempt, hop]
        simp [RunRow.run]
      · simp [Op.apply, on_of_some hrow, Txn.newAttempt, hop]
  | @checkpoint t id v pointer ts =>
    obtain ⟨-, -, -, r, hr, hv⟩ := hfits
    obtain ⟨hrow, hseen, hversion⟩ := stored_run hkeyed hnamed hr hv
    obtain ⟨hmem, rfl, rfl⟩ := hr
    rw [Txn.rows, ← hv] at hruns
    apply done_of_row (shelf_updated hkeyed hmem hruns)
      (set_mem hmem hruns) rfl (by trivial)
    have hop : r.run.writeCheckpoint r.tenantId r.id v pointer.val = _ :=
      writeCheckpoint_ok hseen hversion
    have hset := run_set (hpos r hmem)
      { checkpointPointer := some pointer.val, capacityClass := none } ts
    rw [Op.apply, on_of_some hrow, hop, hset]
    simp [RunRow.run, RunRow.set]

end Done

-- ==== refusals

section Refusals

variable {db db' : Db} {op : Op} {txn : Txn} {lg : Heard}
variable {m : Shelf} {row : Run String} {t id : String} {v : Nat}

/-- The run and the version a transaction is guarded by are not those of a
row. -/
def Missed (db : Db) (txn : Txn) : Prop :=
  ∀ id v, Txn.guard txn = some (id, v) →
    ∀ r ∈ db.runs, ¬ r.hit (Txn.tenant txn) id v = true

theorem settle_stale {r : Except SqlError (Db × Nat)}
    (h : (db.settle r).2 = .stale) : ∃ db', r = .ok (db', 0) := by
  unfold Db.settle at h
  split at h
  · cases h
  · next db' n =>
    by_cases hn : n = 0
    · exact ⟨db', by rw [hn]⟩
    · rw [if_neg hn] at h
      cases h

theorem missed_of_count {t id : String} {v : Int}
    (h : db.runs.countP (RunRow.hit t id v) = 0) :
    ∀ r ∈ db.runs, ¬ r.hit t id v = true :=
  List.countP_eq_zero.1 h

theorem transact_stale (h : (db.transact txn).2 = .stale) :
    Missed db txn := by
  intro id' v' hguard
  unfold Db.transact at h
  cases txn with
  | create row attemptId entryId => cases hguard
  | append t id v current reason start trace ts attemptId entryId =>
    obtain ⟨rfl, rfl⟩ := Prod.mk.inj (Option.some.inj hguard)
    obtain ⟨d, hd⟩ := settle_stale h
    unfold Db.append at hd
    rw [Db.seal_eq] at hd
    obtain ⟨d₁, h₁, hd⟩ := Db.bind_ok_inv hd
    obtain ⟨d₂, h₂, hd⟩ := Db.bind_ok_inv hd
    obtain ⟨-, rfl⟩ := Db.insertAttempt_inv h₁
    obtain rfl := Db.insertStageHistory_inv h₂
    injection hd with hd
    exact missed_of_count (Prod.mk.inj hd).2
  | transition t id v current next ts entryId =>
    obtain ⟨rfl, rfl⟩ := Prod.mk.inj (Option.some.inj hguard)
    obtain ⟨d, hd⟩ := settle_stale h
    unfold Db.transition at hd
    obtain ⟨d₁, h₁, hd⟩ := Db.bind_ok_inv hd
    obtain rfl := Db.insertStageHistory_inv h₁
    injection hd with hd
    by_cases hterm : next ∈ Stage.terminalStages
    · rw [if_pos hterm] at hd
      exact missed_of_count (Prod.mk.inj hd).2
    · rw [if_neg hterm] at hd
      exact missed_of_count (Prod.mk.inj hd).2
  | write t id v fields ts =>
    obtain ⟨rfl, rfl⟩ := Prod.mk.inj (Option.some.inj hguard)
    obtain ⟨d, hd⟩ := settle_stale h
    injection hd with hd
    exact missed_of_count (Prod.mk.inj hd).2

theorem moved_on (hkeyed : Keyed db) (hnamed : NamedRuns db)
    (hpos : Positive db) (hknows : Knows lg db) {r : RunRow}
    (hr : Read lg t id r)
    (hmiss : ∀ r ∈ db.runs, ¬ r.hit t id v = true) :
    ∃ row, db.shelf id = some row ∧ row.Visible t id ∧ row.version ≠ v := by
  obtain ⟨rfl, rfl, r', hr', hlater⟩ := hknows t id r hr
  obtain ⟨hid, ht⟩ := hnamed r' hr'
  have hversion : r'.version ≠ (v : Int) := by
    intro hv'
    apply hmiss r' hr'
    exact hit_iff.2 ⟨hlater.id, hlater.tenant, hv'⟩
  refine ⟨r'.run, ?_, ?_, ?_⟩
  · rw [← hlater.id]
    exact shelf_of_mem hkeyed hr'
  · rw [← hlater.id, ← hlater.tenant]
    exact ⟨ht, hid, rfl, rfl⟩
  · have hp := hpos r' hr'
    show r'.version.toNat ≠ v
    omega

theorem on_refused {α : Type} {f : Run String → Run String × Result α}
    {a : Result α} (hrow : m id = some row) (hf : f row = (row, a)) :
    m.on id f = (m, a) := by
  rw [on_of_some hrow, hf]
  show (Function.update m id (some row), a) = (m, a)
  rw [← hrow, Function.update_eq_self]

theorem on_unseen {α : Type} {f : Run String → Run String × Result α}
    {a : Result α}
    (hf : ∀ row : Run String, ¬ row.Visible t id → f row = (row, a))
    (hunseen : ∀ row, m id = some row → ¬ row.Visible t id) :
    m.on id f = (m, a) := by
  cases hrow : m id with
  | none => simp [Shelf.on, hrow, hf _ (nobody_unseen t id)]
  | some row => exact on_refused hrow (hf row (hunseen row hrow))

theorem staleVersion_run {r : RunRow} (hpos : 1 ≤ r.version) (v : Nat) :
    staleVersion v r.version = Run.staleVersion v r.run.version := by
  have hversion : r.version = ((r.version.toNat : Nat) : Int) := by omega
  unfold staleVersion Run.staleVersion
  rw [hversion]
  rfl

theorem transitionStage_unseen {next : Stage} (h : ¬ row.Visible t id) :
    row.transitionStage t id v next = (row, .empty) := by
  simp [Run.transitionStage, h]

theorem transitionStage_stale {next : Stage} (h : row.Visible t id)
    (hv : row.version ≠ v) :
    row.transitionStage t id v next =
      (row, .fail (Run.staleVersion v row.version)) := by
  simp [Run.transitionStage, h, hv]

theorem transitionStage_illegal {next : Stage} (h : row.Visible t id)
    (hv : row.version = v) (hillegal : row.stage.isLegalTransition next = false) :
    row.transitionStage t id v next =
      (row, .fail ⟨.illegalTransition, "'" ++ next.token ++
        "' is not a legal next stage from '" ++ row.stage.token ++ "'"⟩) := by
  simp [Run.transitionStage, h, hv, hillegal]

theorem run_version {r : RunRow} (hv : r.version = (v : Int)) :
    r.run.version = v := by
  show r.version.toNat = v
  omega

theorem run_version_ne {r : RunRow} (hpos : 1 ≤ r.version)
    (hv : r.version ≠ (v : Int)) : r.run.version ≠ v := by
  show r.version.toNat ≠ v
  omega

theorem appendAttempt_unseen {reason trace attemptId : String}
    {start : Stage} (hreason : reason ∈ validReasons) (htrace : trace ≠ "")
    (h : ¬ row.Visible t id) :
    row.appendAttempt t id v reason start trace attemptId =
      (row, .empty) := by
  unfold Run.appendAttempt
  rw [if_neg (reason_ok hreason), if_neg htrace, if_pos h]

theorem appendAttempt_illegal {reason trace attemptId : String}
    {start : Stage} (hreason : reason ∈ validReasons) (htrace : trace ≠ "")
    (h : row.Visible t id) (hv : row.version = v)
    (hillegal : start ≠ row.stage ∧
      row.stage.isLegalTransition start = false) :
    row.appendAttempt t id v reason start trace attemptId =
      (row, .fail ⟨.illegalTransition, "cannot start a new attempt at '" ++
        start.token ++ "' from current stage '" ++ row.stage.token ++
        "'"⟩) := by
  unfold Run.appendAttempt
  rw [if_neg (reason_ok hreason), if_neg htrace, if_neg (not_not.2 h),
    if_neg (not_not.2 hv), if_pos hillegal]

theorem appendAttempt_invalid {reason trace attemptId : String}
    {start : Stage} {e : ErrorInfo}
    (h : ∀ row : Run String,
      row.appendAttempt t id v reason start trace attemptId =
        (row, .fail e)) :
    m.on id (fun row =>
      row.appendAttempt t id v reason start trace attemptId) =
        (m, .fail e) := by
  cases hrow : m id with
  | none => simp [Shelf.on, hrow, h]
  | some row => exact on_refused hrow (h row)

theorem appendAttempt_stale {reason trace attemptId : String}
    {start : Stage} (hreason : reason ∈ validReasons) (htrace : trace ≠ "")
    (h : row.Visible t id) (hv : row.version ≠ v) :
    row.appendAttempt t id v reason start trace attemptId =
      (row, .fail (Run.staleVersion v row.version)) := by
  unfold Run.appendAttempt
  rw [if_neg (reason_ok hreason), if_neg htrace, if_neg (not_not.2 h), if_pos hv]

theorem writeCheckpoint_unseen {pointer : String} (h : ¬ row.Visible t id) :
    row.writeCheckpoint t id v pointer = (row, .empty) := by
  simp [Run.writeCheckpoint, h]

theorem writeCheckpoint_stale {pointer : String} (h : row.Visible t id)
    (hv : row.version ≠ v) :
    row.writeCheckpoint t id v pointer =
      (row, .fail (Run.staleVersion v row.version)) := by
  simp [Run.writeCheckpoint, h, hv]

/-- On this shelf the operation does nothing and is answered like the
call. -/
def Refuses (op : Op) (db : Db) (o : Outcome) : Prop :=
  ∃ reply, op.apply db.shelf "" "" = (db.shelf, reply) ∧
    Agrees db reply o ∧ (reply.isOk = true → op.Fresh db.shelf "")

theorem refuses_row {e : ErrorInfo}
    (h : op.apply db.shelf "" "" = (db.shelf, .row (.fail e))) :
    Refuses op db (.run (.fail e)) :=
  ⟨_, h, Or.inl rfl, nofun⟩

theorem refuses_attempt {e : ErrorInfo}
    (h : op.apply db.shelf "" "" = (db.shelf, .attempt (.fail e))) :
    Refuses op db (.attempt (.fail e)) :=
  ⟨_, h, Or.inl rfl, nofun⟩

theorem refuses_row_empty
    (h : op.apply db.shelf "" "" = (db.shelf, .row .empty)) :
    Refuses op db (.run .empty) :=
  ⟨_, h, trivial, nofun⟩

theorem refuses_attempt_empty
    (h : op.apply db.shelf "" "" = (db.shelf, .attempt .empty)) :
    Refuses op db (.attempt .empty) :=
  ⟨_, h, trivial, nofun⟩

theorem refuses_create {key repo branch cls trace : String}
    {worktree : Option String} {e : ErrorInfo}
    (h : @Run.createRun String t key repo branch cls trace "" "" =
      .fail e) :
    Refuses (.create t key repo branch cls trace worktree) db
      (.run (.fail e)) := by
  apply refuses_row
  simp only [Op.apply, h]

/-- The outcome of a write that was overtaken. -/
def Op.overtaken : Op → Outcome
  | .append .. => .attempt (.fail staleWrite)
  | _ => .run (.fail staleWrite)

/-- Where a transaction hits nothing, the operation is refused too. -/
theorem Op.Makes.refuses (h : op.Makes txn) (hkeyed : Keyed db)
    (hnamed : NamedRuns db) (hpos : Positive db) (hknows : Knows lg db)
    (hfits : Fits (Read lg) txn) (hguard : (Txn.guard txn).isSome)
    (hstale : (db.transact txn).2 = .stale) :
    Refuses op db op.overtaken := by
  have hmissed := transact_stale hstale
  cases h with
  | create hvalid => cases hguard
  | @transition t id v next current ts entryId =>
    obtain ⟨r, hr, -, -, -⟩ := hfits
    obtain ⟨row, hrow, hseen, hne⟩ := moved_on hkeyed hnamed hpos hknows hr
      (hmissed id v rfl)
    refine ⟨.row (.fail (Run.staleVersion v row.version)), ?_,
      Or.inr ⟨rfl, rfl⟩, nofun⟩
    have hop := on_refused
      (f := fun row => row.transitionStage t id v next) hrow
      (transitionStage_stale hseen hne)
    simp only [Op.apply, hop]
  | @append t id v reason trace start current ts attemptId entryId hreason
      htrace =>
      obtain ⟨-, r, hr, -, -, -⟩ := hfits
      obtain ⟨row, hrow, hseen, hne⟩ := moved_on hkeyed hnamed hpos hknows hr
        (hmissed id v rfl)
      refine ⟨.attempt (.fail (Run.staleVersion v row.version)), ?_,
        Or.inr ⟨rfl, rfl⟩, nofun⟩
      have hop := on_refused
        (f := fun row => row.appendAttempt t id v reason start trace "")
        hrow (appendAttempt_stale hreason htrace hseen hne)
      simp only [Op.apply, hop]
  | @checkpoint t id v pointer ts =>
    obtain ⟨-, -, -, r, hr, -⟩ := hfits
    obtain ⟨row, hrow, hseen, hne⟩ := moved_on hkeyed hnamed hpos hknows hr
      (hmissed id v rfl)
    refine ⟨.row (.fail (Run.staleVersion v row.version)), ?_,
      Or.inr ⟨rfl, rfl⟩, nofun⟩
    have hop := on_refused
      (f := fun row => row.writeCheckpoint t id v pointer.val) hrow
      (writeCheckpoint_stale hseen hne)
    simp only [Op.apply, hop]

end Refusals

end Service

end SdlcOs.Registry
