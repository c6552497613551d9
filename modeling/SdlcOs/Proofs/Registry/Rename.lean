/-
Generated ids and timestamps are names.

The service compares ids for equality and timestamps for order, and looks
into neither. So a `Renaming` of the ids and the timestamps of a database
commutes with every statement and every transaction on it
(`Renaming.transact`), and the program of a call with renamed arguments
mirrors the program of the call (`entry_mirrors`).
-/
import SdlcOs.Effects.Complete
import SdlcOs.Registry.Service

namespace SdlcOs.Registry

open Effects

/-- Another choice of generated ids and timestamps: ids stay different,
the empty text stays the only empty one, timestamps keep their order. -/
structure Renaming where
  id : String → String
  ts : String → String
  id_inj : Function.Injective id
  id_empty : id "" = ""
  ts_le : ∀ a b, ts a ≤ ts b ↔ a ≤ b

namespace Renaming

variable (ρ : Renaming)

/-- The renaming that changes nothing. -/
def same : Renaming where
  id := fun s => s
  ts := fun s => s
  id_inj := fun _ _ h => h
  id_empty := rfl
  ts_le := fun _ _ => Iff.rfl

@[simp] theorem id_eq (a b : String) : ρ.id a = ρ.id b ↔ a = b :=
  ρ.id_inj.eq_iff

@[simp] theorem id_eq_empty (a : String) : ρ.id a = "" ↔ a = "" := by
  conv_lhs => rw [← ρ.id_empty]
  exact ρ.id_eq a ""

-- ==== rows

def run (r : RunRow) : RunRow :=
  { r with
    id := ρ.id r.id
    currentAttemptId := r.currentAttemptId.map ρ.id
    createdAt := ρ.ts r.createdAt
    updatedAt := ρ.ts r.updatedAt }

def attempt (a : AttemptRow) : AttemptRow :=
  { a with
    id := ρ.id a.id
    runId := ρ.id a.runId
    startTs := ρ.ts a.startTs
    endTs := a.endTs.map ρ.ts
    createdAt := ρ.ts a.createdAt }

def entry (h : HistoryRow) : HistoryRow :=
  { h with
    id := ρ.id h.id
    runId := ρ.id h.runId
    attemptId := ρ.id h.attemptId
    enteredAt := ρ.ts h.enteredAt
    exitedAt := h.exitedAt.map ρ.ts }

def db (d : Db) : Db where
  runs := d.runs.map ρ.run
  attempts := d.attempts.map ρ.attempt
  stageHistory := d.stageHistory.map ρ.entry

/-- The current attempt is the only generated id an update sets. -/
def fields (f : Fields) : Fields :=
  { f with currentAttemptId := f.currentAttemptId.map ρ.id }

def txn : Txn → Txn
  | .create row attemptId entryId =>
    .create (ρ.run row) (ρ.id attemptId) (ρ.id entryId)
  | .append t id v current reason start trace ts attemptId entryId =>
    .append t (ρ.id id) v (current.map ρ.id) reason start trace (ρ.ts ts)
      (ρ.id attemptId) (ρ.id entryId)
  | .transition t id v current next ts entryId =>
    .transition t (ρ.id id) v (ρ.id current) next (ρ.ts ts) (ρ.id entryId)
  | .write t id v f ts => .write t (ρ.id id) v (ρ.fields f) (ρ.ts ts)

-- ==== statements

theorem run_hit (t id : String) (v : Int) (r : RunRow) :
    (ρ.run r).hit t (ρ.id id) v = r.hit t id v := by
  simp [RunRow.hit, run]

theorem run_set (f : Fields) (ts : String) (r : RunRow) :
    ρ.run (r.set f ts) = (ρ.run r).set (ρ.fields f) (ρ.ts ts) := by
  cases hf : f.currentAttemptId <;> simp [RunRow.set, run, fields, hf]

theorem attempt_close (id t ts : String) (a : AttemptRow) :
    ρ.attempt (a.close id t ts) =
      (ρ.attempt a).close (ρ.id id) t (ρ.ts ts) := by
  by_cases hopen : a.id = id ∧ a.tenantId = t ∧ a.endTs = none
  · simp [AttemptRow.close, attempt, hopen]
  · simp only [AttemptRow.close, attempt, id_eq, Option.map_eq_none_iff]
    rw [if_neg hopen, if_neg hopen]

theorem entry_close (id t ts : String) (h : HistoryRow) :
    ρ.entry (h.close id t ts) =
      (ρ.entry h).close (ρ.id id) t (ρ.ts ts) := by
  by_cases hopen : h.runId = id ∧ h.tenantId = t ∧ h.exitedAt = none
  · simp [HistoryRow.close, entry, hopen]
  · simp only [HistoryRow.close, entry, id_eq, Option.map_eq_none_iff]
    rw [if_neg hopen, if_neg hopen]

theorem getRun (d : Db) (t : TenantArg) (id : String) :
    (ρ.db d).getRun t (ρ.id id) = (d.getRun t id).map ρ.run := by
  have hkey : (fun r : RunRow =>
      decide (r.id = ρ.id id ∧ .text r.tenantId = t)) ∘ ρ.run =
      fun r => decide (r.id = id ∧ .text r.tenantId = t) := by
    funext r
    refine decide_eq_decide.2 ?_
    simp [run]
  unfold Db.getRun
  simp only [id_eq_empty]
  split
  · rfl
  · unfold db
    rw [List.find?_map, hkey]

theorem page {α β : Type} (f : α → β) (limit offset : Int) (l : List α) :
    Db.page limit offset (l.map f) = (Db.page limit offset l).map f := by
  unfold Db.page
  dsimp only
  split
  · exact (List.map_drop ..).symm
  · rw [← List.map_drop, ← List.map_take]

theorem listRuns (d : Db) (t : TenantArg) (stage : Option String)
    (limit offset : Int) :
    (ρ.db d).listRuns t stage limit offset =
      (d.listRuns t stage limit offset).map ρ.run := by
  have hkey : (fun r : RunRow => decide (.text r.tenantId = t ∧
      (stage = none ∨ stage = some r.stage.token))) ∘ ρ.run =
      fun r => decide (.text r.tenantId = t ∧
        (stage = none ∨ stage = some r.stage.token)) := rfl
  unfold Db.listRuns
  split
  · rfl
  · rw [← page, List.map_insertionSort (fun a b => b.createdAt ≤ a.createdAt)
      (fun a b : RunRow => b.createdAt ≤ a.createdAt) ρ.run]
    · unfold db
      rw [List.filter_map, hkey]
    · intro a _ b _
      exact (ρ.ts_le _ _).symm

theorem listAttempts (d : Db) (id : String) (t : TenantArg) :
    (ρ.db d).listAttempts (ρ.id id) t =
      (d.listAttempts id t).map ρ.attempt := by
  have hkey : (fun a : AttemptRow =>
      decide (a.runId = ρ.id id ∧ .text a.tenantId = t)) ∘ ρ.attempt =
      fun a => decide (a.runId = id ∧ .text a.tenantId = t) := by
    funext a
    refine decide_eq_decide.2 ?_
    simp [attempt]
  unfold Db.listAttempts
  simp only [id_eq_empty]
  split
  · rfl
  · rw [List.map_insertionSort (fun a b => a.attemptNumber ≤ b.attemptNumber)
      (fun a b : AttemptRow => a.attemptNumber ≤ b.attemptNumber) ρ.attempt]
    · unfold db
      rw [List.filter_map, hkey]
    · intro a _ b _
      exact Iff.rfl

theorem countAttempts (d : Db) (id t : String) :
    (ρ.db d).countAttempts (ρ.id id) t = d.countAttempts id t := by
  unfold Db.countAttempts db
  rw [List.countP_map]
  refine List.countP_congr fun a _ => ?_
  rw [Function.comp_apply, decide_eq_true_iff, decide_eq_true_iff]
  simp [attempt]

theorem insertRun (d : Db) (row : RunRow) :
    (ρ.db d).insertRun (ρ.run row) = (d.insertRun row).map ρ.db := by
  have hany : (ρ.db d).runs.any (·.id = (ρ.run row).id) =
      d.runs.any (·.id = row.id) := by
    simp [db, List.any_map, Function.comp_def, run]
  unfold Db.insertRun
  rw [hany]
  split
  · rfl
  · simp [Except.map, db]

theorem insertAttempt (d : Db) {row row' : AttemptRow}
    (h : ρ.attempt row = row') :
    (ρ.db d).insertAttempt row' = (d.insertAttempt row).map ρ.db := by
  subst h
  have hany : (ρ.db d).attempts.any (·.id = (ρ.attempt row).id) =
      d.attempts.any (·.id = row.id) := by
    simp [db, List.any_map, Function.comp_def, attempt]
  have hrun : (ρ.db d).runs.any (·.id = (ρ.attempt row).runId) =
      d.runs.any (·.id = row.runId) := by
    simp [db, List.any_map, Function.comp_def, attempt, run]
  unfold Db.insertAttempt
  rw [hany, hrun]
  split
  · rfl
  · split
    · rfl
    · simp [Except.map, db]

theorem insertStageHistory (d : Db) {row row' : HistoryRow}
    (h : ρ.entry row = row') :
    (ρ.db d).insertStageHistory row' =
      (d.insertStageHistory row).map ρ.db := by
  subst h
  have hany : (ρ.db d).stageHistory.any (·.id = (ρ.entry row).id) =
      d.stageHistory.any (·.id = row.id) := by
    simp [db, List.any_map, Function.comp_def, entry]
  have hrun : (ρ.db d).runs.any (·.id = (ρ.entry row).runId) =
      d.runs.any (·.id = row.runId) := by
    simp [db, List.any_map, Function.comp_def, entry, run]
  have hattempt : (ρ.db d).attempts.any (·.id = (ρ.entry row).attemptId) =
      d.attempts.any (·.id = row.attemptId) := by
    simp [db, List.any_map, Function.comp_def, entry, attempt]
  unfold Db.insertStageHistory
  rw [hany, hrun, hattempt]
  split
  · rfl
  · split
    · rfl
    · simp [Except.map, db]

theorem closeAttempt (d : Db) (id t ts : String) :
    (ρ.db d).closeAttempt (ρ.id id) t (ρ.ts ts) =
      ρ.db (d.closeAttempt id t ts) := by
  simp [Db.closeAttempt, db, Function.comp_def, attempt_close]

theorem closeOpenStageHistory (d : Db) (id t ts : String) :
    (ρ.db d).closeOpenStageHistory (ρ.id id) t (ρ.ts ts) =
      ρ.db (d.closeOpenStageHistory id t ts) := by
  simp [Db.closeOpenStageHistory, db, Function.comp_def, entry_close]

/-- Rename what an update returned. -/
def updated (x : Db × Nat) : Db × Nat := (ρ.db x.1, x.2)

theorem updateRun (d : Db) (t id : String) (v : Int) {f f' : Fields}
    (h : ρ.fields f = f') (ts : String) :
    (ρ.db d).updateRun t (ρ.id id) v f' (ρ.ts ts) =
      ρ.updated (d.updateRun t id v f ts) := by
  subst h
  have hrow : ∀ r : RunRow,
      (if (ρ.run r).hit t (ρ.id id) v then
        (ρ.run r).set (ρ.fields f) (ρ.ts ts) else ρ.run r) =
      ρ.run (if r.hit t id v then r.set f ts else r) := by
    intro r
    rw [run_hit]
    split
    · exact (ρ.run_set f ts r).symm
    · rfl
  have hrows : (d.runs.map ρ.run).map (fun r =>
      if r.hit t (ρ.id id) v then r.set (ρ.fields f) (ρ.ts ts) else r) =
      (d.runs.map fun r => if r.hit t id v then r.set f ts else r).map
        ρ.run := by
    rw [List.map_map, List.map_map]
    exact List.map_congr_left fun r _ => hrow r
  have hcount : (d.runs.map ρ.run).countP (RunRow.hit t (ρ.id id) v) =
      d.runs.countP (RunRow.hit t id v) := by
    rw [List.countP_map]
    refine List.countP_congr fun r _ => ?_
    rw [Function.comp_apply, run_hit]
  unfold Db.updateRun db updated
  rw [hrows, hcount]
  rfl

theorem setCurrentAttempt (d : Db) (attemptId id t : String) :
    (ρ.db d).setCurrentAttempt (ρ.id attemptId) (ρ.id id) t =
      ρ.db (d.setCurrentAttempt attemptId id t) := by
  have hrow : ∀ r : RunRow,
      (if (ρ.run r).id = ρ.id id ∧ (ρ.run r).tenantId = t then
        { ρ.run r with currentAttemptId := some (ρ.id attemptId) }
        else ρ.run r) =
      ρ.run (if r.id = id ∧ r.tenantId = t then
        { r with currentAttemptId := some attemptId } else r) := by
    intro r
    by_cases hkey : r.id = id ∧ r.tenantId = t
    · simp [run, hkey]
    · have hkey' : ¬ ((ρ.run r).id = ρ.id id ∧ (ρ.run r).tenantId = t) := by
        simpa [run] using hkey
      rw [if_neg hkey, if_neg hkey']
  simp [Db.setCurrentAttempt, db, Function.comp_def, hrow]

-- ==== transactions

theorem map_bind {α β γ δ : Type} {m : Except SqlError α}
    {m' : Except SqlError γ} {f : α → γ} {g : β → δ}
    {k : α → Except SqlError β} {k' : γ → Except SqlError δ}
    (hm : m' = m.map f) (hk : ∀ a, k' (f a) = (k a).map g) :
    (m' >>= k') = (m >>= k).map g := by
  subst hm
  cases m with
  | error e => rfl
  | ok a => exact hk a

theorem create (d : Db) (row : RunRow) (attemptId entryId : String) :
    (ρ.db d).create (ρ.run row) (ρ.id attemptId) (ρ.id entryId) =
      (d.create row attemptId entryId).map ρ.db := by
  unfold Db.create
  refine map_bind (ρ.insertRun d row) fun d₁ => ?_
  refine map_bind (ρ.insertAttempt d₁ rfl) fun d₂ => ?_
  refine map_bind (ρ.insertStageHistory d₂ rfl) fun d₃ => ?_
  exact congrArg Except.ok (ρ.setCurrentAttempt d₃ _ _ _)

theorem append (d : Db) (t id : String) (v : Int) (current : Option String)
    (reason : String) (start : Stage) (trace ts attemptId entryId : String) :
    (ρ.db d).append t (ρ.id id) v (current.map ρ.id) reason start trace
        (ρ.ts ts) (ρ.id attemptId) (ρ.id entryId) =
      (d.append t id v current reason start trace ts attemptId
        entryId).map ρ.updated := by
  unfold Db.append
  dsimp only
  -- three cases of the sealed attempt, after which the texts agree
  rcases current with _ | c
  · dsimp only [Option.map_none]
    rw [closeOpenStageHistory, countAttempts]
    refine map_bind (ρ.insertAttempt _ rfl) fun d₁ => ?_
    refine map_bind (ρ.insertStageHistory d₁ rfl) fun d₂ => ?_
    refine congrArg Except.ok (ρ.updateRun _ t id v ?_ ts)
    rfl
  · by_cases hc : c = ""
    all_goals
      simp only [Option.map_some, id_eq_empty, hc, if_true, if_false,
        closeAttempt, closeOpenStageHistory, countAttempts]
      refine map_bind (ρ.insertAttempt _ rfl) fun d₁ => ?_
      refine map_bind (ρ.insertStageHistory d₁ rfl) fun d₂ => ?_
      refine congrArg Except.ok (ρ.updateRun _ t id v ?_ ts)
      rfl

theorem transition (d : Db) (t id : String) (v : Int) (current : String)
    (next : Stage) (ts entryId : String) :
    (ρ.db d).transition t (ρ.id id) v (ρ.id current) next (ρ.ts ts)
        (ρ.id entryId) =
      (d.transition t id v current next ts entryId).map ρ.updated := by
  unfold Db.transition
  dsimp only
  rw [closeOpenStageHistory]
  refine map_bind (ρ.insertStageHistory _ rfl) fun d₁ => ?_
  by_cases hterm : next ∈ Stage.terminalStages
  · simp only [hterm, if_true, closeAttempt]
    refine congrArg Except.ok (ρ.updateRun _ t id v ?_ ts)
    rfl
  · simp only [hterm, if_false]
    refine congrArg Except.ok (ρ.updateRun _ t id v ?_ ts)
    rfl

theorem settle (d : Db) (r : Except SqlError (Db × Nat)) :
    (ρ.db d).settle (r.map ρ.updated) =
      (ρ.db (d.settle r).1, (d.settle r).2) := by
  cases r with
  | error e => rfl
  | ok x =>
    obtain ⟨d', n⟩ := x
    by_cases hn : n = 0
    · simp [Db.settle, Except.map, updated, hn]
    · simp [Db.settle, Except.map, updated, hn]

/-- A renamed transaction does the renamed thing. -/
theorem transact (d : Db) (t : Txn) :
    (ρ.db d).transact (ρ.txn t) =
      (ρ.db (d.transact t).1, (d.transact t).2) := by
  unfold Db.transact
  cases t with
  | create row attemptId entryId =>
    rw [← settle]
    unfold txn
    dsimp only
    rw [create]
    cases d.create row attemptId entryId <;> rfl
  | append t id v current reason start trace ts attemptId entryId =>
    rw [← settle]
    unfold txn
    dsimp only
    rw [append]
  | transition t id v current next ts entryId =>
    rw [← settle]
    unfold txn
    dsimp only
    rw [transition]
  | write t id v f ts =>
    rw [← settle]
    unfold txn
    dsimp only
    rw [ρ.updateRun d t id v rfl ts]
    rfl

end Renaming

-- ==== programs

namespace Service

/-- Rename what a call is asked with. -/
def Call.rename (ρ : Renaming) : Call → Call
  | .getRun t id => .getRun t (ρ.id id)
  | .listAttempts t id => .listAttempts t (ρ.id id)
  | .appendAttempt t id v reason start trace =>
    .appendAttempt t (ρ.id id) v reason start trace
  | .transitionStage t id v next => .transitionStage t (ρ.id id) v next
  | .writeCheckpoint t id v pointer cls =>
    .writeCheckpoint t (ρ.id id) v pointer cls
  | .writeExecutionLocation t id v cloud region node =>
    .writeExecutionLocation t (ρ.id id) v cloud region node
  | c => c

/-- Rename a result. -/
def mapResult {α β : Type} (f : α → β) : Result α → Result β
  | .ok a => .ok (f a)
  | .empty => .empty
  | .fail e => .fail e

/-- Rename what a call returns. -/
def Outcome.rename (ρ : Renaming) : Outcome → Outcome
  | .run r => .run (mapResult ρ.run r)
  | .runs r => .runs (mapResult (·.map ρ.run) r)
  | .attempt r => .attempt (mapResult ρ.attempt r)
  | .attempts r => .attempts (mapResult (·.map ρ.attempt) r)

/-- Rename a request. -/
def renameReq (ρ : Renaming) : Req → Req
  | .getRun t id => .getRun t (ρ.id id)
  | .listRuns t stage limit offset => .listRuns t stage limit offset
  | .listAttempts id t => .listAttempts (ρ.id id) t
  | .transact txn => .transact (ρ.txn txn)
  | .nowIso => .nowIso
  | .newId => .newId

/-- Rename an answer. -/
def renameResp (ρ : Renaming) : (e : Req) → Resp e → Resp (renameReq ρ e)
  | .getRun .., r => r.map ρ.run
  | .listRuns .., l => l.map ρ.run
  | .listAttempts .., l => l.map ρ.attempt
  | .transact _, r => r
  | .nowIso, ts => ρ.ts ts
  | .newId, id => ⟨ρ.id id.val, fun h => id.2 ((ρ.id_eq_empty _).1 h)⟩

def translation (ρ : Renaming) : Translation Resp where
  req := renameReq ρ
  resp := renameResp ρ

/-- Rename what a program of the machine ends in. -/
def endWith (f : Outcome → Outcome) : Ctl Empty Outcome → Ctl Empty Outcome
  | .done o => .done (f o)
  | .again st => nomatch st

section Mirrors

variable {ρ : Renaming}

theorem mirrors_ask {α α' : Type} {f : α → α'} (e : Req)
    {k : Resp e → Code α} {k' : Resp (renameReq ρ e) → Code α'}
    (hk : ∀ r, Mirrors (translation ρ) f (k r) (k' (renameResp ρ e r))) :
    Mirrors (translation ρ) f (ask e >>= k) (ask (renameReq ρ e) >>= k') :=
  mirrors_bind (mirrors_perform (T := translation ρ) e) hk

theorem mirrors_ite {α α' : Type} {f : α → α'} {p : Prop} [Decidable p]
    {m₁ m₂ : Code α} {m₁' m₂' : Code α'}
    (h₁ : p → Mirrors (translation ρ) f m₁ m₁')
    (h₂ : ¬ p → Mirrors (translation ρ) f m₂ m₂') :
    Mirrors (translation ρ) f (if p then m₁ else m₂)
      (if p then m₁' else m₂') := by
  by_cases hp : p
  · rw [if_pos hp, if_pos hp]
    exact h₁ hp
  · rw [if_neg hp, if_neg hp]
    exact h₂ hp

theorem mirrors_reread (t : TenantArg) (id : String) :
    Mirrors (translation ρ) (mapResult ρ.run) (reread t id)
      (reread t (ρ.id id)) := by
  unfold reread
  refine mirrors_ask (.getRun t id) fun row => ?_
  cases row with
  | none => exact .raise _
  | some run => exact .ret _

theorem mirrors_getRun (t : TenantArg) (id : String) :
    Mirrors (translation ρ) (mapResult ρ.run) (getRun t id)
      (getRun t (ρ.id id)) := by
  unfold getRun
  refine mirrors_ask (.getRun t id) fun row => ?_
  cases row with
  | none => exact .ret _
  | some run => exact .ret _

theorem mirrors_listRuns (t : TenantArg) (stage : Option String)
    (limit offset : Int) :
    Mirrors (translation ρ) (mapResult (·.map ρ.run))
      (listRuns t stage limit offset) (listRuns t stage limit offset) := by
  unfold listRuns
  refine mirrors_ask (.listRuns t stage limit offset) fun rows => ?_
  cases rows with
  | nil => exact .ret _
  | cons row rows => exact .ret _

theorem mirrors_listAttempts (t : TenantArg) (id : String) :
    Mirrors (translation ρ) (mapResult (·.map ρ.attempt))
      (listAttempts t id) (listAttempts t (ρ.id id)) := by
  unfold listAttempts
  refine mirrors_ask (.getRun t id) fun row => ?_
  cases row with
  | none => exact .ret _
  | some run =>
    refine mirrors_ask (.listAttempts id t) fun rows => ?_
    cases rows with
    | nil => exact .ret _
    | cons row rows => exact .ret _

theorem mirrors_createRun (t : TenantArg)
    (key repo branch cls trace : String) (worktree : Option String) :
    Mirrors (translation ρ) (mapResult ρ.run)
      (createRun t key repo branch cls trace worktree)
      (createRun t key repo branch cls trace worktree) := by
  unfold createRun
  split
  · exact .ret _
  · split
    · exact .ret _
    · split
      · exact .ret _
      · split
        · exact .ret _
        · refine mirrors_ask .nowIso fun ts => ?_
          refine mirrors_ask .newId fun runId => ?_
          refine mirrors_ask .newId fun attemptId => ?_
          refine mirrors_ask .newId fun entryId => ?_
          refine mirrors_ask (.transact (.create _ _ _)) fun r => ?_
          cases r with
          | raised e => exact .raise _
          | stale => exact .raise _
          | committed =>
            refine mirrors_ask (.getRun _ runId.val) fun row => ?_
            cases row with
            | none => exact .raise _
            | some run => exact .ret _

theorem mirrors_transitionStage (t : TenantArg) (id : String) (v : Int)
    (next : String) :
    Mirrors (translation ρ) (mapResult ρ.run) (transitionStage t id v next)
      (transitionStage t (ρ.id id) v next) := by
  unfold transitionStage
  split
  · exact .ret _
  · next stage hstage =>
    refine mirrors_ask (.getRun t id) fun row => ?_
    cases t with
    | other => exact .ret _
    | text tenant =>
      cases row with
      | none => exact .ret _
      | some run =>
        refine mirrors_ite (fun _ => .ret _) fun _ => ?_
        refine mirrors_ite (fun _ => .ret _) fun _ => ?_
        refine mirrors_ask .nowIso fun ts => ?_
        refine mirrors_ask .newId fun entryId => ?_
        dsimp only [renameResp, Option.map_some, Renaming.run]
        cases run.currentAttemptId with
        | none => exact .raise _
        | some current =>
          refine mirrors_ask (.transact (.transition ..)) fun r => ?_
          cases r with
          | raised e => exact .raise _
          | stale => exact .ret _
          | committed => exact mirrors_reread _ _

theorem mirrors_writeFields (t : TenantArg) (id : String) (v : Int)
    (fields : Fields) :
    Mirrors (translation ρ) (mapResult ρ.run) (writeFields t id v fields)
      (writeFields t (ρ.id id) v (ρ.fields fields)) := by
  unfold writeFields
  refine mirrors_ask (.getRun t id) fun row => ?_
  cases t with
  | other => exact .ret _
  | text tenant =>
    cases row with
    | none => exact .ret _
    | some run =>
      refine mirrors_ite (fun _ => .ret _) fun _ => ?_
      refine mirrors_ask .nowIso fun ts => ?_
      refine mirrors_ask (.transact (.write ..)) fun r => ?_
      cases r with
      | raised e => exact .raise _
      | stale => exact .ret _
      | committed => exact mirrors_reread _ _

theorem mirrors_found (rows : List AttemptRow) (id : String) :
    Mirrors (translation ρ) (mapResult ρ.attempt)
      (match rows.find? (·.id = id) with
        | none => (.raise .stopIteration : Code (Result AttemptRow))
        | some attempt => pure (.ok attempt))
      (match (rows.map ρ.attempt).find? (·.id = ρ.id id) with
        | none => (.raise .stopIteration : Code (Result AttemptRow))
        | some attempt => pure (.ok attempt)) := by
  have hkey : (fun a : AttemptRow => decide (a.id = ρ.id id)) ∘ ρ.attempt =
      fun a => decide (a.id = id) := by
    funext a
    exact decide_eq_decide.2 (ρ.id_eq _ _)
  rw [List.find?_map, hkey]
  cases rows.find? (·.id = id) with
  | none => exact .raise _
  | some attempt => exact .ret _

theorem mirrors_appendAttempt (t : TenantArg) (id : String) (v : Int)
    (reason start trace : String) :
    Mirrors (translation ρ) (mapResult ρ.attempt)
      (appendAttempt t id v reason start trace)
      (appendAttempt t (ρ.id id) v reason start trace) := by
  unfold appendAttempt
  refine mirrors_ite (fun _ => .ret _) fun _ => ?_
  split
  · exact .ret _
  · next stage hstage =>
    refine mirrors_ite (fun _ => .ret _) fun _ => ?_
    refine mirrors_ask (.getRun t id) fun row => ?_
    cases t with
    | other => exact .ret _
    | text tenant =>
      cases row with
      | none => exact .ret _
      | some run =>
        refine mirrors_ite (fun _ => .ret _) fun _ => ?_
        refine mirrors_ite (fun _ => .ret _) fun _ => ?_
        refine mirrors_ask .nowIso fun ts => ?_
        refine mirrors_ask .newId fun attemptId => ?_
        refine mirrors_ask .newId fun entryId => ?_
        refine mirrors_ask (.transact (.append ..)) fun r => ?_
        cases r with
        | raised e => exact .raise _
        | stale => exact .ret _
        | committed =>
          refine mirrors_ask (.listAttempts id _) fun rows => ?_
          exact mirrors_found rows attemptId.val

theorem mirrors_returning {α : Type} {g : α → α} {f : α → Outcome}
    {m m' : Code α} (hm : Mirrors (translation ρ) g m m')
    (hf : ∀ a, (f a).rename ρ = f (g a)) :
    Mirrors (translation ρ) (endWith (Outcome.rename ρ)) (returning f m)
      (returning f m') := by
  refine mirrors_bind hm fun a => ?_
  rw [← hf]
  exact .ret _

/-- The program of a renamed call mirrors the program of the call. -/
theorem entry_mirrors (c : Call) :
    Mirrors (translation ρ) (endWith (Outcome.rename ρ)) (entry c)
      (entry (c.rename ρ)) := by
  cases c with
  | createRun t key repo branch cls trace worktree =>
    exact mirrors_returning (mirrors_createRun ..) fun _ => rfl
  | getRun t id => exact mirrors_returning (mirrors_getRun ..) fun _ => rfl
  | listRuns t stage limit offset =>
    exact mirrors_returning (mirrors_listRuns ..) fun _ => rfl
  | listAttempts t id =>
    exact mirrors_returning (mirrors_listAttempts ..) fun _ => rfl
  | appendAttempt t id v reason start trace =>
    exact mirrors_returning (mirrors_appendAttempt ..) fun _ => rfl
  | transitionStage t id v next =>
    exact mirrors_returning (mirrors_transitionStage ..) fun _ => rfl
  | writeCheckpoint t id v pointer cls =>
    refine mirrors_returning ?_ fun _ => rfl
    unfold writeCheckpoint
    refine mirrors_ite (fun _ => .ret _) fun _ => ?_
    refine mirrors_ite (fun _ => .ret _) fun _ => ?_
    exact mirrors_writeFields ..
  | writeExecutionLocation t id v cloud region node =>
    refine mirrors_returning ?_ fun _ => rfl
    unfold writeExecutionLocation
    refine mirrors_ite (fun _ => .ret _) fun _ => ?_
    exact mirrors_writeFields ..

end Mirrors

end Service

end SdlcOs.Registry
