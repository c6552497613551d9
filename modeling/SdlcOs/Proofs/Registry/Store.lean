/-
What the service's transactions do, whatever the interleaving.

# What a process knows

A method decides on a row it has read and writes later, in a transaction
of its own; other processes may write in between. Every committed write
on a run bumps its version, so a row that was read is either the stored
one or an old one, told apart by the version (`Later`), and a guarded
write that hits a row hits the row its method has read (`Rows.hit`).

# The rule

`Fits` says what a transaction is made from, over any notion of "the row
with this id". The text of the methods gives it over the rows a process
has read (`entry_paths`); a committed transaction fits the rows that are
stored (`Rows.fits`). `Reach.store` is the rule every store invariant is
an instance of: it is enough that committed transactions that fit keep
it.
-/
import SdlcOs.Effects.Rely
import SdlcOs.Registry.Service

namespace SdlcOs.Registry

open Effects
open Effects.Prog (Paths paths_bind)

namespace Service

/-- What a process has heard. -/
abbrev Heard : Type := Log Resp

-- ==== what is asked for

/-- What a transaction is made from, given what counts as the row of a
run. -/
def Fits (row : String → String → RunRow → Prop) : Txn → Prop
  | .create r attemptId _ =>
    r.stage = .intake ∧ r.version = 1 ∧ r.currentAttemptId = none ∧
      r.id ≠ "" ∧ r.tenantId ≠ "" ∧ attemptId ≠ ""
  | .append tenantId runId v current _ start _ _ attemptId _ =>
    attemptId ≠ "" ∧ ∃ r, row tenantId runId r ∧ r.version = v ∧
      r.currentAttemptId = current ∧
      (start = r.stage ∨ r.stage.isLegalTransition start = true)
  | .transition tenantId runId v current next _ _ =>
    ∃ r, row tenantId runId r ∧ r.version = v ∧
      r.currentAttemptId = some current ∧
      r.stage.isLegalTransition next = true
  | .write tenantId runId v fields _ =>
    fields.stage = none ∧ fields.currentAttemptId = none ∧
      fields.traceId = none ∧ ∃ r, row tenantId runId r ∧ r.version = v

/-- The tenant a transaction is for. -/
def Txn.tenant : Txn → String
  | .create row .. => row.tenantId
  | .append t .. => t
  | .transition t .. => t
  | .write t .. => t

theorem Fits.mono {row row' : String → String → RunRow → Prop} {txn : Txn}
    (h : Fits row txn)
    (himp : ∀ id r, row (Txn.tenant txn) id r →
      row' (Txn.tenant txn) id r) : Fits row' txn := by
  cases txn with
  | create r attemptId entryId => exact h
  | append t id v current reason start trace ts attemptId entryId =>
    obtain ⟨hid, r, hr, hrest⟩ := h
    exact ⟨hid, r, himp id r hr, hrest⟩
  | transition t id v current next ts entryId =>
    obtain ⟨r, hr, hrest⟩ := h
    exact ⟨r, himp id r hr, hrest⟩
  | write t id v fields ts =>
    obtain ⟨hs, hc, ht, r, hr, hv⟩ := h
    exact ⟨hs, hc, ht, r, himp id r hr, hv⟩

/-- The process has read the row of a run. -/
def Read (lg : Heard) (tenantId runId : String) (r : RunRow) : Prop :=
  (⟨.getRun (.text tenantId) runId, some r⟩ : (e : Req) × Resp e) ∈ lg

/-- The ids a transaction inserts. -/
def Txn.newIds : Txn → List String
  | .create row attemptId entryId => [row.id, attemptId, entryId]
  | .append _ _ _ _ _ _ _ _ attemptId entryId => [attemptId, entryId]
  | .transition _ _ _ _ _ _ entryId => [entryId]
  | .write .. => []

/-- The id an answer generated. -/
def drawnOf : ((e : Req) × Resp e) → Option String
  | ⟨.newId, id⟩ => some id.val
  | _ => none

/-- The ids a process has generated. -/
def drawn (lg : Heard) : List String := lg.filterMap drawnOf

/-- The process has not run its transaction yet. -/
def Quiet (lg : Heard) : Prop := ∀ x ∈ lg, ∀ txn, x.1 ≠ .transact txn

/-- What a process may ask for: reads of its tenant, and one transaction,
made from what it has read and generated. -/
def asks : Phase Call Empty → Heard → Req → Prop
  | .loop st, _, _ => nomatch st
  | .entry c, lg, .transact txn =>
    Fits (Read lg) txn ∧ .text (Txn.tenant txn) = c.tenantId ∧ Quiet lg ∧
      ∀ id ∈ Txn.newIds txn, id ∈ drawn lg
  | .entry c, _, .getRun t _ => t = c.tenantId
  | .entry c, _, .listRuns t _ _ _ => t = c.tenantId
  | .entry c, _, .listAttempts _ t => t = c.tenantId
  | .entry _, _, .nowIso => True
  | .entry _, _, .newId => True

theorem asks_fits {ph : Phase Call Empty} {lg : Heard} {txn : Txn}
    (h : asks ph lg (.transact txn)) : Fits (Read lg) txn := by
  cases ph with
  | entry c => exact h.1
  | loop st => cases st

-- ==== what is returned

/-- The transaction an answer committed. -/
def commitOf : ((e : Req) × Resp e) → Option Txn
  | ⟨.transact txn, .committed⟩ => some txn
  | _ => none

/-- The transactions a process has committed, latest first. -/
def commits (lg : Heard) : List Txn := lg.filterMap commitOf

/-- The run and the version a call's write is guarded by. -/
def Call.guard : Call → Option (String × Int)
  | .appendAttempt _ id v .. => some (id, v)
  | .transitionStage _ id v _ => some (id, v)
  | .writeCheckpoint _ id v .. => some (id, v)
  | .writeExecutionLocation _ id v .. => some (id, v)
  | _ => none

/-- The call succeeded. -/
def Outcome.isOk : Outcome → Bool
  | .run (.ok _) => true
  | .runs (.ok _) => true
  | .attempt (.ok _) => true
  | .attempts (.ok _) => true
  | _ => false

/-- The columns a field write sets. -/
def Call.fields : Call → Option Fields
  | .writeCheckpoint _ _ _ pointer cls =>
    some { checkpointPointer := some pointer, capacityClass := cls }
  | .writeExecutionLocation _ _ _ cloud region node =>
    some { execCloudProvider := cloud, execRegionAz := region
           execNodeId := node }
  | _ => none

/-- The transaction is the one a call makes. -/
def Makes : Call → Txn → Prop
  | .transitionStage t id v text, .transition tenant id' v' _ next _ _ =>
    t = .text tenant ∧ id' = id ∧ v' = v ∧ stageOf text = some next
  | .appendAttempt t id v _ text _, .append tenant id' v' _ _ start _ _ _ _ =>
    t = .text tenant ∧ id' = id ∧ v' = v ∧ stageOf text = some start
  | c, .write tenant id v fields _ =>
    c.tenantId = .text tenant ∧ c.guard = some (id, v) ∧
      c.fields = some fields
  | _, _ => False

/-- What the log of a call that returns looks like: a call that did not
succeed committed nothing, a guarded one that did committed its one
transaction, and a run it returns is what it read right after. -/
structure Returned (c : Call) (o : Outcome) (lg : Heard) : Prop where
  refused : o.isOk = false → commits lg = []
  wrote : o.isOk = true → c.guard.isSome = true →
    ∃ txn, commits lg = [txn] ∧ Makes c txn
  reread : ∀ r, o = .run (.ok r) → c.guard.isSome = true →
    ∃ txn id lg', Makes c txn ∧ lg = ⟨.getRun c.tenantId id, some r⟩ ::
      ⟨.transact txn, .committed⟩ :: lg' ∧ c.guard.map (·.1) = some id

/-- What a call ends in. -/
def Ends (c : Call) : Ctl Empty Outcome → Heard → Prop
  | .done o, lg => Returned c o lg
  | .again st, _ => nomatch st

theorem returned_refused {c : Call} {o : Outcome} {lg : Heard}
    (ho : o.isOk = false) (hlg : commits lg = []) : Returned c o lg where
  refused := fun _ => hlg
  wrote := fun h => by rw [ho] at h; cases h
  reread := by
    rintro r rfl _
    cases ho

theorem returned_read {c : Call} {o : Outcome} {lg : Heard}
    (hc : c.guard = none) (hlg : commits lg = []) : Returned c o lg where
  refused := fun _ => hlg
  wrote := fun _ h => by rw [hc] at h; cases h
  reread := fun _ _ h => by rw [hc] at h; cases h

theorem returned_appended {c : Call} {a : AttemptRow} {txn : Txn}
    {id : String} {t : TenantArg} {rows : List AttemptRow} {lg : Heard}
    (hmakes : Makes c txn) (hlg : commits lg = []) :
    Returned c (.attempt (.ok a))
      (⟨.listAttempts id t, rows⟩ :: ⟨.transact txn, .committed⟩ :: lg) := by
  refine ⟨nofun, fun _ _ => ⟨txn, ?_, hmakes⟩, fun _ h => ?_⟩
  · show txn :: commits lg = [txn]
    rw [hlg]
  · cases h

section Walks

variable {c : Call} {lg : Heard} {α : Type}

/-- Paths of service code. -/
abbrev Walks (c : Call) (Q : α → Heard → Prop) (m : Code α) (lg : Heard) :
    Prop :=
  m.Paths (asks (.entry c)) Q lg

theorem walks_ask {e : Req} {Q : Resp e → Heard → Prop}
    (hmay : asks (.entry c) lg e) (h : ∀ r, Q r (⟨e, r⟩ :: lg)) :
    Walks c Q (ask e) lg :=
  ⟨hmay, h⟩

theorem walks_returning {f : α → Outcome} {m : Code α}
    (h : Walks c (fun r lg => Returned c (f r) lg) m lg) :
    Walks c (Ends c) (returning f m) lg :=
  paths_bind h

theorem walks_createRun {t : TenantArg}
    {key repo branch cls trace : String} {worktree : Option String}
    (hc : c = .createRun t key repo branch cls trace worktree) :
    Walks c (fun r lg => Returned c (.run r) lg)
      (createRun t key repo branch cls trace worktree) [] := by
  have hguard : c.guard = none := by rw [hc]; rfl
  unfold createRun
  split
  · exact returned_refused rfl rfl
  · next tenant =>
    by_cases ht : tenant = ""
    · rw [if_pos ht]
      exact returned_refused rfl rfl
    · rw [if_neg ht]
      split
      · exact returned_refused rfl rfl
      · split
        · exact returned_refused rfl rfl
        · refine paths_bind (walks_ask trivial fun ts => ?_)
          refine paths_bind (walks_ask trivial fun runId => ?_)
          refine paths_bind (walks_ask trivial fun attemptId => ?_)
          refine paths_bind (walks_ask trivial fun entryId => ?_)
          refine paths_bind (walks_ask ?_ fun r => ?_)
          · refine ⟨⟨rfl, rfl, rfl, runId.2, ht, attemptId.2⟩, by rw [hc]; rfl,
              by simp [Quiet], ?_⟩
            simp [Txn.newIds, drawn, drawnOf]
          · cases r with
            | raised e => exact trivial
            | stale => exact trivial
            | committed =>
              refine paths_bind (walks_ask (by rw [hc]; rfl) fun row => ?_)
              cases row with
              | none => exact trivial
              | some run =>
                refine ⟨nofun, fun _ h => ?_, fun _ _ h => ?_⟩
                · rw [hguard] at h
                  cases h
                · rw [hguard] at h
                  cases h

theorem walks_appendAttempt {t : TenantArg} {id : String} {v : Int}
    {reason start trace : String}
    (hc : c = .appendAttempt t id v reason start trace) :
    Walks c (fun r lg => Returned c (.attempt r) lg)
      (appendAttempt t id v reason start trace) [] := by
  unfold appendAttempt
  split
  · exact returned_refused rfl rfl
  · split
    · exact returned_refused rfl rfl
    · next stage hstage =>
      split
      · exact returned_refused rfl rfl
      · refine paths_bind (walks_ask (by rw [hc]; rfl) fun row => ?_)
        split
        · next tenant run =>
          by_cases hv : run.version = v
          · rw [if_neg (not_not.2 hv)]
            split
            · exact returned_refused rfl rfl
            · next hlegal =>
              refine paths_bind (walks_ask trivial fun ts => ?_)
              refine paths_bind (walks_ask trivial fun attemptId => ?_)
              refine paths_bind (walks_ask trivial fun entryId => ?_)
              refine paths_bind (walks_ask ?_ fun r => ?_)
              · refine ⟨⟨attemptId.2, run, ?_, hv, rfl, ?_⟩, by rw [hc]; rfl,
                  by simp [Quiet], ?_⟩
                · simp [Read]
                · by_cases hs : stage = run.stage
                  · exact Or.inl hs
                  · exact Or.inr (by simpa [hs] using hlegal)
                · simp [Txn.newIds, drawn, drawnOf]
              · cases r with
                | raised e => exact trivial
                | stale => exact returned_refused rfl rfl
                | committed =>
                  refine paths_bind
                    (walks_ask (by rw [hc]; rfl) fun rows => ?_)
                  split
                  · exact trivial
                  · refine returned_appended ?_ rfl
                    rw [hc]
                    exact ⟨rfl, rfl, rfl, hstage⟩
          · rw [if_pos hv]
            exact returned_refused rfl rfl
        · exact returned_refused rfl rfl

theorem walks_reread {id : String} {v : Int} {txn : Txn}
    (hguard : c.guard = some (id, v)) (hmakes : Makes c txn)
    (hlg : commits lg = []) :
    Walks c (fun r lg => Returned c (.run r) lg) (reread c.tenantId id)
      (⟨.transact txn, .committed⟩ :: lg) := by
  unfold reread
  refine paths_bind (walks_ask rfl fun row => ?_)
  cases row with
  | none => exact trivial
  | some run =>
    refine ⟨nofun, fun _ _ => ⟨txn, ?_, hmakes⟩, ?_⟩
    · show txn :: commits lg = [txn]
      rw [hlg]
    · rintro r ⟨⟩ _
      exact ⟨txn, id, lg, hmakes, rfl, by rw [hguard]; rfl⟩

theorem walks_transitionStage {t : TenantArg} {id : String} {v : Int}
    {next : String} (hc : c = .transitionStage t id v next) :
    Walks c (fun r lg => Returned c (.run r) lg)
      (transitionStage t id v next) [] := by
  unfold transitionStage
  split
  · exact returned_refused rfl rfl
  · next stage hstage =>
    refine paths_bind (walks_ask (by rw [hc]; rfl) fun row => ?_)
    split
    · next tenant run =>
      by_cases hv : run.version = v
      · rw [if_neg (not_not.2 hv)]
        split
        · exact returned_refused rfl rfl
        · next hlegal =>
          refine paths_bind (walks_ask trivial fun ts => ?_)
          refine paths_bind (walks_ask trivial fun entryId => ?_)
          split
          · exact trivial
          · next current hcur =>
            refine paths_bind (walks_ask ?_ fun r => ?_)
            · refine ⟨⟨run, ?_, hv, hcur, by simpa using hlegal⟩,
                by rw [hc]; rfl, by simp [Quiet], ?_⟩
              · simp [Read]
              · simp [Txn.newIds, drawn, drawnOf]
            · cases r with
              | raised e => exact trivial
              | stale => exact returned_refused rfl rfl
              | committed =>
                subst hc
                exact walks_reread rfl ⟨rfl, rfl, rfl, hstage⟩ rfl
      · rw [if_pos hv]
        exact returned_refused rfl rfl
    · exact returned_refused rfl rfl

theorem fields_kept {fields : Fields} (h : c.fields = some fields) :
    fields.stage = none ∧ fields.currentAttemptId = none ∧
      fields.traceId = none := by
  cases c with
  | writeCheckpoint t id v pointer cls =>
    obtain rfl := Option.some.inj h
    exact ⟨rfl, rfl, rfl⟩
  | writeExecutionLocation t id v cloud region node =>
    obtain rfl := Option.some.inj h
    exact ⟨rfl, rfl, rfl⟩
  | _ => cases h

theorem makes_write {tenant id ts : String} {v : Int} {fields : Fields}
    (ht : c.tenantId = .text tenant) (hguard : c.guard = some (id, v))
    (hfields : c.fields = some fields) :
    Makes c (.write tenant id v fields ts) := by
  cases c with
  | writeCheckpoint t id v pointer cls => exact ⟨ht, hguard, hfields⟩
  | writeExecutionLocation t id v cloud region node =>
    exact ⟨ht, hguard, hfields⟩
  | _ => cases hfields

theorem walks_writeFields {id : String} {v : Int} {fields : Fields}
    (hguard : c.guard = some (id, v)) (hfields : c.fields = some fields) :
    Walks c (fun r lg => Returned c (.run r) lg)
      (writeFields c.tenantId id v fields) [] := by
  have hkept := fields_kept hfields
  unfold writeFields
  refine paths_bind (walks_ask rfl fun row => ?_)
  split
  · next tenant run htenant =>
    by_cases hv : run.version = v
    · rw [if_neg (not_not.2 hv)]
      refine paths_bind (walks_ask trivial fun ts => ?_)
      refine paths_bind (walks_ask ?_ fun r => ?_)
      · refine ⟨⟨hkept.1, hkept.2.1, hkept.2.2, run, ?_, hv⟩, htenant.symm,
          by simp [Quiet], by simp [Txn.newIds]⟩
        simp [Read, htenant]
      · cases r with
        | raised e => exact trivial
        | stale => exact returned_refused rfl rfl
        | committed =>
          exact walks_reread hguard (makes_write htenant hguard hfields) rfl
    · rw [if_pos hv]
      exact returned_refused rfl rfl
  · exact returned_refused rfl rfl

/-- What the calls ask for and return. -/
theorem entry_paths (c : Call) : Walks c (Ends c) (entry c) [] := by
  cases hc : c with
  | createRun t key repo branch cls trace worktree =>
    exact walks_returning (walks_createRun rfl)
  | getRun t id =>
    refine walks_returning (paths_bind (walks_ask rfl fun row => ?_))
    cases row <;> exact returned_read rfl rfl
  | listRuns t stage limit offset =>
    refine walks_returning (paths_bind (walks_ask rfl fun rows => ?_))
    cases rows <;> exact returned_read rfl rfl
  | listAttempts t id =>
    refine walks_returning (paths_bind (walks_ask rfl fun row => ?_))
    cases row with
    | none => exact returned_read rfl rfl
    | some run =>
      refine paths_bind (walks_ask rfl fun rows => ?_)
      cases rows <;> exact returned_read rfl rfl
  | appendAttempt t id v reason start trace =>
    exact walks_returning (walks_appendAttempt rfl)
  | transitionStage t id v next =>
    exact walks_returning (walks_transitionStage rfl)
  | writeCheckpoint t id v pointer cls =>
    refine walks_returning ?_
    unfold writeCheckpoint
    split
    · exact returned_refused rfl rfl
    · split
      · exact returned_refused rfl rfl
      · exact walks_writeFields (c := .writeCheckpoint t id v pointer cls)
          rfl rfl
  | writeExecutionLocation t id v cloud region node =>
    refine walks_returning ?_
    unfold writeExecutionLocation
    split
    · exact returned_refused rfl rfl
    · exact walks_writeFields
        (c := .writeExecutionLocation t id v cloud region node) rfl rfl

end Walks

-- ==== stored rows

/-- The row is stored. -/
def Stored (db : Db) (tenantId runId : String) (r : RunRow) : Prop :=
  r ∈ db.runs ∧ r.id = runId ∧ r.tenantId = tenantId

/-- What a row may have become: it keeps its id and tenant, and any
change shows in the version. -/
structure Later (r r' : RunRow) : Prop where
  id : r'.id = r.id
  tenant : r'.tenantId = r.tenantId
  version : r.version ≤ r'.version
  same : r'.version = r.version → r' = r

theorem Later.refl (r : RunRow) : Later r r :=
  ⟨rfl, rfl, le_refl _, fun _ => rfl⟩

theorem Later.trans {r r' r'' : RunRow} (h : Later r r')
    (h' : Later r' r'') : Later r r'' := by
  refine ⟨h'.id.trans h.id, h'.tenant.trans h.tenant,
    h.version.trans h'.version, ?_⟩
  intro hv
  have hle := h.version
  have hle' := h'.version
  have hmid : r'.version = r.version := by omega
  have htop : r''.version = r'.version := by omega
  rw [h'.same htop, h.same hmid]

theorem later_set (r : RunRow) (fields : Fields) (ts : String) :
    Later r (r.set fields ts) := by
  refine ⟨rfl, rfl, ?_, ?_⟩
  · show r.version ≤ r.version + 1
    omega
  · intro hv
    have hbump : (r.set fields ts).version = r.version + 1 := rfl
    omega

/-- Every row is still there, or a later one in its place. -/
def Onward (db db' : Db) : Prop := ∀ r ∈ db.runs, ∃ r' ∈ db'.runs, Later r r'

theorem Onward.refl (db : Db) : Onward db db :=
  fun r hr => ⟨r, hr, .refl r⟩

theorem Onward.trans {db db' db'' : Db} (h : Onward db db')
    (h' : Onward db' db'') : Onward db db'' := by
  intro r hr
  obtain ⟨r', hr', hlater⟩ := h r hr
  obtain ⟨r'', hr'', hlater'⟩ := h' r' hr'
  exact ⟨r'', hr'', hlater.trans hlater'⟩

/-- The primary key of `runs`. -/
def Keyed (db : Db) : Prop := (db.runs.map (·.id)).Nodup

theorem Keyed.eq {db : Db} (h : Keyed db) {r r' : RunRow}
    (hr : r ∈ db.runs) (hr' : r' ∈ db.runs) (hid : r.id = r'.id) :
    r = r' :=
  List.inj_on_of_nodup_map h hr hr' hid

section Updates

variable {db db' : Db} {tenantId runId : String} {v : Int} {fields : Fields}
variable {ts : String}

theorem mem_updatedRuns {r : RunRow} (hr : r ∈ db.runs) :
    (if r.hit tenantId runId v then r.set fields ts else r) ∈
      db.updatedRuns tenantId runId v fields ts :=
  List.mem_map_of_mem hr

theorem set_mem_updatedRuns {r : RunRow} (hr : r ∈ db.runs)
    (fields : Fields) (ts : String) :
    r.set fields ts ∈
      db.updatedRuns r.tenantId r.id r.version fields ts := by
  refine List.mem_map.2 ⟨r, hr, if_pos ?_⟩
  simp [RunRow.hit]

theorem updatedRuns_onward
    (h : db'.runs = db.updatedRuns tenantId runId v fields ts) :
    Onward db db' := by
  intro r hr
  refine ⟨if r.hit tenantId runId v then r.set fields ts else r, ?_, ?_⟩
  · rw [h]
    exact mem_updatedRuns hr
  · split
    · exact later_set r fields ts
    · exact .refl r

theorem updatedRuns_keyed
    (h : db'.runs = db.updatedRuns tenantId runId v fields ts)
    (hkeyed : Keyed db) : Keyed db' := by
  unfold Keyed
  rw [h, Db.updatedRuns, List.map_map]
  have hids : ∀ r ∈ db.runs, ((fun r : RunRow => r.id) ∘ fun r =>
      if r.hit tenantId runId v then r.set fields ts else r) r = r.id := by
    intro r _
    show (if r.hit tenantId runId v then r.set fields ts else r).id = r.id
    split <;> rfl
  rw [List.map_congr_left hids]
  exact hkeyed

end Updates

theorem commits_onward {db db' : Db} {txn : Txn} (h : db.Commits txn db') :
    Onward db db' := by
  cases h with
  | create hrun hattempt =>
    exact fun r hr => ⟨r, List.mem_append_left _ hr, .refl r⟩
  | append hhit hattempt => exact updatedRuns_onward rfl
  | transition hhit => exact updatedRuns_onward rfl
  | write hhit => exact updatedRuns_onward rfl

theorem commits_keyed {db db' : Db} {txn : Txn} (h : db.Commits txn db')
    (hkeyed : Keyed db) : Keyed db' := by
  cases h with
  | @create row _ _ hrun hattempt =>
    unfold Keyed
    rw [List.map_append]
    refine List.Nodup.append hkeyed (List.nodup_singleton _) ?_
    intro id hid hnew
    obtain ⟨r, hr, rfl⟩ := List.mem_map.1 hid
    exact hrun r hr (List.mem_singleton.1 hnew)
  | append hhit hattempt => exact updatedRuns_keyed rfl hkeyed
  | transition hhit => exact updatedRuns_keyed rfl hkeyed
  | write hhit => exact updatedRuns_keyed rfl hkeyed

-- ==== what is known

/-- What a process has read is stored, or was. -/
def Knows (lg : Heard) (db : Db) : Prop :=
  ∀ tenantId runId r, Read lg tenantId runId r →
    r.id = runId ∧ r.tenantId = tenantId ∧ ∃ r' ∈ db.runs, Later r r'

theorem Knows.onward {lg : Heard} {db db' : Db} (h : Knows lg db)
    (hon : Onward db db') : Knows lg db' := by
  intro tenantId runId r hr
  obtain ⟨hid, htenant, r', hr', hlater⟩ := h tenantId runId r hr
  obtain ⟨r'', hr'', hlater'⟩ := hon r' hr'
  exact ⟨hid, htenant, r'', hr'', hlater.trans hlater'⟩

theorem getRun_inv {db : Db} {t : TenantArg} {runId : String} {r : RunRow}
    (h : db.getRun t runId = some r) :
    r ∈ db.runs ∧ r.id = runId ∧ .text r.tenantId = t := by
  unfold Db.getRun at h
  split at h
  · cases h
  · have hkey := List.find?_some h
    exact ⟨List.mem_of_find?_eq_some h, by simpa using hkey⟩

theorem Knows.asked {lg : Heard} {w : World} (h : Knows lg w.db) (e : Req)
    (x : Env e) :
    Knows (⟨e, (exec w e x).2⟩ :: lg) w.db := by
  intro tenantId runId r hr
  rcases List.mem_cons.1 hr with heq | hold
  · have he : e = .getRun (.text tenantId) runId := (Sigma.mk.inj heq).1.symm
    subst he
    have hrow := eq_of_heq (Sigma.mk.inj heq).2
    obtain ⟨hmem, hid, htenant⟩ := getRun_inv hrow.symm
    exact ⟨hid, TenantArg.text.inj htenant, r, hmem, .refl r⟩
  · exact h tenantId runId r hold

theorem hit_iff {tenantId runId : String} {v : Int} {r : RunRow} :
    r.hit tenantId runId v = true ↔
      r.id = runId ∧ r.tenantId = tenantId ∧ r.version = v := by
  simp [RunRow.hit]

/-- A guarded write that hits a row hits the row that was read. -/
theorem Knows.hit {lg : Heard} {db : Db} (h : Knows lg db)
    (hkeyed : Keyed db) {tenantId runId : String} {v : Int}
    (hhit : ∃ r ∈ db.runs, r.hit tenantId runId v = true) {r : RunRow}
    (hr : Read lg tenantId runId r) (hv : r.version = v) :
    Stored db tenantId runId r := by
  obtain ⟨r₀, hr₀, hhit⟩ := hhit
  obtain ⟨hid₀, htenant₀, hv₀⟩ := hit_iff.1 hhit
  obtain ⟨hid, htenant, r', hr', hlater⟩ := h tenantId runId r hr
  have hsame : r' = r₀ := hkeyed.eq hr' hr₀ (by rw [hlater.id, hid, hid₀])
  have heq : r' = r := hlater.same (by rw [hsame, hv₀, hv])
  exact ⟨heq ▸ hr', hid, htenant⟩

/-- A committed transaction was made from the rows it hit. -/
theorem Knows.fits {lg : Heard} {db db' : Db} {txn : Txn}
    (h : Knows lg db) (hkeyed : Keyed db) (hfits : Fits (Read lg) txn)
    (hcommits : db.Commits txn db') : Fits (Stored db) txn := by
  cases hcommits with
  | create hrun hattempt => exact hfits
  | append hhit hattempt =>
    obtain ⟨hid, r, hr, hv, hrest⟩ := hfits
    exact ⟨hid, r, h.hit hkeyed hhit hr hv, hv, hrest⟩
  | transition hhit =>
    obtain ⟨r, hr, hv, hrest⟩ := hfits
    exact ⟨r, h.hit hkeyed hhit hr hv, hv, hrest⟩
  | write hhit =>
    obtain ⟨hs, hc, ht, r, hr, hv⟩ := hfits
    exact ⟨hs, hc, ht, r, h.hit hkeyed hhit hr hv, hv⟩

-- ==== the rule

/-- No transaction of some kind is committed. -/
def Without {Pid : Type} (bad : Db → Txn → Prop) (s : State Pid) :
    Act Pid → Prop
  | .step p _ => ∀ txn, s.Asks p (.transact txn) →
      (s.world.db.transact txn).2 = .committed → ¬ bad s.world.db txn
  | _ => True

/-- What a committed transaction may start from and lead to. -/
structure Committed (bad : Db → Txn → Prop) (w : World) (txn : Txn)
    (w' : World) : Prop where
  commits : w.db.Commits txn w'.db
  fits : Fits (Stored w.db) txn
  good : ¬ bad w.db txn
  consumed : w'.consumed = (Txn.guard txn).toList ++ w.consumed

/-- The discipline of service processes that keep `J`. -/
def discipline (bad : Db → Txn → Prop) (J : World → Prop) :
    Discipline Resp Env World Call Empty where
  may := asks
  handsOn := fun _ _ st => nomatch st
  assume := fun _ _ w e _ => ∀ txn, e = .transact txn →
    (w.db.transact txn).2 = .committed → ¬ bad w.db txn
  inv := fun w => Keyed w.db ∧ J w
  rel := fun w w' => Onward w.db w'.db
  knows := fun _ lg w => Knows lg w.db

theorem exec_inv (w : World) (e : Req) (x : Env e) :
    (exec w e x).1 = w ∨ ∃ txn, e = .transact txn ∧
      (w.db.transact txn).2 = .committed ∧
      (exec w e x).1 =
        ⟨(w.db.transact txn).1, (Txn.guard txn).toList ++ w.consumed⟩ := by
  cases e with
  | transact txn =>
    simp only [exec]
    split
    · next hc => exact Or.inr ⟨txn, rfl, hc, rfl⟩
    · exact Or.inl rfl
  | _ => exact Or.inl rfl

theorem exec_answer (w : World) (txn : Txn) (x : Env (.transact txn)) :
    (exec w (.transact txn) x).2 = (w.db.transact txn).2 := by
  simp only [exec]
  split
  · rfl
  · rfl

theorem exec_committed {w : World} {txn : Txn} {bad : Db → Txn → Prop}
    {lg : Heard} (hkeyed : Keyed w.db) (hk : Knows lg w.db)
    (hfits : Fits (Read lg) txn)
    (hgood : ¬ bad w.db txn)
    (hc : (w.db.transact txn).2 = .committed) :
    Committed bad w txn
      ⟨(w.db.transact txn).1, (Txn.guard txn).toList ++ w.consumed⟩ := by
  have hcommits := Db.transact_committed hc
  exact ⟨hcommits, hk.fits hkeyed hfits hcommits, hgood, rfl⟩

theorem knows_nil (db : Db) : Knows [] db := by
  intro tenantId runId r hr
  cases hr

theorem exec_kept {bad : Db → Txn → Prop} {J : World → Prop}
    (hstep : ∀ {w txn w'}, Keyed w.db → J w → Committed bad w txn w' →
      J w')
    {w : World} {lg : Heard} {e : Req} {x : Env e} (ph : Phase Call Empty) (hkeyed : Keyed w.db)
    (hJ : J w) (hk : Knows lg w.db)
    (hmay : asks ph lg e)
    (hgood : ∀ txn, e = .transact txn →
      (w.db.transact txn).2 = .committed → ¬ bad w.db txn) :
    (Keyed (exec w e x).1.db ∧ J (exec w e x).1) ∧
      Onward w.db (exec w e x).1.db ∧
      Knows (⟨e, (exec w e x).2⟩ :: lg) (exec w e x).1.db := by
  have hasked := Knows.asked hk e x
  generalize (exec w e x).2 = r at hasked ⊢
  rcases exec_inv w e x with hsame | ⟨txn, rfl, hc, hworld⟩
  · rw [hsame]
    exact ⟨⟨hkeyed, hJ⟩, .refl _, hasked⟩
  · have hcom := exec_committed hkeyed hk (asks_fits hmay) (hgood txn rfl hc) hc
    have hon := commits_onward hcom.commits
    rw [hworld]
    exact ⟨⟨commits_keyed hcom.commits hkeyed, hstep hkeyed hJ hcom⟩, hon,
      hasked.onward hon⟩

theorem sound {bad : Db → Txn → Prop} {J : World → Prop}
    (hstep : ∀ {w txn w'}, Keyed w.db → J w → Committed bad w txn w' →
      J w') :
    (discipline bad J).Sound machine where
  stable := fun hrel hk => Knows.onward hk hrel
  called := fun _ h => ⟨h, Onward.refl _⟩
  stopped := fun h => ⟨h, Onward.refl _⟩
  entered := fun _ _ => knows_nil _
  again := by
    intro w ph lg st
    cases st
  asked := by
    intro w ph lg e x hinv hk hmay hassume
    exact exec_kept hstep ph hinv.1 hinv.2 hk hmay hassume

theorem follows (bad : Db → Txn → Prop) (J : World → Prop) :
    (discipline bad J).Follows machine where
  entry := fun c => (entry_paths c).mono fun ctl lg h => by
    cases ctl with
    | again st => cases st
    | done o => exact trivial
  body := fun st => nomatch st

theorem without_none {Pid : Type} {s : State Pid} (a : Act Pid) :
    Without (fun _ _ => False) s a := by
  cases a with
  | step p ans => exact fun _ _ _ h => h
  | call p c => trivial
  | crash p => trivial

section Runs

variable {Pid : Type} [DecidableEq Pid] {bad : Db → Txn → Prop}
variable {s s' : State Pid}

omit [DecidableEq Pid] in
theorem allows (bad : Db → Txn → Prop) (J : World → Prop) :
    machine.Allows (discipline bad J)
      (Without bad : State Pid → Act Pid → Prop) := by
  intro s p ans pr e k x hcond hp hprog _ txn he hc
  subst he
  exact hcond txn ⟨pr, k, hp, hprog⟩ hc

/-- The rule: what committed transactions keep holds whatever the
interleaving. -/
theorem store_orderly {J : World → Prop} (hinit : J ⟨.empty, []⟩)
    (hstep : ∀ {w txn w'}, Keyed w.db → J w → Committed bad w txn w' → J w')
    (hs : machine.Reach Initial (Without bad) s) :
    Machine.Orderly (discipline bad J) s := by
  refine hs.interleaved (follows bad J) (sound hstep) (fun w => .refl _) ?_
    (allows bad J)
  rintro w rfl
  exact ⟨List.nodup_nil, hinit⟩

/-- Everything an action can do to the database: nothing, or commit a
transaction that fits. -/
theorem orderly_committed {J : World → Prop}
    (hs : Machine.Orderly (discipline bad J) s) {a : Act Pid}
    (hc : Without bad s a) (h : machine.apply a s = some s') :
    s'.world = s.world ∨ ∃ txn, Committed bad s.world txn s'.world := by
  cases Machine.apply_inv h with
  | @op p ans pr e k x hp hprog hx =>
    rcases exec_inv s.world e x with hsame | ⟨txn, rfl, hcom, hworld⟩
    · exact Or.inl hsame
    · refine Or.inr ⟨txn, ?_⟩
      have hpr := hs.procs p pr hp
      have hcommitted := exec_committed hs.inv.1 hpr.knows
        (asks_fits (hpr.may hprog)) (hc txn ⟨pr, k, hp, hprog⟩ hcom) hcom
      rw [← hworld] at hcommitted
      exact hcommitted
  | _ => exact Or.inl rfl

theorem leads_onward {cond cond' : State Pid → Act Pid → Prop}
    (hs : machine.Reach Initial cond s) (h : machine.Leads cond' s s') :
    Onward s.world.db s'.world.db := by
  have hord := store_orderly (J := fun _ => True) trivial
    (fun _ _ _ => trivial) (hs.mono fun _ a _ => without_none a)
  exact (hord.leads (follows _ _) (sound fun _ _ _ => trivial)
    (fun w => .refl _) Onward.trans (allows _ _)
    (h.mono fun _ a _ => without_none a)).2

theorem reach_keyed {cond : State Pid → Act Pid → Prop}
    (hs : machine.Reach Initial cond s) : Keyed s.world.db :=
  (store_orderly (J := fun _ => True) trivial (fun _ _ _ => trivial)
    (hs.mono fun _ a _ => without_none a)).inv.1

end Runs

end Service

end SdlcOs.Registry
