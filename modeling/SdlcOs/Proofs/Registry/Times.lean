/-
The timestamps of the store are those of the clock.

A method reads the clock before its transaction, which writes that time
and no other. So what holds of every text that the clock is read as holds
of every start and every end of an attempt, whatever the interleaving
(`reach_timed`). Ids and tenants are never empty for a similar reason:
`create_run` has checked them (`reach_named`).
-/
import SdlcOs.Proofs.Registry.Views

namespace SdlcOs.Registry

open Effects
open Effects.Prog (Paths paths_bind)

namespace Service

/-- The time that a transaction writes. -/
def Txn.time : Txn → String
  | .create row .. => row.createdAt
  | .append _ _ _ _ _ _ _ ts .. => ts
  | .transition _ _ _ _ _ ts _ => ts
  | .write _ _ _ _ ts => ts

/-- The time that a transaction writes was read before. -/
def asksTimed : Heard → Req → Prop
  | lg, .transact txn =>
    (⟨.nowIso, Txn.time txn⟩ : (e : Req) × Resp e) ∈ lg
  | _, _ => True

-- ==== walks

section Walks

variable {α : Type} {lg : Heard}

/-- Paths on which what is written was read. -/
abbrev Timely (m : Code α) (lg : Heard) : Prop :=
  m.Paths asksTimed (fun _ _ => True) lg

theorem timely_bind {β : Type} {e : Req} {f : Resp e → Code β}
    (hmay : asksTimed lg e) (h : ∀ r, Timely (f r) (⟨e, r⟩ :: lg)) :
    Timely (ask e >>= f) lg :=
  paths_bind (m := ask e) ⟨hmay, h⟩

theorem timely_returning {f : α → Outcome} {m : Code α} (h : Timely m lg) :
    Timely (returning f m) lg :=
  paths_bind (h.mono fun _ _ _ => trivial)

theorem timely_createRun (t : TenantArg)
    (key repo branch cls trace : String) (worktree : Option String) :
    Timely (createRun t key repo branch cls trace worktree) [] := by
  unfold createRun
  split
  · trivial
  · split
    · trivial
    split
    · trivial
    split
    · trivial
    refine timely_bind trivial fun ts => ?_
    refine timely_bind trivial fun runId => ?_
    refine timely_bind trivial fun attemptId => ?_
    refine timely_bind trivial fun entryId => ?_
    refine timely_bind ?_ fun r => ?_
    · simp [asksTimed, Txn.time]
    · split
      · trivial
      · trivial
      · refine timely_bind trivial fun row => ?_
        split
        · trivial
        · trivial

theorem timely_appendAttempt (t : TenantArg) (id : String) (v : Int)
    (reason start trace : String) :
    Timely (appendAttempt t id v reason start trace) [] := by
  unfold appendAttempt
  split
  · trivial
  split
  · trivial
  split
  · trivial
  refine timely_bind trivial fun row => ?_
  split
  · split
    · trivial
    split
    · trivial
    refine timely_bind trivial fun ts => ?_
    refine timely_bind trivial fun attemptId => ?_
    refine timely_bind trivial fun entryId => ?_
    refine timely_bind ?_ fun r => ?_
    · simp [asksTimed, Txn.time]
    · split
      · trivial
      · trivial
      · refine timely_bind trivial fun attempts => ?_
        split
        · trivial
        · trivial
  · trivial

theorem timely_reread (t : TenantArg) (id : String) :
    Timely (reread t id) lg := by
  unfold reread
  refine timely_bind trivial fun row => ?_
  split
  · trivial
  · trivial

theorem timely_transitionStage (t : TenantArg) (id : String) (v : Int)
    (next : String) : Timely (transitionStage t id v next) [] := by
  unfold transitionStage
  split
  · trivial
  refine timely_bind trivial fun row => ?_
  split
  · split
    · trivial
    split
    · trivial
    refine timely_bind trivial fun ts => ?_
    refine timely_bind trivial fun entryId => ?_
    split
    · trivial
    refine timely_bind ?_ fun r => ?_
    · simp [asksTimed, Txn.time]
    · split
      · trivial
      · trivial
      · exact timely_reread _ id
  · trivial

theorem timely_writeFields (t : TenantArg) (id : String) (v : Int)
    (fields : Fields) : Timely (writeFields t id v fields) [] := by
  unfold writeFields
  refine timely_bind trivial fun row => ?_
  split
  · split
    · trivial
    refine timely_bind trivial fun ts => ?_
    refine timely_bind ?_ fun r => ?_
    · simp [asksTimed, Txn.time]
    · split
      · trivial
      · trivial
      · exact timely_reread _ id
  · trivial

theorem timely_entry (c : Call) : Timely (entry c) [] := by
  cases c with
  | createRun t key repo branch cls trace worktree =>
    exact timely_returning (timely_createRun ..)
  | getRun t id =>
    refine timely_returning (timely_bind trivial fun row => ?_)
    split
    · trivial
    · trivial
  | listRuns t stage limit offset =>
    refine timely_returning (timely_bind trivial fun rows => ?_)
    split
    · trivial
    · trivial
  | listAttempts t id =>
    refine timely_returning (timely_bind trivial fun row => ?_)
    split
    · trivial
    · refine timely_bind trivial fun rows => ?_
      split
      · trivial
      · trivial
  | appendAttempt t id v reason start trace =>
    exact timely_returning (timely_appendAttempt ..)
  | transitionStage t id v next =>
    exact timely_returning (timely_transitionStage ..)
  | writeCheckpoint t id v pointer cls =>
    refine timely_returning ?_
    unfold writeCheckpoint
    split
    · trivial
    split
    · trivial
    · exact timely_writeFields ..
  | writeExecutionLocation t id v cloud region node =>
    refine timely_returning ?_
    unfold writeExecutionLocation
    split
    · trivial
    · exact timely_writeFields ..

end Walks

-- ==== attempts

section Timed

variable (isTime : String → Prop)

/-- Every attempt's times are times. -/
def Timed (db : Db) : Prop :=
  ∀ a ∈ db.attempts, isTime a.startTs ∧ ∀ ts ∈ a.endTs, isTime ts

/-- The clock is read as a time. -/
def Clocked {Pid : Type} (_ : State Pid) : Act Pid → Prop
  | .step _ (.time ts) => isTime ts
  | _ => True

/-- What the environment answers with is a time where one is asked for. -/
def AnswersTime : (e : Req) → Env e → Prop
  | .nowIso, ts => isTime ts
  | _, _ => True

variable {isTime}

theorem timed_close {l : List AttemptRow} {id tenant ts : String}
    (h : ∀ a ∈ l, isTime a.startTs ∧ ∀ ts ∈ a.endTs, isTime ts)
    (hts : isTime ts) : ∀ a ∈ l.map (AttemptRow.close id tenant ts),
      isTime a.startTs ∧ ∀ ts ∈ a.endTs, isTime ts := by
  intro a ha
  obtain ⟨b, hb, rfl⟩ := List.mem_map.1 ha
  unfold AttemptRow.close
  split
  · refine ⟨(h b hb).1, ?_⟩
    rintro ts ⟨⟩
    exact hts
  · exact h b hb

theorem Timed.commits {db db' : Db} {txn : Txn} (h : Timed isTime db)
    (hcommits : db.Commits txn db') (hts : isTime (Txn.time txn)) :
    Timed isTime db' := by
  have hnew : ∀ {l : List AttemptRow} {new : AttemptRow},
      (∀ a ∈ l, isTime a.startTs ∧ ∀ ts ∈ a.endTs, isTime ts) →
        isTime new.startTs → new.endTs = none →
        ∀ a ∈ l ++ [new], isTime a.startTs ∧ ∀ ts ∈ a.endTs, isTime ts := by
    intro l new hl hstart hend a ha
    rcases List.mem_append.1 ha with ha | ha
    · exact hl a ha
    · rw [List.mem_singleton.1 ha, hend]
      exact ⟨hstart, fun _ h => (by cases h)⟩
  cases hcommits with
  | create hrun hattempt => exact hnew h hts rfl
  | append hhit hattempt =>
    refine hnew ?_ hts rfl
    unfold Db.sealedAttempts
    split
    · split
      · exact h
      · exact timed_close h hts
    · exact h
  | transition hhit =>
    unfold Timed
    dsimp only
    split
    · exact timed_close h hts
    · exact h
  | write hhit => exact h

variable (isTime)

/-- The discipline of processes that write what the clock is read as. -/
def timedDiscipline : Discipline Resp Env World Call Empty where
  may := fun _ => asksTimed
  handsOn := fun _ _ st => nomatch st
  assume := fun _ _ _ e x => AnswersTime isTime e x
  inv := fun w => Timed isTime w.db
  rel := fun _ _ => True
  knows := fun _ lg _ => ∀ ts : String,
    (⟨.nowIso, ts⟩ : (e : Req) × Resp e) ∈ lg → isTime ts

theorem timed_sound : (timedDiscipline isTime).Sound machine where
  stable := fun _ hk => hk
  called := fun _ h => ⟨h, trivial⟩
  stopped := fun h => ⟨h, trivial⟩
  entered := fun _ _ _ h => (by cases h)
  again := by
    intro w ph lg st
    cases st
  asked := by
    intro w ph lg e x hinv hk hmay hassume
    refine ⟨?_, trivial, ?_⟩
    · rcases exec_inv w e x with hsame | ⟨txn, rfl, hcom, hworld⟩
      · show Timed isTime (exec w e x).1.db
        rw [hsame]
        exact hinv
      · show Timed isTime (exec w _ x).1.db
        rw [hworld]
        exact Timed.commits hinv (Db.transact_committed hcom) (hk _ hmay)
    · intro ts hts
      rcases List.mem_cons.1 hts with heq | hold
      · have he : e = .nowIso := (Sigma.mk.inj heq).1.symm
        subst he
        have hx : ts = x := eq_of_heq (Sigma.mk.inj heq).2
        rw [hx]
        exact hassume
      · exact hk ts hold

theorem timed_follows : (timedDiscipline isTime).Follows machine where
  entry := fun c => (timely_entry c).mono fun ctl lg _ => by
    cases ctl with
    | again st => cases st
    | done o => exact trivial
  body := fun st => nomatch st

/-- Where the clock is read as times, the store has no others. -/
theorem reach_timed {Pid : Type} [DecidableEq Pid] {s : State Pid}
    (hs : machine.Reach Initial (Clocked isTime) s) :
    Timed isTime s.world.db := by
  refine (hs.interleaved (timed_follows isTime) (timed_sound isTime)
    (fun _ => trivial) ?_ ?_).inv
  · rintro w rfl a ha
    cases ha
  · intro s p ans pr e k x hcond _ _ hdecode
    cases e with
    | nowIso =>
      cases ans with
      | time ts =>
        obtain rfl : ts = x := Option.some.inj hdecode
        exact hcond
      | auto => cases hdecode
      | id text => cases hdecode
    | _ => trivial

end Timed

-- ==== names

/-- Runs and their tenants have names. -/
def NamedRuns (db : Db) : Prop := ∀ r ∈ db.runs, r.id ≠ "" ∧ r.tenantId ≠ ""

theorem reach_named {Pid : Type} [DecidableEq Pid] {s : State Pid}
    {cond : State Pid → Act Pid → Prop}
    (hs : machine.Reach Initial cond s) : NamedRuns s.world.db := by
  have hupdated : ∀ {db : Db} {t id : String} {v : Int} {fields : Fields}
      {ts : String}, NamedRuns db →
        ∀ r ∈ db.updatedRuns t id v fields ts,
          r.id ≠ "" ∧ r.tenantId ≠ "" := by
    intro db t id v fields ts h r hr
    obtain ⟨r₀, hr₀, rfl⟩ := List.mem_map.1 hr
    split
    · exact h r₀ hr₀
    · exact h r₀ hr₀
  refine (store_orderly (J := fun w => NamedRuns w.db)
    (fun _ h => (by cases h)) ?_ (hs.mono fun _ a _ => without_none a)).inv.2
  intro w txn w' _ hJ hcom
  obtain ⟨hcommits, hfits, -, -⟩ := hcom
  generalize w'.db = db' at hcommits
  cases hcommits with
  | create hrun hattempt =>
    intro r hr
    rcases List.mem_append.1 hr with hr | hr
    · exact hJ r hr
    · rw [List.mem_singleton.1 hr]
      exact ⟨hfits.2.2.2.1, hfits.2.2.2.2.1⟩
  | append hhit hattempt => exact hupdated hJ
  | transition hhit => exact hupdated hJ
  | write hhit => exact hupdated hJ

end Service

end SdlcOs.Registry
