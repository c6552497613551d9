/-
The service's calls take effect at one moment.

# The claim of the two levels

Between a call and its return other processes read and write. Still every
call that returns has done, in one of its steps, what the operation of
`Run` does to the row it names, and is answered so (`linearized`); and
every reachable database holds the shelf of some history of accepted
operations (`shelf_history`).

# Why it is so

A call that commits does so over the row it has read, so the transaction
is its moment. One that is refused on what it read has the read as its
moment. One whose transaction hits nothing was overtaken: at the
transaction the row has moved on, and the operation would refuse it there
too.
-/
import SdlcOs.Effects.Linear
import SdlcOs.Proofs.Registry.Shelf
import SdlcOs.Proofs.Registry.Versions

namespace SdlcOs.Registry

open Effects
open Effects.Prog (Paths paths_bind)

namespace Service

-- ==== walks

/-- What a call of the operation may ask for: one transaction, its own. -/
def aims (op : Op) (lg : Heard) : Req → Prop
  | .transact txn => op.Makes txn ∧ Fits (Read lg) txn ∧ commits lg = []
  | _ => True

/-- Why a call of the operation came to its outcome: it was refused before
it asked for anything, or on the row it read, or was overtaken, or has
written. -/
inductive Settled (op : Op) : Outcome → Heard → Prop
  | early {o : Outcome} (h : ∀ db, Refuses op db o) : Settled op o []
  | judged {o : Outcome} {t id : String} {found : Option RunRow}
      (h : ∀ db, Keyed db → Positive db →
        db.getRun (.text t) id = found → Refuses op db o) :
      Settled op o [⟨.getRun (.text t) id, found⟩]
  | overtaken {txn : Txn} {lg : Heard} (hmakes : op.Makes txn)
      (hfits : Fits (Read lg) txn) (hguard : (Txn.guard txn).isSome)
      (hlg : commits lg = []) :
      Settled op op.overtaken (⟨.transact txn, .stale⟩ :: lg)
  | wrote {txn : Txn} {r : RunRow} {lg : Heard} (hmakes : op.Makes txn)
      (hfits : Fits (Read lg) txn) (hlg : commits lg = [])
      (hreply : ∀ m runId attemptId, ∃ a,
        (op.apply m runId attemptId).2 = .row a) :
      Settled op (.run (.ok r))
        (⟨.getRun (.text (Txn.tenant txn)) (Txn.runId txn), some r⟩ ::
          ⟨.transact txn, .committed⟩ :: lg)
  | appended {txn : Txn} {a : AttemptRow} {t : TenantArg} {id : String}
      {rows : List AttemptRow} {lg : Heard} (hmakes : op.Makes txn)
      (hfits : Fits (Read lg) txn) (hlg : commits lg = [])
      (hreply : ∀ m runId attemptId, ∃ a,
        (op.apply m runId attemptId).2 = .attempt a)
      (ha : a.id = Txn.newAttempt txn) :
      Settled op (.attempt (.ok a))
        (⟨.listAttempts id t, rows⟩ :: ⟨.transact txn, .committed⟩ :: lg)

/-- What a call of the operation ends in. -/
def SettledCtl (op : Op) : Ctl Empty Outcome → Heard → Prop
  | .done o, lg => Settled op o lg
  | .again st, _ => nomatch st

theorem stageOf_token (stage : Stage) : stageOf stage.token = some stage := by
  cases stage <;> decide

section Walks

variable {op : Op} {lg : Heard} {α : Type}

/-- Paths of the code of an operation. -/
abbrev Goes (op : Op) (Q : α → Heard → Prop) (m : Code α) (lg : Heard) :
    Prop :=
  m.Paths (aims op) Q lg

theorem goes_ask {e : Req} {Q : Resp e → Heard → Prop}
    (hmay : aims op lg e) (h : ∀ r, Q r (⟨e, r⟩ :: lg)) :
    Goes op Q (ask e) lg :=
  ⟨hmay, h⟩

theorem goes_returning {f : α → Outcome} {m : Code α}
    (h : Goes op (fun r lg => Settled op (f r) lg) m lg) :
    Goes op (SettledCtl op) (returning f m) lg :=
  paths_bind h

theorem capacity_iff {cls : String} :
    cls ∉ validCapacityClasses ↔ cls ≠ "spot" ∧ cls ≠ "on_demand" := by
  simp [validCapacityClasses]

theorem goes_create {t key repo branch cls trace : String}
    {worktree : Option String} :
    Goes (.create t key repo branch cls trace worktree)
      (fun r lg => Settled (.create t key repo branch cls trace worktree)
        (.run r) lg)
      (createRun (.text t) key repo branch cls trace worktree) [] := by
  unfold createRun
  dsimp only
  split
  · next ht =>
    apply Settled.early
    intro db
    apply refuses_create
    rw [Run.createRun, if_pos ht]
  · next ht =>
    split
    · next hargs =>
      apply Settled.early
      intro db
      apply refuses_create
      rw [Run.createRun, if_neg ht, if_pos hargs]
    · next hargs =>
      split
      · next hcls =>
        apply Settled.early
        intro db
        apply refuses_create
        rw [Run.createRun, if_neg ht, if_neg hargs,
          if_pos (capacity_iff.1 hcls)]
      · next hcls =>
        refine paths_bind (goes_ask trivial fun ts => ?_)
        refine paths_bind (goes_ask trivial fun runId => ?_)
        refine paths_bind (goes_ask trivial fun attemptId => ?_)
        refine paths_bind (goes_ask trivial fun entryId => ?_)
        have hvalid : ∃ row, @Run.createRun String t key repo branch cls
            trace runId attemptId = .ok row := by
          unfold Run.createRun
          rw [if_neg ht, if_neg hargs, if_neg (capacity_iff.not.1 hcls)]
          exact ⟨_, rfl⟩
        refine paths_bind (goes_ask ⟨.create hvalid,
          ⟨rfl, rfl, rfl, runId.2, ht, attemptId.2⟩, rfl⟩ fun r => ?_)
        cases r with
        | raised e => trivial
        | stale => trivial
        | committed =>
          refine paths_bind (goes_ask trivial fun row => ?_)
          cases row with
          | none => trivial
          | some run =>
            refine Settled.wrote (.create hvalid)
              ⟨rfl, rfl, rfl, runId.2, ht, attemptId.2⟩ rfl ?_
            intro m a b
            simp only [Op.apply]
            split <;> exact ⟨_, rfl⟩

theorem goes_get {t id : String} :
    Goes (.get t id) (fun r lg => Settled (.get t id) (.run r) lg)
      (getRun (.text t) id) [] := by
  unfold getRun
  refine paths_bind (goes_ask trivial fun row => ?_)
  cases row with
  | none =>
    apply Settled.judged
    intro db hkeyed _ hfound
    refine ⟨.seen .empty, ?_, trivial, nofun⟩
    have hop : db.shelf.on id (fun row => (row, row.getRun t id)) =
        (db.shelf, .empty) :=
      on_unseen (fun row h => by simp [Run.getRun, h])
        (fun row hrow => unseen_of_getRun hfound hrow)
    simp only [Op.apply, hop]
  | some run =>
    apply Settled.judged
    intro db hkeyed _ hfound
    obtain ⟨hrow, hseen⟩ := shelf_of_getRun hkeyed hfound
    refine ⟨.seen (.ok run.run), ?_, rfl, fun _ => trivial⟩
    simp [Op.apply, on_of_some hrow, Run.getRun, hseen]

theorem goes_reread {t id : String} {txn : Txn}
    (hmakes : op.Makes txn) (hfits : Fits (Read lg) txn)
    (hlg : commits lg = [])
    (hreply : ∀ m runId attemptId, ∃ a,
      (op.apply m runId attemptId).2 = .row a)
    (ht : Txn.tenant txn = t) (hid : Txn.runId txn = id) :
    Goes op (fun r lg => Settled op (.run r) lg) (reread (.text t) id)
      (⟨.transact txn, .committed⟩ :: lg) := by
  subst ht hid
  unfold reread
  refine paths_bind (goes_ask trivial fun row => ?_)
  cases row with
  | none => trivial
  | some run => exact .wrote hmakes hfits hlg hreply

theorem goes_transition {t id : String} {v : Nat} {next : Stage} :
    Goes (.transition t id v next)
      (fun r lg => Settled (.transition t id v next) (.run r) lg)
      (transitionStage (.text t) id v next.token) [] := by
  unfold transitionStage
  rw [stageOf_token]
  refine paths_bind (goes_ask trivial fun row => ?_)
  cases row with
  | none =>
    apply Settled.judged
    intro db hkeyed _ hfound
    have hop := on_unseen
      (f := fun row => row.transitionStage t id v next)
      (fun row h => transitionStage_unseen h)
      (fun row hrow => unseen_of_getRun hfound hrow)
    apply refuses_row_empty
    simp only [Op.apply, hop]
  | some run =>
    dsimp only
    by_cases hv : run.version = v
    · rw [if_neg (not_not.2 hv)]
      split
      · next hillegal =>
        apply Settled.judged
        intro db hkeyed hpos hfound
        obtain ⟨hrow, hseen⟩ := shelf_of_getRun hkeyed hfound
        have hop := on_refused
          (f := fun row => row.transitionStage t id v next) hrow
          (transitionStage_illegal hseen (run_version hv) hillegal)
        apply refuses_row
        simp only [Op.apply, hop]
        rfl
      · next hlegal =>
        refine paths_bind (goes_ask trivial fun ts => ?_)
        refine paths_bind (goes_ask trivial fun entryId => ?_)
        split
        · trivial
        · next current hcur =>
          have hfits : ∀ lg, Read lg t id run → Fits (Read lg)
              (.transition t id v current next ts entryId) := by
            intro lg hread
            exact ⟨run, hread, hv, hcur, by simpa using hlegal⟩
          refine paths_bind (goes_ask
            ⟨.transition, hfits _ (by simp [Read]), rfl⟩ fun r => ?_)
          cases r with
          | raised e => trivial
          | stale =>
            exact .overtaken .transition (hfits _ (by simp [Read])) rfl
              rfl
          | committed =>
            exact goes_reread .transition (hfits _ (by simp [Read])) rfl
              (fun m a b => ⟨_, rfl⟩) rfl rfl
    · rw [if_pos hv]
      apply Settled.judged
      intro db hkeyed hpos hfound
      obtain ⟨hrow, hseen⟩ := shelf_of_getRun hkeyed hfound
      have hrpos := hpos run (getRun_inv hfound).1
      have hop := on_refused
        (f := fun row => row.transitionStage t id v next) hrow
        (transitionStage_stale hseen (run_version_ne hrpos hv))
      apply refuses_row
      simp only [Op.apply, hop, staleVersion_run hrpos]

theorem goes_append {t id : String} {v : Nat} {reason trace : String}
    {start : Stage} :
    Goes (.append t id v reason start trace)
      (fun r lg => Settled (.append t id v reason start trace)
        (.attempt r) lg)
      (appendAttempt (.text t) id v reason start.token trace) [] := by
  unfold appendAttempt
  split
  · next hreason =>
    apply Settled.early
    intro db
    apply refuses_attempt
    simp only [Op.apply]
    rw [appendAttempt_invalid fun row => if_pos hreason]
  · next hreason =>
    rw [stageOf_token]
    dsimp only
    split
    · next htrace =>
      apply Settled.early
      intro db
      apply refuses_attempt
      simp only [Op.apply]
      rw [appendAttempt_invalid fun row => by
        unfold Run.appendAttempt
        exact (if_neg hreason).trans (if_pos htrace)]
    · next htrace =>
      have hreason' := not_not.1 hreason
      refine paths_bind (goes_ask trivial fun row => ?_)
      cases row with
      | none =>
        apply Settled.judged
        intro db hkeyed _ hfound
        have hop := on_unseen
          (f := fun row =>
            row.appendAttempt t id v reason start trace "")
          (fun row h => appendAttempt_unseen hreason' htrace h)
          (fun row hrow => unseen_of_getRun hfound hrow)
        apply refuses_attempt_empty
        simp only [Op.apply, hop]
      | some run =>
        dsimp only
        by_cases hv : run.version = v
        · rw [if_neg (not_not.2 hv)]
          split
          · next hillegal =>
            apply Settled.judged
            intro db hkeyed _ hfound
            obtain ⟨hrow, hseen⟩ := shelf_of_getRun hkeyed hfound
            have hop := on_refused
              (f := fun row =>
                row.appendAttempt t id v reason start trace "") hrow
              (appendAttempt_illegal hreason' htrace hseen
                (run_version hv) hillegal)
            apply refuses_attempt
            simp only [Op.apply, hop]
            rfl
          · next hlegal =>
            refine paths_bind (goes_ask trivial fun ts => ?_)
            refine paths_bind (goes_ask trivial fun attemptId => ?_)
            refine paths_bind (goes_ask trivial fun entryId => ?_)
            have hstart : start = run.stage ∨
                run.stage.isLegalTransition start = true := by
              by_cases hs : start = run.stage
              · exact Or.inl hs
              · exact Or.inr (by simpa [hs] using hlegal)
            have hfits : ∀ lg, Read lg t id run → Fits (Read lg)
                (.append t id v run.currentAttemptId reason start trace ts
                  attemptId entryId) := by
              intro lg hread
              exact ⟨attemptId.2, run, hread, hv, rfl, hstart⟩
            refine paths_bind (goes_ask ⟨.append hreason' htrace,
              hfits _ (by simp [Read]), rfl⟩ fun r => ?_)
            cases r with
            | raised e => trivial
            | stale =>
              exact .overtaken (.append hreason' htrace)
                (hfits _ (by simp [Read])) rfl rfl
            | committed =>
              refine paths_bind (goes_ask trivial fun rows => ?_)
              split
              · trivial
              · next a hfind =>
                refine .appended (.append hreason' htrace)
                  (hfits _ (by simp [Read])) rfl
                  (fun m a b => ⟨_, rfl⟩) ?_
                show a.id = attemptId.val
                simpa using List.find?_some hfind
        · rw [if_pos hv]
          apply Settled.judged
          intro db hkeyed hpos hfound
          obtain ⟨hrow, hseen⟩ := shelf_of_getRun hkeyed hfound
          have hrpos := hpos run (getRun_inv hfound).1
          have hop := on_refused
            (f := fun row =>
              row.appendAttempt t id v reason start trace "") hrow
            (appendAttempt_stale hreason' htrace hseen
              (run_version_ne hrpos hv))
          apply refuses_attempt
          simp only [Op.apply, hop, staleVersion_run hrpos]

theorem goes_checkpoint {t id : String} {v : Nat}
    {pointer : { text : String // text ≠ "" }} :
    Goes (.checkpoint t id v pointer)
      (fun r lg => Settled (.checkpoint t id v pointer) (.run r) lg)
      (writeCheckpoint (.text t) id v pointer.val none) [] := by
  unfold writeCheckpoint
  rw [if_neg pointer.2, if_neg (by simp)]
  unfold writeFields
  refine paths_bind (goes_ask trivial fun row => ?_)
  cases row with
  | none =>
    apply Settled.judged
    intro db hkeyed _ hfound
    have hop := on_unseen
      (f := fun row => row.writeCheckpoint t id v pointer.val)
      (fun row h => writeCheckpoint_unseen h)
      (fun row hrow => unseen_of_getRun hfound hrow)
    apply refuses_row_empty
    simp only [Op.apply, hop]
  | some run =>
    dsimp only
    by_cases hv : run.version = v
    · rw [if_neg (not_not.2 hv)]
      refine paths_bind (goes_ask trivial fun ts => ?_)
      have hfits : ∀ lg, Read lg t id run → Fits (Read lg)
          (.write t id v
            { checkpointPointer := some pointer.val
              capacityClass := none } ts) := by
        intro lg hread
        exact ⟨rfl, rfl, rfl, run, hread, hv⟩
      refine paths_bind (goes_ask ⟨.checkpoint,
        hfits _ (by simp [Read]), rfl⟩ fun r => ?_)
      cases r with
      | raised e => trivial
      | stale =>
        exact .overtaken .checkpoint (hfits _ (by simp [Read])) rfl rfl
      | committed =>
        exact goes_reread .checkpoint (hfits _ (by simp [Read])) rfl
          (fun m a b => ⟨_, rfl⟩) rfl rfl
    · rw [if_pos hv]
      apply Settled.judged
      intro db hkeyed hpos hfound
      obtain ⟨hrow, hseen⟩ := shelf_of_getRun hkeyed hfound
      have hrpos := hpos run (getRun_inv hfound).1
      have hop := on_refused
        (f := fun row => row.writeCheckpoint t id v pointer.val) hrow
        (writeCheckpoint_stale hseen (run_version_ne hrpos hv))
      apply refuses_row
      simp only [Op.apply, hop, staleVersion_run hrpos]

theorem goes_entry (op : Op) :
    Goes op (SettledCtl op) (entry op.call) [] := by
  cases op with
  | create => exact goes_returning goes_create
  | get => exact goes_returning goes_get
  | transition => exact goes_returning goes_transition
  | append => exact goes_returning goes_append
  | checkpoint => exact goes_returning goes_checkpoint

end Walks

-- ==== moments

/-- The call came back with what the operation answers, and a run was
created under a free id. -/
def Fitting (op : Op) (runId : String) (o : Outcome) (ww : World × World)
    (reply : Op.Reply) : Prop :=
  Agrees ww.2.db reply o ∧
    (reply.isOk = true → op.Fresh ww.1.db.shelf runId)

/-- In one of these steps the operation takes effect, with its answer. -/
def LinearAt (op : Op) (o : Outcome) (steps : List (World × World)) : Prop :=
  ∃ runId attemptId, TakesEffect (fun w => w.db.shelf)
    (fun m => op.apply m runId attemptId) (Fitting op runId o) steps

/-- The operation has been accepted in one of these steps. -/
def Accepted (op : Op) (steps : List (World × World)) : Prop :=
  ∃ runId attemptId, TakesEffect (fun w => w.db.shelf)
    (fun m => op.apply m runId attemptId)
    (fun ww reply => reply.isOk = true ∧ op.Fresh ww.1.db.shelf runId) steps

section Moments

variable {op : Op} {o : Outcome} {txn : Txn}
variable {steps : List (World × World)} {w w' : World}

theorem Refuses.linear (h : Refuses op w.db o)
    (hstill : Still (fun w => w.db.shelf) steps) :
    LinearAt op o ((w, w) :: steps) := by
  obtain ⟨reply, hop, hagrees, hfresh⟩ := h
  refine ⟨"", "", takesEffect_now hstill ?_ ?_⟩
  · simp only [hop]
  · simp only [hop]
    exact ⟨hagrees, hfresh⟩

theorem still_of_quiet (h : ∀ ww ∈ steps, ww.2 = ww.1) :
    Still (fun w => w.db.shelf) steps := by
  intro ww hww
  simp only [h ww hww]

theorem Op.Done.linear (h : op.Done txn w.db w'.db)
    (hstill : Still (fun w => w.db.shelf) steps)
    (hagrees : ∀ reply,
      (op.apply w.db.shelf (Txn.newRun txn) (Txn.newAttempt txn)).2 =
        reply → Agrees w'.db reply o) :
    LinearAt op o ((w, w') :: steps) :=
  ⟨Txn.newRun txn, Txn.newAttempt txn,
    takesEffect_now hstill h.shelf ⟨hagrees _ rfl, fun _ => h.fresh⟩⟩

theorem Op.Done.accepted (h : op.Done txn w.db w'.db)
    (hstill : Still (fun w => w.db.shelf) steps) :
    Accepted op ((w, w') :: steps) := by
  refine ⟨Txn.newRun txn, Txn.newAttempt txn,
    takesEffect_now hstill h.shelf ⟨?_, h.fresh⟩⟩
  rcases h.reply with ⟨r, -, -, hreply⟩ | hreply
  · simp only [hreply, Op.Reply.isOk]
  · simp only [hreply, Op.Reply.isOk]

end Moments

section Runs

variable {Pid : Type} [DecidableEq Pid] {s₀ s : State Pid} {p : Pid}
variable {op : Op} {o : Outcome} {ws : List (World × World)}
variable {cond : State Pid → Act Pid → Prop}

theorem reach_goes (hs : machine.Reach Initial cond s)
    {pr : Proc Resp Err Call Empty Outcome} (hp : s.procs p = some pr)
    (hph : pr.phase = .entry op.call) :
    pr.prog.Paths
      (fun lg e => ∀ i : { op' : Op // op'.call = op.call }, aims i.1 lg e)
      (fun ctl lg =>
        ∀ i : { op' : Op // op'.call = op.call }, SettledCtl i.1 ctl lg)
      pr.log := by
  have hentry : ∀ c, (entry c).Paths
      (fun lg e => ∀ i : { op' : Op // op'.call = c }, aims i.1 lg e)
      (fun ctl lg =>
        ∀ i : { op' : Op // op'.call = c }, SettledCtl i.1 ctl lg) [] := by
    intro c
    apply Prog.paths_forall
    rintro ⟨op', rfl⟩
    exact goes_entry op'
  exact hs.entered hentry hp hph

theorem reach_aims (hs : machine.Reach Initial cond s)
    {pr : Proc Resp Err Call Empty Outcome} (hp : s.procs p = some pr)
    (hph : pr.phase = .entry op.call) {e : Req}
    {k : Resp e → Code (Ctl Empty Outcome)} (hprog : pr.prog = .op e k) :
    aims op pr.log e := by
  have hgoes := reach_goes hs hp hph
  rw [hprog] at hgoes
  exact hgoes.1 ⟨op, rfl⟩

theorem reach_knows (hs : machine.Reach Initial cond s)
    {pr : Proc Resp Err Call Empty Outcome} (hp : s.procs p = some pr) :
    Knows pr.log s.world.db :=
  ((store_orderly (J := fun _ => True) trivial (fun _ _ _ => trivial)
    (hs.mono fun _ a _ => without_none a)).procs p pr hp).knows

theorem reach_done (hs : machine.Reach Initial cond s)
    {pr : Proc Resp Err Call Empty Outcome} (hp : s.procs p = some pr)
    {txn : Txn} (hmakes : op.Makes txn) (hfits : Fits (Read pr.log) txn)
    {w' : World} (hcommits : s.world.db.Commits txn w'.db) :
    op.Done txn s.world.db w'.db := by
  have hkeyed := reach_keyed hs
  exact hmakes.done hkeyed (reach_named hs) (reach_positive hs)
    ((reach_knows hs hp).fits hkeyed hfits hcommits) hcommits

theorem serving_stale {ww : World × World} {txn : Txn}
    (h : Serving ww ⟨.transact txn, .stale⟩) :
    ww.2 = ww.1 ∧ (ww.1.db.transact txn).2 = .stale := by
  refine ⟨serving_quiet h rfl, ?_⟩
  obtain ⟨env, hexec⟩ := h
  rw [← exec_answer ww.1 txn env, hexec]

theorem serves_phase (h : machine.Serves cond p op.call s₀ ws s)
    {pr : Proc Resp Err Call Empty Outcome} (hp : s.procs p = some pr) :
    pr.phase = .entry op.call := by
  cases hph : pr.phase with
  | loop st => cases st
  | entry c => rw [(h.log hp hph).1]

theorem later_of_reread {s₁ s₂ : State Pid} {t : TenantArg} {id : String}
    {r₀ r : RunRow} (hs : machine.Reach Initial cond s₁)
    (hleads : machine.Leads cond s₁ s₂) (hr₀ : r₀ ∈ s₁.world.db.runs)
    (hid : r₀.id = id) (hfound : s₂.world.db.getRun t id = some r) :
    Later r₀ r := by
  obtain ⟨hr, hrid, -⟩ := getRun_inv hfound
  obtain ⟨r', hr', hlater⟩ := leads_onward hs hleads r₀ hr₀
  have hsame : r' = r := by
    apply (reach_keyed (hs.leads hleads)).eq hr' hr
    rw [hlater.id, hid, hrid]
  exact hsame ▸ hlater

/-- Every call that returns has taken effect, with what it returns, at
its start or in one of its steps. -/
theorem linear_of_returns (hs : machine.Reach Initial cond s₀)
    (hserves : machine.Serves cond p op.call s₀ ws s)
    (hret : s.Returns p o) :
    LinearAt op o (ws ++ [(s₀.world, s₀.world)]) := by
  obtain ⟨pr, hp, hprog⟩ := hret
  have hreach := hs.leads hserves.leads
  have hph := serves_phase hserves hp
  obtain ⟨-, hall⟩ := hserves.log hp hph
  have hgoes := reach_goes hreach hp hph
  rw [hprog] at hgoes
  have hsettled : Settled op o pr.log := hgoes ⟨op, rfl⟩
  have hstart : Still (fun w : World => w.db.shelf)
      [(s₀.world, s₀.world)] := by
    simp [Still]
  have hquiet : ∀ {lg : Heard} {ws' : List (World × World)},
      List.Forall₂ (machine.Answers cond p s₀) ws' lg → commits lg = [] →
        Still (fun w => w.db.shelf) (ws' ++ [(s₀.world, s₀.world)]) := by
    intro lg ws' h hlg
    refine still_append.2 ⟨still_of_quiet ?_, hstart⟩
    exact steps_quiet (h.imp fun _ _ => serving_of_answers) hlg
  generalize hlog : pr.log = lg at hsettled hall
  cases hsettled with
  | early h =>
    cases hall
    exact (h s₀.world.db).linear still_nil
  | judged h =>
    obtain ⟨s₁, s₂, ans, ws', k, env, hserves', rfl, -, -, -, hexec, -⟩ :=
      hserves.last hp hph hlog
    have hreach₁ := hs.leads hserves'.leads
    obtain ⟨hworld, hfound⟩ := Prod.mk.inj hexec
    cases hall with
    | cons _ hrest =>
      cases hrest
      rw [← hworld]
      exact (h s₁.world.db (reach_keyed hreach₁)
        (reach_positive hreach₁) hfound).linear hstart
  | overtaken hmakes hfits hguard hlg =>
    obtain ⟨s₁, s₂, ans, ws', k, env, hserves', rfl, -, -, hpr, hexec, -⟩ :=
      hserves.last hp hph hlog
    have hreach₁ := hs.leads hserves'.leads
    have hserved : Serving (s₁.world, s₂.world) ⟨.transact _, .stale⟩ :=
      ⟨env, hexec⟩
    obtain ⟨hworld, hstale⟩ := serving_stale hserved
    cases hall with
    | cons _ hrest =>
      have hworld' : s₂.world = s₁.world := hworld
      rw [hworld']
      refine (hmakes.refuses (reach_keyed hreach₁) (reach_named hreach₁)
        (reach_positive hreach₁) (reach_knows hreach₁ hpr) hfits hguard
        hstale).linear ?_
      exact hquiet hrest hlg
  | wrote hmakes hfits hlg hreply =>
    obtain ⟨s₁, s₂, ans, ws', k, env, hserves', rfl, -, -, hpr, hexec, -⟩ :=
      hserves.last hp hph hlog
    obtain ⟨s₃, s₄, ans', ws'', k', env', hserves'', rfl, hcond, happ, hpr',
      hexec', hleads⟩ := hserves'.last hpr rfl rfl
    have hreach₃ := hs.leads hserves''.leads
    obtain ⟨hworld, hfound⟩ := Prod.mk.inj hexec
    have hserved : Serving (s₃.world, s₄.world) ⟨.transact _, .committed⟩ :=
      ⟨env', hexec'⟩
    have hcommit := serving_commit hserved rfl
    have hdone := reach_done hreach₃ hpr' hmakes hfits hcommit.1
    have hstill : Still (fun w : World => w.db.shelf)
        [(s₁.world, s₂.world)] := by
      simp [Still, ← hworld]
    cases hall with
    | cons _ hrest =>
      cases hrest with
      | cons _ hrest' =>
        obtain ⟨runId, attemptId, heff⟩ := hdone.linear
          (hquiet hrest' hlg) (o := .run (.ok _)) fun reply hrep => by
            obtain ⟨a, ha⟩ := hreply s₃.world.db.shelf _ _
            rcases hdone.reply with ⟨r₀, hr₀, hid, hrow⟩ | hattempt
            · rw [← hrep, hrow]
              refine ⟨r₀, hr₀, rfl, ?_⟩
              exact later_of_reread (.step hreach₃ hcond happ) hleads hr₀
                hid hfound
            · rw [ha] at hattempt
              cases hattempt
        exact ⟨runId, attemptId, heff.later hstill⟩
  | appended hmakes hfits hlg hreply ha =>
    obtain ⟨s₁, s₂, ans, ws', k, env, hserves', rfl, -, -, hpr, hexec, -⟩ :=
      hserves.last hp hph hlog
    obtain ⟨s₃, s₄, ans', ws'', k', env', hserves'', rfl, hcond, happ, hpr',
      hexec', hleads⟩ := hserves'.last hpr rfl rfl
    have hreach₃ := hs.leads hserves''.leads
    obtain ⟨hworld, -⟩ := Prod.mk.inj hexec
    have hserved : Serving (s₃.world, s₄.world) ⟨.transact _, .committed⟩ :=
      ⟨env', hexec'⟩
    have hcommit := serving_commit hserved rfl
    have hdone := reach_done hreach₃ hpr' hmakes hfits hcommit.1
    have hstill : Still (fun w : World => w.db.shelf)
        [(s₁.world, s₂.world)] := by
      simp [Still, ← hworld]
    cases hall with
    | cons _ hrest =>
      cases hrest with
      | cons _ hrest' =>
        obtain ⟨runId, attemptId, heff⟩ := hdone.linear
          (hquiet hrest' hlg) (o := .attempt (.ok _)) fun reply hrep => by
            obtain ⟨a, hatt⟩ := hreply s₃.world.db.shelf _ _
            rcases hdone.reply with ⟨r₀, hr₀, hid, hrow⟩ | hattempt
            · rw [hatt] at hrow
              cases hrow
            · rw [← hrep, hattempt]
              exact ha
        exact ⟨runId, attemptId, heff.later hstill⟩

/-- A call has done nothing so far, or has been accepted and said so to its
process. -/
def Pending (op : Op) (ws : List (World × World)) (lg : Heard) : Prop :=
  (Still (fun w => w.db.shelf) ws ∧ commits lg = []) ∨
    (Accepted op ws ∧ commits lg ≠ [])

theorem Pending.asked {pr : Proc Resp Err Call Empty Outcome} {e : Req}
    {k : Resp e → Code (Ctl Empty Outcome)} {env : Env e}
    (h : Pending op ws pr.log) (hs : machine.Reach Initial cond s)
    (hp : s.procs p = some pr) (hph : pr.phase = .entry op.call)
    (hprog : pr.prog = .op e k) :
    Pending op ((s.world, (exec s.world e env).1) :: ws)
      (⟨e, (exec s.world e env).2⟩ :: pr.log) := by
  have hserved : Serving (s.world, (exec s.world e env).1)
      ⟨e, (exec s.world e env).2⟩ := ⟨env, rfl⟩
  generalize exec s.world e env = out at hserved ⊢
  cases hcommit : commitOf (⟨e, out.2⟩ : (e : Req) × Resp e) with
  | none =>
    have hsame : out.1 = s.world := serving_quiet hserved hcommit
    have hnone : Still (fun w : World => w.db.shelf)
        [(s.world, out.1)] := by
      simp [Still, hsame]
    unfold Pending
    rw [commits, List.filterMap_cons_none hcommit]
    rcases h with ⟨hstill, hlg⟩ | ⟨⟨runId, attemptId, heff⟩, hlg⟩
    · exact Or.inl ⟨still_append.2 ⟨hnone, hstill⟩, hlg⟩
    · exact Or.inr ⟨⟨runId, attemptId, heff.later hnone⟩, hlg⟩
  | some txn =>
    have hcommits := serving_commit hserved hcommit
    obtain ⟨rfl, -⟩ : e = .transact txn ∧ True := by
      cases e with
      | transact txn' =>
        generalize out.2 = r at hcommit
        cases r with
        | committed => exact ⟨congrArg _ (Option.some.inj hcommit), trivial⟩
        | stale => cases hcommit
        | raised x => cases hcommit
      | _ => cases hcommit
    obtain ⟨hmakes, hfits, hquiet⟩ := reach_aims hs hp hph hprog
    rcases h with ⟨hstill, -⟩ | ⟨-, hlg⟩
    · have hdone := reach_done hs hp hmakes hfits hcommits.1
      refine Or.inr ⟨hdone.accepted hstill, ?_⟩
      rw [commits, List.filterMap_cons_some hcommit]
      simp
    · exact absurd hquiet hlg

omit [DecidableEq Pid] in
theorem still_or_accepted {w : World}
    (h : Still (fun w => w.db.shelf) ws ∨ Accepted op ws) :
    Still (fun w => w.db.shelf) ((w, w) :: ws) ∨
      Accepted op ((w, w) :: ws) := by
  have hnone : Still (fun w : World => w.db.shelf) [(w, w)] := by
    simp [Still]
  rcases h with hstill | ⟨runId, attemptId, heff⟩
  · exact Or.inl (still_append.2 ⟨hnone, hstill⟩)
  · exact Or.inr ⟨runId, attemptId, heff.later hnone⟩

/-- At any moment of a call, returned or not, its steps have done nothing
or the operation has been accepted in one of them. -/
theorem pending_of_serves (hs : machine.Reach Initial cond s₀)
    (hserves : machine.Serves cond p op.call s₀ ws s) :
    (Still (fun w => w.db.shelf) ws ∨ Accepted op ws) ∧
      ∀ pr, s.procs p = some pr → Pending op ws pr.log := by
  induction hserves with
  | called hc happ =>
    refine ⟨Or.inl still_nil, ?_⟩
    intro pr hp
    cases Machine.apply_inv happ with
    | call hnone =>
      rw [Sys.put_procs_self] at hp
      obtain rfl := Option.some.inj hp
      exact Or.inl ⟨still_nil, rfl⟩
  | @own ws s₁ s₂ ans hserves hc happ ih =>
    have hreach := hs.leads hserves.leads
    cases Machine.apply_inv happ with
    | @op p ans pr e k env hp hprog hx =>
      have hph := serves_phase hserves hp
      have hnext : Pending op ((s₁.world, (exec s₁.world e env).1) :: ws)
          (⟨e, (exec s₁.world e env).2⟩ :: pr.log) :=
        (ih.2 pr hp).asked hreach hp hph hprog
      refine ⟨?_, ?_⟩
      · rcases hnext with ⟨hstill, -⟩ | ⟨hacc, -⟩
        · exact Or.inl hstill
        · exact Or.inr hacc
      · intro pr' hp'
        rw [Sys.put_procs_self] at hp'
        obtain rfl := Option.some.inj hp'
        exact hnext
    | @again p ans pr st hp hprog => cases st
    | done hp hprog =>
      refine ⟨still_or_accepted ih.1, ?_⟩
      intro pr' hp'
      rw [Sys.put_procs_self] at hp'
      cases hp'
    | raised hp hprog =>
      refine ⟨still_or_accepted ih.1, ?_⟩
      intro pr' hp'
      rw [Sys.put_procs_self] at hp'
      cases hp'
  | @other ws s₁ s₂ a hserves ha hc happ ih =>
    refine ⟨ih.1, ?_⟩
    intro pr hp
    rw [(Machine.apply_inv happ).procs_ne ha] at hp
    exact ih.2 pr hp

/-- In every run, whatever the interleaving: the steps of an operation's
call have done nothing so far, or it has been accepted in one of them and
the others have done nothing; and when it returns, it has taken effect at
one moment since it was made, with the answer it returns. -/
theorem linearized (hs : machine.Reach Initial cond s₀)
    (hserves : machine.Serves cond p op.call s₀ ws s) :
    (Still (fun w => w.db.shelf) ws ∨ Accepted op ws) ∧
      ∀ o, s.Returns p o → LinearAt op o (ws ++ [(s₀.world, s₀.world)]) :=
  ⟨(pending_of_serves hs hserves).1,
    fun _ hret => linear_of_returns hs hserves hret⟩

end Runs

/-- Another process moves the run on between a checkpoint's check and its
transaction: the checkpoint is refused there. -/
theorem linearized_overtaken :
    ∃ s₀ ws s, machine.Reach Initial (fun _ _ => True) s₀ ∧
      machine.Serves (fun _ _ => True) false
        (Op.checkpoint "acme" "run" 1 ⟨"mine", by decide⟩).call s₀ ws s ∧
      (s : State Bool).Returns false (.run (.fail staleWrite)) ∧
      LinearAt (Op.checkpoint "acme" "run" 1 ⟨"mine", by decide⟩)
        (.run (.fail staleWrite)) (ws ++ [(s₀.world, s₀.world)]) := by
  obtain ⟨s₀, ws, s, hs₀, hserves, htest⟩ := serves_of_plays
    (fun _ _ => true) (fun _ _ _ => trivial) opening false
    (.writeCheckpoint (.text "acme") "run" 1 "mine" none)
    (steps false [.auto, .time "t2"] ++
      calling true (.transitionStage (.text "acme") "run" 1 "research")
        [.auto, .time "t3", .id "entry2", .auto, .auto] ++
      steps false [.auto])
    (fun x => x.2.2.returned false = some (.run (.fail staleWrite)))
    (by decide +kernel)
  have hret := Sys.returns_of_returned (of_decide_eq_true htest)
  have hserves' : machine.Serves (fun _ _ => True) false
      (Op.checkpoint "acme" "run" 1 ⟨"mine", by decide⟩).call s₀ ws s :=
    hserves
  exact ⟨s₀, ws, s, hs₀, hserves', hret,
    (linearized hs₀ hserves').2 _ hret⟩

-- ==== histories

/-- Only the calls of a run's owner are made. -/
def OwnersOnly {Pid : Type} (_ : State Pid) : Act Pid → Prop
  | .call _ c => ∃ op : Op, op.call = c
  | _ => True

/-- The run an operation is on. A new run has the id that was drawn. -/
def Op.target (runId : String) : Op → String
  | create .. => runId
  | get _ id => id
  | transition _ id .. => id
  | append _ id .. => id
  | checkpoint _ id .. => id

/-- An operation with the ids drawn for it. -/
abbrev Drawn : Type := Op × String × String

/-- The operation is accepted, and is not a read. -/
structure Performs (m : Shelf) (x : Drawn) (m' : Shelf) : Prop where
  effect : m' = (x.1.apply m x.2.1 x.2.2).1
  accepted : (x.1.apply m x.2.1 x.2.2).2.isOk = true
  fresh : x.1.Fresh m x.2.1
  writes : ∀ r, (x.1.apply m x.2.1 x.2.2).2 ≠ .seen r

section Counting

variable {m m' : Shelf} {id : String}

/-- A row was changed and its version went up by one. -/
def Bumped (m m' : Shelf) (id : String) : Prop :=
  ∃ row, m' = Function.update m id (some row) ∧
    row.version = ((m id).map (·.version)).getD 0 + 1

/-- An operation that refuses or goes to the next version, once it was
accepted, has bumped the row. -/
theorem bumped_of_on {α : Type} {f : Run String → Run String × Result α}
    (hf : ∀ row, row.Refused (f row) ∨ (f row).1.version = row.version + 1)
    (hnobody : Run.nobody.Refused (f Run.nobody)) {a : α}
    (hok : (m.on id f).2 = .ok a) : Bumped m (m.on id f).1 id := by
  cases hrow : m id with
  | none =>
    simp only [Shelf.on, hrow] at hok
    exact absurd hok (hnobody.2 a)
  | some row =>
    rw [on_of_some hrow] at hok ⊢
    rcases hf row with hrefused | hversion
    · exact absurd hok (hrefused.2 a)
    · refine ⟨(f row).1, rfl, ?_⟩
      simp [hrow, hversion]

theorem refused_unseen {α : Type} {row : Run String}
    {f : Run String → Run String × Result α}
    (h : f row = (row, .empty)) : row.Refused (f row) := by
  rw [h]
  exact ⟨rfl, nofun⟩

theorem appendAttempt_nobody (t id : String) (v : Nat) (reason : String)
    (start : Stage) (trace attemptId : String) :
    Run.nobody.Refused
      (Run.nobody.appendAttempt t id v reason start trace attemptId) := by
  by_cases hreason : reason ∈ validReasons
  · by_cases htrace : trace = ""
    · have hop : Run.nobody.appendAttempt t id v reason start trace
          attemptId = (Run.nobody, invalid "trace_id is required") :=
        (if_neg (reason_ok hreason)).trans (if_pos htrace)
      rw [hop]
      exact ⟨rfl, nofun⟩
    · exact refused_unseen (f := fun row =>
        row.appendAttempt t id v reason start trace attemptId)
        (appendAttempt_unseen hreason htrace (nobody_unseen t id))
  · have hop : Run.nobody.appendAttempt t id v reason start trace
        attemptId = (Run.nobody, invalid _) := if_pos hreason
    rw [hop]
    exact ⟨rfl, nofun⟩

theorem isOk_row {a : Result (Run String)}
    (h : (Op.Reply.row a).isOk = true) : ∃ row, a = .ok row := by
  cases a with
  | ok row => exact ⟨row, rfl⟩
  | empty => cases h
  | fail e => cases h

theorem isOk_attempt {a : Result String}
    (h : (Op.Reply.attempt a).isOk = true) : ∃ id, a = .ok id := by
  cases a with
  | ok id => exact ⟨id, rfl⟩
  | empty => cases h
  | fail e => cases h

theorem Performs.bumped {x : Drawn} (h : Performs m x m') :
    Bumped m m' (x.1.target x.2.1) := by
  obtain ⟨op, runId, attemptId⟩ := x
  obtain ⟨rfl, hok, hfresh, hwrites⟩ := h
  cases op with
  | create t key repo branch cls trace worktree =>
    simp only [Op.apply] at hok ⊢
    split at hok
    · next row hrow =>
      refine ⟨row, rfl, ?_⟩
      have hfree : m runId = none := hfresh
      rw [createRun_ok hrow]
      simp [Op.target, hfree]
    · next hrefused =>
      obtain ⟨row, hrow⟩ := isOk_row hok
      exact absurd hrow (hrefused row)
  | get t id => exact absurd rfl (hwrites _)
  | transition t id v next =>
    obtain ⟨row, hrow⟩ := isOk_row hok
    refine bumped_of_on (fun row => ?_) ?_ hrow
    · rcases row.transitionStage_inv t id v next with h | ⟨-, -, h⟩
      · exact Or.inl h
      · exact Or.inr (by rw [h])
    · exact refused_unseen (f := fun row => row.transitionStage t id v next)
        (transitionStage_unseen (nobody_unseen t id))
  | append t id v reason start trace =>
    obtain ⟨a, ha⟩ := isOk_attempt hok
    refine bumped_of_on (fun row => ?_) ?_ ha
    · rcases row.appendAttempt_inv t id v reason start trace attemptId with
        h | ⟨-, -, h⟩
      · exact Or.inl h
      · exact Or.inr (by rw [h])
    · exact appendAttempt_nobody t id v reason start trace attemptId
  | checkpoint t id v pointer =>
    obtain ⟨row, hrow⟩ := isOk_row hok
    refine bumped_of_on (fun row => ?_) ?_ hrow
    · rcases row.writeCheckpoint_inv t id v pointer.val with h | ⟨-, h⟩
      · exact Or.inl h
      · exact Or.inr (by rw [h])
    · exact refused_unseen
        (f := fun row => row.writeCheckpoint t id v pointer.val)
        (writeCheckpoint_unseen (nobody_unseen t id))

theorem versions_counted {ops : List Drawn}
    (h : Plays Performs (fun _ => none) ops m) (id : String) :
    ((m id).map (·.version)).getD 0 =
      ops.countP fun x => x.1.target x.2.1 = id := by
  induction h with
  | nil => rfl
  | @snoc b c ops x hplays hop ih =>
    obtain ⟨row, rfl, hversion⟩ := hop.bumped
    rw [List.countP_append, ← ih]
    by_cases hid : x.1.target x.2.1 = id
    · subst hid
      simp [hversion]
    · rw [Function.update_of_ne fun h => hid h.symm]
      simp [hid]

end Counting

section Histories

variable {Pid : Type} [DecidableEq Pid] {s s' : State Pid}

theorem reach_owned (hs : machine.Reach Initial OwnersOnly s) :
    ∀ p pr, s.procs p = some pr → ∃ op : Op, pr.phase = .entry op.call := by
  induction hs with
  | init hw =>
    intro p pr hp
    cases hp
  | @step s₁ s₂ a hs hc happ ih =>
    intro q pr hq
    have hstep := Machine.apply_inv happ
    by_cases hne : a.pid = q
    · subst hne
      cases hstep with
      | call hnone =>
        obtain ⟨op, rfl⟩ := hc
        simp only [Action.pid, Sys.put_procs_self] at hq
        obtain rfl := Option.some.inj hq
        exact ⟨op, rfl⟩
      | op hp hprog hx =>
        simp only [Action.pid, Sys.put_procs_self] at hq
        obtain rfl := Option.some.inj hq
        have howned := ih _ _ hp
        exact howned
      | @again p ans pr st hp hprog => cases st
      | done hp hprog => simp [Action.pid] at hq
      | raised hp hprog => simp [Action.pid] at hq
      | crash hp => simp [Action.pid] at hq
    · rw [hstep.procs_ne hne] at hq
      exact ih q pr hq

theorem Op.Done.performs {op : Op} {txn : Txn} {db db' : Db}
    (h : op.Done txn db db') :
    Performs db.shelf (op, Txn.newRun txn, Txn.newAttempt txn) db'.shelf where
  effect := h.shelf
  accepted := by
    rcases h.reply with ⟨r, -, -, hreply⟩ | hreply
    · simp only [hreply, Op.Reply.isOk]
    · simp only [hreply, Op.Reply.isOk]
  fresh := h.fresh
  writes := by
    intro a ha
    rcases h.reply with ⟨r, -, -, hreply⟩ | hreply
    · rw [hreply] at ha
      cases ha
    · rw [hreply] at ha
      cases ha

theorem shelf_step (hs : machine.Reach Initial OwnersOnly s) {a : Act Pid}
    (happ : machine.apply a s = some s') :
    s'.world.db.shelf = s.world.db.shelf ∨
      ∃ x, Performs s.world.db.shelf x s'.world.db.shelf := by
  cases Machine.apply_inv happ with
  | @op p ans pr e k env hp hprog hx =>
    rcases exec_inv s.world e env with hsame | ⟨txn, rfl, hc, hworld⟩
    · exact Or.inl (congrArg (fun w => w.db.shelf) hsame)
    · obtain ⟨op, hph⟩ := reach_owned hs p pr hp
      obtain ⟨hmakes, hfits, -⟩ := reach_aims hs hp hph hprog
      have hcommits : s.world.db.Commits txn
          (exec s.world (.transact txn) env).1.db := by
        rw [hworld]
        exact Db.transact_committed hc
      exact Or.inr ⟨_, (reach_done hs hp hmakes hfits hcommits).performs⟩
  | _ => exact Or.inl rfl

/-- Whatever the interleaving, the rows are those of one operation after
another, each accepted in its turn, and a run's version is the number of
those on it. -/
theorem shelf_history (hs : machine.Reach Initial OwnersOnly s) :
    ∃ ops, Plays Performs (fun _ => none) ops s.world.db.shelf ∧
      ∀ r ∈ s.world.db.runs, r.version =
        (ops.countP fun x : Drawn => x.1.target x.2.1 = r.id : Nat) := by
  have hinit : ∀ w, Initial w → w.db.shelf = fun _ => none := by
    intro w hw
    rw [show w = ⟨.empty, []⟩ from hw]
    rfl
  obtain ⟨ops, hplays⟩ := hs.history hinit
    (fun hs _ happ => shelf_step hs happ)
  refine ⟨ops, hplays, ?_⟩
  intro r hr
  have hcount := versions_counted hplays r.id
  rw [shelf_of_mem (reach_keyed hs) hr] at hcount
  have hpos := reach_positive hs r hr
  have hrun : r.version.toNat = _ := hcount
  omega

end Histories

/-- The calls of a script are among these operations'. -/
def owners (ops : List Op) (_ : State Bool) : Act Bool → Bool
  | .call _ c => ops.any fun op => op.call = c
  | _ => true

theorem owners_only (ops : List Op) (s : State Bool) (a : Act Bool)
    (h : owners ops s a = true) : OwnersOnly s a := by
  cases a with
  | call p c =>
    obtain ⟨op, -, hop⟩ := List.any_eq_true.1 h
    exact ⟨op, of_decide_eq_true hop⟩
  | step p ans => trivial
  | crash p => trivial

/-- Two processes move a fresh run on, one after the other's read. -/
theorem shelf_history_raced :
    ∃ (s : State Bool) (r : RunRow) (ops : List Drawn),
      machine.Reach Initial OwnersOnly s ∧ r ∈ s.world.db.runs ∧
      r.version = 2 ∧ Plays Performs (fun _ => none) ops s.world.db.shelf ∧
      r.version =
        (ops.countP fun x : Drawn => x.1.target x.2.1 = r.id : Nat) := by
  obtain ⟨s, hs, htest⟩ := reach_of_plays
    (owners [.create "acme" "KEY-1" "repo" "branch" "spot" "trace" none,
      .checkpoint "acme" "run" 1 ⟨"mine", by decide⟩,
      .transition "acme" "run" 1 .research])
    (owners_only _)
    (opening ++
      .call true (.writeCheckpoint (.text "acme") "run" 1 "mine" none) ::
      steps true [.auto] ++
      calling false (.transitionStage (.text "acme") "run" 1 "research")
        [.auto, .time "t2", .id "entry2", .auto, .auto] ++
      steps true [.time "t3", .auto, .auto])
    (fun s => s.world.db.runs.any (·.version = 2)) (by decide +kernel)
  obtain ⟨r, hr, hversion⟩ := List.any_eq_true.1 htest
  obtain ⟨ops, hplays, hcount⟩ := shelf_history hs
  exact ⟨s, r, ops, hs, hr, of_decide_eq_true hversion, hplays, hcount r hr⟩

end Service

end SdlcOs.Registry
