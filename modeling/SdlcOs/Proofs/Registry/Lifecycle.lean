/-
The life of a run, in every database the service can produce.

# One open row

`Consistent` ties the three tables together: the last row of a run's
history is the open one and is what the run's row says, its attempts are
numbered in order and all but the current one are sealed, every row is of
the run's tenant, and the history is a walk from intake along legal edges
or to the same stage in a new attempt. Every transaction keeps it
(`consistent_inductive`), so it holds of every run in every reachable
database (`store_consistent`).

# Gates

The two human gates dominate what comes after them in the graph of legal
edges, and staying at a stage does not leave a region, so the walk alone
gives the order of the entries (`gates_dominate`).

# Where the rules of the vocabulary are not enforced

- `append_attempt` may start an attempt at a terminal stage, which leaves
  it open, and may do so on a run that has ended. Without such attempts an
  ended run is sealed for good (`terminal_sealed`).
- `transition_stage` may go back from the plan approval gate to plan
  authoring in the same attempt. Without such transitions every re-plan
  has an attempt of its own (`replans_separate`).
-/
import SdlcOs.Graph.Chain
import SdlcOs.Proofs.Registry.Versions
import SdlcOs.Proofs.Registry.Views

namespace SdlcOs.Registry

open Effects

namespace Service

-- ==== walks

/-- What the history of a run visits: stages, each in an attempt. -/
def visits (history : List HistoryRow) : List (Stage × String) :=
  history.map fun h => (h.stage, h.attemptId)

/-- A walk from intake: along legal edges, or to the same stage in an
attempt that was not there before. -/
inductive Walk : List (Stage × String) → Prop
  | start (attemptId : String) : Walk [(.intake, attemptId)]
  | step {past : List (Stage × String)} {stage next : Stage}
      {attemptId attemptId' : String}
      (hpast : Walk (past ++ [(stage, attemptId)]))
      (hedge : stage.isLegalTransition next = true ∨
        next = stage ∧
          ∀ x ∈ past ++ [(stage, attemptId)], x.2 ≠ attemptId') :
      Walk (past ++ [(stage, attemptId)] ++ [(next, attemptId')])

theorem visits_extended (history : List HistoryRow)
    (runId tenantId ts : String) (new : HistoryRow) :
    visits (history.map (HistoryRow.close runId tenantId ts) ++ [new]) =
      visits history ++ [(new.stage, new.attemptId)] := by
  unfold visits
  rw [List.map_append, List.map_map]
  congr 1
  refine List.map_congr_left fun h _ => ?_
  simp

-- ==== consistency

/-- The last row of the history is the open one, and the run's row agrees
with it. -/
def OpenLast (v : View) : Prop :=
  ∃ past h, v.history = past ++ [h] ∧ (∀ g ∈ past, g.exitedAt ≠ none) ∧
    h.exitedAt = none ∧ h.stage = v.row.stage ∧
    v.row.currentAttemptId = some h.attemptId

/-- The tables agree on a run. -/
structure Consistent (v : View) : Prop where
  openLast : OpenLast v
  runIds : ∀ h ∈ v.history, h.runId = v.row.id
  attemptTenants : ∀ a ∈ v.attempts, a.tenantId = v.row.tenantId
  historyTenants : ∀ h ∈ v.history, h.tenantId = v.row.tenantId
  numbered : v.attempts.map (·.attemptNumber) =
    List.range' 1 v.attempts.length
  closed : ∀ a ∈ v.attempts, v.row.currentAttemptId ≠ some a.id →
    a.endTs ≠ none
  walk : Walk (visits v.history)

theorem consistent_created {row : RunRow} {attemptId entryId : String}
    (hstage : row.stage = .intake) :
    Consistent (View.created row attemptId entryId) where
  openLast := ⟨[], _, rfl, by simp, rfl, hstage.symm, rfl⟩
  runIds := by
    intro h hh
    obtain rfl := List.mem_singleton.1 hh
    rfl
  attemptTenants := by
    intro a ha
    obtain rfl := List.mem_singleton.1 ha
    rfl
  historyTenants := by
    intro h hh
    obtain rfl := List.mem_singleton.1 hh
    rfl
  numbered := rfl
  closed := by
    intro a ha hne
    obtain rfl := List.mem_singleton.1 ha
    exact absurd rfl hne
  walk := .start attemptId

theorem close_exited {runId tenantId ts : String} {h : HistoryRow}
    (hrun : h.runId = runId) (htenant : h.tenantId = tenantId) :
    (h.close runId tenantId ts).exitedAt ≠ none := by
  unfold HistoryRow.close
  split
  · exact Option.some_ne_none _
  · next hopen => exact fun hnone => hopen ⟨hrun, htenant, hnone⟩

theorem close_ended {attemptId tenantId ts : String} {a : AttemptRow}
    (hid : a.id = attemptId) (htenant : a.tenantId = tenantId) :
    (a.close attemptId tenantId ts).endTs ≠ none := by
  unfold AttemptRow.close
  split
  · exact Option.some_ne_none _
  · next hopen => exact fun hnone => hopen ⟨hid, htenant, hnone⟩

theorem close_ended_kept {attemptId tenantId ts : String} {a : AttemptRow}
    (h : a.endTs ≠ none) : (a.close attemptId tenantId ts).endTs ≠ none := by
  unfold AttemptRow.close
  split
  · exact Option.some_ne_none _
  · exact h

section Steps

variable {v : View} {current ts : String}

theorem Consistent.history_exited (hv : Consistent v) :
    ∀ g ∈ v.history.map (HistoryRow.close v.row.id v.row.tenantId ts),
      g.exitedAt ≠ none := by
  intro g hg
  obtain ⟨h, hh, rfl⟩ := List.mem_map.1 hg
  exact close_exited (hv.runIds h hh) (hv.historyTenants h hh)

theorem Consistent.walk_on (hv : Consistent v) {next : Stage}
    {attemptId : String}
    (hedge : v.row.stage.isLegalTransition next = true ∨
      next = v.row.stage ∧ ∀ x ∈ visits v.history, x.2 ≠ attemptId) :
    Walk (visits v.history ++ [(next, attemptId)]) := by
  obtain ⟨past, h, hhistory, _, _, hstage, _⟩ := hv.openLast
  have hwalk := hv.walk
  rw [hhistory] at hwalk hedge ⊢
  unfold visits at hwalk hedge ⊢
  rw [List.map_append] at hwalk hedge ⊢
  rw [← hstage] at hedge
  exact .step hwalk hedge

theorem Consistent.count (hv : Consistent v) :
    v.attempts.countP (·.tenantId = v.row.tenantId) = v.attempts.length := by
  refine List.countP_eq_length.2 fun a ha => ?_
  simpa using hv.attemptTenants a ha

theorem numbers_closed (l : List AttemptRow) (tenantId : String) :
    (l.map (AttemptRow.close current tenantId ts)).map (·.attemptNumber) =
      l.map (·.attemptNumber) := by
  rw [List.map_map]
  refine List.map_congr_left fun a _ => ?_
  simp

theorem Consistent.attempts_ended (hv : Consistent v)
    (hcurrent : v.row.currentAttemptId = some current) :
    ∀ a ∈ v.attempts.map (AttemptRow.close current v.row.tenantId ts),
      a.endTs ≠ none := by
  intro a ha
  obtain ⟨b, hb, rfl⟩ := List.mem_map.1 ha
  by_cases hid : b.id = current
  · exact close_ended hid (hv.attemptTenants b hb)
  · refine close_ended_kept (hv.closed b hb ?_)
    rw [hcurrent]
    exact fun heq => hid (Option.some.inj heq).symm

/-- What the history of a run is extended by is of the run, so all of it
is. -/
theorem Consistent.history_own (hv : Consistent v) {new : HistoryRow}
    (hrun : new.runId = v.row.id) (htenant : new.tenantId = v.row.tenantId) :
    ∀ h ∈ v.history.map (HistoryRow.close v.row.id v.row.tenantId ts) ++
      [new], h.runId = v.row.id ∧ h.tenantId = v.row.tenantId := by
  intro h hh
  rcases List.mem_append.1 hh with hold | hnew
  · obtain ⟨g, hg, rfl⟩ := List.mem_map.1 hold
    rw [HistoryRow.close_runId, HistoryRow.close_tenantId]
    exact ⟨hv.runIds g hg, hv.historyTenants g hg⟩
  · obtain rfl := List.mem_singleton.1 hnew
    exact ⟨hrun, htenant⟩

theorem Consistent.tenants_closed (hv : Consistent v) :
    ∀ a ∈ v.attempts.map (AttemptRow.close current v.row.tenantId ts),
      a.tenantId = v.row.tenantId := by
  intro a ha
  obtain ⟨b, hb, rfl⟩ := List.mem_map.1 ha
  rw [AttemptRow.close_tenantId]
  exact hv.attemptTenants b hb

theorem Consistent.appended (hv : Consistent v)
    (hcurrent : v.row.currentAttemptId = some current) {reason : String}
    {start : Stage} {trace attemptId entryId : String}
    (hstage : start = v.row.stage ∨
      v.row.stage.isLegalTransition start = true)
    (hentry : ∀ h ∈ v.history, h.attemptId ≠ attemptId) :
    Consistent
      (v.appended current reason start trace ts attemptId entryId) where
  openLast := ⟨_, _, rfl, hv.history_exited, rfl, rfl, rfl⟩
  runIds := fun h hh => (hv.history_own rfl rfl h hh).1
  historyTenants := fun h hh => (hv.history_own rfl rfl h hh).2
  attemptTenants := by
    intro a ha
    rcases List.mem_append.1 ha with hold | hnew
    · exact hv.tenants_closed a hold
    · obtain rfl := List.mem_singleton.1 hnew
      rfl
  numbered := by
    unfold View.appended
    rw [List.map_append, numbers_closed, hv.numbered, List.length_append,
      List.length_map, hv.count]
    simp [List.range'_1_concat, Nat.add_comm]
  closed := by
    intro a ha hne
    rcases List.mem_append.1 ha with hold | hnew
    · exact hv.attempts_ended hcurrent a hold
    · obtain rfl := List.mem_singleton.1 hnew
      exact absurd rfl hne
  walk := by
    unfold View.appended
    rw [visits_extended]
    refine hv.walk_on ?_
    rcases hstage with hsame | hlegal
    · refine Or.inr ⟨hsame, ?_⟩
      intro x hx
      obtain ⟨h, hh, rfl⟩ := List.mem_map.1 hx
      exact hentry h hh
    · exact Or.inl hlegal

theorem Consistent.transitioned (hv : Consistent v)
    (hcurrent : v.row.currentAttemptId = some current) {next : Stage}
    {entryId : String} (hlegal : v.row.stage.isLegalTransition next = true) :
    Consistent (v.transitioned current next ts entryId) where
  openLast := ⟨_, _, rfl, hv.history_exited, rfl, rfl, hcurrent⟩
  runIds := fun h hh => (hv.history_own rfl rfl h hh).1
  historyTenants := fun h hh => (hv.history_own rfl rfl h hh).2
  attemptTenants := by
    unfold View.transitioned
    split
    · exact hv.tenants_closed
    · exact hv.attemptTenants
  numbered := by
    unfold View.transitioned
    split
    · rw [numbers_closed, List.length_map]
      exact hv.numbered
    · exact hv.numbered
  closed := by
    unfold View.transitioned
    split
    · exact fun a ha _ => hv.attempts_ended hcurrent a ha
    · exact hv.closed
  walk := by
    unfold View.transitioned
    rw [visits_extended]
    exact hv.walk_on (Or.inl hlegal)

theorem Consistent.wrote (hv : Consistent v) {fields : Fields}
    (hstage : fields.stage = none)
    (hcurrent : fields.currentAttemptId = none) :
    Consistent { v with row := v.row.set fields ts } := by
  have hsame : (v.row.set fields ts).stage = v.row.stage ∧
      (v.row.set fields ts).currentAttemptId = v.row.currentAttemptId := by
    simp [RunRow.set, hstage, hcurrent]
  obtain ⟨past, h, hhistory, hexited, hopen, hst, hcur⟩ := hv.openLast
  refine ⟨⟨past, h, hhistory, hexited, hopen, ?_, ?_⟩, hv.runIds,
    hv.attemptTenants, hv.historyTenants, hv.numbered, ?_, hv.walk⟩
  · exact hst.trans hsame.1.symm
  · exact hsame.2.trans hcur
  · intro a ha hne
    refine hv.closed a ha ?_
    rw [← hsame.2]
    exact hne

end Steps

/-- Every committed transaction keeps the tables consistent. -/
theorem consistent_inductive (bad : RunRow → Txn → Prop) :
    Inductive bad Consistent where
  created := consistent_created
  step := by
    intro v v' txn hv hstep _
    cases hstep with
    | other hid => exact hv
    | append hcurrent hstage hattempt hentry =>
      exact hv.appended hcurrent hstage hentry
    | transition hcurrent hlegal => exact hv.transitioned hcurrent hlegal
    | write hstage hcurrent => exact hv.wrote hstage hcurrent

theorem OpenLast.filter {v : View} (h : OpenLast v) :
    ∃ e, v.history.filter (·.exitedAt = none) = [e] ∧
      e.stage = v.row.stage ∧ v.row.currentAttemptId = some e.attemptId := by
  obtain ⟨past, e, hhistory, hexited, hopen, hstage, hcurrent⟩ := h
  refine ⟨e, ?_, hstage, hcurrent⟩
  have hpast : past.filter (·.exitedAt = none) = [] := by
    refine List.filter_eq_nil_iff.2 fun g hg => ?_
    simpa using hexited g hg
  rw [hhistory, List.filter_append, hpast]
  simp [hopen]

section Runs

variable {Pid : Type} [DecidableEq Pid] {s : State Pid} {r : RunRow}

/-- In every reachable database the tables agree on every run: one open
history row, that of the run's stage and current attempt; attempts
numbered from one, all but the current one sealed; one tenant; and a
history that is a walk from intake. -/
theorem store_consistent (hs : machine.Reach Initial (fun _ _ => True) s)
    (hr : r ∈ s.world.db.runs) :
    let attempts := s.world.db.attempts.filter (·.runId = r.id)
    let history := s.world.db.stageHistory.filter (·.runId = r.id)
    (∃ e, history.filter (·.exitedAt = none) = [e] ∧ e.stage = r.stage ∧
      r.currentAttemptId = some e.attemptId) ∧
    attempts.map (·.attemptNumber) = List.range' 1 attempts.length ∧
    (∀ a ∈ attempts, r.currentAttemptId ≠ some a.id → a.endTs ≠ none) ∧
    (∀ a ∈ attempts, a.tenantId = r.tenantId) ∧
    (∀ e ∈ history, e.tenantId = r.tenantId) ∧
    Walk (visits history) := by
  have hv : Consistent (view s.world.db r) :=
    reach_view (consistent_inductive fun _ _ => False)
      (hs.mono fun _ a _ => without_named a) hr
  exact ⟨hv.openLast.filter, hv.numbered, hv.closed, hv.attemptTenants,
    hv.historyTenants, hv.walk⟩

end Runs

/-- A run that has been created, and has had a second attempt. -/
theorem store_consistent_retry :
    ∃ (s : State Bool) (r : RunRow),
      machine.Reach Initial (fun _ _ => True) s ∧ r ∈ s.world.db.runs ∧
      r.version = 2 ∧
      Walk (visits (s.world.db.stageHistory.filter (·.runId = r.id))) := by
  obtain ⟨s, hs, htest⟩ := reach_of_plays (fun _ _ => true)
    (fun _ _ _ => trivial)
    (opening ++ calling true
      (.appendAttempt (.text "acme") "run" 1 "retry" "intake" "trace")
      [.auto, .time "t2", .id "second", .id "again", .auto, .auto])
    (fun s => s.world.db.runs.any (·.version = 2)) (by decide +kernel)
  obtain ⟨r, hr, hv⟩ := List.any_eq_true.1 htest
  obtain ⟨_, _, _, _, _, hwalk⟩ := store_consistent hs hr
  exact ⟨s, r, hs, hr, of_decide_eq_true hv, hwalk⟩

-- ==== gates

/-- A step of a run's stage: a legal edge, or none. -/
def Edge (x y : Stage) : Prop := x.isLegalTransition y = true ∨ y = x

instance (x y : Stage) : Decidable (Edge x y) :=
  inferInstanceAs (Decidable (_ ∨ _))

theorem walk_stages {l : List (Stage × String)} (h : Walk l) :
    (l.map Prod.fst).head? = some .intake ∧
      (l.map Prod.fst).IsChain Edge := by
  induction h with
  | start attemptId => exact ⟨rfl, List.isChain_singleton _⟩
  | @step past stage next attemptId attemptId' hpast hedge ih =>
    obtain ⟨hstart, hchain⟩ := ih
    rw [List.map_append]
    refine ⟨by rw [List.head?_append, hstart]; rfl, ?_⟩
    rw [List.map_append] at hchain ⊢
    refine Graph.chain_concat hchain ?_
    rcases hedge with hlegal | ⟨hsame, _⟩
    · exact Or.inl hlegal
    · exact Or.inr hsame

/-- The stages before the plan is first approved. -/
def unapproved : List Stage :=
  [.intake, .research, .planAuthoring, .abandoned]

/-- The stages before the first implementation. -/
def unimplemented : List Stage := .planApprovalGate :: unapproved

/-- The stages before the first verification. -/
def unverified : List Stage := .implementation :: unimplemented

/-- The stages from a verification to its review. -/
def unreviewed : List Stage := [.verification, .implementation, .abandoned]

/-- The stages behind the change review gate. -/
def reviewed : List Stage := [.packaging, .retrospective, .completed]

/-- No edge leaves a region but into one of its gates. -/
def Encloses (region gates : List Stage) : Prop :=
  ∀ x ∈ region, ∀ y ∈ x :: x.legalTransitions, y ∈ region ∨ y ∈ gates

instance (region gates : List Stage) : Decidable (Encloses region gates) :=
  inferInstanceAs (Decidable (∀ x ∈ region, _))

theorem Encloses.guarded {region gates : List Stage}
    (h : Encloses region gates) :
    Graph.Guarded Edge (· ∈ region) (· ∈ gates) := by
  intro x y hx hxy
  refine h x hx y ?_
  rcases hxy with hlegal | hsame
  · exact List.mem_cons_of_mem _ (of_decide_eq_true hlegal)
  · rw [hsame]
    exact List.mem_cons_self

/-- A walk of stages from intake to where a run stands. -/
structure Route (l : List Stage) (last : Stage) : Prop where
  chain : l.IsChain Edge
  start : l.head? = some .intake
  finish : l.getLast? = some last

theorem Route.cons {l : List Stage} {last : Stage} (h : Route l last) :
    ∃ rest, l = .intake :: rest := by
  cases l with
  | nil => cases h.start
  | cons x rest =>
    obtain rfl : x = .intake := Option.some.inj h.start
    exact ⟨rest, rfl⟩

theorem Route.exits {l : List Stage} {last : Stage} (h : Route l last)
    {region gates : List Stage} (hregion : Encloses region gates)
    (hin : .intake ∈ region) (hout : last ∉ region) :
    ∃ g ∈ l, g ∈ gates := by
  obtain ⟨rest, rfl⟩ := h.cons
  obtain ⟨g, hg, hgate⟩ :=
    Graph.chain_exits hregion.guarded h.chain hin h.finish hout
  exact ⟨g, List.mem_cons_of_mem _ hg, hgate⟩

theorem Route.approved {l : List Stage} {last : Stage} (h : Route l last)
    (hlast : last ∈ reviewed) :
    ∃ pre post, l = pre ++ .implementation :: post ∧
      .implementation ∉ pre ∧ .planApprovalGate ∈ pre := by
  have hregion : Encloses unimplemented [.implementation] := by decide
  have hout : last ∉ unimplemented := by
    revert hlast
    cases last <;> decide
  obtain ⟨g, himpl, hg⟩ := h.exits hregion (by decide) hout
  obtain rfl := List.mem_singleton.1 hg
  obtain ⟨pre, post, rfl, hfirst⟩ := List.eq_append_cons_of_mem himpl
  refine ⟨pre, post, rfl, hfirst, ?_⟩
  have hgates : Encloses unapproved [.planApprovalGate] := by decide
  cases pre with
  | nil => cases h.start
  | cons x pre =>
    obtain rfl : x = .intake := Option.some.inj h.start
    obtain ⟨g, hmem, hg⟩ := Graph.chain_meets hgates.guarded h.chain
      (by decide) (by decide) (by decide)
    obtain rfl := List.mem_singleton.1 hg
    exact List.mem_cons_of_mem _ hmem

theorem Route.verified {l : List Stage} {last : Stage} (h : Route l last)
    (hlast : last ∈ reviewed) :
    ∃ pre post, l = pre ++ .verification :: post ∧
      .verification ∉ post ∧ .changeReviewGate ∈ post := by
  have hregion : Encloses unverified [.verification] := by decide
  have hout : last ∉ unverified ∧ last ∉ unreviewed := by
    revert hlast
    cases last <;> decide
  obtain ⟨g, hverif, hg⟩ := h.exits hregion (by decide) hout.1
  obtain rfl := List.mem_singleton.1 hg
  obtain ⟨pre, post, rfl, hafter⟩ := Graph.exists_last hverif
  refine ⟨pre, post, rfl, hafter, ?_⟩
  have hgates : Encloses unreviewed [.changeReviewGate] := by decide
  have hfinish : (Stage.verification :: post).getLast? = some last := by
    have hlast := h.finish
    rw [List.getLast?_append] at hlast
    cases post with
    | nil => exact hlast
    | cons y post => exact hlast
  obtain ⟨g, hmem, hg⟩ := Graph.chain_exits hgates.guarded
    h.chain.right_of_append (by decide) hfinish hout.2
  obtain rfl := List.mem_singleton.1 hg
  exact hmem

/-- Between a plan and the next implementation there is a plan
approval. -/
theorem Route.replanned {l : List Stage} {last : Stage} (h : Route l last)
    {pre mid post : List Stage}
    (hl : l = pre ++ .planAuthoring :: (mid ++ .implementation :: post)) :
    .planApprovalGate ∈ mid := by
  have hgates : Encloses [.planAuthoring, .abandoned] [.planApprovalGate] := by
    decide
  have hchain := h.chain
  rw [hl] at hchain
  obtain ⟨g, hmem, hg⟩ := Graph.chain_meets hgates.guarded
    hchain.right_of_append (by decide) (by decide) (by decide)
  obtain rfl := List.mem_singleton.1 hg
  exact hmem

theorem Consistent.route {v : View} (hv : Consistent v) :
    Route (v.history.map (·.stage)) v.row.stage := by
  have hstages : (visits v.history).map Prod.fst =
      v.history.map (·.stage) := by
    unfold visits
    rw [List.map_map]
    rfl
  obtain ⟨hstart, hchain⟩ := walk_stages hv.walk
  rw [hstages] at hstart hchain
  refine ⟨hchain, hstart, ?_⟩
  obtain ⟨past, h, hhistory, _, _, hstage, _⟩ := hv.openLast
  rw [hhistory, ← hstage]
  simp

section Runs

variable {Pid : Type} [DecidableEq Pid] {s : State Pid} {r : RunRow}

/-- In every reachable database, the history of a run that is behind the
change review gate has a change review after its last verification and a
plan approval before its first implementation; and in the history of any
run there is a plan approval between a plan and the next
implementation. -/
theorem gates_dominate (hs : machine.Reach Initial (fun _ _ => True) s)
    (hr : r ∈ s.world.db.runs) :
    let stages := (s.world.db.stageHistory.filter (·.runId = r.id)).map
      (·.stage)
    (r.stage ∈ [.packaging, .retrospective, .completed] →
      (∃ pre post, stages = pre ++ .verification :: post ∧
        .verification ∉ post ∧ .changeReviewGate ∈ post) ∧
      ∃ pre post, stages = pre ++ .implementation :: post ∧
        .implementation ∉ pre ∧ .planApprovalGate ∈ pre) ∧
    ∀ pre mid post,
      stages = pre ++ .planAuthoring :: (mid ++ .implementation :: post) →
        .planApprovalGate ∈ mid := by
  have hroute : Route ((view s.world.db r).history.map (·.stage)) r.stage :=
    (reach_view (consistent_inductive fun _ _ => False)
      (hs.mono fun _ a _ => without_named a) hr).route
  refine ⟨fun hlast => ⟨hroute.verified hlast, hroute.approved hlast⟩, ?_⟩
  intro pre mid post hl
  exact hroute.replanned hl

end Runs

/-- The way to the plan approval gate. -/
def planned : List (Act Bool) :=
  opening ++
    calling false (.transitionStage (.text "acme") "run" 1 "research")
      [.auto, .time "t2", .id "e2", .auto, .auto] ++
    calling false (.transitionStage (.text "acme") "run" 2 "plan_authoring")
      [.auto, .time "t3", .id "e3", .auto, .auto] ++
    calling false
      (.transitionStage (.text "acme") "run" 3 "plan_approval_gate")
      [.auto, .time "t4", .id "e4", .auto, .auto]

/-- The way on to packaging. -/
def packaged : List (Act Bool) :=
  planned ++
    calling false (.transitionStage (.text "acme") "run" 4 "implementation")
      [.auto, .time "t5", .id "e5", .auto, .auto] ++
    calling false (.transitionStage (.text "acme") "run" 5 "verification")
      [.auto, .time "t6", .id "e6", .auto, .auto] ++
    calling false
      (.transitionStage (.text "acme") "run" 6 "change_review_gate")
      [.auto, .time "t7", .id "e7", .auto, .auto] ++
    calling false (.transitionStage (.text "acme") "run" 7 "packaging")
      [.auto, .time "t8", .id "e8", .auto, .auto]

/-- A run that reached packaging. -/
theorem gates_dominate_packaged :
    ∃ (s : State Bool) (r : RunRow),
      machine.Reach Initial (fun _ _ => True) s ∧ r ∈ s.world.db.runs ∧
      r.stage = .packaging ∧
      ∃ pre post, (s.world.db.stageHistory.filter (·.runId = r.id)).map
          (·.stage) = pre ++ .verification :: post ∧
        .verification ∉ post ∧ .changeReviewGate ∈ post := by
  obtain ⟨s, hs, htest⟩ := reach_of_plays (fun _ _ => true)
    (fun _ _ _ => trivial) packaged
    (fun s => s.world.db.runs.any (·.stage = .packaging)) (by decide +kernel)
  obtain ⟨r, hr, hstage⟩ := List.any_eq_true.1 htest
  have hstage : r.stage = .packaging := of_decide_eq_true hstage
  obtain ⟨hbehind, _⟩ := gates_dominate hs hr
  obtain ⟨hverified, _⟩ := hbehind (by rw [hstage]; decide)
  exact ⟨s, r, hs, hr, hstage, hverified⟩

-- ==== sealing

/-- The transaction starts an attempt at a terminal stage. -/
def StartsEnded (_ : RunRow) : Txn → Prop
  | .append _ _ _ _ _ start _ _ _ _ => start ∈ Stage.terminalStages
  | _ => False

instance (r : RunRow) (txn : Txn) : Decidable (StartsEnded r txn) :=
  match txn with
  | .create .. => isFalse id
  | .append .. => inferInstanceAs (Decidable (_ ∈ _))
  | .transition .. => isFalse id
  | .write .. => isFalse id

theorem terminal_final {stage next : Stage}
    (h : stage ∈ Stage.terminalStages) :
    stage.isLegalTransition next = false := by
  cases stage <;> simp_all [Stage.terminalStages, Stage.isLegalTransition,
    Stage.legalTransitions]

/-- A consistent run that has ended has no open attempt. -/
structure Sealed (v : View) : Prop where
  consistent : Consistent v
  ended : v.row.stage ∈ Stage.terminalStages → ∀ a ∈ v.attempts,
    a.endTs ≠ none

theorem sealed_inductive : Inductive StartsEnded Sealed where
  created := by
    intro row attemptId entryId hstage
    refine ⟨consistent_created hstage, ?_⟩
    intro hterm
    have hintake : (View.created row attemptId entryId).row.stage = .intake :=
      hstage
    rw [hintake] at hterm
    exact absurd hterm (by decide)
  step := by
    intro v v' txn hv hstep hgood
    refine ⟨(consistent_inductive StartsEnded).step hv.consistent hstep
      hgood, ?_⟩
    cases hstep with
    | other hid => exact hv.ended
    | append hcurrent hstage hattempt hentry =>
      intro hterm
      exact absurd hterm (hgood rfl)
    | @transition current next ts entryId hcurrent hlegal =>
      intro hterm
      have hnext : next ∈ Stage.terminalStages := hterm
      unfold View.transitioned
      rw [if_pos hnext]
      exact hv.consistent.attempts_ended hcurrent
    | @write fields ts hstage hcurrent =>
      intro hterm
      refine hv.ended ?_
      have hsame : (v.row.set fields ts).stage = v.row.stage := by
        simp [RunRow.set, hstage]
      rw [← hsame]
      exact hterm

/-- A run that has ended stays as it is. -/
def Frozen (v v' : View) : Prop :=
  v.row.stage ∈ Stage.terminalStages →
    v'.row.stage = v.row.stage ∧ v'.attempts = v.attempts ∧
      v'.history = v.history

theorem Frozen.step {v v' v'' : View} {txn : Txn} (h : Frozen v v')
    (hstep : v'.Step txn v'') (hgood : v'.Good StartsEnded txn) :
    Frozen v v'' := by
  intro hterm
  obtain ⟨hstage, hattempts, hhistory⟩ := h hterm
  cases hstep with
  | other hid => exact ⟨hstage, hattempts, hhistory⟩
  | append hcurrent hedge hattempt hentry =>
    rcases hedge with hsame | hlegal
    · refine absurd ?_ (hgood rfl)
      show _ ∈ Stage.terminalStages
      rw [hsame, hstage]
      exact hterm
    · rw [hstage, terminal_final hterm] at hlegal
      cases hlegal
  | transition hcurrent hlegal =>
    rw [hstage, terminal_final hterm] at hlegal
    cases hlegal
  | @write fields ts hnone hcurrent =>
    refine ⟨?_, hattempts, hhistory⟩
    rw [← hstage]
    simp [RunRow.set, hnone]

/-- The run an attempt or a transition is asked for. -/
def Call.moves : Call → Option String
  | .appendAttempt _ id .. => some id
  | .transitionStage _ id .. => some id
  | _ => none

/-- A transaction of such a call fits a run that has ended only when it
starts an attempt there. -/
theorem moves_unfit {c : Call} {txn : Txn} {r : RunRow} {db : Db}
    (hmakes : Makes c txn) (hmoves : c.moves = some r.id)
    (hfits : Fits (Stored db) txn) (hkeyed : Keyed db) (hr : r ∈ db.runs)
    (hterm : r.stage ∈ Stage.terminalStages) :
    r.id = Txn.runId txn ∧ StartsEnded r txn := by
  cases c with
  | appendAttempt t id v reason start trace =>
    cases txn with
    | append tenant id' v' current reason' stage trace' ts attemptId eid =>
      obtain ⟨_, r₀, ⟨hr₀, hid₀, _⟩, _, _, hedge⟩ := hfits
      obtain rfl : id = r.id := Option.some.inj hmoves
      obtain rfl : r₀ = r := hkeyed.eq hr₀ hr (hid₀.trans hmakes.2.1)
      rcases hedge with hsame | hlegal
      · refine ⟨hid₀, ?_⟩
        show stage ∈ Stage.terminalStages
        rw [hsame]
        exact hterm
      · rw [terminal_final hterm] at hlegal
        cases hlegal
    | write tenant id' v' fields ts => cases hmakes.2.2
    | _ => cases hmakes
  | transitionStage t id v next =>
    cases txn with
    | transition tenant id' v' current stage ts eid =>
      obtain ⟨r₀, ⟨hr₀, hid₀, _⟩, _, _, hlegal⟩ := hfits
      obtain rfl : id = r.id := Option.some.inj hmoves
      obtain rfl : r₀ = r := hkeyed.eq hr₀ hr (hid₀.trans hmakes.2.1)
      rw [terminal_final hterm] at hlegal
      cases hlegal
    | write tenant id' v' fields ts => cases hmakes.2.2
    | _ => cases hmakes
  | _ => cases hmoves

theorem answers_of_commits {Pid : Type} [DecidableEq Pid]
    {cond : State Pid → Act Pid → Prop} {p : Pid} {s : State Pid}
    {ws : List (World × World)} {lg : Heard} {txn : Txn}
    (h : List.Forall₂ (machine.Answers cond p s) ws lg)
    (htxn : txn ∈ commits lg) :
    ∃ ww, machine.Answers cond p s ww ⟨.transact txn, .committed⟩ := by
  obtain ⟨x, hx, hcommit⟩ := List.mem_filterMap.1 htxn
  have hsame : x = ⟨.transact txn, .committed⟩ := by
    unfold commitOf at hcommit
    split at hcommit
    · obtain rfl := Option.some.inj hcommit
      rfl
    · cases hcommit
  subst hsame
  clear htxn hcommit
  induction h with
  | nil => cases hx
  | @cons ww y ws lg hanswers _ ih =>
    rcases List.mem_cons.1 hx with rfl | hold
    · exact ⟨ww, hanswers⟩
    · exact ih hold

section Runs

variable {Pid : Type} [DecidableEq Pid] {s : State Pid} {r : RunRow}

theorem answers_committed {bad : Db → Txn → Prop} {p : Pid} {txn : Txn}
    {ww : World × World} (hs : machine.Reach Initial (Without bad) s)
    (h : machine.Answers (Without bad) p s ww ⟨.transact txn, .committed⟩) :
    ∃ s₁, machine.Leads (Without bad) s s₁ ∧
      Fits (Stored s₁.world.db) txn ∧ ¬ bad s₁.world.db txn := by
  obtain ⟨s₁, ans, pr, k, env, hleads, hcond, hp, hprog, hworld, hexec⟩ := h
  have hord := store_orderly (J := fun _ => True) trivial
    (fun _ _ _ => trivial) (hs.leads hleads)
  have hpr := hord.procs p pr hp
  rw [← hworld] at hexec
  have hcom : (s₁.world.db.transact txn).2 = .committed := by
    rw [← exec_answer s₁.world txn env]
    exact (Prod.mk.inj hexec).2
  have hgood := hcond txn ⟨pr, k, hp, hprog⟩ hcom
  have hcommitted := exec_committed hord.inv.1 hpr.knows
    (asks_fits (hpr.may hprog)) hgood hcom
  exact ⟨s₁, hleads, hcommitted.fits, hgood⟩

/-- In every run in which no attempt starts at a terminal stage: a run
that has ended has its current attempt sealed, its stage, attempts and
history stay as they are, and no attempt or transition asked for later
succeeds. -/
theorem terminal_sealed
    (hs : machine.Reach Initial (Without (Named StartsEnded)) s)
    (hr : r ∈ s.world.db.runs) (hterm : r.stage ∈ Stage.terminalStages) :
    (∃ a ∈ s.world.db.attempts, a.runId = r.id ∧
      r.currentAttemptId = some a.id ∧ a.endTs ≠ none) ∧
    (∀ s', machine.Leads (Without (Named StartsEnded)) s s' →
      ∃ r' ∈ s'.world.db.runs, r'.id = r.id ∧ r'.stage = r.stage ∧
        s'.world.db.attempts.filter (·.runId = r.id) =
          s.world.db.attempts.filter (·.runId = r.id) ∧
        s'.world.db.stageHistory.filter (·.runId = r.id) =
          s.world.db.stageHistory.filter (·.runId = r.id)) ∧
    ∀ p c ws s' o, machine.Serves (Without (Named StartsEnded)) p c s ws s' →
      c.moves = some r.id → s'.Returns p o → o.isOk = false := by
  have hviews := (views_orderly sealed_inductive hs).inv.2
  have hfrozen : ∀ s', machine.Leads (Without (Named StartsEnded)) s s' →
      ∃ r' ∈ s'.world.db.runs, r'.id = r.id ∧
        Frozen (view s.world.db r) (view s'.world.db r') := fun s' h =>
    leads_view sealed_inductive (fun _ _ => ⟨rfl, rfl, rfl⟩)
      (fun _ hfroze hstep hgood => hfroze.step hstep hgood) hs h hr
  refine ⟨?_, ?_, ?_⟩
  · obtain ⟨a, ha, hcur, hrun, _⟩ := hviews.linked.current r hr
    refine ⟨a, ha, hrun, hcur, (hviews.each r hr).ended hterm a ?_⟩
    exact List.mem_filter.2 ⟨ha, by simpa using hrun⟩
  · intro s' hleads
    obtain ⟨r', hr', hid, hfroze⟩ := hfrozen s' hleads
    obtain ⟨hstage, hattempts, hhistory⟩ := hfroze hterm
    refine ⟨r', hr', hid, hstage, ?_, ?_⟩
    · simpa only [view, hid] using hattempts
    · simpa only [view, hid] using hhistory
  · intro p c ws s' o hserves hmoves hret
    by_contra hok
    rw [Bool.not_eq_false] at hok
    obtain ⟨pr, _, _, hall, hreturned⟩ := returned_log hs hserves hret
    have hguard : c.guard.isSome = true := by
      cases c <;> first | rfl | cases hmoves
    obtain ⟨txn, hcommits, hmakes⟩ := hreturned.wrote hok hguard
    obtain ⟨ww, hanswers⟩ := answers_of_commits hall
      (hcommits ▸ List.mem_singleton_self txn)
    -- the run had ended when the call's transaction was committed
    obtain ⟨s₁, hleads, hfits, hgood⟩ := answers_committed hs hanswers
    obtain ⟨r₁, hr₁, hid₁, hfroze⟩ := hfrozen s₁ hleads
    have hstage : r₁.stage = r.stage := (hfroze hterm).1
    have hkeyed := reach_keyed (hs.leads hleads)
    exact hgood ⟨r₁, hr₁, moves_unfit hmakes (hid₁ ▸ hmoves) hfits hkeyed
      hr₁ (hstage ▸ hterm)⟩

end Runs

/-- A run is abandoned by a transition. -/
theorem terminal_sealed_transition :
    ∃ (s : State Bool) (r : RunRow),
      machine.Reach Initial (Without (Named StartsEnded)) s ∧
      r ∈ s.world.db.runs ∧ r.stage ∈ Stage.terminalStages ∧
      ∃ a ∈ s.world.db.attempts, a.runId = r.id ∧
        r.currentAttemptId = some a.id ∧ a.endTs ≠ none := by
  obtain ⟨s, hs, htest⟩ := reach_of_plays (avoids StartsEnded)
    without_of_avoids
    (opening ++
      calling true (.transitionStage (.text "acme") "run" 1 "abandoned")
        [.auto, .time "t2", .id "end", .auto, .auto])
    (fun s => s.world.db.runs.any (·.stage ∈ Stage.terminalStages))
    (by decide +kernel)
  obtain ⟨r, hr, hterm⟩ := List.any_eq_true.1 htest
  have hterm := of_decide_eq_true hterm
  exact ⟨s, r, hs, hr, hterm, (terminal_sealed hs hr hterm).1⟩

/-- A run is abandoned by a new attempt, which stays open, and a third
attempt is appended after that. -/
theorem ended_open :
    ∃ (s : State Bool) (r : RunRow),
      machine.Reach Initial (fun _ _ => True) s ∧ r ∈ s.world.db.runs ∧
      r.stage ∈ Stage.terminalStages ∧
      (∃ a ∈ s.world.db.attempts, a.runId = r.id ∧
        r.currentAttemptId = some a.id ∧ a.endTs = none) ∧
      ∃ ws s' o, machine.Serves (fun _ _ => True) true
        (.appendAttempt (.text "acme") r.id 2 "retry" "abandoned" "trace")
        s ws s' ∧ s'.Returns true o ∧ o.isOk = true := by
  obtain ⟨s₀, ws, s, hs₀, hserves, htest⟩ := serves_of_plays
    (fun _ _ => true) (fun _ _ _ => trivial)
    (opening ++ calling true
      (.appendAttempt (.text "acme") "run" 1 "retry" "abandoned" "trace")
      [.auto, .time "t2", .id "second", .id "end", .auto, .auto]) true
    (.appendAttempt (.text "acme") "run" 2 "retry" "abandoned" "trace")
    (steps true [.auto, .time "t3", .id "third", .id "again", .auto, .auto])
    (fun x => (x.1.world.db.runs.any fun r =>
        r.id = "run" ∧ r.stage ∈ Stage.terminalStages ∧
          x.1.world.db.attempts.any fun a =>
            a.runId = r.id ∧ r.currentAttemptId = some a.id ∧ a.endTs = none) ∧
      (x.2.2.returned true).any (·.isOk)) (by decide +kernel)
  obtain ⟨hrun, hok⟩ := of_decide_eq_true htest
  obtain ⟨r, hr, hfound⟩ := List.any_eq_true.1 hrun
  obtain ⟨hid, hterm, hopen⟩ := of_decide_eq_true hfound
  obtain ⟨a, ha, hopen⟩ := List.any_eq_true.1 hopen
  obtain ⟨o, ho, hok⟩ := (Option.any_eq_true _ _).1 hok
  rw [← hid] at hserves
  exact ⟨s₀, r, hs₀, hr, hterm, ⟨a, ha, of_decide_eq_true hopen⟩, ws, s, o,
    hserves, Sys.returns_of_returned ho, hok⟩

-- ==== re-plans

/-- The transaction goes back from the plan approval gate to plan
authoring, in the same attempt. -/
def GoesBack (r : RunRow) : Txn → Prop
  | .transition _ _ _ _ next _ _ =>
    r.stage = .planApprovalGate ∧ next = .planAuthoring
  | _ => False

instance (r : RunRow) (txn : Txn) : Decidable (GoesBack r txn) :=
  match txn with
  | .create .. => isFalse id
  | .append .. => isFalse id
  | .transition .. => inferInstanceAs (Decidable (_ ∧ _))
  | .write .. => isFalse id

/-- A re-plan is in another attempt than the plan it replaces. -/
def Apart (x y : Stage × String) : Prop :=
  x.1 = .planApprovalGate → y.1 = .planAuthoring → x.2 ≠ y.2

structure Separate (v : View) : Prop where
  consistent : Consistent v
  apart : (visits v.history).IsChain Apart

theorem Consistent.visits_last {v : View} (hv : Consistent v) :
    ∃ past current, v.row.currentAttemptId = some current ∧
      visits v.history = past ++ [(v.row.stage, current)] := by
  obtain ⟨past, h, hhistory, _, _, hstage, hcurrent⟩ := hv.openLast
  refine ⟨visits past, h.attemptId, hcurrent, ?_⟩
  rw [hhistory, ← hstage]
  simp [visits]

/-- A visit more, apart from the last one. -/
theorem Separate.extend {v : View} (hv : Separate v) {next : Stage}
    {attemptId : String}
    (hapart : ∀ current, v.row.currentAttemptId = some current →
      (v.row.stage, current) ∈ visits v.history →
        Apart (v.row.stage, current) (next, attemptId)) :
    (visits v.history ++ [(next, attemptId)]).IsChain Apart := by
  obtain ⟨past, current, hcurrent, hvisits⟩ := hv.consistent.visits_last
  have hchain := hv.apart
  have hlast := hapart current hcurrent (by rw [hvisits]; simp)
  rw [hvisits] at hchain ⊢
  exact Graph.chain_concat hchain hlast

theorem separate_inductive : Inductive GoesBack Separate where
  created := fun hstage =>
    ⟨consistent_created hstage, List.isChain_singleton _⟩
  step := by
    intro v v' txn hv hstep hgood
    refine ⟨(consistent_inductive GoesBack).step hv.consistent hstep hgood,
      ?_⟩
    cases hstep with
    | other hid => exact hv.apart
    | append hcurrent hstage hattempt hentry =>
      unfold View.appended
      rw [visits_extended]
      refine hv.extend ?_
      intro current _ hmem _ _
      obtain ⟨h, hh, heq⟩ := List.mem_map.1 hmem
      obtain ⟨_, rfl⟩ := Prod.mk.inj heq
      exact hentry h hh
    | transition hcurrent hlegal =>
      unfold View.transitioned
      rw [visits_extended]
      refine hv.extend ?_
      intro current _ _ hgate hauthoring
      exact absurd ⟨hgate, hauthoring⟩ (hgood rfl)
    | write hstage hcurrent => exact hv.apart

section Runs

variable {Pid : Type} [DecidableEq Pid] {s : State Pid} {r : RunRow}

/-- In every run in which no transition goes back from the plan approval
gate to plan authoring, consecutive entries of the two are in different
attempts. -/
theorem replans_separate
    (hs : machine.Reach Initial (Without (Named GoesBack)) s)
    (hr : r ∈ s.world.db.runs) {pre post : List HistoryRow}
    {x y : HistoryRow}
    (hhistory : s.world.db.stageHistory.filter (·.runId = r.id) =
      pre ++ x :: y :: post)
    (hx : x.stage = .planApprovalGate) (hy : y.stage = .planAuthoring) :
    x.attemptId ≠ y.attemptId := by
  have hv := reach_view separate_inductive hs hr
  have hchain := hv.apart
  have hvisits : visits (view s.world.db r).history =
      visits pre ++ (x.stage, x.attemptId) :: (y.stage, y.attemptId) ::
        visits post := by
    unfold view
    rw [hhistory]
    simp [visits]
  rw [hvisits] at hchain
  exact (List.isChain_append_cons_cons.1 hchain).2.1 hx hy

end Runs

/-- The last two of five visits. -/
def lastOfFive : List HistoryRow → Option (HistoryRow × HistoryRow)
  | [_, _, _, x, y] => some (x, y)
  | _ => none

theorem lastOfFive_eq_some {visits : List HistoryRow} {x y : HistoryRow}
    (h : lastOfFive visits = some (x, y)) :
    ∃ pre, visits = pre ++ [x, y] := by
  unfold lastOfFive at h
  split at h
  · next a b c x' y' =>
    obtain ⟨rfl, rfl⟩ := Prod.mk.inj (Option.some.inj h)
    exact ⟨[a, b, c], rfl⟩
  · cases h

/-- A re-plan in an attempt of its own. -/
theorem replans_separate_append :
    ∃ (s : State Bool) (r : RunRow) (pre : List HistoryRow)
      (x y : HistoryRow),
      machine.Reach Initial (Without (Named GoesBack)) s ∧
      r ∈ s.world.db.runs ∧
      s.world.db.stageHistory.filter (·.runId = r.id) = pre ++ [x, y] ∧
      x.stage = .planApprovalGate ∧ y.stage = .planAuthoring ∧
      x.attemptId ≠ y.attemptId := by
  obtain ⟨s, hs, htest⟩ := reach_of_plays (avoids GoesBack)
    without_of_avoids
    (planned ++ calling false
      (.appendAttempt (.text "acme") "run" 4 "re-plan" "plan_authoring"
        "trace")
      [.auto, .time "t5", .id "second", .id "e5", .auto, .auto])
    (fun s => s.world.db.runs.any fun r =>
      (lastOfFive (s.world.db.stageHistory.filter (·.runId = r.id))).any
        fun p => p.1.stage = .planApprovalGate ∧ p.2.stage = .planAuthoring)
    (by decide +kernel)
  obtain ⟨r, hr, hfound⟩ := List.any_eq_true.1 htest
  obtain ⟨⟨x, y⟩, hlast, hstages⟩ := (Option.any_eq_true _ _).1 hfound
  obtain ⟨hx, hy⟩ := of_decide_eq_true hstages
  obtain ⟨pre, happend⟩ := lastOfFive_eq_some hlast
  exact ⟨s, r, pre, x, y, hs, hr, happend, hx, hy,
    replans_separate hs hr happend hx hy⟩

/-- A transition goes back, and the re-plan is in the same attempt. -/
theorem replan_unseparated :
    ∃ (s : State Bool) (r : RunRow) (pre : List HistoryRow)
      (x y : HistoryRow),
      machine.Reach Initial (fun _ _ => True) s ∧ r ∈ s.world.db.runs ∧
      s.world.db.stageHistory.filter (·.runId = r.id) = pre ++ [x, y] ∧
      x.stage = .planApprovalGate ∧ y.stage = .planAuthoring ∧
      x.attemptId = y.attemptId := by
  obtain ⟨s, hs, htest⟩ := reach_of_plays (fun _ _ => true)
    (fun _ _ _ => trivial)
    (planned ++ calling false
      (.transitionStage (.text "acme") "run" 4 "plan_authoring")
      [.auto, .time "t5", .id "e5", .auto, .auto])
    (fun s => s.world.db.runs.any fun r =>
      (lastOfFive (s.world.db.stageHistory.filter (·.runId = r.id))).any
        fun p => p.1.stage = .planApprovalGate ∧ p.2.stage = .planAuthoring ∧
          p.1.attemptId = p.2.attemptId) (by decide +kernel)
  obtain ⟨r, hr, hfound⟩ := List.any_eq_true.1 htest
  obtain ⟨⟨x, y⟩, hlast, hstages⟩ := (Option.any_eq_true _ _).1 hfound
  obtain ⟨hx, hy, hsame⟩ := of_decide_eq_true hstages
  obtain ⟨pre, happend⟩ := lastOfFive_eq_some hlast
  exact ⟨s, r, pre, x, y, hs, hr, happend, hx, hy, hsame⟩

end Service

end SdlcOs.Registry
