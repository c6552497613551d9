/-
One run at a time.

# Views

The three tables are shared by every run of every tenant. A `View` is
what one run has in them: its row, its attempts and its stage history. A
committed transaction changes the view of the run it names and no other
(`commits_view`), and what it does there is `View.Step`, which mentions
no table.

# Why it is so

Rows are found by `run_id` in one table, by `id` in another, so this
rests on the keys and references between them (`Linked`): an attempt is
of one run, a run's current attempt is one of its own, and a row that is
referred to is there.

# The rules

`reach_view` proves a property of every view of every reachable database,
`leads_view` a relation between the views of one run along a run of the
system; both ask about single `View.Step`s only.
-/
import SdlcOs.Proofs.Registry.Store

namespace SdlcOs.Registry

open Effects

namespace Service

-- ==== views

/-- What the tables have of one run, in insertion order. -/
@[ext]
structure View where
  row : RunRow
  attempts : List AttemptRow
  history : List HistoryRow

/-- The view of a run. -/
def view (db : Db) (r : RunRow) : View where
  row := r
  attempts := db.attempts.filter (·.runId = r.id)
  history := db.stageHistory.filter (·.runId = r.id)

/-- The run a transaction names. -/
def Txn.runId : Txn → String
  | .create row .. => row.id
  | .append _ id .. => id
  | .transition _ id .. => id
  | .write _ id .. => id

namespace View

/-- The view of a run that was created. -/
def created (row : RunRow) (attemptId entryId : String) : View where
  row := { row with currentAttemptId := some attemptId }
  attempts :=
    [{ id := attemptId, runId := row.id, tenantId := row.tenantId
       attemptNumber := 1, reason := "initial", startingStage := .intake
       traceId := row.traceId, startTs := row.createdAt, endTs := none
       createdAt := row.createdAt }]
  history :=
    [{ id := entryId, runId := row.id, attemptId := attemptId
       tenantId := row.tenantId, stage := .intake
       enteredAt := row.createdAt, exitedAt := none }]

/-- The view after a new attempt. -/
def appended (v : View) (current reason : String) (start : Stage)
    (trace ts attemptId entryId : String) : View where
  row := v.row.set
    { stage := some start, currentAttemptId := some attemptId
      traceId := some trace } ts
  attempts := v.attempts.map (AttemptRow.close current v.row.tenantId ts) ++
    [{ id := attemptId, runId := v.row.id, tenantId := v.row.tenantId
       attemptNumber :=
         v.attempts.countP (·.tenantId = v.row.tenantId) + 1
       reason := reason, startingStage := start, traceId := trace
       startTs := ts, endTs := none, createdAt := ts }]
  history :=
    v.history.map (HistoryRow.close v.row.id v.row.tenantId ts) ++
      [{ id := entryId, runId := v.row.id, attemptId := attemptId
         tenantId := v.row.tenantId, stage := start, enteredAt := ts
         exitedAt := none }]

/-- The view after a transition. -/
def transitioned (v : View) (current : String) (next : Stage)
    (ts entryId : String) : View where
  row := v.row.set { stage := some next } ts
  attempts := if next ∈ Stage.terminalStages then
      v.attempts.map (AttemptRow.close current v.row.tenantId ts)
    else v.attempts
  history :=
    v.history.map (HistoryRow.close v.row.id v.row.tenantId ts) ++
      [{ id := entryId, runId := v.row.id, attemptId := current
         tenantId := v.row.tenantId, stage := next, enteredAt := ts
         exitedAt := none }]

/-- Everything a committed transaction can do to the view of a run. -/
inductive Step (v : View) : Txn → View → Prop
  | other {txn : Txn} (hid : Txn.runId txn ≠ v.row.id) : Step v txn v
  | append {current reason : String} {start : Stage}
      {trace ts attemptId entryId : String}
      (hcurrent : v.row.currentAttemptId = some current)
      (hstage : start = v.row.stage ∨
        v.row.stage.isLegalTransition start = true)
      (hattempt : ∀ a ∈ v.attempts, a.id ≠ attemptId)
      (hentry : ∀ h ∈ v.history, h.attemptId ≠ attemptId) :
      Step v
        (.append v.row.tenantId v.row.id v.row.version (some current) reason
          start trace ts attemptId entryId)
        (v.appended current reason start trace ts attemptId entryId)
  | transition {current : String} {next : Stage} {ts entryId : String}
      (hcurrent : v.row.currentAttemptId = some current)
      (hlegal : v.row.stage.isLegalTransition next = true) :
      Step v
        (.transition v.row.tenantId v.row.id v.row.version current next ts
          entryId)
        (v.transitioned current next ts entryId)
  | write {fields : Fields} {ts : String} (hstage : fields.stage = none)
      (hcurrent : fields.currentAttemptId = none) :
      Step v (.write v.row.tenantId v.row.id v.row.version fields ts)
        { v with row := v.row.set fields ts }

end View

-- ==== linked

/-- The row has a current attempt, one of its own. -/
def HasCurrent (db : Db) (r : RunRow) : Prop :=
  ∃ a ∈ db.attempts, r.currentAttemptId = some a.id ∧ a.runId = r.id ∧
    a.id ≠ ""

/-- The keys and the references of the tables. -/
structure Linked (db : Db) : Prop where
  runKeys : Keyed db
  attemptKeys : (db.attempts.map (·.id)).Nodup
  attemptRun : ∀ a ∈ db.attempts, ∃ r ∈ db.runs, r.id = a.runId
  entryRun : ∀ h ∈ db.stageHistory, ∃ r ∈ db.runs, r.id = h.runId
  entryAttempt : ∀ h ∈ db.stageHistory, ∃ a ∈ db.attempts,
    a.id = h.attemptId
  current : ∀ r ∈ db.runs, HasCurrent db r

theorem linked_empty : Linked .empty where
  runKeys := List.nodup_nil
  attemptKeys := List.nodup_nil
  attemptRun := fun _ h => by cases h
  entryRun := fun _ h => by cases h
  entryAttempt := fun _ h => by cases h
  current := fun _ h => by cases h

theorem Linked.attempt_eq {db : Db} (h : Linked db) {a a' : AttemptRow}
    (ha : a ∈ db.attempts) (ha' : a' ∈ db.attempts) (hid : a.id = a'.id) :
    a = a' :=
  List.inj_on_of_nodup_map h.attemptKeys ha ha' hid

-- ==== tables

/-- Sealing keeps the keys of an attempt. -/
def KeepsKeys (f : AttemptRow → AttemptRow) : Prop :=
  ∀ a, (f a).id = a.id ∧ (f a).runId = a.runId

theorem keepsKeys_close (id tenant ts : String) :
    KeepsKeys (AttemptRow.close id tenant ts) :=
  fun _ => ⟨AttemptRow.close_id .., AttemptRow.close_runId ..⟩

theorem keepsKeys_id : KeepsKeys fun a => a := fun _ => ⟨rfl, rfl⟩

theorem sealedAttempts_keeps (db : Db) (current : Option String)
    (tenantId ts : String) : ∃ f, KeepsKeys f ∧
      db.sealedAttempts current tenantId ts = db.attempts.map f := by
  unfold Db.sealedAttempts
  split
  · split
    · exact ⟨_, keepsKeys_id, (List.map_id' _).symm⟩
    · exact ⟨_, keepsKeys_close _ _ _, rfl⟩
  · exact ⟨_, keepsKeys_id, (List.map_id' _).symm⟩

/-- What a committed transaction does to `attempts`: rows are sealed, and
at most one is added, under a new id. -/
theorem commits_attempts {db db' : Db} {txn : Txn} (h : db.Commits txn db') :
    ∃ f new, KeepsKeys f ∧ db'.attempts = db.attempts.map f ++ new ∧
      (new.map (·.id)).Nodup ∧
      ∀ a ∈ new, a.runId = Txn.runId txn ∧ ∀ b ∈ db.attempts, b.id ≠ a.id := by
  cases h with
  | create hrun hattempt =>
    refine ⟨_, _, keepsKeys_id, congrArg (· ++ _) (List.map_id' _).symm,
      List.nodup_singleton _, ?_⟩
    · intro a ha
      obtain rfl := List.mem_singleton.1 ha
      exact ⟨rfl, hattempt⟩
  | append hhit hattempt =>
    obtain ⟨f, hf, heq⟩ := sealedAttempts_keeps db _ _ _
    refine ⟨f, _, hf, congrArg (· ++ _) heq, List.nodup_singleton _, ?_⟩
    intro a ha
    obtain rfl := List.mem_singleton.1 ha
    exact ⟨rfl, hattempt⟩
  | @transition tenantId runId v current next ts entryId hhit =>
    by_cases hterm : next ∈ Stage.terminalStages
    · refine ⟨_, [], keepsKeys_close current tenantId ts, ?_,
        List.nodup_nil, fun _ h => by cases h⟩
      rw [if_pos hterm, List.append_nil]
    · refine ⟨_, [], keepsKeys_id, ?_, List.nodup_nil,
        fun _ h => by cases h⟩
      rw [if_neg hterm, List.append_nil, List.map_id']
  | write hhit =>
    refine ⟨_, [], keepsKeys_id, ?_, List.nodup_nil, fun _ h => by cases h⟩
    rw [List.append_nil, List.map_id']

/-- What a committed transaction does to `stage_history`: open rows are
closed, and at most one is added. -/
theorem commits_history {db db' : Db} {txn : Txn} (h : db.Commits txn db') :
    ∃ g new, (∀ h, (g h).runId = h.runId ∧ (g h).attemptId = h.attemptId) ∧
      db'.stageHistory = db.stageHistory.map g ++ new ∧
      ∀ h ∈ new, h.runId = Txn.runId txn ∧
        ((∃ a ∈ db'.attempts, a.id = h.attemptId) ∨
          ∃ t id v ts e, txn = .transition t id v h.attemptId h.stage ts e) := by
  have hclose : ∀ id tenant ts : String, ∀ h,
      (HistoryRow.close id tenant ts h).runId = h.runId ∧
        (HistoryRow.close id tenant ts h).attemptId = h.attemptId :=
    fun _ _ _ _ => ⟨HistoryRow.close_runId .., HistoryRow.close_attemptId ..⟩
  cases h with
  | create hrun hattempt =>
    refine ⟨_, _, fun _ => ⟨rfl, rfl⟩,
      congrArg (· ++ _) (List.map_id' _).symm, ?_⟩
    intro h hh
    obtain rfl := List.mem_singleton.1 hh
    exact ⟨rfl, Or.inl ⟨_, List.mem_append_right _ List.mem_cons_self, rfl⟩⟩
  | append hhit hattempt =>
    refine ⟨_, _, hclose _ _ _, rfl, ?_⟩
    intro h hh
    obtain rfl := List.mem_singleton.1 hh
    exact ⟨rfl, Or.inl ⟨_, List.mem_append_right _ List.mem_cons_self, rfl⟩⟩
  | transition hhit =>
    refine ⟨_, _, hclose _ _ _, rfl, ?_⟩
    intro h hh
    obtain rfl := List.mem_singleton.1 hh
    exact ⟨rfl, Or.inr ⟨_, _, _, _, _, rfl⟩⟩
  | write hhit =>
    refine ⟨_, [], fun _ => ⟨rfl, rfl⟩, ?_, fun _ h => by cases h⟩
    rw [List.append_nil, List.map_id']

section Kept

variable {db db' : Db} {txn : Txn}

theorem runs_kept (h : db.Commits txn db') {id : String}
    (hid : ∃ r ∈ db.runs, r.id = id) : ∃ r ∈ db'.runs, r.id = id := by
  obtain ⟨r, hr, rfl⟩ := hid
  obtain ⟨r', hr', hlater⟩ := commits_onward h r hr
  exact ⟨r', hr', hlater.id⟩

theorem attempts_kept (h : db.Commits txn db') {a : AttemptRow}
    (ha : a ∈ db.attempts) :
    ∃ a' ∈ db'.attempts, a'.id = a.id ∧ a'.runId = a.runId := by
  obtain ⟨f, new, hf, hattempts, _⟩ := commits_attempts h
  refine ⟨f a, ?_, hf a⟩
  rw [hattempts]
  exact List.mem_append_left _ (List.mem_map_of_mem ha)

theorem hit_named {tenantId runId : String} {v : Int}
    (h : ∃ r ∈ db.runs, r.hit tenantId runId v = true) :
    ∃ r ∈ db.runs, r.id = runId := by
  obtain ⟨r, hr, hhit⟩ := h
  exact ⟨r, hr, (hit_iff.1 hhit).1⟩

theorem commits_named (h : db.Commits txn db') :
    ∃ r ∈ db'.runs, r.id = Txn.runId txn := by
  have hkept : ∀ {id : String}, (∃ r ∈ db.runs, r.id = id) →
      ∃ r ∈ db'.runs, r.id = id := runs_kept h
  cases h with
  | create hrun hattempt =>
    exact ⟨_, List.mem_append_right _ List.mem_cons_self, rfl⟩
  | append hhit hattempt => exact hkept (hit_named hhit)
  | transition hhit => exact hkept (hit_named hhit)
  | write hhit => exact hkept (hit_named hhit)

theorem HasCurrent.kept (h : db.Commits txn db') {r r' : RunRow}
    (hcur : HasCurrent db r) (hid : r'.id = r.id)
    (hsame : r'.currentAttemptId = r.currentAttemptId) :
    HasCurrent db' r' := by
  obtain ⟨a, ha, hc, hrun, hne⟩ := hcur
  obtain ⟨a', ha', hid', hrun'⟩ := attempts_kept h ha
  refine ⟨a', ha', ?_, ?_, ?_⟩
  · rw [hsame, hc, hid']
  · rw [hrun', hrun, hid]
  · rwa [hid']

/-- An update either leaves the current attempt alone or names a new
one. -/
theorem HasCurrent.updated (h : db.Commits txn db') {tenantId runId : String}
    {v : Int} {fields : Fields} {ts : String}
    (hcur : ∀ r ∈ db.runs, HasCurrent db r)
    (hnew : fields.currentAttemptId = none ∨ ∃ a ∈ db'.attempts,
      fields.currentAttemptId = some a.id ∧ a.runId = runId ∧ a.id ≠ "") :
    ∀ r' ∈ db.updatedRuns tenantId runId v fields ts, HasCurrent db' r' := by
  intro r' hr'
  obtain ⟨r, hr, rfl⟩ := List.mem_map.1 hr'
  by_cases hhit : r.hit tenantId runId v = true
  · rw [if_pos hhit]
    rcases hnew with hnone | ⟨a, ha, hsome, hrun, hne⟩
    · refine (hcur r hr).kept h rfl ?_
      simp [RunRow.set, hnone]
    · refine ⟨a, ha, ?_, hrun.trans (hit_iff.1 hhit).1.symm, hne⟩
      simp [RunRow.set, hsome]
  · rw [if_neg hhit]
    exact (hcur r hr).kept h rfl rfl

theorem commits_current (hcur : ∀ r ∈ db.runs, HasCurrent db r)
    (hfits : Fits (Stored db) txn) (h : db.Commits txn db') :
    ∀ r' ∈ db'.runs, HasCurrent db' r' := by
  have hcommits := h
  cases h with
  | create hrun hattempt =>
    obtain ⟨_, _, _, _, _, hne⟩ := hfits
    intro r' hr'
    rcases List.mem_append.1 hr' with hold | hnew
    · exact (hcur r' hold).kept hcommits rfl rfl
    · obtain rfl := List.mem_singleton.1 hnew
      exact ⟨_, List.mem_append_right _ List.mem_cons_self, rfl, rfl, hne⟩
  | append hhit hattempt =>
    refine HasCurrent.updated hcommits hcur (Or.inr ?_)
    exact ⟨_, List.mem_append_right _ List.mem_cons_self, rfl, rfl, hfits.1⟩
  | transition hhit =>
    exact HasCurrent.updated hcommits hcur (Or.inl rfl)
  | write hhit =>
    exact HasCurrent.updated hcommits hcur (Or.inl hfits.2.1)

theorem Linked.commits (hl : Linked db) (hfits : Fits (Stored db) txn)
    (h : db.Commits txn db') : Linked db' where
  runKeys := commits_keyed h hl.runKeys
  attemptKeys := by
    obtain ⟨f, new, hf, hattempts, hnew, hfresh⟩ := commits_attempts h
    have hids : (db.attempts.map f).map (·.id) = db.attempts.map (·.id) := by
      rw [List.map_map]
      exact List.map_congr_left fun a _ => (hf a).1
    rw [hattempts, List.map_append, hids]
    refine List.Nodup.append hl.attemptKeys hnew ?_
    intro id hid hid'
    obtain ⟨b, hb, rfl⟩ := List.mem_map.1 hid
    obtain ⟨a, ha, heq⟩ := List.mem_map.1 hid'
    exact (hfresh a ha).2 b hb heq.symm
  attemptRun := by
    obtain ⟨f, new, hf, hattempts, _, hfresh⟩ := commits_attempts h
    intro a ha
    rw [hattempts] at ha
    rcases List.mem_append.1 ha with hold | hadded
    · obtain ⟨b, hb, rfl⟩ := List.mem_map.1 hold
      rw [(hf b).2]
      exact runs_kept h (hl.attemptRun b hb)
    · rw [(hfresh a hadded).1]
      exact commits_named h
  entryRun := by
    obtain ⟨g, new, hg, hhistory, hadded⟩ := commits_history h
    intro e he
    rw [hhistory] at he
    rcases List.mem_append.1 he with hold | hnew
    · obtain ⟨b, hb, rfl⟩ := List.mem_map.1 hold
      rw [(hg b).1]
      exact runs_kept h (hl.entryRun b hb)
    · rw [(hadded e hnew).1]
      exact commits_named h
  entryAttempt := by
    obtain ⟨g, new, hg, hhistory, hadded⟩ := commits_history h
    intro e he
    rw [hhistory] at he
    rcases List.mem_append.1 he with hold | hnew
    · obtain ⟨b, hb, rfl⟩ := List.mem_map.1 hold
      obtain ⟨a, ha, hid⟩ := hl.entryAttempt b hb
      obtain ⟨a', ha', hid', _⟩ := attempts_kept h ha
      exact ⟨a', ha', by rw [hid', hid, (hg b).2]⟩
    · rcases (hadded e hnew).2 with hthere | ⟨t, id, v, ts, eid, rfl⟩
      · exact hthere
      · -- a transition stays in the current attempt, which is stored
        obtain ⟨r, hr, _, hcur, _⟩ := hfits
        obtain ⟨a, ha, hcur', _⟩ := hl.current r hr.1
        obtain ⟨a', ha', hid', _⟩ := attempts_kept h ha
        rw [hcur] at hcur'
        exact ⟨a', ha', hid'.trans (Option.some.inj hcur').symm⟩
  current := commits_current hl.current hfits h

end Kept

-- ==== steps of views

section Filters

variable {id runId tenantId current ts : String}

theorem attempts_closed (l : List AttemptRow) :
    (l.map (AttemptRow.close current tenantId ts)).filter (·.runId = id) =
      (l.filter (·.runId = id)).map (AttemptRow.close current tenantId ts) := by
  rw [List.filter_map]
  congr 1
  refine List.filter_congr fun a _ => ?_
  simp

theorem history_closed (l : List HistoryRow) :
    (l.map (HistoryRow.close runId tenantId ts)).filter (·.runId = id) =
      (l.filter (·.runId = id)).map (HistoryRow.close runId tenantId ts) := by
  rw [List.filter_map]
  congr 1
  refine List.filter_congr fun h _ => ?_
  simp

theorem attempts_untouched {l : List AttemptRow}
    (h : ∀ a ∈ l, a.id ≠ current) :
    l.map (AttemptRow.close current tenantId ts) = l := by
  refine (List.map_congr_left fun a ha => ?_).trans (List.map_id _)
  exact if_neg fun heq => h a ha heq.1

theorem history_untouched {l : List HistoryRow}
    (h : ∀ e ∈ l, e.runId ≠ runId) :
    l.map (HistoryRow.close runId tenantId ts) = l := by
  refine (List.map_congr_left fun e he => ?_).trans (List.map_id _)
  exact if_neg fun heq => h e he heq.1

end Filters

section Commits

variable {db db' : Db} {txn : Txn} {r : RunRow}

theorem Linked.attempts_other (hl : Linked db) {r₀ : RunRow}
    {current : String} (hr₀ : r₀ ∈ db.runs)
    (hcurrent : r₀.currentAttemptId = some current) (hne : r₀.id ≠ r.id) :
    ∀ a ∈ db.attempts.filter (·.runId = r.id), a.id ≠ current := by
  intro a ha hid
  obtain ⟨ha, hrun⟩ := List.mem_filter.1 ha
  obtain ⟨a₀, ha₀, hcur₀, hrun₀, _⟩ := hl.current r₀ hr₀
  rw [hcurrent] at hcur₀
  have hsame : a = a₀ :=
    hl.attempt_eq ha ha₀ (hid.trans (Option.some.inj hcur₀))
  apply hne
  rw [← hrun₀, ← hsame]
  simpa using hrun

theorem history_other {runId tenantId ts : String} (hne : runId ≠ r.id) :
    (db.stageHistory.filter (·.runId = r.id)).map
        (HistoryRow.close runId tenantId ts) =
      db.stageHistory.filter (·.runId = r.id) := by
  refine history_untouched fun e he heq => ?_
  have hrun : e.runId = r.id := by simpa using (List.mem_filter.1 he).2
  exact hne (heq.symm.trans hrun)

theorem sealedAttempts_some {current tenantId ts : String}
    (hne : current ≠ "") :
    db.sealedAttempts (some current) tenantId ts =
      db.attempts.map (AttemptRow.close current tenantId ts) :=
  if_neg hne

theorem view_other (hl : Linked db) (hfits : Fits (Stored db) txn)
    (h : db.Commits txn db') (hne : Txn.runId txn ≠ r.id) :
    view db' r = view db r := by
  unfold view
  cases h with
  | create hrun hattempt =>
    simp only [List.filter_append]
    simpa [Txn.runId] using hne
  | @append tenantId runId v current reason start trace ts attemptId entryId
      hhit hattempt =>
      obtain ⟨_, r₀, ⟨hr₀, hid₀, _⟩, _, hcur₀, _⟩ := hfits
      have hne : runId ≠ r.id := hne
      have hattempts : (db.sealedAttempts current tenantId ts).filter
          (·.runId = r.id) = db.attempts.filter (·.runId = r.id) := by
        obtain ⟨a, _, hcur, _, hne''⟩ := hl.current r₀ hr₀
        rw [← hcur₀, hcur, sealedAttempts_some hne'', attempts_closed]
        exact attempts_untouched
          (hl.attempts_other hr₀ hcur (by rwa [hid₀]))
      rw [List.filter_append, List.filter_append, hattempts,
        Db.closedHistory, history_closed, history_other hne]
      simp [hne]
  | @transition tenantId runId v current next ts entryId hhit =>
    obtain ⟨r₀, ⟨hr₀, hid₀, _⟩, _, hcur₀, _⟩ := hfits
    have hne : runId ≠ r.id := hne
    have hattempts : (if next ∈ Stage.terminalStages then
        db.attempts.map (AttemptRow.close current tenantId ts)
        else db.attempts).filter (·.runId = r.id) =
        db.attempts.filter (·.runId = r.id) := by
      split
      · rw [attempts_closed]
        exact attempts_untouched
          (hl.attempts_other hr₀ hcur₀ (by rwa [hid₀]))
      · rfl
    rw [List.filter_append, hattempts, Db.closedHistory, history_closed,
      history_other hne]
    simp [hne]
  | write hhit => rfl

theorem view_created (hl : Linked db) {row : RunRow}
    {attemptId entryId : String}
    (h : db.Commits (.create row attemptId entryId) db') :
    view db' { row with currentAttemptId := some attemptId } =
      View.created row attemptId entryId := by
  cases h with
  | create hrun hattempt =>
    have hattempts : db.attempts.filter (·.runId = row.id) = [] := by
      refine List.filter_eq_nil_iff.2 fun a ha => ?_
      obtain ⟨r, hr, hid⟩ := hl.attemptRun a ha
      simpa [← hid] using hrun r hr
    have hhistory : db.stageHistory.filter (·.runId = row.id) = [] := by
      refine List.filter_eq_nil_iff.2 fun e he => ?_
      obtain ⟨r, hr, hid⟩ := hl.entryRun e he
      simpa [← hid] using hrun r hr
    simp [view, View.created, List.filter_append, hattempts, hhistory]

theorem countAttempts_view (db : Db) (r : RunRow) :
    db.countAttempts r.id r.tenantId =
      (view db r).attempts.countP (·.tenantId = r.tenantId) := by
  unfold Db.countAttempts view
  rw [List.countP_filter]
  refine List.countP_congr fun a _ => ?_
  simp [and_comm]

theorem view_appended (hl : Linked db) (hr : r ∈ db.runs)
    {current : Option String} {reason : String} {start : Stage}
    {trace ts attemptId entryId : String}
    (hcurrent : r.currentAttemptId = current)
    (hstage : start = r.stage ∨ r.stage.isLegalTransition start = true)
    (h : db.Commits (.append r.tenantId r.id r.version current reason start
      trace ts attemptId entryId) db') :
    ∃ r' ∈ db'.runs, r'.id = r.id ∧
      View.Step (view db r) (.append r.tenantId r.id r.version current reason
        start trace ts attemptId entryId) (view db' r') := by
  obtain ⟨a, ha, hcur, hrun, hne⟩ := hl.current r hr
  obtain rfl : some a.id = current := hcur.symm.trans hcurrent
  have hafter : ∃ r' ∈ db'.runs, r'.id = r.id ∧ view db' r' =
      (view db r).appended a.id reason start trace ts attemptId entryId := by
    cases h with
    | append hhit hattempt =>
      refine ⟨_, set_mem_updatedRuns hr _ ts, rfl, View.ext rfl ?_ ?_⟩
      · have hcount := countAttempts_view db r
        simp only [view, View.appended, List.filter_append,
          sealedAttempts_some hne, attempts_closed] at hcount ⊢
        rw [hcount]
        simp only [RunRow.set, List.filter_cons, List.filter_nil,
          decide_true, if_true]
        rfl
      · simp [view, View.appended, Db.closedHistory, history_closed,
          RunRow.set]
  have hfresh : ∀ b ∈ db.attempts, b.id ≠ attemptId := by
    cases h with
    | append hhit hattempt => exact hattempt
  obtain ⟨r', hr', hid, hview⟩ := hafter
  refine ⟨r', hr', hid, ?_⟩
  rw [hview]
  refine View.Step.append (v := view db r) hcurrent hstage ?_ ?_
  · exact fun b hb => hfresh b (List.mem_filter.1 hb).1
  · intro e he
    obtain ⟨b, hb, hid⟩ := hl.entryAttempt e (List.mem_filter.1 he).1
    rw [← hid]
    exact hfresh b hb

theorem view_transitioned (hr : r ∈ db.runs) {current : String}
    {next : Stage} {ts entryId : String}
    (hcurrent : r.currentAttemptId = some current)
    (hlegal : r.stage.isLegalTransition next = true)
    (h : db.Commits (.transition r.tenantId r.id r.version current next ts
      entryId) db') :
    ∃ r' ∈ db'.runs, r'.id = r.id ∧
      View.Step (view db r) (.transition r.tenantId r.id r.version current
        next ts entryId) (view db' r') := by
  have hafter : ∃ r' ∈ db'.runs, r'.id = r.id ∧ view db' r' =
      (view db r).transitioned current next ts entryId := by
    cases h with
    | transition hhit =>
      refine ⟨_, set_mem_updatedRuns hr _ ts, rfl, View.ext rfl ?_ ?_⟩
      · by_cases hterm : next ∈ Stage.terminalStages
        · simp [view, View.transitioned, hterm, attempts_closed,
            RunRow.set]
        · simp [view, View.transitioned, hterm, RunRow.set]
      · simp [view, View.transitioned, Db.closedHistory, history_closed,
          RunRow.set]
  obtain ⟨r', hr', hid, hview⟩ := hafter
  refine ⟨r', hr', hid, ?_⟩
  rw [hview]
  exact View.Step.transition (v := view db r) hcurrent hlegal

theorem commits_untouched (h : db.Commits txn db') (hr : r ∈ db.runs)
    (hne : Txn.runId txn ≠ r.id) : r ∈ db'.runs := by
  have hmiss : ∀ {tenantId runId : String} {v : Int} {fields : Fields}
      {ts : String}, runId ≠ r.id →
      r ∈ db.updatedRuns tenantId runId v fields ts := by
    intro tenantId runId v fields ts hne
    refine List.mem_map.2 ⟨r, hr, if_neg fun hhit => ?_⟩
    exact hne (hit_iff.1 hhit).1.symm
  cases h with
  | create hrun hattempt => exact List.mem_append_left _ hr
  | append hhit hattempt => exact hmiss hne
  | transition hhit => exact hmiss hne
  | write hhit => exact hmiss hne

/-- A committed transaction is a step of every view. -/
theorem commits_view (hl : Linked db) (hfits : Fits (Stored db) txn)
    (h : db.Commits txn db') (hr : r ∈ db.runs) :
    ∃ r' ∈ db'.runs, r'.id = r.id ∧
      View.Step (view db r) txn (view db' r') := by
  by_cases hid : Txn.runId txn = r.id
  · have hsame : ∀ {tenantId r₀}, Stored db tenantId (Txn.runId txn) r₀ →
        r₀ = r ∧ r₀.tenantId = tenantId := fun hst =>
      ⟨hl.runKeys.eq hst.1 hr (hst.2.1.trans hid), hst.2.2⟩
    cases txn with
    | create row attemptId entryId =>
      cases h with
      | create hrun hattempt => exact absurd hid.symm (hrun r hr)
    | append tenantId runId v current reason start trace ts attemptId entryId =>
      obtain ⟨_, r₀, hst, rfl, hcur, hstage⟩ := hfits
      obtain ⟨rfl, rfl⟩ := hsame hst
      obtain rfl := hst.2.1
      exact view_appended hl hr hcur hstage h
    | transition tenantId runId v current next ts entryId =>
      obtain ⟨r₀, hst, rfl, hcur, hlegal⟩ := hfits
      obtain ⟨rfl, rfl⟩ := hsame hst
      obtain rfl := hst.2.1
      exact view_transitioned hr hcur hlegal h
    | write tenantId runId v fields ts =>
      obtain ⟨hstage, hcur, _, r₀, hst, rfl⟩ := hfits
      obtain ⟨rfl, rfl⟩ := hsame hst
      obtain rfl := hst.2.1
      cases h with
      | write hhit =>
        exact ⟨_, set_mem_updatedRuns hr fields ts, rfl,
          View.Step.write (v := view db r₀) hstage hcur⟩
  · refine ⟨r, commits_untouched h hr hid, rfl, ?_⟩
    rw [view_other hl hfits h hid]
    exact View.Step.other hid

theorem commits_view_inv (hl : Linked db) (hfits : Fits (Stored db) txn)
    (h : db.Commits txn db') {r' : RunRow} (hr' : r' ∈ db'.runs) :
    (∃ row attemptId entryId, txn = .create row attemptId entryId ∧
      view db' r' = View.created row attemptId entryId) ∨
    ∃ r ∈ db.runs, View.Step (view db r) txn (view db' r') := by
  have hold : (∃ r ∈ db.runs, r.id = r'.id) →
      ∃ r ∈ db.runs, View.Step (view db r) txn (view db' r') := by
    intro hthere
    obtain ⟨r, hr, hid⟩ := hthere
    obtain ⟨r'', hr'', hid'', hstep⟩ := commits_view hl hfits h hr
    obtain rfl : r'' = r' :=
      (commits_keyed h hl.runKeys).eq hr'' hr' (hid''.trans hid)
    exact ⟨r, hr, hstep⟩
  have hupdated : ∀ {tenantId runId : String} {v : Int} {fields : Fields}
      {ts : String}, r' ∈ db.updatedRuns tenantId runId v fields ts →
      ∃ r ∈ db.runs, r.id = r'.id := by
    intro tenantId runId v fields ts hmem
    obtain ⟨r, hr, rfl⟩ := List.mem_map.1 hmem
    refine ⟨r, hr, ?_⟩
    split <;> rfl
  have hcommits := h
  cases h with
  | create hrun hattempt =>
    rcases List.mem_append.1 hr' with hmem | hnew
    · exact Or.inr (hold ⟨r', hmem, rfl⟩)
    · obtain rfl := List.mem_singleton.1 hnew
      exact Or.inl ⟨_, _, _, rfl, view_created hl hcommits⟩
  | append hhit hattempt => exact Or.inr (hold (hupdated hr'))
  | transition hhit => exact Or.inr (hold (hupdated hr'))
  | write hhit => exact Or.inr (hold (hupdated hr'))

end Commits

-- ==== the rules

/-- The transaction does something `bad` to the row of its run. -/
def Named (bad : RunRow → Txn → Prop) (db : Db) (txn : Txn) : Prop :=
  ∃ r ∈ db.runs, r.id = Txn.runId txn ∧ bad r txn

theorem without_named {Pid : Type} {s : State Pid} (a : Act Pid) :
    Without (Named fun _ _ => False) s a := by
  cases a with
  | step p ans =>
    intro txn _ _ hbad
    obtain ⟨_, _, _, hno⟩ := hbad
    exact hno
  | call p c => trivial
  | crash p => trivial

/-- The check of `Without (Named bad)` on the way. -/
def avoids {Pid : Type} (bad : RunRow → Txn → Prop)
    [∀ r txn, Decidable (bad r txn)] (s : State Pid) : Act Pid → Bool
  | .step p _ =>
    match s.procs p with
    | some ⟨_, _, .op (.transact txn) _⟩ =>
      !(s.world.db.runs.any fun r => r.id = Txn.runId txn ∧ bad r txn)
    | _ => true
  | _ => true

theorem without_of_avoids {Pid : Type} {bad : RunRow → Txn → Prop}
    [∀ r txn, Decidable (bad r txn)] (s : State Pid) (a : Act Pid)
    (h : avoids bad s a = true) : Without (Named bad) s a := by
  cases a with
  | step p ans =>
    intro txn hasks _ hbad
    obtain ⟨r, hr, hid, hbad⟩ := hbad
    obtain ⟨⟨ph, lg, prog⟩, k, hp, rfl⟩ := hasks
    simp only [avoids, hp, Bool.not_eq_true', List.any_eq_false,
      decide_eq_true_eq] at h
    exact h r hr ⟨hid, hbad⟩
  | call p c => trivial
  | crash p => trivial

/-- A step of a view that is not `bad`. -/
def View.Good (bad : RunRow → Txn → Prop) (v : View) (txn : Txn) : Prop :=
  Txn.runId txn = v.row.id → ¬ bad v.row txn

/-- Every view of a linked database has the property. -/
structure Views (J : View → Prop) (db : Db) : Prop where
  linked : Linked db
  each : ∀ r ∈ db.runs, J (view db r)

/-- What a property of views has to meet to hold of every view that is
ever stored. -/
structure Inductive (bad : RunRow → Txn → Prop) (J : View → Prop) :
    Prop where
  created : ∀ {row : RunRow} {attemptId entryId : String},
    row.stage = .intake → J (View.created row attemptId entryId)
  step : ∀ {v v' : View} {txn : Txn}, J v → v.Step txn v' →
    v.Good bad txn → J v'

theorem Views.committed {bad : RunRow → Txn → Prop} {J : View → Prop}
    (hJ : Inductive bad J) {w w' : World} {txn : Txn} (h : Views J w.db)
    (hc : Committed (Named bad) w txn w') : Views J w'.db := by
  refine ⟨h.linked.commits hc.fits hc.commits, ?_⟩
  intro r' hr'
  rcases commits_view_inv h.linked hc.fits hc.commits hr' with
    ⟨row, attemptId, entryId, rfl, hview⟩ | ⟨r, hr, hstep⟩
  · rw [hview]
    exact hJ.created hc.fits.1
  · exact hJ.step (h.each r hr) hstep
      fun hid hbad => hc.good ⟨r, hr, hid.symm, hbad⟩

section Runs

variable {Pid : Type} [DecidableEq Pid] {bad : RunRow → Txn → Prop}
variable {s s' : State Pid} {J : View → Prop}

theorem views_orderly (hJ : Inductive bad J)
    (hs : machine.Reach Initial (Without (Named bad)) s) :
    Machine.Orderly (discipline (Named bad) fun w => Views J w.db) s :=
  store_orderly ⟨linked_empty, fun _ h => by cases h⟩
    (fun _ h hc => h.committed hJ hc) hs

/-- The rule for invariants: every view of every reachable database. -/
theorem reach_view (hJ : Inductive bad J)
    (hs : machine.Reach Initial (Without (Named bad)) s) {r : RunRow}
    (hr : r ∈ s.world.db.runs) : J (view s.world.db r) :=
  (views_orderly hJ hs).inv.2.each r hr

/-- The rule for relations: the views of one run along a run of the
system. -/
theorem leads_view (hJ : Inductive bad J) {R : View → View → Prop}
    (hrefl : ∀ v, R v v)
    (hstep : ∀ {v v' v'' : View} {txn : Txn}, J v' → R v v' →
      v'.Step txn v'' → v'.Good bad txn → R v v'')
    (hs : machine.Reach Initial (Without (Named bad)) s)
    (h : machine.Leads (Without (Named bad)) s s') {r : RunRow}
    (hr : r ∈ s.world.db.runs) :
    ∃ r' ∈ s'.world.db.runs, r'.id = r.id ∧
      R (view s.world.db r) (view s'.world.db r') := by
  induction h with
  | refl => exact ⟨r, hr, rfl, hrefl _⟩
  | @step s₁ s₂ a hleads hc happ ih =>
    obtain ⟨r₁, hr₁, hid₁, hrel⟩ := ih
    have hord := views_orderly hJ (hs.leads hleads)
    rcases orderly_committed hord hc happ with hsame | ⟨txn, hcom⟩
    · rw [hsame]
      exact ⟨r₁, hr₁, hid₁, hrel⟩
    · have hviews := hord.inv.2
      obtain ⟨r₂, hr₂, hid₂, hstep₂⟩ :=
        commits_view hviews.linked hcom.fits hcom.commits hr₁
      refine ⟨r₂, hr₂, hid₂.trans hid₁, ?_⟩
      exact hstep (hviews.each r₁ hr₁) hrel hstep₂
        fun hid hbad => hcom.good ⟨r₁, hr₁, hid.symm, hbad⟩

end Runs

end Service

end SdlcOs.Registry
