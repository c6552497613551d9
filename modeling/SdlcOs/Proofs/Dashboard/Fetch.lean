/-
What a fetch of all runs returns while others commit.

# The listing

To the fetch a database is the ids of the tenant's runs, latest first.
A transaction that creates no run of the tenant leaves this listing as
it is, and one that does adds the new run's id at its front
(`commits_listing`). The fetch reads the listings page by page
(`fetchFrom_drain`), so the library's `drain_exact` says when it returns
every run once.
-/
import SdlcOs.Dashboard.Board
import SdlcOs.Data.Paging
import SdlcOs.Proofs.Registry.Store

namespace SdlcOs.Dashboard

open Effects
open Registry
open Data (drain pageOf)

-- ==== the registry

/-- What holds of every state of the registry. -/
structure Held (db : Db) : Prop where
  keyed : Service.Keyed db
  named : ∀ r ∈ db.runs, r.tenantId ≠ ""

theorem named_updated {db : Db} (h : ∀ r ∈ db.runs, r.tenantId ≠ "")
    (tenant runId : String) (v : Int) (fields : Fields) (ts : String) :
    ∀ r ∈ db.updatedRuns tenant runId v fields ts, r.tenantId ≠ "" := by
  intro r hr
  obtain ⟨r₀, hr₀, rfl⟩ := List.mem_map.1 hr
  split
  · exact h r₀ hr₀
  · exact h r₀ hr₀

theorem reach_held {Pid : Type} [DecidableEq Pid] {s : Service.State Pid}
    {cond : Service.State Pid → Service.Act Pid → Prop}
    (hs : Service.machine.Reach Service.Initial cond s) :
    Held s.world.db := by
  have hinit : ∀ r ∈ Db.empty.runs, r.tenantId ≠ "" := by
    intro r hr
    cases hr
  have hstep : ∀ {w : Service.World} {txn : Txn} {w' : Service.World},
      Service.Keyed w.db → (∀ r ∈ w.db.runs, r.tenantId ≠ "") →
        Service.Committed (fun _ _ => False) w txn w' →
          ∀ r ∈ w'.db.runs, r.tenantId ≠ "" := by
    intro w txn w' _ h hcom
    have hfits := hcom.fits
    have hcommits := hcom.commits
    generalize w'.db = db' at hcommits
    cases hcommits with
    | create hrun hattempt =>
      obtain ⟨_, _, _, _, htenant, _⟩ := hfits
      intro r hr
      rcases List.mem_append.1 hr with hr | hr
      · exact h r hr
      · rw [List.mem_singleton.1 hr]
        exact htenant
    | append hhit hattempt => exact named_updated h _ _ _ _ _
    | transition hhit => exact named_updated h _ _ _ _ _
    | write hhit => exact named_updated h _ _ _ _ _
  exact ⟨Service.reach_keyed hs, (Service.store_orderly hinit hstep
    (hs.mono fun _ a _ => Service.without_none a)).inv.2⟩

-- ==== the listing

/-- The tenant's runs: their ids and creation times. -/
def keys (tenantId : TenantArg) (db : Db) : List (String × String) :=
  (db.runs.filter fun r => .text r.tenantId = tenantId).map fun r =>
    (r.id, r.createdAt)

/-- Latest first. -/
def newest (a b : String × String) : Prop := b.2 ≤ a.2

instance : DecidableRel newest := fun a b => inferInstanceAs (Decidable
  (b.2 ≤ a.2))

/-- The ids of the tenant's runs, in the order of `list_runs`. -/
def listing (tenantId : TenantArg) (db : Db) : List String :=
  ((keys tenantId db).insertionSort newest).map Prod.fst

theorem listRuns_ids {tenantId : TenantArg} (hvalid : tenantId.isValid = true)
    (db : Db) (limit offset : Nat) :
    (db.listRuns tenantId none limit offset).map (·.id) =
      pageOf limit offset (listing tenantId db) := by
  have hkey : (fun r : RunRow => decide (TenantArg.text r.tenantId = tenantId ∧
      ((none : Option String) = none ∨ none = some r.stage.token))) =
      fun r => decide (TenantArg.text r.tenantId = tenantId) := by
    simp
  unfold Db.listRuns
  rw [if_neg (by rw [hvalid]; exact Bool.noConfusion), hkey]
  unfold listing keys pageOf Db.page
  rw [← List.map_insertionSort (fun a b : RunRow => b.createdAt ≤ a.createdAt)
    newest (fun r => (r.id, r.createdAt)) _ fun _ _ _ _ => Iff.rfl]
  dsimp only
  rw [if_neg (by omega)]
  simp [List.map_take, Function.comp_def]

theorem mem_listing {tenantId : TenantArg} {db : Db} {id : String} :
    id ∈ listing tenantId db ↔
      ∃ r ∈ db.runs, .text r.tenantId = tenantId ∧ r.id = id := by
  unfold listing keys
  rw [((List.perm_insertionSort newest _).map Prod.fst).mem_iff]
  simp [and_assoc]

theorem nodup_listing {tenantId : TenantArg} {db : Db}
    (hkeyed : Service.Keyed db) : (listing tenantId db).Nodup := by
  unfold listing keys
  rw [((List.perm_insertionSort newest _).map Prod.fst).nodup_iff,
    List.map_map]
  exact hkeyed.sublist (List.filter_sublist.map _)

theorem sort_newest {x : String × String} {l : List (String × String)}
    (h : ∀ a ∈ l, a.2 < x.2) :
    (l ++ [x]).insertionSort newest = x :: l.insertionSort newest := by
  induction l with
  | nil => rfl
  | cons a l ih =>
    have hlater : ¬ newest a x := by
      unfold newest
      exact String.not_le.2 (h a List.mem_cons_self)
    rw [List.cons_append, List.insertionSort_cons,
      ih fun b hb => h b (List.mem_cons_of_mem _ hb),
      List.orderedInsert_of_not_le _ _ hlater, List.insertionSort_cons]

-- ==== what is commit

/-- The transaction creates a run of the tenant. -/
def Creates (tenantId : TenantArg) : Txn → Prop
  | .create row _ _ => .text row.tenantId = tenantId
  | _ => False

/-- A created run is later than those its tenant has. -/
def Later (db : Db) : Txn → Prop
  | .create row _ _ =>
    ∀ r ∈ db.runs, r.tenantId = row.tenantId → r.createdAt < row.createdAt
  | _ => True

/-- The transactions commit, one after the other. -/
def Commit (db : Db) : List Txn → Prop
  | [] => True
  | txn :: txns => (db.transact txn).2 = .committed ∧ Later db txn ∧
      Commit (db.transact txn).1 txns

/-- So do those between the reads of a fetch. -/
def CommitAll (db : Db) : List (List Txn) → Prop
  | [] => True
  | txns :: rest => Commit db txns ∧ CommitAll (after db txns) rest

section Steps

variable {tenantId : TenantArg} {db db' : Db} {txn : Txn}

theorem keys_updated {tenant runId : String} {v : Int} {fields : Fields}
    {ts : String}
    (h : db'.runs = db.updatedRuns tenant runId v fields ts) :
    keys tenantId db' = keys tenantId db := by
  have htenant : ∀ r : RunRow,
      (if r.hit tenant runId v then r.set fields ts else r).tenantId =
        r.tenantId := by
    intro r
    split
    · rfl
    · rfl
  have hkey : ∀ r : RunRow,
      ((if r.hit tenant runId v then r.set fields ts else r).id,
        (if r.hit tenant runId v then r.set fields ts else r).createdAt) =
          (r.id, r.createdAt) := by
    intro r
    split
    · rfl
    · rfl
  unfold keys
  rw [h, Db.updatedRuns, List.filter_map, List.map_map]
  simp only [Function.comp_def, htenant, hkey]

/-- Everything a committed transaction does to the listing. -/
theorem commits_listing (tenantId : TenantArg) (h : db.Commits txn db')
    (hlater : Later db txn) :
    (¬ Creates tenantId txn ∧ listing tenantId db' = listing tenantId db) ∨
      Creates tenantId txn ∧
        ∃ id, listing tenantId db' = id :: listing tenantId db := by
  cases h with
  | @create row _ _ hrun hattempt =>
    by_cases hown : TenantArg.text row.tenantId = tenantId
    · refine Or.inr ⟨hown, row.id, ?_⟩
      unfold listing keys
      rw [List.filter_append, List.filter_singleton]
      simp only [hown, decide_true, cond_true, List.map_append,
        List.map_cons, List.map_nil]
      rw [sort_newest, List.map_cons]
      intro a ha
      obtain ⟨r, hr, rfl⟩ := List.mem_map.1 ha
      obtain ⟨hmem, hsame⟩ := List.mem_filter.1 hr
      rw [decide_eq_true_eq, ← hown] at hsame
      exact hlater r hmem (TenantArg.text.inj hsame)
    · refine Or.inl ⟨hown, ?_⟩
      unfold listing keys
      rw [List.filter_append, List.filter_singleton]
      simp [hown]
  | append hhit hattempt =>
    refine Or.inl ⟨id, ?_⟩
    rw [listing, keys_updated rfl, listing]
  | transition hhit =>
    refine Or.inl ⟨id, ?_⟩
    rw [listing, keys_updated rfl, listing]
  | write hhit =>
    refine Or.inl ⟨id, ?_⟩
    rw [listing, keys_updated rfl, listing]

theorem commit_listing (tenantId : TenantArg) {txns : List Txn} :
    ∀ {db : Db}, Commit db txns →
    listing tenantId db <:+ listing tenantId (after db txns) ∧
      (listing tenantId (after db txns) = listing tenantId db ↔
        ∀ txn ∈ txns, ¬ Creates tenantId txn) := by
  induction txns with
  | nil =>
    intro db _
    exact ⟨List.suffix_refl _, fun _ _ h => (nomatch h), fun _ => rfl⟩
  | cons txn txns ih =>
    intro db h
    obtain ⟨hcommitted, hlater, hrest⟩ := h
    have hcommits := Db.transact_committed hcommitted
    obtain ⟨hsuffix, hiff⟩ := ih hrest
    have hafter : after db (txn :: txns) =
        after (db.transact txn).1 txns := rfl
    rw [hafter, List.forall_mem_cons]
    rcases commits_listing tenantId hcommits hlater with
      ⟨hnot, hsame⟩ | ⟨hcreates, id, hgrown⟩
    · rw [← hsame, hiff]
      exact ⟨hsuffix, fun h => ⟨hnot, h⟩, fun h => h.2⟩
    · rw [hgrown] at hsuffix
      refine ⟨(List.suffix_cons _ _).trans hsuffix, ?_, ?_⟩
      · intro hsame
        have hlen := hsuffix.length_le
        rw [hsame, List.length_cons] at hlen
        omega
      · intro h
        exact absurd hcreates h.1

end Steps

-- ==== the fetch

/-- The listings that the reads after the first one see. -/
def views (tenantId : TenantArg) (db : Db) :
    List (List Txn) → List (List String)
  | [] => []
  | txns :: rest => listing tenantId (after db txns) ::
      views tenantId (after db txns) rest

section Runs

variable {tenantId : TenantArg}

theorem views_chain {between : List (List Txn)} : ∀ {db : Db},
    CommitAll db between →
      (listing tenantId db :: views tenantId db between).IsChain
        (· <:+ ·) := by
  induction between with
  | nil =>
    intro db _
    exact List.isChain_singleton _
  | cons txns rest ih =>
    intro db h
    rw [views, List.isChain_cons_cons]
    exact ⟨(commit_listing tenantId h.1).1, ih h.2⟩

theorem views_still {between : List (List Txn)} : ∀ {db : Db},
    CommitAll db between →
      ((∀ l ∈ views tenantId db between, l = listing tenantId db) ↔
        ∀ txns ∈ between, ∀ txn ∈ txns, ¬ Creates tenantId txn) := by
  induction between with
  | nil =>
    intro db _
    simp [views]
  | cons txns rest ih =>
    intro db h
    have hiff := (commit_listing tenantId h.1).2
    rw [views, List.forall_mem_cons, List.forall_mem_cons, ← hiff]
    constructor
    · intro ⟨hsame, hall⟩
      rw [← hsame] at hall
      exact ⟨hsame, (ih h.2).1 hall⟩
    · intro ⟨hsame, hall⟩
      refine ⟨hsame, ?_⟩
      rw [← hsame]
      exact (ih h.2).2 hall

theorem turn_envelope (f : Fetch) (rows : List RunRow) :
    f.turn (envelope rows) =
      if rows.length < listRunsPageSize then .done (.ok (f.runs ++ rows))
      else .again ⟨f.runs ++ rows, f.offset + listRunsPageSize⟩ := by
  cases rows with
  | nil =>
    rw [List.append_nil]
    rfl
  | cons _ _ => rfl

/-- The fetch reads the listings page by page, and raises nothing. -/
theorem fetchFrom_drain (hvalid : tenantId.isValid = true)
    (between : List (List Txn)) : ∀ (db : Db) (f : Fetch),
      (fetchFrom tenantId db f between).map
          (Except.map (List.map (·.id))) =
        (drain listRunsPageSize f.offset
          (listing tenantId db :: views tenantId db between)).map
            fun ids => .ok (f.runs.map (·.id) ++ ids) := by
  induction between with
  | nil =>
    intro db f
    have hids := listRuns_ids hvalid db listRunsPageSize f.offset
    have hlen := congrArg List.length hids
    rw [List.length_map] at hlen
    rw [fetchFrom, turn_envelope, views, drain, hlen]
    by_cases hshort : (pageOf listRunsPageSize f.offset
        (listing tenantId db)).length < listRunsPageSize
    · rw [if_pos hshort, if_pos hshort, ← hids]
      simp [Except.map]
    · rw [if_neg hshort, if_neg hshort]
      rfl
  | cons txns rest ih =>
    intro db f
    have hids := listRuns_ids hvalid db listRunsPageSize f.offset
    have hlen := congrArg List.length hids
    rw [List.length_map] at hlen
    rw [fetchFrom, turn_envelope, views, drain, hlen]
    by_cases hshort : (pageOf listRunsPageSize f.offset
        (listing tenantId db)).length < listRunsPageSize
    · rw [if_pos hshort, if_pos hshort]
      rfl
    · rw [if_neg hshort, if_neg hshort]
      dsimp only
      rw [ih, ← hids, Option.map_map]
      simp [Function.comp_def]

theorem views_take (between : List (List Txn)) : ∀ (db : Db) (n : Nat),
    views tenantId db (between.take n) =
      (views tenantId db between).take n := by
  induction between with
  | nil =>
    intro db n
    rw [List.take_nil, views, List.take_nil]
  | cons txns rest ih =>
    intro db n
    cases n with
    | zero => rfl
    | succ n => rw [List.take_succ_cons, views, views, List.take_succ_cons, ih]

theorem views_idle (n : Nat) (between : List (List Txn)) : ∀ db : Db,
    views tenantId db (between ++ List.replicate n []) =
      views tenantId db between ++ List.replicate n
        ((listing tenantId db :: views tenantId db between).getLast
          (List.cons_ne_nil _ _)) := by
  induction between with
  | nil =>
    intro db
    rw [List.nil_append, views, List.nil_append, List.getLast_singleton]
    induction n with
    | zero => rfl
    | succ n ih => exact congrArg (listing tenantId db :: ·) ih
  | cons txns rest ih =>
    intro db
    rw [List.cons_append, views, ih, views, List.cons_append,
      List.getLast_cons_cons]

theorem fetch_returns (hvalid : tenantId.isValid = true) (db : Db)
    (between : List (List Txn)) : ∃ between',
      (between' <+: between ∨
        ∃ n, between' = between ++ List.replicate n []) ∧
        (fetchAllRuns tenantId db between').isSome := by
  have hsome : ∀ between', (fetchAllRuns tenantId db between').isSome =
      (drain listRunsPageSize 0
        (listing tenantId db :: views tenantId db between')).isSome := by
    intro between'
    have h := congrArg Option.isSome
      (fetchFrom_drain hvalid between' db .init)
    rw [Option.isSome_map, Option.isSome_map] at h
    exact h
  obtain ⟨ls, hls, hdrain⟩ := Data.drain_returns
    (by decide : 0 < listRunsPageSize) (views tenantId db between) 0 (listing tenantId db)
  rcases hls with hpre | ⟨n, rfl⟩
  · refine ⟨between.take ls.length, Or.inl (List.take_prefix _ _), ?_⟩
    rw [hsome, views_take, ← List.prefix_iff_eq_take.1 hpre]
    exact hdrain
  · refine ⟨between ++ List.replicate n [], Or.inr ⟨n, rfl⟩, ?_⟩
    rw [hsome, views_idle]
    exact hdrain

/-- A fetch returns each run that was there when it began exactly once if
and only if no run of the tenant is created between two of its reads. -/
theorem fetch_iff {db : Db} (hheld : Held db) {between : List (List Txn)}
    (hcommit : CommitAll db between) {runs : List RunRow}
    (h : fetchAllRuns tenantId db between = some (.ok runs)) :
    (∀ r ∈ db.runs, .text r.tenantId = tenantId →
        (runs.map (·.id)).count r.id = 1) ↔
      ∀ txns ∈ between, ∀ txn ∈ txns, ¬ Creates tenantId txn := by
  cases hvalid : tenantId.isValid with
  | false =>
    -- no run has such a tenant, and the first read is the last
    have hnone : ∀ r ∈ db.runs, .text r.tenantId ≠ tenantId := by
      intro r hr heq
      have hname := hheld.named r hr
      rw [← heq, TenantArg.isValid] at hvalid
      simp [hname] at hvalid
    cases between with
    | nil =>
      refine ⟨fun _ txns h => ?_, fun _ r hr heq => ?_⟩
      · cases h
      · exact absurd heq (hnone r hr)
    | cons txns rest =>
      rw [fetchAllRuns, fetchFrom, Db.listRuns, if_pos hvalid] at h
      cases h
  | true =>
    have hdrain := fetchFrom_drain hvalid between db .init
    have hfrom : fetchFrom tenantId db .init between = some (.ok runs) := h
    rw [hfrom] at hdrain
    obtain ⟨ids, hids, heq⟩ := Option.map_eq_some_iff.1 hdrain.symm
    obtain rfl : ids = runs.map (·.id) := Except.ok.inj heq
    have hexact := Data.drain_exact (by decide)
      (nodup_listing hheld.keyed) (views_chain hcommit) hids
    rw [← views_still hcommit, ← hexact]
    constructor
    · intro hall id hid
      obtain ⟨r, hr, htenant, rfl⟩ := mem_listing.1 hid
      exact hall r hr htenant
    · intro hall r hr htenant
      exact hall r.id (mem_listing.2 ⟨r, hr, htenant, rfl⟩)

theorem fetch_ok {db : Db} {between : List (List Txn)}
    {r : Except ErrorInfo (List RunRow)}
    (h : fetchAllRuns tenantId db between = some r) : ∃ runs, r = .ok runs := by
  cases hvalid : tenantId.isValid with
  | false =>
    cases between with
    | nil =>
      rw [fetchAllRuns, fetchFrom, Db.listRuns, if_pos hvalid] at h
      exact ⟨[], (Option.some.inj h).symm⟩
    | cons txns rest =>
      rw [fetchAllRuns, fetchFrom, Db.listRuns, if_pos hvalid] at h
      cases h
  | true =>
    have hdrain := fetchFrom_drain hvalid between db .init
    have hfrom : fetchFrom tenantId db .init between = some r := h
    rw [hfrom] at hdrain
    obtain ⟨ids, _, heq⟩ := Option.map_eq_some_iff.1 hdrain.symm
    cases r with
    | error e => cases heq
    | ok runs => exact ⟨runs, rfl⟩

theorem fetch_two (hvalid : tenantId.isValid = true) (db : Db)
    (txns : List Txn)
    (hfull : listRunsPageSize ≤ (listing tenantId db).length)
    (hshort : (listing tenantId (after db txns)).length <
      2 * listRunsPageSize) :
    (fetchAllRuns tenantId db [txns]).isSome := by
  have h := congrArg Option.isSome (fetchFrom_drain hvalid [txns] db .init)
  rw [Option.isSome_map, Option.isSome_map, views, views, drain, if_neg,
    Option.isSome_map, drain, if_pos] at h
  · exact h
  · rw [Data.length_pageOf, Fetch.init]
    dsimp only
    omega
  · rw [Data.length_pageOf, Fetch.init]
    dsimp only
    omega

end Runs

-- ==== runs

/-- A run of the tenant `acme`. -/
def storedRun (id createdAt : String) : RunRow where
  id := id
  tenantId := "acme"
  jiraKey := "KEY-1"
  repo := "repo"
  branch := "branch"
  worktree := none
  stage := .intake
  execCloudProvider := none
  execRegionAz := none
  execNodeId := none
  capacityClass := "spot"
  checkpointPointer := none
  traceId := "trace"
  currentAttemptId := none
  version := 1
  createdAt := createdAt
  updatedAt := createdAt

/-- The id of a stored run. -/
def storedId (i : Nat) : String := String.ofList (List.replicate i 'r')

/-- A number of stored runs. -/
def storedRuns (n : Nat) : Db where
  runs := (List.range n).map fun i => storedRun (storedId i) "2026-01-01"
  attempts := []
  stageHistory := []

/-- Another one is created. -/
def oneMore : Txn := .create (storedRun "new" "2026-01-02") "attempt" "entry"

theorem storedId_inj {i j : Nat} (h : storedId i = storedId j) : i = j := by
  have hlen := congrArg List.length (String.ofList_inj.1 h)
  rwa [List.length_replicate, List.length_replicate] at hlen

theorem storedId_ne (i : Nat) : storedId i ≠ "new" := by
  intro h
  have hnew : "new" = String.ofList ['n', 'e', 'w'] := by decide
  rw [hnew, storedId, String.ofList_inj] at h
  have hmem : 'n' ∈ List.replicate i 'r' := by
    rw [h]
    exact List.mem_cons_self
  exact absurd (List.eq_of_mem_replicate hmem) (by decide)

theorem mem_storedRuns {n : Nat} {r : RunRow} (h : r ∈ (storedRuns n).runs) :
    ∃ i, r = storedRun (storedId i) "2026-01-01" := by
  obtain ⟨i, _, rfl⟩ := List.mem_map.1 h
  exact ⟨i, rfl⟩

theorem storedRuns_held (n : Nat) : Held (storedRuns n) := by
  refine ⟨?_, fun r hr => ?_⟩
  · unfold Service.Keyed storedRuns
    rw [List.map_map]
    exact List.nodup_range.map fun i j h => storedId_inj h
  · obtain ⟨i, rfl⟩ := mem_storedRuns hr
    exact (by decide : "acme" ≠ "")

theorem length_storedRuns (n : Nat) :
    (listing (.text "acme") (storedRuns n)).length = n := by
  unfold listing keys storedRuns storedRun
  simp [List.filter_map, Function.comp_def]

theorem create_commits {db : Db} {row : RunRow} {attemptId entryId : String}
    (hrun : ∀ r ∈ db.runs, r.id ≠ row.id)
    (hattempt : ∀ a ∈ db.attempts, a.id ≠ attemptId)
    (hentry : ∀ h ∈ db.stageHistory, h.id ≠ entryId) :
    (db.transact (.create row attemptId entryId)).2 = .committed := by
  have hins : db.insertRun row = .ok { db with runs := db.runs ++ [row] } := by
    unfold Db.insertRun
    rw [if_neg]
    simpa using hrun
  unfold Db.transact Db.create
  dsimp only
  rw [hins]
  have hfree : ∀ {ρ : Type} (f : ρ → String) (id : String) (l : List ρ),
      (∀ x ∈ l, f x ≠ id) → l.any (fun x => f x = id) = false := by
    intro ρ f id l h
    simpa using h
  simp [Db.insertAttempt, Db.insertStageHistory, hfree _ _ _ hattempt,
    hfree _ _ _ hentry, Db.settle, Except.map, Bind.bind, Except.bind,
    Pure.pure, Except.pure]

theorem oneMore_commits (n : Nat) : CommitAll (storedRuns n) [[oneMore]] := by
  refine ⟨⟨create_commits ?_ ?_ ?_, ?_, trivial⟩, trivial⟩
  · intro r hr
    obtain ⟨i, rfl⟩ := mem_storedRuns hr
    exact storedId_ne i
  · intro a ha
    cases ha
  · intro h hh
    cases hh
  · intro r hr _
    obtain ⟨i, rfl⟩ := mem_storedRuns hr
    show "2026-01-01" < "2026-01-02"
    decide

/-- A fetch returns each run that was there when it began exactly once if
and only if no run of the tenant is created between two of its reads. -/
theorem fetch_exact {tenantId : TenantArg} {db : Db} (hheld : Held db)
    {between : List (List Txn)} (hcommit : CommitAll db between) {r : Except ErrorInfo (List RunRow)}
    (h : fetchAllRuns tenantId db between = some r) :
    ∃ runs, r = .ok runs ∧
      ((∀ row ∈ db.runs, .text row.tenantId = tenantId →
          (runs.map (·.id)).count row.id = 1) ↔
        ∀ txns ∈ between, ∀ txn ∈ txns, ¬ Creates tenantId txn) := by
  obtain ⟨runs, rfl⟩ := fetch_ok h
  exact ⟨runs, rfl, fetch_iff hheld hcommit h⟩

/-- A full page, and then one that is empty. -/
theorem fetch_exact_full : ∃ runs,
    fetchAllRuns (.text "acme") (storedRuns 200) [[]] = some (.ok runs) ∧
      ∀ row ∈ (storedRuns 200).runs, .text row.tenantId = TenantArg.text "acme" →
        (runs.map (·.id)).count row.id = 1 := by
  have hlen : (listing (.text "acme") (storedRuns 200)).length = 200 :=
    length_storedRuns 200
  have hsome := fetch_two (by decide) (storedRuns 200) []
    (Nat.le_of_eq hlen.symm) (by rw [after, List.foldl_nil, hlen]; decide)
  obtain ⟨r, hr⟩ := Option.isSome_iff_exists.1 hsome
  have hcommit : CommitAll (storedRuns 200) [[]] := ⟨trivial, trivial⟩
  obtain ⟨runs, rfl, hiff⟩ := fetch_exact (storedRuns_held 200) hcommit hr
  refine ⟨runs, hr, hiff.2 ?_⟩
  intro txns htxns txn htxn
  rw [List.mem_singleton.1 htxns] at htxn
  cases htxn

/-- Two hundred runs are read in two pages. A run that is created in
between makes the second page the last one of the first. -/
theorem fetch_repeats : ¬ ∀ (tenantId : TenantArg) (db : Db)
    (between : List (List Txn)) (runs : List RunRow), Held db →
      CommitAll db between →
        fetchAllRuns tenantId db between = some (.ok runs) →
          ∀ r ∈ db.runs, .text r.tenantId = tenantId →
            (runs.map (·.id)).count r.id = 1 := by
  intro h
  have hlen : (listing (.text "acme") (storedRuns 200)).length = 200 :=
    length_storedRuns 200
  have hmore : (listing (.text "acme")
      (after (storedRuns 200) [oneMore])).length < 2 * listRunsPageSize := by
    have hcommit := (oneMore_commits 200).1
    rcases commits_listing (.text "acme")
      (Db.transact_committed hcommit.1) hcommit.2.1 with
      ⟨_, hsame⟩ | ⟨_, id, hgrown⟩
    · rw [after, List.foldl_cons, List.foldl_nil, hsame, hlen]
      decide
    · rw [after, List.foldl_cons, List.foldl_nil, hgrown, List.length_cons,
        hlen]
      decide
  obtain ⟨r, hr⟩ := Option.isSome_iff_exists.1
    (fetch_two (by decide) _ _ (Nat.le_of_eq hlen.symm) hmore)
  obtain ⟨runs, rfl⟩ := fetch_ok hr
  have hall := h _ _ _ runs (storedRuns_held 200) (oneMore_commits 200) hr
  exact (fetch_iff (storedRuns_held 200) (oneMore_commits 200) hr).1 hall _
    List.mem_cons_self _ List.mem_cons_self rfl

end SdlcOs.Dashboard
