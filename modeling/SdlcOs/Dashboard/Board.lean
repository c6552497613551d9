/-
The fleet dashboard's board: how all runs of a tenant are fetched and who
may see which tenants (dashboard_service.py, auth.py), what a process
remembers of its polls (poll_state.py) and the card of a run (columns.py,
cards.py).

# Fetching

`_fetch_all_runs` reads `list_runs` page by page, by offset, until a page
is not full. Each page is one read of the registry's database, and
between two reads other processes may commit.

# Time

Times are in microseconds, as exact integers. The two figures a card
derives from its elapsed time by rounding floats are left out; the
elapsed time itself is kept.

# Scopes

A `frozenset` of tenant ids is a list without repetition, so that its
size and its sorted order are those of the source.
-/
import SdlcOs.Gates.Service
import SdlcOs.Orchestrator.Checkpoints
import SdlcOs.Registry.Service

namespace SdlcOs.Dashboard

open Data (Dict)
open Effects (Ctl)
open Registry

/-- `config.LIST_RUNS_PAGE_SIZE`. -/
def listRunsPageSize : Nat := 200

/-- The locals of the loop. -/
structure Fetch where
  runs : List RunRow
  offset : Nat

def Fetch.init : Fetch := ⟨[], 0⟩

/-- One turn of the loop, given what `list_runs` returned: a `RuntimeError`
carries the registry's error. -/
def Fetch.turn (f : Fetch) : Result (List RunRow) →
    Ctl Fetch (Except ErrorInfo (List RunRow))
  | .empty => .done (.ok f.runs)
  | .fail error => .done (.error error)
  | .ok page =>
    if page.length < listRunsPageSize then .done (.ok (f.runs ++ page))
    else .again ⟨f.runs ++ page, f.offset + listRunsPageSize⟩

/-- What `RegistryService.list_runs` makes of the rows it read. -/
def envelope : List RunRow → Result (List RunRow)
  | [] => .empty
  | runs => .ok runs

theorem listRuns_read (tenantId : TenantArg) (stage : Option String)
    (limit offset : Int) : Service.listRuns tenantId stage limit offset =
      .op (.listRuns tenantId stage limit offset) fun rows =>
        .ret (envelope rows) := by
  unfold Service.listRuns Service.ask Effects.Prog.perform
  rw [Effects.Prog.op_bind]
  refine congrArg _ (funext fun rows => ?_)
  cases rows with
  | nil => rfl
  | cons _ _ => rfl

/-- The database after transactions. -/
def after (db : Db) (txns : List Txn) : Db :=
  txns.foldl (fun db txn => (db.transact txn).1) db

/-- The loop from a turn on, with the transactions that are run between
its reads; nothing unless its last read comes after the last of them. -/
def fetchFrom (tenantId : TenantArg) (db : Db) (f : Fetch) :
    List (List Txn) → Option (Except ErrorInfo (List RunRow))
  | [] =>
    match f.turn (envelope
      (db.listRuns tenantId none listRunsPageSize f.offset)) with
    | .done r => some r
    | .again _ => none
  | txns :: rest =>
    match f.turn (envelope
      (db.listRuns tenantId none listRunsPageSize f.offset)) with
    | .done _ => none
    | .again f' => fetchFrom tenantId (after db txns) f' rest

/-- `_fetch_all_runs`. -/
def fetchAllRuns (tenantId : TenantArg) (db : Db)
    (between : List (List Txn)) : Option (Except ErrorInfo (List RunRow)) :=
  fetchFrom tenantId db .init between

-- ==== columns

/-- `columns.COLUMNS`, in the order of the source. -/
inductive Column : Type where
  | analysis
  | design
  | development
  | testing
  | prReview
  | commit
  deriving DecidableEq, Repr

/-- The column's text in the source. -/
def Column.name : Column → String
  | .analysis => "Analysis"
  | .design => "Design"
  | .development => "Development"
  | .testing => "Testing"
  | .prReview => "PR Review"
  | .commit => "Commit"

/-- `COLUMNS`. -/
def columns : List Column :=
  [.analysis, .design, .development, .testing, .prReview, .commit]

/-- `column_for_stage`: none for the two terminal stages. -/
def columnForStage : Stage → Option Column
  | .intake => some .analysis
  | .research => some .analysis
  | .planAuthoring => some .design
  | .planApprovalGate => some .design
  | .implementation => some .development
  | .verification => some .testing
  | .changeReviewGate => some .prReview
  | .packaging => some .commit
  | .retrospective => some .commit
  | .completed => none
  | .abandoned => none

/-- `is_shown_on_board`. -/
def isShownOnBoard (stage : Stage) : Bool := (columnForStage stage).isSome

-- ==== poll state

/-- Microseconds. -/
abbrev Micros : Type := Int

/-- `RunObservation`. -/
structure RunObservation where
  runId : String
  stage : Stage
  stageSince : Micros
  stageSinceIsExact : Bool
  checkpointPointer : Option String
  checkpointObservedCount : Nat
  bouncedFromTesting : Bool
  bouncedAt : Option Micros
  deriving DecidableEq, Repr

/-- `PollHistory`: what was observed of each run of each tenant. -/
abbrev PollHistory : Type := Dict (String × String) RunObservation

/-- One poll's look at a run. -/
structure Sighting where
  stage : Stage
  checkpointPointer : Option String
  now : Micros
  deriving DecidableEq, Repr

/-- The first observation of a run. -/
def RunObservation.first (runId : String) (s : Sighting) : RunObservation where
  runId := runId
  stage := s.stage
  stageSince := s.now
  stageSinceIsExact := false
  checkpointPointer := s.checkpointPointer
  checkpointObservedCount :=
    match s.checkpointPointer with
    | none => 0
    | some pointer => if pointer = "" then 0 else 1
  bouncedFromTesting := false
  bouncedAt := none

/-- The observation of a run that was observed before. -/
def RunObservation.next (prev : RunObservation) (s : Sighting) :
    RunObservation :=
  let stageChanged := s.stage ≠ prev.stage
  let checkpointChanged := s.checkpointPointer ≠ none ∧
    s.checkpointPointer ≠ prev.checkpointPointer
  let bounced : Bool × Option Micros :=
    if stageChanged ∧ prev.stage = .verification ∧
        s.stage = .implementation then
      (true, some s.now)
    else if stageChanged ∧ s.stage ≠ .implementation then (false, none)
    else (prev.bouncedFromTesting, prev.bouncedAt)
  { prev with
    stage := s.stage
    stageSince := if stageChanged then s.now else prev.stageSince
    stageSinceIsExact :=
      if stageChanged then true else prev.stageSinceIsExact
    checkpointPointer := s.checkpointPointer
    checkpointObservedCount :=
      if checkpointChanged then prev.checkpointObservedCount + 1
      else prev.checkpointObservedCount
    bouncedFromTesting := bounced.1
    bouncedAt := bounced.2 }

namespace PollHistory

/-- `observe`. -/
def observe (h : PollHistory) (tenantId runId : String) (s : Sighting) :
    PollHistory × RunObservation :=
  let obs :=
    match h.get (tenantId, runId) with
    | none => RunObservation.first runId s
    | some prev => prev.next s
  (h.set (tenantId, runId) obs, obs)

/-- `prune`: drop what is known of a tenant's other runs. -/
def prune (h : PollHistory) (tenantId : String)
    (activeRunIds : List String) : PollHistory :=
  let stale := h.keys.filter fun key =>
    key.1 = tenantId ∧ key.2 ∉ activeRunIds
  stale.foldl (fun h key => h.erase key) h

end PollHistory

-- ==== cards

/-- `trace_url`, at the default base. -/
def traceUrl (traceId : String) : String :=
  "https://observability.internal.example/traces/" ++ traceId

/-- `team_for_jira_key`: what stands before the first hyphen. -/
def teamForJiraKey (jiraKey : String) : Option String :=
  if '-' ∈ jiraKey.toList then
    let project := String.ofList (jiraKey.toList.takeWhile (· ≠ '-'))
    if project = "" then none else some project
  else none

/-- A card. `checkpoint` is there in the Development column only: the
count observed and the pointer. -/
structure Card where
  runId : String
  tenantId : String
  column : Option Column
  stage : Stage
  repository : String
  branch : String
  jiraIssue : String
  team : Option String
  cloud : Option String
  regionAz : Option String
  nodeId : Option String
  capacityClass : String
  traceId : String
  traceUrl : String
  elapsedInStage : Micros
  elapsedInStageIsExact : Bool
  registryUpdatedAt : String
  polledAt : Micros
  version : Int
  checkpoint : Option (Nat × Option String)
  bouncedBackFromTesting : Bool
  bouncedBackAt : Option Micros
  deriving DecidableEq, Repr

/-- `build_card`. -/
def buildCard (run : RunRow) (observation : RunObservation)
    (polledAt : Micros) : Card :=
  let column := columnForStage run.stage
  let bounced := column = some .development ∧
    observation.bouncedFromTesting = true
  { runId := run.id
    tenantId := run.tenantId
    column := column
    stage := run.stage
    repository := run.repo
    branch := run.branch
    jiraIssue := run.jiraKey
    team := teamForJiraKey run.jiraKey
    cloud := run.execCloudProvider
    regionAz := run.execRegionAz
    nodeId := run.execNodeId
    capacityClass := run.capacityClass
    traceId := run.traceId
    traceUrl := Dashboard.traceUrl run.traceId
    elapsedInStage := max 0 (polledAt - observation.stageSince)
    elapsedInStageIsExact := observation.stageSinceIsExact
    registryUpdatedAt := run.updatedAt
    polledAt := polledAt
    version := run.version
    checkpoint :=
      if column = some .development then
        some (observation.checkpointObservedCount, run.checkpointPointer)
      else none
    bouncedBackFromTesting := decide bounced
    bouncedBackAt := if bounced then observation.bouncedAt else none }

-- ==== filters

/-- `Filters`. -/
structure Filters where
  repository : Option String := none
  team : Option String := none
  cloud : Option String := none
  column : Option String := none
  autonomyLevel : Option String := none
  deriving DecidableEq, Repr

/-- A card passes: each filter that is given has its value. The autonomy
level is not applied. -/
def Filters.keep (f : Filters) (card : Card) : Bool :=
  (f.repository = none ∨ f.repository = some card.repository) ∧
    (f.team = none ∨ f.team = card.team) ∧
    (f.cloud = none ∨ f.cloud = card.cloud) ∧
    (f.column = none ∨ f.column = card.column.map Column.name)

/-- `_apply_filters`. -/
def applyFilters (allCards : List Card) (f : Filters) : List Card :=
  allCards.filter f.keep

-- ==== scopes

/-- A `frozenset` of tenant ids. -/
abbrev TenantSet : Type := { ids : List String // ids.Nodup }

namespace TenantSet

instance : Membership String TenantSet := ⟨fun s t => t ∈ s.val⟩

instance (t : String) (s : TenantSet) : Decidable (t ∈ s) :=
  inferInstanceAs (Decidable (t ∈ s.val))

/-- `frozenset()`. -/
def empty : TenantSet := ⟨[], List.nodup_nil⟩

/-- `frozenset({t})`. -/
def one (t : String) : TenantSet := ⟨[t], List.nodup_singleton t⟩

/-- `sorted(tenant_scope)`. -/
def sorted (s : TenantSet) : List String :=
  s.val.insertionSort fun a b => a ≤ b

end TenantSet

/-- `TenantScopeError`. -/
structure TenantScopeError where
  deriving DecidableEq, Repr

/-- The text of a `TenantScopeError`. -/
def TenantScopeError.message (_ : TenantScopeError) : String :=
  "identity is authorized for multiple tenants; pass an explicit " ++
  "tenant_id or scope=all_tenants (operator-only in practice) -- " ++
  "no implicit cross-tenant default"

/-- `resolve_scope`. -/
def resolveScope (authorized : TenantSet) (requested : Option String)
    (scopeAll : Bool) : Except TenantScopeError TenantSet :=
  match requested with
  | some t => if t ∈ authorized then .ok (.one t) else .ok .empty
  | none =>
    if scopeAll then .ok authorized
    else if authorized.val.length = 1 then .ok authorized
    else if authorized.val.length = 0 then .ok .empty
    else .error {}

-- ==== identities

/-- `Identity`. -/
structure Identity where
  token : String
  tenantIds : TenantSet
  role : String
  deriving DecidableEq, Repr

/-- `_IDENTITIES`. -/
abbrev Identities : Type := Dict String Identity

/-- `resolve_identity`; `none` is `UnknownIdentityError`. -/
def resolveIdentity (identities : Identities) (token : Option String) :
    Option Identity :=
  match token with
  | none => none
  | some token => if token = "" then none else identities.get token

/-- `authorized_tenant_ids`. -/
def authorizedTenantIds (identities : Identities) (token : Option String) :
    TenantSet :=
  match resolveIdentity identities token with
  | some identity => identity.tenantIds
  | none => .empty

end SdlcOs.Dashboard
