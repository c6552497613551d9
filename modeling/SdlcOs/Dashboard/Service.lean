/-
`DashboardService.poll` and the HTTP handler that serves it
(dashboard_service.py, http_app.py), as processes: one per request, over
the registry's database and the poll history they share.

# Accesses

A poll reads the registry page by page, then prunes and observes under
the history's lock; each of these is one atomic access. Between two of
them other requests' threads go on, and the registry's own processes
commit: what they committed is the environment's part in an access.

# The ghost

`deeds` lists what was done to the history, latest first. No request
reads it.

# Polls, written down

The examples of the proof modules start from one viewer, whose tenant has
three runs that are under way, in two repositories, and one that is over.
-/
import SdlcOs.Dashboard.Board

namespace SdlcOs.Dashboard

open Data (Dict)
open Effects
open Registry

-- ==== requests

/-- What was done to the poll history. -/
inductive Deed : Type where
  | observe (tenantId runId : String) (s : Sighting)
  | prune (tenantId : String) (activeRunIds : List String)
  deriving DecidableEq, Repr

/-- What a request's thread asks for. -/
inductive Req : Type where
  | clock
  | listRuns (tenantId : String) (limit offset : Nat)
  | prune (tenantId : String) (activeRunIds : List String)
  | observe (tenantId runId : String) (s : Sighting)
  deriving DecidableEq, Repr

/-- What it is answered with. -/
@[reducible] def Resp : Req → Type
  | .clock => Micros
  | .listRuns .. => Result (List RunRow)
  | .prune .. => Unit
  | .observe .. => RunObservation

/-- The environment's part: the time, and what was committed before the
registry is read. -/
@[reducible] def Env : Req → Type
  | .clock => Micros
  | .listRuns .. => List Txn
  | _ => Unit

/-- The environment's moves, as one type. -/
inductive Answer : Type where
  | auto
  | time (now : Micros)
  | commits (txns : List Txn)
  deriving DecidableEq, Repr

/-- Read an environment move as the part a request needs. -/
def decode : (e : Req) → Answer → Option (Env e)
  | .clock, .time now => some now
  | .listRuns .., .commits txns => some txns
  | .prune .., .auto => some ()
  | .observe .., .auto => some ()
  | _, _ => none

/-- The registry's database, and the poll history. -/
structure World where
  db : Db
  history : PollHistory
  deeds : List Deed

/-- What a request does. -/
def exec (w : World) : (e : Req) → Env e → World × Resp e
  | .clock, now => (w, now)
  | .listRuns t limit offset, txns =>
    let db := after w.db txns
    ({ w with db := db },
      envelope (db.listRuns (.text t) none limit offset))
  | .prune t active, _ =>
    ({ w with history := w.history.prune t active
              deeds := .prune t active :: w.deeds }, ())
  | .observe t run s, _ =>
    let r := w.history.observe t run s
    ({ w with history := r.1, deeds := .observe t run s :: w.deeds }, r.2)

-- ==== handlers

/-- A GET request: its path, its `Authorization` header and its parsed
query. -/
structure Get where
  path : String
  authorization : String
  query : Dict String (List String)

/-- `_first`. -/
def Get.first (g : Get) (key : String) : Option String :=
  match g.query.get key with
  | some (value :: _) => some value
  | _ => none

/-- `_bearer_token`. -/
def bearerToken (value : String) : Option String :=
  if "Bearer ".toList <+: value.toList then
    let token := Gates.strip (String.ofList (value.toList.drop 7))
    if token = "" then none else some token
  else none

/-- The token a request is made with: the header's, else the query's. -/
def Get.token (g : Get) : Option String :=
  (bearerToken g.authorization).or (g.first "token")

/-- The filters of a request. -/
def Get.filters (g : Get) : Filters where
  repository := g.first "repository"
  team := g.first "team"
  cloud := g.first "cloud"
  column := g.first "column"
  autonomyLevel := g.first "autonomy_level"

/-- The served view. -/
structure Payload where
  polledAt : Micros
  pollIntervalSeconds : Nat
  tenantIdsViewed : List String
  columns : List Column
  cards : List Card
  notes : List String
  deriving DecidableEq, Repr

/-- `UNSUPPORTED_FILTER_NOTE`. -/
def unsupportedFilterNote : String :=
  "autonomy_level is accepted but not applied: the Run Registry schema " ++
  "(run_registry.models.Run) has no autonomy-level field to filter on. " ++
  "Flagged for human review -- see README.md 'Known gaps'."

/-- A reply: a status and what it carries. -/
inductive Reply : Type where
  | health
  | notFound
  | static (name : String)
  | badRequest (message : String)
  | cards (payload : Payload)
  deriving DecidableEq, Repr

/-- The status a reply is sent with. -/
def Reply.status : Reply → Nat
  | .health => 200
  | .notFound => 404
  | .static _ => 200
  | .badRequest _ => 400
  | .cards _ => 200

/-- What is left of a poll: the tenants still to visit, the page loop of
one of them, or the runs still to observe. -/
inductive Todo : Type where
  | tenants (rest : List String)
  | fetching (tenantId : String) (rest : List String) (f : Fetch)
  | observing (tenantId : String) (rest : List String) (runs : List RunRow)

/-- The locals of `poll`. -/
structure Poll where
  scope : TenantSet
  filters : Filters
  polledAt : Micros
  allCards : List Card
  todo : Todo

/-- What `poll` returns. -/
def Poll.payload (p : Poll) : Payload where
  polledAt := p.polledAt
  pollIntervalSeconds := 3
  tenantIdsViewed := p.scope.sorted
  columns := Dashboard.columns
  cards := applyFilters p.allCards p.filters
  notes := if p.filters.autonomyLevel = none then []
    else [unsupportedFilterNote]

/-- Service code. It raises the registry's error as a `RuntimeError`. -/
abbrev Code : Type → Type := Prog Resp ErrorInfo

/-- Make one request. -/
def ask (e : Req) : Code (Resp e) := Prog.perform e

/-- One turn of `poll`. -/
def Poll.turn (p : Poll) : Code (Ctl Poll Reply) :=
  match p.todo with
  | .tenants [] => pure (.done (.cards p.payload))
  | .tenants (t :: rest) =>
    pure (.again { p with todo := .fetching t rest .init })
  | .fetching t rest f => do
    match f.turn (← ask (.listRuns t listRunsPageSize f.offset)) with
    | .again f' => pure (.again { p with todo := .fetching t rest f' })
    | .done (.error e) => .raise e
    | .done (.ok runs) => do
      ask (.prune t (runs.map (·.id)))
      pure (.again { p with todo := .observing t rest runs })
  | .observing _ rest [] => pure (.again { p with todo := .tenants rest })
  | .observing t rest (run :: runs) =>
    if isShownOnBoard run.stage = false then
      pure (.again { p with todo := .observing t rest runs })
    else do
      let observation ← ask (.observe t run.id
        ⟨run.stage, run.checkpointPointer, p.polledAt⟩)
      let card := buildCard run observation p.polledAt
      pure (.again { p with
        allCards := p.allCards ++ [card]
        todo := .observing t rest runs })

/-- The start of `poll`. -/
def poll (scope : TenantSet) (filters : Filters) : Code (Ctl Poll Reply) := do
  let polledAt ← ask .clock
  pure (.again
    { scope := scope, filters := filters, polledAt := polledAt
      allCards := [], todo := .tenants scope.sorted })

section Handler

variable (identities : Identities)

/-- The tenants a request is served: those of its identity, narrowed as
it asks. -/
def Get.scope (g : Get) : Except TenantScopeError TenantSet :=
  resolveScope (authorizedTenantIds identities g.token)
    (g.first "tenant_id") (g.first "scope" = some "all_tenants")

/-- `_handle_cards`. -/
def handleCards (g : Get) : Code (Ctl Poll Reply) :=
  match g.scope identities with
  | .error e => pure (.done (.badRequest e.message))
  | .ok scope => poll scope g.filters

/-- `do_GET`. -/
def doGet (g : Get) : Code (Ctl Poll Reply) :=
  if g.path = "/healthz" then pure (.done .health)
  else if g.path = "/api/cards" then handleCards identities g
  else if g.path = "/" ∨ g.path = "/index.html" then
    pure (.done (.static "index.html"))
  else pure (.done .notFound)

/-- The dashboard's server: a process per request. -/
def machine : Machine Resp Env Answer World ErrorInfo Get Poll Reply where
  exec := exec
  decode := decode
  onCall := fun w _ => w
  onStop := fun w => w
  entry := doGet identities
  body := Poll.turn

end Handler

/-- A process that has just started: it remembers nothing of a registry
with some runs in it. -/
def Initial (w : World) : Prop :=
  w.history = Dict.empty ∧ w.deeds = []

/-- System states of the server's threads. -/
abbrev State (Pid : Type) : Type :=
  Sys Resp World ErrorInfo Get Poll Reply Pid

/-- The actions of such a system. -/
abbrev Act (Pid : Type) : Type := Action Pid Answer Get

-- ==== polls, written down

/-- A run, and its first attempt. -/
def sampleRun (id tenantId repo : String) (stage : Stage)
    (createdAt : String) : RunRow × AttemptRow :=
  ({ id := id, tenantId := tenantId, jiraKey := "KEY-1"
     repo := repo, branch := "branch", worktree := none
     stage := stage, execCloudProvider := none
     execRegionAz := none, execNodeId := none, capacityClass := "spot"
     checkpointPointer := none, traceId := "trace"
     currentAttemptId := some (id ++ "-1"), version := 6
     createdAt := createdAt, updatedAt := "t5" },
   { id := id ++ "-1", runId := id, tenantId := tenantId
     attemptNumber := 1, reason := "initial", startingStage := .intake
     traceId := "trace", startTs := createdAt, endTs := none
     createdAt := createdAt })

/-- Some runs of two tenants. -/
def sampleRuns : List (RunRow × AttemptRow) :=
  [sampleRun "run" "tenant-a" "repo" .verification "t0",
    sampleRun "over" "tenant-a" "repo" .completed "t1",
    sampleRun "docs" "tenant-a" "docs" .research "t2",
    sampleRun "foreign" "tenant-b" "repo" .research "t3",
    sampleRun "later" "tenant-a" "repo" .implementation "t4"]

/-- A registry with these. -/
def fleet : Db where
  runs := sampleRuns.map Prod.fst
  attempts := sampleRuns.map Prod.snd
  stageHistory := []

/-- One viewer, of the first of the tenants. -/
def viewers : Identities :=
  Dict.ofEntries
    [("demo-viewer-a", ⟨"demo-viewer-a", .one "tenant-a", "viewer"⟩)]

/-- The viewer asks for its cards. -/
def viewerGet : Get where
  path := "/api/cards"
  authorization := "Bearer demo-viewer-a"
  query := Dict.empty

/-- Its poll at a time, after what the registry committed before it, up
to the reply. -/
def viewing (now : Micros) (txns : List Txn) : List (Act Unit) :=
  .call () viewerGet ::
    (.time now :: .auto :: .auto :: .commits txns ::
      List.replicate 10 .auto).map (.step ())

/-- Play a script on that registry and test the state it ends in. -/
def plays (script : List (Act Unit)) (test : State Unit → Bool) : Bool :=
  ((machine viewers).run (fun _ _ => true) script
    (Sys.idle ⟨fleet, Dict.empty, []⟩)).any test

theorem reach_of_plays (script : List (Act Unit)) (test : State Unit → Bool)
    (h : plays script test = true) :
    ∃ s, (machine viewers).Reach Initial (fun _ _ => True) s ∧
      test s = true :=
  Machine.reach_of_any (fun _ _ _ => trivial)
    (show Initial _ from ⟨rfl, rfl⟩) h

/-- Play a script, then a request and the actions after it, each one that
a check admits, and test the reply. -/
def playsGet (chk : State Unit → Act Unit → Bool)
    (script : List (Act Unit)) (g : Get) (acts : List (Act Unit))
    (test : Reply → Bool) : Bool :=
  ((machine viewers).runServe chk script () g acts
    (Sys.idle ⟨fleet, Dict.empty, []⟩)).any fun x =>
      (x.2.2.returned ()).any test

theorem serves_of_plays {cond : State Unit → Act Unit → Prop}
    (chk : State Unit → Act Unit → Bool)
    (hchk : ∀ s a, chk s a = true → cond s a) (script : List (Act Unit))
    (g : Get) (acts : List (Act Unit)) (test : Reply → Bool)
    (h : playsGet chk script g acts test = true) :
    ∃ s₀ ws s r, (machine viewers).Reach Initial cond s₀ ∧
      (machine viewers).Serves cond () g s₀ ws s ∧ s.Returns () r ∧
      test r = true := by
  obtain ⟨s₀, ws, s, hs₀, hserves, htest⟩ := Machine.serves_of_any hchk
    (show Initial _ from ⟨rfl, rfl⟩) h
  obtain ⟨r, hr, hok⟩ := (Option.any_eq_true _ _).1 htest
  exact ⟨s₀, ws, s, r, hs₀, hserves, Sys.returns_of_returned hr, hok⟩

end SdlcOs.Dashboard
