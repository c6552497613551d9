/-
The job dispatcher (job_dispatcher/capacity.py, the trigger queue of
job_dispatcher/tenant_queue.py, job_dispatcher/dispatcher.py).

# What is outside

The capacity provider, the registry, the Jira client and the
observability client can answer or raise anything at each call, so each
call is given an `Outside` of its own answers. A registry that raises may
have created the run before. A call that runs alone leads its capacity
request, and gets what the provider gives.

# Triggers

Two triggers can carry the same data. `arrival` tells them apart: it
counts the requests that got past the intake.
-/
import SdlcOs.Dispatch.Intake

namespace SdlcOs.Dispatch

open Data (Dict)
open Json (Json)

variable {φ : Type}

-- ==== capacity

/-- `CapacityOutcome`. -/
inductive CapacityOutcome : Type where
  | available
  | spotExhaustedOnDemandFailed
  | maxConcurrentLimitHit
  deriving DecidableEq, Repr

/-- The outcome's value. -/
def CapacityOutcome.value : CapacityOutcome → String
  | .available => "available"
  | .spotExhaustedOnDemandFailed => "spot-exhausted-on-demand-failed"
  | .maxConcurrentLimitHit => "max-concurrent-limit-hit"

/-- `CapacityResult`, less the node. -/
structure CapacityResult where
  outcome : CapacityOutcome
  tenantId : String
  capacityClass : Option String
  detail : Option String
  deriving DecidableEq, Repr

/-- `is_available`. -/
def CapacityResult.isAvailable (r : CapacityResult) : Bool :=
  r.outcome = .available

-- ==== the queue

/-- `TenantTriggerQueue`. -/
structure TenantTriggerQueue (α : Type) where
  queues : Dict String (List α)

namespace TenantTriggerQueue

variable {α : Type} (q : TenantTriggerQueue α)

/-- What is queued for a tenant. -/
def items (tenantId : String) : List α := (q.queues.get tenantId).getD []

/-- `enqueue`. -/
def enqueue (tenantId : String) (item : α) : TenantTriggerQueue α :=
  ⟨q.queues.set tenantId (q.items tenantId ++ [item])⟩

/-- `depth`. -/
def depth (tenantId : String) : Nat := (q.items tenantId).length

/-- `retry_next`. -/
def retryNext (tenantId : String) : TenantTriggerQueue α × Option α :=
  match q.items tenantId with
  | [] => (q, none)
  | item :: rest => (⟨q.queues.set tenantId rest⟩, some item)

end TenantTriggerQueue

-- ==== dispatch

/-- A trigger that got past the intake. -/
structure Trigger (φ : Type) where
  arrival : Nat
  resolved : ResolvedTrigger φ

/-- The arguments of `create_run`. -/
structure CreateRunArgs (φ : Type) where
  tenantId : String
  jiraKey : Json φ
  repo : Json φ
  branch : String
  capacityClass : String
  traceId : String

/-- What the dispatcher reads of a run. -/
structure RunRow where
  id : String
  traceId : String
  stage : String
  deriving DecidableEq, Repr

/-- What the registry answers. -/
inductive RegistryAnswer : Type where
  | ok (run : RunRow)
  | fail (message : String)
  | raised (created : Bool)
  deriving DecidableEq, Repr

/-- The registry made the run. -/
def RegistryAnswer.created : RegistryAnswer → Bool
  | .ok _ => true
  | .fail _ => false
  | .raised created => created

/-- What the outside answers during a call; `none` is an exception. A
comment's answer, if the tenant has a client to post it, is whether it
was posted. -/
structure Outside (φ : Type) where
  capacity : Option CapacityResult
  traceId : Option String
  registry : CreateRunArgs φ → RegistryAnswer
  jiraClient : Option (Option Bool)
  observe : Option Unit

/-- What a dispatcher calls of the outside. -/
inductive Effect (φ : Type) : Type where
  | requestCapacity (tenantId : String)
  | createRun (trigger : Trigger φ) (args : CreateRunArgs φ)
      (answer : RegistryAnswer)
  | recordStageTransition (run : RunRow) (tenantId fromStage source : String)
  | postComment (tenantId : String) (issueKey : Json φ)
      (body commentType : String)
  | emitQueued (tenantId : String) (jiraKey : Json φ) (reason : String)
      (queueDepth : Nat) (commentPosted : Bool)

/-- How a dispatch fails. -/
inductive DispatchError : Type where
  | capacity
  | noCapacityClass
  | branch
  | traceId
  | registry
  | dispatchError (message : String)
  | comment
  | observability
  deriving DecidableEq, Repr

/-- `DispatchResult`. -/
structure DispatchResult (φ : Type) where
  outcome : String
  tenantId : String
  jiraKey : Json φ
  run : Option RunRow
  queueDepth : Option Nat
  capacityOutcome : Option CapacityOutcome
  commentPosted : Option Bool

/-- What a dispatch leaves: the queue, what it called, how it ended. -/
structure Dispatched (φ : Type) where
  queue : TenantTriggerQueue (Trigger φ)
  effects : List (Effect φ)
  result : Except DispatchError (DispatchResult φ)

/-- How a dispatcher is built: the branch of an issue, `none` where
naming it raises, and whether there is an observability client. -/
structure Config (φ : Type) where
  branchForIssue : Json φ → Option String
  hasObservability : Bool

/-- `default_branch_for_issue`. -/
def defaultBranchForIssue (P : Platform) : Json φ → Option String
  | .str jiraKey => some ("ai-factory/" ++ P.lower jiraKey)
  | _ => none

/-- `_REASON_TEXT.get(outcome, outcome.value)`. -/
def reasonText : CapacityOutcome → String
  | .spotExhaustedOnDemandFailed =>
    "spot capacity is exhausted for your compute cell and the on-demand " ++
      "fallback also failed"
  | .maxConcurrentLimitHit =>
    "your tenant's configured maximum concurrent-job limit is currently " ++
      "reached"
  | .available => CapacityOutcome.available.value

/-- The comment of `_post_delay_comment`. -/
def delayComment (capacityResult : CapacityResult) : String :=
  let detail := match capacityResult.detail with
    | none => ""
    | some d => if d = "" then "" else " (" ++ d ++ ")"
  "The factory received this trigger but could not start immediately: " ++
    reasonText capacityResult.outcome ++ detail ++
    ". The request has been queued and will be retried automatically " ++
    "once capacity frees up -- this is not a failure, and no action is " ++
    "needed unless the delay is unexpectedly long."

section dispatch

variable (cfg : Config φ) (w : Outside φ)
  (q : TenantTriggerQueue (Trigger φ)) (t : Trigger φ)

/-- What `_create_run` asks the registry for, if it gets that far. -/
def createRunArgs (capacityResult : CapacityResult) :
    Except DispatchError (CreateRunArgs φ) :=
  match capacityResult.capacityClass with
  | none => .error .noCapacityClass
  | some capacityClass =>
    match cfg.branchForIssue t.resolved.jiraKey with
    | none => .error .branch
    | some branch =>
      match w.traceId with
      | none => .error .traceId
      | some traceId =>
        .ok
          { tenantId := t.resolved.tenantId
            jiraKey := t.resolved.jiraKey
            repo := t.resolved.repository
            branch := branch, capacityClass := capacityClass
            traceId := traceId }

/-- The result of a created run. -/
def runCreated (capacityResult : CapacityResult) (run : RunRow) :
    DispatchResult φ :=
  { outcome := "run_created", tenantId := t.resolved.tenantId
    jiraKey := t.resolved.jiraKey, run := some run, queueDepth := none
    capacityOutcome := some capacityResult.outcome, commentPosted := none }

/-- `_create_run`. -/
def createRun (capacityResult : CapacityResult) :
    List (Effect φ) × Except DispatchError (DispatchResult φ) :=
  match createRunArgs cfg w t capacityResult with
  | .error e => ([], .error e)
  | .ok args =>
    let called := Effect.createRun t args (w.registry args)
    match w.registry args with
    | .raised _ => ([called], .error .registry)
    | .fail message => ([called], .error (.dispatchError message))
    | .ok run =>
      if cfg.hasObservability then
        ([called, .recordStageTransition run t.resolved.tenantId "none"
            "job_dispatcher_webhook"],
          match w.observe with
          | none => .error .observability
          | some () => .ok (runCreated t capacityResult run))
      else ([called], .ok (runCreated t capacityResult run))

/-- The result of a queued trigger. -/
def runQueued (capacityResult : CapacityResult) (depth : Nat)
    (commentPosted : Bool) : DispatchResult φ :=
  { outcome := "queued", tenantId := t.resolved.tenantId
    jiraKey := t.resolved.jiraKey, run := none, queueDepth := some depth
    capacityOutcome := some capacityResult.outcome
    commentPosted := some commentPosted }

/-- `_queue_and_notify`. -/
def queueAndNotify (capacityResult : CapacityResult) : Dispatched φ :=
  let tenantId := t.resolved.tenantId
  let queue := q.enqueue tenantId t
  let depth := queue.depth tenantId
  let commented := Effect.postComment tenantId t.resolved.jiraKey
    (delayComment capacityResult) "capacity-delay"
  match w.jiraClient with
  | none => ⟨queue, [], .error .comment⟩
  | some none => ⟨queue, [commented], .error .comment⟩
  | some (some commentPosted) =>
    let result := runQueued t capacityResult depth commentPosted
    if cfg.hasObservability then
      ⟨queue, [commented, .emitQueued tenantId t.resolved.jiraKey
          capacityResult.outcome.value depth commentPosted],
        match w.observe with
        | none => .error .observability
        | some () => .ok result⟩
    else ⟨queue, [commented], .ok result⟩

/-- `_dispatch`. -/
def dispatch : Dispatched φ :=
  let requested := Effect.requestCapacity t.resolved.tenantId
  match w.capacity with
  | none => ⟨q, [requested], .error .capacity⟩
  | some capacityResult =>
    if capacityResult.isAvailable then
      ⟨q, requested :: (createRun cfg w t capacityResult).1,
        (createRun cfg w t capacityResult).2⟩
    else
      let d := queueAndNotify cfg w q t capacityResult
      ⟨d.queue, requested :: d.effects, d.result⟩

end dispatch

-- ==== the dispatcher

/-- What the intake of a dispatcher is built with. -/
structure IntakeConfig (φ : Type) where
  platform : Platform
  mac : Mac
  decoder : Decoder φ
  secretLookup : String → Option Bytes
  tenantDirectory : Dict String String

/-- A request. -/
structure Request where
  headers : Dict String String
  body : Bytes
  now : Float64

/-- The intake of a request. -/
def IntakeConfig.intake (ic : IntakeConfig φ) (r : Request) :
    Except (IntakeError φ) (ResolvedTrigger φ) :=
  Dispatch.intake ic.platform ic.mac ic.decoder ic.tenantDirectory r.headers
    r.body ic.secretLookup r.now

/-- `JobDispatcher`: its queue, and how many triggers arrived. -/
structure JobDispatcher (φ : Type) where
  queue : TenantTriggerQueue (Trigger φ)
  arrivals : Nat

/-- A call of the dispatcher, with the outside it meets. -/
inductive Call (φ : Type) : Type where
  | handleWebhook (r : Request) (w : Outside φ)
  | retryQueued (tenantId : String) (w : Outside φ)

/-- What a call leaves: the dispatcher, the trigger it dispatched and
what it called. -/
structure Handled (φ : Type) where
  dispatcher : JobDispatcher φ
  trigger : Option (Trigger φ)
  effects : List (Effect φ)

namespace JobDispatcher

variable (ic : IntakeConfig φ) (cfg : Config φ)

/-- A dispatcher just built. -/
def init : JobDispatcher φ := ⟨⟨.empty⟩, 0⟩

/-- `handle_webhook`. -/
def handleWebhook (d : JobDispatcher φ) (r : Request) (w : Outside φ) :
    Handled φ × Except (IntakeError φ ⊕ DispatchError) (DispatchResult φ) :=
  match ic.intake r with
  | .error e => (⟨d, none, []⟩, .error (.inl e))
  | .ok resolved =>
    let t : Trigger φ := ⟨d.arrivals, resolved⟩
    let done := dispatch cfg w d.queue t
    (⟨⟨done.queue, d.arrivals + 1⟩, some t, done.effects⟩,
      done.result.mapError .inr)

/-- `retry_queued`. -/
def retryQueued (d : JobDispatcher φ) (tenantId : String) (w : Outside φ) :
    Handled φ × Except DispatchError (Option (DispatchResult φ)) :=
  match d.queue.retryNext tenantId with
  | (queue, none) => (⟨⟨queue, d.arrivals⟩, none, []⟩, .ok none)
  | (queue, some t) =>
    let done := dispatch cfg w queue t
    (⟨⟨done.queue, d.arrivals⟩, some t, done.effects⟩,
      done.result.map some)

/-- A call. -/
def call (d : JobDispatcher φ) : Call φ → Handled φ
  | .handleWebhook r w => (d.handleWebhook ic cfg r w).1
  | .retryQueued tenantId w => (d.retryQueued cfg tenantId w).1

/-- Calls one after another, with what each dispatched and called. -/
def run (d : JobDispatcher φ) (calls : List (Call φ)) :
    JobDispatcher φ × List (Call φ × Handled φ) :=
  calls.foldl (fun p c => ((p.1.call ic cfg c).dispatcher,
    p.2 ++ [(c, p.1.call ic cfg c)])) (d, [])

end JobDispatcher

end SdlcOs.Dispatch
