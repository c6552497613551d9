/-
The cost ledger of the observability client (observability/metrics.py and
`record_cost_increment` of client.py), and several threads that ship it.

# What is kept

A `CostMetricStore` has one ledger per run: the totals by metric name and
the idempotency keys already applied. A run or a metric nobody has
written reads as zero, so both dictionaries are total functions here.

# The sink

`apply` moves the ledger under the store's lock and ships the "metric"
event to the sink afterwards. The sink is a third party: if it raises,
so does the call, and the ledger has moved all the same. Amounts are
rationals where the source has floats.

# Several threads

A call is two steps: the ledger moves under the lock, and then, with the
lock released, the event is emitted. Between the two the event is
pending; the calls that are there are kept in the order in which their
ledgers moved, which no code reads. An emit that raises may do so before
the sink has taken the event or after it.

The extra attributes of a call come last in the event's attributes, so
one named `cumulative_total` takes the place of the total. They cannot be
named like a parameter of `apply`.
-/
import Mathlib.Algebra.Order.Ring.Rat
import Mathlib.Logic.Function.Basic
import SdlcOs.Data.Dict
import SdlcOs.Data.Keyed

namespace SdlcOs.Observability

/-- `_RunLedger`. -/
structure RunLedger where
  cumulative : String → ℚ
  appliedKeys : List String

/-- The ledger `setdefault` makes. -/
def RunLedger.empty : RunLedger := ⟨fun _ => 0, []⟩

/-- `CostMetricStore`, less its sink. -/
structure CostMetricStore where
  ledgers : String → RunLedger

namespace CostMetricStore

/-- A store nothing has been applied to. -/
def empty : CostMetricStore := ⟨fun _ => .empty⟩

/-- `cumulative`. -/
def cumulative (s : CostMetricStore) (runId metricName : String) : ℚ :=
  (s.ledgers runId).cumulative metricName

/-- `applied_keys`. -/
def appliedKeys (s : CostMetricStore) (runId : String) : List String :=
  (s.ledgers runId).appliedKeys

/-- `apply`: the store afterwards and the total it returns. -/
def apply (s : CostMetricStore) (runId metricName : String) (amount : ℚ)
    (idempotencyKey : String) : CostMetricStore × ℚ :=
  let ledger := s.ledgers runId
  if idempotencyKey ∈ ledger.appliedKeys then
    (s, ledger.cumulative metricName)
  else
    let newTotal := ledger.cumulative metricName + amount
    (⟨Function.update s.ledgers runId
      ⟨Function.update ledger.cumulative metricName newTotal,
        idempotencyKey :: ledger.appliedKeys⟩⟩, newTotal)

/-- The `metric_name` that `record_cost_increment` defaults to. -/
def costUsd : String := "cost_usd"

/-- `f"{run_id}:{unit_id}:{metric_name}"`. -/
def idempotencyKey (runId unitId metricName : String) : String :=
  runId ++ ":" ++ unitId ++ ":" ++ metricName

/-- `record_cost_increment`. -/
def recordCostIncrement (s : CostMetricStore) (runId unitId : String)
    (amountUsd : ℚ) : CostMetricStore × ℚ :=
  s.apply runId costUsd amountUsd (idempotencyKey runId unitId costUsd)

/-- `cumulative_cost`. -/
def cumulativeCost (s : CostMetricStore) (runId : String) : ℚ :=
  s.cumulative runId costUsd

-- ==== what a call does

/-- A call repeats a key and is a no-op, or moves one total by its amount
and remembers the key. -/
theorem apply_inv (s : CostMetricStore) (runId metricName : String)
    (amount : ℚ) (key : String) :
    (key ∈ s.appliedKeys runId ∧
      s.apply runId metricName amount key =
        (s, s.cumulative runId metricName)) ∨
    (key ∉ s.appliedKeys runId ∧
      (s.apply runId metricName amount key).1.cumulative runId metricName =
        s.cumulative runId metricName + amount ∧
      (s.apply runId metricName amount key).1.appliedKeys runId =
        key :: s.appliedKeys runId) := by
  unfold apply
  by_cases hkey : key ∈ (s.ledgers runId).appliedKeys
  · rw [if_pos hkey]
    exact Or.inl ⟨hkey, rfl⟩
  · rw [if_neg hkey]
    refine Or.inr ⟨hkey, ?_, ?_⟩
    · simp [cumulative]
    · simp [appliedKeys]

theorem apply_other (s : CostMetricStore) {runId metricName : String}
    (amount : ℚ) (key : String) {runId' metricName' : String}
    (h : runId' ≠ runId ∨ metricName' ≠ metricName) :
    (s.apply runId metricName amount key).1.cumulative runId' metricName' =
      s.cumulative runId' metricName' := by
  unfold apply
  by_cases hkey : key ∈ (s.ledgers runId).appliedKeys
  · rw [if_pos hkey]
  · rw [if_neg hkey]
    show (Function.update s.ledgers runId _ runId').cumulative metricName' = _
    by_cases hrun : runId' = runId
    · subst hrun
      have hname := h.resolve_left (fun hne => hne rfl)
      rw [Function.update_self]
      exact Function.update_of_ne hname ..
    · rw [Function.update_of_ne hrun]
      rfl

theorem apply_zero (s : CostMetricStore) (runId metricName key : String)
    (runId' metricName' : String) :
    (s.apply runId metricName 0 key).1.cumulative runId' metricName' =
      s.cumulative runId' metricName' := by
  by_cases hsame : runId' = runId ∧ metricName' = metricName
  · obtain ⟨rfl, rfl⟩ := hsame
    rcases apply_inv s runId' metricName' 0 key with
      ⟨_, happly⟩ | ⟨_, htotal, _⟩
    · rw [happly]
    · rw [htotal, add_zero]
  · exact apply_other s 0 key (not_and_or.1 hsame)

end CostMetricStore

-- ==== several threads

open Data (Dict firsts)

/-- The value of an attribute. -/
inductive Attribute : Type where
  | num (q : ℚ)
  | str (s : String)
  deriving DecidableEq

/-- The parameters of `apply`. -/
def applyParameters : List String :=
  ["run_id", "metric_name", "amount", "idempotency_key", "trace_id",
    "tenant_id"]

/-- The arguments of a call of `apply`; the amount is not negative. -/
structure MetricCall where
  runId : String
  metricName : String
  amount : ℚ
  idempotencyKey : String
  traceId : Option String := none
  tenantId : Option String := none
  extraAttributes : Dict String Attribute := .empty
  amount_nonneg : 0 ≤ amount
  extra_named : ∀ k ∈ applyParameters, extraAttributes.get k = none

/-- An event of kind `"metric"`. -/
structure MetricEvent where
  name : String
  traceId : Option String
  runId : String
  tenantId : Option String
  attributes : Dict String Attribute

/-- The attribute `cumulative_total`, if it is a number. -/
def MetricEvent.cumulativeTotal (e : MetricEvent) : ℚ :=
  match e.attributes.get "cumulative_total" with
  | some (.num q) => q
  | _ => 0

/-- The attribute `idempotency_key`, if it is a text. -/
def MetricEvent.idempotencyKey (e : MetricEvent) : Option String :=
  match e.attributes.get "idempotency_key" with
  | some (.str s) => some s
  | _ => none

/-- The event of a call that moved its total. -/
def MetricCall.event (c : MetricCall) (newTotal : ℚ) : MetricEvent where
  name := c.metricName
  traceId := c.traceId
  runId := c.runId
  tenantId := c.tenantId
  attributes :=
    c.extraAttributes.entries.foldl (fun d e => d.set e.1 e.2)
      (((Dict.empty.set "amount" (.num c.amount)).set "cumulative_total"
        (.num newTotal)).set "idempotency_key" (.str c.idempotencyKey))

/-- `record_cost_increment`, as the call of `apply` that it makes. -/
def MetricCall.ofCost (traceId runId : String) (tenantId : Option String)
    (unitId : String) (amountUsd : ℚ) (metricName : String)
    (amount_nonneg : 0 ≤ amountUsd) : MetricCall where
  runId := runId
  metricName := metricName
  amount := amountUsd
  idempotencyKey :=
    CostMetricStore.idempotencyKey runId unitId metricName
  traceId := some traceId
  tenantId := tenantId
  extraAttributes := Dict.empty.set "unit_id" (.str unitId)
  amount_nonneg := amount_nonneg
  extra_named := by
    intro k hk
    rw [Dict.get_set_ne, Dict.get_empty]
    intro hc
    subst hc
    exact absurd hk (by decide)

/-- A store in use: the ledgers, the events of the calls that have moved
theirs and not emitted yet, and the sink's events. `calls` are the calls
so far. -/
structure Shipping where
  store : CostMetricStore
  pending : List MetricEvent
  sink : List MetricEvent
  calls : List MetricCall

namespace Shipping

/-- Nothing applied yet. -/
def init : Shipping := ⟨.empty, [], [], []⟩

/-- The locked part of `apply`. -/
def update (s : Shipping) (c : MetricCall) : Shipping :=
  let calls := s.calls ++ [c]
  if c.idempotencyKey ∈ s.store.appliedKeys c.runId then
    { s with calls := calls }
  else
    let out := s.store.apply c.runId c.metricName c.amount c.idempotencyKey
    { s with store := out.1, pending := s.pending ++ [c.event out.2]
             calls := calls }

/-- How an emit ends: it returns, or it raises, with the event taken or
lost. -/
inductive EmitOutcome : Type where
  | returned | raisedTaken | raisedLost
  deriving DecidableEq, Repr

/-- The emit of the `i`-th pending call. -/
def emit (s : Shipping) (i : Nat) (outcome : EmitOutcome) : Shipping :=
  match s.pending[i]? with
  | none => s
  | some e =>
    { s with
      pending := s.pending.eraseIdx i
      sink := if outcome = .raisedLost then s.sink else s.sink ++ [e] }

/-- The steps of the threads. -/
inductive Step : Type where
  | update (c : MetricCall)
  | emit (i : Nat) (outcome : EmitOutcome)

/-- One step. -/
def step (s : Shipping) : Step → Shipping
  | .update c => s.update c
  | .emit i outcome => s.emit i outcome

/-- The steps of an interleaving, in order. -/
def run (s : Shipping) (steps : List Step) : Shipping := steps.foldl step s

/-- The first call under each key of each run. -/
def firstCalls (calls : List MetricCall) : List MetricCall :=
  firsts (fun c => (c.runId, c.idempotencyKey)) calls

end Shipping

end SdlcOs.Observability
