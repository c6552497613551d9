/-
Coalescing capacity requests (the coordinator of
job_dispatcher/tenant_queue.py).

Any number of threads are inside `request_capacity`, or outside it. A
step of a thread is a section under the lock, the start or the end of a
call of the provider, the setting of an event, or the end of a wait for
one. What a pending request is given before its event is set is read by
nobody before it, and goes with the setting.

A pending request is known by a number; `published` is what its event was
set with. The provider's answer, a result or an exception, takes the same
way through both branches of the `try`.
-/
import Mathlib.Logic.Function.Basic
import SdlcOs.Dispatch.Dispatcher

namespace SdlcOs.Dispatch.Coordinator

open Data (Dict)

variable {Θ ε : Type}

/-- What a provider's call comes to. -/
abbrev Outcome (ε : Type) : Type := Except ε CapacityResult

/-- Where a thread is. -/
inductive At (ε : Type) : Type where
  /-- not in `request_capacity` -/
  | outside
  /-- before the look into the map -/
  | arrived (tenantId : String)
  /-- the leader, before its call of the provider -/
  | leading (tenantId : String) (pending : Nat)
  /-- in the call -/
  | calling (tenantId : String) (pending : Nat)
  /-- after the call, its entry still in the map -/
  | called (tenantId : String) (pending : Nat) (outcome : Outcome ε)
  /-- after the entry's removal, before its event is set -/
  | removed (tenantId : String) (pending : Nat) (outcome : Outcome ε)
  /-- a follower, in `pending.wait()` -/
  | waiting (tenantId : String) (pending : Nat)
  /-- about to return or to raise -/
  | returning (tenantId : String) (outcome : Outcome ε)

/-- `TenantCapacityCoordinator`: `_inflight`, the events that are set, the
next pending request, and the threads. -/
structure State (Θ ε : Type) where
  inflight : Dict String Nat
  published : Nat → Option (Outcome ε)
  nextPending : Nat
  threads : Θ → At ε

/-- A step of a thread. -/
inductive Action (ε : Type) : Type where
  | enter (tenantId : String)
  | lookUp
  | startCall
  | endCall (outcome : Outcome ε)
  | remove
  | publish
  | wake
  | leave

namespace State

/-- No thread is inside. -/
def init : State Θ ε := ⟨.empty, fun _ => none, 0, fun _ => .outside⟩

variable [DecidableEq Θ]

/-- A thread goes on. -/
def goto (s : State Θ ε) (θ : Θ) (place : At ε) : State Θ ε :=
  { s with threads := Function.update s.threads θ place }

/-- A step of `request_capacity`, if the thread can take it. -/
def next (s : State Θ ε) (θ : Θ) (a : Action ε) : Option (State Θ ε) :=
  match s.threads θ, a with
  | .outside, .enter tenantId => some (s.goto θ (.arrived tenantId))
  | .arrived tenantId, .lookUp =>
    match s.inflight.get tenantId with
    | some pending => some (s.goto θ (.waiting tenantId pending))
    | none =>
      some { s.goto θ (.leading tenantId s.nextPending) with
        inflight := s.inflight.set tenantId s.nextPending
        nextPending := s.nextPending + 1 }
  | .leading tenantId pending, .startCall =>
    some (s.goto θ (.calling tenantId pending))
  | .calling tenantId pending, .endCall outcome =>
    some (s.goto θ (.called tenantId pending outcome))
  | .called tenantId pending outcome, .remove =>
    some { s.goto θ (.removed tenantId pending outcome) with
      inflight := s.inflight.erase tenantId }
  | .removed tenantId pending outcome, .publish =>
    some { s.goto θ (.returning tenantId outcome) with
      published := Function.update s.published pending (some outcome) }
  | .waiting tenantId pending, .wake =>
    match s.published pending with
    | none => none
    | some outcome => some (s.goto θ (.returning tenantId outcome))
  | .returning _ _, .leave => some (s.goto θ .outside)
  | _, _ => none

end State

/-- The states of a run from the start, latest first. -/
inductive History [DecidableEq Θ] : List (State Θ ε) → Prop
  | start : History [.init]
  | step {s s' : State Θ ε} {past : List (State Θ ε)} {θ : Θ} {a : Action ε}
      (h : History (s :: past)) (hnext : s.next θ a = some s') :
      History (s' :: s :: past)

/-- Something held during the call a thread is in: in a state since the
thread was outside last. -/
def During (θ : Θ) (P : State Θ ε → Prop) : List (State Θ ε) → Prop
  | [] => False
  | s :: past => s.threads θ ≠ .outside ∧ (P s ∨ During θ P past)

end SdlcOs.Dispatch.Coordinator
