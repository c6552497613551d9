/-
Escalation of gates nobody acts on (gates/business_calendar.py,
gates/audit.py, gates/escalation.py).

# Time

Datetimes are compared and stepped as Python does it: those of one tzinfo
by their wall clocks, others by their instants, and a naive one with an
aware one not at all. Dates and weekdays are the wall clock's. Stepping
past the last representable day raises, so the days that are left bound
the calendar's loop. What a tzinfo answers does not change while the
program runs.

# Calls

One call runs at a time, and each is given the time its clock shows. The
second look under the lock that `check_escalations` takes at a gate finds
what the first one found.

The log is the in-memory one. Event ids are left out.
-/
import Mathlib.Algebra.Order.Ring.Rat
import Mathlib.Data.Rat.Floor
import SdlcOs.Data.DateTime
import SdlcOs.Data.Dict

namespace SdlcOs.Gates

open Data (DateTime Dict TimeZones)

-- ==== calendar

/-- `weekday()`: Monday is zero. 1970-01-01 was a Thursday. -/
def weekday (date : Int) : Int := (date + 3) % 7

/-- `is_business_day`. -/
def isBusinessDay (date : Int) (holidays : List Int) : Bool :=
  weekday date < 5 && date ∉ holidays

/-- What the calendar raises. -/
inductive CalendarError : Type where
  | valueError
  | overflowError
  | typeError
  deriving DecidableEq, Repr

/-- The loop of `add_business_days`, from a day on which some more can be
added. -/
def stepDays (holidays : List Int) :
    Nat → DateTime → Nat → Except CalendarError DateTime
  | _, current, 0 => .ok current
  | 0, _, _ + 1 => .error .overflowError
  | left + 1, current, remaining + 1 =>
    if isBusinessDay current.tomorrow.date holidays then
      stepDays holidays left current.tomorrow remaining
    else stepDays holidays left current.tomorrow (remaining + 1)

/-- `add_business_days`. -/
def addBusinessDays (start : DateTime) (businessDays : ℚ)
    (holidays : List Int) : Except CalendarError DateTime :=
  if businessDays < 0 then .error .valueError
  else stepDays holidays start.daysLeft start ⌊businessDays⌋.toNat

/-- `sla_deadline`. -/
def slaDeadline (openedAt : DateTime) (businessDays : ℚ)
    (holidays : List Int) : Except CalendarError DateTime :=
  addBusinessDays openedAt businessDays holidays

/-- `is_sla_breached`. -/
def isSlaBreached (zones : TimeZones) (openedAt now : DateTime)
    (businessDays : ℚ) (holidays : List Int) : Except CalendarError Bool :=
  match slaDeadline openedAt businessDays holidays with
  | .error e => .error e
  | .ok deadline =>
    match now.ge zones deadline with
    | none => .error .typeError
    | some breached => .ok breached

theorem stepDays_tzinfo {holidays : List Int} {left remaining : Nat}
    {current t : DateTime}
    (h : stepDays holidays left current remaining = .ok t) :
    t.tzinfo = current.tzinfo := by
  induction left generalizing current remaining with
  | zero =>
    cases remaining with
    | zero => cases h; rfl
    | succ remaining => cases h
  | succ left ih =>
    cases remaining with
    | zero => cases h; rfl
    | succ remaining =>
      rw [stepDays] at h
      have hnext : current.tomorrow.tzinfo = current.tzinfo := rfl
      rw [← hnext]
      split at h
      · exact ih h
      · exact ih h

theorem slaDeadline_tzinfo {openedAt t : DateTime} {businessDays : ℚ}
    {holidays : List Int}
    (h : slaDeadline openedAt businessDays holidays = .ok t) :
    t.tzinfo = openedAt.tzinfo := by
  unfold slaDeadline addBusinessDays at h
  split at h
  · cases h
  · exact stepDays_tzinfo h

section Mono

variable {zones : TimeZones} {openedAt now now' : DateTime} {businessDays : ℚ}
  {holidays : List Int}

theorem isSlaBreached_due
    (hle : DateTime.NotAfter zones openedAt.tzinfo now now')
    (h : isSlaBreached zones openedAt now businessDays holidays = .ok true) :
    isSlaBreached zones openedAt now' businessDays holidays = .ok true := by
  unfold isSlaBreached at h ⊢
  split at h
  · cases h
  · next deadline hdeadline =>
    rw [← slaDeadline_tzinfo hdeadline] at hle
    split at h
    · cases h
    · next hge =>
      rw [Except.ok.inj h] at hge
      rw [DateTime.ge_mono hle hge]

theorem isSlaBreached_mono
    (hle : DateTime.NotAfter zones openedAt.tzinfo now' now)
    (h : isSlaBreached zones openedAt now businessDays holidays = .ok false) :
    isSlaBreached zones openedAt now' businessDays holidays = .ok false := by
  unfold isSlaBreached at h ⊢
  split at h
  · cases h
  · next deadline hdeadline =>
    rw [← slaDeadline_tzinfo hdeadline] at hle
    split at h
    · cases h
    · next hge =>
      rw [Except.ok.inj h] at hge
      rw [DateTime.ge_mono_false hle hge]

theorem isSlaBreached_error {e : CalendarError}
    (hle : DateTime.NotAfter zones openedAt.tzinfo now' now)
    (h : isSlaBreached zones openedAt now businessDays holidays = .error e) :
    isSlaBreached zones openedAt now' businessDays holidays = .error e := by
  unfold isSlaBreached at h ⊢
  split at h
  · exact h
  · next deadline hdeadline =>
    rw [← slaDeadline_tzinfo hdeadline] at hle
    split at h
    · next hge =>
      rw [DateTime.ge_none hle hge]
      exact h
    · cases h

end Mono

-- ==== audit

/-- Why an actor does not clear a gate: the reasons' texts by what they
interpolate. -/
inductive Reason : Type where
  | selfApproval
  | notAuthority (subjectId accountId source : String)
  | ownershipUnchecked
  | unowned (files : List String)
  deriving DecidableEq, Repr

/-- What an audit event is about: its kind and details. -/
inductive AuditDetails : Type where
  | gateOpened (gateId gateKind : String) (openedAt : DateTime)
      (slaBusinessDays : ℚ)
  | gateActioned (gateId gateKind : String) (wasEscalated : Bool)
  | gateRejected (gateId gateKind actorId : String) (reasons : List Reason)
  | escalated (gateId gateKind : String) (openedAt : DateTime)
      (slaBusinessDays : ℚ) (escalatedAt : DateTime)
      (backupApproverId : String)
  deriving DecidableEq

/-- `AuditEvent`. -/
structure AuditEvent where
  ts : DateTime
  tenantId : String
  runId : String
  details : AuditDetails
  deriving DecidableEq

/-- The gate an event is about. -/
def AuditEvent.gateId (e : AuditEvent) : String :=
  match e.details with
  | .gateOpened gateId .. => gateId
  | .gateActioned gateId .. => gateId
  | .gateRejected gateId .. => gateId
  | .escalated gateId .. => gateId

-- ==== tracker

/-- `GateSlaPolicy`, less the display name. -/
structure GateSlaPolicy where
  businessDays : ℚ
  backupApproverId : String
  deriving DecidableEq

/-- `_OpenGate`. -/
structure OpenGate where
  gateId : String
  tenantId : String
  runId : String
  gateKind : String
  openedAt : DateTime
  policy : GateSlaPolicy
  escalated : Bool := false
  actioned : Bool := false
  deriving DecidableEq

/-- What the tracker raises. -/
inductive TrackerError : Type where
  | unknownGate (gateId : String)
  | alreadyActioned (gateId : String)
  deriving DecidableEq, Repr

/-- `EscalationTracker` and the log it writes to, the latest event
last. -/
structure EscalationTracker where
  gates : Dict String OpenGate
  audit : List AuditEvent

namespace EscalationTracker

variable (t : EscalationTracker)

/-- `_audit.record`. -/
def record (e : AuditEvent) : EscalationTracker :=
  { t with audit := t.audit ++ [e] }

/-- A gate's new state. -/
def setGate (gateId : String) (gate : OpenGate) : EscalationTracker :=
  { t with gates := t.gates.set gateId gate }

/-- `open_gate`. -/
def openGate (gateId tenantId runId gateKind : String)
    (policy : GateSlaPolicy) (opened : DateTime) : EscalationTracker :=
  (t.setGate gateId
    { gateId := gateId, tenantId := tenantId, runId := runId
      gateKind := gateKind, openedAt := opened, policy := policy }).record
    ⟨opened, tenantId, runId,
      .gateOpened gateId gateKind opened policy.businessDays⟩

/-- `mark_actioned`. -/
def markActioned (gateId : String) (actionedAt : DateTime) :
    Except TrackerError EscalationTracker :=
  match t.gates.get gateId with
  | none => .error (.unknownGate gateId)
  | some gate =>
    if gate.actioned then .error (.alreadyActioned gateId)
    else .ok ((t.setGate gateId { gate with actioned := true }).record
      ⟨actionedAt, gate.tenantId, gate.runId,
        .gateActioned gateId gate.gateKind gate.escalated⟩)

/-- `current_authority`. -/
def currentAuthority (gateId defaultApproverId : String) :
    Except TrackerError String :=
  match t.gates.get gateId with
  | none => .error (.unknownGate gateId)
  | some gate =>
    .ok (if gate.escalated then gate.policy.backupApproverId
      else defaultApproverId)

/-- The gate escalated, and the event of it. -/
def escalate (gate : OpenGate) (current : DateTime) : EscalationTracker :=
  (t.setGate gate.gateId { gate with escalated := true }).record
    ⟨current, gate.tenantId, gate.runId,
      .escalated gate.gateId gate.gateKind gate.openedAt
        gate.policy.businessDays current gate.policy.backupApproverId⟩

/-- The loop of `check_escalations`: the gates escalated so far, and what
it returns or raises. -/
def sweep (zones : TimeZones) (current : DateTime) :
    List OpenGate → List String →
    EscalationTracker → EscalationTracker × Except CalendarError (List String)
  | [], newly, t => (t, .ok newly)
  | gate :: gates, newly, t =>
    match isSlaBreached zones gate.openedAt current
      gate.policy.businessDays [] with
    | .error e => (t, .error e)
    | .ok true =>
      sweep zones current gates (newly ++ [gate.gateId])
        (t.escalate gate current)
    | .ok false => sweep zones current gates newly t

/-- The gates a sweep looks at. -/
def candidates : List OpenGate :=
  t.gates.values.filter fun g => !g.actioned && !g.escalated

/-- `check_escalations`. -/
def checkEscalations (zones : TimeZones) (current : DateTime) :
    EscalationTracker × Except CalendarError (List String) :=
  sweep zones current t.candidates [] t

end EscalationTracker

end SdlcOs.Gates
