/-
The gates service (gates/identity.py, gates/approver.py,
gates/codeowners.py, gates/self_approval.py, gates/gate_service.py).

# What is outside

An issue's assignee and reporter, the identity a credential resolves to
and the owners a repository's index gives for a path can change from one
call to the next, so each call is given a `World` of its own answers.
Configuration is fixed when the service is built: the backup approvers,
and whether there is a codeowners resolver; so is what the tzinfo objects
of the datetimes answer.

# Identities

`_normalized_identity` strips and casefolds. The case folding is the
platform's table, `casefold`; nothing here depends on it.

An exception leaves what the call did before it.
-/
import Mathlib.Data.List.Sort
import Mathlib.Data.String.Basic
import SdlcOs.Gates.Escalation

namespace SdlcOs.Gates

open Data (DateTime Dict TimeZones)

-- ==== identities

/-- `AuthenticatedIdentity`, less what only displays it. -/
structure AuthenticatedIdentity where
  subjectId : String
  handles : List String
  deriving DecidableEq, Repr

/-- `ApproverIdentity`, less the display name. -/
structure ApproverIdentity where
  accountId : String
  source : String
  deriving DecidableEq, Repr

/-- The fields of an issue that name an approver. -/
structure IssueFields where
  assignee : Option String
  reporter : Option String
  deriving DecidableEq, Repr

/-- `resolve_default_approver` on what the issue's fetch gave; `none` is
`ApproverResolutionError`. -/
def resolveDefaultApprover : Option IssueFields → Option ApproverIdentity
  | none => none
  | some ⟨some accountId, _⟩ => some ⟨accountId, "assignee"⟩
  | some ⟨none, some accountId⟩ => some ⟨accountId, "reporter"⟩
  | some ⟨none, none⟩ => none

/-- The characters `str.strip` removes. -/
def isSpace (c : Char) : Bool :=
  let n := c.toNat
  (0x9 ≤ n && n ≤ 0xd) || (0x1c ≤ n && n ≤ 0x20) || n = 0x85 || n = 0xa0 ||
    n = 0x1680 || (0x2000 ≤ n && n ≤ 0x200a) || n = 0x2028 || n = 0x2029 ||
    n = 0x202f || n = 0x205f || n = 0x3000

/-- `str.strip`. -/
def strip (s : String) : String :=
  .ofList (((s.toList.dropWhile isSpace).reverse.dropWhile isSpace).reverse)

/-- `_normalized_identity`. -/
def normalizedIdentity (casefold : String → String) (value : String) :
    String :=
  casefold (strip value)

-- ==== codeowners

/-- `OwnershipRequirement`. -/
structure OwnershipRequirement where
  repo : String
  ownersByFile : Dict String (List String)

/-- `unsatisfied_files`. -/
def OwnershipRequirement.unsatisfiedFiles (r : OwnershipRequirement)
    (reviewerHandles : List String) : List String :=
  (r.ownersByFile.entries.filter fun e =>
    !e.2.any fun owner => owner ∈ reviewerHandles).map Prod.fst

/-- `requirement_for`, the index built: what it gives for a path, if
anything, are its owners. -/
def requirementFor (ownership : String → Option (List String))
    (repo : String) (touchedFiles : List String) : OwnershipRequirement :=
  { repo := repo
    ownersByFile := touchedFiles.foldl
      (fun d path => d.set path ((ownership path).getD [])) .empty }

-- ==== self approval

/-- `GateClearance`. -/
structure GateClearance where
  gateKind : String
  runId : String
  actorId : String
  approverId : String
  cleared : Bool
  reasons : List Reason
  deriving DecidableEq, Repr

/-- The reasons `evaluate_gate_clearance` collects. -/
def clearanceReasons (casefold : String → String) (gateKind : String)
    (triggeredBy actor : AuthenticatedIdentity) (approver : ApproverIdentity)
    (ownershipRequirement : Option OwnershipRequirement) : List Reason :=
  (if normalizedIdentity casefold actor.subjectId =
      normalizedIdentity casefold triggeredBy.subjectId then
    [.selfApproval] else []) ++
  (if normalizedIdentity casefold actor.subjectId ≠
      normalizedIdentity casefold approver.accountId then
    [.notAuthority actor.subjectId approver.accountId approver.source]
    else []) ++
  (if gateKind = "change_review" then
    match ownershipRequirement with
    | none => [.ownershipUnchecked]
    | some r =>
      if r.unsatisfiedFiles actor.handles ≠ [] then
        [.unowned ((r.unsatisfiedFiles actor.handles).insertionSort (· ≤ ·))]
      else []
    else [])

/-- `evaluate_gate_clearance`. -/
def evaluateGateClearance (casefold : String → String)
    (gateKind runId : String) (triggeredBy actor : AuthenticatedIdentity)
    (approver : ApproverIdentity)
    (ownershipRequirement : Option OwnershipRequirement) : GateClearance :=
  let reasons := clearanceReasons casefold gateKind triggeredBy actor approver
    ownershipRequirement
  { gateKind := gateKind, runId := runId, actorId := actor.subjectId
    approverId := approver.accountId, cleared := reasons.isEmpty
    reasons := reasons }

-- ==== the service

/-- What the outside answers during a call: an issue's fields, if they can
be fetched; the identity of a credential, if it is known; a repository's
index, if it can be built. -/
structure World where
  issue : String → Option IssueFields
  identify : String → Option AuthenticatedIdentity
  index : String → Option (String → Option (List String))

/-- How a service is built, and the time zones it meets. -/
structure Config where
  casefold : String → String
  zones : TimeZones
  backupApprovers : String → Option ApproverIdentity
  hasCodeowners : Bool

/-- What the service raises. -/
inductive GateError : Type where
  | approverResolution (issueKey : String)
  | noBackup (repo : String)
  | gateNotFound (gateId : String)
  | unknownIdentity (credential : String)
  | index (repo : String)
  | tracker (e : TrackerError)
  | calendar (e : CalendarError)
  deriving DecidableEq, Repr

/-- `OpenGateHandle`. -/
structure OpenGateHandle where
  gateId : String
  tenantId : String
  runId : String
  issueKey : String
  repo : String
  gateKind : String
  triggeredBy : AuthenticatedIdentity
  defaultApprover : ApproverIdentity
  deriving DecidableEq, Repr

/-- `GatesService`: the tracker with its log, and the open gates. -/
structure GatesService where
  escalation : EscalationTracker
  openGates : Dict String OpenGateHandle

/-- The arguments of `open_gate`. -/
structure OpenArgs where
  gateId : String
  tenantId : String
  runId : String
  issueKey : String
  repo : String
  gateKind : String
  triggeredBy : AuthenticatedIdentity
  slaBusinessDays : ℚ
  openedAt : DateTime

/-- The arguments of `decide`. -/
structure DecideArgs where
  gateId : String
  credential : String
  touchedFiles : Option (List String)
  now : DateTime

namespace GatesService

variable (cfg : Config) (w : World) (s : GatesService)

/-- A service just built. -/
def init : GatesService := ⟨⟨.empty, []⟩, .empty⟩

/-- The audit log. -/
def auditLog : List AuditEvent := s.escalation.audit

/-- `open_gate`. -/
def openGate (a : OpenArgs) :
    GatesService × Except GateError OpenGateHandle :=
  match resolveDefaultApprover (w.issue a.issueKey) with
  | none => (s, .error (.approverResolution a.issueKey))
  | some approver =>
    match cfg.backupApprovers a.repo with
    | none => (s, .error (.noBackup a.repo))
    | some backup =>
      let handle : OpenGateHandle :=
        { gateId := a.gateId, tenantId := a.tenantId, runId := a.runId
          issueKey := a.issueKey, repo := a.repo, gateKind := a.gateKind
          triggeredBy := a.triggeredBy, defaultApprover := approver }
      ({ escalation := s.escalation.openGate a.gateId a.tenantId a.runId
          a.gateKind ⟨a.slaBusinessDays, backup.accountId⟩ a.openedAt
         openGates := s.openGates.set a.gateId handle }, .ok handle)

/-- The approver `decide` compares the actor with. -/
def effectiveApprover (handle : OpenGateHandle) (authorityId : String) :
    Except GateError ApproverIdentity :=
  if authorityId = handle.defaultApprover.accountId then
    .ok handle.defaultApprover
  else match cfg.backupApprovers handle.repo with
    | none => .error (.noBackup handle.repo)
    | some backup => .ok backup

/-- The requirement `decide` checks a change review against, if any. -/
def ownershipRequirement (handle : OpenGateHandle)
    (touchedFiles : Option (List String)) :
    Except GateError (Option OwnershipRequirement) :=
  match touchedFiles with
  | none => .ok none
  | some files =>
    if handle.gateKind = "change_review" ∧ cfg.hasCodeowners then
      match w.index handle.repo with
      | none => .error (.index handle.repo)
      | some ownership => .ok (some (requirementFor ownership handle.repo files))
    else .ok none

/-- `decide` up to its clearance: the gate's handle and the clearance. -/
def clearance (a : DecideArgs) :
    Except GateError (OpenGateHandle × GateClearance) :=
  match s.openGates.get a.gateId with
  | none => .error (.gateNotFound a.gateId)
  | some handle =>
    match w.identify a.credential with
    | none => .error (.unknownIdentity a.credential)
    | some actor =>
      match s.escalation.currentAuthority a.gateId
          handle.defaultApprover.accountId with
      | .error e => .error (.tracker e)
      | .ok authorityId =>
        match effectiveApprover cfg handle authorityId,
            ownershipRequirement cfg w handle a.touchedFiles with
        | .error e, _ => .error e
        | .ok _, .error e => .error e
        | .ok approver, .ok requirement =>
          .ok (handle, evaluateGateClearance cfg.casefold
            handle.gateKind handle.runId handle.triggeredBy actor
            approver requirement)

/-- `decide`. -/
def decide (a : DecideArgs) :
    GatesService × Except GateError GateClearance :=
  match s.clearance cfg w a with
  | .error e => (s, .error e)
  | .ok (handle, clearance) =>
    if clearance.cleared then
      match s.escalation.markActioned a.gateId a.now with
      | .error e => (s, .error (.tracker e))
      | .ok escalation =>
        (⟨escalation, s.openGates.erase a.gateId⟩, .ok clearance)
    else
      (⟨s.escalation.record ⟨a.now, handle.tenantId, handle.runId,
        .gateRejected a.gateId handle.gateKind clearance.actorId
          clearance.reasons⟩, s.openGates⟩, .ok clearance)

/-- `check_escalations`. -/
def checkEscalations (now : DateTime) :
    GatesService × Except GateError (List String) :=
  match s.escalation.checkEscalations cfg.zones now with
  | (escalation, .error e) => ({ s with escalation }, .error (.calendar e))
  | (escalation, .ok gateIds) => ({ s with escalation }, .ok gateIds)

end GatesService

-- ==== sequences

/-- A call of the service, with the outside it meets. -/
inductive Call : Type where
  | openGate (w : World) (a : OpenArgs)
  | decide (w : World) (a : DecideArgs)
  | checkEscalations (now : DateTime)

/-- What a call returns or raises. -/
inductive Reply : Type where
  | opened (r : Except GateError OpenGateHandle)
  | decided (r : Except GateError GateClearance)
  | swept (r : Except GateError (List String))

variable (cfg : Config)

/-- A call. -/
def GatesService.call (s : GatesService) : Call → GatesService × Reply
  | .openGate w a => ((s.openGate cfg w a).1, .opened (s.openGate cfg w a).2)
  | .decide w a => ((s.decide cfg w a).1, .decided (s.decide cfg w a).2)
  | .checkEscalations now =>
    ((s.checkEscalations cfg now).1, .swept (s.checkEscalations cfg now).2)

/-- Calls one after another, and what they replied. -/
def GatesService.run (s : GatesService) (calls : List Call) :
    GatesService × List Reply :=
  calls.foldl (fun p c => ((p.1.call cfg c).1, p.2 ++ [(p.1.call cfg c).2]))
    (s, [])

/-- The handle a reply gives. -/
def Reply.handle? : Reply → Option OpenGateHandle
  | .opened (.ok handle) => some handle
  | _ => none

/-- The handle of a gate's latest opening. -/
def latestHandle (gateId : String) (replies : List Reply) :
    Option OpenGateHandle :=
  ((replies.filterMap Reply.handle?).filter (·.gateId = gateId)).getLast?

end SdlcOs.Gates
