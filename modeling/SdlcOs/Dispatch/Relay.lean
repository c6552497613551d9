/-
From an automation event to a signed dispatch (issue_tracker/gating.py,
issue_tracker/webhook_relay.py).

# The event

The fields of an event are texts. What is signed names the issue by the
key that Jira answers with, which a moved issue has changed, and the
repository by the project key of the event.

# The body

A body is the UTF-8 of what `json.dumps` prints; the receiving side
decodes and reads it (`Decoder.python`). Jira and the configuration are
parameters.
-/
import SdlcOs.Data.Keyed
import SdlcOs.Dispatch.Intake
import SdlcOs.Json.Layout

namespace SdlcOs.Dispatch

open Data (Dict)
open Json (Json FloatText)

-- ==== gating

/-- The opt-in fields of `TenantJiraConfig`. -/
structure TenantJiraConfig where
  optInLabel : Option String
  optInIssueType : Option String

/-- `OptedInStory`. -/
structure OptedInStory where
  issueKey : String
  tenantId : String
  matchedLabel : Option String
  matchedIssueType : Option String

/-- `NotOptedIn`, with what its reason names. -/
structure NotOptedIn where
  issueKey : String
  status : String
  optInLabel : Option String
  optInIssueType : Option String

/-- A configured text, unless it is empty. -/
def configured (s : Option String) : Option String := s.filter (· ≠ "")

/-- `evaluate`. -/
def evaluate (tenantId issueKey status : String) (labels : List String)
    (issueType : String) (config : TenantJiraConfig) :
    Except NotOptedIn OptedInStory :=
  let labelMatch := (configured config.optInLabel).filter (· ∈ labels)
  let typeMatch := (configured config.optInIssueType).filter (· = issueType)
  if labelMatch = none ∧ typeMatch = none then
    .error ⟨issueKey, status, configured config.optInLabel,
      configured config.optInIssueType⟩
  else .ok ⟨issueKey, tenantId, labelMatch, typeMatch⟩

-- ==== Jira

/-- The data of an issue that `get_issue` found. -/
structure Issue where
  issueKey : String
  status : String
  issueType : String
  labels : Option (List String)

/-- What `get_issue` returns. -/
inductive IssueResult : Type where
  | ok (issue : Issue)
  | empty (reason : String)
  | error (code message : String)

-- ==== bodies

/-- `text.encode("utf-8")`. -/
def encodeUtf8 (s : String) : Bytes := s.toUTF8.data.toList

/-- `data.decode("utf-8")`. -/
def decodeUtf8 (bytes : Bytes) : Option String :=
  String.fromUTF8? ⟨⟨bytes⟩⟩

variable {φ : Type}

/-- `json.loads(body.decode("utf-8"))`. -/
def Decoder.python (F : FloatText φ) (floatTruth : φ → Bool) : Decoder φ where
  loads := fun body => (decodeUtf8 body).bind fun s => Json.loads F s.toList
  floatTruth := floatTruth

/-- `json.dumps(…, sort_keys=True, separators=(",", ":")).encode("utf-8")`
of a dictionary without dictionaries in it. -/
def encodeBody (F : FloatText φ) (members : List (String × Json φ)) : Bytes :=
  encodeUtf8 (.ofList (Json.packed.dumps F
    (.obj (Data.sortBy Prod.fst members))))

-- ==== relay

/-- `AutomationEventPayload`. -/
structure AutomationEventPayload where
  tenantId : String
  issueKey : String
  projectKey : String

/-- `RelayError`, by what its message names. -/
inductive RelayError : Type where
  | missing (fields : List String)
  | notRefetched (issueKey reason : String)
  | noRepository (tenantId projectKey : String)
  | noSigningKey (tenantId : String)

/-- The fields an event must have. -/
def eventFields : List String := ["tenant_id", "issue_key", "project_key"]

/-- The required fields that an event does not have, or has empty. -/
def missingEventFields (raw : Dict String String) : List String :=
  eventFields.filter fun f => configured (raw.get f) = none

/-- `AutomationEventPayload.from_json`. -/
def AutomationEventPayload.fromJson (raw : Dict String String) :
    Except RelayError AutomationEventPayload :=
  if missingEventFields raw ≠ [] then
    .error (.missing (missingEventFields raw))
  else
    let item (key : String) := (raw.get key).getD ""
    .ok ⟨item "tenant_id", item "issue_key", item "project_key"⟩

/-- `SignedDispatch`. -/
structure SignedDispatch where
  url : String
  headers : Dict String String
  body : Bytes
  optedInStory : OptedInStory

/-- How an event is refused. -/
inductive HandleError : Type where
  | relay (e : RelayError)
  | wire (code message : String)
  | notOptedIn (n : NotOptedIn)
  | crash (e : PyError)

/-- `RelayApp`; the clients of the tenants are one function of the tenant
and the issue key. -/
structure RelayApp where
  getIssue : String → String → IssueResult
  configForTenant : String → TenantJiraConfig
  secretForTenant : String → Option Bytes
  repositoryForProject : String → String → Option String
  dispatcherUrl : String

/-- `issue.get("labels", [])`. -/
def Issue.labelList (issue : Issue) : List String := issue.labels.getD []

/-- `body_obj`. -/
def bodyObj (payload : AutomationEventPayload) (issue : Issue)
    (repository : String) : List (String × Json φ) :=
  [("tenant_id", .str payload.tenantId), ("issue_key", .str issue.issueKey),
    ("project_key", .str payload.projectKey),
    ("repository", .str repository), ("status", .str issue.status),
    ("labels", .arr (issue.labelList.map .str))]

namespace RelayApp

/-- `handle_automation_event` from the gate's opt-in on. -/
def dispatch (app : RelayApp) (F : FloatText φ) (mac : Mac) (now : Float64)
    (payload : AutomationEventPayload) (issue : Issue)
    (optedIn : OptedInStory) : Except HandleError SignedDispatch :=
  match app.repositoryForProject payload.tenantId payload.projectKey with
  | none =>
    .error (.relay (.noRepository payload.tenantId payload.projectKey))
  | some repository =>
    match app.secretForTenant payload.tenantId with
    | none => .error (.relay (.noSigningKey payload.tenantId))
    | some secret =>
      let body := encodeBody F (bodyObj payload issue repository)
      match signRequest mac payload.tenantId secret body now with
      | .error e => .error (.crash e)
      | .ok headers =>
        .ok
          { url := app.dispatcherUrl
            headers := headers.set "Content-Type" "application/json"
            body := body
            optedInStory := optedIn }

/-- `handle_automation_event`. -/
def handleAutomationEvent (app : RelayApp) (F : FloatText φ) (mac : Mac)
    (now : Float64) (rawEvent : Dict String String) :
    Except HandleError SignedDispatch :=
  match AutomationEventPayload.fromJson rawEvent with
  | .error e => .error (.relay e)
  | .ok payload =>
    match app.getIssue payload.tenantId payload.issueKey with
    | .error code message => .error (.wire code message)
    | .empty reason =>
      .error (.relay (.notRefetched payload.issueKey reason))
    | .ok issue =>
      match evaluate payload.tenantId issue.issueKey issue.status
          issue.labelList issue.issueType
          (app.configForTenant payload.tenantId) with
      | .error n => .error (.notOptedIn n)
      | .ok optedIn => app.dispatch F mac now payload issue optedIn

end RelayApp

end SdlcOs.Dispatch
