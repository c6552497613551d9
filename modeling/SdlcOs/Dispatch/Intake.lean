/-
What a webhook request must be to reach a tenant (job_dispatcher/
webhook_auth.py, job_dispatcher/tenant_resolution.py).

`json.loads(body.decode("utf-8"))` is a parameter, `loads`: `none` is any
exception it raises, all of which are caught where it is called. Its
values are the JSON values, a dictionary being the list of its members;
`floatTruth` is the truth value of a float.
-/
import SdlcOs.Dispatch.Signing
import SdlcOs.Json.Text

namespace SdlcOs.Dispatch

open Data (Dict)
open Json (Json)

variable {φ : Type}

-- ==== authentication

/-- `AuthenticatedTrigger`. -/
structure AuthenticatedTrigger where
  claimedTenantId : String
  body : Bytes

/-- `RejectedTrigger`; no reason is the source's `"unknown"`. -/
structure RejectedTrigger where
  rejectReason : Option RejectReason
  detail : Option StaleDetail
  claimedTenantId : Option String

/-- What authenticating gives. -/
inductive Authenticated : Type where
  | trigger (t : AuthenticatedTrigger)
  | rejected (r : RejectedTrigger)

/-- `authenticate`. -/
def authenticate (P : Platform) (mac : Mac) (headers : Dict String String)
    (body : Bytes) (secretLookup : String → Option Bytes) (now : Float64)
    (window : Int) : Except PyError Authenticated :=
  match verifyRequest P mac headers body secretLookup now window with
  | .error e => .error e
  | .ok result =>
    if !result.ok then
      .ok (.rejected ⟨result.rejectReason, result.detail, result.tenantId⟩)
    else match result.tenantId with
      | none => .error .assertionError
      | some tenantId => .ok (.trigger ⟨tenantId, body⟩)

-- ==== JSON

/-- What the platform makes of a body. -/
structure Decoder (φ : Type) where
  loads : Bytes → Option (Json φ)
  floatTruth : φ → Bool

/-- `bool(value)`. -/
def Decoder.truthy (D : Decoder φ) : Json φ → Bool
  | .null => false
  | .bool b => b
  | .int n => n ≠ 0
  | .float x => D.floatTruth x
  | .str s => s ≠ ""
  | .arr items => !items.isEmpty
  | .obj members => !members.isEmpty

/-- `payload.get(key)` of a dictionary. -/
def member (key : String) : List (String × Json φ) → Option (Json φ)
  | [] => none
  | m :: ms => if m.1 = key then some m.2 else member key ms

/-- `tuple(value)`: the elements of an iterable. -/
def elements : Json φ → Except PyError (List (Json φ))
  | .str s => .ok (s.toList.map fun c => .str (.singleton c))
  | .arr items => .ok items
  | .obj members => .ok (members.map fun m => .str m.1)
  | _ => .error .typeError

-- ==== resolution

/-- `ResolvedTrigger`. -/
structure ResolvedTrigger (φ : Type) where
  tenantId : String
  jiraKey : Json φ
  projectKey : Json φ
  repository : Json φ
  status : Json φ
  labels : List (Json φ)

/-- What an `UnresolvedTrigger` says. -/
inductive UnresolvedTrigger (φ : Type) : Type where
  | notJson
  | missing (fields : List String)
  | unmapped (projectKey : Json φ)
  | mismatch (projectKey : Json φ) (resolvedTenantId claimedTenantId : String)

/-- What resolving gives. -/
inductive Resolved (φ : Type) : Type where
  | trigger (t : ResolvedTrigger φ)
  | unresolved (u : UnresolvedTrigger φ)

/-- `tenant_for_project`: a text is looked up, what has no hash raises,
and nothing else equals a text. -/
def tenantForProject (directory : Dict String String) :
    Json φ → Except PyError (Option String)
  | .str s => .ok (directory.get s)
  | .arr _ => .error .typeError
  | .obj _ => .error .typeError
  | _ => .ok none

/-- The fields a payload must have. -/
def requiredFields : List String := ["issue_key", "project_key", "repository"]

/-- The required fields that a payload does not have, or has falsy. -/
def missingFields (D : Decoder φ) (payload : List (String × Json φ)) :
    List String :=
  requiredFields.filter fun f => !((member f payload).any D.truthy)

/-- `resolve_tenant` once the payload is a dictionary. -/
def resolvePayload (D : Decoder φ) (trigger : AuthenticatedTrigger)
    (directory : Dict String String) (payload : List (String × Json φ)) :
    Except PyError (Resolved φ) :=
  if missingFields D payload ≠ [] then
    .ok (.unresolved (.missing (missingFields D payload)))
  else
    let item (key : String) := (member key payload).getD .null
    match tenantForProject directory (item "project_key") with
    | .error e => .error e
    | .ok none => .ok (.unresolved (.unmapped (item "project_key")))
    | .ok (some resolvedTenantId) =>
      if resolvedTenantId ≠ trigger.claimedTenantId then
        .ok (.unresolved (.mismatch (item "project_key") resolvedTenantId
          trigger.claimedTenantId))
      else
        match elements ((member "labels" payload).getD (.arr [])) with
        | .error e => .error e
        | .ok labels =>
          .ok (.trigger
            { tenantId := resolvedTenantId, jiraKey := item "issue_key"
              projectKey := item "project_key"
              repository := item "repository"
              status := (member "status" payload).getD (.str "")
              labels := labels })

/-- `resolve_tenant`. -/
def resolveTenant (D : Decoder φ) (trigger : AuthenticatedTrigger)
    (directory : Dict String String) : Except PyError (Resolved φ) :=
  match D.loads trigger.body with
  | none => .ok (.unresolved .notJson)
  | some (.obj payload) => resolvePayload D trigger directory payload
  | some _ => .error .attributeError

-- ==== intake

/-- How a request is refused: by the two exceptions the intake means to
raise, or by another one. -/
inductive IntakeError (φ : Type) : Type where
  | authentication (r : RejectedTrigger)
  | resolution (u : UnresolvedTrigger φ)
  | crash (e : PyError)

/-- `require_authenticated`, then `require_resolved`. -/
def intake (P : Platform) (mac : Mac) (D : Decoder φ)
    (directory : Dict String String) (headers : Dict String String)
    (body : Bytes) (secretLookup : String → Option Bytes) (now : Float64) :
    Except (IntakeError φ) (ResolvedTrigger φ) :=
  match authenticate P mac headers body secretLookup now
      replayWindowSeconds with
  | .error e => .error (.crash e)
  | .ok (.rejected r) => .error (.authentication r)
  | .ok (.trigger trigger) =>
    match resolveTenant D trigger directory with
    | .error e => .error (.crash e)
    | .ok (.unresolved u) => .error (.resolution u)
    | .ok (.trigger t) => .ok t

end SdlcOs.Dispatch
