/-
A GitHub App client (source-control: app_auth.py, github_client.py).

# The outside

GitHub is the list of its answers, in the order of the requests it gets;
a token that it issues it issues once, which is a field (`Hub.once`). The
clock is read once for each request. JSON, `str`, `repr` and the loading
of an RSA key are the platform's.

# Requests

A request says how it is authenticated: with a JWT of an app and its key,
or with an installation token. What was sent and answered is the record
of exchanges, which no code reads.
-/
import SdlcOs.Dispatch.Intake
import SdlcOs.Effects.Prog

namespace SdlcOs.SourceControl

open Data (Dict)
open Dispatch (Bytes Mac)
open Effects (Prog)
open Json (Json)

variable {φ : Type}

-- ==== the platform

/-- Exceptions that are not the package's. -/
inductive Crash : Type where
  | valueError | typeError | attributeError | keyError | indexError
  deriving DecidableEq, Repr

/-- `ErrorCode`. -/
inductive ErrorCode : Type where
  | notFound | permissionDenied | rateLimited | upstreamUnavailable
  deriving DecidableEq, Repr

/-- `SourceControlError`; `revoked` tells an `AccessRevokedError`. -/
structure SourceControlError where
  code : ErrorCode
  message : String
  retryAfterSeconds : Option Int := none
  revoked : Bool := false
  deriving DecidableEq, Repr

/-- What a call may raise. -/
inductive Failure : Type where
  | source (e : SourceControlError)
  | crash (c : Crash)
  deriving DecidableEq, Repr

/-- The platform. -/
structure Platform (φ : Type) where
  chars : Dispatch.Platform
  mac : Mac
  loads : String → Option (Json φ)
  str : Json φ → Except Crash String
  repr : String → String
  floatTruth : φ → Bool
  timestamp : Json φ → Except Crash ℚ
  isRsa : Bytes → Bool

/-- `bool(value)`. -/
def Platform.truthy (P : Platform φ) (v : Json φ) : Bool :=
  Dispatch.Decoder.truthy ⟨fun _ => none, P.floatTruth⟩ v

/-- `value[key]`. -/
def item (key : String) : Json φ → Except Failure (Json φ)
  | .obj members =>
    match Dispatch.member key members with
    | some v => .ok v
    | none => .error (.crash .keyError)
  | _ => .error (.crash .typeError)

/-- `value.get(key, default)`. -/
def getItem (key : String) (default : Json φ) :
    Json φ → Except Failure (Json φ)
  | .obj members => .ok ((Dispatch.member key members).getD default)
  | _ => .error (.crash .attributeError)

/-- `str(value)`. -/
def Platform.text (P : Platform φ) (v : Json φ) : Except Failure String :=
  (P.str v).mapError .crash

-- ==== the outside

/-- `AppCredentials`. -/
structure AppCredentials where
  appId : String
  appSlug : String
  privateKeyPem : Bytes
  deriving DecidableEq

/-- How a request is authenticated. -/
inductive Auth : Type where
  | appJwt (appId : String) (privateKeyPem : Bytes)
  | token (token : String)
  deriving DecidableEq

/-- A request to GitHub. -/
structure Request (φ : Type) where
  method : String
  url : String
  query : List (String × String) := []
  auth : Auth
  body : Option (Json φ) := none

/-- What comes back. -/
inductive Answer : Type where
  | unreachable (reason : String)
  | response (status : Nat) (headers : Dict String String) (body : String)

/-- `InstallationToken`. -/
structure InstallationToken where
  token : String
  expiresAt : ℚ
  installationId : String
  deriving DecidableEq

/-- The token in the body of an answer, and when it expires. -/
def parseGrant (P : Platform φ) (body : String) :
    Except Failure (String × ℚ) :=
  match P.loads body with
  | none => .error (.crash .valueError)
  | some parsed => do
    let expires ← item "expires_at" parsed
    let expiresAt ← (P.timestamp expires).mapError Failure.crash
    let token ← P.text (← item "token" parsed)
    return (token, expiresAt)

/-- The token that an answer issues. -/
def Answer.issues (P : Platform φ) : Answer → Option String
  | .unreachable _ => none
  | .response status _ body =>
    if 300 ≤ status then none
    else match parseGrant P body with
      | .ok (token, _) => some token
      | .error _ => none

/-- GitHub and the clock. -/
structure Hub (P : Platform φ) where
  answer : Nat → Answer
  now : Nat → ℚ
  once : ∀ n m t, (answer n).issues P = some t →
    (answer m).issues P = some t → n = m

/-- A request, for whom it was sent, and what was answered. -/
structure Exchange (φ : Type) where
  tenantId : String
  installationId : String
  request : Request φ
  answer : Answer

-- ==== a client

/-- `GitHubAppClient`, with its `InstallationTokenCache`. -/
structure GitHubAppClient where
  credentials : AppCredentials
  apiBaseUrl : String
  tokens : Dict String InstallationToken

/-- A client in use, and what was sent so far. -/
structure Session (φ : Type) where
  client : GitHubAppClient
  sent : List (Exchange φ)

/-- `bot_actor`: whether a slug makes a bot's login. -/
def isBotSlug (slug : String) : Bool :=
  let alnum (c : Char) := c.isDigit || (97 ≤ c.toNat && c.toNat ≤ 122)
  slug.toList.all (fun c => alnum c || c = '-') &&
    slug.toList.head?.any alnum && slug.toList.getLast?.any alnum &&
    slug.length ≤ 39

/-- `a or b` of two headers. -/
def eitherHeader (headers : Dict String String) (a b : String) :
    Option String :=
  match (headers.get a).filter (· ≠ "") with
  | some v => some v
  | none => headers.get b

/-- The message of an error's body. -/
def errorMessage (P : Platform φ) (status : Nat) (body : String) :
    Except Failure String :=
  if body = "" then .ok ("HTTP " ++ toString status)
  else match P.loads body with
    | none => .ok body
    | some parsed => do P.text (← getItem "message" (.str body) parsed)

/-- `int(retry_after)`. -/
def retryAfter (P : Platform φ) (s : String) : Except Failure Int :=
  match Dispatch.pyInt P.chars s with
  | some n => .ok n
  | none => .error (.crash .valueError)

/-- The error for a status, a message and the two rate limit headers, once
the audit has taken the actor. -/
def errorFor (P : Platform φ) (status : Nat) (context message : String)
    (remaining retry : Option String) : Except Failure SourceControlError :=
  if status = 404 then
    .ok { code := .notFound, message := context ++ ": " ++ message }
  else if status = 429 ∨ (status = 403 ∧ remaining = some "0") then do
    let after ← match retry.filter (· ≠ "") with
      | some r => retryAfter P r
      | none => .ok 60
    return { code := .rateLimited, message := context ++ ": " ++ message
             retryAfterSeconds := some after }
  else if status = 403 ∧ retry.isSome ∧ remaining ≠ some "0" then do
    let after ← retryAfter P (retry.getD "")
    return { code := .rateLimited, message := context ++ ": " ++ message
             retryAfterSeconds := some after }
  else if status = 401 ∨ status = 403 then
    .ok { code := .permissionDenied
          message := context ++ ": access denied/revoked (" ++
            toString status ++ "): " ++ message
          revoked := true }
  else if 500 ≤ status ∧ status < 600 then
    .ok { code := .upstreamUnavailable
          message := context ++ ": upstream returned " ++ toString status ++
            ": " ++ message }
  else
    .ok { code := .upstreamUnavailable
          message := context ++ ": unexpected status " ++ toString status ++
            ": " ++ message }

/-- `_map_http_error`: what it returns, or raises instead. -/
def mapHttpError (P : Platform φ) (c : GitHubAppClient) (status : Nat)
    (headers : Dict String String) (body context : String) :
    Except Failure SourceControlError :=
  match errorMessage P status body with
  | .error x => .error x
  | .ok message =>
    let remaining :=
      eitherHeader headers "X-RateLimit-Remaining" "x-ratelimit-remaining"
    let retry := eitherHeader headers "Retry-After" "retry-after"
    match errorFor P status context message remaining retry with
    | .error x => .error x
    | .ok e =>
      if isBotSlug c.credentials.appSlug then .ok e
      else .error (.crash .valueError)

section
variable {P : Platform φ} (H : Hub P) (tenantId installationId : String)

/-- `_send`. -/
def Session.send (x : Session φ) (r : Request φ) : Answer × Session φ :=
  let answer := H.answer x.sent.length
  (answer, { x with sent := x.sent ++ [⟨tenantId, installationId, r, answer⟩] })

/-- `create_installation_token`. -/
def createInstallationToken (x : Session φ) :
    Except Failure InstallationToken × Session φ :=
  if !P.isRsa x.client.credentials.privateKeyPem then
    (.error (.crash .valueError), x)
  else
    let request : Request φ :=
      { method := "POST"
        url := x.client.apiBaseUrl ++ "/app/installations/" ++
          installationId ++ "/access_tokens"
        auth := .appJwt x.client.credentials.appId
          x.client.credentials.privateKeyPem }
    match x.send H tenantId installationId request with
    | (.unreachable reason, x) =>
      (.error (.source ⟨.upstreamUnavailable,
        "upstream unreachable: " ++ reason, none, false⟩), x)
    | (.response status headers body, x) =>
      if 300 ≤ status then
        match mapHttpError P x.client status headers body
            ("exchanging App JWT for installation token (installation " ++
              installationId ++ ")") with
        | .error f => (.error f, x)
        | .ok e => (.error (.source e), x)
      else match parseGrant P body with
        | .error f => (.error f, x)
        | .ok (token, expiresAt) =>
          (.ok ⟨token, expiresAt, installationId⟩, x)

/-- `_TOKEN_REFRESH_MARGIN_SECONDS`. -/
def tokenRefreshMarginSeconds : ℚ := 30

/-- `self._tokens[installation_id] = fresh`. -/
def Session.store (x : Session φ) (fresh : InstallationToken) : Session φ :=
  { x with client :=
    { x.client with tokens := x.client.tokens.set installationId fresh } }

/-- `get_token` where the cache has nothing to hand out. -/
def fetchToken (x : Session φ) :
    Except Failure InstallationToken × Session φ :=
  match createInstallationToken H tenantId installationId x with
  | (.error f, x) => (.error f, x)
  | (.ok fresh, x) => (.ok fresh, x.store installationId fresh)

/-- `InstallationTokenCache.get_token`. -/
def getToken (x : Session φ) :
    Except Failure InstallationToken × Session φ :=
  match x.client.tokens.get installationId with
  | some cached =>
    if H.now x.sent.length <
        cached.expiresAt - tokenRefreshMarginSeconds then
      (.ok cached, x)
    else fetchToken H tenantId installationId x
  | none => fetchToken H tenantId installationId x

/-- `InstallationTokenCache.force_evict`. -/
def GitHubAppClient.forceEvict (c : GitHubAppClient) : GitHubAppClient :=
  { c with tokens := c.tokens.erase installationId }

/-- A call of the REST API. -/
structure ApiRequest (φ : Type) where
  method : String
  path : String
  query : List (String × String) := []
  body : Option (Json φ) := none

/-- `_authed_request` from the answer on. -/
def authedAnswer (r : ApiRequest φ) :
    Answer → Session φ → Except Failure (Json φ) × Session φ
  | .unreachable reason, x =>
    (.error (.source ⟨.upstreamUnavailable,
      "upstream unreachable: " ++ reason, none, false⟩), x)
  | .response status headers body, x =>
    if 300 ≤ status then
      match mapHttpError P x.client status headers body
          (r.method ++ " " ++ r.path) with
      | .error f => (.error f, x)
      | .ok e =>
        (.error (.source e),
          if e.revoked then
            { x with client := x.client.forceEvict installationId }
          else x)
    else if !isBotSlug x.client.credentials.appSlug then
      (.error (.crash .valueError), x)
    else if body = "" then (.ok (.obj []), x)
    else match P.loads body with
      | none => (.error (.crash .valueError), x)
      | some v => (.ok v, x)

/-- `_authed_request`. -/
def authedRequest (r : ApiRequest φ) (x : Session φ) :
    Except Failure (Json φ) × Session φ :=
  match getToken H tenantId installationId x with
  | (.error f, x) => (.error f, x)
  | (.ok token, x) =>
    let request : Request φ :=
      { method := r.method, url := x.client.apiBaseUrl ++ r.path
        query := r.query, auth := .token token.token, body := r.body }
    let sent := x.send H tenantId installationId request
    authedAnswer (P := P) installationId r sent.1 sent.2

/-- The requests of a tool, one after the other. -/
def perform {α : Type} : Prog (fun _ : ApiRequest φ => Json φ) Failure α →
    Session φ → Except Failure α × Session φ
  | .ret a, x => (.ok a, x)
  | .raise f, x => (.error f, x)
  | .op r k, x =>
    match authedRequest H tenantId installationId r x with
    | (.error f, x) => (.error f, x)
    | (.ok v, x) => perform (k v) x

end

end SdlcOs.SourceControl
