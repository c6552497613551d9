/-
The source-control service (source-control: service.py, webhook.py).

A tool is the requests it makes and what it makes of their answers. A
call resolves the tenant's installation, takes the client that is cached
under the installation's id, and runs the tool with it; what the client
has become is put back, since the cache holds the object itself.

`create_branch_worktree` asks nothing of GitHub and takes no client; it is
left out, and so is the audit log, which nothing here reads.
-/
import SdlcOs.SourceControl.Client

namespace SdlcOs.SourceControl

open Data (Dict)
open Dispatch (Bytes Mac)
open Effects (Prog)
open Json (Json)

variable {φ : Type}

-- ==== the tools

/-- `Result`, as `to_wire` shows it. -/
inductive Result (φ : Type) : Type where
  | ok (data : Json φ)
  | empty (reason : String) (extra : List (String × Json φ))
  | error (e : SourceControlError)

/-- The program of a tool. -/
abbrev ToolProg (φ : Type) (α : Type) : Type :=
  Prog (fun _ : ApiRequest φ => Json φ) Failure α

/-- `list_pulls`. -/
def listPulls (owner repo head base state : String) : ToolProg φ (Json φ) :=
  Prog.perform
    { method := "GET", path := "/repos/" ++ owner ++ "/" ++ repo ++ "/pulls"
      query := [("state", state)] ++
        (if head = "" then [] else [("head", head)]) ++
        (if base = "" then [] else [("base", base)]) }

/-- `create_pull`. -/
def createPull (owner repo head base title description : String)
    (draft : Bool) : ToolProg φ (Json φ) :=
  Prog.perform
    { method := "POST", path := "/repos/" ++ owner ++ "/" ++ repo ++ "/pulls"
      body := some (.obj [("head", .str head), ("base", .str base),
        ("title", .str title), ("body", .str description),
        ("draft", .bool draft)]) }

/-- `get_pull`. -/
def getPull (owner repo : String) (number : Int) : ToolProg φ (Json φ) :=
  Prog.perform
    { method := "GET"
      path := "/repos/" ++ owner ++ "/" ++ repo ++ "/pulls/" ++
        toString number }

/-- `list_check_runs_for_ref`. -/
def listCheckRunsForRef (owner repo ref : String) : ToolProg φ (Json φ) :=
  Prog.perform
    { method := "GET"
      path := "/repos/" ++ owner ++ "/" ++ repo ++ "/commits/" ++ ref ++
        "/check-runs" }

/-- `get_contents`. -/
def getContents (owner repo path ref : String) : ToolProg φ (Json φ) :=
  Prog.perform
    { method := "GET"
      path := "/repos/" ++ owner ++ "/" ++ repo ++ "/contents/" ++ path
      query := [("ref", ref)] }

/-- `get_ref`. -/
def getRef (owner repo ref : String) : ToolProg φ (Json φ) :=
  Prog.perform
    { method := "GET"
      path := "/repos/" ++ owner ++ "/" ++ repo ++ "/git/ref/" ++ ref }

/-- `get_tree`. -/
def getTree (owner repo treeSha : String) (recursive : Bool) :
    ToolProg φ (Json φ) :=
  Prog.perform
    { method := "GET"
      path := "/repos/" ++ owner ++ "/" ++ repo ++ "/git/trees/" ++ treeSha
      query := if recursive then [("recursive", "1")] else [] }

/-- `value[0]` of a value that is not falsy. -/
def firstItem : Json φ → Except Failure (Json φ)
  | .arr (v :: _) => .ok v
  | .arr [] => .error (.crash .indexError)
  | .str s =>
    match s.toList with
    | c :: _ => .ok (.str (.singleton c))
    | [] => .error (.crash .indexError)
  | .obj _ => .error (.crash .keyError)
  | _ => .error (.crash .typeError)

/-- `for c in value`. -/
def iterate (v : Json φ) : Except Failure (List (Json φ)) :=
  (Dispatch.elements v).mapError fun _ => .crash .typeError

/-- `_CONCLUSION_MAP`. -/
def conclusionMap : List (String × String) :=
  [("success", "success"), ("failure", "failure"), ("neutral", "neutral"),
    ("cancelled", "cancelled"), ("skipped", "neutral"),
    ("timed_out", "failure"), ("action_required", "failure"),
    ("stale", "cancelled")]

/-- `_map_conclusion`. -/
def mapConclusion : Json φ → Except Failure (Json φ)
  | .null => .ok .null
  | .str raw => .ok (.str ((conclusionMap.lookup raw).getD "failure"))
  | .arr _ => .error (.crash .typeError)
  | .obj _ => .error (.crash .typeError)
  | _ => .ok (.str "failure")

section
variable (P : Platform φ)

/-- `open_pr` from the client on. -/
def openPr (owner repo headBranch baseBranch title description : String)
    (draft : Bool) : ToolProg φ (Result φ) := do
  let existing ← listPulls owner repo (owner ++ ":" ++ headBranch)
    baseBranch "open"
  if P.truthy existing then
    let pr ← Prog.lift (firstItem existing)
    let number ← Prog.lift (item "number" pr)
    return .empty
      ("An open PR already exists for " ++ headBranch ++ " -> " ++
        baseBranch ++ "; no new PR opened.")
      [("existing_pr_number", number)]
  else
    let pr ← createPull owner repo headBranch baseBranch title description
      draft
    let number ← Prog.lift (item "number" pr)
    let url ← Prog.lift (item "html_url" pr)
    let isDraft ← Prog.lift (getItem "draft" .null pr)
    return .ok (.obj [("pr_number", number), ("url", url),
      ("state", .str (if P.truthy isDraft then "draft" else "open"))])

/-- One entry of `checks`. -/
def checkEntry (pr c : Json φ) : Except Failure (Json φ) := do
  let name ← item "name" c
  let status ← item "status" c
  let conclusion ← mapConclusion (← getItem "conclusion" .null c)
  let url ← getItem "html_url" (← item "html_url" pr) c
  return .obj [("name", name), ("status", status),
    ("conclusion", conclusion), ("url", url)]

/-- `state` of a pull request. -/
def pullState (pr : Json φ) : Except Failure String := do
  if P.truthy (← getItem "merged" .null pr) then return "merged"
  match ← item "state" pr with
  | .str "closed" => return "closed"
  | _ =>
    if P.truthy (← getItem "draft" .null pr) then return "draft"
    return "open"

/-- `get_pr_check_status` from the client on. -/
def getPrCheckStatus (owner repo : String) (prNumber : Int) :
    ToolProg φ (Result φ) := do
  let pr ← getPull owner repo prNumber
  let head ← Prog.lift (item "head" pr)
  let sha ← Prog.lift (item "sha" head)
  let shaText ← Prog.lift (P.text sha)
  let checksResp ← listCheckRunsForRef owner repo shaText
  let checkRuns ← Prog.lift (getItem "check_runs" (.arr []) checksResp)
  if !P.truthy checkRuns then
    return .empty
      ("PR #" ++ toString prNumber ++
        " exists but no checks have been registered against it yet.") []
  let runs ← Prog.lift (iterate checkRuns)
  let checks ← Prog.lift (runs.mapM (checkEntry pr))
  let state ← Prog.lift (pullState P pr)
  let number ← Prog.lift (item "number" pr)
  let mergeable ← Prog.lift (getItem "mergeable" .null pr)
  return .ok (.obj [("pr_number", number), ("state", .str state),
    ("mergeable", .bool (P.truthy mergeable)), ("checks", .arr checks)])

/-- `value == 0`. -/
def isZero : Json φ → Bool
  | .int n => n = 0
  | .bool b => !b
  | .float x => !P.floatTruth x
  | _ => false

/-- `value == text`. -/
def isText (text : String) : Json φ → Bool
  | .str s => s = text
  | _ => false

/-- `content.replace("\n", "")`. -/
def stripNewlines : Json φ → Except Failure (Json φ)
  | .str s => .ok (.str (.ofList (s.toList.filter (· ≠ '\n'))))
  | _ => .error (.crash .attributeError)

/-- A body that is one file. -/
def fileResult (branch path : String) (resp : Json φ) :
    Except Failure (Result φ) := do
  let size ← getItem "size" (.int 0) resp
  if isZero P size then
    return .empty
      ("'" ++ path ++ "' exists on branch '" ++ branch ++
        "' but is empty (zero bytes).") []
  let isBase64 := isText "base64" (← getItem "encoding" .null resp)
  let raw ← getItem "content" (.str "") resp
  let content ← if isBase64 then stripNewlines raw else .ok raw
  let itsPath ← item "path" resp
  let sha ← item "sha" resp
  return .ok (.obj [("path", itsPath), ("branch", .str branch),
    ("content", content),
    ("encoding", .str (if isBase64 then "base64" else "utf-8")),
    ("size", size), ("sha", sha)])

/-- `get_file_contents` from the client on. -/
def getFileContents (owner repo branch path : String) :
    ToolProg φ (Result φ) := do
  match ← getContents owner repo path branch with
  | .arr _ =>
    .raise (.source
      { code := .notFound
        message := "'" ++ path ++ "' is a directory, not a file" })
  | resp => Prog.lift (fileResult P branch path resp)

/-- One entry of `files`, or none if its path is outside the prefix. -/
def fileEntry (pathPrefix : String) (entry : Json φ) :
    Except Failure (Option (Json φ)) := do
  let p ← item "path" entry
  let inside ←
    if pathPrefix = "" then .ok true
    else match p with
      | .str s => .ok (pathPrefix.toList.isPrefixOf s.toList)
      | _ => .error (.crash .attributeError)
  if !inside then return none
  let isBlob := isText "blob" (← item "type" entry)
  let size ← getItem "size" .null entry
  return some (.obj [("path", p),
    ("type", .str (if isBlob then "file" else "directory")),
    ("size", if P.truthy size then size else .int 0)])

/-- `list_files` from the client on. -/
def listFiles (owner repo branch pathPrefix : String) (recursive : Bool) :
    ToolProg φ (Result φ) := do
  let refInfo ← getRef owner repo ("heads/" ++ branch)
  let object ← Prog.lift (item "object" refInfo)
  let sha ← Prog.lift (item "sha" object)
  let commitSha ← Prog.lift (P.text sha)
  let treeResp ← getTree owner repo commitSha recursive
  let tree ← Prog.lift (getItem "tree" (.arr []) treeResp)
  let entries ← Prog.lift (iterate tree)
  let files ← Prog.lift (entries.mapM (fileEntry P pathPrefix))
  match files.filterMap id with
  | [] =>
    return .empty
      ("No files matched path prefix '" ++ pathPrefix ++ "' on branch '" ++
        branch ++ "'.") []
  | files => return .ok (.obj [("files", .arr files), ("next_cursor", .null)])

/-- A tool that calls GitHub, with its arguments. -/
inductive Tool : Type where
  | openPr (headBranch baseBranch title description : String) (draft : Bool)
  | getPrCheckStatus (prNumber : Int)
  | getFileContents (branch path : String)
  | listFiles (branch pathPrefix : String) (recursive : Bool)

/-- A tool's program for a repository. -/
def Tool.prog (owner repo : String) : Tool → ToolProg φ (Result φ)
  | .openPr head base title description draft =>
    SourceControl.openPr P owner repo head base title description draft
  | .getPrCheckStatus number =>
    SourceControl.getPrCheckStatus P owner repo number
  | .getFileContents branch path =>
    SourceControl.getFileContents P owner repo branch path
  | .listFiles branch pathPrefix recursive =>
    SourceControl.listFiles P owner repo branch pathPrefix recursive

end

-- ==== the registry

/-- `TenantInstallation`. -/
structure TenantInstallation where
  tenantId : String
  installationId : String
  appId : String
  appSlug : String
  privateKeyPem : Bytes
  allowedRepositories : List String
  apiBaseUrl : String := "https://api.github.com"
  deriving DecidableEq

/-- `SourceControlService` and its `InstallationRegistry`. `sent` is the
record of exchanges. -/
structure Service (φ : Type) where
  byTenant : Dict String TenantInstallation
  clients : Dict String GitHubAppClient
  sent : List (Exchange φ)

namespace Service

variable {P : Platform φ}

/-- A service with nothing registered. -/
def new : Service φ := ⟨.empty, .empty, []⟩

/-- `InstallationRegistry.register`. -/
def register (s : Service φ) (installation : TenantInstallation) :
    Service φ :=
  { s with byTenant := s.byTenant.set installation.tenantId installation }

/-- A refusal of the registry. -/
def denied (message : String) : Except Failure TenantInstallation :=
  .error (.source { code := .permissionDenied, message := message })

/-- `InstallationRegistry.resolve`. -/
def resolve (s : Service φ) (tenantId repository : String) :
    Except Failure TenantInstallation :=
  if tenantId = "" then denied "tenant_id is required"
  else match s.byTenant.get tenantId with
    | none => denied ("tenant '" ++ tenantId ++
        "' has no registered GitHub App installation")
    | some installation =>
      if repository ∈ installation.allowedRepositories then
        .ok installation
      else denied ("repository '" ++ repository ++ "' is not in tenant '" ++
        tenantId ++ "' installation's repository scope")

/-- `_split_repo`. -/
def splitRepo (P : Platform φ) (repository : String) :
    Except Failure (String × String) :=
  let owner := repository.toList.takeWhile (· ≠ '/')
  let repo := (repository.toList.dropWhile (· ≠ '/')).drop 1
  if owner = [] ∨ repo = [] then
    .error (.source
      { code := .notFound
        message := "malformed repository identifier: " ++
          P.repr repository })
  else .ok (.ofList owner, .ofList repo)

/-- `api_base_url.rstrip("/")`. -/
def rstripSlash (url : String) : String :=
  .ofList (url.toList.reverse.dropWhile (· = '/')).reverse

/-- The client of an installation. -/
def newClient (installation : TenantInstallation) : GitHubAppClient where
  credentials := ⟨installation.appId, installation.appSlug,
    installation.privateKeyPem⟩
  apiBaseUrl := rstripSlash installation.apiBaseUrl
  tokens := .empty

/-- `_client_for`; the caller puts the client into the cache. -/
def clientFor (s : Service φ) (installation : TenantInstallation) :
    GitHubAppClient :=
  match s.clients.get installation.installationId with
  | some client => client
  | none => newClient installation

/-- What a method makes of an exception: one of the package's is a
result. -/
def toResult : Except Failure (Result φ) → Except Crash (Result φ)
  | .ok r => .ok r
  | .error (.source e) => .ok (.error e)
  | .error (.crash c) => .error c

/-- A tool call. -/
def call (H : Hub P) (s : Service φ) (tenantId repository : String)
    (tool : Tool) : Except Crash (Result φ) × Service φ :=
  match s.resolve tenantId repository with
  | .error f => (toResult (.error f), s)
  | .ok installation =>
    match splitRepo P repository with
    | .error f => (toResult (.error f), s)
    | .ok (owner, repo) =>
      let out := perform H tenantId installation.installationId
        (tool.prog P owner repo) ⟨s.clientFor installation, s.sent⟩
      (toResult out.1,
        { s with
          clients :=
            s.clients.set installation.installationId out.2.client
          sent := out.2.sent })

-- ==== the webhook

/-- A webhook delivery. -/
structure Delivery (φ : Type) where
  eventType : String
  rawBody : Bytes
  payload : List (String × Json φ)
  signatureHeader : Option String
  webhookSecret : Bytes

/-- How a delivery is refused. -/
inductive WebhookFailure : Type where
  | verification (message : String)
  | crash (c : Crash)

/-- What a delivery came to. -/
inductive WebhookOutcome : Type where
  | ignoredEvent (eventType : String)
  | ignoredInstallation
  | revoked (installationId : String)

/-- `verify_signature`. -/
def verifySignature (mac : Mac) (payload : Bytes)
    (signatureHeader : Option String) (webhookSecret : Bytes) :
    Except WebhookFailure Unit :=
  match signatureHeader.filter (· ≠ "") with
  | none => .error (.verification "missing X-Hub-Signature-256 header")
  | some header =>
    if "sha256=".toList.isPrefixOf header.toList then
      match Dispatch.compareDigest (.ofList (header.toList.drop 7))
          (mac.hexdigest webhookSecret payload) with
      | .error _ => .error (.crash .typeError)
      | .ok false =>
        .error (.verification "signature does not match payload")
      | .ok true => .ok ()
    else .error (.verification
      "unsupported signature scheme (expected sha256=...)")

/-- `is_installation_revocation_event`. -/
def isInstallationRevocationEvent (eventType : String)
    (payload : List (String × Json φ)) : Bool :=
  eventType = "installation" &&
    match Dispatch.member "action" payload with
    | some (.str action) => action = "deleted" || action = "suspend"
    | _ => false

/-- `str((payload.get("installation") or {}).get("id", ""))`. -/
def payloadInstallationId (P : Platform φ)
    (payload : List (String × Json φ)) : Except WebhookFailure String :=
  let installation := (Dispatch.member "installation" payload).getD .null
  let object := if P.truthy installation then installation else .obj []
  match getItem "id" (.str "") object with
  | .error _ => .error (.crash .attributeError)
  | .ok id => (P.str id).mapError .crash

/-- `handle_installation_webhook`. -/
def handleInstallationWebhook (P : Platform φ) (s : Service φ)
    (d : Delivery φ) : Except WebhookFailure WebhookOutcome × Service φ :=
  match verifySignature P.mac d.rawBody d.signatureHeader d.webhookSecret with
  | .error f => (.error f, s)
  | .ok () =>
    if !isInstallationRevocationEvent d.eventType d.payload then
      (.ok (.ignoredEvent d.eventType), s)
    else match payloadInstallationId P d.payload with
      | .error f => (.error f, s)
      | .ok installationId =>
        if installationId = "" then (.ok .ignoredInstallation, s)
        -- no one else holds the client whose token is evicted
        else (.ok (.revoked installationId),
          { s with clients := s.clients.erase installationId })

-- ==== the runs

/-- What may happen to a service. -/
inductive Event (φ : Type) : Type where
  | register (installation : TenantInstallation)
  | call (tenantId repository : String) (tool : Tool)
  | webhook (d : Delivery φ)

/-- One event. -/
def step (H : Hub P) (s : Service φ) : Event φ → Service φ
  | .register installation => s.register installation
  | .call tenantId repository tool => (s.call H tenantId repository tool).2
  | .webhook d => (s.handleInstallationWebhook P d).2

/-- A sequence of events. -/
def run (H : Hub P) (s : Service φ) (events : List (Event φ)) : Service φ :=
  events.foldl (step H) s

end Service

end SdlcOs.SourceControl
