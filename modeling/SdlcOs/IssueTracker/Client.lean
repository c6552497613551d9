/-
The Jira client's `create_story`, and Jira as the client sees it.

# Requests

A request takes effect or not, and its answer arrives or not (`Fate`);
the fates are told by the number of the request. A request that Jira
refuses has failed before it took effect. After a 2xx answer whose body
cannot be read (`garbled`) the request has taken effect.

# Issues

A search sees every issue there is, and the values in its clauses are
read as they are: what `_escape_jql_string` escapes, Jira reads back. The
epic of a story is in its `parent` or in the site's Epic Link field, and
`parent = ` searches for both. A Blocks link is kept with the issue that
it blocks.

# A call

It searches for the story, creates it if there is none, and then links it
to the issues it depends on, one request each. The first request that
fails ends the call: an `IssueTrackerError` becomes an error result,
every other exception goes to the caller.
-/
import Mathlib.Data.List.Basic
import Mathlib.Data.List.DropRight

namespace SdlcOs.IssueTracker

-- ==== issues

/-- Where an issue names its epic: the `parent` field, or a custom
field by its id. -/
inductive EpicField : Type where
  | parent (key : String)
  | custom (id key : String)
  deriving DecidableEq, Repr

def EpicField.key : EpicField → String
  | .parent key => key
  | .custom _ key => key

/-- The `fields` of an issue; `size` is a custom field, by its id, and
`description` the text before it is made a document. -/
structure Fields where
  project : String
  issueType : String
  summary : String
  description : String
  epic : EpicField
  size : Option (String × String)
  labels : List String
  deriving DecidableEq, Repr

/-- An issue, with the keys of the issues that block it. -/
structure Issue where
  key : String
  fields : Fields
  blockedBy : List String
  deriving DecidableEq, Repr

/-- A site's issues. -/
structure Server where
  issues : List Issue
  deriving DecidableEq, Repr

/-- How a site names the next issue. -/
structure Jira where
  newKey : List Issue → String
  fresh : ∀ issues, ∀ i ∈ issues, i.key ≠ newKey issues

namespace Server

/-- `POST /rest/api/3/issue`. -/
def create (s : Server) (key : String) (fields : Fields) : Server :=
  ⟨s.issues ++ [⟨key, fields, []⟩]⟩

/-- `POST /rest/api/3/issueLink`, for a Blocks link. -/
def link (s : Server) (blocker blocked : String) : Server :=
  ⟨s.issues.map fun i =>
    if i.key = blocked then { i with blockedBy := i.blockedBy ++ [blocker] }
    else i⟩

end Server

/-- A clause of a search. -/
inductive Clause : Type where
  | project (key : String)
  | issueType (name : String)
  | summary (text : String)
  | parent (key : String)
  deriving DecidableEq, Repr

def Clause.holds (i : Issue) : Clause → Bool
  | .project key => i.fields.project = key
  | .issueType name => i.fields.issueType = name
  | .summary text => i.fields.summary = text
  | .parent key => i.fields.epic.key = key

/-- `POST /rest/api/3/search/jql`, with one result at most. -/
def Server.search (s : Server) (jql : List Clause) : Option String :=
  (s.issues.find? fun i => jql.all fun c => c.holds i).map Issue.key

-- ==== errors

/-- `errors.ErrorCode`. -/
inductive ErrorCode : Type where
  | notFound
  | permissionDenied
  | rateLimited
  | upstreamUnavailable
  deriving DecidableEq, Repr

/-- `RETRYABLE`. -/
def ErrorCode.retryable : ErrorCode → Bool
  | .notFound => false
  | .permissionDenied => false
  | .rateLimited => true
  | .upstreamUnavailable => true

/-- `IssueTrackerError`; no one here gives it details. -/
structure IssueTrackerError where
  code : ErrorCode
  message : String
  retryAfterSeconds : Option Int
  deriving DecidableEq, Repr

/-- Why a request came back without a result: no answer, or one with a
status from 400 on. `Retry-After` is absent, or no integer, or one. -/
inductive Failure : Type where
  | unreachable (url exc : String)
  | status (code : Nat) (text : String) (retryAfter : Option (Option Int))
  deriving DecidableEq, Repr

/-- `from_http_response`. -/
def fromHttpResponse (status : Nat) (text : String)
    (retryAfter : Option (Option Int)) : IssueTrackerError :=
  let shown := String.ofList (text.toList.take 500)
  if status = 404 then
    ⟨.notFound, "Jira returned 404: " ++ shown, none⟩
  else if status = 401 ∨ status = 403 then
    ⟨.permissionDenied,
      "Jira returned " ++ toString status ++ ": " ++ shown, none⟩
  else if status = 429 then
    ⟨.rateLimited, "Jira rate-limited this request: " ++ shown,
      some ((retryAfter.getD none).getD 30)⟩
  else
    ⟨.upstreamUnavailable,
      "Jira returned " ++ toString status ++ ": " ++ shown, none⟩

def Failure.error : Failure → IssueTrackerError
  | .unreachable url exc =>
    ⟨.upstreamUnavailable,
      "Could not reach Jira at " ++ url ++ ": " ++ exc, none⟩
  | .status code text retryAfter => fromHttpResponse code text retryAfter

/-- What becomes of a request. -/
inductive Fate : Type where
  | answered
  | garbled
  | failed (took : Bool) (why : Failure)
  deriving DecidableEq, Repr

/-- Whether the request takes effect. -/
def Fate.took : Fate → Bool
  | .answered => true
  | .garbled => true
  | .failed took _ => took

/-- The site, and the number of requests sent to it. -/
structure World where
  server : Server
  sent : Nat
  deriving DecidableEq, Repr

-- ==== the client

/-- `TenantJiraConfig`, as far as the client reads it here. -/
structure TenantJiraConfig where
  baseUrl : String
  authMode : String := "oauth_bearer"
  oauthBearerToken : Option String := none
  basicAuthEmail : Option String := none
  basicAuthApiToken : Option String := none
  sizeFieldMode : String := "label"
  sizeCustomFieldId : Option String := none
  epicLinkMode : String := "parent"
  epicLinkCustomFieldId : Option String := none
  deriving DecidableEq, Repr

/-- `size_label`. -/
def sizeLabel (size : String) : String := "size:" ++ size

/-- Exceptions that are caught in a call, and those that are not. -/
inductive Exn : Type where
  | tracker (error : IssueTrackerError)
  | valueError (message : String)
  | unknownAuthMode (mode : String)
  | unreadable
  deriving DecidableEq, Repr

/-- What Python takes for true: `None` and "" are not. -/
def given (s : Option String) : Bool :=
  match s with
  | none => false
  | some s => s ≠ ""

/-- `_headers`: the headers themselves are of no concern here. -/
def TenantJiraConfig.headers (config : TenantJiraConfig) : Except Exn Unit :=
  if config.authMode = "oauth_bearer" then
    if given config.oauthBearerToken then .ok ()
    else .error (.valueError
      "oauth_bearer auth_mode requires oauth_bearer_token")
  else if config.authMode = "basic" then
    if given config.basicAuthEmail && given config.basicAuthApiToken then
      .ok ()
    else .error (.valueError
      "basic auth_mode requires basic_auth_email and basic_auth_api_token")
  else .error (.unknownAuthMode config.authMode)

/-- `base_url.rstrip('/')`. -/
def TenantJiraConfig.base (config : TenantJiraConfig) : String :=
  String.ofList (config.baseUrl.toList.rdropWhile (· = '/'))

/-- The arguments of `create_story`. -/
structure Story where
  projectKey : String
  epicKey : String
  summary : String
  description : String
  size : String
  dependsOn : Option (List String) := none
  labels : Option (List String) := none
  deriving DecidableEq, Repr

/-- `depends_on or []`. -/
def Story.deps (story : Story) : List String := story.dependsOn.getD []

/-- What a call returns, as it goes over the wire. -/
inductive Wire : Type where
  | ok (issueKey url epicKey : String)
  | empty (reason existingIssueKey : String)
  | error (code : ErrorCode) (message : String) (retryable : Bool)
      (retryAfterSeconds : Option Int)
  deriving DecidableEq, Repr

/-- `_error_result`. -/
def errorResult (e : IssueTrackerError) : Wire :=
  .error e.code e.message e.code.retryable
    (if e.code = .rateLimited then e.retryAfterSeconds else none)

-- ==== requests

section Requests

variable (config : TenantJiraConfig) (fates : Nat → Fate)

/-- `_request`, with what it does at the site; the answer's body is read
by its caller if at all. -/
def request (effect : Server → Server) (w : World) : Except Exn Bool × World :=
  match config.headers with
  | .error e => (.error e, w)
  | .ok _ =>
    let w' := ⟨if (fates w.sent).took then effect w.server else w.server,
      w.sent + 1⟩
    match fates w.sent with
    | .answered => (.ok true, w')
    | .garbled => (.ok false, w')
    | .failed _ why => (.error (.tracker why.error), w')

/-- `resp.json()`, of an answer that says `a`. -/
def readJson {α : Type} (a : α) : Bool → Except Exn α
  | true => .ok a
  | false => .error .unreadable

/-- The clauses of `_find_existing`. -/
def findClauses (projectKey issueType summary : String)
    (epicKey : Option String) : List Clause :=
  [.project projectKey, .issueType issueType, .summary summary] ++
    if given epicKey then [.parent (epicKey.getD "")] else []

/-- `_find_existing`. -/
def findExisting (projectKey issueType summary : String)
    (epicKey : Option String) (w : World) :
    Except Exn (Option String) × World :=
  match request config fates id w with
  | (.error e, w') => (.error e, w')
  | (.ok readable, w') =>
    (readJson (w.server.search
      (findClauses projectKey issueType summary epicKey)) readable, w')

/-- `_create_blocks_link`. -/
def createBlocksLink (blockerKey blockedKey : String) (w : World) :
    Except Exn Unit × World :=
  match request config fates (·.link blockerKey blockedKey) w with
  | (.error e, w') => (.error e, w')
  | (.ok _, w') => (.ok (), w')

/-- A link for each key, up to the first that fails. -/
def createLinks (blockedKey : String) :
    List String → World → Except Exn Unit × World
  | [], w => (.ok (), w)
  | dep :: deps, w =>
    match createBlocksLink config fates dep blockedKey w with
    | (.error e, w') => (.error e, w')
    | (.ok _, w') => createLinks blockedKey deps w'

end Requests

-- ==== create_story

/-- The epic, where the site keeps it. -/
def epicField (config : TenantJiraConfig) (epicKey : String) :
    Except Exn EpicField :=
  if config.epicLinkMode = "parent" then .ok (.parent epicKey)
  else if given config.epicLinkCustomFieldId then
    .ok (.custom (config.epicLinkCustomFieldId.getD "") epicKey)
  else .error (.valueError
    "epic_link_mode=customfield requires epic_link_custom_field_id")

/-- The fields of a new story. -/
def storyFields (config : TenantJiraConfig) (story : Story) :
    Except Exn Fields :=
  match epicField config story.epicKey with
  | .error e => .error e
  | .ok epic =>
    let labels := story.labels.getD []
    if config.sizeFieldMode = "label" then
      .ok ⟨story.projectKey, "Story", story.summary, story.description,
        epic, none, labels ++ [sizeLabel story.size]⟩
    else if given config.sizeCustomFieldId then
      .ok ⟨story.projectKey, "Story", story.summary, story.description,
        epic, some (config.sizeCustomFieldId.getD "", story.size), labels⟩
    else .error (.valueError
      "size_field_mode=customfield requires size_custom_field_id")

section CreateStory

variable (jira : Jira) (config : TenantJiraConfig) (fates : Nat → Fate)
  (story : Story)

/-- The part of `create_story` after its search. -/
def createNew (w : World) : Except Exn Wire × World :=
  match storyFields config story with
  | .error e => (.error e, w)
  | .ok fields =>
    match request config fates
        (·.create (jira.newKey w.server.issues) fields) w with
    | (.error e, w') => (.error e, w')
    | (.ok readable, w') =>
      match readJson (jira.newKey w.server.issues) readable with
      | .error e => (.error e, w')
      | .ok issueKey =>
        match createLinks config fates issueKey story.deps w' with
        | (.error e, w'') => (.error e, w'')
        | (.ok _, w'') =>
          (.ok (.ok issueKey (config.base ++ "/browse/" ++ issueKey)
            story.epicKey), w'')

/-- The body of `create_story`. -/
def tryCreateStory (w : World) : Except Exn Wire × World :=
  match findExisting config fates story.projectKey "Story" story.summary
      (some story.epicKey) w with
  | (.error e, w') => (.error e, w')
  | (.ok (some existing), w') =>
    (.ok (.empty ("A story with summary '" ++ story.summary ++
      "' already exists under " ++ story.epicKey ++
      "; no duplicate created.") existing), w')
  | (.ok none, w') => createNew jira config fates story w'

/-- `create_story`. -/
def createStory (w : World) : Except Exn Wire × World :=
  match tryCreateStory jira config fates story w with
  | (.error (.tracker e), w') => (.ok (errorResult e), w')
  | (r, w') => (r, w')

end CreateStory

end SdlcOs.IssueTracker
