/-
Where a signed dispatch leads.

A signed dispatch is authenticated within the replay window, and its body
is read as it was written. What it names is one story, but the repository
is the event's project's: it is the story's own exactly if Jira's current
key of the issue is in a project with the same repository (`Settled`).
-/
import SdlcOs.Dispatch.Relay
import SdlcOs.Json.Rational
import SdlcOs.Proofs.Dispatch.Intake

namespace SdlcOs.Dispatch

open Data (Dict)
open Json (Json FloatText)

variable {φ : Type}

-- ==== bodies

theorem decode_encodeUtf8 (s : String) : decodeUtf8 (encodeUtf8 s) = some s :=
  dif_pos s.isValidUTF8

theorem loads_encodeBody (F : FloatText φ) (floatTruth : φ → Bool)
    (members : List (String × Json φ)) :
    (Decoder.python F floatTruth).loads (encodeBody F members) =
      some (.obj (Data.sortBy Prod.fst members)) := by
  unfold Decoder.python encodeBody
  dsimp only
  rw [decode_encodeUtf8, Option.bind_some, String.toList_ofList]
  exact Json.Layout.loads_dumps _

theorem member_iff {key : String} {v : Json φ} :
    ∀ {members : List (String × Json φ)}, (members.map Prod.fst).Nodup →
      (member key members = some v ↔ (key, v) ∈ members) := by
  intro members
  induction members with
  | nil => exact fun _ => iff_of_false (fun h => by cases h) List.not_mem_nil
  | cons m ms ih =>
    intro hnodup
    rw [List.map_cons, List.nodup_cons] at hnodup
    rw [member, List.mem_cons]
    by_cases hkey : m.1 = key
    · rw [if_pos hkey]
      constructor
      · intro h
        exact Or.inl (Prod.ext hkey.symm (Option.some.inj h).symm)
      · intro h
        rcases h with h | h
        · rw [← h]
        · exact absurd (hkey ▸ List.mem_map_of_mem (f := Prod.fst) h)
            hnodup.1
    · rw [if_neg hkey, ih hnodup.2]
      refine (or_iff_right ?_).symm
      intro h
      exact hkey (congrArg Prod.fst h).symm

theorem member_sortBy {key : String} {members : List (String × Json φ)}
    (h : (members.map Prod.fst).Nodup) :
    member key (Data.sortBy Prod.fst members) = member key members := by
  have hsorted : ((Data.sortBy Prod.fst members).map Prod.fst).Nodup :=
    ((List.perm_insertionSort _ members).map Prod.fst).nodup_iff.2 h
  refine Option.ext fun v => ?_
  rw [member_iff hsorted, member_iff h, Data.mem_sortBy]

-- ==== headers

variable {P : Platform} {mac : Mac}

theorem signRequest_headers {tenantId : String} {secret body : Bytes}
    {now : Float64} {headers : Dict String String}
    (h : signRequest mac tenantId secret body now = .ok headers) :
    ∃ timestamp signature,
      headers = signedHeaders tenantId timestamp signature := by
  unfold signRequest at h
  split at h
  · cases h
  · split at h
    · cases h
    · exact ⟨_, _, (Except.ok.inj h).symm⟩

theorem header_contentType {tenantId timestamp signature value name : String}
    (hname : asciiLower name ≠ "content-type") (hascii : isAscii name) :
    header P ((signedHeaders tenantId timestamp signature).set
        "Content-Type" value) name =
      header P (signedHeaders tenantId timestamp signature) name := by
  have hnormalized : normalized P
      ((signedHeaders tenantId timestamp signature).set "Content-Type" value) =
        (normalized P (signedHeaders tenantId timestamp signature)).set
          (P.lower "Content-Type") value := rfl
  have hlower : asciiLower "Content-Type" = "content-type" := rfl
  unfold header
  rw [hnormalized, P.lower_ascii name hascii,
    P.lower_ascii "Content-Type" (by decide), hlower,
    Dict.get_set_ne _ hname]

theorem verifyRequest_contentType {tenantId timestamp signature value : String}
    (body : Bytes) (secretLookup : String → Option Bytes) (now : Float64)
    (window : Int) :
    verifyRequest P mac ((signedHeaders tenantId timestamp signature).set
        "Content-Type" value) body secretLookup now window =
      verifyRequest P mac (signedHeaders tenantId timestamp signature) body
        secretLookup now window := by
  unfold verifyRequest
  rw [header_contentType (by decide) (by decide),
    header_contentType (by decide) (by decide),
    header_contentType (by decide) (by decide)]

-- ==== relaying

/-- A dispatch, and what led to it. -/
structure Relayed (app : RelayApp) (F : FloatText φ) (mac : Mac)
    (now : Float64) (rawEvent : Dict String String) (d : SignedDispatch)
    (payload : AutomationEventPayload) (issue : Issue) (repository : String)
    (secret : Bytes) (headers : Dict String String) : Prop where
  payload_eq : AutomationEventPayload.fromJson rawEvent = .ok payload
  issue_eq : app.getIssue payload.tenantId payload.issueKey = .ok issue
  repository_eq : app.repositoryForProject payload.tenantId
    payload.projectKey = some repository
  secret_eq : app.secretForTenant payload.tenantId = some secret
  headers_eq : signRequest mac payload.tenantId secret
    (encodeBody F (bodyObj payload issue repository)) now = .ok headers
  story_key : d.optedInStory.issueKey = issue.issueKey
  story_tenant : d.optedInStory.tenantId = payload.tenantId
  dispatch_headers : d.headers =
    headers.set "Content-Type" "application/json"
  dispatch_body : d.body = encodeBody F (bodyObj payload issue repository)

theorem evaluate_ok {tenantId issueKey status issueType : String}
    {labels : List String} {config : TenantJiraConfig} {story : OptedInStory}
    (h : evaluate tenantId issueKey status labels issueType config =
      .ok story) : story.issueKey = issueKey ∧ story.tenantId = tenantId := by
  unfold evaluate at h
  dsimp only at h
  split at h
  · cases h
  · rw [← Except.ok.inj h]
    exact ⟨rfl, rfl⟩

theorem relayed_of_ok {app : RelayApp} {F : FloatText φ} {now : Float64}
    {rawEvent : Dict String String} {d : SignedDispatch}
    (h : app.handleAutomationEvent F mac now rawEvent = .ok d) :
    ∃ payload issue repository secret headers, Relayed app F mac now
      rawEvent d payload issue repository secret headers := by
  unfold RelayApp.handleAutomationEvent at h
  split at h
  · cases h
  · next payload hpayload =>
    split at h
    · cases h
    · cases h
    · next issue hissue =>
      split at h
      · cases h
      · next story hstory =>
        unfold RelayApp.dispatch at h
        split at h
        · cases h
        · next repository hrepository =>
          split at h
          · cases h
          · next secret hsecret =>
            dsimp only at h
            split at h
            · cases h
            · next headers hheaders =>
              rw [← Except.ok.inj h]
              obtain ⟨hkey, htenant⟩ := evaluate_ok hstory
              refine ⟨payload, issue, repository, secret, headers, hpayload,
                hissue, hrepository, hsecret, hheaders, hkey, htenant, rfl,
                ?_⟩
              with_reducible rfl

theorem fromJson_ok {raw : Dict String String}
    {payload : AutomationEventPayload}
    (h : AutomationEventPayload.fromJson raw = .ok payload) :
    raw.get "tenant_id" = some payload.tenantId ∧ payload.tenantId ≠ "" ∧
    raw.get "issue_key" = some payload.issueKey ∧
    raw.get "project_key" = some payload.projectKey ∧
    payload.projectKey ≠ "" := by
  unfold AutomationEventPayload.fromJson at h
  split at h
  · cases h
  · next hmissing =>
    rw [not_not] at hmissing
    have hfield : ∀ f ∈ eventFields, ∃ s, raw.get f = some s ∧ s ≠ "" := by
      intro f hf
      have hnone := List.filter_eq_nil_iff.1 hmissing f hf
      rw [decide_eq_true_eq] at hnone
      obtain ⟨s, hs⟩ := Option.ne_none_iff_exists'.1 hnone
      obtain ⟨hget, hne⟩ := Option.filter_eq_some_iff.1 hs
      exact ⟨s, hget, of_decide_eq_true hne⟩
    obtain ⟨tenantId, htenant, htenant_ne⟩ := hfield "tenant_id" (by decide)
    obtain ⟨issueKey, hissue, _⟩ := hfield "issue_key" (by decide)
    obtain ⟨projectKey, hproject, hproject_ne⟩ :=
      hfield "project_key" (by decide)
    rw [← Except.ok.inj h]
    dsimp only
    rw [htenant, hissue, hproject]
    exact ⟨rfl, htenant_ne, rfl, rfl, hproject_ne⟩

-- ==== resolution

section Resolution

variable {F : FloatText φ} {floatTruth : φ → Bool}
  {payload : AutomationEventPayload} {issue : Issue} {repository : String}

/-- The members that a body is read as. -/
def bodyMembers (payload : AutomationEventPayload) (issue : Issue)
    (repository : String) : List (String × Json φ) :=
  Data.sortBy Prod.fst (bodyObj payload issue repository)

theorem member_bodyMembers (key : String) :
    member key (bodyMembers (φ := φ) payload issue repository) =
      member key (bodyObj payload issue repository) :=
  member_sortBy (by decide : ["tenant_id", "issue_key", "project_key",
    "repository", "status", "labels"].Nodup)

/-- What the dispatcher makes of a body. -/
def bodyTrigger (payload : AutomationEventPayload) (issue : Issue)
    (repository : String) : ResolvedTrigger φ where
  tenantId := payload.tenantId
  jiraKey := .str issue.issueKey
  projectKey := .str payload.projectKey
  repository := .str repository
  status := .str issue.status
  labels := issue.labelList.map .str

theorem missingFields_body {D : Decoder φ} :
    missingFields D (bodyMembers payload issue repository) = [] ↔
      issue.issueKey ≠ "" ∧ payload.projectKey ≠ "" ∧ repository ≠ "" := by
  have hfield : ∀ {key s : String},
      member key (bodyObj payload issue repository) =
        some (.str s : Json φ) →
      ((¬ (!(member key (bodyMembers payload issue repository)).any
        D.truthy) = true) ↔ s ≠ "") := by
    intro key s h
    rw [member_bodyMembers, h, Option.any_some, Bool.not_eq_true',
      Bool.not_eq_false]
    exact decide_eq_true_iff
  unfold missingFields requiredFields
  rw [List.filter_eq_nil_iff, List.forall_mem_cons, List.forall_mem_cons,
    List.forall_mem_singleton, hfield rfl, hfield rfl, hfield rfl]

/-- A body whose fields are there is resolved to what it says, if the
directory has its project under its tenant. -/
theorem resolveTenant_body {directory : Dict String String}
    (hkey : issue.issueKey ≠ "") (hproject : payload.projectKey ≠ "")
    (hrepository : repository ≠ "")
    (hdirectory : directory.get payload.projectKey = some payload.tenantId) :
    resolveTenant (Decoder.python F floatTruth)
      ⟨payload.tenantId, encodeBody F (bodyObj payload issue repository)⟩
      directory = .ok (.trigger (bodyTrigger payload issue repository)) := by
  have hmissing : missingFields (Decoder.python F floatTruth)
      (bodyMembers payload issue repository) = [] :=
    missingFields_body.2 ⟨hkey, hproject, hrepository⟩
  unfold resolveTenant
  dsimp only
  rw [loads_encodeBody]
  show resolvePayload _ _ _ (bodyMembers payload issue repository) = _
  unfold resolvePayload
  rw [if_neg (not_not.2 hmissing)]
  have hitem : ∀ (key : String) {v : Json φ},
      member key (bodyObj payload issue repository) = some v →
      member key (bodyMembers payload issue repository) = some v :=
    fun key _ h => (member_bodyMembers key).trans h
  simp only [hitem "project_key" rfl, hitem "issue_key" rfl,
    hitem "repository" rfl, hitem "status" rfl, hitem "labels" rfl,
    Option.getD_some, tenantForProject, hdirectory, ne_eq,
    not_true_eq_false, if_false, elements]
  rfl

/-- A body that is resolved has its fields, and is resolved to its
repository. -/
theorem resolveTenant_trigger {D : Decoder φ} {trigger : AuthenticatedTrigger}
    {directory : Dict String String} {t : ResolvedTrigger φ}
    {members : List (String × Json φ)}
    (hloads : D.loads trigger.body = some (.obj members))
    (h : resolveTenant D trigger directory = .ok (.trigger t)) :
    missingFields D members = [] ∧
      t.repository = (member "repository" members).getD .null := by
  unfold resolveTenant at h
  rw [hloads] at h
  dsimp only at h
  unfold resolvePayload at h
  split at h
  · cases h
  · next hmissing =>
    refine ⟨not_not.1 hmissing, ?_⟩
    dsimp only at h
    split at h
    · cases h
    · cases h
    · split at h
      · cases h
      · split at h
        · cases h
        · rw [← Resolved.trigger.inj (Except.ok.inj h)]

end Resolution

-- ==== routing

/-- The project of an issue key: what is before its last hyphen. -/
def projectOf (issueKey : String) : Option String :=
  let reversed := issueKey.toList.reverse
  if '-' ∈ reversed then
    some (.ofList ((reversed.dropWhile (· ≠ '-')).drop 1).reverse)
  else none

/-- The relay's configuration and the dispatcher's agree: on the tenant of
each project with a repository, and on the tenants' keys. -/
structure Consistent (app : RelayApp) (directory : Dict String String)
    (secretLookup : String → Option Bytes) : Prop where
  tenant : ∀ tenantId project repository,
    app.repositoryForProject tenantId project = some repository →
      directory.get project = some tenantId
  secret : ∀ tenantId secret, app.secretForTenant tenantId = some secret →
    secretLookup tenantId = some secret

/-- A dispatch is accepted as what the story and the signed body say, with
the repository of the story's own project. -/
structure Routed (app : RelayApp) (P : Platform) (mac : Mac) (D : Decoder φ)
    (directory : Dict String String) (secretLookup : String → Option Bytes)
    (now : Float64) (d : SignedDispatch) (trigger : AuthenticatedTrigger)
    (t : ResolvedTrigger φ) (members : List (String × Json φ))
    (project repository : String) : Prop where
  authenticated : authenticate P mac d.headers d.body secretLookup now
    replayWindowSeconds = .ok (.trigger trigger)
  resolved : resolveTenant D trigger directory = .ok (.trigger t)
  body : D.loads d.body = some (.obj members)
  tenant : t.tenantId = d.optedInStory.tenantId
  body_tenant : member "tenant_id" members = some (.str t.tenantId)
  jiraKey : t.jiraKey = .str d.optedInStory.issueKey
  body_jiraKey : member "issue_key" members = some t.jiraKey
  body_repository : member "repository" members = some t.repository
  body_labels : member "labels" members = some (.arr t.labels)
  project_eq : projectOf d.optedInStory.issueKey = some project
  configured : app.repositoryForProject t.tenantId project = some repository
  repository_eq : t.repository = .str repository

/-- The project of the issue's current key has the repository that the
event's project has. -/
def Settled (app : RelayApp) (rawEvent : Dict String String) : Prop :=
  ∃ tenantId issueKey projectKey issue project repository,
    rawEvent.get "tenant_id" = some tenantId ∧
    rawEvent.get "issue_key" = some issueKey ∧
    rawEvent.get "project_key" = some projectKey ∧
    app.getIssue tenantId issueKey = .ok issue ∧
    projectOf issue.issueKey = some project ∧
    app.repositoryForProject tenantId project = some repository ∧
    app.repositoryForProject tenantId projectKey = some repository ∧
    repository ≠ ""

section Routing

variable {app : RelayApp} {F : FloatText φ} {floatTruth : φ → Bool}
  {directory : Dict String String} {secretLookup : String → Option Bytes}
  {rawEvent : Dict String String} {d : SignedDispatch} {signedAt now : Float64}
  {payload : AutomationEventPayload} {issue : Issue} {repository : String}
  {secret : Bytes} {headers : Dict String String}

theorem authenticate_relayed
    (h : Relayed app F mac signedAt rawEvent d payload issue repository secret
      headers) (hconsistent : Consistent app directory secretLookup)
    (hnow : |now.val - signedAt.toInt| ≤ (replayWindowSeconds : ℚ)) :
    authenticate P mac d.headers d.body secretLookup now replayWindowSeconds =
      .ok (.trigger ⟨payload.tenantId,
        encodeBody F (bodyObj payload issue repository)⟩) := by
  obtain ⟨_, htenant, _⟩ := fromJson_ok h.payload_eq
  obtain ⟨timestamp, signature, hheaders⟩ := signRequest_headers h.headers_eq
  have hverified := signed_verifies P mac h.headers_eq htenant
    (hconsistent.secret _ _ h.secret_eq) (by decide) hnow
  rw [hheaders] at hverified
  unfold authenticate
  rw [h.dispatch_headers, h.dispatch_body, hheaders,
    verifyRequest_contentType, hverified]
  rfl

theorem projectOf_ne {issueKey project : String}
    (h : projectOf issueKey = some project) : issueKey ≠ "" := by
  intro hempty
  rw [hempty] at h
  cases h

/-- The repository a routed dispatch is resolved to is the one the body
was written with. -/
theorem Routed.repository_body
    (h : Relayed app F mac signedAt rawEvent d payload issue repository secret
      headers) {trigger : AuthenticatedTrigger} {t : ResolvedTrigger φ}
    {members : List (String × Json φ)} {project repo : String}
    (hrouted : Routed app P mac (Decoder.python F floatTruth) directory
      secretLookup now d trigger t members project repo) :
    repo = repository := by
  have hbody := hrouted.body
  rw [h.dispatch_body, loads_encodeBody] at hbody
  have hmembers : bodyMembers payload issue repository = members :=
    Json.obj.inj (Option.some.inj hbody)
  have hmember := hrouted.body_repository
  rw [← hmembers, member_bodyMembers, hrouted.repository_eq] at hmember
  exact (Json.str.inj (Option.some.inj hmember)).symm

end Routing

/-- A dispatch signed under a consistent configuration is routed within
the window exactly if the issue's project is settled. -/
theorem relay_routes (P : Platform) (mac : Mac) (F : FloatText φ)
    (floatTruth : φ → Bool) (app : RelayApp) (directory : Dict String String)
    (secretLookup : String → Option Bytes)
    (hconsistent : Consistent app directory secretLookup)
    (rawEvent : Dict String String) (signedAt now : Float64)
    (hnow : |now.val - signedAt.toInt| ≤ (replayWindowSeconds : ℚ))
    (d : SignedDispatch)
    (h : app.handleAutomationEvent F mac signedAt rawEvent = .ok d) :
    (∃ trigger t members project repository,
      Routed app P mac (Decoder.python F floatTruth) directory secretLookup
        now d trigger t members project repository) ↔
      Settled app rawEvent := by
  obtain ⟨payload, issue, repository, secret, headers, hrelayed⟩ :=
    relayed_of_ok h
  obtain ⟨hget, hne, hissueKey, hprojectKey, hproject_ne⟩ :=
    fromJson_ok hrelayed.payload_eq
  have hauthentic := authenticate_relayed (P := P) hrelayed hconsistent hnow
  constructor
  · intro hrouted
    obtain ⟨trigger, t, members, project, repo, hrouted⟩ := hrouted
    have hrepo := hrouted.repository_body hrelayed
    have htrigger := Authenticated.trigger.inj
      (Except.ok.inj (hrouted.authenticated.symm.trans hauthentic))
    have hloads : (Decoder.python F floatTruth).loads trigger.body =
        some (.obj (bodyMembers payload issue repository)) := by
      rw [htrigger]
      dsimp only
      exact loads_encodeBody F floatTruth _
    obtain ⟨hmissing, -⟩ := resolveTenant_trigger hloads hrouted.resolved
    obtain ⟨-, -, hrepository⟩ := missingFields_body.1 hmissing
    refine ⟨payload.tenantId, payload.issueKey, payload.projectKey, issue,
      project, repository, hget, hissueKey, hprojectKey, hrelayed.issue_eq,
      ?_, ?_, hrelayed.repository_eq, hrepository⟩
    · rw [← hrelayed.story_key]
      exact hrouted.project_eq
    · rw [← hrelayed.story_tenant, ← hrouted.tenant, hrouted.configured,
        hrepo]
  · intro hsettled
    obtain ⟨tenantId, issueKey, projectKey, issue', project, repo, ht, hi, hp,
      hissue, hproject, hown, hevents, hrepo⟩ := hsettled
    rw [hget] at ht
    rw [hissueKey] at hi
    rw [hprojectKey] at hp
    rw [← Option.some.inj ht, ← Option.some.inj hi] at hissue
    have hsame : issue = issue' :=
      IssueResult.ok.inj (hrelayed.issue_eq.symm.trans hissue)
    rw [← Option.some.inj ht, ← Option.some.inj hp, hrelayed.repository_eq]
      at hevents
    have hrepository : repository = repo := Option.some.inj hevents
    rw [← hsame] at hproject
    rw [← hrepository] at hrepo
    rw [← Option.some.inj ht, ← hrepository] at hown
    have hresolved := @resolveTenant_body _ F floatTruth _ _ _ _
      (projectOf_ne hproject) hproject_ne hrepo
      (hconsistent.tenant _ _ _ hrelayed.repository_eq)
    refine ⟨_, _, bodyMembers payload issue repository, project, repository,
      { authenticated := hauthentic
        resolved := hresolved
        body := ?_
        tenant := hrelayed.story_tenant.symm
        body_tenant := member_bodyMembers _
        jiraKey := congrArg Json.str hrelayed.story_key.symm
        body_jiraKey := member_bodyMembers _
        body_repository := member_bodyMembers _
        body_labels := member_bodyMembers _
        project_eq := hrelayed.story_key ▸ hproject
        configured := hown
        repository_eq := rfl }⟩
    rw [hrelayed.dispatch_body]
    exact loads_encodeBody F floatTruth _

-- ------------------------------------------------------------ a moved issue

/-- Two projects of one tenant, with a repository each. -/
def twoRepositories : Dict String String :=
  (Dict.empty.set "KEY" "acme/app").set "OTHER" "acme/other"

/-- The directory of the two projects. -/
def twoProjects : Dict String String :=
  (Dict.empty.set "KEY" "t1").set "OTHER" "t1"

/-- A relay of the tenant; Jira answers with the key that the issue has
now. -/
def sampleRelay (currentKey : String) : RelayApp where
  getIssue _ _ :=
    .ok ⟨currentKey, "Selected for Development", "Story",
      some ["ai-factory"]⟩
  configForTenant _ := ⟨some "ai-factory", none⟩
  secretForTenant _ := some [1]
  repositoryForProject tenantId project :=
    if tenantId = "t1" then twoRepositories.get project else none
  dispatcherUrl := "https://dispatcher"

/-- The event of an issue of the first project. -/
def sampleEvent : Dict String String :=
  ((Dict.empty.set "tenant_id" "t1").set "issue_key" "KEY-1").set
    "project_key" "KEY"

theorem sampleRelay_consistent (currentKey : String) :
    Consistent (sampleRelay currentKey) twoProjects fun _ => some [1] := by
  refine ⟨?_, fun _ _ h => h⟩
  intro tenantId project repository h
  unfold sampleRelay at h
  dsimp only at h
  split at h
  · next htenant =>
    unfold twoProjects
    unfold twoRepositories at h
    rw [htenant]
    by_cases hother : project = "OTHER"
    · rw [hother, Dict.get_set_self]
    · rw [Dict.get_set_ne _ hother] at h ⊢
      by_cases hkey : project = "KEY"
      · rw [hkey, Dict.get_set_self]
      · rw [Dict.get_set_ne _ hkey, Dict.get_empty] at h
        cases h
  · cases h

theorem sampleRelay_ok (currentKey : String) :
    ∃ d, (sampleRelay currentKey).handleAutomationEvent Json.rationalText
      plainMac.toMac epoch sampleEvent = .ok d :=
  ⟨_, rfl⟩

theorem relay_routes_unmoved :
    ∃ d trigger t members project repository,
      Routed (sampleRelay "KEY-1") plainPlatform plainMac.toMac
        (Decoder.python Json.rationalText fun _ => true) twoProjects
        (fun _ => some [1]) epoch d trigger t members project repository := by
  obtain ⟨d, hd⟩ := sampleRelay_ok "KEY-1"
  have hsettled : Settled (sampleRelay "KEY-1") sampleEvent :=
    ⟨"t1", "KEY-1", "KEY", _, "KEY", "acme/app", rfl, rfl, rfl, rfl,
      by decide, rfl, rfl, by decide⟩
  exact ⟨d, (relay_routes plainPlatform plainMac.toMac Json.rationalText
    (fun _ => true) (sampleRelay "KEY-1") twoProjects (fun _ => some [1])
    (sampleRelay_consistent "KEY-1") sampleEvent epoch epoch epoch_window d
    hd).2 hsettled⟩

/-- An issue moved to the other project is dispatched with the first one's
repository. -/
theorem moved_misrouted :
    Consistent (sampleRelay "OTHER-7") twoProjects (fun _ => some [1]) ∧
    ∃ d, (sampleRelay "OTHER-7").handleAutomationEvent Json.rationalText
        plainMac.toMac epoch sampleEvent = .ok d ∧
      ¬ ∃ trigger t members project repository,
        Routed (sampleRelay "OTHER-7") plainPlatform plainMac.toMac
          (Decoder.python Json.rationalText fun _ => true) twoProjects
          (fun _ => some [1]) epoch d trigger t members project
          repository := by
  obtain ⟨d, hd⟩ := sampleRelay_ok "OTHER-7"
  refine ⟨sampleRelay_consistent "OTHER-7", d, hd, ?_⟩
  intro hrouted
  obtain ⟨trigger, t, members, project, repo, hrouted⟩ := hrouted
  obtain ⟨payload, issue, repository, secret, headers, hrelayed⟩ :=
    relayed_of_ok hd
  have hrepo := hrouted.repository_body hrelayed
  have hpayload : payload = ⟨"t1", "KEY-1", "KEY"⟩ :=
    (Except.ok.inj hrelayed.payload_eq).symm
  have hissue := IssueResult.ok.inj hrelayed.issue_eq
  -- the body has the event's project's repository
  have hevents := hrelayed.repository_eq
  rw [hpayload] at hevents
  have happ : repository = "acme/app" := (Option.some.inj hevents).symm
  -- the story's project has the other one
  have hproject := hrouted.project_eq
  rw [hrelayed.story_key, ← hissue] at hproject
  have hother : project = "OTHER" :=
    Option.some.inj (hproject.symm.trans (by decide))
  have hconfigured := hrouted.configured
  rw [hrouted.tenant, hrelayed.story_tenant, hpayload, hother, hrepo, happ]
    at hconfigured
  exact absurd hconfigured (by decide)

end SdlcOs.Dispatch
