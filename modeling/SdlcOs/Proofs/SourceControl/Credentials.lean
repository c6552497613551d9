/-
Current credentials over a run of the source-control service.

# The condition

A tool call goes through the client cached under the installation's id,
whatever credentials that client was built from. `FreshClient` says that
they are the registered ones. It fails after a registration that changes
an app's key, until a revocation drops the client, and between tenants
that share an installation's id.

# The two halves

`current_call` is about one call; the other half, that a revocation ends
every token before it, needs no condition (`not_used_after_revocation`).
A token is issued once, so that a token issued after the revocation is
not one cached before it.
-/
import SdlcOs.Json.Rational
import SdlcOs.Proofs.Dispatch.Signing
import SdlcOs.Proofs.SourceControl.Tokens

namespace SdlcOs.SourceControl

open Data (Dict)
open Dispatch (Bytes)
open Effects (Prog)
open Json (Json)

variable {φ : Type} {P : Platform φ} {H : Hub P} {t X : String} {k : Nat}

namespace Service

variable {s s' : Service φ} {e : Event φ} {events : List (Event φ)}
  {floor : String → Nat}

-- ==== what is held

/-- From a floor on for each installation, a cached token was issued to
its client; the record is GitHub's. -/
structure Held (H : Hub P) (floor : String → Nat) (s : Service φ) :
    Prop where
  logged : Logged H s.sent
  reached : ∀ X, floor X ≤ s.sent.length
  backed : ∀ X c, s.clients.get X = some c → Backed P X (floor X) c s.sent

theorem held_new : Held H (fun _ => 0) (new : Service φ) where
  logged := fun _ _ h => by cases h
  reached := fun _ => Nat.zero_le _
  backed := fun _ _ h => by cases h

/-- The session that a call of an installation begins with. -/
def session (s : Service φ) (i : TenantInstallation) : Session φ :=
  ⟨s.clientFor i, s.sent⟩

theorem Held.kept (h : Held H floor s) (i : TenantInstallation) :
    Kept H (floor i.installationId) i.installationId (s.session i) := by
  refine ⟨h.logged, h.reached _, ?_⟩
  unfold session clientFor
  dsimp only
  split
  · next c hc => exact h.backed _ c hc
  · intro Y token hget
    cases hget

/-- A call is refused, or it runs a tool's requests for the tenant's
installation. -/
theorem call_cases (H : Hub P) (s : Service φ) (t repository : String)
    (tool : Tool) :
    (s.call H t repository tool).2 = s ∨
    ∃ i parts p, s.resolve t repository = .ok i ∧
      splitRepo P repository = .ok parts ∧
      (s.call H t repository tool).2 =
        { s with
          clients := s.clients.set i.installationId
            (perform (α := Result φ) H t i.installationId p
              (s.session i)).2.client
          sent := (perform (α := Result φ) H t i.installationId p
            (s.session i)).2.sent } := by
  unfold call
  cases hres : s.resolve t repository with
  | error f => exact Or.inl rfl
  | ok i =>
    dsimp only
    cases hsplit : splitRepo P repository with
    | error f => exact Or.inl rfl
    | ok parts => exact Or.inr ⟨i, parts, _, rfl, rfl, rfl⟩

theorem held_call (h : Held H floor s) (t repository : String)
    (tool : Tool) : Held H floor (s.call H t repository tool).2 := by
  rcases call_cases H s t repository tool with heq | ⟨i, _, p, -, -, heq⟩
  · rw [heq]
    exact h
  · have hgoes := @goes_perform φ P H t _ _ _ _ p (h.kept i)
    obtain ⟨more, hmore, -⟩ := hgoes.grown
    have hsent : (s.session i).sent = s.sent := rfl
    rw [heq]
    refine ⟨hgoes.kept.logged, ?_, ?_⟩
    · intro Y
      dsimp only
      rw [hmore, List.length_append, hsent]
      exact (h.reached Y).trans (Nat.le_add_right _ _)
    · intro Y c hc
      dsimp only at hc ⊢
      by_cases hY : Y = i.installationId
      · rw [hY, Dict.get_set_self] at hc
        cases hc
        rw [hY]
        exact hgoes.kept.backed
      · rw [Dict.get_set_ne _ hY] at hc
        rw [hmore]
        exact (h.backed Y c hc).append

/-- A delivery revokes an installation, whose client it drops, or it does
nothing. -/
theorem webhook_cases (P : Platform φ) (s : Service φ) (d : Delivery φ) :
    (∃ X, (s.handleInstallationWebhook P d).1 = .ok (.revoked X) ∧
      (s.handleInstallationWebhook P d).2 =
        { s with clients := s.clients.erase X }) ∨
    (s.handleInstallationWebhook P d).2 = s ∧
      ∀ X, (s.handleInstallationWebhook P d).1 ≠ .ok (.revoked X) := by
  unfold handleInstallationWebhook
  split
  · exact Or.inr ⟨rfl, fun _ hc => by cases hc⟩
  · split
    · exact Or.inr ⟨rfl, fun _ hc => by cases hc⟩
    · split
      · exact Or.inr ⟨rfl, fun _ hc => by cases hc⟩
      · next X hX =>
        split
        · exact Or.inr ⟨rfl, fun _ hc => by cases hc⟩
        · exact Or.inl ⟨X, rfl, rfl⟩

/-- Dropping a client keeps what is held, from any floor on for its
installation. -/
theorem Held.erase (h : Held H floor s) {floor' : String → Nat}
    (hreached : ∀ Y, floor' Y ≤ s.sent.length)
    (hfloor : ∀ Y, Y ≠ X → floor' Y = floor Y) :
    Held H floor' { s with clients := s.clients.erase X } := by
  refine ⟨h.logged, hreached, ?_⟩
  intro Y c hc
  dsimp only at hc
  by_cases hY : Y = X
  · rw [hY, Dict.get_erase_self] at hc
    cases hc
  · rw [Dict.get_erase_ne _ hY] at hc
    rw [hfloor Y hY]
    exact h.backed Y c hc

theorem held_webhook (h : Held H floor s) (d : Delivery φ) :
    Held H floor (s.handleInstallationWebhook P d).2 := by
  rcases webhook_cases P s d with ⟨X, -, heq⟩ | ⟨heq, -⟩
  · rw [heq]
    exact h.erase h.reached fun _ _ => rfl
  · rw [heq]
    exact h

theorem held_step (h : Held H floor s) (e : Event φ) :
    Held H floor (step H s e) := by
  cases e with
  | register i => exact ⟨h.logged, h.reached, h.backed⟩
  | call t repository tool => exact held_call h t repository tool
  | webhook d => exact held_webhook h d

theorem held_run (h : Held H floor s) (events : List (Event φ)) :
    Held H floor (run H s events) := by
  induction events generalizing s with
  | nil => exact h
  | cons e rest ih => exact ih (held_step h e)

-- ==== growth

/-- The exchanges that a run adds. -/
def added (H : Hub P) (s : Service φ) (events : List (Event φ)) :
    List (Exchange φ) :=
  (run H s events).sent.drop s.sent.length

/-- An exchange whose token was issued for its installation, from the
floor of that on. -/
def Late (P : Platform φ) (floor : String → Nat)
    (sent : List (Exchange φ)) (x : Exchange φ) : Prop :=
  ∀ token, x.request.auth = .token token → ∃ c : AppCredentials,
    IssuedFrom P (floor x.installationId) sent c x.installationId token

theorem Late.append {sent more : List (Exchange φ)} {x : Exchange φ}
    (h : Late P floor sent x) : Late P floor (sent ++ more) x := by
  intro token htoken
  obtain ⟨c, hc⟩ := h token htoken
  exact ⟨c, hc.append⟩

theorem grown_step (h : Held H floor s) (e : Event φ) :
    ∃ more, (step H s e).sent = s.sent ++ more ∧
      ∀ x ∈ more, Late P floor (step H s e).sent x := by
  cases e with
  | register i =>
    exact ⟨[], (List.append_nil _).symm, fun _ hx => by cases hx⟩
  | webhook d =>
    refine ⟨[], ?_, fun _ hx => by cases hx⟩
    rw [List.append_nil]
    show (s.handleInstallationWebhook P d).2.sent = s.sent
    rcases webhook_cases P s d with ⟨X, -, heq⟩ | ⟨heq, -⟩
    · rw [heq]
    · rw [heq]
  | call t repository tool =>
    show ∃ more, (s.call H t repository tool).2.sent = s.sent ++ more ∧
      ∀ x ∈ more, Late P floor (s.call H t repository tool).2.sent x
    rcases call_cases H s t repository tool with
      heq | ⟨i, _, p, -, -, heq⟩
    · rw [heq]
      exact ⟨[], (List.append_nil _).symm, fun _ hx => by cases hx⟩
    · obtain ⟨more, hmore, hproper⟩ :=
        (@goes_perform φ P H t _ _ _ _ p (h.kept i)).grown
      rw [heq]
      refine ⟨more, hmore, ?_⟩
      intro x hx token htoken
      obtain ⟨-, hX, hissued⟩ := hproper x hx
      rw [hX]
      exact ⟨_, hissued token htoken⟩

theorem grown_run (h : Held H floor s) (events : List (Event φ)) :
    ∃ more, (run H s events).sent = s.sent ++ more ∧
      ∀ x ∈ more, Late P floor (run H s events).sent x := by
  induction events generalizing s with
  | nil =>
    exact ⟨[], (List.append_nil _).symm, fun _ hx => by cases hx⟩
  | cons e rest ih =>
    obtain ⟨more, hmore, hlate⟩ := grown_step h e
    obtain ⟨more', hmore', hlate'⟩ := ih (held_step h e)
    have hrun : (run H s (e :: rest)).sent =
        (step H s e).sent ++ more' := hmore'
    refine ⟨more ++ more', ?_, ?_⟩
    · rw [hrun, hmore, List.append_assoc]
    · intro x hx
      rcases List.mem_append.1 hx with hx | hx
      · rw [hrun]
        exact (hlate x hx).append
      · exact hlate' x hx

theorem late_of_added (h : Held H floor s) {x : Exchange φ}
    (hx : x ∈ added H s events) : Late P floor (run H s events).sent x := by
  obtain ⟨more, hmore, hlate⟩ := grown_run h events
  unfold added at hx
  rw [hmore, List.drop_left] at hx
  exact hlate x hx

-- ==== revocation

theorem issuedAt_unique {sent : List (Exchange φ)} (h : Logged H sent)
    {n m : Nat} {a b Y token : String} {key key' : Bytes}
    (hn : IssuedAt P sent n a key X token)
    (hm : IssuedAt P sent m b key' Y token) : n = m ∧ X = Y := by
  obtain ⟨e, he, hX, -, hissue⟩ := hn
  obtain ⟨e', he', hY, -, hissue'⟩ := hm
  rw [h n e he] at hissue
  rw [h m e' he'] at hissue'
  have hnm := H.once n m token hissue hissue'
  subst hnm
  rw [he] at he'
  cases he'
  exact ⟨rfl, hX.symm.trans hY⟩

/-- After a revocation the floor of its installation is the length of the
record. -/
theorem held_revoked (h : Held H (fun _ => 0) s) {d : Delivery φ}
    (hd : (s.handleInstallationWebhook P d).1 = .ok (.revoked X)) :
    Held H (fun Y => if Y = X then s.sent.length else 0)
      (s.handleInstallationWebhook P d).2 := by
  rcases webhook_cases P s d with ⟨X', hX', heq⟩ | ⟨-, hno⟩
  · rw [hX'] at hd
    cases hd
    rw [heq]
    refine h.erase ?_ ?_
    · intro Y
      split
      · exact Nat.le_refl _
      · exact Nat.zero_le _
    · intro Y hY
      exact if_neg hY
  · exact absurd hd (hno X)

/-- No request of a run shows a token that was cached for an installation
before the installation was revoked. -/
def RevokedForGood (H : Hub P) (events : List (Event φ)) : Prop :=
  ∀ pre d post X, events = pre ++ .webhook d :: post →
    ((run H new pre).handleInstallationWebhook P d).1 = .ok (.revoked X) →
    ∀ c, (run H new pre).clients.get X = some c →
    ∀ Y token, c.tokens.get Y = some token →
    ∀ x ∈ added H (run H new pre) (.webhook d :: post),
      x.request.auth ≠ .token token.token

theorem revokedForGood (H : Hub P) (events : List (Event φ)) :
    RevokedForGood H events := by
  intro pre d post X _ hd c hc Y token htoken x hx hauth
  have h : Held H (fun _ => 0) (run H new pre) := held_run held_new pre
  have hrevoked := held_revoked h hd
  have hsent : (step H (run H new pre) (.webhook d)).sent =
      (run H new pre).sent := by
    show ((run H new pre).handleInstallationWebhook P d).2.sent = _
    rcases webhook_cases P (run H new pre) d with ⟨X, -, heq⟩ | ⟨heq, -⟩
    · rw [heq]
    · rw [heq]
  have hx' : x ∈ added H (step H (run H new pre) (.webhook d)) post := by
    unfold added
    rw [hsent]
    exact hx
  -- the token shown was issued from the floor on, the cached one before
  obtain ⟨c', n, hn, hat⟩ := late_of_added hrevoked hx' token.token hauth
  obtain ⟨-, m, -, hat'⟩ := h.backed X c hc Y token htoken
  have hm : m < (run H new pre).sent.length := by
    obtain ⟨e, he, -⟩ := hat'
    exact (List.getElem?_eq_some_iff.1 he).1
  obtain ⟨more, hmore, -⟩ := grown_run hrevoked post
  have hfinal : (run H (step H (run H new pre) (.webhook d)) post).sent =
      (run H new pre).sent ++ more := by
    rw [← hsent]
    exact hmore
  have hlog := (held_run hrevoked post).logged
  have hat'' : IssuedAt P
      (run H (step H (run H new pre) (.webhook d)) post).sent m
      c.credentials.appId c.credentials.privateKeyPem X token.token := by
    rw [hfinal]
    exact hat'.append
  obtain ⟨hnm, hX⟩ := issuedAt_unique hlog hat hat''
  dsimp only at hn
  rw [if_pos hX] at hn
  omega

-- ==== credentials

/-- A call does not go through a client that was built from credentials
other than those registered for its tenant now. -/
def FreshClient (P : Platform φ) (s : Service φ) (t repository : String) :
    Prop :=
  ∀ i parts c, s.resolve t repository = .ok i →
    splitRepo P repository = .ok parts →
    s.clients.get i.installationId = some c →
    c.credentials.appId = i.appId ∧
      c.credentials.privateKeyPem = i.privateKeyPem

/-- Every request of a call that shows a token is for the tenant and its
registered installation, and the token was issued to the credentials of
that. -/
def Current (H : Hub P) (s : Service φ) (t repository : String)
    (tool : Tool) : Prop :=
  ∀ x ∈ added H s [.call t repository tool],
    ∀ token, x.request.auth = .token token →
    ∃ i, s.byTenant.get t = some i ∧ x.tenantId = t ∧
      x.installationId = i.installationId ∧
      ∃ n, IssuedAt P (s.call H t repository tool).2.sent n i.appId
        i.privateKeyPem i.installationId token

theorem registered_of_resolve {repository : String} {i : TenantInstallation}
    (h : s.resolve t repository = .ok i) : s.byTenant.get t = some i := by
  unfold resolve at h
  split at h
  · cases h
  · split at h
    · cases h
    · next i' hi' =>
      split at h
      · cases h
        exact hi'
      · cases h

theorem FreshClient.credentials {repository : String}
    (h : FreshClient P s t repository) {i : TenantInstallation}
    {parts : String × String} (hres : s.resolve t repository = .ok i)
    (hsplit : splitRepo P repository = .ok parts) :
    (s.clientFor i).credentials.appId = i.appId ∧
      (s.clientFor i).credentials.privateKeyPem = i.privateKeyPem := by
  unfold clientFor
  split
  · next c hc => exact h i parts c hres hsplit hc
  · exact ⟨rfl, rfl⟩

theorem current_call (h : Held H floor s) {repository : String}
    {tool : Tool} (hfresh : FreshClient P s t repository) :
    Current H s t repository tool := by
  intro x hx token htoken
  have hadded : added H s [.call t repository tool] =
      (s.call H t repository tool).2.sent.drop s.sent.length := rfl
  rw [hadded] at hx
  rcases call_cases H s t repository tool with
    heq | ⟨i, parts, p, hres, hsplit, heq⟩
  · rw [heq, List.drop_length] at hx
    cases hx
  · have hcred := hfresh.credentials hres hsplit
    obtain ⟨more, hmore, hproper⟩ :=
      (@goes_perform φ P H t _ _ _ _ p (h.kept i)).grown
    rw [heq] at hx ⊢
    dsimp only at hx ⊢
    rw [hmore] at hx
    rw [show s.sent.length = (s.session i).sent.length from rfl,
      List.drop_left] at hx
    obtain ⟨ht, hX, hissued⟩ := hproper x hx
    obtain ⟨n, -, hat⟩ := hissued token htoken
    rw [show (s.session i).client = s.clientFor i from rfl, hcred.1,
      hcred.2] at hat
    exact ⟨i, registered_of_resolve hres, ht, hX, n, hat⟩

/-- Every call of a run is authenticated with current credentials. -/
def CurrentThroughout (H : Hub P) (events : List (Event φ)) : Prop :=
  ∀ pre t repository tool post,
    events = pre ++ .call t repository tool :: post →
    Current H (run H new pre) t repository tool

/-- The condition on one event. -/
def Fresh (P : Platform φ) (s : Service φ) : Event φ → Prop
  | .register _ => True
  | .call t repository _ => FreshClient P s t repository
  | .webhook _ => True

/-- A run whose events all meet the condition. -/
def FreshRun (H : Hub P) : Service φ → List (Event φ) → Prop
  | _, [] => True
  | s, e :: rest => Fresh P s e ∧ FreshRun H (step H s e) rest

theorem FreshRun.at {pre post : List (Event φ)}
    (h : FreshRun H s (pre ++ e :: post)) : Fresh P (run H s pre) e := by
  induction pre generalizing s with
  | nil => exact h.1
  | cons e' rest ih => exact ih h.2

/-- If no call of a run goes through a client of other credentials, every
token shown was issued to the registered ones, and a revocation ends the
tokens before it. -/
theorem current_credentials (H : Hub P) (events : List (Event φ))
    (hfresh : FreshRun H new events) :
    CurrentThroughout H events ∧ RevokedForGood H events := by
  refine ⟨?_, revokedForGood H events⟩
  intro pre t repository tool post heq
  rw [heq] at hfresh
  exact current_call (held_run held_new pre) hfresh.at

-- ==== a rotation

/-- A platform that reads JSON and knows one time. -/
def plain : Platform ℚ where
  chars := Dispatch.plainPlatform
  mac := Dispatch.plainMac.toMac
  loads := fun body => Json.loads Json.rationalText body.toList
  str := fun v =>
    match v with
    | .str s => .ok s
    | .int n => .ok (toString n)
    | .null => .ok "None"
    | .bool b => .ok (if b then "True" else "False")
    | _ => .error .valueError
  repr := fun s => "'" ++ s ++ "'"
  floatTruth := fun x => x ≠ 0
  timestamp := fun v =>
    match v with
    | .str "1970-01-01T01:00:00Z" => .ok 3600
    | _ => .error .valueError
  isRsa := fun key => key ≠ []

theorem plain_loads (body : String) :
    plain.loads body = Json.loads Json.rationalText body.toList := rfl

/-- An answer that grants the `n`-th token, and is a file as well. -/
def granted (n : Nat) : Json ℚ :=
  .obj [("token", .str (.ofList (List.replicate (n + 1) 'a'))),
    ("expires_at", .str "1970-01-01T01:00:00Z"), ("path", .str "app.py"),
    ("size", .int 5), ("encoding", .str "base64"),
    ("content", .str "aGVsbG8="), ("sha", .str "0")]

def answered (n : Nat) : Answer :=
  .response 200 .empty (.ofList (Json.dumps Json.rationalText (granted n)))

theorem issues_answered (n : Nat) : (answered n).issues plain =
    some (.ofList (List.replicate (n + 1) 'a')) := by
  have hloads : plain.loads
      (.ofList (Json.dumps Json.rationalText (granted n))) =
        some (granted n) := by
    rw [plain_loads, String.toList_ofList, Json.loads_dumps]
  rw [answered, Answer.issues, if_neg (by decide), parseGrant, hloads]
  rfl

/-- GitHub, with another token in each answer. -/
def github : Hub plain where
  answer := answered
  now := fun _ => 0
  once := by
    intro n m token hn hm
    rw [issues_answered] at hn hm
    have heq := (Option.some.inj hn).trans (Option.some.inj hm).symm
    have hlen := congrArg (List.length ∘ String.toList) heq
    dsimp only [Function.comp] at hlen
    rw [String.toList_ofList, String.toList_ofList, List.length_replicate,
      List.length_replicate] at hlen
    exact Nat.succ.inj hlen

/-- The installation of `acme`, with a key. -/
def acme (key : Bytes) : TenantInstallation where
  tenantId := "acme"
  installationId := "7"
  appId := "1"
  appSlug := "sdlc"
  privateKeyPem := key
  allowedRepositories := ["org/app"]

/-- A tool call of `acme`. -/
def readApp : Event ℚ :=
  .call "acme" "org/app" (.getFileContents "main" "app.py")

/-- The payload of the event that the installation was suspended. -/
def suspension : List (String × Json ℚ) :=
  [("action", .str "suspend"), ("installation", .obj [("id", .int 7)])]

/-- GitHub says so in a body that it signs. -/
def delivery (body : Bytes) : Delivery ℚ where
  eventType := "installation"
  rawBody := body
  payload := suspension
  signatureHeader := some ("sha256=" ++ plain.mac.hexdigest [7] body)
  webhookSecret := [7]

def suspended : Event ℚ :=
  .webhook (delivery
    (Dispatch.codes (Json.dumps Json.rationalText (.obj suspension))))

/-- The key is rotated, after a suspension or not. -/
def rotation (between : List (Event ℚ)) : List (Event ℚ) :=
  [.register (acme [1]), readApp] ++ between ++ [.register (acme [2]), readApp]

theorem freshClient_of_noClients {s : Service ℚ} {t repository : String}
    (h : s.clients.entries.isEmpty = true) :
    FreshClient plain s t repository := by
  intro i parts c _ _ hc
  unfold Dict.get at hc
  rw [List.isEmpty_iff.1 h] at hc
  cases hc

theorem verifySignature_signed (mac : Dispatch.Mac) (payload secret : Bytes) :
    verifySignature mac payload
      (some ("sha256=" ++ mac.hexdigest secret payload)) secret = .ok () := by
  have hne : "sha256=" ++ mac.hexdigest secret payload ≠ "" := by
    intro h
    have hlist := congrArg String.toList h
    rw [String.toList_append] at hlist
    exact absurd hlist (List.append_ne_nil_of_left_ne_nil (by decide) _)
  have hdrop : String.ofList
      (("sha256=" ++ mac.hexdigest secret payload).toList.drop 7) =
        mac.hexdigest secret payload := by
    rw [String.toList_append, List.drop_append_of_le_length (by decide)]
    exact String.ofList_toList
  have hprefix : "sha256=".toList.isPrefixOf
      ("sha256=" ++ mac.hexdigest secret payload).toList = true := by
    rw [String.toList_append, List.isPrefixOf_iff_prefix]
    exact List.prefix_append _ _
  rw [verifySignature, Option.filter_some_pos (by simp [hne])]
  dsimp only
  rw [if_pos hprefix, hdrop, Dispatch.compareDigest, mac.ascii, Bool.and_self,
    if_pos rfl, decide_eq_true rfl]

theorem step_delivery (s : Service ℚ) (body : Bytes) :
    step github s (.webhook (delivery body)) =
      { s with clients := s.clients.erase "7" } := by
  have hsigned : verifySignature plain.mac body
      (some ("sha256=" ++ plain.mac.hexdigest [7] body)) [7] = .ok () :=
    verifySignature_signed plain.mac body [7]
  show (handleInstallationWebhook plain s (delivery body)).2 = _
  rw [handleInstallationWebhook, delivery, hsigned]
  rfl

/-- A key rotated after a suspension is used by the next call. -/
theorem current_after_suspension :
    CurrentThroughout github (rotation [suspended]) ∧
      RevokedForGood github (rotation [suspended]) := by
  refine current_credentials github (rotation [suspended])
    ⟨trivial, freshClient_of_noClients rfl, trivial, trivial, ?_, trivial⟩
  rw [suspended, step_delivery]
  exact freshClient_of_noClients (by decide +kernel)

/-- A key rotated without one is not: the next call shows a token issued to
the key before. -/
theorem stale_after_rotation : ¬ CurrentThroughout github (rotation []) := by
  intro h
  have hcurrent := h
    [.register (acme [1]), readApp, .register (acme [2])] "acme" "org/app"
    (.getFileContents "main" "app.py") [] rfl
  -- no JWT of the second key was ever sent
  have hrun : ∃ s, run github new
      [.register (acme [1]), readApp, .register (acme [2])] = s ∧
      s.byTenant.get "acme" = some (acme [2]) ∧
      ((added github s [readApp]).map fun x => x.request.auth) =
        [.token "a"] ∧
      ((s.call github "acme" "org/app"
        (.getFileContents "main" "app.py")).2.sent.all fun x =>
          x.request.auth ≠ .appJwt "1" [2]) = true :=
    ⟨_, rfl, by decide +kernel⟩
  obtain ⟨s, hs, hreg, hshown, hall⟩ := hrun
  rw [hs] at hcurrent
  have hmem : Auth.token "a" ∈ (added github s [readApp]).map
      fun x => x.request.auth := by
    rw [hshown]
    exact List.mem_cons_self
  obtain ⟨x, hx, hauth⟩ := List.mem_map.1 hmem
  obtain ⟨i, hi, -, -, n, e, he, -, hjwt, -⟩ := hcurrent x hx "a" hauth
  rw [hreg] at hi
  cases hi
  have hnever := List.all_eq_true.1 hall e (List.mem_of_getElem? he)
  exact of_decide_eq_true hnever hjwt

end Service

end SdlcOs.SourceControl
