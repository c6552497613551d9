/-
Which credentials a token was issued to, and when.

# The argument

A client's cached tokens were issued to its own credentials, for the
installation it is cached under (`Backed`). A request adds exchanges and
keeps that (`goes_authedRequest`); so does a tool, by induction on its
requests (`goes_perform`). For a whole service the fact is `Held`, from a
floor on for each installation: no cached token of it was issued before.

# Two caches

A revocation drops the client and its tokens, so the floor of the
installation rises to the length of the record (`held_webhook`): what is
used after it was issued after it. A registration touches neither cache.
The tokens of a tool are therefore those of the cached client, and they
are the registered installation's exactly as far as the client's
credentials are (`FreshClient`).
-/
import SdlcOs.SourceControl.Service

namespace SdlcOs.SourceControl

open Data (Dict)
open Dispatch (Bytes)
open Effects (Prog)
open Json (Json)

variable {φ : Type} {P : Platform φ} {H : Hub P} {t X : String} {k : Nat}

-- ==== issuing

/-- The `n`-th exchange issued a token to an app, for an installation. -/
def IssuedAt (P : Platform φ) (sent : List (Exchange φ)) (n : Nat)
    (appId : String) (key : Bytes) (installationId token : String) : Prop :=
  ∃ e, sent[n]? = some e ∧ e.installationId = installationId ∧
    e.request.auth = .appJwt appId key ∧ e.answer.issues P = some token

/-- A token issued to credentials, from the `k`-th exchange on. -/
def IssuedFrom (P : Platform φ) (k : Nat) (sent : List (Exchange φ))
    (c : AppCredentials) (installationId token : String) : Prop :=
  ∃ n, k ≤ n ∧ IssuedAt P sent n c.appId c.privateKeyPem installationId token

/-- A client whose tokens were issued to it, for one installation and from
the `k`-th exchange on. -/
def Backed (P : Platform φ) (X : String) (k : Nat) (c : GitHubAppClient)
    (sent : List (Exchange φ)) : Prop :=
  ∀ Y token, c.tokens.get Y = some token →
    Y = X ∧ IssuedFrom P k sent c.credentials X token.token

theorem IssuedAt.append {sent more : List (Exchange φ)} {n : Nat}
    {appId token : String} {key : Bytes}
    (h : IssuedAt P sent n appId key X token) :
    IssuedAt P (sent ++ more) n appId key X token := by
  obtain ⟨e, he, hrest⟩ := h
  refine ⟨e, ?_, hrest⟩
  have hlt : n < sent.length := (List.getElem?_eq_some_iff.1 he).1
  rw [List.getElem?_append_left hlt]
  exact he

theorem IssuedFrom.append {sent more : List (Exchange φ)}
    {c : AppCredentials} {token : String}
    (h : IssuedFrom P k sent c X token) :
    IssuedFrom P k (sent ++ more) c X token := by
  obtain ⟨n, hn, hat⟩ := h
  exact ⟨n, hn, hat.append⟩

theorem Backed.append {c : GitHubAppClient} {sent more : List (Exchange φ)}
    (h : Backed P X k c sent) : Backed P X k c (sent ++ more) := by
  intro Y token hget
  obtain ⟨hY, hfrom⟩ := h Y token hget
  exact ⟨hY, hfrom.append⟩

-- ==== sessions

/-- Every answer on record is GitHub's answer to that request. -/
def Logged (H : Hub P) (sent : List (Exchange φ)) : Prop :=
  ∀ n x, sent[n]? = some x → x.answer = H.answer n

/-- What a session keeps: a record of GitHub's, and a client whose tokens
were issued to it from the `k`-th exchange on. -/
structure Kept (H : Hub P) (k : Nat) (X : String) (x : Session φ) :
    Prop where
  logged : Logged H x.sent
  reached : k ≤ x.sent.length
  backed : Backed P X k x.client x.sent

/-- An exchange of a tenant's call: a token it shows was issued to the
client, for the installation. -/
def Proper (P : Platform φ) (k : Nat) (c : AppCredentials) (t X : String)
    (sent : List (Exchange φ)) (e : Exchange φ) : Prop :=
  e.tenantId = t ∧ e.installationId = X ∧
    ∀ token, e.request.auth = .token token → IssuedFrom P k sent c X token

theorem Proper.append {c : AppCredentials} {sent more : List (Exchange φ)}
    {e : Exchange φ} (h : Proper P k c t X sent e) :
    Proper P k c t X (sent ++ more) e :=
  ⟨h.1, h.2.1, fun token hauth => (h.2.2 token hauth).append⟩

/-- What the requests of a call do to a session. -/
structure Goes (H : Hub P) (k : Nat) (t X : String) (x x' : Session φ) :
    Prop where
  credentials : x'.client.credentials = x.client.credentials
  kept : Kept H k X x'
  grown : ∃ more, x'.sent = x.sent ++ more ∧
    ∀ e ∈ more, Proper P k x.client.credentials t X x'.sent e

variable {x x' x'' : Session φ}

theorem Goes.refl (h : Kept H k X x) : Goes H k t X x x :=
  ⟨rfl, h, [], (List.append_nil _).symm, fun _ he => by cases he⟩

theorem Goes.trans (h : Goes H k t X x x') (h' : Goes H k t X x' x'') :
    Goes H k t X x x'' := by
  obtain ⟨more, hmore, hproper⟩ := h.grown
  obtain ⟨more', hmore', hproper'⟩ := h'.grown
  refine ⟨h'.credentials.trans h.credentials, h'.kept, more ++ more', ?_, ?_⟩
  · rw [hmore', hmore, List.append_assoc]
  · intro e he
    rcases List.mem_append.1 he with he | he
    · rw [hmore']
      exact (hproper e he).append
    · rw [← h.credentials]
      exact hproper' e he

theorem Logged.concat {sent : List (Exchange φ)} (h : Logged H sent)
    (r : Request φ) :
    Logged H (sent ++ [⟨t, X, r, H.answer sent.length⟩]) := by
  intro n y hy
  rw [List.getElem?_append] at hy
  split at hy
  · exact h n y hy
  · next hn =>
    have hlen := (List.getElem?_eq_some_iff.1 hy).1
    rw [List.length_singleton] at hlen
    have hz : n = sent.length := by omega
    rw [hz, Nat.sub_self] at hy
    cases hy
    rw [hz]

theorem goes_send (h : Kept H k X x) {r : Request φ}
    (hauth : ∀ token, r.auth = .token token →
      IssuedFrom P k x.sent x.client.credentials X token) :
    Goes H k t X x (x.send H t X r).2 := by
  have hreached : k ≤ (x.send H t X r).2.sent.length := by
    unfold Session.send
    dsimp only
    rw [List.length_append]
    exact h.reached.trans (Nat.le_add_right _ _)
  refine ⟨rfl, ⟨h.logged.concat r, hreached, h.backed.append⟩, [_], rfl, ?_⟩
  intro e he
  rw [List.mem_singleton.1 he]
  exact ⟨rfl, rfl, fun token htoken => (hauth token htoken).append⟩

-- ==== the tokens

/-- Asking for a token: the session goes on, and a token that comes back
was issued to the client then. -/
theorem goes_createInstallationToken (h : Kept H k X x) :
    Goes H k t X x (createInstallationToken H t X x).2 ∧
      (createInstallationToken H t X x).2.client = x.client ∧
      ∀ token, (createInstallationToken H t X x).1 = .ok token →
        IssuedFrom P k (createInstallationToken H t X x).2.sent
          x.client.credentials X token.token := by
  unfold createInstallationToken
  by_cases hrsa : (!P.isRsa x.client.credentials.privateKeyPem) = true
  · rw [if_pos hrsa]
    exact ⟨Goes.refl h, rfl, fun _ hc => by cases hc⟩
  · rw [if_neg hrsa]
    dsimp only
    have hgoes := @goes_send φ P H t X k x h
      { method := "POST"
        url := x.client.apiBaseUrl ++ "/app/installations/" ++ X ++
          "/access_tokens"
        auth := .appJwt x.client.credentials.appId
          x.client.credentials.privateKeyPem }
      (fun _ hc => by cases hc)
    unfold Session.send at hgoes ⊢
    dsimp only at hgoes ⊢
    cases hanswer : H.answer x.sent.length with
    | unreachable reason =>
      rw [hanswer] at hgoes
      exact ⟨hgoes, rfl, fun _ hc => by cases hc⟩
    | response status headers body =>
      rw [hanswer] at hgoes
      dsimp only
      by_cases hstatus : 300 ≤ status
      · rw [if_pos hstatus]
        split
        · exact ⟨hgoes, rfl, fun _ hc => by cases hc⟩
        · exact ⟨hgoes, rfl, fun _ hc => by cases hc⟩
      · rw [if_neg hstatus]
        split
        · exact ⟨hgoes, rfl, fun _ hc => by cases hc⟩
        · next text expiresAt hgrant =>
          refine ⟨hgoes, rfl, ?_⟩
          intro token htoken
          cases htoken
          refine ⟨x.sent.length, h.reached, _, List.getElem?_concat_length, rfl,
            rfl, ?_⟩
          unfold Answer.issues
          dsimp only
          rw [if_neg hstatus, hgrant]

/-- Storing a token that was issued to the client. -/
theorem Goes.store (h : Goes H k t X x x') {fresh : InstallationToken}
    (hfresh : IssuedFrom P k x'.sent x.client.credentials X fresh.token) :
    Goes H k t X x (x'.store X fresh) := by
  refine ⟨h.credentials, ⟨h.kept.logged, h.kept.reached, ?_⟩, h.grown⟩
  intro Y token hget
  unfold Session.store at hget ⊢
  dsimp only at hget ⊢
  by_cases hY : Y = X
  · rw [hY, Dict.get_set_self] at hget
    cases hget
    rw [h.credentials]
    exact ⟨hY, hfresh⟩
  · rw [Dict.get_set_ne _ hY] at hget
    exact h.kept.backed Y token hget

theorem goes_fetchToken (h : Kept H k X x) :
    Goes H k t X x (fetchToken H t X x).2 ∧
      ∀ token, (fetchToken H t X x).1 = .ok token →
        IssuedFrom P k (fetchToken H t X x).2.sent x.client.credentials X
          token.token := by
  obtain ⟨hgoes, -, hissued⟩ :=
    @goes_createInstallationToken φ P H t X k x h
  unfold fetchToken
  cases hcreate : createInstallationToken H t X x with
  | mk out y =>
    rw [hcreate] at hgoes hissued
    cases out with
    | error f => exact ⟨hgoes, fun _ hc => by cases hc⟩
    | ok fresh =>
      refine ⟨hgoes.store (hissued fresh rfl), ?_⟩
      intro token htoken
      cases htoken
      exact hissued fresh rfl

theorem goes_getToken (h : Kept H k X x) :
    Goes H k t X x (getToken H t X x).2 ∧
      ∀ token, (getToken H t X x).1 = .ok token →
        IssuedFrom P k (getToken H t X x).2.sent x.client.credentials X
          token.token := by
  unfold getToken
  cases hcached : x.client.tokens.get X with
  | none => exact goes_fetchToken h
  | some cached =>
    dsimp only
    split
    · refine ⟨Goes.refl h, ?_⟩
      intro token htoken
      cases htoken
      exact (h.backed X cached hcached).2
    · exact goes_fetchToken h

-- ==== the requests

theorem Goes.evict (h : Goes H k t X x x') :
    Goes H k t X x { x' with client := x'.client.forceEvict X } := by
  refine ⟨h.credentials, ⟨h.kept.logged, h.kept.reached, ?_⟩, h.grown⟩
  intro Y token hget
  refine h.kept.backed Y token ?_
  unfold GitHubAppClient.forceEvict at hget
  dsimp only at hget
  by_cases hY : Y = X
  · rw [hY, Dict.get_erase_self] at hget
    cases hget
  · rwa [Dict.get_erase_ne _ hY] at hget

theorem goes_authedAnswer {r : ApiRequest φ} (h : Goes H k t X x x')
    (a : Answer) :
    Goes H k t X x (authedAnswer (P := P) X r a x').2 := by
  cases a with
  | unreachable reason => exact h
  | response status headers body =>
    rw [authedAnswer]
    split
    · split
      · exact h
      · dsimp only
        split
        · exact h.evict
        · exact h
    · split
      · exact h
      · split
        · exact h
        · split
          · exact h
          · exact h

/-- One request of a tool. -/
theorem goes_authedRequest {r : ApiRequest φ} (h : Kept H k X x) :
    Goes H k t X x (authedRequest H t X r x).2 := by
  obtain ⟨hgoes, hissued⟩ := @goes_getToken φ P H t X k x h
  unfold authedRequest
  cases hget : getToken H t X x with
  | mk out y =>
    rw [hget] at hgoes hissued
    cases out with
    | error f => exact hgoes
    | ok token =>
      dsimp only
      refine goes_authedAnswer (hgoes.trans (goes_send hgoes.kept ?_)) _
      intro text htext
      cases htext
      rw [hgoes.credentials]
      exact hissued token rfl

/-- The requests of a tool. -/
theorem goes_perform {α : Type} {p : Prog (fun _ => Json φ) Failure α}
    (h : Kept H k X x) : Goes H k t X x (perform H t X p x).2 := by
  induction p generalizing x with
  | ret a => exact Goes.refl h
  | raise f => exact Goes.refl h
  | op r cont ih =>
    have hgoes := @goes_authedRequest φ P H t X k x r h
    unfold perform
    cases hreq : authedRequest H t X r x with
    | mk out y =>
      rw [hreq] at hgoes
      cases out with
      | error f => exact hgoes
      | ok v =>
        exact hgoes.trans (ih v hgoes.kept)

end SdlcOs.SourceControl
