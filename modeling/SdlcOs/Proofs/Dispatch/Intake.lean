/-
What gets past the intake, and what it does with the rest.

A trigger is resolved only from an authentic request whose body names a
project of the request's own tenant (`intake_cases`). Everything before
the first call to the outside can stop a request, so that a request that
is not resolved calls nothing.

Besides the two exceptions the intake means, others get out of it: the
request is garbled, or it is authentic and its body is JSON of a shape
the resolution does not expect (`Misshapen`).
-/
import SdlcOs.Dispatch.Dispatcher
import SdlcOs.Proofs.Dispatch.Signing

namespace SdlcOs.Dispatch

open Data (Dict)
open Json (Json)

variable {φ : Type}

-- ==== resolution

/-- A value `tuple` cannot go through. -/
def NotIterable : Json φ → Prop
  | .null => True
  | .bool _ => True
  | .int _ => True
  | .float _ => True
  | _ => False

/-- A value without a hash. -/
def Unhashable : Json φ → Prop
  | .arr _ => True
  | .obj _ => True
  | _ => False

/-- The payload has its required fields, and its project is a text that
the directory maps to the tenant. -/
def Maps (D : Decoder φ) (directory : Dict String String) (tenantId : String)
    (payload : List (String × Json φ)) : Prop :=
  missingFields D payload = [] ∧
  ∃ s, member "project_key" payload = some (.str s) ∧
    directory.get s = some tenantId

/-- A JSON value the resolution does not expect: no dictionary, a project
without a hash, or, the tenant's own, labels that are no sequence. -/
def Misshapen (D : Decoder φ) (directory : Dict String String)
    (tenantId : String) : Json φ → Prop
  | .obj payload =>
    (missingFields D payload = [] ∧
      ∃ v, member "project_key" payload = some v ∧ Unhashable v) ∨
    (Maps D directory tenantId payload ∧
      ∃ v, member "labels" payload = some v ∧ NotIterable v)
  | _ => True

variable {D : Decoder φ} {directory : Dict String String}

theorem project_of_complete {payload : List (String × Json φ)}
    (h : missingFields D payload = []) :
    ∃ v, member "project_key" payload = some v := by
  have hproject := List.filter_eq_nil_iff.1 h "project_key" (by decide)
  cases hmember : member "project_key" payload with
  | none =>
    rw [hmember] at hproject
    exact absurd rfl hproject
  | some v => exact ⟨v, rfl⟩

theorem elements_cases (v : Json φ) :
    (elements v = .error .typeError ∧ NotIterable v) ∨
    ((∃ l, elements v = .ok l) ∧ ¬ NotIterable v) := by
  cases v with
  | null => exact Or.inl ⟨rfl, trivial⟩
  | bool b => exact Or.inl ⟨rfl, trivial⟩
  | int n => exact Or.inl ⟨rfl, trivial⟩
  | float x => exact Or.inl ⟨rfl, trivial⟩
  | str s => exact Or.inr ⟨⟨_, rfl⟩, id⟩
  | arr items => exact Or.inr ⟨⟨_, rfl⟩, id⟩
  | obj members => exact Or.inr ⟨⟨_, rfl⟩, id⟩

theorem tenantForProject_cases (directory : Dict String String) (v : Json φ) :
    (tenantForProject directory v = .error .typeError ∧ Unhashable v) ∨
    ((∃ s, v = .str s ∧ tenantForProject directory v =
      .ok (directory.get s)) ∧ ¬ Unhashable v) ∨
    (tenantForProject directory v = .ok none ∧ (∀ s, v ≠ .str s) ∧
      ¬ Unhashable v) := by
  cases v with
  | str s => exact Or.inr (Or.inl ⟨⟨s, rfl, rfl⟩, id⟩)
  | arr items => exact Or.inl ⟨rfl, trivial⟩
  | obj members => exact Or.inl ⟨rfl, trivial⟩
  | null =>
    refine Or.inr (Or.inr ⟨rfl, ?_, id⟩)
    intro s h; cases h
  | bool b =>
    refine Or.inr (Or.inr ⟨rfl, ?_, id⟩)
    intro s h; cases h
  | int n =>
    refine Or.inr (Or.inr ⟨rfl, ?_, id⟩)
    intro s h; cases h
  | float x =>
    refine Or.inr (Or.inr ⟨rfl, ?_, id⟩)
    intro s h; cases h

theorem resolvePayload_cases (D : Decoder φ) (trigger : AuthenticatedTrigger)
    (directory : Dict String String) (payload : List (String × Json φ)) :
    (∃ t, resolvePayload D trigger directory payload = .ok (.trigger t) ∧
      t.tenantId = trigger.claimedTenantId ∧
      Maps D directory trigger.claimedTenantId payload ∧
      ¬ Misshapen D directory trigger.claimedTenantId (.obj payload)) ∨
    ((∃ u, resolvePayload D trigger directory payload =
        .ok (.unresolved u)) ∧
      ¬ Misshapen D directory trigger.claimedTenantId (.obj payload)) ∨
    ((∃ e, resolvePayload D trigger directory payload = .error e) ∧
      Misshapen D directory trigger.claimedTenantId (.obj payload)) := by
  unfold resolvePayload
  by_cases hmissing : missingFields D payload = []
  · rw [if_neg (not_not.2 hmissing)]
    obtain ⟨v, hv⟩ := project_of_complete hmissing
    have hproject : ∀ v', member "project_key" payload = some v' → v' = v := by
      intro v' h
      exact Option.some.inj (h.symm.trans hv)
    simp only [hv, Option.getD_some]
    rcases tenantForProject_cases directory v with ⟨heq, hun⟩ |
      ⟨⟨s, rfl, heq⟩, hhash⟩ | ⟨heq, hnot, hhash⟩
    · simp only [heq]
      exact Or.inr (Or.inr ⟨⟨_, rfl⟩, Or.inl ⟨hmissing, v, hv, hun⟩⟩)
    · simp only [heq]
      have hshape : Misshapen D directory trigger.claimedTenantId
          (.obj payload) ↔ directory.get s = some trigger.claimedTenantId ∧
            ∃ v, member "labels" payload = some v ∧ NotIterable v := by
        constructor
        · rintro (⟨_, v', hv', hun⟩ | ⟨⟨_, s', hs', hget⟩, hlabels⟩)
          · exact absurd (hproject v' hv' ▸ hun) hhash
          · obtain rfl := Json.str.inj (hproject _ hs')
            exact ⟨hget, hlabels⟩
        · rintro ⟨hget, hlabels⟩
          exact Or.inr ⟨⟨hmissing, s, hv, hget⟩, hlabels⟩
      rw [hshape]
      cases hget : directory.get s with
      | none =>
        refine Or.inr (Or.inl ⟨⟨_, rfl⟩, ?_⟩)
        rintro ⟨h, _⟩
        cases h
      | some resolvedTenantId =>
        by_cases hclaimed : resolvedTenantId = trigger.claimedTenantId
        · subst hclaimed
          simp only [ne_eq, not_true_eq_false, if_false]
          cases hlabels : member "labels" payload with
          | none =>
            refine Or.inl ⟨_, rfl, rfl, ⟨hmissing, s, hv, hget⟩, ?_⟩
            rintro ⟨_, v, h, _⟩
            cases h
          | some v =>
            rcases elements_cases v with ⟨herr, hnot⟩ | ⟨⟨l, hl⟩, hit⟩
            · simp only [Option.getD_some, herr]
              exact Or.inr (Or.inr ⟨⟨_, rfl⟩, trivial, v, rfl, hnot⟩)
            · simp only [Option.getD_some, hl]
              refine Or.inl ⟨_, rfl, rfl, ⟨hmissing, s, hv, hget⟩, ?_⟩
              rintro ⟨_, v', h, hnot⟩
              obtain rfl := Option.some.inj h
              exact hit hnot
        · simp only [ne_eq, hclaimed, not_false_eq_true, if_true]
          refine Or.inr (Or.inl ⟨⟨_, rfl⟩, ?_⟩)
          rintro ⟨h, _⟩
          exact hclaimed (Option.some.inj h)
    · simp only [heq]
      refine Or.inr (Or.inl ⟨⟨_, rfl⟩, ?_⟩)
      rintro (⟨_, v', hv', hun⟩ | ⟨⟨_, s, hs, _⟩, _⟩)
      · exact hhash (hproject v' hv' ▸ hun)
      · exact hnot s (hproject _ hs).symm
  · rw [if_pos hmissing]
    refine Or.inr (Or.inl ⟨⟨_, rfl⟩, ?_⟩)
    rintro (⟨h, _⟩ | ⟨⟨h, _⟩, _⟩)
    · exact hmissing h
    · exact hmissing h

theorem resolveTenant_cases (D : Decoder φ) (trigger : AuthenticatedTrigger)
    (directory : Dict String String) :
    (∃ t payload, resolveTenant D trigger directory = .ok (.trigger t) ∧
      t.tenantId = trigger.claimedTenantId ∧
      D.loads trigger.body = some (.obj payload) ∧
      Maps D directory trigger.claimedTenantId payload ∧
      ∀ v, D.loads trigger.body = some v →
        ¬ Misshapen D directory trigger.claimedTenantId v) ∨
    ((∃ u, resolveTenant D trigger directory = .ok (.unresolved u)) ∧
      ∀ v, D.loads trigger.body = some v →
        ¬ Misshapen D directory trigger.claimedTenantId v) ∨
    ((∃ e, resolveTenant D trigger directory = .error e) ∧
      ∃ v, D.loads trigger.body = some v ∧
        Misshapen D directory trigger.claimedTenantId v) := by
  unfold resolveTenant
  cases hloads : D.loads trigger.body with
  | none =>
    refine Or.inr (Or.inl ⟨⟨_, rfl⟩, ?_⟩)
    intro v h
    cases h
  | some v =>
    cases v with
    | obj payload =>
      rcases resolvePayload_cases D trigger directory payload with
        ⟨t, heq, htenant, hmaps, hshape⟩ | ⟨hun, hshape⟩ | ⟨herr, hshape⟩
      · refine Or.inl ⟨t, payload, heq, htenant, rfl, hmaps, ?_⟩
        intro v h
        exact Option.some.inj h ▸ hshape
      · refine Or.inr (Or.inl ⟨hun, ?_⟩)
        intro v h
        exact Option.some.inj h ▸ hshape
      · exact Or.inr (Or.inr ⟨herr, _, rfl, hshape⟩)
    | null => exact Or.inr (Or.inr ⟨⟨_, rfl⟩, _, rfl, trivial⟩)
    | bool b => exact Or.inr (Or.inr ⟨⟨_, rfl⟩, _, rfl, trivial⟩)
    | int n => exact Or.inr (Or.inr ⟨⟨_, rfl⟩, _, rfl, trivial⟩)
    | float x => exact Or.inr (Or.inr ⟨⟨_, rfl⟩, _, rfl, trivial⟩)
    | str s => exact Or.inr (Or.inr ⟨⟨_, rfl⟩, _, rfl, trivial⟩)
    | arr items => exact Or.inr (Or.inr ⟨⟨_, rfl⟩, _, rfl, trivial⟩)

-- ==== intake

namespace IntakeConfig

variable (ic : IntakeConfig φ) (r : Request)

/-- The request is authentic, within the replay window. -/
def Authentic (tenantId timestamp signature : String) : Prop :=
  Dispatch.Authentic ic.platform ic.mac r.headers r.body ic.secretLookup r.now
    replayWindowSeconds tenantId timestamp signature

/-- The request gets something else than a rejection: it is garbled, or
authentic with a body of a shape the resolution does not expect. -/
def Crashes : Prop :=
  Garbled ic.platform r.headers ic.secretLookup r.now replayWindowSeconds ∨
  ∃ tenantId timestamp signature v,
    ic.Authentic r tenantId timestamp signature ∧
    ic.decoder.loads r.body = some v ∧
    Misshapen ic.decoder ic.tenantDirectory tenantId v

end IntakeConfig

variable {ic : IntakeConfig φ} {r : Request}

/-- What the intake gives: a trigger of the authentic tenant, or one of
the two rejections, or another exception. -/
theorem intake_cases (ic : IntakeConfig φ) (r : Request) :
    (∃ t timestamp signature payload, ic.intake r = .ok t ∧
      ic.Authentic r t.tenantId timestamp signature ∧
      ic.decoder.loads r.body = some (.obj payload) ∧
      Maps ic.decoder ic.tenantDirectory t.tenantId payload ∧
      ¬ ic.Crashes r) ∨
    (((∃ u, ic.intake r = .error (.authentication u)) ∨
      ∃ u, ic.intake r = .error (.resolution u)) ∧ ¬ ic.Crashes r) ∨
    ((∃ e, ic.intake r = .error (.crash e)) ∧ ic.Crashes r) := by
  unfold IntakeConfig.intake Dispatch.intake authenticate
  rcases verify_cases ic.platform ic.mac r.headers r.body ic.secretLookup
    r.now replayWindowSeconds with ⟨tenantId, timestamp, signature, heq,
      hauth⟩ | ⟨⟨v, heq, hfalse⟩, hnot, hclean⟩ | ⟨⟨e, heq⟩, hgarbled⟩
  · have hclean : ¬ Garbled ic.platform r.headers ic.secretLookup r.now
        replayWindowSeconds := by
      rintro ⟨t, ts, s, h, hgarbled⟩
      obtain ⟨hpresents, hcurrent, secret, _, hsig⟩ := hauth
      obtain ⟨rfl, rfl, rfl⟩ := hpresents.unique h
      rcases hgarbled with ⟨n, hn, hinf⟩ | ⟨_, _, hwide⟩
      · obtain ⟨m, hm, hnear⟩ := hcurrent
        rw [← Option.some.inj (hm.symm.trans hn), hnear.finite] at hinf
        cases hinf
      · rw [(computeSignature_ok hsig).1, (computeSignature_ok hsig).2] at hwide
        rcases hwide with h | h <;> cases h
    have htenant : ∀ t ts s, ic.Authentic r t ts s → t = tenantId :=
      fun t ts s h => (h.1.unique hauth.1).1
    simp only [heq]
    rcases resolveTenant_cases ic.decoder ⟨tenantId, r.body⟩
      ic.tenantDirectory with ⟨t, payload, hres, ht, hloads, hmaps, hshape⟩ |
        ⟨⟨u, hres⟩, hshape⟩ | ⟨⟨e, hres⟩, v, hloads, hshape⟩
    · refine Or.inl ⟨t, timestamp, signature, payload, ?_, ht ▸ hauth, hloads,
        ht ▸ hmaps, ?_⟩
      · simp only [Bool.not_true, Bool.false_eq_true, if_false, hres]
      · rintro (h | ⟨t', ts, s, v, h, hv, hmis⟩)
        · exact hclean h
        · exact hshape v hv (htenant _ _ _ h ▸ hmis)
    · refine Or.inr (Or.inl ⟨Or.inr ⟨u, ?_⟩, ?_⟩)
      · simp only [Bool.not_true, Bool.false_eq_true, if_false, hres]
      · rintro (h | ⟨t', ts, s, v, h, hv, hmis⟩)
        · exact hclean h
        · exact hshape v hv (htenant _ _ _ h ▸ hmis)
    · refine Or.inr (Or.inr ⟨⟨e, ?_⟩, Or.inr ⟨tenantId, timestamp, signature,
        v, hauth, hloads, hshape⟩⟩)
      simp only [Bool.not_true, Bool.false_eq_true, if_false, hres]
  · simp only [heq, hfalse]
    refine Or.inr (Or.inl ⟨Or.inl ⟨_, rfl⟩, ?_⟩)
    rintro (h | ⟨t, ts, s, _, h, _⟩)
    · exact hclean h
    · exact hnot t ts s h
  · simp only [heq]
    exact Or.inr (Or.inr ⟨⟨e, rfl⟩, Or.inl hgarbled⟩)

-- ==== no effect

variable {cfg : Config φ} {d : JobDispatcher φ} {w : Outside φ}

theorem handleWebhook_refused {e : IntakeError φ}
    (h : ic.intake r = .error e) :
    d.handleWebhook ic cfg r w = (⟨d, none, []⟩, .error (.inl e)) := by
  unfold JobDispatcher.handleWebhook
  rw [h]

/-- A request yields a trigger or is rejected by one of the two
exceptions meant for it, and where it yields none nothing outside is
called. -/
def FailsClosed (ic : IntakeConfig φ) (cfg : Config φ) (d : JobDispatcher φ)
    (r : Request) (w : Outside φ) : Prop :=
  ((∃ t, ic.intake r = .ok t) ∨
    (∃ u, ic.intake r = .error (.authentication u)) ∨
    ∃ u, ic.intake r = .error (.resolution u)) ∧
  ((∀ t, ic.intake r ≠ .ok t) →
    (d.handleWebhook ic cfg r w).1.effects = [])

/-- For every request, dispatcher and outside the intake fails closed
exactly when the request does not crash it. -/
theorem intake_fails_closed (ic : IntakeConfig φ) (cfg : Config φ)
    (d : JobDispatcher φ) (r : Request) (w : Outside φ) :
    FailsClosed ic cfg d r w ↔ ¬ ic.Crashes r := by
  have hquiet : (∀ t, ic.intake r ≠ .ok t) →
      (d.handleWebhook ic cfg r w).1.effects = [] := by
    intro hnone
    cases h : ic.intake r with
    | error e => rw [handleWebhook_refused h]
    | ok t => exact absurd h (hnone t)
  rcases intake_cases ic r with ⟨t, _, _, _, heq, _, _, _, hno⟩ |
    ⟨hrejected, hno⟩ | ⟨⟨e, heq⟩, hcrash⟩
  · exact iff_of_true ⟨Or.inl ⟨t, heq⟩, hquiet⟩ hno
  · exact iff_of_true ⟨Or.inr hrejected, hquiet⟩ hno
  · refine iff_of_false ?_ (not_not.2 hcrash)
    rintro ⟨⟨t, h⟩ | ⟨u, h⟩ | ⟨u, h⟩, _⟩ <;> rw [heq] at h <;> cases h

-- ==== who dispatches

/-- What a request shows that is dispatched for a tenant: its header names
the tenant; its signature was made under the tenant's secret, over its
timestamp and body and nothing else; the timestamp is within the window as
floats subtract, and so it is by their values where these have no more
than 53 bits and the clock is past 256; and its project is the
tenant's. -/
structure Vouched (ic : IntakeConfig φ) (r : Request) (tenantId : String) :
    Prop where
  named : header ic.platform r.headers headerTenantId = some tenantId
  signed : ∃ timestamp signature secret n,
    header ic.platform r.headers headerTimestamp = some timestamp ∧
    header ic.platform r.headers headerSignature = some signature ∧
    ic.secretLookup tenantId = some secret ∧
    computeSignature ic.mac secret timestamp r.body = .ok signature ∧
    (∀ secret' timestamp' body' n', pyInt ic.platform timestamp' = some n' →
      computeSignature ic.mac secret' timestamp' body' = .ok signature →
      secret' = secret ∧ timestamp' = timestamp ∧ body' = r.body) ∧
    pyInt ic.platform timestamp = some n ∧
    r.now.Near replayWindowSeconds n ∧
    (2 ^ 8 < |r.now.val| → |r.now.val| + 300 < 2 ^ 53 →
      |r.now.val - n| ≤ replayWindowSeconds)
  mapped : ∃ payload project, ic.decoder.loads r.body = some (.obj payload) ∧
    member "project_key" payload = some (.str project) ∧
    ic.tenantDirectory.get project = some tenantId

theorem computeSignature_injective (mac : IdealMac) {P : Platform}
    {secret secret' body body' : Bytes} {timestamp timestamp' : String}
    {signature : String} {n n' : Int} (hint : pyInt P timestamp = some n)
    (hint' : pyInt P timestamp' = some n')
    (h : computeSignature mac.toMac secret timestamp body = .ok signature)
    (h' : computeSignature mac.toMac secret' timestamp' body' =
      .ok signature) :
    secret' = secret ∧ timestamp' = timestamp ∧ body' = body := by
  unfold computeSignature at h h'
  cases hm : canonicalMessage timestamp body with
  | error e => rw [hm] at h; cases h
  | ok m =>
    cases hm' : canonicalMessage timestamp' body' with
    | error e => rw [hm'] at h'; cases h'
    | ok m' =>
      rw [hm] at h
      rw [hm'] at h'
      obtain ⟨hsecret, hmessage⟩ := mac.injective
        ((Except.ok.inj h').trans (Except.ok.inj h).symm)
      rw [hmessage] at hm'
      obtain ⟨htime, hbody⟩ :=
        canonicalMessage_injective hint' hint hm' hm
      exact ⟨hsecret, htime, hbody⟩

/-- The tenant an effect asks capacity for or creates a run for. -/
def Effect.tenant : Effect φ → Option String
  | .requestCapacity tenantId => some tenantId
  | .createRun _ args _ => some args.tenantId
  | _ => none

theorem dispatch_tenant {q : TenantTriggerQueue (Trigger φ)} {t : Trigger φ}
    {e : Effect φ} {tenantId : String}
    (he : e ∈ (dispatch cfg w q t).effects) (h : e.tenant = some tenantId) :
    tenantId = t.resolved.tenantId := by
  have hhead : e = .requestCapacity t.resolved.tenantId →
      tenantId = t.resolved.tenantId := by
    rintro rfl
    exact (Option.some.inj h).symm
  unfold dispatch at he
  split at he
  · exact hhead (List.mem_singleton.1 he)
  · next capacityResult _ =>
    split at he
    · rcases List.mem_cons.1 he with he | he
      · exact hhead he
      · unfold createRun at he
        cases hargs : createRunArgs cfg w t capacityResult with
        | error err =>
          rw [hargs] at he
          cases he
        | ok args =>
          have htenant : args.tenantId = t.resolved.tenantId := by
            unfold createRunArgs at hargs
            split at hargs
            · cases hargs
            · split at hargs
              · cases hargs
              · split at hargs
                · cases hargs
                · rw [← Except.ok.inj hargs]
          have hcalled : e = .createRun t args (w.registry args) →
              tenantId = t.resolved.tenantId := by
            rintro rfl
            rw [← htenant]
            exact (Option.some.inj h).symm
          simp only [hargs] at he
          split at he
          · exact hcalled (List.mem_singleton.1 he)
          · exact hcalled (List.mem_singleton.1 he)
          · split at he
            · rcases List.mem_cons.1 he with he | he
              · exact hcalled he
              · rw [List.mem_singleton.1 he] at h
                cases h
            · exact hcalled (List.mem_singleton.1 he)
    · rcases List.mem_cons.1 he with he | he
      · exact hhead he
      · unfold queueAndNotify at he
        simp only at he
        split at he
        · cases he
        · rw [List.mem_singleton.1 he] at h
          cases h
        · split at he
          · rcases List.mem_cons.1 he with he | he
            · rw [he] at h
              cases h
            · rw [List.mem_singleton.1 he] at h
              cases h
          · rw [List.mem_singleton.1 he] at h
            cases h

/-- What is called for a tenant is called for a request that vouches for
it. -/
theorem effects_vouched (ic : IntakeConfig φ) (mac : IdealMac)
    (hmac : ic.mac = mac.toMac) {e : Effect φ} {tenantId : String}
    (he : e ∈ (d.handleWebhook ic cfg r w).1.effects)
    (h : e.tenant = some tenantId) : Vouched ic r tenantId := by
  rcases intake_cases ic r with ⟨t, timestamp, signature, payload, heq, hauth,
    hloads, ⟨_, s, hproject, hget⟩, _⟩ | ⟨⟨u, heq⟩ | ⟨u, heq⟩, _⟩ | ⟨⟨u, heq⟩, _⟩
  · unfold JobDispatcher.handleWebhook at he
    simp only [heq] at he
    obtain rfl := dispatch_tenant he h
    obtain ⟨hpresents, ⟨n, hint, hnear⟩, secret, hsecret, hsig⟩ := hauth
    refine ⟨hpresents.tenantId, ⟨timestamp, signature, secret, n,
      hpresents.timestamp, hpresents.signature, hsecret, hsig, ?_, hint,
      hnear, hnear.exact⟩, payload, s, hloads, hproject, hget⟩
    intro secret' timestamp' body' n' hint' hsig'
    rw [hmac] at hsig hsig'
    exact computeSignature_injective mac hint hint' hsig hsig'
  · rw [handleWebhook_refused heq] at he
    cases he
  · rw [handleWebhook_refused heq] at he
    cases he
  · rw [handleWebhook_refused heq] at he
    cases he

/-- With an idealised hash: only a request that vouches for a tenant has
capacity requested or a run created for it; what is signed for a named
tenant verifies under its secret within a window of no more than 53 bits;
and a message has one timestamp and one body. -/
theorem authenticated_dispatch (ic : IntakeConfig φ) (mac : IdealMac) :
    (∀ (cfg : Config φ) (d : JobDispatcher φ) r w e tenantId,
      e ∈ (d.handleWebhook { ic with mac := mac.toMac } cfg r w).1.effects →
      e.tenant = some tenantId →
      Vouched { ic with mac := mac.toMac } r tenantId) ∧
    (∀ tenantId secret body (signedAt now : Float64) headers secretLookup
        window,
      signRequest mac.toMac tenantId secret body signedAt = .ok headers →
      tenantId ≠ "" → secretLookup tenantId = some secret →
      window ≤ 2 ^ 53 → |now.val - signedAt.toInt| ≤ (window : Int) →
      verifyRequest ic.platform mac.toMac headers body secretLookup now
        window = .ok ⟨true, some tenantId, none, none⟩) ∧
    (∀ timestamp timestamp' body body' message n n',
      pyInt ic.platform timestamp = some n →
      pyInt ic.platform timestamp' = some n' →
      canonicalMessage timestamp body = .ok message →
      canonicalMessage timestamp' body' = .ok message →
      timestamp = timestamp' ∧ body = body') := by
  refine ⟨?_, ?_, ?_⟩
  · intro cfg d r w e tenantId he h
    exact effects_vouched { ic with mac := mac.toMac } mac rfl he h
  · intro tenantId secret body signedAt now headers secretLookup window hsigned
      htenant hsecret hsize hwindow
    exact signed_verifies ic.platform mac.toMac hsigned htenant hsecret hsize
      hwindow
  · intro timestamp timestamp' body body' message n n' hint hint' h h'
    exact canonicalMessage_injective hint hint' h h'

-- ------------------------------------------------------- a tenant's requests

/-- The body of a request. -/
def plainBody : Bytes :=
  codes ("\x7b\"issue_key\": \"KEY-1\", \"project_key\": \"KEY\", ".toList ++
    "\"repository\": \"acme/app\"\x7d".toList)

/-- An intake of one tenant with one project, whose decoder knows that
body only. -/
def plainIntake : IntakeConfig Unit :=
  { platform := plainPlatform, mac := plainMac.toMac
    decoder :=
      { loads := fun body =>
          if body = plainBody then
            some (.obj [("issue_key", .str "KEY-1"),
              ("project_key", .str "KEY"), ("repository", .str "acme/app")])
          else none
        floatTruth := fun _ => true }
    secretLookup := fun tenantId =>
      if tenantId = "t1" then some [7] else none
    tenantDirectory := Dict.empty.set "KEY" "t1" }

/-- The tenant's signature of a timestamp and the body. -/
def plainSignature (timestamp : String) : String :=
  plainMac.hexdigest [7] (codes timestamp.toList ++ [46] ++ plainBody)

/-- A request with a timestamp and a signature, at a time. -/
def requestAt (timestamp signature : String) (now : Float64) : Request :=
  { headers := signedHeaders "t1" timestamp signature, body := plainBody
    now := now }

/-- A request of the tenant, with a signature. -/
def requestSigned (signature : String) : Request :=
  requestAt "1700000000" signature autumn2023

/-- The tenant's request. -/
def plainRequest : Request := requestSigned (plainSignature "1700000000")

/-- A dispatcher without observability. -/
def plainConfig : Config Unit := ⟨defaultBranchForIssue plainPlatform, false⟩

/-- An outside that answers a capacity request so, and everything else
well. -/
def plainOutside (capacity : Option CapacityResult) : Outside Unit :=
  { capacity := capacity, traceId := some "trace"
    registry := fun _ => .ok ⟨"run", "trace", "intake"⟩
    jiraClient := some (some true), observe := some () }

/-- Capacity granted. -/
def granted : Outside Unit :=
  plainOutside (some ⟨.available, "t1", some "spot", none⟩)

/-- The trigger of the request. -/
def plainResolved : ResolvedTrigger Unit :=
  { tenantId := "t1", jiraKey := .str "KEY-1", projectKey := .str "KEY"
    repository := .str "acme/app", status := .str "", labels := [] }

theorem epoch_window :
    |epoch.val - epoch.toInt| ≤ (replayWindowSeconds : ℚ) := by
  show |((0 : Int) : ℚ) - ((0 : Int) : ℚ)| ≤ ((300 : Int) : ℚ)
  rw [sub_self, abs_zero]
  exact Int.cast_nonneg (by decide)

theorem plainRequest_near :
    autumn2023.Near replayWindowSeconds 1700000000 := by
  refine near_of_within (Data.binary_intCast (by decide)) (by decide +kernel)
    (by decide) ?_
  show |((1700000000 : Int) : ℚ) - ((1700000000 : Int) : ℚ)| ≤ ((300 : Int) : ℚ)
  rw [sub_self, abs_zero]
  exact Int.cast_nonneg (by decide)

theorem authentic_requestAt {timestamp : String} {n : Int} {now : Float64}
    (hint : pyInt plainPlatform timestamp = some n)
    (hascii : isAscii timestamp = true) (hne : timestamp ≠ "")
    (hnear : now.Near replayWindowSeconds n) :
    plainIntake.Authentic (requestAt timestamp (plainSignature timestamp) now)
      "t1" timestamp (plainSignature timestamp) := by
  refine ⟨presents_signed plainPlatform (by decide) hne
    (plainMac.ne_empty _ _), ⟨n, hint, hnear⟩, [7], ?_, ?_⟩
  · show (if "t1" = "t1" then some [7] else none) = some [7]
    exact if_pos rfl
  unfold computeSignature canonicalMessage encodeAscii
  rw [if_pos hascii]
  rfl

theorem intake_ok {ic : IntakeConfig Unit} {r : Request} {tenantId : String}
    {t : ResolvedTrigger Unit}
    (hverify : verifyRequest ic.platform ic.mac r.headers r.body
      ic.secretLookup r.now replayWindowSeconds =
      .ok ⟨true, some tenantId, none, none⟩)
    (hresolve : resolveTenant ic.decoder ⟨tenantId, r.body⟩
      ic.tenantDirectory = .ok (.trigger t)) : ic.intake r = .ok t := by
  unfold IntakeConfig.intake Dispatch.intake authenticate
  rw [hverify]
  dsimp only
  rw [if_neg (by decide)]
  dsimp only
  rw [hresolve]

theorem plainBody_resolved : resolveTenant plainIntake.decoder
    ⟨"t1", plainBody⟩ plainIntake.tenantDirectory =
      .ok (.trigger plainResolved) := by
  have hloads : plainIntake.decoder.loads plainBody =
      some (.obj [("issue_key", .str "KEY-1"), ("project_key", .str "KEY"),
        ("repository", .str "acme/app")]) := by
    show (if plainBody = plainBody then some _ else none) = some _
    exact if_pos rfl
  unfold resolveTenant
  rw [hloads]
  rfl

theorem requestAt_ok {timestamp : String} {n : Int} {now : Float64}
    (hint : pyInt plainPlatform timestamp = some n)
    (hascii : isAscii timestamp = true) (hne : timestamp ≠ "")
    (hnear : now.Near replayWindowSeconds n) :
    plainIntake.intake (requestAt timestamp (plainSignature timestamp) now) =
      .ok plainResolved :=
  intake_ok (verify_of_authentic (authentic_requestAt hint hascii hne hnear))
    plainBody_resolved

theorem plainIntake_ok :
    plainIntake.intake plainRequest = .ok plainResolved :=
  requestAt_ok (by decide +kernel) (by decide) (by decide) plainRequest_near

theorem capacity_requested {r : Request}
    (h : plainIntake.intake r = .ok plainResolved) :
    Effect.requestCapacity "t1" ∈ ((JobDispatcher.init.handleWebhook
      plainIntake plainConfig r granted).1.effects) := by
  unfold JobDispatcher.handleWebhook
  rw [h]
  exact List.mem_cons_self ..

theorem authenticated_dispatch_signed :
    Vouched plainIntake plainRequest "t1" := by
  have hvouched : ∀ (ic : IntakeConfig Unit) (mac : IdealMac),
      ic.mac = mac.toMac →
      Effect.requestCapacity "t1" ∈ ((JobDispatcher.init.handleWebhook ic
        plainConfig plainRequest granted).1.effects) →
      Vouched ic plainRequest "t1" := by
    rintro ⟨platform, _, decoder, lookup, directory⟩ mac rfl h
    exact (authenticated_dispatch
      ⟨platform, mac.toMac, decoder, lookup, directory⟩ mac).1 plainConfig
      .init plainRequest granted (.requestCapacity "t1") "t1" h rfl
  exact hvouched plainIntake plainMac rfl (capacity_requested plainIntake_ok)

-- ------------------------------------------------- the edges of the window

theorem unnamed_rejected :
    ∃ headers, signRequest plainMac.toMac "" [7] plainBody epoch =
        .ok headers ∧
      verifyRequest plainPlatform plainMac.toMac headers plainBody
        (fun _ => some [7]) epoch replayWindowSeconds =
        .ok (rejected none .missingTenantId none) := by
  refine ⟨signedHeaders "" "0" (plainSignature "0"), rfl, ?_⟩
  unfold verifyRequest
  rw [header_unnamed]

/-- A clock at two to the sixtieth, where floats lie 256 apart. -/
def farClock : Float64 :=
  seconds (2 ^ 60) (by decide) ⟨1, 60, by decide, by decide, by norm_num⟩

/-- There a timestamp 301 seconds on has capacity requested. -/
theorem late_accepted :
    ∃ (r : Request) (n : Int), header plainPlatform r.headers headerTimestamp =
        some "1152921504606847277" ∧
      pyInt plainPlatform "1152921504606847277" = some n ∧
      (replayWindowSeconds : ℚ) < |r.now.val - n| ∧
      Effect.requestCapacity "t1" ∈ ((JobDispatcher.init.handleWebhook
        plainIntake plainConfig r granted).1.effects) := by
  have hint : pyInt plainPlatform "1152921504606847277" =
      some (2 ^ 60 + 301) := by decide +kernel
  have hdifference : farClock.minusInt (2 ^ 60 + 301) = .ok (some (-256)) := by
    decide +kernel
  have hnear : farClock.Near replayWindowSeconds (2 ^ 60 + 301) :=
    ⟨-256, hdifference, by norm_num [replayWindowSeconds]⟩
  refine ⟨requestAt "1152921504606847277"
    (plainSignature "1152921504606847277") farClock, 2 ^ 60 + 301, ?_, hint,
    ?_, ?_⟩
  · exact (presents_signed plainPlatform (by decide) (by decide)
      (plainMac.ne_empty _ _)).timestamp
  · show (replayWindowSeconds : ℚ) <
      |((2 ^ 60 : Int) : ℚ) - ((2 ^ 60 + 301 : Int) : ℚ)|
    norm_num [replayWindowSeconds]
  · exact capacity_requested
      (requestAt_ok hint (by decide) (by decide) hnear)

/-- A clock a second before the epoch. -/
def earlyClock : Float64 :=
  seconds (-1) (by decide) (Data.binary_intCast (by decide))

/-- A clock past two to the fifty-third, where floats lie 2 apart. -/
def wideClock : Float64 :=
  seconds (2 ^ 53 + 2) (by decide)
    ⟨2 ^ 52 + 1, 1, by decide, by decide, by norm_num⟩

/-- Between the two lies a window that no float is: what is signed at the
one is rejected at the other. -/
theorem wide_rejected :
    ∃ headers, signRequest plainMac.toMac "t1" [7] plainBody earlyClock =
        .ok headers ∧
      |wideClock.val - earlyClock.toInt| ≤ ((2 ^ 53 + 3 : Int) : ℚ) ∧
      ∃ v, verifyRequest plainPlatform plainMac.toMac headers plainBody
        plainIntake.secretLookup wideClock (2 ^ 53 + 3) = .ok v ∧
        v.ok = false := by
  have hint : pyInt plainPlatform "-1" = some (-1) := by decide +kernel
  have hfar : ¬ wideClock.Near (2 ^ 53 + 3) (-1) := by
    have hdifference : wideClock.minusInt (-1) = .ok (some (2 ^ 53 + 4)) := by
      decide +kernel
    rw [near_iff hdifference]
    decide +kernel
  have hold : ¬ Current plainPlatform wideClock (2 ^ 53 + 3) "-1" := by
    rintro ⟨n, hn, hnear⟩
    rw [← Option.some.inj (hint.symm.trans hn)] at hnear
    exact hfar hnear
  have hpresents : Presents plainPlatform
      (signedHeaders "t1" "-1" (plainSignature "-1")) "t1" "-1"
      (plainSignature "-1") :=
    presents_signed plainPlatform (by decide) (by decide)
      (plainMac.ne_empty _ _)
  refine ⟨signedHeaders "t1" "-1" (plainSignature "-1"), rfl, ?_, ?_⟩
  · show |((2 ^ 53 + 2 : Int) : ℚ) - ((-1 : Int) : ℚ)| ≤ _
    norm_num
  rcases verify_cases plainPlatform plainMac.toMac
    (signedHeaders "t1" "-1" (plainSignature "-1")) plainBody
    plainIntake.secretLookup wideClock (2 ^ 53 + 3) with
    ⟨t, ts, s, _, h, hcurrent, _⟩ | ⟨hrejected, _⟩ |
      ⟨_, t, ts, s, h, ⟨n, hn, hinf⟩ | ⟨hcurrent, _⟩⟩
  · obtain ⟨-, rfl, -⟩ := hpresents.unique h
    exact absurd hcurrent hold
  · exact hrejected
  · obtain ⟨-, rfl, -⟩ := hpresents.unique h
    rw [← Option.some.inj (hint.symm.trans hn)] at hinf
    exact absurd hinf (by decide +kernel)
  · obtain ⟨-, rfl, -⟩ := hpresents.unique h
    exact absurd hcurrent hold

/-- What is signed for no tenant is refused; far from the epoch a
timestamp outside the window is dispatched; and one inside a window of
more than 53 bits is rejected. -/
theorem dispatch_edges :
    (∃ headers, signRequest plainMac.toMac "" [7] plainBody epoch =
        .ok headers ∧
      verifyRequest plainPlatform plainMac.toMac headers plainBody
        (fun _ => some [7]) epoch replayWindowSeconds =
        .ok (rejected none .missingTenantId none)) ∧
    (∃ (r : Request) (n : Int), header plainPlatform r.headers
        headerTimestamp = some "1152921504606847277" ∧
      pyInt plainPlatform "1152921504606847277" = some n ∧
      (replayWindowSeconds : ℚ) < |r.now.val - n| ∧
      Effect.requestCapacity "t1" ∈ ((JobDispatcher.init.handleWebhook
        plainIntake plainConfig r granted).1.effects)) ∧
    ∃ headers, signRequest plainMac.toMac "t1" [7] plainBody earlyClock =
        .ok headers ∧
      |wideClock.val - earlyClock.toInt| ≤ ((2 ^ 53 + 3 : Int) : ℚ) ∧
      ∃ v, verifyRequest plainPlatform plainMac.toMac headers plainBody
        plainIntake.secretLookup wideClock (2 ^ 53 + 3) = .ok v ∧
        v.ok = false :=
  ⟨unnamed_rejected, late_accepted, wide_rejected⟩

/-- A signature with an accent, of a known tenant, raises what no rejection
is. -/
theorem accent_crashes : ¬ FailsClosed plainIntake plainConfig .init
    (requestSigned "é") granted := by
  have hgarbled : plainIntake.Crashes (requestSigned "é") := by
    refine Or.inl ⟨"t1", "1700000000", "é", presents_signed plainPlatform
      (by decide) (by decide) (by decide), Or.inr ⟨?_, Option.some_ne_none _,
      Or.inr (by decide)⟩⟩
    exact ⟨1700000000, by decide +kernel, plainRequest_near⟩
  rintro ⟨hrejects, _⟩
  rcases intake_cases plainIntake (requestSigned "é") with
    ⟨_, _, _, _, _, _, _, _, hno⟩ | ⟨_, hno⟩ | ⟨⟨e, heq⟩, _⟩
  · exact hno hgarbled
  · exact hno hgarbled
  · rw [heq] at hrejects
    rcases hrejects with ⟨t, h⟩ | ⟨u, h⟩ | ⟨u, h⟩ <;> cases h

end SdlcOs.Dispatch
