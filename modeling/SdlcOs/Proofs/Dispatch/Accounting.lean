/-
What becomes of a trigger.

A dispatch takes a trigger and does one of three things with it
(`dispatch_cases`): a run is created for it, it goes to the end of its
tenant's queue, or it is gone. It is gone exactly when the provider
raises, or grants capacity and no run comes of it (`Fulfilled`). A retry
has popped its trigger before, so that what a retry does not fulfil was
queued and is not any more.

# Order

A retry that finds no capacity puts the queue's head at its end. With one
trigger queued nothing moves; with more the head falls behind all that
arrived after it (`failed_retry_overtaken`).
-/
import SdlcOs.Proofs.Dispatch.Intake

namespace SdlcOs.Dispatch

open Data (Dict)
open Json (Json)

variable {φ : Type}

-- ==== the queue

namespace TenantTriggerQueue

variable {α : Type} (q : TenantTriggerQueue α)

@[simp] theorem items_enqueue_self (tenantId : String) (item : α) :
    (q.enqueue tenantId item).items tenantId = q.items tenantId ++ [item] := by
  unfold enqueue items
  rw [Dict.get_set_self]
  rfl

theorem items_enqueue_ne {tenantId other : String} (h : other ≠ tenantId)
    (item : α) : (q.enqueue tenantId item).items other = q.items other := by
  unfold enqueue items
  rw [Dict.get_set_ne _ h]

theorem retryNext_cases (tenantId : String) :
    (q.items tenantId = [] ∧ q.retryNext tenantId = (q, none)) ∨
    ∃ item rest q', q.items tenantId = item :: rest ∧
      q.retryNext tenantId = (q', some item) ∧ q'.items tenantId = rest ∧
      ∀ other, other ≠ tenantId → q'.items other = q.items other := by
  unfold retryNext
  cases hitems : q.items tenantId with
  | nil => exact Or.inl ⟨rfl, rfl⟩
  | cons item rest =>
    refine Or.inr ⟨item, rest, _, rfl, rfl, ?_, ?_⟩
    · unfold items
      rw [Dict.get_set_self]
      rfl
    · intro other hne
      unfold items
      rw [Dict.get_set_ne _ hne]

end TenantTriggerQueue

-- ==== dispatch

/-- The arrival whose run an effect created. -/
def Effect.creates : Effect φ → Option Nat
  | .createRun t _ answer => if answer.created then some t.arrival else none
  | _ => none

/-- The provider answers, and where it grants capacity a run is created:
there is a capacity class, a branch and a trace id, and the registry makes
the run. -/
def Fulfilled (cfg : Config φ) (w : Outside φ) (t : Trigger φ) : Prop :=
  ∃ r, w.capacity = some r ∧ (r.isAvailable = true →
    ∃ args, createRunArgs cfg w t r = .ok args ∧
      (w.registry args).created = true)

/-- The provider answers that there is no capacity. -/
def NoCapacity (w : Outside φ) : Prop :=
  ∃ r, w.capacity = some r ∧ r.isAvailable = false

variable {cfg : Config φ} {w : Outside φ}

theorem createRun_creates (cfg : Config φ) (w : Outside φ) (t : Trigger φ)
    (r : CapacityResult) :
    ((createRun cfg w t r).1.filterMap Effect.creates = [t.arrival] ∧
      ∃ args, createRunArgs cfg w t r = .ok args ∧
        (w.registry args).created = true) ∨
    ((createRun cfg w t r).1.filterMap Effect.creates = [] ∧
      ¬ ∃ args, createRunArgs cfg w t r = .ok args ∧
        (w.registry args).created = true) := by
  unfold createRun
  cases hargs : createRunArgs cfg w t r with
  | error e =>
    refine Or.inr ⟨rfl, ?_⟩
    rintro ⟨args, h, _⟩
    cases h
  | ok args =>
    have hiff : (∃ args', (.ok args : Except DispatchError _) = .ok args' ∧
        (w.registry args').created = true) ↔
        (w.registry args).created = true := by
      constructor
      · rintro ⟨args', h, hcreated⟩
        rw [Except.ok.inj h]
        exact hcreated
      · exact fun h => ⟨args, rfl, h⟩
    rw [hiff]
    cases hanswer : w.registry args with
    | fail message =>
      refine Or.inr ⟨?_, Bool.false_ne_true⟩
      simp only [hanswer]
      rfl
    | raised created =>
      simp only [hanswer]
      cases created with
      | false => exact Or.inr ⟨rfl, Bool.false_ne_true⟩
      | true => exact Or.inl ⟨rfl, rfl⟩
    | ok run =>
      refine Or.inl ⟨?_, rfl⟩
      simp only [hanswer]
      split <;> rfl

theorem queueAndNotify_spec (cfg : Config φ) (w : Outside φ)
    (q : TenantTriggerQueue (Trigger φ)) (t : Trigger φ)
    (r : CapacityResult) :
    (queueAndNotify cfg w q t r).queue = q.enqueue t.resolved.tenantId t ∧
    (queueAndNotify cfg w q t r).effects.filterMap Effect.creates = [] := by
  unfold queueAndNotify
  cases w.jiraClient with
  | none => exact ⟨rfl, rfl⟩
  | some answer =>
    cases answer with
    | none => exact ⟨rfl, rfl⟩
    | some commentPosted =>
      show (if cfg.hasObservability then _ else _ : Dispatched φ).queue =
        _ ∧ _
      split <;> exact ⟨rfl, rfl⟩

theorem dispatch_available {r : CapacityResult} (h : w.capacity = some r)
    (havailable : r.isAvailable = true) (q : TenantTriggerQueue (Trigger φ))
    (t : Trigger φ) : dispatch cfg w q t =
      ⟨q, .requestCapacity t.resolved.tenantId :: (createRun cfg w t r).1,
        (createRun cfg w t r).2⟩ := by
  unfold dispatch
  rw [h]
  exact if_pos havailable

theorem dispatch_unavailable {r : CapacityResult} (h : w.capacity = some r)
    (havailable : r.isAvailable = false) (q : TenantTriggerQueue (Trigger φ))
    (t : Trigger φ) : dispatch cfg w q t =
      ⟨(queueAndNotify cfg w q t r).queue,
        .requestCapacity t.resolved.tenantId ::
          (queueAndNotify cfg w q t r).effects,
        (queueAndNotify cfg w q t r).result⟩ := by
  unfold dispatch
  rw [h]
  show (if r.isAvailable then _ else _ : Dispatched φ) = _
  rw [havailable]
  rfl

/-- A run is created, or the trigger is queued, or it is gone. -/
theorem dispatch_cases (cfg : Config φ) (w : Outside φ)
    (q : TenantTriggerQueue (Trigger φ)) (t : Trigger φ) :
    ((dispatch cfg w q t).queue = q ∧
      (dispatch cfg w q t).effects.filterMap Effect.creates = [t.arrival] ∧
      Fulfilled cfg w t ∧ ¬ NoCapacity w) ∨
    ((dispatch cfg w q t).queue = q.enqueue t.resolved.tenantId t ∧
      (dispatch cfg w q t).effects.filterMap Effect.creates = [] ∧
      Fulfilled cfg w t ∧ NoCapacity w) ∨
    ((dispatch cfg w q t).queue = q ∧
      (dispatch cfg w q t).effects.filterMap Effect.creates = [] ∧
      ¬ Fulfilled cfg w t ∧ ¬ NoCapacity w) := by
  unfold Fulfilled NoCapacity
  cases hcap : w.capacity with
  | none =>
    have heq : dispatch cfg w q t =
        ⟨q, [.requestCapacity t.resolved.tenantId], .error .capacity⟩ := by
      unfold dispatch
      rw [hcap]
    rw [heq]
    refine Or.inr (Or.inr ⟨rfl, rfl, ?_, ?_⟩)
    · rintro ⟨r, h, _⟩
      cases h
    · rintro ⟨r, h, _⟩
      cases h
  | some r =>
    cases havailable : r.isAvailable with
    | true =>
      have hno : ¬ ∃ r', some r = some r' ∧ r'.isAvailable = false := by
        rintro ⟨r', h, hfalse⟩
        rw [← Option.some.inj h, havailable] at hfalse
        cases hfalse
      have hfull : (∃ r', some r = some r' ∧ (r'.isAvailable = true →
          ∃ args, createRunArgs cfg w t r' = .ok args ∧
            (w.registry args).created = true)) ↔
          ∃ args, createRunArgs cfg w t r = .ok args ∧
            (w.registry args).created = true := by
        constructor
        · rintro ⟨r', h, himp⟩
          obtain rfl := Option.some.inj h
          exact himp havailable
        · exact fun h => ⟨r, rfl, fun _ => h⟩
      rw [hfull, dispatch_available hcap havailable]
      rcases createRun_creates cfg w t r with
        ⟨hcreates, hmade⟩ | ⟨hcreates, hnot⟩
      · exact Or.inl ⟨rfl, hcreates, hmade, hno⟩
      · exact Or.inr (Or.inr ⟨rfl, hcreates, hnot, hno⟩)
    | false =>
      obtain ⟨hqueue, hcreates⟩ :=
        queueAndNotify_spec cfg w q t r
      rw [dispatch_unavailable hcap havailable]
      refine Or.inr (Or.inl ⟨hqueue, hcreates, ⟨r, rfl, ?_⟩,
        r, rfl, havailable⟩)
      intro htrue
      rw [havailable] at htrue
      cases htrue

-- ==== the calls

/-- The condition under which a call keeps its trigger: what it
dispatches, if anything, is fulfilled. -/
def Honoured (ic : IntakeConfig φ) (cfg : Config φ) (d : JobDispatcher φ) :
    Call φ → Prop
  | .handleWebhook r w => ∀ resolved, ic.intake r = .ok resolved →
      Fulfilled cfg w ⟨d.arrivals, resolved⟩
  | .retryQueued tenantId w => ∀ t rest,
      d.queue.items tenantId = t :: rest → Fulfilled cfg w t

variable {ic : IntakeConfig φ} {d : JobDispatcher φ}

/-- What a call does: nothing, or it dispatches a trigger that is new, or
one that was first in its tenant's queue. -/
theorem call_cases (ic : IntakeConfig φ) (cfg : Config φ)
    (d : JobDispatcher φ) (c : Call φ) :
    (d.call ic cfg c = ⟨d, none, []⟩ ∧ Honoured ic cfg d c) ∨
    (∃ r w resolved, c = .handleWebhook r w ∧ ic.intake r = .ok resolved ∧
      d.call ic cfg c =
        ⟨⟨(dispatch cfg w d.queue ⟨d.arrivals, resolved⟩).queue,
          d.arrivals + 1⟩, some ⟨d.arrivals, resolved⟩,
          (dispatch cfg w d.queue ⟨d.arrivals, resolved⟩).effects⟩ ∧
      (Honoured ic cfg d c ↔ Fulfilled cfg w ⟨d.arrivals, resolved⟩)) ∨
    (∃ tenantId w t rest q, c = .retryQueued tenantId w ∧
      d.queue.items tenantId = t :: rest ∧ q.items tenantId = rest ∧
      (∀ other, other ≠ tenantId → q.items other = d.queue.items other) ∧
      d.call ic cfg c = ⟨⟨(dispatch cfg w q t).queue, d.arrivals⟩, some t,
        (dispatch cfg w q t).effects⟩ ∧
      (Honoured ic cfg d c ↔ Fulfilled cfg w t)) := by
  cases c with
  | handleWebhook r w =>
    cases hintake : ic.intake r with
    | error e =>
      refine Or.inl ⟨?_, ?_⟩
      · show (d.handleWebhook ic cfg r w).1 = _
        unfold JobDispatcher.handleWebhook
        rw [hintake]
      · intro resolved h
        rw [hintake] at h
        cases h
    | ok resolved =>
      refine Or.inr (Or.inl ⟨r, w, resolved, rfl, hintake, ?_, ?_⟩)
      · show (d.handleWebhook ic cfg r w).1 = _
        unfold JobDispatcher.handleWebhook
        rw [hintake]
      · constructor
        · exact fun h => h resolved hintake
        · intro h resolved' h'
          rw [← Except.ok.inj (hintake.symm.trans h')]
          exact h
  | retryQueued tenantId w =>
    rcases d.queue.retryNext_cases tenantId with ⟨hnil, hnext⟩ |
      ⟨t, rest, q, hitems, hnext, hrest, hothers⟩
    · refine Or.inl ⟨?_, ?_⟩
      · show (d.retryQueued cfg tenantId w).1 = _
        unfold JobDispatcher.retryQueued
        rw [hnext]
      · intro t rest h
        rw [hnil] at h
        cases h
    · refine Or.inr (Or.inr ⟨tenantId, w, t, rest, q, rfl, hitems, hrest,
        hothers, ?_, ?_⟩)
      · show (d.retryQueued cfg tenantId w).1 = _
        unfold JobDispatcher.retryQueued
        rw [hnext]
      · constructor
        · exact fun h => h t rest hitems
        · intro h t' rest' h'
          rw [hitems] at h'
          rw [← (List.cons.inj h').1]
          exact h

theorem JobDispatcher.run_snoc (ic : IntakeConfig φ) (cfg : Config φ)
    (d : JobDispatcher φ) (calls : List (Call φ)) (c : Call φ) :
    d.run ic cfg (calls ++ [c]) =
      (((d.run ic cfg calls).1.call ic cfg c).dispatcher,
        (d.run ic cfg calls).2 ++ [(c, (d.run ic cfg calls).1.call ic cfg c)])
    := by
  unfold JobDispatcher.run
  rw [List.foldl_append]
  rfl

-- ==== the accounting

/-- The trigger a request brought. -/
def brought : Call φ × Handled φ → Option (Trigger φ)
  | (.handleWebhook _ _, h) => h.trigger
  | (.retryQueued _ _, _) => none

/-- The triggers that got past the intake. -/
def arrived (trail : List (Call φ × Handled φ)) : List (Trigger φ) :=
  trail.filterMap brought

/-- The arrivals that runs were created for. -/
def created (trail : List (Call φ × Handled φ)) : List Nat :=
  trail.flatMap fun e => e.2.effects.filterMap Effect.creates

/-- How often a trigger is in its tenant's queue. -/
def queued (q : TenantTriggerQueue (Trigger φ)) (t : Trigger φ) : Nat :=
  (q.items t.resolved.tenantId).countP (·.arrival = t.arrival)

/-- Every trigger that got past the intake is queued once, or a run was
created for it once, and not both. -/
def Accounted (d : JobDispatcher φ) (trail : List (Call φ × Handled φ)) :
    Prop :=
  ∀ t ∈ arrived trail,
    queued d.queue t + (created trail).count t.arrival = 1

/-- Arrivals number the triggers, and only those that arrived are queued,
each for its tenant. -/
structure Numbered (d : JobDispatcher φ) (trail : List (Call φ × Handled φ)) :
    Prop where
  below : ∀ t ∈ arrived trail, t.arrival < d.arrivals
  distinct : ∀ t ∈ arrived trail, ∀ t' ∈ arrived trail,
    t.arrival = t'.arrival → t = t'
  queues : ∀ tenantId, ∀ t ∈ d.queue.items tenantId,
    t ∈ arrived trail ∧ t.resolved.tenantId = tenantId
  createds : ∀ n ∈ created trail, n < d.arrivals

variable {trail : List (Call φ × Handled φ)}

theorem arrived_snoc (e : Call φ × Handled φ) :
    arrived (trail ++ [e]) = arrived trail ++ (brought e).toList := by
  unfold arrived
  rw [List.filterMap_append]
  cases h : brought e with
  | none => rw [List.filterMap_cons_none h]; rfl
  | some t => rw [List.filterMap_cons_some h]; rfl

theorem created_snoc (e : Call φ × Handled φ) :
    created (trail ++ [e]) =
      created trail ++ e.2.effects.filterMap Effect.creates := by
  unfold created
  rw [List.flatMap_append, List.flatMap_singleton]

/-- A trigger queued at the end is queued once more, any other as often
as before. -/
theorem queued_enqueue (q : TenantTriggerQueue (Trigger φ))
    (t t' : Trigger φ) :
    queued (q.enqueue t.resolved.tenantId t) t' = queued q t' +
      if t.resolved.tenantId = t'.resolved.tenantId ∧ t.arrival = t'.arrival
      then 1 else 0 := by
  unfold queued
  by_cases htenant : t'.resolved.tenantId = t.resolved.tenantId
  · rw [htenant, TenantTriggerQueue.items_enqueue_self, List.countP_append,
      List.countP_singleton]
    by_cases harrival : t.arrival = t'.arrival
    · rw [if_pos (decide_eq_true harrival), if_pos ⟨rfl, harrival⟩]
    · rw [if_neg (by simpa using harrival), if_neg fun h => harrival h.2]
  · rw [TenantTriggerQueue.items_enqueue_ne _ htenant,
      if_neg fun h => htenant h.1.symm]
    rfl

/-- A trigger taken out of the books is back in them after its dispatch
exactly when it is fulfilled. -/
theorem dispatch_accounted (q : TenantTriggerQueue (Trigger φ))
    {t : Trigger φ} {ts : List (Trigger φ)} {runs : List Nat} (hmem : t ∈ ts)
    (hdistinct : ∀ t' ∈ ts, t.arrival = t'.arrival → t = t')
    (hqueued : queued q t = 0) (hruns : runs.count t.arrival = 0)
    (hothers : ∀ t' ∈ ts, t ≠ t' →
      queued q t' + runs.count t'.arrival = 1) :
    (∀ t' ∈ ts, queued (dispatch cfg w q t).queue t' +
      (runs ++ (dispatch cfg w q t).effects.filterMap
        Effect.creates).count t'.arrival = 1) ↔ Fulfilled cfg w t := by
  rcases dispatch_cases cfg w q t with ⟨hq, hcreates, hfull, _⟩ |
    ⟨hq, hcreates, hfull, _⟩ | ⟨hq, hcreates, hnot, _⟩
  · rw [hq, hcreates]
    refine iff_of_true ?_ hfull
    intro t' ht'
    rw [List.count_append, List.count_singleton]
    by_cases hsame : t = t'
    · subst hsame
      rw [hqueued, hruns, if_pos (beq_self_eq_true _)]
    · have hne : t.arrival ≠ t'.arrival := fun h => hsame (hdistinct t' ht' h)
      rw [if_neg (by simpa using hne), Nat.add_zero]
      exact hothers t' ht' hsame
  · rw [hq, hcreates, List.append_nil]
    refine iff_of_true ?_ hfull
    intro t' ht'
    rw [queued_enqueue]
    by_cases hsame : t = t'
    · subst hsame
      rw [hqueued, hruns, if_pos ⟨rfl, rfl⟩]
    · have hne : t.arrival ≠ t'.arrival := fun h => hsame (hdistinct t' ht' h)
      rw [if_neg fun h => hne h.2, Nat.add_zero]
      exact hothers t' ht' hsame
  · rw [hq, hcreates, List.append_nil]
    refine iff_of_false ?_ hnot
    intro h
    have := h t hmem
    omega

theorem mem_dispatch {q : TenantTriggerQueue (Trigger φ)} {t t' : Trigger φ}
    {tenantId : String}
    (h : t' ∈ (dispatch cfg w q t).queue.items tenantId) :
    t' ∈ q.items tenantId ∨ (t' = t ∧ t.resolved.tenantId = tenantId) := by
  rcases dispatch_cases cfg w q t with ⟨hq, _⟩ | ⟨hq, _⟩ | ⟨hq, _⟩
  · rw [hq] at h
    exact Or.inl h
  · rw [hq] at h
    by_cases htenant : tenantId = t.resolved.tenantId
    · rw [htenant, TenantTriggerQueue.items_enqueue_self] at h
      rcases List.mem_append.1 h with h | h
      · exact Or.inl (htenant ▸ h)
      · exact Or.inr ⟨List.mem_singleton.1 h, htenant.symm⟩
    · rw [TenantTriggerQueue.items_enqueue_ne _ htenant] at h
      exact Or.inl h
  · rw [hq] at h
    exact Or.inl h

theorem mem_creates {q : TenantTriggerQueue (Trigger φ)} {t : Trigger φ}
    {n : Nat} (h : n ∈ (dispatch cfg w q t).effects.filterMap
      Effect.creates) : n = t.arrival := by
  rcases dispatch_cases cfg w q t with ⟨_, hc, _⟩ | ⟨_, hc, _⟩ | ⟨_, hc, _⟩
  · rw [hc] at h
    exact List.mem_singleton.1 h
  · rw [hc] at h
    cases h
  · rw [hc] at h
    cases h

/-- The books before a call and after. -/
structure Stepped (ic : IntakeConfig φ) (cfg : Config φ) (d : JobDispatcher φ)
    (trail : List (Call φ × Handled φ)) (c : Call φ) : Prop where
  numbered : Numbered (d.call ic cfg c).dispatcher
    (trail ++ [(c, d.call ic cfg c)])
  accounted : Accounted d trail →
    (Accounted (d.call ic cfg c).dispatcher (trail ++ [(c, d.call ic cfg c)]) ↔
      Honoured ic cfg d c)

theorem idle_step (h : Numbered d trail) {c : Call φ}
    (hcall : d.call ic cfg c = ⟨d, none, []⟩) (hon : Honoured ic cfg d c) :
    Stepped ic cfg d trail c := by
  have hbrought : brought (c, (⟨d, none, []⟩ : Handled φ)) = none := by
    cases c <;> rfl
  have harrived : arrived (trail ++ [(c, ⟨d, none, []⟩)]) = arrived trail := by
    rw [arrived_snoc, hbrought]
    exact List.append_nil _
  have hcreated : created (trail ++ [(c, ⟨d, none, []⟩)]) = created trail := by
    rw [created_snoc]
    exact List.append_nil _
  rw [← hcall] at harrived hcreated
  constructor
  · refine ⟨?_, ?_, ?_, ?_⟩
    · rw [harrived, hcall]
      exact h.below
    · rw [harrived]
      exact h.distinct
    · rw [harrived, hcall]
      exact h.queues
    · rw [hcreated, hcall]
      exact h.createds
  · intro hacc
    refine iff_of_true ?_ hon
    unfold Accounted
    rw [harrived, hcreated, hcall]
    exact hacc

theorem queued_zero {q : TenantTriggerQueue (Trigger φ)} {t : Trigger φ}
    (h : ∀ t' ∈ q.items t.resolved.tenantId, t'.arrival ≠ t.arrival) :
    queued q t = 0 := by
  unfold queued
  rw [List.countP_eq_zero]
  intro t' ht'
  simpa using h t' ht'

theorem webhook_step (h : Numbered d trail) {c : Call φ} {r : Request}
    {w : Outside φ} {resolved : ResolvedTrigger φ}
    (hc : c = .handleWebhook r w)
    (hcall : d.call ic cfg c =
      ⟨⟨(dispatch cfg w d.queue ⟨d.arrivals, resolved⟩).queue,
        d.arrivals + 1⟩, some ⟨d.arrivals, resolved⟩,
        (dispatch cfg w d.queue ⟨d.arrivals, resolved⟩).effects⟩)
    (hon : Honoured ic cfg d c ↔ Fulfilled cfg w ⟨d.arrivals, resolved⟩) :
    Stepped ic cfg d trail c := by
  subst hc
  obtain ⟨t, ht⟩ : ∃ t : Trigger φ, t = ⟨d.arrivals, resolved⟩ := ⟨_, rfl⟩
  have harr : t.arrival = d.arrivals := congrArg Trigger.arrival ht
  rw [← ht] at hcall hon
  have harrived : arrived (trail ++ [(.handleWebhook r w,
      d.call ic cfg (.handleWebhook r w))]) = arrived trail ++ [t] := by
    rw [arrived_snoc, hcall]
    rfl
  have hcreated : created (trail ++ [(.handleWebhook r w,
      d.call ic cfg (.handleWebhook r w))]) = created trail ++
      (dispatch cfg w d.queue t).effects.filterMap Effect.creates := by
    rw [created_snoc, hcall]
  have hfresh : ∀ t' ∈ arrived trail, t'.arrival ≠ t.arrival := by
    intro t' ht'
    have := h.below t' ht'
    omega
  have hdistinct : ∀ t' ∈ arrived trail ++ [t], t.arrival = t'.arrival →
      t = t' := by
    intro t' ht' hsame
    rcases List.mem_append.1 ht' with ht' | ht'
    · exact absurd hsame.symm (hfresh t' ht')
    · exact (List.mem_singleton.1 ht').symm
  constructor
  · refine ⟨?_, ?_, ?_, ?_⟩
    · rw [harrived, hcall]
      intro t' ht'
      show t'.arrival < d.arrivals + 1
      rcases List.mem_append.1 ht' with ht' | ht'
      · have := h.below t' ht'
        omega
      · rw [List.mem_singleton.1 ht', harr]
        exact Nat.lt_succ_self _
    · rw [harrived]
      intro t₁ h₁ t₂ h₂ hsame
      rcases List.mem_append.1 h₁ with h₁ | h₁
      · rcases List.mem_append.1 h₂ with h₂ | h₂
        · exact h.distinct t₁ h₁ t₂ h₂ hsame
        · rw [List.mem_singleton.1 h₂] at hsame
          exact absurd hsame (hfresh t₁ h₁)
      · rw [List.mem_singleton.1 h₁] at hsame ⊢
        exact hdistinct t₂ h₂ hsame
    · rw [harrived, hcall]
      intro tenantId t' ht'
      rcases mem_dispatch ht' with ht' | ⟨rfl, htenant⟩
      · obtain ⟨hmem, htenant⟩ := h.queues tenantId t' ht'
        exact ⟨List.mem_append_left _ hmem, htenant⟩
      · exact ⟨List.mem_append_right _ (List.mem_singleton.2 rfl), htenant⟩
    · rw [hcreated, hcall]
      intro n hn
      show n < d.arrivals + 1
      rcases List.mem_append.1 hn with hn | hn
      · have := h.createds n hn
        omega
      · rw [mem_creates hn, harr]
        exact Nat.lt_succ_self _
  · intro hacc
    rw [hon]
    unfold Accounted
    rw [harrived, hcreated, hcall]
    refine dispatch_accounted d.queue
      (List.mem_append_right _ (List.mem_singleton.2 rfl)) hdistinct ?_ ?_ ?_
    · refine queued_zero fun t' ht' => ?_
      exact hfresh t' (h.queues _ t' ht').1
    · refine List.count_eq_zero.2 fun hmem => ?_
      have := h.createds _ hmem
      omega
    · intro t' ht' hne
      rcases List.mem_append.1 ht' with ht' | ht'
      · exact hacc t' ht'
      · exact absurd (List.mem_singleton.1 ht').symm hne

theorem retry_step (h : Numbered d trail) {c : Call φ} {tenantId : String}
    {w : Outside φ} {t : Trigger φ} {rest : List (Trigger φ)}
    {q : TenantTriggerQueue (Trigger φ)} (hc : c = .retryQueued tenantId w)
    (hitems : d.queue.items tenantId = t :: rest)
    (hrest : q.items tenantId = rest)
    (hothers : ∀ other, other ≠ tenantId →
      q.items other = d.queue.items other)
    (hcall : d.call ic cfg c = ⟨⟨(dispatch cfg w q t).queue, d.arrivals⟩,
      some t, (dispatch cfg w q t).effects⟩)
    (hon : Honoured ic cfg d c ↔ Fulfilled cfg w t) :
    Stepped ic cfg d trail c := by
  subst hc
  obtain ⟨hmem, htenant⟩ :=
    h.queues tenantId t (hitems ▸ List.mem_cons_self ..)
  have harrived : arrived (trail ++ [(.retryQueued tenantId w,
      d.call ic cfg (.retryQueued tenantId w))]) = arrived trail := by
    rw [arrived_snoc]
    exact List.append_nil _
  have hcreated : created (trail ++ [(.retryQueued tenantId w,
      d.call ic cfg (.retryQueued tenantId w))]) = created trail ++
      (dispatch cfg w q t).effects.filterMap Effect.creates := by
    rw [created_snoc, hcall]
  have hsub : ∀ other, ∀ t' ∈ q.items other, t' ∈ d.queue.items other := by
    intro other t' ht'
    by_cases hother : other = tenantId
    · rw [hother, hrest] at ht'
      rw [hother, hitems]
      exact List.mem_cons_of_mem _ ht'
    · rwa [hothers other hother] at ht'
  constructor
  · refine ⟨?_, ?_, ?_, ?_⟩
    · rw [harrived, hcall]
      exact h.below
    · rw [harrived]
      exact h.distinct
    · rw [harrived, hcall]
      intro other t' ht'
      rcases mem_dispatch ht' with ht' | ⟨rfl, hother⟩
      · exact h.queues other t' (hsub other t' ht')
      · exact ⟨hmem, hother⟩
    · rw [hcreated, hcall]
      intro n hn
      rcases List.mem_append.1 hn with hn | hn
      · exact h.createds n hn
      · rw [mem_creates hn]
        exact h.below t hmem
  · intro hacc
    -- The trigger is counted once in the queue, at its head: past the head
    -- it is not there, and no run was created for it.
    have hself := hacc t hmem
    unfold queued at hself
    rw [htenant, hitems, List.countP_cons_of_pos (by simp)] at hself
    rw [hon]
    unfold Accounted
    rw [harrived, hcreated, hcall]
    refine dispatch_accounted q hmem (fun t' ht' => h.distinct t hmem t' ht')
      ?_ (by omega) ?_
    · unfold queued
      rw [htenant, hrest]
      omega
    · intro t' ht' hne
      have hne' : t.arrival ≠ t'.arrival := fun hsame =>
        hne (h.distinct t hmem t' ht' hsame)
      rw [← hacc t' ht']
      congr 1
      unfold queued
      by_cases hother : t'.resolved.tenantId = tenantId
      · rw [hother, hrest, hitems,
          List.countP_cons_of_neg (by simpa using hne')]
      · rw [hothers _ hother]

theorem call_step (ic : IntakeConfig φ) (cfg : Config φ)
    (h : Numbered d trail) (c : Call φ) :
    Stepped ic cfg d trail c := by
  rcases call_cases ic cfg d c with ⟨hcall, hon⟩ |
    ⟨r, w, resolved, hc, _, hcall, hon⟩ |
    ⟨tenantId, w, t, rest, q, hc, hitems, hrest, hothers, hcall, hon⟩
  · exact idle_step h hcall hon
  · exact webhook_step h hc hcall hon
  · exact retry_step h hc hitems hrest hothers hcall hon

theorem run_numbered (ic : IntakeConfig φ) (cfg : Config φ)
    (calls : List (Call φ)) :
    Numbered (JobDispatcher.init.run ic cfg calls).1
      (JobDispatcher.init.run ic cfg calls).2 := by
  induction calls using List.reverseRecOn with
  | nil =>
    refine ⟨?_, ?_, ?_, ?_⟩
    · intro t h; cases h
    · intro t h; cases h
    · intro tenantId t h; cases h
    · intro n h; cases h
  | append_singleton calls c ih =>
    rw [JobDispatcher.run_snoc]
    exact (call_step ic cfg ih c).numbered

/-- In any run every trigger past the intake is accounted for after each
call exactly when each call fulfils what it dispatches. -/
theorem triggers_accounted (ic : IntakeConfig φ) (cfg : Config φ)
    (calls : List (Call φ)) :
    (∀ done, done <+: calls →
      Accounted (JobDispatcher.init.run ic cfg done).1
        (JobDispatcher.init.run ic cfg done).2) ↔
    ∀ done c, done ++ [c] <+: calls →
      Honoured ic cfg (JobDispatcher.init.run ic cfg done).1 c := by
  induction calls using List.reverseRecOn with
  | nil =>
    refine iff_of_true ?_ ?_
    · intro done hdone
      rw [List.prefix_nil.1 hdone]
      intro t ht
      cases ht
    · intro done c h
      exact absurd (List.prefix_nil.1 h) (by simp)
  | append_singleton calls c ih =>
    have hstep := call_step ic cfg (run_numbered ic cfg calls) c
    constructor
    · intro h
      have hcalls := ih.1 fun done hdone =>
        h done (hdone.trans (List.prefix_append _ _))
      intro done c' hpre
      rcases List.prefix_concat_iff.1 hpre with heq | hpre
      · obtain ⟨rfl, hc⟩ := List.append_inj' heq rfl
        obtain rfl := List.singleton_inj.1 hc
        refine (hstep.accounted (h _ (List.prefix_append _ _))).1 ?_
        have hlast := h _ List.prefix_rfl
        rw [JobDispatcher.run_snoc] at hlast
        exact hlast
      · exact hcalls done c' hpre
    · intro h
      have hcalls := ih.2 fun done c' hpre =>
        h done c' (hpre.trans (List.prefix_append _ _))
      intro done hdone
      rcases List.prefix_concat_iff.1 hdone with rfl | hdone
      · rw [JobDispatcher.run_snoc]
        exact (hstep.accounted (hcalls _ List.prefix_rfl)).2
          (h _ c List.prefix_rfl)
      · exact hcalls done hdone

-- ==== the order

/-- The arrivals that retries of a tenant created runs for, in the order
they were created. -/
def retried (tenantId : String) (trail : List (Call φ × Handled φ)) :
    List Nat :=
  trail.flatMap fun e => match e.1 with
    | .retryQueued other _ =>
      if other = tenantId then e.2.effects.filterMap Effect.creates else []
    | .handleWebhook _ _ => []

theorem retried_snoc (tenantId : String) (e : Call φ × Handled φ) :
    retried tenantId (trail ++ [e]) = retried tenantId trail ++
      match e.1 with
      | .retryQueued other _ =>
        if other = tenantId then e.2.effects.filterMap Effect.creates else []
      | .handleWebhook _ _ => [] := by
  unfold retried
  rw [List.flatMap_append, List.flatMap_singleton]

/-- The queued arrivals of a tenant. -/
def arrivalsOf (d : JobDispatcher φ) (tenantId : String) : List Nat :=
  (d.queue.items tenantId).map Trigger.arrival

/-- Runs first, then the queue: all in the order of arrival, and all have
arrived. -/
structure InOrder (d : JobDispatcher φ) (tenantId : String)
    (trail : List (Call φ × Handled φ)) : Prop where
  sorted : (retried tenantId trail ++ arrivalsOf d tenantId).Pairwise (· < ·)
  below : ∀ n ∈ retried tenantId trail ++ arrivalsOf d tenantId,
    n < d.arrivals

/-- A retry of the tenant that finds no capacity takes its only queued
trigger. -/
def Alone (d : JobDispatcher φ) (tenantId : String) : Call φ → Prop
  | .retryQueued other w => other = tenantId → NoCapacity w →
      (d.queue.items tenantId).length ≤ 1
  | .handleWebhook _ _ => True

theorem items_dispatch (cfg : Config φ) (w : Outside φ)
    (q : TenantTriggerQueue (Trigger φ)) (t : Trigger φ) (tenantId : String) :
    ((dispatch cfg w q t).queue.items tenantId = q.items tenantId ∧
      ((dispatch cfg w q t).effects.filterMap Effect.creates = [t.arrival] ∨
        (dispatch cfg w q t).effects.filterMap Effect.creates = [])) ∨
    (NoCapacity w ∧ t.resolved.tenantId = tenantId ∧
      (dispatch cfg w q t).queue.items tenantId = q.items tenantId ++ [t] ∧
      (dispatch cfg w q t).effects.filterMap Effect.creates = []) := by
  rcases dispatch_cases cfg w q t with ⟨hq, hc, _⟩ | ⟨hq, hc, _, hno⟩ |
    ⟨hq, hc, _⟩
  · rw [hq, hc]
    exact Or.inl ⟨rfl, Or.inl rfl⟩
  · rw [hq, hc]
    by_cases htenant : tenantId = t.resolved.tenantId
    · subst htenant
      exact Or.inr ⟨hno, rfl, q.items_enqueue_self _ t, rfl⟩
    · exact Or.inl ⟨q.items_enqueue_ne htenant t, Or.inr rfl⟩
  · rw [hq, hc]
    exact Or.inl ⟨rfl, Or.inr rfl⟩

theorem InOrder.idle {tenantId : String} (h : InOrder d tenantId trail)
    {d' : JobDispatcher φ} {e : Call φ × Handled φ}
    (harrivals : d.arrivals ≤ d'.arrivals)
    (hitems : d'.queue.items tenantId = d.queue.items tenantId)
    (hretried : retried tenantId (trail ++ [e]) = retried tenantId trail) :
    InOrder d' tenantId (trail ++ [e]) := by
  have hqueue : arrivalsOf d' tenantId = arrivalsOf d tenantId := by
    unfold arrivalsOf
    rw [hitems]
  refine ⟨?_, ?_⟩
  · rw [hretried, hqueue]
    exact h.sorted
  · rw [hretried, hqueue]
    intro n hn
    exact Nat.lt_of_lt_of_le (h.below n hn) harrivals

theorem call_order (h : Numbered d trail) {tenantId : String}
    (hord : InOrder d tenantId trail) {c : Call φ}
    (halone : Alone d tenantId c) :
    InOrder (d.call ic cfg c).dispatcher tenantId
      (trail ++ [(c, d.call ic cfg c)]) := by
  rcases call_cases ic cfg d c with ⟨hcall, _⟩ |
    ⟨r, w, resolved, rfl, _, hcall, _⟩ |
    ⟨other, w, t, rest, q, rfl, hitems, hrest, hothers, hcall, _⟩
  · rw [hcall]
    refine hord.idle (Nat.le_refl _) rfl ?_
    rw [retried_snoc]
    cases c with
    | handleWebhook r w => exact List.append_nil _
    | retryQueued other w =>
      show retried tenantId trail ++ (if other = tenantId then [] else []) =
        _
      rw [ite_self, List.append_nil]
  · -- A new trigger, if it is queued, comes after all others.
    rw [hcall]
    have hretried : ∀ hd : Handled φ, retried tenantId
        (trail ++ [(.handleWebhook r w, hd)]) = retried tenantId trail := by
      intro hd
      rw [retried_snoc]
      exact List.append_nil _
    rcases items_dispatch cfg w d.queue ⟨d.arrivals, resolved⟩ tenantId with
      ⟨hsame, _⟩ | ⟨_, _, hqueued, _⟩
    · exact hord.idle (Nat.le_succ _) hsame (hretried _)
    · refine ⟨?_, ?_⟩
      · unfold arrivalsOf
        rw [hretried, hqueued, List.map_append, ← List.append_assoc,
          List.pairwise_append]
        refine ⟨hord.sorted, List.pairwise_singleton _ _, ?_⟩
        intro n hn m hm
        rw [List.mem_singleton.1 hm]
        exact hord.below n hn
      · unfold arrivalsOf
        rw [hretried, hqueued, List.map_append, ← List.append_assoc]
        intro n hn
        show n < d.arrivals + 1
        rcases List.mem_append.1 hn with hn | hn
        · exact Nat.lt_succ_of_lt (hord.below n hn)
        · rw [List.mem_singleton.1 hn]
          exact Nat.lt_succ_self _
  · rw [hcall]
    by_cases htenant : other = tenantId
    · subst htenant
      have hretried : retried other (trail ++ [(.retryQueued other w,
          ⟨⟨(dispatch cfg w q t).queue, d.arrivals⟩, some t,
            (dispatch cfg w q t).effects⟩)]) = retried other trail ++
          (dispatch cfg w q t).effects.filterMap Effect.creates := by
        rw [retried_snoc]
        show _ ++ (if other = other then _ else _) = _
        rw [if_pos rfl]
      have hsorted := hord.sorted
      have hbelow := hord.below
      unfold arrivalsOf at hsorted hbelow
      rw [hitems, List.map_cons] at hsorted hbelow
      rcases items_dispatch cfg w q t other with
        ⟨hsame, hcreates | hcreates⟩ | ⟨hno, _, hqueued, hcreates⟩
      · -- A run for the head: the order is the one there was.
        refine ⟨?_, ?_⟩
        · unfold arrivalsOf
          rw [hretried, hcreates, hsame, hrest, List.append_assoc]
          exact hsorted
        · unfold arrivalsOf
          rw [hretried, hcreates, hsame, hrest, List.append_assoc]
          exact hbelow
      · -- The head is gone.
        have hsub : (retried other trail ++ rest.map Trigger.arrival).Sublist
            (retried other trail ++ t.arrival :: rest.map Trigger.arrival) :=
          (List.sublist_cons_self _ _).append_left _
        refine ⟨?_, ?_⟩
        · unfold arrivalsOf
          rw [hretried, hcreates, hsame, hrest, List.append_nil]
          exact hsorted.sublist hsub
        · unfold arrivalsOf
          rw [hretried, hcreates, hsame, hrest, List.append_nil]
          exact fun n hn => hbelow n (hsub.subset hn)
      · -- Queued again, the only one there is.
        have hnil : rest = [] := by
          have := halone rfl hno
          rw [hitems, List.length_cons] at this
          exact List.length_eq_zero_iff.1 (by omega)
        subst hnil
        have hback : (dispatch cfg w q t).queue.items other =
            d.queue.items other := by
          rw [hqueued, hrest, hitems]
          rfl
        refine hord.idle (Nat.le_refl _) hback ?_
        rw [hretried, hcreates, List.append_nil]
    · refine hord.idle (Nat.le_refl _) ?_ ?_
      · have hown := (h.queues other t (hitems ▸ List.mem_cons_self ..)).2
        rcases items_dispatch cfg w q t tenantId with ⟨hsame, _⟩ |
          ⟨_, hsame, _⟩
        · exact hsame.trans (hothers _ (Ne.symm htenant))
        · exact absurd (hown.symm.trans hsame) htenant
      · rw [retried_snoc]
        show _ ++ (if other = tenantId then _ else _) = _
        rw [if_neg htenant, List.append_nil]

theorem call_disorder (h : Numbered d trail) {tenantId : String}
    (hord : InOrder d tenantId trail) {c : Call φ}
    (halone : ¬ Alone d tenantId c) :
    ¬ (arrivalsOf (d.call ic cfg c).dispatcher tenantId).Pairwise (· < ·) := by
  rcases call_cases ic cfg d c with ⟨hcall, _⟩ |
    ⟨r, w, resolved, rfl, _, hcall, _⟩ |
    ⟨other, w, t, rest, q, rfl, hitems, hrest, hothers, hcall, _⟩
  · -- A call that dispatches nothing had nothing to take.
    exfalso
    cases c with
    | handleWebhook r w => exact halone trivial
    | retryQueued other w =>
      refine halone fun htenant _ => ?_
      subst htenant
      rcases d.queue.retryNext_cases other with ⟨hnil, _⟩ |
        ⟨t, rest, q, _, hnext, _⟩
      · rw [hnil]
        exact Nat.zero_le _
      · have htrigger : (d.call ic cfg (.retryQueued other w)).trigger =
            some t := by
          show (d.retryQueued cfg other w).1.trigger = _
          unfold JobDispatcher.retryQueued
          rw [hnext]
        rw [hcall] at htrigger
        cases htrigger
  · exact absurd trivial halone
  · have hown := (h.queues other t (hitems ▸ List.mem_cons_self ..)).2
    have hfacts : other = tenantId ∧ NoCapacity w ∧
        ¬ (d.queue.items tenantId).length ≤ 1 := by
      by_contra hnot
      refine halone fun htenant hno => ?_
      by_contra hlen
      exact hnot ⟨htenant, hno, hlen⟩
    obtain ⟨rfl, hno, hlen⟩ := hfacts
    rw [hcall]
    intro hsorted
    rcases dispatch_cases cfg w q t with ⟨_, _, _, hnot⟩ | ⟨hq, _, _, _⟩ |
      ⟨_, _, _, hnot⟩
    · exact hnot hno
    · unfold arrivalsOf at hsorted
      rw [hq, hown, TenantTriggerQueue.items_enqueue_self, hrest,
        List.map_append, List.pairwise_append] at hsorted
      have hbefore := (List.pairwise_append.1 hord.sorted).2.1
      unfold arrivalsOf at hbefore
      rw [hitems, List.map_cons, List.pairwise_cons] at hbefore
      cases rest with
      | nil =>
        rw [hitems] at hlen
        exact hlen (Nat.le_refl _)
      | cons t' rest =>
        have hmem : t'.arrival ∈ (t' :: rest).map Trigger.arrival :=
          List.mem_cons_self ..
        have hafter := hsorted.2.2 t'.arrival hmem t.arrival
          (List.mem_singleton.2 rfl)
        exact Nat.lt_asymm hafter (hbefore.1 _ hmem)
    · exact hnot hno

theorem run_order (ic : IntakeConfig φ) (cfg : Config φ) (tenantId : String)
    (calls : List (Call φ)) (halone : ∀ done c, done ++ [c] <+: calls →
      Alone (JobDispatcher.init.run ic cfg done).1 tenantId c) :
    InOrder (JobDispatcher.init.run ic cfg calls).1 tenantId
      (JobDispatcher.init.run ic cfg calls).2 := by
  induction calls using List.reverseRecOn with
  | nil =>
    refine ⟨List.Pairwise.nil, ?_⟩
    intro n h
    cases h
  | append_singleton calls c ih =>
    rw [JobDispatcher.run_snoc]
    refine call_order (run_numbered ic cfg calls) (ih ?_)
      (halone calls c List.prefix_rfl)
    intro done c' hpre
    exact halone done c' (hpre.trans (List.prefix_append _ _))

/-- In any run the runs a tenant's retries create, and after them its
queue, stay in the order of arrival exactly when each retry without
capacity takes the tenant's only queued trigger. -/
theorem retries_in_order (ic : IntakeConfig φ) (cfg : Config φ)
    (tenantId : String) (calls : List (Call φ)) :
    (∀ done, done <+: calls →
      (retried tenantId (JobDispatcher.init.run ic cfg done).2 ++
        arrivalsOf (JobDispatcher.init.run ic cfg done).1 tenantId).Pairwise
          (· < ·)) ↔
    ∀ done c, done ++ [c] <+: calls →
      Alone (JobDispatcher.init.run ic cfg done).1 tenantId c := by
  constructor
  · intro hsorted
    induction calls using List.reverseRecOn with
    | nil =>
      intro done c h
      exact absurd (List.prefix_nil.1 h) (by simp)
    | append_singleton calls c ih =>
      have hcalls := ih fun done hdone =>
        hsorted done (hdone.trans (List.prefix_append _ _))
      intro done c' hpre
      rcases List.prefix_concat_iff.1 hpre with heq | hpre
      · obtain ⟨rfl, hc⟩ := List.append_inj' heq rfl
        obtain rfl := List.singleton_inj.1 hc
        have hlast := hsorted _ List.prefix_rfl
        rw [JobDispatcher.run_snoc] at hlast
        by_contra halone
        exact call_disorder (run_numbered ic cfg done)
          (run_order ic cfg tenantId done hcalls) halone
          (List.pairwise_append.1 hlast).2.1
      · exact hcalls done c' hpre
  · intro halone done hdone
    exact (run_order ic cfg tenantId done fun done' c hpre =>
      halone done' c (hpre.trans hdone)).sorted

-- ------------------------------------------------------- runs of a dispatcher

theorem call_ok {ic : IntakeConfig Unit} {cfg : Config Unit}
    {d : JobDispatcher Unit} {r : Request} {w : Outside Unit}
    {t : ResolvedTrigger Unit} (h : ic.intake r = .ok t) :
    d.call ic cfg (.handleWebhook r w) =
      ⟨⟨(dispatch cfg w d.queue ⟨d.arrivals, t⟩).queue, d.arrivals + 1⟩,
        some ⟨d.arrivals, t⟩,
        (dispatch cfg w d.queue ⟨d.arrivals, t⟩).effects⟩ := by
  show (d.handleWebhook ic cfg r w).1 = _
  unfold JobDispatcher.handleWebhook
  rw [h]

theorem call_plainRequest (d : JobDispatcher Unit) (w : Outside Unit) :
    d.call plainIntake plainConfig (.handleWebhook plainRequest w) =
      ⟨⟨(dispatch plainConfig w d.queue ⟨d.arrivals, plainResolved⟩).queue,
        d.arrivals + 1⟩, some ⟨d.arrivals, plainResolved⟩,
        (dispatch plainConfig w d.queue ⟨d.arrivals, plainResolved⟩).effects⟩
    :=
  call_ok plainIntake_ok

theorem run_plainRequest (w : Outside Unit) :
    JobDispatcher.init.run plainIntake plainConfig
        [.handleWebhook plainRequest w] =
      (⟨(dispatch plainConfig w JobDispatcher.init.queue
          ⟨0, plainResolved⟩).queue, 1⟩,
        [(.handleWebhook plainRequest w,
          JobDispatcher.init.call plainIntake plainConfig
            (.handleWebhook plainRequest w))]) := by
  unfold JobDispatcher.run
  rw [List.foldl_cons, List.foldl_nil, List.nil_append, call_plainRequest]
  rfl

/-- The provider raises: the trigger is neither queued nor run. -/
theorem trigger_lost :
    ¬ Accounted
      (JobDispatcher.init.run plainIntake plainConfig
        [.handleWebhook plainRequest (plainOutside none)]).1
      (JobDispatcher.init.run plainIntake plainConfig
        [.handleWebhook plainRequest (plainOutside none)]).2 := by
  rw [run_plainRequest, call_plainRequest]
  generalize plainRequest = r
  intro h
  have hcount : (0 : Nat) = 1 := h ⟨0, plainResolved⟩ (List.mem_cons_self ..)
  exact absurd hcount (by decide)

/-- Capacity refused. -/
def refused : Outside Unit :=
  plainOutside (some ⟨.maxConcurrentLimitHit, "t1", none, none⟩)

/-- The second of two queued triggers gets its run first. -/
theorem second_first :
    retried "t1" (JobDispatcher.init.run plainIntake plainConfig
      [.handleWebhook plainRequest refused, .handleWebhook plainRequest refused,
        .retryQueued "t1" refused, .retryQueued "t1" granted,
        .retryQueued "t1" granted]).2 = [1, 0] := by
  unfold JobDispatcher.run
  simp only [List.foldl_cons, List.foldl_nil, call_plainRequest]
  rfl

end SdlcOs.Dispatch
