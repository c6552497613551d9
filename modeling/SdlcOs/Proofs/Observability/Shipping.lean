/-
What the sink receives from concurrent calls of `apply`.

# Nothing lost, nothing twice

The events in the sink and those still pending are the events of the
first calls under their keys, each once (`Inv.events`): an emit moves one
from the pending ones to the sink, unless it raises before the sink has
taken it.

# The order

Totals only grow, so the pending events of one run and metric stand in
the order of their totals, above what the sink has. The sink stays in
order as long as no event overtakes one of a smaller total
(`Careful`): between its ledger's move and its emit a call holds no lock.

# The keys

Joining texts with colons forgets where the parts end. Two pairs have one
key exactly if a part of one's unit id is the beginning of the other's
metric name (`key_eq_iff`).
-/
import Mathlib.Algebra.Order.BigOperators.Group.List
import SdlcOs.Observability.Metrics

namespace SdlcOs.Observability

open Data (Dict firsts)

-- ==== the ledger

namespace CostMetricStore

variable {s : CostMetricStore} {runId metricName key : String} {amount : ℚ}

theorem applied_apply {runId' key' : String} :
    key' ∈ (s.apply runId metricName amount key).1.appliedKeys runId' ↔
      key' ∈ s.appliedKeys runId' ∨ runId' = runId ∧ key' = key := by
  rcases apply_inv s runId metricName amount key with
    ⟨hkey, happly⟩ | ⟨_, _, hkeys⟩
  · rw [happly]
    refine ⟨Or.inl, ?_⟩
    intro h
    rcases h with h | ⟨hrun, hk⟩
    · exact h
    · rw [hrun, hk]
      exact hkey
  · by_cases hrun : runId' = runId
    · subst hrun
      rw [hkeys, List.mem_cons]
      refine ⟨?_, ?_⟩
      · intro h
        exact h.symm.imp id fun hk => ⟨rfl, hk⟩
      · intro h
        exact h.symm.imp (fun hk => hk.2) id
    · have hsame : (s.apply runId metricName amount key).1.appliedKeys
          runId' = s.appliedKeys runId' := by
        unfold apply
        dsimp only
        split
        · rfl
        · unfold appliedKeys
          dsimp only
          rw [Function.update_of_ne hrun]
      rw [hsame]
      refine ⟨Or.inl, ?_⟩
      intro h
      exact h.resolve_right fun hc => hrun hc.1

theorem apply_total (hnew : key ∉ s.appliedKeys runId) :
    (s.apply runId metricName amount key).2 =
      s.cumulative runId metricName + amount := by
  unfold apply
  dsimp only
  split
  · next hkey => exact absurd hkey hnew
  · rfl

theorem cumulative_apply (hnew : key ∉ s.appliedKeys runId)
    (runId' metricName' : String) :
    (s.apply runId metricName amount key).1.cumulative runId' metricName' =
      s.cumulative runId' metricName' +
        if runId = runId' ∧ metricName = metricName' then amount else 0 := by
  by_cases h : runId = runId' ∧ metricName = metricName'
  · rw [if_pos h, ← h.1, ← h.2]
    rcases apply_inv s runId metricName amount key with
      ⟨hkey, _⟩ | ⟨_, htotal, _⟩
    · exact absurd hkey hnew
    · exact htotal
  · rw [if_neg h, add_zero]
    refine apply_other s amount key ?_
    by_contra hc
    rw [not_or, not_not, not_not] at hc
    exact h ⟨hc.1.symm, hc.2.symm⟩

end CostMetricStore

-- ==== the events

variable {c : MetricCall} {q : ℚ}

theorem get_event {k : String} (h : c.extraAttributes.get k = none) :
    (c.event q).attributes.get k =
      (((Dict.empty.set "amount" (.num c.amount)).set "cumulative_total"
        (.num q)).set "idempotency_key" (.str c.idempotencyKey)).get k := by
  refine Dict.get_foldl_set fun hk => ?_
  have hsome := (Dict.mem_keys_iff c.extraAttributes).1 hk
  rw [h] at hsome
  exact absurd hsome (by decide)

theorem event_key : (c.event q).idempotencyKey = some c.idempotencyKey := by
  unfold MetricEvent.idempotencyKey
  rw [get_event (c.extra_named "idempotency_key" (by decide)),
    Dict.get_set_self]

theorem event_total (h : c.extraAttributes.get "cumulative_total" = none) :
    (c.event q).cumulativeTotal = q := by
  unfold MetricEvent.cumulativeTotal
  rw [get_event h, Dict.get_set_ne _ (by decide), Dict.get_set_self]

namespace Shipping

-- ==== the condition

/-- Events of one run and metric in the order of their totals. -/
def InOrder (e e' : MetricEvent) : Prop :=
  e.runId = e'.runId → e.name = e'.name →
    e.cumulativeTotal ≤ e'.cumulativeTotal

/-- The condition on a step: no attribute takes the place of the total,
no emit loses its event, and none overtakes an event of its run and metric
with a smaller total. -/
def Careful (s : Shipping) : Step → Prop
  | .update c => c.extraAttributes.get "cumulative_total" = none
  | .emit i outcome => outcome ≠ .raisedLost ∧
      ∀ j e e', j < i → s.pending[j]? = some e → s.pending[i]? = some e' →
        e.runId = e'.runId → e.name = e'.name →
          ¬ e.cumulativeTotal < e'.cumulativeTotal

/-- An interleaving whose steps all meet the condition. -/
def CarefulRun : Shipping → List Step → Prop
  | _, [] => True
  | s, a :: rest => Careful s a ∧ CarefulRun (s.step a) rest

theorem CarefulRun.prefix {s : Shipping} {pre post : List Step}
    (h : CarefulRun s (pre ++ post)) : CarefulRun s pre := by
  induction pre generalizing s with
  | nil => trivial
  | cons a rest ih => exact ⟨h.1, ih h.2⟩

-- ==== the invariant

/-- The run and the key of an event, and of a call. -/
def tagOf (e : MetricEvent) : String × Option String :=
  (e.runId, e.idempotencyKey)

def callTag (c : MetricCall) : String × String := (c.runId, c.idempotencyKey)

/-- The first calls of a run and a metric. -/
def firstOf (calls : List MetricCall) (runId metricName : String) :
    List MetricCall :=
  (firstCalls calls).filter fun c =>
    c.runId = runId ∧ c.metricName = metricName

/-- What holds between the steps. -/
structure Inv (s : Shipping) : Prop where
  applied : ∀ runId key, key ∈ s.store.appliedKeys runId ↔
    (runId, key) ∈ (firstCalls s.calls).map callTag
  events : ((s.sink ++ s.pending).map tagOf).Perm
    ((firstCalls s.calls).map fun c => (c.runId, some c.idempotencyKey))
  totals : ∀ runId metricName, s.store.cumulative runId metricName =
    ((firstOf s.calls runId metricName).map (·.amount)).sum
  sinkOrder : s.sink.Pairwise InOrder
  pendingOrder : s.pending.Pairwise InOrder
  across : ∀ e ∈ s.sink, ∀ e' ∈ s.pending, InOrder e e'
  bounded : ∀ e ∈ s.sink ++ s.pending,
    e.cumulativeTotal ≤ s.store.cumulative e.runId e.name

theorem inv_init : Inv init where
  applied := fun _ _ => iff_of_false List.not_mem_nil List.not_mem_nil
  events := List.Perm.refl _
  totals := fun _ _ => rfl
  sinkOrder := List.Pairwise.nil
  pendingOrder := List.Pairwise.nil
  across := fun _ h => by cases h
  bounded := fun _ h => by cases h

variable {s : Shipping}

theorem firstCalls_again (h : Inv s)
    (hkey : c.idempotencyKey ∈ s.store.appliedKeys c.runId) :
    firstCalls (s.calls ++ [c]) = firstCalls s.calls := by
  unfold firstCalls
  rw [Data.firsts_concat]
  exact if_pos ((h.applied c.runId c.idempotencyKey).1 hkey)

theorem firstCalls_new (h : Inv s)
    (hkey : c.idempotencyKey ∉ s.store.appliedKeys c.runId) :
    firstCalls (s.calls ++ [c]) = firstCalls s.calls ++ [c] := by
  unfold firstCalls
  rw [Data.firsts_concat]
  exact if_neg fun hc =>
    hkey ((h.applied c.runId c.idempotencyKey).2 hc)

theorem inv_update (h : Inv s)
    (hextra : c.extraAttributes.get "cumulative_total" = none) :
    Inv (s.update c) := by
  unfold update
  dsimp only
  split
  · next hkey =>
    have hfirst := firstCalls_again h hkey
    refine ⟨?_, ?_, ?_, h.sinkOrder, h.pendingOrder, h.across, h.bounded⟩
    · dsimp only
      rw [hfirst]
      exact h.applied
    · dsimp only
      rw [hfirst]
      exact h.events
    · unfold firstOf
      dsimp only
      rw [hfirst]
      exact h.totals
  · next hkey =>
    have hfirst := firstCalls_new h hkey
    have htotal := @CostMetricStore.apply_total s.store c.runId c.metricName
      c.idempotencyKey c.amount hkey
    have hcum := @CostMetricStore.cumulative_apply s.store c.runId
      c.metricName c.idempotencyKey c.amount hkey
    -- the new total is the ledger's, and above what it was
    have hnew : (c.event (s.store.apply c.runId c.metricName c.amount
        c.idempotencyKey).2).cumulativeTotal =
          s.store.cumulative c.runId c.metricName + c.amount := by
      rw [event_total hextra, htotal]
    have hgrows : ∀ r m, s.store.cumulative r m ≤
        (s.store.apply c.runId c.metricName c.amount
          c.idempotencyKey).1.cumulative r m := by
      intro r m
      rw [hcum]
      split
      · exact le_add_of_nonneg_right c.amount_nonneg
      · exact le_of_eq (add_zero _).symm
    have hbelow : ∀ e ∈ s.sink ++ s.pending, InOrder e
        (c.event (s.store.apply c.runId c.metricName c.amount
          c.idempotencyKey).2) := by
      intro e he hrun hname
      rw [hnew]
      have hb := h.bounded e he
      rw [hrun, hname] at hb
      exact hb.trans (le_add_of_nonneg_right c.amount_nonneg)
    refine ⟨?_, ?_, ?_, h.sinkOrder, ?_, ?_, ?_⟩
    · intro r k
      dsimp only
      rw [CostMetricStore.applied_apply, h.applied, hfirst, List.map_append,
        List.mem_append]
      refine or_congr_right ?_
      rw [List.map_cons, List.map_nil, List.mem_singleton]
      exact Prod.mk.injEq _ _ _ _ ▸ Iff.rfl
    · dsimp only
      rw [hfirst, ← List.append_assoc, List.map_append,
        @List.map_append _ _ _ (firstCalls s.calls)]
      refine h.events.append (.of_eq ?_)
      rw [List.map_cons, List.map_nil, List.map_cons, List.map_nil]
      unfold tagOf
      rw [event_key]
      rfl
    · intro r m
      unfold firstOf
      dsimp only
      rw [hcum, h.totals, hfirst, List.filter_append, List.map_append,
        List.sum_append]
      refine congrArg _ ?_
      by_cases hc : c.runId = r ∧ c.metricName = m
      · rw [if_pos hc, List.filter_cons_of_pos (by exact decide_eq_true hc)]
        simp
      · rw [if_neg hc, List.filter_cons_of_neg (by simpa using hc)]
        rfl
    · refine List.pairwise_append.2 ⟨h.pendingOrder,
        List.pairwise_singleton _ _, ?_⟩
      intro e he e' he'
      rw [List.mem_singleton.1 he']
      exact hbelow e (List.mem_append_right _ he)
    · intro e he e' he'
      rcases List.mem_append.1 he' with he' | he'
      · exact h.across e he e' he'
      · rw [List.mem_singleton.1 he']
        exact hbelow e (List.mem_append_left _ he)
    · intro e he
      dsimp only at he ⊢
      rw [← List.append_assoc] at he
      rcases List.mem_append.1 he with he | he
      · exact (h.bounded e he).trans (hgrows _ _)
      · rw [List.mem_singleton.1 he, hnew, hcum]
        refine le_of_eq (congrArg _ (if_pos ⟨rfl, rfl⟩).symm)

theorem inv_emit (h : Inv s) {i : Nat} {outcome : EmitOutcome}
    (hcareful : Careful s (.emit i outcome)) : Inv (s.emit i outcome) := by
  unfold emit
  split
  · exact h
  · next e he =>
    obtain ⟨hlost, hfirst⟩ := hcareful
    rw [if_neg hlost]
    obtain ⟨hi, hget⟩ := List.getElem?_eq_some_iff.1 he
    have hmem : e ∈ s.pending := List.mem_of_getElem? he
    have hsub : (s.pending.eraseIdx i).Sublist s.pending :=
      List.eraseIdx_sublist _ _
    have hperm : ((s.sink ++ [e]) ++ s.pending.eraseIdx i).Perm
        (s.sink ++ s.pending) := by
      rw [List.append_assoc]
      refine List.Perm.append_left _ ?_
      have hcons := List.getElem_cons_eraseIdx_perm hi
      rw [hget] at hcons
      exact hcons
    refine ⟨h.applied, (hperm.map tagOf).trans h.events, h.totals, ?_,
      h.pendingOrder.sublist hsub, ?_, ?_⟩
    · refine List.pairwise_append.2 ⟨h.sinkOrder,
        List.pairwise_singleton _ _, ?_⟩
      intro d hd e' he'
      rw [List.mem_singleton.1 he']
      exact h.across d hd e hmem
    · intro d hd e' he'
      rcases List.mem_append.1 hd with hd | hd
      · exact h.across d hd e' (hsub.subset he')
      · rw [List.mem_singleton.1 hd]
        intro hrun hname
        -- `e'` came before `e`, with no smaller total, or after it
        obtain ⟨j, hj⟩ := List.mem_iff_getElem?.1 he'
        rw [List.getElem?_eraseIdx] at hj
        split at hj
        · next hlt =>
          exact le_of_not_gt
            (hfirst j e' e hlt hj he hrun.symm hname.symm)
        · next hge =>
          obtain ⟨hj1, hj2⟩ := List.getElem?_eq_some_iff.1 hj
          have hord := List.pairwise_iff_getElem.1 h.pendingOrder i (j + 1) hi
            hj1 (by omega)
          rw [hget, hj2] at hord
          exact hord hrun hname
    · intro d hd
      exact h.bounded d (hperm.mem_iff.1 hd)

theorem inv_step (h : Inv s) {a : Step} (ha : Careful s a) :
    Inv (s.step a) := by
  cases a with
  | update c => exact inv_update h ha
  | emit i outcome => exact inv_emit h ha

theorem inv_run (h : Inv s) {steps : List Step}
    (hsteps : CarefulRun s steps) : Inv (s.run steps) := by
  induction steps generalizing s with
  | nil => exact h
  | cons a rest ih => exact ih (inv_step h hsteps.1) hsteps.2

-- ==== the result

/-- What the sink and the totals say. With nothing pending, `once` is
about the sink alone. -/
structure Shipped (s : Shipping) : Prop where
  once : ∀ runId key,
    ((s.sink ++ s.pending).map tagOf).count (runId, some key) =
      if (runId, key) ∈ s.calls.map callTag then 1 else 0
  totals : ∀ runId metricName, s.store.cumulative runId metricName =
    ((firstOf s.calls runId metricName).map (·.amount)).sum
  ordered : s.sink.Pairwise InOrder

theorem Inv.shipped (h : Inv s) : Shipped s := by
  refine ⟨?_, h.totals, h.sinkOrder⟩
  intro runId key
  have hinj : Function.Injective fun t : String × String =>
      (t.1, some t.2) := by
    intro t t' heq
    obtain ⟨hrun, hkey⟩ := Prod.ext_iff.1 heq
    exact Prod.ext hrun (Option.some.inj hkey)
  have htags : (firstCalls s.calls).map
      (fun c => (c.runId, some c.idempotencyKey)) =
        ((firstCalls s.calls).map callTag).map fun t => (t.1, some t.2) := by
    rw [List.map_map]
    rfl
  have hnodup : ((firstCalls s.calls).map callTag).Nodup :=
    Data.nodup_firsts s.calls
  have hmem : (runId, some key) ∈
      ((firstCalls s.calls).map callTag).map (fun t => (t.1, some t.2)) ↔
        (runId, key) ∈ s.calls.map callTag :=
    (@List.mem_map_of_injective _ _ _ hinj (runId, key) _).trans
      Data.mem_map_firsts
  rw [h.events.count_eq, htags, (hnodup.map hinj).count]
  simp only [hmem]

end Shipping

-- ==== the keys

/-- Two texts around a colon, against two others: the second text's
beginning may stand at the end of the first instead. -/
theorem around_eq_iff {α : Type} {x : α} {u m u' m' : List α} :
    u ++ x :: m = u' ++ x :: m' ↔ (u = u' ∧ m = m') ∨
      (∃ part, u' = u ++ x :: part ∧ m = part ++ x :: m') ∨
      ∃ part, u = u' ++ x :: part ∧ m' = part ++ x :: m := by
  rw [List.append_eq_append_iff]
  constructor
  · intro h
    rcases h with ⟨part, hu, hm⟩ | ⟨part, hu, hm⟩
    · cases part with
      | nil =>
        rw [List.append_nil] at hu
        exact Or.inl ⟨hu.symm, (List.cons.inj hm).2⟩
      | cons y part =>
        obtain ⟨hx, hm⟩ := List.cons.inj hm
        exact Or.inr (Or.inl ⟨part, hx ▸ hu, hm⟩)
    · cases part with
      | nil =>
        rw [List.append_nil] at hu
        exact Or.inl ⟨hu, (List.cons.inj hm).2.symm⟩
      | cons y part =>
        obtain ⟨hx, hm⟩ := List.cons.inj hm
        exact Or.inr (Or.inr ⟨part, hx ▸ hu, hm⟩)
  · intro h
    rcases h with ⟨hu, hm⟩ | ⟨part, hu, hm⟩ | ⟨part, hu, hm⟩
    · exact Or.inl ⟨[], by rw [hu, List.append_nil], by rw [hm]; rfl⟩
    · exact Or.inl ⟨x :: part, hu, by rw [hm]; rfl⟩
    · exact Or.inr ⟨x :: part, hu, by rw [hm]; rfl⟩

/-- A beginning of the metric name, up to a colon, stands at the end of
the other pair's unit id instead. -/
def Shifted (unitId metricName unitId' metricName' : String) : Prop :=
  ∃ part, unitId' = unitId ++ ":" ++ part ∧
    metricName = part ++ ":" ++ metricName'

theorem shifted_iff {u m u' m' : String} : Shifted u m u' m' ↔
    ∃ part, u'.toList = u.toList ++ ':' :: part ∧
      m.toList = part ++ ':' :: m'.toList := by
  constructor
  · intro h
    obtain ⟨part, hu, hm⟩ := h
    refine ⟨part.toList, ?_, ?_⟩
    · rw [hu, String.toList_append, String.toList_append,
        List.append_assoc]
      rfl
    · rw [hm, String.toList_append, String.toList_append,
        List.append_assoc]
      rfl
  · intro h
    obtain ⟨part, hu, hm⟩ := h
    have hpart : (String.ofList part).toList = part := String.toList_ofList
    refine ⟨String.ofList part, ?_, ?_⟩
    · rw [← String.toList_inj, String.toList_append, String.toList_append,
        hpart, List.append_assoc, hu]
      rfl
    · rw [← String.toList_inj, String.toList_append, String.toList_append,
        hpart, List.append_assoc, hm]
      rfl

theorem key_eq_iff {runId u m u' m' : String} :
    CostMetricStore.idempotencyKey runId u m =
      CostMetricStore.idempotencyKey runId u' m' ↔
    (u = u' ∧ m = m') ∨ Shifted u m u' m' ∨ Shifted u' m' u m := by
  have htoList : ∀ u m : String,
      (CostMetricStore.idempotencyKey runId u m).toList =
        (runId ++ ":").toList ++ (u.toList ++ ':' :: m.toList) := by
    intro u m
    unfold CostMetricStore.idempotencyKey
    rw [String.toList_append, String.toList_append, String.toList_append,
      List.append_assoc, List.append_assoc]
    rfl
  rw [← String.toList_inj, htoList, htoList, List.append_right_inj,
    around_eq_iff, shifted_iff, shifted_iff, String.toList_inj,
    String.toList_inj]

-- ==== the theorem

/-- Where every step meets the condition, each key's event is there once,
the totals are the sums of the first amounts, and the sink is in order.
Two pairs of one run have one key exactly if they are shifted. -/
theorem metrics_shipped {steps : List Shipping.Step}
    (h : Shipping.CarefulRun .init steps) :
    (∀ pre, pre <+: steps → Shipping.Shipped (Shipping.init.run pre)) ∧
    ∀ traceId traceId' runId tenantId tenantId' u u' m m' amount amount'
      hamount hamount', (u, m) ≠ (u', m') →
      ((MetricCall.ofCost traceId runId tenantId u amount m
          hamount).idempotencyKey ≠
        (MetricCall.ofCost traceId' runId tenantId' u' amount' m'
          hamount').idempotencyKey ↔
      ¬ Shifted u m u' m' ∧ ¬ Shifted u' m' u m) := by
  refine ⟨?_, ?_⟩
  · intro pre hpre
    obtain ⟨post, hpost⟩ := hpre
    rw [← hpost] at h
    exact (Shipping.inv_run Shipping.inv_init h.prefix).shipped
  · intro _ _ runId _ _ u u' m m' _ _ _ _ hne
    unfold MetricCall.ofCost
    dsimp only
    rw [ne_eq, key_eq_iff, or_iff_right, not_or]
    intro h
    exact hne (Prod.ext h.1 h.2)

/-- A cost of one run's unit. -/
def sampleCost (unitId : String) (amountUsd : ℚ) (h : 0 ≤ amountUsd) :
    MetricCall :=
  .ofCost "t" "r" none unitId amountUsd CostMetricStore.costUsd h

/-- Two units' costs, each event emitted before the next call. -/
def inTurn : List Shipping.Step :=
  [.update (sampleCost "a" 1 (by decide)), .emit 0 .returned,
    .update (sampleCost "b" 2 (by decide)), .emit 0 .raisedTaken]

theorem metrics_shipped_in_turn :
    (Shipping.init.run inTurn).sink.length = 2 ∧
      Shipping.Shipped (Shipping.init.run inTurn) := by
  have hfirst : ∀ (s : Shipping) {outcome : Shipping.EmitOutcome},
      outcome ≠ .raisedLost → s.Careful (.emit 0 outcome) :=
    fun s _ h => ⟨h, fun j _ _ hj => absurd hj (Nat.not_lt_zero j)⟩
  have hcareful : Shipping.CarefulRun .init inTurn :=
    ⟨rfl, hfirst _ (by decide), rfl, hfirst _ (by decide), trivial⟩
  exact ⟨rfl, (metrics_shipped hcareful).1 _ List.prefix_rfl⟩

/-- Two units' costs, the second's event first. -/
def overtaking : List Shipping.Step :=
  [.update (sampleCost "a" 1 (by decide)),
    .update (sampleCost "b" 2 (by decide)), .emit 1 .returned,
    .emit 0 .returned]

/-- A unit's cost whose emit raises. -/
def lost : List Shipping.Step :=
  [.update (sampleCost "a" 1 (by decide)), .emit 0 .raisedLost]

/-- The sink gets the totals 3 and 1, an event lost is never emitted
again, and two pairs have one key. -/
theorem overtaken :
    ¬ (Shipping.init.run overtaking).sink.Pairwise Shipping.InOrder ∧
    ¬ Shipping.Shipped (Shipping.init.run lost) ∧
    (MetricCall.ofCost "t" "r" none "a:b" 1 "c" (by decide)).idempotencyKey =
      (MetricCall.ofCost "t" "r" none "a" 1 "b:c"
        (by decide)).idempotencyKey := by
  refine ⟨?_, ?_, by decide⟩
  · intro h
    have horder := List.pairwise_iff_getElem.1 h 0 1 (by decide) (by decide)
      (by decide) rfl rfl
    exact absurd horder (by decide +kernel)
  · intro h
    have hnone : ((Shipping.init.run lost).sink ++
        (Shipping.init.run lost).pending) = [] := rfl
    have honce := h.once "r" "r:a:cost_usd"
    rw [hnone, if_pos (by decide)] at honce
    exact absurd honce (by decide)

end SdlcOs.Observability
