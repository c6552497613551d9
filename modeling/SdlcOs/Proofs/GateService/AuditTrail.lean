/-
What the gates' audit log says.

# The monitor

`gateMonitor` reads the log for one gate: whether it was opened and,
since then, escalated and actioned. Escalating is allowed where the gate
is open and neither, actioning where it is open and not actioned and with
the flag that says whether it was escalated.

# The invariant

`Tracked` ties the tracker's gates to the monitor's states, and
`Consistent` the service's open gates to those that were opened and not
actioned. Each of the three calls keeps both, in any order and with any
gate opened again.

# Sweeps

A sweep looks at the gates that are neither escalated nor actioned, in
the order of their ids. What it leaves of them was not due, up to a gate
of which it cannot be told. A time that is not after the sweep's, as
datetimes of each gate's own tzinfo see the two, finds nothing due before
the same gate (`sweep_again`). By instants alone it can: the wall clock
goes back when daylight saving time ends (`swept_earlier`).
-/
import SdlcOs.Effects.Monitor
import SdlcOs.Gates.Service
import SdlcOs.Proofs.Calendar

namespace SdlcOs.Gates

open Data (DateTime Dict TimeZones)
open Effects

-- ==== the monitor

/-- What an event did to its gate. -/
inductive Phase : Type where
  | unopened
  | opened (escalated actioned : Bool)
  deriving DecidableEq

/-- The phase after an event of the gate. -/
def Phase.after : Phase → AuditDetails → Phase
  | _, .gateOpened .. => .opened false false
  | .opened escalated _, .gateActioned .. => .opened escalated true
  | .opened _ actioned, .escalated .. => .opened true actioned
  | p, _ => p

/-- When an event of the gate is in place. -/
def Phase.allows : Phase → AuditDetails → Prop
  | _, .gateOpened .. => True
  | _, .gateRejected .. => True
  | p, .gateActioned _ _ wasEscalated => p = .opened wasEscalated false
  | p, .escalated .. => p = .opened false false

/-- The log read for one gate. -/
def gateMonitor (gateId : String) : Monitor Phase AuditEvent where
  init := .unopened
  advance p e := if e.gateId = gateId then p.after e.details else p
  allowed p e := e.gateId = gateId → p.allows e.details

/-- A gate's phase after a log. -/
def phase (gateId : String) (log : List AuditEvent) : Phase :=
  (gateMonitor gateId).state log

/-- Every event of a log is in place for its gate. -/
def Sound (log : List AuditEvent) : Prop :=
  ∀ gateId, (gateMonitor gateId).Accepts log

theorem phase_snoc_self (log : List AuditEvent) (e : AuditEvent) :
    phase e.gateId (log ++ [e]) = (phase e.gateId log).after e.details := by
  unfold phase
  rw [Monitor.state_snoc]
  exact if_pos rfl

theorem phase_snoc_other {g : String} {e : AuditEvent} (h : e.gateId ≠ g)
    (log : List AuditEvent) : phase g (log ++ [e]) = phase g log := by
  unfold phase
  rw [Monitor.state_snoc]
  exact if_neg h

theorem Sound.snoc {log : List AuditEvent} {e : AuditEvent} (h : Sound log)
    (he : (phase e.gateId log).allows e.details) : Sound (log ++ [e]) := by
  intro g
  refine Monitor.accepts_snoc.2 ⟨h g, ?_⟩
  rintro rfl
  exact he

-- ==== segments

/-- The event opens a gate. -/
def AuditEvent.opens (g : String) (e : AuditEvent) : Bool :=
  match e.details with
  | .gateOpened g' .. => g' = g
  | _ => false

/-- The event is a gate's decision. -/
def AuditEvent.actions (g : String) (e : AuditEvent) : Bool :=
  match e.details with
  | .gateActioned g' .. => g' = g
  | _ => false

/-- The event is a gate's escalation. -/
def AuditEvent.escalates (g : String) (e : AuditEvent) : Bool :=
  match e.details with
  | .escalated g' .. => g' = g
  | _ => false

/-- `was_escalated` of an event. -/
def AuditEvent.wasEscalated (e : AuditEvent) : Bool :=
  match e.details with
  | .gateActioned _ _ b => b
  | _ => false

/-- What may stand in a log between one opening of a gate and the next: at
most one decision and at most one escalation, the escalation first, and
the decision's flag saying whether there was one. -/
structure Segment (g : String) (seg : List AuditEvent) : Prop where
  actioned : (seg.filter (AuditEvent.actions g)).length ≤ 1
  escalated : (seg.filter (AuditEvent.escalates g)).length ≤ 1
  order : ∀ a e b, seg = a ++ e :: b → e.actions g = true →
    ∀ x ∈ b, x.escalates g = false
  flag : ∀ a e b, seg = a ++ e :: b → e.actions g = true →
    (e.wasEscalated = true ↔ ∃ x ∈ a, x.escalates g = true)

theorem phase_opens {g : String} {e : AuditEvent} (he : e.opens g = true)
    (log : List AuditEvent) : phase g (log ++ [e]) = .opened false false := by
  obtain ⟨ts, tenant, run, details⟩ := e
  cases details with
  | gateOpened g' kind openedAt days =>
    have hid : g' = g := of_decide_eq_true he
    subst hid
    exact phase_snoc_self log
      ⟨ts, tenant, run, .gateOpened g' kind openedAt days⟩
  | gateActioned => cases he
  | gateRejected => cases he
  | escalated => cases he

theorem phase_segment {g : String} : ∀ (seg : List AuditEvent)
    {log : List AuditEvent} {esc act : Bool},
    phase g log = .opened esc act → (∀ x ∈ seg, x.opens g = false) →
      phase g (log ++ seg) = .opened (esc || seg.any (AuditEvent.escalates g))
        (act || seg.any (AuditEvent.actions g)) := by
  intro seg
  induction seg with
  | nil =>
    intro log esc act h _
    rw [List.append_nil, h, List.any_nil, List.any_nil, Bool.or_false,
      Bool.or_false]
  | cons e seg ih =>
    intro log esc act h hseg
    have he : e.opens g = false := hseg e (List.mem_cons_self ..)
    have hnext : phase g (log ++ [e]) =
        .opened (esc || e.escalates g) (act || e.actions g) := by
      by_cases hid : e.gateId = g
      · subst hid
        rw [phase_snoc_self, h]
        obtain ⟨ts, tenant, run, details⟩ := e
        cases details with
        | gateOpened g' =>
          simp [AuditEvent.opens, AuditEvent.gateId] at he
        | gateActioned g' =>
          simp [Phase.after, AuditEvent.escalates, AuditEvent.actions,
            AuditEvent.gateId]
        | gateRejected g' =>
          simp [Phase.after, AuditEvent.escalates, AuditEvent.actions]
        | escalated g' =>
          simp [Phase.after, AuditEvent.escalates, AuditEvent.actions,
            AuditEvent.gateId]
      · rw [phase_snoc_other hid, h]
        obtain ⟨ts, tenant, run, details⟩ := e
        cases details <;>
          simp_all [AuditEvent.escalates, AuditEvent.actions,
            AuditEvent.gateId]
    have hrest := ih hnext fun x hx => hseg x (List.mem_cons_of_mem e hx)
    rw [List.append_assoc] at hrest
    rw [List.any_cons, List.any_cons, ← Bool.or_assoc, ← Bool.or_assoc]
    exact hrest

theorem Sound.segment {g : String} {pre seg post : List AuditEvent}
    {e : AuditEvent} (h : Sound (pre ++ e :: (seg ++ post)))
    (he : e.opens g = true) (hseg : ∀ x ∈ seg, x.opens g = false) :
    Segment g seg := by
  have hopened := phase_opens he pre
  have hpre : ∀ a x b, seg = a ++ x :: b →
      phase g (pre ++ [e] ++ a) = .opened (a.any (AuditEvent.escalates g))
        (a.any (AuditEvent.actions g)) := by
    intro a x b hab
    have ha := phase_segment a hopened fun y hy => hseg y (by
      rw [hab]
      exact List.mem_append_left _ hy)
    rwa [Bool.false_or, Bool.false_or] at ha
  have hallows : ∀ a x b, seg = a ++ x :: b → x.gateId = g →
      (phase g (pre ++ [e] ++ a)).allows x.details := by
    intro a x b hab hid
    refine h g (pre ++ [e] ++ a) x (b ++ post) ?_ hid
    rw [hab]
    simp
  have hactions : ∀ a x b, seg = a ++ x :: b → x.actions g = true →
      a.any (AuditEvent.actions g) = false ∧
        a.any (AuditEvent.escalates g) = x.wasEscalated := by
    intro a x b hab hx
    obtain ⟨ts, tenant, run, details⟩ := x
    cases details with
    | gateActioned g' k w =>
      have hp := hallows a _ b hab (of_decide_eq_true hx)
      rw [hpre a _ b hab] at hp
      injection hp with hesc hact
      exact ⟨hact, hesc⟩
    | gateOpened => cases hx
    | gateRejected => cases hx
    | escalated => cases hx
  have hescalates : ∀ a x b, seg = a ++ x :: b → x.escalates g = true →
      a.any (AuditEvent.actions g) = false ∧
        a.any (AuditEvent.escalates g) = false := by
    intro a x b hab hx
    obtain ⟨ts, tenant, run, details⟩ := x
    cases details with
    | escalated g' =>
      have hp := hallows a _ b hab (of_decide_eq_true hx)
      rw [hpre a _ b hab] at hp
      injection hp with hesc hact
      exact ⟨hact, hesc⟩
    | gateOpened => cases hx
    | gateRejected => cases hx
    | gateActioned => cases hx
  constructor
  · refine length_filter_le_one fun a x b hab hx y hy => ?_
    exact Bool.eq_false_of_not_eq_true
      (List.any_eq_false.1 (hactions a x b hab hx).1 y hy)
  · refine length_filter_le_one fun a x b hab hx y hy => ?_
    exact Bool.eq_false_of_not_eq_true
      (List.any_eq_false.1 (hescalates a x b hab hx).2 y hy)
  · intro a x b hab hx y hy
    obtain ⟨b₁, b₂, rfl⟩ := List.append_of_mem hy
    by_contra hesc
    rw [Bool.not_eq_false] at hesc
    have hsplit : seg = (a ++ x :: b₁) ++ y :: b₂ := by
      rw [hab, List.append_assoc, List.cons_append]
    have hnone := (hescalates _ y b₂ hsplit hesc).1
    rw [List.any_append, List.any_cons, hx] at hnone
    simp at hnone
  · intro a x b hab hx
    rw [← (hactions a x b hab hx).2, List.any_eq_true]

-- ==== the tracker

/-- The flags of a gate, as a phase. -/
def flags : Option OpenGate → Phase
  | none => .unopened
  | some g => .opened g.escalated g.actioned

/-- The tracker's gates are what the log says of them. -/
structure Tracked (t : EscalationTracker) : Prop where
  sound : Sound t.audit
  phases : ∀ g, flags (t.gates.get g) = phase g t.audit
  ids : ∀ g gate, t.gates.get g = some gate → gate.gateId = g

namespace Tracked

variable {t : EscalationTracker}

theorem empty : Tracked ⟨.empty, []⟩ where
  sound _ := Monitor.accepts_nil
  phases _ := rfl
  ids g gate h := by cases h

/-- An event that is in place and the gate's state after it. -/
theorem record (h : Tracked t) {e : AuditEvent} {gate : OpenGate}
    (hid : gate.gateId = e.gateId)
    (hallows : (phase e.gateId t.audit).allows e.details)
    (hflags : flags (some gate) = (phase e.gateId t.audit).after e.details) :
    Tracked ((t.setGate e.gateId gate).record e) where
  sound := h.sound.snoc hallows
  phases g := by
    show flags ((t.gates.set e.gateId gate).get g) = phase g (t.audit ++ [e])
    by_cases hg : g = e.gateId
    · subst hg
      rw [Dict.get_set_self, phase_snoc_self, hflags]
    · rw [Dict.get_set_ne _ hg, phase_snoc_other (Ne.symm hg), h.phases]
  ids g gate' hget := by
    rw [show ((t.setGate e.gateId gate).record e).gates =
      t.gates.set e.gateId gate from rfl] at hget
    by_cases hg : g = e.gateId
    · subst hg
      rw [Dict.get_set_self] at hget
      exact Option.some.inj hget ▸ hid
    · rw [Dict.get_set_ne _ hg] at hget
      exact h.ids g gate' hget

theorem reject (h : Tracked t) {e : AuditEvent} {g kind actor : String}
    {reasons : List Reason}
    (he : e.details = .gateRejected g kind actor reasons) :
    Tracked (t.record e) where
  sound := h.sound.snoc (by rw [he]; trivial)
  phases g' := by
    show _ = phase g' (t.audit ++ [e])
    by_cases hg : e.gateId = g'
    · subst hg
      rw [phase_snoc_self, he]
      exact h.phases _
    · rw [phase_snoc_other hg]
      exact h.phases _
  ids := h.ids

theorem openGate (h : Tracked t) (g tenant run kind : String)
    (policy : GateSlaPolicy) (opened : DateTime) :
    Tracked (t.openGate g tenant run kind policy opened) :=
  h.record (e := ⟨opened, tenant, run,
    .gateOpened g kind opened policy.businessDays⟩) rfl trivial rfl

theorem markActioned_ok {g : String} {at' : DateTime}
    {t' : EscalationTracker} (h : t.markActioned g at' = .ok t') :
    ∃ gate, t.gates.get g = some gate ∧ gate.actioned = false ∧
      t' = (t.setGate g { gate with actioned := true }).record
        ⟨at', gate.tenantId, gate.runId,
          .gateActioned g gate.gateKind gate.escalated⟩ := by
  unfold EscalationTracker.markActioned at h
  split at h
  · cases h
  · next gate hget =>
    split at h
    · cases h
    · next hact =>
      exact ⟨gate, hget, Bool.eq_false_of_not_eq_true hact,
        (Except.ok.inj h).symm⟩

theorem markActioned (h : Tracked t) {g : String} {at' : DateTime}
    {t' : EscalationTracker} (ht' : t.markActioned g at' = .ok t') :
    Tracked t' := by
  obtain ⟨gate, hget, hact, rfl⟩ := markActioned_ok ht'
  have hphase : phase g t.audit = .opened gate.escalated false := by
    rw [← h.phases, hget, ← hact]
    rfl
  refine h.record (e := ⟨at', gate.tenantId, gate.runId,
    .gateActioned g gate.gateKind gate.escalated⟩) (h.ids g gate hget) ?_ ?_
  · exact hphase
  · show _ = (phase g t.audit).after _
    rw [hphase]
    rfl

-- --------------------------------------------------------------- a sweep

theorem mem_candidates (h : Tracked t) {gate : OpenGate} :
    gate ∈ t.candidates ↔ t.gates.get gate.gateId = some gate ∧
      gate.actioned = false ∧ gate.escalated = false := by
  unfold EscalationTracker.candidates Dict.values
  rw [List.mem_filter, List.mem_map, Bool.and_eq_true, Bool.not_eq_true',
    Bool.not_eq_true']
  refine and_congr_left fun _ => ⟨?_, ?_⟩
  · rintro ⟨⟨key, gate'⟩, hmem, rfl⟩
    have hget := t.gates.mem_entries_iff.1 hmem
    rw [h.ids key gate' hget]
    exact hget
  · intro hget
    exact ⟨(gate.gateId, gate), t.gates.mem_entries_iff.2 hget, rfl⟩

theorem escalate (h : Tracked t) {gate : OpenGate} (now : DateTime)
    (hmem : gate ∈ t.candidates) : Tracked (t.escalate gate now) := by
  obtain ⟨hget, hact, hesc⟩ := h.mem_candidates.1 hmem
  have hphase : phase gate.gateId t.audit = .opened false false := by
    rw [← h.phases, hget]
    show Phase.opened _ _ = _
    rw [hact, hesc]
  refine h.record (e := ⟨now, gate.tenantId, gate.runId,
    .escalated gate.gateId gate.gateKind gate.openedAt
      gate.policy.businessDays now gate.policy.backupApproverId⟩) rfl ?_ ?_
  · exact hphase
  · show _ = (phase gate.gateId t.audit).after _
    rw [hphase]
    show Phase.opened _ _ = _
    rw [hact]
    rfl

/-- The values of a dictionary that pass a test, after a value that passes
is replaced by one that does not. -/
theorem values_put {κ α : Type} [DecidableEq κ] {p : α → Bool} {key : κ}
    {a : α} (ha : p a = false) : ∀ {l : List (κ × α)},
    key ∈ l.map Prod.fst → (l.map Prod.fst).Nodup →
      ((Dict.put key a l).map Prod.snd).filter p =
        ((l.filter (·.1 ≠ key)).map Prod.snd).filter p := by
  intro l
  induction l with
  | nil => intro hmem; cases hmem
  | cons e l ih =>
    intro hmem hnodup
    rw [List.map_cons, List.nodup_cons] at hnodup
    rw [Dict.put]
    split
    · next he =>
      have hrest : l.filter (·.1 ≠ key) = l := by
        rw [List.filter_eq_self]
        intro e' he'
        refine decide_eq_true fun heq => hnodup.1 ?_
        rw [he, ← heq]
        exact List.mem_map.2 ⟨e', he', rfl⟩
      rw [List.filter_cons_of_neg (by simpa using he), hrest, List.map_cons,
        List.filter_cons_of_neg (by rw [ha]; exact Bool.false_ne_true)]
    · next he =>
      have hmem' : key ∈ l.map Prod.fst := by
        rw [List.map_cons, List.mem_cons] at hmem
        exact hmem.resolve_left (Ne.symm he)
      rw [List.filter_cons_of_pos (by simpa using he), List.map_cons,
        List.map_cons, List.filter_cons, List.filter_cons,
        ih hmem' hnodup.2]

theorem candidates_escalate (h : Tracked t) {gate : OpenGate}
    (now : DateTime) (hmem : gate ∈ t.candidates) :
    (t.escalate gate now).candidates =
      t.candidates.filter (·.gateId ≠ gate.gateId) := by
  obtain ⟨hget, hact, hesc⟩ := h.mem_candidates.1 hmem
  have hkey : gate.gateId ∈ t.gates.entries.map Prod.fst :=
    List.mem_map.2 ⟨_, t.gates.mem_entries_iff.2 hget, rfl⟩
  have hids : (t.gates.entries.filter (·.1 ≠ gate.gateId)).map Prod.snd =
      (t.gates.entries.map Prod.snd).filter (·.gateId ≠ gate.gateId) := by
    rw [List.filter_map]
    refine congrArg _ (List.filter_congr fun e he => ?_)
    have hid := h.ids e.1 e.2 (t.gates.mem_entries_iff.1 he)
    rw [Function.comp_apply, hid]
  show ((Dict.put gate.gateId _ t.gates.entries).map Prod.snd).filter _ = _
  rw [values_put (by simp) hkey t.gates.nodup, hids, List.filter_comm]
  rfl

/-- A sweep keeps the tracker, and nothing it does is seen in who is open
and not actioned. -/
theorem sweep (zones : TimeZones) (now : DateTime) :
    ∀ (gates : List OpenGate)
    {t : EscalationTracker} (newly : List String), Tracked t →
      (∀ gate ∈ gates, gate ∈ t.candidates) →
      (gates.map OpenGate.gateId).Nodup →
      Tracked (EscalationTracker.sweep zones now gates newly t).1 ∧
      ∀ g, (∃ esc, phase g
          (EscalationTracker.sweep zones now gates newly t).1.audit =
          .opened esc false) ↔ ∃ esc, phase g t.audit = .opened esc false := by
  intro gates
  induction gates with
  | nil => intro t newly h _ _; exact ⟨h, fun g => Iff.rfl⟩
  | cons gate gates ih =>
    intro t newly h hmem hnodup
    rw [List.map_cons, List.nodup_cons] at hnodup
    rw [EscalationTracker.sweep]
    split
    · exact ⟨h, fun g => Iff.rfl⟩
    · have hgate := hmem gate (List.mem_cons_self ..)
      have hrest : ∀ gate' ∈ gates,
          gate' ∈ (t.escalate gate now).candidates := by
        intro gate' hgate'
        rw [h.candidates_escalate now hgate, List.mem_filter]
        refine ⟨hmem gate' (List.mem_cons_of_mem _ hgate'),
          decide_eq_true fun he => hnodup.1 ?_⟩
        exact he ▸ List.mem_map.2 ⟨gate', hgate', rfl⟩
      obtain ⟨htracked, hopen⟩ := ih (newly ++ [gate.gateId])
        (h.escalate now hgate) hrest hnodup.2
      refine ⟨htracked, fun g => (hopen g).trans ?_⟩
      obtain ⟨hget, hact, hesc⟩ := h.mem_candidates.1 hgate
      rw [← (h.escalate now hgate).phases, ← h.phases]
      by_cases hg : g = gate.gateId
      · subst hg
        rw [show (t.escalate gate now).gates = t.gates.set gate.gateId
          { gate with escalated := true } from rfl, Dict.get_set_self, hget]
        show (∃ esc, Phase.opened _ gate.actioned = _) ↔
          ∃ esc, Phase.opened _ gate.actioned = _
        rw [hact]
        exact ⟨fun _ => ⟨_, rfl⟩, fun _ => ⟨_, rfl⟩⟩
      · rw [show (t.escalate gate now).gates = t.gates.set gate.gateId
          { gate with escalated := true } from rfl, Dict.get_set_ne _ hg]
    · exact ih newly h (fun g hg => hmem g (List.mem_cons_of_mem _ hg))
        hnodup.2

theorem nodup_candidates (h : Tracked t) :
    (t.candidates.map OpenGate.gateId).Nodup := by
  have hkeys : (t.gates.values.map OpenGate.gateId) =
      t.gates.entries.map Prod.fst := by
    unfold Dict.values
    rw [List.map_map]
    refine List.map_congr_left fun e he => ?_
    exact h.ids e.1 e.2 (t.gates.mem_entries_iff.1 he)
  refine List.Nodup.sublist (List.filter_sublist.map _) ?_
  rw [hkeys]
  exact t.gates.nodup

end Tracked

-- ------------------------------------------------------- a second sweep

theorem sweep_idle {zones : TimeZones} {now : DateTime}
    (gates : List OpenGate) (newly : List String) (t : EscalationTracker) :
    ∀ idle : List OpenGate, (∀ gate ∈ idle, isSlaBreached zones gate.openedAt
      now gate.policy.businessDays [] = .ok false) →
    EscalationTracker.sweep zones now (idle ++ gates) newly t =
      EscalationTracker.sweep zones now gates newly t := by
  intro idle
  induction idle with
  | nil => intro _; rfl
  | cons gate idle ih =>
    intro h
    rw [List.cons_append, EscalationTracker.sweep,
      h gate (List.mem_cons_self ..)]
    exact ih fun g hg => h g (List.mem_cons_of_mem _ hg)

/-- After a sweep, a sweep at no later time does nothing. The induction is
on the gates still to be looked at; those passed over so far are not
due. -/
theorem sweep_again {zones : TimeZones} {now now' : DateTime} :
    ∀ (gates idle : List OpenGate) {t : EscalationTracker}
      (newly newly' : List String), Tracked t →
      t.candidates = idle ++ gates →
      (∀ gate ∈ gates,
        DateTime.NotAfter zones gate.openedAt.tzinfo now' now) →
      (∀ gate ∈ idle, isSlaBreached zones gate.openedAt now'
        gate.policy.businessDays [] = .ok false) →
      let t' := (EscalationTracker.sweep zones now gates newly t).1
      (EscalationTracker.sweep zones now' t'.candidates newly' t').1 = t' := by
  intro gates
  induction gates with
  | nil =>
    intro idle t newly newly' _ hcand _ hidle
    show (EscalationTracker.sweep zones now' t.candidates newly' t).1 = t
    rw [hcand, sweep_idle [] newly' t idle hidle]
    rfl
  | cons gate gates ih =>
    intro idle t newly newly' h hcand hle hidle
    have hgate := hle gate (List.mem_cons_self ..)
    have hgates := fun g hg => hle g (List.mem_cons_of_mem gate hg)
    have hmem : gate ∈ t.candidates := by
      rw [hcand]
      exact List.mem_append_right _ (List.mem_cons_self ..)
    dsimp only
    rw [EscalationTracker.sweep]
    cases hdue : isSlaBreached zones gate.openedAt now
      gate.policy.businessDays [] with
    | error e =>
      show (EscalationTracker.sweep zones now' t.candidates newly' t).1 = t
      rw [hcand, sweep_idle (gate :: gates) newly' t idle hidle,
        EscalationTracker.sweep, isSlaBreached_error hgate hdue]
    | ok due =>
      cases due with
      | true =>
        refine ih idle _ newly' (h.escalate now hmem) ?_ hgates hidle
        have hnodup := h.nodup_candidates
        rw [hcand, List.map_append, List.map_cons, List.nodup_append]
          at hnodup
        obtain ⟨_, hrest, hdisj⟩ := hnodup
        rw [List.nodup_cons] at hrest
        rw [h.candidates_escalate now hmem, hcand, List.filter_append,
          List.filter_cons_of_neg (by simp), List.filter_eq_self.2,
          List.filter_eq_self.2]
        · intro g hg
          refine decide_eq_true fun he => hrest.1 ?_
          exact he ▸ List.mem_map.2 ⟨g, hg, rfl⟩
        · intro g hg
          refine decide_eq_true fun he => ?_
          exact hdisj _ (List.mem_map.2 ⟨g, hg, rfl⟩) _
            (List.mem_cons_self ..) he
      | false =>
        refine ih (idle ++ [gate]) newly newly' h ?_ hgates ?_
        · rw [hcand, List.append_assoc]
          rfl
        · intro g hg
          rcases List.mem_append.1 hg with hg | hg
          · exact hidle g hg
          · obtain rfl := List.mem_singleton.1 hg
            exact isSlaBreached_mono hgate hdue

-- ==== the service

/-- The tracker's gates are what the log says, and so are the open
gates. -/
structure Consistent (s : GatesService) : Prop where
  tracked : Tracked s.escalation
  isOpen : ∀ g, (s.openGates.get g).isSome = true ↔
    ∃ esc, phase g s.auditLog = .opened esc false

namespace Consistent

variable {cfg : Config} {w : World} {s : GatesService}

theorem init : Consistent .init where
  tracked := .empty
  isOpen g := by
    constructor
    · intro h; cases h
    · rintro ⟨esc, h⟩; cases h

theorem openGate (h : Consistent s) (a : OpenArgs) :
    Consistent (s.openGate cfg w a).1 := by
  unfold GatesService.openGate
  split
  · exact h
  · split
    · exact h
    · next backup _ =>
      refine ⟨h.tracked.openGate .., fun g => ?_⟩
      show ((s.openGates.set a.gateId _).get g).isSome = true ↔
        ∃ esc, phase g (s.auditLog ++ [_]) = .opened esc false
      by_cases hg : g = a.gateId
      · subst hg
        rw [Dict.get_set_self]
        exact iff_of_true rfl ⟨false, phase_snoc_self s.auditLog
          ⟨a.openedAt, a.tenantId, a.runId, .gateOpened a.gateId a.gateKind
            a.openedAt a.slaBusinessDays⟩⟩
      · rw [Dict.get_set_ne _ hg, phase_snoc_other (Ne.symm hg)]
        exact h.isOpen g

theorem clearance_open {a : DecideArgs} {handle : OpenGateHandle}
    {c : GateClearance} (h : s.clearance cfg w a = .ok (handle, c)) :
    s.openGates.get a.gateId = some handle := by
  unfold GatesService.clearance at h
  split at h
  · cases h
  · next handle' hget =>
    split at h
    · cases h
    · split at h
      · cases h
      · split at h
        · cases h
        · cases h
        · obtain ⟨rfl, -⟩ := Prod.mk.inj (Except.ok.inj h)
          exact hget

theorem decide (h : Consistent s) (a : DecideArgs) :
    Consistent (s.decide cfg w a).1 := by
  unfold GatesService.decide
  split
  · exact h
  · next handle c hc =>
    split
    · split
      · exact h
      · next escalation hmark =>
        refine ⟨h.tracked.markActioned hmark, fun g => ?_⟩
        obtain ⟨gate, hget, hact, rfl⟩ := Tracked.markActioned_ok hmark
        show ((s.openGates.erase a.gateId).get g).isSome = true ↔
          ∃ esc, phase g (s.auditLog ++ [_]) = .opened esc false
        by_cases hg : g = a.gateId
        · subst hg
          have hphase : phase a.gateId s.auditLog =
              .opened gate.escalated false := by
            rw [← hact]
            exact (h.tracked.phases a.gateId).symm.trans (by rw [hget]; rfl)
          have hnext := phase_snoc_self s.auditLog ⟨a.now, gate.tenantId,
            gate.runId, .gateActioned a.gateId gate.gateKind gate.escalated⟩
          refine iff_of_false ?_ ?_
          · rw [Dict.get_erase_self]
            exact Bool.false_ne_true
          · rintro ⟨esc, hesc⟩
            have hopened := hnext.symm.trans hesc
            rw [show AuditEvent.gateId ⟨a.now, gate.tenantId, gate.runId,
              .gateActioned a.gateId gate.gateKind gate.escalated⟩ = a.gateId
              from rfl, hphase] at hopened
            cases hopened
        · rw [Dict.get_erase_ne _ hg, phase_snoc_other (Ne.symm hg)]
          exact h.isOpen g
    · refine ⟨h.tracked.reject rfl, fun g => ?_⟩
      have hsame := (h.tracked.phases g).symm.trans
        ((h.tracked.reject (e := ⟨a.now, handle.tenantId, handle.runId,
          .gateRejected a.gateId handle.gateKind c.actorId c.reasons⟩)
          rfl).phases g)
      exact (h.isOpen g).trans (exists_congr fun esc =>
        ⟨fun hp => hsame.symm.trans hp, fun hp => hsame.trans hp⟩)

theorem checkEscalations_state (cfg : Config) (s : GatesService)
    (now : DateTime) : (s.checkEscalations cfg now).1 =
      ⟨(s.escalation.checkEscalations cfg.zones now).1, s.openGates⟩ := by
  unfold GatesService.checkEscalations
  split <;> next heq => rw [heq]

theorem checkEscalations (h : Consistent s) (now : DateTime) :
    Consistent (s.checkEscalations cfg now).1 := by
  obtain ⟨htracked, hopen⟩ := Tracked.sweep cfg.zones now
    s.escalation.candidates [] h.tracked (fun _ hg => hg)
    h.tracked.nodup_candidates
  rw [checkEscalations_state]
  exact ⟨htracked, fun g => (h.isOpen g).trans (hopen g).symm⟩

theorem call (h : Consistent s) (c : Call) : Consistent (s.call cfg c).1 := by
  cases c with
  | openGate w a => exact h.openGate a
  | decide w a => exact h.decide a
  | checkEscalations now => exact h.checkEscalations now

theorem run (h : Consistent s) (calls : List Call) :
    Consistent (s.run cfg calls).1 := by
  induction calls using List.reverseRecOn with
  | nil => exact h
  | append_singleton calls c ih =>
    rw [GatesService.run, List.foldl_append]
    exact ih.call c

end Consistent

-- ==== the result

/-- The latest opening of a gate in a log is not followed by a
decision. -/
def Awaiting (g : String) (log : List AuditEvent) : Prop :=
  ∃ pre e post, log = pre ++ e :: post ∧ e.opens g = true ∧
    ∀ x ∈ post, x.opens g = false ∧ x.actions g = false

theorem phase_unopened {g : String} {log : List AuditEvent} {e : AuditEvent}
    (h : phase g log = .unopened) (he : e.opens g = false) :
    phase g (log ++ [e]) = .unopened := by
  by_cases hid : e.gateId = g
  · subst hid
    rw [phase_snoc_self, h]
    obtain ⟨ts, tenant, run, details⟩ := e
    cases details with
    | gateOpened g' => simp [AuditEvent.opens, AuditEvent.gateId] at he
    | gateActioned => rfl
    | gateRejected => rfl
    | escalated => rfl
  · rw [phase_snoc_other hid, h]

/-- The latest opening of a gate, and what came after it. -/
def LatestOpening (g : String) (log seg : List AuditEvent) : Prop :=
  ∃ pre e, log = pre ++ e :: seg ∧ e.opens g = true ∧
    ∀ x ∈ seg, x.opens g = false

/-- What the monitor sees of a gate is what came after its latest
opening. -/
theorem phase_opened_iff {g : String} {esc act : Bool}
    (log : List AuditEvent) :
    phase g log = .opened esc act ↔ ∃ seg, LatestOpening g log seg ∧
      esc = seg.any (AuditEvent.escalates g) ∧
      act = seg.any (AuditEvent.actions g) := by
  constructor
  · induction log using List.reverseRecOn generalizing esc act with
    | nil => intro h; cases h
    | append_singleton log e ih =>
      intro h
      cases he : e.opens g with
      | true =>
        rw [phase_opens he] at h
        injection h with hesc hact
        refine ⟨[], ⟨log, e, rfl, he, fun x hx => by cases hx⟩, ?_, ?_⟩
        · exact hesc.symm
        · exact hact.symm
      | false =>
        cases hlog : phase g log with
        | unopened =>
          rw [phase_unopened hlog he] at h
          cases h
        | opened esc' act' =>
          have hnext := phase_segment [e] hlog fun x hx =>
            List.mem_singleton.1 hx ▸ he
          rw [h] at hnext
          injection hnext with hesc hact
          obtain ⟨seg, ⟨pre, e', rfl, he', hseg⟩, rfl, rfl⟩ := ih hlog
          refine ⟨seg ++ [e], ⟨pre, e', ?_, he', fun x hx => ?_⟩, ?_, ?_⟩
          · rw [List.append_assoc]
            rfl
          · rcases List.mem_append.1 hx with hx | hx
            · exact hseg x hx
            · exact List.mem_singleton.1 hx ▸ he
          · rw [List.any_append, hesc]
          · rw [List.any_append, hact]
  · rintro ⟨seg, ⟨pre, e, rfl, he, hseg⟩, rfl, rfl⟩
    have hphase := phase_segment seg (phase_opens he pre) hseg
    rw [List.append_assoc] at hphase
    exact hphase

theorem awaiting_iff {g : String} (log : List AuditEvent) :
    Awaiting g log ↔ ∃ esc, phase g log = .opened esc false := by
  constructor
  · rintro ⟨pre, e, post, rfl, he, hpost⟩
    refine ⟨_, (phase_opened_iff _).2 ⟨post, ⟨pre, e, rfl, he, fun x hx =>
      (hpost x hx).1⟩, rfl, ?_⟩⟩
    refine (List.any_eq_false.2 fun x hx => ?_).symm
    rw [(hpost x hx).2]
    exact Bool.false_ne_true
  · rintro ⟨esc, h⟩
    obtain ⟨seg, ⟨pre, e, rfl, he, hseg⟩, _, hact⟩ := (phase_opened_iff _).1 h
    refine ⟨pre, e, seg, rfl, he, fun x hx => ⟨hseg x hx, ?_⟩⟩
    exact Bool.eq_false_of_not_eq_true (List.any_eq_false.1 hact.symm x hx)

namespace Consistent

variable {cfg : Config} {w : World} {s : GatesService}

theorem gate_of_open (h : Consistent s) {g : String}
    (hopen : (s.openGates.get g).isSome = true) :
    ∃ gate, s.escalation.gates.get g = some gate ∧ gate.actioned = false := by
  obtain ⟨esc, hphase⟩ := (h.isOpen g).1 hopen
  have hflags := (h.tracked.phases g).trans hphase
  cases hget : s.escalation.gates.get g with
  | none =>
    rw [hget] at hflags
    cases hflags
  | some gate =>
    rw [hget] at hflags
    injection hflags with _ hact
    exact ⟨gate, rfl, hact⟩

theorem clearance_error (h : Consistent s) {a : DecideArgs}
    (hopen : (s.openGates.get a.gateId).isSome = true) {e : GateError}
    (he : s.clearance cfg w a = .error e) :
    e ≠ .gateNotFound a.gateId ∧ ∀ e', e ≠ .tracker e' := by
  obtain ⟨gate, hgate, _⟩ := h.gate_of_open hopen
  obtain ⟨handle, hget⟩ := Option.isSome_iff_exists.1 hopen
  have hbackup : ∀ {authorityId : String} {e : GateError},
      GatesService.effectiveApprover cfg handle authorityId = .error e →
        ∃ repo, e = .noBackup repo := by
    intro authorityId e heff
    unfold GatesService.effectiveApprover at heff
    split at heff
    · cases heff
    · split at heff
      · exact ⟨_, (Except.error.inj heff).symm⟩
      · cases heff
  have hindex : ∀ {e : GateError},
      GatesService.ownershipRequirement cfg w handle a.touchedFiles =
        .error e → ∃ repo, e = .index repo := by
    intro e hreq
    unfold GatesService.ownershipRequirement at hreq
    split at hreq
    · cases hreq
    · split at hreq
      · split at hreq
        · exact ⟨_, (Except.error.inj hreq).symm⟩
        · cases hreq
      · cases hreq
  unfold GatesService.clearance at he
  rw [hget] at he
  dsimp only at he
  split at he
  · cases he
    exact ⟨by simp, by simp⟩
  · unfold EscalationTracker.currentAuthority at he
    rw [hgate] at he
    dsimp only at he
    split at he
    · next heff =>
      cases he
      obtain ⟨repo, rfl⟩ := hbackup heff
      exact ⟨by simp, by simp⟩
    · next hreq =>
      cases he
      obtain ⟨repo, rfl⟩ := hindex hreq
      exact ⟨by simp, by simp⟩
    · cases he

theorem decide_error (h : Consistent s) {a : DecideArgs}
    (hopen : (s.openGates.get a.gateId).isSome = true) {e : GateError}
    (he : (s.decide cfg w a).2 = .error e) :
    e ≠ .gateNotFound a.gateId ∧ ∀ e', e ≠ .tracker e' := by
  obtain ⟨gate, hgate, hact⟩ := h.gate_of_open hopen
  unfold GatesService.decide at he
  split at he
  · next e' hc =>
    obtain rfl := Except.error.inj he
    exact h.clearance_error hopen hc
  · split at he
    · unfold EscalationTracker.markActioned at he
      rw [hgate] at he
      dsimp only at he
      rw [hact] at he
      cases he
    · cases he

/-- Only a gate that is not open is not found, and nothing else about the
bookkeeping goes wrong. -/
theorem decide_found (h : Consistent s) (a : DecideArgs) :
    ((s.decide cfg w a).2 ≠ .error (.gateNotFound a.gateId) ↔
      (s.openGates.get a.gateId).isSome = true) ∧
    ∀ e, (s.decide cfg w a).2 ≠ .error (.tracker e) := by
  have hnone : (s.openGates.get a.gateId).isSome ≠ true →
      (s.decide cfg w a).2 = .error (.gateNotFound a.gateId) := by
    intro hnone
    have hget : s.openGates.get a.gateId = none := by
      cases hget : s.openGates.get a.gateId with
      | none => rfl
      | some handle => exact absurd (by rw [hget]; rfl) hnone
    unfold GatesService.decide GatesService.clearance
    rw [hget]
  refine ⟨⟨fun hne => ?_, fun hopen heq => ?_⟩, fun e heq => ?_⟩
  · exact not_not.1 fun h' => hne (hnone h')
  · exact (h.decide_error hopen heq).1 rfl
  · by_cases hopen : (s.openGates.get a.gateId).isSome = true
    · exact (h.decide_error hopen heq).2 e rfl
    · rw [hnone hopen] at heq
      cases heq

theorem checkEscalations_again (h : Consistent s) {now now' : DateTime}
    (hle : ∀ gate ∈ s.escalation.candidates,
      DateTime.NotAfter cfg.zones gate.openedAt.tzinfo now' now) :
    ((s.checkEscalations cfg now).1.checkEscalations cfg now').1 =
      (s.checkEscalations cfg now).1 := by
  rw [checkEscalations_state, checkEscalations_state]
  dsimp only
  exact congrArg (GatesService.mk · s.openGates)
    (sweep_again s.escalation.candidates [] [] [] h.tracked rfl hle
      fun _ hg => by cases hg)

end Consistent

/-- The audit log of any calls of the service. Between one opening of a
gate and the next there is at most one decision and one escalation, the
escalation first and the decision's flag telling of it; the gates that
can be decided are those whose latest opening has no decision after it;
and a sweep does nothing after one at the same time, or at one that is
not before it as the gates not yet escalated or actioned see the two. -/
theorem audit_machine (cfg : Config) (calls : List Call) :
    let s := (GatesService.init.run cfg calls).1
    (∀ g pre e seg post, s.auditLog = pre ++ e :: (seg ++ post) →
      e.opens g = true → (∀ x ∈ seg, x.opens g = false) → Segment g seg) ∧
    (∀ w (a : DecideArgs),
      ((s.decide cfg w a).2 ≠ .error (.gateNotFound a.gateId) ↔
        Awaiting a.gateId s.auditLog) ∧
      ∀ e, (s.decide cfg w a).2 ≠ .error (.tracker e)) ∧
    (∀ now : DateTime,
      ((s.checkEscalations cfg now).1.checkEscalations cfg now).1 =
        (s.checkEscalations cfg now).1) ∧
    (∀ now now' : DateTime, (∀ gate ∈ s.escalation.candidates,
        DateTime.NotAfter cfg.zones gate.openedAt.tzinfo now' now) →
      ((s.checkEscalations cfg now).1.checkEscalations cfg now').1 =
        (s.checkEscalations cfg now).1) := by
  have h : Consistent (GatesService.init.run cfg calls).1 :=
    Consistent.init.run calls
  refine ⟨fun g pre e seg post hlog he hseg => ?_, fun w a => ?_,
    fun now => ?_, fun now now' hle => ?_⟩
  · have hsound := h.tracked.sound
    rw [show (GatesService.init.run cfg calls).1.escalation.audit = _
      from hlog] at hsound
    exact hsound.segment he hseg
  · rw [awaiting_iff, ← h.isOpen]
    exact h.decide_found a
  · exact h.checkEscalations_again fun gate _ => DateTime.notAfter_refl _ now
  · exact h.checkEscalations_again hle

-- ------------------------------------------------- the end of summer time

/-- A service in UTC and New York, and a gate opened there. -/
def autumnConfig : Config :=
  { casefold := id
    zones := autumn
    backupApprovers := fun _ => some ⟨"acc-backup", "backup"⟩
    hasCodeowners := false }

/-- A gate due at once. -/
def opening (openedAt : DateTime) : Call :=
  .openGate
    { issue := fun _ => some ⟨some "acc-lead", none⟩
      identify := fun _ => none
      index := fun _ => none }
    { gateId := "g1", tenantId := "t1", runId := "r1", issueKey := "KEY-1"
      repo := "acme/app", gateKind := "risk_checkpoint"
      triggeredBy := ⟨"acc-dev", []⟩, slaBusinessDays := 0
      openedAt := openedAt }

/-- The gates a sweep escalates after another. -/
def sweptAfter (openedAt now now' : DateTime) :
    Except GateError (List String) × Except GateError (List String) :=
  let s := (GatesService.init.run autumnConfig [opening openedAt]).1
  ((s.checkEscalations autumnConfig now).2,
    ((s.checkEscalations autumnConfig now).1.checkEscalations autumnConfig
      now').2)

/-- A sweep at 01:10 by New York's clock, shown for the second time, leaves
a gate opened at 01:20; one at 01:30 forty minutes earlier escalates it.
And a sweep at that 01:30 leaves a gate opened at 05:45 UTC, and one at
that 01:10, which compares as earlier, escalates it. -/
theorem swept_earlier :
    ((pastOne 30 false).utc autumn < (pastOne 10 true).utc autumn ∧
      sweptAfter (pastOne 20 false) (pastOne 10 true) (pastOne 30 false) =
        (.ok [], .ok ["g1"])) ∧
    ((pastOne 30 false).ge autumn (pastOne 10 true) = some true ∧
      sweptAfter ⟨1730612700000000, false, some 0⟩ (pastOne 30 false)
        (pastOne 10 true) = (.ok [], .ok ["g1"])) := by
  decide +kernel

end SdlcOs.Gates
