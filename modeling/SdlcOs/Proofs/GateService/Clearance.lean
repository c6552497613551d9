/-
Who can clear a gate.

Three rules are checked against what a gate was opened with and what the
escalation state is when it is decided: `HandleOf` ties the open gates to
the latest openings among the replies, `Backed` ties the tracker's backup
to the configuration, and the log tells whether the gate was escalated
(`phase_opened_iff`).

The third rule asks of every touched file that one of its owners is among
the actor's handles. Of no files it asks nothing, so a change review
decided with an empty list is cleared by its approver alone
(`empty_review_cleared`).
-/
import SdlcOs.Proofs.GateService.AuditTrail

namespace SdlcOs.Gates

open Data (DateTime Dict TimeZones)

variable {cfg : Config} {w : World} {s : GatesService}

-- ==== the ownership

theorem get_requirementFor (ownership : String → Option (List String))
    (repo : String) (files : List String) (f : String) :
    (requirementFor ownership repo files).ownersByFile.get f =
      if f ∈ files then some ((ownership f).getD []) else none := by
  have hfold : ∀ (files : List String) (d : Dict String (List String)),
      (files.foldl (fun d path => d.set path ((ownership path).getD [])) d).get
        f = if f ∈ files then some ((ownership f).getD []) else d.get f := by
    intro files
    induction files with
    | nil => intro d; rw [if_neg List.not_mem_nil]; rfl
    | cons path files ih =>
      intro d
      rw [List.foldl_cons, ih]
      by_cases hf : f ∈ files
      · rw [if_pos hf, if_pos (List.mem_cons_of_mem path hf)]
      · rw [if_neg hf]
        by_cases hpath : f = path
        · subst hpath
          rw [Dict.get_set_self, if_pos (List.mem_cons_self ..)]
        · rw [Dict.get_set_ne _ hpath, if_neg fun hmem => ?_]
          exact (List.mem_cons.1 hmem).elim hpath hf
  exact hfold files .empty

theorem unsatisfiedFiles_nil (ownership : String → Option (List String))
    (repo : String) (files handles : List String) :
    (requirementFor ownership repo files).unsatisfiedFiles handles = [] ↔
      ∀ f ∈ files, ∃ owner ∈ (ownership f).getD [], owner ∈ handles := by
  unfold OwnershipRequirement.unsatisfiedFiles
  rw [List.map_eq_nil_iff, List.filter_eq_nil_iff]
  constructor
  · intro h f hf
    have hentry := Dict.mem_entries_iff _ |>.2
      ((get_requirementFor ownership repo files f).trans (if_pos hf))
    have howned := h _ hentry
    rw [Bool.not_eq_true', Bool.not_eq_false, List.any_eq_true] at howned
    obtain ⟨owner, howner, hhandle⟩ := howned
    exact ⟨owner, howner, of_decide_eq_true hhandle⟩
  · rintro h ⟨f, owners⟩ hentry
    have hget := Dict.mem_entries_iff _ |>.1 hentry
    rw [get_requirementFor] at hget
    split at hget
    · next hf =>
      obtain rfl := Option.some.inj hget
      obtain ⟨owner, howner, hhandle⟩ := h f hf
      rw [Bool.not_eq_true', Bool.not_eq_false, List.any_eq_true]
      exact ⟨owner, howner, decide_eq_true hhandle⟩
    · cases hget

-- ==== the clearance

theorem clearanceReasons_nil {casefold : String → String} {kind : String}
    {triggeredBy actor : AuthenticatedIdentity} {approver : ApproverIdentity}
    {requirement : Option OwnershipRequirement} :
    clearanceReasons casefold kind triggeredBy actor approver requirement = [] ↔
      normalizedIdentity casefold actor.subjectId ≠
          normalizedIdentity casefold triggeredBy.subjectId ∧
        normalizedIdentity casefold actor.subjectId =
          normalizedIdentity casefold approver.accountId ∧
        (kind = "change_review" → ∃ r, requirement = some r ∧
          r.unsatisfiedFiles actor.handles = []) := by
  unfold clearanceReasons
  rw [List.append_eq_nil_iff, List.append_eq_nil_iff, and_assoc]
  refine and_congr ?_ (and_congr ?_ ?_)
  · split
    · next h => exact iff_of_false (List.cons_ne_nil _ _) (not_not_intro h)
    · next h => exact iff_of_true rfl h
  · split
    · next h => exact iff_of_false (List.cons_ne_nil _ _) h
    · next h => exact iff_of_true rfl (not_not.1 h)
  · split
    · next hkind =>
      split
      · refine iff_of_false (List.cons_ne_nil _ _) fun h => ?_
        obtain ⟨r, hr, _⟩ := h hkind
        cases hr
      · next r =>
        split
        · next hfiles =>
          refine iff_of_false (List.cons_ne_nil _ _) fun h => ?_
          obtain ⟨r', hr', hnil⟩ := h hkind
          obtain rfl := Option.some.inj hr'
          exact hfiles hnil
        · next hfiles =>
          exact iff_of_true rfl fun _ => ⟨r, rfl, not_not.1 hfiles⟩
    · next hkind => exact iff_of_true rfl fun h => absurd h hkind

theorem clearance_inv {a : DecideArgs} {handle : OpenGateHandle}
    {c : GateClearance} (h : s.clearance cfg w a = .ok (handle, c)) :
    ∃ actor authorityId approver requirement,
      s.openGates.get a.gateId = some handle ∧
      w.identify a.credential = some actor ∧
      s.escalation.currentAuthority a.gateId
        handle.defaultApprover.accountId = .ok authorityId ∧
      GatesService.effectiveApprover cfg handle authorityId = .ok approver ∧
      GatesService.ownershipRequirement cfg w handle a.touchedFiles =
        .ok requirement ∧
      c = evaluateGateClearance cfg.casefold handle.gateKind handle.runId
        handle.triggeredBy actor approver requirement := by
  have hget := Consistent.clearance_open h
  unfold GatesService.clearance at h
  rw [hget] at h
  dsimp only at h
  split at h
  · cases h
  · next actor hactor =>
    split at h
    · cases h
    · next authorityId hauthority =>
      split at h
      · cases h
      · cases h
      · next approver requirement happrover hrequirement =>
        exact ⟨actor, authorityId, approver, requirement, hget, hactor,
          hauthority, happrover, hrequirement,
          (Prod.mk.inj (Except.ok.inj h)).2.symm⟩

theorem decide_ok {a : DecideArgs} {c : GateClearance}
    (h : (s.decide cfg w a).2 = .ok c) :
    ∃ handle, s.clearance cfg w a = .ok (handle, c) := by
  unfold GatesService.decide at h
  split at h
  · cases h
  · next handle c' hc =>
    split at h
    · split at h
      · cases h
      · exact ⟨handle, Except.ok.inj h ▸ hc⟩
    · exact ⟨handle, Except.ok.inj h ▸ hc⟩

-- ==== what is carried

/-- The tracker's backup of an open gate is the one configured for its
repository. -/
def Backed (cfg : Config) (s : GatesService) : Prop :=
  ∀ g handle gate, s.openGates.get g = some handle →
    s.escalation.gates.get g = some gate →
      ∃ backup, cfg.backupApprovers handle.repo = some backup ∧
        gate.policy.backupApproverId = backup.accountId

/-- What a call does to the gates of the tracker and of the service: it
opens one, drops some of the service's, or neither; a gate that stays
keeps its policy. -/
inductive Moved (cfg : Config) (s s' : GatesService) : Reply → Prop
  | opened {handle : OpenGateHandle} {gate : OpenGate}
      {backup : ApproverIdentity}
      (hbackup : cfg.backupApprovers handle.repo = some backup)
      (hpolicy : gate.policy.backupApproverId = backup.accountId)
      (hopen : s'.openGates = s.openGates.set handle.gateId handle)
      (hgates : s'.escalation.gates =
        s.escalation.gates.set handle.gateId gate) :
      Moved cfg s s' (.opened (.ok handle))
  | stayed {r : Reply} (hr : r.handle? = none)
      (hopen : ∀ g handle, s'.openGates.get g = some handle →
        s.openGates.get g = some handle)
      (hgates : ∀ g gate, s'.escalation.gates.get g = some gate →
        ∃ gate', s.escalation.gates.get g = some gate' ∧
          gate'.policy = gate.policy) : Moved cfg s s' r

theorem sweep_policy (zones : TimeZones) (now : DateTime) :
    ∀ (gates : List OpenGate) (newly : List String) (t : EscalationTracker),
    (∀ gate ∈ gates, t.gates.get gate.gateId = some gate) →
    (gates.map OpenGate.gateId).Nodup →
    ∀ g gate, (EscalationTracker.sweep zones now gates newly t).1.gates.get g =
      some gate → ∃ gate', t.gates.get g = some gate' ∧
        gate'.policy = gate.policy := by
  intro gates
  induction gates with
  | nil => intro newly t _ _ g gate h; exact ⟨gate, h, rfl⟩
  | cons gate gates ih =>
    intro newly t hmem hnodup g final h
    rw [List.map_cons, List.nodup_cons] at hnodup
    rw [EscalationTracker.sweep] at h
    split at h
    · exact ⟨final, h, rfl⟩
    · have hgates : (t.escalate gate now).gates = t.gates.set gate.gateId
          { gate with escalated := true } := rfl
      have hrest : ∀ gate' ∈ gates,
          (t.escalate gate now).gates.get gate'.gateId = some gate' := by
        intro gate' hgate'
        rw [hgates, Dict.get_set_ne]
        · exact hmem gate' (List.mem_cons_of_mem _ hgate')
        · intro he
          exact hnodup.1 (he ▸ List.mem_map.2 ⟨gate', hgate', rfl⟩)
      obtain ⟨mid, hmid, hpolicy⟩ := ih _ _ hrest hnodup.2 g final h
      rw [hgates] at hmid
      by_cases hg : g = gate.gateId
      · subst hg
        rw [Dict.get_set_self] at hmid
        obtain rfl := Option.some.inj hmid
        exact ⟨gate, hmem gate (List.mem_cons_self ..), hpolicy⟩
      · rw [Dict.get_set_ne _ hg] at hmid
        exact ⟨mid, hmid, hpolicy⟩
    · exact ih newly t (fun g hg => hmem g (List.mem_cons_of_mem _ hg))
        hnodup.2 g final h

theorem moved_openGate (a : OpenArgs) :
    Moved cfg s (s.openGate cfg w a).1 (.opened (s.openGate cfg w a).2) := by
  unfold GatesService.openGate
  split
  · exact .stayed rfl (fun _ _ h => h) fun _ gate h => ⟨gate, h, rfl⟩
  · split
    · exact .stayed rfl (fun _ _ h => h) fun _ gate h => ⟨gate, h, rfl⟩
    · next backup hbackup => exact .opened hbackup rfl rfl rfl

theorem moved_decide (a : DecideArgs) :
    Moved cfg s (s.decide cfg w a).1 (.decided (s.decide cfg w a).2) := by
  refine .stayed rfl ?_ ?_
  · intro g handle h
    unfold GatesService.decide at h
    split at h
    · exact h
    · split at h
      · split at h
        · exact h
        · by_cases hg : g = a.gateId
          · subst hg
            rw [Dict.get_erase_self] at h
            cases h
          · rwa [Dict.get_erase_ne _ hg] at h
      · exact h
  · intro g gate h
    unfold GatesService.decide at h
    split at h
    · exact ⟨gate, h, rfl⟩
    · split at h
      · split at h
        · exact ⟨gate, h, rfl⟩
        · next escalation hmark =>
          obtain ⟨gate', hget, _, rfl⟩ := Tracked.markActioned_ok hmark
          have hgates : ((s.escalation.setGate a.gateId { gate' with
            actioned := true }).record ⟨a.now, gate'.tenantId, gate'.runId,
            .gateActioned a.gateId gate'.gateKind gate'.escalated⟩).gates =
            s.escalation.gates.set a.gateId { gate' with actioned := true } :=
            rfl
          dsimp only at h
          rw [hgates] at h
          by_cases hg : g = a.gateId
          · subst hg
            rw [Dict.get_set_self] at h
            exact ⟨gate', hget, by rw [← Option.some.inj h]⟩
          · rw [Dict.get_set_ne _ hg] at h
            exact ⟨gate, h, rfl⟩
      · exact ⟨gate, h, rfl⟩

theorem moved_checkEscalations (hs : Consistent s) (now : DateTime) :
    Moved cfg s (s.checkEscalations cfg now).1
      (.swept (s.checkEscalations cfg now).2) := by
  have hstate := Consistent.checkEscalations_state cfg s now
  rw [hstate]
  refine .stayed rfl (fun _ _ h => h) fun g gate h => ?_
  exact sweep_policy cfg.zones now s.escalation.candidates [] s.escalation
    (fun gate hgate => (hs.tracked.mem_candidates.1 hgate).1)
    hs.tracked.nodup_candidates g gate h

theorem moved_call (hs : Consistent s) (c : Call) :
    Moved cfg s (s.call cfg c).1 (s.call cfg c).2 := by
  cases c with
  | openGate w a => exact moved_openGate a
  | decide w a => exact moved_decide a
  | checkEscalations now => exact moved_checkEscalations hs now

theorem Backed.moved {s' : GatesService} {r : Reply} (h : Backed cfg s)
    (hmoved : Moved cfg s s' r) : Backed cfg s' := by
  intro g handle gate hopen hgate
  cases hmoved with
  | opened hbackup hpolicy hopen' hgates =>
    next opened gate₀ backup =>
    rw [hopen'] at hopen
    rw [hgates] at hgate
    by_cases hg : g = opened.gateId
    · subst hg
      rw [Dict.get_set_self] at hopen hgate
      obtain rfl := Option.some.inj hopen
      obtain rfl := Option.some.inj hgate
      exact ⟨backup, hbackup, hpolicy⟩
    · rw [Dict.get_set_ne _ hg] at hopen hgate
      exact h g handle gate hopen hgate
  | stayed _ hopen' hgates =>
    obtain ⟨gate', hgate', hpolicy⟩ := hgates g gate hgate
    obtain ⟨backup, hbackup, hid⟩ := h g handle gate' (hopen' g handle hopen)
      hgate'
    exact ⟨backup, hbackup, by rw [← hpolicy, hid]⟩

/-- The open gates are the latest openings. -/
def HandleOf (s : GatesService) (replies : List Reply) : Prop :=
  ∀ g handle, s.openGates.get g = some handle →
    latestHandle g replies = some handle

theorem latestHandle_none {r : Reply} (hr : r.handle? = none) (g : String)
    (replies : List Reply) :
    latestHandle g (replies ++ [r]) = latestHandle g replies := by
  unfold latestHandle
  rw [List.filterMap_append, List.filterMap_cons_none hr, List.filterMap_nil,
    List.append_nil]

theorem latestHandle_opened (handle : OpenGateHandle) (g : String)
    (replies : List Reply) :
    latestHandle g (replies ++ [.opened (.ok handle)]) =
      if handle.gateId = g then some handle else latestHandle g replies := by
  unfold latestHandle
  rw [List.filterMap_append, List.filter_append,
    show [Reply.opened (.ok handle)].filterMap Reply.handle? = [handle] from rfl]
  split
  · next hg =>
    have hkeep : [handle].filter (·.gateId = g) = [handle] :=
      List.filter_cons_of_pos (decide_eq_true hg)
    rw [hkeep, List.getLast?_concat]
  · next hg =>
    rw [List.filter_cons_of_neg (by simpa using hg), List.filter_nil,
      List.append_nil]

theorem HandleOf.moved {s' : GatesService} {r : Reply} {replies : List Reply}
    (h : HandleOf s replies) (hmoved : Moved cfg s s' r) :
    HandleOf s' (replies ++ [r]) := by
  intro g handle hopen
  cases hmoved with
  | opened hbackup hpolicy hopen' hgates =>
    next opened gate backup =>
    rw [latestHandle_opened]
    rw [hopen'] at hopen
    by_cases hg : opened.gateId = g
    · subst hg
      rw [if_pos rfl, ← hopen, Dict.get_set_self]
    · rw [if_neg hg]
      rw [Dict.get_set_ne _ (Ne.symm hg)] at hopen
      exact h g handle hopen
  | stayed hr hopen' hgates =>
    rw [latestHandle_none hr]
    exact h g handle (hopen' g handle hopen)

theorem run_carried (cfg : Config) (calls : List Call) :
    Consistent (GatesService.init.run cfg calls).1 ∧
      Backed cfg (GatesService.init.run cfg calls).1 ∧
      HandleOf (GatesService.init.run cfg calls).1
        (GatesService.init.run cfg calls).2 := by
  induction calls using List.reverseRecOn with
  | nil =>
    refine ⟨.init, fun g handle gate h => ?_, fun g handle h => ?_⟩
    · cases h
    · cases h
  | append_singleton calls c ih =>
    obtain ⟨hconsistent, hbacked, hhandle⟩ := ih
    have hmoved : Moved cfg _ _ _ := moved_call hconsistent c
    rw [GatesService.run, List.foldl_append]
    exact ⟨hconsistent.call c, hbacked.moved hmoved, hhandle.moved hmoved⟩

-- ==== the result

/-- A gate was escalated since it was last opened. -/
def EscalatedSince (g : String) (log : List AuditEvent) : Prop :=
  ∃ seg, LatestOpening g log seg ∧ ∃ x ∈ seg, x.escalates g = true

/-- What a cleared decision owes: the actor did not trigger the gate and
is the authority in force, and owns something of every file of a change
review, of which there are some. -/
structure Rightful (cfg : Config) (w : World) (log : List AuditEvent)
    (handle : OpenGateHandle) (actor : AuthenticatedIdentity)
    (a : DecideArgs) : Prop where
  notTrigger : normalizedIdentity cfg.casefold actor.subjectId ≠
    normalizedIdentity cfg.casefold handle.triggeredBy.subjectId
  standing : ¬ EscalatedSince a.gateId log →
    normalizedIdentity cfg.casefold actor.subjectId =
      normalizedIdentity cfg.casefold handle.defaultApprover.accountId
  backup : EscalatedSince a.gateId log →
    ∃ backup, cfg.backupApprovers handle.repo = some backup ∧
      normalizedIdentity cfg.casefold actor.subjectId =
        normalizedIdentity cfg.casefold backup.accountId
  owned : handle.gateKind = "change_review" →
    ∃ files ownership, a.touchedFiles = some files ∧ files ≠ [] ∧
      w.index handle.repo = some ownership ∧
      ∀ f ∈ files, ∃ owner ∈ (ownership f).getD [], owner ∈ actor.handles

theorem Consistent.escalated_iff (h : Consistent s) {g : String}
    {gate : OpenGate} (hget : s.escalation.gates.get g = some gate) :
    gate.escalated = true ↔ EscalatedSince g s.auditLog := by
  have hphase : phase g s.auditLog = .opened gate.escalated gate.actioned := by
    rw [GatesService.auditLog, ← h.tracked.phases, hget]
    rfl
  constructor
  · intro hesc
    obtain ⟨seg, hseg, hany, _⟩ := (phase_opened_iff _).1 hphase
    rw [hesc] at hany
    exact ⟨seg, hseg, List.any_eq_true.1 hany.symm⟩
  · rintro ⟨seg, hseg, hany⟩
    have hphase' := (phase_opened_iff (g := g) s.auditLog).2
      ⟨seg, hseg, rfl, rfl⟩
    rw [hphase] at hphase'
    injection hphase' with hesc _
    rw [hesc]
    exact List.any_eq_true.2 hany

theorem approver_inForce (hs : Consistent s) (hb : Backed cfg s)
    {g authorityId : String} {handle : OpenGateHandle}
    {approver : ApproverIdentity} (hopen : s.openGates.get g = some handle)
    (hauthority : s.escalation.currentAuthority g
      handle.defaultApprover.accountId = .ok authorityId)
    (happrover : GatesService.effectiveApprover cfg handle authorityId =
      .ok approver) :
    (¬ EscalatedSince g s.auditLog →
      approver.accountId = handle.defaultApprover.accountId) ∧
    (EscalatedSince g s.auditLog →
      ∃ backup, cfg.backupApprovers handle.repo = some backup ∧
        approver.accountId = backup.accountId) := by
  unfold EscalationTracker.currentAuthority at hauthority
  split at hauthority
  · cases hauthority
  · next gate hgate =>
    obtain ⟨backup, hbackup, hid⟩ := hb g handle gate hopen hgate
    obtain rfl := Except.ok.inj hauthority
    unfold GatesService.effectiveApprover at happrover
    rw [← hs.escalated_iff hgate]
    constructor
    · intro hesc
      rw [if_neg hesc, if_pos rfl] at happrover
      rw [← Except.ok.inj happrover]
    · intro hesc
      refine ⟨backup, hbackup, ?_⟩
      rw [if_pos hesc, hid] at happrover
      split at happrover
      · next hsame => rw [← Except.ok.inj happrover, hsame]
      · rw [hbackup] at happrover
        rw [← Except.ok.inj happrover]

/-- Every decision that cleared a gate, after any calls, was rightful
exactly when it was not a change review of no files. -/
theorem clearance_sound (cfg : Config) (calls : List Call) (w : World)
    (a : DecideArgs) (c : GateClearance)
    (hdecide : ((GatesService.init.run cfg calls).1.decide cfg w a).2 = .ok c)
    (hcleared : c.cleared = true) :
    ∃ handle actor,
      latestHandle a.gateId (GatesService.init.run cfg calls).2 =
        some handle ∧
      w.identify a.credential = some actor ∧
      (Rightful cfg w (GatesService.init.run cfg calls).1.auditLog handle actor
        a ↔ ¬ (handle.gateKind = "change_review" ∧
          a.touchedFiles = some [])) := by
  obtain ⟨hs, hb, hhandle⟩ := run_carried cfg calls
  obtain ⟨handle, hclear⟩ := decide_ok hdecide
  obtain ⟨actor, authorityId, approver, requirement, hopen, hactor, hauthority,
    happrover, hrequirement, rfl⟩ := clearance_inv hclear
  refine ⟨handle, actor, hhandle _ _ hopen, hactor, ?_, ?_⟩
  · rintro hrightful ⟨hkind, htouched⟩
    obtain ⟨files, _, hfiles, hne, _⟩ := hrightful.owned hkind
    rw [htouched] at hfiles
    exact hne (Option.some.inj hfiles).symm
  · intro hnonempty
    have hreasons := List.isEmpty_iff.1 hcleared
    rw [clearanceReasons_nil] at hreasons
    obtain ⟨htrigger, hauth, howned⟩ := hreasons
    obtain ⟨hdefault, hbackup⟩ := approver_inForce hs hb hopen hauthority
      happrover
    refine ⟨htrigger, fun hesc => ?_, fun hesc => ?_, fun hkind => ?_⟩
    · rw [hauth, hdefault hesc]
    · obtain ⟨backup, hconf, hid⟩ := hbackup hesc
      exact ⟨backup, hconf, by rw [hauth, hid]⟩
    · obtain ⟨r, rfl, hnil⟩ := howned hkind
      unfold GatesService.ownershipRequirement at hrequirement
      split at hrequirement
      · cases hrequirement
      · next files hfiles =>
        split at hrequirement
        · split at hrequirement
          · cases hrequirement
          · next ownership hindex =>
            obtain rfl := Option.some.inj (Except.ok.inj hrequirement)
            rw [unsatisfiedFiles_nil] at hnil
            refine ⟨files, ownership, hfiles, ?_, hindex, hnil⟩
            rintro rfl
            exact hnonempty ⟨hkind, hfiles⟩
        · cases hrequirement

-- ------------------------------------------------------- runs of the service

/-- A service whose identifiers need no case folding. -/
def plainConfig : Config :=
  { casefold := id
    zones := { utcoffset := fun _ _ _ => some 0 }
    backupApprovers := fun _ => some ⟨"acc-backup", "backup"⟩
    hasCodeowners := true }

/-- An issue of one assignee, two people, and a repository where `@dana`
owns every file. -/
def plainWorld : World :=
  { issue := fun _ => some ⟨some "acc-lead", none⟩
    identify := fun credential =>
      if credential = "lead-token" then some ⟨"acc-lead", []⟩
      else if credential = "dana-token" then some ⟨"acc-lead", ["@dana"]⟩
      else none
    index := fun _ => some fun _ => some ["@dana"] }

/-- So many seconds after the epoch, in UTC. -/
def epoch (seconds : Int) : DateTime := ⟨seconds * 1000000, false, some 0⟩

/-- A change review gate, opened by a third. -/
def reviewGate : Call :=
  .openGate plainWorld
    { gateId := "g1", tenantId := "t1", runId := "r1", issueKey := "KEY-1"
      repo := "acme/app", gateKind := "change_review"
      triggeredBy := ⟨"acc-dev", []⟩, slaBusinessDays := 2, openedAt := epoch 0 }

/-- A decision on it. -/
def reviewDecision (credential : String) (files : List String) : DecideArgs :=
  ⟨"g1", credential, some files, epoch 60⟩

theorem clearance_sound_reviewed :
    ∃ handle actor,
      latestHandle "g1" (GatesService.init.run plainConfig [reviewGate]).2 =
        some handle ∧
      plainWorld.identify "dana-token" = some actor ∧
      (Rightful plainConfig plainWorld
          (GatesService.init.run plainConfig [reviewGate]).1.auditLog handle
          actor (reviewDecision "dana-token" ["src/a.py"]) ↔
        ¬ (handle.gateKind = "change_review" ∧
          (reviewDecision "dana-token" ["src/a.py"]).touchedFiles = some [])) :=
  clearance_sound plainConfig [reviewGate] plainWorld
    (reviewDecision "dana-token" ["src/a.py"])
    ⟨"change_review", "r1", "acc-lead", "acc-lead", true, []⟩
    (by decide) rfl

/-- The approver, who owns no file, clears a change review of no files. -/
theorem empty_review_cleared :
    ∃ c, ((GatesService.init.run plainConfig [reviewGate]).1.decide plainConfig
        plainWorld (reviewDecision "lead-token" [])).2 = .ok c ∧
      c.cleared = true ∧ c.gateKind = "change_review" ∧
      (reviewDecision "lead-token" []).touchedFiles = some [] ∧
      ∀ actor, plainWorld.identify "lead-token" = some actor →
        actor.handles = [] :=
  ⟨⟨"change_review", "r1", "acc-lead", "acc-lead", true, []⟩, by decide, rfl,
    rfl, rfl, by
      intro actor h
      rw [← Option.some.inj h]⟩

end SdlcOs.Gates
