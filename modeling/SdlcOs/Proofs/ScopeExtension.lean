/-
Extending the scope settles the risk it answers.

# What is kept

A risk checkpoint is raised over the record that was just saved and the
plan that is latest, and nothing writes either while it is open: its
files are those of the record that the plan does not declare (`Weighed`).
Every plan in the store has passed its schema, and demoting a group or
widening the scope breaks none of it.

# The call

`resolve_checkpoint` reads the plan once more and saves it with the
checkpoint's files added. From the call's start to that save nothing else
touches the plan, and of the record only the acknowledgements change
(`trail_extension`).

# The files

The checkpoint's files went through the text of its elicitation, and the
plan through two files; both come back as they were
(`extension_settles`).
-/
import SdlcOs.Orchestrator.Elicitation
import SdlcOs.Proofs.Durable
import SdlcOs.Proofs.Honoured

namespace SdlcOs.Orchestrator

open Effects
open Registry (Stage Result ErrorInfo)

namespace ScopeExtension

-- ==== the schema

theorem subtaskErrors_demote (subtasks members : List SubtaskEntry) :
    ((members.map (demote subtasks)).zipIdx.flatMap fun st =>
      subtaskErrors st.2 st.1) =
    members.zipIdx.flatMap fun st => subtaskErrors st.2 st.1 := by
  rw [List.zipIdx_map, List.flatMap_map]
  apply List.flatMap_congr
  intro st _
  show subtaskErrors st.2 (demote subtasks st.1) = subtaskErrors st.2 st.1
  unfold demote
  split
  · rfl
  · split
    · rfl
    · rfl

theorem generated_valid {cfg : Config} {w : World} {out : PlanOutput}
    {text : String} {a : PlanArtifact} (h : Generated cfg w out text a) :
    schemaErrors a = [] := by
  obtain ⟨budget, now, demoted, _, hgen⟩ := h
  simp only [generatePlanArtifact] at hgen
  split at hgen
  · next hvalid =>
    injection hgen with hgen
    injection hgen with hgen _
    rw [← hgen, ← hvalid]
    unfold schemaErrors
    dsimp only [demoteUngovernedParallelGroups]
    rw [subtaskErrors_demote]
  · cases hgen

theorem extended_valid {a : PlanArtifact} (files : List String) (now : Time)
    (h : schemaErrors a = []) :
    schemaErrors (a.extendScope files now) = [] := by
  unfold schemaErrors at h ⊢
  simp only [List.append_eq_nil_iff] at h ⊢
  obtain ⟨⟨⟨⟨⟨hid, -⟩, hcriteria⟩, hsubtasks⟩, hminutes⟩, hcost⟩ := h
  refine ⟨⟨⟨⟨⟨hid, ?_⟩, hcriteria⟩, hsubtasks⟩, hminutes⟩, hcost⟩
  exact if_pos (decide_eq_true (Nat.le_add_left 1 a.planVersion))

-- ==== what is kept

/-- An open risk checkpoint weighs the saved record against the latest
plan. -/
def Weighed (w : World) : Prop :=
  ∀ e, pendingCheckpoint w.run = .ok (some e) → e.trigger = .risk →
    w.run.stage = .implementation ∧
      ∃ p a, w.progress = some p ∧ w.plans.latest = some a ∧
        e.details = .risk (outOfScopeTouches p.filesTouched a.inScope)

/-- The latest plan has passed its schema. -/
def Valid (w : World) : Prop :=
  ∀ a, w.plans.latest = some a → schemaErrors a = []

structure Inv (w : World) : Prop where
  weighed : Weighed w
  valid : Valid w

def spec : Spec where
  inv := Inv

section Kept

variable {w w' : World} {cfg : Config}

theorem weighed_of_noPending (h : w.NoPending) : Weighed w := by
  intro e he
  have hnone : pendingCheckpoint w.run = .ok none := h
  rw [he] at hnone
  cases hnone

theorem inv_cut (h : Inv w) : spec.Cut w := fun _ => ⟨h.weighed, h.valid⟩

/-- Worlds with the plans of a world without a question, and no question
either. -/
theorem inv_rest (hno : w.NoPending) (hvalid : Valid w')
    (hptr : w'.run.checkpointPointer = w.run.checkpointPointer) :
    spec.Cut w' ∧ Inv w' := by
  have h : Inv w' :=
    ⟨weighed_of_noPending (World.noPending_congr hptr hno), hvalid⟩
  exact ⟨inv_cut h, h⟩

theorem inv_moves {next : Stage} (hno : w.NoPending) (hvalid : Valid w')
    (hptr : w'.run.checkpointPointer = w.run.checkpointPointer) :
    spec.Moves w' next Inv := by
  obtain ⟨hc, h⟩ : spec.Cut (w'.moved next) ∧ Inv (w'.moved next) :=
    inv_rest hno hvalid hptr
  exact ⟨trivial, hc, h⟩

theorem inv_pausedAt {t : CheckpointTrigger} {id : String} {at' : Time}
    (hvalid : Valid w')
    (hrisk : t.kind = .risk → w'.run.stage = .implementation ∧
      ∃ p a, w'.progress = some p ∧ w'.plans.latest = some a ∧
        t.details = .risk (outOfScopeTouches p.filesTouched a.inScope)) :
    spec.Cut (w'.pausedAt t id at') ∧ Inv (w'.pausedAt t id at') := by
  have h : Inv (w'.pausedAt t id at') := by
    refine ⟨?_, hvalid⟩
    intro e he htrigger
    have hquestion := World.question_of_pending he
    rw [World.question_pausedAt] at hquestion
    obtain rfl := Option.some.inj hquestion
    exact hrisk htrigger
  exact ⟨inv_cut h, h⟩

theorem inv_stuckAt {p : RunProgress} {id : String} {at' : Time}
    (hvalid : Valid w') :
    spec.Cut (w'.pausedAt (stuckAt p) id at') ∧
      Inv (w'.pausedAt (stuckAt p) id at') :=
  inv_pausedAt hvalid fun h => by cases h

theorem risk_of_openTriggers {p : RunProgress} {scope : List String}
    {budget : Budget} {now : Time} {t : CheckpointTrigger}
    (h : t ∈ openTriggers p scope budget now) (hkind : t.kind = .risk) :
    t.details = .risk (outOfScopeTouches p.filesTouched scope) := by
  unfold openTriggers unacknowledged at h
  rcases mem_evaluateCheckpoints.1 (List.mem_filter.1 h).1 with h | h | h | h
  · rw [checkSize_kind h] at hkind
    cases hkind
  · exact (checkRisk_kind h).2
  · rw [checkTimeCost_kind h] at hkind
    cases hkind
  · unfold checkStuck at h
    split at h
    · injection h with h
      rw [← h] at hkind
      cases hkind
    · cases h

theorem inv_implStep {artifact : PlanArtifact} {p : RunProgress}
    (hst : w.run.stage = .implementation) (hno : w.NoPending)
    (hvalid : Valid w)
    (hplan : w.plans.latest = some artifact) :
    spec.ImplStep cfg w artifact p (spec.ImplDone Inv) := by
  have hrest : ∀ w' : World, w'.plans = w.plans →
      w'.run.checkpointPointer = w.run.checkpointPointer →
        spec.Cut w' ∧ Inv w' := by
    intro w' hplans hptr
    refine inv_rest hno ?_ hptr
    unfold Valid
    rw [hplans]
    exact hvalid
  have hcut : ∀ w' : World, w'.plans = w.plans →
      w'.run.checkpointPointer = w.run.checkpointPointer → spec.Cut w' :=
    fun w' hplans hptr => (hrest w' hplans hptr).1
  have hfail : ∀ ev, spec.FailStep ((w.progressSaved p).record ev) p
      (spec.ImplDone Inv) := fun ev =>
    { saved := hcut _ rfl rfl
      paused := fun _ _ _ => inv_stuckAt hvalid
      proceed := fun _ => hrest _ rfl rfl }
  have hverify : ∀ w' : World, w'.plans = w.plans →
      w'.run.checkpointPointer = w.run.checkpointPointer →
        spec.ImplDone Inv .verify w' := by
    intro w' hplans hptr
    have h := hrest w' hplans hptr
    exact ⟨h.1, inv_moves hno h.2.valid hptr⟩
  exact
    { loaded := hcut _ rfl rfl
      verify := fun _ _ => hverify _ rfl rfl
      may := trivial
      fixupRaised := fun _ _ _ _ _ => ⟨hcut _ rfl rfl, hfail _⟩
      fixup := fun _ _ _ _ _ => ⟨hcut _ rfl rfl, hverify _ rfl rfl⟩
      batchRaised := fun _ _ _ _ _ _ => ⟨hcut _ rfl rfl, hfail _⟩
      batch := fun _ _ _ _ _ _ => ⟨hcut _ rfl rfl,
        { saved := hcut _ rfl rfl
          paused := fun _ _ t _ _ hopen _ _ =>
            inv_pausedAt hvalid fun hkind =>
              ⟨hst, _, artifact, rfl, hplan, risk_of_openTriggers
                (hopen ▸ List.mem_cons_self) hkind⟩
          proceed := fun _ _ _ _ _ => hrest _ rfl rfl
          verify := fun _ _ _ _ _ => hverify _ rfl rfl }⟩ }

theorem inv_turns (hno : w.NoPending) (hvalid : Valid w) :
    spec.Turns cfg w Inv Inv := by
  have hcut : ∀ w' : World, w'.plans = w.plans →
      w'.run.checkpointPointer = w.run.checkpointPointer →
        spec.Cut w' := by
    intro w' hplans hptr
    refine (inv_rest hno ?_ hptr).1
    unfold Valid
    rw [hplans]
    exact hvalid
  have hsaved : ∀ (out : PlanOutput) (text : String) (a : PlanArtifact),
      Generated cfg w out text a →
        Valid ((w.record (.authored out)).planSaved a) := by
    intro out text a ha b hb
    rw [← Option.some.inj hb]
    exact generated_valid ha
  exact
    { intake := fun _ => inv_moves hno hvalid rfl
      research := fun _ => inv_moves hno hvalid rfl
      author := fun _ out _ => ⟨hcut _ rfl rfl, fun a ha =>
        ⟨(inv_rest hno (hsaved out _ a ha) rfl).1,
          inv_moves hno (hsaved out _ a ha) rfl⟩⟩
      implement := fun hst _ _ hplan _ => inv_implStep hst hno hvalid hplan
      verify := fun _ =>
        { may := trivial
          called := fun _ _ => hcut _ rfl rfl
          loaded := fun _ _ _ _ => hcut _ rfl rfl
          passed := fun _ _ _ _ _ =>
            ⟨hcut _ rfl rfl, inv_moves hno hvalid rfl⟩
          failed := fun _ _ _ _ _ => hcut _ rfl rfl
          stuck := fun _ _ _ _ _ _ _ _ => inv_stuckAt hvalid
          retry := fun _ _ _ _ _ _ =>
            ⟨hcut _ rfl rfl, inv_moves hno hvalid rfl⟩ }
      package := fun _ _ => ⟨trivial, fun _ =>
        ⟨hcut _ rfl rfl, inv_moves hno hvalid rfl⟩⟩
      unpackaged := fun _ _ => inv_moves hno hvalid rfl
      retrospective := fun _ => inv_moves hno hvalid rfl }

theorem inv_of_gate (h : Inv w) (hst : w.run.stage ≠ .implementation)
    (hvalid : Valid w')
    (hptr : w'.run.checkpointPointer = w.run.checkpointPointer) :
    Inv w' := by
  refine ⟨?_, hvalid⟩
  intro e he hrisk
  have hpend : pendingCheckpoint w.run = .ok (some e) := by
    rw [pendingCheckpoint, ← hptr]
    exact he
  exact absurd (h.weighed e hpend hrisk).1 hst

theorem inv_keeps (cfg : Config) : spec.Keeps cfg where
  cut := fun _ h => inv_cut h
  called := fun _ _ h _ => ⟨h.weighed, h.valid⟩
  turn := fun _ h hno => inv_turns hno h.valid
  plan := by
    intro w id decision feedback h _ _ hst
    have hgate : ∀ w' : World, Valid w' →
        w'.run.checkpointPointer = w.run.checkpointPointer → Inv w' :=
      fun w' hvalid hptr =>
        inv_of_gate h (by rw [hst]; decide) hvalid hptr
    have hsaved : ∀ (w₁ : World) (out : PlanOutput) (text : String)
        (a : PlanArtifact), Generated cfg w₁ out text a →
          ∀ b, some a = some b → schemaErrors b = [] := by
      intro w₁ out text a ha b hb
      rw [← Option.some.inj hb]
      exact generated_valid ha
    exact
      { approved := fun _ =>
          ⟨inv_cut (hgate _ h.valid rfl), fun _ => hgate _ h.valid rfl⟩
        reattempted := fun _ _ => inv_cut (hgate _ h.valid rfl)
        replanned := fun _ _ out _ => ⟨inv_cut (hgate _ h.valid rfl),
          fun a ha => ⟨inv_cut (hgate _ (hsaved _ out _ a ha) rfl),
            hgate _ (hsaved _ out _ a ha) rfl⟩⟩
        rejected := fun _ => hgate _ h.valid rfl }
  review := by
    intro w id decision feedback h _ _ hst
    have hgate : ∀ w' : World, w'.plans = w.plans →
        w'.run.checkpointPointer = w.run.checkpointPointer → Inv w' := by
      intro w' hplans hptr
      refine inv_of_gate h (by rw [hst]; decide) ?_ hptr
      unfold Valid
      rw [hplans]
      exact h.valid
    exact ⟨fun _ => hgate _ rfl rfl, fun _ => hgate _ rfl rfl,
      fun _ => hgate _ rfl rfl⟩
  resolve := by
    intro w id decision note e now h _ _ _
    obtain ⟨w', hw'⟩ : ∃ w', w' = Spec.answeredBy (w.record (.called
      (.resolveCheckpoint id decision note))) e decision note now := ⟨_, rfl⟩
    have hno : w'.NoPending := by
      rw [hw']
      exact Spec.noPending_answeredBy _ e decision note now
    have hvalid : Valid w' := by
      rw [hw']
      exact h.valid
    have hacked : Valid (Spec.acked w' e) := by
      unfold Valid
      rw [Spec.acked_plans]
      exact hvalid
    have hptr := congrArg (·.checkpointPointer) (Spec.acked_run w' e)
    rw [hw'] at hno hvalid hacked hptr
    have hrest : ∀ w'' : World, Valid w'' →
        w''.run.checkpointPointer = _ → Inv w'' :=
      fun _ hvalid hptr => (inv_rest hno hvalid hptr).2
    exact
      { answered := inv_cut (hrest _ hvalid rfl)
        stopped := fun _ _ => hrest _ hvalid rfl
        acknowledged := fun _ => inv_cut (hrest _ hacked hptr)
        extended := by
          intro _ _ artifact at' hlatest
          refine hrest _ ?_ hptr
          intro b hb
          rw [← Option.some.inj hb]
          exact extended_valid _ _ (h.valid artifact hlatest)
        continued := fun _ _ => hrest _ hacked hptr }

theorem inv_of_reach {s : State Unit}
    (hs : (machine cfg).Reach (Initial cfg) (fun _ _ => True) s)
    (hidle : s.procs () = none) : Inv s.world := by
  have hset := (inv_keeps cfg).settled (fun w hw => ?_)
    (Spec.covers_free rfl) hs
  · exact hset.resting fun _ => hidle
  · refine ⟨weighed_of_noPending ?_, ?_⟩
    · show pendingCheckpoint w.run = .ok none
      rw [pendingCheckpoint, hw.row.2]
    · obtain ⟨_, _, _, _, _, _, _, _, _, hplans, _⟩ := hw
      intro a ha
      rw [hplans] at ha
      cases ha

end Kept

-- ==== the call

/-- The plan is extended, and of the record only the acknowledgements
moved. -/
structure Extended (e : Elicitation) (w₀ w : World) (old new : PlanArtifact) :
    Prop where
  latest : w₀.plans.latest = some old
  widened : ∃ now, new = old.extendScope e.details.outOfScopeFiles now
  plans : w.plans = w₀.plans.save new
  progress : w.progress = (Spec.acked w₀ e).progress

/-- The plans are as they were, or the plan is extended. -/
def Midway (e : Elicitation) (w₀ : World) (_ : List Decisions.Mark)
    (w : World) : Prop :=
  w.plans = w₀.plans ∨ ∃ old new, Extended e w₀ w old new

section Calls

variable {cfg : Config} {w₀ w w' : World} {e : Elicitation}
variable {id : String} {note : Option String}

theorem acked_progress (h : w.progress = w'.progress) :
    (Spec.acked w e).progress = (Spec.acked w' e).progress := by
  unfold Spec.acked
  rw [h]
  split
  · rfl
  · exact h

/-- Every point of `resolve_checkpoint` with "extend_scope". -/
theorem trail_extension (hq : pendingCheckpoint w₀.run = .ok (some e))
    (hrisk : e.trigger = .risk) :
    Decisions.Trail cfg (Midway e w₀) (fun _ => Midway e w₀)
      (resolveCheckpoint cfg id "extend_scope" note) []
      (w₀.record (.called (.resolveCheckpoint id "extend_scope" note))) := by
  have hsame : ∀ ms (w : World), w.plans = w₀.plans → Midway e w₀ ms w :=
    fun _ _ h => Or.inl h
  unfold resolveCheckpoint
  refine Decisions.trail_seq (Decisions.trail_getRun (hsame _ _ rfl)
    fun _ _ => ?_)
  split
  · exact hsame _ _ rfl
  · exact hsame _ _ rfl
  · next e' hpend =>
    obtain rfl : e = e' := by
      have h := hq.symm.trans hpend
      injection h with h
      exact Option.some.inj h
    refine Decisions.trail_seq (Decisions.trail_quiet rfl (hsame _ _ rfl)
      fun now => ?_)
    refine Decisions.trail_seq (Decisions.trail_writeCheckpointPointer rfl
      (hsame _ _ rfl) ?_)
    rw [if_neg (by decide)]
    refine Decisions.trail_seq (Decisions.trail_acknowledge (hsame _ _ rfl)
      fun ms' _ => ?_)
    rw [if_pos ⟨rfl, hrisk⟩]
    have hplans := Spec.acked_plans (Spec.answeredBy (w₀.record (.called
      (.resolveCheckpoint id "extend_scope" note))) e "extend_scope" note
      now) e
    refine Decisions.trail_seq (Decisions.trail_extendDeclaredScope
      (hsame _ _ hplans) fun old at' hlatest => ?_)
    rw [Spec.acked_plans] at hlatest
    have hdone : ∀ w : World,
        w.plans = w₀.plans.save (old.extendScope e.details.outOfScopeFiles
          at') →
          w.progress = (Spec.acked w₀ e).progress → Midway e w₀ [] w :=
      fun _ hplans hprogress => Or.inr ⟨old, _,
        ⟨hlatest, ⟨at', rfl⟩, hplans, hprogress⟩⟩
    have hsaved := congrArg
      (·.save (old.extendScope e.details.outOfScopeFiles at')) hplans
    exact Decisions.trail_seq (Decisions.trail_getRun
      (hdone _ hsaved (acked_progress rfl))
      fun _ _ => hdone _ hsaved (acked_progress rfl))

end Calls

-- ==== runs

section Runs

variable {cfg : Config} {c : Call} {w₀ : World} {e : Elicitation}
variable {s s' : State Unit}

/-- While the call runs every point ahead of it is known; once it is over
its last point holds. -/
def Following (cfg : Config) (c : Call) (e : Elicitation) (w₀ : World)
    (s : State Unit) : Prop :=
  (∃ lg prog, s.procs () = some ⟨.entry c, lg, prog⟩ ∧
    Decisions.Trail cfg (Midway e w₀) (fun _ => Midway e w₀) prog
      (Machine.recollect Decisions.note [] lg) s.world) ∨
  (¬ Decisions.Calling c s ∧ Midway e w₀ [] s.world)

theorem midway_of_trail {prog : Code Turn} {ms : List Decisions.Mark}
    {w : World}
    (h : Decisions.Trail cfg (Midway e w₀) (fun _ => Midway e w₀) prog ms
      w) : Midway e w₀ [] w := by
  cases prog with
  | ret t => exact h
  | raise x => exact h
  | op r k => exact h.1

theorem midway_of_following (h : Following cfg c e w₀ s) :
    Midway e w₀ [] s.world := by
  rcases h with ⟨lg, prog, _, htrail⟩ | ⟨_, h⟩
  · exact midway_of_trail htrail
  · exact h

theorem midway_onStop {w : World} (h : Midway e w₀ [] w) :
    Midway e w₀ [] ((machine cfg).onStop w) := by
  rcases h with h | ⟨old, new, h⟩
  · exact Or.inl h
  · exact Or.inr ⟨old, new, ⟨h.latest, h.widened, h.plans, h.progress⟩⟩

theorem following_step {a : Act Unit} (h : Following cfg c e w₀ s)
    (hc : Decisions.Calling c s) (happ : (machine cfg).apply a s = some s') :
    Following cfg c e w₀ s' := by
  rcases h with ⟨lg, prog, hproc, htrail⟩ | ⟨hover, _⟩
  · have hw := midway_of_trail htrail
    have hnone : ∀ {w : World}, Midway e w₀ [] w →
        Following cfg c e w₀ (s.put w () none) := by
      intro w hw
      refine Or.inr ⟨?_, hw⟩
      rintro ⟨lg, prog, hp⟩
      rw [Sys.put_procs_self] at hp
      cases hp
    cases Machine.apply_inv happ with
    | @call p c' hp =>
      rw [hproc] at hp
      cases hp
    | @done p ans pr b hp hprog => exact hnone hw
    | @again p ans pr run hp hprog =>
      refine Or.inr ⟨?_, hw⟩
      rintro ⟨lg', prog', hp'⟩
      rw [Sys.put_procs_self] at hp'
      cases hp'
    | @raised p ans pr x hp hprog => exact hnone (midway_onStop hw)
    | @op p ans pr r k x hp hprog hx =>
      obtain rfl := Option.some.inj (hproc.symm.trans hp)
      obtain rfl : prog = _ := hprog
      exact Or.inl ⟨_, _, Sys.put_procs_self .., htrail.2 x⟩
    | @crash p pr hp => exact hnone (midway_onStop hw)
  · exact absurd hc hover

theorem following_of_leads (hs : Following cfg c e w₀ s)
    (hrun : (machine cfg).Leads (fun s _ => Decisions.Calling c s) s s') :
    Following cfg c e w₀ s' := by
  induction hrun with
  | refl => exact hs
  | step _ hc happ ih => exact following_step ih hc happ

end Runs

-- ==== the extension

/-- What an extension owes: the record's diff strays no more from the
latest plan, which is the next version of the previous one, still passes
its schema and differs from it in nothing but a wider scope and its date. -/
structure Settles (w₀ w : World) (old new : PlanArtifact) : Prop where
  before : w₀.plans.latest = some old
  latest : w.plans.latest = some new
  settled : ∃ p₀ p, w₀.progress = some p₀ ∧ w.progress = some p ∧
    p.diffStats = p₀.diffStats ∧ checkRisk p.diffStats new.inScope = none
  valid : schemaErrors new = []
  version : new.planVersion = old.planVersion + 1
  keepsScope : ∀ file ∈ old.inScope, file ∈ new.inScope
  rest : { new with inScope := old.inScope, planVersion := old.planVersion
                    generatedAt := old.generatedAt } = old
  earlier : ∀ v, v ≠ new.planVersion →
    w.plans.versions.lookup v = w₀.plans.versions.lookup v
  own : w.plans.versions.lookup new.planVersion = some new

section Extension

variable {w₀ w : World} {e : Elicitation} {old new : PlanArtifact}

theorem acked_diffStats {p : RunProgress} (hp : w.progress = some p) :
    ∃ q, (Spec.acked w e).progress = some q ∧ q.diffStats = p.diffStats := by
  unfold Spec.acked
  rw [hp]
  cases hs : e.signature with
  | none => exact ⟨p, hp, rfl⟩
  | some signature =>
    refine ⟨_, rfl, ?_⟩
    unfold RunProgress.acknowledge
    split
    · rfl
    · rfl

theorem settles_of_extended (hinv : Inv w₀)
    (hq : pendingCheckpoint w₀.run = .ok (some e)) (hrisk : e.trigger = .risk)
    (h : Extended e w₀ w old new) : Settles w₀ w old new := by
  obtain ⟨hlatest, ⟨now, rfl⟩, hplans, hprogress⟩ := h
  obtain ⟨_, p₀, a, hp₀, ha, hdetails⟩ := hinv.weighed e hq hrisk
  obtain rfl : old = a := Option.some.inj (hlatest.symm.trans ha)
  obtain ⟨p, hp, hdiff⟩ := acked_diffStats (e := e) hp₀
  have hscope : ∀ file, file ∈ (old.extendScope e.details.outOfScopeFiles
      now).inScope ↔ file ∈ old.inScope ∨ file ∈ e.details.outOfScopeFiles :=
    fun file => mem_sortedSet.trans List.mem_append
  exact
    { before := hlatest
      latest := by rw [hplans]; rfl
      settled := by
        refine ⟨p₀, p, hp₀, hprogress.trans hp, hdiff, ?_⟩
        rw [hdiff]
        apply checkRisk_eq_none
        intro file hfile
        rw [hscope]
        by_cases hin : file ∈ old.inScope
        · exact Or.inl hin
        · right
          rw [hdetails]
          exact mem_sortedSet.2 (List.mem_filter.2
            ⟨hfile, decide_eq_true hin⟩)
      valid := extended_valid _ _ (hinv.valid old hlatest)
      version := rfl
      keepsScope := fun file hfile => (hscope file).2 (Or.inl hfile)
      rest := rfl
      earlier := by
        intro v hv
        rw [hplans]
        unfold PlanStore.save
        rw [List.lookup_cons, beq_false_of_ne hv]
        exact Durable.lookup_filter hv _
      own := by
        rw [hplans]
        unfold PlanStore.save
        rw [List.lookup_cons, beq_self_eq_true] }

open Durable PlanArtifactStore

theorem files_of_text (T : Texts) (reasonText : Reason → String)
    {files : List String} (h : e.details = .risk files) :
    ∃ r, ElicitationRecord.fromJson T
        ((ElicitationRecord.of T reasonText e).toJson T) = .ok r ∧
      r.outOfScopeFiles = .ok files := by
  refine ⟨_, ElicitationRecord.fromJson_toJson T _, ?_⟩
  unfold ElicitationRecord.outOfScopeFiles ElicitationRecord.of
  rw [h]
  simp [ProgressRecord.optional, ProgressRecord.required, Members.get,
    detailsDict, asStrs_strs]

/-- The files after the new version's save: it is in both of its own, and
no other version's is touched. -/
structure OnDisk (T : Texts) (d d' : Files.Dir (String × String))
    (new : PlanArtifact) : Prop where
  latest : loadLatest T d' new.runId = .ok (some (.obj (planDict T new)))
  own : loadVersion T d' new.runId new.planVersion =
    .ok (some (.obj (planDict T new)))
  earlier : ∀ v : Nat, v ≠ new.planVersion →
    loadVersion T d' new.runId v = loadVersion T d new.runId v

theorem onDisk_of_extends {T : Texts} {budgets : StorySize → Option Budget}
    {d : Files.Dir (String × String)} {store : PlanStore}
    {files : List String} {now : Time} {stop : Nat}
    (hlatest : store.latest = some old)
    (hd : Represents T d old.runId store)
    (huncut : ∀ ws, Save.writes T budgets d
        ⟨old.runId, .extend files, now, stop⟩ = .ok ws →
      (Files.ops ws).length ≤ stop) :
    OnDisk T d
      (Save.run T budgets d ⟨old.runId, .extend files, now, stop⟩)
      (old.extendScope files now) := by
  have hrun := Represents.run (s := ⟨old.runId, .extend files, now, stop⟩)
    hd huncut
  have happly : applySave budgets store
      ⟨old.runId, .extend files, now, stop⟩ =
      store.save (old.extendScope files now) := by
    unfold applySave
    rw [hlatest]
  rw [happly] at hrun
  refine ⟨hrun.latest, ?_, fun v hv => ?_⟩
  · rw [show (old.extendScope files now).runId = old.runId from rfl,
      hrun.versions]
    unfold PlanStore.save
    rw [List.lookup_cons, beq_self_eq_true]
    rfl
  · rw [show (old.extendScope files now).runId = old.runId from rfl,
      hrun.versions, hd.versions]
    unfold PlanStore.save
    rw [List.lookup_cons, beq_false_of_ne hv]
    exact congrArg (fun o => Except.ok (Option.map _ o))
      (lookup_filter hv store.versions)

end Extension

/-- Once `resolve_checkpoint` with "extend_scope" has written the plan of
a run that waits at a risk checkpoint, the diff is within the scope of
the latest plan, and nothing else about the plans has changed; the files
are those its elicitation reads back, and the save puts the new version
in its two files and touches no other. -/
theorem extension_settles (cfg : Config) {s₀ s₁ s : State Unit}
    {e : Elicitation} {id : String} {note : Option String}
    (hs₀ : (machine cfg).Reach (Initial cfg) (fun _ _ => True) s₀)
    (hq : s₀.world.question = some e) (hrisk : e.trigger = .risk)
    (hcall : (machine cfg).apply
      (.call () (.resolveCheckpoint id "extend_scope" note)) s₀ = some s₁)
    (hrun : (machine cfg).Leads (fun s _ => Decisions.Calling
      (.resolveCheckpoint id "extend_scope" note) s) s₁ s)
    (hwritten : s.world.plans ≠ s₀.world.plans) :
    ∃ old new, Settles s₀.world s.world old new ∧
      ∀ (T : Durable.Texts) (reasonText : Reason → String),
        ∃ r files now, Durable.ElicitationRecord.fromJson T
            ((Durable.ElicitationRecord.of T reasonText e).toJson T) =
              .ok r ∧
          r.outOfScopeFiles = .ok files ∧
          new = old.extendScope files now ∧
          ∀ budgets d stop,
            Durable.Represents T d old.runId s₀.world.plans →
            (∀ ws, Durable.Save.writes T budgets d
                ⟨old.runId, .extend files, now, stop⟩ = .ok ws →
              (Files.ops ws).length ≤ stop) →
            OnDisk T d (Durable.Save.run T budgets d
              ⟨old.runId, .extend files, now, stop⟩) new := by
  have hpend := World.pending_of_question hq
  have hfollow : Following cfg (.resolveCheckpoint id "extend_scope" note) e
      s₀.world s₁ := by
    cases Machine.apply_inv hcall with
    | @call p c' hp =>
      exact Or.inl ⟨[], _, Sys.put_procs_self ..,
        trail_extension hpend hrisk⟩
  have hinv : Inv s₀.world := by
    cases Machine.apply_inv hcall with
    | @call p c' hp => exact inv_of_reach hs₀ hp
  have hmid := midway_of_following (following_of_leads hfollow hrun)
  rcases hmid with hsame | ⟨old, new, hext⟩
  · exact absurd hsame hwritten
  · refine ⟨old, new, settles_of_extended hinv hpend hrisk hext,
      fun T reasonText => ?_⟩
    obtain ⟨now, rfl⟩ := hext.widened
    obtain ⟨_, p, a, _, _, hdetails⟩ := hinv.weighed e hpend hrisk
    obtain ⟨r, hr, hfiles⟩ := files_of_text T reasonText hdetails
    have hscope : e.details.outOfScopeFiles = outOfScopeTouches
        p.filesTouched a.inScope := congrArg Details.outOfScopeFiles hdetails
    rw [← hscope] at hfiles
    exact ⟨r, _, now, hr, hfiles, rfl, fun budgets d stop hd huncut =>
      onDisk_of_extends hext.latest hd huncut⟩

/-- The process is in the call. -/
def inCall (c : Call) (s : State Unit) : Bool :=
  match s.procs () with
  | some ⟨.entry c', _, _⟩ => decide (c' = c)
  | _ => false

theorem calling_of_inCall {c : Call} {s : State Unit}
    (h : inCall c s = true) : Decisions.Calling c s := by
  unfold inCall at h
  split at h
  · next c' lg prog hp =>
    obtain rfl := of_decide_eq_true h
    exact ⟨lg, prog, hp⟩
  · cases h

/-- The stray file of the sample is let into the scope. -/
theorem extension_settles_strayed :
    ∃ (s₀ s₁ s : State Unit) (e : Elicitation),
      (machine Sample.cfg).Reach (Initial Sample.cfg) (fun _ _ => True) s₀ ∧
      s₀.world.question = some e ∧ e.trigger = .risk ∧
      (machine Sample.cfg).apply
        (.call () (.resolveCheckpoint "run" "extend_scope" none)) s₀ =
          some s₁ ∧
      s.world.plans ≠ s₀.world.plans ∧
      ∃ old new, Settles s₀.world s.world old new := by
  obtain ⟨s₀, hs₀, htest⟩ := reach_of_plays_free Sample.initial_sample
    (Sample.strayed () [Sample.task "t1", Sample.task "t2"])
    (fun s₀ => s₀.world.question.any (fun e => decide (e.trigger = .risk)) &&
      continues Sample.cfg () (.resolveCheckpoint "run" "extend_scope" none)
        (fun s _ => inCall (.resolveCheckpoint "run" "extend_scope" none) s)
        (.step () .auto :: answering () (.time 0) 4 ++
          answering () (.time 0) 1)
        (fun s => decide (s.world.plans ≠ s₀.world.plans)) s₀)
    (by decide +kernel)
  rw [Bool.and_eq_true] at htest
  obtain ⟨e, hq, hrisk⟩ := (Option.any_eq_true _ _).1 htest.1
  obtain ⟨s₁, s, hcall, hrun, hwritten⟩ := continues_inv
    (fun _ _ hc => calling_of_inCall hc) htest.2
  obtain ⟨old, new, hsettles, _⟩ := extension_settles Sample.cfg hs₀ hq
    (of_decide_eq_true hrisk) hcall hrun (of_decide_eq_true hwritten)
  exact ⟨s₀, s₁, s, e, hs₀, hq, of_decide_eq_true hrisk, hcall,
    of_decide_eq_true hwritten, old, new, hsettles⟩

end ScopeExtension

end SdlcOs.Orchestrator
