/-
Contracts before parallel writes.

# The repair

`_demote_ungoverned_parallel_groups` takes a group away as a whole: after
it a group has either all of its members or none (`groupMembers_demoted`),
and of what is left no group of two or more lacks a contract. So a second
repair finds nothing (`demote_again`).

# The run

A plan is stored as the generator made it, or with its scope extended,
which leaves the subtasks alone: the latest plan is always a repaired one.
A batch of two or more is a part of one group of it, picked among the
entries that are ready; and since no entry of the batch is done yet while
every dependency of each is, none of them waits for another.
-/
import SdlcOs.Data.Keyed
import SdlcOs.Orchestrator.Script
import SdlcOs.Proofs.Seq.Turn

namespace SdlcOs.Orchestrator

open Effects
open Registry (Stage)

namespace Governed

-- ==== the repair

variable {subtasks : List SubtaskEntry} {st : SubtaskEntry} {g : String}

/-- An entry of a named group that is ungoverned. -/
def Demoted (subtasks : List SubtaskEntry) (st : SubtaskEntry) : Prop :=
  ∃ g, st.parallelGroup = some g ∧ g ≠ "" ∧ ungoverned subtasks g = true

/-- No named group is ungoverned. -/
def AllGoverned (subtasks : List SubtaskEntry) : Prop :=
  ∀ g, g ≠ "" → ungoverned subtasks g = false

theorem demote_of_demoted (h : Demoted subtasks st) :
    demote subtasks st = { st with parallelGroup := none, mode := .sequential
      } := by
  obtain ⟨g, hg, hne, hun⟩ := h
  unfold demote
  rw [hg]
  exact if_pos ⟨hne, hun⟩

theorem demote_of_not_demoted (h : ¬ Demoted subtasks st) :
    demote subtasks st = st := by
  unfold demote
  split
  · rfl
  · next g hg => exact if_neg fun hc => h ⟨g, hg, hc⟩

/-- Two entries that differ in their group and mode at most. -/
structure SameButGroup (st st' : SubtaskEntry) : Prop where
  taskId : st'.taskId = st.taskId
  description : st'.description = st.description
  dependsOn : st'.dependsOn = st.dependsOn
  interfaceContract : st'.interfaceContract = st.interfaceContract

theorem sameButGroup_demote (subtasks : List SubtaskEntry)
    (st : SubtaskEntry) : SameButGroup st (demote subtasks st) := by
  by_cases h : Demoted subtasks st
  · rw [demote_of_demoted h]
    exact ⟨rfl, rfl, rfl, rfl⟩
  · rw [demote_of_not_demoted h]
    exact ⟨rfl, rfl, rfl, rfl⟩

/-- A named group loses all of its members or none. -/
theorem groupMembers_demoted (hg : g ≠ "") :
    groupMembers (subtasks.map (demote subtasks)) g =
      if ungoverned subtasks g then [] else groupMembers subtasks g := by
  unfold groupMembers
  rw [List.filter_map]
  by_cases hun : ungoverned subtasks g = true
  · rw [if_pos hun, List.map_eq_nil_iff, List.filter_eq_nil_iff]
    intro st _ hc
    have hgroup : (demote subtasks st).parallelGroup = some g :=
      of_decide_eq_true hc
    by_cases h : Demoted subtasks st
    · rw [demote_of_demoted h] at hgroup
      cases hgroup
    · rw [demote_of_not_demoted h] at hgroup
      exact h ⟨g, hgroup, hg, hun⟩
  · rw [if_neg hun]
    have hkept : ∀ st : SubtaskEntry, st.parallelGroup = some g →
        demote subtasks st = st := by
      intro st hst
      refine demote_of_not_demoted fun hc => ?_
      obtain ⟨g', hg', -, hun'⟩ := hc
      rw [hst] at hg'
      cases hg'
      exact hun hun'
    have hsame : ∀ st ∈ subtasks,
        ((fun st => decide (st.parallelGroup = some g)) ∘ demote subtasks) st =
          decide (st.parallelGroup = some g) := by
      intro st _
      by_cases hst : st.parallelGroup = some g
      · show decide ((demote subtasks st).parallelGroup = some g) = _
        rw [hkept st hst]
      · show decide ((demote subtasks st).parallelGroup = some g) = _
        rw [decide_eq_false hst]
        refine decide_eq_false fun hc => hst ?_
        by_cases h : Demoted subtasks st
        · rw [demote_of_demoted h] at hc
          cases hc
        · rwa [demote_of_not_demoted h] at hc
    rw [List.filter_congr hsame]
    refine (List.map_congr_left fun st hst => ?_).trans (List.map_id _)
    exact hkept st (of_decide_eq_true (List.mem_filter.1 hst).2)

theorem allGoverned_demoted (subtasks : List SubtaskEntry) :
    AllGoverned (subtasks.map (demote subtasks)) := by
  intro g hg
  by_cases hun : ungoverned subtasks g = true
  · unfold ungoverned
    rw [groupMembers_demoted hg, if_pos hun]
    rfl
  · have hmem := @groupMembers_demoted subtasks g hg
    rw [if_neg hun] at hmem
    unfold ungoverned at hun ⊢
    rw [hmem]
    exact Bool.eq_false_iff.2 hun

theorem demote_allGoverned (h : AllGoverned subtasks) :
    demoteUngovernedParallelGroups subtasks = (subtasks, []) := by
  have hnone : ∀ st, ¬ Demoted subtasks st := by
    intro st hst
    obtain ⟨g, -, hg, hun⟩ := hst
    rw [h g hg] at hun
    cases hun
  have hnames : (groupNames subtasks).filter (ungoverned subtasks) = [] := by
    refine List.filter_eq_nil_iff.2 fun g hg hun => ?_
    unfold groupNames at hg
    rw [List.mem_eraseDups, List.mem_filter] at hg
    rw [h g (of_decide_eq_true hg.2)] at hun
    cases hun
  unfold demoteUngovernedParallelGroups
  rw [hnames]
  refine congrArg₂ Prod.mk ?_ rfl
  exact (List.map_congr_left fun st _ =>
    demote_of_not_demoted (hnone st)).trans (List.map_id _)

/-- Repairing again changes nothing. -/
theorem demote_again (subtasks : List SubtaskEntry) :
    demoteUngovernedParallelGroups
        (demoteUngovernedParallelGroups subtasks).1 =
      ((demoteUngovernedParallelGroups subtasks).1, []) :=
  demote_allGoverned (allGoverned_demoted subtasks)

instance (subtasks : List SubtaskEntry) (st : SubtaskEntry) :
    Decidable (Demoted subtasks st) :=
  decidable_of_iff
    ((st.parallelGroup.any fun g => g ≠ "" && ungoverned subtasks g) = true)
    (by
      rw [Option.any_eq_true]
      refine exists_congr fun g => and_congr_right fun _ => ?_
      rw [Bool.and_eq_true, decide_eq_true_eq])

theorem reported_perm (subtasks : List SubtaskEntry) :
    (demoteUngovernedParallelGroups subtasks).2.Perm
      ((subtasks.filter fun st => Demoted subtasks st).map (·.taskId)) := by
  have hnodup : ((groupNames subtasks).filter (ungoverned subtasks)).Nodup :=
    (Data.nodup_eraseDups _ _ (Nat.le_refl _)).filter _
  have hperm := (Data.flatMap_groups_perm (·.parallelGroup) subtasks hnodup).map
    (·.taskId)
  rw [List.map_flatMap] at hperm
  refine hperm.trans (.of_eq (congrArg _ (List.filter_congr fun st hst => ?_)))
  refine Bool.eq_iff_iff.2 ?_
  rw [decide_eq_true_eq, Option.any_eq_true]
  refine exists_congr fun g => and_congr_right fun hg => ?_
  rw [decide_eq_true_eq, List.mem_filter]
  unfold groupNames
  rw [List.mem_eraseDups, List.mem_filter, decide_eq_true_eq]
  refine and_congr_left fun _ => and_iff_right ?_
  exact List.mem_filterMap.2 ⟨st, hst, hg⟩

-- ==== the batch

/-- What the demoting step may be relied on for, on any subtasks: it
changes no field but the group and the mode, reports each entry of an
ungoverned group once and nothing else, and finds nothing to do the
second time. -/
structure Repairs (subtasks : List SubtaskEntry) : Prop where
  fields : List.Forall₂ SameButGroup subtasks
    (demoteUngovernedParallelGroups subtasks).1
  reported : (demoteUngovernedParallelGroups subtasks).2.Perm
    ((subtasks.filter fun st => Demoted subtasks st).map (·.taskId))
  again : demoteUngovernedParallelGroups
      (demoteUngovernedParallelGroups subtasks).1 =
    ((demoteUngovernedParallelGroups subtasks).1, [])

theorem repairs (subtasks : List SubtaskEntry) : Repairs subtasks where
  fields := by
    show List.Forall₂ SameButGroup subtasks
      (subtasks.map (demote subtasks))
    rw [List.forall₂_map_right_iff, List.forall₂_same]
    exact fun st _ => sameButGroup_demote subtasks st
  reported := reported_perm subtasks
  again := demote_again subtasks

/-- A list of subtasks that may go out in parallel: of one named group of
the latest plan, each open and ready, none waiting for another, and each
under a contract. -/
structure Governs (w : World) (sts : List SubTask) : Prop where
  planned : ∀ st ∈ sts, ∃ e ∈ w.subtasks, st = SubTask.ofEntry e
  oneGroup : ∃ g, g ≠ "" ∧ ∀ st ∈ sts, st.parallelGroup = some g
  undone : ∀ st ∈ sts, st.taskId ∉ w.done
  freed : ∀ st ∈ sts, ∀ d ∈ st.dependsOn, d ∈ w.done
  apart : ∀ st ∈ sts, ∀ st' ∈ sts, st'.taskId ∉ st.dependsOn
  contract : ∀ st ∈ sts, ∃ c, c ≠ "" ∧ st.interfaceContract = some c

theorem truthy_iff {o : Option String} :
    truthy o = true ↔ ∃ s, s ≠ "" ∧ o = some s := by
  cases o with
  | none =>
    refine ⟨fun h => absurd h Bool.false_ne_true, ?_⟩
    intro h
    obtain ⟨_, _, hc⟩ := h
    cases hc
  | some s =>
    refine ⟨fun h => ⟨s, of_decide_eq_true h, rfl⟩, ?_⟩
    intro h
    obtain ⟨s', hs', heq⟩ := h
    cases heq
    exact decide_eq_true hs'

theorem batch_group {artifact : PlanArtifact} {p : RunProgress}
    {first : SubtaskEntry}
    (htwo : 2 ≤ (readySubtaskBatch artifact p first).length) :
    ∃ g, g ≠ "" ∧ (∀ st ∈ readySubtaskBatch artifact p first,
        st ∈ groupMembers artifact.subtasks g) ∧
      2 ≤ (groupMembers artifact.subtasks g).length := by
  unfold readySubtaskBatch at htwo ⊢
  split at htwo
  · rw [List.length_singleton] at htwo
    exact absurd htwo (by decide)
  · next hgroup =>
    obtain ⟨g, hg, hfirst⟩ := truthy_iff.1 (Bool.eq_true_of_not_eq_false hgroup)
    rw [if_neg hgroup]
    have hsub : (artifact.subtasks.filter fun st =>
        st.taskId ∉ p.completedSubtaskIds &&
          st.parallelGroup = first.parallelGroup &&
            st.dependsOn.all (· ∈ p.completedSubtaskIds)).Sublist
        (groupMembers artifact.subtasks g) := by
      refine List.monotone_filter_right _ fun st hst => ?_
      rw [Bool.and_eq_true, Bool.and_eq_true] at hst
      rw [← hfirst]
      exact hst.1.2
    exact ⟨g, hg, fun st hst => hsub.subset hst,
      htwo.trans hsub.length_le⟩

theorem governs_batch {w : World} {artifact : PlanArtifact}
    {p : RunProgress} {first : SubtaskEntry}
    (hplan : w.plans.latest = some artifact)
    (hgov : AllGoverned artifact.subtasks)
    (hnext : nextSubtask artifact p = some first)
    (htwo : 2 ≤ (readySubtaskBatch artifact p first).length) :
    Governs (w.progressSaved p)
      ((readySubtaskBatch artifact p first).map SubTask.ofEntry) := by
  obtain ⟨g, hg, hgroup, hmany⟩ := batch_group htwo
  have hready : ∀ st ∈ readySubtaskBatch artifact p first,
      st.taskId ∉ p.completedSubtaskIds ∧
        ∀ d ∈ st.dependsOn, d ∈ p.completedSubtaskIds := by
    intro st hst
    have h := (mem_readySubtaskBatch hnext hst).2
    rw [ready, Bool.and_eq_true] at h
    refine ⟨of_decide_eq_true h.1, ?_⟩
    intro d hd
    exact of_decide_eq_true (List.all_eq_true.1 h.2 d hd)
  have hcontract : ∀ st ∈ groupMembers artifact.subtasks g,
      truthy st.interfaceContract = true := by
    intro st hst
    have hun := hgov g hg
    unfold ungoverned at hun
    rw [decide_eq_true hmany, Bool.true_and, List.any_eq_false] at hun
    have hnot := hun st hst
    rwa [Bool.not_eq_true, Bool.not_eq_false'] at hnot
  have hdone : (w.progressSaved p).done = p.completedSubtaskIds := rfl
  have hsubtasks : (w.progressSaved p).subtasks = artifact.subtasks := by
    show (w.plans.latest.map _).getD _ = _
    rw [hplan]
    rfl
  refine ⟨?_, ⟨g, hg, ?_⟩, ?_, ?_, ?_, ?_⟩
  · intro st hst
    obtain ⟨e, he, rfl⟩ := List.mem_map.1 hst
    rw [hsubtasks]
    exact ⟨e, (mem_readySubtaskBatch hnext he).1, rfl⟩
  · intro st hst
    obtain ⟨e, he, rfl⟩ := List.mem_map.1 hst
    exact of_decide_eq_true (List.mem_filter.1 (hgroup e he)).2
  · intro st hst
    obtain ⟨e, he, rfl⟩ := List.mem_map.1 hst
    rw [hdone]
    exact (hready e he).1
  · intro st hst d hd
    obtain ⟨e, he, rfl⟩ := List.mem_map.1 hst
    rw [hdone]
    exact (hready e he).2 d hd
  · -- a dependency of a member is done, a member is not
    intro st hst st' hst' hdep
    obtain ⟨e, he, rfl⟩ := List.mem_map.1 hst
    obtain ⟨e', he', rfl⟩ := List.mem_map.1 hst'
    exact (hready e' he').1 ((hready e he).2 _ hdep)
  · intro st hst
    obtain ⟨e, he, rfl⟩ := List.mem_map.1 hst
    exact truthy_iff.1 (hcontract e (hgroup e he))

-- ==== the run

/-- The latest plan is a repaired one. -/
def Inv (w : World) : Prop :=
  ∀ a, w.plans.latest = some a → AllGoverned a.subtasks

/-- Two or more subtasks go out together only where they may. -/
def spec : Spec where
  inv := Inv
  mayBatch := Governs

theorem allGoverned_generated {cfg : Config} {w : World} {out : PlanOutput}
    {text : String} {artifact : PlanArtifact}
    (h : Generated cfg w out text artifact) :
    AllGoverned artifact.subtasks := by
  obtain ⟨budget, now, demoted, -, hgen⟩ := h
  unfold generatePlanArtifact at hgen
  dsimp only at hgen
  split at hgen
  · cases hgen
    exact allGoverned_demoted _
  · cases hgen

theorem Inv.of_plans {w w' : World} (h : Inv w) (hw : w'.plans = w.plans) :
    Inv w' := by
  unfold Inv
  rw [hw]
  exact h

theorem inv_planSaved {w : World} {artifact : PlanArtifact}
    (h : AllGoverned artifact.subtasks) : Inv (w.planSaved artifact) := by
  intro a ha
  cases ha
  exact h

theorem cut_of_inv {w : World} (h : Inv w) : spec.Cut w :=
  fun _ => h.of_plans rfl

theorem moves_of_inv {w : World} (h : Inv w) (next : Stage) :
    spec.Moves w next spec.inv :=
  ⟨trivial, cut_of_inv (h.of_plans rfl), h.of_plans rfl⟩

theorem implStep {cfg : Config} {w : World} {plan : PlanArtifact}
    {p : RunProgress} (h : Inv w) (hplan : w.plans.latest = some plan) :
    spec.ImplStep cfg w plan p (spec.ImplDone spec.inv) := by
  have hcut : ∀ w' : World, w'.plans = w.plans → spec.Cut w' :=
    fun w' hw => cut_of_inv (h.of_plans hw)
  have hinv : ∀ w' : World, w'.plans = w.plans → spec.inv w' :=
    fun w' hw => h.of_plans hw
  have hverify : ∀ w' : World, w'.plans = w.plans →
      spec.ImplDone spec.inv .verify w' := fun w' hw =>
    ⟨hcut w' hw, moves_of_inv (hinv w' hw) _⟩
  have hfail : ∀ w' : World, w'.plans = w.plans →
      spec.FailStep w' p (spec.ImplDone spec.inv) := fun w' hw =>
    { saved := hcut _ hw
      paused := fun _ _ _ => ⟨hcut _ hw, hinv _ hw⟩
      proceed := fun _ => ⟨hcut _ hw, hinv _ hw⟩ }
  exact
    { loaded := hcut _ rfl
      verify := fun _ _ => hverify _ rfl
      may := trivial
      mayBatch := fun first hnext htwo =>
        governs_batch hplan (h plan hplan) hnext htwo
      fixupRaised := fun _ _ _ _ _ => ⟨hcut _ rfl, hfail _ rfl⟩
      fixup := fun _ _ _ _ _ => ⟨hcut _ rfl, hverify _ rfl⟩
      batchRaised := fun _ _ _ _ _ _ => ⟨hcut _ rfl, hfail _ rfl⟩
      batch := fun _ _ _ _ _ _ => ⟨hcut _ rfl,
        { saved := hcut _ rfl
          paused := fun _ _ _ _ _ _ _ _ => ⟨hcut _ rfl, hinv _ rfl⟩
          proceed := fun _ _ _ _ _ => ⟨hcut _ rfl, hinv _ rfl⟩
          verify := fun _ _ _ _ _ => hverify _ rfl }⟩ }

theorem verStep {w : World} (h : Inv w) :
    spec.VerStep w (spec.VerDone spec.inv spec.inv) := by
  have hcut : ∀ w' : World, w'.plans = w.plans → spec.Cut w' :=
    fun w' hw => cut_of_inv (h.of_plans hw)
  have hmoves : ∀ (w' : World) (next : Stage), w'.plans = w.plans →
      spec.Moves w' next spec.inv := fun w' next hw =>
    moves_of_inv (h.of_plans hw) next
  exact ⟨trivial, fun _ _ => hcut _ rfl, fun _ _ _ _ => hcut _ rfl,
    fun _ _ _ _ _ => ⟨hcut _ rfl, hmoves _ _ rfl⟩,
    fun _ _ _ _ _ => hcut _ rfl,
    fun _ _ _ _ _ _ _ _ => ⟨hcut _ rfl, h.of_plans rfl⟩,
    fun _ _ _ _ _ _ => ⟨hcut _ rfl, hmoves _ _ rfl⟩⟩

theorem turns {cfg : Config} {w : World} (h : Inv w) :
    spec.Turns cfg w spec.inv spec.inv where
  intake := fun _ => moves_of_inv h _
  research := fun _ => moves_of_inv h _
  author := fun _ _ _ => ⟨cut_of_inv (h.of_plans rfl), fun _ hgen =>
    have hnew := inv_planSaved (allGoverned_generated hgen)
    ⟨cut_of_inv hnew, moves_of_inv hnew _⟩⟩
  implement := fun _ _ _ hplan _ => implStep h hplan
  verify := fun _ => verStep h
  package := fun _ _ => ⟨trivial, fun _ =>
    have hout : Inv (w.record .packaged) := h.of_plans rfl
    ⟨cut_of_inv hout, moves_of_inv hout _⟩⟩
  unpackaged := fun _ _ => moves_of_inv h _
  retrospective := fun _ => moves_of_inv h _

theorem planCall {cfg : Config} {w : World} {decision feedback : String}
    (h : Inv w) : spec.PlanCall cfg w decision feedback where
  approved := fun _ => ⟨cut_of_inv (h.of_plans rfl), fun _ =>
    h.of_plans rfl⟩
  reattempted := fun _ _ => cut_of_inv (h.of_plans rfl)
  replanned := fun _ _ _ _ => ⟨cut_of_inv (h.of_plans rfl), fun _ hgen =>
    have hnew := allGoverned_generated hgen
    ⟨cut_of_inv (inv_planSaved hnew), (inv_planSaved hnew).of_plans rfl⟩⟩
  rejected := fun _ => h.of_plans rfl

theorem resolveCall {w : World} {e : Elicitation} {decision : String}
    {note : Option String} {now : Time} (h : Inv w) :
    spec.ResolveCall w e decision note now := by
  have hacked : Inv (Spec.acked (Spec.answeredBy w e decision note now) e) :=
    h.of_plans (by rw [Spec.acked_plans]; rfl)
  refine ⟨cut_of_inv (h.of_plans rfl), fun _ _ => h.of_plans rfl,
    fun _ => cut_of_inv hacked, ?_, fun _ _ => hacked⟩
  intro _ _ artifact at' hplan
  exact inv_planSaved (h artifact hplan)

theorem keeps (cfg : Config) : spec.Keeps cfg where
  cut := fun _ h => cut_of_inv h
  called := fun _ _ h _ => Inv.of_plans h rfl
  turn := fun _ h _ => turns h
  plan := fun _ _ _ _ h _ _ _ => planCall (Inv.of_plans h rfl)
  review := fun _ _ _ _ h _ _ _ =>
    ⟨fun _ => Inv.of_plans h rfl, fun _ => Inv.of_plans h rfl,
      fun _ => Inv.of_plans h rfl⟩
  resolve := fun _ _ _ _ _ _ h _ _ _ => resolveCall (Inv.of_plans h rfl)

-- ==== the result

/-- In every sequential run the subtasks that go out together are ready
members of one group of the latest plan, all under contracts and none
waiting for another; and the repair that sees to the contracts changes
nothing else, reports what it demotes, and is done after one pass. -/
theorem contracts_before_parallel_writes (cfg : Config) :
    (∀ s : State Unit,
      (machine cfg).Reach (Initial cfg) (fun _ _ => True) s →
      ∀ ctx sts, s.Asks () (.implementSubtasksParallel ctx sts) →
        2 ≤ sts.length → Governs s.world sts) ∧
    ∀ subtasks : List SubtaskEntry, Repairs subtasks := by
  refine ⟨?_, repairs⟩
  intro s hs ctx sts ha _
  have hinit : ∀ w, Initial cfg w → spec.inv w := by
    intro w hw
    obtain ⟨_, _, _, _, _, _, _, _, _, hplans, _⟩ := hw
    intro a ha
    rw [hplans] at ha
    cases ha
  have hset := (keeps cfg).settled hinit (Spec.covers_free rfl) hs
  exact Spec.mayBatch_of_settled hset ha

/-- A subtask of the group `g`, under a contract. -/
def contracted (id : String) : SubTask :=
  { taskId := id, description := "write it", parallelGroup := some "g"
    interfaceContract := some "def f() -> int" }

/-- The request hands over two subtasks or more. -/
def handsOverMany : Req → Bool
  | .implementSubtasksParallel _ sts => 2 ≤ sts.length
  | _ => false

/-- Two contracted subtasks of one group go out together. -/
theorem contracts_before_parallel_writes_pair :
    ∃ s : State Unit,
      (machine Sample.cfg).Reach (Initial Sample.cfg) (fun _ _ => True) s ∧
      ∃ ctx sts, s.Asks () (.implementSubtasksParallel ctx sts) ∧
        2 ≤ sts.length ∧ Governs s.world sts := by
  obtain ⟨s, hs, htest⟩ := reach_of_plays_free Sample.initial_sample
    (Sample.approved () [contracted "t1", contracted "t2"])
    (fun s => asking s () handsOverMany) (by decide +kernel)
  obtain ⟨e, ha, he⟩ := asking_inv htest
  cases e with
  | implementSubtasksParallel ctx sts =>
    have htwo : 2 ≤ sts.length := of_decide_eq_true he
    exact ⟨s, hs, ctx, sts, ha, htwo,
      (contracts_before_parallel_writes Sample.cfg).1 s hs ctx sts ha htwo⟩
  | _ => cases he

end Governed

end SdlcOs.Orchestrator
