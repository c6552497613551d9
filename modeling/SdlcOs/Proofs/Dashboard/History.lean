/-
What the dashboard remembers of a run.

# The law

The history is shared by every request's thread, so sightings of many
runs and prunings of many tenants come to it in any order. What it says
of one run is what that run's own sightings say, since the last pruning
of its tenant that did not name it (`seen`): the phase the stages are in,
since when, whether its beginning was seen, how often the pointer changed,
and whether the phase is a return from verification (`summary`). Nothing
else that was done to the history shows (`history_law`).

# Why it is so

A sighting of another run and a pruning that spares the run leave its
entry alone. A sighting of the run goes on with its latest phase or
begins a new one, and the entry is updated in the same two ways.
-/
import SdlcOs.Data.Phases
import SdlcOs.Effects.Flow
import SdlcOs.Dashboard.Service

namespace SdlcOs.Dashboard

open Data (Dict phase before since turns)
open Effects
open Registry

-- ==== sightings

/-- The sightings of a run that still count, latest first. -/
def seen (key : String × String) : List Deed → List Sighting
  | [] => []
  | .observe t run s :: deeds =>
    if (t, run) = key then s :: seen key deeds else seen key deeds
  | .prune t active :: deeds =>
    if t = key.1 ∧ key.2 ∉ active then [] else seen key deeds

/-- A pointer that is there and is not the one before. -/
def pointerTurn (s prev : Sighting) : Bool :=
  s.checkpointPointer ≠ none ∧ s.checkpointPointer ≠ prev.checkpointPointer

/-- The pointers that were seen to come, the first sighting's included. -/
def pointersSeen (l : List Sighting) : Nat :=
  turns pointerTurn l +
    match l.getLast?.bind (·.checkpointPointer) with
    | none => 0
    | some pointer => if pointer = "" then 0 else 1

/-- When the latest phase of the stages was first seen. -/
def phaseSince (l : List Sighting) : Option Micros :=
  (since Sighting.stage l).map (·.now)

/-- The run is back in implementation from verification. -/
def Returned (l : List Sighting) : Prop :=
  l.head?.map (·.stage) = some .implementation ∧
    (before Sighting.stage l).head?.map (·.stage) = some .verification

instance (l : List Sighting) : Decidable (Returned l) :=
  inferInstanceAs (Decidable (_ ∧ _))

/-- What a run's sightings come to. -/
def summary (runId : String) : List Sighting → Option RunObservation
  | [] => none
  | s :: l =>
    some
      { runId := runId
        stage := s.stage
        stageSince := (phaseSince (s :: l)).getD s.now
        stageSinceIsExact := decide (before Sighting.stage (s :: l) ≠ [])
        checkpointPointer := s.checkpointPointer
        checkpointObservedCount := pointersSeen (s :: l)
        bouncedFromTesting := decide (Returned (s :: l))
        bouncedAt :=
          if Returned (s :: l) then phaseSince (s :: l) else none }

-- ==== entries

section Entries

variable {h : PollHistory} {t run : String} {s : Sighting}
variable {key : String × String}

theorem get_foldl_erase (keys : List (String × String)) :
    ∀ h : PollHistory, (keys.foldl (fun h key => h.erase key) h).get key =
      if key ∈ keys then none else h.get key := by
  induction keys with
  | nil => intro h; simp
  | cons k keys ih =>
    intro h
    rw [List.foldl_cons, ih]
    by_cases hk : key = k
    · subst hk
      simp
    · simp [hk, Dict.get_erase_ne h hk]

theorem get_prune (active : List String) :
    (h.prune t active).get key =
      if t = key.1 ∧ key.2 ∉ active then none else h.get key := by
  unfold PollHistory.prune
  rw [get_foldl_erase]
  by_cases hkey : key ∈ h.keys
  · have hiff : key ∈ (h.keys.filter fun key =>
        decide (key.1 = t ∧ key.2 ∉ active)) ↔
        t = key.1 ∧ key.2 ∉ active := by
      rw [List.mem_filter, decide_eq_true_eq]
      exact ⟨fun h => ⟨h.2.1.symm, h.2.2⟩, fun h => ⟨hkey, h.1.symm, h.2⟩⟩
    simp only [hiff]
  · have hnone : h.get key = none := by
      rw [Dict.mem_keys_iff, Option.isSome_iff_ne_none, not_not] at hkey
      exact hkey
    simp [hnone]

theorem get_observe_self :
    (h.observe t run s).1.get (t, run) = some (h.observe t run s).2 := by
  simp [PollHistory.observe]

theorem get_observe_ne (hne : (t, run) ≠ key) :
    (h.observe t run s).1.get key = h.get key := by
  unfold PollHistory.observe
  exact Dict.get_set_ne h (Ne.symm hne) _

end Entries

-- ==== the law

section Law

variable {runId : String} {s prev : Sighting} {l : List Sighting}

theorem pointersSeen_next :
    pointersSeen (s :: prev :: l) =
      (if s.checkpointPointer ≠ none ∧
          s.checkpointPointer ≠ prev.checkpointPointer then
        pointersSeen (prev :: l) + 1
      else pointersSeen (prev :: l)) := by
  unfold pointersSeen
  rw [turns, List.getLast?_cons_cons]
  by_cases hturn : s.checkpointPointer ≠ none ∧
      s.checkpointPointer ≠ prev.checkpointPointer
  · rw [if_pos hturn, if_pos (by simpa [pointerTurn] using hturn)]
    omega
  · rw [if_neg hturn, if_neg (by simpa [pointerTurn] using hturn)]
    omega

theorem phaseSince_isSome : (phaseSince (s :: l)).isSome := by
  simp [phaseSince, since, phase, List.getLast?_cons]

theorem returned_same (hstage : s.stage = prev.stage) :
    Returned (s :: prev :: l) ↔ Returned (prev :: l) := by
  unfold Returned
  rw [Data.before_same hstage]
  simp [hstage]

theorem returned_turn (hstage : s.stage ≠ prev.stage) :
    Returned (s :: prev :: l) ↔
      s.stage = .implementation ∧ prev.stage = .verification := by
  unfold Returned
  rw [Data.before_turn hstage]
  simp

theorem not_returned (hstage : prev.stage ≠ .implementation) :
    ¬ Returned (prev :: l) := by
  rintro ⟨himpl, -⟩
  exact hstage (by simpa using himpl)

theorem phaseSince_same (hstage : s.stage = prev.stage) :
    phaseSince (s :: prev :: l) = phaseSince (prev :: l) := by
  unfold phaseSince
  rw [Data.since_same hstage]

theorem phaseSince_turn (hstage : s.stage ≠ prev.stage) :
    phaseSince (s :: prev :: l) = some s.now := by
  unfold phaseSince
  rw [Data.since_turn hstage]
  rfl

theorem next_same {obs : RunObservation} (hstage : s.stage = obs.stage) :
    obs.next s =
      { obs with
        checkpointPointer := s.checkpointPointer
        checkpointObservedCount :=
          if s.checkpointPointer ≠ none ∧
              s.checkpointPointer ≠ obs.checkpointPointer then
            obs.checkpointObservedCount + 1
          else obs.checkpointObservedCount } := by
  unfold RunObservation.next
  simp [hstage]

theorem summary_next {obs : RunObservation}
    (h : summary runId (prev :: l) = some obs) :
    summary runId (s :: prev :: l) = some (obs.next s) := by
  obtain rfl := Option.some.inj h
  by_cases hstage : s.stage = prev.stage
  · rw [next_same hstage]
    obtain ⟨began, hbegan⟩ := Option.isSome_iff_exists.1
      (phaseSince_isSome (s := prev) (l := l))
    simp only [summary, phaseSince_same hstage, Data.before_same hstage,
      returned_same hstage, pointersSeen_next, hbegan, hstage,
      Option.getD_some]
  · simp only [summary, RunObservation.next, phaseSince_turn hstage,
      Data.before_turn hstage, returned_turn hstage, pointersSeen_next,
      Option.getD_some, ne_eq, hstage, not_false_eq_true, true_and,
      if_true, reduceCtorEq, decide_true]
    by_cases himpl : s.stage = .implementation
    · have hprev : prev.stage ≠ .implementation := by
        intro heq
        exact hstage (himpl.trans heq.symm)
      by_cases hverif : prev.stage = .verification
      · simp [himpl, hverif]
      · simp [himpl, hverif, not_returned hprev]
    · simp [himpl]

theorem summary_first :
    summary runId [s] = some (RunObservation.first runId s) := by
  have hreturned : ¬ Returned [s] := by
    simp [Returned, before]
  cases hpointer : s.checkpointPointer with
  | none =>
    simp [summary, RunObservation.first, hreturned, phaseSince, since,
      phase, before, pointersSeen, turns, hpointer]
  | some pointer =>
    simp [summary, RunObservation.first, hreturned, phaseSince, since,
      phase, before, pointersSeen, turns, hpointer]

/-- The history after what was done to it says of each run what its own
sightings come to. -/
def Lawful (w : World) : Prop :=
  ∀ key, w.history.get key = summary key.2 (seen key w.deeds)

theorem Lawful.observed {w : World} {t run : String} (h : Lawful w) :
    summary run (s :: seen (t, run) w.deeds) =
        some (w.history.observe t run s).2 ∧
      Lawful { w with
        history := (w.history.observe t run s).1
        deeds := .observe t run s :: w.deeds } := by
  have hown : summary run (s :: seen (t, run) w.deeds) =
      some (w.history.observe t run s).2 := by
    have hprev := h (t, run)
    unfold PollHistory.observe
    cases hseen : seen (t, run) w.deeds with
    | nil =>
      rw [hseen] at hprev
      have hnone : w.history.get (t, run) = none := hprev
      simp only [hnone, summary_first]
    | cons prev l =>
      rw [hseen] at hprev
      obtain ⟨obs, hobs⟩ : ∃ obs, summary run (prev :: l) = some obs :=
        ⟨_, rfl⟩
      have hget : w.history.get (t, run) = some obs := hprev.trans hobs
      simp only [hget, summary_next hobs]
  refine ⟨hown, ?_⟩
  intro key
  by_cases hkey : (t, run) = key
  · subst hkey
    show (w.history.observe t run s).1.get (t, run) = _
    rw [get_observe_self, seen, if_pos rfl]
    exact hown.symm
  · show (w.history.observe t run s).1.get key = _
    rw [get_observe_ne hkey, seen, if_neg hkey]
    exact h key

theorem Lawful.pruned {w : World} {t : String} {active : List String}
    (h : Lawful w) :
    Lawful { w with
      history := w.history.prune t active
      deeds := .prune t active :: w.deeds } := by
  intro key
  show (w.history.prune t active).get key = _
  rw [get_prune, seen]
  by_cases hkey : t = key.1 ∧ key.2 ∉ active
  · rw [if_pos hkey, if_pos hkey]
    rfl
  · rw [if_neg hkey, if_neg hkey]
    exact h key

end Law

section Runs

variable {identities : Identities} {Pid : Type} [DecidableEq Pid]
variable {s : State Pid} {cond : State Pid → Act Pid → Prop}

theorem reach_lawful (hs : (machine identities).Reach Initial cond s) :
    Lawful s.world := by
  refine hs.invariant ?_ (fun _ _ h => h) (fun _ h => h) ?_
  · intro w hw key
    rw [hw.1, hw.2]
    rfl
  · intro w e x h
    cases e with
    | clock => exact h
    | listRuns t limit offset => exact h
    | prune t active => exact h.pruned
    | observe t run s => exact h.observed.2

/-- In every run of the server, whatever the interleaving of its threads:
what the history says of a run of a tenant is what that run's own
sightings come to, since the last pruning that dropped it. -/
theorem history_law (hs : (machine identities).Reach Initial cond s)
    (tenantId runId : String) :
    s.world.history.get (tenantId, runId) =
      summary runId (seen (tenantId, runId) s.world.deeds) :=
  reach_lawful hs (tenantId, runId)

end Runs

/-- The run is sent back to implementation between two polls. -/
theorem history_law_bounced :
    ∃ (s : State Unit) (obs : RunObservation),
      (machine viewers).Reach Initial (fun _ _ => True) s ∧
      summary "run" (seen ("tenant-a", "run") s.world.deeds) = some obs ∧
      obs.bouncedFromTesting = true ∧ obs.bouncedAt = some 20 := by
  obtain ⟨s, hs, htest⟩ := reach_of_plays
    (viewing 10 [] ++ [.step () .auto] ++ viewing 20
      [.transition "tenant-a" "run" 6 "run-1" .implementation "t6"
        "entry"])
    (fun s => (s.world.history.get ("tenant-a", "run")).any fun o =>
      o.bouncedFromTesting ∧ o.bouncedAt = some 20) (by decide +kernel)
  obtain ⟨obs, hobs, hbounced⟩ := (Option.any_eq_true _ _).1 htest
  rw [history_law hs] at hobs
  exact ⟨s, obs, hs, hobs, of_decide_eq_true hbounced⟩

end SdlcOs.Dashboard
