/-
When everything the backend reported is on the record.

# The gap

A diff is on the record once the save that follows the backend call has
been made. A process that dies between the two loses it for good: the
call is not repeated with the same outcome, since what it did is done.
Everywhere else a stop does no harm (`Saved`).

# The invariant

Whatever file a call that returned has reported is among the files
touched. Only the approval of a plan starts the record over, and nothing
has been implemented then.
-/
import SdlcOs.Proofs.Retry

namespace SdlcOs.Orchestrator

open Effects
open Registry (Stage Result ErrorInfo)

namespace World

/-- The files touched of the stored record; none before there is one. -/
def files (w : World) : List String :=
  (w.progress.map (·.filesTouched)).getD []

theorem files_of_progress {w : World} {p : RunProgress}
    (h : w.progress = some p) : w.files = p.filesTouched := by
  rw [World.files, h]
  rfl

theorem Current.files {w : World} {p : RunProgress} (h : w.Current p) :
    w.files = p.filesTouched := by
  rcases h with hp | ⟨hp, now, rfl⟩
  · exact files_of_progress hp
  · simp [World.files, hp, RunProgress.fresh]

end World

namespace RunProgress

theorem mem_completeAll_files {f : String}
    (done : List (SubtaskEntry × DiffOutput)) : ∀ p : RunProgress,
      f ∈ (p.completeAll done).filesTouched ↔
        f ∈ p.filesTouched ∨ ∃ d ∈ done, f ∈ d.2.filesTouched := by
  induction done with
  | nil =>
    intro p
    constructor
    · exact Or.inl
    · rintro (h | ⟨d, hd, _⟩)
      · exact h
      · cases hd
  | cons d rest ih =>
    intro p
    show f ∈ ((p.complete d.1 d.2).completeAll rest).filesTouched ↔ _
    have hfirst : f ∈ (p.complete d.1 d.2).filesTouched ↔
        f ∈ p.filesTouched ∨ f ∈ d.2.filesTouched := by
      show f ∈ sortedSet (p.filesTouched ++ d.2.filesTouched) ↔ _
      rw [mem_sortedSet, List.mem_append]
    rw [ih, hfirst, or_assoc, List.exists_mem_cons_iff]

/-- The record after a fix-up lists what it did and what the fix-up
touched. -/
theorem mem_afterFixup_files {f : String} (p : RunProgress)
    (diff : DiffOutput) : f ∈ (p.afterFixup diff).filesTouched ↔
      f ∈ p.filesTouched ∨ f ∈ diff.filesTouched := by
  show f ∈ sortedSet (p.filesTouched ++ diff.filesTouched) ↔ _
  rw [mem_sortedSet, List.mem_append]

theorem mem_afterBatch_files {f : String} (p : RunProgress)
    {batch : List SubtaskEntry} {diffs : List DiffOutput}
    (hlen : diffs.length ≤ batch.length) :
    f ∈ (p.afterBatch (batch.zip diffs)).filesTouched ↔
      f ∈ p.filesTouched ∨ ∃ d ∈ diffs, f ∈ d.filesTouched := by
  show f ∈ (p.completeAll (batch.zip diffs)).filesTouched ↔ _
  rw [mem_completeAll_files]
  have hsnd : (batch.zip diffs).map Prod.snd = diffs :=
    List.map_snd_zip hlen
  refine or_congr Iff.rfl ⟨?_, ?_⟩
  · rintro ⟨d, hd, hf⟩
    exact ⟨d.2, hsnd ▸ List.mem_map_of_mem hd, hf⟩
  · rintro ⟨d, hd, hf⟩
    rw [← hsnd] at hd
    obtain ⟨e, he, rfl⟩ := List.mem_map.1 hd
    exact ⟨e, he, hf⟩

theorem acknowledge_files (p : RunProgress) (sig : Signature) :
    (p.acknowledge sig).filesTouched = p.filesTouched := by
  unfold RunProgress.acknowledge
  split <;> rfl

end RunProgress

namespace Booked

open Retry (Others others_moveEvents others_pointerEvents others_one)

-- ==== vocabulary

/-- A call that returned reported the file. -/
def Told (hist : List Event) (f : String) : Prop :=
  ∃ site sts diffs, Event.implemented site sts (.returned diffs) ∈ hist ∧
    ∃ d ∈ diffs, f ∈ d.filesTouched

/-- Everything that was reported is on the record. -/
def Booked (w : World) : Prop := ∀ f, Told w.hist f → f ∈ w.files

/-- Nothing is lost if the process stops here: what the latest call
reported, if that is the latest event of the implementation stage, is on
the record. -/
def Saved (w : World) : Prop :=
  w.run.stage = .implementation → ∀ ev ∈ w.hist.head?, ∀ site sts diffs,
    ev = .implemented site sts (.returned diffs) →
      ∀ d ∈ diffs, ∀ f ∈ d.filesTouched, f ∈ w.files

/-- The backend reports no more diffs than it was given subtasks. -/
def Matched (ev : Event) : Prop :=
  ∀ site sts diffs, ev = .implemented site sts (.returned diffs) →
    diffs.length ≤ sts.length

/-- What every world between turns satisfies. -/
structure Inv (w : World) : Prop where
  unstarted : w.run.stage.planning = true → ∀ f, ¬ Told w.hist f
  booked : Booked w

/-- Bookkeeping as a spec: a process stops where nothing is lost. -/
def spec : Spec where
  inv := Inv
  stopOk := Saved
  okEvent := fun _ ev => Matched ev

-- ==== histories

theorem told_cons_other {ev : Event} {hist : List Event} {f : String}
    (h : ∀ site sts diffs, ev ≠ .implemented site sts (.returned diffs)) :
    Told (ev :: hist) f ↔ Told hist f := by
  constructor
  · rintro ⟨site, sts, diffs, hmem, hd⟩
    rcases List.mem_cons.1 hmem with heq | hmem
    · exact absurd heq.symm (h site sts diffs)
    · exact ⟨site, sts, diffs, hmem, hd⟩
  · rintro ⟨site, sts, diffs, hmem, hd⟩
    exact ⟨site, sts, diffs, List.mem_cons_of_mem _ hmem, hd⟩

theorem told_others {evs : List Event} (h : Others evs) {hist : List Event}
    {f : String} : Told (evs ++ hist) f ↔ Told hist f := by
  induction evs with
  | nil => exact Iff.rfl
  | cons ev evs ih =>
    rw [List.cons_append, told_cons_other ?_]
    · exact ih fun ev' hev' => h ev' (List.mem_cons_of_mem _ hev')
    · intro site sts diffs heq
      have hev := h ev List.mem_cons_self
      rw [heq] at hev
      cases hev

theorem told_raised {hist : List Event} {site : Site} {sts : List SubTask}
    {x : Exn} {f : String} :
    Told (.implemented site sts (.raised x) :: hist) f ↔ Told hist f := by
  refine told_cons_other fun site' sts' diffs heq => ?_
  injection heq with _ _ hout
  cases hout

theorem told_returned {hist : List Event} {site : Site}
    {sts : List SubTask} {diffs : List DiffOutput} {f : String} :
    Told (.implemented site sts (.returned diffs) :: hist) f ↔
      (∃ d ∈ diffs, f ∈ d.filesTouched) ∨ Told hist f := by
  constructor
  · rintro ⟨site', sts', diffs', hmem, hd⟩
    rcases List.mem_cons.1 hmem with heq | hmem
    · injection heq with _ _ hout
      injection hout with hout
      rw [hout] at hd
      exact Or.inl hd
    · exact Or.inr ⟨site', sts', diffs', hmem, hd⟩
  · rintro (hd | ⟨site', sts', diffs', hmem, hd⟩)
    · exact ⟨site, sts, diffs, List.mem_cons_self, hd⟩
    · exact ⟨site', sts', diffs', List.mem_cons_of_mem _ hmem, hd⟩

-- ==== the invariant

theorem Inv.grow {w w' : World} (h : Inv w)
    (hpl : w'.run.stage.planning = true → w.run.stage.planning = true)
    (htold : ∀ f, Told w'.hist f → Told w.hist f)
    (hfiles : ∀ f ∈ w.files, f ∈ w'.files) : Inv w' :=
  ⟨fun hp f hf => h.unstarted (hpl hp) f (htold f hf),
    fun f hf => hfiles f (h.booked f (htold f hf))⟩

theorem Inv.record {w : World} (h : Inv w) {ev : Event}
    (hev : Retry.other ev = true) : Inv (w.record ev) :=
  h.grow id (fun _ => (told_others (others_one hev)).1) fun _ => id

theorem cut_of_inv {w : World} (h : Inv w) : spec.Cut w :=
  fun _ => h.record rfl

theorem inv_unstarted {w : World} (h : ∀ f, ¬ Told w.hist f) : Inv w :=
  ⟨fun _ => h, fun f hf => absurd hf (h f)⟩

theorem Inv.moved {w : World} (h : Inv w) {next : Stage}
    (hpl : next.planning = true → w.run.stage.planning = true) :
    Inv (w.moved next) :=
  h.grow hpl (fun _ => (told_others (others_moveEvents w next)).1)
    fun _ => id

theorem moves_of_inv {w : World} {next : Stage} (h : Inv (w.moved next)) :
    spec.Moves w next spec.inv :=
  ⟨trivial, cut_of_inv h, h⟩

theorem not_told_moved {w : World} (h : ∀ f, ¬ Told w.hist f) (next : Stage)
    (f : String) : ¬ Told (w.moved next).hist f :=
  fun hf => h f ((told_others (others_moveEvents w next)).1 hf)

-- ==== the steps

theorem implStep {cfg : Config} {w : World} {plan : PlanArtifact}
    {p : RunProgress} (hst : w.run.stage = .implementation) (h : Inv w)
    (hp : w.Current p) :
    spec.ImplStep cfg w plan p (spec.ImplDone spec.inv) := by
  have hnot : ∀ {w' : World}, w'.run.stage = w.run.stage →
      w'.run.stage.planning = true → w.run.stage.planning = true := by
    intro w' hst' hc
    rw [← hst']
    exact hc
  have hbooked : ∀ f, Told w.hist f → f ∈ p.filesTouched := by
    intro f hf
    rw [← hp.files]
    exact h.booked f hf
  -- worlds whose record lists what `p` lists, with nothing new reported
  have hkept : ∀ (w' : World) (p' : RunProgress),
      w'.run.stage = w.run.stage → w'.progress = some p' →
      p'.filesTouched = p.filesTouched →
      (∀ f, Told w'.hist f → Told w.hist f) → Inv w' := by
    intro w' p' hst' hp' hfiles htold
    refine h.grow (hnot hst') htold fun f hf => ?_
    rw [World.files_of_progress hp', hfiles, ← hp.files]
    exact hf
  have hverify : ∀ w' : World, Inv w' →
      spec.ImplDone spec.inv .verify w' := fun w' hinv =>
    ⟨cut_of_inv hinv, moves_of_inv (hinv.moved
      fun hc => absurd hc (by decide))⟩
  have hfail : ∀ (site : Site) (sts : List SubTask) (x : Exn),
      spec.Cut ((w.progressSaved p).record
          (.implemented site sts (.raised x))) ∧
        spec.FailStep ((w.progressSaved p).record
          (.implemented site sts (.raised x))) p
            (spec.ImplDone spec.inv) := by
    intro site sts x
    have htold : ∀ f, Told (.implemented site sts (.raised x) :: w.hist) f →
        Told w.hist f := fun f => told_raised.1
    exact ⟨cut_of_inv (hkept _ p rfl rfl rfl htold),
      { saved := cut_of_inv (hkept _ p.afterFailure rfl rfl rfl htold)
        paused := fun _ _ _ =>
          ⟨cut_of_inv (hkept _ p.afterFailure rfl rfl rfl htold),
            hkept _ p.afterFailure rfl rfl rfl htold⟩
        proceed := fun _ =>
          ⟨cut_of_inv (hkept _ p.afterFailure rfl rfl rfl htold),
            hkept _ p.afterFailure rfl rfl rfl htold⟩ }⟩
  -- a call that returned, before its diffs are saved
  have hunsaved : ∀ (site : Site) (sts : List SubTask)
      (diffs : List DiffOutput), spec.Cut ((w.progressSaved p).record
        (.implemented site sts (.returned diffs))) := by
    intro site sts diffs hsaved
    refine Inv.record ⟨fun hc => ?_, fun f hf => ?_⟩ rfl
    · exact absurd (@hnot w rfl hc) (by rw [hst]; decide)
    · rcases told_returned.1 hf with ⟨d, hd, hfd⟩ | hold
      · exact hsaved hst _ rfl site sts diffs rfl d hd f hfd
      · exact hbooked f hold
  -- and after
  have hsaved : ∀ (w' : World) (p' : RunProgress) (site : Site)
      (sts : List SubTask) (diffs : List DiffOutput),
      w'.run.stage = w.run.stage → w'.progress = some p' →
      w'.hist = .implemented site sts (.returned diffs) :: w.hist →
      (∀ f, f ∈ p.filesTouched ∨ (∃ d ∈ diffs, f ∈ d.filesTouched) →
        f ∈ p'.filesTouched) → Inv w' := by
    intro w' p' site sts diffs hst' hp' hhist hfiles
    refine ⟨fun hc => ?_, fun f hf => ?_⟩
    · exact absurd (hnot hst' hc) (by rw [hst]; decide)
    · rw [hhist] at hf
      rw [World.files_of_progress hp']
      refine hfiles f ?_
      rcases told_returned.1 hf with hd | hold
      · exact Or.inr hd
      · exact Or.inl (hbooked f hold)
  refine
    { loaded := cut_of_inv (hkept _ p rfl rfl rfl fun _ => id)
      verify := fun _ _ => hverify _ (hkept _ p rfl rfl rfl fun _ => id)
      may := trivial
      fixupRaised := fun _ _ st x _ => hfail .fixup [st] x
      fixup := fun _ _ st d _ => ⟨hunsaved .fixup [st] [d],
        hverify _ (hsaved _ (p.afterFixup d) .fixup [st] [d] rfl rfl rfl
          fun f hf => ?_)⟩
      batchRaised := fun _ _ _ _ x _ => hfail .planned _ x
      batch := ?_ }
  · rw [RunProgress.mem_afterFixup_files]
    refine hf.imp id ?_
    rintro ⟨d', hd', hfd⟩
    rw [List.mem_singleton] at hd'
    exact hd' ▸ hfd
  · intro first batch _ _ diffs hok
    have hlen : diffs.length ≤ batch.length := by
      have hmatched := hok _ _ _ rfl
      rw [List.length_map] at hmatched
      exact hmatched
    have hfiles : ∀ f, f ∈ p.filesTouched ∨
        (∃ d ∈ diffs, f ∈ d.filesTouched) →
          f ∈ (p.afterBatch (batch.zip diffs)).filesTouched := fun f =>
      (p.mem_afterBatch_files hlen).2
    exact ⟨hunsaved _ _ diffs,
      { saved := cut_of_inv (hsaved _ _ _ _ diffs rfl rfl rfl hfiles)
        paused := fun _ _ _ _ _ _ _ _ =>
          ⟨cut_of_inv (hsaved _ _ _ _ diffs rfl rfl rfl hfiles),
            hsaved _ _ _ _ diffs rfl rfl rfl hfiles⟩
        proceed := fun _ _ _ _ _ =>
          ⟨cut_of_inv (hsaved _ _ _ _ diffs rfl rfl rfl hfiles),
            hsaved _ _ _ _ diffs rfl rfl rfl hfiles⟩
        verify := fun _ _ _ _ _ =>
          hverify _ (hsaved _ _ _ _ diffs rfl rfl rfl hfiles) }⟩

theorem verStep {w : World} (h : Inv w) :
    spec.VerStep w (spec.VerDone spec.inv spec.inv) := by
  have htold : ∀ (r : Reply VerificationResult) f,
      Told (.verified r :: w.hist) f → Told w.hist f := fun r f =>
    (told_others (others_one rfl)).1
  have hround : ∀ (r : Reply VerificationResult) (p p' : RunProgress)
      (w' : World), w.Current p → p'.filesTouched = p.filesTouched →
      w'.run.stage = w.run.stage → w'.progress = some p' →
      w'.hist = .verified r :: w.hist → Inv w' := by
    intro r p p' w' hp hfiles hst' hp' hhist
    refine h.grow (by rw [hst']; exact id) (by rw [hhist]; exact htold r)
      fun f hf => ?_
    rw [World.files_of_progress hp', hfiles, ← hp.files]
    exact hf
  have hmove : ∀ (next : Stage) (w' : World),
      (next.planning = true → w'.run.stage.planning = true) → Inv w' →
        spec.Moves w' next spec.inv := fun next w' hpl hinv =>
    moves_of_inv (hinv.moved hpl)
  refine ⟨trivial, fun r _ => cut_of_inv (h.record rfl), ?_, ?_, ?_, ?_, ?_⟩
  · intro res p _ hp
    exact cut_of_inv (hround _ p p _ hp rfl rfl rfl rfl)
  · intro res p _ hp _
    exact ⟨cut_of_inv (hround _ p p.afterPass _ hp rfl rfl rfl rfl),
      hmove _ _ (fun hc => absurd hc (by decide))
        (hround _ p p.afterPass _ hp rfl rfl rfl rfl)⟩
  · intro res p _ hp _
    exact cut_of_inv (hround _ p (p.afterVerificationFailure res.summary) _
      hp rfl rfl rfl rfl)
  · intro res p _ hp _ _ id createdAt
    exact ⟨cut_of_inv (hround _ p (p.afterVerificationFailure res.summary) _
        hp rfl rfl rfl rfl),
      hround _ p (p.afterVerificationFailure res.summary) _ hp rfl rfl rfl
        rfl⟩
  · intro res p _ hp _ _
    exact ⟨cut_of_inv (hround _ p (p.afterVerificationFailure res.summary) _
        hp rfl rfl rfl rfl),
      hmove _ _ (fun hc => absurd hc (by decide))
        (hround _ p (p.afterVerificationFailure res.summary) _ hp rfl rfl rfl
          rfl)⟩

theorem turns {cfg : Config} {w : World} (h : Inv w) :
    spec.Turns cfg w spec.inv spec.inv where
  intake := fun hst => moves_of_inv (h.moved fun _ => by rw [hst]; rfl)
  research := fun hst => moves_of_inv (h.moved fun _ => by rw [hst]; rfl)
  author := by
    intro hst out _
    have hnone := h.unstarted (by rw [hst]; rfl)
    have hout : ∀ f, ¬ Told (.authored out :: w.hist) f := fun f hf =>
      hnone f ((told_others (others_one rfl)).1 hf)
    refine ⟨cut_of_inv (inv_unstarted hout), fun artifact _ =>
      ⟨cut_of_inv (inv_unstarted hout),
        moves_of_inv (inv_unstarted (not_told_moved hout _))⟩⟩
  implement := fun hst _ _ _ hp => implStep hst h hp
  verify := fun _ => verStep h
  package := by
    intro hst _
    have hout := @Inv.record w h .packaged rfl
    exact ⟨trivial, fun _ => ⟨cut_of_inv hout, moves_of_inv (hout.moved
      fun hc => absurd hc (by decide))⟩⟩
  unpackaged := fun _ _ => moves_of_inv (h.moved
    fun hc => absurd hc (by decide))
  retrospective := fun _ => moves_of_inv (h.moved
    fun hc => absurd hc (by decide))

-- ==== public calls

theorem planCall {cfg : Config} {w : World} {decision feedback : String}
    (hst : w.run.stage = .planApprovalGate) (h : Inv w) :
    spec.PlanCall cfg w decision feedback := by
  have hnone := h.unstarted (by rw [hst]; rfl)
  have hmoved := not_told_moved hnone
  have hout : ∀ out f, ¬ Told (.replanned feedback out :: w.hist) f :=
    fun out f hf => hnone f ((told_others (others_one rfl)).1 hf)
  refine ⟨fun _ => ⟨cut_of_inv (inv_unstarted (hmoved _)),
      fun now => inv_unstarted (hmoved _)⟩,
    fun _ id => cut_of_inv (inv_unstarted hnone),
    fun _ id out _ => ⟨cut_of_inv (inv_unstarted (hout out)),
      fun artifact _ => ⟨cut_of_inv (inv_unstarted (hout out)),
        inv_unstarted fun f hf => hout out f
          ((told_others (others_moveEvents _ _)).1 hf)⟩⟩,
    fun _ => inv_unstarted (hmoved _)⟩

theorem reviewCall {w : World} {decision : String} (h : Inv w) :
    spec.ReviewCall w decision :=
  ⟨fun _ => h.moved fun hc => absurd hc (by decide),
    fun _ => h.moved fun hc => absurd hc (by decide),
    fun _ => h.moved fun hc => absurd hc (by decide)⟩

theorem acked_files (w : World) (e : Elicitation) :
    (Spec.acked w e).files = w.files := by
  unfold Spec.acked
  split
  · next p sig hp hs =>
    rw [World.files_of_progress hp, World.files_of_progress rfl]
    exact p.acknowledge_files sig
  · rfl

theorem resolveCall {w : World} {e : Elicitation} {decision : String}
    {note : Option String} {now : Time} (h : Inv w) :
    spec.ResolveCall w e decision note now := by
  have hans : Inv (Spec.answeredBy w e decision note now) :=
    h.grow id (fun _ => (told_others (others_pointerEvents _)).1)
      fun _ => id
  have hack : Inv (Spec.acked (Spec.answeredBy w e decision note now) e) := by
    refine hans.grow ?_ ?_ ?_
    · rw [Spec.acked_run]
      exact id
    · rw [Spec.acked_hist]
      exact fun _ => id
    · rw [acked_files]
      exact fun _ => id
  exact ⟨cut_of_inv hans,
    fun _ _ => hans.moved fun hc => absurd hc (by decide),
    fun _ => cut_of_inv hack,
    fun _ _ _ _ _ => hack.grow id (fun _ => id) fun _ => id,
    fun _ _ => hack⟩

theorem keeps (cfg : Config) : spec.Keeps cfg where
  cut := fun _ h => cut_of_inv h
  called := fun _ _ h _ => Inv.record h rfl
  turn := fun _ h _ => turns h
  plan := fun _ _ _ _ h _ _ hst => planCall hst (Inv.record h rfl)
  review := fun _ _ _ _ h _ _ _ => reviewCall (Inv.record h rfl)
  resolve := fun _ _ _ _ _ _ h _ _ _ => resolveCall (Inv.record h rfl)

-- ==== the result

end Booked

end SdlcOs.Orchestrator
