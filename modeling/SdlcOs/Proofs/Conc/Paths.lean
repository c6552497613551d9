/-
What an orchestrator process asks for, given what it has heard.

Nothing here mentions the world or another process: these are facts
about the text of core.py, and hold however the run is interleaved.

- A move of the run or a checkpoint is written under the version of a
  row the process holds (`Holds`): the row its turn began with, or one
  the registry answered with since.
- `_drive` moves the row its turn began with, which is at no gate, or the
  row it has just re-read. Of the latter, only the move back to
  implementation can leave a gate, and only a failed verification that
  did not pause makes it (`Failed`).
- A progress record is saved over the one the process last loaded or
  saved (`lastRecord`), with nothing taken away from it (`Grows`).
- `resolve_checkpoint` saves the plan it has loaded, with the files of
  the elicitation it has answered added to its scope.

`asks` collects these and `entry_paths` and `driveBody_paths` walk the
programs once; the races (Gates, plans, progress) are then about logs.
-/
import SdlcOs.Effects.Rely
import SdlcOs.Orchestrator.Core

namespace SdlcOs.Orchestrator

open Effects
open Effects.Prog (Paths paths_bind paths_each)
open Registry (Stage Result ErrorInfo)

namespace Conc

/-- What a process has heard in its current phase. -/
abbrev Heard : Type := Log Resp

-- ==== reading the log

/-- The registry row in an answer. -/
def rowOf : ((e : Req) × Resp e) → Option Run
  | ⟨.getRun .., .ok run⟩ => some run
  | ⟨.transitionStage .., .ok run⟩ => some run
  | ⟨.writeCheckpoint .., .ok run⟩ => some run
  | _ => none

/-- The process holds a row: its turn began with it, or the registry
answered with it. -/
def Holds (ph : Phase Call Run) (lg : Heard) (run : Run) : Prop :=
  ph = .loop run ∨ run ∈ lg.filterMap rowOf

/-- The record an entry leaves the process with. -/
def recordOf : ((e : Req) × Resp e) → Option (Option RunProgress)
  | ⟨.loadProgress _, r⟩ => some r
  | ⟨.saveProgress p, _⟩ => some (some p)
  | _ => none

/-- The record the process last loaded or saved. -/
def lastRecord : Heard → Option RunProgress
  | [] => none
  | x :: lg =>
    match recordOf x with
    | some r => r
    | none => lastRecord lg

/-- The diffs in an answer. -/
def diffsOf : ((e : Req) × Resp e) → List DiffOutput
  | ⟨.implementSubtask .., .returned diff⟩ => [diff]
  | ⟨.implementSubtasksParallel .., .returned diffs⟩ => diffs
  | _ => []

/-- A verification that did not pass. -/
def failedVerdict : ((e : Req) × Resp e) → Bool
  | ⟨.verify _, .returned res⟩ => !res.passed
  | _ => false

/-- A checkpoint pointer is written. -/
def points : Req → Bool
  | .writeCheckpoint .. => true
  | _ => false

/-- A verification failed and no pause was written. -/
def Failed (lg : Heard) : Prop :=
  (∃ x ∈ lg, failedVerdict x = true) ∧ ∀ x ∈ lg, points x.1 = false

/-- The process wrote the answer to an elicitation. -/
def Answered (lg : Heard) (e : Elicitation) : Prop :=
  e.status = .resolved ∧ ∃ t id v run,
    (⟨.writeCheckpoint t id v (.elicitation e), .ok run⟩ :
      (e : Req) × Resp e) ∈ lg

-- ==== asking

/-- The calls a human answers a gate or a checkpoint with. -/
def answers : Call → Bool
  | .resumeRun _ => false
  | _ => true

/-- The row a process moves, and where to. -/
def Moves (ph : Phase Call Run) (lg : Heard) (run : Run) (next : Stage) :
    Prop :=
  match ph with
  | .entry c => answers c = true
  | .loop st =>
    (run = st ∧ st.stage.gate = false) ∨
      ∃ t id lg', lg = ⟨.getRun t id, .ok run⟩ :: lg' ∧
        (next = .verification ∨ next = .changeReviewGate ∨
          (next = .implementation ∧ st.stage = .verification ∧ Failed lg'))

/-- The pointer a process writes onto a row. -/
def Points (ph : Phase Call Run) (run : Run) : Pointer → Prop
  | .foreign _ => False
  | .elicitation e =>
    (e.status = .pending ∧ ph = .loop run ∧ run.stage.planning = false) ∨
      ∃ id decision note pending now,
        ph = .entry (.resolveCheckpoint id decision note) ∧
        pendingCheckpoint run = .ok (some pending) ∧
        e = pending.resolve decision note now

/-- The process loaded a plan. -/
def Loads (lg : Heard) (a : PlanArtifact) : Prop :=
  ∃ id, (⟨.loadLatest id, some a⟩ : (e : Req) × Resp e) ∈ lg

/-- The subtasks of the plan that a request hands to the backend. A
fix-up is none of them. -/
def handed : Req → List SubTask
  | .implementSubtask .planned _ st => [st]
  | .implementSubtasksParallel _ sts => sts
  | _ => []

/-- The request is made from a plan the process loaded. -/
def WorksFrom (lg : Heard) (e : Req) (a : PlanArtifact) : Prop :=
  Loads lg a ∧ ∀ st ∈ handed e, ∃ entry ∈ a.subtasks, st = .ofEntry entry

/-- The plan `resolve_checkpoint` saves. -/
def Widens (decision : String) (note : Option String) (lg : Heard)
    (a : PlanArtifact) : Prop :=
  decision = "extend_scope" ∧ ∃ (e : Elicitation) (now : Time)
      (base : PlanArtifact) (id : String) (t : Time) (lg' : Heard),
    e.trigger = .risk ∧ Answered lg' (e.resolve decision note now) ∧
    lg = ⟨.nowIso, t⟩ :: ⟨.loadLatest id, some base⟩ :: lg' ∧
    a = base.extendScope e.details.outOfScopeFiles t

/-- Nothing is taken out of a record, and its lines do not shrink unless
a diff says so. -/
def Grows (lg : Heard) (p p' : RunProgress) : Prop :=
  p.completedSubtaskIds ⊆ p'.completedSubtaskIds ∧
    p.acknowledgedCheckpointSignatures ⊆
      p'.acknowledgedCheckpointSignatures ∧
    ((∀ x ∈ lg, ∀ d ∈ diffsOf x, 0 ≤ d.linesChanged) →
      p.linesChanged ≤ p'.linesChanged)

/-- Work is handed out by a turn that began at implementation, from a plan
it loaded. -/
def Implements (ph : Phase Call Run) (lg : Heard) (e : Req) : Prop :=
  (∃ st, ph = .loop st ∧ st.stage = .implementation) ∧ ∃ a, WorksFrom lg e a

/-- What a process may ask for after what it has heard. -/
def asks (ph : Phase Call Run) (lg : Heard) : Req → Prop
  | .transitionStage _ _ v next =>
    ∃ run, Holds ph lg run ∧ v = run.version ∧ Moves ph lg run next
  | .writeCheckpoint _ _ v ptr =>
    ∃ run, Holds ph lg run ∧ v = run.version ∧ Points ph run ptr
  | .appendAttempt .. => ∃ c, ph = .entry c ∧ answers c = true
  | .savePlan a =>
    match ph with
    | .entry (.resolveCheckpoint _ decision note) =>
      Widens decision note lg a
    | _ => True
  | .saveProgress p' => ∀ p ∈ lastRecord lg, Grows lg p p'
  | .implementSubtask site ctx st =>
    Implements ph lg (.implementSubtask site ctx st)
  | .implementSubtasksParallel ctx sts =>
    Implements ph lg (.implementSubtasksParallel ctx sts)
  | _ => True

/-- A turn hands on a row it holds. -/
def HandsOn (ph : Phase Call Run) : Turn → Heard → Prop
  | .again run, lg => Holds ph lg run
  | .done _, _ => True

/-- Paths of orchestrator code. -/
abbrev Walks (ph : Phase Call Run) {α : Type} (Q : α → Heard → Prop)
    (m : Code α) (lg : Heard) : Prop := Paths (asks ph) Q m lg

-- ==== longer logs

/-- A log grown by requests of a kind. -/
def Grown (kind : Req → Bool) (lg lg' : Heard) : Prop :=
  ∃ new : Heard, lg' = new ++ lg ∧ ∀ x ∈ new, kind x.1 = true

/-- An observability call. -/
def observes : Req → Bool
  | .observe _ => true
  | _ => false

/-- Anything but writing a checkpoint pointer. -/
def pointless (e : Req) : Bool := !points e

section Grown

variable {kind : Req → Bool} {lg lg' lg'' : Heard}

theorem Grown.refl (lg : Heard) : Grown kind lg lg :=
  ⟨[], rfl, fun _ hx => by cases hx⟩

theorem Grown.cons {x : (e : Req) × Resp e} (h : Grown kind lg lg')
    (hx : kind x.1 = true) : Grown kind lg (x :: lg') := by
  obtain ⟨new, rfl, hnew⟩ := h
  refine ⟨x :: new, rfl, ?_⟩
  intro y hy
  rcases List.mem_cons.1 hy with rfl | hy
  · exact hx
  · exact hnew y hy

theorem grown_cons (x : (e : Req) × Resp e) (lg : Heard) :
    Grown (fun _ => true) lg (x :: lg) :=
  (Grown.refl lg).cons rfl

theorem Grown.trans (h : Grown kind lg lg') (h' : Grown kind lg' lg'') :
    Grown kind lg lg'' := by
  obtain ⟨new, rfl, hnew⟩ := h
  obtain ⟨new', rfl, hnew'⟩ := h'
  refine ⟨new' ++ new, (List.append_assoc _ _ _).symm, ?_⟩
  intro x hx
  rcases List.mem_append.1 hx with hx | hx
  · exact hnew' x hx
  · exact hnew x hx

theorem Grown.mono {kind' : Req → Bool} (h : Grown kind lg lg')
    (hk : ∀ e, kind e = true → kind' e = true) : Grown kind' lg lg' := by
  obtain ⟨new, hlg, hnew⟩ := h
  exact ⟨new, hlg, fun x hx => hk _ (hnew x hx)⟩

theorem Grown.mem (h : Grown kind lg lg') {x : (e : Req) × Resp e}
    (hx : x ∈ lg) : x ∈ lg' := by
  obtain ⟨new, rfl, _⟩ := h
  exact List.mem_append.2 (Or.inr hx)

theorem Grown.holds (h : Grown kind lg lg') {ph : Phase Call Run} {run : Run}
    (hr : Holds ph lg run) : Holds ph lg' run := by
  rcases hr with hph | hmem
  · exact Or.inl hph
  · obtain ⟨x, hx, hrow⟩ := List.mem_filterMap.1 hmem
    exact Or.inr (List.mem_filterMap.2 ⟨x, h.mem hx, hrow⟩)

theorem Grown.answered (h : Grown kind lg lg') {e : Elicitation}
    (ha : Answered lg e) : Answered lg' e := by
  obtain ⟨hs, t, id, v, run, hx⟩ := ha
  exact ⟨hs, t, id, v, run, h.mem hx⟩

theorem Grown.loads (h : Grown kind lg lg') {a : PlanArtifact}
    (ha : Loads lg a) : Loads lg' a := by
  obtain ⟨id, hx⟩ := ha
  exact ⟨id, h.mem hx⟩

theorem Grown.failed (h : Grown pointless lg lg') (hf : Failed lg) :
    Failed lg' := by
  obtain ⟨⟨x, hx, hv⟩, hno⟩ := hf
  refine ⟨⟨x, h.mem hx, hv⟩, ?_⟩
  obtain ⟨new, rfl, hnew⟩ := h
  intro y hy
  rcases List.mem_append.1 hy with hy | hy
  · simpa [pointless] using hnew y hy
  · exact hno y hy

theorem observes_pointless (e : Req) (h : observes e = true) :
    pointless e = true := by
  cases e <;> first | rfl | cases h

/-- Observing changes no record. -/
theorem Grown.lastRecord (h : Grown observes lg lg') :
    lastRecord lg' = lastRecord lg := by
  obtain ⟨new, rfl, hnew⟩ := h
  induction new with
  | nil => rfl
  | cons x new ih =>
    obtain ⟨e, r⟩ := x
    have he : observes e = true := hnew _ (List.mem_cons_self ..)
    have hrec : recordOf ⟨e, r⟩ = none := by
      cases e <;> first | rfl | cases he
    show (match recordOf ⟨e, r⟩ with
      | some r => r
      | none => Conc.lastRecord (new ++ lg)) = _
    rw [hrec]
    exact ih fun y hy => hnew y (List.mem_cons_of_mem _ hy)

end Grown

theorem holds_head {ph : Phase Call Run} {x : (e : Req) × Resp e}
    {lg : Heard} {run : Run} (h : rowOf x = some run) :
    Holds ph (x :: lg) run :=
  Or.inr (List.mem_filterMap.2 ⟨x, List.mem_cons_self .., h⟩)

-- ==== helpers

section Helpers

variable {cfg : Config} {ph : Phase Call Run} {lg : Heard}

theorem walks_ask {e : Req} {Q : Resp e → Heard → Prop}
    (hmay : asks ph lg e) (h : ∀ r, Q r (⟨e, r⟩ :: lg)) :
    Walks ph Q (ask e) lg :=
  ⟨hmay, h⟩

theorem walks_getRun {runId : String} {Q : Run → Heard → Prop}
    (h : ∀ run, Q run (⟨.getRun cfg.tenantId runId, .ok run⟩ :: lg)) :
    Walks ph Q (getRun cfg runId) lg := by
  unfold getRun
  refine paths_bind (walks_ask trivial fun r => ?_)
  cases r with
  | ok run => exact h run
  | empty => exact trivial
  | fail err => exact trivial

theorem walks_observe {o : Observation} {Q : Unit → Heard → Prop}
    (h : ∀ lg', Grown observes lg lg' → Q () lg') :
    Walks ph Q (observe cfg o) lg := by
  unfold observe
  split
  · refine paths_bind (walks_ask trivial fun r => ?_)
    cases r with
    | returned u => exact h _ ((Grown.refl lg).cons rfl)
    | raised x => exact trivial
  · exact h lg (Grown.refl lg)

theorem walks_observeEach {ι : Type} {f : ι → Observation} {l : List ι}
    {Q : Unit → Heard → Prop} (h : ∀ lg', Grown observes lg lg' → Q () lg') :
    Walks ph Q (Prog.each (fun i => observe cfg (f i)) l) lg := by
  have hloop : Walks ph (fun _ lg' => Grown observes lg lg')
      (Prog.each (fun i => observe cfg (f i)) l) lg := by
    refine paths_each (P := fun lg' => Grown observes lg lg') ?_ (Grown.refl lg)
    intro i lg' hlg'
    exact walks_observe fun lg'' h' => hlg'.trans h'
  exact hloop.mono fun _ lg' hlg' => h lg' hlg'

theorem walks_runContext {run : Run} {Q : RunContext → Heard → Prop}
    (h : ∀ ctx r, Q ctx (⟨.loadLatest run.id, r⟩ :: lg)) :
    Walks ph Q (runContext run) lg := by
  unfold runContext
  exact paths_bind (walks_ask trivial fun r => h _ r)

theorem walks_transition {run : Run} {next : Stage}
    {Q : Run → Heard → Prop} (hrun : Holds ph lg run)
    (hmoves : Moves ph lg run next)
    (h : ∀ updated lg', Holds ph lg' updated →
      Grown observes (⟨.transitionStage cfg.tenantId run.id run.version next,
        .ok updated⟩ :: lg) lg' → Q updated lg') :
    Walks ph Q (transition cfg run next) lg := by
  unfold transition
  refine paths_bind (walks_ask ⟨run, hrun, rfl, hmoves⟩ fun r => ?_)
  cases r with
  | ok updated =>
    exact paths_bind (walks_observe fun lg' hlg' =>
      h updated lg' (hlg'.holds (holds_head rfl)) hlg')
  | empty => exact trivial
  | fail err => exact trivial

theorem walks_writeCheckpointPointer {run : Run} {ptr : Pointer}
    {Q : Run → Heard → Prop} (hrun : Holds ph lg run)
    (hptr : Points ph run ptr)
    (h : ∀ updated, Q updated (⟨.writeCheckpoint cfg.tenantId run.id
      run.version ptr, .ok updated⟩ :: lg)) :
    Walks ph Q (writeCheckpointPointer cfg run ptr) lg := by
  unfold writeCheckpointPointer
  refine paths_bind (walks_ask ⟨run, hrun, rfl, hptr⟩ fun r => ?_)
  cases r with
  | ok updated => exact h updated
  | empty => exact trivial
  | fail err => exact trivial

theorem walks_generateAndStorePlan {run : Run} {out : PlanOutput}
    {text : String} {Q : Unit → Heard → Prop}
    (hph : ∀ id decision note, ph ≠ .entry (.resolveCheckpoint id decision note))
    (h : ∀ lg', (∀ run', Holds ph lg run' → Holds ph lg' run') → Q () lg') :
    Walks ph Q (generateAndStorePlan cfg run out text) lg := by
  have hsave : ∀ a lg', asks ph lg' (.savePlan a) := by
    intro a lg'
    cases ph with
    | loop st => exact trivial
    | entry c =>
      cases c with
      | resolveCheckpoint id decision note => exact absurd rfl (hph _ _ _)
      | _ => exact trivial
  unfold generateAndStorePlan
  split
  · exact trivial
  · refine paths_bind (walks_ask trivial fun latest => ?_)
    refine paths_bind (walks_ask trivial fun now => ?_)
    split
    · exact trivial
    · next artifact demoted _ =>
      have hlast : ∀ lg', Grown (fun _ => true) lg lg' →
          Walks ph Q (ask (.savePlan artifact)) lg' := by
        intro lg' hlg'
        exact walks_ask (hsave _ _) fun u =>
          h _ fun run' hr => (hlg'.cons rfl).holds hr
      have hgrown : Grown (fun _ => true) lg
          (⟨.nowIso, now⟩ :: ⟨.loadLatest run.id, latest⟩ :: lg) :=
        ((Grown.refl lg).cons rfl).cons rfl
      split
      · exact paths_bind (walks_observe fun lg' hlg' =>
          hlast lg' (hgrown.trans (hlg'.mono fun _ _ => rfl)))
      · exact hlast _ hgrown

theorem walks_loadOrStart {run : Run} {Q : RunProgress → Heard → Prop}
    (h : ∀ p lg', Grown pointless lg lg' → lastRecord lg' = some p → Q p lg') :
    Walks ph Q (loadOrStart run) lg := by
  unfold loadOrStart
  refine paths_bind (walks_ask trivial fun r => ?_)
  cases r with
  | some p => exact h p _ ((Grown.refl lg).cons rfl) rfl
  | none =>
    unfold startNew
    refine paths_bind (walks_ask trivial fun now => ?_)
    refine paths_bind (walks_ask ?_ fun u => ?_)
    · intro p hp
      cases hp
    · exact h _ _ ((((Grown.refl lg).cons rfl).cons rfl).cons rfl) rfl

end Helpers

-- ==== records

section Records

variable {lg : Heard} {p : RunProgress}

theorem grows_of_eq {p' : RunProgress}
    (hdone : p'.completedSubtaskIds = p.completedSubtaskIds)
    (hack : p'.acknowledgedCheckpointSignatures =
      p.acknowledgedCheckpointSignatures)
    (hlines : p'.linesChanged = p.linesChanged) : Grows lg p p' := by
  refine ⟨?_, ?_, fun _ => ?_⟩
  · rw [hdone]; exact List.Subset.refl _
  · rw [hack]; exact List.Subset.refl _
  · rw [hlines]

theorem grows_acknowledge (signature : Signature) :
    Grows lg p (p.acknowledge signature) := by
  unfold RunProgress.acknowledge
  split
  · exact grows_of_eq rfl rfl rfl
  · exact ⟨List.Subset.refl _, List.subset_append_left _ _, fun _ => le_refl _⟩

theorem grows_afterFixup {diff : DiffOutput} {x : (e : Req) × Resp e}
    (hx : x ∈ lg) (hd : diff ∈ diffsOf x) : Grows lg p (p.afterFixup diff) := by
  refine ⟨List.Subset.refl _, List.Subset.refl _, fun hpos => ?_⟩
  have hnonneg := hpos x hx diff hd
  show p.linesChanged ≤ p.linesChanged + diff.linesChanged
  omega

theorem grows_afterBatch {batch : List SubtaskEntry}
    {diffs : List DiffOutput}
    (h : ∀ d ∈ diffs, ∃ x ∈ lg, d ∈ diffsOf x) :
    Grows lg p (p.afterBatch (batch.zip diffs)) := by
  refine ⟨?_, ?_, fun hpos => ?_⟩
  · rw [RunProgress.afterBatch_done]
    exact List.subset_append_left _ _
  · rw [RunProgress.afterBatch_acknowledged]
    exact List.Subset.refl _
  · refine RunProgress.completeAll_lines _ (fun d hd => ?_) p
    obtain ⟨x, hx, hmem⟩ := h d.2 (List.of_mem_zip hd).2
    exact hpos x hx d.2 hmem

end Records

-- ==== the two working steps

section Steps

variable {cfg : Config} {lg : Heard} {st : Run}

theorem walks_pauseAt {t : CheckpointTrigger} {Q : Unit → Heard → Prop}
    (hst : st.stage.planning = false) (h : ∀ lg', Q () lg') :
    Walks (.loop st) Q (pauseAt cfg st t) lg := by
  unfold pauseAt
  refine paths_bind (walks_ask trivial fun id => ?_)
  refine paths_bind (walks_ask trivial fun createdAt => ?_)
  exact paths_bind (walks_writeCheckpointPointer (Or.inl rfl)
    (Or.inl ⟨rfl, rfl, hst⟩) fun _ => h _)

theorem walks_pauseIfStuck {α : Type} {p : RunProgress}
    {scope : List String} {b : Budget} {yes no : α} {Q : α → Heard → Prop}
    (hst : st.stage.planning = false) (hyes : ∀ lg', Q yes lg')
    (hno : ∀ lg', Grown pointless lg lg' → Q no lg') :
    Walks (.loop st) Q (do
      let now ← ask .clock
      let triggers := openTriggers p scope b now
      alertOnTriggers cfg st triggers
      match findStuck triggers with
      | some stuck => do
        pauseAt cfg st stuck
        pure yes
      | none => pure no) lg := by
  refine paths_bind (walks_ask trivial fun now => ?_)
  refine paths_bind (walks_observeEach fun lg' hlg' => ?_)
  split
  · exact paths_bind (walks_pauseAt hst fun lg' => hyes lg')
  · have hclock : Grown pointless lg (⟨.clock, now⟩ :: lg) :=
      (Grown.refl lg).cons rfl
    exact hno lg' (hclock.trans (hlg'.mono observes_pointless))

theorem walks_handleImplementationFailure {p : RunProgress}
    {artifact : PlanArtifact} {exc : Exn} {Q : ImplOutcome → Heard → Prop}
    (hst : st.stage.planning = false) (hp : lastRecord lg = some p)
    (h : ∀ o lg', Q o lg') :
    Walks (.loop st) Q (handleImplementationFailure cfg st p artifact exc)
      lg := by
  unfold handleImplementationFailure
  refine paths_bind (walks_ask ?_ fun u => ?_)
  · intro q hq
    obtain rfl := Option.some.inj (hp.symm.trans hq)
    exact grows_of_eq rfl rfl rfl
  · refine paths_bind (walks_observe fun lg' _ => ?_)
    split
    · exact trivial
    · exact walks_pauseIfStuck hst (fun _ => h _ _) fun _ _ => h _ _

theorem walks_settleBatch {artifact : PlanArtifact} {p : RunProgress}
    {batch : List SubtaskEntry} {diffs : List DiffOutput}
    {Q : ImplOutcome → Heard → Prop} (hst : st.stage.planning = false)
    (hp : lastRecord lg = some p)
    (hd : ∀ d ∈ diffs, ∃ x ∈ lg, d ∈ diffsOf x) (h : ∀ o lg', Q o lg') :
    Walks (.loop st) Q (settleBatch cfg st artifact p batch diffs) lg := by
  unfold settleBatch
  refine paths_bind (walks_ask ?_ fun u => ?_)
  · intro q hq
    obtain rfl := Option.some.inj (hp.symm.trans hq)
    exact grows_afterBatch hd
  · refine paths_bind (walks_observeEach fun lg' _ => ?_)
    split
    · exact trivial
    · refine paths_bind (walks_ask trivial fun now => ?_)
      refine paths_bind (walks_observeEach fun lg'' _ => ?_)
      split
      · exact paths_bind (walks_pauseAt hst fun _ => h _ _)
      · exact h _ _

theorem walks_dispatch {ctx : RunContext} {sts : List SubTask}
    {artifact : PlanArtifact} {Q : Reply (List DiffOutput) → Heard → Prop}
    (hst : st.stage = .implementation) (ha : Loads lg artifact)
    (hsts : ∀ t ∈ sts, ∃ entry ∈ artifact.subtasks, t = .ofEntry entry)
    (hr : ∀ x lg', lastRecord lg' = lastRecord lg → Q (.raised x) lg')
    (hd : ∀ diffs lg', lastRecord lg' = lastRecord lg →
      (∀ d ∈ diffs, ∃ x ∈ lg', d ∈ diffsOf x) → Q (.returned diffs) lg') :
    Walks (.loop st) Q (dispatch ctx sts) lg := by
  unfold dispatch
  split
  · exact hr _ _ rfl
  · refine paths_bind (walks_ask ⟨⟨st, rfl, hst⟩, artifact, ha, hsts⟩
      fun r => ?_)
    cases r with
    | returned diff =>
      refine hd _ _ rfl fun d hmem => ⟨_, List.mem_cons_self .., ?_⟩
      exact hmem
    | raised x => exact hr _ _ rfl
  · refine walks_ask ⟨⟨st, rfl, hst⟩, artifact, ha, hsts⟩ fun r => ?_
    cases r with
    | returned diffs =>
      exact hd _ _ rfl fun d hmem => ⟨_, List.mem_cons_self .., hmem⟩
    | raised x => exact hr _ _ rfl

theorem walks_implementationStep {Q : ImplOutcome → Heard → Prop}
    (hst : st.stage = .implementation) (h : ∀ o lg', Q o lg') :
    Walks (.loop st) Q (implementationStep cfg st) lg := by
  have hpast : st.stage.planning = false := by rw [hst]; rfl
  unfold implementationStep
  refine paths_bind (walks_ask trivial fun latest => ?_)
  split
  · exact trivial
  · next artifact =>
    refine paths_bind (walks_loadOrStart fun p lg' hlg' hp => ?_)
    have hloads : Loads lg' artifact :=
      hlg'.loads ⟨_, List.mem_cons_self ..⟩
    split
    · split
      · exact h _ _
      · refine paths_bind (walks_ask trivial fun hex => ?_)
        refine paths_bind (walks_runContext fun ctx r => ?_)
        refine paths_bind (walks_ask ⟨⟨st, rfl, hst⟩, artifact, ?_, ?_⟩
          fun r => ?_)
        · exact ((grown_cons _ lg').cons rfl).loads hloads
        · intro t ht
          cases ht
        split
        · exact walks_handleImplementationFailure hpast hp h
        · next diff =>
          refine paths_bind (walks_ask ?_ fun u => h _ _)
          intro q hq
          obtain rfl := Option.some.inj (hp.symm.trans hq)
          exact grows_afterFixup (List.mem_cons_self ..)
            (List.mem_singleton.2 rfl)
    · next first hnext =>
      refine paths_bind (walks_runContext fun ctx r => ?_)
      refine paths_bind (walks_dispatch hst
        ((grown_cons _ lg').loads hloads) ?_ ?_ ?_)
      · intro t ht
        obtain ⟨entry, hentry, rfl⟩ := List.mem_map.1 ht
        exact ⟨entry, (mem_readySubtaskBatch hnext hentry).1, rfl⟩
      · intro x lg'' hlast
        exact walks_handleImplementationFailure hpast (hlast.trans hp) h
      · intro diffs lg'' hlast hd
        exact walks_settleBatch hpast (hlast.trans hp) hd h

theorem walks_verificationStep {Q : VerOutcome → Heard → Prop}
    (hst : st.stage = .verification) (hlg : ∀ x ∈ lg, points x.1 = false)
    (hstop : ∀ lg', Q .passed lg' ∧ Q .stuck lg')
    (hretry : ∀ lg', Failed lg' → Q .retry lg') :
    Walks (.loop st) Q (verificationStep cfg st) lg := by
  have hpast : st.stage.planning = false := by rw [hst]; rfl
  unfold verificationStep
  refine paths_bind (walks_runContext fun ctx latest => ?_)
  refine paths_bind (walks_ask trivial fun r => ?_)
  split
  · exact trivial
  · next res =>
    refine paths_bind (walks_loadOrStart fun p lg' hlg' hp => ?_)
    split
    · refine paths_bind (walks_ask ?_ fun u => (hstop _).1)
      intro q hq
      obtain rfl := Option.some.inj (hp.symm.trans hq)
      exact grows_of_eq rfl rfl rfl
    · next hfail =>
      -- from here on the verdict is in the log and no pointer is
      have hfailed : Failed lg' := by
        refine hlg'.failed ⟨⟨_, List.mem_cons_self .., ?_⟩, ?_⟩
        · simpa [failedVerdict] using hfail
        · intro x hx
          rcases List.mem_cons.1 hx with rfl | hx
          · rfl
          · rcases List.mem_cons.1 hx with rfl | hx
            · rfl
            · exact hlg x hx
      refine paths_bind (walks_ask ?_ fun u => ?_)
      · intro q hq
        obtain rfl := Option.some.inj (hp.symm.trans hq)
        exact grows_of_eq rfl rfl rfl
      refine paths_bind (walks_ask trivial fun forScope => ?_)
      refine paths_bind (walks_ask trivial fun forSize => ?_)
      split
      · exact trivial
      · refine paths_bind (walks_ask trivial fun forRisk => ?_)
        split
        · exact trivial
        · split
          · exact trivial
          · refine walks_pauseIfStuck hpast (fun _ => (hstop _).2) ?_
            intro lg'' hlg''
            refine hretry lg'' (hlg''.failed (Grown.failed ?_ hfailed))
            exact ((((Grown.refl lg').cons rfl).cons rfl).cons rfl).cons rfl

-- ==== turns

theorem walks_drive {runId : String} {ph : Phase Call Run} {lg : Heard} :
    Walks ph (HandsOn ph) (drive cfg runId) lg := by
  unfold drive
  exact paths_bind (walks_getRun fun run => holds_head rfl)

theorem walks_moveAgain {next : Stage} (hst : st.stage.gate = false) :
    Walks (.loop st) (HandsOn (.loop st)) (do
      let run ← transition cfg st next
      pure (.again run)) lg :=
  paths_bind (walks_transition (Or.inl rfl) (Or.inl ⟨rfl, hst⟩)
    fun _ _ hheld _ => hheld)

theorem walks_moveDone {next : Stage} {f : Run → RunStatus}
    (hst : st.stage.gate = false) :
    Walks (.loop st) (HandsOn (.loop st)) (do
      let run ← transition cfg st next
      pure (.done (f run))) lg :=
  paths_bind (walks_transition (Or.inl rfl) (Or.inl ⟨rfl, hst⟩)
    fun _ _ _ _ => trivial)

theorem walks_afterImplementation {o : ImplOutcome} :
    Walks (.loop st) (HandsOn (.loop st)) (afterImplementation cfg st o)
      lg := by
  unfold afterImplementation
  refine paths_bind (walks_getRun fun run => ?_)
  have hheld : ∀ {lg : Heard}, Holds (.loop st)
      (⟨.getRun cfg.tenantId st.id, .ok run⟩ :: lg) run := holds_head rfl
  cases o with
  | paused => exact hheld
  | proceed => exact hheld
  | verify =>
    show Walks _ _ (if run.stage ≠ .verification then _ else _) _
    split
    · exact paths_bind (walks_transition hheld
        (Or.inr ⟨_, _, _, rfl, Or.inl rfl⟩) fun _ _ h _ => h)
    · exact hheld

theorem walks_afterVerification {o : VerOutcome}
    (hst : st.stage = .verification) (hretry : o = .retry → Failed lg) :
    Walks (.loop st) (HandsOn (.loop st)) (afterVerification cfg st o)
      lg := by
  unfold afterVerification
  refine paths_bind (walks_getRun fun run => ?_)
  have hheld : ∀ {lg : Heard}, Holds (.loop st)
      (⟨.getRun cfg.tenantId st.id, .ok run⟩ :: lg) run := holds_head rfl
  cases o with
  | passed =>
    exact paths_bind (walks_transition hheld
      (Or.inr ⟨_, _, _, rfl, Or.inr (Or.inl rfl)⟩) fun _ _ _ _ => trivial)
  | retry =>
    exact paths_bind (walks_transition hheld
      (Or.inr ⟨_, _, _, rfl, Or.inr (Or.inr ⟨rfl, hst, hretry rfl⟩)⟩)
      fun _ _ h _ => h)
  | stuck => exact hheld

/-- A turn of the drive loop. -/
theorem driveBody_paths (cfg : Config) (st : Run) :
    Walks (.loop st) (HandsOn (.loop st)) (driveBody cfg st) [] := by
  unfold driveBody
  split
  · exact trivial
  · exact trivial
  · split
    · next hst => exact walks_moveAgain (by rw [hst]; rfl)
    · next hst =>
      refine paths_bind ?_
      unfold research
      split
      · refine paths_bind (walks_ask trivial fun r => ?_)
        cases r with
        | returned u => exact walks_moveAgain (by rw [hst]; rfl)
        | raised x => exact trivial
      · exact walks_moveAgain (by rw [hst]; rfl)
    · next hst =>
      refine paths_bind ?_
      unfold authorPlan
      refine paths_bind (walks_runContext fun ctx r => ?_)
      refine paths_bind (walks_ask trivial fun r => ?_)
      cases r with
      | raised x => exact trivial
      | returned out =>
        refine paths_bind (walks_generateAndStorePlan ?_ fun lg' _ => ?_)
        · intro _ _ _ hc
          cases hc
        · exact walks_moveDone (by rw [hst]; rfl)
    · exact trivial
    · next hst =>
      exact paths_bind (walks_implementationStep hst fun o lg' =>
        walks_afterImplementation)
    · next hst =>
      refine paths_bind (walks_verificationStep hst ?_ ?_ ?_)
      · intro x hx
        cases hx
      · intro lg'
        exact ⟨walks_afterVerification hst (by intro hc; cases hc),
          walks_afterVerification hst (by intro hc; cases hc)⟩
      · intro lg' hfailed
        exact walks_afterVerification hst fun _ => hfailed
    · exact trivial
    · next hst =>
      refine paths_bind ?_
      unfold package
      split
      · refine paths_bind (walks_ask trivial fun r => ?_)
        cases r with
        | returned u => exact walks_moveAgain (by rw [hst]; rfl)
        | raised x => exact trivial
      · exact walks_moveAgain (by rw [hst]; rfl)
    · next hst => exact walks_moveDone (by rw [hst]; rfl)
    · exact trivial
    · exact trivial

end Steps

-- ==== public calls

section Calls

variable {cfg : Config} {lg : Heard} {c : Call}

theorem walks_leave {run : Run} {next : Stage} {f : Run → RunStatus}
    (hc : answers c = true) (hrun : Holds (.entry c) lg run) :
    Walks (.entry c) (HandsOn (.entry c)) (do
      let run ← transition cfg run next
      pure (.done (f run))) lg :=
  paths_bind (walks_transition hrun hc fun _ _ _ _ => trivial)

theorem walks_moveOn {run : Run} {next : Stage}
    (hc : answers c = true) (hrun : Holds (.entry c) lg run) :
    Walks (.entry c) (HandsOn (.entry c)) (do
      let run ← transition cfg run next
      drive cfg run.id) lg :=
  paths_bind (walks_transition hrun hc fun _ _ _ _ => walks_drive)

theorem walks_approvePlan {runId decision : String}
    {feedback : Option String}
    (hcall : c = .approvePlan runId decision feedback) :
    Walks (.entry c) (HandsOn (.entry c))
      (approvePlan cfg runId decision feedback) [] := by
  have hc : answers c = true := by rw [hcall]; rfl
  unfold approvePlan
  refine paths_bind (walks_getRun fun run => ?_)
  split
  · exact trivial
  · split
    · refine paths_bind (walks_transition (holds_head rfl) hc
        fun updated lg' hheld hlg' => ?_)
      unfold startNew
      refine paths_bind (paths_bind (walks_ask trivial fun now => ?_))
      refine paths_bind (walks_ask ?_ fun u => walks_drive)
      -- no record was loaded or saved before
      intro p hp
      have hnone : lastRecord lg' = none := hlg'.lastRecord.trans rfl
      cases hnone.symm.trans hp
    · split
      · unfold requestPlanChanges
        refine paths_bind (walks_ask ⟨c, rfl, hc⟩ fun r => ?_)
        cases r with
        | empty => exact trivial
        | fail err => exact trivial
        | ok id =>
          refine paths_bind (walks_getRun fun run' => ?_)
          unfold rePlan
          refine paths_bind (paths_bind (walks_runContext fun ctx r => ?_))
          refine paths_bind (walks_ask trivial fun r => ?_)
          cases r with
          | raised x => exact trivial
          | returned out =>
            refine paths_bind (walks_generateAndStorePlan ?_
              fun lg' hkeep => walks_leave hc (hkeep _ ?_))
            · intro _ _ _ hph
              rw [hcall] at hph
              cases hph
            · refine Or.inr (List.mem_filterMap.2 ⟨⟨.getRun cfg.tenantId
                run.id, .ok run'⟩, ?_, rfl⟩)
              simp
      · split
        · exact walks_leave hc (holds_head rfl)
        · exact trivial

theorem walks_approveChangeReview {runId decision : String}
    {feedback : Option String}
    (hcall : c = .approveChangeReview runId decision feedback) :
    Walks (.entry c) (HandsOn (.entry c))
      (approveChangeReview cfg runId decision feedback) [] := by
  have hc : answers c = true := by rw [hcall]; rfl
  unfold approveChangeReview
  refine paths_bind (walks_getRun fun run => ?_)
  split
  · exact trivial
  · split
    · exact walks_moveOn hc (holds_head rfl)
    · split
      · exact walks_moveOn hc (holds_head rfl)
      · split
        · exact walks_leave hc (holds_head rfl)
        · exact trivial

theorem walks_acknowledge {ph : Phase Call Run} {run : Run}
    {e : Elicitation} {Q : Unit → Heard → Prop}
    (h : ∀ lg', Grown (fun _ => true) lg lg' → Q () lg') :
    Walks ph Q (acknowledge run e) lg := by
  unfold acknowledge
  refine paths_bind (walks_ask trivial fun r => ?_)
  split
  · next p signature hsig =>
    refine walks_ask ?_ fun u => h _ (((Grown.refl lg).cons rfl).cons rfl)
    intro q hq
    obtain rfl := Option.some.inj hq
    exact grows_acknowledge signature
  · exact h _ ((Grown.refl lg).cons rfl)

theorem walks_extendDeclaredScope {run : Run} {runId decision : String}
    {note : Option String} {e : Elicitation} {now : Time}
    {Q : Unit → Heard → Prop}
    (hcall : c = .resolveCheckpoint runId decision note)
    (hd : decision = "extend_scope") (he : e.trigger = .risk)
    (hans : Answered lg (e.resolve decision note now)) (h : ∀ lg', Q () lg') :
    Walks (.entry c) Q (extendDeclaredScope run e.details.outOfScopeFiles)
      lg := by
  subst hcall
  unfold extendDeclaredScope
  refine paths_bind (walks_ask trivial fun latest => ?_)
  split
  · exact trivial
  · next base =>
    refine paths_bind (walks_ask trivial fun at' => ?_)
    exact walks_ask ⟨hd, e, now, base, _, _, lg, he, hans, rfl, rfl⟩
      fun u => h _

theorem walks_resolveCheckpoint {runId decision : String}
    {note : Option String}
    (hcall : c = .resolveCheckpoint runId decision note) :
    Walks (.entry c) (HandsOn (.entry c))
      (resolveCheckpoint cfg runId decision note) [] := by
  have hc : answers c = true := by rw [hcall]; rfl
  unfold resolveCheckpoint
  refine paths_bind (walks_getRun fun run => ?_)
  split
  · exact trivial
  · exact trivial
  · next e hpend =>
    refine paths_bind (walks_ask trivial fun now => ?_)
    refine paths_bind (walks_writeCheckpointPointer ?_
      (Or.inr ⟨_, _, _, e, now, by rw [hcall], hpend, rfl⟩)
      fun updated => ?_)
    · exact (grown_cons _ _).holds (holds_head rfl)
    split
    · exact walks_leave hc (holds_head rfl)
    · refine paths_bind (walks_acknowledge fun lg' hlg' => ?_)
      have hans : Answered lg' (e.resolve decision note now) :=
        hlg'.answered ⟨rfl, _, _, _, updated, List.mem_cons_self ..⟩
      split
      · next hext =>
        exact paths_bind (walks_extendDeclaredScope hcall hext.1 hext.2 hans
          fun lg'' => walks_drive)
      · exact walks_drive

/-- The part of a public call before its drive. -/
theorem entry_paths (cfg : Config) (c : Call) :
    Walks (.entry c) (HandsOn (.entry c)) (entry cfg c) [] := by
  cases c with
  | resumeRun runId => exact walks_drive
  | approvePlan runId decision feedback => exact walks_approvePlan rfl
  | approveChangeReview runId decision feedback =>
    exact walks_approveChangeReview rfl
  | resolveCheckpoint runId decision note =>
    exact walks_resolveCheckpoint rfl

/-- A discipline of what the orchestrator asks and hands on is followed by
it. -/
theorem follows_of_asks {D : Discipline Resp Env World Call Run}
    (hmay : D.may = asks) (hon : D.handsOn = Holds) (cfg : Config) :
    D.Follows (machine cfg) := by
  have hends : ∀ ph (c : Turn) lg, HandsOn ph c lg → D.Ends ph c lg := by
    intro ph c lg h
    cases c with
    | again run =>
      show D.handsOn ph lg run
      rw [hon]
      exact h
    | done st => exact trivial
  constructor
  · intro c
    rw [hmay]
    exact (entry_paths cfg c).mono (hends _)
  · intro st
    rw [hmay]
    exact (driveBody_paths cfg st).mono (hends _)

end Calls

end Conc

end SdlcOs.Orchestrator
