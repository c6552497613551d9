/-
Whether everything a run has changed is on its record.

# The gaps

The diff of a call is taken against HEAD right before the commit, so what
was committed or merged and not saved is never looked at again: a process
dies between the commit and the save, a later subtask of a batch fails
after an earlier one was committed or merged. And `git status` does not
name every file: a new directory is one line, an ignored file is none.

# The invariant

Where HEAD differs from the base commit, a call that returned has reported
the file, and unless the last attempt raised, the files are HEAD's
(`Accounts`). A batch in worktrees of its own does not look at the files of
the main worktree, so after one that raised these must still be HEAD's, or
a merge must be in the way; that the same batch comes next is `Retried`.
What was reported is on the record outside implementation
(`Booked.booked_outside_implementation`).
-/
import SdlcOs.Backend.Driven
import SdlcOs.Orchestrator.Script
import SdlcOs.Proofs.Backend.Accounting
import SdlcOs.Proofs.Booked

namespace SdlcOs.Bedrock

open Data Effects Git
open Orchestrator (Answer Config DiffOutput Env Event Exn Initial Reply Req
  Resp Site SubTask World answering calling decode eventAt eventOf machine
  raising)
open Orchestrator.Booked (Booked Matched Saved Told told_others told_raised
  told_returned)
open Orchestrator.Retry (Attempt Failing Others Retried lastAttempt
  lastAttempt_others others_moveEvents others_nil others_one
  others_pointerEvents)

variable {cfg : Config} {B : ToolUseBackend} {R : Rules} {base : Tree}

-- ==== the terms

/-- An orderly call of the backend, which moves HEAD only if it returns. -/
def OrderlyAsk (B : ToolUseBackend) (R : Rules) (w : Worktree) :
    (e : Req) → Outside e → Prop
  | .implementSubtask _ ctx st, c => c.Orderly B R ctx w st ∧
      Lossless w (implementSubtask B R ctx w st c)
  | .implementSubtasksParallel ctx sts, b => b.Orderly B R ctx w sts ∧
      Lossless w (implementSubtasksParallel B R ctx w sts b)
  | _, _ => True

/-- The calls of the backend are orderly, and processes stop where what the
last of them reported is on the record. -/
def Orderly (B : ToolUseBackend) (R : Rules) (s : DrivenState) :
    DrivenAct → Prop
  | .call _ _ => True
  | .step p ans =>
    (∀ pr e k x, s.procs p = some pr → pr.prog = .op e k →
      Move.decode e ans = some x → OrderlyAsk B R s.world.2 e x) ∧
    (raising (Machine.forget s) p = true → Saved s.world.1)
  | .crash _ => Saved s.world.1

-- ==== histories

/-- What the last attempt left of the worktree. -/
def Left (B : ToolUseBackend) (w : Worktree) : Option Attempt → Prop
  | none => Quiet w
  | some ⟨_, _, .returned _⟩ => Quiet w
  | some ⟨_, sts, .raised _⟩ =>
    sts ≠ [] ∧ (Apart B sts → Settled w)

/-- What HEAD has moved was reported, and nothing but the last attempt has
left anything behind. -/
structure Accounts (B : ToolUseBackend) (base : Tree)
    (w : World × Worktree) : Prop where
  told : ∀ p, w.2.head.get p ≠ base.get p → Told w.1.hist p.text
  left : Left B w.2 (lastAttempt w.1.hist)

theorem Accounts.others {w : World × Worktree} (h : Accounts B base w)
    {w' : World} {evs : List Event} (hevs : Others evs)
    (hhist : w'.hist = evs ++ w.1.hist) : Accounts B base (w', w.2) := by
  refine ⟨fun p hp => ?_, ?_⟩
  · show Told w'.hist p.text
    rw [hhist]
    exact (told_others hevs).2 (h.told p hp)
  · show Left B w.2 (lastAttempt w'.hist)
    rw [hhist, lastAttempt_others hevs]
    exact h.left

/-- An attempt that raised, and left HEAD where it was. -/
theorem Accounts.raised {w : World × Worktree} (h : Accounts B base w)
    {w' : Worktree} {site : Site} {sts : List SubTask} {x : Exn}
    (hhead : ∀ p, w'.head.get p = w.2.head.get p) (hne : sts ≠ [])
    (hleft : Apart B sts → Settled w') :
    Accounts B base
      (w.1.record (.implemented site sts (.raised x)), w') := by
  refine ⟨fun p hp => told_raised.2 (h.told p ?_), hne, hleft⟩
  rw [← hhead]
  exact hp

theorem Accounts.returned {w : World × Worktree} (h : Accounts B base w)
    {w' : Worktree} {site : Site} {sts : List SubTask}
    {diffs : List DiffOutput} (hreports : Reports w.2 w' (allTouched diffs))
    (hquiet : Quiet w') :
    Accounts B base
      (w.1.record (.implemented site sts (.returned diffs)), w') := by
  refine ⟨fun p hp => told_returned.2 ?_, hquiet⟩
  by_cases hsame : w'.head.get p = w.2.head.get p
  · refine Or.inr (h.told p ?_)
    rw [← hsame]
    exact hp
  · exact Or.inl (List.mem_flatMap.1 (hreports p hsame))

/-- Before a batch, given that it retries what raised: a clean worktree, or
one that a merge will not touch; and with nothing to do, a quiet one. -/
theorem Accounts.before {w : World × Worktree} (h : Accounts B base w)
    {sts : List SubTask} {out : Reply (List DiffOutput)}
    (hr : Retried (.implemented .planned sts out :: w.1.hist)) :
    (Apart B sts → Settled w.2) ∧ (sts = [] → Quiet w.2) := by
  have hleft := h.left
  cases hlast : lastAttempt w.1.hist with
  | none =>
    rw [hlast] at hleft
    have hquiet : Quiet w.2 := hleft
    exact ⟨fun _ => hquiet.settled, fun _ => hquiet⟩
  | some attempt =>
    obtain ⟨site', sts', out'⟩ := attempt
    rw [hlast] at hleft
    cases out' with
    | returned diffs =>
      have hquiet : Quiet w.2 := hleft
      exact ⟨fun _ => hquiet.settled, fun _ => hquiet⟩
    | raised x =>
      obtain ⟨_, hsts⟩ := hr.1 site' sts' ⟨x, hlast⟩
      rw [hsts rfl] at hleft
      exact ⟨hleft.2, fun hnil => absurd hnil hleft.1⟩

-- ==== one request

namespace Sample

/-- A backend that works in one worktree. -/
def backend : ToolUseBackend where
  workspaceRoot := ["repo"]
  worktrees := ⟨none, none, none⟩
  maxTurns := fun _ => 10

/-- Nothing is ignored, and no merge is clean. -/
def rules : Rules where
  ignored := fun _ _ => false
  merged := fun _ _ _ => none
  conflicted := fun _ ours _ => (ours, ours)
  numstat := fun _ _ => some (1, 1)
  tampered := fun w _ _ => w

def story : Git.Path := ["src", "story.py"]

def commit : Tree := Dict.empty.set story "old"

def start : World × Worktree := (Orchestrator.Sample.world, .checkout commit)

theorem starts : Starts Orchestrator.Sample.cfg commit start :=
  ⟨Orchestrator.Sample.initial_sample, rfl⟩

/-- The model writes the story's file and is done. -/
def written : Call where
  turns := [.replied
    [{ name := "write_file"
       input := { path := some "src/story.py", content := some "new" } },
      { name := "finish" }]]

/-- The model is done at once. -/
def finished : Call where
  turns := [.replied [{ name := "finish" }]]

/-- The moves of a run in which the backend is not asked. -/
def lift : Orchestrator.Act Unit → DrivenAct
  | .call p c => .call p c
  | .step p x => .step p (.answer x)
  | .crash p => .crash p

/-- A plan of one subtask was approved. -/
def approved : List DrivenAct :=
  (Orchestrator.Sample.approved () [Orchestrator.Sample.task "t1"]).map lift

/-- The backend is asked, and the run moves on to verification. -/
def implemented (c : Call) : List DrivenAct :=
  .step () (.call c) :: .step () (.answer .auto) ::
    (answering () (.time 0) 4).map lift

/-- The process dies after the commit, and the run is resumed. -/
def interrupted : List DrivenAct :=
  approved ++ .step () (.call written) :: .crash () ::
    ((calling () (.resumeRun "run") 5).map lift ++ implemented finished)

/-- A check of the terms for runs that are not interrupted. -/
def asked (w : Worktree) : Req → Move → Bool
  | .implementSubtask _ ctx st, .call c =>
    decide (c.Orderly backend rules ctx w st) &&
      match (implementSubtask backend rules ctx w st c).2 with
      | .returned _ => true
      | .raised _ => false
  | .implementSubtasksParallel .., _ => false
  | _, _ => true

def chk (s : DrivenState) : DrivenAct → Bool
  | .call _ _ => true
  | .crash _ => false
  | .step p ans =>
    match s.procs p with
    | some ⟨_, _, .op e _⟩ => asked s.world.2 e ans
    | some ⟨_, _, .raise _⟩ => false
    | _ => true

end Sample

theorem reach_of_run {cond : DrivenState → DrivenAct → Prop}
    (chk : DrivenState → DrivenAct → Bool)
    (hchk : ∀ s a, chk s a = true → cond s a) (acts : List DrivenAct)
    (test : DrivenState → Bool)
    (h : (((driven Orchestrator.Sample.cfg Sample.backend Sample.rules).run
      chk acts (Sys.idle Sample.start)).any test) = true) :
    ∃ s, (driven Orchestrator.Sample.cfg Sample.backend Sample.rules).Reach
      (Starts Orchestrator.Sample.cfg Sample.commit) cond s ∧
        test s = true :=
  Machine.reach_of_any hchk Sample.starts h

end SdlcOs.Bedrock
