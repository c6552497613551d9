/-
What the backend reports of what it changes.

A call that returns has reported every file in which HEAD has moved, and
leaves nothing behind that is not committed, as long as no tool writes
into git's own directory, every new file is listed by its own path, and
the worktrees of a batch are forked from HEAD (`implementSubtask_returned`,
`oneByOne_returned`, `isolated_returned`).

A call that raises reports nothing. What it left of the files is seen by
the next call; what it committed or merged is not, so the question is
whether HEAD has moved (`Lossless`). A batch in worktrees of its own leaves
the main worktree clean even then, or in the middle of a merge
(`isolated_settled`).
-/
import SdlcOs.Backend.ToolUse

namespace SdlcOs.Bedrock

open Data Git
open Orchestrator (Exn Reply RunContext SubTask DiffOutput mem_sortedSet)

variable {B : ToolUseBackend} {R : Rules} {ctx : RunContext}
  {w w' : Worktree} {st : SubTask} {sts : List SubTask} {c : Call}

-- ==== worktrees

/-- Nothing is staged and nothing is changed. -/
structure Quiet (w : Worktree) : Prop where
  staged : ∀ p, w.index.get p = w.head.get p
  unstaged : ∀ p, w.files.get p = w.head.get p

/-- A batch may merge into the worktree, or will not. -/
def Settled (w : Worktree) : Prop := w.Clean ∨ w.merging = true

theorem Quiet.settled (h : Quiet w) : Settled w := by
  cases hmerging : w.merging with
  | true => exact Or.inr hmerging
  | false => exact Or.inl ⟨h.staged, h.unstaged, hmerging⟩

/-- Every path in which HEAD has moved is among the files. -/
def Reports (w w' : Worktree) (files : List String) : Prop :=
  ∀ p, w'.head.get p ≠ w.head.get p → p.text ∈ files

/-- A call that raises leaves HEAD where it was. -/
def Lossless {α : Type} (w : Worktree) (r : Worktree × Reply α) : Prop :=
  ∀ x, r.2 = .raised x → ∀ p, r.1.head.get p = w.head.get p

-- ==== tools

/-- The tool calls of a turn. -/
def Turn.uses : Turn → List ToolUse
  | .raised _ => []
  | .replied uses => uses

/-- The tool call does not write into git's own directory. -/
def ToolUse.KeepsOut (root : List String) (u : ToolUse) : Prop :=
  u.name = "write_file" ∨ u.name = "edit_file" →
    ∀ p ∈ u.input.path.bind (safeJoin root), p.head? ≠ some ".git"

instance (root : List String) (u : ToolUse) : Decidable (u.KeepsOut root) :=
  inferInstanceAs (Decidable (_ → _))

/-- No tool call of any turn does. -/
def Untampered (root : List String) (c : Call) : Prop :=
  ∀ turn ∈ c.turns, ∀ u ∈ turn.uses, u.KeepsOut root

instance (root : List String) (c : Call) : Decidable (Untampered root c) :=
  inferInstanceAs (Decidable (∀ turn ∈ c.turns, _))

/-- Only the files are changed. -/
def Edited (w w' : Worktree) : Prop :=
  w'.head = w.head ∧ w'.index = w.index

theorem Edited.refl (w : Worktree) : Edited w w := ⟨rfl, rfl⟩

theorem Edited.trans {w'' : Worktree} (h : Edited w w')
    (h' : Edited w' w'') : Edited w w'' :=
  ⟨h'.1.trans h.1, h'.2.trans h.2⟩

theorem writeText_edited {p : Path} (hp : p.head? ≠ some ".git")
    (text : String) (io : Io) : Edited w (writeText R w p text io).1 := by
  unfold writeText
  cases io with
  | done =>
    dsimp only
    rw [if_neg hp]
    exact ⟨rfl, rfl⟩
  | failed left x =>
    cases left with
    | none => exact .refl w
    | some left =>
      dsimp only
      rw [if_neg hp]
      exact ⟨rfl, rfl⟩

theorem executeEditFile_edited {p : Path} (hp : p.head? ≠ some ".git")
    (old new : String) (replaceAll : Bool) (io : Io) :
    Edited w (executeEditFile R w p old new replaceAll io).1 := by
  unfold executeEditFile
  rw [if_neg hp]
  split
  · exact .refl w
  · dsimp only
    split
    · exact .refl w
    · split
      · exact .refl w
      · exact writeText_edited hp _ io

theorem executeTool_edited {u : ToolUse} (h : u.KeepsOut B.workspaceRoot) :
    Edited w (executeTool B R w u).1 := by
  unfold executeTool
  split
  · exact .refl w
  · next p hp =>
    split
    · next hname =>
      split
      · exact .refl w
      · exact writeText_edited (h (Or.inl hname) p hp) _ u.io
    · split
      · next hname =>
        split
        · exact executeEditFile_edited (h (Or.inr hname) p hp) _ _ _ u.io
        · exact .refl w
      · split
        · exact .refl w
        · exact .refl w

theorem executeTools_edited {uses : List ToolUse}
    (h : ∀ u ∈ uses, u.KeepsOut B.workspaceRoot) :
    ∀ (w : Worktree) (finished : Bool),
      Edited w (executeTools B R w uses finished).1 := by
  induction uses with
  | nil =>
    intro w finished
    exact .refl w
  | cons u uses ih =>
    intro w finished
    have hrest := ih fun v hv => h v (List.mem_cons_of_mem _ hv)
    rw [executeTools]
    split
    · exact hrest w true
    · have hu := executeTool_edited (B := B) (R := R) (w := w)
        (h u List.mem_cons_self)
      split
      · next w' x hres =>
        rw [hres] at hu
        exact hu
      · next w' hres =>
        rw [hres] at hu
        exact hu.trans (hrest w' finished)

theorem converse_edited {turns : List Turn}
    (h : ∀ turn ∈ turns, ∀ u ∈ turn.uses, u.KeepsOut B.workspaceRoot)
    (x : Exn) :
    ∀ (n : Nat) (w : Worktree), Edited w (converse B R x n w turns).1 := by
  induction turns with
  | nil =>
    intro n w
    cases n <;> exact .refl w
  | cons turn turns ih =>
    intro n w
    have hrest := ih fun t ht => h t (List.mem_cons_of_mem _ ht)
    cases n with
    | zero => exact .refl w
    | succ n =>
      cases turn with
      | raised x => exact .refl w
      | replied uses =>
        have huses : Edited w (executeTools B R w uses false).1 :=
          executeTools_edited
            (h (.replied uses) List.mem_cons_self) w false
        rw [converse]
        split
        · next w' x hres =>
          rw [hres] at huses
          exact huses
        · next w' hres =>
          rw [hres] at huses
          exact huses
        · next w' hres =>
          rw [hres] at huses
          exact huses.trans (hrest n w')

theorem edit_edited (h : Untampered B.workspaceRoot c) (ctx : RunContext)
    (w : Worktree) (st : SubTask) : Edited w (edit B R ctx w st c).1 :=
  converse_edited h _ _ w

-- ==== commits

theorem commitStaged_quiet (hnamed : w.Named R) :
    Quiet (w.addAll R).commitStaged ∧
      ∀ p, (w.addAll R).commitStaged.head.get p = w.files.get p := by
  have hindex := fun p => addAll_get hnamed p
  unfold Worktree.commitStaged
  split
  · exact ⟨⟨fun _ => rfl, fun p => (hindex p).symm⟩, hindex⟩
  · next hstaged =>
    rw [Bool.not_eq_true] at hstaged
    have hsame := staged_eq_false.1 hstaged
    exact ⟨⟨hsame, fun p => (hindex p).symm.trans (hsame p)⟩,
      fun p => (hsame p).symm.trans (hindex p)⟩

theorem realGitCommit_returned {landing : Landing} (hnamed : w.Named R)
    (h : realGitCommit B R w landing = (w', none)) :
    Quiet w' ∧ ∀ p, w'.head.get p = w.files.get p := by
  have hcommit := commitStaged_quiet hnamed
  unfold realGitCommit at h
  cases landing with
  | landed =>
    obtain ⟨rfl, _⟩ := Prod.mk.inj h
    exact hcommit
  | addFailed stderr => cases h
  | killedAfterAdd => cases h
  | killedAfterCommit => cases h
  | commitFailed stderr =>
    dsimp only at h
    split at h
    · cases h
    · next hstaged =>
      obtain ⟨rfl, _⟩ := Prod.mk.inj h
      unfold Worktree.commitStaged at hcommit
      rwa [if_neg hstaged] at hcommit

-- ==== one call

/-- A call whose tools keep out of git's own directory and leave no new
file that is not listed by its own path. -/
structure Call.Orderly (B : ToolUseBackend) (R : Rules) (ctx : RunContext)
    (w : Worktree) (st : SubTask) (c : Call) : Prop where
  untampered : Untampered B.workspaceRoot c
  named : (edit B R ctx w st c).2 = none → (edit B R ctx w st c).1.Named R

instance (ctx : RunContext) (w : Worktree) (st : SubTask) (c : Call) :
    Decidable (c.Orderly B R ctx w st) :=
  decidable_of_iff (Untampered B.workspaceRoot c ∧
      ((edit B R ctx w st c).2 = none → (edit B R ctx w st c).1.Named R))
    ⟨fun h => ⟨h.1, h.2⟩, fun h => ⟨h.untampered, h.named⟩⟩

theorem implementSubtask_returned (hc : c.Orderly B R ctx w st)
    {d : DiffOutput}
    (h : implementSubtask B R ctx w st c = (w', .returned d)) :
    Quiet w' ∧ Reports w w' d.filesTouched := by
  have hedited := edit_edited (R := R) hc.untampered ctx w st
  have hnamed := hc.named
  unfold implementSubtask at h
  split at h
  · cases h
  · next w₁ hedit =>
    rw [hedit] at hedited hnamed
    have hnamed := hnamed rfl
    split at h
    · cases h
    · next w₂ hcommit =>
      obtain ⟨rfl, hd⟩ := Prod.mk.inj h
      obtain rfl := Reply.returned.inj hd
      obtain ⟨hquiet, hhead⟩ := realGitCommit_returned hnamed hcommit
      refine ⟨hquiet, fun p hp => ?_⟩
      rw [hhead, ← hedited.1] at hp
      exact mem_sortedSet.2 (mem_status_of_named hnamed hp)

-- ==== one by one

theorem Reports.trans {w'' : Worktree} {files files' : List String}
    (h : Reports w w' files) (h' : Reports w' w'' files') :
    Reports w w'' (files ++ files') := by
  intro p hp
  by_cases hmoved : w'.head.get p = w.head.get p
  · rw [← hmoved] at hp
    exact List.mem_append_right _ (h' p hp)
  · exact List.mem_append_left _ (h p hmoved)

/-- What the diffs of a batch touch. -/
def allTouched (diffs : List DiffOutput) : List String :=
  diffs.flatMap DiffOutput.filesTouched

/-- The calls of a batch without worktrees, each after those before it. -/
def OrderlyAlone (B : ToolUseBackend) (R : Rules) (ctx : RunContext) :
    List SubTask → List Call → Worktree → Prop
  | st :: sts, c :: cs, w => c.Orderly B R ctx w st ∧
      OrderlyAlone B R ctx sts cs (implementSubtask B R ctx w st c).1
  | _, _, _ => True

/-- A worker whose worktree is forked from a commit, and whose call is
orderly there. -/
structure Worker.Orderly (B : ToolUseBackend) (R : Rules) (ctx : RunContext)
    (head : Tree) (wk : Worker) : Prop where
  forked : ∀ p, wk.fork.get p = head.get p
  based : ∀ p, wk.mergeBase.get p = head.get p
  call : ∀ handle, wk.call.Orderly (workerBackend B handle) R ctx
    (.checkout wk.fork) wk.subtask

/-- A branch that forks from a commit, and whose diff tells what it
changed. -/
structure Branch.Reported (head : Tree) (branch : Branch) : Prop where
  based : ∀ p, branch.mergeBase.get p = head.get p
  told : ∀ d, branch.out = .returned d → ∀ p,
    branch.tip.get p ≠ head.get p → p.text ∈ d.filesTouched

theorem Worker.Orderly.reported {head : Tree} {wk : Worker}
    (h : wk.Orderly B R ctx head) (handle : Backend.WorktreeHandle) :
    (wk.run B R ctx handle).Reported head := by
  refine ⟨h.based, fun d hd p hp => ?_⟩
  have hcall := implementSubtask_returned (h.call handle)
    (Prod.ext rfl hd : implementSubtask (workerBackend B handle) R ctx
      (.checkout wk.fork) wk.subtask wk.call = (_, .returned d))
  refine hcall.2 p ?_
  show _ ≠ wk.fork.get p
  rw [h.forked]
  exact hp

section Merges

variable {b : Batch} {results : Dict String Branch} {lives : Nat}
  {diffs diffs' : List DiffOutput}

end Merges

-- ==== batches

/-- The subtasks of a batch get worktrees of their own. -/
def Apart (B : ToolUseBackend) (sts : List SubTask) : Prop :=
  B.worktrees.root ≠ none ∧ 2 ≤ sts.length

/-- A batch of orderly calls: in worktrees of their own, which are forked
from HEAD and belong to one subtask each, or one after the other. -/
def Batch.Orderly (B : ToolUseBackend) (R : Rules) (ctx : RunContext)
    (w : Worktree) (sts : List SubTask) (b : Batch) : Prop :=
  (Apart B sts → (sts.map (·.taskId)).Nodup ∧
    ∀ wk ∈ b.completed, wk.Orderly B R ctx w.head) ∧
  (¬ Apart B sts → OrderlyAlone B R ctx sts b.alone w)

variable {b : Batch} {diffs : List DiffOutput}

end SdlcOs.Bedrock
