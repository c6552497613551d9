/-
Git worktrees: what is committed, what is staged and what is on disk.

# Trees

A tree gives each path its text. The paths have no special characters, so
git prints them as they are. History is left out but for the trees that a
command reads: a branch is the tree of its last commit.

# What git decides

`Rules` holds what a repository and git's heuristics decide: which paths
are ignored, how contents merge, how a diff counts its lines. Of a merge
that succeeds only this is used (`Lawful`): where both sides have what the
merge base has, the result has it too.

# Status

`git status --porcelain` lists a tracked file that differs from HEAD by
its path, and an untracked one too, unless it lies in a directory with
nothing tracked: then the topmost such directory is listed in its place.
A staged renaming needs a staged deletion, and no file is ever deleted
here, so there are no such lines.
-/
import SdlcOs.Data.Dict

namespace SdlcOs.Git

open Data

-- ==== trees

/-- A path: the directories on the way, then the file. -/
abbrev Path : Type := List String

/-- The path as git prints it. -/
def Path.text (p : Path) : String := String.intercalate "/" p

/-- The directories a path goes through, topmost first. -/
def Path.dirs (p : Path) : List Path := p.dropLast.inits.tail

/-- What every file of a directory or a commit holds. -/
abbrev Tree : Type := Dict Path String

/-- Some file of the tree is in the directory. -/
def Tree.populates (t : Tree) (d : Path) : Bool :=
  t.keys.any (d.isPrefixOf ·)

/-- A worktree: the commit HEAD names, the index, the files, and whether a
merge is not finished. -/
structure Worktree where
  head : Tree
  index : Tree
  files : Tree
  merging : Bool

/-- A worktree that was just made from a commit. -/
def Worktree.checkout (t : Tree) : Worktree := ⟨t, t, t, false⟩

/-- What is up to the repository and to git's heuristics. -/
structure Rules where
  /-- What the ignore files among some files say of a path. -/
  ignored : Tree → Path → Bool
  /-- The merge of two trees over their merge base, where it is clean. -/
  merged : Tree → Tree → Tree → Option Tree
  /-- The index and the files where it is not. -/
  conflicted : Tree → Tree → Tree → Tree × Tree
  /-- The lines added and deleted between two versions of a text file. -/
  numstat : Option String → Option String → Option (Nat × Nat)
  /-- What a write into git's own directory leaves. -/
  tampered : Worktree → Path → String → Worktree

/-- `git merge` incorporates what was changed since the merge base. -/
structure Rules.Lawful (R : Rules) : Prop where
  untouched : ∀ {base ours theirs tree : Tree},
    R.merged base ours theirs = some tree → ∀ p,
      ours.get p = base.get p → theirs.get p = base.get p →
        tree.get p = base.get p

namespace Worktree

variable (R : Rules) (w : Worktree)

-- ==== commands

/-- A file of HEAD or of the index that differs from HEAD. -/
def modified (p : Path) : Bool :=
  w.head.get p ≠ w.index.get p ||
    p ∈ w.index.keys && w.index.get p ≠ w.files.get p

/-- A file that is neither in the index nor ignored. -/
def untracked (p : Path) : Bool :=
  p ∉ w.index.keys && !R.ignored w.files p

/-- How an untracked file is listed. -/
def listed (p : Path) : String :=
  match p.dirs.find? (fun d => !w.index.populates d) with
  | some d => d.text ++ "/"
  | none => p.text

/-- `git status --porcelain`: what its lines say after their codes. -/
def status : List String :=
  ((w.head.keys ++ w.index.keys).filter w.modified).map Path.text ++
    (w.files.keys.filter (w.untracked R)).map w.listed

/-- `git diff --numstat HEAD`. -/
def numstat : List (Nat × Nat) :=
  ((w.head.keys ++ w.index.keys).dedup.filter w.modified).filterMap fun p =>
    R.numstat (w.head.get p) (if p ∈ w.index.keys then w.files.get p else none)

/-- `git add -A`: an ignored file is only added if it is tracked. -/
def addAll : Worktree :=
  { w with index := Dict.tabulate w.files.keys fun p =>
      if p ∈ w.index.keys ∨ R.ignored w.files p = false then w.files.get p
      else none }

/-- `git diff --cached --quiet` finds a difference. -/
def staged : Bool :=
  (w.head.keys ++ w.index.keys).any fun p => w.head.get p ≠ w.index.get p

/-- `git commit`, which also ends a merge. -/
def commit : Worktree := { w with head := w.index, merging := false }

/-- `git commit`, if there is something to commit. -/
def commitStaged : Worktree := if w.staged then w.commit else w

/-- The files with the paths brought up to date in which a tree differs
from HEAD. -/
def carry (t : Tree) : Tree :=
  Dict.tabulate (w.files.keys ++ t.keys) fun p =>
    if t.get p = w.head.get p then w.files.get p else t.get p

/-- A file that differs from HEAD is in the way of a tree. -/
def inTheWay (t : Tree) : Bool :=
  (w.head.keys ++ w.files.keys ++ t.keys).any fun p =>
    t.get p ≠ w.head.get p && w.files.get p ≠ w.head.get p

/-- `git merge` of a branch, given the merge base, and whether it succeeds.
It refuses where a merge is not finished, where something is staged, and
where changed files are in the way. -/
def merge (base theirs : Tree) : Worktree × Bool :=
  if w.merging || w.staged then (w, false)
  else
    match R.merged base w.head theirs with
    | some t =>
      if w.inTheWay t then (w, false)
      else (⟨t, t, w.carry t, false⟩, true)
    | none =>
      let t := R.conflicted base w.head theirs
      if w.inTheWay t.2 then (w, false)
      else (⟨w.head, t.1, w.carry t.2, true⟩, false)

-- ==== worktrees

/-- Nothing is staged, changed or unfinished. -/
structure Clean : Prop where
  staged : ∀ p, w.index.get p = w.head.get p
  unstaged : ∀ p, w.files.get p = w.head.get p
  finished : w.merging = false

/-- Every untracked file is listed by its own path: it is not ignored and
every directory on its way has a tracked file. -/
def Named : Prop :=
  ∀ p ∈ w.files.keys, p ∉ w.index.keys →
    R.ignored w.files p = false ∧ ∀ d ∈ p.dirs, w.index.populates d = true

instance : Decidable (w.Named R) :=
  inferInstanceAs (Decidable (∀ p ∈ w.files.keys, p ∉ w.index.keys →
    R.ignored w.files p = false ∧ ∀ d ∈ p.dirs, w.index.populates d = true))

end Worktree

section Commands

variable {R : Rules} {w w' : Worktree} {base theirs : Tree}

/-- Where every untracked file is named, so is every file that differs from
HEAD. -/
theorem mem_status_of_named (hnamed : w.Named R) {p : Path}
    (hp : w.files.get p ≠ w.head.get p) : p.text ∈ w.status R := by
  unfold Worktree.status
  rw [List.mem_append]
  by_cases hindex : p ∈ w.index.keys
  · -- tracked: staged or not, it is modified
    refine Or.inl (List.mem_map_of_mem (List.mem_filter.2
      ⟨List.mem_append_right _ hindex, ?_⟩))
    unfold Worktree.modified
    rw [Bool.or_eq_true, Bool.and_eq_true, decide_eq_true_eq,
      decide_eq_true_eq, decide_eq_true_eq]
    by_cases hstaged : w.head.get p = w.index.get p
    · exact Or.inr ⟨hindex, fun heq => hp (heq.symm.trans hstaged.symm)⟩
    · exact Or.inl hstaged
  · have hnone : w.index.get p = none := by
      rw [← Option.not_isSome_iff_eq_none, ← Dict.mem_keys_iff]
      exact hindex
    by_cases hhead : w.head.get p = none
    · -- new
      have hfiles : p ∈ w.files.keys := by
        rw [Dict.mem_keys_iff, ← Option.ne_none_iff_isSome]
        rw [hhead] at hp
        exact hp
      obtain ⟨hignored, hdirs⟩ := hnamed p hfiles hindex
      refine Or.inr (List.mem_map.2 ⟨p, List.mem_filter.2 ⟨hfiles, ?_⟩, ?_⟩)
      · unfold Worktree.untracked
        rw [hignored, Bool.not_false, Bool.and_true, decide_eq_true_eq]
        exact hindex
      · unfold Worktree.listed
        rw [List.find?_eq_none.2 fun d hd => by
          rw [hdirs d hd]
          decide]
    · -- its deletion is staged
      refine Or.inl (List.mem_map_of_mem (List.mem_filter.2
        ⟨List.mem_append_left _ ?_, ?_⟩))
      · rw [Dict.mem_keys_iff, ← Option.ne_none_iff_isSome]
        exact hhead
      · unfold Worktree.modified
        rw [Bool.or_eq_true, decide_eq_true_eq, hnone]
        exact Or.inl hhead

-- ==== commits

/-- Where every untracked file is named, `git add -A` stages everything. -/
theorem addAll_get (hnamed : w.Named R) (p : Path) :
    (w.addAll R).index.get p = w.files.get p := by
  show (Dict.tabulate _ _).get p = _
  rw [Dict.get_tabulate]
  by_cases hfiles : p ∈ w.files.keys
  · rw [if_pos hfiles]
    refine if_pos ?_
    by_cases hindex : p ∈ w.index.keys
    · exact Or.inl hindex
    · exact Or.inr (hnamed p hfiles hindex).1
  · rw [if_neg hfiles]
    rw [Dict.mem_keys_iff, Option.not_isSome_iff_eq_none] at hfiles
    exact hfiles.symm

/-- `git diff --cached --quiet` compares the index with HEAD. -/
theorem staged_eq_false : w.staged = false ↔
    ∀ p, w.index.get p = w.head.get p := by
  unfold Worktree.staged
  rw [List.any_eq_false]
  constructor
  · intro h p
    by_cases hmem : p ∈ w.head.keys ++ w.index.keys
    · have hp := h p hmem
      rw [decide_eq_true_eq, not_not] at hp
      exact hp.symm
    · rw [List.mem_append, not_or, Dict.mem_keys_iff, Dict.mem_keys_iff,
        Option.not_isSome_iff_eq_none, Option.not_isSome_iff_eq_none] at hmem
      rw [hmem.1, hmem.2]
  · intro h p _
    rw [decide_eq_true_eq, not_not]
    exact (h p).symm

-- ==== merges

end Commands

end SdlcOs.Git
