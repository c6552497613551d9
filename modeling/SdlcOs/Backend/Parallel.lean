/-
`BedrockToolUseAgentBackend.implement_subtasks_parallel`: a batch of
subtasks, each in a worktree of its own, merged into the main worktree one
after the other (tool_use_bedrock_backend.py, worktree.py).

# Git

`git worktree add` and `git worktree remove` succeed or do nothing, and
so does `git merge`, but for the state of an unfinished merge that a
conflict leaves. Which of these happens is the outside's part: a worker
carries what git and the model make of it. HEAD is its history along first
parents: a merge is made with `--no-ff`, so where it merges anything there
is one commit more, and nothing is merged into an unfinished merge.

A worker's agent works in its own worktree and never touches the main one.
Where there are no such worktrees it works in the main one, and what it
does there is a list of changes, each to one path of the files or of the
index, or a commit.

# Threads

The workers run at the same time. What they do to the repository is to
register their worktrees, whose order does not matter, so the one thing
left of their interleaving is the order in which they end.
-/
import SdlcOs.Data.Dict
import SdlcOs.Orchestrator.PlanArtifact

namespace SdlcOs.Backend

open Data
open Orchestrator (SubTask DiffOutput)

-- ==== repositories

/-- The files or the index, by their paths. -/
abbrev Tree : Type := String → Option String

/-- A worktree: the commits of HEAD, latest first, the index, the files,
and the branch of a merge that is not finished. -/
structure Checkout where
  head : List String
  index : Tree
  files : Tree
  mergeHead : Option String

/-- The main worktree, and the paths of the registered agent
worktrees. -/
structure Repo where
  main : Checkout
  worktrees : List String

/-- What one `git merge` comes to where no merge is unfinished. -/
inductive MergeOutcome : Type where
  | upToDate
  | merged (commit : String) (index files : Tree)
  | refused
  | conflict (index files : Tree)

/-- The return code is not zero. -/
def MergeOutcome.fails : MergeOutcome → Bool
  | .upToDate => false
  | .merged _ _ _ => false
  | .refused => true
  | .conflict _ _ => true

/-- The main worktree after `git merge` of a branch, and whether it
failed. -/
def MergeOutcome.apply (branch : String) (main : Checkout)
    (outcome : MergeOutcome) : Checkout × Bool :=
  match main.mergeHead with
  | some _ => (main, true)
  | none =>
    match outcome with
    | .upToDate => (main, false)
    | .merged commit index files =>
      (⟨commit :: main.head, index, files, none⟩, false)
    | .refused => (main, true)
    | .conflict index files =>
      (⟨main.head, index, files, some branch⟩, true)

/-- The two trees of a worktree. -/
inductive Place : Type where
  | index
  | files
  deriving DecidableEq, Repr

def Checkout.tree (c : Checkout) : Place → Tree
  | .index => c.index
  | .files => c.files

/-- One change of the main worktree by an agent that works there. -/
inductive Change : Type where
  | put (place : Place) (path : String) (content : Option String)
  | commit (id : String)
  deriving DecidableEq, Repr

def Change.apply (c : Checkout) : Change → Checkout
  | .put .index path content =>
    { c with index := Function.update c.index path content }
  | .put .files path content =>
    { c with files := Function.update c.files path content }
  | .commit id => { c with head := id :: c.head, mergeHead := none }

-- ==== worktrees

structure WorktreeHandle where
  sessionId : String
  branchName : String
  worktreePath : String
  deriving DecidableEq, Repr

/-- What the code raises. -/
inductive Raised : Type where
  | worktreeError (message : String)
  | agentError (message : String)
  | bedrockInvocationError (taskId branch stderr : String)
  | keyError (taskId : String)
  | assertionError
  deriving DecidableEq, Repr

/-- The characters of a branch name. -/
def branchChar (c : Char) : Bool :=
  c.isAlphanum || c = '.' || c = '_' || c = '/' || c = '-'

/-- `_validate_branch_name`: `$` also matches before a last line break. -/
@[irreducible]
def validBranchName (name : String) : Bool :=
  let cs := name.toList
  let body := if cs.getLast? = some '\n' then cs.dropLast else cs
  body ≠ [] && body.all branchChar && cs.head? ≠ some '-'

/-- `create_agent_worktree`, given what git says where it fails. -/
def createAgentWorktree (worktreesRoot sessionId : String)
    (git : Option String) : Except Raised WorktreeHandle :=
  let branchName := "agent/" ++ sessionId
  if validBranchName branchName = false then
    .error (.worktreeError ("invalid branch name: " ++ branchName))
  else
    match git with
    | some message => .error (.worktreeError message)
    | none => .ok ⟨sessionId, branchName, worktreesRoot ++ "/" ++ sessionId⟩

/-- A worktree is registered once. -/
def Repo.register (repo : Repo) (path : String) : Repo :=
  if path ∈ repo.worktrees then repo
  else { repo with worktrees := repo.worktrees ++ [path] }

/-- `remove_agent_worktree`, given what git says where it fails. -/
def Repo.removeAgentWorktree (repo : Repo) (path : String)
    (git : Option String) : Repo × Option Raised :=
  match git with
  | some message => (repo, some (.worktreeError message))
  | none =>
    ({ repo with worktrees := repo.worktrees.filter (· ≠ path) }, none)

-- ==== workers

/-- How `implement_subtask` ends. -/
inductive AgentOutcome : Type where
  | diff (d : DiffOutput)
  | raised (message : String)
  deriving DecidableEq, Repr

def AgentOutcome.isRaised : AgentOutcome → Bool
  | .diff _ => false
  | .raised _ => true

/-- A subtask with the outside's part in it: git's refusal to add a
worktree, how the agent ends, what it changes where it works in the main
worktree, the merge of its branch, and what git writes if that fails. -/
structure Worker where
  subtask : SubTask
  refuses : Option String
  agent : AgentOutcome
  changes : List Change
  merge : MergeOutcome
  stderr : String

/-- The constructor's inputs for worktrees, and `_run_one`'s names. -/
structure Backend where
  repoPath : Option String
  worktreesRoot : Option String
  baseRef : Option String
  deriving DecidableEq, Repr

structure BatchNames where
  runId : String
  batchId : String
  deriving DecidableEq, Repr

/-- `{run_id}-{task_id}-{batch_id}`. -/
def BatchNames.sessionId (n : BatchNames) (taskId : String) : String :=
  n.runId ++ "-" ++ taskId ++ "-" ++ n.batchId

/-- What `_run_one` returns. -/
structure WorkerResult where
  agent : AgentOutcome
  handle : WorktreeHandle
  deriving DecidableEq, Repr

/-- The exception of a result. -/
def WorkerResult.error (r : WorkerResult) : Option Raised :=
  match r.agent with
  | .diff _ => none
  | .raised message => some (.agentError message)

/-- `_run_one`: what happens before the `try` is raised by the future. -/
def Worker.runOne (root : String) (n : BatchNames) (w : Worker) :
    Except Raised WorkerResult :=
  (createAgentWorktree root (n.sessionId w.subtask.taskId) w.refuses).map
    fun handle => ⟨w.agent, handle⟩

/-- The repository after a worker asked for its worktree. -/
def createOne (root : String) (n : BatchNames) (repo : Repo)
    (w : Worker) : Repo :=
  match w.runOne root n with
  | .error _ => repo
  | .ok r => repo.register r.handle.worktreePath

/-- The repository after all of them did. -/
def createAll (root : String) (n : BatchNames) (workers : List Worker)
    (repo : Repo) : Repo :=
  workers.foldl (createOne root n) repo

/-- The loop over `as_completed`: `future.result()` raises what the
worker raised. -/
def collect (root : String) (n : BatchNames) :
    List Worker → Dict String WorkerResult →
      Except Raised (Dict String WorkerResult)
  | [], results => .ok results
  | w :: rest, results =>
    match w.runOne root n with
    | .error e => .error e
    | .ok r => collect root n rest (results.set w.subtask.taskId r)

/-- Remove the worktrees of the results, in their order; the first
failure is raised. -/
def removeAll (removes : String → Option String) :
    List WorkerResult → Repo → Repo × Option Raised
  | [], repo => (repo, none)
  | r :: rest, repo =>
    match repo.removeAgentWorktree r.handle.worktreePath
        (removes r.handle.worktreePath) with
    | (repo, some e) => (repo, some e)
    | (repo, none) => removeAll removes rest repo

/-- Remove the worktrees, then raise. -/
def removeThenRaise (removes : String → Option String)
    (rs : List WorkerResult) (repo : Repo) (e : Raised) :
    Repo × Except Raised (List DiffOutput) :=
  match removeAll removes rs repo with
  | (repo, some e') => (repo, .error e')
  | (repo, none) => (repo, .error e)

/-- Merge the branches in the caller's order. -/
def mergeAll (removes : String → Option String)
    (results : Dict String WorkerResult) :
    List Worker → List DiffOutput → Repo →
      Repo × Except Raised (List DiffOutput)
  | [], diffs, repo => (repo, .ok diffs)
  | w :: rest, diffs, repo =>
    match results.get w.subtask.taskId with
    | none => (repo, .error (.keyError w.subtask.taskId))
    | some r =>
      match w.merge.apply r.handle.branchName repo.main with
      | (main, true) =>
        removeThenRaise removes results.values
          { repo with main := main }
          (.bedrockInvocationError w.subtask.taskId
            r.handle.branchName w.stderr)
      | (main, false) =>
        match r.agent with
        | .raised _ =>
          ({ repo with main := main }, .error .assertionError)
        | .diff d =>
          mergeAll removes results rest (diffs ++ [d])
            { repo with main := main }

/-- The inherited method: one subtask after the other, in the main
worktree. -/
def sequentially : List Worker → List DiffOutput → Repo →
    Repo × Except Raised (List DiffOutput)
  | [], diffs, repo => (repo, .ok diffs)
  | w :: rest, diffs, repo =>
    let repo := { repo with main := w.changes.foldl Change.apply repo.main }
    match w.agent with
    | .raised message => (repo, .error (.agentError message))
    | .diff d => sequentially rest (diffs ++ [d]) repo

/-- The worktrees' root, where the backend has all three inputs. -/
def Backend.root (b : Backend) : Option String := do
  let _ ← b.repoPath
  let root ← b.worktreesRoot
  let _ ← b.baseRef
  pure root

/-- `implement_subtasks_parallel`. The workers are in the order of their
subtasks; `completed` has them in the order in which they end. -/
def Backend.implementSubtasksParallel (b : Backend) (n : BatchNames)
    (removes : String → Option String) (workers completed : List Worker)
    (repo : Repo) : Repo × Except Raised (List DiffOutput) :=
  match b.root with
  | none => sequentially workers [] repo
  | some root =>
    if workers.length < 2 then sequentially workers [] repo
    else
      let repo := createAll root n workers repo
      match collect root n completed Dict.empty with
      | .error e => (repo, .error e)
      | .ok results =>
        match results.values.filterMap WorkerResult.error with
        | e :: _ => removeThenRaise removes results.values repo e
        | [] =>
          match mergeAll removes results workers [] repo with
          | (repo, .error e) => (repo, .error e)
          | (repo, .ok diffs) =>
            match removeAll removes results.values repo with
            | (repo, some e) => (repo, .error e)
            | (repo, none) => (repo, .ok diffs)

end SdlcOs.Backend
