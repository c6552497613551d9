/-
`BedrockToolUseAgentBackend` at work in a git worktree: the tools, the
tool-calling loop and the commit that ends it, and a batch of subtasks in
worktrees of their own (tool_use_bedrock_backend.py).

Parallel.lean asks what a batch leaves behind when it fails. Here it is
what the trees hold that matters, so the trees are computed and the
outside is left with its own part: what the model asks for, where the file
system, git or Bedrock fail, and when the process dies.

# The outside

A `Call` is the outside's part in `implement_subtask`, a `Batch` that in
`implement_subtasks_parallel`. Where a call ends before it is done, the
process has died. What a tool answers goes to the model and nowhere else,
so it is left out, and so is the warning about the size of the diff.

# Exceptions

A tool's `ValueError`, `KeyError` and `TypeError` are answered to the
model. An `OSError` is not: it ends the call, and a write it interrupts
may leave a part of the text, or none.
-/
import Mathlib
import SdlcOs.Backend.Parallel
import SdlcOs.Files.Git
import SdlcOs.Index.Tenants
import SdlcOs.Orchestrator.World

namespace SdlcOs.Bedrock

open Data Git
open Orchestrator (Exn Reply RunContext StorySize SubTask DiffOutput sortedSet)

-- ==== the backend

/-- What the backend is constructed with, as far as this file reads it:
the parts of its workspace's path, its inputs for worktrees, and how many
turns a story's size allows (`max_turns`, or else
`_hard_turn_cap_for_story_size`). -/
structure ToolUseBackend where
  workspaceRoot : List String
  worktrees : Backend.Backend
  maxTurns : Option StorySize → Nat

/-- What ends a call whose process has died. -/
def killed : Exn := ⟨"SystemExit", "killed"⟩

/-- `BedrockInvocationError`. -/
def invocationError (message : String) : Exn :=
  ⟨"BedrockInvocationError", message⟩

/-- What a batch raises, as its handlers see it. -/
def exnOf : Backend.Raised → Exn
  | .worktreeError message => ⟨"WorktreeError", message⟩
  | .agentError message => ⟨"Exception", message⟩
  | .bedrockInvocationError taskId branch stderr =>
    invocationError ("real merge conflict bringing parallel subtask '" ++
      taskId ++ "' (branch '" ++ branch ++ "') into the main worktree" ++
      " -- not auto-resolved, needs a human: " ++ stderr)
  | .keyError taskId => ⟨"KeyError", "'" ++ taskId ++ "'"⟩
  | .assertionError => ⟨"AssertionError", ""⟩

-- ==== tools

/-- A tool call's `input`: the fields that are there and are texts. -/
structure ToolInput where
  path : Option String := none
  content : Option String := none
  oldStr : Option String := none
  newStr : Option String := none
  replaceAll : Bool := false
  deriving DecidableEq, Repr

/-- What the file system does: all that it is asked to, or else it raises,
and what it was to write holds what it held or some other text. -/
inductive Io : Type where
  | done
  | failed (left : Option String) (x : Exn)
  deriving DecidableEq, Repr

/-- What it raises. -/
def Io.raised : Io → Option Exn
  | .done => none
  | .failed _ x => some x

/-- A `toolUse` block, and the file system's part in it. -/
structure ToolUse where
  name : String
  input : ToolInput := {}
  io : Io := .done
  deriving DecidableEq, Repr

/-- `_safe_join`, as the path within the root. -/
def safeJoin (root : List String) (relative : String) : Option Path :=
  (Index.safeJoin root relative).map (·.drop (Index.resolve root).length)

/-- `str.count`: `skip` characters belong to the last occurrence. -/
def count (old : List Char) : Nat → List Char → Nat
  | _, [] => if old = [] then 1 else 0
  | skip + 1, _ :: cs => count old skip cs
  | 0, c :: cs =>
    if old.isPrefixOf (c :: cs) then 1 + count old (old.length - 1) cs
    else count old 0 cs

/-- `str.replace` of the first `limit` occurrences. -/
def replace (old new : List Char) : Nat → Nat → List Char → List Char
  | limit, _, [] => if old = [] ∧ 0 < limit then new else []
  | limit, skip + 1, _ :: cs => replace old new limit skip cs
  | limit, 0, c :: cs =>
    if 0 < limit ∧ old.isPrefixOf (c :: cs) then
      new ++ (if old = [] then [c] else []) ++
        replace old new (limit - 1) (old.length - 1) cs
    else c :: replace old new limit 0 cs

section Tools

variable (B : ToolUseBackend) (R : Rules)

/-- `path.write_text`, for a path within the workspace. -/
def writeText (w : Worktree) (p : Path) (text : String) (io : Io) :
    Worktree × Option Exn :=
  let put (s : String) : Worktree :=
    if p.head? = some ".git" then R.tampered w p s
    else { w with files := w.files.set p s }
  match io with
  | .done => (put text, none)
  | .failed (some left) x => (put left, some x)
  | .failed none x => (w, some x)

/-- `_execute_edit_file`, from the point where the path is known. Git's
own files are not among the worktree's, so their texts are not either. -/
def executeEditFile (w : Worktree) (p : Path) (old new : String)
    (replaceAll : Bool) (io : Io) : Worktree × Option Exn :=
  if p.head? = some ".git" then writeText R w p new io
  else
    match w.files.get p with
    | none => (w, none)
    | some content =>
      let occurrences := count old.toList 0 content.toList
      if old = new ∨ occurrences = 0 then (w, none)
      else if 1 < occurrences ∧ replaceAll = false then (w, none)
      else writeText R w p (String.ofList (replace old.toList new.toList
        (if replaceAll then occurrences else 1) 0 content.toList)) io

/-- `_execute_tool`. A field that is missing is answered, not raised. -/
def executeTool (w : Worktree) (u : ToolUse) : Worktree × Option Exn :=
  match u.input.path.bind (safeJoin B.workspaceRoot) with
  | none => (w, if u.name = "list_files" then u.io.raised else none)
  | some p =>
    if u.name = "write_file" then
      match u.input.content with
      | none => (w, u.io.raised)
      | some text => writeText R w p text u.io
    else if u.name = "edit_file" then
      match u.input.oldStr, u.input.newStr with
      | some old, some new =>
        executeEditFile R w p old new u.input.replaceAll u.io
      | _, _ => (w, none)
    else if u.name = "read_file" ∨ u.name = "list_files" then
      (w, u.io.raised)
    else (w, none)

/-- The tool calls of one turn, and whether `finish` is among them. -/
def executeTools : Worktree → List ToolUse → Bool →
    Worktree × Except Exn Bool
  | w, [], finished => (w, .ok finished)
  | w, u :: uses, finished =>
    if u.name = "finish" then executeTools w uses true
    else
      match executeTool B R w u with
      | (w, some x) => (w, .error x)
      | (w, none) => executeTools w uses finished

end Tools

-- ==== the loop

/-- A turn: Bedrock fails for good, or the model asks for tools. -/
inductive Turn : Type where
  | raised (x : Exn)
  | replied (uses : List ToolUse)
  deriving DecidableEq, Repr

/-- How the end of a call goes: through, or not, at `git add`, after it,
at `git commit` or after it. -/
inductive Landing : Type where
  | landed
  | addFailed (stderr : String)
  | killedAfterAdd
  | commitFailed (stderr : String)
  | killedAfterCommit
  deriving DecidableEq, Repr

/-- The outside's part in `implement_subtask`. -/
structure Call where
  turns : List Turn
  landing : Landing := .landed
  deriving DecidableEq, Repr

/-- `BedrockAgenticLoopExhaustedError`. -/
def exhausted (taskId : String) (maxTurns : Nat) : Exn :=
  ⟨"BedrockAgenticLoopExhaustedError", "subtask '" ++ taskId ++
    "' did not finish within " ++ toString maxTurns ++
      " tool-calling turns"⟩

/-- The loop over turns, with as many left as may still be taken: the
worktree it leaves, and what it raises unless the model finished. -/
def converse (B : ToolUseBackend) (R : Rules) (whenExhausted : Exn) :
    Nat → Worktree → List Turn → Worktree × Option Exn
  | 0, w, _ => (w, some whenExhausted)
  | _ + 1, w, [] => (w, some killed)
  | _ + 1, w, .raised x :: _ => (w, some x)
  | turns + 1, w, .replied uses :: rest =>
    match executeTools B R w uses false with
    | (w, .error x) => (w, some x)
    | (w, .ok true) => (w, none)
    | (w, .ok false) => converse B R whenExhausted turns w rest

/-- `sum(1 for _ in open(path))`, and whether a line was begun. -/
def lineCount : Bool → List Char → Nat
  | begun, [] => if begun then 1 else 0
  | _, '\r' :: '\n' :: cs => 1 + lineCount false cs
  | _, '\r' :: cs => 1 + lineCount false cs
  | _, '\n' :: cs => 1 + lineCount false cs
  | _, _ :: cs => lineCount true cs

/-- `_real_git_diff_stats`. -/
def realGitDiffStats (R : Rules) (w : Worktree) : DiffOutput :=
  let filesTouched := sortedSet (w.status R)
  let fresh := w.files.entries.filter fun e =>
    e.1.text ∈ filesTouched ∧ e.1 ∉ w.index.keys
  { filesTouched := filesTouched
    linesChanged := (((w.numstat R).map fun n => n.1 + n.2).sum +
      (fresh.map fun e => lineCount false e.2.toList).sum : Nat) }

/-- `_real_git_commit`: what it leaves, and what it raises. -/
def realGitCommit (B : ToolUseBackend) (R : Rules) (w : Worktree)
    (landing : Landing) : Worktree × Option Exn :=
  let root := "/" ++ Path.text B.workspaceRoot
  match landing with
  | .addFailed stderr =>
    (w, some (invocationError
      ("real 'git add -A' failed in " ++ root ++ ": " ++ stderr)))
  | .killedAfterAdd => (w.addAll R, some killed)
  | .commitFailed stderr =>
    if (w.addAll R).staged then
      (w.addAll R, some (invocationError
        ("real 'git commit' failed in " ++ root ++ ": " ++ stderr)))
    else (w.addAll R, none)
  | .killedAfterCommit => ((w.addAll R).commitStaged, some killed)
  | .landed => ((w.addAll R).commitStaged, none)

section Backend

variable (B : ToolUseBackend) (R : Rules) (ctx : RunContext)

/-- What the tool-calling loop of `implement_subtask` leaves. -/
def edit (w : Worktree) (subtask : SubTask) (call : Call) :
    Worktree × Option Exn :=
  converse B R (exhausted subtask.taskId (B.maxTurns ctx.storySize))
    (B.maxTurns ctx.storySize) w call.turns

/-- `implement_subtask`. -/
def implementSubtask (w : Worktree) (subtask : SubTask) (call : Call) :
    Worktree × Reply DiffOutput :=
  match edit B R ctx w subtask call with
  | (w, some x) => (w, .raised x)
  | (w, none) =>
    match realGitCommit B R w call.landing with
    | (w', some x) => (w', .raised x)
    | (w', none) => (w', .returned (realGitDiffStats R w))

-- ==== batches

/-- A worker: its subtask, what git says if it gets no worktree, the
commit that `base_ref` names when it asks for one, the merge base of its
branch when that is merged, and its call. -/
structure Worker where
  subtask : SubTask
  refused : Option String := none
  fork : Tree
  mergeBase : Tree
  call : Call

/-- What is left of a worker: its branch, and what its call came to. -/
structure Branch where
  name : String
  mergeBase : Tree
  tip : Tree
  out : Reply DiffOutput

/-- The exception of a branch. -/
def Branch.error (b : Branch) : Option Exn :=
  match b.out with
  | .returned _ => none
  | .raised x => some x

/-- The backend of a worker. -/
def workerBackend (handle : Backend.WorktreeHandle) : ToolUseBackend :=
  { B with
    workspaceRoot := Index.pathParts handle.worktreePath
    worktrees := ⟨none, none, none⟩ }

/-- `_run_one`, once it has its worktree. -/
def Worker.run (handle : Backend.WorktreeHandle) (wk : Worker) : Branch :=
  let r := implementSubtask (workerBackend B handle) R ctx
    (.checkout wk.fork) wk.subtask wk.call
  ⟨handle.branchName, wk.mergeBase, r.1.head, r.2⟩

/-- The outside's part in `implement_subtasks_parallel`: the calls made
one after the other; the workers in the order in which they end; what
becomes of workers with one task id, who share a worktree; what git says
of a merge that fails; how many merges the process lives to see, and one
more if it lives on; and what a removal raises. -/
structure Batch where
  alone : List Call := []
  batchId : String := ""
  completed : List Worker := []
  shared : Dict String Branch := .empty
  stderr : String := ""
  lives : Nat := 0
  removal : Option String := none

/-- The inherited method: one subtask after the other. -/
def oneByOne : List SubTask → List Call → List DiffOutput → Worktree →
    Worktree × Reply (List DiffOutput)
  | [], _, diffs, w => (w, .returned diffs)
  | _ :: _, [], _, w => (w, .raised killed)
  | st :: rest, c :: cs, diffs, w =>
    match implementSubtask B R ctx w st c with
    | (w, .raised x) => (w, .raised x)
    | (w, .returned d) => oneByOne rest cs (diffs ++ [d]) w

/-- The loop over `as_completed`. -/
def collect (root batchId : String) : List Worker → Dict String Branch →
    Except Exn (Dict String Branch)
  | [], results => .ok results
  | wk :: rest, results =>
    match Backend.createAgentWorktree root
        (Backend.BatchNames.sessionId ⟨ctx.runId, batchId⟩
          wk.subtask.taskId) wk.refused with
    | .error e => .error (exnOf e)
    | .ok handle =>
      collect root batchId rest
        (results.set wk.subtask.taskId (wk.run B R ctx handle))

/-- What is raised once the worktrees are to be removed: what a removal
raises comes first. -/
def Batch.afterRemoval (b : Batch) (x : Exn) : Exn :=
  (b.removal.map fun message => exnOf (.worktreeError message)).getD x

/-- Merge the branches in the caller's order. -/
def mergeAll (b : Batch) (results : Dict String Branch) :
    Nat → List SubTask → List DiffOutput → Worktree →
      Worktree × Except Exn (List DiffOutput)
  | 0, _, _, w => (w, .error killed)
  | _ + 1, [], diffs, w => (w, .ok diffs)
  | lives + 1, st :: rest, diffs, w =>
    match results.get st.taskId with
    | none => (w, .error (exnOf (.keyError st.taskId)))
    | some branch =>
      match w.merge R branch.mergeBase branch.tip with
      | (w, false) =>
        (w, .error (b.afterRemoval (exnOf
          (.bedrockInvocationError st.taskId branch.name b.stderr))))
      | (w, true) =>
        match branch.out with
        | .raised _ => (w, .error (exnOf .assertionError))
        | .returned d => mergeAll b results lives rest (diffs ++ [d]) w

/-- The results of the workers. Those with one task id share a worktree,
so what they make of it is up to the outside. -/
def Batch.results (root : String) (subtasks : List SubTask) (b : Batch) :
    Except Exn (Dict String Branch) :=
  if (subtasks.map (·.taskId)).Nodup then
    collect B R ctx root b.batchId b.completed .empty
  else .ok b.shared

/-- A batch in worktrees of their own: once every branch is in without an
exception they are merged, and the worktrees removed. -/
def isolated (root : String) (w : Worktree) (subtasks : List SubTask)
    (b : Batch) : Worktree × Reply (List DiffOutput) :=
  match b.results B R ctx root subtasks with
  | .error x => (w, .raised x)
  | .ok results =>
    match results.values.filterMap Branch.error with
    | x :: _ => (w, .raised (b.afterRemoval x))
    | [] =>
      match mergeAll R b results b.lives subtasks [] w with
      | (w, .error x) => (w, .raised x)
      | (w, .ok diffs) =>
        match b.removal with
        | some message =>
          (w, .raised (exnOf (.worktreeError message)))
        | none => (w, .returned diffs)

/-- `implement_subtasks_parallel`. -/
def implementSubtasksParallel (w : Worktree) (subtasks : List SubTask)
    (b : Batch) : Worktree × Reply (List DiffOutput) :=
  match B.worktrees.root with
  | none => oneByOne B R ctx subtasks b.alone [] w
  | some root =>
    if subtasks.length < 2 then oneByOne B R ctx subtasks b.alone [] w
    else isolated B R ctx root w subtasks b

end Backend

end SdlcOs.Bedrock
