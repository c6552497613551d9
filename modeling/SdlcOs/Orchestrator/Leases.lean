/-
Leases of worktrees (orchestrator/worktree.py, `WorktreeLeaseManager`).

# The locks

A lease is an open file with an exclusive `flock`. The lock belongs to
the open file, not to the thread or the process that opened it: a second
file opened at the same place, in the same process or another, does not
get it. Two paths may lead to one file, so the file a path leads to is a
parameter.

# The processes

Each process has a manager of its own, with its two dictionaries. What a
thread does under `_process_lock` is one access; opening, locking,
unlocking and closing a file are one each, and other threads go on
between them. A thread that waits in `flock` tries again.

Left out are errors of `flock` other than that the lock is taken, and the
end of a thread in the middle of a call.
-/
import SdlcOs.Data.Dict
import SdlcOs.Effects.System

namespace SdlcOs.Orchestrator.Leases

open Data (Dict)
open Effects

-- ==== managers

/-- An open file. -/
abbrev Handle : Type := Nat

/-- `WorktreeLeaseManager`. -/
structure Manager where
  held : Dict String String
  fhByPath : Dict String Handle

/-- `WorktreeLeaseManager()`. -/
def Manager.init : Manager := ⟨.empty, .empty⟩

/-- The components of a path, as `pathlib` has them. -/
def components (path : String) : List String :=
  ((path.toList.splitOn '/').map String.ofList).filter fun s =>
    s ≠ "" && s ≠ "."

/-- The root of a path: two leading slashes are kept, three are not. -/
def root (path : String) : String :=
  match path.toList with
  | '/' :: '/' :: '/' :: _ => "/"
  | '/' :: '/' :: _ => "//"
  | '/' :: _ => "/"
  | _ => ""

/-- `_lease_lock_path`. -/
def leaseLockPath (worktreePath : String) : String :=
  let parts := components worktreePath
  let name := parts.getLast?.getD ""
  root worktreePath ++
    "/".intercalate (parts.dropLast ++ [".lease-" ++ name ++ ".lock"])

example : leaseLockPath "/work/./trees//s1/" =
    "/work/trees/.lease-s1.lock" := by decide

-- ==== world

/-- The managers of the processes, and the kernel's side: which file is
open behind a handle, and which handle has a file's lock. -/
structure World where
  managers : Nat → Manager
  opened : Dict Handle String
  locks : Dict String Handle
  next : Handle

/-- Nothing is leased. -/
def World.init : World := ⟨fun _ => .init, .empty, .empty, 0⟩

namespace World

/-- The manager of a process, changed. -/
def update (w : World) (pid : Nat) (m : Manager) : World :=
  { w with managers := fun n => if n = pid then m else w.managers n }

/-- `open(.., "w")`. -/
def openFile (w : World) (file : String) : World × Handle :=
  ({ w with opened := w.opened.set w.next file, next := w.next + 1 },
    w.next)

/-- `flock(fh, LOCK_EX | LOCK_NB)`: whether the handle has the lock. -/
def flock (w : World) (fh : Handle) : World × Bool :=
  match w.opened.get fh with
  | none => (w, false)
  | some file =>
    match w.locks.get file with
    | none => ({ w with locks := w.locks.set file fh }, true)
    | some owner => (w, owner = fh)

/-- `flock(fh, LOCK_UN)`. -/
def unlock (w : World) (fh : Handle) : World :=
  match w.opened.get fh with
  | none => w
  | some file =>
    if w.locks.get file = some fh then
      { w with locks := w.locks.erase file }
    else w

/-- `fh.close()`: a closed file has no lock. -/
def close (w : World) (fh : Handle) : World :=
  let w := w.unlock fh
  { w with opened := w.opened.erase fh }

end World

-- ==== requests

/-- What a thread of a process does, one access each. -/
inductive Req : Type where
  | openFile (path : String)
  | flock (fh : Handle)
  | store (pid : Nat) (worktreePath session : String) (fh : Handle)
  | pop (pid : Nat) (worktreePath : String)
  | unlock (fh : Handle)
  | close (fh : Handle)
  | holder (pid : Nat) (worktreePath : String)
  deriving DecidableEq, Repr

/-- What each is answered with. An `open` that fails has no handle, and a
`store` that finds another session's lease names it. -/
@[reducible] def Resp : Req → Type
  | .openFile _ => Option Handle
  | .flock _ => Bool
  | .store .. => Option String
  | .pop .. => Option Handle
  | .unlock _ => Unit
  | .close _ => Unit
  | .holder .. => Option String

/-- The environment's part: whether a directory and a file can be made. -/
@[reducible] def Env : Req → Type
  | .openFile _ => Bool
  | _ => Unit

/-- The environment's moves, as one type. -/
inductive Answer : Type where
  | auto
  | works (yes : Bool)
  deriving DecidableEq, Repr

/-- Read an environment move as the part an access needs. -/
def decode : (e : Req) → Answer → Option (Env e)
  | .openFile _, .works yes => some yes
  | .flock _, .auto => some ()
  | .store .., .auto => some ()
  | .pop .., .auto => some ()
  | .unlock _, .auto => some ()
  | .close _, .auto => some ()
  | .holder .., .auto => some ()
  | _, _ => none

/-- What an access does; `places` says which file a path leads to. -/
def exec (places : String → String) (w : World) :
    (e : Req) → Env e → World × Resp e
  | .openFile path, works =>
    if works then
      let r := w.openFile (places path)
      (r.1, some r.2)
    else (w, none)
  | .flock fh, _ => w.flock fh
  | .store pid worktreePath session fh, _ =>
    let m := w.managers pid
    match m.held.get worktreePath with
    | some existing =>
      if existing ≠ session then
        ((w.unlock fh).close fh, some existing)
      else
        (w.update pid
          ⟨m.held.set worktreePath session,
            m.fhByPath.set worktreePath fh⟩, none)
    | none =>
      (w.update pid
        ⟨m.held.set worktreePath session,
          m.fhByPath.set worktreePath fh⟩, none)
  | .pop pid worktreePath, _ =>
    let m := w.managers pid
    (w.update pid
      ⟨m.held.erase worktreePath, m.fhByPath.erase worktreePath⟩,
      m.fhByPath.get worktreePath)
  | .unlock fh, _ => (w.unlock fh, ())
  | .close fh, _ => (w.close fh, ())
  | .holder pid worktreePath, _ => (w, (w.managers pid).held.get worktreePath)

-- ==== calls

/-- A call of a manager, with the process it is made in. -/
inductive Call : Type where
  | acquire (pid : Nat) (worktreePath holderSessionId : String)
      (blocking : Bool)
  | release (pid : Nat) (worktreePath : String)
  | currentHolder (pid : Nat) (worktreePath : String)
  deriving DecidableEq, Repr

/-- How a call ends. `osError` is what opening the lock file raised, and
`alreadyLeased` is `WorktreeAlreadyLeasedError`, with the session it names
if it names one. -/
inductive Outcome : Type where
  | acquired
  | osError
  | alreadyLeased (worktreePath : String) (holder : Option String)
  | released
  | holder (session : Option String)
  deriving DecidableEq, Repr

/-- An `acquire` that has opened its lock file. -/
structure Waiting where
  pid : Nat
  worktreePath : String
  holderSessionId : String
  blocking : Bool
  fh : Handle
  deriving DecidableEq, Repr

/-- Manager code. What it raises is among its outcomes. -/
abbrev Code : Type → Type := Prog Resp Empty

/-- Make one access. -/
def ask (e : Req) : Code (Resp e) := Prog.perform e

/-- `acquire` up to `flock`. -/
def acquire (pid : Nat) (worktreePath holderSessionId : String)
    (blocking : Bool) : Code (Ctl Waiting Outcome) := do
  match ← ask (.openFile (leaseLockPath worktreePath)) with
  | none => pure (.done .osError)
  | some fh =>
    pure (.again ⟨pid, worktreePath, holderSessionId, blocking, fh⟩)

/-- `acquire` from `flock` on. -/
def Waiting.turn (a : Waiting) : Code (Ctl Waiting Outcome) := do
  if ← ask (.flock a.fh) then
    match ← ask (.store a.pid a.worktreePath a.holderSessionId a.fh) with
    | none => pure (.done .acquired)
    | some holder =>
      pure (.done (.alreadyLeased a.worktreePath (some holder)))
  else if a.blocking then pure (.again a)
  else do
    ask (.close a.fh)
    pure (.done (.alreadyLeased a.worktreePath none))

/-- `release`. -/
def release (pid : Nat) (worktreePath : String) :
    Code (Ctl Waiting Outcome) := do
  match ← ask (.pop pid worktreePath) with
  | none => pure (.done .released)
  | some fh => do
    ask (.unlock fh)
    ask (.close fh)
    pure (.done .released)

/-- `current_holder`. -/
def currentHolder (pid : Nat) (worktreePath : String) :
    Code (Ctl Waiting Outcome) := do
  let session ← ask (.holder pid worktreePath)
  pure (.done (.holder session))

/-- The text of a call. -/
def Call.code : Call → Code (Ctl Waiting Outcome)
  | .acquire pid worktreePath holderSessionId blocking =>
    Leases.acquire pid worktreePath holderSessionId blocking
  | .release pid worktreePath =>
    Leases.release pid worktreePath
  | .currentHolder pid worktreePath =>
    Leases.currentHolder pid worktreePath

/-- The threads of any number of processes. -/
def machine (places : String → String) :
    Machine Resp Env Answer World Empty Call Waiting Outcome where
  exec := exec places
  decode := decode
  onCall := fun w _ => w
  onStop := fun w => w
  entry := Call.code
  body := Waiting.turn

/-- Before the first call. -/
def Initial (w : World) : Prop := w = .init

/-- System states of the threads. -/
abbrev State (Tid : Type) : Type :=
  Sys Resp World Empty Call Waiting Outcome Tid

/-- The actions of such a system. -/
abbrev Act (Tid : Type) : Type := Action Tid Answer Call

/-- No thread is lost in the middle of a call. -/
def Kept {Tid : Type} (_ : State Tid) : Act Tid → Prop
  | .crash _ => False
  | _ => True

-- ==== scripts

/-- `Kept`, as a check. -/
def kept (_ : State Bool) : Act Bool → Bool
  | .crash _ => false
  | _ => true

theorem kept_sound (s : State Bool) (a : Act Bool) (h : kept s a = true) :
    Kept s a := by
  cases a with
  | crash p => cases h
  | call p c => trivial
  | step p ans => trivial

/-- A thread of one process opens the lock file of a worktree. -/
def opening : List (Act Bool) :=
  [.call false (.acquire 0 "/trees/s1" "a" true), .step false (.works true)]

/-- With it open for a thread of another process too, both ask for the lock:
the first gets it and leases the worktree, the second waits. -/
def contended : List (Act Bool) :=
  [.step true (.works true), .step false .auto, .step true .auto,
    .step false .auto, .step true .auto, .step false .auto,
    .step true .auto, .step false .auto]

/-- The first lets go, and the second, refused once more on the way, gets
it. -/
def handedOver : List (Act Bool) :=
  [.call false (.release 0 "/trees/s1"), .step false .auto,
    .step true .auto, .step true .auto, .step false .auto,
    .step true .auto, .step true .auto]

/-- The steps of an `acquire` that does not wait and is refused. -/
def refusal : List (Act Bool) :=
  [.step true (.works true), .step true .auto, .step true .auto,
    .step true .auto]

theorem reach_of_plays (script : List (Act Bool)) (test : State Bool → Bool)
    (h : ((machine id).run kept script (Sys.idle .init)).any test = true) :
    ∃ s, (machine id).Reach Initial Kept s ∧ test s = true :=
  Machine.reach_of_any kept_sound (show Initial .init from rfl) h

theorem serves_of_plays (script : List (Act Bool)) (tid : Bool) (c : Call)
    (acts : List (Act Bool)) (test : Outcome → Bool)
    (h : ((machine id).runServe kept script tid c acts (Sys.idle .init)).any
      (fun x => (x.2.2.returned tid).any test) = true) :
    ∃ s₀ ws s o, (machine id).Reach Initial Kept s₀ ∧
      (machine id).Serves Kept tid c s₀ ws s ∧ s.Returns tid o ∧
      test o = true := by
  obtain ⟨s₀, ws, s, hs₀, hserves, htest⟩ := Machine.serves_of_any kept_sound
    (show Initial .init from rfl) h
  obtain ⟨o, ho, hok⟩ := (Option.any_eq_true _ _).1 htest
  exact ⟨s₀, ws, s, o, hs₀, hserves, Sys.returns_of_returned ho, hok⟩

end SdlcOs.Orchestrator.Leases
