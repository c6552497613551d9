/-
Writing runs of the worker down.

The pieces below are what the examples of the proof modules are
assembled from; the orchestrator's part in them is its own sample run.
-/
import SdlcOs.Orchestrator.Script
import SdlcOs.Worker.Poll

namespace SdlcOs.Worker

open Effects
open Orchestrator (SubTask)

-- ==== scripts

/-- Play a script from a start and test the state it ends in. -/
def plays (ocfg : Orchestrator.Config) (cfg : Settings) (l : Store)
    (w : Orchestrator.World) (chk : State → Act → Bool) (script : List Act)
    (test : State → Bool) : Bool :=
  (Host.run (Orchestrator.machine ocfg) (worker cfg) chk script
    ⟨Sys.idle w, l, none⟩).any test

/-- The state a played script ends in is reached, by moves that all met
the condition. -/
theorem reach_of_plays {ocfg : Orchestrator.Config} (cfg : Settings)
    {l : Store} {w : Orchestrator.World} {cond : State → Act → Prop}
    (hstart : Initial ocfg l w) (chk : State → Act → Bool)
    (hchk : ∀ s a, chk s a = true → cond s a) (script : List Act)
    (test : State → Bool) (h : plays ocfg cfg l w chk script test = true) :
    ∃ s, Reach ocfg cfg cond s ∧ test s = true := by
  obtain ⟨s, hrun, htest⟩ := (Option.any_eq_true _ _).1 h
  exact ⟨s, Host.reach_of_run hchk (.init hstart) hrun, htest⟩

/-- `n` steps of the orchestrator that need no answer. -/
def stepping (n : Nat) : List Act := List.replicate n (.below .auto)

-- ==== a sample

namespace Sample

/-- A worker at a level. -/
def settings (autonomyLevel : String) : Settings :=
  ⟨autonomyLevel, "In Progress", "Done", "run", fun _ => "SDLC Auto"⟩

/-- An issue without comments. -/
def store : Store := ⟨[], none, false, false, [], none⟩

theorem initial_sample :
    Initial Orchestrator.Sample.cfg store Orchestrator.Sample.world :=
  ⟨List.Pairwise.nil, rfl, rfl, rfl, rfl, rfl,
    Orchestrator.Sample.initial_sample⟩

/-- A run is started at the terminal. -/
def once : List Act :=
  [.enter (.runOnce "task"),
    .own (.environment (.returned ⟨"task", "branch", "tree"⟩))]

/-- A run is started by the poller. -/
def picked : List Act :=
  [.enter .pollOnce, .own .auto, .own .auto, .own (.outcome (.returned true)),
    .own (.text (.returned (some "task"))),
    .own (.transition none (.returned true)),
    .own (.text (.returned (some "bot"))),
    .own (.environment (.returned ⟨"task", "branch", "tree"⟩))]

/-- It authors a plan and comes back from its plan gate. -/
def authored (subtasks : List SubTask) : List Act :=
  [.proceed] ++ stepping 7 ++
    [.below (.plan (.returned (Orchestrator.Sample.plan subtasks)))] ++
    stepping 1 ++ [.below (.time 0)] ++ stepping 2 ++ [.proceed]

/-- The plan gate is waived and the first subtask is about to be handed
to the backend. -/
def approved : List Act :=
  [.proceed, .own .auto, .proceed] ++ stepping 2 ++ [.below (.time 0)] ++
    stepping 6

/-- A subtask strays out of scope, into a file, and the run comes back
from its checkpoint. -/
def strayed (file id : String) : List Act :=
  [.below (.diff (.returned ⟨[file], 10⟩))] ++ stepping 1 ++
    [.below (.time 0), .below (.uuid id), .below (.time 0)] ++ stepping 3 ++
    [.proceed]

/-- The pause is notified, with a comment of the next id, and recorded. -/
def notified : List Act :=
  [.proceed, .own (.posting (.ok 0)), .own (.outcome (.returned true)),
    .own .auto, .proceed]

/-- A tick finds a decision and resumes the run, which is still paused. -/
def ticked : List Act :=
  [.enter .checkPendingDecisions, .own .auto,
    .own (.text (.returned (some "bot"))), .own (.outcome (.returned true)),
    .own (.environment (.returned ⟨"task", "branch", "tree"⟩)), .proceed] ++
    stepping 2 ++ [.proceed]

end Sample

end SdlcOs.Worker
