/-
Writing runs down.

Most requests are answered by the world itself (`Answer.auto`), so a run
is written as its calls and the answers the environment gave, each
followed by the number of steps that needed nothing from it.

The run written down below starts from a story-sized plan of one
in-scope subtask. Its pieces are what the examples of the proof modules
are assembled from: the worlds are those of an accepted `create_run`
(`initial_sample`), so every script that plays is a real run.
-/
import SdlcOs.Orchestrator.Core

namespace SdlcOs.Orchestrator

open Effects

-- ==== scripts

variable {Pid : Type}

/-- A call, and then `n` steps of it that need no answer. -/
def calling (p : Pid) (c : Call) (n : Nat) : List (Act Pid) :=
  .call p c :: List.replicate n (.step p .auto)

/-- An answer from the environment, and then `n` steps that need none. -/
def answering (p : Pid) (x : Answer) (n : Nat) : List (Act Pid) :=
  .step p x :: List.replicate n (.step p .auto)

/-- Play a script from a world at rest and test the state it ends in. -/
def plays [DecidableEq Pid] (cfg : Config) (w : World)
    (chk : State Pid → Act Pid → Bool) (script : List (Act Pid))
    (test : State Pid → Bool) : Bool :=
  ((machine cfg).run chk script (Sys.idle w)).any test

/-- The state a played script ends in is reached, by steps that all met
the condition. -/
theorem reach_of_plays [DecidableEq Pid] {cfg : Config} {w : World}
    {cond : State Pid → Act Pid → Prop} (hw : Initial cfg w)
    (chk : State Pid → Act Pid → Bool)
    (hchk : ∀ s a, chk s a = true → cond s a) (script : List (Act Pid))
    (test : State Pid → Bool) (h : plays cfg w chk script test = true) :
    ∃ s, (machine cfg).Reach (Initial cfg) cond s ∧ test s = true :=
  Machine.reach_of_any hchk hw h

theorem reach_of_plays_checked [DecidableEq Pid] {cfg : Config} {w : World}
    (hw : Initial cfg w) (cond : State Pid → Act Pid → Prop)
    [∀ s a, Decidable (cond s a)] (script : List (Act Pid))
    (test : State Pid → Bool)
    (h : plays cfg w (fun s a => decide (cond s a)) script test = true) :
    ∃ s, (machine cfg).Reach (Initial cfg) cond s ∧ test s = true :=
  reach_of_plays hw _ (fun _ _ hc => of_decide_eq_true hc) script test h

theorem reach_of_plays_free [DecidableEq Pid] {cfg : Config} {w : World}
    (hw : Initial cfg w) (script : List (Act Pid)) (test : State Pid → Bool)
    (h : plays cfg w (fun _ _ => true) script test = true) :
    ∃ s, (machine cfg).Reach (Initial cfg) (fun _ _ => True) s ∧
      test s = true :=
  reach_of_plays hw _ (fun _ _ _ => trivial) script test h

/-- Make a call in a state, play a script after it and test the state it
ends in. -/
def continues [DecidableEq Pid] (cfg : Config) (p : Pid) (c : Call)
    (chk : State Pid → Act Pid → Bool) (script : List (Act Pid))
    (test : State Pid → Bool) (s : State Pid) : Bool :=
  ((machine cfg).apply (.call p c) s).any fun s₁ =>
    ((machine cfg).run chk script s₁).any test

theorem continues_inv [DecidableEq Pid] {cfg : Config} {p : Pid} {c : Call}
    {cond : State Pid → Act Pid → Prop} {chk : State Pid → Act Pid → Bool}
    (hchk : ∀ s a, chk s a = true → cond s a) {script : List (Act Pid)}
    {test : State Pid → Bool} {s : State Pid}
    (h : continues cfg p c chk script test s = true) :
    ∃ s₁ s', (machine cfg).apply (.call p c) s = some s₁ ∧
      (machine cfg).Leads cond s₁ s' ∧ test s' = true := by
  obtain ⟨s₁, hcall, hrest⟩ := (Option.any_eq_true _ _).1 h
  obtain ⟨s', hrun, htest⟩ := (Option.any_eq_true _ _).1 hrest
  exact ⟨s₁, s', hcall, Machine.leads_of_run hchk (.refl s₁) hrun, htest⟩

/-- What a process is about to ask for. -/
def asking (s : State Pid) (p : Pid) (test : Req → Bool) : Bool :=
  match s.procs p with
  | some ⟨_, _, .op e _⟩ => test e
  | _ => false

theorem asking_inv {s : State Pid} {p : Pid} {test : Req → Bool}
    (h : asking s p test = true) :
    ∃ e, s.Asks p e ∧ test e = true := by
  unfold asking at h
  split at h
  · next ph lg e k hp => exact ⟨e, ⟨_, k, hp, rfl⟩, h⟩
  · cases h

/-- What a process is about to ask for in a turn of the drive loop. -/
def driving (s : State Pid) (p : Pid) (test : Req → Bool) : Bool :=
  match s.procs p with
  | some ⟨.loop _, _, .op e _⟩ => test e
  | _ => false

theorem driving_inv {s : State Pid} {p : Pid} {test : Req → Bool}
    (h : driving s p test = true) :
    ∃ e, s.Drives p e ∧ test e = true := by
  unfold driving at h
  split at h
  · next st lg e k hp => exact ⟨e, ⟨_, st, k, hp, rfl, rfl⟩, h⟩
  · cases h

-- ==== a sample

namespace Sample

/-- A tenant with a packaging function, no research and no observer. -/
def cfg : Config := ⟨"tenant", defaultBudgets, false, true, false⟩

/-- The world `create_run` makes. -/
def world : World where
  run :=
    { id := "run", tenantId := "tenant", jiraKey := "KEY-1", repo := "org/repo"
      branch := "main", stage := .intake, checkpointPointer := none
      traceId := "trace", currentAttemptId := "attempt-1", version := 1 }
  plans := .empty
  progress := none
  hist := []

theorem initial_sample : Initial cfg world :=
  ⟨"KEY-1", "org/repo", "main", "spot", "trace", "run", "attempt-1",
    by decide, by decide, rfl, rfl, rfl⟩

/-- A small plan over the given subtasks. -/
def plan (subtasks : List SubTask) : PlanOutput where
  acceptanceCriteria := [⟨"AC-1", "the story works", ["tests/test_story.py"]⟩]
  scopeIn := ["src/story.py"]
  scopeOut := []
  subtasks := subtasks
  storySize := .S
  crossCuttingOrHighRisk := false
  riskTier := .low

/-- A sequential subtask. -/
def task (id : String) (dependsOn : List String := []) : SubTask :=
  { taskId := id, description := "write it", parallelGroup := none
    dependsOn := dependsOn }

/-- A diff inside the declared scope. -/
def diff : Answer := .diff (.returned ⟨["src/story.py"], 10⟩)

/-- A diff outside the declared scope. -/
def strayDiff : Answer := .diff (.returned ⟨["src/other.py"], 10⟩)

/-- The run authored a plan and waits at the plan gate. -/
def authored (p : Pid) (subtasks : List SubTask) : List (Act Pid) :=
  calling p (.resumeRun "run") 7 ++
    answering p (.plan (.returned (plan subtasks))) 1 ++
    answering p (.time 0) 3

/-- The plan was approved: the first subtask is about to be handed to the
backend. -/
def approved (p : Pid) (subtasks : List SubTask) : List (Act Pid) :=
  authored p subtasks ++ calling p (.approvePlan "run" "approve" none) 2 ++
    answering p (.time 0) 6

/-- The first subtask strayed out of scope and the run waits at its
checkpoint. -/
def strayed (p : Pid) (subtasks : List SubTask) : List (Act Pid) :=
  approved p subtasks ++ answering p strayDiff 1 ++
    answering p (.time 0) 0 ++ answering p (.uuid "c1") 0 ++
    answering p (.time 0) 4

end Sample

end SdlcOs.Orchestrator
