/-
A run of the orchestrator whose backend is `BedrockToolUseAgentBackend`, at
work in the run's worktree.

The backend's answers are worked out from the worktree: what is left to the
outside is its part in `implement_subtask` and in
`implement_subtasks_parallel`. Every other request is answered as before
and leaves the worktree alone. The worktree is on disk, so a process that
dies takes nothing of it along.
-/
import SdlcOs.Backend.ToolUse
import SdlcOs.Effects.Flow
import SdlcOs.Orchestrator.Core

namespace SdlcOs.Bedrock

open Effects Git
open Orchestrator (Answer Config Env Err Req Resp Run RunStatus World)

/-- What is left of the environment's part in a request. -/
@[reducible] def Outside : Req → Type
  | .implementSubtask .. => Call
  | .implementSubtasksParallel .. => Batch
  | .getRun .. | .transitionStage .. | .writeCheckpoint .. => Unit
  | .appendAttempt .. => String
  | .loadLatest _ | .loadProgress _ | .savePlan _ | .saveProgress _ => Unit
  | .research _ | .packaging _ | .observe _ => Orchestrator.Reply Unit
  | .authorPlan _ | .rePlan .. =>
    Orchestrator.Reply Orchestrator.PlanOutput
  | .verify _ => Orchestrator.Reply Orchestrator.VerificationResult
  | .nowIso | .clock => Orchestrator.Time
  | .uuid4 => String

/-- The outside's moves, as one type. -/
inductive Move : Type where
  | answer (x : Answer)
  | call (c : Call)
  | batch (b : Batch)

/-- Read a move as the part a request needs. -/
def Move.decode : (e : Req) → Move → Option (Outside e)
  | .implementSubtask .., .call c => some c
  | .implementSubtasksParallel .., .batch b => some b
  | .getRun t id, .answer x => Orchestrator.decode (.getRun t id) x
  | .transitionStage t id v next, .answer x =>
    Orchestrator.decode (.transitionStage t id v next) x
  | .writeCheckpoint t id v ptr, .answer x =>
    Orchestrator.decode (.writeCheckpoint t id v ptr) x
  | .appendAttempt t id v reason start trace, .answer x =>
    Orchestrator.decode (.appendAttempt t id v reason start trace) x
  | .loadLatest id, .answer x => Orchestrator.decode (.loadLatest id) x
  | .savePlan a, .answer x => Orchestrator.decode (.savePlan a) x
  | .loadProgress id, .answer x => Orchestrator.decode (.loadProgress id) x
  | .saveProgress p, .answer x => Orchestrator.decode (.saveProgress p) x
  | .research run, .answer x => Orchestrator.decode (.research run) x
  | .packaging run, .answer x => Orchestrator.decode (.packaging run) x
  | .observe o, .answer x => Orchestrator.decode (.observe o) x
  | .authorPlan ctx, .answer x => Orchestrator.decode (.authorPlan ctx) x
  | .rePlan ctx f, .answer x => Orchestrator.decode (.rePlan ctx f) x
  | .verify ctx, .answer x => Orchestrator.decode (.verify ctx) x
  | .nowIso, .answer x => Orchestrator.decode .nowIso x
  | .clock, .answer x => Orchestrator.decode .clock x
  | .uuid4, .answer x => Orchestrator.decode .uuid4 x
  | _, _ => none

/-- An answer that is read as the environment's part. -/
def encode : (e : Req) → Env e → Answer
  | .implementSubtask .., r => .diff r
  | .implementSubtasksParallel .., r => .diffs r
  | .getRun .., _ | .transitionStage .., _ | .writeCheckpoint .., _ => .auto
  | .appendAttempt .., id => .attemptId id
  | .loadLatest _, _ | .loadProgress _, _ => .auto
  | .savePlan _, _ | .saveProgress _, _ => .auto
  | .research _, r | .packaging _, r | .observe _, r => .effect r
  | .authorPlan _, r | .rePlan .., r => .plan r
  | .verify _, r => .verdict r
  | .nowIso, t | .clock, t => .time t
  | .uuid4, s => .uuid s

/-- What a request makes of the worktree, and the environment's part in
it. -/
def play (B : ToolUseBackend) (R : Rules) (w : Worktree) :
    (e : Req) → Outside e → Worktree × Env e
  | .implementSubtask _ ctx st, c => implementSubtask B R ctx w st c
  | .implementSubtasksParallel ctx sts, b =>
    implementSubtasksParallel B R ctx w sts b
  | .getRun .., x | .transitionStage .., x | .writeCheckpoint .., x => (w, x)
  | .appendAttempt .., x => (w, x)
  | .loadLatest _, x | .loadProgress _, x => (w, x)
  | .savePlan _, x | .saveProgress _, x => (w, x)
  | .research _, x | .packaging _, x | .observe _, x => (w, x)
  | .authorPlan _, x | .rePlan .., x => (w, x)
  | .verify _, x => (w, x)
  | .nowIso, x | .clock, x => (w, x)
  | .uuid4, x => (w, x)

/-- The backend in the environment's seat. -/
def player (cfg : Config) (B : ToolUseBackend) (R : Rules) :
    Player (Orchestrator.machine cfg) Outside Move Worktree where
  play _ w e x := play B R w e x
  decode := Move.decode
  encode := encode
  idle := .auto
  decode_encode := by
    intro e x
    cases e <;> rfl

/-- The orchestrator, its backend and the worktree. -/
abbrev driven (cfg : Config) (B : ToolUseBackend) (R : Rules) :
    Machine Resp Outside Move (World × Worktree) Err Orchestrator.Call Run
      RunStatus :=
  (Orchestrator.machine cfg).played (player cfg B R)

/-- A created run, with a worktree that was just made from its base
commit. -/
def Starts (cfg : Config) (base : Tree) (w : World × Worktree) : Prop :=
  Orchestrator.Initial cfg w.1 ∧ w.2 = .checkout base

/-- One process at a time, on one run and its worktree. -/
abbrev DrivenState : Type :=
  Sys Resp (World × Worktree) Err Orchestrator.Call Run RunStatus Unit

abbrev DrivenAct : Type := Action Unit Move Orchestrator.Call

end SdlcOs.Bedrock
