/-
The structured plan artifact (orchestrator/plan_artifact.py and the data
types of model_backend.py): the generator, its schema, the repair of
ungoverned parallel groups, and the store.

The artifact's `source_plan_hash` is a digest nothing reads back; the
text it digests is kept in its place. Timestamps are microseconds.
-/
import SdlcOs.Orchestrator.Checkpoints

namespace SdlcOs.Orchestrator

/-- A point in time, in microseconds. -/
abbrev Time : Type := Int

-- ==== model outputs

/-- `AcceptanceCriterion`. -/
structure AcceptanceCriterion where
  criterionId : String
  description : String
  verificationTests : List String
  deriving DecidableEq, Repr

/-- `SubTask`. -/
structure SubTask where
  taskId : String
  description : String
  parallelGroup : Option String
  dependsOn : List String := []
  interfaceContract : Option String := none
  deriving DecidableEq, Repr

/-- The artifact's `risk.tier` enumeration. -/
inductive RiskTier : Type where
  | low
  | medium
  | high
  deriving DecidableEq, Repr

/-- `PlanOutput`, less the prose fields the artifact does not carry. -/
structure PlanOutput where
  acceptanceCriteria : List AcceptanceCriterion
  scopeIn : List String
  scopeOut : List String
  subtasks : List SubTask
  storySize : StorySize
  crossCuttingOrHighRisk : Bool
  riskTier : RiskTier
  deriving DecidableEq, Repr

/-- `DiffOutput`, less the commit message and subtask id nothing reads. -/
structure DiffOutput where
  filesTouched : List String
  linesChanged : Int
  deriving DecidableEq, Repr

-- ==== the artifact

/-- A subtask's `mode`. -/
inductive Mode : Type where
  | parallel
  | sequential
  deriving DecidableEq, Repr

/-- One entry of `subtask_graph.subtasks`. -/
structure SubtaskEntry where
  taskId : String
  description : String
  mode : Mode
  parallelGroup : Option String
  dependsOn : List String
  interfaceContract : Option String
  deriving DecidableEq, Repr

/-- The plan artifact. -/
structure PlanArtifact where
  runId : String
  planVersion : Nat
  generatedAt : Time
  sourcePlanText : String
  inScope : List String
  outOfScope : List String
  acceptanceCriteriaMap : List AcceptanceCriterion
  subtasks : List SubtaskEntry
  tier : RiskTier
  crossCuttingOrHighRisk : Bool
  storySize : StorySize
  budget : Budget
  deriving DecidableEq

/-- Python truthiness of an optional text. -/
def truthy : Option String → Bool
  | none => false
  | some s => s ≠ ""

/-- The entry the generator writes for a subtask. -/
def SubtaskEntry.ofSubTask (st : SubTask) : SubtaskEntry :=
  { taskId := st.taskId, description := st.description
    mode := if truthy st.parallelGroup then .parallel else .sequential
    parallelGroup := st.parallelGroup, dependsOn := st.dependsOn
    interfaceContract := st.interfaceContract }

/-- The `SubTask` the orchestrator hands to a backend for an entry. -/
def SubTask.ofEntry (st : SubtaskEntry) : SubTask :=
  { taskId := st.taskId, description := st.description
    parallelGroup := st.parallelGroup, dependsOn := st.dependsOn
    interfaceContract := st.interfaceContract }

-- ==== the schema

/-- A place where an artifact breaks its schema: the path and the
keyword. -/
structure SchemaViolation where
  path : String
  keyword : String
  deriving DecidableEq, Repr

/-- Report a violation when a check fails. -/
def require (ok : Bool) (path keyword : String) : List SchemaViolation :=
  if ok then [] else [⟨path, keyword⟩]

/-- The violations of one acceptance criterion. -/
def criterionErrors (i : Nat) (c : AcceptanceCriterion) :
    List SchemaViolation :=
  let path := "acceptance_criteria_map/" ++ toString i ++ "/"
  require (c.criterionId ≠ "") (path ++ "criterion_id") "minLength" ++
  require (c.description ≠ "") (path ++ "description") "minLength" ++
  require (c.verificationTests ≠ []) (path ++ "verification_tests") "minItems"

/-- The violations of one subtask entry. -/
def subtaskErrors (i : Nat) (st : SubtaskEntry) : List SchemaViolation :=
  let path := "subtask_graph/subtasks/" ++ toString i ++ "/"
  require (st.taskId ≠ "") (path ++ "task_id") "minLength" ++
  require (st.description ≠ "") (path ++ "description") "minLength"

/-- The schema's checks, `_VALIDATOR.iter_errors`. Types, required keys
and enumerations hold by construction; what is left are the length,
count and range bounds. -/
def schemaErrors (a : PlanArtifact) : List SchemaViolation :=
  require (a.runId ≠ "") "run_id" "minLength" ++
  require (1 ≤ a.planVersion) "plan_version" "minimum" ++
  (a.acceptanceCriteriaMap.zipIdx.flatMap fun c => criterionErrors c.2 c.1) ++
  (a.subtasks.zipIdx.flatMap fun st => subtaskErrors st.2 st.1) ++
  require (0 ≤ a.budget.wallClockMinutes) "risk/budget/wall_clock_minutes" "minimum" ++
  require (0 ≤ a.budget.costCeilingUsd) "risk/budget/cost_ceiling_usd" "minimum"

-- ==== ungoverned parallel groups

/-- The members of a parallel group. -/
def groupMembers (subtasks : List SubtaskEntry) (g : String) :
    List SubtaskEntry :=
  subtasks.filter fun st => st.parallelGroup = some g

/-- A group of two or more, not all under an interface contract. -/
def ungoverned (subtasks : List SubtaskEntry) (g : String) : Bool :=
  2 ≤ (groupMembers subtasks g).length &&
    (groupMembers subtasks g).any fun st => !truthy st.interfaceContract

/-- The truthy group names, in the order of first appearance. -/
def groupNames (subtasks : List SubtaskEntry) : List String :=
  ((subtasks.filterMap (·.parallelGroup)).filter (· ≠ "")).eraseDups

/-- The entry with its group taken away when the group is ungoverned. -/
def demote (subtasks : List SubtaskEntry) (st : SubtaskEntry) : SubtaskEntry :=
  match st.parallelGroup with
  | none => st
  | some g =>
    if g ≠ "" ∧ ungoverned subtasks g then
      { st with parallelGroup := none, mode := .sequential }
    else st

/-- `_demote_ungoverned_parallel_groups`: the repaired entries and the
demoted task ids. -/
def demoteUngovernedParallelGroups (subtasks : List SubtaskEntry) :
    List SubtaskEntry × List String :=
  (subtasks.map (demote subtasks),
    ((groupNames subtasks).filter (ungoverned subtasks)).flatMap fun g =>
      (groupMembers subtasks g).map (·.taskId))

-- ==== the generator

/-- `generate_plan_artifact`: the artifact and the demoted task ids, or
the schema violations of `PlanArtifactValidationError`. -/
def generatePlanArtifact (runId : String) (planVersion : Nat)
    (planOutput : PlanOutput) (budget : Budget) (humanPlanText : String)
    (now : Time) : Except (List SchemaViolation) (PlanArtifact × List String) :=
  let artifact : PlanArtifact :=
    { runId := runId, planVersion := planVersion, generatedAt := now
      sourcePlanText := humanPlanText
      inScope := planOutput.scopeIn, outOfScope := planOutput.scopeOut
      acceptanceCriteriaMap := planOutput.acceptanceCriteria
      subtasks := planOutput.subtasks.map SubtaskEntry.ofSubTask
      tier := planOutput.riskTier
      crossCuttingOrHighRisk := planOutput.crossCuttingOrHighRisk
      storySize := planOutput.storySize, budget := budget }
  match schemaErrors artifact with
  | [] =>
    let demoted := demoteUngovernedParallelGroups artifact.subtasks
    .ok ({ artifact with subtasks := demoted.1 }, demoted.2)
  | errors => .error errors

theorem generatePlanArtifact_risk {runId text : String} {v : Nat}
    {out : PlanOutput} {budget : Budget} {now : Time}
    {artifact : PlanArtifact} {demoted : List String}
    (h : generatePlanArtifact runId v out budget text now =
      .ok (artifact, demoted)) :
    artifact.storySize = out.storySize ∧
      artifact.crossCuttingOrHighRisk = out.crossCuttingOrHighRisk ∧
      artifact.budget = budget := by
  simp only [generatePlanArtifact] at h
  split at h
  · injection h with h
    injection h with h _
    rw [← h]
    exact ⟨rfl, rfl, rfl⟩
  · cases h

-- ==== the store

/-- `PlanArtifactStore`, one run's directory: `latest.json` and the
`vN.json` files. -/
structure PlanStore where
  latest : Option PlanArtifact
  versions : List (Nat × PlanArtifact)
  deriving DecidableEq

namespace PlanStore

/-- An empty directory. -/
def empty : PlanStore := ⟨none, []⟩

/-- `save`: writes the artifact's version file, then `latest.json`. -/
def save (store : PlanStore) (artifact : PlanArtifact) : PlanStore :=
  { latest := some artifact
    versions := (artifact.planVersion, artifact) ::
      store.versions.filter (·.1 ≠ artifact.planVersion) }

/-- `latest_version_number`. -/
def latestVersionNumber (latest : Option PlanArtifact) : Nat :=
  match latest with
  | some artifact => artifact.planVersion
  | none => 0

@[simp] theorem save_latest (store : PlanStore) (artifact : PlanArtifact) :
    (store.save artifact).latest = some artifact := rfl

end PlanStore

end SdlcOs.Orchestrator
