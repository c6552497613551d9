/-
The orchestrator's own stores as files: `RunProgressStore` (progress.py)
and `PlanArtifactStore` (plan_artifact.py), with what saves a plan:
`_generate_and_store_plan` and `_extend_declared_scope` (core.py), which
read one file and write two.

# Texts

The orchestrator's model keeps times and checkpoint signatures as what
they stand for; the files hold their texts. `Texts` is what the platform
renders: floats, times, the digest of a plan and the signature of a
trigger. A `ProgressRecord` is the dataclass with the texts in it.

# Reading back

`RunProgress(**d)` rejects unknown names and missing ones and fills in
defaults; it does not look at types. A member of another type, which
nothing here writes, is a `TypeError` one step earlier than in the
source, where the value is first used.

# The plan's version

`load_latest` and `load_version` read different files, and the number of
the next plan comes from the first.
-/
import SdlcOs.Files.Crash
import SdlcOs.Json.Parse
import SdlcOs.Orchestrator.Progress

namespace SdlcOs.Orchestrator.Durable

open Files
open Json (FloatText)

/-- A document. -/
abbrev Doc : Type := Json.Json ℚ

/-- The members of a dictionary, in order. -/
abbrev Members : Type := List (String × Doc)

/-- What the platform renders as text. -/
structure Texts where
  floats : FloatText ℚ
  isoformat : Time → String
  sha256 : String → String
  signature : Signature → String

/-- What a load raises. -/
inductive LoadError : Type where
  | jsonDecodeError
  | typeError
  | keyError (key : String)
  deriving DecidableEq, Repr

-- ==== dictionaries

/-- `d.get(key)`: the last member of the name, if there is one. -/
def Members.get : Members → String → Option Doc
  | [], _ => none
  | m :: ms, key =>
    match Members.get ms key with
    | some v => some v
    | none => if m.1 = key then some m.2 else none

/-- `d[key]`. -/
def Members.item (ms : Members) (key : String) : Except LoadError Doc :=
  match ms.get key with
  | some v => .ok v
  | none => .error (.keyError key)

/-- `d[key] = v`: in the key's place, or at the end. -/
def Members.set : Members → String → Doc → Members
  | [], key, v => [(key, v)]
  | m :: ms, key, v =>
    if m.1 = key then (key, v) :: ms.filter (·.1 ≠ key)
    else m :: Members.set ms key v

/-- A list of texts. -/
def strs (ss : List String) : Doc := .arr (ss.map .str)

def asStr : Doc → Option String
  | .str s => some s
  | _ => none

def asInt : Doc → Option Int
  | .int n => some n
  | _ => none

def asFloat : Doc → Option ℚ
  | .float x => some x
  | .int n => some n
  | _ => none

def asStrs : Doc → Option (List String)
  | .arr vs => vs.mapM asStr
  | _ => none

/-- Python's truth value of a document. -/
def truth : Doc → Bool
  | .null => false
  | .bool b => b
  | .int n => n ≠ 0
  | .float x => x ≠ 0
  | .str s => s ≠ ""
  | .arr vs => !vs.isEmpty
  | .obj ms => !ms.isEmpty

-- ==== RunProgressStore

/-- `RunProgress` as the dataclass holds it. -/
structure ProgressRecord where
  runId : String
  attemptId : String
  completedSubtaskIds : List String
  filesTouched : List String
  linesChanged : Int
  spendUsd : ℚ
  consecutiveSameStageFailures : Int
  startedAt : String
  acknowledgedCheckpointSignatures : List String
  lastVerificationFailureSummary : String
  deriving DecidableEq

/-- The dataclass of a progress record. -/
def ProgressRecord.of (T : Texts) (p : RunProgress) : ProgressRecord :=
  { runId := p.runId, attemptId := p.attemptId
    completedSubtaskIds := p.completedSubtaskIds
    filesTouched := p.filesTouched, linesChanged := p.linesChanged
    spendUsd := p.spendUsd
    consecutiveSameStageFailures := p.consecutiveSameStageFailures
    startedAt := T.isoformat p.startedAt
    acknowledgedCheckpointSignatures :=
      p.acknowledgedCheckpointSignatures.map T.signature
    lastVerificationFailureSummary := p.lastVerificationFailureSummary }

namespace ProgressRecord

/-- `to_dict`. -/
def toDict (p : ProgressRecord) : Members :=
  [("run_id", .str p.runId),
    ("attempt_id", .str p.attemptId),
    ("completed_subtask_ids", strs p.completedSubtaskIds),
    ("files_touched", strs p.filesTouched),
    ("lines_changed", .int p.linesChanged),
    ("spend_usd", .float p.spendUsd),
    ("consecutive_same_stage_failures", .int p.consecutiveSameStageFailures),
    ("started_at", .str p.startedAt),
    ("acknowledged_checkpoint_signatures",
      strs p.acknowledgedCheckpointSignatures),
    ("last_verification_failure_summary",
      .str p.lastVerificationFailureSummary)]

/-- The names of the fields. -/
def fieldNames : List String :=
  ["run_id", "attempt_id", "completed_subtask_ids", "files_touched",
    "lines_changed", "spend_usd", "consecutive_same_stage_failures",
    "started_at", "acknowledged_checkpoint_signatures",
    "last_verification_failure_summary"]

/-- A field that must be there. -/
def required {α : Type} (ms : Members) (key : String)
    (read : Doc → Option α) : Except LoadError α :=
  match (ms.get key).bind read with
  | some a => .ok a
  | none => .error .typeError

/-- A field with a default. -/
def optional {α : Type} (ms : Members) (key : String)
    (read : Doc → Option α) (default : α) : Except LoadError α :=
  match ms.get key with
  | none => .ok default
  | some _ => required ms key read

/-- `from_dict`, that is `RunProgress(**d)`; the default of `started_at`
is the clock. -/
def fromDict (now : String) (ms : Members) :
    Except LoadError ProgressRecord :=
  if ms.any fun m => m.1 ∉ fieldNames then .error .typeError
  else do
    let runId ← required ms "run_id" asStr
    let attemptId ← required ms "attempt_id" asStr
    let completedSubtaskIds ← optional ms "completed_subtask_ids" asStrs []
    let filesTouched ← optional ms "files_touched" asStrs []
    let linesChanged ← optional ms "lines_changed" asInt 0
    let spendUsd ← optional ms "spend_usd" asFloat 0
    let consecutiveSameStageFailures ←
      optional ms "consecutive_same_stage_failures" asInt 0
    let startedAt ← optional ms "started_at" asStr now
    let acknowledgedCheckpointSignatures ←
      optional ms "acknowledged_checkpoint_signatures" asStrs []
    let lastVerificationFailureSummary ←
      optional ms "last_verification_failure_summary" asStr ""
    pure { runId, attemptId, completedSubtaskIds, filesTouched, linesChanged
           spendUsd, consecutiveSameStageFailures, startedAt
           acknowledgedCheckpointSignatures, lastVerificationFailureSummary }

end ProgressRecord

namespace RunProgressStore

variable (T : Texts)

/-- `_path`. -/
def path (runId : String) : String := runId ++ ".json"

/-- `save`: one file, written in place. -/
def save (p : ProgressRecord) : List (Write String) :=
  [⟨path p.runId, Json.dumps T.floats (.obj p.toDict)⟩]

/-- `load`. -/
def load (now : String) (d : Dir String) (runId : String) :
    Except LoadError (Option ProgressRecord) :=
  match d (path runId) with
  | none => .ok none
  | some text =>
    match Json.loads T.floats text with
    | none => .error .jsonDecodeError
    | some (.obj ms) => (ProgressRecord.fromDict now ms).map some
    | some _ => .error .typeError

end RunProgressStore

-- ==== PlanArtifactStore

def StorySize.text : StorySize → String
  | .S => "S"
  | .M => "M"
  | .L => "L"
  | .XL => "XL"

def RiskTier.text : RiskTier → String
  | .low => "low"
  | .medium => "medium"
  | .high => "high"

def Mode.text : Mode → String
  | .parallel => "parallel"
  | .sequential => "sequential"

/-- An optional text. -/
def nullable : Option String → Doc
  | none => .null
  | some s => .str s

/-- The dictionary `generate_plan_artifact` builds. -/
def planDict (T : Texts) (a : PlanArtifact) : Members :=
  [("schema_version", .str "1.0.0"),
    ("run_id", .str a.runId),
    ("plan_version", .int a.planVersion),
    ("generated_at", .str (T.isoformat a.generatedAt)),
    ("source_plan_hash", .str (T.sha256 a.sourcePlanText)),
    ("declared_scope", .obj
      [("in_scope", strs a.inScope), ("out_of_scope", strs a.outOfScope)]),
    ("acceptance_criteria_map", .arr (a.acceptanceCriteriaMap.map fun ac =>
      .obj [("criterion_id", .str ac.criterionId),
        ("description", .str ac.description),
        ("verification_tests", strs ac.verificationTests)])),
    ("subtask_graph", .obj [("subtasks", .arr (a.subtasks.map fun st =>
      .obj [("task_id", .str st.taskId),
        ("description", .str st.description),
        ("mode", .str (Mode.text st.mode)),
        ("parallel_group", nullable st.parallelGroup),
        ("depends_on", strs st.dependsOn),
        ("interface_contract", nullable st.interfaceContract)]))]),
    ("risk", .obj
      [("tier", .str (RiskTier.text a.tier)),
        ("cross_cutting_or_high_risk", .bool a.crossCuttingOrHighRisk),
        ("story_size", .str (StorySize.text a.storySize)),
        ("budget", .obj
          [("wall_clock_minutes", .float a.budget.wallClockMinutes),
            ("cost_ceiling_usd", .float a.budget.costCeilingUsd),
            ("size_checkpoint_lines", .int a.budget.sizeCheckpointLines),
            ("size_checkpoint_files", .int a.budget.sizeCheckpointFiles)])])]

namespace PlanArtifactStore

variable (T : Texts)

/-- `f"v{plan_version}.json"`. -/
def versionFile (planVersion : Int) : String :=
  "v" ++ Int.repr planVersion ++ ".json"

/-- The file of the latest artifact. -/
def latestFile : String := "latest.json"

/-- `json.dumps(artifact, indent=2)`. -/
def planText (artifact : Members) : List Char :=
  Json.dumps T.floats (.obj artifact)

/-- The version's file and then `latest.json`, in place. -/
def writes (runId : String) (planVersion : Int) (artifact : Members) :
    List (Write (String × String)) :=
  [⟨(runId, versionFile planVersion), planText T artifact⟩,
    ⟨(runId, latestFile), planText T artifact⟩]

/-- `save`: what it goes on to write. -/
def save (artifact : Members) :
    Except LoadError (List (Write (String × String))) := do
  let runId ← artifact.item "run_id"
  let planVersion ← artifact.item "plan_version"
  match runId, planVersion with
  | .str runId, .int planVersion => .ok (writes T runId planVersion artifact)
  | _, _ => .error .typeError

/-- `json.loads(path.read_text())` if the file exists. -/
def loadFile (d : Dir (String × String)) (path : String × String) :
    Except LoadError (Option Doc) :=
  match d path with
  | none => .ok none
  | some text =>
    match Json.loads T.floats text with
    | none => .error .jsonDecodeError
    | some doc => .ok (some doc)

/-- `load_latest`. -/
def loadLatest (d : Dir (String × String)) (runId : String) :
    Except LoadError (Option Doc) :=
  loadFile T d (runId, latestFile)

/-- `load_version`. -/
def loadVersion (d : Dir (String × String)) (runId : String)
    (planVersion : Int) : Except LoadError (Option Doc) :=
  loadFile T d (runId, versionFile planVersion)

/-- `artifact["plan_version"]`. -/
def planVersionOf : Doc → Except LoadError Int
  | .obj ms => do
    match ← Members.item ms "plan_version" with
    | .int n => .ok n
    | _ => .error .typeError
  | _ => .error .typeError

/-- `latest_version_number`. -/
def latestVersionNumber (d : Dir (String × String)) (runId : String) :
    Except LoadError Int :=
  match loadLatest T d runId with
  | .error e => .error e
  | .ok none => .ok 0
  | .ok (some doc) => if truth doc then planVersionOf doc else .ok 0

end PlanArtifactStore

-- ==== saving a plan

/-- What saving a plan raises. -/
inductive PlanError : Type where
  | xlNotRunnable (storySize : StorySize) (crossCuttingOrHighRisk : Bool)
  | load (e : LoadError)
  | planArtifactInvalid (errors : List SchemaViolation)
  | noPlanToExtend (runId : String)

/-- What is lost of an exception's origin. -/
def orLoad {α : Type} : Except LoadError α → Except PlanError α
  | .ok a => .ok a
  | .error e => .error (.load e)

/-- What makes the orchestrator save a plan: a model's plan and the text
it is generated under, or files a human lets into the scope. -/
inductive Cause : Type where
  | replan (planOutput : PlanOutput) (humanPlanText : String)
  | extend (extraFiles : List String)

/-- A save: its run, its cause, the clock, and how many operations of it
happen before a crash, or all of them. -/
structure Save where
  runId : String
  cause : Cause
  now : Time
  stop : Nat

variable (T : Texts) (budgets : StorySize → Option Budget)

/-- `_generate_and_store_plan` up to its save: the artifact. -/
def generatePlan (d : Dir (String × String)) (runId : String)
    (planOutput : PlanOutput) (humanPlanText : String) (now : Time) :
    Except PlanError Members :=
  match resolveBudget planOutput.storySize
      planOutput.crossCuttingOrHighRisk budgets with
  | none => .error (.xlNotRunnable planOutput.storySize
      planOutput.crossCuttingOrHighRisk)
  | some budget =>
    match PlanArtifactStore.latestVersionNumber T d runId with
    | .error e => .error (.load e)
    | .ok latest =>
      -- a number below one does not get past the schema
      match generatePlanArtifact runId (latest + 1).toNat planOutput
          budget humanPlanText now with
      | .error errors => .error (.planArtifactInvalid errors)
      | .ok (artifact, _) => .ok (planDict T artifact)

/-- The artifact `_extend_declared_scope` makes of the latest one. -/
def extendScope (artifact : Members) (extraFiles : List String)
    (now : Time) : Except LoadError Members := do
  match ← artifact.item "declared_scope" with
  | .obj scope =>
    match asStrs (← Members.item scope "in_scope") with
    | some inScope =>
      let nextVersion ← PlanArtifactStore.planVersionOf (.obj artifact)
      let outOfScope ← Members.item scope "out_of_scope"
      pure (((artifact.set "declared_scope" (.obj
        [("in_scope", strs (sortedSet (inScope ++ extraFiles))),
          ("out_of_scope", outOfScope)])).set "plan_version"
        (.int (nextVersion + 1))).set "generated_at"
        (.str (T.isoformat now)))
    | none => .error .typeError
  | _ => .error .typeError

/-- `_extend_declared_scope` up to its save: the artifact. -/
def extendPlan (d : Dir (String × String)) (runId : String)
    (extraFiles : List String) (now : Time) : Except PlanError Members :=
  match PlanArtifactStore.loadLatest T d runId with
  | .error e => .error (.load e)
  | .ok none => .error (.noPlanToExtend runId)
  | .ok (some (.obj artifact)) =>
    orLoad (extendScope T artifact extraFiles now)
  | .ok (some _) => .error (.load .typeError)

/-- The artifact of a save. -/
def Save.artifact (d : Dir (String × String)) (s : Save) :
    Except PlanError Members :=
  match s.cause with
  | .replan planOutput humanPlanText =>
    generatePlan T budgets d s.runId planOutput humanPlanText s.now
  | .extend extraFiles => extendPlan T d s.runId extraFiles s.now

/-- What a save writes. -/
def Save.writes (d : Dir (String × String)) (s : Save) :
    Except PlanError (List (Write (String × String))) :=
  match s.artifact T budgets d with
  | .error e => .error e
  | .ok artifact => orLoad (PlanArtifactStore.save T artifact)

/-- The store after a save, crashed or not; one that raises before it
writes leaves the store. -/
def Save.run (d : Dir (String × String)) (s : Save) : Dir (String × String) :=
  match s.writes T budgets d with
  | .error _ => d
  | .ok ws => crash d ws s.stop

/-- Saves of any runs, one after another. -/
def saves (d : Dir (String × String)) (ss : List Save) :
    Dir (String × String) :=
  ss.foldl (Save.run T budgets) d

end SdlcOs.Orchestrator.Durable
