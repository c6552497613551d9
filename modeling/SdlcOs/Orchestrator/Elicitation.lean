/-
An elicitation as the text in `checkpoint_pointer` (core.py).

# Texts

The orchestrator's model keeps a reason as the values its text
interpolates, and a time and a signature as what they stand for. `Texts`
renders the last two and `reasonText` the first; an `ElicitationRecord`
is the dataclass with the texts in it.

# Reading back

`Elicitation(**d)` rejects unknown names and missing ones, and has
defaults for the last two fields. It does not look at types; a member of
another type, which nothing here writes, is a `TypeError` one step
earlier than in the source.
-/
import SdlcOs.Json.RoundTrip
import SdlcOs.Orchestrator.Durable
import SdlcOs.Orchestrator.World

namespace SdlcOs.Orchestrator.Durable

-- ==== texts

def TriggerKind.text : TriggerKind → String
  | .size => "size"
  | .risk => "risk"
  | .timeCost => "time_cost"
  | .stuck => "stuck"

def ElicitationStatus.text : ElicitationStatus → String
  | .pending => "pending"
  | .resolved => "resolved"

/-- The `details` of a trigger. -/
def detailsDict : Details → Members
  | .size linesChanged filesTouched thresholdLines thresholdFiles =>
    [("lines_changed", .int linesChanged),
      ("files_touched", .int filesTouched),
      ("threshold_lines", .int thresholdLines),
      ("threshold_files", .int thresholdFiles)]
  | .risk outOfScopeFiles => [("out_of_scope_files", strs outOfScopeFiles)]
  | .timeCost elapsedMinutes spendUsd budgetMinutes budgetCostUsd hardStop =>
    [("elapsed_minutes", .float elapsedMinutes),
      ("spend_usd", .float spendUsd),
      ("budget_minutes", .float budgetMinutes),
      ("budget_cost_usd", .float budgetCostUsd),
      ("hard_stop", .bool hardStop)]
  | .stuck consecutiveFailures retryBudget =>
    [("consecutive_failures", .int consecutiveFailures),
      ("retry_budget", .int retryBudget)]

/-- A `resolution`. -/
def resolutionDict (T : Texts) (r : Resolution) : Members :=
  [("decision", .str r.decision), ("note", nullable r.note),
    ("resolved_at", .str (T.isoformat r.resolvedAt))]

/-- `Elicitation` as the dataclass holds it. -/
structure ElicitationRecord where
  checkpointId : String
  trigger : String
  stage : String
  reason : String
  details : Members
  createdAt : String
  status : String
  signature : String
  resolution : Option Members

/-- The dataclass of an elicitation. -/
def ElicitationRecord.of (T : Texts) (reasonText : Reason → String)
    (e : Elicitation) : ElicitationRecord :=
  { checkpointId := e.checkpointId
    trigger := TriggerKind.text e.trigger
    stage := e.stage.token
    reason := reasonText e.reason
    details := detailsDict e.details
    createdAt := T.isoformat e.createdAt
    status := ElicitationStatus.text e.status
    signature := (e.signature.map T.signature).getD ""
    resolution := e.resolution.map (resolutionDict T) }

-- ==== JSON

namespace ElicitationRecord

/-- The dictionary `to_json` prints. -/
def toDict (r : ElicitationRecord) : Members :=
  [("checkpoint_id", .str r.checkpointId),
    ("trigger", .str r.trigger),
    ("stage", .str r.stage),
    ("reason", .str r.reason),
    ("details", .obj r.details),
    ("created_at", .str r.createdAt),
    ("status", .str r.status),
    ("signature", .str r.signature),
    ("resolution", r.resolution.elim .null .obj)]

/-- `to_json`. -/
def toJson (T : Texts) (r : ElicitationRecord) : List Char :=
  Json.compact.dumps T.floats (.obj r.toDict)

/-- The names of the fields. -/
def fieldNames : List String :=
  ["checkpoint_id", "trigger", "stage", "reason", "details", "created_at",
    "status", "signature", "resolution"]

def asObj : Doc → Option Members
  | .obj ms => some ms
  | _ => none

def asNullable : Doc → Option (Option Members)
  | .null => some none
  | .obj ms => some (some ms)
  | _ => none

/-- `Elicitation(**d)`. -/
def fromDict (ms : Members) : Except LoadError ElicitationRecord :=
  if ms.any fun m => m.1 ∉ fieldNames then .error .typeError
  else do
    let checkpointId ← ProgressRecord.required ms "checkpoint_id" asStr
    let trigger ← ProgressRecord.required ms "trigger" asStr
    let stage ← ProgressRecord.required ms "stage" asStr
    let reason ← ProgressRecord.required ms "reason" asStr
    let details ← ProgressRecord.required ms "details" asObj
    let createdAt ← ProgressRecord.required ms "created_at" asStr
    let status ← ProgressRecord.required ms "status" asStr
    let signature ← ProgressRecord.optional ms "signature" asStr ""
    let resolution ← ProgressRecord.optional ms "resolution" asNullable none
    pure { checkpointId, trigger, stage, reason, details, createdAt, status
           signature, resolution }

/-- `from_json`. -/
def fromJson (T : Texts) (text : List Char) :
    Except LoadError ElicitationRecord :=
  match Json.loads T.floats text with
  | none => .error .jsonDecodeError
  | some (.obj ms) => fromDict ms
  | some _ => .error .typeError

/-- `details.get("out_of_scope_files", [])`. -/
def outOfScopeFiles (r : ElicitationRecord) :
    Except LoadError (List String) :=
  ProgressRecord.optional r.details "out_of_scope_files" asStrs []

theorem fromDict_toDict (r : ElicitationRecord) :
    fromDict r.toDict = .ok r := by
  have hknown : (r.toDict.any fun m => m.1 ∉ fieldNames) = false := by
    simp [toDict, fieldNames]
  have hresolution : asNullable (r.resolution.elim .null .obj) =
      some r.resolution := by
    cases r.resolution with
    | none => rfl
    | some ms => rfl
  unfold fromDict
  rw [hknown]
  simp [ProgressRecord.required, ProgressRecord.optional, Members.get,
    toDict, asStr, asObj, hresolution]
  rfl

theorem fromJson_toJson (T : Texts) (r : ElicitationRecord) :
    fromJson T (r.toJson T) = .ok r := by
  unfold fromJson toJson
  rw [Json.Layout.loads_dumps]
  exact fromDict_toDict r

end ElicitationRecord

end SdlcOs.Orchestrator.Durable
