/-
What a vendor's answer is decoded to.

# Values

An answer is a JSON value, and the decoders check no types: a field of
their output holds what was in the answer. `tuple` takes whatever can be
iterated, `bool` every value, `int` numbers and texts (`Raised` has the
exceptions of each).

# Vendors

The decoders of the three vendors are the same code up to the class of
the error that they raise; it also stands for the built-in exceptions
that they catch.

# Schemas

The schemas' descriptions are left out.
-/
import Mathlib
import SdlcOs.Dispatch.Signing
import SdlcOs.Json.Schema

namespace SdlcOs.Backend.Decode

open Json (Json Floats Schema find)
open Dispatch (Platform pyInt)

variable {φ : Type}

-- ==== schemas

/-- `_ACCEPTANCE_CRITERION_SCHEMA`. -/
def acceptanceCriterionSchema : Schema φ :=
  .object
    [("criterion_id", .string), ("description", .string),
      ("verification_tests", .array .string)]
    ["criterion_id", "description", "verification_tests"]

/-- `_SUBTASK_SCHEMA`. -/
def subtaskSchema : Schema φ :=
  .object
    [("task_id", .string), ("description", .string),
      ("parallel_group", .nullable .string),
      ("depends_on", .array .string),
      ("interface_contract", .nullable .string)]
    ["task_id", "description", "parallel_group", "depends_on"]

/-- The members that a plan has to have. -/
def planRequired : List String :=
  ["outcomes", "acceptance_criteria", "scope_in", "scope_out", "subtasks",
    "story_size", "cross_cutting_or_high_risk", "risk_tier",
    "rollback_strategy"]

/-- `PLAN_OUTPUT_SCHEMA`. The one array that it does not require may also
be null. -/
def planOutputSchema : Schema φ :=
  .object
    [("outcomes", .string),
      ("acceptance_criteria", .array acceptanceCriterionSchema),
      ("scope_in", .array .string), ("scope_out", .array .string),
      ("subtasks", .array subtaskSchema),
      ("story_size", .enum ["S", "M", "L", "XL"]),
      ("cross_cutting_or_high_risk", .boolean),
      ("risk_tier", .enum ["low", "medium", "high"]),
      ("rollback_strategy", .string), ("constraints", .string),
      ("prior_decisions", .string),
      ("open_questions", .nullable (.array .string))]
    planRequired

/-- The members that a diff has to have. -/
def diffRequired : List String :=
  ["files_touched", "lines_changed", "commit_message"]

/-- `DIFF_OUTPUT_SCHEMA`. -/
def diffOutputSchema (F : Floats φ) : Schema φ :=
  .object
    [("files_touched", .array .string), ("lines_changed", .integer F),
      ("commit_message", .string), ("subtask_id", .nullable .string)]
    diffRequired

-- ==== outputs

/-- `AcceptanceCriterion`, with what was in the answer. -/
structure AcceptanceCriterion (φ : Type) where
  criterionId : Json φ
  description : Json φ
  verificationTests : List (Json φ)

/-- `SubTask`. -/
structure SubTask (φ : Type) where
  taskId : Json φ
  description : Json φ
  parallelGroup : Json φ
  dependsOn : List (Json φ)
  interfaceContract : Json φ

/-- `PlanOutput`. -/
structure PlanOutput (φ : Type) where
  outcomes : Json φ
  acceptanceCriteria : List (AcceptanceCriterion φ)
  scopeIn : List (Json φ)
  scopeOut : List (Json φ)
  subtasks : List (SubTask φ)
  storySize : Json φ
  crossCuttingOrHighRisk : Bool
  riskTier : Json φ
  rollbackStrategy : Json φ
  constraints : Json φ
  priorDecisions : Json φ
  openQuestions : List (Json φ)

/-- `DiffOutput`. -/
structure DiffOutput (φ : Type) where
  filesTouched : List (Json φ)
  linesChanged : Int
  commitMessage : Json φ
  subtaskId : Json φ

-- ==== exceptions

/-- What a decoder comes upon: no object to start with, a key that is
missing, or a built-in exception. -/
inductive Raised : Type where
  | notObject
  | missing (context key : String)
  | typeError
  | attributeError
  | valueError
  | overflowError
  deriving DecidableEq, Repr

inductive Vendor : Type where
  | bedrock
  | ollama
  | anthropic
  deriving DecidableEq, Repr

/-- What a decoder raises: its vendor's malformed-output error, or a
built-in exception that it does not catch. -/
inductive Exn : Type where
  | malformed (vendor : Vendor) (cause : Raised)
  | escaped (exn : Raised)
  deriving DecidableEq, Repr

/-- What is raised as the vendor's own error. -/
def Raised.own : Raised → Bool
  | .notObject => true
  | .missing _ _ => true
  | _ => false

/-- The `except` clauses: the vendor's own error goes on, the built-in
exceptions that are caught become it. -/
def convert (vendor : Vendor) (catches : List Raised) {α : Type} :
    Except Raised α → Except Exn α
  | .ok a => .ok a
  | .error exn =>
    if exn.own = true ∨ exn ∈ catches then .error (.malformed vendor exn)
    else .error (.escaped exn)

-- ==== coercions

/-- `iter(v)`: a list's items, a dict's keys, a text's characters. -/
def iterate : Json φ → Except Raised (List (Json φ))
  | .arr items => .ok items
  | .obj members => .ok (members.map fun m => .str m.1)
  | .str s => .ok (s.toList.map fun c => .str (String.singleton c))
  | _ => .error .typeError

/-- `bool(v)`. -/
def truthy (F : Floats φ) : Json φ → Bool
  | .null => false
  | .bool b => b
  | .int n => n ≠ 0
  | .float x => !F.isZero x
  | .str s => s ≠ ""
  | .arr items => !items.isEmpty
  | .obj members => !members.isEmpty

/-- `int(v)`. -/
def toInt (F : Floats φ) (P : Platform) : Json φ → Except Raised Int
  | .bool b => .ok (if b then 1 else 0)
  | .int n => .ok n
  | .float x =>
    match F.truncate x with
    | .nan => .error .valueError
    | .infinite => .error .overflowError
    | .whole n => .ok n
    | .fraction n => .ok n
  | .str s =>
    match pyInt P s with
    | some n => .ok n
    | none => .error .valueError
  | _ => .error .typeError

/-- `key in items`. -/
def hasText (key : String) (items : List (Json φ)) : Bool :=
  items.any fun
    | .str s => s = key
    | _ => false

/-- `_require`. For a text and for a list, `in` looks for a part and for
an item; where it finds one the subscript fails. -/
def require (context key : String) : Json φ → Except Raised (Json φ)
  | .obj members =>
    match find key members with
    | some v => .ok v
    | none => .error (.missing context key)
  | .str s =>
    if key.toList <:+: s.toList then .error .typeError
    else .error (.missing context key)
  | .arr items =>
    if hasText key items then .error .typeError
    else .error (.missing context key)
  | _ => .error .typeError

/-- `d.get(key, default)`. -/
def getOr (key : String) (default : Json φ) :
    Json φ → Except Raised (Json φ)
  | .obj members => .ok ((find key members).getD default)
  | _ => .error .attributeError

/-- `tuple(v or ())`. -/
def tupleOr (F : Floats φ) (v : Json φ) : Except Raised (List (Json φ)) :=
  if truthy F v then iterate v else .ok []

-- ==== decoders

section Decoders

variable (F : Floats φ)

/-- A criterion of a plan. -/
def criterionFrom (c : Json φ) : Except Raised (AcceptanceCriterion φ) := do
  let criterionId ← require "acceptance_criteria[]" "criterion_id" c
  let description ← require "acceptance_criteria[]" "description" c
  let tests ← require "acceptance_criteria[]" "verification_tests" c
  let verificationTests ← iterate tests
  pure ⟨criterionId, description, verificationTests⟩

/-- A subtask of a plan. -/
def subtaskFrom (s : Json φ) : Except Raised (SubTask φ) := do
  let taskId ← require "subtasks[]" "task_id" s
  let description ← require "subtasks[]" "description" s
  let parallelGroup ← getOr "parallel_group" .null s
  let dependencies ← getOr "depends_on" .null s
  let dependsOn ← tupleOr F dependencies
  let interfaceContract ← getOr "interface_contract" .null s
  pure ⟨taskId, description, parallelGroup, dependsOn, interfaceContract⟩

/-- The body of a plan decoder. -/
def planBody (d : Json φ) : Except Raised (PlanOutput φ) := do
  let rawCriteria ← require "plan" "acceptance_criteria" d
  let rawItems ← iterate rawCriteria
  let criteria ← rawItems.mapM criterionFrom
  let rawSubtasks ← require "plan" "subtasks" d
  let rawTasks ← iterate rawSubtasks
  let subtasks ← rawTasks.mapM (subtaskFrom F)
  let outcomes ← require "plan" "outcomes" d
  let rawIn ← require "plan" "scope_in" d
  let scopeIn ← iterate rawIn
  let rawOut ← require "plan" "scope_out" d
  let scopeOut ← iterate rawOut
  let storySize ← require "plan" "story_size" d
  let rawRisk ← require "plan" "cross_cutting_or_high_risk" d
  let riskTier ← require "plan" "risk_tier" d
  let rollbackStrategy ← require "plan" "rollback_strategy" d
  let constraints ← getOr "constraints" (.str "") d
  let priorDecisions ← getOr "prior_decisions" (.str "") d
  let rawQuestions ← getOr "open_questions" .null d
  let openQuestions ← tupleOr F rawQuestions
  pure ⟨outcomes, criteria, scopeIn, scopeOut, subtasks, storySize,
    truthy F rawRisk, riskTier, rollbackStrategy, constraints,
    priorDecisions, openQuestions⟩

/-- The body of a diff decoder. -/
def diffBody (P : Platform) (d : Json φ) :
    Except Raised (DiffOutput φ) := do
  let rawFiles ← require "diff" "files_touched" d
  let filesTouched ← iterate rawFiles
  let rawLines ← require "diff" "lines_changed" d
  let linesChanged ← toInt F P rawLines
  let commitMessage ← require "diff" "commit_message" d
  let subtaskId ← getOr "subtask_id" .null d
  pure ⟨filesTouched, linesChanged, commitMessage, subtaskId⟩

/-- A decoder takes objects only. -/
def ofObject {α : Type} (body : Json φ → Except Raised α) (d : Json φ) :
    Except Raised α :=
  match d with
  | .obj members => body (.obj members)
  | _ => .error .notObject

/-- A plan decoder, up to its vendor. -/
def planFrom (vendor : Vendor) (d : Json φ) : Except Exn (PlanOutput φ) :=
  convert vendor [.typeError, .attributeError] (ofObject (planBody F) d)

/-- A diff decoder, up to its vendor. -/
def diffFrom (vendor : Vendor) (P : Platform) (d : Json φ) :
    Except Exn (DiffOutput φ) :=
  convert vendor [.typeError, .attributeError, .valueError]
    (ofObject (diffBody F P) d)

/-- `bedrock_backend._plan_from_tool_input`. -/
def planFromToolInput : Json φ → Except Exn (PlanOutput φ) :=
  planFrom F .bedrock

/-- `bedrock_backend._diff_from_tool_input`. -/
def diffFromToolInput (P : Platform) : Json φ → Except Exn (DiffOutput φ) :=
  diffFrom F .bedrock P

/-- `ollama_backend._plan_from_dict`. -/
def ollamaPlanFromDict : Json φ → Except Exn (PlanOutput φ) :=
  planFrom F .ollama

/-- `ollama_backend._diff_from_dict`. -/
def ollamaDiffFromDict (P : Platform) : Json φ → Except Exn (DiffOutput φ) :=
  diffFrom F .ollama P

/-- `anthropic_backend._plan_from_dict`. -/
def anthropicPlanFromDict : Json φ → Except Exn (PlanOutput φ) :=
  planFrom F .anthropic

/-- `anthropic_backend._diff_from_dict`. -/
def anthropicDiffFromDict (P : Platform) :
    Json φ → Except Exn (DiffOutput φ) :=
  diffFrom F .anthropic P

end Decoders

end SdlcOs.Backend.Decode
