/-
Pinned versions of infrastructure modules.

# Promotion

`promote_module_version` validates a candidate with three runs of `tofu`
on its directory and, when all of them succeeded, hashes the directory
and writes the pinned record. The directory is the caller's: it may be
edited at any time, also between two of these steps (`Act.edit`). A
process that dies leaves a promotion where it stands; the registry's file
is written with every record, so the next process goes on with the same
records.

# The ghosts

`evidence` is what a pinned record stands for: the trees that the runs of
its validation saw, and the one that was hashed. `accepted` lists the
cell definitions that were approved, each with the tree that its version's
record was hashed from at that time.

# The hash

`sha256` is a parameter: the hash of a stream of bytes, in hex.
-/
import Mathlib
import SdlcOs.Data.Dict
import SdlcOs.Json.Text

namespace SdlcOs.ModuleVersions

open Data

-- ==== directories

/-- The files under a directory: relative path, by its parts, and
bytes. -/
structure Tree where
  files : List (List String × List UInt8)
  nodup : (files.map Prod.fst).Nodup
  deriving DecidableEq

/-- `as_posix`. -/
def asPosix (parts : List String) : String := String.intercalate "/" parts

/-- What a file adds to the hashed stream. -/
def hashedFile (file : List String × List UInt8) : List UInt8 :=
  (asPosix file.1).toUTF8.toList ++ [0] ++ file.2 ++ [0]

/-- `hash_module_dir`: every file, by relative path. -/
def hashModuleDir (sha256 : List UInt8 → String) (tree : Tree) : String :=
  sha256 ((tree.files.insertionSort fun a b => a.1 ≤ b.1).flatMap hashedFile)

-- ==== candidates

/-- The value of a module variable. A float comes with its `str`. -/
inductive Variable : Type where
  | bool (b : Bool)
  | int (n : Int)
  | float (text : String)
  | str (s : String)
  | other
  deriving DecidableEq, Repr

/-- `_hcl_literal`: a `TypeError` for a value of another type. -/
def hclLiteral : Variable → Option String
  | .bool b => some (if b then "true" else "false")
  | .int n => some (toString n)
  | .float text => some text
  | .str s => some (String.ofList (Json.strText s))
  | .other => none

/-- `ModuleVersionCandidate`; `settings` are its `variables`. The
directory's name is the resolved one. -/
structure Candidate where
  moduleName : String
  version : String
  moduleDir : String
  settings : List (String × Variable) := []
  deriving DecidableEq, Repr

/-- The throwaway composition. -/
def Candidate.mainTf (c : Candidate) : Option String := do
  let lines ← c.settings.mapM fun v =>
    (hclLiteral v.2).map fun literal => "  " ++ v.1 ++ " = " ++ literal
  pure ("terraform \x7b\n" ++
    "  required_version = \">= 1.6.0\"\n" ++
    "\x7d\n\n" ++
    "module \"candidate\" \x7b\n" ++
    "  source = \"" ++ c.moduleDir ++ "\"\n" ++
    String.intercalate "\n" lines ++ "\n" ++
    "\x7d\n")

-- ==== validation

inductive ValidationDenialReason : Type where
  | initFailed
  | validateFailed
  | planFailed
  deriving DecidableEq, Repr

/-- The runs of a validation, in their order. -/
inductive Command : Type where
  | init
  | validate
  | plan
  deriving DecidableEq, Repr

def Command.name : Command → String
  | .init => "init"
  | .validate => "validate"
  | .plan => "plan"

def Command.denial : Command → ValidationDenialReason
  | .init => .initFailed
  | .validate => .validateFailed
  | .plan => .planFailed

/-- What one run of `tofu` came back with. -/
structure TofuRun where
  returncode : Int
  stdout : String
  stderr : String
  deriving DecidableEq, Repr

def TofuRun.ok (r : TofuRun) : Bool := r.returncode = 0

/-- The detail of a run that failed. -/
def failedDetail (command : Command) (r : TofuRun) : String :=
  "tofu " ++ command.name ++ " failed:\n" ++ r.stdout ++ "\n" ++ r.stderr

/-- The detail of an approval. -/
def approvedDetail (plan : TofuRun) : String :=
  "tofu init + validate + plan all succeeded against a non-production " ++
    "composition:\n" ++ plan.stdout

-- ==== registry

structure PinnedModuleVersion where
  moduleName : String
  version : String
  contentHash : String
  validatedBy : String
  validatedAt : String
  validationDetail : String
  deriving DecidableEq, Repr

structure ModuleVersionRegistry where
  records : Dict String (Dict String PinnedModuleVersion)

namespace ModuleVersionRegistry

def init : ModuleVersionRegistry := ⟨Dict.empty⟩

/-- `promote`. -/
def promote (g : ModuleVersionRegistry) (record : PinnedModuleVersion) :
    ModuleVersionRegistry :=
  ⟨g.records.set record.moduleName
    (((g.records.get record.moduleName).getD Dict.empty).set record.version
      record)⟩

def get (g : ModuleVersionRegistry) (moduleName version : String) :
    Option PinnedModuleVersion :=
  ((g.records.get moduleName).getD Dict.empty).get version

def isPromoted (g : ModuleVersionRegistry) (moduleName version : String) :
    Bool :=
  (g.get moduleName version).isSome

end ModuleVersionRegistry

/-- `PromotionResult`: a denial with its reason, or a record. -/
inductive PromotionResult : Type where
  | denied (candidate : Candidate) (reason : String)
      (denialReason : ValidationDenialReason)
  | approved (candidate : Candidate) (reason : String)
      (record : PinnedModuleVersion)
  deriving DecidableEq, Repr

-- ==== cell definitions

structure CellDefinition where
  tenantId : String
  moduleName : String
  moduleVersion : String
  deriving DecidableEq, Repr

/-- `CellDefinitionResult`; the only denial is that the version is not
promoted. -/
structure CellDefinitionResult where
  approved : Bool
  cell : CellDefinition
  reason : String
  deriving DecidableEq, Repr

/-- `validate_cell_definition`. -/
def validateCellDefinition (cell : CellDefinition)
    (g : ModuleVersionRegistry) : CellDefinitionResult :=
  match g.get cell.moduleName cell.moduleVersion with
  | none =>
    { approved := false
      cell := cell
      reason := "module '" ++ cell.moduleName ++ "' version '" ++
        cell.moduleVersion ++ "' is not a promoted, " ++
        "pinned version in the module-version registry -- a tenant's " ++
        "cell definition must reference an already-validated, " ++
        "explicitly-promoted version, never whatever is newest (spec " ++
        "§14.15)" }
  | some record =>
    { approved := true
      cell := cell
      reason := "module '" ++ cell.moduleName ++ "' version '" ++
        cell.moduleVersion ++ "' is promoted (validated by " ++
        record.validatedBy ++ " at " ++ record.validatedAt ++ ")" }

-- ==== actions

/-- Where a promotion stands: the runs still to come, and the trees that
those before saw; after the last one, its detail. -/
structure Promotion where
  candidate : Candidate
  validatedBy : String
  left : List Command
  seen : List Tree
  detail : String

/-- What a pinned record stands for. -/
structure Evidence where
  validatedOn : List Tree
  hashed : Tree

/-- A promotion that begins. -/
def Promotion.start (candidate : Candidate) (validatedBy : String) :
    Promotion where
  candidate := candidate
  validatedBy := validatedBy
  left := [.init, .validate, .plan]
  seen := []
  detail := ""

structure World where
  dirs : String → Tree
  registry : ModuleVersionRegistry
  promoting : Option Promotion
  results : List PromotionResult
  evidence : Dict (String × String) Evidence
  accepted : List (CellDefinition × Tree)

/-- Nothing is pinned yet. -/
def World.init (dirs : String → Tree) : World where
  dirs := dirs
  registry := .init
  promoting := none
  results := []
  evidence := Dict.empty
  accepted := []

/-- Calls are made one after the other. `tofu` is the next run of the
validation that is going on, `pin` the hash and the record after it. -/
inductive Act : Type where
  | edit (dir : String) (tree : Tree)
  | promote (candidate : Candidate) (validatedBy : String)
  | tofu (r : TofuRun)
  | pin (now : String)
  | validateCell (cell : CellDefinition)
  | die

namespace World

/-- One run of a validation: the directory is what it is now. -/
def runTofu (w : World) (p : Promotion) (command : Command)
    (left : List Command) (r : TofuRun) : World :=
  if r.ok then
    { w with promoting := some { p with
        left := left
        seen := p.seen ++ [w.dirs p.candidate.moduleDir]
        detail := approvedDetail r } }
  else
    { w with
        promoting := none
        results := w.results ++ [.denied p.candidate
          (failedDetail command r) command.denial] }

/-- The tree behind the version that a cell definition names. -/
def refersTo (w : World) (cell : CellDefinition) : Option Tree :=
  (w.evidence.get (cell.moduleName, cell.moduleVersion)).map (·.hashed)

variable (sha256 : List UInt8 → String)

/-- The record of a validated candidate. -/
def pinnedRecord (w : World) (p : Promotion) (now : String) :
    PinnedModuleVersion where
  moduleName := p.candidate.moduleName
  version := p.candidate.version
  contentHash := hashModuleDir sha256 (w.dirs p.candidate.moduleDir)
  validatedBy := p.validatedBy
  validatedAt := now
  validationDetail := p.detail

def pinned (w : World) (p : Promotion) (now : String) : World :=
  { w with
      promoting := none
      registry := w.registry.promote (w.pinnedRecord sha256 p now)
      results := w.results ++
        [.approved p.candidate p.detail (w.pinnedRecord sha256 p now)]
      evidence := w.evidence.set (p.candidate.moduleName, p.candidate.version)
        ⟨p.seen, w.dirs p.candidate.moduleDir⟩ }

/-- One action; nothing where it cannot happen. -/
def step (w : World) : Act → Option World
  | .edit dir tree => some { w with dirs := Function.update w.dirs dir tree }
  | .promote candidate validatedBy =>
    match w.promoting with
    | some _ => none
    | none =>
      match candidate.mainTf with
      | none => some w
      | some _ => some { w with
          promoting := some (.start candidate validatedBy) }
  | .tofu r =>
    match w.promoting with
    | none => none
    | some p =>
      match p.left with
      | [] => none
      | command :: left => some (w.runTofu p command left r)
  | .pin now =>
    match w.promoting with
    | none => none
    | some p =>
      match p.left with
      | [] => some (w.pinned sha256 p now)
      | _ :: _ => none
  | .validateCell cell =>
    if (validateCellDefinition cell w.registry).approved then
      some { w with
        accepted := w.accepted ++ (w.refersTo cell).toList.map (cell, ·) }
    else some w
  | .die => some { w with promoting := none }

/-- A run of actions. -/
def run (w : World) : List Act → Option World
  | [] => some w
  | act :: acts => (w.step sha256 act).bind fun w => run w acts

end World

end SdlcOs.ModuleVersions
