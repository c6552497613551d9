/-
Platform releases and rollbacks.

# The history

A release is one `tofu apply` of a platform version, appended to its
environment's history when it succeeded. A rollback is the same apply,
with the versions of the record before the last one, and a success is
appended like any other release. The history is append-only: nothing
marks a record as rolled back from, and `previous` looks at positions
alone.

# The outside

What `tofu`, the manifest and the two files make of a call is the
outside's part in it (`Outside`): a run of `tofu` comes back with a return
code or raises (there is no such program, or it takes too long), a manifest
may be no JSON, and what is appended to the history or to the audit log is
kept before it is written, which may raise. What is left of a run that
fails half way is not known here: `applies` lists the runs of `apply` that
came back with 0, and nothing says what the composition looks like after
another. The model is of one history as it is open.
-/
import SdlcOs.Data.Dict
import SdlcOs.Json.Text

namespace SdlcOs.Release

open Data

-- ==== the outside

/-- What a call raises: `NoPriorReleaseError`, `ReleaseBlockedError`, or
what comes from outside, by its type. -/
inductive Err : Type where
  | noPriorRelease (environment : String)
  | releaseBlocked (releaseId : String) (failed : List String)
  | outside (type : String)
  deriving DecidableEq, Repr

/-- The outside's part in one call. -/
structure Outside where
  /-- What writing the call's first, second and last audit event comes
  to. -/
  logged : Except Err Unit := .ok ()
  reportLogged : Except Err Unit := .ok ()
  completionLogged : Except Err Unit := .ok ()
  /-- The return codes of `tofu init` and `tofu apply`. -/
  init : Except Err Int := .ok 0
  apply : Except Err Int := .ok 0
  /-- The manifest that is found afterwards, if there is one. -/
  manifest : Except Err (Option String) := .ok none
  /-- What writing the history comes to. -/
  persisted : Except Err Unit := .ok ()

-- ==== tofu

/-- What one run of `tofu` came back with. -/
structure TofuResult where
  args : List String
  returncode : Int
  deriving DecidableEq, Repr

def TofuResult.ok (r : TofuResult) : Bool := r.returncode = 0

/-- The variables an apply is given. -/
structure Vars where
  environment : String
  platformVersion : String
  releaseId : String
  componentVersions : List (String × String)
  rolledBackFrom : Option String
  deriving DecidableEq, Repr

/-- `json.dumps` of a string. -/
def quoted (s : String) : String := String.ofList (Json.strText s)

/-- `_tf_map_literal`. -/
def tfMapLiteral (value : List (String × String)) : String :=
  "\x7b" ++ String.intercalate ", "
    (value.map fun e => quoted e.1 ++ " = " ++ quoted e.2) ++ "\x7d"

/-- The `-var` arguments; an empty map and a missing version are left
out. -/
def Vars.args (v : Vars) : List String :=
  ["-var", "environment=" ++ v.environment,
    "-var", "platform_version=" ++ v.platformVersion,
    "-var", "release_id=" ++ v.releaseId] ++
  (if v.componentVersions ≠ [] then
    ["-var", "component_versions=" ++ tfMapLiteral v.componentVersions]
  else []) ++
  match v.rolledBackFrom with
  | some version => ["-var", "rolled_back_from=" ++ version]
  | none => []

structure ApplyOutcome where
  approved : Bool
  tofuResult : TofuResult
  manifest : Option String
  deriving DecidableEq, Repr

-- ==== history

structure ReleaseRecord where
  releaseId : String
  environment : String
  platformVersion : String
  componentVersions : List (String × String)
  appliedAt : String
  rolledBackFrom : Option String := none
  deriving DecidableEq, Repr

/-- What a record pins. -/
def ReleaseRecord.versions (r : ReleaseRecord) :
    String × List (String × String) :=
  (r.platformVersion, r.componentVersions)

/-- The record of an apply. -/
def Vars.record (v : Vars) (appliedAt : String) : ReleaseRecord where
  releaseId := v.releaseId
  environment := v.environment
  platformVersion := v.platformVersion
  componentVersions := v.componentVersions
  appliedAt := appliedAt
  rolledBackFrom := v.rolledBackFrom

/-- What an apply deploys. -/
def Vars.versions (v : Vars) : String × List (String × String) :=
  (v.platformVersion, v.componentVersions)

structure ReleaseHistory where
  byEnv : Dict String (List ReleaseRecord)

namespace ReleaseHistory

def init : ReleaseHistory := ⟨Dict.empty⟩

def history (h : ReleaseHistory) (environment : String) :
    List ReleaseRecord :=
  (h.byEnv.get environment).getD []

def append (h : ReleaseHistory) (record : ReleaseRecord) : ReleaseHistory :=
  ⟨h.byEnv.set record.environment (h.history record.environment ++ [record])⟩

/-- `hist[-1]`. -/
def current (h : ReleaseHistory) (environment : String) :
    Option ReleaseRecord :=
  (h.history environment).getLast?

/-- `hist[-2]`: what was applied immediately before the current one. -/
def previous (h : ReleaseHistory) (environment : String) :
    Option ReleaseRecord :=
  (h.history environment).dropLast.getLast?

@[simp] theorem history_append_self (h : ReleaseHistory)
    (record : ReleaseRecord) : (h.append record).history record.environment =
      h.history record.environment ++ [record] := by
  simp [append, history]

theorem history_append_ne (h : ReleaseHistory) {record : ReleaseRecord}
    {environment : String} (hne : environment ≠ record.environment) :
    (h.append record).history environment = h.history environment := by
  unfold append history
  rw [Dict.get_set_ne _ hne]

theorem last_two {h : ReleaseHistory} {environment : String}
    {pre : List ReleaseRecord} {x y : ReleaseRecord}
    (hist : h.history environment = pre ++ [x, y]) :
    h.previous environment = some x ∧ h.current environment = some y := by
  unfold previous current
  rw [hist]
  constructor
  · rw [List.dropLast_append_of_ne_nil (by simp)]
    simp
  · simp

end ReleaseHistory

-- ==== audit

/-- `CIReport`, as far as a release looks at it. -/
structure CIReport where
  failed : List String
  deriving DecidableEq, Repr

def CIReport.allPassed (r : CIReport) : Bool := r.failed = []

/-- The audit events of releases and rollbacks, with their details. -/
inductive AuditEvent : Type where
  | releaseStarted (environment platformVersion releaseId : String)
      (componentVersions : List (String × String))
  | releaseCiReport (releaseId : String) (report : CIReport)
  | rollbackStarted (environment releaseId : String)
  | rollbackCompleted (environment releaseId : String) (approved : Bool)
      (manifest : Option String)
  deriving DecidableEq, Repr

-- ==== operations

/-- The history, the audit log and the runs of `tofu apply` that came back
with 0, latest last. -/
structure World where
  history : ReleaseHistory
  audit : List AuditEvent
  applies : List Vars

namespace World

def init : World := ⟨.init, [], []⟩

/-- `AuditLog.record`: an event is kept, and then written. -/
def record (w : World) (e : AuditEvent) (written : Except Err Unit) :
    World × Except Err Unit :=
  ({ w with audit := w.audit ++ [e] }, written)

/-- `ReleaseHistory.append`: a record is kept, and then written. -/
def append (w : World) (r : ReleaseRecord) (written : Except Err Unit) :
    World × Except Err Unit :=
  ({ w with history := w.history.append r }, written)

/-- The runs for an environment. -/
def appliesTo (w : World) (environment : String) : List Vars :=
  w.applies.filter (·.environment = environment)

/-- `apply_platform_version`. -/
def applyPlatformVersion (w : World) (v : Vars) (o : Outside) :
    World × Except Err ApplyOutcome :=
  match o.init with
  | .error e => (w, .error e)
  | .ok code =>
    let initResult : TofuResult :=
      ⟨["init", "-input=false", "-no-color"], code⟩
    if initResult.ok = false then
      (w, .ok ⟨false, initResult, none⟩)
    else
      match o.apply with
      | .error e => (w, .error e)
      | .ok code =>
        let result : TofuResult :=
          ⟨["apply", "-input=false", "-auto-approve", "-no-color"] ++
            v.args, code⟩
        if result.ok = false then (w, .ok ⟨result.ok, result, none⟩)
        else
          ({ w with applies := w.applies ++ [v] },
            o.manifest.map fun manifest =>
              ⟨result.ok, result, manifest⟩)

/-- An apply and, when it is approved, its record: what `release` and
`rollback_to_previous` have in common. -/
def applied (w : World) (v : Vars) (now : String) (o : Outside) :
    World × Except Err ApplyOutcome :=
  match w.applyPlatformVersion v o with
  | (w, .error e) => (w, .error e)
  | (w, .ok outcome) =>
    if outcome.approved then
      match w.append (v.record now) o.persisted with
      | (w, .error e) => (w, .error e)
      | (w, .ok ()) => (w, .ok outcome)
    else (w, .ok outcome)

/-- `release`. -/
def release (w : World) (environment platformVersion releaseId : String)
    (componentVersions : List (String × String)) (now : String)
    (o : Outside) : World × Except Err ApplyOutcome :=
  w.applied { environment := environment, platformVersion := platformVersion
              releaseId := releaseId, componentVersions := componentVersions
              rolledBackFrom := none } now o

/-- `rollback_to_previous`. -/
def rollbackToPrevious (w : World) (environment releaseId : String)
    (now : String) (o : Outside) : World × Except Err ApplyOutcome :=
  let current := w.history.current environment
  match w.history.previous environment with
  | none => (w, .error (.noPriorRelease environment))
  | some prior =>
    w.applied
      { environment := environment
        platformVersion := prior.platformVersion, releaseId := releaseId
        componentVersions := prior.componentVersions
        rolledBackFrom := current.map (·.platformVersion) } now o

/-- `ReleaseManager.start_release`. -/
def startRelease (w : World) (environment platformVersion releaseId : String)
    (componentVersions : List (String × String))
    (ciReport : Option CIReport) (now : String) (o : Outside) :
    World × Except Err ApplyOutcome :=
  match w.record (.releaseStarted environment platformVersion releaseId
      componentVersions) o.logged with
  | (w, .error e) => (w, .error e)
  | (w, .ok ()) =>
    match ciReport with
    | none => w.release environment platformVersion releaseId
        componentVersions now o
    | some report =>
      match w.record (.releaseCiReport releaseId report)
          o.reportLogged with
      | (w, .error e) => (w, .error e)
      | (w, .ok ()) =>
        if report.allPassed then
          w.release environment platformVersion releaseId
            componentVersions now o
        else (w, .error (.releaseBlocked releaseId report.failed))

/-- `ReleaseManager.rollback`. -/
def rollback (w : World) (environment releaseId : String) (now : String)
    (o : Outside) : World × Except Err ApplyOutcome :=
  match w.record (.rollbackStarted environment releaseId) o.logged with
  | (w, .error e) => (w, .error e)
  | (w, .ok ()) =>
    match w.rollbackToPrevious environment releaseId now o with
    | (w, .error e) => (w, .error e)
    | (w, .ok outcome) =>
      match w.record (.rollbackCompleted environment releaseId
          outcome.approved outcome.manifest) o.completionLogged with
      | (w, .error e) => (w, .error e)
      | (w, .ok ()) => (w, .ok outcome)

end World

/-- The manager's calls. -/
inductive Call : Type where
  | startRelease (environment platformVersion releaseId : String)
      (componentVersions : List (String × String))
      (ciReport : Option CIReport)
  | rollback (environment releaseId : String)
  deriving DecidableEq, Repr

def Call.environment : Call → String
  | .startRelease environment .. => environment
  | .rollback environment _ => environment

def Call.isRollback : Call → Bool
  | .startRelease .. => false
  | .rollback .. => true

/-- A call, the time it is made at and the outside's part in it. -/
structure Turn where
  call : Call
  now : String
  outside : Outside := {}

namespace World

def call (w : World) (turn : Turn) : World × Except Err ApplyOutcome :=
  match turn.call with
  | .startRelease environment platformVersion releaseId componentVersions
      ciReport =>
      w.startRelease environment platformVersion releaseId componentVersions
        ciReport turn.now turn.outside
  | .rollback environment releaseId =>
    w.rollback environment releaseId turn.now turn.outside

def run (w : World) (turns : List Turn) : World :=
  turns.foldl (fun w turn => (w.call turn).1) w

end World

end SdlcOs.Release
