/-
Layer 1, the existing test suite
(verification_pipeline/layers/existing_tests.py), with the reruns of
flaky.py and the reading of local_pytest.py.

# Runs

pytest is a process outside: the same command may end differently each
time, so what a run becomes is given by its number and its targets. The
directory, the interpreter and the other options are the same in every
call. The runs that were made are kept, in order.

# Results

ElementTree is the platform's, so a run comes with the tree it makes of
the results file, if there is one and it is XML.
-/
import SdlcOs.Orchestrator.Checkpoints
import SdlcOs.Verification.CompletionCheck

namespace SdlcOs.Verification.ExistingTests

open Orchestrator (sortedSet)

-- ==== results

/-- An element of the results file. -/
inductive Element : Type where
  | mk (tag : String) (attributes : List (String × String))
      (children : List Element)

namespace Element

def tag : Element → String
  | .mk tag _ _ => tag

def attributes : Element → List (String × String)
  | .mk _ attributes _ => attributes

def children : Element → List Element
  | .mk _ _ children => children

/-- `element.get(key)`. -/
def get (e : Element) (key : String) : Option String :=
  (e.attributes.find? fun a => a.1 = key).map Prod.snd

/-- `element.findall(tag)`. -/
def findall (e : Element) (tag : String) : List Element :=
  e.children.filter fun child => child.tag = tag

/-- `element.find(tag)`. -/
def find (e : Element) (tag : String) : Option Element :=
  e.children.find? fun child => child.tag = tag

end Element

/-- `Outcome`. -/
inductive Outcome : Type where
  | passed
  | failed
  | error
  | skipped
  deriving DecidableEq, Repr

/-- `TestCaseResult`. -/
structure TestCaseResult where
  nodeId : String
  outcome : Outcome
  message : Option String
  deriving DecidableEq, Repr

/-- A case's outcome is in the failing ones. -/
def TestCaseResult.failing (c : TestCaseResult) : Bool :=
  c.outcome = .failed || c.outcome = .error

/-- `classname.replace('.', '/')`. -/
def slashes (classname : String) : String :=
  String.ofList (classname.toList.map fun c => if c = '.' then '/' else c)

/-- The node id `_parse_junit_xml` gives a case. An attribute that is not
there is shown as "None". -/
def nodeId (case : Element) : String :=
  let name := (case.get "name").getD "None"
  match case.get "file" with
  | none => slashes ((case.get "classname").getD "") ++ ".py::" ++ name
  | some file =>
    if file = "" then
      slashes ((case.get "classname").getD "") ++ ".py::" ++ name
    else file ++ "::" ++ name

/-- The body of `_parse_junit_xml`'s loop. -/
def parseCase (case : Element) : TestCaseResult :=
  match case.find "failure", case.find "error", case.find "skipped" with
  | some failure, _, _ => ⟨nodeId case, .failed, failure.get "message"⟩
  | none, some error, _ => ⟨nodeId case, .error, error.get "message"⟩
  | none, none, some skipped => ⟨nodeId case, .skipped, skipped.get "message"⟩
  | none, none, none => ⟨nodeId case, .passed, none⟩

/-- `_parse_junit_xml`, of the tree. -/
def parseJunitXml (root : Element) : List TestCaseResult :=
  let suites := if root.tag = "testsuite" then [root]
    else root.findall "testsuite"
  suites.flatMap fun suite => (suite.findall "testcase").map parseCase

-- ==== runs

/-- What a run leaves where its results were to go. -/
inductive ResultsFile : Type where
  | missing
  | malformed
  | tree (root : Element)

/-- What ends a run of `run_pytest`: the process, or the parser. -/
inductive Exn : Type where
  | subprocess
  | parseError
  deriving DecidableEq, Repr

/-- A process that ended. -/
structure Process where
  returncode : Int
  stdout : String
  stderr : String
  results : ResultsFile

/-- What pytest does on its run of a number, with some targets. -/
abbrev Machine : Type := Nat → List String → Except Exn Process

/-- `PytestRunResult`. -/
structure PytestRunResult where
  total : Nat
  passed : Nat
  failed : Nat
  errored : Nat
  skipped : Nat
  cases : List TestCaseResult
  returncode : Int
  stdout : String

/-- `PytestRunResult.failing_node_ids`. -/
def PytestRunResult.failingNodeIds (r : PytestRunResult) : List String :=
  (r.cases.filter TestCaseResult.failing).map TestCaseResult.nodeId

/-- The cases of a process that ended. -/
def casesOf : ResultsFile → Except Exn (List TestCaseResult)
  | .missing => .ok []
  | .malformed => .error .parseError
  | .tree root => .ok (parseJunitXml root)

/-- How many cases have an outcome. -/
def counted (cases : List TestCaseResult) (outcome : Outcome) : Nat :=
  cases.countP fun c => c.outcome = outcome

/-- What `run_pytest` returns of a process. -/
def resultOf (proc : Process) (cases : List TestCaseResult) :
    PytestRunResult where
  total := cases.length
  passed := counted cases .passed
  failed := counted cases .failed
  errored := counted cases .error
  skipped := counted cases .skipped
  cases := cases
  returncode := proc.returncode
  stdout := proc.stdout ++ proc.stderr

/-- What the run of a number becomes. -/
def pytestAt (machine : Machine) (number : Nat) (targets : List String) :
    Except Exn PytestRunResult :=
  (machine number targets).bind fun proc =>
    (casesOf proc.results).map (resultOf proc)

/-- The runs that were made, with their targets. -/
abbrev Runs : Type := List (List String × PytestRunResult)

/-- `run_pytest`. -/
def runPytest (machine : Machine) (targets : List String) (runs : Runs) :
    Except Exn (PytestRunResult × Runs) :=
  (pytestAt machine runs.length targets).map fun result =>
    (result, runs ++ [(targets, result)])

-- ==== reruns

/-- `FlakyCheckResult`. -/
structure FlakyCheckResult where
  flaky : List String
  genuineFailures : List String
  deriving DecidableEq, Repr

/-- A rerun that counts as passed. -/
def PytestRunResult.clean (r : PytestRunResult) : Bool :=
  0 < r.total && r.failed = 0 && r.errored = 0

/-- `passed_on_rerun`, after the inner loop. -/
def passedOnRerun (machine : Machine) (id : String) :
    Nat → Runs → Except Exn (Bool × Runs)
  | 0, runs => .ok (false, runs)
  | maxReruns + 1, runs =>
    (runPytest machine [id] runs).bind fun (result, runs) =>
      if result.clean then .ok (true, runs)
      else passedOnRerun machine id maxReruns runs

/-- A test put where its reruns say. -/
def FlakyCheckResult.add (check : FlakyCheckResult) (id : String)
    (passed : Bool) : FlakyCheckResult :=
  if passed then { check with flaky := check.flaky ++ [id] }
  else { check with genuineFailures := check.genuineFailures ++ [id] }

/-- The loop of `rerun_failures_and_classify`. -/
def rerunFailures (machine : Machine) (maxReruns : Nat) :
    List String → FlakyCheckResult → Runs →
      Except Exn (FlakyCheckResult × Runs)
  | [], check, runs => .ok (check, runs)
  | id :: ids, check, runs =>
    (passedOnRerun machine id maxReruns runs).bind fun (passed, runs) =>
      rerunFailures machine maxReruns ids (check.add id passed) runs

/-- `rerun_failures_and_classify`. -/
def rerunFailuresAndClassify (machine : Machine) (failing : List String)
    (maxReruns : Nat) (runs : Runs) : Except Exn (FlakyCheckResult × Runs) :=
  rerunFailures machine maxReruns failing ⟨[], []⟩ runs

-- ==== the audit

/-- `CIClient`, as far as the layer asks it: a call raises with a text or
has a payload, and so does what is looked up in one. -/
structure CIClient (π : Type) where
  triggerRun (tenantId repository ref : String) (scope : List String) :
    Except String π
  /-- `payload.get("outcome")`. -/
  outcome : π → Except String (Option String)
  /-- `payload["data"]["run_id"]`. -/
  runId : π → Except String String
  getRunStatusResult (tenantId repository runId : String) : Except String π

/-- `ci_audit`. -/
structure CiAudit (π : Type) where
  triggerRun : Option π
  getRunStatusResult : Option π
  error : Option String

/-- The audit's second call. -/
def auditStatus {π : Type} (client : CIClient π) (tenantId repository :
    String) (triggered : π) : Except String (Option π) :=
  (client.outcome triggered).bind fun outcome =>
    if outcome = some "ok" then
      (client.runId triggered).bind fun runId =>
        (client.getRunStatusResult tenantId repository runId).map some
    else .ok none

/-- What the `try` leaves in `ci_audit`. -/
def audit {π : Type} (client : CIClient π) (tenantId repository : String)
    (scope : List String) : CiAudit π :=
  match client.triggerRun tenantId repository "verification-pipeline/d7"
    scope with
  | .error e => ⟨none, none, some e⟩
  | .ok triggered =>
    match auditStatus client tenantId repository triggered with
    | .error e => ⟨some triggered, none, some e⟩
    | .ok status => ⟨some triggered, status, none⟩

-- ==== the layer

/-- The summaries. -/
inductive Summary : Type where
  /-- "pytest did not complete a real test run (exit code {returncode},
  {total} test case(s) collected) -- treated as a failure, not a vacuous
  pass. Real pytest output:\n" and the last 2000 characters. -/
  | notCompleted (returncode : Int) (total : Nat) (output : String)
  /-- "{passed}/{total} existing tests passed for the affected scope." -/
  | passed (passed total : Nat)
  /-- "{len(new_failures)} test(s) newly failing in the affected scope:
  {new_failures}." -/
  | newlyFailing (newFailures : List String)
  /-- "No new failures; {len(pre_existing)} pre-existing failure(s)
  unrelated to this change flagged (not papered over): {pre_existing}." -/
  | preExisting (preExisting : List String)
  /-- "{len(flaky_check.flaky)} flaky test(s) detected and reported
  separately from a regression." -/
  | flaky (number : Nat)
  deriving DecidableEq, Repr

/-- The details. -/
inductive Details (π : Type) : Type where
  | notCompleted (ciAudit : CiAudit π) (total passed : Nat)
      (returncode : Int)
  | passed (ciAudit : CiAudit π) (total passed : Nat)
  | rerun (ciAudit : CiAudit π) (total passed : Nat)
      (flakyTests preExistingFailures newFailures : List String)

/-- `text[-n:]`. -/
def lastChars (n : Nat) (text : String) : String :=
  String.ofList (text.toList.drop (text.length - n))

variable {π : Type}

/-- What the layer returns after the reruns. -/
def classified (ciAudit : CiAudit π) (run : PytestRunResult)
    (known : List String) (check : FlakyCheckResult) :
    Result Summary (Details π) :=
  let newFailures :=
    sortedSet (check.genuineFailures.filter fun id => id ∉ known)
  let preExisting :=
    sortedSet (check.genuineFailures.filter fun id => id ∈ known)
  let details := Details.rerun ciAudit run.total run.passed
    (check.flaky.insertionSort fun a b => a ≤ b) preExisting newFailures
  if newFailures ≠ [] then
    ⟨"existing_test_suite", .fail, .newlyFailing newFailures, details⟩
  else if preExisting ≠ [] then
    ⟨"existing_test_suite", .flaggedPass, .preExisting preExisting, details⟩
  else
    ⟨"existing_test_suite", .flaggedPass, .flaky check.flaky.length, details⟩

/-- The layer once pytest has run. -/
def interpret (machine : Machine) (ciAudit : CiAudit π)
    (known : List String) (run : PytestRunResult) (runs : Runs) :
    Except Exn (Result Summary (Details π) × Runs) :=
  if run.returncode ≠ 0 ∧ run.returncode ≠ 1 then
    .ok (⟨"existing_test_suite", .fail,
      .notCompleted run.returncode run.total (lastChars 2000 run.stdout),
      .notCompleted ciAudit run.total run.passed run.returncode⟩, runs)
  else if run.failingNodeIds = [] then
    .ok (⟨"existing_test_suite", .pass, .passed run.passed run.total,
      .passed ciAudit run.total run.passed⟩, runs)
  else
    (rerunFailuresAndClassify machine run.failingNodeIds 1 runs).map
      fun (check, runs) => (classified ciAudit run known check, runs)

/-- `run_existing_test_suite_layer`. -/
def runExistingTestSuiteLayer (machine : Machine) (client : CIClient π)
    (scopePaths known : List String) (tenantId repositoryName : String) :
    Except Exn (Result Summary (Details π) × Runs) :=
  let ciAudit := audit client tenantId repositoryName scopePaths
  (runPytest machine scopePaths []).bind fun (run, runs) =>
    interpret machine ciAudit known run runs

end SdlcOs.Verification.ExistingTests
