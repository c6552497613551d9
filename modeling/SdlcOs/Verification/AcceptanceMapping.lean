/-
Layer 2, the tests mapped to the acceptance criteria
(verification_pipeline/layers/acceptance_mapping.py), with the reading of
the plan artifact in plan_artifact.py.

# The plan

A plan has passed `validate_plan_artifact`, so what its schema asks of
the criteria and of the map is part of it; nothing else of a plan is read
here. The map may name a criterion in many entries, or one that is none.

# Sets

The criteria that cross a boundary are a set of texts, and a set is gone
through in an order of its own (`SetOrder`).
-/
import SdlcOs.Verification.ExistingTests

namespace SdlcOs.Verification.AcceptanceMapping

open Data (Dict)
open ExistingTests
open Orchestrator (sortedSet)

-- ==== the plan

/-- One of `acceptance_criteria`. -/
structure Criterion where
  id : String
  description : String
  named : id ≠ ""
  described : description ≠ ""

/-- One of `acceptance_criteria_verification_map`. -/
structure MapEntry where
  criterionId : String
  testIds : List String
  crossesModuleBoundary : Option Bool
  named : criterionId ≠ ""
  tested : testIds ≠ []
  testsNamed : ∀ id ∈ testIds, id ≠ ""

/-- A plan artifact, as far as the layer reads it. -/
structure Plan where
  acceptanceCriteria : List Criterion
  verificationMap : List MapEntry
  criteria : acceptanceCriteria ≠ []

/-- The order in which the set of some texts is gone through. -/
structure SetOrder where
  iterate : List String → List String
  perm : ∀ l, (iterate l).Perm l.dedup

/-- `mapped`. -/
def mapped (plan : Plan) : Dict String (List String) :=
  plan.verificationMap.foldl
    (fun d entry => d.extend entry.criterionId entry.testIds) .empty

/-- `criteria_missing_tests`. -/
def criteriaMissingTests (plan : Plan) : List String :=
  (plan.acceptanceCriteria.map Criterion.id).filter fun cid =>
    (mapped plan).listOf cid = []

/-- The ids `criteria_requiring_integration_tests` makes a set of. -/
def crossing (plan : Plan) : List String :=
  (plan.verificationMap.filter fun entry =>
    entry.crossesModuleBoundary = some true).map MapEntry.criterionId

/-- `criteria_requiring_integration_tests`. -/
def criteriaRequiringIntegrationTests (order : SetOrder) (plan : Plan) :
    List String :=
  order.iterate (crossing plan)

-- ==== the layer

/-- The summaries. -/
inductive Summary : Type where
  /-- "{len(missing)} acceptance criterion/criteria have zero mapped tests:
  {missing}." -/
  | zeroMapped (number : Nat) (missing : List String)
  /-- "mapped tests not all green: never_collected={never_collected},
  failed_or_error={not_passed},
  missing_integration_test={missing_integration}." -/
  | notAllGreen (neverCollected notPassed missingIntegration : List String)
  /-- "All {len(acceptance_criteria)} acceptance criteria trace to at least
  one passing test." -/
  | allTrace (number : Nat)
  deriving DecidableEq, Repr

/-- The details. -/
inductive Details : Type where
  | missingCriteria (missing : List String)
  | notAllGreen (neverCollected notPassed missingIntegration : List String)
  | mappedTestIds (ids : List String)
  deriving DecidableEq, Repr

/-- `all_test_ids`. -/
def allTestIds (plan : Plan) : List String :=
  plan.verificationMap.flatMap MapEntry.testIds

/-- `not_passed`. -/
def notPassed (run : PytestRunResult) : List String :=
  (run.cases.filter fun c => c.outcome ≠ .passed).map TestCaseResult.nodeId

/-- `never_collected`. -/
def neverCollected (plan : Plan) (run : PytestRunResult) : List String :=
  sortedSet ((allTestIds plan).filter fun id =>
    id ∉ run.cases.map TestCaseResult.nodeId)

/-- `mapped_by_criterion`. -/
def mappedByCriterion (plan : Plan) : Dict String (List String) :=
  .ofEntries (plan.verificationMap.map fun entry =>
    (entry.criterionId, entry.testIds))

/-- `missing_integration`. -/
def missingIntegration (order : SetOrder) (plan : Plan)
    (integrationTestIds : List String) : List String :=
  (criteriaRequiringIntegrationTests order plan).filter fun cid =>
    (((mappedByCriterion plan).get cid).getD []).all fun id =>
      id ∉ integrationTestIds

/-- The layer once pytest has run. -/
def judged (order : SetOrder) (plan : Plan)
    (integrationTestIds : List String) (run : PytestRunResult) :
    Result Summary Details :=
  let neverCollected := neverCollected plan run
  let notPassed := notPassed run
  let missingIntegration := missingIntegration order plan integrationTestIds
  if neverCollected ≠ [] ∨ notPassed ≠ [] ∨ missingIntegration ≠ [] then
    ⟨"acceptance_criteria_mapping", .fail,
      .notAllGreen neverCollected notPassed missingIntegration,
      .notAllGreen neverCollected notPassed missingIntegration⟩
  else
    ⟨"acceptance_criteria_mapping", .pass,
      .allTrace plan.acceptanceCriteria.length,
      .mappedTestIds (sortedSet (allTestIds plan))⟩

/-- `run_acceptance_criteria_mapping_layer`. -/
def runAcceptanceCriteriaMappingLayer (order : SetOrder) (machine : Machine)
    (plan : Plan) (integrationTestIds : Option (List String)) (runs : Runs) :
    Except Exn (Result Summary Details × Runs) :=
  let missing := criteriaMissingTests plan
  if missing ≠ [] then
    .ok (⟨"acceptance_criteria_mapping", .fail,
      .zeroMapped missing.length missing, .missingCriteria missing⟩, runs)
  else
    (runPytest machine (sortedSet (allTestIds plan)) runs).map
      fun (run, runs) =>
        (judged order plan (integrationTestIds.getD []) run, runs)

end SdlcOs.Verification.AcceptanceMapping
