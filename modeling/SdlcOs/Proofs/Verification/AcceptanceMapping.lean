/-
What the second layer makes of a plan.

# What is promised

The layer passes when every criterion has a test, every mapped test was
reported and only as passed, and every criterion that crosses a boundary
has an integration test among all that are mapped to it (`Green`). It
fails otherwise.

# Where it is kept

The tests of a criterion are gathered from all of its entries to see
whether there are any, and from the last of them alone to see whether one
is an integration test. So a green plan fails where a crossing criterion
has its integration tests in earlier entries only. Nothing else goes wrong
(`exact_iff_lastCovers`).
-/
import SdlcOs.Verification.AcceptanceMapping

namespace SdlcOs.Verification.AcceptanceMapping

open Data (Dict)
open ExistingTests
open Orchestrator (sortedSet mem_sortedSet)

-- ==== the promise

/-- A test is mapped to a criterion, in any of its entries. -/
def Maps (plan : Plan) (cid id : String) : Prop :=
  ∃ entry ∈ plan.verificationMap,
    entry.criterionId = cid ∧ id ∈ entry.testIds

/-- A criterion has an entry that crosses a boundary. -/
def Crosses (plan : Plan) (cid : String) : Prop :=
  ∃ entry ∈ plan.verificationMap,
    entry.crossesModuleBoundary = some true ∧ entry.criterionId = cid

/-- What makes a plan pass. -/
structure Green (plan : Plan) (integrationTestIds : List String)
    (run : PytestRunResult) : Prop where
  /-- Every criterion has a test. -/
  traced : ∀ c ∈ plan.acceptanceCriteria, ∃ id, Maps plan c.id id
  /-- Every test was reported. -/
  reported : ∀ cid id, Maps plan cid id → ∃ c ∈ run.cases, c.nodeId = id
  /-- No report of one is other than passed. -/
  passed : ∀ cid id, Maps plan cid id →
    ∀ c ∈ run.cases, c.nodeId = id → c.outcome = .passed
  /-- Every criterion that crosses a boundary has an integration test. -/
  integrated : ∀ cid, Crosses plan cid →
    ∃ id ∈ integrationTestIds, Maps plan cid id

/-- The layer passes for what is green and fails for what is not. -/
def Exact (order : SetOrder) (machine : Machine) (plan : Plan)
    (integrationTestIds : Option (List String)) (runs : Runs)
    (run : PytestRunResult) : Prop :=
  ∃ result after,
    runAcceptanceCriteriaMappingLayer order machine plan integrationTestIds
      runs = .ok (result, after) ∧
    (result.status = .pass ↔ Green plan (integrationTestIds.getD []) run) ∧
    (¬ Green plan (integrationTestIds.getD []) run → result.status = .fail)

/-- The last entry of a criterion. -/
def lastEntry (plan : Plan) (cid : String) : Option MapEntry :=
  plan.verificationMap.reverse.find? fun entry => entry.criterionId = cid

/-- The last entry of every criterion that crosses a boundary has an
integration test. -/
def LastCovers (plan : Plan) (integrationTestIds : List String) : Prop :=
  ∀ cid entry, Crosses plan cid → lastEntry plan cid = some entry →
    ∃ id ∈ entry.testIds, id ∈ integrationTestIds

section Folds

variable {plan : Plan} {run : PytestRunResult}

-- ==== the three folds

theorem mem_mapped {cid id : String} :
    id ∈ (mapped plan).listOf cid ↔ Maps plan cid id := by
  unfold mapped
  rw [Dict.mem_foldl_extend]
  refine or_iff_right ?_
  unfold Dict.listOf
  rw [Dict.get_empty]
  exact List.not_mem_nil

theorem criteriaMissingTests_nil : criteriaMissingTests plan = [] ↔
    ∀ c ∈ plan.acceptanceCriteria, ∃ id, Maps plan c.id id := by
  unfold criteriaMissingTests
  rw [List.filter_eq_nil_iff, List.forall_mem_map]
  refine forall₂_congr fun c _ => ?_
  rw [decide_eq_true_eq, List.eq_nil_iff_forall_not_mem, not_forall_not]
  exact exists_congr fun id => mem_mapped

theorem mem_allTestIds {id : String} :
    id ∈ allTestIds plan ↔ ∃ cid, Maps plan cid id := by
  unfold allTestIds Maps
  rw [List.mem_flatMap]
  constructor
  · rintro ⟨entry, hentry, hid⟩
    exact ⟨entry.criterionId, entry, hentry, rfl, hid⟩
  · rintro ⟨_, entry, hentry, -, hid⟩
    exact ⟨entry, hentry, hid⟩

theorem mem_crossing {order : SetOrder} {cid : String} :
    cid ∈ criteriaRequiringIntegrationTests order plan ↔
      Crosses plan cid := by
  unfold criteriaRequiringIntegrationTests crossing Crosses
  rw [(order.perm _).mem_iff, List.mem_dedup, List.mem_map]
  refine exists_congr fun entry => ?_
  rw [List.mem_filter, decide_eq_true_eq, and_assoc]

theorem get_mappedByCriterion (cid : String) :
    (mappedByCriterion plan).get cid =
      (lastEntry plan cid).map MapEntry.testIds := by
  unfold mappedByCriterion lastEntry
  rw [Dict.get_ofEntries, ← List.map_reverse, List.find?_map,
    Option.map_map]
  rfl

theorem lastEntry_isSome {cid : String} (h : Crosses plan cid) :
    ∃ entry, lastEntry plan cid = some entry := by
  obtain ⟨entry, hentry, -, hcid⟩ := h
  refine Option.isSome_iff_exists.1 (List.find?_isSome.2 ⟨entry, ?_, ?_⟩)
  · exact List.mem_reverse.2 hentry
  · exact decide_eq_true hcid

theorem lastEntry_maps {cid : String} {entry : MapEntry}
    (h : lastEntry plan cid = some entry) :
    entry ∈ plan.verificationMap ∧ entry.criterionId = cid := by
  unfold lastEntry at h
  have hcid := List.find?_some h
  exact ⟨List.mem_reverse.1 (List.mem_of_find?_eq_some h),
    of_decide_eq_true hcid⟩

theorem missingIntegration_nil (order : SetOrder)
    {integrationTestIds : List String} :
    missingIntegration order plan integrationTestIds = [] ↔
      LastCovers plan integrationTestIds := by
  unfold missingIntegration LastCovers
  rw [List.filter_eq_nil_iff]
  constructor
  · intro h cid entry hcross hlast
    have hcid := h cid (mem_crossing.2 hcross)
    rw [get_mappedByCriterion, hlast, List.all_eq_true] at hcid
    by_contra hnone
    refine hcid fun id hid => decide_eq_true fun hin => ?_
    exact hnone ⟨id, hid, hin⟩
  · intro h cid hcid hall
    have hcross := mem_crossing.1 hcid
    obtain ⟨entry, hlast⟩ := lastEntry_isSome hcross
    obtain ⟨id, hid, hin⟩ := h cid entry hcross hlast
    rw [get_mappedByCriterion, hlast, List.all_eq_true] at hall
    exact of_decide_eq_true (hall id hid) hin

-- ==== the join

theorem neverCollected_nil : neverCollected plan run = [] ↔
    ∀ cid id, Maps plan cid id → ∃ c ∈ run.cases, c.nodeId = id := by
  unfold neverCollected
  rw [List.eq_nil_iff_forall_not_mem]
  constructor
  · intro h cid id hmaps
    by_contra hnone
    refine h id (mem_sortedSet.2 (List.mem_filter.2 ⟨?_, ?_⟩))
    · exact mem_allTestIds.2 ⟨cid, hmaps⟩
    · exact decide_eq_true fun hmem => hnone (List.mem_map.1 hmem)
  · intro h id hid
    obtain ⟨hall, hnot⟩ := List.mem_filter.1 (mem_sortedSet.1 hid)
    obtain ⟨cid, hmaps⟩ := mem_allTestIds.1 hall
    exact of_decide_eq_true hnot (List.mem_map.2 (h cid id hmaps))

theorem notPassed_nil
    (hids : ∀ c ∈ run.cases, c.nodeId ∈ sortedSet (allTestIds plan)) :
    notPassed run = [] ↔ ∀ cid id, Maps plan cid id →
      ∀ c ∈ run.cases, c.nodeId = id → c.outcome = .passed := by
  unfold notPassed
  rw [List.map_eq_nil_iff, List.filter_eq_nil_iff]
  constructor
  · intro h cid id _ c hc _
    by_contra hne
    exact h c hc (decide_eq_true hne)
  · intro h c hc hne
    obtain ⟨cid, hmaps⟩ := mem_allTestIds.1 (mem_sortedSet.1 (hids c hc))
    exact of_decide_eq_true hne (h cid c.nodeId hmaps c hc rfl)

end Folds

-- ==== the layer

section Layer

variable {order : SetOrder} {plan : Plan} {run : PytestRunResult}
variable {integrationTestIds : List String}

theorem judged_pass :
    (judged order plan integrationTestIds run).status = .pass ↔
      neverCollected plan run = [] ∧ notPassed run = [] ∧
        missingIntegration order plan integrationTestIds = [] := by
  unfold judged
  simp only [ne_eq, ← not_and_or]
  rw [ite_not]
  split
  · next hall => exact ⟨fun _ => hall, fun _ => rfl⟩
  · next hnot => exact ⟨fun h => (by cases h), fun hall => (hnot hall).elim⟩

theorem judged_pass_or_fail :
    (judged order plan integrationTestIds run).status = .pass ∨
      (judged order plan integrationTestIds run).status = .fail := by
  unfold judged
  simp only
  split
  · exact Or.inr rfl
  · exact Or.inl rfl

theorem integrated_of_lastCovers (h : LastCovers plan integrationTestIds) :
    ∀ cid, Crosses plan cid → ∃ id ∈ integrationTestIds, Maps plan cid id := by
  intro cid hcross
  obtain ⟨entry, hlast⟩ := lastEntry_isSome hcross
  obtain ⟨id, hid, hin⟩ := h cid entry hcross hlast
  obtain ⟨hentry, hcid⟩ := lastEntry_maps hlast
  exact ⟨id, hin, entry, hentry, hcid, hid⟩

theorem layer_status (order : SetOrder) {machine : Machine} (runs : Runs)
    (ids : Option (List String))
    (hrun : pytestAt machine runs.length (sortedSet (allTestIds plan)) =
      .ok run)
    (hids : ∀ c ∈ run.cases, c.nodeId ∈ sortedSet (allTestIds plan)) :
    ∃ result after,
      runAcceptanceCriteriaMappingLayer order machine plan ids runs =
        .ok (result, after) ∧
      (result.status = .pass ↔
        Green plan (ids.getD []) run ∧ LastCovers plan (ids.getD [])) ∧
      (result.status = .pass ∨ result.status = .fail) := by
  by_cases hmissing : criteriaMissingTests plan = []
  · have hlayer : runAcceptanceCriteriaMappingLayer order machine plan ids
        runs = .ok (judged order plan (ids.getD []) run,
          runs ++ [(sortedSet (allTestIds plan), run)]) := by
      unfold runAcceptanceCriteriaMappingLayer runPytest
      rw [if_neg (not_not.2 hmissing), hrun]
      rfl
    refine ⟨_, _, hlayer, ?_, judged_pass_or_fail⟩
    rw [judged_pass, neverCollected_nil, notPassed_nil hids,
      missingIntegration_nil]
    constructor
    · rintro ⟨hreported, hpassed, hlast⟩
      exact ⟨⟨criteriaMissingTests_nil.1 hmissing, hreported, hpassed,
        integrated_of_lastCovers hlast⟩, hlast⟩
    · rintro ⟨hgreen, hlast⟩
      exact ⟨hgreen.reported, hgreen.passed, hlast⟩
  · have hlayer : ∃ result, runAcceptanceCriteriaMappingLayer order machine
        plan ids runs = .ok (result, runs) ∧ result.status = .fail := by
      unfold runAcceptanceCriteriaMappingLayer
      rw [if_pos hmissing]
      exact ⟨_, rfl, rfl⟩
    obtain ⟨result, hlayer, hfail⟩ := hlayer
    refine ⟨result, runs, hlayer, ?_, Or.inr hfail⟩
    rw [hfail]
    constructor
    · intro h
      cases h
    · rintro ⟨hgreen, -⟩
      exact absurd (criteriaMissingTests_nil.2 hgreen.traced) hmissing

end Layer

/-- Of a run that reports only mapped tests the layer is right, whatever
the plan, exactly when the plan is not green or every criterion that
crosses a boundary has an integration test in its last entry. -/
theorem exact_iff_lastCovers (order : SetOrder) (machine : Machine)
    (plan : Plan) (integrationTestIds : Option (List String)) (runs : Runs)
    (run : PytestRunResult)
    (hrun : pytestAt machine runs.length (sortedSet (allTestIds plan)) =
      .ok run)
    (hids : ∀ c ∈ run.cases, c.nodeId ∈ sortedSet (allTestIds plan)) :
    Exact order machine plan integrationTestIds runs run ↔
      (Green plan (integrationTestIds.getD []) run →
        LastCovers plan (integrationTestIds.getD [])) := by
  obtain ⟨result, after, hlayer, hpass, hstatus⟩ :=
    layer_status order runs integrationTestIds hrun hids
  constructor
  · rintro ⟨result', after', hlayer', hexact, -⟩ hgreen
    rw [hlayer] at hlayer'
    cases hlayer'
    exact (hpass.1 (hexact.2 hgreen)).2
  · intro hcovers
    refine ⟨result, after, hlayer, ?_, fun hnot => ?_⟩
    · rw [hpass]
      exact and_iff_left_of_imp hcovers
    · exact hstatus.resolve_left fun h => hnot (hpass.1 h).1

-- ==== two entries

namespace TwoEntries

/-- A test of one criterion's, passed. -/
def testcase (name : String) : Element :=
  .mk "testcase" [("file", "tests/test_rates.py"), ("name", name)] []

/-- pytest, which passes both tests. -/
def machine : Machine := fun _ _ =>
  .ok ⟨0, "", "", .tree (.mk "testsuite" [] [testcase "test_unit",
    testcase "test_service"])⟩

def criterion : Criterion where
  id := "AC-1"
  description := "A rate is applied."
  named := by decide
  described := by decide

def entry (id : String) (crosses : Option Bool) (h : id ≠ "") : MapEntry where
  criterionId := "AC-1"
  testIds := [id]
  crossesModuleBoundary := crosses
  named := by decide
  tested := List.cons_ne_nil _ _
  testsNamed := fun _ hid => List.mem_singleton.1 hid ▸ h

/-- The integration test's entry, and the unit test's. -/
def service : MapEntry :=
  entry "tests/test_rates.py::test_service" (some true) (by decide)

def unit : MapEntry :=
  entry "tests/test_rates.py::test_unit" none (by decide)

/-- One criterion, with two entries. -/
def plan (entries : List MapEntry) : Plan :=
  ⟨[criterion], entries, List.cons_ne_nil _ _⟩

def integration : List String := ["tests/test_rates.py::test_service"]

def order : SetOrder := ⟨List.dedup, fun _ => List.Perm.refl _⟩

/-- What pytest returns. -/
def run : PytestRunResult where
  total := 2
  passed := 2
  failed := 0
  errored := 0
  skipped := 0
  cases := [⟨"tests/test_rates.py::test_unit", .passed, none⟩,
    ⟨"tests/test_rates.py::test_service", .passed, none⟩]
  returncode := 0
  stdout := ""

theorem pytestAt_eq (targets : List String) :
    pytestAt machine 0 targets = .ok run := by
  rfl

theorem reported (entries : List MapEntry)
    (h : ∀ c ∈ run.cases, c.nodeId ∈ allTestIds (plan entries)) :
    ∀ c ∈ run.cases, c.nodeId ∈ sortedSet (allTestIds (plan entries)) :=
  fun c hc => mem_sortedSet.2 (h c hc)

theorem green : Green (plan [service, unit]) integration run where
  traced := criteriaMissingTests_nil.1 (by decide)
  reported := neverCollected_nil.1 (by decide)
  passed := (notPassed_nil (reported _ (by decide))).1
    (by decide)
  integrated := by
    rintro cid ⟨e, he, hcross, rfl⟩
    rcases List.mem_cons.1 he with rfl | he
    · exact ⟨_, List.mem_singleton_self _, service, List.mem_cons_self, rfl,
        List.mem_singleton_self _⟩
    · rw [List.mem_singleton.1 he] at hcross
      cases hcross

theorem service_first :
    missingIntegration order (plan [service, unit]) integration =
      ["AC-1"] := by
  decide

end TwoEntries

/-- With the integration test's entry last, the layer is right. -/
theorem exact_service_last :
    Exact TwoEntries.order TwoEntries.machine
      (TwoEntries.plan [TwoEntries.unit, TwoEntries.service])
      (some TwoEntries.integration) [] TwoEntries.run := by
  refine (exact_iff_lastCovers _ _ _ _ _ _ (TwoEntries.pytestAt_eq _)
    (TwoEntries.reported _ (by decide +kernel))).2 fun _ => ?_
  exact (missingIntegration_nil TwoEntries.order).1 (by decide +kernel)

/-- With it first, the plan is green and the layer fails. -/
theorem green_plan_fails :
    ¬ ∀ (order : SetOrder) (machine : Machine) (plan : Plan)
      (integrationTestIds : Option (List String)) (runs : Runs)
      (run : PytestRunResult),
      pytestAt machine runs.length (sortedSet (allTestIds plan)) = .ok run →
      (∀ c ∈ run.cases, c.nodeId ∈ sortedSet (allTestIds plan)) →
      Exact order machine plan integrationTestIds runs run := by
  intro h
  have hids := TwoEntries.reported [TwoEntries.service, TwoEntries.unit]
    (by decide +kernel)
  have hrun := TwoEntries.pytestAt_eq (sortedSet (allTestIds
    (TwoEntries.plan [TwoEntries.service, TwoEntries.unit])))
  obtain ⟨result, after, hlayer, hexact, -⟩ := h TwoEntries.order
    TwoEntries.machine _ (some TwoEntries.integration) [] _ hrun hids
  obtain ⟨result', after', hlayer', hpass, -⟩ :=
    layer_status TwoEntries.order [] (some TwoEntries.integration) hrun hids
  rw [hlayer] at hlayer'
  cases hlayer'
  have hlast := (hpass.1 (hexact.2 TwoEntries.green)).2
  have hnone := (missingIntegration_nil TwoEntries.order).2 hlast
  exact absurd (TwoEntries.service_first.symm.trans hnone)
    (List.cons_ne_nil _ _)

end SdlcOs.Verification.AcceptanceMapping
