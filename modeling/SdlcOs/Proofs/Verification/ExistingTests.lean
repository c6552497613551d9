/-
When the first layer's word can be taken.

# What is promised

The layer lets a change through only on a run that ended with 0, or with 1
and every failing case seen to pass on a rerun of it or known to fail; a
failing test is flaky or genuine and not both; and a run that ended with 1
but names no failing case is never a pass (`Sound`).

# Where it is kept

A rerun counts as passed when it has cases and none of them failed, so a
test that is only skipped the second time is taken for flaky; a case that
is listed twice, as one that fails and then errors in its teardown is, is
rerun twice and may end in both lists; and 1 is also what an interpreter
without pytest ends with. `Honest` says of the runs exactly when none of
this matters (`existing_tests_sound`).
-/
import SdlcOs.Verification.ExistingTests

namespace SdlcOs.Verification.ExistingTests

open Orchestrator (sortedSet mem_sortedSet)

-- ==== reruns

/-- A test and its rerun. -/
abbrev Rerun : Type := String × PytestRunResult

/-- What the reruns of some tests become, from a run's number on. -/
def reruns (machine : Machine) : Nat → List String → Except Exn (List Rerun)
  | _, [] => .ok []
  | number, id :: ids =>
    (pytestAt machine number [id]).bind fun result =>
      (reruns machine (number + 1) ids).map fun made =>
        (id, result) :: made

/-- A rerun as one of the runs. -/
def Rerun.run (e : Rerun) : List String × PytestRunResult := ([e.1], e.2)

/-- Where a rerun puts its test. -/
def FlakyCheckResult.addRerun (check : FlakyCheckResult) (e : Rerun) :
    FlakyCheckResult :=
  check.add e.1 e.2.clean

section Reruns

variable {machine : Machine} {id : String} {ids : List String}
variable {check : FlakyCheckResult} {runs : Runs} {made : List Rerun}

theorem passedOnRerun_one : passedOnRerun machine id 1 runs =
    (pytestAt machine runs.length [id]).map fun result =>
      (result.clean, runs ++ [([id], result)]) := by
  unfold passedOnRerun runPytest
  cases pytestAt machine runs.length [id] with
  | error e => rfl
  | ok result =>
    show (if result.clean = true then Except.ok (true, _)
      else Except.ok (false, _)) = Except.ok (result.clean, _)
    cases result.clean
    · rfl
    · rfl

theorem rerunFailures_eq : rerunFailures machine 1 ids check runs =
    (reruns machine runs.length ids).map fun made =>
      (made.foldl FlakyCheckResult.addRerun check,
        runs ++ made.map Rerun.run) := by
  induction ids generalizing check runs with
  | nil =>
    show _ = Except.ok (check, runs ++ [])
    rw [List.append_nil]
    rfl
  | cons id ids ih =>
    rw [rerunFailures, passedOnRerun_one, reruns]
    cases pytestAt machine runs.length [id] with
    | error e => rfl
    | ok result =>
      show rerunFailures machine 1 ids _ _ =
        ((reruns machine (runs.length + 1) ids).map _).map _
      rw [ih, List.length_append, List.length_singleton]
      cases reruns machine (runs.length + 1) ids with
      | error e => rfl
      | ok made =>
        show Except.ok (_, (runs ++ [([id], result)]) ++ _) =
          Except.ok (_, runs ++ _)
        rw [List.append_assoc]
        rfl

theorem reruns_tests {number : Nat}
    (h : reruns machine number ids = .ok made) :
    made.map Prod.fst = ids := by
  induction ids generalizing number made with
  | nil =>
    obtain rfl := Except.ok.inj h
    rfl
  | cons id ids ih =>
    rw [reruns] at h
    cases hrun : pytestAt machine number [id] with
    | error e =>
      rw [hrun] at h
      cases h
    | ok result =>
      rw [hrun] at h
      change (reruns machine (number + 1) ids).map _ = _ at h
      cases hrest : reruns machine (number + 1) ids with
      | error e =>
        rw [hrest] at h
        cases h
      | ok rest =>
        rw [hrest] at h
        obtain rfl := Except.ok.inj h
        rw [List.map_cons, ih hrest]

theorem flaky_foldl : (made.foldl FlakyCheckResult.addRerun check).flaky =
    check.flaky ++ (made.filter fun e => e.2.clean).map Prod.fst := by
  induction made generalizing check with
  | nil => exact (List.append_nil _).symm
  | cons e made ih =>
    rw [List.foldl_cons, ih]
    unfold FlakyCheckResult.addRerun FlakyCheckResult.add
    cases hclean : e.2.clean with
    | false =>
      rw [List.filter_cons_of_neg (by rw [hclean]; decide)]
      rfl
    | true =>
      rw [List.filter_cons, if_pos hclean, List.map_cons]
      exact List.append_assoc _ _ _

theorem genuine_foldl :
    (made.foldl FlakyCheckResult.addRerun check).genuineFailures =
      check.genuineFailures ++
        (made.filter fun e => !e.2.clean).map Prod.fst := by
  induction made generalizing check with
  | nil => exact (List.append_nil _).symm
  | cons e made ih =>
    rw [List.foldl_cons, ih]
    unfold FlakyCheckResult.addRerun FlakyCheckResult.add
    cases hclean : e.2.clean with
    | false =>
      rw [List.filter_cons_of_pos (by rw [hclean]; rfl), List.map_cons]
      exact List.append_assoc _ _ _
    | true =>
      rw [List.filter_cons_of_neg (by rw [hclean]; decide)]
      rfl

/-- What the reruns make of the failing tests. -/
def checkOf (made : List Rerun) : FlakyCheckResult :=
  made.foldl FlakyCheckResult.addRerun ⟨[], []⟩

theorem mem_flaky : id ∈ (checkOf made).flaky ↔
    ∃ e ∈ made, e.1 = id ∧ e.2.clean = true := by
  unfold checkOf
  rw [flaky_foldl, List.nil_append, List.mem_map]
  constructor
  · intro h
    obtain ⟨e, he, rfl⟩ := h
    obtain ⟨hmem, hclean⟩ := List.mem_filter.1 he
    exact ⟨e, hmem, rfl, hclean⟩
  · intro h
    obtain ⟨e, he, rfl, hclean⟩ := h
    exact ⟨e, List.mem_filter.2 ⟨he, hclean⟩, rfl⟩

theorem mem_genuine : id ∈ (checkOf made).genuineFailures ↔
    ∃ e ∈ made, e.1 = id ∧ e.2.clean = false := by
  unfold checkOf
  rw [genuine_foldl, List.nil_append, List.mem_map]
  constructor
  · intro h
    obtain ⟨e, he, rfl⟩ := h
    obtain ⟨hmem, hclean⟩ := List.mem_filter.1 he
    exact ⟨e, hmem, rfl, by simpa using hclean⟩
  · intro h
    obtain ⟨e, he, rfl, hclean⟩ := h
    exact ⟨e, List.mem_filter.2 ⟨he, by rw [hclean]; rfl⟩, rfl⟩

theorem perm_check : ((checkOf made).flaky ++
    (checkOf made).genuineFailures).Perm (made.map Prod.fst) := by
  unfold checkOf
  rw [flaky_foldl, genuine_foldl, List.nil_append, List.nil_append,
    ← List.map_append]
  exact (List.filter_append_perm (fun e : Rerun => e.2.clean) made).map
    Prod.fst

end Reruns

-- ==== the promise

/-- A test was observed to pass on a rerun of it: the run is not the
first, it is of this test, and it has a case of it that passed. -/
def PassedOnRerun (runs : Runs) (id : String) : Prop :=
  ∃ run ∈ runs.tail, run.1 = [id] ∧
    ∃ c ∈ run.2.cases, c.nodeId = id ∧ c.outcome = .passed

/-- The two lists hold every failing test in one of them, and as often as
it failed. -/
structure Partition (check : FlakyCheckResult) (failing : List String) :
    Prop where
  perm : (check.flaky ++ check.genuineFailures).Perm failing
  disjoint : ∀ id ∈ check.flaky, id ∉ check.genuineFailures

section Layer

variable {π : Type}

/-- What the layer owes, whatever the runs become. -/
structure Sound (machine : Machine) (client : CIClient π)
    (scopePaths known : List String) (tenantId repositoryName : String) :
    Prop where
  nonBlocking : ∀ run result runs,
    pytestAt machine 0 scopePaths = .ok run →
    runExistingTestSuiteLayer machine client scopePaths known tenantId
      repositoryName = .ok (result, runs) →
    result.blocksHumanReview = false →
      run.returncode = 0 ∨ run.returncode = 1 ∧
        ∀ c ∈ run.cases, c.failing = true →
          PassedOnRerun runs c.nodeId ∨ c.nodeId ∈ known
  partition : ∀ run check runs,
    pytestAt machine 0 scopePaths = .ok run →
    run.returncode = 0 ∨ run.returncode = 1 →
    rerunFailuresAndClassify machine run.failingNodeIds 1
      [(scopePaths, run)] = .ok (check, runs) →
      Partition check run.failingNodeIds
  vacuous : ∀ run result runs,
    pytestAt machine 0 scopePaths = .ok run →
    runExistingTestSuiteLayer machine client scopePaths known tenantId
      repositoryName = .ok (result, runs) →
    run.returncode = 1 → run.failingNodeIds = [] → result.status ≠ .pass

/-- A rerun has a case of its test that passed. -/
def Rerun.Passed (e : Rerun) : Prop :=
  ∃ c ∈ e.2.cases, c.nodeId = e.1 ∧ c.outcome = .passed

/-- The runs say what the layer takes them to say: 1 comes with a failing
case, two reruns of one test agree, and where every failing test is known
or has a clean rerun, one that is not known has a rerun it passed. -/
def Honest (machine : Machine) (scopePaths known : List String) : Prop :=
  ∀ run made, pytestAt machine 0 scopePaths = .ok run →
    run.returncode = 0 ∨ run.returncode = 1 →
    reruns machine 1 run.failingNodeIds = .ok made →
      (run.returncode = 1 → run.failingNodeIds ≠ []) ∧
      (∀ e ∈ made, ∀ e' ∈ made, e.1 = e'.1 → e.2.clean = e'.2.clean) ∧
      (run.returncode = 1 →
        (∀ e ∈ made, e.2.clean = true ∨ e.1 ∈ known) →
          ∀ e ∈ made, e.1 ∈ known ∨ ∃ e' ∈ made, e'.1 = e.1 ∧ e'.Passed)

variable {machine : Machine} {client : CIClient π}
variable {scopePaths known : List String}
variable {tenantId repositoryName : String} {run : PytestRunResult}
variable {made : List Rerun} {ciAudit : CiAudit π}

theorem rerunFailuresAndClassify_eq (machine : Machine) (runs : Runs)
    (failing : List String) :
    rerunFailuresAndClassify machine failing 1 runs =
      (reruns machine runs.length failing).map fun made =>
        (checkOf made, runs ++ made.map Rerun.run) := rerunFailures_eq

theorem layer_of_run (client : CIClient π) (known : List String)
    (tenantId repositoryName : String)
    (h : pytestAt machine 0 scopePaths = .ok run) :
    runExistingTestSuiteLayer machine client scopePaths known tenantId
      repositoryName = interpret machine
        (audit client tenantId repositoryName scopePaths) known run
        [(scopePaths, run)] := by
  unfold runExistingTestSuiteLayer runPytest
  rw [List.length_nil, h]
  rfl

theorem classified_blocks {check : FlakyCheckResult} :
    (classified ciAudit run known check).blocksHumanReview = false ↔
      ∀ id ∈ check.genuineFailures, id ∈ known := by
  have hnil : sortedSet (check.genuineFailures.filter fun id => id ∉ known) =
      [] ↔ ∀ id ∈ check.genuineFailures, id ∈ known := by
    rw [List.eq_nil_iff_forall_not_mem]
    constructor
    · intro h id hid
      by_contra hnew
      exact h id (mem_sortedSet.2
        (List.mem_filter.2 ⟨hid, decide_eq_true hnew⟩))
    · intro h id hid
      obtain ⟨hmem, hnew⟩ := List.mem_filter.1 (mem_sortedSet.1 hid)
      exact of_decide_eq_true hnew (h id hmem)
  rw [← hnil]
  unfold classified
  dsimp only
  by_cases hnew : sortedSet
      (check.genuineFailures.filter fun id => id ∉ known) = []
  · rw [if_neg (not_not.2 hnew)]
    refine iff_of_true ?_ hnew
    split
    · rfl
    · rfl
  · rw [if_pos hnew]
    exact iff_of_false (fun h => Bool.noConfusion h) hnew

theorem interpret_none {runs : Runs}
    (hrc : run.returncode = 0 ∨ run.returncode = 1)
    (hnone : run.failingNodeIds = []) :
    interpret machine ciAudit known run runs =
      .ok (⟨"existing_test_suite", .pass, .passed run.passed run.total,
        .passed ciAudit run.total run.passed⟩, runs) := by
  unfold interpret
  rw [if_neg fun h => hrc.elim h.1 h.2, if_pos hnone]

theorem interpret_some (hrc : run.returncode = 0 ∨ run.returncode = 1)
    (hsome : run.failingNodeIds ≠ []) :
    interpret machine ciAudit known run [(scopePaths, run)] =
      (reruns machine 1 run.failingNodeIds).map fun made =>
        (classified ciAudit run known (checkOf made),
          (scopePaths, run) :: made.map Rerun.run) := by
  unfold interpret
  rw [if_neg fun h => hrc.elim h.1 h.2, if_neg hsome,
    rerunFailuresAndClassify_eq, List.length_singleton]
  cases reruns machine 1 run.failingNodeIds with
  | error e => rfl
  | ok made => rfl

theorem interpret_blocks {runs runs' : Runs}
    {result : Result Summary (Details π)}
    (hrc : ¬ (run.returncode = 0 ∨ run.returncode = 1))
    (h : interpret machine ciAudit known run runs = .ok (result, runs')) :
    result.blocksHumanReview = true := by
  unfold interpret at h
  rw [if_pos (not_or.1 hrc)] at h
  injection h with h
  injection h with h _
  rw [← h]
  rfl

theorem failing_ne_nil {c : TestCaseResult} (hc : c ∈ run.cases)
    (hfails : c.failing = true) : run.failingNodeIds ≠ [] := by
  intro hnil
  have hmem : c.nodeId ∈ run.failingNodeIds :=
    List.mem_map_of_mem (List.mem_filter.2 ⟨hc, hfails⟩)
  rw [hnil] at hmem
  cases hmem

theorem mem_made (h : reruns machine 1 run.failingNodeIds = .ok made)
    {id : String} : (∃ e ∈ made, e.1 = id) ↔
      ∃ c ∈ run.cases, c.failing = true ∧ c.nodeId = id := by
  have hids := reruns_tests h
  unfold PytestRunResult.failingNodeIds at hids
  have hmem : id ∈ made.map Prod.fst ↔ id ∈
      (run.cases.filter TestCaseResult.failing).map TestCaseResult.nodeId := by
    rw [hids]
  rw [List.mem_map, List.mem_map] at hmem
  refine hmem.trans ?_
  constructor
  · intro h
    obtain ⟨c, hc, rfl⟩ := h
    obtain ⟨hmem, hfails⟩ := List.mem_filter.1 hc
    exact ⟨c, hmem, hfails, rfl⟩
  · intro h
    obtain ⟨c, hc, hfails, rfl⟩ := h
    exact ⟨c, List.mem_filter.2 ⟨hc, hfails⟩, rfl⟩

theorem passedOnRerun_iff {id : String} :
    PassedOnRerun ((scopePaths, run) :: made.map Rerun.run) id ↔
      ∃ e ∈ made, e.1 = id ∧ e.Passed := by
  unfold PassedOnRerun
  rw [List.tail_cons]
  constructor
  · intro h
    obtain ⟨r, hr, hid, c, hc, hcid, hpassed⟩ := h
    obtain ⟨e, he, rfl⟩ := List.mem_map.1 hr
    obtain rfl : e.1 = id := (List.cons.inj hid).1
    exact ⟨e, he, rfl, c, hc, hcid, hpassed⟩
  · intro h
    obtain ⟨e, he, rfl, c, hc, hcid, hpassed⟩ := h
    exact ⟨e.run, List.mem_map_of_mem he, rfl, c, hc, hcid, hpassed⟩

theorem genuine_known : (∀ id ∈ (checkOf made).genuineFailures, id ∈ known) ↔
    ∀ e ∈ made, e.2.clean = true ∨ e.1 ∈ known := by
  constructor
  · intro h e he
    cases hclean : e.2.clean with
    | true => exact Or.inl rfl
    | false => exact Or.inr (h e.1 (mem_genuine.2 ⟨e, he, rfl, hclean⟩))
  · intro h id hid
    obtain ⟨e, he, rfl, hclean⟩ := mem_genuine.1 hid
    rcases h e he with hyes | hknown
    · rw [hclean] at hyes
      cases hyes
    · exact hknown

theorem partition_iff : Partition (checkOf made) (made.map Prod.fst) ↔
    ∀ e ∈ made, ∀ e' ∈ made, e.1 = e'.1 → e.2.clean = e'.2.clean := by
  constructor
  · intro h e he e' he' hid
    cases hclean : e.2.clean with
    | true =>
      cases hclean' : e'.2.clean with
      | true => rfl
      | false =>
        exact absurd (mem_genuine.2 ⟨e', he', hid.symm, hclean'⟩)
          (h.disjoint e.1 (mem_flaky.2 ⟨e, he, rfl, hclean⟩))
    | false =>
      cases hclean' : e'.2.clean with
      | false => rfl
      | true =>
        exact absurd (mem_genuine.2 ⟨e, he, hid, hclean⟩)
          (h.disjoint e'.1 (mem_flaky.2 ⟨e', he', rfl, hclean'⟩))
  · intro h
    refine ⟨perm_check, fun id hflaky hgenuine => ?_⟩
    obtain ⟨e, he, rfl, hclean⟩ := mem_flaky.1 hflaky
    obtain ⟨e', he', hid, hclean'⟩ := mem_genuine.1 hgenuine
    have := h e he e' he' hid.symm
    rw [hclean, hclean'] at this
    cases this

/-- The layer keeps what it owes exactly when the runs are honest. -/
theorem existing_tests_sound (machine : Machine) (client : CIClient π)
    (scopePaths known : List String) (tenantId repositoryName : String) :
    Sound machine client scopePaths known tenantId repositoryName ↔
      Honest machine scopePaths known := by
  constructor
  · intro h run made hrun hrc hmade
    have hlayer := layer_of_run client known tenantId repositoryName hrun
    refine ⟨fun hone hnone => ?_, ?_, fun hone hall => ?_⟩
    · rw [interpret_none hrc hnone] at hlayer
      exact h.vacuous run _ _ hrun hlayer hone hnone rfl
    · have hcheck := rerunFailuresAndClassify_eq machine
        [(scopePaths, run)] run.failingNodeIds
      rw [List.length_singleton, hmade] at hcheck
      have hpart := h.partition run _ _ hrun hrc hcheck
      rw [← reruns_tests hmade] at hpart
      exact partition_iff.1 hpart
    · intro e he
      by_cases hnone : run.failingNodeIds = []
      · rw [hnone] at hmade
        obtain rfl := Except.ok.inj hmade
        cases he
      · rw [interpret_some hrc hnone, hmade] at hlayer
        rcases h.nonBlocking run _ _ hrun hlayer
          (classified_blocks.2 (genuine_known.2 hall)) with hzero | hsaid
        · rw [hone] at hzero
          cases hzero
        · obtain ⟨c, hc, hfails, hid⟩ := (mem_made hmade).1 ⟨e, he, rfl⟩
          rcases hsaid.2 c hc hfails with hpassed | hknown
          · rw [hid] at hpassed
            exact Or.inr (passedOnRerun_iff.1 hpassed)
          · rw [hid] at hknown
            exact Or.inl hknown
  · intro h
    refine ⟨fun run result runs hrun hlayer hblocks => ?_,
      fun run check runs hrun hrc hcheck => ?_,
      fun run result runs hrun hlayer hone hnone => ?_⟩
    · rw [layer_of_run _ _ _ _ hrun] at hlayer
      by_cases hrc : run.returncode = 0 ∨ run.returncode = 1
      · rcases hrc with hzero | hone
        · exact Or.inl hzero
        · refine Or.inr ⟨hone, fun c hc hfails => ?_⟩
          rw [interpret_some (Or.inr hone) (failing_ne_nil hc hfails)]
            at hlayer
          cases hmade : reruns machine 1 run.failingNodeIds with
          | error e =>
            rw [hmade] at hlayer
            cases hlayer
          | ok made =>
            rw [hmade] at hlayer
            injection hlayer with hlayer
            injection hlayer with hresult hruns
            rw [← hresult] at hblocks
            obtain ⟨e, he, hid⟩ := (mem_made hmade).2 ⟨c, hc, hfails, rfl⟩
            have hall := genuine_known.1 (classified_blocks.1 hblocks)
            rw [← hruns, passedOnRerun_iff, ← hid]
            exact ((h run made hrun (Or.inr hone) hmade).2.2 hone hall e
              he).symm
      · rw [interpret_blocks hrc hlayer] at hblocks
        cases hblocks
    · rw [rerunFailuresAndClassify_eq, List.length_singleton] at hcheck
      cases hmade : reruns machine 1 run.failingNodeIds with
      | error e =>
        rw [hmade] at hcheck
        cases hcheck
      | ok made =>
        rw [hmade] at hcheck
        injection hcheck with hcheck
        injection hcheck with hcheck _
        rw [← hcheck, ← reruns_tests hmade, partition_iff]
        exact (h run made hrun hrc hmade).2.1
    · have hmade : reruns machine 1 run.failingNodeIds = .ok [] := by
        rw [hnone]
        rfl
      exact absurd hnone ((h run [] hrun (Or.inr hone) hmade).1 hone)

end Layer

-- ==== skipped

namespace Sample

/-- A results file with one case. -/
def results (marks : List Element) : ResultsFile :=
  .tree (.mk "testsuite" []
    [.mk "testcase" [("classname", "t"), ("name", "test_a")] marks])

/-- A test that fails, and is skipped when it is run again. -/
def machine : Machine := fun number _ =>
  if number = 0 then .ok ⟨1, "", "", results [.mk "failure" [] []]⟩
  else .ok ⟨0, "", "", results [.mk "skipped" [] []]⟩

/-- A platform that is not there. -/
def client : CIClient Unit where
  triggerRun := fun _ _ _ _ => .error "unavailable"
  outcome := fun _ => .ok none
  runId := fun _ => .ok ""
  getRunStatusResult := fun _ _ _ => .error "unavailable"

end Sample

/-- A failing test that is skipped on its rerun does not block. -/
theorem skipped_not_passed : ¬ Sound Sample.machine Sample.client ["t.py"] []
    "tenant-acme" "acme/app" := by
  intro h
  obtain ⟨run, made, hrun, hmade, hcase, hskipped⟩ : ∃ run made,
      pytestAt Sample.machine 0 ["t.py"] = .ok run ∧
      reruns Sample.machine 1 run.failingNodeIds = .ok made ∧
      (∃ c, run.cases = [c] ∧ c.failing = true ∧ run.returncode = 1) ∧
      ∀ e ∈ made, e.2.clean = true ∧ ∀ c ∈ e.2.cases,
        c.outcome = .skipped := by
    refine ⟨_, _, rfl, rfl, ⟨_, rfl, rfl, rfl⟩, fun e he => ?_⟩
    obtain rfl := List.mem_singleton.1 he
    refine ⟨rfl, fun c hc => ?_⟩
    obtain rfl := List.mem_singleton.1 hc
    rfl
  obtain ⟨c, hcases, hfails, hone⟩ := hcase
  have hc : c ∈ run.cases := hcases ▸ List.mem_singleton_self c
  have hlayer := layer_of_run Sample.client [] "tenant-acme" "acme/app" hrun
  rw [interpret_some (Or.inr hone) (failing_ne_nil hc hfails), hmade]
    at hlayer
  have hblocks := h.nonBlocking run _ _ hrun hlayer
    (classified_blocks.2 (genuine_known.2 fun e he =>
      Or.inl (hskipped e he).1))
  rcases hblocks with hzero | ⟨_, hsaid⟩
  · rw [hone] at hzero
    cases hzero
  · rcases hsaid c hc hfails with hpassed | hknown
    · obtain ⟨e, he, _, c', hc', _, hpassed⟩ := passedOnRerun_iff.1 hpassed
      rw [(hskipped e he).2 c' hc'] at hpassed
      cases hpassed
    · cases hknown

end SdlcOs.Verification.ExistingTests
