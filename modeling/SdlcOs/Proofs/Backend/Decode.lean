/-
How strictly the decoders read.

# What is promised

A decoder accepts exactly the values that conform to its schema, gives
back their fields, and raises its vendor's malformed-output error on
every other value; the three vendors agree (`StrictAt`).

# Where it is kept

What the decoders accept is a schema too, a looser one: `loosePlan` and
`looseDiff` ask for the required keys and, where a tuple or an integer is
made, for something that can be made into one. So a decoder is strict
exactly at the values that conform or do not conform to the looser schema
either; and where `lines_changed` is an infinite float, an `OverflowError`
goes past the `except` clause (`decoding_strict_iff`).
-/
import SdlcOs.Backend.Decode
import SdlcOs.Data.Traverse

namespace SdlcOs.Backend.Decode

open Data (mapM_eq_ok exists_mapM bind_eq_ok bind_eq_error Fails)
open Json (Json Floats Schema find)
open Dispatch (Platform pyInt)

-- ==== promise

section Promise

variable {φ : Type}

/-- A criterion's fields. -/
structure CriterionReads (v : Json φ) (c : AcceptanceCriterion φ) :
    Prop where
  criterion_id : v.field "criterion_id" = some c.criterionId
  description : v.field "description" = some c.description
  verification_tests :
    v.field "verification_tests" = some (.arr c.verificationTests)

/-- An array that may be absent or null. -/
def ReadsArray (v : Option (Json φ)) (items : List (Json φ)) : Prop :=
  v = some (.arr items) ∨ (v = none ∨ v = some .null) ∧ items = []

/-- A subtask's fields. -/
structure SubTaskReads (v : Json φ) (s : SubTask φ) : Prop where
  task_id : v.field "task_id" = some s.taskId
  description : v.field "description" = some s.description
  parallel_group : v.field "parallel_group" = some s.parallelGroup
  depends_on : v.field "depends_on" = some (.arr s.dependsOn)
  interface_contract :
    (v.field "interface_contract").getD .null = s.interfaceContract

/-- A plan's fields. -/
structure PlanReads (v : Json φ) (p : PlanOutput φ) : Prop where
  outcomes : v.field "outcomes" = some p.outcomes
  acceptance_criteria : ∃ items,
    v.field "acceptance_criteria" = some (.arr items) ∧
      List.Forall₂ CriterionReads items p.acceptanceCriteria
  scope_in : v.field "scope_in" = some (.arr p.scopeIn)
  scope_out : v.field "scope_out" = some (.arr p.scopeOut)
  subtasks : ∃ items, v.field "subtasks" = some (.arr items) ∧
    List.Forall₂ SubTaskReads items p.subtasks
  story_size : v.field "story_size" = some p.storySize
  cross_cutting_or_high_risk : v.field "cross_cutting_or_high_risk" =
    some (.bool p.crossCuttingOrHighRisk)
  risk_tier : v.field "risk_tier" = some p.riskTier
  rollback_strategy : v.field "rollback_strategy" = some p.rollbackStrategy
  constraints : (v.field "constraints").getD (.str "") = p.constraints
  prior_decisions :
    (v.field "prior_decisions").getD (.str "") = p.priorDecisions
  open_questions : ReadsArray (v.field "open_questions") p.openQuestions

/-- A diff's fields. -/
structure DiffReads (F : Floats φ) (v : Json φ) (d : DiffOutput φ) :
    Prop where
  files_touched : v.field "files_touched" = some (.arr d.filesTouched)
  lines_changed : ∃ w, v.field "lines_changed" = some w ∧
    F.Integer w d.linesChanged
  commit_message : v.field "commit_message" = some d.commitMessage
  subtask_id : (v.field "subtask_id").getD .null = d.subtaskId

/-- The vendors' plan decoders. -/
def planDecoder (F : Floats φ) :
    Vendor → Json φ → Except Exn (PlanOutput φ)
  | .bedrock => planFromToolInput F
  | .ollama => ollamaPlanFromDict F
  | .anthropic => anthropicPlanFromDict F

/-- The vendors' diff decoders. -/
def diffDecoder (F : Floats φ) (P : Platform) :
    Vendor → Json φ → Except Exn (DiffOutput φ)
  | .bedrock => diffFromToolInput F P
  | .ollama => ollamaDiffFromDict F P
  | .anthropic => anthropicDiffFromDict F P

/-- The promise, for one value. -/
structure StrictAt {α : Type} (conforms : Schema φ) (reads : Json φ → α → Prop)
    (decode : Vendor → Json φ → Except Exn α) (v : Json φ) : Prop where
  accepts : conforms v → ∀ vendor, ∃ out,
    decode vendor v = .ok out ∧ reads v out
  rejects : ¬ conforms v → ∀ vendor, ∃ cause,
    decode vendor v = .error (.malformed vendor cause)
  agree : ∀ vendor vendor' out,
    decode vendor v = .ok out → decode vendor' v = .ok out

end Promise

-- ==== loose schemas

section Loose

variable {φ : Type} (F : Floats φ) (P : Platform)

/-- What `tuple` takes. -/
def iterable : Schema φ := fun v =>
  (∃ items, v = .arr items) ∨ (∃ s, v = .str s) ∨ ∃ members, v = .obj members

/-- What is taken for an array of objects. -/
def objects (S : Schema φ) : Schema φ := fun v =>
  Schema.array S v ∨ v = .str "" ∨ v = .obj []

/-- What `tuple(v or ())` takes. -/
def emptyOr (S : Schema φ) : Schema φ := fun v => truthy F v = false ∨ S v

/-- What `int` takes. -/
def numeral : Schema φ := fun v =>
  (∃ b, v = .bool b) ∨ (∃ n, v = .int n) ∨
    (∃ x n, v = .float x ∧
      (F.truncate x = .whole n ∨ F.truncate x = .fraction n)) ∨
    ∃ s n, v = .str s ∧ pyInt P s = some n

/-- What `int` finds too large. -/
def infinite : Schema φ := fun v =>
  ∃ x, v = .float x ∧ F.truncate x = .infinite

/-- What is taken for a criterion. -/
def looseCriterion : Schema φ :=
  .object [("verification_tests", iterable)]
    ["criterion_id", "description", "verification_tests"]

/-- What is taken for a subtask. -/
def looseSubtask : Schema φ :=
  .object [("depends_on", emptyOr F iterable)] ["task_id", "description"]

/-- What is taken for a plan. -/
def loosePlan : Schema φ :=
  .object
    [("acceptance_criteria", objects looseCriterion),
      ("scope_in", iterable), ("scope_out", iterable),
      ("subtasks", objects (looseSubtask F)),
      ("open_questions", emptyOr F iterable)]
    planRequired

/-- What is taken for a diff. -/
def looseDiff : Schema φ :=
  .object [("files_touched", iterable), ("lines_changed", numeral F P)]
    diffRequired

/-- What is too large for a diff. -/
def overflowing : Schema φ :=
  .object [("files_touched", iterable), ("lines_changed", infinite F)]
    ["files_touched", "lines_changed"]

end Loose

-- ==== coercions

section Coercions

variable {φ : Type} {F : Floats φ} {P : Platform} {v w : Json φ}
  {context key : String} {items : List (Json φ)}

theorem iterate_iff : (∃ items, iterate v = .ok items) ↔ iterable v := by
  cases v <;> simp [iterate, iterable]

theorem require_eq_ok : require context key v = .ok w ↔
    v.field key = some w := by
  cases v with
  | obj members =>
    rw [require, Json.field_obj]
    cases hfind : find key members with
    | none => exact iff_of_false (fun h => (by cases h)) fun h => by cases h
    | some v =>
      exact ⟨fun h => congrArg some (Except.ok.inj h),
        fun h => congrArg Except.ok (Option.some.inj h)⟩
  | str s =>
    rw [require]
    split <;> exact iff_of_false (fun h => (by cases h)) fun h => by cases h
  | arr items =>
    rw [require]
    split <;> exact iff_of_false (fun h => (by cases h)) fun h => by cases h
  | null => exact iff_of_false (fun h => (by cases h)) fun h => by cases h
  | bool b => exact iff_of_false (fun h => (by cases h)) fun h => by cases h
  | int n => exact iff_of_false (fun h => (by cases h)) fun h => by cases h
  | float x => exact iff_of_false (fun h => (by cases h)) fun h => by cases h

theorem getOr_eq_ok {default : Json φ}
    (hv : ∃ members, v = .obj members) : getOr key default v = .ok w ↔
    (v.field key).getD default = w := by
  obtain ⟨members, rfl⟩ := hv
  exact ⟨fun h => Except.ok.inj h, fun h => congrArg Except.ok h⟩

theorem tupleOr_iff : (∃ items, tupleOr F v = .ok items) ↔
    emptyOr F iterable v := by
  rw [tupleOr, emptyOr]
  cases htruthy : truthy F v with
  | true =>
    rw [if_pos rfl, iterate_iff]
    exact (or_iff_right (by simp)).symm
  | false =>
    rw [if_neg Bool.false_ne_true]
    exact iff_of_true ⟨[], rfl⟩ (Or.inl rfl)

theorem toInt_iff : (∃ n, toInt F P v = .ok n) ↔ numeral F P v := by
  cases v with
  | float x =>
    rw [toInt, numeral]
    cases htruncate : F.truncate x <;> simp [htruncate]
  | str s =>
    rw [toInt, numeral]
    cases hread : pyInt P s <;> simp [hread]
  | _ => simp [toInt, numeral]

theorem toInt_integer {n : Int} (h : F.Integer v n) :
    toInt F P v = .ok n := by
  rcases h with rfl | ⟨x, rfl, hx⟩
  · rfl
  · rw [toInt, hx]

theorem objects_iff {α : Type} {S : Schema φ}
    {f : Json φ → Except Raised α} (hf : ∀ v, (∃ a, f v = .ok a) ↔ S v)
    (hstr : ∀ s, ¬ S (.str s)) :
    (∃ items, iterate v = .ok items ∧ ∃ as, items.mapM f = .ok as) ↔
      objects S v := by
  have hall : ∀ {items : List (Json φ)},
      (∃ as, items.mapM f = .ok as) ↔ ∀ item ∈ items, S item := by
    intro items
    rw [exists_mapM]
    exact forall₂_congr fun item _ => hf item
  constructor
  · rintro ⟨items, hiterate, hitems⟩
    rw [hall] at hitems
    cases v with
    | arr items' =>
      obtain rfl := Except.ok.inj hiterate
      exact Or.inl ⟨_, rfl, hitems⟩
    | str s =>
      obtain rfl := Except.ok.inj hiterate
      refine Or.inr (Or.inl (congrArg Json.str ?_))
      rw [← String.toList_eq_nil_iff, List.eq_nil_iff_forall_not_mem]
      intro c hc
      exact hstr _ (hitems _ (List.mem_map_of_mem hc))
    | obj members =>
      obtain rfl := Except.ok.inj hiterate
      refine Or.inr (Or.inr (congrArg Json.obj ?_))
      rw [List.eq_nil_iff_forall_not_mem]
      intro m hm
      exact hstr _ (hitems _ (List.mem_map_of_mem hm))
    | _ => cases hiterate
  · rintro (⟨items, rfl, hitems⟩ | rfl | rfl)
    · exact ⟨items, rfl, hall.2 hitems⟩
    · exact ⟨[], rfl, [], rfl⟩
    · exact ⟨[], rfl, [], rfl⟩

end Coercions

-- ==== criteria

section Criteria

variable {φ : Type} {F : Floats φ} {v : Json φ}

/-- What a criterion is made of. -/
structure CriterionBuilt (v : Json φ) (c : AcceptanceCriterion φ) :
    Prop where
  criterion_id : v.field "criterion_id" = some c.criterionId
  description : v.field "description" = some c.description
  verification_tests : ∃ tests, v.field "verification_tests" = some tests ∧
    iterate tests = .ok c.verificationTests

theorem criterionFrom_eq_ok {c : AcceptanceCriterion φ} :
    criterionFrom v = .ok c ↔ CriterionBuilt v c := by
  simp only [criterionFrom, bind_eq_ok, require_eq_ok]
  constructor
  · rintro ⟨id, hid, description, hdescription, tests, htests, items, hitems,
      hc⟩
    obtain rfl := Except.ok.inj hc
    exact ⟨hid, hdescription, tests, htests, hitems⟩
  · rintro ⟨hid, hdescription, tests, htests, hitems⟩
    exact ⟨_, hid, _, hdescription, tests, htests, _, hitems, rfl⟩

theorem criterionFrom_iff :
    (∃ c, criterionFrom v = .ok c) ↔ looseCriterion v := by
  simp only [criterionFrom_eq_ok]
  constructor
  · rintro ⟨c, hid, hdescription, tests, htests, hitems⟩
    refine Schema.object_intro (Schema.object_of_field hid) ?_ ?_
    · simp [hid, hdescription, htests]
    · intro p hp w hw
      obtain rfl := List.mem_singleton.1 hp
      rw [Option.some.inj (hw.symm.trans htests)]
      exact iterate_iff.1 ⟨_, hitems⟩
  · intro h
    obtain ⟨id, hid⟩ := Schema.field_required "criterion_id" h (by simp)
    obtain ⟨description, hdescription⟩ :=
      Schema.field_required "description" h (by simp)
    obtain ⟨tests, htests⟩ :=
      Schema.field_required "verification_tests" h (by simp)
    obtain ⟨items, hitems⟩ := iterate_iff.2
      (Schema.field_schema h List.mem_cons_self htests)
    exact ⟨⟨id, description, items⟩, hid, hdescription, tests, htests,
      hitems⟩

theorem iterate_array {S : Schema φ} {items : List (Json φ)}
    (h : Schema.array S v) (hitems : iterate v = .ok items) :
    v = .arr items := by
  obtain ⟨items', rfl, _⟩ := h
  rw [Except.ok.inj hitems]

theorem criterion_reads {c : AcceptanceCriterion φ}
    (h : acceptanceCriterionSchema v) (hc : CriterionBuilt v c) :
    CriterionReads v c := by
  obtain ⟨hid, hdescription, tests, htests, hitems⟩ := hc
  have harray : Schema.array .string tests :=
    Schema.field_schema h (by simp) htests
  refine ⟨hid, hdescription, ?_⟩
  rw [htests, iterate_array harray hitems]

end Criteria

-- ==== subtasks

section Subtasks

variable {φ : Type} {F : Floats φ} {v : Json φ}

/-- What a subtask is made of. -/
structure SubTaskBuilt (F : Floats φ) (v : Json φ) (s : SubTask φ) :
    Prop where
  task_id : v.field "task_id" = some s.taskId
  description : v.field "description" = some s.description
  parallel_group : (v.field "parallel_group").getD .null = s.parallelGroup
  depends_on :
    tupleOr F ((v.field "depends_on").getD .null) = .ok s.dependsOn
  interface_contract :
    (v.field "interface_contract").getD .null = s.interfaceContract

theorem subtaskFrom_eq_ok {s : SubTask φ} :
    subtaskFrom F v = .ok s ↔ SubTaskBuilt F v s := by
  by_cases hv : ∃ members, v = .obj members
  · simp only [subtaskFrom, bind_eq_ok, require_eq_ok, getOr_eq_ok hv]
    constructor
    · rintro ⟨id, hid, description, hdescription, group, hgroup, _, rfl,
        items, hitems, contract, hcontract, hs⟩
      obtain rfl := Except.ok.inj hs
      exact ⟨hid, hdescription, hgroup, hitems, hcontract⟩
    · rintro ⟨hid, hdescription, hgroup, hitems, hcontract⟩
      exact ⟨_, hid, _, hdescription, _, hgroup, _, rfl, _, hitems, _,
        hcontract, rfl⟩
  · constructor
    · intro h
      obtain ⟨id, hid, _⟩ := bind_eq_ok.1 h
      exact absurd (Schema.object_of_field (require_eq_ok.1 hid)) hv
    · intro h
      exact absurd (Schema.object_of_field h.task_id) hv

/-- A member that may be absent has something to be iterated, or is
empty. -/
theorem optional_iff {key : String} :
    (∃ items, tupleOr F ((v.field key).getD .null) = .ok items) ↔
      ∀ w, v.field key = some w → emptyOr F iterable w := by
  rw [tupleOr_iff]
  cases v.field key with
  | none => exact iff_of_true (Or.inl rfl) fun w h => by cases h
  | some w => exact ⟨fun h w' hw' => Option.some.inj hw' ▸ h, fun h => h w rfl⟩

theorem subtaskFrom_iff :
    (∃ s, subtaskFrom F v = .ok s) ↔ looseSubtask F v := by
  simp only [subtaskFrom_eq_ok]
  constructor
  · rintro ⟨s, hid, hdescription, _, hitems, _⟩
    refine Schema.object_intro (Schema.object_of_field hid) ?_ ?_
    · simp [hid, hdescription]
    · intro p hp
      obtain rfl := List.mem_singleton.1 hp
      exact optional_iff.1 ⟨_, hitems⟩
  · intro h
    obtain ⟨id, hid⟩ := Schema.field_required "task_id" h (by simp)
    obtain ⟨description, hdescription⟩ :=
      Schema.field_required "description" h (by simp)
    obtain ⟨items, hitems⟩ := optional_iff.2 fun w hw =>
      Schema.field_schema h List.mem_cons_self hw
    exact ⟨⟨id, description, _, items, _⟩, hid, hdescription, rfl, hitems,
      rfl⟩

theorem tupleOr_array {items items' : List (Json φ)}
    (h : tupleOr F (.arr items) = .ok items') : items = items' := by
  cases items with
  | nil => exact Except.ok.inj h
  | cons item items => exact Except.ok.inj h

theorem subtask_reads {s : SubTask φ} (h : subtaskSchema v)
    (hs : SubTaskBuilt F v s) : SubTaskReads v s := by
  obtain ⟨hid, hdescription, hgroup, hitems, hcontract⟩ := hs
  obtain ⟨group, hfield⟩ := Schema.field_required "parallel_group" h (by simp)
  obtain ⟨dependencies, hdependencies⟩ :=
    Schema.field_required "depends_on" h (by simp)
  have harray : Schema.array .string dependencies :=
    Schema.field_schema h (by simp) hdependencies
  refine ⟨hid, hdescription, ?_, ?_, hcontract⟩
  · rw [hfield] at hgroup ⊢
    exact congrArg some hgroup
  · obtain ⟨items, rfl, _⟩ := harray
    rw [hdependencies] at hitems ⊢
    rw [tupleOr_array hitems]

end Subtasks

-- ==== plans

section Plans

variable {φ : Type} {F : Floats φ} {v : Json φ}

/-- What a plan is made of. -/
structure PlanBuilt (F : Floats φ) (v : Json φ) (p : PlanOutput φ) :
    Prop where
  acceptance_criteria : ∃ raw items,
    v.field "acceptance_criteria" = some raw ∧ iterate raw = .ok items ∧
      items.mapM criterionFrom = .ok p.acceptanceCriteria
  subtasks : ∃ raw items, v.field "subtasks" = some raw ∧
    iterate raw = .ok items ∧ items.mapM (subtaskFrom F) = .ok p.subtasks
  outcomes : v.field "outcomes" = some p.outcomes
  scope_in : ∃ raw, v.field "scope_in" = some raw ∧
    iterate raw = .ok p.scopeIn
  scope_out : ∃ raw, v.field "scope_out" = some raw ∧
    iterate raw = .ok p.scopeOut
  story_size : v.field "story_size" = some p.storySize
  cross_cutting_or_high_risk : ∃ raw,
    v.field "cross_cutting_or_high_risk" = some raw ∧
      truthy F raw = p.crossCuttingOrHighRisk
  risk_tier : v.field "risk_tier" = some p.riskTier
  rollback_strategy : v.field "rollback_strategy" = some p.rollbackStrategy
  constraints : (v.field "constraints").getD (.str "") = p.constraints
  prior_decisions :
    (v.field "prior_decisions").getD (.str "") = p.priorDecisions
  open_questions :
    tupleOr F ((v.field "open_questions").getD .null) = .ok p.openQuestions

theorem planBody_eq_ok {p : PlanOutput φ}
    (hv : ∃ members, v = .obj members) :
    planBody F v = .ok p ↔ PlanBuilt F v p := by
  simp only [planBody, bind_eq_ok, require_eq_ok, getOr_eq_ok hv]
  constructor
  · rintro ⟨rawCriteria, hcriteria, items, hitems, criteria, hmapped,
      rawSubtasks, hsubtasks, tasks, htasks, subtasks, hmapped',
      outcomes, houtcomes, rawIn, hin, scopeIn, hscopeIn, rawOut, hout,
      scopeOut, hscopeOut, size, hsize, risk, hrisk, tier, htier,
      rollback, hrollback, constraints, hconstraints, prior, hprior, _, rfl,
      questions, hquestions, hp⟩
    obtain rfl := Except.ok.inj hp
    exact ⟨⟨_, _, hcriteria, hitems, hmapped⟩,
      ⟨_, _, hsubtasks, htasks, hmapped'⟩, houtcomes, ⟨_, hin, hscopeIn⟩,
      ⟨_, hout, hscopeOut⟩, hsize, ⟨_, hrisk, rfl⟩, htier, hrollback,
      hconstraints, hprior, hquestions⟩
  · rintro ⟨⟨_, _, hcriteria, hitems, hmapped⟩,
      ⟨_, _, hsubtasks, htasks, hmapped'⟩, houtcomes, ⟨_, hin, hscopeIn⟩,
      ⟨_, hout, hscopeOut⟩, hsize, ⟨_, hrisk, hcross⟩, htier, hrollback,
      hconstraints, hprior, hquestions⟩
    refine ⟨_, hcriteria, _, hitems, _, hmapped, _, hsubtasks, _, htasks, _,
      hmapped', _, houtcomes, _, hin, _, hscopeIn, _, hout, _, hscopeOut, _,
      hsize, _, hrisk, _, htier, _, hrollback, _, hconstraints, _, hprior, _,
      rfl, _, hquestions, ?_⟩
    rw [hcross]
    rfl

theorem planBody_iff (hv : ∃ members, v = .obj members) :
    (∃ p, planBody F v = .ok p) ↔ loosePlan F v := by
  have hcriteria : ∀ raw, (∃ items, iterate raw = .ok items ∧
      ∃ cs, items.mapM criterionFrom = .ok cs) ↔
        objects (φ := φ) looseCriterion raw := fun raw =>
    objects_iff (fun _ => criterionFrom_iff)
      fun s ⟨members, hs, _⟩ => by cases hs
  have hsubtasks : ∀ raw, (∃ items, iterate raw = .ok items ∧
      ∃ ss, items.mapM (subtaskFrom F) = .ok ss) ↔
        objects (looseSubtask F) raw := fun raw =>
    objects_iff (fun _ => subtaskFrom_iff)
      fun s ⟨members, hs, _⟩ => by cases hs
  simp only [planBody_eq_ok hv]
  constructor
  · rintro ⟨p, ⟨rawCriteria, items, hc, hitems, hmapped⟩,
      ⟨rawSubtasks, tasks, hs, htasks, hmapped'⟩, houtcomes,
      ⟨rawIn, hin, hscopeIn⟩, ⟨rawOut, hout, hscopeOut⟩, hsize,
      ⟨risk, hrisk, _⟩, htier, hrollback, _, _, hquestions⟩
    refine Schema.object_intro hv ?_ ?_
    · simp [planRequired, houtcomes, hc, hin, hout, hs, hsize, hrisk, htier,
        hrollback]
    · simp only [List.forall_mem_cons]
      refine ⟨?_, ?_, ?_, ?_, ?_, fun _ h => absurd h List.not_mem_nil⟩
      · intro w hw
        rw [← Option.some.inj (hc.symm.trans hw)]
        exact (hcriteria _).1 ⟨_, hitems, _, hmapped⟩
      · intro w hw
        rw [← Option.some.inj (hin.symm.trans hw)]
        exact iterate_iff.1 ⟨_, hscopeIn⟩
      · intro w hw
        rw [← Option.some.inj (hout.symm.trans hw)]
        exact iterate_iff.1 ⟨_, hscopeOut⟩
      · intro w hw
        rw [← Option.some.inj (hs.symm.trans hw)]
        exact (hsubtasks _).1 ⟨_, htasks, _, hmapped'⟩
      · exact optional_iff.1 ⟨_, hquestions⟩
  · intro h
    have hfield : ∀ key ∈ planRequired, ∃ w, v.field key = some w :=
      fun key hkey => Schema.field_required key h hkey
    simp only [planRequired, List.forall_mem_cons] at hfield
    obtain ⟨⟨outcomes, houtcomes⟩, ⟨rawCriteria, hc⟩, ⟨rawIn, hin⟩,
      ⟨rawOut, hout⟩, ⟨rawSubtasks, hs⟩, ⟨size, hsize⟩, ⟨risk, hrisk⟩,
      ⟨tier, htier⟩, ⟨rollback, hrollback⟩, _⟩ := hfield
    obtain ⟨items, hitems, criteria, hmapped⟩ :=
      (hcriteria _).2 (Schema.field_schema h (by simp) hc)
    obtain ⟨tasks, htasks, subtasks, hmapped'⟩ :=
      (hsubtasks _).2 (Schema.field_schema h (by simp) hs)
    have hscope : iterable rawIn ∧ iterable rawOut :=
      ⟨Schema.field_schema h (by simp) hin,
        Schema.field_schema h (by simp) hout⟩
    obtain ⟨scopeIn, hscopeIn⟩ := iterate_iff.2 hscope.1
    obtain ⟨scopeOut, hscopeOut⟩ := iterate_iff.2 hscope.2
    have hoptional : ∀ w, v.field "open_questions" = some w →
        emptyOr F iterable w := fun w hw =>
      Schema.field_schema h (by simp) hw
    obtain ⟨questions, hquestions⟩ := optional_iff.2 hoptional
    exact ⟨⟨outcomes, criteria, scopeIn, scopeOut, subtasks, size,
      truthy F risk, tier, rollback, _, _, questions⟩,
      ⟨_, _, hc, hitems, hmapped⟩, ⟨_, _, hs, htasks, hmapped'⟩, houtcomes,
      ⟨_, hin, hscopeIn⟩, ⟨_, hout, hscopeOut⟩, hsize, ⟨_, hrisk, rfl⟩,
      htier, hrollback, rfl, rfl, hquestions⟩

theorem mapM_reads {α : Type} {S : Schema φ} {R : Json φ → α → Prop}
    {f : Json φ → Except Raised α} {raw : Json φ} {items : List (Json φ)}
    {as : List α} (hraw : Schema.array S raw)
    (hitems : iterate raw = .ok items) (hmapped : items.mapM f = .ok as)
    (hreads : ∀ v a, S v → f v = .ok a → R v a) :
    raw = .arr items ∧ List.Forall₂ R items as := by
  obtain ⟨items', rfl, hS⟩ := hraw
  obtain rfl := Except.ok.inj hitems
  refine ⟨rfl, ?_⟩
  rw [mapM_eq_ok] at hmapped
  induction hmapped with
  | nil => exact .nil
  | cons hhead _ ih =>
    exact .cons (hreads _ _ (hS _ List.mem_cons_self) hhead)
      (ih (fun v hv => hS v (List.mem_cons_of_mem _ hv)) rfl)

theorem plan_reads {p : PlanOutput φ} (h : planOutputSchema v)
    (hp : PlanBuilt F v p) : PlanReads v p := by
  obtain ⟨⟨rawCriteria, items, hc, hitems, hmapped⟩,
    ⟨rawSubtasks, tasks, hs, htasks, hmapped'⟩, houtcomes,
    ⟨rawIn, hin, hscopeIn⟩, ⟨rawOut, hout, hscopeOut⟩, hsize,
    ⟨risk, hrisk, hcross⟩, htier, hrollback, hconstraints, hprior,
    hquestions⟩ := hp
  obtain ⟨rfl, hcriteria⟩ := mapM_reads
    (S := acceptanceCriterionSchema) (R := CriterionReads)
    (Schema.field_schema h (by simp) hc) hitems hmapped
    fun v c hv hfrom => criterion_reads hv (criterionFrom_eq_ok.1 hfrom)
  obtain ⟨rfl, hsubtasks⟩ := mapM_reads
    (S := subtaskSchema) (R := SubTaskReads)
    (Schema.field_schema h (by simp) hs) htasks hmapped'
    fun v s hv hfrom => subtask_reads hv (subtaskFrom_eq_ok.1 hfrom)
  have harrays : Schema.array .string rawIn ∧ Schema.array .string rawOut :=
    ⟨Schema.field_schema h (by simp) hin,
      Schema.field_schema h (by simp) hout⟩
  have hbool : Schema.boolean risk := Schema.field_schema h (by simp) hrisk
  obtain ⟨b, rfl⟩ := hbool
  refine ⟨houtcomes, ⟨items, hc, hcriteria⟩, ?_, ?_, ⟨tasks, hs, hsubtasks⟩,
    hsize, ?_, htier, hrollback, hconstraints, hprior, ?_⟩
  · rw [hin, iterate_array harrays.1 hscopeIn]
  · rw [hout, iterate_array harrays.2 hscopeOut]
  · rw [hrisk, ← hcross]
    rfl
  · cases hfield : v.field "open_questions" with
    | none =>
      rw [hfield] at hquestions
      exact Or.inr ⟨Or.inl rfl, (Except.ok.inj hquestions).symm⟩
    | some w =>
      have hnullable : Schema.nullable (.array .string) w :=
        Schema.field_schema h (by simp) hfield
      rw [hfield] at hquestions
      rcases hnullable with rfl | ⟨items, rfl, _⟩
      · exact Or.inr ⟨Or.inr rfl, (Except.ok.inj hquestions).symm⟩
      · exact Or.inl (by rw [tupleOr_array hquestions])

theorem iterable_of_array {S : Schema φ} (h : Schema.array S v) :
    iterable v := by
  obtain ⟨items, rfl, _⟩ := h
  exact Or.inl ⟨items, rfl⟩

theorem looseCriterion_of_schema (h : acceptanceCriterionSchema v) :
    looseCriterion v := by
  refine Schema.object_mono ?_ (by simp) h
  intro p hp
  obtain rfl := List.mem_singleton.1 hp
  exact ⟨.array .string, by simp, fun w hw => iterable_of_array hw⟩

theorem looseSubtask_of_schema (h : subtaskSchema v) : looseSubtask F v := by
  refine Schema.object_mono ?_ (by simp) h
  intro p hp
  obtain rfl := List.mem_singleton.1 hp
  exact ⟨.array .string, by simp, fun w hw => Or.inr (iterable_of_array hw)⟩

theorem loosePlan_of_schema (h : planOutputSchema v) : loosePlan F v := by
  refine Schema.object_mono ?_ (fun _ h => h) h
  simp only [List.forall_mem_cons]
  refine ⟨?_, ?_, ?_, ?_, ?_, fun _ h => absurd h List.not_mem_nil⟩
  · exact ⟨.array acceptanceCriterionSchema, by simp, fun w hw =>
      Or.inl (Schema.array_mono (fun v => looseCriterion_of_schema) hw)⟩
  · exact ⟨.array .string, by simp, fun w hw => iterable_of_array hw⟩
  · exact ⟨.array .string, by simp, fun w hw => iterable_of_array hw⟩
  · exact ⟨.array subtaskSchema, by simp, fun w hw =>
      Or.inl (Schema.array_mono (fun v => looseSubtask_of_schema) hw)⟩
  · refine ⟨.nullable (.array .string), by simp, fun w hw => ?_⟩
    rcases hw with rfl | hw
    · exact Or.inl rfl
    · exact Or.inr (iterable_of_array hw)

end Plans

-- ==== diffs

section Diffs

variable {φ : Type} {F : Floats φ} {P : Platform} {v : Json φ}

/-- What a diff is made of. -/
structure DiffBuilt (F : Floats φ) (P : Platform) (v : Json φ)
    (d : DiffOutput φ) : Prop where
  files_touched : ∃ raw, v.field "files_touched" = some raw ∧
    iterate raw = .ok d.filesTouched
  lines_changed : ∃ raw, v.field "lines_changed" = some raw ∧
    toInt F P raw = .ok d.linesChanged
  commit_message : v.field "commit_message" = some d.commitMessage
  subtask_id : (v.field "subtask_id").getD .null = d.subtaskId

theorem diffBody_eq_ok {d : DiffOutput φ}
    (hv : ∃ members, v = .obj members) :
    diffBody F P v = .ok d ↔ DiffBuilt F P v d := by
  simp only [diffBody, bind_eq_ok, require_eq_ok, getOr_eq_ok hv]
  constructor
  · rintro ⟨rawFiles, hfiles, files, hiterate, rawLines, hlines, lines, hint,
      message, hmessage, subtask, hsubtask, hd⟩
    obtain rfl := Except.ok.inj hd
    exact ⟨⟨_, hfiles, hiterate⟩, ⟨_, hlines, hint⟩, hmessage, hsubtask⟩
  · rintro ⟨⟨_, hfiles, hiterate⟩, ⟨_, hlines, hint⟩, hmessage, hsubtask⟩
    exact ⟨_, hfiles, _, hiterate, _, hlines, _, hint, _, hmessage, _,
      hsubtask, rfl⟩

theorem diffBody_iff (hv : ∃ members, v = .obj members) :
    (∃ d, diffBody F P v = .ok d) ↔ looseDiff F P v := by
  simp only [diffBody_eq_ok hv]
  constructor
  · rintro ⟨d, ⟨rawFiles, hfiles, hiterate⟩, ⟨rawLines, hlines, hint⟩,
      hmessage, _⟩
    refine Schema.object_intro hv ?_ ?_
    · simp [diffRequired, hfiles, hlines, hmessage]
    · simp only [List.forall_mem_cons]
      refine ⟨?_, ?_, fun _ h => absurd h List.not_mem_nil⟩
      · intro w hw
        rw [← Option.some.inj (hfiles.symm.trans hw)]
        exact iterate_iff.1 ⟨_, hiterate⟩
      · intro w hw
        rw [← Option.some.inj (hlines.symm.trans hw)]
        exact toInt_iff.1 ⟨_, hint⟩
  · intro h
    obtain ⟨rawFiles, hfiles⟩ :=
      Schema.field_required "files_touched" h (by simp [diffRequired])
    obtain ⟨rawLines, hlines⟩ :=
      Schema.field_required "lines_changed" h (by simp [diffRequired])
    obtain ⟨message, hmessage⟩ :=
      Schema.field_required "commit_message" h (by simp [diffRequired])
    have hparts : iterable rawFiles ∧ numeral F P rawLines :=
      ⟨Schema.field_schema h (by simp) hfiles,
        Schema.field_schema h (by simp) hlines⟩
    obtain ⟨files, hiterate⟩ := iterate_iff.2 hparts.1
    obtain ⟨lines, hint⟩ := toInt_iff.2 hparts.2
    exact ⟨⟨files, lines, message, _⟩, ⟨_, hfiles, hiterate⟩,
      ⟨_, hlines, hint⟩, hmessage, rfl⟩

theorem diff_reads {d : DiffOutput φ} (h : diffOutputSchema F v)
    (hd : DiffBuilt F P v d) : DiffReads F v d := by
  obtain ⟨⟨rawFiles, hfiles, hiterate⟩, ⟨rawLines, hlines, hint⟩, hmessage,
    hsubtask⟩ := hd
  have harray : Schema.array .string rawFiles :=
    Schema.field_schema h (by simp) hfiles
  have hinteger : Schema.integer F rawLines :=
    Schema.field_schema h (by simp) hlines
  obtain ⟨n, hn⟩ := hinteger
  have heq : n = d.linesChanged :=
    Except.ok.inj ((toInt_integer hn).symm.trans hint)
  refine ⟨?_, ⟨rawLines, hlines, heq ▸ hn⟩, hmessage, hsubtask⟩
  rw [hfiles, iterate_array harray hiterate]

theorem looseDiff_of_schema (h : diffOutputSchema F v) :
    looseDiff F P v := by
  refine Schema.object_mono ?_ (fun _ h => h) h
  simp only [List.forall_mem_cons]
  refine ⟨?_, ?_, fun _ h => absurd h List.not_mem_nil⟩
  · exact ⟨.array .string, by simp, fun w hw => iterable_of_array hw⟩
  · refine ⟨.integer F, by simp, fun w hw => ?_⟩
    obtain ⟨n, hn⟩ := hw
    exact toInt_iff.1 ⟨n, toInt_integer hn⟩

end Diffs

-- ==== exceptions

section Exceptions

variable {φ : Type} {F : Floats φ} {P : Platform} {v : Json φ}

/-- The exceptions that a plan decoder knows. -/
def Expected (exn : Raised) : Prop :=
  exn ≠ .valueError ∧ exn ≠ .overflowError

theorem expected_missing (context key : String) :
    Expected (.missing context key) := ⟨nofun, nofun⟩

theorem expected_typeError : Expected .typeError := ⟨nofun, nofun⟩

theorem expected_attributeError : Expected .attributeError := ⟨nofun, nofun⟩

theorem require_fails (context key : String) :
    Fails Expected (require context key v) := by
  cases v with
  | obj members =>
    rw [require]
    split
    · exact .ok _
    · exact .error (expected_missing _ _)
  | str s =>
    rw [require]
    split
    · exact .error expected_typeError
    · exact .error (expected_missing _ _)
  | arr items =>
    rw [require]
    split
    · exact .error expected_typeError
    · exact .error (expected_missing _ _)
  | _ => exact .error expected_typeError

theorem getOr_fails (key : String) (default : Json φ) :
    Fails Expected (getOr key default v) := by
  cases v with
  | obj members => exact .ok _
  | _ => exact .error expected_attributeError

theorem iterate_fails (v : Json φ) : Fails Expected (iterate v) := by
  cases v with
  | arr items => exact .ok _
  | str s => exact .ok _
  | obj members => exact .ok _
  | _ => exact .error expected_typeError

theorem tupleOr_fails (v : Json φ) : Fails Expected (tupleOr F v) := by
  rw [tupleOr]
  split
  · exact iterate_fails v
  · exact .ok _

theorem criterionFrom_fails (v : Json φ) :
    Fails Expected (criterionFrom v) :=
  .bind (require_fails _ _) fun _ => .bind (require_fails _ _) fun _ =>
    .bind (require_fails _ _) fun _ => .bind (iterate_fails _) fun _ => .ok _

theorem subtaskFrom_fails (v : Json φ) :
    Fails Expected (subtaskFrom F v) :=
  .bind (require_fails _ _) fun _ => .bind (require_fails _ _) fun _ =>
    .bind (getOr_fails _ _) fun _ => .bind (getOr_fails _ _) fun _ =>
      .bind (tupleOr_fails _) fun _ => .bind (getOr_fails _ _) fun _ => .ok _

theorem planBody_fails : Fails Expected (planBody F v) := by
  refine .bind (require_fails _ _) fun _ => ?_
  refine .bind (iterate_fails _) fun _ => ?_
  refine .bind (.mapM criterionFrom_fails _) fun _ => ?_
  refine .bind (require_fails _ _) fun _ => ?_
  refine .bind (iterate_fails _) fun _ => ?_
  refine .bind (.mapM subtaskFrom_fails _) fun _ => ?_
  refine .bind (require_fails _ _) fun _ => ?_
  refine .bind (require_fails _ _) fun _ => ?_
  refine .bind (iterate_fails _) fun _ => ?_
  refine .bind (require_fails _ _) fun _ => ?_
  refine .bind (iterate_fails _) fun _ => ?_
  refine .bind (require_fails _ _) fun _ => ?_
  refine .bind (require_fails _ _) fun _ => ?_
  refine .bind (require_fails _ _) fun _ => ?_
  refine .bind (require_fails _ _) fun _ => ?_
  refine .bind (getOr_fails _ _) fun _ => ?_
  refine .bind (getOr_fails _ _) fun _ => ?_
  refine .bind (getOr_fails _ _) fun _ => ?_
  refine .bind (tupleOr_fails _) fun _ => ?_
  exact .ok _

theorem toInt_overflow :
    toInt F P v = .error .overflowError ↔ infinite F v := by
  cases v with
  | float x =>
    rw [toInt, infinite]
    cases htruncate : F.truncate x <;> simp [htruncate]
  | str s =>
    rw [toInt, infinite]
    cases hread : pyInt P s <;> simp
  | _ => simp [toInt, infinite]

theorem diffBody_overflow (hv : ∃ members, v = .obj members) :
    diffBody F P v = .error .overflowError ↔ overflowing F v := by
  constructor
  · intro h
    rcases bind_eq_error.1 h with h | ⟨rawFiles, hfiles, h⟩
    · exact absurd rfl (require_fails _ _ _ h).2
    rcases bind_eq_error.1 h with h | ⟨files, hiterate, h⟩
    · exact absurd rfl (iterate_fails _ _ h).2
    rcases bind_eq_error.1 h with h | ⟨rawLines, hlines, h⟩
    · exact absurd rfl (require_fails _ _ _ h).2
    rw [require_eq_ok] at hfiles hlines
    rcases bind_eq_error.1 h with h | ⟨lines, hint, h⟩
    · refine Schema.object_intro hv (by simp [hfiles, hlines]) ?_
      simp only [List.forall_mem_cons]
      refine ⟨?_, ?_, fun _ h => absurd h List.not_mem_nil⟩
      · intro w hw
        rw [← Option.some.inj (hfiles.symm.trans hw)]
        exact iterate_iff.1 ⟨_, hiterate⟩
      · intro w hw
        rw [← Option.some.inj (hlines.symm.trans hw)]
        exact toInt_overflow.1 h
    rcases bind_eq_error.1 h with h | ⟨message, hmessage, h⟩
    · exact absurd rfl (require_fails _ _ _ h).2
    rcases bind_eq_error.1 h with h | ⟨subtask, hsubtask, h⟩
    · exact absurd rfl (getOr_fails _ _ _ h).2
    cases h
  · intro h
    obtain ⟨rawFiles, hfiles⟩ :=
      Schema.field_required "files_touched" h (by simp)
    obtain ⟨rawLines, hlines⟩ :=
      Schema.field_required "lines_changed" h (by simp)
    have hparts : iterable rawFiles ∧ infinite F rawLines :=
      ⟨Schema.field_schema h (by simp) hfiles,
        Schema.field_schema h (by simp) hlines⟩
    obtain ⟨files, hiterate⟩ := iterate_iff.2 hparts.1
    refine bind_eq_error.2 (Or.inr ⟨rawFiles, require_eq_ok.2 hfiles, ?_⟩)
    refine bind_eq_error.2 (Or.inr ⟨files, hiterate, ?_⟩)
    refine bind_eq_error.2 (Or.inr ⟨rawLines, require_eq_ok.2 hlines, ?_⟩)
    exact bind_eq_error.2 (Or.inl (toInt_overflow.2 hparts.2))

end Exceptions

-- ==== strictness

section Strictness

variable {φ α : Type} {catches : List Raised} {body : Except Raised α}
  {vendor : Vendor}

theorem convert_eq_ok {a : α} : convert vendor catches body = .ok a ↔
    body = .ok a := by
  cases body with
  | ok a' =>
    exact ⟨fun h => congrArg Except.ok (Except.ok.inj h),
      fun h => congrArg Except.ok (Except.ok.inj h)⟩
  | error exn =>
    refine iff_of_false (fun h => ?_) fun h => (by cases h)
    rw [convert] at h
    split at h <;> cases h

theorem convert_eq_malformed {cause : Raised} :
    convert vendor catches body = .error (.malformed vendor cause) ↔
      body = .error cause ∧ (cause.own = true ∨ cause ∈ catches) := by
  cases body with
  | ok a =>
    exact iff_of_false (fun h => (by cases h)) fun h => by cases h.1
  | error exn =>
    rw [convert]
    split
    · next hknown =>
      constructor
      · intro h
        injection h with h
        injection h with _ h
        rw [← h]
        exact ⟨rfl, hknown⟩
      · rintro ⟨h, _⟩
        rw [Except.error.inj h]
    · next hunknown =>
      constructor
      · intro h
        injection h with h
        cases h
      · rintro ⟨h, hknown⟩
        rw [Except.error.inj h] at hunknown
        exact absurd hknown hunknown

/-- The decoders of the vendors convert what one body comes to. They are
strict at a value that conforms, and at one at which the body fails with
an exception that is converted. -/
theorem strictAt_iff {conforms : Schema φ} {reads : Json φ → α → Prop}
    {decode : Vendor → Json φ → Except Exn α} {v : Json φ}
    (hdecode : ∀ vendor, decode vendor v = convert vendor catches body)
    (hreads : conforms v → ∃ a, body = .ok a ∧ reads v a) :
    StrictAt conforms reads decode v ↔ conforms v ∨ ∃ cause,
      body = .error cause ∧ (cause.own = true ∨ cause ∈ catches) := by
  constructor
  · intro h
    by_cases hv : conforms v
    · exact Or.inl hv
    · obtain ⟨cause, hcause⟩ := h.rejects hv .bedrock
      rw [hdecode] at hcause
      exact Or.inr ⟨cause, convert_eq_malformed.1 hcause⟩
  · intro h
    refine ⟨fun hv vendor => ?_, fun hv vendor => ?_, ?_⟩
    · obtain ⟨a, ha, hread⟩ := hreads hv
      refine ⟨a, ?_, hread⟩
      rw [hdecode]
      exact convert_eq_ok.2 ha
    · rcases h with h | ⟨cause, hcause⟩
      · exact absurd h hv
      · refine ⟨cause, ?_⟩
        rw [hdecode]
        exact convert_eq_malformed.2 hcause
    · intro vendor vendor' out hout
      rw [hdecode] at hout ⊢
      exact convert_eq_ok.2 (convert_eq_ok.1 hout)

end Strictness

section Main

variable {φ : Type} (F : Floats φ) (P : Platform) (v : Json φ)

theorem planDecoder_eq (vendor : Vendor) : planDecoder F vendor v =
    convert vendor [.typeError, .attributeError]
      (ofObject (planBody F) v) := by
  cases vendor <;> rfl

theorem diffDecoder_eq (vendor : Vendor) : diffDecoder F P vendor v =
    convert vendor [.typeError, .attributeError, .valueError]
      (ofObject (diffBody F P) v) := by
  cases vendor <;> rfl

theorem exists_error {α : Type} {body : Except Raised α}
    (h : ¬ ∃ a, body = .ok a) : ∃ cause, body = .error cause := by
  cases body with
  | ok a => exact absurd ⟨a, rfl⟩ h
  | error cause => exact ⟨cause, rfl⟩

theorem plan_converted : (∃ cause, ofObject (planBody F) v = .error cause ∧
    (cause.own = true ∨ cause ∈ [.typeError, .attributeError])) ↔
      ¬ loosePlan F v := by
  cases v with
  | obj members =>
    show (∃ cause, planBody F (.obj members) = .error cause ∧ _) ↔ _
    rw [← planBody_iff ⟨members, rfl⟩]
    constructor
    · rintro ⟨cause, hcause, _⟩ ⟨p, hp⟩
      rw [hp] at hcause
      cases hcause
    · intro h
      obtain ⟨cause, hcause⟩ := exists_error h
      obtain ⟨hvalue, hoverflow⟩ := planBody_fails cause hcause
      refine ⟨cause, hcause, ?_⟩
      cases cause with
      | valueError => exact absurd rfl hvalue
      | overflowError => exact absurd rfl hoverflow
      | _ => simp [Raised.own]
  | _ =>
    exact iff_of_true ⟨_, rfl, Or.inl rfl⟩ fun ⟨_, h, _⟩ => by cases h

theorem diff_converted : (∃ cause, ofObject (diffBody F P) v = .error cause ∧
    (cause.own = true ∨
      cause ∈ [.typeError, .attributeError, .valueError])) ↔
      ¬ (looseDiff F P v ∨ overflowing F v) := by
  cases v with
  | obj members =>
    show (∃ cause, diffBody F P (.obj members) = .error cause ∧ _) ↔ _
    rw [← diffBody_iff ⟨members, rfl⟩, ← diffBody_overflow ⟨members, rfl⟩]
    constructor
    · rintro ⟨cause, hcause, hknown⟩ (⟨d, hd⟩ | hoverflow)
      · rw [hd] at hcause
        cases hcause
      · rw [hoverflow] at hcause
        rw [← Except.error.inj hcause] at hknown
        simp [Raised.own] at hknown
    · intro h
      rw [not_or] at h
      obtain ⟨cause, hcause⟩ := exists_error h.1
      refine ⟨cause, hcause, ?_⟩
      cases cause with
      | overflowError => exact absurd hcause h.2
      | _ => simp [Raised.own]
  | _ =>
    refine iff_of_true ⟨_, rfl, Or.inl rfl⟩ ?_
    rintro (⟨_, h, _⟩ | ⟨_, h, _⟩) <;> cases h

/-- The plan decoders are strict at a value exactly if it conforms, or is
not taken for a plan; the diff decoders, if it conforms, or is neither
taken for a diff nor too large for one. -/
theorem decoding_strict_iff :
    (StrictAt planOutputSchema PlanReads (planDecoder F) v ↔
      planOutputSchema v ∨ ¬ loosePlan F v) ∧
    (StrictAt (diffOutputSchema F) (DiffReads F) (diffDecoder F P) v ↔
      diffOutputSchema F v ∨
        ¬ (looseDiff F P v ∨ overflowing F v)) := by
  constructor
  · rw [strictAt_iff (planDecoder_eq F v), plan_converted]
    intro h
    obtain ⟨members, rfl, _⟩ := id h
    obtain ⟨p, hp⟩ := (planBody_iff ⟨members, rfl⟩).2 (loosePlan_of_schema h)
    exact ⟨p, hp, plan_reads h ((planBody_eq_ok ⟨members, rfl⟩).1 hp)⟩
  · rw [strictAt_iff (diffDecoder_eq F P v), diff_converted]
    intro h
    obtain ⟨members, rfl, _⟩ := id h
    obtain ⟨d, hd⟩ := (diffBody_iff ⟨members, rfl⟩).2 (looseDiff_of_schema h)
    exact ⟨d, hd, diff_reads h ((diffBody_eq_ok ⟨members, rfl⟩).1 hd)⟩

end Main

namespace Sample

/-- No floats. -/
def floats : Floats Unit where
  isZero := fun _ => true
  truncate := fun _ => .whole 0

/-- No letters or digits beyond ASCII. -/
def platform : Platform where
  lower := Dispatch.asciiLower
  lower_ascii := Dispatch.asciiLower_agrees
  decimal := fun _ => none
  decimal_lt := Dispatch.no_decimal

/-- A diff whose files are one string. -/
def diff : Json Unit :=
  .obj [("files_touched", .str "app"), ("lines_changed", .int 3),
    ("commit_message", .str "Fix.")]

end Sample

/-- A string is taken for an array of strings. -/
theorem string_for_array : ¬ StrictAt (diffOutputSchema Sample.floats)
    (DiffReads Sample.floats) (diffDecoder Sample.floats Sample.platform)
      Sample.diff := by
  intro h
  have hfiles : ¬ diffOutputSchema Sample.floats Sample.diff := by
    intro hconforms
    have hfield : Sample.diff.field "files_touched" = some (.str "app") :=
      rfl
    have harray : Schema.array .string (.str "app" : Json Unit) :=
      Schema.field_schema hconforms (by simp) hfield
    obtain ⟨items, hitems, _⟩ := harray
    cases hitems
  obtain ⟨cause, hcause⟩ := h.rejects hfiles .bedrock
  have hok : (diffDecoder Sample.floats Sample.platform .bedrock
      Sample.diff).isOk = true := rfl
  rw [hcause] at hok
  cases hok

end SdlcOs.Backend.Decode
