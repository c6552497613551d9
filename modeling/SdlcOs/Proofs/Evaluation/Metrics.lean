/-
Whether a tenant's reports agree with the registry and each other.

# What is promised

The cost report's total is the sum over all attempts of all runs and what
it calls completed and discarded; it counts the completed runs, each of
which has one entry in the cycle-time report; and the two horizons have
all runs between them (`Conserved`).

# Where it is kept

All three list ten thousand runs and no more. A run has an attempt always,
so the cost report skips none, but `append_attempt` may start one at
`completed`, which is never sealed after: such a run is completed, and
its cycle time is skipped. There is no other way for a completed run to
have an open attempt (`Closing`), so the promise is kept exactly up to ten
thousand runs none of whose attempts starts at `completed`
(`metrics_conserved`).
-/
import Mathlib
import SdlcOs.Data.Traverse
import SdlcOs.Evaluation.Metrics
import SdlcOs.Proofs.Registry.Lifecycle
import SdlcOs.Proofs.Registry.Times

namespace SdlcOs.Evaluation

open Data
open Effects
open Registry
open Registry.Service

-- ==== promise

/-- The runs of a tenant. -/
def runsOf (db : Db) (t : TenantArg) : List RunRow :=
  db.runs.filter fun r => .text r.tenantId = t

/-- The attempts of a run. -/
def attemptsOf (db : Db) (r : RunRow) : List AttemptRow :=
  db.attempts.filter (·.runId = r.id)

/-- The promise, for the reports of a tenant. -/
structure Conserved (C : Clock) (w : World) (t : TenantArg) : Prop where
  total : ∀ cost, (computeCostPerCompletedTask cost w t).totalCost =
    ((runsOf w.db t).map fun r =>
      ((attemptsOf w.db r).map cost).sum).sum
  split : ∀ cost, (computeCostPerCompletedTask cost w t).totalCost =
    (computeCostPerCompletedTask cost w t).completedTaskCost +
      (computeCostPerCompletedTask cost w t).discardedCost
  count : ∀ cost, (computeCostPerCompletedTask cost w t).completedTaskCount =
    (runsOf w.db t).countP isCompleted
  entries : ∀ baseline : ℚ, 0 ≤ baseline → ∃ report,
    computeCycleTime C w t (some baseline) = .ok report ∧
      report.entries.length = (runsOf w.db t).countP isCompleted ∧
      (report.entries.map (·.runId)).Perm
        (((runsOf w.db t).filter isCompleted).map (·.id))
  horizons : ∀ rework thresholds now, ∃ report,
    computeTaskSuccessRate C w t rework thresholds now = .ok report ∧
      report.shortTaskCount + report.longHorizonCount =
        (runsOf w.db t).length

/-- A text that the clock is read as. -/
def Clock.IsTime (C : Clock) (ts : String) : Prop :=
  (C.parseIso ts).isSome = true

/-- The condition, in a state: ten thousand runs at most, and no attempt
that starts at `completed`. -/
structure Countable (db : Db) (t : TenantArg) : Prop where
  few : (runsOf db t).length ≤ 10000
  started : ∀ a ∈ db.attempts, .text a.tenantId = t →
    a.startingStage ≠ .completed

/-- The condition, on a committed transaction: it starts no attempt at
`completed`, and creates no run after the ten thousandth. -/
def Uncountable (t : TenantArg) (db : Db) : Txn → Prop
  | .create row .. => .text row.tenantId = t ∧
      10000 ≤ (runsOf db t).length
  | .append tenantId _ _ _ _ start .. => .text tenantId = t ∧
      start = .completed
  | _ => False

-- ==== closing

/-- Where a run's attempts are sealed: all of them where it is completed,
but for a last one that started so. -/
structure Closing (v : View) : Prop where
  consistent : Consistent v
  open_ : v.row.stage ≠ .completed →
    ∀ a ∈ v.attempts, a.startingStage ≠ .completed
  done : v.row.stage = .completed →
    (∀ a ∈ v.attempts, a.startingStage ≠ .completed ∧ a.endTs ≠ none) ∨
      ∃ past a, v.attempts = past ++ [a] ∧ a.startingStage = .completed ∧
        a.endTs = none

theorem completed_final {next : Stage}
    (h : Stage.completed.isLegalTransition next = true) : False := by
  cases next <;> cases h

theorem closing_inductive (bad : RunRow → Txn → Prop) :
    Inductive bad Closing where
  created := by
    intro row attemptId entryId hstage
    refine ⟨consistent_created hstage, ?_, ?_⟩
    · intro _ a ha
      rw [List.mem_singleton.1 ha]
      exact fun h => (by cases h)
    · intro hdone
      rw [show (View.created row attemptId entryId).row.stage = row.stage
        from rfl, hstage] at hdone
      cases hdone
  step := by
    intro v v' txn hv hstep hgood
    have hkept : ∀ {current ts : String} {a : AttemptRow},
        a ∈ v.attempts.map (AttemptRow.close current v.row.tenantId ts) →
          ∃ b ∈ v.attempts, a.startingStage = b.startingStage := by
      intro current ts a ha
      obtain ⟨b, hb, rfl⟩ := List.mem_map.1 ha
      refine ⟨b, hb, ?_⟩
      unfold AttemptRow.close
      split
      · rfl
      · rfl
    refine ⟨(consistent_inductive bad).step hv.consistent hstep hgood, ?_, ?_⟩
    · cases hstep with
      | other hid => exact hv.open_
      | @append current reason start trace ts attemptId entryId
          hcurrent hstage hattempt hentry =>
          intro hopen a ha
          have hstart : start ≠ .completed := hopen
          have hold : v.row.stage ≠ .completed := by
            rintro hdone
            rcases hstage with hsame | hlegal
            · exact hstart (hsame.trans hdone)
            · rw [hdone] at hlegal
              exact completed_final hlegal
          rcases List.mem_append.1 ha with ha | ha
          · obtain ⟨b, hb, heq⟩ := hkept ha
            rw [heq]
            exact hv.open_ hold b hb
          · rw [List.mem_singleton.1 ha]
            exact hstart
      | @transition current next ts entryId hcurrent hlegal =>
        intro _ a ha
        have hold : v.row.stage ≠ .completed := by
          rintro hdone
          rw [hdone] at hlegal
          exact completed_final hlegal
        unfold View.transitioned at ha
        dsimp only at ha
        split at ha
        · obtain ⟨b, hb, heq⟩ := hkept ha
          rw [heq]
          exact hv.open_ hold b hb
        · exact hv.open_ hold a ha
      | @write fields ts hstage hcurrent =>
        intro hopen
        refine hv.open_ fun hdone => hopen ?_
        simp [RunRow.set, hstage, hdone]
    · cases hstep with
      | other hid => exact hv.done
      | append hcurrent hstage hattempt hentry =>
        exact fun hdone => Or.inr ⟨_, _, rfl, hdone, rfl⟩
      | @transition current next ts entryId hcurrent hlegal =>
        intro hdone
        have hnext : next = .completed := hdone
        have hold : v.row.stage ≠ .completed := by
          rintro hdone
          rw [hdone] at hlegal
          exact completed_final hlegal
        refine Or.inl fun a ha => ?_
        unfold View.transitioned at ha
        dsimp only at ha
        rw [hnext, if_pos (by decide)] at ha
        refine ⟨?_, hv.consistent.attempts_ended hcurrent a ha⟩
        obtain ⟨b, hb, heq⟩ := hkept ha
        rw [heq]
        exact hv.open_ hold b hb
      | @write fields ts hstage hcurrent =>
        intro hdone
        refine hv.done ?_
        simpa [RunRow.set, hstage] using hdone

-- ==== store

/-- What every store keeps that the reports rely on. -/
structure Kept (C : Clock) (db : Db) : Prop where
  views : Views Closing db
  timed : Timed C.IsTime db
  named : NamedRuns db

section Store

variable {C : Clock} {w : World} {t : TenantArg} {r : RunRow}

theorem mem_runsOf {db : Db} :
    r ∈ runsOf db t ↔ r ∈ db.runs ∧ .text r.tenantId = t := by
  rw [runsOf, List.mem_filter, decide_eq_true_eq]

theorem Kept.valid (h : Kept C w.db) (hr : r ∈ runsOf w.db t) :
    t.isValid = true := by
  obtain ⟨hmem, htenant⟩ := mem_runsOf.1 hr
  rw [← htenant]
  exact decide_eq_true (h.named r hmem).2

theorem listed_eq : listed w t = w.db.listRuns t none 10000 0 := by
  unfold listed dataOf Service.listRuns
  cases hlist : w.db.listRuns t none 10000 0 with
  | nil => simp [ask, Prog.perform, machine, exec, Machine.complete, hlist]
  | cons r l => simp [ask, Prog.perform, machine, exec, Machine.complete, hlist]

theorem data_listAttempts {id : String} (h : (w.db.getRun t id).isSome) :
    dataOf w (Service.listAttempts t id) = w.db.listAttempts id t := by
  obtain ⟨run, hrun⟩ := Option.isSome_iff_exists.1 h
  unfold dataOf Service.listAttempts
  cases hlist : w.db.listAttempts id t with
  | nil =>
    simp [ask, Prog.perform, machine, exec, Machine.complete, hlist, hrun]
  | cons a l =>
    simp [ask, Prog.perform, machine, exec, Machine.complete, hlist, hrun]

theorem Kept.page (h : Kept C w.db) (t : TenantArg) :
    ∃ l : List RunRow, l.Perm (runsOf w.db t) ∧
      listed w t = l.take 10000 := by
  rw [listed_eq, Db.listRuns]
  split
  · next hinvalid =>
    refine ⟨[], ?_, rfl⟩
    rw [show runsOf w.db t = [] from ?_]
    refine List.eq_nil_iff_forall_not_mem.2 fun r hr => ?_
    rw [h.valid hr] at hinvalid
    cases hinvalid
  · refine ⟨(runsOf w.db t).insertionSort fun a b =>
      b.createdAt ≤ a.createdAt, List.perm_insertionSort _ _, ?_⟩
    rw [Db.page, if_neg (by decide)]
    unfold runsOf
    simp

theorem Kept.in_order (h : Kept C w.db) (hr : r ∈ runsOf w.db t) :
    ordered w t r = attemptsOf w.db r := by
  obtain ⟨hmem, htenant⟩ := mem_runsOf.1 hr
  have hv := (h.views.each r hmem).consistent
  have hfound : (w.db.getRun t r.id).isSome := by
    rw [Db.getRun, if_neg, List.find?_isSome]
    · exact ⟨r, hmem, decide_eq_true ⟨rfl, htenant⟩⟩
    · rw [not_or, h.valid hr]
      exact ⟨Bool.false_ne_true ∘ Eq.symm, (h.named r hmem).1⟩
  have hsorted : (attemptsOf w.db r).Pairwise
      fun a b => a.attemptNumber ≤ b.attemptNumber := by
    have hnumbers := hv.numbered
    have hrange : (List.range' 1 (view w.db r).attempts.length).Pairwise
        (· ≤ ·) := by
      exact List.pairwise_le_range'
    rw [← hnumbers] at hrange
    exact List.pairwise_map.1 hrange
  have hfilter : (w.db.attempts.filter fun a =>
      a.runId = r.id ∧ .text a.tenantId = t) = attemptsOf w.db r := by
    refine List.filter_congr fun a ha => ?_
    rw [decide_eq_decide]
    refine ⟨fun h => h.1, fun hid => ⟨hid, ?_⟩⟩
    have hof := hv.attemptTenants a
      (List.mem_filter.2 ⟨ha, decide_eq_true hid⟩)
    rw [hof]
    exact htenant
  unfold ordered
  rw [data_listAttempts hfound, Db.listAttempts, if_neg, hfilter,
    hsorted.insertionSort_eq, hsorted.insertionSort_eq]
  rw [not_or, h.valid hr]
  exact ⟨Bool.false_ne_true ∘ Eq.symm, (h.named r hmem).1⟩

theorem Kept.attempted (h : Kept C w.db) (hr : r ∈ w.db.runs) :
    attemptsOf w.db r ≠ [] := by
  obtain ⟨a, ha, -, hrun, -⟩ := h.views.linked.current r hr
  exact List.ne_nil_of_mem (List.mem_filter.2 ⟨ha, decide_eq_true hrun⟩)

end Store

-- ==== cost

section Cost

variable {C : Clock} {w : World} {t : TenantArg} {cost : AttemptRow → ℚ}

/-- What a run's attempts are spent on: the total grows by their cost, and
is what was completed and discarded, as before. -/
theorem spendAttempts_spec (cost : AttemptRow → ℚ) (completed : Bool)
    (l : List AttemptRow) (s : Spend) :
    (spendAttempts cost completed l s).total =
      s.total + (l.map cost).sum ∧
    (spendAttempts cost completed l s).count = s.count ∧
    (s.total = s.completed + s.discarded →
      (spendAttempts cost completed l s).total =
        (spendAttempts cost completed l s).completed +
          (spendAttempts cost completed l s).discarded) := by
  induction l generalizing s with
  | nil => exact ⟨(add_zero _).symm, rfl, fun h => h⟩
  | cons a l ih =>
    rw [spendAttempts]
    split
    · obtain ⟨htotal, hcount, hsplit⟩ := ih
        { s with total := s.total + cost a
                 completed := s.completed + cost a }
      refine ⟨?_, hcount, fun h => hsplit ?_⟩
      · rw [htotal, List.map_cons, List.sum_cons, add_assoc]
      · dsimp only
        rw [h]
        ring
    · obtain ⟨htotal, hcount, hsplit⟩ := ih
        { s with total := s.total + cost a
                 discarded := s.discarded + cost a }
      refine ⟨?_, hcount, fun h => hsplit ?_⟩
      · rw [htotal, List.map_cons, List.sum_cons, add_assoc]
      · dsimp only
        rw [h]
        ring

theorem spendRuns_spec (h : Kept C w.db) (l : List RunRow)
    (hl : ∀ r ∈ l, r ∈ runsOf w.db t) (s : Spend) :
    (l.foldl (spendRun cost w t) s).total =
      s.total + (l.map fun r => ((attemptsOf w.db r).map cost).sum).sum ∧
    (l.foldl (spendRun cost w t) s).count =
      s.count + l.countP isCompleted ∧
    (s.total = s.completed + s.discarded →
      (l.foldl (spendRun cost w t) s).total =
        (l.foldl (spendRun cost w t) s).completed +
          (l.foldl (spendRun cost w t) s).discarded) := by
  induction l generalizing s with
  | nil => exact ⟨(add_zero _).symm, rfl, fun h => h⟩
  | cons r l ih =>
    have hr := hl r List.mem_cons_self
    have hnonempty : ¬ (attemptsOf w.db r).isEmpty = true := fun hempty =>
      h.attempted (mem_runsOf.1 hr).1 (List.isEmpty_iff.1 hempty)
    have hrun : spendRun cost w t s r =
        spendAttempts cost (isCompleted r) (attemptsOf w.db r)
          (if isCompleted r then { s with count := s.count + 1 }
            else s) := by
      rw [spendRun, h.in_order hr, if_neg hnonempty]
    obtain ⟨htotal, hcount, hsplit⟩ :=
      ih (fun r hr => hl r (List.mem_cons_of_mem _ hr))
        (spendRun cost w t s r)
    obtain ⟨htotal', hcount', hsplit'⟩ := spendAttempts_spec cost
      (isCompleted r) (attemptsOf w.db r)
      (if isCompleted r then { s with count := s.count + 1 } else s)
    rw [← hrun] at htotal' hcount' hsplit'
    rw [List.foldl_cons]
    refine ⟨?_, ?_, fun hs => hsplit (hsplit' ?_)⟩
    · rw [htotal, htotal', List.map_cons, List.sum_cons, ← add_assoc]
      congr 2
      split
      · rfl
      · rfl
    · rw [hcount, hcount', List.countP_cons]
      split
      · dsimp only
        omega
      · omega
    · split
      · exact hs
      · exact hs

end Cost

-- ==== cycle time

section Times

variable {C : Clock} {w : World} {t : TenantArg} {r : RunRow}

/-- The run's last attempt has ended. -/
def ended (w : World) (r : RunRow) : Bool :=
  (attemptsOf w.db r).getLast?.any fun a => a.endTs.isSome

theorem parse_time {ts : String} (h : C.IsTime ts) :
    ∃ x, C.parse ts = .ok x := by
  obtain ⟨x, hx⟩ := Option.isSome_iff_exists.1 h
  exact ⟨x, by rw [Clock.parse, hx]⟩

theorem truthy_time {ts : Option String} (h : ∀ x ∈ ts, C.IsTime x) :
    truthy ts = ts := by
  cases ts with
  | none => rfl
  | some x =>
    have hx : x ≠ "" := by
      rintro rfl
      have htime := h "" rfl
      rw [Clock.IsTime, C.empty] at htime
      cases htime
    rw [truthy, Option.filter_some, if_pos (by simpa using hx)]

theorem getLast?_cons (a : AttemptRow) (l : List AttemptRow) :
    (a :: l).getLast? = some (l.getLast?.getD a) := by
  cases l with
  | nil => rfl
  | cons b l => rw [List.getLast?_cons_cons, List.getLast?_cons]; rfl

theorem cycleEntry_spec (h : Kept C w.db) (hr : r ∈ runsOf w.db t) :
    ∃ o, cycleEntry C w t r = .ok o ∧ o.map (·.runId) =
      if isCompleted r && ended w r then some r.id else none := by
  rw [cycleEntry, h.in_order hr]
  by_cases hdone : isCompleted r = true
  · rw [hdone, if_neg (by decide), Bool.true_and]
    cases hattempts : attemptsOf w.db r with
    | nil => exact absurd hattempts (h.attempted (mem_runsOf.1 hr).1)
    | cons first rest =>
      have htimes : ∀ a ∈ first :: rest, C.IsTime a.startTs ∧
          ∀ ts ∈ a.endTs, C.IsTime ts := by
        intro a ha
        rw [← hattempts] at ha
        exact h.timed a (List.mem_filter.1 ha).1
      have hlast := getLast?_cons first rest
      obtain ⟨x, hx⟩ := parse_time (htimes first List.mem_cons_self).1
      have hends := (htimes _ (List.mem_of_getLast? hlast)).2
      rw [ended, hattempts, hlast, Option.any_some]
      dsimp only
      rw [truthy_time hends]
      cases hend : (rest.getLast?.getD first).endTs with
      | none => exact ⟨none, rfl, rfl⟩
      | some ts =>
        rw [hend] at hends
        obtain ⟨y, hy⟩ := parse_time (hends ts rfl)
        refine ⟨some ⟨r.id, r.jiraKey, (y - x) / 3600⟩, ?_, rfl⟩
        dsimp only
        rw [hy, hx]
        rfl
  · rw [Bool.not_eq_true] at hdone
    rw [hdone]
    exact ⟨none, rfl, rfl⟩

theorem entries_spec (h : Kept C w.db) {l : List RunRow}
    {found : List (Option CycleTimeEntry)}
    (hfound : List.Forall₂ (fun r o => cycleEntry C w t r = .ok o) l found)
    (hl : ∀ r ∈ l, r ∈ runsOf w.db t) :
    (found.filterMap id).map (·.runId) =
      (l.filter fun r => isCompleted r && ended w r).map (·.id) := by
  induction hfound with
  | nil => rfl
  | @cons r o l found hentry _ ih =>
    have hrest := ih fun r hr => hl r (List.mem_cons_of_mem _ hr)
    obtain ⟨o', hentry', hid⟩ := cycleEntry_spec h (hl r List.mem_cons_self)
    obtain rfl : o = o' := Except.ok.inj (hentry.symm.trans hentry')
    rw [List.filter_cons]
    cases o with
    | none =>
      split at hid
      · cases hid
      · next hskip =>
        rw [if_neg hskip, List.filterMap_cons_none (f := id) rfl, hrest]
    | some entry =>
      split at hid
      · next hlisted =>
        rw [if_pos hlisted, List.filterMap_cons_some (f := id) rfl, List.map_cons,
          List.map_cons, hrest]
        exact congrArg (· :: _) (Option.some.inj hid)
      · cases hid

theorem Kept.mem_listed (h : Kept C w.db) (hr : r ∈ listed w t) :
    r ∈ runsOf w.db t := by
  obtain ⟨l, hperm, hlisted⟩ := h.page t
  rw [hlisted] at hr
  exact hperm.subset (List.mem_of_mem_take hr)

theorem cycleTime_spec (h : Kept C w.db) {baseline : ℚ} (hb : 0 ≤ baseline) :
    ∃ report, computeCycleTime C w t (some baseline) = .ok report ∧
      report.entries.map (·.runId) =
        ((listed w t).filter fun r => isCompleted r && ended w r).map
          (·.id) := by
  have hall : ∀ r ∈ listed w t, ∃ o, cycleEntry C w t r = .ok o := by
    intro r hr
    obtain ⟨o, ho, -⟩ := cycleEntry_spec h (h.mem_listed hr)
    exact ⟨o, ho⟩
  obtain ⟨found, hfound⟩ := exists_mapM.2 hall
  unfold computeCycleTime
  dsimp only
  rw [if_neg (not_lt.2 hb), hfound]
  refine ⟨_, rfl, ?_⟩
  exact entries_spec h (mapM_eq_ok.1 hfound) fun r => h.mem_listed

-- ==== success

variable (rework : List String) (thresholds : HorizonThresholds)
  (now : RunRow → ℚ)

theorem tallyRun_spec (h : Kept C w.db) (hr : r ∈ runsOf w.db t)
    (s : Tally) : ∃ s', tallyRun C w t thresholds now rework s r = .ok s' ∧
      s'.shortTotal + s'.longTotal = s.shortTotal + s.longTotal + 1 := by
  have hlong : ∃ b, isLongHorizon C thresholds (now r) (attemptsOf w.db r) =
      .ok b := by
    cases hattempts : attemptsOf w.db r with
    | nil => exact ⟨false, rfl⟩
    | cons first rest =>
      have htimes : ∀ a ∈ first :: rest, C.IsTime a.startTs ∧
          ∀ ts ∈ a.endTs, C.IsTime ts := by
        intro a ha
        rw [← hattempts] at ha
        exact h.timed a (List.mem_filter.1 ha).1
      have hlast := getLast?_cons first rest
      obtain ⟨x, hx⟩ := parse_time (htimes first List.mem_cons_self).1
      have hends := (htimes _ (List.mem_of_getLast? hlast)).2
      rw [isLongHorizon, hx, truthy_time hends]
      cases hend : (rest.getLast?.getD first).endTs with
      | none => exact ⟨_, rfl⟩
      | some ts =>
        rw [hend] at hends
        obtain ⟨y, hy⟩ := parse_time (hends ts rfl)
        dsimp only
        rw [hy]
        exact ⟨_, rfl⟩
  obtain ⟨b, hb⟩ := hlong
  rw [tallyRun, h.in_order hr, hb]
  cases b with
  | true =>
    refine ⟨_, rfl, ?_⟩
    dsimp only
    omega
  | false =>
    refine ⟨_, rfl, ?_⟩
    dsimp only
    omega

theorem tally_spec (h : Kept C w.db) (l : List RunRow)
    (hl : ∀ r ∈ l, r ∈ runsOf w.db t) (s : Tally) :
    ∃ s', l.foldlM (tallyRun C w t thresholds now rework) s = .ok s' ∧
      s'.shortTotal + s'.longTotal =
        s.shortTotal + s.longTotal + l.length := by
  induction l generalizing s with
  | nil => exact ⟨s, rfl, rfl⟩
  | cons r l ih =>
    obtain ⟨s₁, hrun, hone⟩ := tallyRun_spec rework thresholds now h
      (hl r List.mem_cons_self) s
    obtain ⟨s₂, hrest, hmore⟩ :=
      ih (fun r hr => hl r (List.mem_cons_of_mem _ hr)) s₁
    refine ⟨s₂, ?_, ?_⟩
    · rw [List.foldlM_cons, hrun]
      exact hrest
    · rw [hmore, hone, List.length_cons]
      omega

theorem successRate_spec (h : Kept C w.db) : ∃ report,
      computeTaskSuccessRate C w t rework thresholds now = .ok report ∧
        report.shortTaskCount + report.longHorizonCount =
          (listed w t).length := by
  obtain ⟨s, hs, hcount⟩ := tally_spec rework thresholds now h (listed w t)
    (fun r => h.mem_listed) ⟨0, 0, 0, 0⟩
  dsimp only at hcount
  unfold computeTaskSuccessRate
  rw [hs]
  refine ⟨_, rfl, ?_⟩
  dsimp only
  omega

end Times

-- ==== conserved

section Conserved

variable {C : Clock} {w : World} {t : TenantArg} {r : RunRow}

theorem Kept.ended_iff (h : Kept C w.db) (hr : r ∈ w.db.runs)
    (hdone : isCompleted r = true) : ended w r = true ↔
      ∀ a ∈ attemptsOf w.db r, a.startingStage ≠ .completed := by
  rcases (h.views.each r hr).done (of_decide_eq_true hdone) with
    hall | ⟨past, a, hlast, hstart, hend⟩
  · refine iff_of_true ?_ fun a ha => (hall a ha).1
    obtain ⟨a, ha⟩ : ∃ a, (attemptsOf w.db r).getLast? = some a :=
      Option.isSome_iff_exists.1
        (List.getLast?_isSome.2 (h.attempted hr))
    rw [ended, ha, Option.any_some]
    exact Option.isSome_iff_ne_none.2
      (hall a (List.mem_of_getLast? ha)).2
  · have hattempts : attemptsOf w.db r = past ++ [a] := hlast
    refine iff_of_false ?_ fun hall => ?_
    · rw [ended, hattempts, List.getLast?_concat, Option.any_some, hend]
      exact Bool.false_ne_true
    · refine hall a ?_ hstart
      rw [hattempts]
      exact List.mem_append_right _ List.mem_cons_self

theorem Kept.started (h : Kept C w.db) (hr : r ∈ w.db.runs)
    {a : AttemptRow} (ha : a ∈ attemptsOf w.db r)
    (hstart : a.startingStage = .completed) : isCompleted r = true := by
  refine decide_eq_true ?_
  by_contra hopen
  exact (h.views.each r hr).open_ hopen a ha hstart

theorem conserved_of_countable (h : Kept C w.db) (hc : Countable w.db t) :
    Conserved C w t := by
  obtain ⟨l, hperm, hlisted⟩ := h.page t
  rw [List.take_of_length_le (hperm.length_eq ▸ hc.few)] at hlisted
  have hl : ∀ r ∈ l, r ∈ runsOf w.db t := fun r hr => hperm.subset hr
  have hspend : ∀ cost : AttemptRow → ℚ,
      (l.foldl (spendRun cost w t) ⟨0, 0, 0, 0⟩).total =
        0 + (l.map fun r => ((attemptsOf w.db r).map cost).sum).sum ∧
      (l.foldl (spendRun cost w t) ⟨0, 0, 0, 0⟩).count =
        0 + l.countP isCompleted ∧
      ((0 : ℚ) = 0 + 0 →
        (l.foldl (spendRun cost w t) ⟨0, 0, 0, 0⟩).total =
          (l.foldl (spendRun cost w t) ⟨0, 0, 0, 0⟩).completed +
            (l.foldl (spendRun cost w t) ⟨0, 0, 0, 0⟩).discarded) :=
    fun cost => spendRuns_spec h l hl ⟨0, 0, 0, 0⟩
  have hfilter : l.filter (fun r => isCompleted r && ended w r) =
      l.filter isCompleted := by
    refine List.filter_congr fun r hr => ?_
    by_cases hdone : isCompleted r = true
    · obtain ⟨hmem, htenant⟩ := mem_runsOf.1 (hl r hr)
      rw [hdone, Bool.true_and, h.ended_iff hmem hdone]
      intro a ha
      refine hc.started a (List.mem_filter.1 ha).1 ?_
      rw [(h.views.each r hmem).consistent.attemptTenants a ha]
      exact htenant
    · rw [Bool.not_eq_true] at hdone
      rw [hdone, Bool.false_and]
  refine ⟨?_, ?_, ?_, ?_, ?_⟩
  · intro cost
    unfold computeCostPerCompletedTask
    rw [hlisted]
    refine (hspend cost).1.trans ?_
    rw [zero_add]
    exact (hperm.map _).sum_eq
  · intro cost
    unfold computeCostPerCompletedTask
    rw [hlisted]
    exact (hspend cost).2.2 (add_zero 0).symm
  · intro cost
    unfold computeCostPerCompletedTask
    rw [hlisted]
    refine (hspend cost).2.1.trans ?_
    rw [zero_add]
    exact hperm.countP_eq _
  · intro baseline hb
    obtain ⟨report, hreport, hentries⟩ := cycleTime_spec (t := t) h hb
    rw [hlisted, hfilter] at hentries
    have hids : (report.entries.map (·.runId)).Perm
        (((runsOf w.db t).filter isCompleted).map (·.id)) := by
      rw [hentries]
      exact (hperm.filter _).map _
    refine ⟨report, hreport, ?_, hids⟩
    have hlength := hids.length_eq
    rwa [List.length_map, List.length_map, ← List.countP_eq_length_filter]
      at hlength
  · intro rework thresholds now
    obtain ⟨report, hreport, hcount⟩ := successRate_spec (t := t) rework
      thresholds now h
    refine ⟨report, hreport, ?_⟩
    rw [hcount, hlisted, hperm.length_eq]

theorem countable_of_conserved (h : Kept C w.db) (hc : Conserved C w t) :
    Countable w.db t := by
  obtain ⟨l, hperm, hlisted⟩ := h.page t
  have hfew : (runsOf w.db t).length ≤ 10000 := by
    obtain ⟨report, hreport, hcount⟩ := hc.horizons [] {} fun _ => 0
    obtain ⟨report', hreport', hcount'⟩ := successRate_spec (t := t) []
      {} (fun _ => 0) h
    obtain rfl := Except.ok.inj (hreport.symm.trans hreport')
    rw [hcount, hlisted, List.length_take] at hcount'
    omega
  refine ⟨hfew, ?_⟩
  intro a ha htenant hstart
  rw [List.take_of_length_le (hperm.length_eq ▸ hfew)] at hlisted
  obtain ⟨r, hr, hid⟩ := h.views.linked.attemptRun a ha
  have hattempt : a ∈ attemptsOf w.db r :=
    List.mem_filter.2 ⟨ha, decide_eq_true hid.symm⟩
  have hof : r ∈ runsOf w.db t := by
    have htenants : a.tenantId = r.tenantId :=
      (h.views.each r hr).consistent.attemptTenants a hattempt
    rw [htenants] at htenant
    exact mem_runsOf.2 ⟨hr, htenant⟩
  have hdone := h.started hr hattempt hstart
  have hskipped : ¬ ended w r = true := fun hended =>
    (h.ended_iff hr hdone).1 hended a hattempt hstart
  obtain ⟨report, hreport, hlength, -⟩ := hc.entries 0 le_rfl
  obtain ⟨report', hreport', hentries⟩ :=
    cycleTime_spec (t := t) h (le_refl (0 : ℚ))
  obtain rfl := Except.ok.inj (hreport.symm.trans hreport')
  -- the run is one of those counted, and not of those listed
  have hlt : (listed w t).countP (fun r => isCompleted r && ended w r) <
      (listed w t).countP isCompleted := by
    have hboth : (listed w t).filter
        (fun r => isCompleted r && ended w r) =
          ((listed w t).filter isCompleted).filter (ended w) := by
      rw [List.filter_filter]
      exact List.filter_congr fun r _ => Bool.and_comm _ _
    rw [List.countP_eq_length_filter, List.countP_eq_length_filter,
      hboth, List.length_filter_lt_length_iff_exists]
    refine ⟨r, List.mem_filter.2 ⟨?_, hdone⟩, hskipped⟩
    rw [hlisted]
    exact hperm.symm.subset hof
  have heq := congrArg List.length hentries
  rw [List.length_map, List.length_map, ← List.countP_eq_length_filter,
    hlength, ← hperm.countP_eq, ← hlisted] at heq
  omega

end Conserved

-- ==== runs

section Runs

variable {Pid : Type} [DecidableEq Pid] {C : Clock} {t : TenantArg}
  {s : State Pid}

/-- The steps of a run whose reports are promised: the clock is read as
times, and nothing uncountable is committed. -/
def Counted (C : Clock) (t : TenantArg) (s : State Pid) (a : Act Pid) :
    Prop :=
  Clocked C.IsTime s a ∧ Without (Uncountable t) s a

theorem reach_kept (hs : machine.Reach Initial (Clocked C.IsTime) s) :
    Kept C s.world.db where
  views := (views_orderly (closing_inductive fun _ _ => False)
    (hs.mono fun _ a _ => without_named a)).inv.2
  timed := reach_timed C.IsTime hs
  named := reach_named hs

theorem runsOf_updated {db : Db} {tenantId runId ts : String} {v : Int}
    {fields : Fields} {attempts : List AttemptRow}
    {history : List HistoryRow} :
    (runsOf ⟨db.updatedRuns tenantId runId v fields ts, attempts, history⟩
      t).length = (runsOf db t).length := by
  unfold runsOf Db.updatedRuns
  dsimp only
  rw [List.filter_map, List.length_map]
  congr 1
  refine List.filter_congr fun r _ => ?_
  dsimp only [Function.comp]
  split
  · rfl
  · rfl

theorem started_closed {l : List AttemptRow} {id tenant ts : String}
    (h : ∀ a ∈ l, TenantArg.text a.tenantId = t →
      a.startingStage ≠ .completed) :
    ∀ a ∈ l.map (AttemptRow.close id tenant ts),
      TenantArg.text a.tenantId = t → a.startingStage ≠ .completed := by
  intro a ha htenant
  obtain ⟨b, hb, rfl⟩ := List.mem_map.1 ha
  rw [AttemptRow.close_tenantId] at htenant
  have hstage : (b.close id tenant ts).startingStage = b.startingStage := by
    unfold AttemptRow.close
    split
    · rfl
    · rfl
  rw [hstage]
  exact h b hb htenant

theorem Countable.commits {db db' : Db} {txn : Txn} (h : Countable db t)
    (hcommits : db.Commits txn db') (hgood : ¬ Uncountable t db txn) :
    Countable db' t := by
  have hnew : ∀ {l : List AttemptRow} {a : AttemptRow},
      (∀ a ∈ l, TenantArg.text a.tenantId = t →
        a.startingStage ≠ .completed) →
      (TenantArg.text a.tenantId = t → a.startingStage ≠ .completed) →
      ∀ b ∈ l ++ [a], TenantArg.text b.tenantId = t →
        b.startingStage ≠ .completed := by
    intro l a hl ha b hb
    rcases List.mem_append.1 hb with hb | hb
    · exact hl b hb
    · rw [List.mem_singleton.1 hb]
      exact ha
  cases hcommits with
  | @create row _ _ hrun hattempt =>
    refine ⟨?_, hnew h.started fun _ hstage => (by cases hstage)⟩
    have hfew := h.few
    unfold runsOf at hfew ⊢
    dsimp only
    rw [List.filter_append, List.length_append]
    by_cases htenant : TenantArg.text row.tenantId = t
    · have hroom : ¬ 10000 ≤ (runsOf db t).length :=
        fun hfull => hgood ⟨htenant, hfull⟩
      unfold runsOf at hroom
      refine (Nat.add_le_add_left (List.length_filter_le _ _) _).trans ?_
      rw [List.length_singleton]
      omega
    · simpa [htenant] using hfew
  | append hhit hattempt =>
    refine ⟨?_, hnew ?_ fun htenant hstage => hgood ⟨htenant, hstage⟩⟩
    · rw [runsOf_updated]
      exact h.few
    · unfold Db.sealedAttempts
      split
      · split
        · exact h.started
        · exact started_closed h.started
      · exact h.started
  | transition hhit =>
    refine ⟨?_, ?_⟩
    · rw [runsOf_updated]
      exact h.few
    · dsimp only
      split
      · exact started_closed h.started
      · exact h.started
  | write hhit =>
    refine ⟨?_, h.started⟩
    rw [runsOf_updated]
    exact h.few

theorem reach_countable (hs : machine.Reach Initial (Counted C t) s) :
    Countable s.world.db t := by
  refine (store_orderly (J := fun w => Countable w.db t) ?_ ?_
    (hs.mono fun _ _ h => h.2)).inv.2
  · exact ⟨Nat.zero_le _, fun _ h => (by cases h)⟩
  · exact fun _ hJ hcom => hJ.commits hcom.commits hcom.good

/-- In every state that is reached a tenant's reports agree with the
registry exactly if its runs are ten thousand at most and none of their
attempts starts at `completed`; and they do in every run none of whose
steps goes beyond. -/
theorem metrics_conserved (C : Clock) (t : TenantArg) (s : State Pid)
    (hs : machine.Reach Initial (Clocked C.IsTime) s) :
    (Conserved C s.world t ↔ Countable s.world.db t) ∧
      (machine.Reach Initial (Counted C t) s → Conserved C s.world t) :=
  ⟨⟨countable_of_conserved (reach_kept hs),
      conserved_of_countable (reach_kept hs)⟩,
    fun hcounted => conserved_of_countable (reach_kept hs)
      (reach_countable hcounted)⟩

end Runs

-- ==== samples

/-- A clock that is read at midnight and at noon of one day. -/
def newYear : Clock where
  parseIso := fun ts =>
    if ts = "2026-01-01T00:00:00+00:00" then some 1767225600
    else if ts = "2026-01-01T12:00:00+00:00" then some 1767268800
    else none
  empty := by decide

/-- A tenant creates a run. -/
def firstRun : List (Act Bool) :=
  calling false
    (.createRun (.text "acme") "KEY-1" "repo" "branch" "spot" "trace" none)
    [.time "2026-01-01T00:00:00+00:00", .id "run", .id "first",
      .id "entry", .auto, .auto]

/-- The check of `Clocked` on the way. -/
def clocked (C : Clock) (_ : State Bool) : Act Bool → Bool
  | .step _ (.time ts) => (C.parseIso ts).isSome
  | _ => true

theorem clocked_of_check (C : Clock) (s : State Bool) (a : Act Bool)
    (h : clocked C s a = true) : Clocked C.IsTime s a := by
  cases a with
  | step p ans =>
    cases ans with
    | time ts => exact h
    | auto => trivial
    | id text => trivial
  | call p c => trivial
  | crash p => trivial

/-- A stage on the way, in an attempt of its own. -/
def startsAt (version : Int) (stage attemptId entryId : String) :
    List (Act Bool) :=
  calling false
    (.appendAttempt (.text "acme") "run" version "retry" stage "trace")
    [.auto, .time "2026-01-01T00:00:00+00:00", .id attemptId, .id entryId,
      .auto, .auto]

/-- A stage on the way, in the same attempt. -/
def movesTo (version : Int) (stage entryId : String) : List (Act Bool) :=
  calling false (.transitionStage (.text "acme") "run" version stage)
    [.auto, .time "2026-01-01T12:00:00+00:00", .id entryId, .auto, .auto]

/-- The run is completed at noon, in its second attempt, and the tenant
creates another one. -/
def completedRun : List (Act Bool) :=
  firstRun ++ movesTo 1 "research" "e1" ++ movesTo 2 "plan_authoring" "e2" ++
    movesTo 3 "plan_approval_gate" "e3" ++
    startsAt 4 "implementation" "second" "e4" ++
    movesTo 5 "verification" "e5" ++ movesTo 6 "change_review_gate" "e6" ++
    movesTo 7 "packaging" "e7" ++ movesTo 8 "retrospective" "e8" ++
    movesTo 9 "completed" "e9" ++
    calling true
      (.createRun (.text "acme") "KEY-2" "repo" "branch" "spot" "trace" none)
      [.time "2026-01-01T12:00:00+00:00", .id "next", .id "third",
        .id "e10", .auto, .auto]

/-- Of two runs one is completed, and the cycle-time report has its entry. -/
theorem metrics_conserved_completed : ∃ s : State Bool,
    machine.Reach Initial (Clocked newYear.IsTime) s ∧
      (runsOf s.world.db (.text "acme")).map isCompleted = [true, false] ∧
        s.world.db.attempts.length = 3 ∧
          Conserved newYear s.world (.text "acme") := by
  obtain ⟨s, hs, htest⟩ := reach_of_plays (clocked newYear)
    (clocked_of_check newYear) completedRun
    (fun s => (runsOf s.world.db (.text "acme")).map isCompleted =
        [true, false] ∧ s.world.db.attempts.length = 3 ∧
      s.world.db.attempts.all fun a => a.startingStage ≠ .completed)
    (by decide +kernel)
  obtain ⟨hruns, hattempts, hstarted⟩ := of_decide_eq_true htest
  have htwo := congrArg List.length hruns
  rw [List.length_map] at htwo
  refine ⟨s, hs, hruns, hattempts,
    (metrics_conserved newYear _ s hs).1.2 ⟨?_, ?_⟩⟩
  · rw [htwo]
    decide
  · exact fun a ha _ => of_decide_eq_true (List.all_eq_true.1 hstarted a ha)

/-- A run goes all its way in attempts, the last of which starts at
`completed`. -/
def toTheEnd : List (Act Bool) :=
  firstRun ++ startsAt 1 "research" "a1" "e1" ++
    startsAt 2 "plan_authoring" "a2" "e2" ++
    startsAt 3 "plan_approval_gate" "a3" "e3" ++
    startsAt 4 "implementation" "a4" "e4" ++
    startsAt 5 "verification" "a5" "e5" ++
    startsAt 6 "change_review_gate" "a6" "e6" ++
    startsAt 7 "packaging" "a7" "e7" ++
    startsAt 8 "retrospective" "a8" "e8" ++
    startsAt 9 "completed" "a9" "e9"

/-- Its cycle is not listed. -/
theorem cycle_skipped : ∃ s : State Bool,
    machine.Reach Initial (Clocked newYear.IsTime) s ∧
      ¬ Conserved newYear s.world (.text "acme") := by
  obtain ⟨s, hs, htest⟩ := reach_of_plays (clocked newYear)
    (clocked_of_check newYear) toTheEnd
    (fun s => s.world.db.attempts.any fun a =>
      TenantArg.text a.tenantId = .text "acme" ∧
        a.startingStage = .completed) (by decide +kernel)
  obtain ⟨a, ha, hfound⟩ := List.any_eq_true.1 htest
  obtain ⟨htenant, hstart⟩ := of_decide_eq_true hfound
  refine ⟨s, hs, fun hconserved => ?_⟩
  exact (countable_of_conserved (reach_kept hs) hconserved).started a ha
    htenant hstart

end SdlcOs.Evaluation
