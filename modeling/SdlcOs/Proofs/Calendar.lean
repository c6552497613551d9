/-
Deadlines counted in business days.

# The count

`businessDays` counts the business days after one date up to another. The
loop keeps it: a day that is stepped over is counted if and only if one
less remains (`stepDays_lands`). It ends with none remaining, or with the
calendar (`stepDays_overflows`).

# What follows

Deadlines add up, also where one of them overflows (`stepDays_add`). What
is due stays due in the order in which datetimes of the opening's tzinfo
see the times that come after; in the order of instants it does not
(`due_no_more`).
-/
import Mathlib.Data.List.Range
import SdlcOs.Gates.Escalation

namespace SdlcOs.Gates

open Data (DateTime TimeZones)

-- ==== the count

/-- The business days after a date up to another. -/
def businessDays (after upTo : Int) (holidays : List Int) : Nat :=
  (List.range (upTo - after).toNat).countP fun (k : Nat) =>
    isBusinessDay (after + 1 + k) holidays

variable {holidays : List Int} {start current t : DateTime}

theorem businessDays_none {d upTo : Int} (h : upTo ≤ d) :
    businessDays d upTo holidays = 0 := by
  unfold businessDays
  rw [Int.toNat_of_nonpos (by omega), List.range_zero, List.countP_nil]

theorem businessDays_self (d : Int) : businessDays d d holidays = 0 :=
  businessDays_none (Int.le_refl d)

theorem businessDays_next {d upTo : Int} (h : d < upTo) :
    businessDays d upTo holidays =
      (if isBusinessDay (d + 1) holidays then 1 else 0) +
        businessDays (d + 1) upTo holidays := by
  have hdays : (upTo - d).toNat = (upTo - (d + 1)).toNat + 1 := by omega
  have hrest : (fun k : Nat => isBusinessDay (d + 1 + k) holidays) ∘
      Nat.succ = fun k : Nat => isBusinessDay (d + 1 + 1 + k) holidays := by
    funext k
    show isBusinessDay (d + 1 + (k + 1 : Nat)) holidays = _
    congr 1
    omega
  unfold businessDays
  rw [hdays, List.range_succ_eq_map, List.countP_cons, List.countP_map,
    hrest, Nat.add_comm]
  rw [Int.natCast_zero, Int.add_zero]

theorem businessDays_mono {d upTo upTo' : Int} (h : upTo ≤ upTo') :
    businessDays d upTo holidays ≤ businessDays d upTo' holidays := by
  unfold businessDays
  apply List.Sublist.countP_le
  rw [List.range_sublist]
  omega

-- ==== the loop

theorem stepDays_none (left : Nat) :
    stepDays holidays left current 0 = .ok current := by
  cases left <;> rfl

/-- Where the loop ends, no business day is missing. -/
theorem stepDays_lands {left remaining : Nat}
    (h : stepDays holidays left current remaining = .ok t) :
    t.tzinfo = current.tzinfo ∧ t.time = current.time ∧
      current.date ≤ t.date ∧ t.date ≤ current.date + left ∧
      businessDays current.date t.date holidays = remaining ∧
      (0 < remaining → isBusinessDay t.date holidays = true) := by
  induction left generalizing current remaining with
  | zero =>
    cases remaining with
    | zero =>
      cases h
      exact ⟨rfl, rfl, Int.le_refl _, by omega, businessDays_self _,
        fun h => absurd h (Nat.lt_irrefl 0)⟩
    | succ remaining => cases h
  | succ left ih =>
    cases remaining with
    | zero =>
      cases h
      exact ⟨rfl, rfl, Int.le_refl _, by omega, businessDays_self _,
        fun h => absurd h (Nat.lt_irrefl 0)⟩
    | succ remaining =>
      rw [stepDays] at h
      split at h
      · next hday =>
        obtain ⟨htzinfo, htime, hle, hup, hcount, hlast⟩ := ih h
        rw [DateTime.time_tomorrow] at htime
        rw [DateTime.date_tomorrow] at hle hup hcount hday
        refine ⟨htzinfo, htime, by omega, by omega, ?_, fun _ => ?_⟩
        · rw [businessDays_next (by omega), if_pos hday, hcount]
          exact Nat.add_comm _ _
        · by_cases hrest : 0 < remaining
          · exact hlast hrest
          · have hnone : remaining = 0 := by omega
            rw [hnone, stepDays_none] at h
            cases h
            rw [DateTime.date_tomorrow]
            exact hday
      · next hday =>
        obtain ⟨htzinfo, htime, hle, hup, hcount, hlast⟩ := ih h
        rw [DateTime.time_tomorrow] at htime
        rw [DateTime.date_tomorrow] at hle hup hcount hday
        refine ⟨htzinfo, htime, by omega, by omega, ?_, hlast⟩
        rw [businessDays_next (by omega), if_neg hday, hcount]
        exact Nat.zero_add _

/-- Where it overflows, fewer are left than are missing. -/
theorem stepDays_overflows {left remaining : Nat} {e : CalendarError}
    (h : stepDays holidays left current remaining = .error e) :
    e = .overflowError ∧
      businessDays current.date (current.date + left) holidays <
        remaining := by
  induction left generalizing current remaining with
  | zero =>
    cases remaining with
    | zero => cases h
    | succ remaining =>
      cases h
      refine ⟨rfl, ?_⟩
      rw [Int.natCast_zero, Int.add_zero, businessDays_self]
      exact Nat.succ_pos _
  | succ left ih =>
    cases remaining with
    | zero => cases h
    | succ remaining =>
      have hend : current.date + ((left + 1 : Nat) : Int) =
          current.tomorrow.date + left := by
        rw [DateTime.date_tomorrow]
        omega
      rw [hend, businessDays_next (by rw [← hend]; omega),
        ← DateTime.date_tomorrow]
      rw [stepDays] at h
      split at h
      · next hday =>
        obtain ⟨he, hcount⟩ := ih h
        rw [if_pos hday]
        exact ⟨he, by omega⟩
      · next hday =>
        obtain ⟨he, hcount⟩ := ih h
        rw [if_neg hday]
        exact ⟨he, by omega⟩

/-- Two loops, one after the other, are one. -/
theorem stepDays_add {left m n : Nat} (hleft : current.daysLeft = left) :
    (stepDays holidays left current m).bind
        (fun t => stepDays holidays t.daysLeft t n) =
      stepDays holidays left current (m + n) := by
  induction left generalizing current m with
  | zero =>
    cases m with
    | zero =>
      rw [stepDays_none, Nat.zero_add, ← hleft]
      rfl
    | succ m =>
      rw [Nat.succ_add]
      rfl
  | succ left ih =>
    cases m with
    | zero =>
      rw [stepDays_none, Nat.zero_add, ← hleft]
      rfl
    | succ m =>
      have hnext := DateTime.daysLeft_tomorrow hleft
      rw [Nat.succ_add, stepDays, stepDays]
      split
      · exact ih hnext
      · have hmore := @ih current.tomorrow (m + 1) hnext
        rw [Nat.succ_add] at hmore
        exact hmore

-- ==== deadlines

theorem addBusinessDays_eq (start : DateTime) (n : Nat)
    (holidays : List Int) : addBusinessDays start n holidays =
      stepDays holidays start.daysLeft start n := by
  unfold addBusinessDays
  rw [if_neg (not_lt.2 (Nat.cast_nonneg n)), Int.floor_natCast,
    Int.toNat_natCast]

theorem businessDays_left (start : DateTime) (holidays : List Int) :
    businessDays start.date (start.date + start.daysLeft) holidays =
      businessDays start.date DateTime.lastDate holidays := by
  have hleft := start.date_daysLeft
  by_cases hlast : start.date ≤ DateTime.lastDate
  · rw [show start.date + (start.daysLeft : Int) = DateTime.lastDate by
      omega]
  · rw [businessDays_none (by omega), businessDays_none (by omega)]

/-- A deadline falls on the date up to which there are as many business
days, and overflows if and only if the calendar has fewer; deadlines add
up; and what is due stays due, as datetimes of the opening's tzinfo see
the time go on. -/
theorem business_deadlines (zones : TimeZones) (start : DateTime) (n : Nat)
    (holidays : List Int) :
    (∀ t, addBusinessDays start n holidays = .ok t →
      t.tzinfo = start.tzinfo ∧ t.time = start.time ∧
        start.date ≤ t.date ∧
        businessDays start.date t.date holidays = n ∧
        (0 < n → isBusinessDay t.date holidays = true)) ∧
    ((∃ t, addBusinessDays start n holidays = .ok t) ↔
      n ≤ businessDays start.date DateTime.lastDate holidays) ∧
    (∀ e, addBusinessDays start n holidays = .error e →
      e = .overflowError) ∧
    (∀ m : Nat, (addBusinessDays start m holidays).bind
        (fun t => addBusinessDays t n holidays) =
      addBusinessDays start ((m + n : Nat) : ℚ) holidays) ∧
    ∀ now now' : DateTime,
      DateTime.NotAfter zones start.tzinfo now now' →
      isSlaBreached zones start now n holidays = .ok true →
        isSlaBreached zones start now' n holidays = .ok true := by
  have hleft := businessDays_left start holidays
  refine ⟨?_, ?_, ?_, ?_, ?_⟩
  · intro t h
    rw [addBusinessDays_eq] at h
    obtain ⟨htzinfo, htime, hle, -, hcount, hlast⟩ := stepDays_lands h
    exact ⟨htzinfo, htime, hle, hcount, hlast⟩
  · rw [addBusinessDays_eq, ← hleft]
    constructor
    · intro h
      obtain ⟨t, ht⟩ := h
      obtain ⟨-, -, -, hup, hcount, -⟩ := stepDays_lands ht
      rw [← hcount]
      exact businessDays_mono hup
    · intro h
      cases hstep : stepDays holidays start.daysLeft start n with
      | ok t => exact ⟨t, rfl⟩
      | error e =>
        have hfew := (stepDays_overflows hstep).2
        omega
  · intro e h
    rw [addBusinessDays_eq] at h
    exact (stepDays_overflows h).1
  · intro m
    rw [addBusinessDays_eq, addBusinessDays_eq, ← stepDays_add rfl]
    refine congrArg (Except.bind _) (funext fun t => ?_)
    exact addBusinessDays_eq t n holidays
  · intro now now' hle h
    exact isSlaBreached_due hle h

-- ------------------------------------------------- the end of summer time

/-- UTC, and New York around the end of its daylight saving time in 2024:
from 01:00 to 02:00 on the third of November the wall clock is shown
twice. -/
def autumn : TimeZones where
  utcoffset tz wall fold :=
    if tz = 0 then some 0
    else if wall < 1730595600000000 ∨ (wall < 1730599200000000 ∧ fold = false)
      then some (-14400000000)
    else some (-18000000000)

/-- So many minutes past one on New York's wall clock that night. -/
def pastOne (minutes : Int) (fold : Bool) : DateTime :=
  ⟨1730595600000000 + minutes * 60000000, fold, some 1⟩

/-- There is no day after the last of the calendar. And time goes on while
the wall clock goes back: a gate opened at 01:20, due at once, is due at
01:30 and not at 01:10 forty minutes later; and one opened at 05:45 UTC is
not due at 01:30 but forty minutes later, at 01:10, which compares as
earlier. -/
theorem due_no_more :
    addBusinessDays ⟨DateTime.maxWall, false, some 0⟩ 1 [] =
      .error .overflowError ∧
    ((pastOne 30 false).utc autumn < (pastOne 10 true).utc autumn ∧
      isSlaBreached autumn (pastOne 20 false) (pastOne 30 false) 0 [] =
        .ok true ∧
      isSlaBreached autumn (pastOne 20 false) (pastOne 10 true) 0 [] =
        .ok false) ∧
    ((pastOne 30 false).ge autumn (pastOne 10 true) = some true ∧
      isSlaBreached autumn ⟨1730612700000000, false, some 0⟩
        (pastOne 10 true) 0 [] = .ok true ∧
      isSlaBreached autumn ⟨1730612700000000, false, some 0⟩
        (pastOne 30 false) 0 [] = .ok false) := by
  decide +kernel

end SdlcOs.Gates
