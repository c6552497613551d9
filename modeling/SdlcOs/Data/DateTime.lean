/-
Datetimes, compared and subtracted as Python does.

# Values

A datetime is a wall clock in microseconds, its fold, and the tzinfo
object it carries, if any. What offset from UTC a tzinfo gives for a wall
clock and a fold is the platform's (`TimeZones`); it may give none, and
then the datetime is as naive as one without a tzinfo.

# Differences

Two datetimes of one tzinfo are subtracted by their wall clocks, whatever
the tzinfo says of the offsets there. Two of different tzinfos are
subtracted by their instants, or by their wall clocks when both are
naive; a naive one and an aware one cannot be. A comparison is the sign
of the difference.

# The order

So the order is no order of instants: around the end of daylight saving
time a later instant of a zone can have the earlier wall clock. What the
differences from one datetime do order is `NotAfter`, as seen from that
datetime's tzinfo (`minus_mono`). A tzinfo of one offset is `Fixed`, and
there instants are all that counts (`notAfter_fixed`).
-/
import Mathlib.Order.Defs.LinearOrder

namespace SdlcOs.Data

/-- What the tzinfo objects answer: the offset from UTC at a wall clock
and a fold. -/
structure TimeZones where
  utcoffset : Nat → Int → Bool → Option Int

/-- A datetime. -/
structure DateTime where
  wall : Int
  fold : Bool := false
  tzinfo : Option Nat
  deriving DecidableEq, Repr

namespace DateTime

variable (zones : TimeZones)

/-- `utcoffset()`. -/
def utcoffset (t : DateTime) : Option Int :=
  match t.tzinfo with
  | none => none
  | some tz => zones.utcoffset tz t.wall t.fold

/-- The instant, of an aware datetime; a naive one's wall clock. -/
def utc (t : DateTime) : Int := t.wall - (t.utcoffset zones).getD 0

/-- The datetime is aware. -/
def aware (t : DateTime) : Bool := (t.utcoffset zones).isSome

/-- `a - b`, in microseconds; `none` is `TypeError`. -/
def minus (a b : DateTime) : Option Int :=
  if a.tzinfo = b.tzinfo then some (a.wall - b.wall)
  else match a.utcoffset zones, b.utcoffset zones with
    | none, none => some (a.wall - b.wall)
    | some o, some p => some ((a.wall - o) - (b.wall - p))
    | _, _ => none

/-- `a >= b`. -/
def ge (a b : DateTime) : Option Bool :=
  (a.minus zones b).map fun d => decide (0 ≤ d)

-- ==== differences

variable {zones} {a b c : DateTime}

theorem minus_same (h : a.tzinfo = b.tzinfo) :
    a.minus zones b = some (a.wall - b.wall) := if_pos h

/-- Datetimes of different tzinfos are subtracted by their instants. -/
theorem minus_other (h : a.tzinfo ≠ b.tzinfo) :
    a.minus zones b = if a.aware zones = b.aware zones then
      some (a.utc zones - b.utc zones) else none := by
  unfold minus aware utc
  rw [if_neg h]
  cases a.utcoffset zones with
  | none =>
    cases b.utcoffset zones with
    | none => simp
    | some p => simp
  | some o =>
    cases b.utcoffset zones with
    | none => simp
    | some p => simp

theorem minus_swap (a b : DateTime) :
    b.minus zones a = (a.minus zones b).map fun d => -d := by
  by_cases h : a.tzinfo = b.tzinfo
  · rw [minus_same h, minus_same h.symm, Option.map_some]
    congr 1
    omega
  · rw [minus_other h, minus_other (Ne.symm h)]
    by_cases haware : a.aware zones = b.aware zones
    · rw [if_pos haware, if_pos haware.symm, Option.map_some]
      congr 1
      omega
    · rw [if_neg haware, if_neg (Ne.symm haware), Option.map_none]

-- ==== the order

/-- A tzinfo that gives one offset, or none, whatever the wall clock. -/
def Fixed (zones : TimeZones) : Option Nat → Prop
  | none => True
  | some tz => ∃ o, ∀ wall fold, zones.utcoffset tz wall fold = o

/-- A datetime is not after another, as datetimes of a tzinfo see the two:
by wall clock when both carry that tzinfo, else by instant. Where one of
the two carries it, it has to be fixed. -/
def NotAfter (zones : TimeZones) (tz : Option Nat) (a b : DateTime) : Prop :=
  if a.tzinfo = tz ∧ b.tzinfo = tz then a.wall ≤ b.wall
  else a.aware zones = b.aware zones ∧ a.utc zones ≤ b.utc zones ∧
    (a.tzinfo = tz ∨ b.tzinfo = tz → Fixed zones tz)

theorem notAfter_refl (tz : Option Nat) (a : DateTime) :
    NotAfter zones tz a a := by
  unfold NotAfter
  split
  · exact Int.le_refl _
  · next h =>
    refine ⟨rfl, Int.le_refl _, fun h' => absurd ?_ h⟩
    rcases h' with h' | h' <;> exact ⟨h', h'⟩

theorem Fixed.utcoffset_eq {tz : Option Nat} (h : Fixed zones tz)
    (ha : a.tzinfo = tz) (hb : b.tzinfo = tz) :
    a.utcoffset zones = b.utcoffset zones := by
  unfold DateTime.utcoffset
  rw [ha, hb]
  cases tz with
  | none => rfl
  | some tz =>
    obtain ⟨o, ho⟩ := h
    show zones.utcoffset tz a.wall a.fold = zones.utcoffset tz b.wall b.fold
    rw [ho, ho]

/-- For a fixed tzinfo the instants decide. -/
theorem notAfter_fixed {tz : Option Nat} (h : Fixed zones tz) :
    NotAfter zones tz a b ↔
      a.aware zones = b.aware zones ∧ a.utc zones ≤ b.utc zones := by
  unfold NotAfter
  split
  · next htz =>
    have hoffset := h.utcoffset_eq htz.1 htz.2
    unfold aware utc
    rw [hoffset]
    constructor
    · intro hle
      exact ⟨rfl, by omega⟩
    · rintro ⟨-, hle⟩
      omega
  · constructor
    · rintro ⟨haware, hle, -⟩
      exact ⟨haware, hle⟩
    · rintro ⟨haware, hle⟩
      exact ⟨haware, hle, fun _ => h⟩

/-- A difference from a datetime of a fixed tzinfo is that of the
instants, also within the tzinfo. -/
theorem minus_fixed (h : Fixed zones b.tzinfo) :
    a.minus zones b = if a.aware zones = b.aware zones then
      some (a.utc zones - b.utc zones) else none := by
  by_cases htz : a.tzinfo = b.tzinfo
  · have hoffset := h.utcoffset_eq htz rfl
    rw [minus_same htz]
    unfold aware utc
    rw [hoffset, if_pos rfl]
    congr 1
    omega
  · exact minus_other htz

/-- What is not after has the smaller difference, and the same datetimes
can be subtracted from the two. -/
theorem minus_mono (h : NotAfter zones c.tzinfo a b) :
    (∃ d e, a.minus zones c = some d ∧ b.minus zones c = some e ∧ d ≤ e) ∨
      (a.minus zones c = none ∧ b.minus zones c = none) := by
  unfold NotAfter at h
  split at h
  · next htz =>
    rw [minus_same htz.1, minus_same htz.2]
    exact Or.inl ⟨_, _, rfl, rfl, by omega⟩
  · obtain ⟨haware, hle, hfixed⟩ := h
    have hinstants : ∀ x : DateTime, (x = a ∨ x = b) →
        x.minus zones c = if x.aware zones = c.aware zones then
          some (x.utc zones - c.utc zones) else none := by
      intro x hx
      by_cases htz : x.tzinfo = c.tzinfo
      · refine minus_fixed (hfixed ?_)
        rcases hx with rfl | rfl
        · exact Or.inl htz
        · exact Or.inr htz
      · exact minus_other htz
    rw [hinstants a (Or.inl rfl), hinstants b (Or.inr rfl), haware]
    split
    · exact Or.inl ⟨_, _, rfl, rfl, by omega⟩
    · exact Or.inr ⟨rfl, rfl⟩

theorem ge_mono (h : NotAfter zones c.tzinfo a b)
    (ha : a.ge zones c = some true) : b.ge zones c = some true := by
  unfold ge at ha ⊢
  rcases minus_mono h with ⟨d, e, hd, he, hle⟩ | ⟨hd, -⟩
  · rw [hd, Option.map_some] at ha
    have hdue := of_decide_eq_true (Option.some.inj ha)
    rw [he, Option.map_some, decide_eq_true (by omega)]
  · rw [hd] at ha
    cases ha

theorem ge_mono_false (h : NotAfter zones c.tzinfo a b)
    (hb : b.ge zones c = some false) : a.ge zones c = some false := by
  unfold ge at hb ⊢
  rcases minus_mono h with ⟨d, e, hd, he, hle⟩ | ⟨-, he⟩
  · rw [he, Option.map_some] at hb
    have hearly := of_decide_eq_false (Option.some.inj hb)
    rw [hd, Option.map_some, decide_eq_false (by omega)]
  · rw [he] at hb
    cases hb

theorem ge_none (h : NotAfter zones c.tzinfo a b)
    (hb : b.ge zones c = none) : a.ge zones c = none := by
  unfold ge at hb ⊢
  rcases minus_mono h with ⟨d, e, -, he, -⟩ | ⟨hd, -⟩
  · rw [he] at hb
    cases hb
  · rw [hd, Option.map_none]

-- ==== the day

/-- The microseconds of a day. -/
def day : Int := 86400000000

/-- `datetime.max`. -/
def maxWall : Int := 253402300799999999

/-- `date()`, as days since 1970-01-01. -/
def date (t : DateTime) : Int := t.wall / day

/-- `t + timedelta(days=1)`: the wall clock a day on, in the first
fold. -/
def tomorrow (t : DateTime) : DateTime :=
  { t with wall := t.wall + day, fold := false }

/-- How many days can be added. -/
def daysLeft (t : DateTime) : Nat := ((maxWall - t.wall) / day).toNat

/-- The time of day. -/
def time (t : DateTime) : Int := t.wall % day

/-- The last date of the calendar. -/
def lastDate : Int := maxWall / day

variable {t : DateTime}

theorem date_tomorrow (t : DateTime) : t.tomorrow.date = t.date + 1 := by
  unfold date tomorrow day
  dsimp only
  omega

theorem time_tomorrow (t : DateTime) : t.tomorrow.time = t.time := by
  unfold time tomorrow day
  dsimp only
  omega

theorem date_daysLeft (t : DateTime) :
    (t.daysLeft : Int) = max 0 (lastDate - t.date) := by
  unfold daysLeft lastDate date maxWall day
  omega

theorem daysLeft_tomorrow {left : Nat} (h : t.daysLeft = left + 1) :
    t.tomorrow.daysLeft = left := by
  have hnow := t.date_daysLeft
  have hnext := t.tomorrow.date_daysLeft
  rw [date_tomorrow] at hnext
  omega

end DateTime

end SdlcOs.Data
