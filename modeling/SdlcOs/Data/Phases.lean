/-
The phases of a history.

A history is a list, latest first. Under a key it falls into phases: the
latest phase is the longest stretch at its front with one key (`phase`),
and `before` is what came before it. `since` is the element a phase began
with, and `turns` counts the elements that differ from the one before
them.
-/
import Mathlib.Data.List.TakeWhile

namespace SdlcOs.Data

variable {α κ : Type} [DecidableEq κ]

/-- The latest elements with the latest key. -/
def phase (key : α → κ) : List α → List α
  | [] => []
  | x :: l => x :: l.takeWhile fun y => key y = key x

/-- The elements before the latest phase. -/
def before (key : α → κ) : List α → List α
  | [] => []
  | x :: l => l.dropWhile fun y => key y = key x

/-- The first element of the latest phase. -/
def since (key : α → κ) (l : List α) : Option α := (phase key l).getLast?

/-- How many elements are turns away from the one before them. -/
def turns (turn : α → α → Bool) : List α → Nat
  | x :: y :: l => (if turn x y then 1 else 0) + turns turn (y :: l)
  | _ => 0

variable {key : α → κ} {x y : α} {l : List α}

theorem phase_same (h : key x = key y) :
    phase key (x :: y :: l) = x :: phase key (y :: l) := by
  simp [phase, h]

theorem before_same (h : key x = key y) :
    before key (x :: y :: l) = before key (y :: l) := by
  simp [before, h]

theorem phase_turn (h : key x ≠ key y) : phase key (x :: y :: l) = [x] := by
  have hne : ¬ key y = key x := fun heq => h heq.symm
  simp [phase, hne]

theorem before_turn (h : key x ≠ key y) :
    before key (x :: y :: l) = y :: l := by
  have hne : ¬ key y = key x := fun heq => h heq.symm
  simp [before, hne]

theorem since_same (h : key x = key y) :
    since key (x :: y :: l) = since key (y :: l) := by
  unfold since
  rw [phase_same h]
  simp [phase, List.getLast?_cons_cons]

theorem since_turn (h : key x ≠ key y) :
    since key (x :: y :: l) = some x := by
  unfold since
  rw [phase_turn h]
  rfl

end SdlcOs.Data
