/-
Tuples compared as they are, and with what is missing taken as least.

A tuple is less than another where the first components that differ say
so; where there are none, the shorter one is. Read with missing components
as the least value, it is less only where two components differ
(`PaddedLt`). The two agree except on a tuple and what it is when least
components are left out at its end (`lt_iff`).
-/
import Mathlib

namespace SdlcOs.Data.Padded

variable {α : Type} [LinearOrder α]

/-- `v < w`, of tuples. -/
def lt : List α → List α → Bool
  | _, [] => false
  | [], _ :: _ => true
  | a :: v, b :: w => a < b || (a = b && lt v w)

variable [OrderBot α]

/-- A component, the least value if it is missing. -/
def component (v : List α) (i : Nat) : α := (v[i]?).getD ⊥

/-- The first components that differ are less. -/
def PaddedLt (v w : List α) : Prop :=
  ∃ i, (∀ j < i, component v j = component w j) ∧
    component v i < component w i

/-- No components differ. -/
def PaddedEq (v w : List α) : Prop :=
  ∀ i, component v i = component w i

section Cons

variable {a b : α} {v w : List α}

@[simp] theorem component_nil (i : Nat) :
    component ([] : List α) i = ⊥ := rfl

@[simp] theorem component_zero : component (a :: v) 0 = a := rfl

@[simp] theorem component_succ (i : Nat) :
    component (a :: v) (i + 1) = component v i := rfl

theorem not_paddedLt_nil : ¬ PaddedLt v [] := by
  rintro ⟨i, _, h⟩
  exact not_lt_bot h

theorem paddedLt_cons : PaddedLt (a :: v) (b :: w) ↔
    a < b ∨ a = b ∧ PaddedLt v w := by
  constructor
  · rintro ⟨i, hsame, hless⟩
    cases i with
    | zero => exact Or.inl hless
    | succ i =>
      refine Or.inr ⟨hsame 0 (Nat.succ_pos i), i, fun j hj => ?_, hless⟩
      exact hsame (j + 1) (Nat.succ_lt_succ hj)
  · rintro (hless | ⟨rfl, i, hsame, hless⟩)
    · exact ⟨0, fun j hj => absurd hj (Nat.not_lt_zero j), hless⟩
    · refine ⟨i + 1, fun j hj => ?_, hless⟩
      cases j with
      | zero => rfl
      | succ j => exact hsame j (Nat.lt_of_succ_lt_succ hj)

theorem paddedEq_cons : PaddedEq (a :: v) (b :: w) ↔
    a = b ∧ PaddedEq v w := by
  constructor
  · exact fun h => ⟨h 0, fun i => h (i + 1)⟩
  · rintro ⟨rfl, h⟩ i
    cases i with
    | zero => rfl
    | succ i => exact h i

theorem nil_paddedLt_or_eq : PaddedLt [] w ∨ PaddedEq [] w := by
  induction w with
  | nil => exact Or.inr fun _ => rfl
  | cons b w ih =>
    rcases bot_le.lt_or_eq (a := (⊥ : α)) (b := b) with hless | rfl
    · exact Or.inl ⟨0, fun j hj => absurd hj (Nat.not_lt_zero j), hless⟩
    · rcases ih with ⟨i, hsame, hless⟩ | heq
      · refine Or.inl ⟨i + 1, fun j hj => ?_, hless⟩
        cases j with
        | zero => rfl
        | succ j => exact hsame j (Nat.lt_of_succ_lt_succ hj)
      · refine Or.inr fun i => ?_
        cases i with
        | zero => rfl
        | succ i => exact heq i

end Cons

/-- A tuple is less than another with missing components read as least,
or is the other one with some of them left out. -/
theorem lt_iff {v w : List α} : lt v w = true ↔
    PaddedLt v w ∨ PaddedEq v w ∧ v.length < w.length := by
  induction v generalizing w with
  | nil =>
    cases w with
    | nil =>
      refine iff_of_false (fun h => Bool.noConfusion h) ?_
      rintro (h | ⟨_, h⟩)
      · exact not_paddedLt_nil h
      · exact Nat.lt_irrefl _ h
    | cons b w =>
      refine iff_of_true rfl ?_
      rcases nil_paddedLt_or_eq (w := b :: w) with h | h
      · exact Or.inl h
      · exact Or.inr ⟨h, Nat.succ_pos _⟩
  | cons a v ih =>
    cases w with
    | nil =>
      refine iff_of_false (fun h => Bool.noConfusion h) ?_
      rintro (h | ⟨_, h⟩)
      · exact not_paddedLt_nil h
      · exact Nat.not_lt_zero _ h
    | cons b w =>
      rw [lt, Bool.or_eq_true, Bool.and_eq_true, decide_eq_true_iff,
        decide_eq_true_iff, ih, paddedLt_cons, paddedEq_cons,
        List.length_cons, List.length_cons, Nat.succ_lt_succ_iff,
        and_or_left, or_assoc, and_assoc]

end SdlcOs.Data.Padded
