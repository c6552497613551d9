/-
Traversals of a list that may fail, and sequences of steps that may.

A traversal succeeds exactly where each element does, with the elements'
own results in their order (`mapM_eq_ok`). What a sequence or a traversal
fails with comes from one of its parts (`Fails.bind`, `Fails.mapM`).
-/
import Mathlib.Data.List.Forall2

namespace SdlcOs.Data

variable {α β ε : Type} {f : α → Except ε β} {xs : List α} {ys : List β}

/-- A traversal succeeds with each element's own result. -/
theorem mapM_eq_ok : xs.mapM f = .ok ys ↔
    List.Forall₂ (fun x y => f x = .ok y) xs ys := by
  induction xs generalizing ys with
  | nil =>
    rw [List.mapM_nil]
    constructor
    · intro h
      obtain rfl := Except.ok.inj h
      exact .nil
    · intro h
      cases h
      rfl
  | cons x xs ih =>
    rw [List.mapM_cons]
    cases hx : f x with
    | error e =>
      refine iff_of_false (fun h => (by cases h)) fun h => ?_
      cases h with
      | cons hhead _ =>
        rw [hx] at hhead
        cases hhead
    | ok y =>
      show (xs.mapM f >>= fun ys => pure (y :: ys)) = .ok ys ↔ _
      cases hrest : xs.mapM f with
      | error e =>
        refine iff_of_false (fun h => (by cases h)) fun h => ?_
        cases h with
        | cons _ htail =>
          rw [← ih, hrest] at htail
          cases htail
      | ok rest =>
        constructor
        · intro h
          obtain rfl := Except.ok.inj h
          exact .cons hx (ih.1 hrest)
        · intro h
          cases h with
          | cons hhead htail =>
            rw [hx] at hhead
            rw [← ih, hrest] at htail
            rw [Except.ok.inj hhead, Except.ok.inj htail]
            rfl

theorem exists_mapM : (∃ ys, xs.mapM f = .ok ys) ↔
    ∀ x ∈ xs, ∃ y, f x = .ok y := by
  induction xs with
  | nil =>
    refine iff_of_true ⟨[], rfl⟩ fun x h => ?_
    cases h
  | cons x xs ih =>
    rw [List.forall_mem_cons, ← ih]
    constructor
    · rintro ⟨ys, h⟩
      cases mapM_eq_ok.1 h with
      | cons hhead htail => exact ⟨⟨_, hhead⟩, _, mapM_eq_ok.2 htail⟩
    · rintro ⟨⟨y, hy⟩, ys, hys⟩
      exact ⟨y :: ys, mapM_eq_ok.2 (.cons hy (mapM_eq_ok.1 hys))⟩

/-- What is related to a list elementwise has a partner for each. -/
theorem exists_of_forall₂ {R : α → β → Prop} (h : List.Forall₂ R xs ys)
    {x : α} (hx : x ∈ xs) : ∃ y ∈ ys, R x y := by
  induction h with
  | nil => cases hx
  | cons hhead _ ih =>
    rcases List.mem_cons.1 hx with rfl | hx
    · exact ⟨_, List.mem_cons_self, hhead⟩
    · obtain ⟨y, hy, hxy⟩ := ih hx
      exact ⟨y, List.mem_cons_of_mem _ hy, hxy⟩

theorem mem_mapM (h : xs.mapM f = .ok ys) {P : β → Prop} :
    (∃ y ∈ ys, P y) ↔ ∃ x ∈ xs, ∃ y, f x = .ok y ∧ P y := by
  rw [mapM_eq_ok] at h
  constructor
  · rintro ⟨y, hy, hP⟩
    obtain ⟨x, hx, hxy⟩ := exists_of_forall₂ h.flip hy
    exact ⟨x, hx, y, hxy, hP⟩
  · rintro ⟨x, hx, y, hxy, hP⟩
    obtain ⟨y', hy', hxy'⟩ := exists_of_forall₂ h hx
    rw [hxy] at hxy'
    rw [Except.ok.inj hxy'] at hP
    exact ⟨y', hy', hP⟩

theorem bind_eq_ok {x : Except ε α} {f : α → Except ε β} {b : β} :
    (x >>= f) = .ok b ↔ ∃ a, x = .ok a ∧ f a = .ok b := by
  cases x with
  | error e =>
    refine iff_of_false (fun h => (by cases h)) fun ⟨a, h, _⟩ => ?_
    cases h
  | ok a =>
    constructor
    · intro h
      exact ⟨a, rfl, h⟩
    · rintro ⟨a', h, hf⟩
      rw [Except.ok.inj h]
      exact hf

theorem bind_eq_error {x : Except ε α} {f : α → Except ε β} {e : ε} :
    (x >>= f) = .error e ↔
      x = .error e ∨ ∃ a, x = .ok a ∧ f a = .error e := by
  cases x with
  | error e' =>
    constructor
    · intro h
      have he : e' = e := Except.error.inj h
      exact Or.inl (by rw [he])
    · rintro (h | ⟨a, h, _⟩)
      · rw [Except.error.inj h]
        rfl
      · cases h
  | ok a =>
    constructor
    · intro h
      exact Or.inr ⟨a, rfl, h⟩
    · rintro (h | ⟨a', h, hf⟩)
      · cases h
      · rw [Except.ok.inj h]
        exact hf

/-- Every failure is among these. -/
def Fails (P : ε → Prop) (x : Except ε α) : Prop := ∀ e, x = .error e → P e

namespace Fails

variable {P : ε → Prop}

theorem ok (a : α) : Fails P (.ok a : Except ε α) := fun _ h => by cases h

theorem error {e : ε} (h : P e) : Fails P (.error e : Except ε α) := by
  intro e' he
  cases he
  exact h

theorem bind {x : Except ε α} {f : α → Except ε β} (hx : Fails P x)
    (hf : ∀ a, Fails P (f a)) : Fails P (x >>= f) := by
  intro e h
  cases x with
  | error e' =>
    have he : e' = e := Except.error.inj h
    exact hx e (by rw [he])
  | ok a => exact hf a e h

theorem mapM (hf : ∀ a, Fails P (f a)) (xs : List α) :
    Fails P (xs.mapM f) := by
  induction xs with
  | nil =>
    rw [List.mapM_nil]
    exact ok []
  | cons x xs ih =>
    rw [List.mapM_cons]
    exact bind (hf x) fun y => bind ih fun ys => ok (y :: ys)

end Fails

end SdlcOs.Data
