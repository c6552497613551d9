/-
Lists cut off by their length, and by what they weigh.

Where every element weighs at least 1, a list that is cut off after `n`
elements weighs at most `n` exactly when the whole list does or what is
left of it has nothing but 1s (`weight_take_le_iff`): to count elements is
to count weight only as long as nothing is heavier.
-/
import Mathlib.Data.String.Basic

namespace SdlcOs.Data

-- ==== weights

section Weights

variable {α : Type} {w : α → Nat}

/-- What a list weighs. -/
def weight (w : α → Nat) : List α → Nat
  | [] => 0
  | a :: l => w a + weight w l

@[simp] theorem weight_cons (a : α) (l : List α) :
    weight w (a :: l) = w a + weight w l := rfl

theorem weight_take_le (l : List α) (n : Nat) :
    weight w (l.take n) ≤ weight w l := by
  induction l generalizing n with
  | nil => rw [List.take_nil]
  | cons a l ih =>
    cases n with
    | zero => exact Nat.zero_le _
    | succ n =>
      rw [List.take_succ_cons, weight_cons, weight_cons]
      exact Nat.add_le_add_left (ih n) _

theorem length_le_weight (hw : ∀ a, 0 < w a) (l : List α) :
    l.length ≤ weight w l := by
  induction l with
  | nil => exact Nat.zero_le _
  | cons a l ih =>
    rw [List.length_cons, weight_cons]
    have ha := hw a
    omega

theorem weight_le_length_iff (hw : ∀ a, 0 < w a) {l : List α} :
    weight w l ≤ l.length ↔ ∀ a ∈ l, w a = 1 := by
  induction l with
  | nil => exact ⟨fun _ a ha => (by cases ha), fun _ => Nat.le_refl _⟩
  | cons a l ih =>
    rw [weight_cons, List.length_cons, List.forall_mem_cons, ← ih]
    have ha := hw a
    have hl := length_le_weight hw l
    omega

/-- Cut off after `n` elements, a list weighs at most `n`: it did before,
or there are only 1s left. -/
theorem weight_take_le_iff (hw : ∀ a, 0 < w a) {l : List α} {n : Nat} :
    weight w (l.take n) ≤ n ↔ weight w l ≤ n ∨ ∀ a ∈ l.take n, w a = 1 := by
  by_cases hn : n ≤ l.length
  · have hlength : (l.take n).length = n := List.length_take_of_le hn
    have hones := weight_le_length_iff hw (l := l.take n)
    rw [hlength] at hones
    rw [hones]
    refine ⟨Or.inr, fun h => h.elim (fun hle => ?_) id⟩
    exact hones.1 (Nat.le_trans (weight_take_le l n) hle)
  · have htake : l.take n = l := List.take_of_length_le (by omega)
    rw [htake]
    refine ⟨Or.inl, fun h => h.elim id fun hones => ?_⟩
    have hle := (weight_le_length_iff hw).2 hones
    omega

end Weights

-- ==== bytes

theorem utf8ByteSize_eq_weight (l : List Char) :
    (String.ofList l).utf8ByteSize = weight Char.utf8Size l := by
  rw [String.utf8ByteSize_ofList]
  induction l with
  | nil => rfl
  | cons c l ih =>
    rw [String.utf8Len_cons, weight_cons, ih, Nat.add_comm]

end SdlcOs.Data
