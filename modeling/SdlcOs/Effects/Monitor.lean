/-
Logs read by a monitor.

A monitor folds a log into a state and says of each event whether the
state before it allows it. A log is accepted when each of its events was
allowed where it stands, whatever came after; so a log that grows at its
end stays accepted exactly as long as what is added is allowed
(`accepts_snoc`).
-/
import Mathlib.Data.List.Basic

namespace SdlcOs.Effects

/-- A monitor of a log's events. -/
structure Monitor (φ ε : Type) where
  init : φ
  advance : φ → ε → φ
  allowed : φ → ε → Prop

namespace Monitor

variable {φ ε : Type} (M : Monitor φ ε)

/-- What a log leaves. -/
def state (log : List ε) : φ := log.foldl M.advance M.init

/-- Each event was allowed where it stands. -/
def Accepts (log : List ε) : Prop :=
  ∀ pre e post, log = pre ++ e :: post → M.allowed (M.state pre) e

variable {M}

@[simp] theorem state_nil : M.state [] = M.init := rfl

@[simp] theorem state_snoc (log : List ε) (e : ε) :
    M.state (log ++ [e]) = M.advance (M.state log) e := by
  unfold state
  rw [List.foldl_append]
  rfl

theorem accepts_nil : M.Accepts [] := by
  intro pre e post h
  exact absurd h.symm (List.append_ne_nil_of_right_ne_nil _
    (List.cons_ne_nil _ _))

theorem accepts_snoc {log : List ε} {e : ε} :
    M.Accepts (log ++ [e]) ↔ M.Accepts log ∧ M.allowed (M.state log) e := by
  constructor
  · intro h
    refine ⟨fun pre x post hlog => ?_, h log e [] rfl⟩
    refine h pre x (post ++ [e]) ?_
    rw [hlog, List.append_assoc]
    rfl
  · rintro ⟨h, he⟩ pre x post hlog
    rcases List.eq_nil_or_concat post with rfl | ⟨post, y, rfl⟩
    · obtain ⟨rfl, hx⟩ := List.append_inj' hlog rfl
      rwa [← (List.cons.inj hx).1]
    · rw [List.concat_eq_append, ← List.cons_append, ← List.append_assoc]
        at hlog
      exact h pre x post (List.append_inj' hlog rfl).1

end Monitor

/-- Where nothing that satisfies `p` comes after something that does, one
thing at most does. -/
theorem length_filter_le_one {ε : Type} {p : ε → Bool} : ∀ {l : List ε},
    (∀ a e b, l = a ++ e :: b → p e = true → ∀ x ∈ a, p x = false) →
      (l.filter p).length ≤ 1 := by
  intro l
  induction l with
  | nil => intro _; exact Nat.zero_le 1
  | cons x l ih =>
    intro h
    by_cases hx : p x = true
    · have hrest : l.filter p = [] := by
        rw [List.filter_eq_nil_iff]
        intro e he hpe
        obtain ⟨a, b, rfl⟩ := List.append_of_mem he
        have hfalse := h (x :: a) e b rfl hpe x (List.mem_cons_self ..)
        rw [hx] at hfalse
        cases hfalse
      rw [List.filter_cons_of_pos hx, hrest]
      exact Nat.le_refl 1
    · rw [List.filter_cons_of_neg hx]
      refine ih fun a e b hl hpe y hy => ?_
      exact h (x :: a) e b (by rw [hl, List.cons_append]) hpe y
        (List.mem_cons_of_mem x hy)

end SdlcOs.Effects
