/-
Finding and replacing a list within a list.

`count` and `replace` go from left to right and take up after an
occurrence where it ends, so occurrences that overlap one already taken
are passed over; `occurrences` counts every position. `Replaces` says
what a replacement is without saying how it is found: some occurrences,
in order, give way to the new list, and what lies between them stays.
-/
import Mathlib.Data.List.Infix
import Mathlib.Tactic.Ring

namespace SdlcOs.Data

variable {α β : Type}

-- ==== definitions

section Definitions

variable [DecidableEq α]

/-- How often a list is found: `skip` elements belong to the last
occurrence. The empty list is found at every element and at the end. -/
def count (old : List α) : Nat → List α → Nat
  | _, [] => if old = [] then 1 else 0
  | skip + 1, _ :: cs => count old skip cs
  | 0, c :: cs =>
    if old.isPrefixOf (c :: cs) then 1 + count old (old.length - 1) cs
    else count old 0 cs

/-- Replace what is found, up to a limit if there is one. -/
def replace (old new : List α) : Option Nat → Nat → List α → List α
  | limit, _, [] => if old = [] ∧ limit ≠ some 0 then new else []
  | limit, skip + 1, _ :: cs => replace old new limit skip cs
  | limit, 0, c :: cs =>
    if limit ≠ some 0 ∧ old.isPrefixOf (c :: cs) then
      new ++ (if old = [] then [c] else []) ++
        replace old new (limit.map (· - 1)) (old.length - 1) cs
    else c :: replace old new limit 0 cs

/-- At how many positions a list occurs, those that overlap included. -/
def occurrences (old : List α) : List α → Nat
  | [] => if old = [] then 1 else 0
  | c :: cs =>
    (if old.isPrefixOf (c :: cs) then 1 else 0) + occurrences old cs

end Definitions

/-- The second list is the first with `n` occurrences replaced. -/
inductive Replaces (old new : List α) : Nat → List α → List α → Prop
  | same (l : List α) : Replaces old new 0 l l
  | step {n : Nat} {l l' : List α} (x : List α)
      (h : Replaces old new n l l') :
      Replaces old new (n + 1) (x ++ old ++ l) (x ++ new ++ l')

/-- How many of what is found a limit lets through. -/
def within : Option Nat → Nat → Nat
  | none, n => n
  | some k, n => min k n

-- ==== replacing

namespace Replaces

variable {old new l l' : List α} {n : Nat}

theorem append (x : List α) (h : Replaces old new n l l') :
    Replaces old new n (x ++ l) (x ++ l') := by
  cases h with
  | same l => exact .same (x ++ l)
  | step y h =>
    rw [List.append_assoc y, ← List.append_assoc x, List.append_assoc y,
      ← List.append_assoc x, ← List.append_assoc (x ++ y),
      ← List.append_assoc (x ++ y)]
    exact .step (x ++ y) h

/-- What is counted in the result is what was there, less what went, and
what came. -/
theorem countP (p : α → Bool) (h : Replaces old new n l l') :
    l'.countP p + n * old.countP p = l.countP p + n * new.countP p := by
  induction h with
  | same l => rw [Nat.zero_mul, Nat.zero_mul]
  | step x _ ih =>
    simp only [List.countP_append]
    rw [Nat.add_mul, Nat.add_mul]
    omega

/-- Nothing is in the result that was not there before or came. -/
theorem mem {a : α} (h : Replaces old new n l l') (ha : a ∈ l') :
    a ∈ l ∨ a ∈ new := by
  induction h with
  | same l => exact Or.inl ha
  | step x _ ih =>
    simp only [List.mem_append] at ha ⊢
    rcases ha with (ha | ha) | ha
    · exact Or.inl (Or.inl (Or.inl ha))
    · exact Or.inr ha
    · exact (ih ha).imp_left Or.inr

theorem subset (h : Replaces old new (n + 1) l l') : new ⊆ l' := by
  intro a ha
  cases h with
  | step x h => exact List.mem_append_left _ (List.mem_append_right x ha)

end Replaces

section Replace

variable [DecidableEq α] {old new : List α}

theorem within_zero (limit : Option Nat) : within limit 0 = 0 := by
  cases limit with
  | none => rfl
  | some k => exact Nat.min_zero k

/-- A limit that lets one through lets the rest through without it. -/
theorem within_succ {limit : Option Nat} (h : limit ≠ some 0) (n : Nat) :
    within limit (n + 1) = within (limit.map (· - 1)) n + 1 := by
  cases limit with
  | none => rfl
  | some k =>
    have hk : k ≠ 0 := fun hk => h (congrArg some hk)
    show min k (n + 1) = min (k - 1) n + 1
    omega

theorem drop_of_isPrefixOf {c : α} {cs : List α} (hold : old ≠ [])
    (h : old.isPrefixOf (c :: cs) = true) :
    c :: cs = old ++ cs.drop (old.length - 1) := by
  obtain ⟨rest, hrest⟩ := List.isPrefixOf_iff_prefix.1 h
  cases old with
  | nil => exact absurd rfl hold
  | cons o os =>
    rw [List.cons_append, List.cons.injEq] at hrest
    rw [List.length_cons, Nat.add_sub_cancel, List.cons_append, hrest.1,
      ← hrest.2, List.drop_left]

/-- `replace` replaces as many as `count` finds, or the limit allows. -/
theorem replaces_replace (old new : List α) (limit : Option Nat)
    (skip : Nat) (l : List α) (hskip : skip < old.length ∨ skip = 0) :
    Replaces old new (within limit (count old skip l)) (l.drop skip)
      (replace old new limit skip l) := by
  induction l generalizing limit skip with
  | nil =>
    rw [List.drop_nil, count, replace]
    by_cases hold : old = []
    · rw [if_pos hold]
      by_cases hlimit : limit = some 0
      · rw [if_neg fun h => h.2 hlimit, hlimit]
        exact .same []
      · rw [if_pos ⟨hold, hlimit⟩, ← Nat.zero_add 1, within_succ hlimit,
          within_zero, hold]
        have h : Replaces [] new (0 + 1) ([] ++ [] ++ [])
            ([] ++ new ++ []) := .step [] (.same [])
        simpa using h
    · rw [if_neg hold, if_neg fun h => hold h.1, within_zero]
      exact .same []
  | cons c cs ih =>
    cases skip with
    | succ skip =>
      rw [count, replace, List.drop_succ_cons]
      exact ih limit skip (by omega)
    | zero =>
      rw [List.drop_zero, count, replace]
      by_cases hlimit : limit = some 0
      · have h := (ih limit 0 (Or.inr rfl)).append [c]
        rw [if_neg (c := limit ≠ some 0 ∧ _) fun h => h.1 hlimit]
        rw [hlimit] at h ⊢
        rw [show ∀ n, within (some 0) n = 0 from Nat.zero_min] at h ⊢
        exact h
      · by_cases hfound : old.isPrefixOf (c :: cs) = true
        · have h := ih (limit.map (· - 1)) (old.length - 1) (by omega)
          rw [if_pos hfound, if_pos ⟨hlimit, hfound⟩, Nat.add_comm,
            within_succ hlimit]
          by_cases hold : old = []
          · subst hold
            have h' := Replaces.step [] (h.append [c])
            simpa using h'
          · have h' := Replaces.step [] h
            rw [if_neg hold, List.append_nil,
              drop_of_isPrefixOf hold hfound]
            exact h'
        · rw [if_neg hfound, if_neg fun h => hfound h.2]
          exact (ih limit 0 (Or.inr rfl)).append [c]

theorem mem_of_count {l : List α} {a : α} (ha : a ∈ old) :
    ∀ {skip : Nat}, count old skip l ≠ 0 → a ∈ l := by
  induction l with
  | nil =>
    intro skip h
    unfold count at h
    rw [if_neg (List.ne_nil_of_mem ha)] at h
    exact absurd rfl h
  | cons c cs ih =>
    intro skip h
    cases skip with
    | succ skip =>
      rw [count] at h
      exact List.mem_cons_of_mem c (ih h)
    | zero =>
      rw [count] at h
      split at h
      · next hfound =>
        exact (List.isPrefixOf_iff_prefix.1 hfound).subset ha
      · exact List.mem_cons_of_mem c (ih h)

/-- The empty list occurs before every element and at the end. -/
theorem occurrences_nil (l : List α) :
    occurrences [] l = l.length + 1 := by
  induction l with
  | nil => rfl
  | cons c cs ih =>
    rw [occurrences, ih, if_pos (List.isPrefixOf_nil_left ..),
      List.length_cons, Nat.add_comm]

end Replace

end SdlcOs.Data
