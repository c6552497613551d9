/-
Collecting elements by a key, each key once, and sorting them by it.

Where no two of the elements have one key, what comes out depends on
which elements went in and not on their order: the first elements of the
keys are all the elements (`mem_firsts`), and a sorted list without a
repeated key is given by its elements (`sortBy_congr`). Going through a
list group by group goes through the members of the groups, each once
(`flatMap_groups_perm`).
-/
import Mathlib.Data.List.Induction
import Mathlib.Data.List.Nodup
import Mathlib.Data.List.Sort

namespace SdlcOs.Data

variable {α κ : Type}

/-- One more element, unless its key was seen. -/
def addNew [DecidableEq κ] (key : α → κ) (l : List α) (x : α) : List α :=
  if key x ∈ l.map key then l else l ++ [x]

/-- The first element of each key, in order. -/
def firsts [DecidableEq κ] (key : α → κ) (l : List α) : List α :=
  l.foldl (addNew key) []

/-- The elements sorted by their keys, in their order where these are
equal. -/
def sortBy [LinearOrder κ] (key : α → κ) (l : List α) : List α :=
  l.insertionSort fun x y => key x ≤ key y

/-- No two of the elements have one key. -/
def KeyInj (key : α → κ) (l : List α) : Prop :=
  ∀ x ∈ l, ∀ y ∈ l, key x = key y → x = y

theorem KeyInj.subset {key : α → κ} {l l' : List α} (h : KeyInj key l)
    (hsub : l' ⊆ l) : KeyInj key l' :=
  fun x hx y hy => h x (hsub hx) y (hsub hy)

-- ==== firsts

section Firsts

variable [DecidableEq κ] {key : α → κ}

theorem nodup_addNew {l : List α} {x : α} (h : (l.map key).Nodup) :
    ((addNew key l x).map key).Nodup := by
  rw [addNew]
  split
  · exact h
  · next hx =>
    rw [List.map_append, List.nodup_append]
    refine ⟨h, List.nodup_singleton _, ?_⟩
    intro k hk k' hk' heq
    rw [List.map_singleton, List.mem_singleton] at hk'
    rw [heq, hk'] at hk
    exact hx hk

theorem nodup_foldl_addNew {l acc : List α} (h : (acc.map key).Nodup) :
    ((l.foldl (addNew key) acc).map key).Nodup := by
  induction l generalizing acc with
  | nil => exact h
  | cons x l ih => exact ih (nodup_addNew h)

theorem nodup_firsts (l : List α) : ((firsts key l).map key).Nodup :=
  nodup_foldl_addNew List.nodup_nil

theorem firsts_concat (l : List α) (x : α) :
    firsts key (l ++ [x]) = addNew key (firsts key l) x :=
  List.foldl_append

theorem mem_map_addNew {l : List α} {x : α} {k : κ} :
    k ∈ (addNew key l x).map key ↔ k ∈ l.map key ∨ k = key x := by
  unfold addNew
  by_cases h : key x ∈ l.map key
  · rw [if_pos h]
    refine ⟨Or.inl, ?_⟩
    intro hk
    rcases hk with hk | hk
    · exact hk
    · exact hk ▸ h
  · rw [if_neg h, List.map_append, List.mem_append]
    exact or_congr_right List.mem_singleton

theorem mem_map_firsts {l : List α} {k : κ} :
    k ∈ (firsts key l).map key ↔ k ∈ l.map key := by
  induction l using List.reverseRecOn with
  | nil => exact Iff.rfl
  | append_singleton l x ih =>
    rw [firsts_concat, mem_map_addNew, ih, List.map_append,
      List.mem_append]
    exact or_congr_right List.mem_singleton.symm

theorem mem_addNew {l : List α} {x y : α} (h : KeyInj key (x :: l)) :
    y ∈ addNew key l x ↔ y = x ∨ y ∈ l := by
  rw [addNew]
  split
  · next hx =>
    obtain ⟨z, hz, hkey⟩ := List.mem_map.1 hx
    have hzx := h z (List.mem_cons_of_mem _ hz) x List.mem_cons_self hkey
    rw [hzx] at hz
    constructor
    · exact Or.inr
    · intro hy
      cases hy with
      | inl hy => rw [hy]; exact hz
      | inr hy => exact hy
  · rw [List.mem_append, List.mem_singleton]
    exact or_comm

theorem mem_foldl_addNew {l acc : List α} {y : α}
    (h : KeyInj key (l ++ acc)) :
    y ∈ l.foldl (addNew key) acc ↔ y ∈ l ∨ y ∈ acc := by
  induction l generalizing acc with
  | nil => simp
  | cons x l ih =>
    have hx : KeyInj key (x :: acc) := h.subset (by simp)
    have hl : KeyInj key (l ++ addNew key acc x) := by
      refine h.subset ?_
      intro z hz
      rw [List.mem_append, mem_addNew hx] at hz
      simp only [List.cons_append, List.mem_cons, List.mem_append]
      tauto
    rw [List.foldl_cons, ih hl, mem_addNew hx, List.mem_cons]
    tauto

/-- Where the keys tell the elements apart, each comes out. -/
theorem mem_firsts {l : List α} {y : α} (h : KeyInj key l) :
    y ∈ firsts key l ↔ y ∈ l := by
  rw [firsts, mem_foldl_addNew (by rw [List.append_nil]; exact h)]
  simp

end Firsts

-- ==== sortBy

section Sorted

variable [LinearOrder κ] {key : α → κ}

@[simp] theorem mem_sortBy {l : List α} {x : α} :
    x ∈ sortBy key l ↔ x ∈ l :=
  List.mem_insertionSort _

theorem pairwise_sortBy (l : List α) :
    (sortBy key l).Pairwise fun x y => key x ≤ key y := by
  have htotal : Std.Total fun x y : α => key x ≤ key y :=
    ⟨fun x y => le_total _ _⟩
  have htrans : IsTrans α fun x y => key x ≤ key y :=
    ⟨fun x y z => le_trans⟩
  exact List.pairwise_insertionSort _ l

/-- Two lists of the same elements, no two with one key, sort alike. -/
theorem sortBy_congr {l l' : List α} (hmem : ∀ x, x ∈ l ↔ x ∈ l')
    (hl : (l.map key).Nodup) (hl' : (l'.map key).Nodup) :
    sortBy key l = sortBy key l' := by
  have hperm : l.Perm l' :=
    (List.perm_ext_iff_of_nodup (List.Nodup.of_map _ hl)
      (List.Nodup.of_map _ hl')).2 hmem
  have hsorted : (sortBy key l).Perm (sortBy key l') :=
    ((List.perm_insertionSort _ l).trans hperm).trans
      (List.perm_insertionSort _ l').symm
  refine hsorted.eq_of_pairwise ?_ (pairwise_sortBy l) (pairwise_sortBy l')
  intro x y hx hy hxy hyx
  rw [mem_sortBy] at hx hy
  exact List.inj_on_of_nodup_map hl hx ((hmem y).2 hy)
    (le_antisymm hxy hyx)

end Sorted

-- ==== grouping

theorem nodup_eraseDups [DecidableEq α] :
    ∀ (n : Nat) (l : List α), l.length ≤ n → l.eraseDups.Nodup := by
  intro n
  induction n with
  | zero =>
    intro l hl
    rw [List.length_eq_zero_iff.1 (Nat.le_zero.1 hl)]
    exact List.nodup_nil
  | succ n ih =>
    intro l hl
    cases l with
    | nil => exact List.nodup_nil
    | cons a l =>
      rw [List.eraseDups_cons, List.nodup_cons]
      refine ⟨?_, ih _ ?_⟩
      · rw [List.mem_eraseDups, List.mem_filter]
        rintro ⟨-, hc⟩
        rw [beq_self_eq_true] at hc
        cases hc
      · exact (List.length_filter_le _ _).trans (Nat.le_of_succ_le_succ hl)

/-- Going through the groups of a list goes through the members of these
groups, each once. -/
theorem flatMap_groups_perm [DecidableEq κ] (key : α → Option κ)
    (l : List α) : ∀ {names : List κ}, names.Nodup →
      (names.flatMap fun g => l.filter fun a => key a = some g).Perm
        (l.filter fun a => (key a).any (· ∈ names)) := by
  intro names
  induction names with
  | nil =>
    intro _
    rw [List.flatMap_nil, List.filter_eq_nil_iff.2]
    intro a _ hc
    cases hk : key a with
    | none => rw [hk] at hc; cases hc
    | some g =>
      rw [hk] at hc
      simp at hc
  | cons g names ih =>
    intro h
    rw [List.nodup_cons] at h
    rw [List.flatMap_cons]
    refine ((ih h.2).append_left _).trans ?_
    refine .trans (.of_eq ?_) (List.filter_append_perm
      (fun a => key a = some g)
      (l.filter fun a => (key a).any (· ∈ g :: names)))
    rw [List.filter_filter, List.filter_filter]
    refine congrArg₂ _ (List.filter_congr fun a _ => ?_)
      (List.filter_congr fun a _ => ?_)
    · cases hk : key a with
      | none => rfl
      | some g' =>
        by_cases hg : g' = g
        · subst hg
          simp
        · simp [hg]
    · cases hk : key a with
      | none => rfl
      | some g' =>
        by_cases hg : g' = g
        · subst hg
          simp [h.1]
        · simp [hg]

end SdlcOs.Data
