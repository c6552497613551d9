/-
Reading a list page by page, by offset.

# While it grows

The lists are the successive states of what is read, one for each page.
A list that does not change is read as it stands (`drain_still`). Once it
has grown, every element moves to a later position: none that is still
ahead is passed by (`drain_reaches`), and the last one of the page before
comes again (`drain_repeats`). So each element is read exactly once if
and only if nothing was added (`drain_exact`).
-/
import Mathlib.Data.List.Chain
import Mathlib.Data.List.Nodup

namespace SdlcOs.Data

variable {α : Type} {size : Nat}

/-- A page of a list. -/
def pageOf (size offset : Nat) (l : List α) : List α :=
  (l.drop offset).take size

/-- The pages from an offset on, each of the next list, to the first that
is not full; nothing unless that one is the last list's. -/
def drain (size : Nat) : Nat → List (List α) → Option (List α)
  | _, [] => none
  | offset, l :: ls =>
    if (pageOf size offset l).length < size then
      if ls.isEmpty then some (pageOf size offset l) else none
    else (drain size (offset + size) ls).map (pageOf size offset l ++ ·)

theorem length_pageOf (offset : Nat) (l : List α) :
    (pageOf size offset l).length = min size (l.length - offset) := by
  rw [pageOf, List.length_take, List.length_drop]

theorem pageOf_last {offset : Nat} {l : List α}
    (h : (pageOf size offset l).length < size) :
    pageOf size offset l = l.drop offset := by
  rw [length_pageOf] at h
  exact List.take_of_length_le (by rw [List.length_drop]; omega)

theorem drain_inv (hsize : 0 < size) {offset : Nat} {l : List α}
    {ls : List (List α)} {xs : List α}
    (h : drain size offset (l :: ls) = some xs) :
    (ls = [] ∧ xs = l.drop offset) ∨
      offset + size ≤ l.length ∧ ∃ ys,
        drain size (offset + size) ls = some ys ∧
          xs = pageOf size offset l ++ ys := by
  rw [drain] at h
  by_cases hshort : (pageOf size offset l).length < size
  · rw [if_pos hshort] at h
    split at h
    · next hnil =>
      refine Or.inl ⟨List.isEmpty_iff.1 hnil, ?_⟩
      rw [← pageOf_last hshort]
      exact (Option.some.inj h).symm
    · cases h
  · rw [if_neg hshort] at h
    rw [length_pageOf] at hshort
    obtain ⟨ys, hys, heq⟩ := Option.map_eq_some_iff.1 h
    exact Or.inr ⟨by omega, ys, hys, heq.symm⟩

theorem drain_nil {offset : Nat} {xs : List α} :
    drain size offset [] ≠ some xs := by
  intro h
  cases h

/-- What does not change is read as it stands. -/
theorem drain_still (hsize : 0 < size) {l : List α} {ls : List (List α)} :
    ∀ {offset : Nat} {xs : List α}, (∀ l' ∈ ls, l' = l) →
      drain size offset (l :: ls) = some xs → xs = l.drop offset := by
  induction ls with
  | nil =>
    intro offset xs _ h
    rcases drain_inv hsize h with ⟨_, heq⟩ | ⟨_, ys, hys, _⟩
    · exact heq
    · exact absurd hys drain_nil
  | cons l₁ ls ih =>
    intro offset xs hsame h
    rcases drain_inv hsize h with ⟨hnil, _⟩ | ⟨_, ys, hys, heq⟩
    · cases hnil
    · rw [hsame l₁ List.mem_cons_self] at hys
      have hrest := ih (fun l' hl' =>
        hsame l' (List.mem_cons_of_mem _ hl')) hys
      rw [heq, hrest, pageOf, ← List.drop_drop, List.take_append_drop]

/-- What is still ahead is read. -/
theorem drain_reaches (hsize : 0 < size) {x : α} {ls : List (List α)} :
    ∀ {l : List α} {offset p : Nat} {xs : List α},
      (l :: ls).IsChain (· <:+ ·) → offset ≤ p → l[p]? = some x →
        drain size offset (l :: ls) = some xs → x ∈ xs := by
  induction ls with
  | nil =>
    intro l offset p xs _ hp hx h
    rcases drain_inv hsize h with ⟨_, rfl⟩ | ⟨_, ys, hys, _⟩
    · apply List.mem_of_getElem? (i := p - offset)
      rw [List.getElem?_drop, Nat.add_sub_cancel' hp]
      exact hx
    · exact absurd hys drain_nil
  | cons l₁ ls ih =>
    intro l offset p xs hchain hp hx h
    rcases drain_inv hsize h with ⟨hnil, _⟩ | ⟨_, ys, hys, rfl⟩
    · cases hnil
    by_cases hpage : p < offset + size
    · -- it is on this page
      refine List.mem_append_left _ ?_
      apply List.mem_of_getElem? (i := p - offset)
      rw [pageOf, List.getElem?_take_of_lt (by omega), List.getElem?_drop,
        Nat.add_sub_cancel' hp]
      exact hx
    · -- it is ahead of the next page, wherever it moved
      obtain ⟨added, rfl⟩ := hchain.rel_head? rfl
      refine List.mem_append_right _
        (ih (p := added.length + p) hchain.tail (by omega) ?_ hys)
      rw [List.getElem?_append_right (by omega), Nat.add_sub_cancel_left]
      exact hx

/-- A drain comes to its end once the list no longer grows. -/
theorem drain_ends (hsize : 0 < size) (l : List α) : ∀ (left offset : Nat),
    l.length - offset ≤ left →
      ∃ n, (drain size offset (l :: List.replicate n l)).isSome := by
  intro left
  induction left using Nat.strongRecOn with
  | ind left ih =>
    intro offset hleft
    by_cases hshort : (pageOf size offset l).length < size
    · refine ⟨0, ?_⟩
      rw [drain, if_pos hshort]
      rfl
    · rw [length_pageOf] at hshort
      obtain ⟨n, hn⟩ := ih (left - size) (by omega) (offset + size)
        (by omega)
      refine ⟨n + 1, ?_⟩
      rw [drain, if_neg (by rw [length_pageOf]; exact hshort),
        Option.isSome_map]
      exact hn

/-- A drain comes to its end while the list grows or after it. -/
theorem drain_returns (hsize : 0 < size) (ls : List (List α)) :
    ∀ (offset : Nat) (l : List α), ∃ ls',
      (ls' <+: ls ∨ ∃ n, ls' = ls ++
        List.replicate n ((l :: ls).getLast (List.cons_ne_nil _ _))) ∧
        (drain size offset (l :: ls')).isSome := by
  induction ls with
  | nil =>
    intro offset l
    obtain ⟨n, hn⟩ := drain_ends hsize l _ offset (Nat.le_refl _)
    exact ⟨_, Or.inr ⟨n, rfl⟩, hn⟩
  | cons l₁ ls ih =>
    intro offset l
    by_cases hshort : (pageOf size offset l).length < size
    · refine ⟨[], Or.inl (List.nil_prefix), ?_⟩
      rw [drain, if_pos hshort]
      rfl
    · obtain ⟨ls', hls', hsome⟩ := ih (offset + size) l₁
      refine ⟨l₁ :: ls', ?_, ?_⟩
      · rcases hls' with hpre | ⟨n, rfl⟩
        · exact Or.inl ((List.cons_prefix_cons).2 ⟨rfl, hpre⟩)
        · exact Or.inr ⟨n, rfl⟩
      · rw [drain, if_neg hshort, Option.isSome_map]
        exact hsome

variable [DecidableEq α]

/-- Once the list has grown, the last element of the page before comes
again. -/
theorem drain_repeats (hsize : 0 < size) {l l' : List α}
    {ls : List (List α)} : ∀ {offset : Nat} {xs : List α},
      (l :: ls).IsChain (· <:+ ·) → l' ∈ ls → l' ≠ l →
        drain size offset (l :: ls) = some xs →
          ∃ x ∈ l, 2 ≤ xs.count x := by
  induction ls with
  | nil =>
    intro offset xs _ hmem
    cases hmem
  | cons l₁ ls ih =>
    intro offset xs hchain hmem hne h
    rcases drain_inv hsize h with ⟨hnil, _⟩ | ⟨hlen, ys, hys, rfl⟩
    · cases hnil
    by_cases hsame : l₁ = l
    · subst hsame
      have hlater : l' ∈ ls := (List.mem_cons.1 hmem).resolve_left hne
      obtain ⟨x, hx, hcount⟩ := ih hchain.tail hlater hne hys
      refine ⟨x, hx, ?_⟩
      rw [List.count_append]
      omega
    · obtain ⟨added, rfl⟩ := hchain.rel_head? rfl
      have hadded : added.length ≠ 0 := by
        intro hzero
        rw [List.eq_nil_of_length_eq_zero hzero] at hsame
        exact hsame rfl
      obtain ⟨x, hx⟩ : ∃ x, l[offset + size - 1]? = some x :=
        ⟨_, List.getElem?_eq_getElem (by omega)⟩
      have hpage : x ∈ pageOf size offset l := by
        apply List.mem_of_getElem? (i := size - 1)
        rw [pageOf, List.getElem?_take_of_lt (by omega),
          List.getElem?_drop, ← Nat.add_sub_assoc (by omega)]
        exact hx
      have hagain : x ∈ ys := by
        refine drain_reaches hsize (p := added.length + (offset + size - 1))
          hchain.tail (by omega) ?_ hys
        rw [List.getElem?_append_right (by omega), Nat.add_sub_cancel_left]
        exact hx
      refine ⟨x, List.mem_of_getElem? hx, ?_⟩
      rw [List.count_append]
      have h₁ := List.count_pos_iff.2 hpage
      have h₂ := List.count_pos_iff.2 hagain
      omega

/-- Each element of the first list is read exactly once if and only if
the list did not grow. -/
theorem drain_exact (hsize : 0 < size) {l : List α} {ls : List (List α)}
    {xs : List α} (hnodup : l.Nodup) (hchain : (l :: ls).IsChain (· <:+ ·))
    (h : drain size 0 (l :: ls) = some xs) :
    (∀ x ∈ l, xs.count x = 1) ↔ ∀ l' ∈ ls, l' = l := by
  constructor
  · intro honce l' hl'
    by_contra hne
    obtain ⟨x, hx, hcount⟩ := drain_repeats hsize hchain hl' hne h
    have hone := honce x hx
    omega
  · intro hsame x hx
    rw [drain_still hsize hsame h, List.drop_zero]
    exact List.count_eq_one_of_mem hnodup hx

-- ==== with a cursor

/-- The pages of a list from an offset on, each of them followed by the
next one as long as there is more of the list behind it. -/
inductive Paged (size : Nat) (l : List α) : Nat → List (List α) → Prop where
  | last {offset : Nat} (h : l.length ≤ offset + size) :
      Paged size l offset [pageOf size offset l]
  | next {offset : Nat} {pages : List (List α)}
      (h : offset + size < l.length)
      (hrest : Paged size l (offset + size) pages) :
      Paged size l offset (pageOf size offset l :: pages)

theorem paged_ends (hsize : 0 < size) (l : List α) :
    ∀ (left offset : Nat), l.length - offset ≤ left →
      ∃ pages, Paged size l offset pages := by
  intro left
  induction left with
  | zero =>
    intro offset hleft
    exact ⟨_, .last (by omega)⟩
  | succ left ih =>
    intro offset hleft
    by_cases hmore : offset + size < l.length
    · obtain ⟨pages, hpages⟩ := ih (offset + size) (by omega)
      exact ⟨_, .next hmore hpages⟩
    · exact ⟨_, .last (by omega)⟩

theorem Paged.flatten {l : List α} {offset : Nat} {pages : List (List α)}
    (h : Paged size l offset pages) : pages.flatten = l.drop offset := by
  induction h with
  | last hlast =>
    rw [List.flatten_cons, List.flatten_nil, List.append_nil, pageOf]
    apply List.take_of_length_le
    rw [List.length_drop]
    omega
  | next _ _ ih =>
    rw [List.flatten_cons, ih, pageOf, ← List.drop_drop,
      List.take_append_drop]

theorem Paged.nonempty (hsize : 0 < size) {l : List α} {offset : Nat}
    {pages : List (List α)} (h : Paged size l offset pages)
    (hleft : offset < l.length) : ∀ page ∈ pages, page ≠ [] := by
  have hpage : ∀ {offset : Nat}, offset < l.length →
      pageOf size offset l ≠ [] := by
    intro offset hleft hnil
    have hlength : (pageOf size offset l).length =
        min size (l.length - offset) := length_pageOf offset l
    rw [hnil, List.length_nil] at hlength
    omega
  induction h with
  | last _ =>
    intro page hmem
    rw [List.mem_singleton] at hmem
    rw [hmem]
    exact hpage hleft
  | next hmore _ ih =>
    rw [List.forall_mem_cons]
    exact ⟨hpage hleft, ih hmore⟩

end SdlcOs.Data
