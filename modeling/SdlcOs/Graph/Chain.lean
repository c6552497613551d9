/-
Lists whose neighbours are related, as walks in a graph.

`Guarded` is dominance, locally: from inside a region every edge stays in
the region or enters a gate. A walk that starts inside and is outside
later has then passed a gate on the way (`chain_meets`).
-/
import Mathlib.Data.List.Chain

namespace SdlcOs.Graph

variable {α : Type} {R : α → α → Prop} {C G : α → Prop}

/-- Every edge from inside `C` stays inside or enters a gate. -/
def Guarded (R : α → α → Prop) (C G : α → Prop) : Prop :=
  ∀ x y, C x → R x y → C y ∨ G y

/-- A walk from inside to an element outside that is no gate passes a
gate in between. -/
theorem chain_meets (hguard : Guarded R C G) :
    ∀ {mid : List α} {x z : α} {post : List α},
      (x :: (mid ++ z :: post)).IsChain R → C x → ¬ C z → ¬ G z →
        ∃ g ∈ mid, G g := by
  intro mid
  induction mid with
  | nil =>
    intro x z post hchain hx hz hgate
    have hedge : R x z := hchain.rel_head? rfl
    rcases hguard _ _ hx hedge with hin | hin
    · exact absurd hin hz
    · exact absurd hin hgate
  | cons y mid ih =>
    intro x z post hchain hx hz hgate
    have hedge : R x y := hchain.rel_head? rfl
    rcases hguard _ _ hx hedge with hin | hin
    · obtain ⟨g, hg, hgg⟩ := ih hchain.tail hin hz hgate
      exact ⟨g, List.mem_cons_of_mem _ hg, hgg⟩
    · exact ⟨y, List.mem_cons_self, hin⟩

theorem chain_exits (hguard : Guarded R C G) {x z : α} {l : List α}
    (hchain : (x :: l).IsChain R) (hx : C x)
    (hlast : (x :: l).getLast? = some z) (hz : ¬ C z) : ∃ g ∈ l, G g := by
  obtain ⟨init, hinit⟩ := List.getLast?_eq_some_iff.1 hlast
  cases init with
  | nil =>
    obtain ⟨rfl, _⟩ := List.cons.inj hinit
    exact absurd hx hz
  | cons y mid =>
    obtain ⟨rfl, rfl⟩ := List.cons.inj hinit
    by_cases hgate : G z
    · exact ⟨z, List.mem_append_right _ List.mem_cons_self, hgate⟩
    · obtain ⟨g, hg, hgg⟩ := chain_meets hguard hchain hx hz hgate
      exact ⟨g, List.mem_append_left _ hg, hgg⟩

theorem exists_last {a : α} {l : List α} (h : a ∈ l) :
    ∃ pre post, l = pre ++ a :: post ∧ a ∉ post := by
  obtain ⟨post, pre, hrev, hnot⟩ :=
    List.eq_append_cons_of_mem (List.mem_reverse.2 h)
  refine ⟨pre.reverse, post.reverse, ?_, ?_⟩
  · have hl := congrArg List.reverse hrev
    simpa using hl
  · simpa using hnot

theorem chain_concat {l : List α} {x y : α} (h : (l ++ [x]).IsChain R)
    (hxy : R x y) : (l ++ [x] ++ [y]).IsChain R := by
  refine h.append (List.isChain_singleton y) ?_
  intro a ha b hb
  rw [List.getLast?_concat, Option.mem_some_iff] at ha
  rw [List.head?_cons, Option.mem_some_iff] at hb
  rw [← ha, ← hb]
  exact hxy

end SdlcOs.Graph
