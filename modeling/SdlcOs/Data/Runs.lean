/-
The runs of a list: its longest pieces whose elements are all kept.

A list in which every gap between kept elements is replaced by one
separator, and which is then trimmed, is its runs joined by separators
(`trim_collapse`). The runs depend on nothing but the kept elements and
where there are gaps between them (`runsFrom_gap`).
-/
import Mathlib.Data.List.DropRight

namespace SdlcOs.Data.Runs

variable {α : Type} (keep : α → Bool) (sep : α)

/-- Gaps as single separators, in a gap already or not. -/
def collapse : Bool → List α → List α
  | _, [] => []
  | gap, c :: l =>
    if keep c then c :: collapse false l
    else if gap then collapse true l
    else sep :: collapse true l

/-- No separators at the ends. -/
def trim [DecidableEq α] (l : List α) : List α :=
  (l.dropWhile (· = sep)).rdropWhile (· = sep)

/-- A run that has ended, unless it has not begun. -/
def closed : List α → List (List α)
  | [] => []
  | c :: run => [c :: run]

/-- The runs of a list, the first of which has come so far. -/
def runsFrom (run : List α) : List α → List (List α)
  | [] => closed run
  | c :: l =>
    if keep c then runsFrom (run ++ [c]) l
    else closed run ++ runsFrom [] l

/-- The runs of a list. -/
def runs (l : List α) : List (List α) := runsFrom keep [] l

variable {keep} {sep} {run l g : List α}

-- ==== runs

theorem closed_of_ne_nil (h : run ≠ []) : closed run = [run] := by
  cases run with
  | nil => exact absurd rfl h
  | cons c run => rfl

theorem mem_closed {r : List α} : r ∈ closed run ↔ r = run ∧ run ≠ [] := by
  cases run with
  | nil => simp [closed]
  | cons c run => simp [closed]

theorem mem_runsFrom (hrun : ∀ c ∈ run, keep c = true) {r : List α}
    (hr : r ∈ runsFrom keep run l) :
    r ≠ [] ∧ ∀ c ∈ r, keep c = true := by
  induction l generalizing run with
  | nil =>
    obtain ⟨rfl, hne⟩ := mem_closed.1 hr
    exact ⟨hne, hrun⟩
  | cons c l ih =>
    rw [runsFrom] at hr
    split at hr
    · next hc =>
      refine ih ?_ hr
      intro x hx
      rcases List.mem_append.1 hx with hx | hx
      · exact hrun x hx
      · rw [List.mem_singleton.1 hx]
        exact hc
    · rcases List.mem_append.1 hr with hr | hr
      · obtain ⟨rfl, hne⟩ := mem_closed.1 hr
        exact ⟨hne, hrun⟩
      · exact ih (fun x hx => absurd hx List.not_mem_nil) hr

theorem mem_runs {r : List α} (hr : r ∈ runs keep l) :
    r ≠ [] ∧ ∀ c ∈ r, keep c = true :=
  mem_runsFrom (fun _ hx => absurd hx List.not_mem_nil) hr

/-- A gap ends a run, however long it is. -/
theorem runsFrom_gap (hg : ∀ c ∈ g, keep c = false) (hne : g ≠ []) :
    runsFrom keep run (g ++ l) = closed run ++ runs keep l := by
  induction g generalizing run with
  | nil => exact absurd rfl hne
  | cons c g ih =>
    rw [List.cons_append, runsFrom,
      if_neg (by rw [hg c List.mem_cons_self]; exact Bool.false_ne_true)]
    cases g with
    | nil => rfl
    | cons c' g =>
      rw [ih (fun c hc => hg c (List.mem_cons_of_mem _ hc))
        (List.cons_ne_nil _ _)]
      rfl

theorem runsFrom_append_congr {l' : List α}
    (h : ∀ run, runsFrom keep run l = runsFrom keep run l') (g run : List α) :
    runsFrom keep run (g ++ l) = runsFrom keep run (g ++ l') := by
  induction g generalizing run with
  | nil => exact h run
  | cons c g ih =>
    rw [List.cons_append, List.cons_append, runsFrom, runsFrom, ih, ih]

theorem runs_gap_append (hg : ∀ c ∈ g, keep c = false) :
    runs keep (g ++ l) = runs keep l := by
  cases g with
  | nil => rfl
  | cons c g => exact runsFrom_gap hg (List.cons_ne_nil _ _)

theorem runsFrom_append_gap (hg : ∀ c ∈ g, keep c = false) :
    runsFrom keep run (l ++ g) = runsFrom keep run l := by
  induction l generalizing run with
  | nil =>
    cases g with
    | nil => rfl
    | cons c g =>
      have hgap := @runsFrom_gap _ keep run [] _ hg (List.cons_ne_nil _ _)
      rw [List.append_nil] at hgap
      rw [List.nil_append, hgap]
      exact List.append_nil _
  | cons c l ih =>
    rw [List.cons_append, runsFrom, runsFrom, ih, ih]

-- ==== trimmed

section Trim

variable [DecidableEq α]

theorem rdropWhile_append (p : α → Bool) (l l' : List α) :
    (l ++ l').rdropWhile p =
      if l'.rdropWhile p = [] then l.rdropWhile p
      else l ++ l'.rdropWhile p := by
  unfold List.rdropWhile
  rw [List.reverse_append, List.dropWhile_append]
  by_cases h : List.dropWhile p l'.reverse = []
  · rw [h]
    rfl
  · rw [if_neg (by simpa using h), if_neg (by simpa using h),
      List.reverse_append, List.reverse_reverse]

theorem rdropWhile_kept (hsep : keep sep = false)
    (hrun : ∀ c ∈ run, keep c = true) :
    run.rdropWhile (· = sep) = run := by
  rw [List.rdropWhile_eq_self_iff]
  intro hne hlast
  have hkept := hrun _ (List.getLast_mem hne)
  rw [of_decide_eq_true hlast, hsep] at hkept
  cases hkept

theorem intercalate_closed (hrun : run ≠ []) (rs : List (List α)) :
    [sep].intercalate (closed run ++ rs) =
      if rs = [] then run else run ++ sep :: [sep].intercalate rs := by
  rw [closed_of_ne_nil hrun]
  cases rs with
  | nil => simp
  | cons r rs => simp

theorem intercalate_eq_nil {rs : List (List α)} (h : ∀ r ∈ rs, r ≠ []) :
    [sep].intercalate rs = [] ↔ rs = [] := by
  cases rs with
  | nil => simp
  | cons r rs =>
    have hne := h r List.mem_cons_self
    cases rs with
    | nil => simp [hne]
    | cons r' rs => simp

/-- A list with its gaps collapsed, trimmed at its end: in a run, and in a
gap. -/
theorem rdropWhile_collapse (hsep : keep sep = false) (l : List α) :
    (∀ run : List α, run ≠ [] → (∀ c ∈ run, keep c = true) →
      (run ++ collapse keep sep false l).rdropWhile (· = sep) =
        [sep].intercalate (runsFrom keep run l)) ∧
    (collapse keep sep true l).rdropWhile (· = sep) =
      [sep].intercalate (runs keep l) := by
  induction l with
  | nil =>
    refine ⟨fun run hne hrun => ?_, rfl⟩
    rw [collapse, List.append_nil, rdropWhile_kept hsep hrun, runsFrom,
      closed_of_ne_nil hne]
    exact List.intercalate_singleton.symm
  | cons c l ih =>
    obtain ⟨ihrun, ihgap⟩ := ih
    rw [collapse, collapse, runs, runsFrom]
    cases hc : keep c with
    | true =>
      constructor
      · intro run hne hrun
        rw [if_pos rfl, runsFrom, if_pos hc,
          ← ihrun (run ++ [c]) (by simp)]
        · simp
        · intro x hx
          rcases List.mem_append.1 hx with hx | hx
          · exact hrun x hx
          · rw [List.mem_singleton.1 hx]
            exact hc
      · rw [if_pos rfl, if_pos rfl]
        refine ihrun [c] (List.cons_ne_nil _ _) ?_
        intro x hx
        rw [List.mem_singleton.1 hx]
        exact hc
    | false =>
      constructor
      · intro run hne hrun
        have hnil : [sep].intercalate (runs keep l) = [] ↔
            runs keep l = [] :=
          intercalate_eq_nil fun r hr => (mem_runs hr).1
        rw [if_neg Bool.false_ne_true, if_neg Bool.false_ne_true,
          runsFrom, if_neg (by rw [hc]; exact Bool.false_ne_true),
          show runsFrom keep [] l = runs keep l from rfl,
          intercalate_closed hne, List.append_cons, rdropWhile_append,
          ihgap]
        by_cases hruns : runs keep l = []
        · rw [if_pos (hnil.2 hruns), if_pos hruns, rdropWhile_append]
          have hone : [sep].rdropWhile (· = sep) = [] := by
            simp [List.rdropWhile]
          rw [if_pos hone, rdropWhile_kept hsep hrun]
        · rw [if_neg (fun h => hruns (hnil.1 h)), if_neg hruns]
          simp
      · rw [if_neg Bool.false_ne_true, if_pos rfl, if_neg Bool.false_ne_true]
        exact ihgap

/-- A gap's separator is all there is before the first run. -/
theorem dropWhile_collapse (hsep : keep sep = false) :
    (collapse keep sep true l).dropWhile (· = sep) =
      collapse keep sep true l := by
  induction l with
  | nil => rfl
  | cons c l ih =>
    rw [collapse]
    split
    · next hc =>
      refine List.dropWhile_cons_of_neg ?_
      intro heq
      rw [of_decide_eq_true heq, hsep] at hc
      cases hc
    · rw [if_pos rfl, ih]

/-- Gaps collapsed and ends trimmed: the runs, joined. -/
theorem trim_collapse (hsep : keep sep = false) (l : List α) :
    trim sep (collapse keep sep false l) =
      [sep].intercalate (runs keep l) := by
  rw [trim, ← (rdropWhile_collapse hsep l).2]
  congr 1
  cases l with
  | nil => rfl
  | cons c l =>
    rw [collapse, collapse]
    split
    · next hc =>
      refine List.dropWhile_cons_of_neg ?_
      intro heq
      rw [of_decide_eq_true heq, hsep] at hc
      cases hc
    · rw [if_neg Bool.false_ne_true, if_pos rfl,
        List.dropWhile_cons_of_pos (by simp), dropWhile_collapse hsep]

end Trim

end SdlcOs.Data.Runs
