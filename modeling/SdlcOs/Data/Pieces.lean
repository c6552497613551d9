/-
Names that are joined by a separator.

A text that was joined is split again at every separator, those inside
the names among them, so it has forgotten where the names began. Lists of
names are joined to one text exactly when they are spelled the same
(`join_eq_join_iff`), and each separator inside a name is a piece more
(`length_pieces`).

Where pieces are lost behind some names and others come before them, the
text is the same only if they go round: the names and what comes before
them are the end of what was lost, over and over
(`append_eq_append_iff_repeated`).
-/
import Mathlib.Data.List.Infix
import Mathlib.Data.List.SplitOn

namespace SdlcOs.Data

variable {α : Type} [DecidableEq α] {sep : α} {names names' : List (List α)}

-- ==== pieces

/-- What the names are split into. -/
def pieces (sep : α) (names : List (List α)) : List (List α) :=
  names.flatMap fun name => name.splitOn sep

theorem pieces_append : pieces sep (names ++ names') =
    pieces sep names ++ pieces sep names' :=
  List.flatMap_append

theorem pieces_singleton (name : List α) :
    pieces sep [name] = name.splitOn sep :=
  List.flatMap_singleton _ _

/-- The first of some names are spelled with the first of the pieces. -/
theorem prefix_pieces (h : names <+: names') :
    pieces sep names <+: pieces sep names' := by
  obtain ⟨rest, rfl⟩ := h
  rw [pieces_append]
  exact List.prefix_append _ _

/-- And so is a name that is the beginning of another, up to a separator. -/
theorem prefix_splitOn (name rest : List α) :
    name.splitOn sep <+: (name ++ sep :: rest).splitOn sep := by
  rw [List.splitOn_append_cons_self]
  exact List.prefix_append _ _

/-- What a joined text is split into: that of no names is empty, and has
one empty piece. -/
def spelled (sep : α) (names : List (List α)) : List (List α) :=
  if names = [] then [[]] else pieces sep names

theorem splitOn_join (names : List (List α)) :
    ([sep].intercalate names).splitOn sep = spelled sep names := by
  unfold spelled
  induction names with
  | nil => rfl
  | cons name names ih =>
    rw [if_neg (List.cons_ne_nil _ _)]
    cases names with
    | nil =>
      rw [List.intercalate_singleton]
      exact (List.append_nil _).symm
    | cons name' names =>
      rw [if_neg (List.cons_ne_nil _ _)] at ih
      rw [List.intercalate_cons_cons, List.append_assoc,
        List.singleton_append, List.splitOn_append_cons_self, ih]
      rfl

/-- Names are joined to one text exactly if they are spelled the same. -/
theorem join_eq_join_iff :
    [sep].intercalate names = [sep].intercalate names' ↔
      spelled sep names = spelled sep names' := by
  have hjoin : ∀ l : List (List α),
      [sep].intercalate (spelled sep l) = [sep].intercalate l := by
    intro l
    rw [← splitOn_join]
    exact List.intercalate_splitOn sep
  constructor
  · intro h
    rw [← splitOn_join, ← splitOn_join, h]
  · intro h
    rw [← hjoin names, ← hjoin names', h]

theorem pieces_of_pieces {l : List (List α)}
    (h : ∀ piece ∈ l, sep ∉ piece) : pieces sep l = l := by
  induction l with
  | nil => rfl
  | cons piece l ih =>
    show piece.splitOn sep ++ pieces sep l = piece :: l
    rw [List.splitOn_eq_singleton (h piece List.mem_cons_self),
      ih fun q hq => h q (List.mem_cons_of_mem _ hq)]
    rfl

theorem not_mem_splitOn {name piece : List α}
    (h : piece ∈ name.splitOn sep) : sep ∉ piece := by
  induction name generalizing piece with
  | nil =>
    rw [List.splitOn_nil, List.mem_singleton] at h
    rw [h]
    exact List.not_mem_nil
  | cons a name ih =>
    rw [List.splitOn_cons_eq_if_modifyHead] at h
    split at h
    · rcases List.mem_cons.1 h with rfl | h
      · exact List.not_mem_nil
      · exact ih h
    · next ha =>
      obtain ⟨first, rest, hsplit⟩ :=
        List.exists_cons_of_ne_nil (List.splitOn_ne_nil sep name)
      rw [hsplit] at h ih
      rcases List.mem_cons.1 h with rfl | h
      · rw [List.mem_cons, not_or]
        exact ⟨fun heq => ha (beq_iff_eq.2 heq.symm),
          ih List.mem_cons_self⟩
      · exact ih (List.mem_cons_of_mem _ h)

theorem mem_of_mem_splitOn {name piece : List α} {a : α}
    (h : piece ∈ name.splitOn sep) (ha : a ∈ piece) : a ∈ name := by
  induction name generalizing piece with
  | nil =>
    rw [List.splitOn_nil, List.mem_singleton] at h
    rwa [h] at ha
  | cons b name ih =>
    rw [List.splitOn_cons_eq_if_modifyHead] at h
    split at h
    · rcases List.mem_cons.1 h with rfl | h
      · cases ha
      · exact List.mem_cons_of_mem _ (ih h ha)
    · obtain ⟨first, rest, hsplit⟩ :=
        List.exists_cons_of_ne_nil (List.splitOn_ne_nil sep name)
      rw [hsplit] at h ih
      rcases List.mem_cons.1 h with rfl | h
      · rcases List.mem_cons.1 ha with rfl | ha
        · exact List.mem_cons_self
        · exact List.mem_cons_of_mem _ (ih List.mem_cons_self ha)
      · exact List.mem_cons_of_mem _ (ih (List.mem_cons_of_mem _ h) ha)

theorem mem_intercalate {β : Type} {sep : List β} {l : List (List β)}
    {c : β} (h : c ∈ sep.intercalate l) : c ∈ sep ∨ ∃ s ∈ l, c ∈ s := by
  induction l with
  | nil => cases h
  | cons s l ih =>
    cases l with
    | nil =>
      rw [List.intercalate_singleton] at h
      exact Or.inr ⟨s, List.mem_cons_self, h⟩
    | cons s' l =>
      rw [List.intercalate_cons_cons, List.mem_append,
        List.mem_append] at h
      rcases h with (h | h) | h
      · exact Or.inr ⟨s, List.mem_cons_self, h⟩
      · exact Or.inl h
      · rcases ih h with h | ⟨s'', hs, h⟩
        · exact Or.inl h
        · exact Or.inr ⟨s'', List.mem_cons_of_mem _ hs, h⟩

-- ==== lengths

theorem length_splitOn (name : List α) :
    (name.splitOn sep).length = name.count sep + 1 := by
  induction name with
  | nil => rfl
  | cons a name ih =>
    rw [List.splitOn_cons_eq_if_modifyHead]
    by_cases h : a = sep
    · rw [if_pos (beq_iff_eq.2 h), List.length_cons, ih, h,
        List.count_cons_self]
    · rw [if_neg (fun hbeq => h (beq_iff_eq.1 hbeq)), List.length_modifyHead,
        ih, List.count_cons_of_ne h]

/-- There is a piece for each name, and for each separator inside one. -/
theorem length_pieces (sep : α) (names : List (List α)) :
    (pieces sep names).length = names.length + names.flatten.count sep := by
  induction names with
  | nil => rfl
  | cons name names ih =>
    show (name.splitOn sep ++ pieces sep names).length = _
    rw [List.length_append, length_splitOn, ih, List.length_cons,
      List.flatten_cons, List.count_append]
    omega

theorem pieces_eq_nil_iff (sep : α) : pieces sep names = [] ↔ names = [] := by
  rw [← List.length_eq_zero_iff, length_pieces, ← List.length_eq_zero_iff]
  constructor
  · intro h
    omega
  · intro h
    rw [List.length_eq_zero_iff.1 h]
    rfl

theorem pieces_ne_of_forall (h : ∀ name ∈ names, name ≠ []) :
    pieces sep names ≠ [[]] := by
  intro hpieces
  have hlength := length_pieces sep names
  rw [hpieces, List.length_singleton] at hlength
  cases names with
  | nil => cases hpieces
  | cons name names =>
    rw [List.length_cons] at hlength
    obtain rfl : names = [] := List.eq_nil_of_length_eq_zero (by omega)
    have hname : name.splitOn sep = [[]] := by
      rw [← hpieces]
      exact (List.append_nil _).symm
    apply h name List.mem_cons_self
    have hjoin : [sep].intercalate (name.splitOn sep) = name :=
      List.intercalate_splitOn sep
    rw [← hjoin, hname]
    rfl

/-- Two lists of names are spelled the same if they have the same pieces,
unless one of them is empty and the other has an empty piece alone. -/
theorem spelled_eq_iff (h : names = [] → pieces sep names' ≠ [[]])
    (h' : names' = [] → pieces sep names ≠ [[]]) :
    spelled sep names = spelled sep names' ↔
      pieces sep names = pieces sep names' := by
  unfold spelled
  by_cases hnil : names = []
  · rw [if_pos hnil]
    by_cases hnil' : names' = []
    · rw [if_pos hnil', hnil, hnil']
      exact iff_of_true rfl rfl
    · rw [if_neg hnil']
      refine iff_of_false (fun heq => h hnil heq.symm) fun heq => hnil' ?_
      rw [hnil] at heq
      exact (pieces_eq_nil_iff _).1 heq.symm
  · rw [if_neg hnil]
    by_cases hnil' : names' = []
    · rw [if_pos hnil']
      refine iff_of_false (h' hnil') fun heq => hnil ?_
      rw [hnil'] at heq
      exact (pieces_eq_nil_iff _).1 heq
    · rw [if_neg hnil']

theorem take_dropLast {β : Type} (l : List β) (n : Nat) :
    l.dropLast.take (l.dropLast.length - n) = l.take (l.length - (n + 1)) := by
  rw [List.length_dropLast, List.dropLast_eq_take, List.take_take]
  congr 1
  omega

-- ==== repetitions

section Repetitions

variable {β : Type}

/-- A list over and over. -/
def repeated (n : Nat) (l : List β) : List β := (List.replicate n l).flatten

theorem repeated_succ (n : Nat) (l : List β) :
    repeated (n + 1) l = repeated n l ++ l := by
  unfold repeated
  rw [List.replicate_succ', List.flatten_append, List.flatten_singleton]

theorem length_repeated (n : Nat) (l : List β) :
    (repeated n l).length = n * l.length := by
  unfold repeated
  rw [List.length_flatten, List.map_replicate, List.sum_replicate_nat]

/-- What comes out the same whether one list is put before it or another
after it is, with the first, the end of the second over and over. -/
theorem append_eq_append_iff_repeated {before l after : List β}
    (hafter : after ≠ []) :
    before ++ l = l ++ after ↔ before.length = after.length ∧
      before ++ l <:+ repeated (l.length + 1) after := by
  have hlong : l.length ≤ (repeated l.length after).length := by
    rw [length_repeated]
    exact Nat.le_mul_of_pos_right _ (List.length_pos_of_ne_nil hafter)
  constructor
  · intro h
    have hlength := congrArg List.length h
    rw [List.length_append, List.length_append] at hlength
    refine ⟨by omega, ?_⟩
    have hmove : ∀ n, repeated n before ++ l = l ++ repeated n after := by
      intro n
      induction n with
      | zero => exact (List.append_nil l).symm
      | succ n ih =>
        rw [repeated_succ, repeated_succ, List.append_assoc, h,
          ← List.append_assoc, ih, List.append_assoc]
    have hend : l <:+ l ++ repeated l.length after :=
      ⟨repeated l.length before, hmove l.length⟩
    rw [h, repeated_succ, List.suffix_append_self_iff]
    exact List.suffix_of_suffix_length_le hend (List.suffix_append _ _) hlong
  · rintro ⟨hlength, hend⟩
    have hrest : repeated l.length after <:+ repeated (l.length + 1) after :=
      ⟨after, rfl⟩
    have hl : l <:+ repeated l.length after :=
      List.suffix_of_suffix_length_le
        ((List.suffix_append before l).trans hend) hrest hlong
    have hmoved : l ++ after <:+ repeated (l.length + 1) after := by
      rw [repeated_succ, List.suffix_append_self_iff]
      exact hl
    have hsame : (before ++ l).length = (l ++ after).length := by
      rw [List.length_append, List.length_append]
      omega
    exact (List.suffix_of_suffix_length_le hend hmoved
      (Nat.le_of_eq hsame)).eq_of_length hsame

theorem cons_eq_append_iff {a : β} {l after : List β} :
    a :: l = l ++ after ↔ after = [a] ∧ ∀ b ∈ l, b = a := by
  induction l with
  | nil => simp [eq_comm]
  | cons b l ih =>
    rw [List.cons_append, List.cons.injEq, List.forall_mem_cons]
    constructor
    · rintro ⟨rfl, h⟩
      obtain ⟨hafter, hl⟩ := ih.1 h
      exact ⟨hafter, rfl, hl⟩
    · rintro ⟨hafter, rfl, hl⟩
      exact ⟨rfl, ih.2 ⟨hafter, hl⟩⟩

end Repetitions

end SdlcOs.Data
