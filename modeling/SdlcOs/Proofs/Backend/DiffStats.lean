/-
When the measured diff is the real one.
-/
import SdlcOs.Backend.DiffStats
import SdlcOs.Proofs.Index.Lines

namespace SdlcOs.Bedrock.DiffStats

open Data (Dict splitOn_join mem_intercalate)
open Gates (isSpace strip)
open Index (OneLine endsLine escapeLetter getLast?_append gitQuote
  head?_append isAbsolute octalEscape oneLine_append oneLine_of_all
  pathParts plainChar plainPath quoteChar splitLines splitLines_lines
  splitOn strip_eq)
open Orchestrator (sortedSet mem_sortedSet)

-- ==== quoting

/-- A character from the space to the tilde. -/
def Printable (c : Char) : Prop := 0x20 ≤ c.toNat ∧ c.toNat ≤ 0x7e

/-- What is between quotation marks. -/
def quoted (name : String) : String :=
  .ofList (Char.ofNat 0x22 :: name.toList.flatMap quoteChar ++
    [Char.ofNat 0x22])

theorem Printable.endsLine {c : Char} (h : Printable c) :
    endsLine c = false := by
  unfold Printable at h
  simp only [Index.endsLine, Bool.or_eq_false_iff, Bool.and_eq_false_iff,
    decide_eq_false_iff_not]
  omega

theorem Printable.isSpace {c : Char} (h : Printable c) (hc : c ≠ ' ') :
    isSpace c = false := by
  have hne : c.toNat ≠ 0x20 := fun heq => hc (Char.toNat_inj.1 heq)
  unfold Printable at h
  simp only [Gates.isSpace, Bool.or_eq_false_iff, Bool.and_eq_false_iff,
    decide_eq_false_iff_not]
  omega

/-- A text that neither begins nor ends in white space. -/
structure Solid (s : String) : Prop where
  first : ∃ c, s.toList.head? = some c ∧ isSpace c = false
  last : ∃ c, s.toList.getLast? = some c ∧ isSpace c = false

theorem Solid.strip_eq {s : String} (h : Solid s) : strip s = s := by
  obtain ⟨c, hc, hspace⟩ := h.first
  obtain ⟨d, hd, hspace'⟩ := h.last
  exact Index.strip_eq hc hspace hd hspace'

theorem Solid.append {s t : String} (hs : Solid s) (ht : Solid t)
    (u : String) : Solid (s ++ u ++ t) := by
  obtain ⟨c, hc, hspace⟩ := hs.first
  obtain ⟨d, hd, hspace'⟩ := ht.last
  have hne : t ≠ "" := by
    rintro rfl
    cases hd
  refine ⟨⟨c, ?_, hspace⟩, d, ?_, hspace'⟩
  · exact head?_append (head?_append hc)
  · rw [getLast?_append hne]
    exact hd

theorem isSpace_of_strip {s : String} (h : strip s = "") :
    ∀ c ∈ s.toList, isSpace c = true := by
  unfold strip at h
  have hnil := String.ofList_eq_empty_iff.1 h
  rw [List.reverse_eq_nil_iff, List.dropWhile_eq_nil_iff] at hnil
  intro c hc
  rw [← List.takeWhile_append_dropWhile (p := isSpace) (l := s.toList),
    List.mem_append] at hc
  cases hc with
  | inl hc => exact List.mem_takeWhile_imp hc
  | inr hc => exact hnil c (List.mem_reverse.2 hc)

-- ==== paths

/-- Names with slashes between them. -/
def join (names : List String) : String := String.intercalate "/" names

theorem properName_iff {name : String} : properName name = true ↔
    name ≠ "" ∧ name ≠ "." ∧ name ≠ ".." ∧ '/' ∉ name.toList := by
  simp only [properName, Bool.and_eq_true, decide_eq_true_eq]
  constructor
  · rintro ⟨⟨⟨hne, hdot⟩, hdots⟩, hslash⟩
    exact ⟨hne, hdot, hdots, hslash⟩
  · rintro ⟨hne, hdot, hdots, hslash⟩
    exact ⟨⟨⟨hne, hdot⟩, hdots⟩, hslash⟩

theorem Path.properName {p : Path} {name : String} (h : name ∈ p.names) :
    name ≠ "" ∧ name ≠ "." ∧ name ≠ ".." ∧ '/' ∉ name.toList :=
  properName_iff.1 (List.all_eq_true.1 p.proper name h)

namespace Workspace

variable {R : Rules} {w : Workspace}

/-- A line whose name is read back. -/
structure Legible (l : StatusLine) : Prop where
  staged : Printable l.staged
  unstaged : Printable l.unstaged
  name : ∀ c ∈ l.name.toList, Printable c
  solid : Solid l.name

/-- A line in the status is read as its name. -/
theorem Legible.read {l : StatusLine} (h : Legible l) :
    OneLine l.text ∧ strip l.text ≠ "" ∧
      strip (.ofList (l.text.toList.drop 3)) = l.name := by
  have hlist : l.text.toList = l.staged :: l.unstaged :: ' ' ::
      l.name.toList := String.toList_ofList
  refine ⟨?_, ?_, ?_⟩
  · intro c hc
    rw [hlist, List.mem_cons, List.mem_cons, List.mem_cons] at hc
    rcases hc with rfl | rfl | rfl | hc
    · exact h.staged.endsLine
    · exact h.unstaged.endsLine
    · decide
    · exact (h.name c hc).endsLine
  · intro hempty
    obtain ⟨c, hc, hspace⟩ := h.solid.first
    have hmem := List.mem_of_head? hc
    have hall := isSpace_of_strip hempty c (by
      rw [hlist]
      exact List.mem_cons_of_mem _ (List.mem_cons_of_mem _
        (List.mem_cons_of_mem _ hmem)))
    rw [hspace] at hall
    cases hall
  · rw [hlist]
    show strip (.ofList l.name.toList) = _
    rw [String.ofList_toList]
    exact h.solid.strip_eq

/-- The names that the status lists. -/
def names (R : Rules) (w : Workspace) : List String :=
  (w.statusLines R).map StatusLine.name

end Workspace

-- ==== counting

open Workspace (intOf isDigits lineChanges)

namespace NumstatLine

end NumstatLine

namespace Workspace

variable {R : Rules} {w : Workspace}

end Workspace

-- ==== candidates

namespace Workspace

variable {R : Rules} {w : Workspace}

theorem mem_index {p : Path} : p ∈ w.index.keys ↔ w.index.get p ≠ none := by
  rw [Dict.mem_keys_iff, Option.isSome_iff_ne_none]

theorem mem_differing {p : Path} :
    p ∈ w.differing ↔ w.head.get p ≠ w.get p := by
  unfold differing
  rw [List.mem_filter, List.mem_dedup, List.mem_append, Dict.mem_keys_iff,
    Dict.mem_keys_iff, Option.isSome_iff_ne_none,
    Option.isSome_iff_ne_none, decide_eq_true_eq, and_iff_right_iff_imp]
  intro h
  by_contra hnone
  rw [not_or, not_not, not_not] at hnone
  apply h
  unfold Workspace.get
  rw [hnone.1, hnone.2]
  split <;> rfl

/-- What is counted for a path outside the renamings. -/
def counted (R : Rules) (w : Workspace) (p : Path) : Nat :=
  (if w.head.get p ≠ w.onDisk.get p ∧ p ∉ sides (w.renamedOnDisk R) then
    R.lines (w.head.get p) (w.onDisk.get p) else 0) +
  if p ∈ w.differing then w.freshLines R p.text else 0

/-- What should be counted for a path. -/
def due (R : Rules) (w : Workspace) (p : Path) : Nat :=
  if p ∈ w.differing then R.lines (w.head.get p) (w.get p) else 0

/-- The status lists the paths in which HEAD and the workspace differ, each
by its own name. -/
def Listed (R : Rules) (w : Workspace) : Prop :=
  ∀ name, name ∈ w.names R ↔ name ∈ w.differing.map Path.text

theorem statusQuote_unquoted {name : String} (h : unquoted name = true) :
    statusQuote name = name := if_pos h

theorem covered {p : Path} (h : p ∈ w.differing) :
    p ∈ w.tracked ∧ w.modified p = true ∨
      p ∈ w.files.keys ∧ w.untracked p = true := by
  have hne := mem_differing.1 h
  unfold tracked modified untracked
  rw [List.mem_dedup, List.mem_append, Bool.or_eq_true, Bool.and_eq_true,
    Bool.and_eq_true, decide_eq_true_eq, decide_eq_true_eq,
    decide_eq_true_eq, decide_eq_true_eq, Bool.not_eq_true',
    Dict.mem_keys_iff, Option.isSome_iff_ne_none]
  by_cases hindex : p ∈ w.index.keys
  · left
    refine ⟨Or.inr hindex, ?_⟩
    have hget : w.get p = w.files.get p := if_pos (Or.inl hindex)
    rw [hget] at hne
    by_cases hhead : w.head.get p = w.index.get p
    · exact Or.inr ⟨hindex, fun heq => hne (hhead.trans heq)⟩
    · exact Or.inl hhead
  · have hnone : w.index.get p = none := by
      rw [mem_index, not_not] at hindex
      exact hindex
    by_cases hhead : w.head.get p = none
    · right
      rw [hhead] at hne
      unfold Workspace.get at hne
      split at hne
      · next hkept =>
        refine ⟨?_, hindex, hkept.resolve_left hindex⟩
        rw [Dict.mem_keys_iff, Option.isSome_iff_ne_none]
        exact Ne.symm hne
      · exact absurd rfl hne
    · left
      rw [hnone]
      exact ⟨Or.inl hhead, Or.inl hhead⟩

theorem listed_alone {p : Path} (h : ∀ d ∈ p.dirs, w.populated d = true) :
    w.listed p = p.text := by
  unfold listed
  rw [List.find?_eq_none.2]
  intro d hd
  rw [h d hd]
  exact Bool.false_ne_true

theorem mem_names {name : String} :
    name ∈ (w.statusLines R).map StatusLine.name ↔
      (∃ p, (p ∈ w.tracked ∧ w.modified p = true ∧
        p ∉ sides (w.renamed R)) ∧ statusQuote p.text = name) ∨
      (∃ r ∈ w.renamed R, statusQuote r.1.text ++ " -> " ++
        statusQuote r.2.text = name) ∨
      ∃ p, (p ∈ w.files.keys ∧ w.untracked p = true) ∧
        statusQuote (w.listed p) = name := by
  unfold statusLines
  rw [List.map_append, List.map_append, List.mem_append, List.mem_append,
    List.map_map, List.map_map, List.map_map, List.mem_map, List.mem_map,
    List.mem_map, or_assoc]
  apply or_congr
  · apply exists_congr
    intro p
    rw [List.mem_filter, Bool.and_eq_true, decide_eq_true_eq]
    rfl
  · apply or_congr
    · rfl
    · constructor
      · intro h
        obtain ⟨listed, hlisted, hname⟩ := h
        rw [List.mem_dedup] at hlisted
        obtain ⟨p, hp, rfl⟩ := List.mem_map.1 hlisted
        exact ⟨p, List.mem_filter.1 hp, hname⟩
      · intro h
        obtain ⟨p, hp, hname⟩ := h
        refine ⟨w.listed p, ?_, hname⟩
        rw [List.mem_dedup]
        exact List.mem_map_of_mem (List.mem_filter.2 hp)

theorem Plainly.listed (h : w.Plainly R) : w.Listed R := by
  intro name
  rw [names, mem_names, List.mem_map, h.unrenamed]
  constructor
  · intro hname
    rcases hname with ⟨p, hp, hname⟩ | ⟨r, hr, -⟩ | ⟨p, hp, hname⟩
    · rw [statusQuote_unquoted (h.spelled p (Or.inl ⟨hp.1, hp.2.1⟩))]
        at hname
      exact ⟨p, h.kept p hp.1 hp.2.1, hname⟩
    · cases hr
    · rw [listed_alone (h.alone p hp.1 hp.2),
        statusQuote_unquoted (h.spelled p (Or.inr hp))] at hname
      refine ⟨p, ?_, hname⟩
      by_contra hsame
      rw [mem_differing, not_not] at hsame
      have huntracked := hp.2
      unfold untracked at huntracked
      rw [Bool.and_eq_true, decide_eq_true_eq, Bool.not_eq_true']
        at huntracked
      have hget : w.get p = w.files.get p := if_pos (Or.inr huntracked.2)
      have hfile := hp.1
      rw [Dict.mem_keys_iff, ← hget, ← hsame] at hfile
      -- HEAD has the file, so the index has lost it
      apply mem_differing.1 (h.kept p ?_ ?_) hsame
      · unfold tracked
        rw [List.mem_dedup, List.mem_append, Dict.mem_keys_iff]
        exact Or.inl hfile
      · unfold modified
        rw [Bool.or_eq_true, decide_eq_true_eq]
        left
        have hnone := huntracked.1
        rw [mem_index, not_not] at hnone
        rw [hnone]
        exact Option.isSome_iff_ne_none.1 hfile
  · intro hname
    obtain ⟨p, hp, hname⟩ := hname
    have hcovered := covered hp
    have hquote := statusQuote_unquoted (h.spelled p hcovered)
    cases hcovered with
    | inl htracked =>
      exact Or.inl ⟨p, ⟨htracked.1, htracked.2, List.not_mem_nil⟩,
        hquote.trans hname⟩
    | inr hfile =>
      refine Or.inr (Or.inr ⟨p, hfile, ?_⟩)
      rw [listed_alone (h.alone p hfile.1 hfile.2)]
      exact hquote.trans hname

-- ==== C strings

/-- The part of a text before its first slash. -/
def front (s : String) : List Char := s.toList.takeWhile fun c => c ≠ '/'

end Workspace

end SdlcOs.Bedrock.DiffStats
