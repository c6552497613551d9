/-
Texts of lines, and the ends of texts.
-/
import SdlcOs.Data.Pieces
import SdlcOs.Index.Refresh

namespace SdlcOs.Index

open Data (mem_of_mem_splitOn)
open Gates (isSpace strip)

-- ==== lines

/-- A text that is one line. -/
def OneLine (s : String) : Prop := ∀ c ∈ s.toList, endsLine c = false

theorem oneLine_append {s t : String} :
    OneLine (s ++ t) ↔ OneLine s ∧ OneLine t := by
  unfold OneLine
  rw [String.toList_append]
  exact List.forall_mem_append

theorem linesFrom_oneLine {cs : List Char}
    (h : ∀ c ∈ cs, endsLine c = false) :
    ∀ line rest, linesFrom line (cs ++ '\n' :: rest) =
      .ofList (line.reverse ++ cs) :: linesFrom [] rest := by
  induction cs with
  | nil =>
    intro line rest
    rw [List.nil_append, linesFrom, if_pos (by decide), List.append_nil]
    intro s hs
    cases hs
  | cons c cs ih =>
    intro line rest
    have hc := h c List.mem_cons_self
    rw [List.cons_append, linesFrom, if_neg (by simp [hc]),
      ih (fun d hd => h d (List.mem_cons_of_mem _ hd)),
      List.reverse_cons, List.append_assoc]
    · rfl
    · intro s hcr
      rw [hcr] at hc
      cases hc

theorem splitLines_lines {lines : List String}
    (h : ∀ line ∈ lines, OneLine line) :
    splitLines (.ofList (lines.flatMap fun line => line.toList ++ ['\n'])) =
      lines := by
  unfold splitLines
  rw [String.toList_ofList]
  induction lines with
  | nil => rfl
  | cons line lines ih =>
    rw [List.flatMap_cons, List.append_assoc, List.singleton_append,
      linesFrom_oneLine (h line List.mem_cons_self),
      ih fun l hl => h l (List.mem_cons_of_mem _ hl)]
    simp

theorem oneLine_of_all {s : String}
    (h : (s.toList.all fun c => !endsLine c) = true) : OneLine s := by
  intro c hc
  have hline := List.all_eq_true.1 h c hc
  rwa [Bool.not_eq_true'] at hline

theorem oneLine_pathParts {path : String} (h : OneLine path) :
    ∀ name ∈ pathParts path, OneLine name := by
  intro name hname c hc
  obtain ⟨piece, hpiece, rfl⟩ := List.mem_map.1 (List.mem_filter.1 hname).1
  rw [String.toList_ofList] at hc
  exact h c (mem_of_mem_splitOn hpiece hc)

-- ==== ends

theorem head?_append {s t : String} {c : Char}
    (h : s.toList.head? = some c) : (s ++ t).toList.head? = some c := by
  rw [String.toList_append, List.head?_append, h]
  rfl

theorem getLast?_append {s t : String} (h : t ≠ "") :
    (s ++ t).toList.getLast? = t.toList.getLast? := by
  have hne : t.toList ≠ [] := fun hnil => h (String.toList_eq_nil_iff.1 hnil)
  rw [String.toList_append, List.getLast?_append,
    List.getLast?_eq_getLast_of_ne_nil hne]
  rfl

theorem strip_eq {s : String} {c d : Char}
    (hhead : s.toList.head? = some c) (hc : isSpace c = false)
    (hlast : s.toList.getLast? = some d) (hd : isSpace d = false) :
    strip s = s := by
  obtain ⟨tail, htail⟩ := List.head?_eq_some_iff.1 hhead
  obtain ⟨init, hinit⟩ := List.getLast?_eq_some_iff.1 hlast
  have hfront : s.toList.dropWhile isSpace = s.toList := by
    rw [htail, List.dropWhile_cons_of_neg (by rw [hc]; decide)]
  unfold strip
  rw [hfront, hinit, List.reverse_append, List.reverse_singleton,
    List.singleton_append, List.dropWhile_cons_of_neg (by rw [hd]; decide),
    List.reverse_cons, List.reverse_reverse, ← hinit, String.ofList_toList]

end SdlcOs.Index
