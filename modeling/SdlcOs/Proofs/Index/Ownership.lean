/-
Which paths a line of CODEOWNERS is about, and whose they are.

# Patterns

Without wildcards, a pattern with a slash names a file or a directory
(`Names`), and one without a file by its base name. The code agrees but
where the path merely begins with the text of the pattern, or where the
pattern ends with two slashes (`Strays`).

# Lines

The last line that matches says who owns a path; it may say that nobody
does. The parser drops the lines that do, so that an owner in an earlier
one stays (`Overruled`).
-/
import SdlcOs.Data.Fnmatch
import SdlcOs.Index.Service

namespace SdlcOs.Index

open Data.Fnmatch

-- ==== patterns

/-- `PurePosixPath(path).name`. -/
def baseName (path : String) : String := (pathParts path).getLastD ""

/-- What a pattern names, from the root. -/
def named (pattern : String) : String :=
  if endsWith (lstripChar '/' pattern) "/" then
    .ofList (lstripChar '/' pattern).toList.dropLast
  else lstripChar '/' pattern

/-- A path is that of a file or directory, or one below it; the empty
path is the root. -/
def AtOrBelow (name path : String) : Prop :=
  path = name ∨ name = "" ∨ startsWith path (name ++ "/") = true

/-- A path is what a pattern without wildcards names. -/
def Names (pattern path : String) : Prop :=
  if pattern.toList.contains '/' then AtOrBelow (named pattern) path
  else baseName path = pattern

/-- A rule is about the paths that its pattern names. -/
def RuleExact (rule : OwnersRule) (path : String) : Prop :=
  hasWildcard (Gates.strip rule.pattern) = false →
    (patternMatches fnmatch rule.pattern path = true ↔
      Names (Gates.strip rule.pattern) path)

/-- A path that the code takes otherwise than a pattern with a slash says:
it merely begins with the same text, or the pattern ends with two slashes
and its text without them, or without one, is the path. -/
def Strays (pattern path : String) : Prop :=
  pattern.toList.contains '/' = true ∧
    if endsWith (lstripChar '/' pattern) "//" then
      path = rstripChar '/' (lstripChar '/' pattern) ∨ path = named pattern
    else
      endsWith (lstripChar '/' pattern) "/" = false ∧
        startsWith path (lstripChar '/' pattern) = true ∧
        ¬ AtOrBelow (lstripChar '/' pattern) path

section Text

variable {s t : String} {c : Char}

theorem startsWith_iff : startsWith s t = true ↔ t.toList <+: s.toList := by
  unfold startsWith
  rw [List.isPrefixOf_iff_prefix]

theorem endsWith_iff : endsWith s t = true ↔ t.toList <:+ s.toList := by
  unfold endsWith
  rw [List.isSuffixOf_iff_suffix]

theorem dropWhile_absent {l : List Char} (h : c ∉ l) :
    l.dropWhile (· = c) = l := by
  cases l with
  | nil => rfl
  | cons d rest =>
    refine List.dropWhile_cons_of_neg fun hd => h ?_
    rw [of_decide_eq_true hd]
    exact List.mem_cons_self

theorem rstripChar_absent (h : c ∉ s.toList) : rstripChar c s = s := by
  unfold rstripChar
  rw [dropWhile_absent (mt List.mem_reverse.1 h), List.reverse_reverse,
    String.ofList_toList]

theorem lstripChar_absent (h : c ∉ s.toList) : lstripChar c s = s := by
  unfold lstripChar
  rw [dropWhile_absent h, String.ofList_toList]

theorem lstripChar_head {rest : List Char} :
    (lstripChar c s).toList ≠ c :: rest := by
  unfold lstripChar
  rw [String.toList_ofList]
  intro h
  have hhead := List.head?_dropWhile_not (fun d : Char => decide (d = c))
    s.toList
  rw [h] at hhead
  simp at hhead

theorem lstripChar_sublist : (lstripChar c s).toList.Sublist s.toList := by
  unfold lstripChar
  rw [String.toList_ofList]
  exact List.dropWhile_sublist _

end Text

section Patterns

variable {pattern path : String}

theorem patternMatches_plain
    (h : hasWildcard (Gates.strip pattern) = false) :
    patternMatches fnmatch pattern path =
      if endsWith (lstripChar '/' (Gates.strip pattern)) "/" then
        decide (path =
            rstripChar '/' (lstripChar '/' (Gates.strip pattern))) ||
          startsWith path (lstripChar '/' (Gates.strip pattern))
      else if (Gates.strip pattern).toList.contains '/' then
        decide (path = lstripChar '/' (Gates.strip pattern)) ||
          startsWith path (lstripChar '/' (Gates.strip pattern))
      else decide (baseName path = Gates.strip pattern) := by
  generalize hp : Gates.strip pattern = p at h ⊢
  have hstar : '*' ∉ p.toList := by
    intro hmem
    unfold hasWildcard at h
    exact absurd (List.any_eq_true.2 ⟨'*', hmem, rfl⟩)
      (ne_true_of_eq_false h)
  have hne : ¬ (p = "*" ∨ p = "/*") := by
    rintro (rfl | rfl) <;> exact hstar (by decide)
  have hplain : hasWildcard (lstripChar '/' p) = false := by
    unfold hasWildcard at h ⊢
    rw [List.any_eq_false] at h ⊢
    exact fun c hc => h c (lstripChar_sublist.subset hc)
  have hliteral : ∀ name, fnmatch name (lstripChar '/' p) =
      decide (name = lstripChar '/' p) := by
    intro name
    rw [Bool.eq_iff_iff, fnmatch_literal hplain, decide_eq_true_eq]
  unfold patternMatches
  rw [hp]
  dsimp only
  rw [if_neg hne, hliteral, hliteral,
    rstripChar_absent fun hmem => hstar (lstripChar_sublist.subset hmem)]
  split
  · rfl
  · by_cases hslash : p.toList.contains '/' = true
    · rw [hslash]
      rfl
    · have habsent : '/' ∉ p.toList := by
        rwa [List.contains_iff_mem] at hslash
      rw [Bool.not_eq_true] at hslash
      rw [hslash, lstripChar_absent habsent]
      rfl

theorem dropLast_append {n : String} (h : endsWith n "/" = true) :
    String.ofList n.toList.dropLast ++ "/" = n := by
  obtain ⟨before, hbefore⟩ := endsWith_iff.1 h
  rw [← String.toList_inj, String.toList_append, String.toList_ofList,
    ← hbefore]
  exact congrArg (· ++ ['/']) (List.dropLast_concat)

theorem rstripChar_append (s : String) (c : Char) :
    rstripChar c (s ++ String.singleton c) = rstripChar c s := by
  have hhead : (c :: s.toList.reverse).dropWhile (· = c) =
      s.toList.reverse.dropWhile (· = c) :=
    List.dropWhile_cons_of_pos (decide_eq_true rfl)
  unfold rstripChar
  rw [String.toList_append, String.toList_singleton, List.reverse_append,
    List.reverse_singleton, List.singleton_append, hhead]

theorem rstripChar_length (s : String) (c : Char) :
    (rstripChar c s).toList.length ≤ s.toList.length := by
  unfold rstripChar
  rw [String.toList_ofList, List.length_reverse]
  exact (List.dropWhile_sublist _).length_le.trans List.length_reverse.le

theorem startsWith_length {s t : String} (h : startsWith s t = true) :
    t.toList.length ≤ s.toList.length :=
  (startsWith_iff.1 h).length_le

theorem rstripChar_end {s : String} (h : endsWith s "/" = false) :
    rstripChar '/' s = s := by
  unfold rstripChar
  cases hs : s.toList.reverse with
  | nil =>
    rw [List.dropWhile_nil, ← hs, List.reverse_reverse,
      String.ofList_toList]
  | cons c rest =>
    have hlist : s.toList = rest.reverse ++ [c] := by
      rw [← List.reverse_reverse s.toList, hs, List.reverse_cons]
    have hc : ¬ decide (c = '/') = true := by
      intro hc
      refine absurd (endsWith_iff.2 ⟨rest.reverse, ?_⟩)
        (ne_true_of_eq_false h)
      rw [hlist, of_decide_eq_true hc]
      rfl
    have hkept : (c :: rest).dropWhile (· = '/') = c :: rest :=
      List.dropWhile_cons_of_neg hc
    rw [hkept, ← hs, List.reverse_reverse, String.ofList_toList]

theorem strays_file {n : String} :
    ((path = n ∨ startsWith path n = true) ↔ AtOrBelow n path) ↔
      ¬ (startsWith path n = true ∧ ¬ AtOrBelow n path) := by
  have hself : path = n → AtOrBelow n path := Or.inl
  have hbelow : AtOrBelow n path → path = n ∨ startsWith path n = true := by
    intro h
    rcases h with h | h | h
    · exact Or.inl h
    · refine Or.inr (startsWith_iff.2 ?_)
      rw [h]
      exact List.nil_prefix
    · refine Or.inr (startsWith_iff.2 ?_)
      have hlong := startsWith_iff.1 h
      rw [String.toList_append] at hlong
      exact (List.prefix_append _ _).trans hlong
  constructor
  · intro hexact hstray
    exact hstray.2 (hexact.1 (Or.inr hstray.1))
  · intro hstray
    refine ⟨fun h => h.elim hself fun hstart => ?_, hbelow⟩
    exact by_contra fun hout => hstray ⟨hstart, hout⟩

theorem strays_directory {p : String}
    (hend : endsWith (lstripChar '/' p) "/" = true) :
    ((path = rstripChar '/' (lstripChar '/' p) ∨
        startsWith path (lstripChar '/' p) = true) ↔
      AtOrBelow (named p) path) ↔
      ¬ (endsWith (lstripChar '/' p) "//" = true ∧
        (path = rstripChar '/' (lstripChar '/' p) ∨ path = named p)) := by
  have hback := dropLast_append hend
  have hnamed : named p = .ofList (lstripChar '/' p).toList.dropLast :=
    if_pos hend
  rw [← hnamed] at hback
  have hne : named p ≠ "" := by
    intro h
    rw [h, String.empty_append] at hback
    refine @lstripChar_head p '/' [] ?_
    rw [← hback]
    rfl
  have hat : AtOrBelow (named p) path ↔
      path = named p ∨ startsWith path (lstripChar '/' p) = true := by
    unfold AtOrBelow
    rw [hback, or_iff_right hne]
  have hshort : (named p).toList.length < (lstripChar '/' p).toList.length := by
    rw [← hback, String.toList_append, List.length_append]
    exact Nat.lt_succ_self _
  have hstrip : rstripChar '/' (lstripChar '/' p) =
      rstripChar '/' (named p) := by
    rw [← hback]
    exact rstripChar_append _ _
  rw [hat]
  by_cases hdouble : endsWith (lstripChar '/' p) "//" = true
  · have hslash : endsWith (named p) "/" = true := by
      obtain ⟨before, hbefore⟩ := endsWith_iff.1 hdouble
      refine endsWith_iff.2 ⟨before, ?_⟩
      have hlist :=
        String.toList_ofList (l := (lstripChar '/' p).toList.dropLast)
      rw [hnamed, hlist, ← hbefore]
      show before ++ ['/'] = (before ++ ['/', '/']).dropLast
      have hne : ['/', '/'] ≠ [] := List.cons_ne_nil _ _
      rw [List.dropLast_append_of_ne_nil hne]
      rfl
    have hshorter : (rstripChar '/' (lstripChar '/' p)).toList.length <
        (named p).toList.length := by
      have hagain := dropLast_append hslash
      rw [hstrip, ← hagain]
      have hsame := rstripChar_append
        (.ofList (named p).toList.dropLast) '/'
      have hle := rstripChar_length
        (.ofList (named p).toList.dropLast) '/'
      rw [String.toList_append, List.length_append]
      refine Nat.lt_succ_of_le ?_
      rw [← hsame] at hle
      exact hle
    have hlong := @startsWith_length path (lstripChar '/' p)
    constructor
    · intro hexact h
      rcases h.2 with h | h
      · rcases hexact.1 (Or.inl h) with h' | h'
        · rw [← h, ← h'] at hshorter
          exact Nat.lt_irrefl _ hshorter
        · have := hlong h'
          rw [← h] at hshorter
          omega
      · rcases hexact.2 (Or.inl h) with h' | h'
        · rw [← h', ← h] at hshorter
          exact Nat.lt_irrefl _ hshorter
        · have := hlong h'
          rw [← h] at hshort
          omega
    · intro h
      rw [not_and, not_or] at h
      rw [or_iff_right (h hdouble).1, or_iff_right (h hdouble).2]
  · have hslash : endsWith (named p) "/" = false := by
      rw [Bool.eq_false_iff]
      intro h
      refine hdouble (endsWith_iff.2 ?_)
      obtain ⟨before, hbefore⟩ := endsWith_iff.1 h
      refine ⟨before, ?_⟩
      rw [← hback, String.toList_append, ← hbefore, List.append_assoc]
      rfl
    rw [hstrip, rstripChar_end hslash]
    exact iff_of_true Iff.rfl fun h => hdouble h.1

theorem ruleExact_iff {rule : OwnersRule} : RuleExact rule path ↔
    (hasWildcard (Gates.strip rule.pattern) = false →
      ¬ Strays (Gates.strip rule.pattern) path) := by
  unfold RuleExact
  refine imp_congr_right fun hplain => ?_
  rw [patternMatches_plain hplain]
  generalize Gates.strip rule.pattern = p
  unfold Names Strays
  by_cases hslash : p.toList.contains '/' = true
  · rw [if_pos hslash, and_iff_right hslash]
    by_cases hend : endsWith (lstripChar '/' p) "/" = true
    · have hdirectory := @strays_directory path p hend
      rw [if_pos hend, if_pos hslash, Bool.or_eq_true, decide_eq_true_eq,
        hdirectory]
      split
      · next hdouble => rw [and_iff_right hdouble]
      · next hdouble =>
        exact iff_of_true (fun h => hdouble h.1)
          fun h => absurd h.1 (ne_false_of_eq_true hend)
    · have hfile := @strays_file path (lstripChar '/' p)
      have hnamed : named p = lstripChar '/' p := if_neg hend
      have hdouble : ¬ endsWith (lstripChar '/' p) "//" = true := by
        intro h
        refine hend (endsWith_iff.2 ?_)
        exact (List.suffix_cons '/' ['/']).trans (endsWith_iff.1 h)
      rw [if_neg hend, if_pos hslash, hnamed, Bool.or_eq_true,
        decide_eq_true_eq, hfile, if_neg hdouble,
        and_iff_right (Bool.eq_false_iff.2 hend)]
  · have habsent : '/' ∉ p.toList := by
      rwa [List.contains_iff_mem] at hslash
    have hend : ¬ endsWith (lstripChar '/' p) "/" = true := by
      intro h
      obtain ⟨before, hbefore⟩ := endsWith_iff.1 h
      rw [lstripChar_absent habsent] at hbefore
      refine habsent ?_
      rw [← hbefore]
      exact List.mem_append_right _ (List.mem_singleton_self _)
    rw [if_neg hend, if_neg hslash, if_neg hslash, decide_eq_true_eq]
    exact iff_of_true Iff.rfl fun h => hslash h.1

end Patterns

-- ==== lines

/-- The pattern of a line and the owners it gives, which may be none. -/
def ownersLine (line : String) : Option OwnersRule :=
  if Gates.strip line = "" ∨ startsWith (Gates.strip line) "#" then none
  else
    match words (Gates.strip line) with
    | [] => none
    | pattern :: owners => some ⟨pattern, owners⟩

/-- The lines about a path. -/
def linesAbout (lines : List String) (path : String) : List OwnersRule :=
  (lines.filterMap ownersLine).filter (patternMatches fnmatch ·.pattern path)

/-- The owners that the last line about a path gives. -/
def lastOwners (lines : List String) (path : String) : List String :=
  (linesAbout lines path).getLast?.elim [] (·.owners)

/-- The last line about a path says that nobody owns it, and an earlier
one that somebody does. -/
def Overruled (lines : List String) (path : String) : Prop :=
  lastOwners lines path = [] ∧ ∃ rule ∈ linesAbout lines path,
    rule.owners ≠ []

theorem ownersRule_eq (line : String) :
    ownersRule line = (ownersLine line).filter (·.owners ≠ []) := by
  unfold ownersRule ownersLine
  dsimp only
  split
  · rfl
  · cases words (Gates.strip line) with
    | nil => rfl
    | cons pattern owners =>
      by_cases howners : owners = []
      · rw [howners]
        rfl
      · dsimp only
        rw [if_neg howners]
        exact (if_pos (decide_eq_true howners)).symm

theorem filterMap_ownersRule (lines : List String) :
    lines.filterMap ownersRule =
      (lines.filterMap ownersLine).filter (·.owners ≠ []) := by
  rw [List.filter_filterMap]
  exact List.filterMap_congr fun line _ => ownersRule_eq line

theorem getLast?_filter_eq {α : Type} {p : α → Bool} {l : List α} {a : α}
    (hlast : l.getLast? = some a) (ha : p a = true) :
    (l.filter p).getLast? = some a := by
  obtain ⟨before, rfl⟩ := List.getLast?_eq_some_iff.1 hlast
  rw [List.filter_append, List.filter_cons_of_pos ha, List.filter_nil,
    List.getLast?_concat]

/-- The owners found are those of the last line about the path that gives
any. -/
theorem ownersForPath_eq (lines : List String) (path : String) :
    ownersForPath fnmatch (lines.filterMap ownersRule) path =
      (((linesAbout lines path).filter (·.owners ≠ [])).getLast?).elim []
        (·.owners) := by
  unfold ownersForPath linesAbout
  rw [filterMap_ownersRule, List.filter_filter, List.filter_filter]
  refine congrArg (fun l : List OwnersRule => l.getLast?.elim [] (·.owners))
    (List.filter_congr fun rule _ => Bool.and_comm _ _)

theorem owners_exact (lines : List String) (path : String) :
    ownersForPath fnmatch (lines.filterMap ownersRule) path =
      lastOwners lines path ↔ ¬ Overruled lines path := by
  rw [ownersForPath_eq]
  unfold Overruled lastOwners
  cases hlast : (linesAbout lines path).getLast? with
  | none =>
    have hnone := List.getLast?_eq_none_iff.1 hlast
    rw [hnone]
    refine iff_of_true rfl fun h => ?_
    obtain ⟨rule, hrule, -⟩ := h.2
    cases hrule
  | some rule =>
    by_cases howners : rule.owners = []
    · constructor
      · intro hsame h
        obtain ⟨other, hother, hne⟩ := h.2
        cases hkept : ((linesAbout lines path).filter
            (·.owners ≠ [])).getLast? with
        | none =>
          have hnil := List.getLast?_eq_none_iff.1 hkept
          exact List.filter_eq_nil_iff.1 hnil other hother
            (decide_eq_true hne)
        | some kept =>
          have hmem := List.mem_of_getLast? hkept
          have hsome := of_decide_eq_true (List.mem_filter.1 hmem).2
          rw [hkept] at hsame
          exact hsome (hsame.trans howners)
      · intro h
        have hnil : (linesAbout lines path).filter (·.owners ≠ []) = [] := by
          refine List.filter_eq_nil_iff.2 fun other hother hne => h ?_
          exact ⟨howners, other, hother, of_decide_eq_true hne⟩
        rw [hnil]
        exact howners.symm
    · rw [getLast?_filter_eq hlast (decide_eq_true howners)]
      exact iff_of_true rfl fun h => howners h.1

/-- CODEOWNERS is read as it is written if and only if the path strays
from no rule's pattern and its last line is not overruled. -/
theorem codeowners_exact (rules : List OwnersRule) (lines : List String)
    (path : String) :
    ((∀ rule ∈ rules, RuleExact rule path) ∧
      ownersForPath fnmatch (lines.filterMap ownersRule) path =
        lastOwners lines path) ↔
    (∀ rule ∈ rules, hasWildcard (Gates.strip rule.pattern) = false →
      ¬ Strays (Gates.strip rule.pattern) path) ∧
    ¬ Overruled lines path := by
  rw [owners_exact]
  refine and_congr_left fun _ => ?_
  exact forall_congr' fun rule => imp_congr_right fun _ => ruleExact_iff

/-- `src/api` takes in `src/apiary/x.py`, and a line that frees a
directory of owners is not read. -/
theorem sibling_owned :
    patternMatches fnmatch "src/api" "src/apiary/x.py" = true ∧
      ¬ Names "src/api" "src/apiary/x.py" ∧
      ownersForPath fnmatch
        (["docs/ @writers", "docs/drafts/"].filterMap ownersRule)
        "docs/drafts/a.md" = ["@writers"] ∧
      lastOwners ["docs/ @writers", "docs/drafts/"] "docs/drafts/a.md" =
        [] := by
  refine ⟨by decide +kernel, ?_, by decide +kernel, by decide +kernel⟩
  unfold Names AtOrBelow
  rw [if_pos (by decide +kernel)]
  decide +kernel

end SdlcOs.Index
