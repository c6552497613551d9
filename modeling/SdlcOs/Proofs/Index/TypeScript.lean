/-
Whether a relative import leads to the module that is meant.

# What is promised

A specifier that leads from the directory of the importing file to the path
of another, with its suffix or without, is resolved to the dotted path of
that file's module (`Import.Agrees`).

# Where it is kept

The directory of the importing file is read off its module's dotted path.
This has one piece for each directory, and more for the dots in names: the
dots of the file's own base name are taken for directories below its own,
and `..` leaves no more of a directory than the last piece of its name. A
module `__init__` is called as its directory is, so there the directory
above it is taken for its own. So as many pieces are left over as there are
dots in the way, less the names that are missing.

The specifier is stripped of its suffixes, and leads from then on to the
names of the target's module, to fewer pieces (a base name that ends in a
suffix of its own lost that too) or to more (the target is `__init__`, or
the suffix was not at the end). In the first case nothing may be left over
or be missing; in the others what is left over, or missing, has to be what
the names lack or have too much, which they do only if they repeat it
(`typescript_import_agrees_iff`).
-/
import Mathlib.Data.List.TakeDrop
import SdlcOs.Data.Pieces
import SdlcOs.Index.TypeScript

namespace SdlcOs.Index

open Data (pieces spelled pieces_append pieces_singleton prefix_pieces
  prefix_splitOn splitOn_join join_eq_join_iff pieces_of_pieces
  not_mem_splitOn length_pieces pieces_eq_nil_iff pieces_ne_of_forall
  spelled_eq_iff take_dropLast repeated append_eq_append_iff_repeated
  cons_eq_append_iff)
open Data.DotSegments (Segment dot dotDot isDots enter enter_plain Lead
  from_enter)

-- ==== segments

/-- A segment more of where a specifier leads. -/
def leadSegment (l : Lead) (segment : Segment) : Lead :=
  if segment = [] then l else l.enter segment

/-- Where a specifier leads. -/
def leadOf (spec : String) : Lead :=
  (spec.toList.splitOn '/').foldl leadSegment ⟨0, []⟩

/-- A segment of a path, from a directory; `none` is outside the root. -/
def goes (dir : List Segment) (segment : Segment) : Option (List Segment) :=
  if segment = [] ∨ segment = dot then some dir
  else if segment = dotDot then
    if dir = [] then none else some dir.dropLast
  else some (dir ++ [segment])

/-- The path a specifier denotes from a directory. -/
def denoted (dir : List Segment) (spec : String) : Option (List Segment) :=
  (spec.toList.splitOn '/').foldlM goes dir

theorem from_nil (dir : List Segment) : Lead.from ⟨0, []⟩ dir = dir := by
  unfold Lead.from
  rw [Nat.sub_zero, List.take_length, List.append_nil]

theorem foldl_enterSegment (dir : List Segment) (segments : List Segment) :
    ∀ l : Lead, segments.foldl enterSegment (l.from dir) =
      (segments.foldl leadSegment l).from dir := by
  induction segments with
  | nil => intro l; rfl
  | cons s segments ih =>
    intro l
    rw [List.foldl_cons, List.foldl_cons, ← ih]
    unfold enterSegment leadSegment
    split
    · rfl
    · rw [from_enter]

theorem foldlM_goes {dir p : List Segment} {segments : List Segment} :
    ∀ {l : Lead}, l.back ≤ dir.length →
      segments.foldlM goes (l.from dir) = some p →
      (segments.foldl leadSegment l).from dir = p ∧
        (segments.foldl leadSegment l).back ≤ dir.length := by
  induction segments with
  | nil =>
    intro l hl h
    exact ⟨Option.some.inj h, hl⟩
  | cons s segments ih =>
    intro l hl h
    rw [List.foldlM_cons, Option.bind_eq_bind, Option.bind_eq_some_iff] at h
    obtain ⟨q, hq, h⟩ := h
    rw [List.foldl_cons]
    have hstep : q = (leadSegment l s).from dir ∧
        (leadSegment l s).back ≤ dir.length := by
      unfold leadSegment
      unfold goes at hq
      by_cases hs : s = []
      · rw [if_pos (Or.inl hs)] at hq
        rw [if_pos hs]
        exact ⟨(Option.some.inj hq).symm, hl⟩
      · rw [if_neg hs, from_enter]
        unfold enter Lead.enter
        by_cases hdot : s = dot
        · rw [if_pos (Or.inr hdot)] at hq
          rw [if_pos hdot, if_pos hdot]
          exact ⟨(Option.some.inj hq).symm, hl⟩
        · rw [if_neg (not_or.2 ⟨hs, hdot⟩)] at hq
          rw [if_neg hdot, if_neg hdot]
          by_cases hup : s = dotDot
          · rw [if_pos hup] at hq
            rw [if_pos hup, if_pos hup]
            split at hq
            · cases hq
            · next hne =>
              refine ⟨(Option.some.inj hq).symm, ?_⟩
              split
              · next hdown =>
                have hlength : (l.from dir).length ≠ 0 :=
                  fun hzero => hne (List.eq_nil_of_length_eq_zero hzero)
                unfold Lead.from at hlength
                rw [hdown, List.append_nil, List.length_take] at hlength
                show l.back + 1 ≤ dir.length
                omega
              · exact hl
          · rw [if_neg hup] at hq
            rw [if_neg hup, if_neg hup]
            exact ⟨(Option.some.inj hq).symm, hl⟩
    obtain ⟨rfl, hback⟩ := hstep
    exact ih hback h

theorem denoted_eq {dir p : List Segment} {spec : String}
    (h : denoted dir spec = some p) :
    (leadOf spec).from dir = p := by
  refine (foldlM_goes (Nat.zero_le _) ?_).1
  rw [from_nil]
  exact h

-- ==== imports

/-- A TypeScript file that imports another: the specifier leads from its
directory to the other's path, with the suffix or without. -/
structure Import where
  importer : String
  target : String
  specifier : String
  dirs : List String
  file : String
  parent : List String
  base : String
  suffix : String
  importer_parts : pathParts importer = dirs ++ [file]
  target_parts : pathParts target = parent ++ [base ++ suffix]
  typescript : suffix = ".ts" ∨ suffix = ".tsx"
  relative : specifier.toList.head? = some '.'
  leads :
    denoted (dirs.map String.toList) specifier =
        some ((parent ++ [base]).map String.toList) ∨
      denoted (dirs.map String.toList) specifier =
        some ((parent ++ [base ++ suffix]).map String.toList)

namespace Import

variable (i : Import)

/-- The import is resolved to the module of the file that is meant. -/
def Agrees : Prop :=
  resolveRelativeTsImport (moduleDottedPath i.importer) i.specifier =
    some (moduleDottedPath i.target)

/-- Where the specifier leads, without its suffixes. -/
def lead : Lead := leadOf (withoutSuffixes i.specifier)

/-- The directories that `..` leaves alone. -/
def kept : List Segment :=
  (i.dirs.map String.toList).take (i.dirs.length - i.lead.back)

/-- The directories that `..` leaves. -/
def left : List Segment :=
  (i.dirs.map String.toList).drop (i.dirs.length - i.lead.back)

/-- The names that the specifier leads to without its suffixes. -/
def reached : List Segment := i.kept ++ i.lead.down

/-- The names of a module of these directories. -/
def moduleNames (dirs : List String) (file : String) : List Segment :=
  if stem file = "__init__" then dirs.map String.toList
  else (dirs ++ [stem file]).map String.toList

/-- The names of the target's module. -/
def named : List Segment := moduleNames i.parent (i.base ++ i.suffix)

/-- The dots in the way: those of the directories that are left, and those
of the importing file's base name. -/
def dots : Nat :=
  i.left.flatten.count '.' +
    if stem i.file = "__init__" then 0 else (stem i.file).toList.count '.'

/-- The names that are missing: that of a module `__init__`, and those of
directories above the root. -/
def missing : Nat :=
  (i.lead.back - i.dirs.length) +
    if stem i.file = "__init__" then 1 else 0

/-- The pieces of the directories that are left and of the importing file's
base name. -/
def between : List Segment :=
  pieces '.' (i.left ++ moduleNames [] i.file)

/-- There are as many dots in the way as names missing, or fewer, and no
directory is kept. -/
def Undotted : Prop :=
  i.dots = i.missing ∨ (i.dots < i.missing ∧ i.kept = [])

/-- The target's module has more pieces than the specifier leads to: as many
as are left over, and these, with the names that the specifier comes down,
are the end of the pieces it has more, over and over. -/
def Lengthened : Prop :=
  ∃ more ≠ [], pieces '.' i.named = pieces '.' i.reached ++ more ∧
    i.dots = i.missing + more.length ∧
    i.between.take more.length ++ pieces '.' i.lead.down <:+
      repeated ((pieces '.' i.lead.down).length + 1) more

/-- It has one piece less where one is missing: this is the last piece of
the directories kept, and every piece of the names that the specifier comes
down. -/
def Shortened : Prop :=
  ∃ piece, pieces '.' i.reached = pieces '.' i.named ++ [piece] ∧
    i.dots < i.missing ∧ (pieces '.' i.kept).getLast? = some piece ∧
    ∀ p ∈ pieces '.' i.lead.down, p = piece

end Import

theorem toList_moduleDottedPath {path : String} {dirs : List String}
    {file : String} (h : pathParts path = dirs ++ [file]) :
    (moduleDottedPath path).toList =
      ['.'].intercalate (Import.moduleNames dirs file) := by
  unfold moduleDottedPath Import.moduleNames
  rw [h, List.reverse_append, List.reverse_singleton, List.singleton_append]
  simp only [List.reverse_reverse]
  split <;> exact String.toList_intercalate

-- ==== stems

theorem ne_empty_of_mem_pathParts {path name : String}
    (h : name ∈ pathParts path) : name ≠ "" := by
  have hname := (List.mem_filter.1 h).2
  simp only [Bool.and_eq_true, decide_eq_true_eq] at hname
  exact hname.1

theorem stem_typescript {base suffix : String} (hbase : base ≠ "")
    (h : suffix = ".ts" ∨ suffix = ".tsx") : stem (base ++ suffix) = base := by
  have hne : base.toList.reverse ≠ [] := by
    simp [hbase]
  unfold stem
  rcases h with rfl | rfl
  · simp [hne]
  · simp [hne]

theorem stem_ne_empty {name : String} (h : name ≠ "") : stem name ≠ "" := by
  unfold stem
  dsimp only
  split
  · exact h
  · next hnot =>
    rw [not_or] at hnot
    intro hempty
    exact hnot.2 (List.reverse_eq_nil_iff.1
      (String.ofList_eq_empty_iff.1 hempty))

theorem exists_last {c : Char} {cs : List Char} (h : c ∈ cs) :
    ∃ front last, cs = front ++ c :: last ∧ c ∉ last := by
  obtain ⟨last, front, hsplit, hlast⟩ :=
    List.eq_append_cons_of_mem (List.mem_reverse.2 h)
  refine ⟨front.reverse, last.reverse, ?_, ?_⟩
  · rw [← List.reverse_reverse cs, hsplit]
    simp
  · rwa [List.mem_reverse]

theorem splitOn_stem (name : String) :
    (stem name).toList.splitOn '.' <+: name.toList.splitOn '.' := by
  unfold stem
  dsimp only
  split
  · exact List.prefix_rfl
  · next h =>
    rw [not_or] at h
    by_cases hdot : '.' ∈ name.toList
    · obtain ⟨front, last, hname, hlast⟩ := exists_last hdot
      have hpos : ∀ c ∈ last.reverse, decide (c ≠ '.') = true := by
        intro c hc
        rw [decide_eq_true_eq]
        rintro rfl
        exact hlast (List.mem_reverse.1 hc)
      have htail : name.toList.reverse.takeWhile (fun c => c ≠ '.') =
          last.reverse := by
        rw [hname, List.reverse_append, List.reverse_cons, List.append_assoc,
          List.takeWhile_append_of_pos hpos]
        simp
      have hbefore : name.toList.reverse.drop (last.reverse.length + 1) =
          front.reverse := by
        rw [hname]
        simp [List.drop_append]
      rw [htail, hbefore, List.reverse_reverse, String.toList_ofList, hname]
      exact prefix_splitOn front last
    · -- without a dot there is nothing before it
      have hpos : ∀ c ∈ name.toList.reverse, decide (c ≠ '.') = true := by
        intro c hc
        rw [decide_eq_true_eq]
        rintro rfl
        exact hdot (List.mem_reverse.1 hc)
      have htail := List.takeWhile_eq_self_iff.2 hpos
      rw [htail, List.drop_eq_nil_of_le (Nat.le_succ _)] at h
      exact absurd rfl h.2

-- ==== suffixes

theorem withoutSuffix_append (spec suffix : String) :
    spec.toList = (withoutSuffix spec suffix).toList ++
      if endsWith spec suffix then suffix.toList else [] := by
  unfold withoutSuffix
  by_cases h : endsWith spec suffix = true
  · rw [if_pos h, if_pos h, String.toList_ofList]
    obtain ⟨front, hfront⟩ := List.isSuffixOf_iff_suffix.1 h
    rw [← String.length_toList, ← String.length_toList, ← hfront,
      List.length_append, Nat.add_sub_cancel, List.take_left]
  · rw [if_neg h, if_neg h, List.append_nil]

theorem withoutSuffixes_append (spec : String) :
    ∃ rest, spec.toList = (withoutSuffixes spec).toList ++ rest ∧
      (rest = [] ∨ ∃ ts, rest = '.' :: ts ∧ 't' ∈ ts) := by
  have hts := withoutSuffix_append spec ".ts"
  have htsx := withoutSuffix_append (withoutSuffix spec ".ts") ".tsx"
  rw [htsx, List.append_assoc] at hts
  refine ⟨_, hts, ?_⟩
  split
  · exact Or.inr ⟨['t', 's', 'x'] ++ _, rfl, by simp⟩
  · split
    · exact Or.inr ⟨['t', 's'], rfl, by simp⟩
    · exact Or.inl rfl

theorem withoutSuffix_slash {suffix : String} (h : '/' ∉ suffix.toList)
    (front last : List Char) :
    withoutSuffix (.ofList (front ++ '/' :: last)) suffix =
      .ofList (front ++ '/' :: (withoutSuffix (.ofList last) suffix).toList) := by
  have hends : endsWith (.ofList (front ++ '/' :: last)) suffix =
      endsWith (.ofList last) suffix := by
    rw [Bool.eq_iff_iff]
    unfold endsWith
    rw [List.isSuffixOf_iff_suffix, List.isSuffixOf_iff_suffix,
      String.toList_ofList, String.toList_ofList]
    constructor
    · intro hsuffix
      have hlast : '/' :: last <:+ front ++ '/' :: last :=
        List.suffix_append _ _
      by_cases hle : suffix.toList.length ≤ last.length
      · exact List.suffix_of_suffix_length_le hsuffix
          ((List.suffix_cons _ _).trans hlast) hle
      · have hslash := List.suffix_of_suffix_length_le hlast hsuffix
          (by rw [List.length_cons]; omega)
        exact absurd (hslash.subset List.mem_cons_self) h
    · intro hsuffix
      exact List.suffix_append_of_suffix
        (hsuffix.trans (List.suffix_cons _ _))
  unfold withoutSuffix
  rw [hends]
  split
  · next h =>
    have hle := (List.isSuffixOf_iff_suffix.1 h).length_le
    rw [String.toList_ofList, String.length_toList] at hle
    have hsplit : front ++ '/' :: last = (front ++ ['/']) ++ last := by
      rw [List.append_assoc]
      rfl
    have hlength : ((front ++ ['/']) ++ last).length - suffix.length =
        (front ++ ['/']).length + (last.length - suffix.length) := by
      rw [List.length_append]
      omega
    rw [hsplit, String.toList_ofList, String.toList_ofList,
      String.toList_ofList, String.length_ofList, String.length_ofList,
      hlength, List.take_length_add_append, List.append_assoc]
    rfl
  · rw [String.toList_ofList]

theorem withoutSuffixes_slash (front last : List Char) :
    withoutSuffixes (.ofList (front ++ '/' :: last)) =
      .ofList (front ++ '/' :: (withoutSuffixes (.ofList last)).toList) := by
  unfold withoutSuffixes
  rw [withoutSuffix_slash (by decide), withoutSuffix_slash (by decide),
    String.ofList_toList]

theorem slash_notMem_withoutSuffixes {last : List Char} (h : '/' ∉ last) :
    '/' ∉ (withoutSuffixes (.ofList last)).toList := by
  intro hmem
  obtain ⟨rest, hrest, -⟩ := withoutSuffixes_append (.ofList last)
  rw [String.toList_ofList] at hrest
  apply h
  rw [hrest]
  exact List.mem_append_left _ hmem

theorem withoutSuffixes_segments (spec : String) :
    ∃ segments last, spec.toList.splitOn '/' = segments ++ [last] ∧
      (withoutSuffixes spec).toList.splitOn '/' =
        segments ++ [(withoutSuffixes (.ofList last)).toList] := by
  by_cases h : '/' ∈ spec.toList
  · obtain ⟨front, last, hspec, hlast⟩ := exists_last h
    refine ⟨front.splitOn '/', last, ?_, ?_⟩
    · rw [hspec, List.splitOn_append_cons_self,
        List.splitOn_eq_singleton hlast]
    · have hstripped := withoutSuffixes_slash front last
      rw [← hspec, String.ofList_toList] at hstripped
      rw [hstripped, String.toList_ofList, List.splitOn_append_cons_self,
        List.splitOn_eq_singleton (slash_notMem_withoutSuffixes hlast)]
  · refine ⟨[], spec.toList, List.splitOn_eq_singleton h, ?_⟩
    rw [List.nil_append,
      ← List.splitOn_eq_singleton (slash_notMem_withoutSuffixes h),
      String.ofList_toList]

section Import

variable {i : Import}

-- ==== prefixes

/-- The pieces of the target's path, its suffix among them. -/
def Import.whole (i : Import) : List Segment :=
  pieces '.' ((i.parent ++ [i.base ++ i.suffix]).map String.toList)

theorem prefix_named : pieces '.' i.named <+: i.whole := by
  unfold Import.named Import.moduleNames Import.whole
  split
  · exact prefix_pieces (by rw [List.map_append]; exact List.prefix_append _ _)
  · rw [List.map_append, List.map_append, pieces_append, pieces_append,
      List.prefix_append_right_inj]
    rw [List.map_singleton, List.map_singleton, pieces_singleton,
      pieces_singleton]
    exact splitOn_stem _

theorem reached_eq : i.reached =
    ((withoutSuffixes i.specifier).toList.splitOn '/').foldl enterSegment
      (i.dirs.map String.toList) := by
  have h := foldl_enterSegment (i.dirs.map String.toList)
    ((withoutSuffixes i.specifier).toList.splitOn '/') ⟨0, []⟩
  rw [from_nil] at h
  rw [h]
  unfold Import.reached Import.kept Lead.from
  rw [List.length_map]
  rfl

/-- A segment with a letter in it is a name. -/
theorem enterSegment_name {dir : List Segment} {last : Segment}
    (hmem : 't' ∈ last) : enterSegment dir last = dir ++ [last] := by
  have hplain : isDots last = false := by
    rw [isDots, Bool.or_eq_false_iff, decide_eq_false_iff_not,
      decide_eq_false_iff_not]
    constructor
    · rintro rfl
      exact absurd hmem (by decide)
    · rintro rfl
      exact absurd hmem (by decide)
  rw [enterSegment, if_neg (List.ne_nil_of_mem hmem), enter_plain hplain]

/-- The specifier leads to the target's path, with its suffix or without, or
as far as this is stripped. -/
theorem reached_cases :
    ∃ name, (name = i.base ∨ name = i.base ++ i.suffix) ∧
      (i.reached = i.parent.map String.toList ++ [name.toList] ∨
        i.reached = enterSegment (i.parent.map String.toList)
          (withoutSuffixes name).toList) := by
  obtain ⟨segments, last, hsegments, hstripped⟩ :=
    withoutSuffixes_segments i.specifier
  obtain ⟨name, hname, hleads⟩ : ∃ name,
      (name = i.base ∨ name = i.base ++ i.suffix) ∧
        denoted (i.dirs.map String.toList) i.specifier =
          some (i.parent.map String.toList ++ [name.toList]) := by
    rcases i.leads with hleads | hleads
    · exact ⟨i.base, Or.inl rfl, hleads.trans (by rw [List.map_append]; rfl)⟩
    · exact ⟨i.base ++ i.suffix, Or.inr rfl,
        hleads.trans (by rw [List.map_append]; rfl)⟩
  have hwhole : enterSegment
      (segments.foldl enterSegment (i.dirs.map String.toList)) last =
        i.parent.map String.toList ++ [name.toList] := by
    have hfrom := denoted_eq hleads
    have hfold := foldl_enterSegment (i.dirs.map String.toList)
      (i.specifier.toList.splitOn '/') ⟨0, []⟩
    rw [from_nil] at hfold
    rw [← hfrom, leadOf, ← hfold, hsegments, List.foldl_append,
      List.foldl_cons, List.foldl_nil]
  have hreached : i.reached = enterSegment
      (segments.foldl enterSegment (i.dirs.map String.toList))
        (withoutSuffixes (.ofList last)).toList := by
    rw [reached_eq, hstripped, List.foldl_append, List.foldl_cons,
      List.foldl_nil]
  refine ⟨name, hname, ?_⟩
  obtain ⟨rest, hrest, hcases⟩ := withoutSuffixes_append (.ofList last)
  rw [String.toList_ofList] at hrest
  rcases hcases with rfl | ⟨ts, rfl, ht⟩
  · left
    rw [List.append_nil] at hrest
    rw [hreached, ← hrest, hwhole]
  · -- what is stripped is a name
    right
    have hmem : 't' ∈ last := by
      rw [hrest]
      exact List.mem_append_right _ (List.mem_cons_of_mem _ ht)
    rw [enterSegment_name hmem] at hwhole
    obtain ⟨hdir, hlast⟩ := List.append_inj' hwhole rfl
    rw [hreached, hdir, List.singleton_inj.1 hlast, String.ofList_toList]

theorem prefix_reached : pieces '.' i.reached <+: i.whole := by
  obtain ⟨name, hname, hreached⟩ := reached_cases (i := i)
  have hsuffix : ∃ ts, i.suffix.toList = '.' :: ts := by
    rcases i.typescript with h | h
    · exact ⟨['t', 's'], by rw [h]; rfl⟩
    · exact ⟨['t', 's', 'x'], by rw [h]; rfl⟩
  have hwhole : i.whole = pieces '.' (i.parent.map String.toList) ++
      (i.base ++ i.suffix).toList.splitOn '.' := by
    unfold Import.whole
    rw [List.map_append, pieces_append]
    exact congrArg _ (pieces_singleton _)
  have hpath : name.toList.splitOn '.' <+:
      (i.base ++ i.suffix).toList.splitOn '.' := by
    rcases hname with rfl | rfl
    · obtain ⟨ts, hts⟩ := hsuffix
      rw [String.toList_append, hts]
      exact prefix_splitOn _ _
    · exact List.prefix_rfl
  rw [hwhole]
  rcases hreached with hreached | hreached
  · rw [hreached, pieces_append, pieces_singleton,
      List.prefix_append_right_inj]
    exact hpath
  · obtain ⟨rest, hrest, hcases⟩ := withoutSuffixes_append name
    rw [hreached]
    unfold enterSegment enter
    split
    · exact List.prefix_append _ _
    · split
      · exact List.prefix_append _ _
      · split
        · exact (prefix_pieces (List.dropLast_prefix _)).trans
            (List.prefix_append _ _)
        · rw [pieces_append, pieces_singleton, List.prefix_append_right_inj]
          refine List.IsPrefix.trans ?_ hpath
          rw [hrest]
          rcases hcases with rfl | ⟨ts, rfl, -⟩
          · rw [List.append_nil]
          · exact prefix_splitOn _ _

theorem init_of_named (h : i.named = []) :
    i.parent.map String.toList = [] ∧ i.base = "__init__" := by
  unfold Import.named Import.moduleNames at h
  split at h
  · next hinit =>
    refine ⟨h, ?_⟩
    by_cases hempty : i.base = ""
    · rw [hempty] at hinit
      rcases i.typescript with hsuffix | hsuffix
      · rw [hsuffix] at hinit
        exact absurd hinit (by decide)
      · rw [hsuffix] at hinit
        exact absurd hinit (by decide)
    · rwa [stem_typescript hempty i.typescript] at hinit
  · rw [List.map_append] at h
    exact absurd h (List.append_ne_nil_of_right_ne_nil _
      (List.cons_ne_nil _ _))

theorem reached_of_init (h : i.named = []) :
    i.reached ≠ [] ∧ ∀ piece ∈ pieces '.' i.reached, piece ≠ [] := by
  obtain ⟨hparent, hbase⟩ := init_of_named h
  refine ⟨?_, fun piece hpiece => ?_⟩
  · obtain ⟨name, hname, hreached⟩ := reached_cases (i := i)
    rw [hparent] at hreached
    rcases hreached with hreached | hreached
    · rw [hreached]
      exact List.cons_ne_nil _ _
    · rw [hreached]
      rcases hname with rfl | rfl
      · rw [hbase]
        decide
      · rcases i.typescript with hsuffix | hsuffix
        · rw [hbase, hsuffix]
          decide
        · rw [hbase, hsuffix]
          decide
  · have hwhole := prefix_reached.subset hpiece
    unfold Import.whole at hwhole
    rw [List.map_append, hparent, hbase] at hwhole
    rcases i.typescript with hsuffix | hsuffix
    · rw [hsuffix] at hwhole
      clear hpiece
      revert piece
      decide
    · rw [hsuffix] at hwhole
      clear hpiece
      revert piece
      decide

-- ==== the dots

theorem moduleNames_eq (dirs : List String) (file : String) :
    Import.moduleNames dirs file =
      dirs.map String.toList ++ Import.moduleNames [] file := by
  unfold Import.moduleNames
  split
  · exact (List.append_nil _).symm
  · exact List.map_append

/-- There is a piece between for each name that the loop takes, for each
dot in the way, and one less for each name that is missing. -/
theorem length_between :
    i.between.length + i.missing = i.dots + i.lead.back + 1 := by
  have hleft : i.left.length =
      i.dirs.length - (i.dirs.length - i.lead.back) := by
    unfold Import.left
    rw [List.length_drop, List.length_map]
  unfold Import.between Import.missing Import.dots Import.moduleNames
  rw [length_pieces, List.length_append, List.flatten_append,
    List.count_append]
  split
  · simp only [List.map_nil, List.length_nil, List.flatten_nil,
      List.count_nil]
    omega
  · simp only [List.nil_append, List.map_cons, List.map_nil,
      List.length_singleton, List.flatten_singleton]
    omega

/-- The parts that the loop starts with. -/
def Import.baseParts (i : Import) : List Segment :=
  ((moduleDottedPath i.importer).toList.splitOn '.').dropLast

theorem baseParts_eq :
    i.baseParts = (pieces '.' i.kept ++ i.between).dropLast := by
  have hnames : Import.moduleNames i.dirs i.file =
      i.kept ++ (i.left ++ Import.moduleNames [] i.file) := by
    rw [moduleNames_eq, ← List.append_assoc]
    unfold Import.kept Import.left
    rw [List.take_append_drop]
  unfold Import.baseParts
  rw [toList_moduleDottedPath i.importer_parts, splitOn_join]
  unfold spelled
  split
  · next hnil =>
    rw [hnames] at hnil
    unfold Import.between
    rw [← pieces_append, hnil]
    rfl
  · rw [hnames, pieces_append]
    rfl

/-- The parts that the loop leaves: the pieces of the directories that are
kept, and those between that are left over, or one piece less. -/
theorem take_baseParts :
    i.baseParts.take (i.baseParts.length - i.lead.back) =
      if i.dots < i.missing then (pieces '.' i.kept).dropLast
      else pieces '.' i.kept ++ i.between.take (i.dots - i.missing) := by
  have hbetween := length_between (i := i)
  have htake : i.baseParts.take (i.baseParts.length - i.lead.back) =
      (pieces '.' i.kept ++ i.between).take ((pieces '.' i.kept).length +
        i.between.length - (i.lead.back + 1)) := by
    rw [baseParts_eq, take_dropLast, List.length_append]
  rw [htake]
  split
  · next hless =>
    by_cases hkept : i.kept = []
    · rw [hkept]
      have hzero : (pieces '.' ([] : List Segment)).length +
          i.between.length - (i.lead.back + 1) = 0 := by
        show 0 + _ - _ = 0
        omega
      rw [hzero]
      rfl
    · have hback : i.lead.back < i.dirs.length := by
        by_contra hover
        apply hkept
        unfold Import.kept
        rw [Nat.sub_eq_zero_of_le (by omega), List.take_zero]
      have hmissing : i.missing ≤ 1 := by
        unfold Import.missing
        split <;> omega
      have hpos := List.length_pos_of_ne_nil hkept
      rw [List.dropLast_eq_take]
      rw [show (pieces '.' i.kept).length + i.between.length -
        (i.lead.back + 1) = (pieces '.' i.kept).length - 1 by omega]
      exact List.take_append_of_le_length (Nat.sub_le _ _)
  · rw [show (pieces '.' i.kept).length + i.between.length -
      (i.lead.back + 1) = (pieces '.' i.kept).length +
        (i.dots - i.missing) by omega]
    exact List.take_length_add_append _

-- ==== resolved

theorem pieces_reached :
    pieces '.' i.reached = pieces '.' i.kept ++ pieces '.' i.lead.down :=
  pieces_append

theorem pieces_named : pieces '.' i.named ≠ [[]] := by
  have hnames : ∀ name ∈ i.parent ++ [i.base ++ i.suffix], name ≠ "" := by
    rw [← i.target_parts]
    exact fun name hname => ne_empty_of_mem_pathParts hname
  have hempty : ∀ {name : String}, name.toList = [] → name = "" := fun h =>
    String.toList_eq_nil_iff.1 h
  refine pieces_ne_of_forall fun segment hsegment hnil => ?_
  subst hnil
  have hparent : ∀ name ∈ i.parent, name.toList ≠ [] := fun name hname hnil =>
    hnames name (List.mem_append_left _ hname) (hempty hnil)
  unfold Import.named Import.moduleNames at hsegment
  split at hsegment
  · obtain ⟨name, hname, hnil⟩ := List.mem_map.1 hsegment
    exact hparent name hname hnil
  · rw [List.map_append, List.mem_append] at hsegment
    rcases hsegment with hsegment | hsegment
    · obtain ⟨name, hname, hnil⟩ := List.mem_map.1 hsegment
      exact hparent name hname hnil
    · refine stem_ne_empty (hnames (i.base ++ i.suffix)
        (List.mem_append_right _ List.mem_cons_self)) (hempty ?_)
      exact (List.mem_singleton.1 hsegment).symm

theorem pieces_resolved (h : i.named = []) :
    i.baseParts.take (i.baseParts.length - i.lead.back) ++
      pieces '.' i.lead.down ≠ [[]] := by
  obtain ⟨hreached, hpieces⟩ := reached_of_init h
  rw [pieces_reached] at hpieces
  intro hone
  have hdown : pieces '.' i.lead.down = [] := by
    refine List.eq_nil_iff_forall_not_mem.2 fun piece hpiece => ?_
    have hmem : piece ∈ [([] : Segment)] := by
      rw [← hone]
      exact List.mem_append_right _ hpiece
    exact hpieces piece (List.mem_append_right _ hpiece)
      (List.mem_singleton.1 hmem)
  have hkept : pieces '.' i.kept ≠ [] := by
    intro hnil
    apply hreached
    unfold Import.reached
    rw [(pieces_eq_nil_iff _).1 hnil, (pieces_eq_nil_iff _).1 hdown]
    rfl
  rw [hdown, List.append_nil, take_baseParts] at hone
  split at hone
  · refine hpieces [] (List.mem_append_left _ ?_) rfl
    apply List.mem_of_mem_dropLast
    rw [hone]
    exact List.mem_cons_self
  · obtain ⟨piece, rest, hpiece⟩ := List.exists_cons_of_ne_nil hkept
    rw [hpiece, List.cons_append] at hone
    obtain ⟨rfl, -⟩ := List.cons.inj hone
    refine hpieces [] (List.mem_append_left _ ?_) rfl
    rw [hpiece]
    exact List.mem_cons_self

/-- The import is resolved right if what the loop leaves of the parts and
what the specifier comes down are the pieces of the target's module. -/
theorem agrees_iff_pieces : i.Agrees ↔
    i.baseParts.take (i.baseParts.length - i.lead.back) ++
      pieces '.' i.lead.down = pieces '.' i.named := by
  have hfold : ((withoutSuffixes i.specifier).toList.splitOn '/').foldl
      enterSegment i.baseParts = i.lead.from i.baseParts := by
    have h := foldl_enterSegment i.baseParts
      ((withoutSuffixes i.specifier).toList.splitOn '/') ⟨0, []⟩
    rw [from_nil] at h
    exact h
  have hresolved : resolveRelativeTsImport (moduleDottedPath i.importer)
      i.specifier =
        some (.ofList (['.'].intercalate (i.lead.from i.baseParts))) := by
    unfold resolveRelativeTsImport
    rw [if_pos i.relative, ← hfold]
    rfl
  have htarget : (moduleDottedPath i.target).toList =
      ['.'].intercalate i.named := toList_moduleDottedPath i.target_parts
  have hspelled : i.Agrees ↔
      spelled '.' (i.lead.from i.baseParts) = spelled '.' i.named := by
    unfold Import.Agrees
    rw [hresolved, Option.some_inj, ← join_eq_join_iff, ← htarget]
    constructor
    · intro h
      rw [← h, String.toList_ofList]
    · intro h
      rw [h, String.ofList_toList]
  have hpieces : pieces '.' (i.lead.from i.baseParts) =
      i.baseParts.take (i.baseParts.length - i.lead.back) ++
        pieces '.' i.lead.down := by
    unfold Lead.from
    rw [pieces_append, pieces_of_pieces]
    intro piece hpiece
    exact not_mem_splitOn (List.dropLast_subset _ (List.mem_of_mem_take hpiece))
  rw [hspelled, ← hpieces]
  refine spelled_eq_iff (fun _ => pieces_named) fun hnil => ?_
  rw [hpieces]
  exact pieces_resolved hnil

-- ==== three cases

section Cases

variable {more : List Segment}

theorem length_take_between (h : ¬ i.dots < i.missing) :
    (i.between.take (i.dots - i.missing)).length = i.dots - i.missing := by
  have hbetween := length_between (i := i)
  rw [List.length_take]
  exact Nat.min_eq_left (by omega)

theorem resolved_same :
    i.baseParts.take (i.baseParts.length - i.lead.back) ++
        pieces '.' i.lead.down = pieces '.' i.reached ↔ i.Undotted := by
  rw [pieces_reached, List.append_left_inj, take_baseParts]
  unfold Import.Undotted
  split
  · next hless =>
    rw [or_iff_right (Nat.ne_of_lt hless), and_iff_right hless,
      ← pieces_eq_nil_iff '.']
    constructor
    · intro h
      have hlength := congrArg List.length h
      rw [List.length_dropLast] at hlength
      exact List.eq_nil_of_length_eq_zero (by omega)
    · intro h
      rw [h]
      rfl
  · next hnot =>
    have hlength := length_take_between hnot
    rw [List.append_right_eq_self, ← List.length_eq_zero_iff, hlength]
    omega

theorem resolved_longer (hmore : more ≠ []) :
    i.baseParts.take (i.baseParts.length - i.lead.back) ++
        pieces '.' i.lead.down = pieces '.' i.reached ++ more ↔
      i.dots = i.missing + more.length ∧
        i.between.take more.length ++ pieces '.' i.lead.down <:+
          repeated ((pieces '.' i.lead.down).length + 1) more := by
  have hpos := List.length_pos_of_ne_nil hmore
  rw [pieces_reached, take_baseParts]
  split
  · next hless =>
    refine iff_of_false (fun h => ?_) fun h => by omega
    have hlength := congrArg List.length h
    simp only [List.length_append, List.length_dropLast] at hlength
    omega
  · next hnot =>
    have hlength := length_take_between hnot
    rw [List.append_assoc, List.append_assoc, List.append_right_inj,
      append_eq_append_iff_repeated hmore, hlength]
    constructor
    · rintro ⟨hcount, hend⟩
      rw [hcount] at hend
      exact ⟨by omega, hend⟩
    · rintro ⟨hcount, hend⟩
      have hsame : i.dots - i.missing = more.length := by omega
      rw [hsame]
      exact ⟨rfl, hend⟩

theorem resolved_shorter {names : List Segment} (hmore : more ≠ [])
    (h : pieces '.' i.reached = names ++ more) :
    i.baseParts.take (i.baseParts.length - i.lead.back) ++
        pieces '.' i.lead.down = names ↔
      ∃ piece, more = [piece] ∧ i.dots < i.missing ∧
        (pieces '.' i.kept).getLast? = some piece ∧
        ∀ p ∈ pieces '.' i.lead.down, p = piece := by
  have hpos := List.length_pos_of_ne_nil hmore
  rw [pieces_reached] at h
  rw [take_baseParts]
  split
  · next hless =>
    simp only [hless, true_and]
    rcases List.eq_nil_or_concat (pieces '.' i.kept) with
      hkept | ⟨kept, last, hkept⟩
    · rw [hkept] at h ⊢
      refine iff_of_false (fun hsame => hmore ?_) ?_
      · rw [← hsame] at h
        exact List.self_eq_append_right.1 h
      · rintro ⟨piece, -, hlast, -⟩
        cases hlast
    · rw [List.concat_eq_append] at hkept
      rw [hkept, List.dropLast_concat, List.getLast?_concat]
      rw [hkept, List.append_assoc, List.singleton_append] at h
      have hturn : kept ++ pieces '.' i.lead.down = names ↔
          last :: pieces '.' i.lead.down = pieces '.' i.lead.down ++ more := by
        rw [← List.append_left_inj more, ← h, List.append_assoc,
          List.append_right_inj]
        exact eq_comm
      rw [hturn, cons_eq_append_iff]
      constructor
      · rintro ⟨hone, hall⟩
        exact ⟨last, hone, rfl, hall⟩
      · rintro ⟨piece, hone, hlast, hall⟩
        obtain rfl := Option.some.inj hlast
        exact ⟨hone, hall⟩
  · next hnot =>
    refine iff_of_false ?_ ?_
    · intro hsame
      have hlength := congrArg List.length h
      have hlength' := congrArg List.length hsame
      simp only [List.length_append] at hlength hlength'
      omega
    · rintro ⟨piece, -, hless, -⟩
      exact hnot hless

end Cases

/-- The import is resolved right exactly if the specifier leads, without its
suffixes, to the pieces of the target's module and no dot is in the way;
or if it leads to fewer, and as many are left over and go round in the
names; or to one more, and one is missing and goes round. -/
theorem typescript_import_agrees_iff (i : Import) : i.Agrees ↔
    (pieces '.' i.reached = pieces '.' i.named ∧ i.Undotted) ∨
      i.Lengthened ∨ i.Shortened := by
  rw [agrees_iff_pieces]
  unfold Import.Lengthened Import.Shortened
  have hsame : pieces '.' i.named = pieces '.' i.reached →
      (i.baseParts.take (i.baseParts.length - i.lead.back) ++
        pieces '.' i.lead.down = pieces '.' i.named ↔ i.Undotted) := by
    intro h
    rw [h]
    exact resolved_same
  rcases List.prefix_or_prefix_of_prefix (prefix_reached (i := i))
    (prefix_named (i := i)) with ⟨more, hmore⟩ | ⟨more, hmore⟩
  · by_cases hnil : more = []
    · rw [hnil, List.append_nil] at hmore
      rw [hsame hmore.symm, hmore]
      simp
    · rw [← hmore, resolved_longer hnil]
      simp [hnil]
  · by_cases hnil : more = []
    · rw [hnil, List.append_nil] at hmore
      rw [hsame hmore, hmore]
      simp
    · rw [resolved_shorter hnil hmore.symm, ← hmore]
      simp [hnil]

end Import

/-- src/a.spec.ts, which imports ./b. -/
def specImport : Import where
  importer := "src/a.spec.ts"
  target := "src/b.ts"
  specifier := "./b"
  dirs := ["src"]
  file := "a.spec.ts"
  parent := ["src"]
  base := "b"
  suffix := ".ts"
  importer_parts := by decide
  target_parts := by decide
  typescript := Or.inl rfl
  relative := by decide
  leads := Or.inl (by decide)

/-- It is resolved to src.a.b, where src.b is meant. -/
theorem dotted_importer_misleads : ¬ ∀ i : Import, i.Agrees := by
  intro h
  have hagrees : resolveRelativeTsImport
      (moduleDottedPath "src/a.spec.ts") "./b" =
        some (moduleDottedPath "src/b.ts") := h specImport
  revert hagrees
  decide +kernel

end SdlcOs.Index
