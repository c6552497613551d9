/-
Whether a tenant's names are labels, and the same in Python and in HCL.

# What is promised

For every tenant id the slug and the namespace are DNS-1123 labels, ids
with different digests get different names, and Python's names are those
of the HCL expressions (`Named`).

# Where it is kept

Both sides join the runs of ASCII letters and digits that their `lower`
leaves (`sanitized_eq`, `tenantSlugSanitized_eq`). Different digests make
different names always. Nothing caps the length, so that the names are
labels up to a length (`Fits`); and the two agree where the runs are the
same and where composing the inputs changes neither the digest nor the
environment's name (`Agrees`, `named_iff`), on ASCII for one
(`agrees_of_ascii`).
-/
import Mathlib
import SdlcOs.Data.Pieces
import SdlcOs.TenantCell.Naming

namespace SdlcOs.TenantCell.Naming

open Data (mem_intercalate)
open Data.Runs
open Gates (isSpace)

-- ==== promise

/-- A DNS-1123 label. -/
structure Label (s : List Char) : Prop where
  some : s ≠ []
  short : s.length ≤ 63
  chars : ∀ c ∈ s, kept c = true ∨ c = '-'
  first : ∀ c ∈ s.head?, kept c = true
  last : ∀ c ∈ s.getLast?, kept c = true

/-- The digest's part of a name. -/
def suffix (D : Digest) (tenantId : List Char) : List Char :=
  (D.sha256 tenantId).take hashSuffixLen

/-- The promise, for a tenant in an environment. -/
structure Named (U V : Casing) (N : Composition) (D : Digest)
    (base tenantId : List Char) : Prop where
  slug_label : ∀ slug, tenantSlug U D tenantId = .ok slug → Label slug
  namespace_label : ∀ name,
    modelServingNamespace U D base tenantId = .ok name → Label name
  slug_distinct : ∀ tenantId', suffix D tenantId ≠ suffix D tenantId' →
    ∀ slug, tenantSlug U D tenantId = .ok slug →
      tenantSlug U D tenantId' ≠ .ok slug
  pool_distinct : ∀ tenantId', suffix D tenantId ≠ suffix D tenantId' →
    ∀ base' pool, nodePoolName U D base tenantId = .ok pool →
      nodePoolName U D base' tenantId' ≠ .ok pool
  slug_hcl : tenantSlug U D tenantId = .ok (Hcl.tenantSlug V N D tenantId)
  environment_hcl : tenantEnvironment U D base tenantId =
    .ok (Hcl.tenantEnvironment V N D base tenantId)

-- ==== condition

/-- What Python reads a character as: the letters and digits it becomes,
`-` for anything else. -/
def pyRead (c : Char) : List Char :=
  if kept c then [c]
  else if capital c then [Char.ofNat (c.toNat + 32)]
  else if c = '\u0130' then ['i', '-']
  else if c = '\u212a' then ['k']
  else ['-']

/-- The words that Python reads in an id. -/
def pyWords (tenantId : List Char) : List (List Char) :=
  runs kept (tenantId.flatMap pyRead)

/-- The words that HCL reads in an id. -/
def hclWords (V : Casing) (N : Composition) (tenantId : List Char) :
    List (List Char) :=
  runs kept (Hcl.lower V N (N.nfc tenantId))

/-- The words of a name: one at least. -/
def namedBy (words : List (List Char)) : List (List Char) :=
  if words = [] then ["tenant".toList] else words

/-- The length of words with a character between each two. -/
def joinedLength (words : List (List Char)) : Nat :=
  (words.map List.length).sum + (words.length - 1)

/-- Forty characters at most. -/
def Fits (tenantId : List Char) : Prop :=
  joinedLength (namedBy (pyWords tenantId)) ≤ 40

/-- The same words, the same digest, and an environment that stays as it
is. -/
structure Agrees (V : Casing) (N : Composition) (D : Digest)
    (base tenantId : List Char) : Prop where
  words : namedBy (pyWords tenantId) = namedBy (hclWords V N tenantId)
  digest : suffix D tenantId = suffix D (N.nfc tenantId)
  base_some : base ≠ []
  base_composed : N.nfc base = base

-- ==== words

section Words

variable {U V : Casing} {N : Composition} {D : Digest}

theorem gap_singleton {c : Char} (h : kept c = false) :
    ∀ x ∈ [c], kept x = false := by
  intro x hx
  rw [List.mem_singleton.1 hx]
  exact h

theorem hyphen_gap : ∀ x ∈ ['-'], kept x = false := gap_singleton rfl

theorem runsFrom_lowerChar {before after run l l' : List Char} {c : Char}
    (h : ∀ run, runsFrom kept run l = runsFrom kept run l') :
    runsFrom kept run
        (lowerChar U ['i', '\u0307'] before c after ++ l) =
      runsFrom kept run (pyRead c ++ l') := by
  have hgap : ∀ {g g' : List Char}, (∀ x ∈ g, kept x = false) →
      (∀ x ∈ g', kept x = false) → g ≠ [] → g' ≠ [] → ∀ run,
        runsFrom kept run (g ++ l) = runsFrom kept run (g' ++ l') := by
    intro g g' hg hg' hne hne' run
    rw [runsFrom_gap hg hne, runsFrom_gap hg' hne', runs, h, runs]
  rw [lowerChar, pyRead]
  split
  · exact runsFrom_append_congr h _ _
  split
  · exact runsFrom_append_congr h _ _
  split
  · have hdot : ∀ run, runsFrom kept run (['\u0307'] ++ l) =
        runsFrom kept run (['-'] ++ l') :=
      hgap (gap_singleton rfl) hyphen_gap (List.cons_ne_nil _ _)
        (List.cons_ne_nil _ _)
    exact runsFrom_append_congr hdot ['i'] run
  split
  · exact runsFrom_append_congr h _ _
  · exact hgap (U.not_kept _ _ _) hyphen_gap (U.some _ _ _)
      (List.cons_ne_nil _ _) run

theorem runsFrom_lowerFrom {before run s : List Char} :
    runsFrom kept run (lowerFrom U ['i', '\u0307'] before s) =
      runsFrom kept run (s.flatMap pyRead) := by
  induction s generalizing before run with
  | nil => rfl
  | cons c s ih =>
    rw [lowerFrom, List.flatMap_cons]
    exact runsFrom_lowerChar fun run => ih

theorem kept_blanks {s : List Char} (h : ∀ c ∈ s, isSpace c = true) :
    ∀ x ∈ s.flatMap pyRead, kept x = false := by
  intro x hx
  obtain ⟨c, hc, hx⟩ := List.mem_flatMap.1 hx
  have hspace := h c hc
  simp only [isSpace, Bool.or_eq_true, Bool.and_eq_true,
    decide_eq_true_eq] at hspace
  have hdot : c ≠ '\u0130' := by
    rintro rfl
    revert hspace
    decide
  have hkelvin : c ≠ '\u212a' := by
    rintro rfl
    revert hspace
    decide
  have hkept : ¬ kept c = true := by
    simp only [kept, Bool.or_eq_true, Bool.and_eq_true, decide_eq_true_eq,
      show 'a'.toNat = 97 from rfl, show 'z'.toNat = 122 from rfl,
      show '0'.toNat = 48 from rfl, show '9'.toNat = 57 from rfl]
    omega
  have hcapital : ¬ capital c = true := by
    simp only [capital, Bool.and_eq_true, decide_eq_true_eq,
      show 'A'.toNat = 65 from rfl, show 'Z'.toNat = 90 from rfl]
    omega
  rw [pyRead, if_neg hkept, if_neg hcapital, if_neg hdot,
    if_neg hkelvin] at hx
  exact hyphen_gap x hx

theorem pyWords_strip (s : List Char) : pyWords (strip s) = pyWords s := by
  have hsplit : s = s.takeWhile isSpace ++
      (strip s ++ (s.dropWhile isSpace).rtakeWhile isSpace) := by
    rw [strip, List.rdropWhile_append_rtakeWhile,
      List.takeWhile_append_dropWhile]
  conv_rhs => rw [hsplit]
  rw [pyWords, pyWords, List.flatMap_append, List.flatMap_append,
    runs_gap_append (kept_blanks fun c hc => List.mem_takeWhile_imp hc)]
  exact (runsFrom_append_gap
    (kept_blanks fun c hc => List.mem_rtakeWhile_imp hc)).symm

/-- Python's sanitized id is its words, joined. -/
theorem sanitized_eq (tenantId : List Char) :
    sanitized U tenantId = ['-'].intercalate (pyWords tenantId) := by
  rw [sanitized, trim_collapse (by decide), pyLower, runs,
    runsFrom_lowerFrom, ← pyWords_strip]
  rfl

/-- So is HCL's. -/
theorem tenantSlugSanitized_eq (tenantId : List Char) :
    Hcl.tenantSlugSanitized V N (N.nfc tenantId) =
      ['-'].intercalate (hclWords V N tenantId) := by
  rw [Hcl.tenantSlugSanitized, trim_collapse (by decide), hclWords]

theorem mem_namedBy {words : List (List Char)}
    (h : ∀ w ∈ words, w ≠ [] ∧ ∀ c ∈ w, kept c = true) :
    ∀ w ∈ namedBy words, w ≠ [] ∧ ∀ c ∈ w, kept c = true := by
  rw [namedBy]
  split
  · intro w hw
    rw [List.mem_singleton.1 hw]
    exact ⟨by decide, List.all_eq_true.1 (by decide)⟩
  · exact h

theorem namedBy_ne_nil (words : List (List Char)) : namedBy words ≠ [] := by
  rw [namedBy]
  split
  · exact List.cons_ne_nil _ _
  · next h => exact h

theorem intercalate_namedBy {words : List (List Char)}
    (h : ∀ w ∈ words, w ≠ [] ∧ ∀ c ∈ w, kept c = true) :
    (if ['-'].intercalate words = [] then "tenant".toList
      else ['-'].intercalate words) = ['-'].intercalate (namedBy words) := by
  rw [namedBy]
  by_cases hwords : words = []
  · rw [if_pos hwords, hwords]
    exact List.intercalate_singleton.symm
  · rw [if_neg hwords, if_neg]
    rw [intercalate_eq_nil fun w hw => (h w hw).1]
    exact hwords

theorem intercalate_inj {words words' : List (List Char)}
    (h : ∀ w ∈ words, w ≠ [] ∧ ∀ c ∈ w, kept c = true)
    (h' : ∀ w ∈ words', w ≠ [] ∧ ∀ c ∈ w, kept c = true)
    (hne : words ≠ []) (hne' : words' ≠ [])
    (heq : ['-'].intercalate words = ['-'].intercalate words') :
    words = words' := by
  have hhyphen : ∀ {words : List (List Char)},
      (∀ w ∈ words, w ≠ [] ∧ ∀ c ∈ w, kept c = true) →
        ∀ w ∈ words, '-' ∉ w := by
    intro words h w hw hmem
    have hkept := (h w hw).2 '-' hmem
    cases hkept
  rw [← List.splitOn_intercalate '-' (hhyphen h) hne, heq,
    List.splitOn_intercalate '-' (hhyphen h') hne']

theorem length_intercalate (words : List (List Char)) :
    (['-'].intercalate words).length = joinedLength words := by
  induction words with
  | nil => rfl
  | cons w words ih =>
    cases words with
    | nil => simp [joinedLength]
    | cons w' words =>
      rw [List.intercalate_cons_cons, List.length_append,
        List.length_append, ih]
      simp only [joinedLength, List.map_cons, List.sum_cons,
        List.length_cons, List.length_nil]
      omega

/-- A name starts with a letter or a digit, and has nothing else in it but
hyphens. -/
theorem intercalate_chars {words : List (List Char)}
    (h : ∀ w ∈ words, w ≠ [] ∧ ∀ c ∈ w, kept c = true) (hne : words ≠ []) :
    ['-'].intercalate words ≠ [] ∧
    (∀ c ∈ ['-'].intercalate words, kept c = true ∨ c = '-') ∧
      ∀ c ∈ (['-'].intercalate words).head?, kept c = true := by
  refine ⟨fun hnil => hne ((intercalate_eq_nil fun w hw =>
    (h w hw).1).1 hnil), ?_, ?_⟩
  · intro c hc
    rcases mem_intercalate hc with hc | ⟨w, hw, hc⟩
    · exact Or.inr (List.mem_singleton.1 hc)
    · exact Or.inl ((h w hw).2 c hc)
  · obtain ⟨w, words', rfl⟩ := List.exists_cons_of_ne_nil hne
    obtain ⟨hw, hkept⟩ := h w List.mem_cons_self
    obtain ⟨c, w', rfl⟩ := List.exists_cons_of_ne_nil hw
    have hhead : (['-'].intercalate ((c :: w') :: words')).head? =
        Option.some c := by
      cases words' <;> simp
    intro x hx
    rw [hhead] at hx
    obtain rfl := Option.some.inj hx
    exact hkept c List.mem_cons_self

end Words

-- ==== names

section Names

variable {U V : Casing} {N : Composition} {D : Digest}
  {base tenantId slug : List Char}

theorem length_suffix (D : Digest) (tenantId : List Char) :
    (suffix D tenantId).length = 8 := by
  rw [suffix, List.length_take, D.length]
  rfl

theorem suffix_kept : ∀ c ∈ suffix D tenantId, kept c = true :=
  fun c hc => D.hex _ c (List.mem_of_mem_take hc)

/-- Python's name for a tenant, without the digest. -/
def pyName (tenantId : List Char) : List Char :=
  ['-'].intercalate (namedBy (pyWords tenantId))

/-- HCL's. -/
def hclName (V : Casing) (N : Composition) (tenantId : List Char) :
    List Char :=
  ['-'].intercalate (namedBy (hclWords V N tenantId))

theorem mem_pyWords : ∀ w ∈ pyWords tenantId,
    w ≠ [] ∧ ∀ c ∈ w, kept c = true := fun _ hw => mem_runs hw

theorem mem_hclWords : ∀ w ∈ hclWords V N tenantId,
    w ≠ [] ∧ ∀ c ∈ w, kept c = true := fun _ hw => mem_runs hw

theorem tenantSlug_eq (h : tenantId ≠ []) : tenantSlug U D tenantId =
    .ok (pyName tenantId ++ ['-'] ++ suffix D tenantId) := by
  rw [tenantSlug, if_neg h, sanitized_eq, pyName,
    ← intercalate_namedBy mem_pyWords]
  rfl

theorem kept_ascii {c : Char} (h : kept c = true) : isAscii c = true := by
  simp only [kept, Bool.or_eq_true, Bool.and_eq_true, decide_eq_true_eq,
    show 'z'.toNat = 122 from rfl, show '9'.toNat = 57 from rfl] at h
  simp only [isAscii, decide_eq_true_eq]
  omega

theorem name_ascii {words : List (List Char)}
    (h : ∀ w ∈ words, w ≠ [] ∧ ∀ c ∈ w, kept c = true) :
    ∀ c ∈ ['-'].intercalate (namedBy words) ++ ['-'] ++ suffix D tenantId,
      isAscii c = true := by
  intro c hc
  rcases List.mem_append.1 hc with hc | hc
  · rcases List.mem_append.1 hc with hc | hc
    · rcases (intercalate_chars (mem_namedBy h) (namedBy_ne_nil _)).2.1 c hc
        with hc | rfl
      · exact kept_ascii hc
      · rfl
    · rw [List.mem_singleton.1 hc]
      rfl
  · exact kept_ascii (suffix_kept c hc)

theorem hcl_slug_eq (tenantId : List Char) :
    Hcl.tenantSlug V N D tenantId =
      hclName V N tenantId ++ ['-'] ++ suffix D (N.nfc tenantId) := by
  have hname : (if Hcl.tenantSlugSanitized V N (N.nfc tenantId) ≠ [] then
        Hcl.tenantSlugSanitized V N (N.nfc tenantId)
      else "tenant".toList) = hclName V N tenantId := by
    rw [tenantSlugSanitized_eq, ite_not, hclName,
      intercalate_namedBy mem_hclWords]
  rw [Hcl.tenantSlug, Hcl.slugOf, hname]
  exact N.ascii _ (name_ascii mem_hclWords)

theorem name_inj {name name' s s' : List Char} (hs : s.length = s'.length) :
    name ++ ['-'] ++ s = name' ++ ['-'] ++ s' ↔ name = name' ∧ s = s' := by
  constructor
  · intro h
    obtain ⟨hname, hsuffix⟩ := List.append_inj' h hs
    exact ⟨List.append_cancel_right hname, hsuffix⟩
  · rintro ⟨rfl, rfl⟩
    rfl

theorem pyName_eq_iff : pyName tenantId = hclName V N tenantId ↔
    namedBy (pyWords tenantId) = namedBy (hclWords V N tenantId) := by
  constructor
  · exact intercalate_inj (mem_namedBy mem_pyWords)
      (mem_namedBy mem_hclWords) (namedBy_ne_nil _) (namedBy_ne_nil _)
  · intro h
    rw [pyName, h, hclName]

/-- Python and HCL give a tenant the same slug where they read the same
words and hash the same. -/
theorem slug_agrees_iff (h : tenantId ≠ []) :
    tenantSlug U D tenantId = .ok (Hcl.tenantSlug V N D tenantId) ↔
      namedBy (pyWords tenantId) = namedBy (hclWords V N tenantId) ∧
        suffix D tenantId = suffix D (N.nfc tenantId) := by
  rw [tenantSlug_eq h, hcl_slug_eq, Except.ok.injEq,
    name_inj (by rw [length_suffix, length_suffix]), pyName_eq_iff]

theorem tenantEnvironment_eq (hbase : base ≠ []) (h : tenantId ≠ []) :
    tenantEnvironment U D base tenantId = .ok (base ++
      "-tenant-".toList ++
        (pyName tenantId ++ ['-'] ++ suffix D tenantId)) := by
  rw [tenantEnvironment, if_neg hbase, tenantSlug_eq h]
  rfl

theorem hcl_environment_eq (base tenantId : List Char) :
    Hcl.tenantEnvironment V N D base tenantId =
      N.nfc base ++ "-tenant-".toList ++ Hcl.tenantSlug V N D tenantId := by
  rw [Hcl.tenantEnvironment, hcl_slug_eq, List.append_assoc, N.append,
    N.idem, List.append_assoc]
  intro c hc
  rcases List.mem_append.1 hc with hc | hc
  · exact List.all_eq_true.1 (by decide) c hc
  · exact name_ascii mem_hclWords c hc

-- ==== labels

theorem label_iff {front s : List Char} (hne : front ≠ [])
    (hchars : ∀ c ∈ front, kept c = true ∨ c = '-')
    (hfirst : ∀ c ∈ front.head?, kept c = true)
    (hlen : s.length = 8) (hs : ∀ c ∈ s, kept c = true) :
    Label (front ++ ['-'] ++ s) ↔ front.length ≤ 54 := by
  have hs' : s ≠ [] := by
    rintro rfl
    cases hlen
  have hlength : (front ++ ['-'] ++ s).length = front.length + 9 := by
    rw [List.length_append, List.length_append, hlen]
    rfl
  constructor
  · intro h
    have hshort := h.short
    omega
  · intro h
    refine ⟨by simp, by omega, ?_, ?_, ?_⟩
    · intro c hc
      rcases List.mem_append.1 hc with hc | hc
      · rcases List.mem_append.1 hc with hc | hc
        · exact hchars c hc
        · exact Or.inr (List.mem_singleton.1 hc)
      · exact Or.inl (hs c hc)
    · obtain ⟨c, front', rfl⟩ := List.exists_cons_of_ne_nil hne
      exact hfirst
    · intro c hc
      rw [List.getLast?_append_of_ne_nil _ hs'] at hc
      exact hs c (List.mem_of_getLast? hc)

theorem pyName_chars (tenantId : List Char) : pyName tenantId ≠ [] ∧
    (∀ c ∈ pyName tenantId, kept c = true ∨ c = '-') ∧
      ∀ c ∈ (pyName tenantId).head?, kept c = true :=
  intercalate_chars (mem_namedBy mem_pyWords) (namedBy_ne_nil _)

theorem length_pyName (tenantId : List Char) :
    (pyName tenantId).length = joinedLength (namedBy (pyWords tenantId)) :=
  length_intercalate _

theorem slug_label_iff :
    Label (pyName tenantId ++ ['-'] ++ suffix D tenantId) ↔
      joinedLength (namedBy (pyWords tenantId)) ≤ 54 := by
  obtain ⟨hne, hchars, hfirst⟩ := pyName_chars tenantId
  rw [label_iff hne hchars hfirst (length_suffix _ _) suffix_kept,
    length_pyName]

theorem namespace_label_iff :
    Label ("model-serving-".toList ++
        (pyName tenantId ++ ['-'] ++ suffix D tenantId)) ↔
      Fits tenantId := by
  obtain ⟨hne, hchars, _⟩ := pyName_chars tenantId
  have hlength : ("model-serving-".toList ++ pyName tenantId).length =
      14 + joinedLength (namedBy (pyWords tenantId)) := by
    rw [List.length_append, length_pyName]
    rfl
  rw [← List.append_assoc, ← List.append_assoc,
    label_iff _ _ _ (length_suffix _ _) suffix_kept, hlength, Fits]
  · omega
  · exact fun hnil => hne (List.append_eq_nil_iff.1 hnil).2
  · intro c hc
    rcases List.mem_append.1 hc with hc | hc
    · have hall : ("model-serving-".toList.all
          fun c => kept c || c = '-') = true := by decide
      simpa using List.all_eq_true.1 hall c hc
    · exact hchars c hc
  · intro c hc
    rw [List.head?_append_of_ne_nil _ (by decide)] at hc
    have hm : "model-serving-".toList.head? = Option.some 'm' := by
      decide
    rw [hm] at hc
    obtain rfl := Option.some.inj hc
    rfl

-- ==== distinct

theorem slug_ne {tenantId' : List Char}
    (hsuffix : suffix D tenantId ≠ suffix D tenantId')
    (h : tenantSlug U D tenantId = .ok slug) :
    tenantSlug U D tenantId' ≠ .ok slug := by
  intro h'
  have hid : tenantId ≠ [] := fun hnil => by
    rw [tenantSlug, if_pos hnil] at h
    cases h
  have hid' : tenantId' ≠ [] := fun hnil => by
    rw [tenantSlug, if_pos hnil] at h'
    cases h'
  rw [← h, tenantSlug_eq hid, tenantSlug_eq hid', Except.ok.injEq,
    name_inj (by rw [length_suffix, length_suffix])] at h'
  exact hsuffix h'.2.symm

theorem nodePoolName_eq {pool : List Char}
    (h : nodePoolName U D base tenantId = .ok pool) :
    ∃ front, pool = front ++ suffix D tenantId ++
      "-gpu-node-pool".toList := by
  have hbase : base ≠ [] := fun hnil => by
    rw [nodePoolName, tenantEnvironment, if_pos hnil] at h
    cases h
  have hid : tenantId ≠ [] := fun hnil => by
    rw [nodePoolName, tenantEnvironment, if_neg hbase, tenantSlug,
      if_pos hnil] at h
    cases h
  rw [nodePoolName, tenantEnvironment_eq hbase hid] at h
  refine ⟨base ++ "-tenant-".toList ++ (pyName tenantId ++ ['-']), ?_⟩
  rw [← Except.ok.inj h]
  simp only [List.append_assoc]

theorem pool_ne {tenantId' base' pool : List Char}
    (hsuffix : suffix D tenantId ≠ suffix D tenantId')
    (h : nodePoolName U D base tenantId = .ok pool) :
    nodePoolName U D base' tenantId' ≠ .ok pool := by
  intro h'
  obtain ⟨front, hfront⟩ := nodePoolName_eq h
  obtain ⟨front', hfront'⟩ := nodePoolName_eq h'
  rw [hfront] at hfront'
  obtain ⟨_, heq⟩ := List.append_inj' (List.append_cancel_right hfront')
    (by rw [length_suffix, length_suffix])
  exact hsuffix heq

-- ==== promised

/-- A tenant's names are as promised exactly if they fit and the two sides
agree on them. -/
theorem named_iff (U V : Casing) (N : Composition) (D : Digest)
    (base tenantId : List Char) (h : tenantId ≠ []) :
    Named U V N D base tenantId ↔
      Fits tenantId ∧ Agrees V N D base tenantId := by
  constructor
  · intro hnamed
    have hslug := (slug_agrees_iff h).1 hnamed.slug_hcl
    have henvironment := hnamed.environment_hcl
    have hbase : base ≠ [] := fun hnil => by
      rw [tenantEnvironment, if_pos hnil] at henvironment
      cases henvironment
    have hnamespace := hnamed.namespace_label
    rw [modelServingNamespace, tenantSlug_eq h] at hnamespace
    refine ⟨namespace_label_iff.1 (hnamespace _ rfl), hslug.1, hslug.2,
      hbase, ?_⟩
    have hsame := hnamed.slug_hcl
    rw [tenantSlug_eq h, Except.ok.injEq] at hsame
    rw [tenantEnvironment_eq hbase h, hcl_environment_eq, ← hsame,
      Except.ok.injEq] at henvironment
    exact (List.append_cancel_right
      (List.append_cancel_right henvironment)).symm
  · rintro ⟨hfits, hwords, hdigest, hbase, hcomposed⟩
    have hslug := (slug_agrees_iff (U := U) h).2 ⟨hwords, hdigest⟩
    refine ⟨?_, ?_, fun _ hsuffix _ => slug_ne hsuffix,
      fun _ hsuffix _ _ => pool_ne hsuffix, hslug, ?_⟩
    · intro slug hok
      rw [tenantSlug_eq h] at hok
      rw [← Except.ok.inj hok]
      exact slug_label_iff.2 (Nat.le_trans hfits (by omega))
    · intro name hok
      rw [modelServingNamespace, tenantSlug_eq h] at hok
      rw [← Except.ok.inj hok]
      exact namespace_label_iff.2 hfits
    · rw [tenantSlug_eq h, Except.ok.injEq] at hslug
      rw [tenantEnvironment_eq hbase h, hcl_environment_eq, ← hslug,
        hcomposed]

theorem lowerFrom_dotted {dotted dotted' before s : List Char}
    (h : ∀ c ∈ s, c ≠ '\u0130') :
    lowerFrom U dotted before s = lowerFrom U dotted' before s := by
  induction s generalizing before with
  | nil => rfl
  | cons c s ih =>
    have hchar : lowerChar U dotted before c s =
        lowerChar U dotted' before c s := by
      rw [lowerChar, lowerChar, if_neg (h c List.mem_cons_self),
        if_neg (h c List.mem_cons_self)]
    rw [lowerFrom, lowerFrom, hchar,
      ih fun c hc => h c (List.mem_cons_of_mem _ hc)]

theorem lowerChar_ascii {dotted before after : List Char} {c : Char}
    (hc : isAscii c = true) :
    ∀ x ∈ lowerChar U dotted before c after, isAscii x = true := by
  have hdot : c ≠ '\u0130' := by
    rintro rfl
    cases hc
  have hkelvin : c ≠ '\u212a' := by
    rintro rfl
    cases hc
  rw [lowerChar, if_neg hdot, if_neg hkelvin]
  intro x hx
  split at hx
  · rw [List.mem_singleton.1 hx]
    exact hc
  · next hkept =>
    split at hx
    · next hcapital =>
      rw [List.mem_singleton.1 hx]
      simp only [capital, Bool.and_eq_true, decide_eq_true_eq,
        show 'A'.toNat = 65 from rfl, show 'Z'.toNat = 90 from rfl]
        at hcapital
      have hvalid : (c.toNat + 32).isValidChar := Or.inl (by omega)
      rw [isAscii, decide_eq_true_eq, Char.toNat_ofNat, if_pos hvalid]
      omega
    · rw [U.ascii _ _ _ hc (by simpa using hkept)] at hx
      rw [List.mem_singleton.1 hx]
      exact hc

theorem lowerFrom_ascii {dotted before s : List Char}
    (h : ∀ c ∈ s, isAscii c = true) :
    ∀ x ∈ lowerFrom U dotted before s, isAscii x = true := by
  induction s generalizing before with
  | nil => intro x hx; cases hx
  | cons c s ih =>
    intro x hx
    rcases List.mem_append.1 hx with hx | hx
    · exact lowerChar_ascii (h c List.mem_cons_self) x hx
    · exact ih (fun c hc => h c (List.mem_cons_of_mem _ hc)) x hx

/-- On ASCII the two sides agree. -/
theorem agrees_of_ascii (hid : ∀ c ∈ tenantId, isAscii c = true)
    (hbase : ∀ c ∈ base, isAscii c = true) (hne : base ≠ []) :
    Agrees V N D base tenantId := by
  have hcomposed := N.ascii tenantId hid
  have hdot : ∀ c ∈ tenantId, c ≠ '\u0130' := by
    rintro c hc rfl
    cases hid _ hc
  have hwords : hclWords V N tenantId = pyWords tenantId := by
    have hlower : goLower V tenantId = pyLower V tenantId :=
      lowerFrom_dotted hdot
    have hascii : ∀ c ∈ pyLower V tenantId, isAscii c = true :=
      lowerFrom_ascii hid
    rw [hclWords, Hcl.lower, hcomposed, hlower, N.ascii _ hascii, pyLower,
      runs, runsFrom_lowerFrom]
    rfl
  exact ⟨by rw [hwords], by rw [hcomposed], hne, N.ascii base hbase⟩

end Names

namespace Sample

/-- Nothing but ASCII is known. -/
def casing : Casing where
  other := fun _ c _ => [if isAscii c && !kept c then c else '-']
  some := fun _ _ _ => List.cons_ne_nil _ _
  not_kept := fun before c after x hx => by
    rw [List.mem_singleton.1 hx]
    split
    · next h =>
      rw [Bool.and_eq_true, Bool.not_eq_true'] at h
      exact h.2
    · rfl
  ascii := fun before c after hc hkept => by
    rw [hc, hkept]
    rfl

/-- Texts as they are. -/
def composition : Composition where
  nfc := fun s => s
  idem := fun _ => rfl
  ascii := fun _ _ => rfl
  append := fun _ _ _ => rfl

/-- The digest of "acme"; no other one is looked at. -/
def digest : Digest where
  sha256 := fun s => if s = "acme".toList then
      ("822b33ad87c148a0a20a5ba7cd5ebcaa" ++
        "68d36a18e7aad165554903f52ca82757").toList
    else List.replicate 64 '0'
  length := fun s => by
    split
    · decide
    · rfl
  hex := fun s => by
    split
    · exact List.all_eq_true.1 (by decide)
    · exact List.all_eq_true.1 (by decide)

end Sample

/-- A short name of ASCII. -/
theorem named_acme : Named Sample.casing Sample.casing Sample.composition
    Sample.digest "pilot-aws-g7e".toList "acme".toList :=
  (named_iff _ _ _ _ _ _ (by decide +kernel)).2
    ⟨by unfold Fits; decide +kernel,
      agrees_of_ascii (List.all_eq_true.1 (by decide +kernel))
        (List.all_eq_true.1 (by decide +kernel)) (by decide +kernel)⟩

/-- Forty-one letters are too many for a namespace. -/
theorem name_too_long : ¬ Named Sample.casing Sample.casing
    Sample.composition Sample.digest "pilot-aws-g7e".toList
      (List.replicate 41 'a') := by
  intro h
  have hlabel := h.namespace_label
  rw [modelServingNamespace, tenantSlug_eq (by decide +kernel)] at hlabel
  have hfits := namespace_label_iff.1 (hlabel _ rfl)
  revert hfits
  unfold Fits
  decide +kernel

end SdlcOs.TenantCell.Naming
