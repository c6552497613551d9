/-
What the known-CVE scan finds on a pinned line.

# What is promised

A line that pins a package has a finding exactly when the package, under
any spelling, is in the table and its version, with missing components
read as zero, is below the fixed one (`Vulnerable`).

# Where it is kept

The package is looked up as it is spelled but for its case, a line with
extras is no pinned line to the expression, and versions are compared as
tuples, for which a fixed version with zeros left out at its end is below
itself. So a pin is judged right exactly when it is spelled as in the
table, has no extras and does not leave out such zeros, or would not be
vulnerable anyway (`Judged`). All this holds of a scan that ends: one pin of
a package of the table with a number too long for `int`, in whichever file,
ends it with an error and no findings (`scan_exact_iff`).
-/
import SdlcOs.Proofs.Verification.BrokenTools

namespace SdlcOs.Verification.SecurityScan

open Json (Json)
open Gates (isSpace)
open Data (mapM_eq_ok)
open Data.Padded (PaddedLt PaddedEq)

-- ==== pins

/-- A number's digits. -/
def Digits (p : List Char) : Prop := p ≠ [] ∧ ∀ c ∈ p, c.isDigit = true

/-- What ends a version: the line, or a character that begins something
else. -/
def Ends (rest : List Char) : Prop :=
  ∀ c s, rest = c :: s → isSpace c = true ∨ c = ';' ∨ c = ','

/-- A pinned line, in its parts. Extras are in brackets, after a gap. -/
structure Pin where
  lead : List Char
  name : List Char
  extras : Option (List Char × List Char)
  gap : List Char
  gap' : List Char
  first : List Char
  more : List (List Char)
  rest : List Char
  lead_space : ∀ c ∈ lead, isSpace c = true
  name_some : name ≠ []
  name_chars : ∀ c ∈ name, nameChar c = true
  extras_space : ∀ e ∈ extras, ∀ c ∈ e.1, isSpace c = true
  gap_space : ∀ c ∈ gap, isSpace c = true
  gap_space' : ∀ c ∈ gap', isSpace c = true
  first_digits : Digits first
  more_digits : ∀ p ∈ more, Digits p
  rest_ends : Ends rest

namespace Pin

variable (pin : Pin)

/-- The version as it is written. -/
def version : List Char := pin.first ++ pin.more.flatMap ('.' :: ·)

/-- Its components. -/
def release : List Nat :=
  (pin.first :: pin.more).map fun p => Nat.ofDigitChars 10 p 0

/-- The extras as they are written. -/
def extrasText : List Char :=
  match pin.extras with
  | none => []
  | some e => e.1 ++ '[' :: e.2 ++ [']']

/-- The line. -/
def text : List Char :=
  pin.lead ++ (pin.name ++ (pin.extrasText ++ (pin.gap ++
    '=' :: '=' :: (pin.gap' ++ (pin.version ++ pin.rest)))))

end Pin

-- ==== characters

section Characters

variable {c : Char} {l r : List Char} {p : Char → Bool}

theorem isDigit_toNat (h : c.isDigit = true) :
    48 ≤ c.toNat ∧ c.toNat ≤ 57 := by
  unfold Char.isDigit at h
  rw [Bool.and_eq_true, decide_eq_true_iff, decide_eq_true_iff] at h
  exact h

theorem nameChar_toNat (h : nameChar c = true) :
    45 ≤ c.toNat ∧ c.toNat ≤ 122 := by
  unfold nameChar Char.isAlphanum Char.isAlpha Char.isUpper Char.isLower at h
  simp only [Bool.or_eq_true, Bool.and_eq_true, decide_eq_true_eq] at h
  rcases h with ((((h | h) | h) | rfl) | rfl) | rfl
  · have h₁ : 65 ≤ c.toNat := h.1
    have h₂ : c.toNat ≤ 90 := h.2
    omega
  · have h₁ : 97 ≤ c.toNat := h.1
    have h₂ : c.toNat ≤ 122 := h.2
    omega
  · have := isDigit_toNat h
    omega
  · decide
  · decide
  · decide

theorem not_space (h₁ : 33 ≤ c.toNat) (h₂ : c.toNat ≤ 126) :
    isSpace c = false := by
  unfold isSpace
  simp only [Bool.or_eq_false_iff, Bool.and_eq_false_iff, decide_eq_false_iff_not]
  omega

theorem dropWhile_all (h : ∀ c ∈ l, p c = true)
    (hr : ∀ c s, r = c :: s → p c = false) : (l ++ r).dropWhile p = r := by
  rw [List.dropWhile_append_of_pos h]
  cases r with
  | nil => rfl
  | cons c s =>
    rw [List.dropWhile_cons_of_neg]
    rw [hr c s rfl]
    decide

theorem takeWhile_all (h : ∀ c ∈ l, p c = true)
    (hr : ∀ c s, r = c :: s → p c = false) : (l ++ r).takeWhile p = l := by
  rw [List.takeWhile_append_of_pos h]
  cases r with
  | nil => exact List.append_nil l
  | cons c s =>
    rw [List.takeWhile_cons_of_neg, List.append_nil]
    rw [hr c s rfl]
    decide

end Characters

-- ==== versions

section Versions

variable {c : Char} {s : List Char}

theorem takeVersion_cons (h : c ≠ '.') : takeVersion (c :: s) =
    if c.isDigit then c :: takeVersion s else [] := by
  rw [takeVersion]
  intro _ _ heq
  exact absurd heq h

theorem takeVersion_digit (h : c.isDigit = true) :
    takeVersion (c :: s) = c :: takeVersion s := by
  rw [takeVersion_cons, if_pos h]
  rintro rfl
  cases h

theorem takeVersion_digits {p : List Char} (h : ∀ c ∈ p, c.isDigit = true) :
    takeVersion (p ++ s) = p ++ takeVersion s := by
  induction p with
  | nil => rfl
  | cons c p ih =>
    rw [List.cons_append, takeVersion_digit (h c List.mem_cons_self),
      ih fun c hc => h c (List.mem_cons_of_mem _ hc), List.cons_append]

theorem takeVersion_rest (h : Ends s) : takeVersion s = [] := by
  cases s with
  | nil => rfl
  | cons c s =>
    have hc := h c s rfl
    have hdot : c ≠ '.' := by
      rintro rfl
      revert hc
      decide
    rw [takeVersion_cons hdot, if_neg]
    intro hdigit
    have hrange := isDigit_toNat hdigit
    rcases hc with hc | rfl | rfl
    · rw [not_space (by omega) (by omega)] at hc
      cases hc
    · cases hdigit
    · cases hdigit

theorem takeVersion_more {more : List (List Char)}
    (h : ∀ p ∈ more, Digits p) (hs : Ends s) :
    takeVersion (more.flatMap ('.' :: ·) ++ s) =
      more.flatMap ('.' :: ·) := by
  induction more with
  | nil => exact takeVersion_rest hs
  | cons p more ih =>
    obtain ⟨hsome, hdigits⟩ := h p List.mem_cons_self
    have hrest := ih fun p hp => h p (List.mem_cons_of_mem _ hp)
    rw [List.flatMap_cons, List.append_assoc]
    cases p with
    | nil => exact absurd rfl hsome
    | cons c p =>
      show takeVersion ('.' :: c :: (p ++ _)) = '.' :: c :: (p ++ _)
      rw [takeVersion, if_pos (hdigits c List.mem_cons_self),
        takeVersion_digits fun c hc =>
          hdigits c (List.mem_cons_of_mem _ hc), hrest]

theorem splitOn_version {first : List Char} {more : List (List Char)}
    (hfirst : Digits first) (hmore : ∀ p ∈ more, Digits p) :
    (first ++ more.flatMap ('.' :: ·)).splitOn '.' = first :: more := by
  have hdot : ∀ {p : List Char}, Digits p → '.' ∉ p := fun hp hmem => by
    cases hp.2 '.' hmem
  induction more generalizing first with
  | nil =>
    rw [List.flatMap_nil, List.append_nil,
      List.splitOn_eq_singleton (hdot hfirst)]
  | cons p more ih =>
    rw [List.flatMap_cons]
    show (first ++ '.' :: (p ++ _)).splitOn '.' = _
    rw [List.splitOn_append_cons_self,
      List.splitOn_eq_singleton (hdot hfirst),
      ih (hmore p List.mem_cons_self) fun p hp =>
        hmore p (List.mem_cons_of_mem _ hp)]
    rfl

theorem splitOn_pin (pin : Pin) :
    pin.version.splitOn '.' = pin.first :: pin.more ∧
      ∀ p ∈ pin.first :: pin.more, isdigit p = true := by
  refine ⟨splitOn_version pin.first_digits pin.more_digits, ?_⟩
  intro p hp
  have hdigits : Digits p := by
    rcases List.mem_cons.1 hp with rfl | hp
    · exact pin.first_digits
    · exact pin.more_digits p hp
  unfold isdigit
  rw [Bool.and_eq_true, decide_eq_true_iff, List.all_eq_true]
  exact hdigits

/-- A version without a number that is too long is parsed as its
components. -/
theorem parseVersion_pin (pin : Pin)
    (hshort : ∀ p ∈ pin.version.splitOn '.', isdigit p = true →
      p.length ≤ maxStrDigits) :
    parseVersion pin.version = .ok pin.release := by
  obtain ⟨hsplit, hdigits⟩ := splitOn_pin pin
  rw [hsplit] at hshort
  unfold parseVersion Pin.release
  rw [hsplit, List.filter_eq_self.2 hdigits, mapM_eq_ok,
    List.forall₂_map_right_iff, List.forall₂_same]
  intro p hp
  unfold int
  rw [if_neg (Nat.not_lt.2 (hshort p hp (hdigits p hp)))]

end Versions

-- ==== matching

section Matching

variable (pin : Pin)

theorem first_cons : ∃ c p, pin.first = c :: p ∧ c.isDigit = true ∧
    ∀ c ∈ p, c.isDigit = true := by
  obtain ⟨hsome, hdigits⟩ := pin.first_digits
  cases hfirst : pin.first with
  | nil => exact absurd hfirst hsome
  | cons c p =>
    rw [hfirst] at hdigits
    exact ⟨c, p, rfl, hdigits c List.mem_cons_self,
      fun c hc => hdigits c (List.mem_cons_of_mem _ hc)⟩

theorem space_stops {c : Char} {s r : List Char} (h : nameChar c = true)
    (hr : c :: s = r) : ∀ c s, r = c :: s → isSpace c = false := by
  intro c' s' heq
  rw [← hr] at heq
  obtain ⟨rfl, _⟩ := List.cons.inj heq
  have := nameChar_toNat h
  exact not_space (by omega) (by omega)

theorem nameChar_of_space {c : Char} (h : isSpace c = true) :
    nameChar c = false := by
  rw [Bool.eq_false_iff]
  intro hname
  have := nameChar_toNat hname
  rw [not_space (by omega) (by omega)] at h
  cases h

theorem name_stops {gap s : List Char} {c : Char}
    (hgap : ∀ c ∈ gap, isSpace c = true) (hc : nameChar c = false) :
    ∀ c' s', gap ++ c :: s = c' :: s' → nameChar c' = false := by
  intro c' s' heq
  cases gap with
  | nil =>
    obtain ⟨rfl, _⟩ := List.cons.inj heq
    exact hc
  | cons b gap =>
    obtain ⟨rfl, _⟩ := List.cons.inj heq
    exact nameChar_of_space (hgap _ List.mem_cons_self)

theorem after_name {tail : List Char}
    (htail : ∀ c s, tail = c :: s → nameChar c = false) :
    let s := (pin.lead ++ (pin.name ++ tail)).dropWhile isSpace
    s.takeWhile nameChar = pin.name ∧ s.dropWhile nameChar = tail := by
  have hlead : (pin.lead ++ (pin.name ++ tail)).dropWhile isSpace =
      pin.name ++ tail := by
    refine dropWhile_all pin.lead_space ?_
    have hchars := pin.name_chars
    cases hname : pin.name with
    | nil => exact absurd hname pin.name_some
    | cons c s =>
      rw [hname] at hchars
      exact space_stops (hchars c List.mem_cons_self) rfl
  dsimp only
  rw [hlead]
  exact ⟨takeWhile_all pin.name_chars htail,
    dropWhile_all pin.name_chars htail⟩

theorem reqLine_plain (h : pin.extras = none) :
    reqLine pin.text = some (pin.name, pin.version) := by
  obtain ⟨c, p, hfirst, hc, hp⟩ := first_cons pin
  have hversion : takeVersion (p ++ (pin.more.flatMap ('.' :: ·) ++
      pin.rest)) = p ++ pin.more.flatMap ('.' :: ·) := by
    rw [takeVersion_digits hp, takeVersion_more pin.more_digits pin.rest_ends]
  have htext : pin.text = pin.lead ++ (pin.name ++ (pin.gap ++
      '=' :: '=' :: (pin.gap' ++ c :: (p ++ (pin.more.flatMap ('.' :: ·) ++
        pin.rest))))) := by
    unfold Pin.text Pin.extrasText Pin.version
    rw [h, hfirst]
    simp only [List.nil_append, List.cons_append, List.append_assoc]
  obtain ⟨hname, hafter⟩ := after_name pin
    (name_stops pin.gap_space (s := '=' :: (pin.gap' ++ c :: (p ++
      (pin.more.flatMap ('.' :: ·) ++ pin.rest))))
        (show nameChar '=' = false by decide))
  have hgap : (pin.gap ++ '=' :: '=' :: (pin.gap' ++ c :: (p ++
      (pin.more.flatMap ('.' :: ·) ++ pin.rest)))).dropWhile isSpace =
        '=' :: '=' :: (pin.gap' ++ c :: (p ++
          (pin.more.flatMap ('.' :: ·) ++ pin.rest))) := by
    refine dropWhile_all pin.gap_space fun c' s' heq => ?_
    rw [← (List.cons.inj heq).1]
    decide
  have hgap' : (pin.gap' ++ c :: (p ++ (pin.more.flatMap ('.' :: ·) ++
      pin.rest))).dropWhile isSpace = c :: (p ++ (pin.more.flatMap
        ('.' :: ·) ++ pin.rest)) := by
    refine dropWhile_all pin.gap_space' fun c' s' heq => ?_
    rw [← (List.cons.inj heq).1]
    have := isDigit_toNat hc
    exact not_space (by omega) (by omega)
  unfold reqLine
  dsimp only at hname hafter ⊢
  rw [htext, hname, hafter, hgap]
  simp only [hgap']
  rw [if_pos ⟨pin.name_some, hc⟩, hversion]
  unfold Pin.version
  rw [hfirst]
  rfl

theorem reqLine_extras {e : List Char × List Char}
    (h : pin.extras = some e) : reqLine pin.text = none := by
  have hspace := pin.extras_space e (by rw [h]; rfl)
  have htext : ∃ s, pin.text =
      pin.lead ++ (pin.name ++ (e.1 ++ '[' :: s)) := by
    unfold Pin.text Pin.extrasText
    rw [h]
    simp only [List.cons_append, List.append_assoc]
    exact ⟨_, rfl⟩
  obtain ⟨s, htext⟩ := htext
  obtain ⟨hname, hafter⟩ := after_name pin
    (name_stops hspace (s := s) (show nameChar '[' = false by decide))
  have hgap : (e.1 ++ '[' :: s).dropWhile isSpace = '[' :: s := by
    refine dropWhile_all hspace fun c' s' heq => ?_
    rw [← (List.cons.inj heq).1]
    decide
  unfold reqLine
  dsimp only at hname hafter ⊢
  rw [htext, hname, hafter, hgap]
  rfl

end Matching

-- ==== judging

section Judging

variable (table : VulnerabilityTable)

theorem normalChar_lowerChar (c : Char) :
    normalChar (lowerChar c) = normalChar c := by
  unfold lowerChar
  split
  · next h =>
    have hrange : 65 ≤ c.toNat ∧ c.toNat ≤ 90 := h
    obtain ⟨n, hn⟩ : ∃ n : Fin 26, c = Char.ofNat (65 + n.val) := by
      refine ⟨⟨c.toNat - 65, by omega⟩, ?_⟩
      show c = Char.ofNat (65 + (c.toNat - 65))
      rw [Nat.add_sub_cancel' hrange.1, Char.ofNat_toNat]
    rw [hn]
    clear hn hrange h c
    revert n
    decide
  · rfl

theorem normalize_lower (name : List Char) :
    normalize (lower name) = normalize name := by
  unfold normalize lower
  rw [List.map_map]
  exact List.map_congr_left fun c _ => normalChar_lowerChar c

/-- A pin is vulnerable: the package is in the table under some spelling,
and the version is below the fixed one. -/
def Vulnerable (pin : Pin) : Prop :=
  ∃ e ∈ table.entries, normalize e.1.toList = normalize pin.name ∧
    PaddedLt pin.release e.2.vulnerableBelow

/-- A pin of a package of the table that is spelled as there and has no
extras does not leave out zeros of the fixed version, and another is not
below it. -/
def Judged (pin : Pin) : Prop :=
  ∀ e ∈ table.entries, normalize e.1.toList = normalize pin.name →
    if pin.extras = none ∧ lower pin.name = e.1.toList then
      ¬ (PaddedEq pin.release e.2.vulnerableBelow ∧
        pin.release.length < e.2.vulnerableBelow.length)
    else ¬ PaddedLt pin.release e.2.vulnerableBelow

variable {table} {pin : Pin} {e : String × Vulnerability}

theorem entry_unique {e' : String × Vulnerability} (he : e ∈ table.entries)
    (he' : e' ∈ table.entries)
    (h : normalize e.1.toList = normalize e'.1.toList) : e = e' :=
  List.inj_on_of_nodup_map table.distinct he he' h

theorem get_eq_some {name : List Char} {v : Vulnerability} :
    table.get name = some v ↔
      ∃ e ∈ table.entries, e.1.toList = name ∧ e.2 = v := by
  unfold VulnerabilityTable.get
  rw [Option.map_eq_some_iff]
  constructor
  · rintro ⟨e, hfind, rfl⟩
    have hname := List.find?_some hfind
    exact ⟨e, List.mem_of_find?_eq_some hfind, of_decide_eq_true hname, rfl⟩
  · rintro ⟨e, he, rfl, rfl⟩
    cases hfind : table.entries.find? fun e' => e'.1.toList = e.1.toList with
    | none =>
      have := List.find?_eq_none.1 hfind e he
      rw [decide_eq_true rfl] at this
      exact absurd rfl this
    | some e' =>
      have hname := List.find?_some hfind
      rw [entry_unique (List.mem_of_find?_eq_some hfind) he
        (congrArg normalize (of_decide_eq_true hname))]
      exact ⟨e, rfl, rfl⟩

theorem scanLine_pin {φ : Type} {relPath line : String} {number : Nat}
    (hline : line.toList = pin.text) (hread : LineRead table line) :
    (∃ f : SecurityFinding φ,
      scanLine table relPath (line, number) = .ok (some f)) ↔
        pin.extras = none ∧ ∃ e ∈ table.entries,
          lower pin.name = e.1.toList ∧ Data.Padded.lt pin.release
            e.2.vulnerableBelow = true := by
  unfold LineRead at hread
  rw [hline] at hread
  unfold scanLine
  rw [hline]
  cases hextras : pin.extras with
  | some e =>
    rw [reqLine_extras pin hextras]
    refine iff_of_false ?_ fun h => (by cases h.1)
    rintro ⟨f, h⟩
    cases h
  | none =>
    rw [reqLine_plain pin hextras]
    dsimp only
    cases hget : table.get (lower pin.name) with
    | none =>
      refine iff_of_false ?_ ?_
      · rintro ⟨f, h⟩
        cases h
      · rintro ⟨_, e, he, hname, _⟩
        rw [get_eq_some.2 ⟨e, he, hname.symm, rfl⟩] at hget
        cases hget
    | some v =>
      have hparse := parseVersion_pin pin
        (hread _ _ v (reqLine_plain pin hextras) hget)
      obtain ⟨e, he, hname, rfl⟩ := get_eq_some.1 hget
      dsimp only
      rw [hparse, Except.map]
      constructor
      · rintro ⟨f, h⟩
        replace h := Except.ok.inj h
        split at h
        · next hlt => exact ⟨rfl, e, he, hname.symm, hlt⟩
        · cases h
      · rintro ⟨_, e', he', hname', hlt⟩
        obtain rfl := entry_unique he he'
          (congrArg normalize (hname.trans hname'))
        rw [if_pos hlt]
        exact ⟨_, rfl⟩

/-- A pin's line that is read is judged right exactly when the pin is
such. -/
theorem scanLine_exact {φ : Type} {relPath line : String} {number : Nat}
    (hline : line.toList = pin.text) (hread : LineRead table line) :
    ((∃ f : SecurityFinding φ,
      scanLine table relPath (line, number) = .ok (some f)) ↔
        Vulnerable table pin) ↔ Judged table pin := by
  rw [scanLine_pin hline hread]
  by_cases hentry : ∃ e ∈ table.entries,
      normalize e.1.toList = normalize pin.name
  · obtain ⟨e, he, hnormal⟩ := hentry
    have hunique : ∀ e' ∈ table.entries,
        normalize e'.1.toList = normalize pin.name → e' = e :=
      fun e' he' h => entry_unique he' he (h.trans hnormal.symm)
    have hvulnerable : Vulnerable table pin ↔
        PaddedLt pin.release e.2.vulnerableBelow := by
      constructor
      · rintro ⟨e', he', h, hlt⟩
        rw [← hunique e' he' h]
        exact hlt
      · exact fun hlt => ⟨e, he, hnormal, hlt⟩
    have hjudged : Judged table pin ↔
        if pin.extras = none ∧ lower pin.name = e.1.toList then
          ¬ (PaddedEq pin.release e.2.vulnerableBelow ∧
            pin.release.length < e.2.vulnerableBelow.length)
        else ¬ PaddedLt pin.release e.2.vulnerableBelow := by
      constructor
      · exact fun h => h e he hnormal
      · intro h e' he' hn
        rw [hunique e' he' hn]
        exact h
    have hfound : (pin.extras = none ∧ ∃ e ∈ table.entries,
        lower pin.name = e.1.toList ∧ Data.Padded.lt pin.release
          e.2.vulnerableBelow = true) ↔
        (pin.extras = none ∧ lower pin.name = e.1.toList) ∧
          Data.Padded.lt pin.release e.2.vulnerableBelow = true := by
      constructor
      · rintro ⟨hextras, e', he', hname, hlt⟩
        have hn : normalize e'.1.toList = normalize pin.name := by
          rw [← hname, normalize_lower]
        rw [hunique e' he' hn] at hname hlt
        exact ⟨⟨hextras, hname⟩, hlt⟩
      · rintro ⟨⟨hextras, hname⟩, hlt⟩
        exact ⟨hextras, e, he, hname, hlt⟩
    rw [hfound, hvulnerable, hjudged]
    by_cases hspelled : pin.extras = none ∧ lower pin.name = e.1.toList
    · rw [if_pos hspelled, Data.Padded.lt_iff]
      constructor
      · rintro h ⟨heq, hshort⟩
        obtain ⟨i, _, hless⟩ := h.1 ⟨hspelled, Or.inr ⟨heq, hshort⟩⟩
        rw [heq i] at hless
        exact lt_irrefl _ hless
      · intro h
        constructor
        · rintro ⟨_, hlt | hshort⟩
          · exact hlt
          · exact absurd hshort h
        · exact fun hlt => ⟨hspelled, Or.inl hlt⟩
    · rw [if_neg hspelled]
      constructor
      · exact fun h hlt => hspelled (h.2 hlt).1
      · intro h
        exact iff_of_false (fun hfound => hspelled hfound.1) h
  · refine iff_of_true (iff_of_false ?_ ?_) ?_
    · rintro ⟨_, e, he, hname, _⟩
      exact hentry ⟨e, he, by rw [← hname, normalize_lower]⟩
    · rintro ⟨e, he, hnormal, _⟩
      exact hentry ⟨e, he, hnormal⟩
    · exact fun e he hnormal => absurd ⟨e, he, hnormal⟩ hentry

end Judging

-- ==== files

section Files

variable {φ : Type} {table : VulnerabilityTable}
variable {files : String → Option (Except ToolExn String)}
variable {paths : List String} {fs : List (SecurityFinding φ)}
variable {path text line : String} {number : Nat} {pin : Pin}

theorem scanLine_place {f : SecurityFinding φ}
    (h : scanLine table path (line, number) = .ok (some f)) :
    f.file = .str path ∧ f.line = .int (number + 1) := by
  unfold scanLine at h
  split at h
  · cases h
  · dsimp only at h
    split at h
    · cases h
    · next version _ _ _ _ =>
      cases hparse : parseVersion version with
      | error e =>
        rw [hparse] at h
        cases h
      | ok release =>
        rw [hparse, Except.map] at h
        replace h := Except.ok.inj h
        split at h
        · obtain rfl := Option.some.inj h
          exact ⟨rfl, rfl⟩
        · cases h

/-- There is a finding at a line of a file, counted from 0. -/
def FindingAt (fs : List (SecurityFinding φ)) (path : String)
    (number : Nat) : Prop :=
  ∃ f ∈ fs, f.file = .str path ∧ f.line = .int (number + 1)

theorem findingAt_iff (h : knownCveScan table files paths = .ok fs)
    (hpath : path ∈ paths) (hfile : files path = some (.ok text))
    (hline : (Index.splitLines text)[number]? = some line) :
    FindingAt fs path number ↔ ∃ f : SecurityFinding φ,
      scanLine table path (line, number) = .ok (some f) := by
  constructor
  · rintro ⟨f, hf, hwhere, hat⟩
    obtain ⟨path', _, text', hfile', number', line', hline', hscan⟩ :=
      (mem_knownCveScan h).1 hf
    obtain ⟨hwhere', hat'⟩ := scanLine_place hscan
    rw [hwhere] at hwhere'
    injection hwhere' with hwhere'
    rw [hat] at hat'
    injection hat' with hat'
    obtain rfl : number = number' := by omega
    rw [← hwhere', hfile] at hfile'
    obtain rfl := Except.ok.inj (Option.some.inj hfile')
    rw [hline] at hline'
    rw [Option.some.inj hline', hwhere']
    exact ⟨f, hscan⟩
  · rintro ⟨f, hscan⟩
    obtain ⟨hwhere, hat⟩ := scanLine_place hscan
    exact ⟨f, (mem_knownCveScan h).2
      ⟨path, hpath, text, hfile, number, line, hline, hscan⟩, hwhere, hat⟩

/-- The scan of some files ends with a finding at a line of one. -/
def FoundAt (φ : Type) (table : VulnerabilityTable)
    (files : String → Option (Except ToolExn String)) (paths : List String)
    (path : String) (number : Nat) : Prop :=
  ∃ fs : List (SecurityFinding φ),
    knownCveScan table files paths = .ok fs ∧ FindingAt fs path number

/-- A line that pins a package has a finding exactly when the pin is
vulnerable, exactly where the files are read and the pin is judged right,
or they are not and the pin is not vulnerable. -/
theorem scan_exact_iff (hpath : path ∈ paths)
    (hfile : files path = some (.ok text))
    (hline : (Index.splitLines text)[number]? = some line)
    (hpin : line.toList = pin.text) :
    (FoundAt φ table files paths path number ↔ Vulnerable table pin) ↔
      (FilesRead table files paths → Judged table pin) ∧
        (¬ FilesRead table files paths → ¬ Vulnerable table pin) := by
  by_cases hread : FilesRead table files paths
  · obtain ⟨fs, h⟩ := (knownCveScan_ok (φ := φ) table files paths).2 hread
    have hfound : FoundAt φ table files paths path number ↔
        FindingAt fs path number := by
      constructor
      · rintro ⟨fs', h', hat⟩
        rw [h] at h'
        rw [Except.ok.inj h']
        exact hat
      · intro hat
        exact ⟨fs, h, hat⟩
    obtain ⟨text', htext, hlines⟩ := hread path hpath _ hfile
    obtain rfl := Except.ok.inj htext
    have hexact : ((∃ f : SecurityFinding φ,
        scanLine table path (line, number) = .ok (some f)) ↔
          Vulnerable table pin) ↔ Judged table pin :=
      scanLine_exact hpin (hlines line (List.mem_of_getElem? hline))
    rw [hfound, findingAt_iff h hpath hfile hline, hexact]
    simp [hread]
  · have hlost : ¬ FoundAt φ table files paths path number := by
      rintro ⟨fs, h, _⟩
      exact hread ((knownCveScan_ok (φ := φ) table files paths).1 ⟨fs, h⟩)
    simp [hread, hlost]

end Files

namespace Sample

/-- A pin with nothing but a name and a version. -/
def pin (name : List Char) (hsome : name ≠ [])
    (hchars : ∀ c ∈ name, nameChar c = true) : Pin where
  lead := []
  name := name
  extras := none
  gap := []
  gap' := []
  first := ['1']
  more := []
  rest := []
  lead_space := fun c h => by cases h
  name_some := hsome
  name_chars := hchars
  extras_space := fun e h => by cases h
  gap_space := fun c h => by cases h
  gap_space' := fun c h => by cases h
  first_digits := ⟨List.cons_ne_nil _ _, List.all_eq_true.1 rfl⟩
  more_digits := fun p h => by cases h
  rest_ends := fun c s h => by cases h

/-- "pyyaml==1", as the table spells it. -/
def plain : Pin :=
  pin ['p', 'y', 'y', 'a', 'm', 'l'] (List.cons_ne_nil _ _)
    (List.all_eq_true.1 rfl)

/-- "insecure_badpkg==1", which the table spells with "-". -/
def spelled : Pin :=
  pin ['i', 'n', 's', 'e', 'c', 'u', 'r', 'e', '_', 'b', 'a', 'd', 'p', 'k',
    'g'] (List.cons_ne_nil _ _) (List.all_eq_true.1 rfl)

/-- One file, of a line. -/
def files (line : String) : String → Option (Except ToolExn String) :=
  fun _ => some (.ok line)

end Sample

theorem Sample.files_read {line : String}
    (h : ∀ l ∈ Index.splitLines line, LineRead knownVulnerablePackages l) :
    FilesRead knownVulnerablePackages (Sample.files line)
      ["requirements.txt"] := by
  intro path _ read hread
  obtain rfl := Option.some.inj hread
  exact ⟨line, rfl, h⟩

/-- A package below its fixed version, as the table spells it. -/
theorem scan_exact_plain :
    FoundAt Unit knownVulnerablePackages (Sample.files "pyyaml==1")
        ["requirements.txt"] "requirements.txt" 0 ↔
      Vulnerable knownVulnerablePackages Sample.plain := by
  have hline : (Index.splitLines "pyyaml==1")[0]? = some "pyyaml==1" := by
    decide +kernel
  have hfile : Sample.files "pyyaml==1" "requirements.txt" =
      some (.ok "pyyaml==1") := rfl
  refine (scan_exact_iff List.mem_cons_self hfile hline ?_).2 ⟨?_, ?_⟩
  · decide +kernel
  · intro _ e he hnormal
    rcases List.mem_cons.1 he with rfl | he
    · exact absurd hnormal (by decide +kernel)
    · obtain rfl := List.mem_singleton.1 he
      rw [if_pos (by decide +kernel)]
      rintro ⟨heq, _⟩
      have hzero := heq 0
      revert hzero
      decide +kernel
  · intro hunread
    refine absurd (Sample.files_read ?_) hunread
    intro l hl name version entry hreq _
    have hlines : Index.splitLines "pyyaml==1" = ["pyyaml==1"] := by
      decide +kernel
    rw [hlines, List.mem_singleton] at hl
    rw [hl, show reqLine "pyyaml==1".toList =
      some ("pyyaml".toList, ['1']) by decide +kernel] at hreq
    obtain ⟨_, rfl⟩ := Prod.mk.inj (Option.some.inj hreq)
    decide +kernel

/-- Another spelling is missed. -/
theorem spelling_missed :
    ¬ (FoundAt Unit knownVulnerablePackages
        (Sample.files "insecure_badpkg==1") ["requirements.txt"]
        "requirements.txt" 0 ↔
      Vulnerable knownVulnerablePackages Sample.spelled) := by
  intro hexact
  have hlost : ¬ FoundAt Unit knownVulnerablePackages
      (Sample.files "insecure_badpkg==1") ["requirements.txt"]
      "requirements.txt" 0 := by
    rintro ⟨fs, hscan, f, hf, _⟩
    have hempty : fs = [] := Except.ok.inj (hscan.symm.trans rfl)
    rw [hempty] at hf
    cases hf
  apply hlost
  rw [hexact]
  exact ⟨_, List.mem_cons_self, by decide +kernel, 0,
    fun j hj => absurd hj (Nat.not_lt_zero j), by decide +kernel⟩

end SdlcOs.Verification.SecurityScan
