/-
What a tool that did not complete its analysis is taken for.

# What is promised

A scan by a tool that ended with anything but 0 or 1, or printed nothing,
or not the JSON it is asked for, or a fatal error with no line, blocks
(`NeverClean`).

# Where it is kept

The layers look at what was printed and at nothing else, and take what
they cannot find there for nothing to be found. So a broken tool blocks
where its output can be read all the same and names a finding, or where
another tool's does (`Loud`), and nowhere else (`never_clean_iff`).
-/
import SdlcOs.Data.Traverse
import SdlcOs.Verification.StaticAnalysis

namespace SdlcOs.Verification

open Data (mapM_eq_ok exists_mapM exists_of_forall₂ mem_mapM)
open Json (Json)
open Gates (strip)
open SecurityScan StaticAnalysis

variable {φ : Type} {loads : Loads φ}

theorem getOr_obj {members : List (String × Json φ)} {key : String}
    {default : Json φ} : getOr (.obj members) key default =
      .ok ((member key members).getD default) := rfl

-- ==== bandit

section Bandit

variable {proc : Completed} {stdout : String} {items : List (Json φ)}
variable {members : List (String × Json φ)} {threshold : Severity}

/-- There is no report to read. -/
def Silent (loads : Loads φ) (stdout : String) : Prop :=
  strip stdout = "" ∨ loads stdout = .error .jsonDecodeError

/-- What bandit's report lists. -/
def BanditLists (loads : Loads φ) (stdout : String) (items : List (Json φ)) :
    Prop :=
  strip stdout ≠ "" ∧ ∃ members, loads stdout = .ok (.obj members) ∧
    iterate ((member "results" members).getD (.arr [])) = .ok items

/-- The severity of a result. -/
def resultSeverity (members : List (String × Json φ)) :
    Except ToolExn Severity :=
  banditSeverity ((member "issue_severity" members).getD (.str "LOW"))

/-- bandit's output can be read: there is no report, or each of its
results is an object with a severity. -/
def BanditReads (loads : Loads φ) (stdout : String) : Prop :=
  Silent loads stdout ∨ ∃ items, BanditLists loads stdout items ∧
    ∀ item ∈ items, ∃ members severity, item = .obj members ∧
      resultSeverity members = .ok severity

/-- And names a finding of a severity that blocks. -/
def BanditNames (loads : Loads φ) (stdout : String) (threshold : Severity) :
    Prop :=
  ∃ items members severity, BanditLists loads stdout items ∧
    .obj members ∈ items ∧ resultSeverity members = .ok severity ∧
      threshold.rank ≤ severity.rank

theorem banditFinding_ok {item : Json φ} {f : SecurityFinding φ} :
    banditFinding item = .ok f →
      ∃ members, item = .obj members ∧
        resultSeverity members = .ok f.severity := by
  intro h
  cases item with
  | obj members =>
    refine ⟨members, rfl, ?_⟩
    change (resultSeverity members).bind _ = .ok f at h
    cases hseverity : resultSeverity members with
    | error e =>
      rw [hseverity] at h
      cases h
    | ok severity =>
      rw [hseverity] at h
      obtain rfl := Except.ok.inj h
      rfl
  | null => cases h
  | bool b => cases h
  | int n => cases h
  | float x => cases h
  | str s => cases h
  | arr items => cases h

theorem banditFinding_obj {severity : Severity}
    (h : resultSeverity members = .ok severity) :
    ∃ f, banditFinding (.obj members) = .ok f ∧ f.severity = severity := by
  have hrun : banditFinding (.obj members) =
      (resultSeverity members).bind fun severity => .ok
        ⟨"bandit", .sast, (member "filename" members).getD (.str "?"),
          (member "line_number" members).getD .null,
          (member "test_id" members).getD (.str "?"),
          (member "issue_text" members).getD (.str ""), severity⟩ := rfl
  rw [hrun, h]
  exact ⟨_, rfl, rfl⟩

/-- The reports that are silent or listed are the ones that do not raise
on the way. -/
theorem banditScan_silent (h : Silent loads proc.stdout) :
    banditScan loads proc = .ok [] := by
  unfold banditScan
  by_cases hempty : strip proc.stdout = ""
  · rw [if_pos hempty]
  · rw [if_neg hempty, h.resolve_left hempty]

theorem banditScan_lists (h : BanditLists loads proc.stdout items) :
    banditScan loads proc = items.mapM banditFinding := by
  obtain ⟨hsome, members, hloads, hitems⟩ := h
  unfold banditScan
  rw [if_neg hsome, hloads]
  show banditFindings (.obj members) = _
  unfold banditFindings
  rw [getOr_obj]
  show (iterate _).bind _ = _
  rw [hitems]
  rfl

theorem banditScan_inv {fs : List (SecurityFinding φ)}
    (h : banditScan loads proc = .ok fs) : Silent loads proc.stdout ∨
      ∃ items, BanditLists loads proc.stdout items := by
  unfold banditScan at h
  by_cases hempty : strip proc.stdout = ""
  · exact Or.inl (Or.inl hempty)
  · rw [if_neg hempty] at h
    cases hloads : loads proc.stdout with
    | error e =>
      rw [hloads] at h
      cases e with
      | jsonDecodeError => exact Or.inl (Or.inr hloads)
      | attributeError => cases h
      | typeError => cases h
      | valueError => cases h
      | unreadable => cases h
    | ok raw =>
      rw [hloads] at h
      change banditFindings raw = _ at h
      unfold banditFindings at h
      cases raw with
      | obj members =>
        rw [getOr_obj] at h
        change (iterate _).bind _ = _ at h
        cases hitems : iterate ((member "results" members).getD
            (.arr [])) with
        | error e =>
          rw [hitems] at h
          cases h
        | ok items =>
          exact Or.inr ⟨items, hempty, members, hloads, hitems⟩
      | null => cases h
      | bool b => cases h
      | int n => cases h
      | float x => cases h
      | str s => cases h
      | arr items => cases h

theorem banditLists_unique {items' : List (Json φ)}
    (h : BanditLists loads stdout items)
    (h' : BanditLists loads stdout items') : items = items' := by
  obtain ⟨_, members, hloads, hitems⟩ := h
  obtain ⟨_, members', hloads', hitems'⟩ := h'
  rw [hloads] at hloads'
  injection hloads' with hloads'
  injection hloads' with hloads'
  rw [hloads', hitems'] at hitems
  exact (Except.ok.inj hitems).symm

theorem not_lists_of_silent (h : Silent loads stdout) :
    ¬ BanditLists loads stdout items := by
  rintro ⟨hsome, members, hloads, _⟩
  rcases h with h | h
  · exact hsome h
  · rw [h] at hloads
    cases hloads

theorem banditScan_spec (loads : Loads φ) (proc : Completed)
    (threshold : Severity) :
    ((∃ fs, banditScan loads proc = .ok fs) ↔
      BanditReads loads proc.stdout) ∧
    ∀ fs, banditScan loads proc = .ok fs →
      ((∃ f ∈ fs, threshold.rank ≤ f.severity.rank) ↔
        BanditNames loads proc.stdout threshold) := by
  constructor
  · constructor
    · rintro ⟨fs, h⟩
      rcases banditScan_inv h with hsilent | ⟨items, hlists⟩
      · exact Or.inl hsilent
      · rw [banditScan_lists hlists] at h
        refine Or.inr ⟨items, hlists, fun item hitem => ?_⟩
        obtain ⟨f, hf⟩ := exists_mapM.1 ⟨fs, h⟩ item hitem
        obtain ⟨members, hobj, hseverity⟩ := banditFinding_ok hf
        exact ⟨members, f.severity, hobj, hseverity⟩
    · rintro (hsilent | ⟨items, hlists, hall⟩)
      · exact ⟨[], banditScan_silent hsilent⟩
      · rw [banditScan_lists hlists, exists_mapM]
        intro item hitem
        obtain ⟨members, severity, rfl, hseverity⟩ := hall item hitem
        obtain ⟨f, hf, _⟩ := banditFinding_obj hseverity
        exact ⟨f, hf⟩
  · intro fs h
    rcases banditScan_inv h with hsilent | ⟨items, hlists⟩
    · rw [banditScan_silent hsilent] at h
      obtain rfl := Except.ok.inj h
      refine iff_of_false ?_ ?_
      · rintro ⟨f, hf, _⟩
        cases hf
      · rintro ⟨items, _, _, hlists, _⟩
        exact not_lists_of_silent hsilent hlists
    · rw [banditScan_lists hlists] at h
      rw [mem_mapM h]
      constructor
      · rintro ⟨item, hitem, f, hf, hrank⟩
        obtain ⟨members, rfl, hseverity⟩ := banditFinding_ok hf
        exact ⟨items, members, f.severity, hlists, hitem, hseverity, hrank⟩
      · rintro ⟨items', members, severity, hlists', hitem, hseverity, hrank⟩
        obtain rfl := banditLists_unique hlists hlists'
        obtain ⟨f, hf, rfl⟩ := banditFinding_obj hseverity
        exact ⟨_, hitem, f, hf, hrank⟩

end Bandit

-- ==== requirements

section Requirements

variable {table : VulnerabilityTable} {threshold : Severity}
variable {files : String → Option (Except ToolExn String)}

/-- A line pins a package to a version the table has as vulnerable, with a
severity that blocks. -/
def LinePinned (table : VulnerabilityTable) (threshold : Severity)
    (line : String) : Prop :=
  ∃ name version entry release,
    reqLine line.toList = some (name, version) ∧
    table.get (lower name) = some entry ∧
    parseVersion version = .ok release ∧
    Data.Padded.lt release entry.vulnerableBelow = true ∧
    threshold.rank ≤ entry.severity.rank

/-- And so does a line of one of the files. -/
def Pinned (table : VulnerabilityTable)
    (files : String → Option (Except ToolExn String)) (paths : List String)
    (threshold : Severity) : Prop :=
  ∃ path ∈ paths, ∃ text, files path = some (.ok text) ∧
    ∃ line ∈ Index.splitLines text, LinePinned table threshold line

/-- A line that pins a package of the table has no number in its version
that is too long for `int`. -/
def LineRead (table : VulnerabilityTable) (line : String) : Prop :=
  ∀ name version entry, reqLine line.toList = some (name, version) →
    table.get (lower name) = some entry →
    ∀ p ∈ version.splitOn '.', isdigit p = true → p.length ≤ maxStrDigits

/-- Each of the files that is one can be read, to its last version. -/
def FilesRead (table : VulnerabilityTable)
    (files : String → Option (Except ToolExn String))
    (paths : List String) : Prop :=
  ∀ path ∈ paths, ∀ read, files path = some read →
    ∃ text, read = .ok text ∧
      ∀ line ∈ Index.splitLines text, LineRead table line

theorem parseVersion_ok {version : List Char} :
    (∃ release, parseVersion version = .ok release) ↔
      ∀ p ∈ version.splitOn '.', isdigit p = true →
        p.length ≤ maxStrDigits := by
  have hint : ∀ p, (∃ n, int p = .ok n) ↔ p.length ≤ maxStrDigits := by
    intro p
    unfold int
    split
    · next hlong =>
      refine iff_of_false ?_ (by omega)
      rintro ⟨n, h⟩
      cases h
    · next hshort => exact iff_of_true ⟨_, rfl⟩ (by omega)
  unfold parseVersion
  rw [exists_mapM]
  simp only [List.mem_filter, hint, and_imp]

theorem scanLine_ok {relPath line : String} {number : Nat} :
    (∃ found : Option (SecurityFinding φ),
      scanLine table relPath (line, number) = .ok found) ↔
        LineRead table line := by
  unfold scanLine LineRead
  dsimp only
  cases hreq : reqLine line.toList with
  | none =>
    refine iff_of_true ⟨none, rfl⟩ ?_
    intro name version entry h
    cases h
  | some pin =>
    obtain ⟨name, version⟩ := pin
    dsimp only
    cases hget : table.get (lower name) with
    | none =>
      refine iff_of_true ⟨none, rfl⟩ ?_
      intro name' version' entry h hget'
      obtain ⟨rfl, rfl⟩ := Prod.mk.inj (Option.some.inj h)
      rw [hget] at hget'
      cases hget'
    | some entry =>
      dsimp only
      constructor
      · rintro ⟨found, h⟩ name' version' entry' hreq' hget'
        obtain ⟨rfl, rfl⟩ := Prod.mk.inj (Option.some.inj hreq')
        apply parseVersion_ok.1
        cases hparse : parseVersion version with
        | error e =>
          rw [hparse] at h
          cases h
        | ok release => exact ⟨release, rfl⟩
      · intro h
        obtain ⟨release, hparse⟩ :=
          parseVersion_ok.2 (h name version entry rfl hget)
        rw [hparse]
        exact ⟨_, rfl⟩

theorem scanLine_blocks {relPath line : String} {number : Nat} :
    (∃ f : SecurityFinding φ, scanLine table relPath (line, number) =
      .ok (some f) ∧ threshold.rank ≤ f.severity.rank) ↔
        LinePinned table threshold line := by
  unfold scanLine LinePinned
  dsimp only
  cases hreq : reqLine line.toList with
  | none =>
    refine iff_of_false ?_ ?_
    · rintro ⟨f, h, _⟩
      cases h
    · rintro ⟨name, version, entry, release, h, _⟩
      cases h
  | some pin =>
    obtain ⟨name, version⟩ := pin
    dsimp only
    cases hget : table.get (lower name) with
    | none =>
      refine iff_of_false ?_ ?_
      · rintro ⟨f, h, _⟩
        cases h
      · rintro ⟨name', version', entry, release, h, hget', _⟩
        obtain ⟨rfl, rfl⟩ := Prod.mk.inj (Option.some.inj h)
        rw [hget] at hget'
        cases hget'
    | some entry =>
      dsimp only
      constructor
      · rintro ⟨f, h, hrank⟩
        cases hparse : parseVersion version with
        | error e =>
          rw [hparse] at h
          cases h
        | ok release =>
          rw [hparse] at h
          replace h := Except.ok.inj h
          dsimp only at h
          split at h
          · next hlt =>
            obtain rfl := Option.some.inj h
            exact ⟨name, version, entry, release, rfl, hget, hparse,
              hlt, hrank⟩
          · cases h
      · rintro ⟨name', version', entry', release, h, hget', hparse,
          hlt, hrank⟩
        obtain ⟨rfl, rfl⟩ := Prod.mk.inj (Option.some.inj h)
        rw [hget] at hget'
        obtain rfl := Option.some.inj hget'
        rw [hparse, Except.map, if_pos hlt]
        exact ⟨_, rfl, hrank⟩

theorem scanText_ok {relPath text : String} :
    (∃ found, scanText (φ := φ) table relPath text = .ok found) ↔
      ∀ line ∈ Index.splitLines text, LineRead table line := by
  have hmap : (∃ found, scanText (φ := φ) table relPath text = .ok found) ↔
      ∃ found, (Index.splitLines text).zipIdx.mapM
        (scanLine (φ := φ) table relPath) = .ok found := by
    unfold scanText
    cases (Index.splitLines text).zipIdx.mapM
        (scanLine (φ := φ) table relPath) with
    | error e =>
      refine iff_of_false ?_ ?_
      · rintro ⟨found, h⟩
        cases h
      · rintro ⟨found, h⟩
        cases h
    | ok found => exact iff_of_true ⟨_, rfl⟩ ⟨found, rfl⟩
  rw [hmap, exists_mapM]
  constructor
  · intro h line hline
    obtain ⟨number, hnumber⟩ := List.getElem?_of_mem hline
    exact scanLine_ok.1
      (h (line, number) (List.mem_zipIdx_iff_getElem?.2 hnumber))
  · rintro h ⟨line, number⟩ hline
    rw [List.mem_zipIdx_iff_getElem?] at hline
    exact scanLine_ok.2 (h line (List.mem_of_getElem? hline))

theorem mem_scanText {relPath text : String}
    {found : List (SecurityFinding φ)}
    (h : scanText table relPath text = .ok found) {f : SecurityFinding φ} :
    f ∈ found ↔ ∃ number line,
      (Index.splitLines text)[number]? = some line ∧
        scanLine table relPath (line, number) = .ok (some f) := by
  unfold scanText at h
  cases hlines : (Index.splitLines text).zipIdx.mapM
      (scanLine (φ := φ) table relPath) with
  | error e =>
    rw [hlines] at h
    cases h
  | ok all =>
    rw [hlines] at h
    obtain rfl := Except.ok.inj h
    have hmem := mem_mapM hlines (P := (· = some f))
    simp only [exists_eq_right] at hmem
    rw [List.reduceOption_mem_iff, hmem]
    constructor
    · rintro ⟨⟨line, number⟩, hline, hscan⟩
      exact ⟨number, line, List.mem_zipIdx_iff_getElem?.1 hline, hscan⟩
    · rintro ⟨number, line, hline, hscan⟩
      exact ⟨(line, number), List.mem_zipIdx_iff_getElem?.2 hline, hscan⟩

/-- The scan of a file that is one is that of its text and then of the
others. -/
theorem knownCveScan_cons {path : String} {paths : List String}
    {read : Except ToolExn String} {fs : List (SecurityFinding φ)}
    (hfile : files path = some read) :
    knownCveScan table files (path :: paths) = .ok fs ↔
      ∃ text found rest, read = .ok text ∧
        scanText table path text = .ok found ∧
        knownCveScan table files paths = .ok rest ∧ found ++ rest = fs := by
  rw [knownCveScan, hfile]
  cases read with
  | error e =>
    refine iff_of_false (fun h => (by cases h)) ?_
    rintro ⟨text, found, rest, h, _⟩
    cases h
  | ok text =>
    show (scanText table path text).bind _ = _ ↔ _
    cases hfound : scanText (φ := φ) table path text with
    | error e =>
      refine iff_of_false (fun h => (by cases h)) ?_
      rintro ⟨text', found, rest, h, hfound', _⟩
      obtain rfl := Except.ok.inj h
      rw [hfound] at hfound'
      cases hfound'
    | ok found =>
      show (knownCveScan table files paths).map _ = _ ↔ _
      cases hrest : knownCveScan (φ := φ) table files paths with
      | error e =>
        refine iff_of_false (fun h => (by cases h)) ?_
        rintro ⟨text', found', rest, _, _, h, _⟩
        cases h
      | ok rest =>
        constructor
        · intro h
          exact ⟨text, found, rest, rfl, hfound, rfl, Except.ok.inj h⟩
        · rintro ⟨text', found', rest', h, hfound', hrest', rfl⟩
          obtain rfl := Except.ok.inj h
          rw [hfound] at hfound'
          rw [← Except.ok.inj hfound', ← Except.ok.inj hrest']
          rfl

theorem knownCveScan_ok (table : VulnerabilityTable)
    (files : String → Option (Except ToolExn String)) (paths : List String) :
    (∃ fs, knownCveScan (φ := φ) table files paths = .ok fs) ↔
      FilesRead table files paths := by
  induction paths with
  | nil =>
    refine iff_of_true ⟨[], rfl⟩ ?_
    intro path h
    cases h
  | cons path paths ih =>
    have hread : FilesRead table files (path :: paths) ↔
        (∀ read, files path = some read → ∃ text, read = .ok text ∧
          ∀ line ∈ Index.splitLines text, LineRead table line) ∧
        FilesRead table files paths := List.forall_mem_cons
    rw [hread, ← ih]
    cases hfile : files path with
    | none =>
      rw [knownCveScan, hfile]
      constructor
      · intro h
        exact ⟨fun read hread => (by cases hread), h⟩
      · exact And.right
    | some read =>
      simp only [knownCveScan_cons hfile]
      constructor
      · rintro ⟨fs, text, found, rest, rfl, hfound, hrest, _⟩
        refine ⟨?_, rest, hrest⟩
        intro read hread
        obtain rfl := Option.some.inj hread
        exact ⟨text, rfl, scanText_ok.1 ⟨found, hfound⟩⟩
      · rintro ⟨hfirst, rest, hrest⟩
        obtain ⟨text, rfl, hlines⟩ := hfirst read rfl
        obtain ⟨found, hfound⟩ := scanText_ok.2 hlines
        exact ⟨_, text, found, rest, rfl, hfound, hrest, rfl⟩

theorem mem_knownCveScan {paths : List String}
    {fs : List (SecurityFinding φ)}
    (h : knownCveScan table files paths = .ok fs) {f : SecurityFinding φ} :
    f ∈ fs ↔ ∃ path ∈ paths, ∃ text, files path = some (.ok text) ∧
      ∃ number line, (Index.splitLines text)[number]? = some line ∧
        scanLine table path (line, number) = .ok (some f) := by
  induction paths generalizing fs with
  | nil =>
    obtain rfl := Except.ok.inj h
    refine iff_of_false List.not_mem_nil ?_
    rintro ⟨path, hpath, _⟩
    cases hpath
  | cons path paths ih =>
    have hcons : ∀ P : String → Prop, (∃ p ∈ path :: paths, P p) ↔
        P path ∨ ∃ p ∈ paths, P p := by
      intro P
      simp only [List.mem_cons, or_and_right, exists_or, exists_eq_left]
    rw [hcons]
    cases hfile : files path with
    | none =>
      rw [knownCveScan, hfile] at h
      rw [ih h]
      refine ⟨Or.inr, fun h => h.resolve_left ?_⟩
      rintro ⟨text, h, _⟩
      cases h
    | some read =>
      rw [knownCveScan_cons hfile] at h
      obtain ⟨text, found, rest, rfl, hfound, hrest, rfl⟩ := h
      rw [List.mem_append, mem_scanText hfound, ih hrest]
      refine or_congr ?_ Iff.rfl
      constructor
      · intro h
        exact ⟨text, rfl, h⟩
      · rintro ⟨text', htext, h⟩
        obtain rfl := Except.ok.inj (Option.some.inj htext)
        exact h

theorem knownCveScan_blocks {paths : List String}
    {fs : List (SecurityFinding φ)}
    (h : knownCveScan table files paths = .ok fs) :
    (∃ f ∈ fs, threshold.rank ≤ f.severity.rank) ↔
      Pinned table files paths threshold := by
  constructor
  · rintro ⟨f, hf, hrank⟩
    obtain ⟨path, hpath, text, hfile, number, line, hline, hscan⟩ :=
      (mem_knownCveScan h).1 hf
    exact ⟨path, hpath, text, hfile, line, List.mem_of_getElem? hline,
      scanLine_blocks.1 ⟨f, hscan, hrank⟩⟩
  · rintro ⟨path, hpath, text, hfile, line, hline, hpinned⟩
    obtain ⟨number, hnumber⟩ := List.getElem?_of_mem hline
    obtain ⟨f, hscan, hrank⟩ : ∃ f : SecurityFinding φ,
        scanLine table path (line, number) = .ok (some f) ∧
          threshold.rank ≤ f.severity.rank := scanLine_blocks.2 hpinned
    exact ⟨f, (mem_knownCveScan h).2
      ⟨path, hpath, text, hfile, number, line, hnumber, hscan⟩, hrank⟩

end Requirements

-- ==== security

section Security

variable {table : VulnerabilityTable} {threshold : Severity}
variable {files : String → Option (Except ToolExn String)}
variable {bandit : List String → Completed}
variable {codePaths dependencyFiles : List String}

/-- The scanners the layer has when it is given none. -/
def defaultScanners (loads : Loads φ) (table : VulnerabilityTable)
    (bandit : List String → Completed)
    (files : String → Option (Except ToolExn String)) :
    List (SecurityScanner φ) :=
  [banditSASTScanner loads bandit, knownCVEPatternDependencyScanner table files]

theorem judged_blocks {fs : List (SecurityFinding φ)} :
    (SecurityScan.judged threshold fs).blocksHumanReview = true ↔
      ∃ f ∈ fs, threshold.rank ≤ f.severity.rank := by
  unfold SecurityScan.judged
  dsimp only
  have hnil : (fs.filter fun f => threshold.rank ≤ f.severity.rank) ≠ [] ↔
      ∃ f ∈ fs, threshold.rank ≤ f.severity.rank := by
    constructor
    · intro h
      obtain ⟨f, hf⟩ := List.exists_mem_of_ne_nil _ h
      obtain ⟨hmem, hrank⟩ := List.mem_filter.1 hf
      exact ⟨f, hmem, of_decide_eq_true hrank⟩
    · rintro ⟨f, hmem, hrank⟩
      exact List.ne_nil_of_mem
        (List.mem_filter.2 ⟨hmem, decide_eq_true hrank⟩)
  rw [← hnil]
  split
  · next h => exact iff_of_true rfl h
  · next h =>
    refine iff_of_false ?_ h
    split
    · exact fun h => Bool.noConfusion h
    · exact fun h => Bool.noConfusion h

/-- With something to scan, the layer reads bandit's output and then the
files. -/
theorem scanAll_default (hcode : codePaths ≠ []) :
    scanAll codePaths dependencyFiles
        (defaultScanners loads table bandit files) =
      (banditScan loads (bandit codePaths)).bind fun findings =>
        (knownCveScan table files dependencyFiles).map fun more =>
          findings ++ more := by
  have hrest : scanAll codePaths dependencyFiles
      [knownCVEPatternDependencyScanner (φ := φ) table files] =
        knownCveScan table files dependencyFiles := by
    have hstep : scanAll codePaths dependencyFiles
        [knownCVEPatternDependencyScanner (φ := φ) table files] =
          if dependencyFiles = [] then .ok []
          else (knownCveScan table files dependencyFiles).bind fun findings =>
            .ok (findings ++ []) := rfl
    rw [hstep]
    by_cases hdeps : dependencyFiles = []
    · rw [if_pos hdeps, hdeps]
      rfl
    · rw [if_neg hdeps]
      cases knownCveScan (φ := φ) table files dependencyFiles with
      | error e => rfl
      | ok fs =>
        show Except.ok (fs ++ []) = _
        rw [List.append_nil]
  have hstep : scanAll codePaths dependencyFiles
      (defaultScanners loads table bandit files) =
        if codePaths = [] then scanAll codePaths dependencyFiles
          [knownCVEPatternDependencyScanner (φ := φ) table files]
        else (banditScan loads (bandit codePaths)).bind fun findings =>
          (scanAll codePaths dependencyFiles
            [knownCVEPatternDependencyScanner (φ := φ) table files]).map
              fun more => findings ++ more := rfl
  rw [hstep, if_neg hcode, hrest]

theorem security_blocks (hcode : codePaths ≠ []) :
    (∃ result, runSecurityScanLayer
        (defaultScanners loads table bandit files) codePaths dependencyFiles
          threshold = .ok result ∧ result.blocksHumanReview = true) ↔
      BanditReads loads (bandit codePaths).stdout ∧
        FilesRead table files dependencyFiles ∧
        (BanditNames loads (bandit codePaths).stdout threshold ∨
          Pinned table files dependencyFiles threshold) := by
  obtain ⟨hbandit, hnames⟩ :=
    banditScan_spec loads (bandit codePaths) threshold
  have hfiles := knownCveScan_ok (φ := φ) table files dependencyFiles
  unfold runSecurityScanLayer
  rw [scanAll_default hcode, ← hbandit, ← hfiles]
  cases hfirst : banditScan loads (bandit codePaths) with
  | error e =>
    refine iff_of_false ?_ ?_
    · rintro ⟨result, h, _⟩
      cases h
    · rintro ⟨⟨fs, h⟩, _⟩
      cases h
  | ok first =>
    cases hsecond : knownCveScan (φ := φ) table files dependencyFiles with
    | error e =>
      refine iff_of_false ?_ ?_
      · rintro ⟨result, h, _⟩
        cases h
      · rintro ⟨_, ⟨fs, h⟩, _⟩
        cases h
    | ok second =>
      rw [← hnames first hfirst, ← knownCveScan_blocks hsecond]
      constructor
      · rintro ⟨result, h, hblocks⟩
        obtain rfl := Except.ok.inj h
        obtain ⟨f, hf, hrank⟩ := judged_blocks.1 hblocks
        refine ⟨⟨_, rfl⟩, ⟨_, rfl⟩, ?_⟩
        rcases List.mem_append.1 hf with hf | hf
        · exact Or.inl ⟨f, hf, hrank⟩
        · exact Or.inr ⟨f, hf, hrank⟩
      · rintro ⟨_, _, h⟩
        refine ⟨_, rfl, judged_blocks.2 ?_⟩
        rcases h with ⟨f, hf, hrank⟩ | ⟨f, hf, hrank⟩
        · exact ⟨f, List.mem_append_left _ hf, hrank⟩
        · exact ⟨f, List.mem_append_right _ hf, hrank⟩

end Security

-- ==== ruff

section Ruff

variable {N : Numbers φ} {proc : Completed} {stdout : String}
variable {items : List (Json φ)} {members : List (String × Json φ)}

/-- What ruff's report lists. -/
def RuffLists (loads : Loads φ) (stdout : String) (items : List (Json φ)) :
    Prop :=
  strip stdout ≠ "" ∧ ∃ raw, loads stdout = .ok raw ∧ iterate raw = .ok items

/-- A violation can be read: it is an object, and so is its location,
unless that counts as none. -/
def RuffReadable (N : Numbers φ) (item : Json φ) : Prop :=
  ∃ members, item = .obj members ∧
    (truth N ((member "location" members).getD .null) = true →
      ∃ place, (member "location" members).getD .null = .obj place)

/-- ruff's output can be read. -/
def RuffReads (N : Numbers φ) (loads : Loads φ) (stdout : String) : Prop :=
  Silent loads stdout ∨ ∃ items, RuffLists loads stdout items ∧
    ∀ item ∈ items, RuffReadable N item

/-- And names a finding, which what is no JSON does. -/
def RuffNames (loads : Loads φ) (stdout : String) : Prop :=
  strip stdout ≠ "" ∧ (loads stdout = .error .jsonDecodeError ∨
    ∃ items, RuffLists loads stdout items ∧ items ≠ [])

theorem ruffFinding_obj : ruffFinding N (.obj members) =
    (getOr (orElse N ((member "location" members).getD .null) (.obj []))
      "row" .null).bind fun line => .ok
        ⟨"ruff", (member "filename" members).getD (.str "?"), line,
          orElse N ((member "code" members).getD .null) (.str "?"),
          (member "message" members).getD (.str ""), "error"⟩ := rfl

theorem getOr_ok {value default : Json φ} {key : String} :
    (∃ v, getOr value key default = .ok v) ↔
      ∃ members, value = .obj members := by
  constructor
  · rintro ⟨v, h⟩
    cases value with
    | obj members => exact ⟨members, rfl⟩
    | null => cases h
    | bool b => cases h
    | int n => cases h
    | float x => cases h
    | str s => cases h
    | arr items => cases h
  · rintro ⟨members, rfl⟩
    exact ⟨_, rfl⟩

theorem ruffFinding_ok {item : Json φ} :
    (∃ f, ruffFinding N item = .ok f) ↔ RuffReadable N item := by
  have hobj : (∃ f, ruffFinding N item = .ok f) →
      ∃ members, item = .obj members := by
    rintro ⟨f, h⟩
    cases item with
    | obj members => exact ⟨members, rfl⟩
    | null => cases h
    | bool b => cases h
    | int n => cases h
    | float x => cases h
    | str s => cases h
    | arr items => cases h
  have hrow : ∀ members : List (String × Json φ),
      (∃ f, ruffFinding N (.obj members) = .ok f) ↔
        (truth N ((member "location" members).getD .null) = true →
          ∃ place, (member "location" members).getD .null = .obj place) := by
    intro members
    rw [ruffFinding_obj]
    have hline : (∃ line, getOr (orElse N
        ((member "location" members).getD .null) (.obj [])) "row" .null =
          .ok line) ↔ (truth N ((member "location" members).getD .null) =
            true → ∃ place, (member "location" members).getD .null =
              .obj place) := by
      rw [getOr_ok]
      unfold orElse
      by_cases htruth :
          truth N ((member "location" members).getD .null) = true
      · rw [if_pos htruth]
        exact ⟨fun h _ => h, fun h => h htruth⟩
      · rw [if_neg htruth]
        exact iff_of_true ⟨[], rfl⟩ fun h => absurd h htruth
    rw [← hline]
    constructor
    · rintro ⟨f, h⟩
      cases hrun : getOr (orElse N ((member "location" members).getD .null)
          (.obj [])) "row" .null with
      | error e =>
        rw [hrun] at h
        cases h
      | ok line => exact ⟨line, rfl⟩
    · rintro ⟨line, h⟩
      rw [h]
      exact ⟨_, rfl⟩
  constructor
  · intro h
    obtain ⟨members, rfl⟩ := hobj h
    exact ⟨members, rfl, (hrow members).1 h⟩
  · rintro ⟨members, rfl, h⟩
    exact (hrow members).2 h

theorem ruffRun_lists (h : RuffLists loads proc.stdout items) :
    ruffRun N loads proc = items.mapM (ruffFinding N) := by
  obtain ⟨hsome, raw, hloads, hitems⟩ := h
  unfold ruffRun
  rw [if_neg hsome, hloads]
  show ruffFindings N raw = _
  unfold ruffFindings
  rw [hitems]
  rfl

theorem ruffLists_unique {items' : List (Json φ)}
    (h : RuffLists loads stdout items) (h' : RuffLists loads stdout items') :
    items = items' := by
  obtain ⟨_, raw, hloads, hitems⟩ := h
  obtain ⟨_, raw', hloads', hitems'⟩ := h'
  rw [hloads] at hloads'
  obtain rfl := Except.ok.inj hloads'
  rw [hitems] at hitems'
  exact Except.ok.inj hitems'

theorem mapM_ne_nil {α β ε : Type} {f : α → Except ε β} {xs : List α}
    {ys : List β} (h : xs.mapM f = .ok ys) : ys ≠ [] ↔ xs ≠ [] := by
  have hlength := (mapM_eq_ok.1 h).length_eq
  rw [← List.length_pos_iff, ← List.length_pos_iff, hlength]

theorem ruffRun_spec (N : Numbers φ) (loads : Loads φ) (proc : Completed) :
    ((∃ fs, ruffRun N loads proc = .ok fs) ↔
      RuffReads N loads proc.stdout) ∧
    ∀ fs, ruffRun N loads proc = .ok fs →
      (fs ≠ [] ↔ RuffNames loads proc.stdout) := by
  by_cases hempty : strip proc.stdout = ""
  · have hrun : ruffRun N loads proc = .ok [] := if_pos hempty
    rw [hrun]
    refine ⟨iff_of_true ⟨[], rfl⟩ (Or.inl (Or.inl hempty)), fun fs h => ?_⟩
    obtain rfl := Except.ok.inj h
    exact iff_of_false (fun h => h rfl) fun h => h.1 hempty
  · cases hloads : loads proc.stdout with
    | error e =>
      have hno : ∀ items, ¬ RuffLists loads proc.stdout items := by
        rintro items ⟨_, raw, hok, _⟩
        rw [hloads] at hok
        cases hok
      by_cases he : e = .jsonDecodeError
      · subst he
        obtain ⟨f, hrun⟩ : ∃ f, ruffRun N loads proc = .ok [f] := by
          unfold ruffRun
          rw [if_neg hempty, hloads]
          exact ⟨_, rfl⟩
        rw [hrun]
        refine ⟨iff_of_true ⟨_, rfl⟩ (Or.inl (Or.inr hloads)),
          fun fs h => ?_⟩
        obtain rfl := Except.ok.inj h
        exact iff_of_true (List.cons_ne_nil _ _) ⟨hempty, Or.inl hloads⟩
      · have hraise : ruffRun N loads proc = .error e := by
          unfold ruffRun
          rw [if_neg hempty, hloads]
          cases e with
          | jsonDecodeError => exact absurd rfl he
          | attributeError => rfl
          | typeError => rfl
          | valueError => rfl
          | unreadable => rfl
        rw [hraise]
        refine ⟨iff_of_false ?_ ?_, fun fs h => (by cases h)⟩
        · rintro ⟨fs, h⟩
          cases h
        · rintro ((h | h) | ⟨items, h, _⟩)
          · exact hempty h
          · rw [hloads] at h
            exact he (Except.error.inj h)
          · exact hno items h
    | ok raw =>
      have hsilent : ¬ Silent loads proc.stdout := by
        rintro (h | h)
        · exact hempty h
        · rw [hloads] at h
          cases h
      cases hitems : iterate raw with
      | error e =>
        have hraise : ruffRun N loads proc = .error e := by
          unfold ruffRun
          rw [if_neg hempty, hloads]
          show ruffFindings N raw = _
          unfold ruffFindings
          rw [hitems]
          rfl
        rw [hraise]
        refine ⟨iff_of_false ?_ ?_, fun fs h => (by cases h)⟩
        · rintro ⟨fs, h⟩
          cases h
        · rintro (h | ⟨items, ⟨_, raw', hok, hitems'⟩, _⟩)
          · exact hsilent h
          · obtain rfl := Except.ok.inj (hloads.symm.trans hok)
            rw [hitems] at hitems'
            cases hitems'
      | ok items =>
        have hlists : RuffLists loads proc.stdout items :=
          ⟨hempty, raw, hloads, hitems⟩
        rw [ruffRun_lists hlists, exists_mapM]
        constructor
        · constructor
          · intro h
            exact Or.inr ⟨items, hlists,
              fun item hitem => ruffFinding_ok.1 (h item hitem)⟩
          · rintro (h | ⟨items', hlists', h⟩)
            · exact absurd h hsilent
            · obtain rfl := ruffLists_unique hlists hlists'
              exact fun item hitem => ruffFinding_ok.2 (h item hitem)
        · intro fs h
          rw [mapM_ne_nil h]
          constructor
          · exact fun hne => ⟨hempty, Or.inr ⟨items, hlists, hne⟩⟩
          · rintro ⟨_, h | ⟨items', hlists', hne⟩⟩
            · rw [hloads] at h
              cases h
            · rw [ruffLists_unique hlists hlists']
              exact hne

end Ruff

-- ==== mypy

section Mypy

variable {N : Numbers φ} {proc : Completed} {stdout line : String}
variable {lineno : List Char}

/-- A diagnostic, with what stands for its line's number. -/
def Diagnostic (line : String) (lineno : List Char) : Prop :=
  ∃ file severity rest,
    splitColons 3 line.toList = [file, lineno, severity, rest] ∧
      (stripped severity = "error" ∨ stripped severity = "warning")

/-- mypy's output can be read: what counts as a number is one. -/
def MypyReads (N : Numbers φ) (stdout : String) : Prop :=
  ∀ line ∈ Index.splitLines stdout, ∀ lineno, Diagnostic line lineno →
    ∃ number, lineNumber N lineno = .ok number

/-- And has a diagnostic. -/
def MypyNames (stdout : String) : Prop :=
  ∃ line ∈ Index.splitLines stdout, ∃ lineno, Diagnostic line lineno

theorem mypyLine_diagnostic (h : Diagnostic line lineno) :
    ∃ f : Json φ → Finding φ, mypyLine N line =
      (lineNumber N lineno).map fun number => some (f number) := by
  obtain ⟨file, severity, rest, hsplit, hseverity⟩ := h
  unfold mypyLine
  rw [hsplit]
  dsimp only
  rw [if_pos hseverity]
  exact ⟨_, rfl⟩

theorem mypyLine_other (h : ¬ ∃ lineno, Diagnostic line lineno) :
    mypyLine N line = .ok none := by
  unfold mypyLine
  split
  · next file lineno severity rest hsplit =>
    dsimp only
    rw [if_neg]
    exact fun hseverity =>
      h ⟨lineno, file, severity, rest, hsplit, hseverity⟩
  · rfl

theorem diagnostic_unique {lineno' : List Char} (h : Diagnostic line lineno)
    (h' : Diagnostic line lineno') : lineno = lineno' := by
  obtain ⟨file, severity, rest, hsplit, _⟩ := h
  obtain ⟨file', severity', rest', hsplit', _⟩ := h'
  rw [hsplit] at hsplit'
  injection hsplit' with _ hsplit'
  injection hsplit'

theorem mypyLine_ok : (∃ found, mypyLine N line = .ok found) ↔
    ∀ lineno, Diagnostic line lineno →
      ∃ number, lineNumber N lineno = .ok number := by
  by_cases hdiag : ∃ lineno, Diagnostic line lineno
  · obtain ⟨lineno, h⟩ := hdiag
    obtain ⟨f, hline⟩ := mypyLine_diagnostic (N := N) h
    rw [hline]
    constructor
    · rintro ⟨found, hfound⟩ lineno' h'
      obtain rfl := diagnostic_unique h h'
      cases hnumber : lineNumber N lineno with
      | error e =>
        rw [hnumber] at hfound
        cases hfound
      | ok number => exact ⟨number, rfl⟩
    · intro hall
      obtain ⟨number, hnumber⟩ := hall lineno h
      rw [hnumber]
      exact ⟨_, rfl⟩
  · rw [mypyLine_other hdiag]
    exact iff_of_true ⟨none, rfl⟩ fun lineno h => absurd ⟨lineno, h⟩ hdiag

theorem mypyLine_some {found : Option (Finding φ)}
    (h : mypyLine N line = .ok found) :
    found ≠ none ↔ ∃ lineno, Diagnostic line lineno := by
  by_cases hdiag : ∃ lineno, Diagnostic line lineno
  · refine iff_of_true ?_ hdiag
    obtain ⟨lineno, hd⟩ := hdiag
    obtain ⟨f, hline⟩ := mypyLine_diagnostic (N := N) hd
    rw [hline] at h
    cases hnumber : lineNumber N lineno with
    | error e =>
      rw [hnumber] at h
      cases h
    | ok number =>
      rw [hnumber] at h
      obtain rfl := Except.ok.inj h
      exact Option.some_ne_none _
  · refine iff_of_false ?_ hdiag
    rw [mypyLine_other hdiag] at h
    obtain rfl := Except.ok.inj h
    exact fun h => h rfl

theorem mypyRun_spec (N : Numbers φ) (proc : Completed) :
    ((∃ fs, mypyRun N proc = .ok fs) ↔ MypyReads N proc.stdout) ∧
    ∀ fs, mypyRun N proc = .ok fs → (fs ≠ [] ↔ MypyNames proc.stdout) := by
  have hreads : (∃ found, (Index.splitLines proc.stdout).mapM (mypyLine N) =
      .ok found) ↔ MypyReads N proc.stdout := by
    rw [exists_mapM]
    exact forall₂_congr fun line _ => mypyLine_ok
  unfold mypyRun
  cases hrun : (Index.splitLines proc.stdout).mapM (mypyLine N) with
  | error e =>
    rw [hrun] at hreads
    refine ⟨iff_of_false ?_ fun h => ?_, fun fs h => (by cases h)⟩
    · rintro ⟨fs, h⟩
      cases h
    · obtain ⟨found, hfound⟩ := hreads.2 h
      cases hfound
  | ok found =>
    refine ⟨iff_of_true ⟨_, rfl⟩ (hreads.1 ⟨found, hrun⟩), fun fs h => ?_⟩
    obtain rfl := Except.ok.inj h
    have hsome : found.filterMap id ≠ [] ↔ ∃ y ∈ found, y ≠ none := by
      constructor
      · intro hne
        obtain ⟨f, hf⟩ := List.exists_mem_of_ne_nil _ hne
        obtain ⟨y, hy, hyf⟩ := List.mem_filterMap.1 hf
        exact ⟨y, hy, fun hnone => by cases hnone.symm.trans hyf⟩
      · rintro ⟨y, hy, hne⟩
        obtain ⟨f, rfl⟩ := Option.ne_none_iff_exists'.1 hne
        exact List.ne_nil_of_mem (List.mem_filterMap.2 ⟨_, hy, rfl⟩)
    rw [hsome, mem_mapM hrun]
    constructor
    · rintro ⟨line, hline, y, hy, hne⟩
      exact ⟨line, hline, (mypyLine_some hy).1 hne⟩
    · rintro ⟨line, hline, hdiag⟩
      obtain ⟨y, hy⟩ := exists_mapM.1 ⟨found, hrun⟩ line hline
      exact ⟨line, hline, y, hy, (mypyLine_some hy).2 hdiag⟩

end Mypy

-- ==== static analysis

section Static

variable {N : Numbers φ} {ruff mypy : List String → Completed}
variable {paths : List String}

/-- The analyzers the layer has when it is given none. -/
def defaultAnalyzers (N : Numbers φ) (loads : Loads φ)
    (ruff mypy : List String → Completed) : List (StaticAnalyzer φ) :=
  [ruffLinter N loads ruff, mypyTypeChecker N mypy]

theorem judged_blocks_iff {names : List String} {fs : List (Finding φ)} :
    (StaticAnalysis.judged names fs).blocksHumanReview = true ↔ fs ≠ [] := by
  unfold StaticAnalysis.judged
  split
  · next h => exact iff_of_true rfl h
  · next h => exact iff_of_false (fun h => Bool.noConfusion h) h

/-- The static analysis layer blocks on what its analyzers can read and
find. -/
theorem static_blocks :
    (∃ result, runStaticAnalysisLayer (defaultAnalyzers N loads ruff mypy)
        paths = .ok result ∧ result.blocksHumanReview = true) ↔
      RuffReads N loads (ruff paths).stdout ∧
        MypyReads N (mypy paths).stdout ∧
        (RuffNames loads (ruff paths).stdout ∨
          MypyNames (mypy paths).stdout) := by
  obtain ⟨hruff, hruffNames⟩ := ruffRun_spec N loads (ruff paths)
  obtain ⟨hmypy, hmypyNames⟩ := mypyRun_spec N (mypy paths)
  have hstep : runAll paths (defaultAnalyzers N loads ruff mypy) =
      ((ruffRun N loads (ruff paths)).mapError .tool).bind fun findings =>
        ((mypyRun N (mypy paths)).bind fun more => .ok (more ++ [])).map
          fun more => findings ++ more := rfl
  unfold runStaticAnalysisLayer
  rw [hstep, ← hruff, ← hmypy]
  cases hfirst : ruffRun N loads (ruff paths) with
  | error e =>
    refine iff_of_false ?_ ?_
    · rintro ⟨result, h, _⟩
      cases h
    · rintro ⟨⟨fs, h⟩, _⟩
      cases h
  | ok first =>
    cases hsecond : mypyRun N (mypy paths) with
    | error e =>
      refine iff_of_false ?_ ?_
      · rintro ⟨result, h, _⟩
        cases h
      · rintro ⟨_, ⟨fs, h⟩, _⟩
        cases h
    | ok second =>
      rw [← hruffNames first hfirst, ← hmypyNames second hsecond]
      have hne : first ++ (second ++ []) ≠ [] ↔
          first ≠ [] ∨ second ≠ [] := by
        rw [List.append_nil, ne_eq, List.append_eq_nil_iff,
          not_and_or]
      constructor
      · rintro ⟨result, h, hblocks⟩
        obtain rfl := Except.ok.inj h
        exact ⟨⟨_, rfl⟩, ⟨_, rfl⟩, hne.1 (judged_blocks_iff.1 hblocks)⟩
      · rintro ⟨_, _, h⟩
        exact ⟨_, rfl, judged_blocks_iff.2 (hne.2 h)⟩

end Static

-- ==== broken

/-- The process ended with neither 0 nor 1. -/
def NotCompleted (proc : Completed) : Prop :=
  proc.returncode ≠ 0 ∧ proc.returncode ≠ 1

/-- bandit's report is an object with a list of objects as its results. -/
def BanditExpected (loads : Loads φ) (stdout : String) : Prop :=
  ∃ members items, loads stdout = .ok (.obj members) ∧
    member "results" members = some (.arr items) ∧
      ∀ item ∈ items, ∃ ms, item = .obj ms

/-- ruff's report is a list of objects. -/
def RuffExpected (loads : Loads φ) (stdout : String) : Prop :=
  ∃ items, loads stdout = .ok (.arr items) ∧
    ∀ item ∈ items, ∃ ms, item = .obj ms

/-- A fatal error, reported without the number of a line. -/
def Fatal (line : String) : Prop :=
  ∃ program severity rest,
    splitColons 2 line.toList = [program, severity, rest] ∧
      stripped severity = "error"

def BanditBroken (loads : Loads φ) (proc : Completed) : Prop :=
  NotCompleted proc ∨ strip proc.stdout = "" ∨
    ¬ BanditExpected loads proc.stdout

def RuffBroken (loads : Loads φ) (proc : Completed) : Prop :=
  NotCompleted proc ∨ strip proc.stdout = "" ∨
    ¬ RuffExpected loads proc.stdout

def MypyBroken (proc : Completed) : Prop :=
  NotCompleted proc ∨ ∃ line ∈ Index.splitLines proc.stdout ++
    Index.splitLines proc.stderr, Fatal line

/-- What a change is scanned with, and what the tools ended with. -/
structure Scans (φ : Type) where
  loads : Loads φ
  numbers : Numbers φ
  bandit : List String → Completed
  ruff : List String → Completed
  mypy : List String → Completed
  files : String → Option (Except ToolExn String)
  codePaths : List String
  dependencyFiles : List String
  blockAtSeverity : Severity
  paths : List String

namespace Scans

variable (S : Scans φ)

/-- The layers' results, with the scanners they have by default. -/
def security : Except ToolExn
    (Result SecurityScan.Summary (SecurityScan.Details φ)) :=
  runSecurityScanLayer
    (defaultScanners S.loads knownVulnerablePackages S.bandit S.files)
    S.codePaths S.dependencyFiles S.blockAtSeverity

def static : Except AnalyzerExn
    (Result StaticAnalysis.Summary (List (Finding φ))) :=
  runStaticAnalysisLayer
    (defaultAnalyzers S.numbers S.loads S.ruff S.mypy) S.paths

/-- A broken tool that was run blocks. -/
structure NeverClean : Prop where
  security : S.codePaths ≠ [] → BanditBroken S.loads (S.bandit S.codePaths) →
    ∃ result, S.security = .ok result ∧ result.blocksHumanReview = true
  static : RuffBroken S.loads (S.ruff S.paths) ∨ MypyBroken (S.mypy S.paths) →
    ∃ result, S.static = .ok result ∧ result.blocksHumanReview = true

/-- Where a tool is broken, what was printed can be read all the same, and
names a finding. -/
structure Loud : Prop where
  security : S.codePaths ≠ [] → BanditBroken S.loads (S.bandit S.codePaths) →
    BanditReads S.loads (S.bandit S.codePaths).stdout ∧
      FilesRead knownVulnerablePackages S.files S.dependencyFiles ∧
      (BanditNames S.loads (S.bandit S.codePaths).stdout S.blockAtSeverity ∨
        Pinned knownVulnerablePackages S.files S.dependencyFiles
          S.blockAtSeverity)
  static : RuffBroken S.loads (S.ruff S.paths) ∨ MypyBroken (S.mypy S.paths) →
    RuffReads S.numbers S.loads (S.ruff S.paths).stdout ∧
      MypyReads S.numbers (S.mypy S.paths).stdout ∧
      (RuffNames S.loads (S.ruff S.paths).stdout ∨
        MypyNames (S.mypy S.paths).stdout)

/-- A broken tool is never a clean scan exactly where it is loud. -/
theorem never_clean_iff : S.NeverClean ↔ S.Loud := by
  constructor
  · intro h
    refine ⟨fun hcode hbroken => ?_, fun hbroken => ?_⟩
    · exact (security_blocks hcode).1 (h.security hcode hbroken)
    · exact static_blocks.1 (h.static hbroken)
  · intro h
    refine ⟨fun hcode hbroken => ?_, fun hbroken => ?_⟩
    · exact (security_blocks hcode).2 (h.security hcode hbroken)
    · exact static_blocks.2 (h.static hbroken)

/-- The tools are not installed: each ends with 1 and prints nothing. -/
def missing : Scans Unit where
  loads := fun _ => .error .jsonDecodeError
  numbers := ⟨fun _ => false, Char.isDigit, fun _ => none⟩
  bandit := fun _ => ⟨1, "", "No module named bandit\n"⟩
  ruff := fun _ => ⟨1, "", "No module named ruff\n"⟩
  mypy := fun _ => ⟨1, "", "No module named mypy\n"⟩
  files := fun _ => none
  codePaths := ["a.py"]
  dependencyFiles := []
  blockAtSeverity := .high
  paths := ["a.py"]

/-- And every scan is clean. -/
theorem missing_clean : ¬ missing.NeverClean := by
  intro h
  have hempty : strip "" = "" := by decide +kernel
  have hsecurity := h.security (List.cons_ne_nil _ _)
    (Or.inr (Or.inl hempty))
  obtain ⟨_, _, hnames | hpinned⟩ :=
    (security_blocks (List.cons_ne_nil _ _)).1 hsecurity
  · obtain ⟨_, _, _, hlists, _⟩ := hnames
    exact hlists.1 hempty
  · obtain ⟨path, hpath, _⟩ := hpinned
    cases hpath

end Scans

end SdlcOs.Verification
