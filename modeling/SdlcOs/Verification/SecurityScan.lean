/-
Layer 4, security scanning
(verification_pipeline/layers/security_scan.py).

# Tools

bandit is a process outside: the layer is given what it ended with. What
`json.loads` makes of a text is a parameter; an object's members are those
of the dict it makes.

# Requirements

The regular expression of a pinned line is run as its parts: none of them
can take a character the next one needs, so each takes all it can.
-/
import Mathlib.Data.List.ReduceOption
import SdlcOs.Data.Padded
import SdlcOs.Index.Refresh
import SdlcOs.Json.Text
import SdlcOs.Verification.CompletionCheck

namespace SdlcOs.Verification

open Json (Json)
open Gates (isSpace strip)

variable {φ : Type}

-- ==== values

/-- What ends a tool's output being read. -/
inductive ToolExn : Type where
  | jsonDecodeError
  | attributeError
  | typeError
  | valueError
  | unreadable
  deriving DecidableEq, Repr

/-- A process that ended, with its output. -/
structure Completed where
  returncode : Int
  stdout : String
  stderr : String

/-- `json.loads`. -/
abbrev Loads (φ : Type) : Type := String → Except ToolExn (Json φ)

/-- A member of a dict. -/
def member (key : String) (members : List (String × Json φ)) :
    Option (Json φ) :=
  (members.find? fun m => m.1 = key).map Prod.snd

/-- `value.get(key, default)`. -/
def getOr (value : Json φ) (key : String) (default : Json φ) :
    Except ToolExn (Json φ) :=
  match value with
  | .obj members => .ok ((member key members).getD default)
  | _ => .error .attributeError

/-- What a value is iterated as: a list's items, a dict's keys, a text's
characters. -/
def iterate : Json φ → Except ToolExn (List (Json φ))
  | .arr items => .ok items
  | .obj members => .ok (members.map fun m => .str m.1)
  | .str s => .ok (s.toList.map fun c => .str (String.singleton c))
  | _ => .error .typeError

namespace SecurityScan

-- ==== findings

/-- The severities of a finding. -/
inductive Severity : Type where
  | low
  | medium
  | high
  | critical
  deriving DecidableEq, Repr

/-- `_SEVERITY_RANK`. -/
def Severity.rank : Severity → Nat
  | .low => 0
  | .medium => 1
  | .high => 2
  | .critical => 3

/-- A scanner's `kind`. -/
inductive Kind : Type where
  | sast
  | sca
  deriving DecidableEq, Repr

/-- `SecurityFinding`. -/
structure SecurityFinding (φ : Type) where
  tool : String
  kind : Kind
  file : Json φ
  line : Json φ
  ruleId : Json φ
  message : Json φ
  severity : Severity

/-- `SecurityScanner`. -/
structure SecurityScanner (φ : Type) where
  name : String
  kind : Kind
  scan : List String → Except ToolExn (List (SecurityFinding φ))

-- ==== bandit

/-- `_BANDIT_SEVERITY_MAP.get(value, "low")`; a list or a dict cannot be
looked up. -/
def banditSeverity : Json φ → Except ToolExn Severity
  | .str s => .ok
      (if s = "LOW" then .low else if s = "MEDIUM" then .medium
        else if s = "HIGH" then .high else .low)
  | .arr _ => .error .typeError
  | .obj _ => .error .typeError
  | _ => .ok .low

/-- A result as a finding. -/
def banditFinding (item : Json φ) : Except ToolExn (SecurityFinding φ) := do
  let file ← getOr item "filename" (.str "?")
  let line ← getOr item "line_number" .null
  let ruleId ← getOr item "test_id" (.str "?")
  let message ← getOr item "issue_text" (.str "")
  let severity ← getOr item "issue_severity" (.str "LOW")
  let severity ← banditSeverity severity
  pure ⟨"bandit", .sast, file, line, ruleId, message, severity⟩

/-- The findings of bandit's report. -/
def banditFindings (raw : Json φ) :
    Except ToolExn (List (SecurityFinding φ)) := do
  let results ← getOr raw "results" (.arr [])
  let items ← iterate results
  items.mapM banditFinding

/-- `BanditSASTScanner.scan`, of what bandit ended with. -/
def banditScan (loads : Loads φ) (proc : Completed) :
    Except ToolExn (List (SecurityFinding φ)) :=
  if strip proc.stdout = "" then .ok []
  else
    match loads proc.stdout with
    | .error .jsonDecodeError => .ok []
    | .error e => .error e
    | .ok raw => banditFindings raw

/-- `BanditSASTScanner`. -/
def banditSASTScanner (loads : Loads φ) (bandit : List String → Completed) :
    SecurityScanner φ where
  name := "bandit"
  kind := .sast
  scan := fun paths => banditScan loads (bandit paths)

-- ==== known versions

/-- An entry of `KNOWN_VULNERABLE_PACKAGES`. -/
structure Vulnerability where
  vulnerableBelow : List Nat
  cve : String
  severity : Severity
  description : String

/-- A character of a name in lower case. -/
def lowerChar (c : Char) : Char :=
  if 'A' ≤ c ∧ c ≤ 'Z' then Char.ofNat (c.toNat + 32) else c

/-- `name.lower()`, of a name of the expression. -/
def lower (name : List Char) : List Char := name.map lowerChar

/-- The characters a name may be spelled with for one another. -/
def normalChar (c : Char) : Char :=
  if c = '_' ∨ c = '.' then '-' else lowerChar c

/-- A name with case and the characters "-", "_" and "." taken as equal. -/
def normalize (name : List Char) : List Char := name.map normalChar

/-- A table of vulnerable packages: its names are in lower case, and no
two are spellings of one. -/
structure VulnerabilityTable where
  entries : List (String × Vulnerability)
  lower : ∀ e ∈ entries, lower e.1.toList = e.1.toList
  distinct : (entries.map fun e => normalize e.1.toList).Nodup

/-- `table.get(name)`. -/
def VulnerabilityTable.get (table : VulnerabilityTable) (name : List Char) :
    Option Vulnerability :=
  (table.entries.find? fun e => e.1.toList = name).map Prod.snd

/-- `KNOWN_VULNERABLE_PACKAGES`. -/
def knownVulnerablePackages : VulnerabilityTable where
  entries :=
    [("insecure-badpkg", ⟨[2, 0, 0], "CVE-2024-00000", .high,
      "Illustrative fixture vulnerability: arbitrary deserialization " ++
        "below 2.0.0."⟩),
     ("pyyaml", ⟨[5, 4], "CVE-2020-14343", .critical,
      "PyYAML full_load/unsafe_load arbitrary code execution, fixed in " ++
        "5.4."⟩)]
  lower := by decide
  distinct := by decide

/-- `[A-Za-z0-9_.\-]`. -/
def nameChar (c : Char) : Bool :=
  c.isAlphanum || c = '_' || c = '.' || c = '-'

/-- `[0-9]+(?:\.[0-9]+)*`, as far as it goes, from a digit on: a dot is
taken with a digit after it. -/
def takeVersion : List Char → List Char
  | [] => []
  | '.' :: c :: s =>
    if c.isDigit then '.' :: c :: takeVersion s else []
  | c :: s => if c.isDigit then c :: takeVersion s else []

/-- `_REQ_LINE_RE.match(line)`: the name and the version. -/
def reqLine (line : List Char) : Option (List Char × List Char) :=
  let s := line.dropWhile isSpace
  let name := s.takeWhile nameChar
  match (s.dropWhile nameChar).dropWhile isSpace with
  | '=' :: '=' :: s =>
    match s.dropWhile isSpace with
    | c :: s => if name ≠ [] ∧ c.isDigit then
          some (name, c :: takeVersion s) else none
    | [] => none
  | _ => none

/-- `p.isdigit()`, of a part of a version. -/
def isdigit (p : List Char) : Bool := p ≠ [] && p.all Char.isDigit

/-- The most digits that `int` takes. -/
def maxStrDigits : Nat := 4300

/-- `int(p)`, of digits. -/
def int (p : List Char) : Except ToolExn Nat :=
  if maxStrDigits < p.length then .error .valueError
  else .ok (Nat.ofDigitChars 10 p 0)

/-- `_parse_version`. -/
def parseVersion (version : List Char) : Except ToolExn (List Nat) :=
  ((version.splitOn '.').filter isdigit).mapM int

/-- What the loop makes of a line. -/
def scanLine (table : VulnerabilityTable) (relPath : String)
    (line : String × Nat) : Except ToolExn (Option (SecurityFinding φ)) :=
  match reqLine line.1.toList with
  | none => .ok none
  | some (name, version) =>
    let pkg := lower name
    match table.get pkg with
    | none => .ok none
    | some entry =>
      (parseVersion version).map fun release =>
        if Data.Padded.lt release entry.vulnerableBelow then
          some ⟨"known-cve-pattern", .sca, .str relPath,
            .int (line.2 + 1), .str entry.cve,
            .str (String.ofList pkg ++ "==" ++ String.ofList version ++
              " is below the fixed version for " ++ entry.cve ++ ": " ++
              entry.description), entry.severity⟩
        else none

/-- What the loop makes of a file's text. -/
def scanText (table : VulnerabilityTable) (relPath text : String) :
    Except ToolExn (List (SecurityFinding φ)) :=
  ((Index.splitLines text).zipIdx.mapM (scanLine table relPath)).map
    List.reduceOption

/-- `KnownCVEPatternDependencyScanner.scan`; `files` is what reading one
comes to, if it is one. -/
def knownCveScan (table : VulnerabilityTable)
    (files : String → Option (Except ToolExn String)) :
    List String → Except ToolExn (List (SecurityFinding φ))
  | [] => .ok []
  | relPath :: paths =>
    match files relPath with
    | none => knownCveScan table files paths
    | some text => text.bind fun text =>
      (scanText table relPath text).bind fun found =>
        (knownCveScan table files paths).map fun findings =>
          found ++ findings

/-- `KnownCVEPatternDependencyScanner`. -/
def knownCVEPatternDependencyScanner (table : VulnerabilityTable)
    (files : String → Option (Except ToolExn String)) :
    SecurityScanner φ where
  name := "known-cve-pattern"
  kind := .sca
  scan := knownCveScan table files

-- ==== the layer

/-- The summaries. -/
inductive Summary : Type where
  /-- "{len(blocking)} finding(s) at or above '{block_at_severity}' severity
  block this change." -/
  | blocking (number : Nat) (blockAtSeverity : Severity)
  /-- "{len(all_findings)} sub-threshold finding(s), none blocking." -/
  | subThreshold (number : Nat)
  /-- "No SAST or SCA findings." -/
  | clean
  deriving DecidableEq, Repr

/-- The details. -/
inductive Details (φ : Type) : Type where
  | blocking (blockingFindings allFindings : List (SecurityFinding φ))
  | all (allFindings : List (SecurityFinding φ))
  | clean

/-- The scanners one after the other. -/
def scanAll (codePaths dependencyFiles : List String) :
    List (SecurityScanner φ) → Except ToolExn (List (SecurityFinding φ))
  | [] => .ok []
  | scanner :: scanners =>
    let paths := match scanner.kind with
      | .sast => codePaths
      | .sca => dependencyFiles
    if paths = [] then scanAll codePaths dependencyFiles scanners
    else (scanner.scan paths).bind fun findings =>
      (scanAll codePaths dependencyFiles scanners).map fun more =>
        findings ++ more

/-- What the layer returns with its findings. -/
def judged (blockAtSeverity : Severity)
    (allFindings : List (SecurityFinding φ)) : Result Summary (Details φ) :=
  let blocking := allFindings.filter fun f =>
    blockAtSeverity.rank ≤ f.severity.rank
  if blocking ≠ [] then
    ⟨"security_scan", .fail, .blocking blocking.length blockAtSeverity,
      .blocking blocking allFindings⟩
  else if allFindings ≠ [] then
    ⟨"security_scan", .flaggedPass, .subThreshold allFindings.length,
      .all allFindings⟩
  else ⟨"security_scan", .pass, .clean, .clean⟩

/-- `run_security_scan_layer`. -/
def runSecurityScanLayer (scanners : List (SecurityScanner φ))
    (codePaths dependencyFiles : List String) (blockAtSeverity : Severity) :
    Except ToolExn (Result Summary (Details φ)) :=
  (scanAll codePaths dependencyFiles scanners).map (judged blockAtSeverity)

end SecurityScan

end SdlcOs.Verification
