/-
Layer 3, static analysis
(verification_pipeline/layers/static_analysis.py).

ruff and mypy are processes outside: the layer is given what they ended
with. Which characters `str.isdigit` and `int` take, and when a float is
0.0, is the platform's.
-/
import SdlcOs.Verification.SecurityScan

namespace SdlcOs.Verification.StaticAnalysis

open Data (Dict)
open Json (Json)
open Gates (strip)

/-- What the platform knows of numbers. -/
structure Numbers (φ : Type) where
  isZero : φ → Bool
  /-- `c.isdigit()`. -/
  isDigit : Char → Bool
  /-- The digit `int` takes a character for. -/
  decimal : Char → Option Nat

variable {φ : Type} (N : Numbers φ)

/-- `Finding`. -/
structure Finding (φ : Type) where
  tool : String
  file : Json φ
  line : Json φ
  code : Json φ
  message : Json φ
  severity : String

/-- Why an analyzer does not return. -/
inductive AnalyzerExn : Type where
  | tool (e : ToolExn)
  /-- `int` of digits that are no decimals, or are more than 4300. -/
  | valueError
  deriving DecidableEq, Repr

/-- `StaticAnalyzer`. -/
structure StaticAnalyzer (φ : Type) where
  name : String
  run : List String → Except AnalyzerExn (List (Finding φ))

-- ==== ruff

/-- `bool(value)`. -/
def truth : Json φ → Bool
  | .null => false
  | .bool b => b
  | .int n => n ≠ 0
  | .float x => !N.isZero x
  | .str s => s ≠ ""
  | .arr items => !items.isEmpty
  | .obj members => !members.isEmpty

/-- `value or default`. -/
def orElse (value default : Json φ) : Json φ :=
  if truth N value then value else default

/-- A violation as a finding. -/
def ruffFinding (item : Json φ) : Except ToolExn (Finding φ) := do
  let file ← getOr item "filename" (.str "?")
  let location ← getOr item "location" .null
  let line ← getOr (orElse N location (.obj [])) "row" .null
  let code ← getOr item "code" .null
  let message ← getOr item "message" (.str "")
  pure ⟨"ruff", file, line, orElse N code (.str "?"), message, "error"⟩

/-- The findings of ruff's report. -/
def ruffFindings (raw : Json φ) : Except ToolExn (List (Finding φ)) := do
  let items ← iterate raw
  items.mapM (ruffFinding N)

/-- `RuffLinter.run`, of what ruff ended with. -/
def ruffRun (loads : Loads φ) (proc : Completed) :
    Except ToolExn (List (Finding φ)) :=
  if strip proc.stdout = "" then .ok []
  else
    match loads proc.stdout with
    | .error .jsonDecodeError => .ok
        [⟨"ruff", .str "?", .null, .str "ruff-output-error",
          .str (proc.stdout ++ proc.stderr), "error"⟩]
    | .error e => .error e
    | .ok raw => ruffFindings N raw

/-- `RuffLinter`. -/
def ruffLinter (loads : Loads φ) (ruff : List String → Completed) :
    StaticAnalyzer φ where
  name := "ruff"
  run := fun paths => (ruffRun N loads (ruff paths)).mapError .tool

-- ==== mypy

/-- `line.split(":", n)`. -/
def splitColons : Nat → List Char → List (List Char)
  | 0, s => [s]
  | n + 1, s =>
    match s.dropWhile (· ≠ ':') with
    | [] => [s]
    | _ :: rest => s.takeWhile (· ≠ ':') :: splitColons n rest

/-- `text.strip()`. -/
def stripped (s : List Char) : String := strip (String.ofList s)

/-- `int(lineno) if lineno.strip().isdigit() else None`. -/
def lineNumber (lineno : List Char) : Except AnalyzerExn (Json φ) :=
  let digits := (stripped lineno).toList
  if digits ≠ [] ∧ digits.all N.isDigit then
    if 4300 < digits.length then .error .valueError
    else
      match digits.mapM N.decimal with
      | none => .error .valueError
      | some ds => .ok (.int (ds.foldl (fun n d => 10 * n + d) 0))
  else .ok .null

/-- `message.rpartition("[")`, of a message with one: what is before and
after the last. -/
def rpartition (message : List Char) : List Char × List Char :=
  (((message.reverse.dropWhile (· ≠ '[')).drop 1).reverse,
    (message.reverse.takeWhile (· ≠ '[')).reverse)

/-- A diagnostic's message and code. -/
def messageOf (rest : List Char) : String × String :=
  let message := (stripped rest).toList
  if message.getLast? = some ']' ∧ '[' ∈ message then
    let (before, codePart) := rpartition message
    (stripped before,
      String.ofList (codePart.reverse.dropWhile (· = ']')).reverse)
  else (String.ofList message, "mypy")

/-- What the loop makes of a line of mypy's. -/
def mypyLine (line : String) : Except AnalyzerExn (Option (Finding φ)) :=
  match splitColons 3 line.toList with
  | [file, lineno, severity, rest] =>
    let severity := stripped severity
    if severity = "error" ∨ severity = "warning" then
      (lineNumber N lineno).map fun number =>
        some ⟨"mypy", .str (stripped file), number,
          .str (messageOf rest).2, .str (messageOf rest).1, severity⟩
    else .ok none
  | _ => .ok none

/-- `MypyTypeChecker.run`, of what mypy ended with. -/
def mypyRun (proc : Completed) : Except AnalyzerExn (List (Finding φ)) :=
  ((Index.splitLines proc.stdout).mapM (mypyLine N)).map fun found =>
    found.filterMap id

/-- `MypyTypeChecker`. -/
def mypyTypeChecker (mypy : List String → Completed) :
    StaticAnalyzer φ where
  name := "mypy"
  run := fun paths => mypyRun N (mypy paths)

-- ==== the layer

/-- The summaries. -/
inductive Summary : Type where
  /-- "{len(all_findings)} static-analysis finding(s): {by_tool}." -/
  | findings (number : Nat) (byTool : List (String × Nat))
  /-- "No findings from {[a.name for a in analyzers]}." -/
  | clean (names : List String)
  deriving DecidableEq, Repr

/-- `by_tool`. -/
def byTool (findings : List (Finding φ)) : Dict String Nat :=
  findings.foldl (fun d f => d.set f.tool ((d.get f.tool).getD 0 + 1))
    Dict.empty

/-- The analyzers one after the other. -/
def runAll (paths : List String) :
    List (StaticAnalyzer φ) → Except AnalyzerExn (List (Finding φ))
  | [] => .ok []
  | analyzer :: analyzers =>
    (analyzer.run paths).bind fun findings =>
      (runAll paths analyzers).map fun more => findings ++ more

/-- What the layer returns with its findings, which are its details. -/
def judged (names : List String) (allFindings : List (Finding φ)) :
    Result Summary (List (Finding φ)) :=
  if allFindings ≠ [] then
    ⟨"static_analysis", .fail,
      .findings allFindings.length (byTool allFindings).entries, allFindings⟩
  else ⟨"static_analysis", .pass, .clean names, []⟩

/-- `run_static_analysis_layer`. -/
def runStaticAnalysisLayer (analyzers : List (StaticAnalyzer φ))
    (paths : List String) :
    Except AnalyzerExn (Result Summary (List (Finding φ))) :=
  (runAll paths analyzers).map
    (judged (analyzers.map StaticAnalyzer.name))

end SdlcOs.Verification.StaticAnalysis
