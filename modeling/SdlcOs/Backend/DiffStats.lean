/-
What `_real_git_diff_stats` reads out of what git prints
(tool_use_bedrock_backend.py).

# The workspace

HEAD, the index and the files on disk, each a text at a path, and which
paths are ignored. What git takes for a renaming, how a diff counts its
lines and what a pathspec matches is git's (`Rules`).

# What git prints

`git status --porcelain` has a line for a path whose text in HEAD, in the
index and on disk is not the same, one for both names of a staged
renaming, and one for each topmost directory with nothing tracked in it.
Names with a space or a character that git escapes are printed as C
strings. `git diff --numstat HEAD` compares HEAD with what the tracked
paths have on disk. Sets do not ask for the order of the lines, and nobody
reads what follows the counts, so a beginning or an end that two names of
a renaming share is printed twice here.
-/
import SdlcOs.Backend.ToolUse

namespace SdlcOs.Bedrock.DiffStats

open Data (Dict)
open Gates (strip)
open Index (gitQuote isAbsolute pathParts plainPath quoteChar splitLines
  splitOn)
open Orchestrator (sortedSet)

-- ==== paths

/-- A name in a directory. -/
def properName (name : String) : Bool :=
  name ≠ "" && name ≠ "." && name ≠ ".." && '/' ∉ name.toList

/-- A path within the workspace: the directories on the way, then the
file. -/
structure Path where
  names : List String
  nonempty : names ≠ []
  proper : names.all properName = true
  deriving DecidableEq

/-- The path with slashes. -/
def Path.text (p : Path) : String := String.intercalate "/" p.names

/-- The directories a path goes through, topmost first. -/
def Path.dirs (p : Path) : List (List String) := p.names.dropLast.inits.tail

/-- Texts at paths. -/
abbrev Tree : Type := Dict Path String

/-- What is git's to say. -/
structure Rules where
  /-- The renamings between two trees. -/
  renames : Tree → Tree → List (Path × Path)
  /-- The old name is gone, the new one was not there. -/
  moved : ∀ old new, ∀ r ∈ renames old new,
    (old.get r.1 ≠ none ∧ new.get r.1 = none) ∧
      old.get r.2 = none ∧ new.get r.2 ≠ none
  once : ∀ old new, ((renames old new).map Prod.fst).Nodup ∧
    ((renames old new).map Prod.snd).Nodup
  /-- The lines added and deleted between two texts. -/
  diff : String → String → Nat × Nat
  /-- A pathspec matches a path. -/
  matchesSpec : String → Path → Bool

/-- The lines of a text, and whether one was begun. -/
def gitLineCount : Bool → List Char → Nat
  | begun, [] => if begun then 1 else 0
  | _, '\n' :: cs => 1 + gitLineCount false cs
  | _, _ :: cs => gitLineCount true cs

/-- The lines added and deleted between what two trees have at a path. -/
def Rules.numstat (R : Rules) : Option String → Option String → Nat × Nat
  | none, none => (0, 0)
  | none, some new => (gitLineCount false new.toList, 0)
  | some old, none => (0, gitLineCount false old.toList)
  | some old, some new => R.diff old new

/-- How many these are. -/
def Rules.lines (R : Rules) (old new : Option String) : Nat :=
  (R.numstat old new).1 + (R.numstat old new).2

structure Workspace where
  head : Tree
  index : Tree
  files : Tree
  ignored : Path → Bool

namespace Workspace

variable (R : Rules) (w : Workspace)

-- ==== status

/-- The paths of HEAD and of the index. -/
def tracked : List Path := (w.head.keys ++ w.index.keys).dedup

/-- The index differs from HEAD, or from what is on disk. -/
def modified (p : Path) : Bool :=
  w.head.get p ≠ w.index.get p ||
    p ∈ w.index.keys && w.index.get p ≠ w.files.get p

/-- A file that is neither in the index nor ignored. -/
def untracked (p : Path) : Bool := p ∉ w.index.keys && !w.ignored p

/-- The index has a file in the directory. -/
def populated (d : List String) : Bool :=
  w.index.keys.any fun p => d.isPrefixOf p.names

/-- What stands for an untracked file: the topmost directory with nothing
tracked, or the file. -/
def listed (p : Path) : String :=
  match p.dirs.find? (fun d => !w.populated d) with
  | some d => String.intercalate "/" d ++ "/"
  | none => p.text

/-- The code of what is staged. -/
def stagedCode (p : Path) : Char :=
  match w.head.get p, w.index.get p with
  | none, none => ' '
  | none, some _ => 'A'
  | some _, none => 'D'
  | some old, some new => if old = new then ' ' else 'M'

/-- The code of what is not. -/
def unstagedCode (p : Path) : Char :=
  match w.index.get p, w.files.get p with
  | none, _ => ' '
  | some _, none => 'D'
  | some old, some new => if old = new then ' ' else 'M'

/-- The staged renamings. -/
def renamed : List (Path × Path) := R.renames w.head w.index

/-- The paths of some renamings. -/
def sides (rs : List (Path × Path)) : List Path :=
  rs.map Prod.fst ++ rs.map Prod.snd

end Workspace

/-- A name that git prints as it is: there is no space in it either. -/
def unquoted (name : String) : Bool :=
  plainPath name && ' ' ∉ name.toList

/-- A name in the status. -/
def statusQuote (name : String) : String :=
  if unquoted name then name
  else .ofList (Char.ofNat 0x22 :: name.toList.flatMap quoteChar ++
    [Char.ofNat 0x22])

/-- A line of the status: two codes and a name. -/
structure StatusLine where
  staged : Char
  unstaged : Char
  name : String
  deriving DecidableEq

def StatusLine.text (l : StatusLine) : String :=
  .ofList (l.staged :: l.unstaged :: ' ' :: l.name.toList)

/-- A line of the counts. -/
structure NumstatLine where
  counts : Nat × Nat
  name : String
  deriving DecidableEq

def decimal (n : Nat) : List Char := Nat.toDigits 10 n

def NumstatLine.text (l : NumstatLine) : String :=
  .ofList (decimal l.counts.1 ++ '\t' :: decimal l.counts.2 ++
    '\t' :: l.name.toList)

/-- Lines, each with a line feed. -/
def printed (lines : List String) : String :=
  .ofList (lines.flatMap fun line => line.toList ++ ['\n'])

namespace Workspace

variable (R : Rules) (w : Workspace)

def statusLines : List StatusLine :=
  (w.tracked.filter fun p => w.modified p && p ∉ sides (w.renamed R)).map
      (fun p => ⟨w.stagedCode p, w.unstagedCode p, statusQuote p.text⟩) ++
    (w.renamed R).map (fun r => ⟨'R', w.unstagedCode r.2,
      statusQuote r.1.text ++ " -> " ++ statusQuote r.2.text⟩) ++
    ((w.files.keys.filter w.untracked).map w.listed).dedup.map
      (fun name => ⟨'?', '?', statusQuote name⟩)

/-- `git status --porcelain`. -/
def status : String := printed ((w.statusLines R).map StatusLine.text)

/-- What the tracked paths have on disk. -/
def onDisk : Tree := Dict.tabulate w.index.keys w.files.get

/-- The renamings between HEAD and these. -/
def renamedOnDisk : List (Path × Path) := R.renames w.head w.onDisk

def numstatLines : List NumstatLine :=
  (w.tracked.filter fun p => w.head.get p ≠ w.onDisk.get p &&
      p ∉ sides (w.renamedOnDisk R)).map
      (fun p => ⟨R.numstat (w.head.get p) (w.onDisk.get p),
        gitQuote p.text⟩) ++
    (w.renamedOnDisk R).map fun r =>
      ⟨R.numstat (w.head.get r.1) (w.onDisk.get r.2),
        gitQuote r.1.text ++ " => " ++ gitQuote r.2.text⟩

/-- `git diff --numstat HEAD`. -/
def numstat : String := printed ((w.numstatLines R).map NumstatLine.text)

/-- `git ls-files --error-unmatch` ends with 0. -/
def lsFiles (spec : String) : Bool := w.index.keys.any (R.matchesSpec spec)

-- ==== the code

/-- `str.isdigit`, of a text without digits of other scripts. -/
def isDigits (s : String) : Bool := s.toList ≠ [] && s.toList.all Char.isDigit

/-- `int`, of digits. -/
def intOf (s : String) : Nat := Nat.ofDigitChars 10 s.toList 0

/-- What a line of the counts adds. -/
def lineChanges (line : String) : Nat :=
  match splitOn '\t' line with
  | added :: deleted :: _ =>
    if isDigits added && isDigits deleted then intOf added + intOf deleted
    else 0
  | _ => 0

/-- What is in the file, if `self._workspace_root / rel_path` is one. -/
def candidate (relPath : String) : Option String :=
  if isAbsolute relPath then none
  else (w.files.entries.find? fun e => e.1.names = pathParts relPath).map
    Prod.snd

/-- What the last loop adds for a name. -/
def freshLines (relPath : String) : Nat :=
  match w.candidate relPath with
  | some text =>
    if w.lsFiles R relPath then 0 else lineCount false text.toList
  | none => 0

/-- `_real_git_diff_stats`. -/
def realGitDiffStats : List String × Nat :=
  let filesTouched := sortedSet (((splitLines (w.status R)).filter
    fun line => strip line ≠ "").map
      fun line => strip (.ofList (line.toList.drop 3)))
  let linesChanged := ((splitLines (w.numstat R)).map lineChanges).sum
  (filesTouched, linesChanged + (filesTouched.map (w.freshLines R)).sum)

-- ==== the change

/-- What the workspace has at a path: an ignored file belongs to it only if
it is tracked. -/
def get (p : Path) : Option String :=
  if p ∈ w.index.keys ∨ w.ignored p = false then w.files.get p else none

/-- The paths in which HEAD and the workspace differ. -/
def differing : List Path :=
  (w.head.keys ++ w.files.keys).dedup.filter fun p =>
    w.head.get p ≠ w.get p

/-- The lines added and deleted in all of them. -/
def changedLines : Nat :=
  (w.differing.map fun p => R.lines (w.head.get p) (w.get p)).sum

/-- The measured diff is the real one. -/
def Exact : Prop :=
  w.realGitDiffStats R =
    (sortedSet (w.differing.map Path.text), w.changedLines R)

-- ==== the condition

/-- When the status is plain: nothing staged is a renaming or is taken back
by the disk, each untracked file is in directories with something tracked,
and no listed name has a space or is escaped. -/
structure Plainly : Prop where
  unrenamed : w.renamed R = []
  kept : ∀ p ∈ w.tracked, w.modified p = true → p ∈ w.differing
  alone : ∀ p ∈ w.files.keys, w.untracked p = true →
    ∀ d ∈ p.dirs, w.populated d = true
  spelled : ∀ p, p ∈ w.tracked ∧ w.modified p = true ∨
    p ∈ w.files.keys ∧ w.untracked p = true → unquoted p.text = true

/-- The paths there are. -/
def paths : List Path := (w.head.keys ++ w.index.keys ++ w.files.keys).dedup

end Workspace

end SdlcOs.Bedrock.DiffStats
