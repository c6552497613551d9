/-
Building the index and refreshing it (engine/repo_index.py,
engine/git_utils.py).

# The repository

What a call meets is a `Repo`: the files of the working tree, what
`git rev-parse HEAD` gives, and what `git diff --name-status` lists
against a commit. A commit has one tree, `treeOf`. The diff lists exactly
the paths that differ between the two commits, a rename as one line with
both paths; how it pairs deleted paths with added ones is git's own. It
quotes a path unless every character is plain. A path that it lists names
a file of the working tree or nothing there.

# What is outside

A file's content is whatever `read_text` can read. The parsers, the
reading and the hash are the platform's. A rejected `git diff` raises out
of `refresh` and changes nothing.
-/
import SdlcOs.Index.Queries

namespace SdlcOs.Index

open Data (Dict sortBy)

-- ==== parsing

/-- What an adapter extracts from a file of this path. -/
structure Extracted (path : String) where
  definitions : List Definition
  rawRefs : List RawRef
  importBindings : Dict String ImportBinding
  wildcardImportModules : List String
  definitions_file : ∀ d ∈ definitions, d.file = path
  rawRefs_nodup : (rawRefs.map RawRef.position).Nodup

/-- The platform: `read_text`, `hashlib.sha256` and the two parsers. -/
structure Platform (Blob : Type) where
  readText : Blob → String
  sha256 : String → String
  pythonAdapter : (path : String) → String → Extracted path
  typescriptAdapter : (path : String) → String → Extracted path

/-- The characters that end a line for `splitlines`. -/
def endsLine (c : Char) : Bool :=
  let n := c.toNat
  (0xa ≤ n && n ≤ 0xd) || (0x1c ≤ n && n ≤ 0x1e) || n = 0x85 ||
    n = 0x2028 || n = 0x2029

/-- `splitlines`, with the line so far, its last character first. -/
def linesFrom (line : List Char) : List Char → List String
  | [] => if line = [] then [] else [.ofList line.reverse]
  | '\r' :: '\n' :: s => .ofList line.reverse :: linesFrom [] s
  | c :: s =>
    if endsLine c then .ofList line.reverse :: linesFrom [] s
    else linesFrom (c :: line) s

/-- `text.splitlines()`. -/
def splitLines (text : String) : List String := linesFrom [] text.toList

/-- `part in text`. -/
def contains (text part : String) : Bool :=
  text.toList.tails.any part.toList.isPrefixOf

/-- `_is_test_file`. -/
def isTestFile (path : String) : Bool :=
  let name := (pathParts path).getLastD ""
  "tests" ∈ pathParts path || "test" ∈ pathParts path ||
    "test_".toList.isPrefixOf name.toList || endsWith name "_test.py"

/-- `is_generated`. -/
def isGenerated (path sourceHead : String) : Bool :=
  ["_pb2.py", ".pb.go", ".g.dart", ".g.ts", "_generated.py", ".min.js"].any
      (endsWith path) ||
    ["@generated", "DO NOT EDIT", "Code generated by"].any
      (contains sourceHead)

/-- `_parse_file`, on the file's content. -/
def parseFile {Blob : Type} (env : Platform Blob) (path : String)
    (blob : Blob) : FileRecord :=
  let text := env.readText blob
  let language := (languageForPath path).getD ""
  let extracted :=
    if language = "python" then env.pythonAdapter path text
    else env.typescriptAdapter path text
  { path := path
    language := language
    contentHash := env.sha256 text
    moduleDotted := moduleDottedPath path
    definitions := extracted.definitions
    rawRefs := extracted.rawRefs
    importBindings := extracted.importBindings
    wildcardImportModules := extracted.wildcardImportModules
    sourceLines := splitLines text
    isTestFile := isTestFile path
    isGenerated := isGenerated path (.ofList (text.toList.take 2000))
    lineCount := (splitLines text).length
    definitions_file := extracted.definitions_file
    rawRefs_nodup := extracted.rawRefs_nodup }

-- ==== git

/-- A path's content in a tree. -/
abbrev Tree (Blob : Type) := String → Option Blob

/-- The characters git leaves as they are. -/
def plainChar (c : Char) : Bool :=
  0x20 ≤ c.toNat && c.toNat ≤ 0x7e && c.toNat ≠ 0x22 && c.toNat ≠ 0x5c

/-- A name that git does not quote. -/
def plainPath (path : String) : Bool := path.toList.all plainChar

/-- The letter of a character with an escape of its own. -/
def escapeLetter (c : Char) : Option Char :=
  [(0x7, 'a'), (0x8, 'b'), (0x9, 't'), (0xa, 'n'), (0xb, 'v'), (0xc, 'f'),
    (0xd, 'r'), (0x22, Char.ofNat 0x22), (0x5c, Char.ofNat 0x5c)].lookup
      c.toNat

/-- A byte as three octal digits after a backslash. -/
def octalEscape (b : UInt8) : List Char :=
  Char.ofNat 0x5c :: [b.toNat / 64, b.toNat / 8 % 8, b.toNat % 8].map
    fun n => Char.ofNat (0x30 + n)

/-- A character inside a quoted name. -/
def quoteChar (c : Char) : List Char :=
  if plainChar c then [c]
  else (escapeLetter c).elim ((String.utf8EncodeChar c).flatMap octalEscape)
    fun e => [Char.ofNat 0x5c, e]

/-- A path as git prints it. -/
def gitQuote (path : String) : String :=
  if plainPath path then path
  else .ofList (Char.ofNat 0x22 :: path.toList.flatMap quoteChar ++
    [Char.ofNat 0x22])

/-- A line of `git diff --name-status`. -/
inductive DiffLine where
  /-- `D`. -/
  | deleted (path : String)
  /-- `R`, and how alike the two are. -/
  | renamed (old new : String)
  /-- `A`, `M` or `T`. -/
  | written (path : String)
  deriving DecidableEq, Repr

/-- The path a line takes away. -/
def DiffLine.goes : DiffLine → Option String
  | .deleted path => some path
  | .renamed old _ => some old
  | .written _ => none

/-- The path a line puts there or changes. -/
def DiffLine.comes : DiffLine → Option String
  | .deleted _ => none
  | .renamed _ new => some new
  | .written path => some path

/-- The lines list exactly what differs between two trees. -/
structure DiffOf {Blob : Type} (old new : Tree Blob)
    (lines : List DiffLine) : Prop where
  goes : ∀ path, path ∈ lines.filterMap DiffLine.goes ↔
    (old path).isSome ∧ new path = none
  comes : ∀ path, path ∈ lines.filterMap DiffLine.comes ↔
    (new path).isSome ∧ old path ≠ new path

/-- What git says about the repository. -/
inductive Git where
  /-- There is no `.git`. -/
  | absent
  /-- `git rev-parse HEAD` fails. -/
  | failing
  | head (commit : String)
  deriving DecidableEq, Repr

/-- The repository a call meets. -/
structure Repo {Blob : Type} (treeOf : String → Tree Blob) where
  files : Dict String Blob
  git : Git
  diff : String → Option (List DiffLine)
  diff_exact : ∀ commit since lines, git = .head commit →
    diff since = some lines → DiffOf (treeOf since) (treeOf commit) lines

/-- `changed_files_since`, of the lines: changed or added, and deleted. -/
def changedFilesSince (lines : List DiffLine) : List String × List String :=
  ((lines.filterMap DiffLine.comes).map gitQuote,
    (lines.filterMap DiffLine.goes).map gitQuote)

-- ==== index

/-- `IGNORED_DIR_NAMES`. -/
def ignoredDirNames : List String :=
  [".git", ".venv", "node_modules", "__pycache__", ".pytest_cache",
    ".mypy_cache"]

/-- A part of the path is an ignored name. -/
def ignoredPath (path : String) : Bool :=
  (pathParts path).any (· ∈ ignoredDirNames)

/-- `RepoIndex`, what it keeps from one call to the next. The tables are
those of the records, since every call that changes these relinks. -/
structure RepoIndex where
  fileRecords : Corpus
  lastIndexedCommit : Option String
  parseCount : Nat

/-- `RefreshResult.mode`. -/
inductive Mode where
  | initial | incremental | hashDiff | noop
  deriving DecidableEq, Repr

/-- `RefreshResult`. -/
structure RefreshResult where
  reparsed : List String
  deleted : List String
  commit : Option String
  mode : Mode
  deriving DecidableEq, Repr

namespace RepoIndex

/-- `RepoIndex(...)`. -/
def new : RepoIndex := ⟨.empty, none, 0⟩

variable {Blob : Type} {treeOf : String → Tree Blob}

/-- `sorted(s)` of a set, or of a list that may say a member twice. -/
def sorted (l : List String) : List String := sortBy id l.dedup

/-- `discover_source_files`; a file's name ends as its path does. -/
def discoverSourceFiles (repo : Repo treeOf) : List String :=
  sorted (repo.files.keys.filter fun path =>
    !ignoredPath path && (languageForPath path).isSome)

/-- `self.file_records[rel] = self._parse_file(rel)`, if the file is
there. -/
def reparse (env : Platform Blob) (repo : Repo treeOf) (idx : RepoIndex)
    (path : String) : RepoIndex :=
  (repo.files.get path).elim idx fun blob =>
    { idx with
      fileRecords := idx.fileRecords.insert (parseFile env path blob)
      parseCount := idx.parseCount + 1 }

/-- `self.file_records.pop(rel, None)` for each of these. -/
def drop (idx : RepoIndex) (paths : List String) : RepoIndex :=
  { idx with fileRecords := paths.foldl Corpus.erase idx.fileRecords }

/-- The commit a build records. -/
def commitAfterBuild (last : Option String) : Git → Option String
  | .absent => last
  | .failing => none
  | .head commit => some commit

/-- `build`. -/
def build (env : Platform Blob) (idx : RepoIndex) (repo : Repo treeOf) :
    RepoIndex :=
  let built := (discoverSourceFiles repo).foldl (reparse env repo)
    { idx with fileRecords := .empty }
  { built with
    lastIndexedCommit := commitAfterBuild idx.lastIndexedCommit repo.git }

/-- The hash check of `_refresh_by_hash`: whether a file is not as its
record has it. -/
def outdated (env : Platform Blob) (repo : Repo treeOf) (idx : RepoIndex)
    (path : String) : Bool :=
  (idx.fileRecords.records.get path).all fun r =>
    (repo.files.get path).all fun blob =>
      r.contentHash ≠ env.sha256 (env.readText blob)

/-- `_refresh_by_hash`. -/
def refreshByHash (env : Platform Blob) (idx : RepoIndex)
    (repo : Repo treeOf) : RepoIndex × RefreshResult :=
  let current := discoverSourceFiles repo
  let deleted := sorted (idx.fileRecords.records.keys.filter (· ∉ current))
  let idx := idx.drop deleted
  let reparsed := current.filter (outdated env repo idx)
  (reparsed.foldl (reparse env repo) idx,
    ⟨reparsed, deleted, none, .hashDiff⟩)

/-- The loop of `refresh` over what git lists. -/
def refreshByDiff (env : Platform Blob) (idx : RepoIndex)
    (repo : Repo treeOf) (commit : String) (lines : List DiffLine) :
    RepoIndex × RefreshResult :=
  let changed := (sorted (changedFilesSince lines).1).filter fun path =>
    (languageForPath path).isSome
  let exists_ := fun path => (repo.files.get path).isSome
  let deleted := sorted ((changedFilesSince lines).2 ++
    changed.filter fun path => !exists_ path)
  let reparsed := changed.filter exists_
  ({ (reparsed.foldl (reparse env repo) idx).drop deleted with
      lastIndexedCommit := some commit },
    ⟨reparsed, deleted, some commit, .incremental⟩)

/-- `refresh`; no result when it raises. -/
def refresh (env : Platform Blob) (idx : RepoIndex) (repo : Repo treeOf) :
    RepoIndex × Option RefreshResult :=
  match repo.git with
  | .absent | .failing => (refreshByHash env idx repo).map id some
  | .head commit =>
    match idx.lastIndexedCommit with
    | none =>
      (build env idx repo,
        some ⟨sorted (build env idx repo).fileRecords.records.keys, [],
          (build env idx repo).lastIndexedCommit, .initial⟩)
    | some last =>
      if commit = last then (idx, some ⟨[], [], some commit, .noop⟩)
      else
        match repo.diff last with
        | none => (idx, none)
        | some lines =>
          (refreshByDiff env idx repo commit lines).map id some

/-- A call that changes the index. -/
inductive Call where
  | build | refresh
  deriving DecidableEq, Repr

/-- The index after a call. -/
def call (env : Platform Blob) (idx : RepoIndex) (repo : Repo treeOf) :
    Call → RepoIndex
  | .build => build env idx repo
  | .refresh => (refresh env idx repo).1

/-- The index after a run of calls, each of the repository it meets. -/
def run (env : Platform Blob) (idx : RepoIndex)
    (calls : List (Call × Repo treeOf)) : RepoIndex :=
  calls.foldl (fun idx c => call env idx c.2 c.1) idx

end RepoIndex

end SdlcOs.Index
