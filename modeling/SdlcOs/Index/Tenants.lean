/-
Tenants, their repositories' paths, and what a file says about owners and
contents (index_server/tenants.py, ratelimit.py, engine/summary.py,
engine/ownership.py).

A path is the list of its components; `.` and empty ones are dropped when
it is read, `..` is not. Without symbolic links `resolve` takes `..` away
by the component before it, whatever is there, while a system call walks:
every component but the last has to be a directory (`walk`). What
`rglob` and git find in a directory (`repo`, `log`) is what is below it.
-/
import Mathlib.Data.Rat.Defs
import SdlcOs.Index.Refresh

namespace SdlcOs.Index

open Data (Dict sortBy)

-- ==== paths

/-- One component further. -/
def next (pos : List String) (c : String) : List String :=
  if c = ".." then pos.dropLast else pos ++ [c]

/-- `Path.resolve`. -/
def resolve (path : List String) : List String := path.foldl next []

/-- `Path.is_absolute`. -/
def isAbsolute (path : String) : Bool := "/".toList.isPrefixOf path.toList

/-- `root / path`. -/
def joinPath (root : List String) (path : String) : List String :=
  if isAbsolute path then pathParts path else root ++ pathParts path

/-- `_safe_join`. -/
def safeJoin (root : List String) (path : String) : Option (List String) :=
  if (resolve root).isPrefixOf (resolve (joinPath root path)) then
    some (resolve (joinPath root path))
  else none

/-- A file system, with what git says in its directories: the lines of
`git log`, author and date, of the last 90 days or of all, or how it
fails. -/
structure Store {Blob : Type} (treeOf : String → Tree Blob) where
  isDir : List String → Bool
  file : List String → Option Blob
  modified : List String → String
  repo : List String → Repo treeOf
  log : List String → Bool → String → Except String (List (String × String))

namespace Store

variable {Blob : Type} {treeOf : String → Tree Blob}

/-- Where a path leads from a position, if there is a way. -/
def walk (fs : Store treeOf) : List String → List String →
    Option (List String)
  | pos, [] => some pos
  | pos, c :: path => if fs.isDir pos then fs.walk (next pos c) path else none

/-- The file at a path. -/
def fileAt (fs : Store treeOf) (path : List String) : Option Blob :=
  (fs.walk [] path).bind fs.file

/-- `path.is_dir()`. -/
def isDirAt (fs : Store treeOf) (path : List String) : Bool :=
  (fs.walk [] path).any fs.isDir

/-- When what is at a path was modified, if anything is. -/
def modifiedAt (fs : Store treeOf) (path : List String) : Option String :=
  ((fs.walk [] path).filter fun pos =>
    fs.isDir pos || (fs.file pos).isSome).map fs.modified

end Store

-- ==== registry

/-- `TenantRegistry`: the repositories of each tenant, and the directory
of the configuration file. -/
structure Registry where
  config : Dict String (Dict String String)
  baseDir : List String

/-- `is_known_tenant`. -/
def Registry.isKnownTenant (reg : Registry) (tenant : String) : Bool :=
  (reg.config.get tenant).isSome

/-- `repo_path`. -/
def Registry.repoPath (reg : Registry) (tenant repository : String) :
    Option (List String) :=
  (reg.config.get tenant).bind fun repos =>
    (repos.get repository).map fun raw =>
      if isAbsolute raw then pathParts raw
      else resolve (reg.baseDir ++ pathParts raw)

/-- `repositories_for`. -/
def Registry.repositoriesFor (reg : Registry) (tenant : String) :
    List String :=
  (reg.config.get tenant).elim [] (·.keys)

/-- `_Window`. -/
structure Window where
  startedAt : ℚ
  count : Int
  deriving DecidableEq

/-- `RateLimiter`, what it is built with. -/
structure RateLimiter where
  limit : Int
  windowSeconds : ℚ

/-- `int(x)`. -/
def truncate (x : ℚ) : Int := x.num.tdiv x.den

/-- `RateLimiter.check`, on a tenant's window: the window after it, and
the seconds to wait if the call is refused. -/
def RateLimiter.check (lim : RateLimiter) (now : ℚ) :
    Option Window → Window × Option Int
  | none => (⟨now, 1⟩, none)
  | some w =>
    if lim.windowSeconds ≤ now - w.startedAt then (⟨now, 1⟩, none)
    else if w.count < lim.limit then (⟨w.startedAt, w.count + 1⟩, none)
    else (w, some (max 0
      (truncate (lim.windowSeconds - (now - w.startedAt)) + 1)))

-- ==== summary

/-- A kind's name. -/
def Kind.text : Kind → String
  | .function => "function"
  | .method => "method"
  | .class => "class"
  | .interface => "interface"
  | .variable => "variable"
  | .constant => "constant"
  | .type => "type"
  | .module => "module"

/-- The names of one kind in a summary. -/
def kindPart (definitions : List Definition) (kind : Kind) : Option String :=
  let names := (definitions.filter (·.kind = kind)).map (·.name)
  if names = [] then none
  else some (kind.text ++ "s: " ++ String.intercalate ", " (names.take 8) ++
    (if 8 < names.length then
      " (+" ++ toString (names.length - 8) ++ " more)" else "") ++ ".")

/-- `summarize`. -/
def summarize (path : String) (definitions : List Definition)
    (lineCount : Nat) (generated : Bool) : String :=
  if definitions = [] then
    path ++ ": " ++ toString lineCount ++
      " lines, no top-level definitions indexed."
  else
    String.intercalate " " (
      [path ++ ": " ++ toString lineCount ++ " lines, " ++
        toString definitions.length ++ " symbol(s)."] ++
      [Kind.class, .interface, .function, .method, .type, .constant,
        .variable].filterMap (kindPart definitions) ++
      if generated then
        ["This file is machine-generated -- summarized, not returned " ++
          "whole (Sec. 6.3)."]
      else [])

-- ==== ownership

/-- `OwnersRule`. -/
structure OwnersRule where
  pattern : String
  owners : List String
  deriving DecidableEq, Repr

/-- `str.split()`. -/
def words (s : String) : List String :=
  ((s.toList.splitOnP Gates.isSpace).map String.ofList).filter (· ≠ "")

/-- `s.lstrip(c)`. -/
def lstripChar (c : Char) (s : String) : String :=
  .ofList (s.toList.dropWhile (· = c))

/-- `s.rstrip(c)`. -/
def rstripChar (c : Char) (s : String) : String :=
  .ofList (s.toList.reverse.dropWhile (· = c)).reverse

/-- `s.startswith(start)`. -/
def startsWith (s start : String) : Bool :=
  start.toList.isPrefixOf s.toList

/-- The rule of a line of CODEOWNERS. -/
def ownersRule (line : String) : Option OwnersRule :=
  let line := Gates.strip line
  if line = "" ∨ startsWith line "#" then none
  else
    match words line with
    | [] => none
    | pattern :: owners =>
      if owners = [] then none else some ⟨pattern, owners⟩

/-- `_pattern_matches`, with the platform's `fnmatch`. -/
def patternMatches (fnmatch : String → String → Bool)
    (pattern path : String) : Bool :=
  let pattern := Gates.strip pattern
  let normalized := lstripChar '/' pattern
  if pattern = "*" ∨ pattern = "/*" then true
  else if endsWith normalized "/" then
    path = rstripChar '/' normalized || startsWith path normalized
  else if !pattern.toList.contains '/' then
    fnmatch ((pathParts path).getLastD "") normalized
  else
    fnmatch path normalized || startsWith path (rstripChar '*' normalized)

/-- `owners_for_path`: the last rule that matches. -/
def ownersForPath (fnmatch : String → String → Bool)
    (rules : List OwnersRule) (path : String) : List String :=
  ((rules.filter (patternMatches fnmatch ·.pattern path)).getLast?).elim []
    (·.owners)

/-- `ChangeFrequency`. -/
structure ChangeFrequency where
  commitsLast90d : Nat
  lastModified : String
  topContributors : List String
  deriving DecidableEq, Repr

/-- Authors by their lines, the most first. -/
def topContributors (lines : List (String × String)) : List String :=
  sortBy (fun a => -(((lines.map Prod.fst).count a : Nat) : Int))
    (Data.firsts id (lines.map Prod.fst))

/-- The entry of a path whose history is not empty. -/
def frequency (commitsLast90d : Nat) (line : String × String)
    (lines : List (String × String)) : ChangeFrequency :=
  ⟨commitsLast90d, line.2, topContributors (line :: lines)⟩

/-- `change_frequency`; an error is `GitUnavailable`. -/
def changeFrequency
    (log : Bool → String → Except String (List (String × String)))
    (path : String) : Except String (Option ChangeFrequency) :=
  (log true path).bind fun recent =>
    match recent with
    | line :: lines => .ok (some (frequency (lines.length + 1) line lines))
    | [] => (log false path).map fun full =>
      match full with
      | line :: lines => some (frequency 0 line lines)
      | [] => none

end SdlcOs.Index
