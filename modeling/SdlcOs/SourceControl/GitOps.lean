/-
Worktrees and branches of a repository (source-control: git_ops.py).

# git

What git says of a revision, and which commit an object stands for, is the
repository's. `git worktree add -b` adds a branch at a commit and a worktree
that has it checked out, or nothing; it refuses what stands for no commit
and names with control characters. `git worktree list --porcelain` prints
paths and names as they are.

# Paths

There are no symbolic links, so a path is resolved name by name. The lock
lets calls for one repository come one after the other.
-/
import SdlcOs.Index.Tenants

namespace SdlcOs.SourceControl.GitOps

open Data (Dict)
open Gates (strip)
open Index (endsWith isAbsolute joinPath pathParts resolve splitLines)

-- ==== repositories

/-- A hexadecimal digit. -/
def isHex (c : Char) : Bool :=
  (48 ≤ c.toNat && c.toNat ≤ 57) || (97 ≤ c.toNat && c.toNat ≤ 102)

/-- The id of an object. -/
structure Oid where
  text : String
  hex : text.toList.all isHex = true
  deriving DecidableEq

/-- A worktree, as git lists it. -/
structure Worktree where
  path : String
  head : Oid
  branch : Option String
  deriving DecidableEq

/-- A repository, and the files around it. -/
structure Repo where
  /-- The commit of each branch. -/
  branches : Dict String Oid
  worktrees : List Worktree
  /-- `git rev-parse --verify` of a revision, with these branches. -/
  revs : Dict String Oid → String → Option Oid
  /-- The commit an object stands for. -/
  commitOf : Oid → Option Oid
  /-- `Path.exists`, and `Path.is_dir`. -/
  present : List String → Bool
  isDir : List String → Bool

/-- `str(path)`. -/
def pathText (path : List String) : String :=
  "/" ++ String.intercalate "/" path

namespace Repo

/-- `_resolve_ref_sha`, `none` for its error. -/
def resolveRefSha (repo : Repo) (ref : String) : Option Oid :=
  repo.revs repo.branches ref

/-- `_branch_sha`. -/
def branchSha (repo : Repo) (branchName : String) : Option Oid :=
  repo.branches.get branchName

/-- The line of what a worktree has checked out. -/
def checkoutLine : Option String → String
  | some branch => "branch refs/heads/" ++ branch
  | none => "detached"

/-- The lines that list a worktree. -/
def listing (w : Worktree) : List String :=
  ["worktree " ++ w.path, "HEAD " ++ w.head.text, checkoutLine w.branch, ""]

/-- `git worktree list --porcelain`. -/
def porcelain (repo : Repo) : String :=
  .ofList ((repo.worktrees.flatMap listing).flatMap fun line =>
    line.toList ++ ['\n'])

/-- The loop of `_existing_worktree_path`, with `current_path`. -/
def scan (branchName : String) : Option String → List String → Option String
  | _, [] => none
  | currentPath, line :: lines =>
    if "worktree ".toList.isPrefixOf line.toList then
      scan branchName
        (some (strip (.ofList (line.toList.drop "worktree ".length)))) lines
    else if line = "branch refs/heads/" ++ branchName ∧
        currentPath.getD "" ≠ "" then
      currentPath
    else scan branchName currentPath lines

/-- `_existing_worktree_path`. -/
def existingWorktreePath (repo : Repo) (branchName : String) :
    Option String :=
  scan branchName none (splitLines repo.porcelain)

/-- `path.mkdir(parents=True, exist_ok=True)`. -/
def mkdir (repo : Repo) (path : List String) : Repo :=
  { repo with
    present := fun p => repo.present p || p.isPrefixOf path
    isDir := fun p => repo.isDir p || p.isPrefixOf path }

/-- git takes a name for a branch's. -/
def nameable (branchName : String) : Bool :=
  branchName.toList.all fun c => 32 ≤ c.toNat && c.toNat ≠ 127

/-- `git worktree add -b`, if git will. -/
def addWorktree (repo : Repo) (branchName : String) (path : List String)
    (sha : Oid) : Option Repo :=
  if nameable branchName then
    (repo.commitOf sha).map fun commit =>
      { repo.mkdir path with
        branches := repo.branches.set branchName commit
        worktrees := repo.worktrees ++
          [⟨pathText path, commit, some branchName⟩] }
  else none

end Repo

-- ==== calls

/-- The characters of `_VALID_BRANCH_NAME_RE`. -/
def isBranchChar (c : Char) : Bool :=
  (65 ≤ c.toNat && c.toNat ≤ 90) || (97 ≤ c.toNat && c.toNat ≤ 122) ||
    (48 ≤ c.toNat && c.toNat ≤ 57) || c = '.' || c = '_' || c = '/' || c = '-'

/-- `_validate_branch_name` lets a name through. `$` matches before a line
feed that comes last, too. -/
def validBranchName (branchName : String) : Bool :=
  let body := if endsWith branchName "\n" then branchName.toList.dropLast
    else branchName.toList
  body ≠ [] && body.all isBranchChar && branchName.toList.head? ≠ some '-'

/-- What `create_branch_worktree` raises. -/
inductive Failure : Type where
  /-- "invalid branch name: {branch_name!r}" -/
  | invalidBranchName (branchName : String)
  /-- "embedded null byte" -/
  | valueError
  /-- "base_ref '{ref}' does not exist in this repository" -/
  | noBaseRef (ref : String)
  | branchAlreadyExists (branchName baseRef : String) (sha : Oid)
  /-- "worktree path already exists but is not registered to branch
  '{branch_name}': {worktree_path}" -/
  | pathExists (branchName path : String)
  | osError
  /-- "git {' '.join(args)} failed (exit {returncode}): {stderr}" -/
  | gitFailed (args : List String)
  | assertionError

/-- `WorktreeResult`. -/
structure WorktreeResult where
  branchName : String
  baseRef : String
  sha : Oid
  worktreePath : String

/-- A call of `create_branch_worktree`, and whether its `mkdir` and its
`git worktree add` are let through. -/
structure Call where
  baseRef : String
  branchName : String
  sessionId : String
  mkdirs : Bool
  adds : Bool

/-- `(worktrees_root / session_id).resolve()`. -/
def worktreePath (worktreesRoot : List String) (sessionId : String) :
    List String :=
  resolve (joinPath worktreesRoot sessionId)

/-- The section of `create_branch_worktree` that is locked. -/
def Call.locked (call : Call) (path : List String) (repo : Repo) :
    Except Failure WorktreeResult × Repo :=
  match repo.resolveRefSha call.baseRef with
  | none => (.error (.noBaseRef call.baseRef), repo)
  | some baseSha =>
    match repo.branchSha call.branchName with
    | some existingSha =>
      if repo.existingWorktreePath call.branchName =
          some (pathText path) ∧ repo.isDir path = true then
        (.ok ⟨call.branchName, call.baseRef, existingSha, pathText path⟩,
          repo)
      else
        (.error (.branchAlreadyExists call.branchName call.baseRef
          existingSha), repo)
    | none =>
      if repo.present path then
        (.error (.pathExists call.branchName (pathText path)), repo)
      else if call.mkdirs then
        let repo := repo.mkdir path.dropLast
        match if call.adds then
            repo.addWorktree call.branchName path baseSha
          else none with
        | none =>
          (.error (.gitFailed ["worktree", "add", "-b",
            call.branchName, pathText path, baseSha.text]), repo)
        | some repo =>
          if repo.branchSha call.branchName = some baseSha then
            (.ok ⟨call.branchName, call.baseRef, baseSha,
              pathText path⟩, repo)
          else (.error .assertionError, repo)
      else (.error .osError, repo)

/-- `create_branch_worktree`. -/
def createBranchWorktree (worktreesRoot : List String) (call : Call)
    (repo : Repo) : Except Failure WorktreeResult × Repo :=
  if validBranchName call.branchName = false then
    (.error (.invalidBranchName call.branchName), repo)
  else if Char.ofNat 0 ∈ call.sessionId.toList then
    (.error .valueError, repo)
  else call.locked (worktreePath worktreesRoot call.sessionId) repo

end SdlcOs.SourceControl.GitOps
