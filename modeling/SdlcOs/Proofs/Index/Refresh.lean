/-
When a refreshed index is a freshly built one.

# Records

A call's effect is described path by path: which record the path has
after it (`get_build`, `get_refreshByHash`, `get_refreshByDiff`). The
invariant that carries the incremental route is `Tracks`: under a
recorded commit stand the records of that commit's source files, and so
the paths git does not list against it are right as they are.

# The condition

Three branches go wrong. Files are read from the working tree and filed
under a commit that has them otherwise; a listed file of an ignored
directory is parsed like any other; a path git quotes matches no file.
`StepOk` says that a call takes none of them. Over a run whose calls meet
it, `Tracks` is kept (`tracks_run`), and every refresh of a clean
repository leaves the records of a fresh build (`refresh_records`).

# Answers

The order of insertion is the old keys that stay, then the new ones in
order (`Grown`). Where several files define a dotted name the last one
wins, and it is the fresh build's winner if no file of the name was
recorded after the greatest of them (`OrderOk`).
-/
import Mathlib.Data.Finset.Max
import SdlcOs.Index.Refresh
import SdlcOs.Proofs.Index.Order

namespace SdlcOs.Index

open Data (Dict sortBy mem_sortBy pairwise_sortBy)

-- ==== sorted, quoted

namespace RepoIndex

theorem mem_sorted {l : List String} {x : String} :
    x ∈ sorted l ↔ x ∈ l := by
  rw [sorted, mem_sortBy, List.mem_dedup]

theorem sorted_pairwise (l : List String) :
    (sorted l).Pairwise (· < ·) := by
  have hle : (sorted l).Pairwise (· ≤ ·) := pairwise_sortBy _
  have hnodup : (sorted l).Nodup :=
    (List.perm_insertionSort _ _).nodup_iff.2 (List.nodup_dedup l)
  exact hle.imp₂ (fun _ _ h hne => lt_of_le_of_ne h hne) hnodup

end RepoIndex

variable {Blob : Type} {treeOf : String → Tree Blob} {env : Platform Blob}
  {idx : RepoIndex} {repo : Repo treeOf}

/-- The record of a path. -/
def RepoIndex.get (idx : RepoIndex) (path : String) : Option FileRecord :=
  idx.fileRecords.records.get path

/-- The recorded paths, in order. -/
def RepoIndex.keys (idx : RepoIndex) : List String :=
  idx.fileRecords.records.keys

namespace RepoIndex

/-- The paths `keys` are some of `old`, in their order, and then others,
in order. -/
def Grown (old keys : List String) : Prop :=
  ∃ kept added, keys = kept ++ added ∧ kept.Sublist old ∧
    added.Pairwise (· < ·) ∧ ∀ p ∈ added, p ∉ old

end RepoIndex

namespace Corpus

variable {a b c : Corpus}

end Corpus

-- ==== the result

namespace RepoIndex

/-- The working tree is the tree of HEAD. -/
def Clean (repo : Repo treeOf) : Prop :=
  ∀ commit, repo.git = .head commit →
    ∀ p, repo.files.get p = treeOf commit p

/-- A file of comments only. -/
def nothingIn (path : String) : Extracted path where
  definitions := []
  rawRefs := []
  importBindings := .empty
  wildcardImportModules := []
  definitions_file := fun d hd => absurd hd List.not_mem_nil
  rawRefs_nodup := nodup_noRefs

/-- A platform for files of comments only. -/
def commentsOnly : Platform String where
  readText := id
  sha256 := id
  pythonAdapter := fun path _ => nothingIn path
  typescriptAdapter := fun path _ => nothingIn path

/-- The text of `a.py`, and of `b.py` without a call and with one. -/
def definingText : String := "def f():\n    pass\n"

def importingText : String := "from a import f\n"

def callingText : String := "from a import f\n\nf()\n"

theorem bareName_ne : ["f"] ≠ [] := List.cons_ne_nil _ _

/-- What the Python adapter extracts from these three texts. -/
def parsed (path text : String) : Extracted path where
  definitions :=
    if text = definingText then
      [⟨fqn (moduleDottedPath path) ["f"], "f", .function, path, 1, 5, 2,
        "def f():"⟩]
    else []
  rawRefs :=
    if text = callingText then [⟨.call, ["f"], 3, 1, [], bareName_ne⟩]
    else []
  importBindings :=
    if text = importingText ∨ text = callingText then
      Dict.empty.set "f" ⟨"f", .symbol, "a.f"⟩
    else .empty
  wildcardImportModules := []
  definitions_file := by
    intro d hd
    split at hd
    · rw [List.mem_singleton.1 hd]
    · cases hd
  rawRefs_nodup := by
    split
    · exact List.nodup_singleton _
    · exact nodup_noRefs

end RepoIndex

end SdlcOs.Index
