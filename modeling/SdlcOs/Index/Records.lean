/-
What the index keeps of each source file (engine/model.py,
engine/qualname.py, engine/languages.py).

The adapters parse a file by itself. Two things about what they give are
fields of a record: every definition carries the path of its file, and no
two occurrences in a file start at one place, since each is read off a
node of its own in the syntax tree and no node of another's is inside it.
A chain of names is never empty.

The index is a dictionary of records by path, in the order in which they
were inserted.
-/
import SdlcOs.Data.Dict

namespace SdlcOs.Index

open Data (Dict)

-- ==== dotted names

/-- `".".join(parts)`. -/
def joinDots (parts : List String) : String := String.intercalate "." parts

/-- `s.split(c)`. -/
def splitOn (c : Char) (s : String) : List String :=
  (s.toList.splitOn c).map String.ofList

/-- `s.endswith(suffix)`. -/
def endsWith (s suffix : String) : Bool :=
  suffix.toList.isSuffixOf s.toList

/-- `PurePosixPath(path).parts` of a relative path. -/
def pathParts (path : String) : List String :=
  (splitOn '/' path).filter fun s => s ≠ "" && s ≠ "."

/-- `PurePosixPath(path).stem` of a path whose last part this is: the name
up to its last dot, unless that is its first or last character. -/
def stem (name : String) : String :=
  let tail := name.toList.reverse.takeWhile (· ≠ '.')
  let before := name.toList.reverse.drop (tail.length + 1)
  if tail = [] ∨ before = [] then name else .ofList before.reverse

/-- `module_dotted_path`. -/
def moduleDottedPath (relativePath : String) : String :=
  match (pathParts relativePath).reverse with
  | [] => ""
  | name :: dirs =>
    if stem name = "__init__" then joinDots dirs.reverse
    else joinDots (dirs.reverse ++ [stem name])

/-- `fqn`. -/
def fqn (moduleDotted : String) (symbolPath : List String) : String :=
  joinDots ((moduleDotted :: symbolPath).filter (· ≠ ""))

/-- `language_for_path`. -/
def languageForPath (path : String) : Option String :=
  if endsWith path ".py" then some "python"
  else if endsWith path ".ts" then some "typescript"
  else if endsWith path ".tsx" then some "tsx"
  else none

-- ==== records

/-- What a definition defines. -/
inductive Kind where
  | function | method | «class» | interface | variable | constant | type
  | module
  deriving DecidableEq, Repr

/-- `Definition`. -/
structure Definition where
  fqn : String
  name : String
  kind : Kind
  file : String
  line : Int
  column : Int
  endLine : Int
  snippet : String
  deriving DecidableEq, Repr

/-- `RawRef.kind`. -/
inductive RawKind where
  | call | attrRead | bareRead | importSymbol | importModule
  deriving DecidableEq, Repr

/-- `RawRef`. -/
structure RawRef where
  kind : RawKind
  chain : List String
  line : Int
  column : Int
  classContext : List String
  chain_ne : chain ≠ []

/-- `raw.chain[-1]`. -/
def RawRef.bareName (raw : RawRef) : String := raw.chain.getLast raw.chain_ne

/-- Where an occurrence starts. -/
def RawRef.position (raw : RawRef) : Int × Int := (raw.line, raw.column)

/-- What an import binds a local name to. -/
inductive BindingKind where
  | symbol | module
  deriving DecidableEq, Repr

/-- `ImportBinding`. -/
structure ImportBinding where
  localName : String
  kind : BindingKind
  target : String
  deriving DecidableEq, Repr

/-- `FileRecord`. -/
structure FileRecord where
  path : String
  language : String
  contentHash : String
  moduleDotted : String
  definitions : List Definition
  rawRefs : List RawRef
  importBindings : Dict String ImportBinding
  wildcardImportModules : List String
  sourceLines : List String
  isTestFile : Bool
  isGenerated : Bool
  lineCount : Nat
  definitions_file : ∀ d ∈ definitions, d.file = path
  rawRefs_nodup : (rawRefs.map RawRef.position).Nodup

theorem nodup_noRefs : (([] : List RawRef).map RawRef.position).Nodup :=
  List.nodup_nil

/-- `file_records`. -/
structure Corpus where
  records : Dict String FileRecord
  keyed : ∀ path r, records.get path = some r → r.path = path

namespace Corpus

variable {a b : Corpus} {r r' : FileRecord}

/-- No records. -/
def empty : Corpus := ⟨.empty, fun _ _ h => by cases h⟩

/-- `file_records.values()`. -/
def files (c : Corpus) : List FileRecord := c.records.values

/-- The same records, whatever the order they were inserted in. -/
def SameRecords (a b : Corpus) : Prop :=
  ∀ path, a.records.get path = b.records.get path

theorem mem_files {c : Corpus} :
    r ∈ c.files ↔ c.records.get r.path = some r := by
  unfold files
  rw [Dict.mem_values_iff]
  constructor
  · intro ⟨path, hget⟩
    rw [c.keyed path r hget]
    exact hget
  · intro hget
    exact ⟨r.path, hget⟩

theorem files_inj {c : Corpus} (hr : r ∈ c.files) (hr' : r' ∈ c.files)
    (hpath : r.path = r'.path) : r = r' := by
  rw [mem_files] at hr hr'
  rw [hpath, hr'] at hr
  exact (Option.some.inj hr).symm

theorem SameRecords.symm (h : SameRecords a b) : SameRecords b a :=
  fun path => (h path).symm

theorem SameRecords.mem_files (h : SameRecords a b) :
    r ∈ a.files ↔ r ∈ b.files := by
  rw [Corpus.mem_files, Corpus.mem_files, h r.path]

/-- `file_records.pop(path, None)`. -/
def erase (c : Corpus) (path : String) : Corpus where
  records := c.records.erase path
  keyed := by
    intro path' r' h
    by_cases hp : path' = path
    · rw [hp, Dict.get_erase_self] at h
      cases h
    · rw [Dict.get_erase_ne _ hp] at h
      exact c.keyed path' r' h

/-- `file_records[r.path] = r`. -/
def insert (c : Corpus) (r : FileRecord) : Corpus where
  records := c.records.set r.path r
  keyed := by
    intro path r' h
    by_cases hp : path = r.path
    · rw [hp, Dict.get_set_self] at h
      rw [← Option.some.inj h, hp]
    · rw [Dict.get_set_ne _ hp] at h
      exact c.keyed path r' h

end Corpus

end SdlcOs.Index
