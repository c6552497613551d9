/-
A file system with directories, symbolic links and permissions, as far as
`pathlib` asks one for something (Python 3.14, POSIX).

# Locations

A location is the names on the way to it, the last one first, so that a
directory is the tail of what is in it. Names are code points: the bytes
of a name that are no UTF-8 stand in it as lone surrogates.

# Links

`realpath` resolves links and never fails: what it cannot look at it
takes as it stands. A path that went through it has a link on it only
where links lead back to themselves, and there the system gives up
(`Errno.loop`). So the calls here take locations and follow nothing.

# Invariants

Whatever is somewhere is in a directory (`FileSystem.parents`).
-/
import SdlcOs.Data.Dict
import SdlcOs.Data.Utf8

namespace SdlcOs.Files

open Data Utf8

-- ==== states

/-- A name in a directory. -/
abbrev Name : Type := List CodePoint

/-- A location: the last name first. -/
abbrev Loc : Type := List Name

/-- What can be at a location, with what the process may do with it. -/
inductive Node : Type where
  | file (content : List UInt8) (readable writable : Bool)
  | dir (readable writable searchable : Bool)
  | link (absolute : Bool) (target : List Name)
  deriving DecidableEq

/-- Whether it is a directory. -/
def Node.isDir : Node → Bool
  | .dir .. => true
  | _ => false

/-- What `OSError` says went wrong. -/
inductive Errno : Type where
  | noEntry
  | notDirectory
  | isDirectory
  | access
  | exists
  | loop
  | nameTooLong
  deriving DecidableEq

/-- What is where, and which locations are too long to be named. -/
structure FileSystem where
  entries : Dict Loc Node
  parents : ∀ {name : Name} {up : Loc} {node : Node},
    entries.get (name :: up) = some node →
      ∃ r w x, entries.get up = some (.dir r w x)
  tooLong : Loc → Bool

namespace FileSystem

variable (fs : FileSystem)

/-- What a file holds. -/
def content (p : Loc) : Option (List UInt8) :=
  match fs.entries.get p with
  | some (.file b _ _) => some b
  | _ => none

/-- A node can be put at a location: its directory is there, and no
directory gives way to something else. -/
def Fits (p : Loc) (node : Node) : Prop :=
  (∀ name up, p = name :: up → (fs.entries.get up).any Node.isDir = true) ∧
    (node.isDir = true ∨ (fs.entries.get p).any Node.isDir = false)

instance (p : Loc) (node : Node) : Decidable (fs.Fits p node) :=
  match p with
  | [] =>
    if h : node.isDir = true ∨ (fs.entries.get []).any Node.isDir = false
    then .isTrue ⟨fun _ _ h => (List.cons_ne_nil _ _ h.symm).elim, h⟩
    else .isFalse fun hfits => h hfits.2
  | name :: up =>
    if h : (fs.entries.get up).any Node.isDir = true ∧ (node.isDir = true ∨
      (fs.entries.get (name :: up)).any Node.isDir = false)
    then .isTrue ⟨fun _ _ he => (List.cons.inj he).2 ▸ h.1, h.2⟩
    else .isFalse fun hfits => h ⟨hfits.1 name up rfl, hfits.2⟩

theorem isDir_inv {node : Option Node} (h : node.any Node.isDir = true) :
    ∃ r w x, node = some (.dir r w x) := by
  cases node with
  | none => cases h
  | some node =>
    cases node with
    | file b r w => cases h
    | dir r w x => exact ⟨r, w, x, rfl⟩
    | link a t => cases h

theorem parents_set {p : Loc} {node : Node} (h : fs.Fits p node)
    {name : Name} {up : Loc} {there : Node}
    (hget : (fs.entries.set p node).get (name :: up) = some there) :
    ∃ r w x, (fs.entries.set p node).get up = some (.dir r w x) := by
  have hup : ∃ r w x, fs.entries.get up = some (.dir r w x) := by
    by_cases hp : name :: up = p
    · exact isDir_inv (h.1 name up hp.symm)
    · rw [Dict.get_set_ne _ hp] at hget
      exact fs.parents hget
  by_cases hp : up = p
  · obtain ⟨r, w, x, hup⟩ := hup
    rw [hp] at hup ⊢
    rw [Dict.get_set_self]
    have hdir : node.isDir = true := by
      rcases h.2 with hdir | hnot
      · exact hdir
      · rw [hup] at hnot
        cases hnot
    obtain ⟨r', w', x', hnode⟩ := isDir_inv
      (show (some node).any Node.isDir = true from hdir)
    exact ⟨r', w', x', hnode⟩
  · rw [Dict.get_set_ne _ hp]
    exact hup

/-- Nothing but "/". -/
def bare : FileSystem where
  entries := Dict.empty.set [] (.dir true true true)
  parents := by
    intro name up node h
    rw [Dict.get_set_ne _ (List.cons_ne_nil name up)] at h
    cases h
  tooLong := fun _ => false

/-- Put a node at a location where it fits. -/
def put (p : Loc) (node : Node) : FileSystem :=
  if h : fs.Fits p node then
    ⟨fs.entries.set p node, fs.parents_set h, fs.tooLong⟩
  else fs

-- ==== looking

/-- What a directory has under a name. -/
def entry (p : Loc) : Except Errno Node :=
  if fs.tooLong p then .error .nameTooLong
  else
    match fs.entries.get p with
    | none => .error .noEntry
    | some node => .ok node

/-- `lstat`: every directory on the way is searched. -/
def look : Loc → Except Errno Node
  | [] => fs.entry []
  | name :: up =>
    match look up with
    | .ok (.dir _ _ true) => fs.entry (name :: up)
    | .ok (.dir _ _ false) => .error .access
    | .ok (.file ..) => .error .notDirectory
    | .ok (.link ..) => .error .loop
    | .error e => .error e

/-- `path.is_file()`. -/
def isFile (p : Loc) : Bool :=
  match fs.look p with
  | .ok (.file ..) => true
  | _ => false

/-- `path.is_dir()`. -/
def isDir (p : Loc) : Bool :=
  match fs.look p with
  | .ok node => node.isDir
  | .error _ => false

-- ==== resolving

/-- The names "." and "..". -/
def dot : Name := [⟨0x2E, by decide⟩]

def dotDot : Name := [⟨0x2E, by decide⟩, ⟨0x2E, by decide⟩]

/-- One part of a path, given how links are followed. -/
def advance (follow : Loc → Bool → List Name → Loc) (at' : Loc)
    (part : Name) : Loc :=
  if part = [] ∨ part = dot then at'
  else if part = dotDot then at'.tail
  else
    match fs.look (part :: at') with
    | .ok (.link absolute target) => follow (part :: at') absolute target
    | _ => part :: at'

/-- The parts of a path, from a location on, while some links are being
resolved. A link met again in its own resolution stays as it is. -/
def walk : Nat → List Loc → Loc → List Name → Loc
  | 0, _, at', parts => parts.foldl (fs.advance fun p _ _ => p) at'
  | depth + 1, active, at', parts =>
    parts.foldl (fs.advance fun p absolute target =>
      if p ∈ active then p
      else walk depth (p :: active) (if absolute then [] else p.tail)
        target) at'

/-- `os.path.realpath` of an absolute path. Links within links go no
deeper than there are links. -/
def realpath (parts : List Name) : Loc :=
  fs.walk fs.entries.keys.length [] [] parts

end FileSystem

-- ==== calls

/-- A file system, and the locations whose contents were read, listed or
changed. -/
structure Disk where
  fs : FileSystem
  touched : List Loc

namespace Disk

variable (d : Disk)

/-- The disk with something touched. -/
def touch (p : Loc) : Disk := { d with touched := p :: d.touched }

/-- The disk with something put somewhere. -/
def put (p : Loc) (node : Node) : Disk :=
  ⟨d.fs.put p node, p :: d.touched⟩

/-- A location's directory takes a new name. -/
def admits (p : Loc) : Except Errno Unit :=
  match d.fs.look p.tail with
  | .ok (.dir _ true _) => .ok ()
  | .ok (.dir _ false _) => .error .access
  | _ => .error .noEntry

/-- `os.mkdir`. -/
def osMkdir (p : Loc) : Except Errno Disk :=
  match d.fs.look p with
  | .ok _ => .error .exists
  | .error .noEntry =>
    match d.admits p with
    | .ok () => .ok (d.put p (.dir true true true))
    | .error e => .error e
  | .error e => .error e

/-- What `path.mkdir(exist_ok=True)` makes of an `OSError`. -/
def mkdirFailed (p : Loc) (e : Errno) : Except Errno Unit × Disk :=
  if d.fs.isDir p then (.ok (), d) else (.error e, d)

/-- `path.mkdir(parents=True, exist_ok=True)`. -/
def mkdirs (d : Disk) : Loc → Except Errno Unit × Disk
  | [] =>
    match d.osMkdir [] with
    | .ok d => (.ok (), d)
    | .error .noEntry => (.error .noEntry, d)
    | .error e => d.mkdirFailed [] e
  | name :: up =>
    match d.osMkdir (name :: up) with
    | .ok d => (.ok (), d)
    | .error .noEntry =>
      match mkdirs d up with
      | (.error e, d) => (.error e, d)
      | (.ok (), d) =>
        match d.osMkdir (name :: up) with
        | .ok d => (.ok (), d)
        | .error .noEntry => (.error .noEntry, d)
        | .error e => d.mkdirFailed (name :: up) e
    | .error e => d.mkdirFailed (name :: up) e

/-- `path.read_bytes()`, under what is decoded. -/
def readBytes (p : Loc) : Except Errno (List UInt8) × Disk :=
  match d.fs.look p with
  | .ok (.file b true _) => (.ok b, d.touch p)
  | .ok (.file _ false _) => (.error .access, d)
  | .ok (.dir ..) => (.error .isDirectory, d)
  | .ok (.link ..) => (.error .loop, d)
  | .error e => (.error e, d)

/-- `open(path, "w")`: the file is there, and empty. -/
def openForWriting (p : Loc) : Except Errno Unit × Disk :=
  match d.fs.look p with
  | .ok (.file _ r true) => (.ok (), d.put p (.file [] r true))
  | .ok (.file _ _ false) => (.error .access, d)
  | .ok (.dir ..) => (.error .isDirectory, d)
  | .ok (.link ..) => (.error .loop, d)
  | .error .noEntry =>
    match d.admits p with
    | .ok () => (.ok (), d.put p (.file [] true true))
    | .error e => (.error e, d)
  | .error e => (.error e, d)

/-- Write to a file that is open. -/
def writeBytes (p : Loc) (b : List UInt8) : Disk :=
  match d.fs.look p with
  | .ok (.file _ r w) => d.put p (.file b r w)
  | _ => d

/-- `path.iterdir()`: the names. -/
def iterdir (p : Loc) : Except Errno (List Name) × Disk :=
  match d.fs.look p with
  | .ok (.dir true _ _) =>
    (.ok (d.fs.entries.keys.filterMap fun q =>
      if q.tail = p then q.head? else none), d.touch p)
  | .ok (.dir false _ _) => (.error .access, d)
  | .ok (.file ..) => (.error .notDirectory, d)
  | .ok (.link ..) => (.error .loop, d)
  | .error e => (.error e, d)

end Disk

end SdlcOs.Files
