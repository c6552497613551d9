/-
The tools `BedrockToolUseAgentBackend` runs for the model, down to the
bytes and the file system (tool_use_bedrock_backend.py).

ToolUse.lean asks what the trees hold, with whatever the model asks for
and wherever the file system fails as the outside's part. Here the input
is any JSON value, the files are bytes with permissions, and what fails
and how is computed.

# Exceptions

`_execute_tool` catches `ValueError`, `KeyError` and `TypeError` and
answers them to the model. Texts that cannot be encoded and names that
cannot be asked for are `ValueError`s; what the file system refuses is an
`OSError`, and a method that a value does not have an `AttributeError`.

# Encodings

The service runs on Python 3.14 with UTF-8 as its encoding and "\n" as
its line end (its Dockerfile), so a text file is read with universal
newlines and written as it is.
-/
import Mathlib
import SdlcOs.Files.System

namespace SdlcOs.Backend.Tools

open Data Utf8 Files

-- ==== values

/-- A `str`. -/
abbrev Str : Type := List CodePoint

/-- A literal. -/
def str (s : String) : Str := s.toList.map fun c => point c.toNat

/-- A number that JSON is loaded as. -/
inductive Num : Type where
  | finite (q : ℚ)
  | inf (negative : Bool)
  | nan

/-- A value that JSON is loaded as. -/
inductive Value : Type where
  | null
  | bool (b : Bool)
  | num (x : Num)
  | str (s : Str)
  | arr (xs : List Value)
  | obj (ms : List (Str × Value))

namespace Value

/-- A key's value. -/
def find (key : Str) : List (Str × Value) → Option Value
  | [] => none
  | m :: ms => if m.1 = key then some m.2 else find key ms

/-- `a == b` of numbers. -/
def sameNum : Num → Num → Bool
  | .finite q, .finite r => q = r
  | .inf a, .inf b => a = b
  | _, _ => false

/-- What a value is as a number: the booleans are 1 and 0. -/
def number : Value → Option Num
  | .bool b => some (.finite (if b then 1 else 0))
  | .num x => some x
  | _ => none

/-- `bool(v)`. -/
def truth : Value → Bool
  | .null => false
  | .bool b => b
  | .num x => !sameNum x (.finite 0)
  | .str s => s ≠ []
  | .arr xs => !xs.isEmpty
  | .obj ms => !ms.isEmpty

mutual

/-- `a == b`. -/
def same : Value → Value → Bool
  | .null, v => match v with
      | .null => true
      | _ => false
  | .bool b, v =>
    (number v).any (sameNum (.finite (if b then 1 else 0)))
  | .num x, v => (number v).any (sameNum x)
  | .str s, v => match v with
      | .str t => s = t
      | _ => false
  | .arr xs, v => match v with
      | .arr ys => sameAll xs ys
      | _ => false
  | .obj ms, v => match v with
      | .obj ns => ms.length = ns.length && sameMembers ms ns
      | _ => false

/-- Element by element. -/
def sameAll : List Value → List Value → Bool
  | [], ys => ys.isEmpty
  | x :: xs, ys => match ys with
      | [] => false
      | y :: ys => same x y && sameAll xs ys

/-- Key by key. -/
def sameMembers : List (Str × Value) → List (Str × Value) → Bool
  | [], _ => true
  | (key, x) :: ms, ns =>
    (find key ns).any (fun y => same x y) && sameMembers ms ns

end

end Value

-- ==== exceptions

/-- What the model is told went wrong. -/
inductive Message : Type where
  /-- "path {relative!r} escapes the workspace root {root_resolved} --
  refused" -/
  | escapes (relative : Str) (rootResolved : Loc)
  /-- "no such file: {path}" -/
  | noSuchFile (path : Str)
  /-- "no such file: {path} -- use write_file to create a new file" -/
  | noSuchFileToEdit (path : Str)
  /-- "no such directory: {path}" -/
  | noSuchDirectory (path : Str)
  /-- "old_str and new_str are identical -- this would be a no-op edit" -/
  | identical
  /-- "old_str was not found in the file -- ..." -/
  | notFound
  /-- "old_str is not unique in the file ({occurrences} occurrences found)
  -- ..." -/
  | notUnique (occurrences : Nat)
  /-- "unknown tool {name!r}" -/
  | unknownTool (name : Str)
  /-- "{name}: missing required field {field!r} in the tool call input" -/
  | missingField (name field : Str)
  /-- `str(exc)` of a `TypeError` the interpreter raised. -/
  | wrongType
  /-- `str(exc)` of a `ValueError` about a name with a NUL or a lone
  surrogate in it, or of a text with one. -/
  | notEncodable
  deriving DecidableEq

/-- What a tool may raise. -/
inductive Exn : Type where
  | valueError (message : Message)
  | keyError (field : Str)
  | typeError
  | attributeError
  | osError (e : Errno)
  deriving DecidableEq

/-- What a tool answers. -/
inductive Payload : Type where
  | content (text : Str)
  | written (path : Str) (bytes : Nat)
  | edited (path : Str) (replacements : Nat)
  | entries (names : List Str)
  | error (message : Message)
  deriving DecidableEq

/-- An answer that something went wrong. -/
def Payload.isError : Payload → Bool
  | .error _ => true
  | _ => false

-- ==== actions

/-- Something that is done to the disk. -/
def Act (α : Type) : Type := Disk → Except Exn α × Disk

namespace Act

variable {α β : Type}

instance : Monad Act where
  pure a := fun d => (.ok a, d)
  bind m f := fun d =>
    match m d with
    | (.ok a, d) => f a d
    | (.error x, d) => (.error x, d)

/-- Nothing is done, and it may raise. -/
def lift (r : Except Exn α) : Act α := fun d => (r, d)

/-- What the file system is asked to do. -/
def system (call : Disk → Except Errno α × Disk) : Act α := fun d =>
  match call d with
  | (.ok a, d) => (.ok a, d)
  | (.error e, d) => (.error (.osError e), d)

/-- What is looked up, which may raise. -/
def ask (f : FileSystem → Except Exn α) : Act α := fun d => (f d.fs, d)

/-- What is looked up. -/
def get (f : FileSystem → α) : Act α := ask fun fs => .ok (f fs)

/-- What cannot fail. -/
def modify (f : Disk → Disk) : Act Unit := fun d => (.ok (), f d)

end Act

-- ==== inputs

/-- `tool_input[key]`. -/
def item (toolInput : Value) (key : String) : Except Exn Value :=
  match toolInput with
  | .obj ms =>
    match Value.find (str key) ms with
    | some v => .ok v
    | none => .error (.keyError (str key))
  | _ => .error .typeError

/-- `tool_input.get(key, default)`. -/
def getD (toolInput : Value) (key : String) (default : Value) :
    Except Exn Value :=
  match toolInput with
  | .obj ms => .ok ((Value.find (str key) ms).getD default)
  | _ => .error .attributeError

/-- The slash. -/
def slash : CodePoint := ⟨0x2F, by decide⟩

/-- What stands between the slashes. -/
def parts (path : Str) : List Name := path.splitOn slash

/-- A code point that can be in a name: not NUL, and not a surrogate but
for those that stand for bytes. -/
def nameable (c : CodePoint) : Bool :=
  c.val ≠ 0 && (c.val < 0xD800 || (0xDC80 ≤ c.val && c.val < 0xDD00) ||
    0xE000 ≤ c.val)

/-- Locations, as lists of lists of code points, compare lawfully. -/
instance lawfulBEq_loc : LawfulBEq Loc :=
  @List.instLawfulBEq _ _ (@List.instLawfulBEq _ _ instLawfulBEq)

/-- `_safe_join`, for a root of the given parts. -/
def safeJoin (fs : FileSystem) (root : List Name) (relative : Value) :
    Except Exn Loc :=
  match relative with
  | .str path =>
    if path.all nameable then
      let candidate := fs.realpath
        (if path.head? = some slash then parts path
          else root ++ parts path)
      let rootResolved := fs.realpath root
      if candidate ≠ rootResolved ∧ rootResolved ∉ candidate.tail.tails
      then .error (.valueError (.escapes path rootResolved))
      else .ok candidate
    else .error (.valueError .notEncodable)
  | _ => .error .typeError

/-- What an f-string shows of a path that `_safe_join` took. -/
def shown : Value → Str
  | .str path => path
  | _ => []

-- ==== texts

/-- `path.read_text(errors="replace")`. -/
def readTextAt (p : Loc) : Act Str := do
  let b ← Act.system (·.readBytes p)
  pure (readText b)

/-- `path.write_text(data)`: the file is opened, and then the text is
encoded. -/
def writeTextAt (p : Loc) (data : Value) : Act Unit :=
  match data with
  | .str text => do
    Act.system (·.openForWriting p)
    match encode text with
    | none => Act.lift (.error (.valueError .notEncodable))
    | some b => Act.modify (·.writeBytes p b)
  | _ => Act.lift (.error .typeError)

/-- `content.count(old_str)`. -/
def countOf (content : Str) (oldStr : Value) : Except Exn Nat :=
  match oldStr with
  | .str old => .ok (count old 0 content)
  | _ => .error .typeError

/-- `content.replace(old_str, new_str, limit)`. -/
def replaceIn (content : Str) (oldStr newStr : Value)
    (limit : Option Nat) : Except Exn Str :=
  match oldStr, newStr with
  | .str old, .str new => .ok (replace old new limit 0 content)
  | _, _ => .error .typeError

/-- `a <= b` of texts. -/
def lexLe : Str → Str → Bool
  | [], _ => true
  | _ :: _, [] => false
  | a :: s, b :: t => a.val < b.val || (a.val = b.val && lexLe s t)

-- ==== tools

variable (root : List Name)

/-- The `read_file` branch. -/
def executeReadFile (toolInput : Value) : Act Payload := do
  let path ← Act.lift (item toolInput "path")
  let p ← Act.ask (safeJoin · root path)
  let isFile ← Act.get (·.isFile p)
  if isFile = false then pure (.error (.noSuchFile (shown path)))
  else do
    let text ← readTextAt p
    pure (.content text)

/-- The `write_file` branch. -/
def executeWriteFile (toolInput : Value) : Act Payload := do
  let path ← Act.lift (item toolInput "path")
  let p ← Act.ask (safeJoin · root path)
  Act.system (·.mkdirs p.tail)
  let content ← Act.lift (item toolInput "content")
  writeTextAt p content
  pure (.written (shown path) (shown content).length)

/-- `_execute_edit_file`. -/
def executeEditFile (toolInput : Value) : Act Payload := do
  let path ← Act.lift (item toolInput "path")
  let p ← Act.ask (safeJoin · root path)
  let oldStr ← Act.lift (item toolInput "old_str")
  let newStr ← Act.lift (item toolInput "new_str")
  let all ← Act.lift (getD toolInput "replace_all" (.bool false))
  let isFile ← Act.get (·.isFile p)
  if isFile = false then pure (.error (.noSuchFileToEdit (shown path)))
  else if oldStr.same newStr then pure (.error .identical)
  else do
    let content ← readTextAt p
    let occurrences ← Act.lift (countOf content oldStr)
    if occurrences = 0 then pure (.error .notFound)
    else if 1 < occurrences ∧ all.truth = false then
      pure (.error (.notUnique occurrences))
    else do
      let newContent ← Act.lift (replaceIn content oldStr newStr
        (if all.truth then none else some 1))
      writeTextAt p (.str newContent)
      pure (.edited (shown path) (if all.truth then occurrences else 1))

/-- The `list_files` branch. -/
def executeListFiles (toolInput : Value) : Act Payload := do
  let path ← Act.lift (getD toolInput "path" (.str (str ".")))
  let p ← Act.ask (safeJoin · root path)
  let isDir ← Act.get (·.isDir p)
  if isDir = false then pure (.error (.noSuchDirectory (shown path)))
  else do
    let names ← Act.system (·.iterdir p)
    -- an entry that is a link counts as what it leads to
    let isDirOf ← Act.get fun fs name =>
      fs.isDir (fs.realpath (p.reverse ++ [name]))
    pure (.entries (((names.filter (· ≠ str ".git")).map fun name =>
      name ++ if isDirOf name then [slash] else []).mergeSort lexLe))

/-- What `_execute_tool` does with an exception. -/
def caught (name : Str) : Exn → Except Exn Payload
  | .keyError field => .ok (.error (.missingField name field))
  | .valueError message => .ok (.error message)
  | .typeError => .ok (.error .wrongType)
  | .attributeError => .error .attributeError
  | .osError e => .error (.osError e)

/-- The tool of a name. -/
def dispatch (name : Str) (toolInput : Value) : Act Payload :=
  if name = str "read_file" then executeReadFile root toolInput
  else if name = str "write_file" then executeWriteFile root toolInput
  else if name = str "edit_file" then executeEditFile root toolInput
  else if name = str "list_files" then executeListFiles root toolInput
  else pure (.error (.unknownTool name))

/-- `_execute_tool`. -/
def executeTool (name : Str) (toolInput : Value) : Act Payload := fun d =>
  match dispatch root name toolInput d with
  | (.ok payload, d) => (.ok payload, d)
  | (.error x, d) => (caught name x, d)

end SdlcOs.Backend.Tools
