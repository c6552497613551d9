/-
Linking: every occurrence in every file resolved against all definitions
(engine/resolve.py).

The tables that `build_definition_indices` and `link_references` fill are
given by what a lookup in them returns: the definition inserted last under
a dotted name, the definitions of a bare name, the occurrences under
either, each list in the order it was filled.
-/
import SdlcOs.Gates.Service
import SdlcOs.Index.Records

namespace SdlcOs.Index

open Data (Dict)

/-- `Reference.ref_kind`. -/
inductive RefKind where
  | use | call
  deriving DecidableEq, Repr

/-- `Reference`. -/
structure Reference where
  file : String
  line : Int
  column : Int
  contextSnippet : String
  bareName : String
  resolvedFqn : Option String
  isTestFile : Bool
  refKind : RefKind
  deriving DecidableEq, Repr

/-- `CallSite`. -/
structure CallSite where
  file : String
  line : Int
  column : Int
  calleeBareName : String
  calleeFqn : Option String
  containingSymbolFqn : Option String
  containingSymbolName : String
  isTestFile : Bool
  deriving DecidableEq, Repr

-- ==== definitions

/-- Every definition, in the order in which the tables are filled. -/
def Corpus.definitions (c : Corpus) : List Definition :=
  c.files.flatMap (·.definitions)

/-- `defs_by_fqn.get(f)`: the last one inserted wins. -/
def Corpus.defsByFqn (c : Corpus) (f : String) : Option Definition :=
  c.definitions.reverse.find? (·.fqn = f)

/-- `defs_by_name.get(name, [])`. -/
def Corpus.defsByName (c : Corpus) (name : String) : List Definition :=
  c.definitions.filter (·.name = name)

/-- `f in defs_by_fqn`. -/
def Corpus.defined (c : Corpus) (f : String) : Bool :=
  (c.defsByFqn f).isSome

/-- `m in module_dotted_set`. -/
def Corpus.isModule (c : Corpus) (m : String) : Bool :=
  c.files.any (·.moduleDotted = m)

-- ==== resolution

/-- Step 1 of `resolve_chain`: a member of the enclosing class. -/
def selfCandidate (chain classContext : List String) (r : FileRecord) :
    Option String :=
  match chain with
  | head :: member :: _ =>
    if (head = "self" ∨ head = "cls") ∧ classContext ≠ [] then
      some (joinDots (r.moduleDotted :: classContext ++ [member]))
    else none
  | _ => none

/-- What a chain whose first name is bound by an import stands for. -/
def ImportBinding.candidate (b : ImportBinding) (rest : List String) :
    Option String :=
  match b.kind, rest with
  | .symbol, [] => some b.target
  | .module, [] => none
  | _, rest => some (joinDots (b.target :: rest))

/-- Step 2: a local import binding. -/
def bindingCandidate (chain : List String) (r : FileRecord) :
    Option String :=
  match chain with
  | [] => none
  | head :: rest =>
    (r.importBindings.get head).bind (·.candidate rest)

/-- Step 3: relative to the file's own module. -/
def moduleCandidate (chain : List String) (r : FileRecord) : String :=
  joinDots (r.moduleDotted :: chain)

/-- Step 4: a known module's path as the chain's prefix, the longest
first. -/
def prefixCandidates (isModule : String → Bool) (chain : List String) :
    List String :=
  (((List.range chain.length).reverse.filter (0 < ·)).filter fun split =>
    isModule (joinDots (chain.take split))).map fun split =>
      joinDots (joinDots (chain.take split) :: chain.drop split)

/-- What `resolve_chain` tries, in its order. -/
def candidates (isModule : String → Bool) (chain classContext : List String)
    (r : FileRecord) : List String :=
  (selfCandidate chain classContext r).toList ++
    (bindingCandidate chain r).toList ++
      moduleCandidate chain r :: prefixCandidates isModule chain

/-- `resolve_chain`. -/
def Corpus.resolveChain (c : Corpus) (chain classContext : List String)
    (r : FileRecord) : Option String :=
  if chain = [] then none
  else (candidates c.isModule chain classContext r).find? c.defined

/-- One more definition for `_containing_definition` to consider. -/
def closer (line : Int) (best : Option Definition) (d : Definition) :
    Option Definition :=
  if (d.kind = .function ∨ d.kind = .method) ∧ d.line ≤ line ∧
      line ≤ d.endLine ∧ best.all (·.line < d.line)
  then some d else best

/-- `_containing_definition`. -/
def containingDefinition (r : FileRecord) (line : Int) :
    Option Definition :=
  r.definitions.foldl (closer line) none

-- ==== linking

/-- The occurrences that are linked. -/
def RawRef.linked (raw : RawRef) : Bool :=
  raw.kind = .call || raw.kind = .attrRead || raw.kind = .bareRead

/-- `_snippet`. -/
def snippet (r : FileRecord) (line : Int) : String :=
  if 1 ≤ line then
    (r.sourceLines[(line - 1).toNat]?).elim "" Gates.strip
  else ""

/-- What an occurrence resolves to. -/
def Corpus.resolved (c : Corpus) (r : FileRecord) (raw : RawRef) :
    Option String :=
  c.resolveChain raw.chain raw.classContext r

/-- The `Reference` of an occurrence. -/
def Corpus.reference (c : Corpus) (r : FileRecord) (raw : RawRef) :
    Reference where
  file := r.path
  line := raw.line
  column := raw.column
  contextSnippet := snippet r raw.line
  bareName := raw.bareName
  resolvedFqn := c.resolved r raw
  isTestFile := r.isTestFile
  refKind := if raw.kind = .call then .call else .use

/-- The `CallSite` of an occurrence that is a call and resolves. -/
def Corpus.callSite (c : Corpus) (r : FileRecord) (raw : RawRef) :
    CallSite where
  file := r.path
  line := raw.line
  column := raw.column
  calleeBareName := raw.bareName
  calleeFqn := c.resolved r raw
  containingSymbolFqn := (containingDefinition r raw.line).map (·.fqn)
  containingSymbolName :=
    (containingDefinition r raw.line).elim "<module>" (·.name)
  isTestFile := r.isTestFile

/-- The references of one file. -/
def Corpus.fileReferences (c : Corpus) (r : FileRecord) : List Reference :=
  (r.rawRefs.filter (·.linked)).map (c.reference r)

/-- The call sites of one file. -/
def Corpus.fileCalls (c : Corpus) (r : FileRecord) : List CallSite :=
  (r.rawRefs.filter fun raw =>
    raw.kind = .call && (c.resolved r raw).isSome).map (c.callSite r)

/-- Every reference, in the order in which the tables are filled. -/
def Corpus.references (c : Corpus) : List Reference :=
  c.files.flatMap c.fileReferences

/-- Every call site. -/
def Corpus.calls (c : Corpus) : List CallSite := c.files.flatMap c.fileCalls

/-- `by_name.get(name, [])`. -/
def Corpus.byName (c : Corpus) (name : String) : List Reference :=
  c.references.filter (·.bareName = name)

/-- `by_fqn.get(f, [])`. -/
def Corpus.byFqn (c : Corpus) (f : String) : List Reference :=
  c.references.filter (·.resolvedFqn = some f)

/-- `calls_by_fqn.get(f, [])`. -/
def Corpus.callsByFqn (c : Corpus) (f : String) : List CallSite :=
  c.calls.filter (·.calleeFqn = some f)

end SdlcOs.Index
