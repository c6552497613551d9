/-
The cross-codebase completion check
(verification_pipeline/layers/completion_check.py) over the index's
find-references tool (index_server/service.py).

A call of the tool can fail before it reaches the index, or be refused;
what outside does to each call is given by its number. A refusal comes
back as an error envelope, a failure raises out of the layer.

What every layer of the pipeline returns (layers/base.py) is here too. A
summary is kept as the values its text interpolates, and the details as
the layer's own record of them.
-/
import SdlcOs.Index.Queries

namespace SdlcOs.Verification

open Data (Dict)
open Index (Corpus Origin Reference lastName)

-- ==== the tool

/-- `_reference_dict`. -/
structure ReferenceDict where
  file : String
  line : Int
  column : Int
  contextSnippet : String
  deriving DecidableEq, Repr

def referenceDict (r : Reference) : ReferenceDict :=
  ⟨r.file, r.line, r.column, r.contextSnippet⟩

/-- What becomes of a call that does not get the index's answer. -/
inductive Failure where
  /-- The transport fails, or the response has no structured content. -/
  | raised
  /-- An error envelope: no permission, not found, rate limited. -/
  | refused (error : String)
  deriving DecidableEq, Repr

/-- The envelope of find-references. -/
inductive Response where
  | failed (f : Failure)
  | empty
  | ok (references : List ReferenceDict)
  deriving DecidableEq, Repr

/-- `TouchedSymbol.change_kind`. -/
inductive ChangeKind where
  | renamed | changed | removed | defined
  deriving DecidableEq, Repr

/-- `TouchedSymbol`. -/
structure TouchedSymbol where
  name : String
  originFile : String
  originLine : Int
  changeKind : ChangeKind
  deriving DecidableEq, Repr

/-- The origin the layer asks from. -/
def TouchedSymbol.origin (s : TouchedSymbol) : Option Origin :=
  some ⟨some s.originFile, some s.originLine⟩

/-- `IndexService.find_references` for a symbol, test files included. -/
def serve (c : Corpus) (s : TouchedSymbol) : Response :=
  let refs := (c.findReferences s.name s.origin true).1
  if refs = [] then .empty else .ok (refs.map referenceDict)

/-- `Status`. -/
inductive Status where
  | pass | fail | flaggedPass | checkpoint | skipped | error
  deriving DecidableEq, Repr

/-- `LayerResult.details`, of this layer. -/
inductive Details where
  | error (symbol error : String)
  | checkpoint (unresolved outsideDeclaredScope allReferences :
      List (String × List ReferenceDict))
  | pass (allReferences : List (String × List ReferenceDict))
  deriving DecidableEq, Repr

/-- `LayerResult`. -/
structure LayerResult where
  name : String
  status : Status
  summary : String
  details : Details
  deriving DecidableEq, Repr

/-- What the loop has collected: `unresolved`, `all_references`. -/
structure Found where
  unresolved : Dict String (List ReferenceDict)
  allReferences : Dict String (List ReferenceDict)

/-- `unresolved.setdefault(name, []).append(ref)`, unless the reference's
file was opened. -/
def addUnresolved (openedFiles : List String) (name : String)
    (d : Dict String (List ReferenceDict)) (ref : ReferenceDict) :
    Dict String (List ReferenceDict) :=
  if ref.file ∈ openedFiles then d
  else d.set name ((d.get name).getD [] ++ [ref])

/-- Why the loop stops early. -/
inductive Halt where
  | raised
  | returned (result : LayerResult)

/-- The loop's body, on a symbol's response. -/
def onResponse (openedFiles : List String) (found : Found)
    (s : TouchedSymbol) : Response → Except Halt Found
  | .failed .raised => .error .raised
  | .failed (.refused error) =>
    .error (.returned ⟨"cross_codebase_completion_check", .error,
      "index server error while resolving '" ++ s.name ++ "': " ++ error,
      .error s.name error⟩)
  | .empty =>
    .ok ⟨found.unresolved, found.allReferences.set s.name []⟩
  | .ok refs =>
    .ok ⟨refs.foldl (addUnresolved openedFiles s.name) found.unresolved,
      found.allReferences.set s.name refs⟩

/-- The loop over the touched symbols, from a call number on. -/
def scan (client : Nat → TouchedSymbol → Response)
    (openedFiles : List String) :
    Nat → Found → List TouchedSymbol → Except Halt Found
  | _, found, [] => .ok found
  | call, found, s :: symbols =>
    (onResponse openedFiles found s (client call s)).bind fun found =>
      scan client openedFiles (call + 1) found symbols

/-- `_matches_any`, with the platform's `fnmatch`. -/
def matchesAny (fnmatch : String → String → Bool) (path : String)
    (patterns : List String) : Bool :=
  patterns.any (fnmatch path)

/-- What the layer returns after its loop. -/
def report (fnmatch : String → String → Bool) (declaredInScope : List String)
    (found : Found) : LayerResult :=
  if found.unresolved.entries = [] then
    ⟨"cross_codebase_completion_check", .pass,
      "Every reference to every touched symbol, across the full index, " ++
        "was opened by the implementing agent.",
      .pass found.allReferences.entries⟩
  else
    ⟨"cross_codebase_completion_check", .checkpoint,
      toString ((found.unresolved.values.map List.length).sum) ++
        " reference(s) to changed symbol(s) were never opened " ++
        "by the implementing agent -- Sec. 9.3 risk checkpoint tripped.",
      .checkpoint found.unresolved.entries
        (found.unresolved.entries.map fun e =>
          (e.1, e.2.filter fun r => !matchesAny fnmatch r.file declaredInScope))
        found.allReferences.entries⟩

/-- `LayerResult`, of any layer. -/
structure Result (σ δ : Type) where
  name : String
  status : Status
  summary : σ
  details : δ

/-- The statuses that block the gate. -/
def Status.blocks : Status → Bool
  | .fail => true
  | .checkpoint => true
  | .error => true
  | .pass => false
  | .flaggedPass => false
  | .skipped => false

/-- `LayerResult.blocks_human_review`. -/
def Result.blocksHumanReview {σ δ : Type} (r : Result σ δ) : Bool :=
  r.status.blocks

/-- The completion check's result as one of any layer. -/
def LayerResult.toResult (r : LayerResult) : Result String Details :=
  ⟨r.name, r.status, r.summary, r.details⟩

end SdlcOs.Verification
