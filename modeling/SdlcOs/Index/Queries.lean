/-
The answers of the index: definitions, references and callers of a symbol
(engine/repo_index.py).

An origin is the position a symbol is asked about from: its `file`, if it
has one, and its `line`, 1 by default. A cursor is an offset into the
callers, or a text that is no number, which raises.
-/
import Mathlib.Data.Prod.Lex
import SdlcOs.Data.Keyed
import SdlcOs.Index.Resolve

namespace SdlcOs.Index

open Data (firsts sortBy)

/-- `origin`. -/
structure Origin where
  file : Option String
  line : Option Int
  deriving DecidableEq, Repr

-- ==== symbols

/-- `_class_context_at`. -/
def classContextAt (r : FileRecord) (line : Int) : List String :=
  match containingDefinition r line with
  | none => []
  | some d =>
    if d.kind ≠ .method then []
    else
      let moduleParts :=
        if r.moduleDotted = "" then [] else splitOn '.' r.moduleDotted
      ((splitOn '.' d.fqn).drop moduleParts.length).dropLast

/-- The parts of a symbol. -/
def symbolChain (symbol : String) : List String :=
  (splitOn '.' symbol).filter (· ≠ "")

/-- The record of the origin's file. -/
def Corpus.originRecord (c : Corpus) (origin : Option Origin) :
    Option FileRecord :=
  (origin.bind (·.file)).bind c.records.get

/-- The origin's line. -/
def originLine (origin : Option Origin) : Int :=
  (origin.bind (·.line)).getD 1

/-- What a symbol resolves to from its origin: with the class the origin
stands in, else without it. -/
def Corpus.resolveFrom (c : Corpus) (chain : List String)
    (origin : Option Origin) : Option String :=
  (c.originRecord origin).bind fun r =>
    ((c.resolveChain chain (classContextAt r (originLine origin)) r).filter
        (· ≠ "")).or
      ((c.resolveChain chain [] r).filter (· ≠ ""))

/-- The definitions with a bare name, narrowed to those with the whole
dotted suffix if there are any. -/
def Corpus.candidatesByName (c : Corpus) (chain : List String) :
    List Definition :=
  let cands := c.defsByName (chain.getLastD "")
  if 1 < chain.length then
    let suffix := joinDots chain
    let narrowed := cands.filter fun d =>
      endsWith d.fqn ("." ++ suffix) || d.fqn = suffix
    if narrowed = [] then cands else narrowed
  else cands

/-- `resolve_symbol_to_fqns`. -/
def Corpus.resolveSymbolToFqns (c : Corpus) (symbol : String)
    (origin : Option Origin) : List String :=
  if symbolChain symbol = [] then []
  else
    (c.resolveFrom (symbolChain symbol) origin).elim
      ((c.candidatesByName (symbolChain symbol)).map (·.fqn)) fun f => [f]

/-- `find_definition`. -/
def Corpus.findDefinition (c : Corpus) (symbol : String)
    (origin : Option Origin) : List Definition :=
  (c.resolveSymbolToFqns symbol origin).filterMap c.defsByFqn

-- ==== occurrences, in order

/-- The key occurrences are told apart and sorted by. -/
def siteKey (file : String) (line column : Int) : String ×ₗ ℤ ×ₗ ℤ :=
  toLex (file, toLex (line, column))

/-- The sort key of a reference. -/
def Reference.key (r : Reference) : String ×ₗ ℤ ×ₗ ℤ :=
  siteKey r.file r.line r.column

/-- The sort key of a call site. -/
def CallSite.key (s : CallSite) : String ×ₗ ℤ ×ₗ ℤ :=
  siteKey s.file s.line s.column

/-- `s.split(".")[-1]`. -/
def lastName (s : String) : String := (splitOn '.' s).getLastD ""

/-- `bare_names`. -/
def bareNames (symbol : String) (fqns : List String) : List String :=
  (fqns.map lastName ++ [lastName symbol]).dedup

/-- Whether an occurrence of a bare name may be one of these symbols. -/
def maybeOneOf (fqns : List String) (r : Reference) : Bool :=
  r.resolvedFqn.all (· ∈ fqns)

/-- The references in the order `_add` sees them. -/
def Corpus.gathered (c : Corpus) (symbol : String) (fqns : List String) :
    List Reference :=
  fqns.flatMap c.byFqn ++
    (bareNames symbol fqns).flatMap fun name =>
      (c.byName name).filter (maybeOneOf fqns)

/-- `(r.file, r.line) in def_sites`. -/
def Corpus.atDefinition (c : Corpus) (fqns : List String) (r : Reference) :
    Bool :=
  (fqns.filterMap c.defsByFqn).any fun d =>
    d.file = r.file && d.line = r.line

/-- `find_references`: the references, and whether the symbol is known. -/
def Corpus.findReferences (c : Corpus) (symbol : String)
    (origin : Option Origin) (includeTestFiles : Bool) :
    List Reference × Bool :=
  let fqns := c.resolveSymbolToFqns symbol origin
  if fqns = [] then ([], false)
  else
    let refs := firsts Reference.key (c.gathered symbol fqns)
    let refs := refs.filter fun r => !c.atDefinition fqns r
    let refs := refs.filter fun r => includeTestFiles || !r.isTestFile
    (sortBy Reference.key refs, true)

-- ==== callers

/-- `cursor`. -/
inductive Cursor where
  /-- No cursor, or an empty one. -/
  | start
  /-- A text that `int` reads. -/
  | at (offset : Int)
  /-- A text that it does not. -/
  | unreadable
  deriving DecidableEq, Repr

/-- The offset a cursor stands for; `none` is `ValueError`. -/
def Cursor.offset : Cursor → Option Int
  | .start => some 0
  | .at n => some n
  | .unreadable => none

/-- Where a slice's bound falls in a list of this length. -/
def sliceBound (length : Nat) (i : Int) : Nat :=
  if i < 0 then (i + length).toNat else min i.toNat length

/-- `l[i:j]`. -/
def slice {α : Type} (l : List α) (i j : Int) : List α :=
  (l.take (sliceBound l.length j)).drop (sliceBound l.length i)

/-- The callers of some symbols, without their pages. -/
def Corpus.allCallers (c : Corpus) (fqns : List String) : List CallSite :=
  sortBy CallSite.key (firsts CallSite.key (fqns.flatMap c.callsByFqn))

/-- One page of callers, and the next cursor. -/
def callersPage (calls : List CallSite) (maxResults offset : Int) :
    List CallSite × Option Int :=
  (slice calls offset (offset + maxResults),
    if offset + maxResults < calls.length then some (offset + maxResults)
    else none)

/-- `find_callers`: a page, the next cursor, and whether the symbol is
known; `none` is `ValueError`. -/
def Corpus.findCallers (c : Corpus) (symbol : String)
    (origin : Option Origin) (cursor : Cursor) (maxResults : Int) :
    Option ((List CallSite × Option Int) × Bool) :=
  let fqns := c.resolveSymbolToFqns symbol origin
  if fqns = [] then some (([], none), false)
  else cursor.offset.map fun offset =>
    (callersPage (c.allCallers fqns) maxResults offset, true)

end SdlcOs.Index
