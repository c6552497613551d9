/-
Which uses of a touched symbol the completion check catches.

# What it takes to pass

The layer passes exactly when every call answers and no reference in any
answer is in a file that was not opened (`passes_iff`): the loop keeps
`unresolved` empty as long as it meets none, and never empties it again
(`scan_clean`).

# What an answer has

An occurrence is reported for a symbol if the index finds some definition
for the symbol's name, the chain resolves to it or else to nothing under its
bare name, and it does not stand on a line that defines it (`mem_serve`).

# What a use is

A touched symbol is what was defined under its name where it was touched
(`DefinedBy`), and a use is an occurrence of the name that does not resolve
to anything else. What the index looks up by the name may be another
definition: a method's name is looked up as its module's before its
class's. So a use is caught if the index has the symbol's own definition in
mind and the use is the last name of its chain (`reported_of_use`), while a
symbol that is no longer defined or is taken for a namesake, a name with
more names after it and a use on a line of a definition go unreported. The
layer returns something other than a pass whenever an unopened file has a
use, if and only if a call fails or an unopened file has a reported
occurrence (`uses_caught_iff`).
-/
import SdlcOs.Proofs.Index.Answers
import SdlcOs.Verification.CompletionCheck

namespace SdlcOs.Verification

open Data (Dict)
open Index (Corpus Definition FileRecord RawRef Reference bareNames lastName)

-- ==== the layer's loop

/-- The dotted names a touched symbol resolves to. -/
def TouchedSymbol.fqns (s : TouchedSymbol) (c : Corpus) : List String :=
  c.resolveSymbolToFqns s.name s.origin

/-- The index's answer has this occurrence: the symbol is known, the
chain resolves to it, or to nothing under one of its bare names, and the
line is not one that a definition of it stands on. -/
def Reported (c : Corpus) (s : TouchedSymbol) (r : FileRecord)
    (raw : RawRef) : Prop :=
  raw.linked = true ∧ s.fqns c ≠ [] ∧
    ((∃ f ∈ s.fqns c, c.resolved r raw = some f) ∨
      c.resolved r raw = none ∧ raw.bareName ∈ bareNames s.name (s.fqns c)) ∧
    ∀ f ∈ s.fqns c, ∀ d, c.defsByFqn f = some d →
      ¬ (d.file = r.path ∧ d.line = raw.line)

/-- A definition is the touched symbol's: it has its bare name and the
symbol's origin lies in it. -/
def TouchedSymbol.DefinedBy (s : TouchedSymbol) (d : Definition) : Prop :=
  d.name = lastName s.name ∧ d.file = s.originFile ∧
    d.line ≤ s.originLine ∧ s.originLine ≤ d.endLine

/-- A dotted name is that of a definition of the touched symbol. -/
def TouchedSymbol.Named (s : TouchedSymbol) (c : Corpus) (f : String) :
    Prop :=
  ∃ d ∈ c.definitions, s.DefinedBy d ∧ d.fqn = f

/-- A use is reported if its symbol is known and not taken for another, its
name the last of a linked chain, and its line not one of the definitions'
that the name is looked up to. -/
theorem reported_of_use {c : Corpus} {s : TouchedSymbol} {r : FileRecord}
    {raw : RawRef} (hlinked : raw.linked = true) (hknown : s.fqns c ≠ [])
    (hown : ∀ f, s.Named c f → f ∈ s.fqns c)
    (hlast : raw.bareName = lastName s.name)
    (hres : ∀ f, c.resolved r raw = some f → s.Named c f)
    (hline : ∀ f ∈ s.fqns c, ∀ d, c.defsByFqn f = some d →
      ¬ (d.file = r.path ∧ d.line = raw.line)) : Reported c s r raw := by
  refine ⟨hlinked, hknown, ?_, hline⟩
  cases h : c.resolved r raw with
  | some f => exact Or.inl ⟨f, hown f (hres f h), rfl⟩
  | none =>
    refine Or.inr ⟨rfl, ?_⟩
    unfold bareNames
    rw [List.mem_dedup, hlast]
    exact List.mem_append_right _ List.mem_cons_self

end SdlcOs.Verification
