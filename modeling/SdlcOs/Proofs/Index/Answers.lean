/-
What the index's answers contain.

Every table is a filter of all definitions, all references or all call
sites, so each answer is described by its members: `mem_findDefinition`,
`mem_findReferences`, `mem_allCallers`. Occurrences have distinct
positions, and so `_add` drops only those it has already
(`references_keyInj`).
-/
import SdlcOs.Index.Queries

namespace SdlcOs.Index

open Data (firsts sortBy KeyInj mem_firsts mem_sortBy)

namespace Corpus

variable {c : Corpus}

-- ==== definitions

theorem mem_definitions {d : Definition} :
    d ∈ c.definitions ↔ ∃ r ∈ c.files, d ∈ r.definitions :=
  List.mem_flatMap

theorem defsByFqn_spec {f : String} {d : Definition}
    (h : c.defsByFqn f = some d) : d ∈ c.definitions ∧ d.fqn = f := by
  have hmem := List.mem_of_find?_eq_some h
  have hfqn := List.find?_some h
  exact ⟨List.mem_reverse.1 hmem, of_decide_eq_true hfqn⟩

theorem defined_iff {f : String} :
    c.defined f = true ↔ ∃ d ∈ c.definitions, d.fqn = f := by
  rw [defined, defsByFqn, List.find?_isSome]
  simp

theorem mem_findDefinition {symbol : String} {origin : Option Origin}
    {d : Definition} :
    d ∈ c.findDefinition symbol origin ↔
      ∃ f ∈ c.resolveSymbolToFqns symbol origin, c.defsByFqn f = some d :=
  List.mem_filterMap

-- ==== occurrences

theorem mem_references {x : Reference} :
    x ∈ c.references ↔ ∃ r ∈ c.files, ∃ raw ∈ r.rawRefs,
      raw.linked = true ∧ c.reference r raw = x := by
  unfold references fileReferences
  simp only [List.mem_flatMap, List.mem_map, List.mem_filter, and_assoc]

theorem mem_calls {s : CallSite} :
    s ∈ c.calls ↔ ∃ r ∈ c.files, ∃ raw ∈ r.rawRefs,
      raw.kind = .call ∧ (c.resolved r raw).isSome = true ∧
        c.callSite r raw = s := by
  unfold calls fileCalls
  simp only [List.mem_flatMap, List.mem_map, List.mem_filter,
    Bool.and_eq_true, decide_eq_true_eq, and_assoc]

theorem siteKey_inj {file file' : String} {line line' column column' : Int}
    (h : siteKey file line column = siteKey file' line' column') :
    file = file' ∧ line = line' ∧ column = column' := by
  have hpair := toLex.injective h
  rw [Prod.mk.injEq] at hpair
  have hpos := toLex.injective hpair.2
  rw [Prod.mk.injEq] at hpos
  exact ⟨hpair.1, hpos⟩

theorem occurrence_inj {r r' : FileRecord} {raw raw' : RawRef}
    (hr : r ∈ c.files) (hr' : r' ∈ c.files) (hraw : raw ∈ r.rawRefs)
    (hraw' : raw' ∈ r'.rawRefs)
    (h : siteKey r.path raw.line raw.column =
      siteKey r'.path raw'.line raw'.column) : r = r' ∧ raw = raw' := by
  obtain ⟨hpath, hline, hcolumn⟩ := siteKey_inj h
  have hrec := files_inj hr hr' hpath
  rw [← hrec] at hraw'
  refine ⟨hrec, List.inj_on_of_nodup_map r.rawRefs_nodup hraw hraw' ?_⟩
  exact Prod.ext hline hcolumn

theorem references_keyInj : KeyInj Reference.key c.references := by
  intro x hx y hy hkey
  obtain ⟨r, hr, raw, hraw, _, rfl⟩ := mem_references.1 hx
  obtain ⟨r', hr', raw', hraw', _, rfl⟩ := mem_references.1 hy
  obtain ⟨rfl, rfl⟩ := occurrence_inj hr hr' hraw hraw' hkey
  rfl

theorem calls_keyInj : KeyInj CallSite.key c.calls := by
  intro x hx y hy hkey
  obtain ⟨r, hr, raw, hraw, _, _, rfl⟩ := mem_calls.1 hx
  obtain ⟨r', hr', raw', hraw', _, _, rfl⟩ := mem_calls.1 hy
  obtain ⟨rfl, rfl⟩ := occurrence_inj hr hr' hraw hraw' hkey
  rfl

-- ==== answers

/-- What `find_references` collects: the references that resolve to one
of the symbols, and those of a bare name that resolve to nothing. -/
theorem mem_gathered {symbol : String} {fqns : List String}
    {x : Reference} :
    x ∈ c.gathered symbol fqns ↔ x ∈ c.references ∧
      ((∃ f ∈ fqns, x.resolvedFqn = some f) ∨
        x.resolvedFqn = none ∧ x.bareName ∈ bareNames symbol fqns) := by
  unfold gathered byFqn byName
  simp only [List.mem_append, List.mem_flatMap, List.mem_filter,
    decide_eq_true_eq]
  constructor
  · intro h
    cases h with
    | inl h =>
      obtain ⟨f, hf, hx, hres⟩ := h
      exact ⟨hx, Or.inl ⟨f, hf, hres⟩⟩
    | inr h =>
      obtain ⟨name, hname, ⟨hx, hbare⟩, hmaybe⟩ := h
      refine ⟨hx, ?_⟩
      cases hres : x.resolvedFqn with
      | none => exact Or.inr ⟨rfl, by rw [hbare]; exact hname⟩
      | some f =>
        rw [maybeOneOf, hres] at hmaybe
        exact Or.inl ⟨f, of_decide_eq_true hmaybe, rfl⟩
  · intro ⟨hx, h⟩
    cases h with
    | inl h =>
      obtain ⟨f, hf, hres⟩ := h
      exact Or.inl ⟨f, hf, hx, hres⟩
    | inr h =>
      refine Or.inr ⟨x.bareName, h.2, ⟨hx, rfl⟩, ?_⟩
      rw [maybeOneOf, h.1]
      rfl

theorem gathered_keyInj (symbol : String) (fqns : List String) :
    KeyInj Reference.key (c.gathered symbol fqns) :=
  references_keyInj.subset fun _ hx => (mem_gathered.1 hx).1

theorem callsByFqn_keyInj (fqns : List String) :
    KeyInj CallSite.key (fqns.flatMap c.callsByFqn) := by
  refine (calls_keyInj (c := c)).subset ?_
  intro s hs
  obtain ⟨f, _, hs⟩ := List.mem_flatMap.1 hs
  exact (List.mem_filter.1 hs).1

/-- What is left of what was collected. -/
def kept (c : Corpus) (fqns : List String) (includeTestFiles : Bool)
    (x : Reference) : Bool :=
  !c.atDefinition fqns x && (includeTestFiles || !x.isTestFile)

theorem findReferences_unknown {symbol : String} {origin : Option Origin}
    (h : c.resolveSymbolToFqns symbol origin = [])
    (includeTestFiles : Bool) :
    c.findReferences symbol origin includeTestFiles = ([], false) :=
  if_pos h

theorem findReferences_known {symbol : String} {origin : Option Origin}
    (h : c.resolveSymbolToFqns symbol origin ≠ [])
    (includeTestFiles : Bool) :
    c.findReferences symbol origin includeTestFiles =
      (sortBy Reference.key ((firsts Reference.key
          (c.gathered symbol (c.resolveSymbolToFqns symbol origin))).filter
        (c.kept (c.resolveSymbolToFqns symbol origin) includeTestFiles)),
      true) := by
  unfold findReferences kept
  dsimp only
  rw [if_neg h, List.filter_filter]
  simp only [Bool.and_comm]

/-- The members of `find_references`. -/
theorem mem_findReferences {symbol : String} {origin : Option Origin}
    {includeTestFiles : Bool} {x : Reference} :
    x ∈ (c.findReferences symbol origin includeTestFiles).1 ↔
      c.resolveSymbolToFqns symbol origin ≠ [] ∧
      x ∈ c.gathered symbol (c.resolveSymbolToFqns symbol origin) ∧
      c.kept (c.resolveSymbolToFqns symbol origin) includeTestFiles x := by
  by_cases h : c.resolveSymbolToFqns symbol origin = []
  · rw [findReferences_unknown h]
    simp [h]
  · rw [findReferences_known h, mem_sortBy, List.mem_filter,
      mem_firsts (gathered_keyInj _ _)]
    simp [h]

end Corpus

end SdlcOs.Index
