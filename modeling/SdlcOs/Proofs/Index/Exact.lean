/-
When the index's answers are exact.

# References

What `find_references` collects are the references of the symbols and the
unresolved ones of their names. Of these it drops the ones on a line where
one of the symbols is defined, so the answer is exact if there are none
(`findReferences_exact`).

# Definitions

A bare name's definitions are found by name and returned by qualified
name, which the definition inserted last stands for. So the answer is
exact if no later definition has the qualified name of one of them
(`findDefinition_exact`).
-/
import SdlcOs.Proofs.Index.Order

namespace SdlcOs.Index

open Data (Dict firsts sortBy mem_firsts nodup_firsts pairwise_sortBy)

namespace Corpus

variable {c : Corpus}

-- ==== references

/-- The occurrence resolves to one of the names, or to nothing and is
called like the symbol or like one of the names. -/
def Wanted (c : Corpus) (symbol : String) (fqns : List String)
    (r : FileRecord) (raw : RawRef) : Prop :=
  raw.linked = true ∧
  ((∃ f ∈ fqns, c.resolved r raw = some f) ∨
    c.resolved r raw = none ∧
      (raw.bareName = lastName symbol ∨
        ∃ f ∈ fqns, raw.bareName = lastName f))

/-- The references of a symbol, exactly. -/
structure ExactReferences (c : Corpus) (symbol : String)
    (origin : Option Origin) (includeTestFiles : Bool) : Prop where
  known : (c.findReferences symbol origin includeTestFiles).2 = true
  sorted : (c.findReferences symbol origin includeTestFiles).1.Pairwise
    fun x y => x.key ≤ y.key
  distinct : ((c.findReferences symbol origin includeTestFiles).1.map
    Reference.key).Nodup
  positions : ∀ file line column,
    (∃ x ∈ (c.findReferences symbol origin includeTestFiles).1,
      x.file = file ∧ x.line = line ∧ x.column = column) ↔
    ∃ r ∈ c.files, ∃ raw ∈ r.rawRefs,
      r.path = file ∧ raw.line = line ∧ raw.column = column ∧
      c.Wanted symbol (c.resolveSymbolToFqns symbol origin) r raw ∧
      (includeTestFiles = true ∨ r.isTestFile = false)

/-- No reference of the symbol is on a line, in the same file, where the
index has one of the symbol's definitions. -/
def ApartFromDefinitions (c : Corpus) (symbol : String)
    (origin : Option Origin) (includeTestFiles : Bool) : Prop :=
  ∀ r ∈ c.files, ∀ raw ∈ r.rawRefs,
    c.Wanted symbol (c.resolveSymbolToFqns symbol origin) r raw →
    (includeTestFiles = true ∨ r.isTestFile = false) →
    ∀ d ∈ c.findDefinition symbol origin,
      ¬ (d.file = r.path ∧ d.line = raw.line)

theorem mem_bareNames {symbol name : String} {fqns : List String} :
    name ∈ bareNames symbol fqns ↔
      name = lastName symbol ∨ ∃ f ∈ fqns, name = lastName f := by
  unfold bareNames
  rw [List.mem_dedup, List.mem_append, List.mem_map, List.mem_singleton,
    or_comm]
  simp only [eq_comm]

theorem wanted_iff {symbol : String} {fqns : List String} {r : FileRecord}
    {raw : RawRef} (hr : r ∈ c.files) (hraw : raw ∈ r.rawRefs) :
    c.Wanted symbol fqns r raw ↔ raw.linked = true ∧
      c.reference r raw ∈ c.gathered symbol fqns := by
  rw [mem_gathered, mem_bareNames]
  refine and_congr_right fun hlinked => ?_
  have hmem : c.reference r raw ∈ c.references :=
    mem_references.2 ⟨r, hr, raw, hraw, hlinked, rfl⟩
  exact (and_iff_right hmem).symm

theorem kept_iff {symbol : String} {origin : Option Origin}
    {includeTestFiles : Bool} {x : Reference} :
    c.kept (c.resolveSymbolToFqns symbol origin) includeTestFiles x = true ↔
      (∀ d ∈ c.findDefinition symbol origin,
        ¬ (d.file = x.file ∧ d.line = x.line)) ∧
      (includeTestFiles = true ∨ x.isTestFile = false) := by
  unfold kept atDefinition findDefinition
  rw [Bool.and_eq_true, Bool.or_eq_true, Bool.not_eq_true',
    Bool.not_eq_true', List.any_eq_false]
  simp only [Bool.and_eq_true, decide_eq_true_eq]

theorem findReferences_exact (c : Corpus) (symbol : String)
    (origin : Option Origin) (includeTestFiles : Bool)
    (h : c.resolveSymbolToFqns symbol origin ≠ []) :
    c.ExactReferences symbol origin includeTestFiles ↔
      c.ApartFromDefinitions symbol origin includeTestFiles := by
  constructor
  · intro hexact r hr raw hraw hwanted htest
    obtain ⟨x, hx, hfile, hline, hcolumn⟩ :=
      (hexact.positions r.path raw.line raw.column).2
        ⟨r, hr, raw, hraw, rfl, rfl, rfl, hwanted, htest⟩
    obtain ⟨-, hgathered, hkept⟩ := mem_findReferences.1 hx
    -- one occurrence starts there
    have hsame : x = c.reference r raw := by
      refine gathered_keyInj _ _ x hgathered _
        ((wanted_iff hr hraw).1 hwanted).2 ?_
      unfold Reference.key
      rw [hfile, hline, hcolumn]
      rfl
    rw [hsame] at hkept
    exact (kept_iff.1 hkept).1
  · intro hapart
    refine ⟨?_, ?_, ?_, ?_⟩
    · rw [findReferences_known h]
    · rw [findReferences_known h]
      exact pairwise_sortBy _
    · rw [findReferences_known h]
      refine ((List.perm_insertionSort _ _).map Reference.key).nodup_iff.2 ?_
      exact (nodup_firsts _).sublist (List.filter_sublist.map Reference.key)
    · intro file line column
      constructor
      · intro hx
        obtain ⟨x, hx, rfl, rfl, rfl⟩ := hx
        obtain ⟨-, hgathered, hkept⟩ := mem_findReferences.1 hx
        obtain ⟨r, hr, raw, hraw, hlinked, rfl⟩ :=
          mem_references.1 (mem_gathered.1 hgathered).1
        exact ⟨r, hr, raw, hraw, rfl, rfl, rfl,
          (wanted_iff hr hraw).2 ⟨hlinked, hgathered⟩, (kept_iff.1 hkept).2⟩
      · intro hraw
        obtain ⟨r, hr, raw, hraw, rfl, rfl, rfl, hwanted, htest⟩ := hraw
        refine ⟨c.reference r raw, mem_findReferences.2 ⟨h,
          ((wanted_iff hr hraw).1 hwanted).2, kept_iff.2 ⟨?_, htest⟩⟩,
          rfl, rfl, rfl⟩
        exact hapart r hr raw hraw hwanted htest

/-- The call that `f` makes of itself. -/
def ownCall (line : Int) : RawRef where
  kind := .call
  chain := ["f"]
  line := line
  column := 18
  classContext := []
  chain_ne := by decide

/-- A file with a function `f` that calls itself on a line. -/
def recursiveFile (line : Int) : FileRecord where
  path := "m.py"
  language := "python"
  contentHash := ""
  moduleDotted := moduleDottedPath "m.py"
  definitions := [⟨"m.f", "f", .function, "m.py", 1, 5, line, "def f(n):"⟩]
  rawRefs := [ownCall line]
  importBindings := .empty
  wildcardImportModules := []
  sourceLines := []
  isTestFile := false
  isGenerated := false
  lineCount := 0
  definitions_file := by simp
  rawRefs_nodup := List.nodup_singleton _

/-- An index of the one file. -/
def recursive (line : Int) : Corpus := empty.insert (recursiveFile line)

theorem recursive_wanted : (recursive 1).Wanted "f"
    ((recursive 1).resolveSymbolToFqns "f" none) (recursiveFile 1)
      (ownCall 1) :=
  ⟨rfl, Or.inl ⟨"m.f", by decide, by decide⟩⟩

theorem findReferences_exact_recursive :
    (recursive 2).ExactReferences "f" none true := by
  refine (findReferences_exact (recursive 2) "f" none true
    (by decide +kernel)).2 ?_
  intro r hr raw hraw _ _ d hd
  have hr' : r = recursiveFile 2 := List.mem_singleton.1 hr
  rw [hr'] at hraw
  have hraw' : raw = ownCall 2 := List.mem_singleton.1 hraw
  have hd' : (recursive 2).findDefinition "f" none =
      (recursiveFile 2).definitions := by decide +kernel
  rw [hd'] at hd
  rw [List.mem_singleton.1 hd, hraw']
  exact fun h => absurd h.2 (by decide)

/-- A function that calls itself on the line of its definition has no
references. -/
theorem recursive_line_dropped :
    (recursive 1).resolveSymbolToFqns "f" none ≠ [] ∧
    (recursive 1).findReferences "f" none true = ([], true) ∧
    ¬ (recursive 1).ExactReferences "f" none true := by
  have hnone : (recursive 1).findReferences "f" none true = ([], true) := by
    decide +kernel
  refine ⟨by decide +kernel, hnone, ?_⟩
  intro h
  obtain ⟨x, hx, -⟩ := (h.positions "m.py" 1 18).2
    ⟨recursiveFile 1, List.mem_singleton.2 rfl, ownCall 1,
      List.mem_singleton.2 rfl, rfl, rfl, rfl, recursive_wanted,
      Or.inl rfl⟩
  rw [hnone] at hx
  cases hx

-- ==== definitions

/-- The definitions of a bare name, exactly. -/
structure ExactDefinitions (c : Corpus) (name : String) : Prop where
  once : (c.findDefinition name none).Nodup
  complete : ∀ d, d ∈ c.findDefinition name none ↔
    d ∈ c.definitions ∧ d.name = name

/-- No later definition has the qualified name of one with this bare
name, and if the name is empty nothing has it. -/
structure Unshadowed (c : Corpus) (name : String) : Prop where
  unshadowed : c.definitions.Pairwise fun d d' =>
    d.name = name → d.fqn ≠ d'.fqn
  named : name = "" → ∀ d ∈ c.definitions, d.name ≠ name

/-- Of two elements that a predicate holds of, the earlier is before the
last one that it holds of. -/
theorem sublist_last {α : Type} {p : α → Bool} {l : List α} {a b : α}
    (hsub : [a, b].Sublist l) (ha : p a = true) (hb : p b = true) :
    ∃ e, l.reverse.find? p = some e ∧ [a, e].Sublist l := by
  have hmem : a ∈ l := hsub.subset List.mem_cons_self
  have hsome : (l.reverse.find? p).isSome = true := by
    rw [List.find?_isSome]
    exact ⟨a, List.mem_reverse.2 hmem, ha⟩
  obtain ⟨e, he⟩ := Option.isSome_iff_exists.1 hsome
  refine ⟨e, he, ?_⟩
  obtain ⟨-, after, before, hsplit, hafter⟩ :=
    List.find?_eq_some_iff_append.1 he
  have hl : l = before.reverse ++ e :: after.reverse := by
    rw [← List.reverse_reverse l, hsplit]
    simp
  have hnone : ∀ x ∈ after.reverse, p x ≠ true := by
    intro x hx hp
    have hx' := hafter x (List.mem_reverse.1 hx)
    rw [hp] at hx'
    cases hx'
  rw [hl] at hsub ⊢
  obtain ⟨l₁, l₂, heq, h₁, h₂⟩ := List.sublist_append_iff.1 hsub
  cases l₁ with
  | nil =>
    rw [List.nil_append] at heq
    rw [← heq] at h₂
    cases h₂ with
    | cons _ h₂ =>
      exact absurd ha (hnone a (h₂.subset List.mem_cons_self))
    | cons_cons _ h₂ =>
      exact absurd hb (hnone b (h₂.subset List.mem_cons_self))
  | cons x l₁ =>
    have hx : a = x := (List.cons.inj heq).1
    have hbefore : a ∈ before.reverse := by
      rw [hx]
      exact h₁.subset List.mem_cons_self
    exact (List.singleton_sublist.2 hbefore).append
      (List.singleton_sublist.2 List.mem_cons_self)

theorem findDefinition_plain {name : String} (hne : name ≠ "")
    (hdot : '.' ∉ name.toList) :
    c.findDefinition name none =
      (c.defsByName name).filterMap fun d => c.defsByFqn d.fqn := by
  unfold findDefinition
  rw [resolve_plain hne hdot, List.filterMap_map]
  rfl

theorem findDefinition_empty : c.findDefinition "" none = [] := by
  unfold findDefinition resolveSymbolToFqns
  rw [if_pos (by decide)]
  rfl

theorem defsByFqn_unshadowed {d : Definition} {name : String}
    (h : c.Unshadowed name) (hd : d ∈ c.definitions) (hname : d.name = name) :
    c.defsByFqn d.fqn = some d := by
  obtain ⟨pre, post, hsplit⟩ := List.append_of_mem hd
  have hlater : ∀ d' ∈ post, d.fqn ≠ d'.fqn := by
    intro d' hd'
    have hpairs := h.unshadowed
    rw [hsplit, List.pairwise_append, List.pairwise_cons] at hpairs
    exact hpairs.2.1.1 d' hd' hname
  have hnone : post.reverse.find? (·.fqn = d.fqn) = none := by
    rw [List.find?_eq_none]
    intro d' hd' hfqn
    exact hlater d' (List.mem_reverse.1 hd') (of_decide_eq_true hfqn).symm
  unfold defsByFqn
  rw [hsplit, List.reverse_append, List.find?_append, List.reverse_cons,
    List.find?_append, hnone, List.find?_singleton]
  simp

/-- A bare name without a dot is answered exactly if and only if nothing
shadows one of its definitions. -/
theorem findDefinition_exact (c : Corpus) (name : String)
    (hdot : '.' ∉ name.toList) :
    c.ExactDefinitions name ↔ c.Unshadowed name := by
  constructor
  · intro hexact
    refine ⟨?_, ?_⟩
    · rw [List.pairwise_iff_forall_sublist]
      intro d d' hsub hname hfqn
      have hd : d ∈ c.definitions := hsub.subset List.mem_cons_self
      have hd' := (hexact.complete d).2 ⟨hd, hname⟩
      have hne : name ≠ "" := by
        intro hempty
        rw [hempty, findDefinition_empty] at hd'
        cases hd'
      obtain ⟨e, he, hbefore⟩ := sublist_last (p := (·.fqn = d.fqn)) hsub
        (decide_eq_true rfl) (decide_eq_true hfqn.symm)
      have hefqn : e.fqn = d.fqn := (defsByFqn_spec he).2
      -- `e` stands for `d`, so it is called like it
      have hemem : e ∈ c.findDefinition name none := by
        rw [findDefinition_plain hne hdot, List.mem_filterMap]
        exact ⟨d, List.mem_filter.2 ⟨hd, decide_eq_true hname⟩, he⟩
      have hename := ((hexact.complete e).1 hemem).2
      -- and it is there for `d` and for itself
      have htwice : [e, e].Sublist (c.findDefinition name none) := by
        have hboth : [d, e].filter (·.name = name) = [d, e] := by
          rw [List.filter_eq_self, List.forall_mem_cons,
            List.forall_mem_singleton]
          exact ⟨decide_eq_true hname, decide_eq_true hename⟩
        have hfilter := (hbefore.filter (·.name = name)).filterMap
          fun d => c.defsByFqn d.fqn
        have hlook : c.defsByFqn d.fqn = some e := he
        have hlook' : c.defsByFqn e.fqn = some e := hefqn ▸ he
        simp only [hboth, List.filterMap_cons, hlook, hlook',
          List.filterMap_nil] at hfilter
        rw [findDefinition_plain hne hdot]
        exact hfilter
      have hnodup := hexact.once.sublist htwice
      exact (List.nodup_cons.1 hnodup).1 List.mem_cons_self
    · intro hempty d hd hname
      have hmem := (hexact.complete d).2 ⟨hd, hname⟩
      rw [hempty, findDefinition_empty] at hmem
      cases hmem
  · intro h
    by_cases hempty : name = ""
    · rw [hempty] at h
      refine ⟨?_, ?_⟩
      · rw [hempty, findDefinition_empty]
        exact List.nodup_nil
      · intro d
        rw [hempty, findDefinition_empty]
        refine iff_of_false List.not_mem_nil ?_
        intro hd
        exact h.named rfl d hd.1 hd.2
    · have hsame : c.findDefinition name none = c.defsByName name := by
        rw [findDefinition_plain hempty hdot]
        refine (List.filterMap_congr ?_).trans List.filterMap_some
        intro d hd
        obtain ⟨hmem, hname⟩ := List.mem_filter.1 hd
        exact defsByFqn_unshadowed h hmem (of_decide_eq_true hname)
      refine ⟨?_, ?_⟩
      · rw [hsame]
        have hpairs := List.Pairwise.filter (·.name = name) h.unshadowed
        refine (List.Pairwise.and_mem.1 hpairs).imp ?_
        intro d d' hd heq
        have hname := of_decide_eq_true (List.mem_filter.1 hd.1).2
        exact hd.2.2 hname (congrArg Definition.fqn heq)
      · intro d
        rw [hsame]
        unfold defsByName
        rw [List.mem_filter, decide_eq_true_eq]

/-- A file that defines `run` once or twice, as in the branches of a
condition. -/
def conditionalFile (lines : List Int) : FileRecord where
  path := "m.py"
  language := "python"
  contentHash := ""
  moduleDotted := moduleDottedPath "m.py"
  definitions := lines.map fun line =>
    ⟨"m.run", "run", .function, "m.py", line, 9, line, "def run():"⟩
  rawRefs := []
  importBindings := .empty
  wildcardImportModules := []
  sourceLines := []
  isTestFile := false
  isGenerated := false
  lineCount := 0
  definitions_file := by simp
  rawRefs_nodup := nodup_noRefs

/-- An index of the one file. -/
def conditional (lines : List Int) : Corpus :=
  empty.insert (conditionalFile lines)

theorem findDefinition_exact_single :
    (conditional [2]).ExactDefinitions "run" :=
  (findDefinition_exact (conditional [2]) "run" (by decide)).2
    ⟨List.pairwise_singleton _ _, fun h => absurd h (by decide)⟩

/-- Of a function defined in both branches of a condition, the second
definition is returned twice. -/
theorem conditional_shadowed :
    ((conditional [2, 4]).findDefinition "run" none).map (·.line) = [4, 4] ∧
    ¬ (conditional [2, 4]).ExactDefinitions "run" := by
  have hlines : ((conditional [2, 4]).findDefinition "run" none).map
      (·.line) = [4, 4] := by
    decide +kernel
  refine ⟨hlines, ?_⟩
  intro h
  have hfirst := (h.complete
    ⟨"m.run", "run", .function, "m.py", 2, 9, 2, "def run():"⟩).2
      ⟨List.mem_cons_self, rfl⟩
  have hline := List.mem_map_of_mem (f := (·.line)) hfirst
  rw [hlines] at hline
  exact absurd hline (by decide)

end Corpus

end SdlcOs.Index
