/-
Whether the order in which records were inserted shows in the index's
answers.

# What depends on the order

A lookup by dotted name is the only thing that does: whether a name is
defined, what is a module, and so what every chain and every symbol
resolves to depend on the set of records (`resolveChain_congr`,
`mem_resolve_congr`). The definition a dotted name looks up is the last
one inserted, and that is the same in every order if one file has all the
name's definitions (`defsByFqn_congr`).

# The exact condition

Where two files define one dotted name, either can be made the last
(`defsByFqn_moveLast`). So the answers do not depend on the order if and
only if no name that a symbol resolves to is defined in two files
(`answers_order_free`); a definition whose bare name is plain is always
reached by that name (`addressable_of_plain`).
-/
import SdlcOs.Proofs.Index.Answers

namespace SdlcOs.Index

open Data (Dict firsts sortBy mem_firsts nodup_firsts sortBy_congr)

-- ==== the condition

/-- Some symbol, asked about from some origin, resolves to this name. -/
def Corpus.Addressable (c : Corpus) (f : String) : Prop :=
  ∃ symbol origin, f ∈ c.resolveSymbolToFqns symbol origin

/-- A dotted name is defined in two files. -/
def Corpus.Shared (c : Corpus) (f : String) : Prop :=
  ∃ d ∈ c.definitions, ∃ d' ∈ c.definitions,
    d.fqn = f ∧ d'.fqn = f ∧ d.file ≠ d'.file

/-- A file defines a dotted name. -/
def FileRecord.Defines (r : FileRecord) (f : String) : Prop :=
  ∃ d ∈ r.definitions, d.fqn = f

/-- Two indexes answer alike: definitions as a set, references and callers
as lists. -/
structure SameAnswers (a b : Corpus) : Prop where
  definition : ∀ symbol origin d,
    d ∈ a.findDefinition symbol origin ↔ d ∈ b.findDefinition symbol origin
  references : ∀ symbol origin includeTestFiles,
    a.findReferences symbol origin includeTestFiles =
      b.findReferences symbol origin includeTestFiles
  callers : ∀ symbol origin cursor maxResults,
    a.findCallers symbol origin cursor maxResults =
      b.findCallers symbol origin cursor maxResults

namespace Corpus

variable {a b c : Corpus}

-- ==== what the order has no say in

theorem SameRecords.mem_definitions (h : SameRecords a b) {d : Definition} :
    d ∈ a.definitions ↔ d ∈ b.definitions := by
  rw [Corpus.mem_definitions, Corpus.mem_definitions]
  simp only [h.mem_files]

theorem SameRecords.defined (h : SameRecords a b) :
    a.defined = b.defined := by
  funext f
  rw [Bool.eq_iff_iff, defined_iff, defined_iff]
  simp only [h.mem_definitions]

theorem SameRecords.isModule (h : SameRecords a b) :
    a.isModule = b.isModule := by
  funext m
  rw [Bool.eq_iff_iff, Corpus.isModule, Corpus.isModule, List.any_eq_true,
    List.any_eq_true]
  simp only [h.mem_files]

theorem SameRecords.resolveChain (h : SameRecords a b) :
    a.resolveChain = b.resolveChain := by
  funext chain classContext r
  unfold Corpus.resolveChain
  rw [h.defined, h.isModule]

theorem SameRecords.resolved (h : SameRecords a b) :
    a.resolved = b.resolved := by
  funext r raw
  unfold Corpus.resolved
  rw [h.resolveChain]

theorem SameRecords.reference (h : SameRecords a b) :
    a.reference = b.reference := by
  funext r raw
  unfold Corpus.reference
  rw [h.resolved]

theorem SameRecords.callSite (h : SameRecords a b) :
    a.callSite = b.callSite := by
  funext r raw
  unfold Corpus.callSite
  rw [h.resolved]

theorem SameRecords.mem_references (h : SameRecords a b) {x : Reference} :
    x ∈ a.references ↔ x ∈ b.references := by
  rw [Corpus.mem_references, Corpus.mem_references, h.reference]
  simp only [h.mem_files]

theorem SameRecords.mem_calls (h : SameRecords a b) {s : CallSite} :
    s ∈ a.calls ↔ s ∈ b.calls := by
  rw [Corpus.mem_calls, Corpus.mem_calls, h.callSite, h.resolved]
  simp only [h.mem_files]

theorem SameRecords.resolveFrom (h : SameRecords a b) :
    a.resolveFrom = b.resolveFrom := by
  funext chain origin
  unfold Corpus.resolveFrom originRecord
  rw [h.resolveChain, funext h]

theorem SameRecords.mem_candidatesByName (h : SameRecords a b)
    {chain : List String} {d : Definition} :
    d ∈ a.candidatesByName chain ↔ d ∈ b.candidatesByName chain := by
  have hcands : ∀ name x, x ∈ a.defsByName name ↔ x ∈ b.defsByName name := by
    intro name x
    unfold defsByName
    rw [List.mem_filter, List.mem_filter, h.mem_definitions]
  have hnil : ∀ p : Definition → Bool,
      (a.defsByName (chain.getLastD "")).filter p = [] ↔
        (b.defsByName (chain.getLastD "")).filter p = [] := by
    intro p
    simp only [List.filter_eq_nil_iff, hcands]
  unfold candidatesByName
  dsimp only
  split
  · rw [if_congr (hnil _) rfl rfl]
    split
    · exact hcands _ d
    · rw [List.mem_filter, List.mem_filter, hcands]
  · exact hcands _ d

theorem SameRecords.mem_resolve (h : SameRecords a b) {symbol : String}
    {origin : Option Origin} {f : String} :
    f ∈ a.resolveSymbolToFqns symbol origin ↔
      f ∈ b.resolveSymbolToFqns symbol origin := by
  unfold resolveSymbolToFqns
  rw [h.resolveFrom]
  split
  · exact Iff.rfl
  · cases b.resolveFrom (symbolChain symbol) origin with
    | some g => exact Iff.rfl
    | none =>
      simp only [Option.elim_none, List.mem_map, h.mem_candidatesByName]

theorem SameRecords.resolve_nil (h : SameRecords a b) (symbol : String)
    (origin : Option Origin) :
    a.resolveSymbolToFqns symbol origin = [] ↔
      b.resolveSymbolToFqns symbol origin = [] := by
  simp only [List.eq_nil_iff_forall_not_mem, h.mem_resolve]

theorem SameRecords.addressable (h : SameRecords a b) {f : String}
    (hf : a.Addressable f) : b.Addressable f := by
  obtain ⟨symbol, origin, hmem⟩ := hf
  exact ⟨symbol, origin, h.mem_resolve.1 hmem⟩

theorem SameRecords.shared (h : SameRecords a b) {f : String}
    (hf : a.Shared f) : b.Shared f := by
  obtain ⟨d, hd, d', hd', hrest⟩ := hf
  exact ⟨d, h.mem_definitions.1 hd, d', h.mem_definitions.1 hd', hrest⟩

theorem SameRecords.mem_bareNames (h : SameRecords a b) {symbol : String}
    {origin : Option Origin} {name : String} :
    name ∈ bareNames symbol (a.resolveSymbolToFqns symbol origin) ↔
      name ∈ bareNames symbol (b.resolveSymbolToFqns symbol origin) := by
  unfold bareNames
  simp only [List.mem_dedup, List.mem_append, List.mem_map, h.mem_resolve]

theorem SameRecords.mem_gathered (h : SameRecords a b) {symbol : String}
    {origin : Option Origin} {x : Reference} :
    x ∈ a.gathered symbol (a.resolveSymbolToFqns symbol origin) ↔
      x ∈ b.gathered symbol (b.resolveSymbolToFqns symbol origin) := by
  rw [Corpus.mem_gathered, Corpus.mem_gathered, h.mem_references,
    h.mem_bareNames]
  simp only [h.mem_resolve]

theorem SameRecords.allCallers (h : SameRecords a b) (symbol : String)
    (origin : Option Origin) :
    a.allCallers (a.resolveSymbolToFqns symbol origin) =
      b.allCallers (b.resolveSymbolToFqns symbol origin) := by
  unfold Corpus.allCallers
  refine sortBy_congr ?_ (nodup_firsts _) (nodup_firsts _)
  intro s
  rw [mem_firsts (callsByFqn_keyInj _), mem_firsts (callsByFqn_keyInj _)]
  unfold callsByFqn
  simp only [List.mem_flatMap, List.mem_filter, h.mem_calls, h.mem_resolve]

theorem SameRecords.findCallers (h : SameRecords a b) (symbol : String)
    (origin : Option Origin) (cursor : Cursor) (maxResults : Int) :
    a.findCallers symbol origin cursor maxResults =
      b.findCallers symbol origin cursor maxResults := by
  unfold Corpus.findCallers
  dsimp only
  rw [h.allCallers, if_congr (h.resolve_nil symbol origin) rfl rfl]

-- ==== names that one file defines

theorem defsByFqn_of_last {f : String} {r : FileRecord}
    {pre post : List FileRecord} (hsplit : c.files = pre ++ r :: post)
    (hr : r.Defines f) (hpost : ∀ s ∈ post, ¬ s.Defines f) :
    c.defsByFqn f = r.definitions.reverse.find? (·.fqn = f) := by
  obtain ⟨d, hd, hfqn⟩ := hr
  have hnone : (post.flatMap (·.definitions)).reverse.find? (·.fqn = f) =
      none := by
    rw [List.find?_eq_none]
    intro d' hd' hfqn'
    obtain ⟨s, hs, hds⟩ := List.mem_flatMap.1 (List.mem_reverse.1 hd')
    exact hpost s hs ⟨d', hds, of_decide_eq_true hfqn'⟩
  have hsome : (r.definitions.reverse.find? (·.fqn = f)).isSome := by
    rw [List.find?_isSome]
    exact ⟨d, List.mem_reverse.2 hd, decide_eq_true hfqn⟩
  obtain ⟨w, hw⟩ := Option.isSome_iff_exists.1 hsome
  rw [defsByFqn, Corpus.definitions, hsplit, List.flatMap_append,
    List.flatMap_cons, List.reverse_append, List.reverse_append,
    List.find?_append, List.find?_append, hnone, hw]
  rfl

theorem nodup_files (c : Corpus) : c.files.Nodup :=
  List.Nodup.of_map (·.path) <| Dict.nodup_map_values c.records _ <|
    fun k k' s s' hs hs' heq => by
      rw [← c.keyed k s hs, ← c.keyed k' s' hs']
      exact heq

/-- If one file has all the definitions of a name, the last of them in
that file is looked up. -/
theorem defsByFqn_of_file {f : String} {r : FileRecord} (hr : r ∈ c.files)
    (hdef : r.Defines f) (hown : ∀ s ∈ c.files, s.Defines f → s = r) :
    c.defsByFqn f = r.definitions.reverse.find? (·.fqn = f) := by
  obtain ⟨pre, post, hsplit⟩ := List.append_of_mem hr
  have hnodup := c.nodup_files
  rw [hsplit] at hnodup hown
  refine defsByFqn_of_last hsplit hdef fun s hs hdef' => ?_
  have hmem : s ∈ pre ++ r :: post :=
    List.mem_append_right _ (List.mem_cons_of_mem _ hs)
  rw [hown s hmem hdef'] at hs
  exact (List.nodup_cons.1 (List.nodup_append.1 hnodup).2.1).1 hs

theorem SameRecords.defsByFqn (h : SameRecords a b) {f : String}
    (hf : ¬ a.Shared f) : a.defsByFqn f = b.defsByFqn f := by
  cases hd : a.defsByFqn f with
  | none =>
    have hno : a.defined f = false := by
      rw [Corpus.defined, hd]
      rfl
    rw [h.defined, Corpus.defined] at hno
    exact (Option.not_isSome_iff_eq_none.1 (by rw [hno]; decide)).symm
  | some d =>
    obtain ⟨hmem, hfqn⟩ := defsByFqn_spec hd
    obtain ⟨r, hr, hdr⟩ := Corpus.mem_definitions.1 hmem
    have hown : ∀ s ∈ a.files, s.Defines f → s = r := by
      intro s hs hdefines
      obtain ⟨d', hd', hfqn'⟩ := hdefines
      refine files_inj hs hr ?_
      rw [← r.definitions_file d hdr, ← s.definitions_file d' hd']
      by_contra hne
      exact hf ⟨d', Corpus.mem_definitions.2 ⟨s, hs, hd'⟩, d, hmem, hfqn',
        hfqn, hne⟩
    rw [← hd, defsByFqn_of_file hr ⟨d, hdr, hfqn⟩ hown,
      defsByFqn_of_file (h.mem_files.1 hr) ⟨d, hdr, hfqn⟩
        fun s hs => hown s (h.mem_files.2 hs)]

/-- Where every addressable name looks up the same, the answers are the
same. -/
theorem SameRecords.sameAnswers (h : SameRecords a b)
    (hwin : ∀ f, a.Addressable f → a.defsByFqn f = b.defsByFqn f) :
    SameAnswers a b := by
  have hdefs : ∀ symbol origin,
      ∀ f ∈ a.resolveSymbolToFqns symbol origin,
        a.defsByFqn f = b.defsByFqn f :=
    fun symbol origin f hf => hwin f ⟨symbol, origin, hf⟩
  refine ⟨?_, ?_, h.findCallers⟩
  · intro symbol origin d
    rw [mem_findDefinition, mem_findDefinition]
    constructor
    · intro ⟨f, hf, hd⟩
      exact ⟨f, h.mem_resolve.1 hf, by rw [← hdefs symbol origin f hf]; exact hd⟩
    · intro ⟨f, hf, hd⟩
      have hf' := h.mem_resolve.2 hf
      exact ⟨f, hf', by rw [hdefs symbol origin f hf']; exact hd⟩
  · intro symbol origin includeTestFiles
    by_cases hnil : a.resolveSymbolToFqns symbol origin = []
    · rw [findReferences_unknown hnil,
        findReferences_unknown ((h.resolve_nil symbol origin).1 hnil)]
    · have hsites : ∀ x,
          a.atDefinition (a.resolveSymbolToFqns symbol origin) x =
            b.atDefinition (b.resolveSymbolToFqns symbol origin) x := by
        intro x
        rw [Bool.eq_iff_iff, atDefinition, atDefinition, List.any_eq_true,
          List.any_eq_true]
        simp only [List.mem_filterMap]
        constructor
        · intro ⟨d, ⟨f, hf, hd⟩, hx⟩
          rw [hdefs symbol origin f hf] at hd
          exact ⟨d, ⟨f, h.mem_resolve.1 hf, hd⟩, hx⟩
        · intro ⟨d, ⟨f, hf, hd⟩, hx⟩
          have hf' := h.mem_resolve.2 hf
          rw [← hdefs symbol origin f hf'] at hd
          exact ⟨d, ⟨f, hf', hd⟩, hx⟩
      rw [findReferences_known hnil,
        findReferences_known (mt (h.resolve_nil symbol origin).2 hnil)]
      refine Prod.ext (sortBy_congr ?_ ?_ ?_) rfl
      · intro x
        rw [List.mem_filter, List.mem_filter, mem_firsts (gathered_keyInj _ _),
          mem_firsts (gathered_keyInj _ _), h.mem_gathered, kept, kept, hsites]
      · exact (nodup_firsts _).sublist (List.filter_sublist.map _)
      · exact (nodup_firsts _).sublist (List.filter_sublist.map _)

-- ==== a record inserted again

/-- A record taken out and inserted again, as a refresh does. -/
def moveLast (c : Corpus) (r : FileRecord) : Corpus :=
  (c.erase r.path).insert r

theorem sameRecords_moveLast {r : FileRecord} (hr : r ∈ c.files) :
    SameRecords (c.moveLast r) c := by
  intro path
  unfold moveLast insert erase
  dsimp only
  by_cases hp : path = r.path
  · rw [hp, Dict.get_set_self, mem_files.1 hr]
  · rw [Dict.get_set_ne _ hp, Dict.get_erase_ne _ hp]

theorem files_moveLast (r : FileRecord) :
    (c.moveLast r).files = (c.erase r.path).files ++ [r] := by
  have hnot : r.path ∉ (c.records.erase r.path).entries.map Prod.fst := by
    intro hmem
    obtain ⟨e, he, hkey⟩ := List.mem_map.1 hmem
    have hne := (List.mem_filter.1 he).2
    rw [hkey] at hne
    exact absurd rfl (of_decide_eq_true hne)
  unfold moveLast insert files Dict.values Dict.set erase
  dsimp only
  rw [Dict.put_of_not_mem hnot, List.map_append]
  rfl

/-- The file inserted last wins. -/
theorem defsByFqn_moveLast {r : FileRecord} {d : Definition}
    (hd : d ∈ r.definitions) :
    ∃ w ∈ r.definitions, (c.moveLast r).defsByFqn d.fqn = some w := by
  have hsome : (r.definitions.reverse.find? (·.fqn = d.fqn)).isSome := by
    rw [List.find?_isSome]
    exact ⟨d, List.mem_reverse.2 hd, decide_eq_true rfl⟩
  obtain ⟨w, hw⟩ := Option.isSome_iff_exists.1 hsome
  refine ⟨w, List.mem_reverse.1 (List.mem_of_find?_eq_some hw), ?_⟩
  rw [defsByFqn_of_last (files_moveLast r) ⟨d, hd, rfl⟩
    (fun s hs => absurd hs List.not_mem_nil), hw]

/-- Where two files define a name that a symbol resolves to, some two
orders answer differently. -/
theorem answers_differ {f : String} (haddr : c.Addressable f)
    (hshared : c.Shared f) :
    ∃ a b, SameRecords a c ∧ SameRecords b c ∧ ¬ SameAnswers a b := by
  obtain ⟨symbol, origin, hf⟩ := haddr
  obtain ⟨d, hd, d', hd', hfqn, hfqn', hne⟩ := hshared
  obtain ⟨r, hr, hdr⟩ := mem_definitions.1 hd
  obtain ⟨r', hr', hdr'⟩ := mem_definitions.1 hd'
  have hsame := sameRecords_moveLast hr
  have hsame' := sameRecords_moveLast hr'
  refine ⟨c.moveLast r, c.moveLast r', hsame, hsame', fun hans => hne ?_⟩
  obtain ⟨w, hw, hlook⟩ := defsByFqn_moveLast (c := c) hdr
  obtain ⟨w', hw', hlook'⟩ := defsByFqn_moveLast (c := c) hdr'
  rw [hfqn] at hlook
  rw [hfqn'] at hlook'
  have hmem : w ∈ (c.moveLast r).findDefinition symbol origin :=
    mem_findDefinition.2 ⟨f, hsame.mem_resolve.2 hf, hlook⟩
  obtain ⟨g, _, hg⟩ :=
    mem_findDefinition.1 ((hans.definition symbol origin w).1 hmem)
  have hgf : g = f := by
    rw [← (defsByFqn_spec hg).2, (defsByFqn_spec hlook).2]
  rw [hgf, hlook'] at hg
  rw [r.definitions_file d hdr, r'.definitions_file d' hdr',
    ← r.definitions_file w hw, ← r'.definitions_file w' hw',
    Option.some.inj hg]

/-- Exactly when every order of the same records answers alike: no name
that some symbol resolves to is defined in two files. -/
theorem answers_order_free (c : Corpus) :
    (∀ a b, SameRecords a c → SameRecords b c → SameAnswers a b) ↔
      ∀ f, c.Addressable f → ¬ c.Shared f := by
  constructor
  · intro hall f haddr hshared
    obtain ⟨a, b, ha, hb, hdiff⟩ := answers_differ haddr hshared
    exact hdiff (hall a b ha hb)
  · intro hok a b ha hb
    have hab : SameRecords a b := fun path => (ha path).trans (hb path).symm
    exact hab.sameAnswers fun f haddr => hab.defsByFqn fun hshared =>
      hok f (ha.addressable haddr) (ha.shared hshared)

/-- A file with one function `run` and nothing else. -/
def runFile (path : String) : FileRecord where
  path := path
  language := (languageForPath path).getD ""
  contentHash := ""
  moduleDotted := moduleDottedPath path
  definitions :=
    [⟨fqn (moduleDottedPath path) ["run"], "run", .function, path, 1, 5, 2,
      "run"⟩]
  rawRefs := []
  importBindings := .empty
  wildcardImportModules := []
  sourceLines := ["run"]
  isTestFile := false
  isGenerated := false
  lineCount := 1
  definitions_file := by simp
  rawRefs_nodup := nodup_noRefs

/-- `util.py` and `util.ts` as a fresh build inserts them, and as a refresh
does that finds `util.py` added. -/
def built : Corpus :=
  (empty.insert (runFile "util.py")).insert (runFile "util.ts")

def refreshed : Corpus :=
  (empty.insert (runFile "util.ts")).insert (runFile "util.py")

theorem order_shows :
    SameRecords built refreshed ∧
    ((built.findDefinition "run" none).map (·.file) = ["util.ts", "util.ts"] ∧
      (refreshed.findDefinition "run" none).map (·.file) =
        ["util.py", "util.py"]) ∧
    ¬ SameAnswers built refreshed := by
  have hfiles :
      (built.findDefinition "run" none).map (·.file) =
          ["util.ts", "util.ts"] ∧
        (refreshed.findDefinition "run" none).map (·.file) =
          ["util.py", "util.py"] := by
    decide +kernel
  refine ⟨?_, hfiles, ?_⟩
  · intro path
    show ((Dict.empty.set "util.py" _).set "util.ts" _).get path =
      ((Dict.empty.set "util.ts" _).set "util.py" _).get path
    by_cases hts : path = "util.ts"
    · rw [hts, Dict.get_set_self, Dict.get_set_ne _ (by decide),
        Dict.get_set_self]
    · rw [Dict.get_set_ne _ hts]
      by_cases hpy : path = "util.py"
      · rw [hpy, Dict.get_set_self, Dict.get_set_self]
      · rw [Dict.get_set_ne _ hpy, Dict.get_set_ne _ hpy,
          Dict.get_set_ne _ hts]
  · intro hans
    have hmem : "util.ts" ∈ (built.findDefinition "run" none).map (·.file) := by
      rw [hfiles.1]
      exact List.mem_cons_self
    obtain ⟨d, hd, hfile⟩ := List.mem_map.1 hmem
    have hd' := List.mem_map_of_mem (f := (·.file))
      ((hans.definition "run" none d).1 hd)
    rw [hfiles.2, hfile] at hd'
    exact absurd hd' (by decide)

-- ==== plain names

theorem splitOn_plain {name : String} (hdot : '.' ∉ name.toList) :
    splitOn '.' name = [name] := by
  unfold splitOn
  rw [List.splitOn, List.splitOnP_eq_singleton, List.map_singleton,
    String.ofList_toList]
  intro x hx
  simp only [beq_eq_false_iff_ne]
  intro heq
  exact hdot (heq ▸ hx)

theorem symbolChain_plain {name : String} (hne : name ≠ "")
    (hdot : '.' ∉ name.toList) : symbolChain name = [name] := by
  unfold symbolChain
  rw [splitOn_plain hdot]
  exact List.filter_cons_of_pos (decide_eq_true hne)

theorem resolve_plain {name : String} (hne : name ≠ "")
    (hdot : '.' ∉ name.toList) :
    c.resolveSymbolToFqns name none = (c.defsByName name).map (·.fqn) := by
  unfold resolveSymbolToFqns
  rw [symbolChain_plain hne hdot, if_neg (List.cons_ne_nil _ _)]
  rfl

/-- A definition whose bare name has no dot is reached by that name. -/
theorem addressable_of_plain {d : Definition} (hd : d ∈ c.definitions)
    (hne : d.name ≠ "") (hdot : '.' ∉ d.name.toList) :
    c.Addressable d.fqn := by
  refine ⟨d.name, none, ?_⟩
  rw [resolve_plain hne hdot]
  refine List.mem_map.2 ⟨d, ?_, rfl⟩
  exact List.mem_filter.2 ⟨hd, decide_eq_true rfl⟩

end Corpus

end SdlcOs.Index
