/-
Reading the callers of a symbol page by page.

# One page

A page is a slice of all callers, and the cursor that comes with it is the
offset behind it, as long as there are callers there (`findCallers_page`).

# All pages

So following the cursor goes through the pages of one list
(`Data.Paged`), which has the call sites of all the names that the symbol
resolves to, sorted, and each position once (`callers_paged`).
-/
import SdlcOs.Data.Paging
import SdlcOs.Index.Service
import SdlcOs.Proofs.Index.Exact

namespace SdlcOs.Index

open Data (Paged pageOf firsts sortBy mem_firsts mem_sortBy nodup_firsts
  pairwise_sortBy paged_ends)

-- ==== one page

theorem sliceBound_nat (length n : Nat) :
    sliceBound length (n : Int) = min n length := by
  unfold sliceBound
  rw [if_neg (by omega), Int.toNat_natCast]

theorem slice_page {α : Type} (l : List α) (offset size : Nat) :
    slice l offset (offset + size) = pageOf size offset l := by
  rw [slice, ← Int.natCast_add, sliceBound_nat, sliceBound_nat, pageOf,
    List.take_drop, ← List.take_eq_take_min]
  by_cases hoffset : offset ≤ l.length
  · rw [Nat.min_eq_left hoffset]
  · rw [List.drop_eq_nil_of_le, List.drop_eq_nil_of_le]
    · rw [List.length_take]
      omega
    · rw [List.length_take]
      omega

namespace Corpus

variable {c : Corpus} {symbol : String} {origin : Option Origin}

/-- The call sites of a symbol. -/
def callSites (c : Corpus) (symbol : String) (origin : Option Origin) :
    List CallSite :=
  c.allCallers (c.resolveSymbolToFqns symbol origin)

/-- What they are: the calls of one of the names, in the order of their
positions, and no position twice. -/
theorem mem_callSites {s : CallSite} :
    s ∈ c.callSites symbol origin ↔ s ∈ c.calls ∧
      ∃ f ∈ c.resolveSymbolToFqns symbol origin, s.calleeFqn = some f := by
  rw [callSites, allCallers, mem_sortBy, mem_firsts (callsByFqn_keyInj _)]
  unfold callsByFqn
  simp only [List.mem_flatMap, List.mem_filter, decide_eq_true_eq]
  constructor
  · intro h
    obtain ⟨f, hf, hs, hcallee⟩ := h
    exact ⟨hs, f, hf, hcallee⟩
  · intro h
    obtain ⟨hs, f, hf, hcallee⟩ := h
    exact ⟨f, hf, hs, hcallee⟩

theorem sorted_callSites (c : Corpus) (symbol : String)
    (origin : Option Origin) :
    ((c.callSites symbol origin).map CallSite.key).Pairwise (· < ·) := by
  have hle : ((c.callSites symbol origin).map CallSite.key).Pairwise
      (· ≤ ·) := by
    rw [List.pairwise_map]
    exact pairwise_sortBy _
  have hne : ((c.callSites symbol origin).map CallSite.key).Nodup := by
    have hperm := (List.perm_insertionSort
      (fun x y => CallSite.key x ≤ CallSite.key y)
      (firsts CallSite.key ((c.resolveSymbolToFqns symbol origin).flatMap
        c.callsByFqn))).map CallSite.key
    exact hperm.nodup_iff.2 (nodup_firsts _)
  refine (hle.and hne).imp ?_
  intro x y h
  exact lt_of_le_of_ne h.1 h.2

theorem callSites_unknown
    (h : c.resolveSymbolToFqns symbol origin = []) :
    c.callSites symbol origin = [] := by
  rw [callSites, h]
  rfl

/-- A page of the callers, at a cursor. -/
theorem findCallers_page (c : Corpus) (symbol : String)
    (origin : Option Origin) (size : Nat) {cursor : Cursor} {offset : Nat}
    (hcursor : cursor.offset = some (offset : Int)) :
    ∃ known, c.findCallers symbol origin cursor size =
      some ((pageOf size offset (c.callSites symbol origin),
        if offset + size < (c.callSites symbol origin).length then
          some ((offset + size : Nat) : Int)
        else none), known) := by
  rw [findCallers]
  by_cases hknown : c.resolveSymbolToFqns symbol origin = []
  · rw [if_pos hknown, callSites_unknown hknown, if_neg (by simp)]
    refine ⟨false, ?_⟩
    rw [pageOf, List.drop_nil, List.take_nil]
  · refine ⟨true, ?_⟩
    rw [if_neg hknown, hcursor, Option.map_some, ← callSites, callersPage,
      slice_page]
    norm_cast

end Corpus

-- ==== all pages

/-- A page as the index gives it, and the service's response with it. -/
structure CallersPage where
  calls : List CallSite
  nextCursor : Option Int
  response : Response

/-- Asking for callers at a cursor, and again at the next one until there
is none. -/
inductive Follows (idx : RepoIndex) (symbol : String)
    (origin : Option Origin) (maxResults : Int) :
    Cursor → List CallersPage → Prop where
  | last {cursor : Cursor} {calls : List CallSite} {known : Bool}
      (h : idx.fileRecords.findCallers symbol origin cursor maxResults =
        some ((calls, none), known)) :
      Follows idx symbol origin maxResults cursor
        [⟨calls, none,
          IndexService.findCallers idx symbol origin cursor maxResults⟩]
  | next {cursor : Cursor} {calls : List CallSite} {offset : Int}
      {known : Bool} {pages : List CallersPage}
      (h : idx.fileRecords.findCallers symbol origin cursor maxResults =
        some ((calls, some offset), known))
      (hrest : Follows idx symbol origin maxResults (.at offset) pages) :
      Follows idx symbol origin maxResults cursor
        (⟨calls, some offset,
          IndexService.findCallers idx symbol origin cursor maxResults⟩ ::
            pages)

variable {idx : RepoIndex} {symbol : String} {origin : Option Origin}
  {maxResults : Int}

theorem Follows.shown {cursor : Cursor} {pages : List CallersPage}
    (h : Follows idx symbol origin maxResults cursor pages) :
    ∀ page ∈ pages, page.response =
      if page.calls = [] then
        .empty ("'" ++ symbol ++ "' has no callers anywhere in the index.")
      else .callers (page.calls.map callerDict) page.nextCursor := by
  induction h with
  | last h =>
    intro page hmem
    rw [List.mem_singleton] at hmem
    rw [hmem]
    show IndexService.findCallers _ _ _ _ _ = _
    rw [IndexService.findCallers, h]
  | next h _ ih =>
    rw [List.forall_mem_cons]
    refine ⟨?_, ih⟩
    show IndexService.findCallers _ _ _ _ _ = _
    rw [IndexService.findCallers, h]

theorem Follows.unique {cursor : Cursor} {pages : List CallersPage}
    (h : Follows idx symbol origin maxResults cursor pages) :
    ∀ {pages' : List CallersPage},
      Follows idx symbol origin maxResults cursor pages' →
        pages' = pages := by
  induction h with
  | last h =>
    intro pages' h'
    cases h' with
    | last hl =>
      rw [h] at hl
      cases hl
      rfl
    | next hn _ =>
      rw [h] at hn
      cases hn
  | next h _ ih =>
    intro pages' h'
    cases h' with
    | last hl =>
      rw [h] at hl
      cases hl
    | next hn hrest =>
      rw [h] at hn
      cases hn
      rw [ih hrest]

theorem follows_of_paged {size offset : Nat} {pages : List (List CallSite)}
    (h : Paged size (idx.fileRecords.callSites symbol origin) offset pages) :
    ∀ {cursor : Cursor}, cursor.offset = some (offset : Int) →
      ∃ run : List CallersPage,
        Follows idx symbol origin size cursor run ∧
          run.map CallersPage.calls = pages := by
  induction h with
  | last hlast =>
    intro cursor hcursor
    obtain ⟨known, hpage⟩ := idx.fileRecords.findCallers_page
      symbol origin size hcursor
    rw [if_neg (by omega)] at hpage
    exact ⟨_, .last hpage, rfl⟩
  | @next offset _ hmore _ ih =>
    intro cursor hcursor
    obtain ⟨known, hpage⟩ := idx.fileRecords.findCallers_page
      symbol origin size hcursor
    rw [if_pos hmore] at hpage
    obtain ⟨run, hrun, hcalls⟩ :=
      @ih (.at ((offset + size : Nat) : Int)) rfl
    refine ⟨_, .next hpage hrun, ?_⟩
    rw [List.map_cons, hcalls]

/-- Following the cursor comes to an end in one way; no page is empty
unless there are no callers; and together the pages are the call sites of
the symbol's names, sorted by position and each position once. -/
theorem callers_paged (idx : RepoIndex) (symbol : String)
    (origin : Option Origin) (maxResults : Int) (h : 1 ≤ maxResults) :
    ∃ run : List CallersPage,
      Follows idx symbol origin maxResults .start run ∧
      (∀ run', Follows idx symbol origin maxResults .start run' →
        run' = run) ∧
      ((∃ page ∈ run, page.calls = []) →
        ∀ s ∈ idx.fileRecords.calls,
          ∀ f ∈ idx.fileRecords.resolveSymbolToFqns symbol origin,
            s.calleeFqn ≠ some f) ∧
      (∀ page ∈ run, page.response =
        if page.calls = [] then
          .empty ("'" ++ symbol ++ "' has no callers anywhere in the index.")
        else .callers (page.calls.map callerDict) page.nextCursor) ∧
      (∀ s, s ∈ (run.map CallersPage.calls).flatten ↔
        s ∈ idx.fileRecords.calls ∧
          ∃ f ∈ idx.fileRecords.resolveSymbolToFqns symbol origin,
            s.calleeFqn = some f) ∧
      ((run.map CallersPage.calls).flatten.map CallSite.key).Pairwise
        (· < ·) := by
  obtain ⟨size, rfl⟩ := Int.eq_ofNat_of_zero_le (by omega : 0 ≤ maxResults)
  have hsize : 0 < size := by omega
  obtain ⟨pages, hpages⟩ := paged_ends hsize
    (idx.fileRecords.callSites symbol origin) _ 0 (Nat.le_refl _)
  obtain ⟨run, hrun, hcalls⟩ := follows_of_paged hpages
    (show Cursor.start.offset = some ((0 : Nat) : Int) from rfl)
  have hall : (run.map CallersPage.calls).flatten =
      idx.fileRecords.callSites symbol origin := by
    rw [hcalls, hpages.flatten, List.drop_zero]
  refine ⟨run, hrun, fun run' h' => hrun.unique h', ?_, hrun.shown, ?_, ?_⟩
  · intro hempty s hs f hf hcallee
    obtain ⟨page, hmem, hnil⟩ := hempty
    have hsite : s ∈ idx.fileRecords.callSites symbol origin :=
      Corpus.mem_callSites.2 ⟨hs, f, hf, hcallee⟩
    refine hpages.nonempty hsize (List.length_pos_of_mem hsite) [] ?_ rfl
    rw [← hcalls, ← hnil]
    exact List.mem_map_of_mem hmem
  · intro s
    rw [hall]
    exact Corpus.mem_callSites
  · rw [hall]
    exact Corpus.sorted_callSites _ _ _

/-- A file with a function `f` that is called on two lines. -/
def callingFile (path : String) : FileRecord where
  path := path
  language := "python"
  contentHash := ""
  moduleDotted := moduleDottedPath path
  definitions :=
    [⟨fqn (moduleDottedPath path) ["f"], "f", .function, path, 1, 5, 2,
      "def f(n):"⟩]
  rawRefs := [Corpus.ownCall 4, Corpus.ownCall 3]
  importBindings := .empty
  wildcardImportModules := []
  sourceLines := []
  isTestFile := false
  isGenerated := false
  lineCount := 0
  definitions_file := by simp
  rawRefs_nodup := by simp [Corpus.ownCall, RawRef.position]

/-- An index of two of them. -/
def calling : RepoIndex :=
  ⟨(Corpus.empty.insert (callingFile "b.py")).insert (callingFile "a.py"),
    none, 0⟩

/-- Three of the four calls of the two functions are on the first page. -/
theorem callers_paged_calling :
    ∃ run : List CallersPage, Follows calling "f" none 3 .start run ∧
      run.map (fun page => page.calls.map fun s => (s.file, s.line)) =
        [[("a.py", 3), ("a.py", 4), ("b.py", 3)], [("b.py", 4)]] ∧
      run.map CallersPage.nextCursor = [some 3, none] := by
  obtain ⟨run, hrun, hunique, -⟩ := callers_paged calling "f" none 3 (by decide)
  obtain ⟨known, hfirst⟩ := calling.fileRecords.findCallers_page "f" none 3
    (show Cursor.start.offset = some ((0 : Nat) : Int) from rfl)
  obtain ⟨known', hsecond⟩ := calling.fileRecords.findCallers_page "f" none 3
    (show (Cursor.at 3).offset = some ((3 : Nat) : Int) from rfl)
  have hlength : (calling.fileRecords.callSites "f" none).length = 4 := by
    decide +kernel
  rw [hlength, if_pos (by decide)] at hfirst
  rw [hlength, if_neg (by decide)] at hsecond
  refine ⟨run, hrun, ?_⟩
  rw [← hunique _ (.next hfirst (.last hsecond))]
  refine ⟨?_, rfl⟩
  decide +kernel

end SdlcOs.Index
