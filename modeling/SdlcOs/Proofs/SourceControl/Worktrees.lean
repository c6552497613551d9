/-
What a call of `create_branch_worktree` does.

Where what git lists has a line for each path and each name, the path that
is found for a branch is that of the first worktree that has it checked
out (`existingWorktreePath_eq`). A call whose `base_ref` is the commit
itself fails and adds nothing, finds the worktree of its session, or adds
the branch and the worktree (`outcome`); while the worktree is there, it
finds it (`create_again`).
-/
import SdlcOs.SourceControl.GitOps
import SdlcOs.Proofs.Index.Lines
import SdlcOs.Proofs.Index.Paths

namespace SdlcOs.SourceControl.GitOps

open Data (Dict mem_intercalate)
open Gates (isSpace strip)
open Index (OneLine endsLine endsWith foldl_next_plain getLast?_append
  head?_append isAbsolute joinPath oneLine_append oneLine_of_all
  oneLine_pathParts pathParts resolve splitLines splitLines_lines strip_eq)

-- ==== the listing

/-- A worktree that is listed in lines of its own. -/
def Worktree.Tidy (w : Worktree) : Prop :=
  OneLine w.path ∧ ∀ branch, w.branch = some branch → OneLine branch

theorem oneLine_oid (oid : Oid) : OneLine oid.text := by
  intro c hc
  have hhex := List.all_eq_true.1 oid.hex c hc
  simp only [isHex, Bool.or_eq_true, Bool.and_eq_true,
    decide_eq_true_eq] at hhex
  simp only [endsLine, Bool.or_eq_false_iff, Bool.and_eq_false_iff,
    decide_eq_false_iff_not]
  omega

theorem oneLine_listing {w : Worktree} (h : w.Tidy) :
    ∀ line ∈ Repo.listing w, OneLine line := by
  have hbranch : OneLine (Repo.checkoutLine w.branch) := by
    cases hw : w.branch with
    | none => exact oneLine_of_all (by decide)
    | some branch =>
      exact oneLine_append.2 ⟨oneLine_of_all (by decide), h.2 branch hw⟩
  unfold Repo.listing
  rw [List.forall_mem_cons, List.forall_mem_cons, List.forall_mem_cons,
    List.forall_mem_singleton]
  refine ⟨?_, ?_, hbranch, oneLine_of_all (by decide)⟩
  · exact oneLine_append.2 ⟨oneLine_of_all (by decide), h.1⟩
  · exact oneLine_append.2 ⟨oneLine_of_all (by decide), oneLine_oid _⟩

/-- The path of the first worktree that has a branch checked out. -/
def Repo.pathOf (repo : Repo) (branchName : String) : Option String :=
  (repo.worktrees.find? fun w => w.branch = some branchName).map
    Worktree.path

theorem scan_other {branchName line : String} {cur : Option String}
    {lines : List String}
    (hworktree : "worktree ".toList.isPrefixOf line.toList = false)
    (hbranch : line ≠ "branch refs/heads/" ++ branchName) :
    Repo.scan branchName cur (line :: lines) =
      Repo.scan branchName cur lines := by
  rw [Repo.scan, if_neg (by rw [hworktree]; exact Bool.false_ne_true),
    if_neg (fun h => hbranch h.1)]

theorem ne_branch_line {line branchName : String}
    (h : line.toList.head? ≠ some 'b') :
    line ≠ "branch refs/heads/" ++ branchName := by
  rintro rfl
  rw [String.toList_append] at h
  exact h rfl

theorem not_worktree_line {line : String}
    (h : line.toList.head? ≠ some 'w') :
    "worktree ".toList.isPrefixOf line.toList = false := by
  by_contra hprefix
  rw [Bool.not_eq_false, List.isPrefixOf_iff_prefix] at hprefix
  obtain ⟨rest, hrest⟩ := hprefix
  rw [← hrest] at h
  exact h rfl

theorem scan_blank {branchName : String} {cur : Option String}
    {lines : List String} :
    Repo.scan branchName cur ("" :: lines) =
      Repo.scan branchName cur lines :=
  scan_other (not_worktree_line (by decide)) (ne_branch_line (by decide))

theorem scan_detached {branchName : String} {cur : Option String}
    {lines : List String} :
    Repo.scan branchName cur ("detached" :: lines) =
      Repo.scan branchName cur lines :=
  scan_other (not_worktree_line (by decide)) (ne_branch_line (by decide))

theorem branch_line_inj {branch branchName : String} :
    "branch refs/heads/" ++ branch = "branch refs/heads/" ++ branchName ↔
      branch = branchName := by
  constructor
  · intro h
    have hlists := congrArg String.toList h
    rw [String.toList_append, String.toList_append] at hlists
    exact String.toList_inj.1 (List.append_cancel_left hlists)
  · intro h
    rw [h]

theorem not_worktree_branch_line (branch : String) :
    "worktree ".toList.isPrefixOf
      ("branch refs/heads/" ++ branch).toList = false := by
  have hbranch : ("branch refs/heads/" ++ branch).toList.head? =
      some 'b' := head?_append rfl
  exact not_worktree_line (by rw [hbranch]; decide)

theorem scan_listing {branchName : String} {cur : Option String}
    {w : Worktree} {lines : List String} :
    Repo.scan branchName cur (Repo.listing w ++ lines) =
      Repo.scan branchName (some (strip w.path))
        (Repo.checkoutLine w.branch :: "" :: lines) := by
  have hdrop : String.ofList (("worktree " ++ w.path).toList.drop
      "worktree ".length) = w.path := by
    rw [String.toList_append]
    exact String.ofList_toList
  have hfirst : "worktree ".toList.isPrefixOf
      ("worktree " ++ w.path).toList = true := by
    rw [String.toList_append, List.isPrefixOf_iff_prefix]
    exact List.prefix_append _ _
  have hhead : ("HEAD " ++ w.head.text).toList.head? = some 'H' :=
    head?_append rfl
  unfold Repo.listing
  rw [List.cons_append, Repo.scan, if_pos hfirst, hdrop, List.cons_append,
    scan_other (not_worktree_line (by rw [hhead]; decide))
      (ne_branch_line (by rw [hhead]; decide))]
  rfl

theorem scan_listing_ne {branchName : String} {cur : Option String}
    {w : Worktree} {lines : List String} (h : w.branch ≠ some branchName) :
    Repo.scan branchName cur (Repo.listing w ++ lines) =
      Repo.scan branchName (some (strip w.path)) lines := by
  have hcheckout : ∀ rest, Repo.scan branchName (some (strip w.path))
      (Repo.checkoutLine w.branch :: rest) =
        Repo.scan branchName (some (strip w.path)) rest := by
    intro rest
    cases hb : w.branch with
    | none => exact scan_detached
    | some branch =>
      refine scan_other (not_worktree_branch_line branch) fun heq => h ?_
      rw [hb, branch_line_inj.1 heq]
  rw [scan_listing, hcheckout, scan_blank]

theorem scan_found {branchName line path : String} {lines : List String}
    (hworktree : "worktree ".toList.isPrefixOf line.toList = false)
    (hbranch : line = "branch refs/heads/" ++ branchName)
    (hpath : path ≠ "") :
    Repo.scan branchName (some path) (line :: lines) = some path := by
  rw [Repo.scan, if_neg (by rw [hworktree]; exact Bool.false_ne_true),
    if_pos ⟨hbranch, hpath⟩]

theorem scan_listing_eq {branchName : String} {cur : Option String}
    {w : Worktree} {lines : List String} (h : w.branch = some branchName)
    (hpath : strip w.path ≠ "") :
    Repo.scan branchName cur (Repo.listing w ++ lines) =
      some (strip w.path) := by
  rw [scan_listing, h]
  exact scan_found (not_worktree_branch_line branchName) rfl hpath

/-- The path that is found is that of the first worktree of the branch. -/
theorem existingWorktreePath_eq {repo : Repo} {branchName path : String}
    (htidy : ∀ w ∈ repo.worktrees, w.Tidy)
    (hpath : repo.pathOf branchName = some path) (hne : strip path ≠ "") :
    repo.existingWorktreePath branchName = some (strip path) := by
  have hlines : splitLines repo.porcelain =
      repo.worktrees.flatMap Repo.listing := by
    refine splitLines_lines fun line hline => ?_
    obtain ⟨w, hw, hline⟩ := List.mem_flatMap.1 hline
    exact oneLine_listing (htidy w hw) line hline
  unfold Repo.existingWorktreePath
  rw [hlines]
  obtain ⟨w, hfind, rfl⟩ := Option.map_eq_some_iff.1 hpath
  have hscan : ∀ (ws : List Worktree) (cur : Option String),
      (ws.find? fun w => w.branch = some branchName) = some w →
      Repo.scan branchName cur (ws.flatMap Repo.listing) =
        some (strip w.path) := by
    intro ws
    induction ws with
    | nil =>
      intro cur h
      cases h
    | cons v ws ih =>
      intro cur h
      rw [List.flatMap_cons]
      by_cases hv : v.branch = some branchName
      · rw [List.find?_cons_of_pos (by simp [hv])] at h
        obtain rfl := Option.some.inj h
        exact scan_listing_eq hv hne
      · rw [List.find?_cons_of_neg (by simp [hv])] at h
        rw [scan_listing_ne hv]
        exact ih _ h
  exact hscan _ _ hfind

-- ==== paths

theorem oneLine_pathText {path : List String}
    (h : ∀ name ∈ path, OneLine name) : OneLine (pathText path) := by
  refine oneLine_append.2 ⟨oneLine_of_all (by decide), fun c hc => ?_⟩
  rw [String.toList_intercalate] at hc
  rcases mem_intercalate hc with hc | ⟨name, hname, hc⟩
  · rw [List.mem_singleton.1 hc]
    decide
  · obtain ⟨name, hmem, rfl⟩ := List.mem_map.1 hname
    exact h name hmem c hc

theorem getLast?_pathText {path : List String} {name : String}
    (h : name ≠ "") :
    (pathText (path ++ [name])).toList.getLast? = name.toList.getLast? := by
  have hjoin : String.intercalate "/" (path ++ [name]) ≠ "" ∧
      (String.intercalate "/" (path ++ [name])).toList.getLast? =
        name.toList.getLast? := by
    by_cases hpath : path = []
    · rw [hpath, List.nil_append, String.intercalate_singleton]
      exact ⟨h, rfl⟩
    · rw [String.intercalate_append_of_ne_nil hpath (List.cons_ne_nil _ _),
        String.intercalate_singleton]
      exact ⟨fun hnil => h (String.append_eq_empty_iff.1 hnil).2,
        getLast?_append h⟩
  unfold pathText
  rw [getLast?_append hjoin.1, hjoin.2]

/-- A session id that names a place below the root: some names, none of
them `..`, in one line that does not end in white space. -/
structure Proper (sessionId : String) : Prop where
  relative : isAbsolute sessionId = false
  named : pathParts sessionId ≠ []
  inside : ".." ∉ pathParts sessionId
  line : OneLine sessionId
  closed : ∀ name ∈ (pathParts sessionId).getLast?,
    ∀ c ∈ name.toList.getLast?, isSpace c = false

theorem worktreePath_eq {root : List String} {sessionId : String}
    (hrelative : isAbsolute sessionId = false)
    (hinside : ".." ∉ pathParts sessionId) :
    worktreePath root sessionId = resolve root ++ pathParts sessionId := by
  unfold worktreePath joinPath resolve
  rw [hrelative, if_neg Bool.false_ne_true, List.foldl_append,
    foldl_next_plain fun c hc hup => hinside (hup ▸ hc)]

theorem Proper.path {sessionId : String} (h : Proper sessionId)
    (root : List String) :
    worktreePath root sessionId = resolve root ++ pathParts sessionId :=
  worktreePath_eq h.relative h.inside

theorem Proper.oneLine_path {sessionId : String} (h : Proper sessionId)
    {root : List String} (hroot : ∀ name ∈ resolve root, OneLine name) :
    OneLine (pathText (worktreePath root sessionId)) := by
  rw [h.path]
  refine oneLine_pathText fun name hname => ?_
  cases List.mem_append.1 hname with
  | inl hname => exact hroot name hname
  | inr hname => exact oneLine_pathParts h.line name hname

theorem Proper.strip_path {sessionId : String} (h : Proper sessionId)
    (root : List String) :
    strip (pathText (worktreePath root sessionId)) =
      pathText (worktreePath root sessionId) := by
  obtain ⟨names, name, hnames⟩ :=
    (List.eq_nil_or_concat (pathParts sessionId)).resolve_left h.named
  rw [List.concat_eq_append] at hnames
  have hmem : name ∈ pathParts sessionId := by simp [hnames]
  have hne : name ≠ "" := by
    intro hempty
    have hkept := (List.mem_filter.1 hmem).2
    rw [hempty] at hkept
    exact absurd hkept (by decide)
  have hlast := h.closed name (by rw [hnames]; simp)
  obtain ⟨d, hd⟩ := Option.ne_none_iff_exists'.1 fun hnone =>
    hne (String.toList_eq_nil_iff.1 (List.getLast?_eq_none_iff.1 hnone))
  refine strip_eq (c := '/') (d := d) (head?_append rfl) (by decide) ?_
    (hlast d hd)
  rw [h.path, hnames, ← List.append_assoc, getLast?_pathText hne, hd]

-- ==== calls

/-- Every worktree is listed in lines of its own. -/
def Repo.Tidy (repo : Repo) : Prop := ∀ w ∈ repo.worktrees, w.Tidy

/-- The worktree of a branch is at a path, and is there. -/
def Repo.Has (repo : Repo) (branchName : String) (path : List String) :
    Prop :=
  repo.pathOf branchName = some (pathText path) ∧ repo.isDir path = true

theorem oneLine_branchName {branchName : String}
    (hvalid : validBranchName branchName = true)
    (hnameable : Repo.nameable branchName = true) : OneLine branchName := by
  have hline : endsWith branchName "\n" = false := by
    by_contra hends
    rw [Bool.not_eq_false, endsWith, List.isSuffixOf_iff_suffix] at hends
    have hfeed := List.all_eq_true.1 hnameable '\n'
      (hends.subset (by decide))
    exact absurd hfeed (by decide)
  unfold validBranchName at hvalid
  rw [hline] at hvalid
  simp only [Bool.false_eq_true, if_false, Bool.and_eq_true] at hvalid
  intro c hc
  have hchar := List.all_eq_true.1 hvalid.1.2 c hc
  simp only [isBranchChar, Bool.or_eq_true, Bool.and_eq_true,
    decide_eq_true_eq] at hchar
  simp only [endsLine, Bool.or_eq_false_iff, Bool.and_eq_false_iff,
    decide_eq_false_iff_not]
  rcases hchar with
    (((((hchar | hchar) | hchar) | rfl) | rfl) | rfl) | rfl
  · omega
  · omega
  · omega
  all_goals decide

/-- What comes of a call, where its `base_ref` is the commit itself. -/
inductive Outcome (root : List String) (call : Call) (repo : Repo) :
    Except Failure WorktreeResult × Repo → Prop
  | failed {e : Failure} {after : Repo}
      (branches : after.branches = repo.branches)
      (worktrees : after.worktrees = repo.worktrees) :
      Outcome root call repo (.error e, after)
  | again {sha : Oid} (found : repo.branchSha call.branchName = some sha) :
      Outcome root call repo (.ok ⟨call.branchName, call.baseRef, sha,
        pathText (worktreePath root call.sessionId)⟩, repo)
  | added {sha : Oid} {after : Repo}
      (free : repo.branchSha call.branchName = none)
      (line : OneLine call.branchName)
      (branches : after.branches = repo.branches.set call.branchName sha)
      (worktrees : after.worktrees = repo.worktrees ++
        [⟨pathText (worktreePath root call.sessionId), sha,
          some call.branchName⟩]) :
      Outcome root call repo (.ok ⟨call.branchName, call.baseRef, sha,
        pathText (worktreePath root call.sessionId)⟩, after)

/-- What `base_ref` names is the commit itself, no tag of it, where the
branch is new. -/
def Call.AtCommit (call : Call) (repo : Repo) : Prop :=
  repo.branchSha call.branchName = none → ∀ oid commit,
    repo.resolveRefSha call.baseRef = some oid →
      repo.commitOf oid = some commit → commit = oid

theorem outcome_added {root : List String} {call : Call} {repo : Repo}
    {baseSha : Oid} (hvalid : validBranchName call.branchName = true)
    (hbase : repo.resolveRefSha call.baseRef = some baseSha)
    (hfree : repo.branchSha call.branchName = none)
    (hcommit : call.AtCommit repo) {made after : Repo}
    (hadd : made.addWorktree call.branchName
      (worktreePath root call.sessionId) baseSha = some after)
    (hbranches : made.branches = repo.branches)
    (hworktrees : made.worktrees = repo.worktrees)
    (hcommitOf : made.commitOf = repo.commitOf) :
    after.branchSha call.branchName = some baseSha ∧
      Outcome root call repo (.ok ⟨call.branchName, call.baseRef, baseSha,
        pathText (worktreePath root call.sessionId)⟩, after) := by
  unfold Repo.addWorktree at hadd
  split at hadd
  · next hnameable =>
    obtain ⟨commit, hof, rfl⟩ := Option.map_eq_some_iff.1 hadd
    rw [hcommitOf] at hof
    obtain rfl := hcommit hfree baseSha commit hbase hof
    refine ⟨?_, .added hfree (oneLine_branchName hvalid hnameable) ?_ ?_⟩
    · exact Dict.get_set_self _ _ _
    · show made.branches.set _ _ = _
      rw [hbranches]
    · show made.worktrees ++ _ = _
      rw [hworktrees]
  · cases hadd

theorem outcome (root : List String) {call : Call} {repo : Repo}
    (hcommit : call.AtCommit repo) :
    Outcome root call repo (createBranchWorktree root call repo) := by
  unfold createBranchWorktree
  split
  · exact .failed rfl rfl
  · next hvalid =>
    split
    · exact .failed rfl rfl
    · unfold Call.locked
      cases hbase : repo.resolveRefSha call.baseRef with
      | none => exact .failed rfl rfl
      | some baseSha =>
        cases hsha : repo.branchSha call.branchName with
        | some sha =>
          dsimp only
          split
          · exact .again hsha
          · exact .failed rfl rfl
        | none =>
          dsimp only
          split
          · exact .failed rfl rfl
          · split
            · split
              · exact .failed rfl rfl
              · next after hadd =>
                split at hadd
                · obtain ⟨hset, hadded⟩ := outcome_added
                    (by simpa using hvalid) hbase hsha hcommit hadd
                    rfl rfl rfl
                  rw [if_pos hset]
                  exact hadded
                · cases hadd
            · exact .failed rfl rfl

/-- What a call got through, its like get through. -/
theorem accepted {root : List String} {call : Call} {repo : Repo}
    {r : WorktreeResult}
    (h : (createBranchWorktree root call repo).1 = .ok r) :
    validBranchName call.branchName = true ∧
      Char.ofNat 0 ∉ call.sessionId.toList := by
  unfold createBranchWorktree at h
  split at h
  · cases h
  · next hvalid =>
    split at h
    · cases h
    · next hnul => exact ⟨by simpa using hvalid, hnul⟩

/-- While the worktree is there, a call of its session finds it. -/
theorem create_again {root : List String} {call : Call} {repo : Repo}
    {sha : Oid} (hvalid : validBranchName call.branchName = true)
    (hnul : Char.ofNat 0 ∉ call.sessionId.toList)
    (hproper : Proper call.sessionId) (htidy : repo.Tidy)
    (hbase : repo.resolveRefSha call.baseRef ≠ none)
    (hsha : repo.branchSha call.branchName = some sha)
    (hhas : repo.Has call.branchName (worktreePath root call.sessionId)) :
    (createBranchWorktree root call repo).1 =
      .ok ⟨call.branchName, call.baseRef, sha,
        pathText (worktreePath root call.sessionId)⟩ := by
  have hstrip := hproper.strip_path root
  have hne : strip (pathText (worktreePath root call.sessionId)) ≠ "" := by
    rw [hstrip]
    intro hempty
    have htext := String.toList_eq_nil_iff.2 hempty
    exact absurd (htext ▸ head?_append rfl :
      ([] : List Char).head? = some '/') (by decide)
  have hpath := existingWorktreePath_eq htidy hhas.1 hne
  rw [hstrip] at hpath
  obtain ⟨baseSha, hbase⟩ := Option.ne_none_iff_exists'.1 hbase
  unfold createBranchWorktree
  rw [if_neg (by rw [hvalid]; decide), if_neg hnul, Call.locked, hbase]
  dsimp only
  rw [hsha]
  dsimp only
  rw [if_pos ⟨hpath, hhas.2⟩]

end SdlcOs.SourceControl.GitOps
