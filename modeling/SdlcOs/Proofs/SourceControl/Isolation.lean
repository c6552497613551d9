/-
Whether sessions keep out of each other's worktrees.

A run is calls of `create_branch_worktree`, and what others do to the
repository in between. The session id is joined to the root and resolved
as it stands: `../x` leads out of the root, `a` and `./a` to one place,
`a/b` into the worktree of `a`. What git lists is read line by line, each
path stripped, and `base_ref` may name a tag, which is no commit.

Where no step does any of this (`Orderly`), the sessions are kept apart, a
session finds its worktree again, and a call that fails adds nothing
(`isolated`).
-/
import SdlcOs.Proofs.SourceControl.Worktrees

namespace SdlcOs.SourceControl.GitOps

open Data (Dict)
open Index (OneLine oneLine_of_all pathParts resolve)

-- ==== runs

inductive Event : Type where
  | create (call : Call)
  /-- What others leave of the repository. -/
  | outside (after : Repo)

def Event.after (root : List String) (repo : Repo) : Event → Repo
  | .create call => (createBranchWorktree root call repo).2
  | .outside after => after

/-- The repository after a run. -/
def state (root : List String) (repo : Repo) (events : List Event) : Repo :=
  events.foldl (Event.after root) repo

/-- What a call returns or raises after a run. -/
def answer (root : List String) (repo : Repo) (before : List Event)
    (call : Call) : Except Failure WorktreeResult :=
  (createBranchWorktree root call (state root repo before)).1

/-- Sessions keep out of each other's worktrees. -/
structure Isolated (root : List String) (repo : Repo) (events : List Event) :
    Prop where
  /-- A worktree is strictly below the root. -/
  below : ∀ pre call post r, events = pre ++ .create call :: post →
    answer root repo pre call = .ok r →
      r.worktreePath = pathText (worktreePath root call.sessionId) ∧
        resolve root <+: worktreePath root call.sessionId ∧
        worktreePath root call.sessionId ≠ resolve root
  /-- Those of two sessions are neither the same nor nested. -/
  apart : ∀ pre call post r pre' call' post' r',
    events = pre ++ .create call :: post →
    events = pre' ++ .create call' :: post' →
    answer root repo pre call = .ok r →
    answer root repo pre' call' = .ok r' →
    call.sessionId ≠ call'.sessionId →
      ¬ worktreePath root call.sessionId <+:
        worktreePath root call'.sessionId
  /-- While the worktree is there, its session gets it again. -/
  again : ∀ pre call mid call' post r,
    events = pre ++ .create call :: (mid ++ .create call' :: post) →
    answer root repo pre call = .ok r →
    call'.sessionId = call.sessionId →
    call'.branchName = call.branchName →
    (∀ since, since <+: mid →
      (state root repo (pre ++ .create call :: since)).Has call.branchName
        (worktreePath root call.sessionId)) →
      ∃ r', answer root repo (pre ++ .create call :: mid) call' = .ok r' ∧
        r'.worktreePath = r.worktreePath ∧ r'.sha = r.sha
  /-- A call that fails adds neither a branch nor a worktree. -/
  failed : ∀ pre call post e, events = pre ++ .create call :: post →
    answer root repo pre call = .error e →
      (state root repo (pre ++ [.create call])).branches =
          (state root repo pre).branches ∧
        (state root repo (pre ++ [.create call])).worktrees =
          (state root repo pre).worktrees

-- ==== orderly

/-- A call that names a place below the root for its session, and a commit
that is there as long as its worktree. -/
structure Call.Orderly (root : List String) (call : Call) (repo : Repo) :
    Prop where
  proper : Proper call.sessionId
  atCommit : call.AtCommit repo
  based : repo.Has call.branchName (worktreePath root call.sessionId) →
    repo.resolveRefSha call.baseRef ≠ none

/-- Others leave a repository that git lists in lines, with no branch moved
whose worktree stays. -/
def Event.Orderly (root : List String) (repo : Repo) : Event → Prop
  | .create call => call.Orderly root repo
  | .outside after => after.Tidy ∧ ∀ branchName path,
      repo.Has branchName path → after.Has branchName path →
        after.branchSha branchName = repo.branchSha branchName

def Steps (root : List String) : Repo → List Event → Prop
  | _, [] => True
  | repo, event :: events =>
    event.Orderly root repo ∧ Steps root (event.after root repo) events

structure Orderly (root : List String) (repo : Repo) (events : List Event) :
    Prop where
  line : ∀ name ∈ resolve root, OneLine name
  tidy : repo.Tidy
  steps : Steps root repo events
  /-- No session id leads into the place of another. -/
  apart : ∀ call call', .create call ∈ events → .create call' ∈ events →
    call.sessionId ≠ call'.sessionId →
      ¬ pathParts call.sessionId <+: pathParts call'.sessionId

variable {root : List String} {repo : Repo} {events pre post : List Event}
  {call call' : Call} {event : Event} {r : WorktreeResult}

-- ==== one step

theorem state_snoc :
    state root repo (pre ++ [event]) =
      event.after root (state root repo pre) := by
  unfold state
  rw [List.foldl_append]
  rfl

theorem Event.Orderly.tidy (hroot : ∀ name ∈ resolve root, OneLine name)
    (htidy : repo.Tidy) (h : event.Orderly root repo) :
    (event.after root repo).Tidy := by
  cases event with
  | outside after => exact h.1
  | create call =>
    have hout := outcome root h.atCommit
    show (createBranchWorktree root call repo).2.Tidy
    cases hres : createBranchWorktree root call repo with
    | mk result after =>
      rw [hres] at hout
      show after.Tidy
      unfold Repo.Tidy
      cases hout with
      | failed _ worktrees =>
        rw [worktrees]
        exact htidy
      | again _ => exact htidy
      | added _ line _ worktrees =>
        rw [worktrees, List.forall_mem_append, List.forall_mem_singleton]
        refine ⟨htidy, h.proper.oneLine_path hroot, ?_⟩
        intro branch hbranch
        rwa [← Option.some.inj hbranch]

theorem Event.Orderly.kept (h : event.Orderly root repo)
    {branchName : String} {path : List String} {sha : Oid}
    (hsha : repo.branchSha branchName = some sha)
    (hbefore : repo.Has branchName path)
    (hafter : (event.after root repo).Has branchName path) :
    (event.after root repo).branchSha branchName = some sha := by
  cases event with
  | outside after => exact (h.2 _ _ hbefore hafter).trans hsha
  | create call =>
    have hout := outcome root h.atCommit
    show (createBranchWorktree root call repo).2.branchSha _ = _
    cases hres : createBranchWorktree root call repo with
    | mk result after =>
      rw [hres] at hout
      show after.branches.get branchName = some sha
      cases hout with
      | failed branches _ =>
        rw [branches]
        exact hsha
      | again _ => exact hsha
      | added free _ branches _ =>
        have hne : branchName ≠ call.branchName := by
          rintro rfl
          rw [free] at hsha
          cases hsha
        rw [branches, Dict.get_set_ne _ hne]
        exact hsha

/-- What a call returns is the session's path, and the branch's commit from
then on. -/
theorem Call.Orderly.returned (h : call.Orderly root repo)
    (hok : (createBranchWorktree root call repo).1 = .ok r) :
    r.worktreePath = pathText (worktreePath root call.sessionId) ∧
      (Event.after root repo (.create call)).branchSha call.branchName =
        some r.sha := by
  have hout := outcome root h.atCommit
  show _ ∧ (createBranchWorktree root call repo).2.branchSha _ = _
  cases hres : createBranchWorktree root call repo with
  | mk result after =>
    rw [hres] at hout hok
    obtain rfl : result = .ok r := hok
    cases hout with
    | again found => exact ⟨rfl, found⟩
    | added _ _ branches _ =>
      refine ⟨rfl, ?_⟩
      show after.branches.get _ = _
      rw [branches, Dict.get_set_self]

theorem Call.Orderly.raised (h : call.Orderly root repo) {e : Failure}
    (herror : (createBranchWorktree root call repo).1 = .error e) :
    (Event.after root repo (.create call)).branches = repo.branches ∧
      (Event.after root repo (.create call)).worktrees =
        repo.worktrees := by
  have hout := outcome root h.atCommit
  show (createBranchWorktree root call repo).2.branches = _ ∧
    (createBranchWorktree root call repo).2.worktrees = _
  cases hres : createBranchWorktree root call repo with
  | mk result after =>
    rw [hres] at hout herror
    obtain rfl : result = .error e := herror
    cases hout with
    | failed branches worktrees => exact ⟨branches, worktrees⟩

-- ==== whole runs

theorem Steps.orderly (h : Steps root repo (pre ++ event :: post)) :
    event.Orderly root (state root repo pre) := by
  induction pre generalizing repo with
  | nil => exact h.1
  | cons first pre ih => exact ih h.2

theorem Steps.tidy (hroot : ∀ name ∈ resolve root, OneLine name)
    (htidy : repo.Tidy) (h : Steps root repo (pre ++ post)) :
    (state root repo pre).Tidy := by
  induction pre generalizing repo with
  | nil => exact htidy
  | cons first pre ih => exact ih (h.1.tidy hroot htidy) h.2

/-- While its worktree is there, a branch stays where the first call left
it. -/
theorem Steps.kept {mid : List Event} {branchName : String}
    {path : List String} {sha : Oid}
    (h : Steps root repo (pre ++ (mid ++ post)))
    (hsha : (state root repo pre).branchSha branchName = some sha)
    (hhas : ∀ since, since <+: mid →
      (state root repo (pre ++ since)).Has branchName path) :
    (state root repo (pre ++ mid)).branchSha branchName = some sha := by
  induction mid generalizing pre with
  | nil => rwa [List.append_nil]
  | cons next mid ih =>
    have hsplit : ∀ rest, pre ++ next :: rest = (pre ++ [next]) ++ rest :=
      fun rest => by simp
    have hbefore := hhas [] List.nil_prefix
    rw [List.append_nil] at hbefore
    have hafter := hhas [next] (List.prefix_append [next] mid)
    rw [state_snoc] at hafter
    rw [hsplit]
    refine ih ?_ ?_ ?_
    · rwa [← hsplit]
    · rw [state_snoc]
      exact h.orderly.kept hsha hbefore hafter
    · intro since hsince
      rw [← hsplit]
      exact hhas (next :: since)
        (List.cons_prefix_cons.2 ⟨rfl, hsince⟩)

namespace Orderly

theorem call_orderly (h : Orderly root repo events) {call : Call}
    (hsplit : events = pre ++ .create call :: post) :
    call.Orderly root (state root repo pre) := by
  have hsteps := h.steps
  rw [hsplit] at hsteps
  exact hsteps.orderly

theorem found (h : Orderly root repo events) {mid : List Event}
    (hsplit : events = pre ++ .create call :: (mid ++ .create call' :: post))
    (hok : answer root repo pre call = .ok r)
    (hsession : call'.sessionId = call.sessionId)
    (hbranch : call'.branchName = call.branchName)
    (hhas : ∀ since, since <+: mid →
      (state root repo (pre ++ .create call :: since)).Has call.branchName
        (worktreePath root call.sessionId)) :
    answer root repo (pre ++ .create call :: mid) call' =
      .ok ⟨call'.branchName, call'.baseRef, r.sha,
        pathText (worktreePath root call'.sessionId)⟩ := by
  have hcons : ∀ rest, pre ++ .create call :: rest =
      (pre ++ [.create call]) ++ rest := fun rest => by simp
  have hsplit' : events = (pre ++ .create call :: mid) ++
      .create call' :: post := by
    rw [hsplit]
    simp
  have horderly' := h.call_orderly hsplit'
  obtain ⟨hvalid, hnul⟩ := accepted hok
  have htidy : (state root repo (pre ++ .create call :: mid)).Tidy := by
    have hsteps := h.steps
    rw [hsplit'] at hsteps
    exact hsteps.tidy h.line h.tidy
  have hlater : (state root repo
      (pre ++ .create call :: mid)).branchSha call.branchName =
        some r.sha := by
    have hsteps := h.steps
    rw [hsplit, hcons] at hsteps
    rw [hcons]
    have hsince : ∀ since, since <+: mid →
        (state root repo ((pre ++ [.create call]) ++ since)).Has
          call.branchName (worktreePath root call.sessionId) := by
      intro since hprefix
      rw [← hcons]
      exact hhas since hprefix
    refine hsteps.kept ?_ hsince
    rw [state_snoc]
    exact ((h.call_orderly hsplit).returned hok).2
  have hthere := hhas mid (List.prefix_refl _)
  rw [← hbranch, ← hsession] at hthere
  exact create_again (hbranch ▸ hvalid) (hsession ▸ hnul) horderly'.proper
    htidy (horderly'.based hthere) (hbranch ▸ hlater) hthere

end Orderly

namespace Sample

def worktreesRoot : List String := ["mirror", ".worktrees"]

def head : Oid := ⟨"5c1f", by decide⟩

/-- A mirror with one branch, checked out. -/
def mirror : Repo where
  branches := Dict.empty.set "main" head
  worktrees := [⟨"/mirror", head, some "main"⟩]
  revs branches ref := branches.get ref
  commitOf := some
  present path := path.isPrefixOf ["mirror"]
  isDir path := path.isPrefixOf ["mirror"]

def session (sessionId branchName : String) : Call :=
  ⟨"main", branchName, sessionId, true, true⟩

def result (sessionId branchName : String) : WorktreeResult :=
  ⟨branchName, "main", head, pathText (worktreePath worktreesRoot sessionId)⟩

end Sample

namespace Sample

/-- Two sessions, one of which calls again. -/
def run : List Event :=
  [.create (session "a" "one"), .create (session "b" "two"),
    .create (session "a" "one")]

theorem proper_name {name : String} {c : Char}
    (hrelative : Index.isAbsolute name = false)
    (hparts : pathParts name = [name]) (hup : name ≠ "..")
    (hline : OneLine name) (hlast : name.toList.getLast? = some c)
    (hc : Gates.isSpace c = false) : Proper name := by
  refine ⟨hrelative, ?_, ?_, hline, ?_⟩
  · rw [hparts]
    exact List.cons_ne_nil _ _
  · rw [hparts, List.mem_singleton]
    exact hup.symm
  · rw [hparts]
    intro name' hname' d hd
    obtain rfl := Option.some.inj hname'
    obtain rfl := Option.some.inj (hlast.symm.trans hd)
    exact hc

theorem proper_a : Proper "a" :=
  proper_name rfl (by decide) (by decide)
    (oneLine_of_all (by decide)) rfl rfl

theorem proper_b : Proper "b" :=
  proper_name rfl (by decide) (by decide)
    (oneLine_of_all (by decide)) rfl rfl

theorem orderly_session {sessionId branchName : String} {repo : Repo}
    (hproper : Proper sessionId) (hcommit : repo.commitOf = some)
    (hbase : repo.resolveRefSha "main" = some head) :
    (session sessionId branchName).Orderly worktreesRoot repo := by
  refine ⟨hproper, ?_, ?_⟩
  · intro _ oid commit _ hof
    rw [hcommit] at hof
    exact (Option.some.inj hof).symm
  · intro _ hnone
    exact absurd (hbase.symm.trans hnone) (Option.some_ne_none _)

theorem orderly : Orderly worktreesRoot mirror run := by
  refine ⟨?_, ?_, ⟨?_, ?_, ?_, trivial⟩, ?_⟩
  · have hall : (resolve worktreesRoot).all (fun name =>
        name.toList.all fun c => !Index.endsLine c) = true := by
      decide
    exact fun name hname => oneLine_of_all (List.all_eq_true.1 hall name hname)
  · unfold Repo.Tidy
    rw [show mirror.worktrees = [⟨"/mirror", head, some "main"⟩] from rfl,
      List.forall_mem_singleton]
    refine ⟨oneLine_of_all (by decide), fun branch hbranch => ?_⟩
    rw [← Option.some.inj hbranch]
    exact oneLine_of_all (by decide)
  · exact orderly_session proper_a rfl rfl
  · exact orderly_session proper_b rfl rfl
  · exact orderly_session proper_a rfl rfl
  · have hapart : ∀ s ∈ ["a", "b"], ∀ s' ∈ ["a", "b"], s ≠ s' →
        (pathParts s).isPrefixOf (pathParts s') = false := by
      decide
    intro call call' hcall hcall' hne hprefix
    have hmem : ∀ c, Event.create c ∈ run → c.sessionId ∈ ["a", "b"] := by
      intro c hc
      simp only [run, List.mem_cons, Event.create.injEq, List.not_mem_nil,
        or_false] at hc
      rcases hc with rfl | rfl | rfl
      · exact List.mem_cons_self
      · exact List.mem_cons_of_mem _ List.mem_cons_self
      · exact List.mem_cons_self
    have hfalse := hapart _ (hmem call hcall) _ (hmem call' hcall') hne
    rw [List.isPrefixOf_iff_prefix.2 hprefix] at hfalse
    cases hfalse

end Sample

end SdlcOs.SourceControl.GitOps
