/-
When a parallel batch is all-or-nothing.

# What is undone, and when

Only the branches that were reached with every worker's result in hand
remove the worktrees, and nothing undoes a merge. So what stays behind
can be read off what git and the agents do (`Meets`): worktrees, if one
worker got none while another did, or if a removal fails; and changes of
the main worktree, if a merge fails after one that merged something or
leaves a conflict (`Harmless`). In the main worktree, an agent that raises
leaves behind what it and those before it changed, unless they put it back
themselves (`Restores`).

# Shape of the argument

Each loop has its own lemma: what is registered (`mem_createAll`), what
is collected (`collect_get`), what removing leaves (`removeAll_ok`,
`removeAll_keeps`), what merging comes to (`mergeAll_merged`,
`mergeAll_failed`, `leftover_same`), what changes come to
(`changes_same`). The batch is their composition (`batch_all_or_nothing`).
-/
import SdlcOs.Backend.Parallel

namespace SdlcOs.Backend

open Data
open Orchestrator (SubTask DiffOutput)

variable {root : String} {n : BatchNames}

-- ==== workers

/-- A worker gets no worktree: its name is not a branch name, or git
refuses. -/
def Worker.Fails (n : BatchNames) (w : Worker) : Prop :=
  validBranchName ("agent/" ++ n.sessionId w.subtask.taskId) = false ∨
    w.refuses ≠ none

/-- The handle of a task's worktree. -/
def handleOf (root : String) (n : BatchNames) (taskId : String) :
    WorktreeHandle :=
  ⟨n.sessionId taskId, "agent/" ++ n.sessionId taskId,
    root ++ "/" ++ n.sessionId taskId⟩

/-- A worker's worktree. -/
def Worker.path (root : String) (n : BatchNames) (w : Worker) : String :=
  (handleOf root n w.subtask.taskId).worktreePath

def Worker.result (root : String) (n : BatchNames) (w : Worker) :
    WorkerResult :=
  ⟨w.agent, handleOf root n w.subtask.taskId⟩

theorem runOne_ok {w : Worker} (h : ¬ w.Fails n) :
    w.runOne root n = .ok (w.result root n) := by
  unfold Worker.Fails at h
  push Not at h
  obtain ⟨hvalid, hrefuses⟩ := h
  unfold Worker.runOne createAgentWorktree
  dsimp only
  rw [if_neg hvalid, hrefuses]
  rfl

theorem runOne_fails (root : String) {w : Worker} (h : w.Fails n) :
    ∃ e, w.runOne root n = .error e := by
  unfold Worker.runOne createAgentWorktree
  dsimp only
  by_cases hvalid : validBranchName
      ("agent/" ++ n.sessionId w.subtask.taskId) = false
  · rw [if_pos hvalid]
    exact ⟨_, rfl⟩
  · rw [if_neg hvalid]
    obtain ⟨message, hm⟩ := Option.ne_none_iff_exists'.1 (h.resolve_left hvalid)
    rw [hm]
    exact ⟨_, rfl⟩

-- ==== creation

theorem mem_register {repo : Repo} {path p : String} :
    p ∈ (repo.register path).worktrees ↔ p ∈ repo.worktrees ∨ p = path := by
  unfold Repo.register
  split
  · next hmem =>
    refine ⟨Or.inl, fun h => h.elim id fun heq => ?_⟩
    rw [heq]
    exact hmem
  · exact List.mem_append.trans (or_congr_right List.mem_singleton)

@[simp] theorem register_main (repo : Repo) (path : String) :
    (repo.register path).main = repo.main := by
  unfold Repo.register
  split
  · rfl
  · rfl

theorem createOne_ok {w : Worker} (h : ¬ w.Fails n) (repo : Repo) :
    createOne root n repo w = repo.register (w.path root n) := by
  unfold createOne
  rw [runOne_ok h]
  rfl

theorem createOne_fails {w : Worker} (h : w.Fails n) (repo : Repo) :
    createOne root n repo w = repo := by
  obtain ⟨e, he⟩ := runOne_fails root h
  unfold createOne
  rw [he]

@[simp] theorem createAll_main (root : String) (n : BatchNames)
    (workers : List Worker) :
    ∀ repo : Repo, (createAll root n workers repo).main = repo.main := by
  induction workers with
  | nil => exact fun _ => rfl
  | cons w workers ih =>
    intro repo
    refine (ih _).trans ?_
    by_cases hw : w.Fails n
    · rw [createOne_fails hw]
    · rw [createOne_ok hw, register_main]

/-- What is registered after all workers asked. -/
theorem mem_createAll {p : String} (workers : List Worker) :
    ∀ repo : Repo, p ∈ (createAll root n workers repo).worktrees ↔
      p ∈ repo.worktrees ∨ ∃ w ∈ workers, ¬ w.Fails n ∧ w.path root n = p := by
  induction workers with
  | nil =>
    intro repo
    simp [createAll]
  | cons w workers ih =>
    intro repo
    refine (ih _).trans ?_
    rw [List.exists_mem_cons_iff, ← or_assoc]
    refine or_congr_left ?_
    by_cases hw : w.Fails n
    · rw [createOne_fails hw]
      simp [hw]
    · rw [createOne_ok hw]
      refine mem_register.trans (or_congr_right ?_)
      exact ⟨fun h => ⟨hw, h.symm⟩, fun h => h.2.symm⟩

-- ==== collection

/-- The last of the workers with a task id to end. -/
def lastOf (completed : List Worker) (taskId : String) :
    Option Worker :=
  completed.reverse.find? (·.subtask.taskId = taskId)

theorem lastOf_some {completed : List Worker} {taskId : String}
    {w : Worker} (h : lastOf completed taskId = some w) :
    w ∈ completed ∧ w.subtask.taskId = taskId := by
  have hid := List.find?_some h
  exact ⟨List.mem_reverse.1 (List.mem_of_find?_eq_some h),
    of_decide_eq_true hid⟩

theorem lastOf_mem {completed : List Worker} {w : Worker}
    (h : w ∈ completed) : ∃ w', lastOf completed w.subtask.taskId = some w' := by
  rw [← Option.isSome_iff_exists, lastOf, List.find?_isSome]
  exact ⟨w, List.mem_reverse.2 h, decide_eq_true rfl⟩

theorem collect_fails (root : String) {completed : List Worker} :
    ∀ d : Dict String WorkerResult, (∃ w ∈ completed, w.Fails n) →
      ∃ e, collect root n completed d = .error e := by
  induction completed with
  | nil =>
    intro d ⟨w, hw, _⟩
    cases hw
  | cons w completed ih =>
    intro d h
    unfold collect
    by_cases hw : w.Fails n
    · obtain ⟨e, he⟩ := runOne_fails root hw
      rw [he]
      exact ⟨e, rfl⟩
    · rw [runOne_ok hw]
      obtain ⟨w', hw', hfails⟩ := h
      rcases List.mem_cons.1 hw' with rfl | hmem
      · exact absurd hfails hw
      · exact ih _ ⟨w', hmem, hfails⟩

/-- The results are those of the last workers of each task id. -/
theorem collect_get (root : String) {completed : List Worker} :
    ∀ d : Dict String WorkerResult, (∀ w ∈ completed, ¬ w.Fails n) →
      ∃ results, collect root n completed d = .ok results ∧
        ∀ taskId, results.get taskId =
          ((lastOf completed taskId).map (Worker.result root n)).or
            (d.get taskId) := by
  induction completed with
  | nil => exact fun _ _ => ⟨_, rfl, fun _ => rfl⟩
  | cons w completed ih =>
    intro d h
    obtain ⟨results, hresults, hget⟩ :=
      ih (d.set w.subtask.taskId (w.result root n)) fun w' hw' =>
        h w' (List.mem_cons_of_mem _ hw')
    refine ⟨results, ?_, fun taskId => ?_⟩
    · unfold collect
      rw [runOne_ok (h w List.mem_cons_self)]
      exact hresults
    · rw [hget, lastOf, lastOf, List.reverse_cons, List.find?_append]
      cases List.find? (fun w => decide (w.subtask.taskId = taskId))
          completed.reverse with
      | some w' => rfl
      | none =>
        rw [Option.map_none, Option.none_or, Option.none_or,
          List.find?_singleton]
        by_cases hid : w.subtask.taskId = taskId
        · rw [if_pos (decide_eq_true hid), ← hid, Dict.get_set_self]
          rfl
        · rw [if_neg (by simpa using hid), Dict.get_set_ne _ (Ne.symm hid)]
          rfl

-- ==== removal

section Removal

variable {removes : String → Option String}

theorem remove_ok {path : String} (repo : Repo) :
    repo.removeAgentWorktree path none =
      ({ repo with worktrees := repo.worktrees.filter (· ≠ path) }, none) :=
  rfl

@[simp] theorem removeAll_main (rs : List WorkerResult) :
    ∀ repo : Repo, (removeAll removes rs repo).1.main = repo.main := by
  induction rs with
  | nil => exact fun _ => rfl
  | cons r rs ih =>
    intro repo
    rw [removeAll]
    cases removes r.handle.worktreePath with
    | some message => rfl
    | none => exact ih _

theorem removeAll_subset {p : String} (rs : List WorkerResult) :
    ∀ repo : Repo, p ∈ (removeAll removes rs repo).1.worktrees →
      p ∈ repo.worktrees := by
  induction rs with
  | nil => exact fun _ => id
  | cons r rs ih =>
    intro repo
    rw [removeAll]
    cases removes r.handle.worktreePath with
    | some message => exact id
    | none => exact fun h => (List.mem_filter.1 (ih _ h)).1

/-- Where no removal fails, all are made. -/
theorem removeAll_ok {rs : List WorkerResult} :
    ∀ repo : Repo,
      (∀ r ∈ rs, removes r.handle.worktreePath = none) →
        (removeAll removes rs repo).2 = none ∧
          ∀ r ∈ rs, r.handle.worktreePath ∉
            (removeAll removes rs repo).1.worktrees := by
  induction rs with
  | nil =>
    intro repo _
    exact ⟨rfl, fun r hr => by cases hr⟩
  | cons r rs ih =>
    intro repo h
    obtain ⟨hnone, hgone⟩ := ih
      { repo with
        worktrees := repo.worktrees.filter (· ≠ r.handle.worktreePath) }
      fun r' hr' => h r' (List.mem_cons_of_mem _ hr')
    rw [removeAll, h r List.mem_cons_self, remove_ok]
    refine ⟨hnone, fun r' hr' => ?_⟩
    rcases List.mem_cons.1 hr' with rfl | hmem
    · intro hleft
      have hkept := (List.mem_filter.1 (removeAll_subset rs _ hleft)).2
      simp at hkept
    · exact hgone r' hmem

/-- A worktree whose removal fails stays. -/
theorem removeAll_keeps {p message : String}
    (hfails : removes p = some message) (rs : List WorkerResult) :
    ∀ repo : Repo, p ∈ repo.worktrees →
      p ∈ (removeAll removes rs repo).1.worktrees := by
  induction rs with
  | nil => exact fun _ => id
  | cons r rs ih =>
    intro repo hp
    rw [removeAll]
    by_cases hr : removes r.handle.worktreePath = none
    · rw [hr]
      refine ih _ (List.mem_filter.2 ⟨hp, decide_eq_true ?_⟩)
      intro heq
      rw [← heq, hfails] at hr
      cases hr
    · obtain ⟨message', hm⟩ := Option.ne_none_iff_exists'.1 hr
      rw [hm]
      exact hp

/-- Removing and then raising: the removal's repository, and an
exception. -/
theorem removeThenRaise_inv (removes : String → Option String)
    (rs : List WorkerResult) (repo : Repo) (e : Raised) : ∃ e', removeThenRaise removes rs repo e =
      ((removeAll removes rs repo).1, .error e') := by
  unfold removeThenRaise
  split
  · next heq =>
    rw [heq]
    exact ⟨_, rfl⟩
  · next heq =>
    rw [heq]
    exact ⟨_, rfl⟩

end Removal

-- ==== merging

/-- The main worktree that merging leaves where a merge fails. -/
def leftover (root : String) (n : BatchNames) :
    List Worker → Checkout → Option Checkout
  | [], _ => none
  | w :: rest, main =>
    match w.merge.apply (handleOf root n w.subtask.taskId).branchName
        main with
    | (main, true) => some main
    | (main, false) => leftover root n rest main

theorem apply_unfinished {main : Checkout} (h : main.mergeHead ≠ none)
    (branch : String) (outcome : MergeOutcome) :
    outcome.apply branch main = (main, true) := by
  obtain ⟨other, hother⟩ := Option.ne_none_iff_exists'.1 h
  unfold MergeOutcome.apply
  rw [hother]

theorem apply_free {main : Checkout} (h : main.mergeHead = none)
    (branch : String) (outcome : MergeOutcome) :
    outcome.apply branch main =
      match outcome with
      | .upToDate => (main, false)
      | .merged commit index files =>
        (⟨commit :: main.head, index, files, none⟩, false)
      | .refused => (main, true)
      | .conflict index files =>
        (⟨main.head, index, files, some branch⟩, true) := by
  obtain ⟨head, index, files, mergeHead⟩ := main
  obtain rfl : mergeHead = none := h
  rfl

theorem apply_succeeds {main main' : Checkout} {branch : String}
    {outcome : MergeOutcome}
    (h : outcome.apply branch main = (main', false)) :
    outcome.fails = false ∧ main.mergeHead = none ∧
      main'.mergeHead = none ∧ main.head.length ≤ main'.head.length := by
  cases hmerge : main.mergeHead with
  | some other =>
    rw [apply_unfinished (by rw [hmerge]; exact Option.some_ne_none _)] at h
    cases h
  | none =>
    rw [apply_free hmerge] at h
    cases outcome with
    | upToDate =>
      cases h
      exact ⟨rfl, rfl, hmerge, le_refl _⟩
    | merged commit index files =>
      cases h
      exact ⟨rfl, rfl, rfl, Nat.le_succ _⟩
    | refused => cases h
    | conflict index files => cases h

theorem leftover_head {workers : List Worker} {main main' : Checkout}
    (h : leftover root n workers main = some main') :
    main.head.length ≤ main'.head.length := by
  induction workers generalizing main with
  | nil => cases h
  | cons w rest ih =>
    rw [leftover] at h
    rcases happly : w.merge.apply
        (handleOf root n w.subtask.taskId).branchName main with
      ⟨main₁, failed⟩
    rw [happly] at h
    cases failed with
    | false =>
      exact (apply_succeeds happly).2.2.2.trans (ih h)
    | true =>
      obtain rfl := Option.some.inj h
      unfold MergeOutcome.apply at happly
      split at happly
      · cases happly
        exact le_refl _
      · split at happly
        · cases happly
        · cases happly
        · cases happly
          exact le_refl _
        · cases happly
          exact le_refl _

theorem leftover_none (root : String) (n : BatchNames)
    {workers : List Worker} {main : Checkout}
    (h : main.mergeHead = none) :
    leftover root n workers main = none ↔
      ∀ w ∈ workers, w.merge.fails = false := by
  induction workers generalizing main with
  | nil => exact iff_of_true rfl fun w hw => (by cases hw)
  | cons w rest ih =>
    rw [leftover, List.forall_mem_cons, apply_free h]
    cases w.merge with
    | upToDate => exact (ih h).trans (and_iff_right rfl).symm
    | merged commit index files =>
      exact (ih rfl).trans (and_iff_right rfl).symm
    | refused =>
      refine iff_of_false (Option.some_ne_none _) ?_
      intro h
      cases h.1
    | conflict index files =>
      refine iff_of_false (Option.some_ne_none _) ?_
      intro h
      cases h.1

/-- Merging leaves the main worktree as it is where it fails: a merge is
unfinished to begin with, or none fails, or the first one that does is
refused and all before it had nothing to merge. -/
def Harmless (workers : List Worker) (main : Checkout) : Prop :=
  main.mergeHead ≠ none ∨ (∀ w ∈ workers, w.merge.fails = false) ∨
    ∃ pre w post, workers = pre ++ w :: post ∧
      (∀ v ∈ pre, v.merge = .upToDate) ∧ w.merge = .refused

theorem harmless_upToDate {w : Worker} {rest : List Worker}
    {main : Checkout} (h : w.merge = .upToDate) :
    Harmless (w :: rest) main ↔ Harmless rest main := by
  unfold Harmless
  rw [List.forall_mem_cons, h]
  refine or_congr Iff.rfl (or_congr (and_iff_right rfl) ?_)
  constructor
  · rintro ⟨pre, v, post, heq, hpre, hv⟩
    cases pre with
    | nil =>
      obtain ⟨rfl, -⟩ := List.cons.inj heq
      rw [h] at hv
      cases hv
    | cons u pre =>
      obtain ⟨-, rfl⟩ := List.cons.inj heq
      exact ⟨pre, v, post, rfl,
        fun v hv => hpre v (List.mem_cons_of_mem _ hv), hv⟩
  · rintro ⟨pre, v, post, rfl, hpre, hv⟩
    exact ⟨w :: pre, v, post, rfl, List.forall_mem_cons.2 ⟨h, hpre⟩, hv⟩

theorem harmless_other {w : Worker} {rest : List Worker} {main : Checkout}
    (hmerge : main.mergeHead = none) (h : w.merge ≠ .upToDate)
    (h' : w.merge ≠ .refused) :
    Harmless (w :: rest) main ↔
      w.merge.fails = false ∧ ∀ v ∈ rest, v.merge.fails = false := by
  unfold Harmless
  rw [List.forall_mem_cons]
  constructor
  · rintro (hunfinished | hnone | ⟨pre, v, post, heq, hpre, hv⟩)
    · exact absurd hmerge hunfinished
    · exact hnone
    · cases pre with
      | nil =>
        obtain ⟨rfl, -⟩ := List.cons.inj heq
        exact absurd hv h'
      | cons u pre =>
        obtain ⟨rfl, -⟩ := List.cons.inj heq
        exact absurd (hpre _ List.mem_cons_self) h
  · intro hnone
    exact .inr (.inl hnone)

/-- Where a merge fails, the main worktree is what it was exactly if
merging is harmless. -/
theorem leftover_same (root : String) (n : BatchNames)
    {workers : List Worker} {main : Checkout} :
    (∀ main', leftover root n workers main = some main' → main' = main) ↔
      Harmless workers main := by
  induction workers with
  | nil =>
    refine iff_of_true (fun main' h => (by cases h)) (.inr (.inl ?_))
    intro w hw
    cases hw
  | cons w rest ih =>
    cases hmerge : main.mergeHead with
    | some other =>
      have hunfinished : main.mergeHead ≠ none := by
        rw [hmerge]
        exact Option.some_ne_none _
      refine iff_of_true ?_ (.inl hunfinished)
      intro main' h
      rw [leftover, apply_unfinished hunfinished] at h
      exact (Option.some.inj h).symm
    | none =>
      rw [leftover, apply_free hmerge]
      cases hw : w.merge with
      | upToDate => rw [harmless_upToDate hw, ← ih]
      | merged commit index files =>
        rw [harmless_other hmerge (by rw [hw]; exact nofun)
          (by rw [hw]; exact nofun), hw]
        dsimp only
        have hnone : (⟨commit :: main.head, index, files, none⟩ :
            Checkout).mergeHead = none := rfl
        rw [← leftover_none root n hnone]
        constructor
        · intro h
          refine ⟨rfl, ?_⟩
          by_contra hsome
          obtain ⟨main', hleft⟩ := Option.ne_none_iff_exists'.1 hsome
          have hhead := leftover_head hleft
          rw [h main' hleft, List.length_cons] at hhead
          omega
        · rintro ⟨-, hnone⟩ main' hleft
          rw [hnone] at hleft
          cases hleft
      | refused =>
        refine iff_of_true ?_ (.inr (.inr ⟨[], w, rest, rfl,
          fun v hv => (by cases hv), hw⟩))
        intro main' h
        exact (Option.some.inj h).symm
      | conflict index files =>
        rw [harmless_other hmerge (by rw [hw]; exact nofun)
          (by rw [hw]; exact nofun), hw]
        refine iff_of_false ?_ fun h => (by cases h.1)
        intro h
        have hunfinished := congrArg Checkout.mergeHead (h _ rfl)
        rw [hmerge] at hunfinished
        cases hunfinished

section Merging

variable {removes : String → Option String}
variable {results : Dict String WorkerResult}

/-- Every worker is in the results, with a diff. -/
def Complete (root : String) (n : BatchNames)
    (results : Dict String WorkerResult) (workers : List Worker) :
    Prop :=
  ∀ w ∈ workers, ∃ d, results.get w.subtask.taskId =
    some ⟨.diff d, handleOf root n w.subtask.taskId⟩

theorem mergeAll_merged (removes : String → Option String)
    {workers : List Worker} :
    ∀ (diffs : List DiffOutput) (repo : Repo),
      Complete root n results workers →
        leftover root n workers repo.main = none →
          ∃ main diffs', mergeAll removes results workers diffs repo =
            ({ repo with main := main }, .ok diffs') := by
  induction workers with
  | nil => exact fun _ _ _ _ => ⟨_, _, rfl⟩
  | cons w workers ih =>
    intro diffs repo hcomplete hleft
    obtain ⟨d, hget⟩ := hcomplete w List.mem_cons_self
    rw [leftover] at hleft
    rw [mergeAll, hget]
    dsimp only
    rcases happly : w.merge.apply
        (handleOf root n w.subtask.taskId).branchName repo.main with
      ⟨main, failed⟩
    rw [happly] at hleft
    cases failed with
    | true => cases hleft
    | false =>
      exact ih _ { repo with main := main }
        (fun w' hw' => hcomplete w' (List.mem_cons_of_mem _ hw')) hleft

theorem mergeAll_failed (removes : String → Option String)
    {workers : List Worker} :
    ∀ (diffs : List DiffOutput) (repo : Repo) {main : Checkout},
      Complete root n results workers →
        leftover root n workers repo.main = some main →
          ∃ e, mergeAll removes results workers diffs repo =
            removeThenRaise removes results.values
              { repo with main := main } e := by
  induction workers with
  | nil =>
    intro diffs repo main _ hleft
    cases hleft
  | cons w workers ih =>
    intro diffs repo main hcomplete hleft
    obtain ⟨d, hget⟩ := hcomplete w List.mem_cons_self
    rw [leftover] at hleft
    rw [mergeAll, hget]
    dsimp only
    rcases happly : w.merge.apply
        (handleOf root n w.subtask.taskId).branchName repo.main with
      ⟨main₁, failed⟩
    rw [happly] at hleft
    cases failed with
    | true =>
      obtain rfl := Option.some.inj hleft
      exact ⟨_, rfl⟩
    | false =>
      exact ih _ { repo with main := main₁ }
        (fun w' hw' => hcomplete w' (List.mem_cons_of_mem _ hw')) hleft

end Merging

-- ==== in the main worktree

/-- The last content that some changes put at a path, if they do. -/
def lastPut (place : Place) (path : String) (changes : List Change) :
    Option (Option String) :=
  changes.reverse.findSome? fun
    | .put place' path' content =>
      if place' = place ∧ path' = path then some content else none
    | .commit _ => none

/-- Some changes leave a worktree as it was: there is no commit among them,
and the last change of each path puts back what was there. -/
def Restores (changes : List Change) (main : Checkout) : Prop :=
  (∀ id, Change.commit id ∉ changes) ∧
    ∀ place path content, lastPut place path changes = some content →
      content = main.tree place path

theorem lastPut_concat (place : Place) (path : String)
    (changes : List Change) (change : Change) :
    lastPut place path (changes ++ [change]) =
      (match change with
        | .put place' path' content =>
          if place' = place ∧ path' = path then some content else none
        | .commit _ => none).or (lastPut place path changes) := by
  unfold lastPut
  rw [List.reverse_append, List.reverse_singleton, List.singleton_append,
    List.findSome?_cons]
  cases change with
  | commit id => rfl
  | put place' path' content =>
    by_cases hsame : place' = place ∧ path' = path
    · simp [hsame]
    · simp [hsame]

theorem changes_tree (changes : List Change) (main : Checkout)
    (place : Place) (path : String) :
    (changes.foldl Change.apply main).tree place path =
      (lastPut place path changes).getD (main.tree place path) := by
  induction changes using List.reverseRecOn with
  | nil => rfl
  | append_singleton changes change ih =>
    rw [List.foldl_concat, lastPut_concat]
    cases change with
    | commit id =>
      rw [Option.none_or, ← ih]
      cases place with
      | index => rfl
      | files => rfl
    | put place' path' content =>
      dsimp only
      by_cases hsame : place' = place ∧ path' = path
      · obtain ⟨rfl, rfl⟩ := hsame
        rw [if_pos ⟨rfl, rfl⟩, Option.some_or, Option.getD_some]
        cases place' with
        | index => exact Function.update_self _ _ _
        | files => exact Function.update_self _ _ _
      · rw [if_neg hsame, Option.none_or, ← ih]
        cases place' with
        | index =>
          cases place with
          | index =>
            exact Function.update_of_ne
              (fun h => hsame ⟨rfl, h.symm⟩) _ _
          | files => rfl
        | files =>
          cases place with
          | index => rfl
          | files =>
            exact Function.update_of_ne
              (fun h => hsame ⟨rfl, h.symm⟩) _ _

theorem changes_head (changes : List Change) (main : Checkout) :
    main.head.length ≤ (changes.foldl Change.apply main).head.length ∧
      ((∃ id, Change.commit id ∈ changes) →
        main.head.length < (changes.foldl Change.apply main).head.length) ∧
      ((∀ id, Change.commit id ∉ changes) →
        (changes.foldl Change.apply main).head = main.head ∧
          (changes.foldl Change.apply main).mergeHead = main.mergeHead) := by
  induction changes generalizing main with
  | nil =>
    refine ⟨le_refl _, ?_, fun _ => ⟨rfl, rfl⟩⟩
    rintro ⟨id, h⟩
    cases h
  | cons change changes ih =>
    rw [List.foldl_cons]
    obtain ⟨hle, hlt, hsame⟩ := ih (change.apply main)
    cases change with
    | commit id =>
      have hone : (Change.apply main (.commit id)).head.length =
          main.head.length + 1 := rfl
      refine ⟨by omega, fun _ => by omega, fun hno => ?_⟩
      exact absurd List.mem_cons_self (hno id)
    | put place path content =>
      have hkept : (Change.apply main (.put place path content)).head =
          main.head ∧
          (Change.apply main (.put place path content)).mergeHead =
            main.mergeHead := by
        cases place with
        | index => exact ⟨rfl, rfl⟩
        | files => exact ⟨rfl, rfl⟩
      rw [hkept.1] at hle hlt hsame
      rw [hkept.2] at hsame
      refine ⟨hle, ?_, ?_⟩
      · rintro ⟨id, hid⟩
        rcases List.mem_cons.1 hid with h | h
        · cases h
        · exact hlt ⟨id, h⟩
      · intro hno
        exact hsame fun id hid => hno id (List.mem_cons_of_mem _ hid)

/-- Changes leave a worktree as it was exactly if they restore it. -/
theorem changes_same {changes : List Change} {main : Checkout} :
    changes.foldl Change.apply main = main ↔ Restores changes main := by
  obtain ⟨-, hmore, hsame⟩ := changes_head changes main
  constructor
  · intro h
    rw [h] at hmore
    refine ⟨?_, ?_⟩
    · intro id hid
      exact absurd (hmore ⟨id, hid⟩) (lt_irrefl _)
    · intro place path content hlast
      have htree := changes_tree changes main place path
      rw [h, hlast] at htree
      exact htree.symm
  · rintro ⟨hno, hlast⟩
    have htree : ∀ place, (changes.foldl Change.apply main).tree place =
        main.tree place := by
      intro place
      funext path
      rw [changes_tree]
      cases hput : lastPut place path changes with
      | none => rfl
      | some content => exact hlast place path content hput
    obtain ⟨hhead, hmergeHead⟩ := hsame hno
    have hindex := htree .index
    have hfiles := htree .files
    cases hdone : changes.foldl Change.apply main with
    | mk head index files mergeHead =>
      rw [hdone] at hhead hmergeHead hindex hfiles
      cases main with
      | mk head' index' files' mergeHead' =>
        cases hhead
        cases hmergeHead
        cases hindex
        cases hfiles
        rfl

-- ==== the batch

/-- A worker's result is the one that counts, and it is an exception. -/
def Raises (completed : List Worker) (w : Worker) : Prop :=
  lastOf completed w.subtask.taskId = some w ∧
    ∃ message, w.agent = .raised message

/-- The worktrees a batch creates. -/
def Backend.created (b : Backend) (n : BatchNames)
    (workers : List Worker) : List String :=
  match b.root with
  | none => []
  | some root =>
    if workers.length < 2 then []
    else workers.filterMap fun w =>
      (w.runOne root n).toOption.map (·.handle.worktreePath)

/-- All or nothing: if the batch raises, the main worktree is as it was,
and in every case the created worktrees are gone. -/
def AllOrNothing (repo : Repo) (created : List String)
    (r : Repo × Except Raised (List DiffOutput)) : Prop :=
  (∀ e, r.2 = .error e → r.1.main = repo.main) ∧
    ∀ path ∈ created, path ∉ r.1.worktrees

/-- In the main worktree: the first agent that raises, if one does, and
those before it change nothing they do not put back. -/
def Undisturbed (workers : List Worker) (main : Checkout) : Prop :=
  ∀ pre w post, workers = pre ++ w :: post →
    (∀ v ∈ pre, v.agent.isRaised = false) → w.agent.isRaised = true →
    Restores ((pre ++ [w]).flatMap (·.changes)) main

/-- In worktrees of their own: no worker got one, or all of them did, no
removal fails, and either an agent raised or merging is harmless. -/
def Undone (root : String) (n : BatchNames) (removes : String → Option String)
    (workers completed : List Worker) (main : Checkout) : Prop :=
  (∀ w ∈ workers, w.Fails n) ∨
    (∀ w ∈ workers, ¬ w.Fails n) ∧
      (∀ w ∈ workers, removes (w.path root n) = none) ∧
      ((∃ w ∈ workers, Raises completed w) ∨ Harmless workers main)

/-- The condition on a batch. -/
def Backend.Meets (b : Backend) (n : BatchNames)
    (removes : String → Option String) (workers completed : List Worker)
    (main : Checkout) : Prop :=
  match b.root with
  | none => Undisturbed workers main
  | some root =>
    if workers.length < 2 then Undisturbed workers main
    else Undone root n removes workers completed main

section Batch

variable {b : Backend} {removes : String → Option String}
variable {workers completed : List Worker} {repo : Repo}
variable {results : Dict String WorkerResult} {P : Prop}

/-- The collected results. -/
def Collected (root : String) (n : BatchNames)
    (completed : List Worker) (results : Dict String WorkerResult) :
    Prop :=
  ∀ taskId, results.get taskId =
    (lastOf completed taskId).map (Worker.result root n)

theorem Collected.mem_values (h : Collected root n completed results)
    {r : WorkerResult} : r ∈ results.values ↔
      ∃ w ∈ completed, lastOf completed w.subtask.taskId = some w ∧
        r = w.result root n := by
  rw [Dict.mem_values_iff]
  constructor
  · intro ⟨taskId, hget⟩
    rw [h taskId] at hget
    obtain ⟨w, hlast, rfl⟩ := Option.map_eq_some_iff.1 hget
    obtain ⟨hmem, rfl⟩ := lastOf_some hlast
    exact ⟨w, hmem, hlast, rfl⟩
  · intro ⟨w, _, hlast, hr⟩
    exact ⟨w.subtask.taskId, by rw [h, hlast, hr, Option.map_some]⟩

theorem Collected.path_mem (h : Collected root n completed results)
    {w : Worker} (hw : w ∈ completed) :
    ∃ r ∈ results.values, r.handle.worktreePath = w.path root n := by
  obtain ⟨w', hlast⟩ := lastOf_mem hw
  obtain ⟨hmem, hid⟩ := lastOf_some hlast
  rw [← hid] at hlast
  refine ⟨_, h.mem_values.2 ⟨w', hmem, hlast, rfl⟩, ?_⟩
  rw [Worker.result, hid, Worker.path]

theorem Collected.errors_nil (h : Collected root n completed results)
    (hperm : completed.Perm workers) :
    results.values.filterMap WorkerResult.error = [] ↔
      ¬ ∃ w ∈ workers, Raises completed w := by
  rw [List.filterMap_eq_nil_iff]
  constructor
  · intro hall ⟨w, hw, hlast, message, hagent⟩
    have hnone := hall _ (h.mem_values.2
      ⟨w, hperm.mem_iff.2 hw, hlast, rfl⟩)
    unfold WorkerResult.error Worker.result at hnone
    rw [hagent] at hnone
    cases hnone
  · intro hno r hr
    obtain ⟨w, hw, hlast, rfl⟩ := h.mem_values.1 hr
    unfold WorkerResult.error Worker.result
    cases hagent : w.agent with
    | diff d => rfl
    | raised message =>
      exact absurd ⟨w, hperm.mem_iff.1 hw, hlast, message, hagent⟩ hno

/-- Where no exception counts, every worker is in the results with a
diff. -/
theorem Collected.complete (h : Collected root n completed results)
    (hperm : completed.Perm workers)
    (hno : ¬ ∃ w ∈ workers, Raises completed w) :
    Complete root n results workers := by
  intro w hw
  obtain ⟨w', hlast⟩ := lastOf_mem (hperm.mem_iff.2 hw)
  obtain ⟨hmem, hid⟩ := lastOf_some hlast
  cases hagent : w'.agent with
  | raised message =>
    exact absurd ⟨w', hperm.mem_iff.1 hmem, by rw [hid]; exact hlast,
      message, hagent⟩ hno
  | diff d =>
    refine ⟨d, ?_⟩
    rw [h, hlast, Option.map_some, Worker.result, hagent, hid]

/-- What the inherited method comes to: it raises at the first agent that
does, with the changes up to it made. -/
theorem sequentially_inv (workers : List Worker) :
    ∀ (diffs : List DiffOutput) (repo : Repo),
      ((∀ w ∈ workers, w.agent.isRaised = false) ∧
        ∃ diffs', (sequentially workers diffs repo).2 = .ok diffs') ∨
      ∃ pre w post e, workers = pre ++ w :: post ∧
        (∀ v ∈ pre, v.agent.isRaised = false) ∧ w.agent.isRaised = true ∧
        sequentially workers diffs repo =
          ({ repo with
              main := ((pre ++ [w]).flatMap (·.changes)).foldl Change.apply
                repo.main }, .error e) := by
  induction workers with
  | nil =>
    intro diffs repo
    refine .inl ⟨fun w hw => ?_, _, rfl⟩
    cases hw
  | cons w workers ih =>
    intro diffs repo
    rw [sequentially]
    cases hagent : w.agent with
    | raised message =>
      refine .inr ⟨[], w, workers, .agentError message, rfl,
        fun v hv => ?_, by rw [hagent]; rfl, ?_⟩
      · cases hv
      · simp
    | diff d =>
      have hw : w.agent.isRaised = false := by
        rw [hagent]
        rfl
      rcases ih (diffs ++ [d])
          { repo with main := w.changes.foldl Change.apply repo.main } with
        ⟨hnone, hok⟩ | ⟨pre, v, post, e, rfl, hpre, hv, heq⟩
      · exact .inl ⟨List.forall_mem_cons.2 ⟨hw, hnone⟩, hok⟩
      · refine .inr ⟨w :: pre, v, post, e, rfl,
          List.forall_mem_cons.2 ⟨hw, hpre⟩, hv, ?_⟩
        dsimp only at heq ⊢
        rw [heq, List.cons_append, List.flatMap_cons, List.foldl_append]

theorem first_raised {pre pre' post post' : List Worker} {w w' : Worker}
    (h : pre ++ w :: post = pre' ++ w' :: post')
    (hpre : ∀ v ∈ pre, v.agent.isRaised = false)
    (hw : w.agent.isRaised = true)
    (hpre' : ∀ v ∈ pre', v.agent.isRaised = false)
    (hw' : w'.agent.isRaised = true) : pre = pre' ∧ w = w' := by
  induction pre generalizing pre' with
  | nil =>
    cases pre' with
    | nil => exact ⟨rfl, (List.cons.inj h).1⟩
    | cons v pre' =>
      obtain ⟨rfl, -⟩ := List.cons.inj h
      rw [hpre' w List.mem_cons_self] at hw
      cases hw
  | cons v pre ih =>
    cases pre' with
    | nil =>
      obtain ⟨rfl, -⟩ := List.cons.inj h
      rw [hpre v List.mem_cons_self] at hw'
      cases hw'
    | cons v' pre' =>
      obtain ⟨rfl, hrest⟩ := List.cons.inj h
      obtain ⟨rfl, rfl⟩ := ih hrest
        (fun v hv => hpre v (List.mem_cons_of_mem _ hv))
        (fun v hv => hpre' v (List.mem_cons_of_mem _ hv))
      exact ⟨rfl, rfl⟩

theorem sequentially_all_or_nothing : AllOrNothing repo []
    (sequentially workers [] repo) ↔ Undisturbed workers repo.main := by
  unfold AllOrNothing Undisturbed
  rcases sequentially_inv workers [] repo with
    ⟨hnone, diffs, hok⟩ | ⟨pre, w, post, e, rfl, hpre, hw, heq⟩
  · rw [hok]
    refine iff_of_true ⟨fun e h => ?_, fun p hp => ?_⟩ ?_
    · cases h
    · cases hp
    · rintro pre w post rfl _ hw
      rw [hnone w (by simp)] at hw
      cases hw
  · rw [heq]
    constructor
    · intro h pre' w' post' hsplit hpre' hw'
      obtain ⟨rfl, rfl⟩ := first_raised hsplit hpre hw hpre' hw'
      exact changes_same.1 (h.1 e rfl)
    · intro h
      refine ⟨fun _ _ => ?_, fun p hp => (by cases hp)⟩
      exact changes_same.2 (h pre w post rfl hpre hw)

theorem mem_created (hroot : b.root = some root) (hlen : ¬ workers.length < 2)
    {p : String} : p ∈ b.created n workers ↔
      ∃ w ∈ workers, ¬ w.Fails n ∧ w.path root n = p := by
  unfold Backend.created
  rw [hroot]
  dsimp only
  rw [if_neg hlen, List.mem_filterMap]
  refine exists_congr fun w => and_congr_right fun _ => ?_
  by_cases hw : w.Fails n
  · obtain ⟨e, he⟩ := runOne_fails root hw
    rw [he]
    refine ⟨fun h => ?_, fun h => absurd hw h.1⟩
    cases h
  · rw [runOne_ok hw]
    exact ⟨fun h => ⟨hw, Option.some.inj h⟩, fun h => congrArg some h.2⟩

theorem Collected.removes_none (h : Collected root n completed results)
    (hperm : completed.Perm workers)
    (hnone : ∀ w ∈ workers, removes (w.path root n) = none) :
    ∀ r ∈ results.values, removes r.handle.worktreePath = none := by
  intro r hr
  obtain ⟨w, hw, _, rfl⟩ := h.mem_values.1 hr
  exact hnone w (hperm.mem_iff.1 hw)

/-- Removing the worktrees of the results leaves none of the workers' if
and only if no removal fails. -/
theorem Collected.removed (h : Collected root n completed results)
    (hperm : completed.Perm workers)
    (hmem : ∀ w ∈ workers, w.path root n ∈ repo.worktrees) :
    (∀ w ∈ workers, w.path root n ∉
        (removeAll removes results.values repo).1.worktrees) ↔
      ∀ w ∈ workers, removes (w.path root n) = none := by
  constructor
  · intro hgone w hw
    by_contra hfails
    obtain ⟨message, hm⟩ := Option.ne_none_iff_exists'.1 hfails
    exact hgone w hw (removeAll_keeps hm _ repo (hmem w hw))
  · intro hnone w hw
    obtain ⟨r, hr, hpath⟩ := h.path_mem (hperm.mem_iff.2 hw)
    rw [← hpath]
    exact (removeAll_ok repo (h.removes_none hperm hnone)).2 r hr

/-- A batch that ends by removing the worktrees is all-or-nothing if and
only if no removal fails and, where it raises (`P`), the main worktree is
what it was. -/
theorem Collected.settle (h : Collected root n completed results)
    (hperm : completed.Perm workers) (hroot : b.root = some root)
    (hlen : ¬ workers.length < 2) (hnone : ∀ w ∈ workers, ¬ w.Fails n)
    {main : Checkout} {r : Repo × Except Raised (List DiffOutput)}
    (hrepo : r.1 = (removeAll removes results.values
      { createAll root n workers repo with main := main }).1)
    (hraise : (∀ w ∈ workers, removes (w.path root n) = none) →
      ((∃ e, r.2 = .error e) ↔ P)) :
    AllOrNothing repo (b.created n workers) r ↔
      (∀ w ∈ workers, removes (w.path root n) = none) ∧
        (P → main = repo.main) := by
  have hmem : ∀ w ∈ workers, w.path root n ∈
      ({ createAll root n workers repo with main := main }).worktrees :=
    fun w hw => (mem_createAll workers repo).2
      (Or.inr ⟨w, hw, hnone w hw, rfl⟩)
  have hgone : (∀ path ∈ b.created n workers, path ∉ r.1.worktrees) ↔
      ∀ w ∈ workers, removes (w.path root n) = none := by
    rw [← h.removed hperm hmem, ← hrepo]
    constructor
    · intro hall w hw
      exact hall _ ((mem_created hroot hlen).2 ⟨w, hw, hnone w hw, rfl⟩)
    · intro hall p hp
      obtain ⟨w, hw, _, rfl⟩ := (mem_created hroot hlen).1 hp
      exact hall w hw
  have hmain : r.1.main = main := by rw [hrepo, removeAll_main]
  unfold AllOrNothing
  rw [hgone, hmain, and_comm]
  refine and_congr_right fun hremoved => ?_
  rw [← hraise hremoved]
  exact ⟨fun h ⟨e, he⟩ => h e he, fun h e he => h ⟨e, he⟩⟩

theorem createAll_eta :
    { createAll root n workers repo with main := repo.main } =
      createAll root n workers repo := by
  have hmain := createAll_main root n workers repo
  cases hall : createAll root n workers repo with
  | mk main worktrees =>
    rw [hall] at hmain
    rw [← hmain]

theorem failed_iff (hroot : b.root = some root) (hlen : ¬ workers.length < 2)
    (hfails : ∃ w ∈ workers, w.Fails n) (e : Raised) :
    AllOrNothing repo (b.created n workers)
        (createAll root n workers repo, .error e) ↔
      Undone root n removes workers completed repo.main := by
  constructor
  · intro ⟨_, hgone⟩
    refine Or.inl fun w hw => ?_
    by_contra hw'
    exact hgone _ ((mem_created hroot hlen).2 ⟨w, hw, hw', rfl⟩)
      ((mem_createAll workers repo).2 (Or.inr ⟨w, hw, hw', rfl⟩))
  · intro hundone
    obtain ⟨w, hw, hw'⟩ := hfails
    have hall := hundone.resolve_right fun h => h.1 w hw hw'
    refine ⟨fun _ _ => createAll_main _ _ _ _, fun p hp => ?_⟩
    obtain ⟨w', hmem, hnot, _⟩ := (mem_created hroot hlen).1 hp
    exact absurd (hall w' hmem) hnot

theorem Collected.batch_iff (h : Collected root n completed results)
    (hcollect : collect root n completed Dict.empty = .ok results)
    (hperm : completed.Perm workers) (hroot : b.root = some root)
    (hlen : ¬ workers.length < 2) (hnone : ∀ w ∈ workers, ¬ w.Fails n) :
    AllOrNothing repo (b.created n workers)
        (b.implementSubtasksParallel n removes workers completed repo) ↔
      (∀ w ∈ workers, removes (w.path root n) = none) ∧
      ((∃ w ∈ workers, Raises completed w) ∨
        Harmless workers repo.main) := by
  rw [← leftover_same root n]
  unfold Backend.implementSubtasksParallel
  rw [hroot]
  dsimp only
  rw [if_neg hlen, hcollect]
  dsimp only
  by_cases hraises : ∃ w ∈ workers, Raises completed w
  · -- an agent raised
    cases herrors : results.values.filterMap WorkerResult.error with
    | nil => exact absurd hraises ((h.errors_nil hperm).1 herrors)
    | cons e es =>
      obtain ⟨e', he'⟩ := removeThenRaise_inv removes
        results.values (createAll root n workers repo) e
      dsimp only
      rw [he', h.settle (P := True) hperm hroot hlen hnone
        (by rw [createAll_eta]) fun _ => ⟨fun _ => trivial, fun _ => ⟨e', rfl⟩⟩]
      exact and_congr_right fun _ =>
        ⟨fun _ => Or.inl hraises, fun _ _ => rfl⟩
  · rw [(h.errors_nil hperm).2 hraises]
    dsimp only
    have hcomplete := h.complete hperm hraises
    cases hleft : leftover root n workers repo.main with
    | some main =>
      -- a merge failed
      obtain ⟨e, hmerge⟩ := mergeAll_failed removes []
        (createAll root n workers repo) hcomplete
        (by rw [createAll_main]; exact hleft)
      obtain ⟨e', he'⟩ := removeThenRaise_inv removes
        results.values { createAll root n workers repo with main := main } e
      rw [hmerge, he']
      dsimp only
      rw [h.settle (P := True) hperm hroot hlen hnone rfl
        fun _ => ⟨fun _ => trivial, fun _ => ⟨e', rfl⟩⟩]
      refine and_congr_right fun _ =>
        ⟨fun hsame => Or.inr fun main' hmain' => ?_, fun hor _ => ?_⟩
      · obtain rfl := Option.some.inj hmain'
        exact hsame trivial
      · exact hor.resolve_left hraises main rfl
    | none =>
      obtain ⟨main, diffs, hmerge⟩ := mergeAll_merged removes []
        (createAll root n workers repo) hcomplete
        (by rw [createAll_main]; exact hleft)
      rw [hmerge]
      dsimp only
      have hsettle : ∀ {r : Repo × Except Raised (List DiffOutput)},
          r.1 = (removeAll removes results.values
            { createAll root n workers repo with main := main }).1 →
          ((∀ w ∈ workers, removes (w.path root n) = none) →
            ¬ ∃ e, r.2 = .error e) →
          (AllOrNothing repo (b.created n workers) r ↔
            (∀ w ∈ workers, removes (w.path root n) = none) ∧
            ((∃ w ∈ workers, Raises completed w) ∨
              ∀ main', none = some main' → main' = repo.main)) := by
        intro r hrepo hok
        rw [h.settle (P := False) hperm hroot hlen hnone hrepo
          fun hremoved => ⟨fun hex => hok hremoved hex, False.elim⟩]
        refine and_congr_right fun _ =>
          ⟨fun _ => Or.inr fun main' hmain' => ?_, fun _ => False.elim⟩
        cases hmain'
      cases hremove : removeAll removes results.values
          { createAll root n workers repo with main := main } with
      | mk repo' raised =>
        cases raised with
        | some e =>
          refine hsettle (by rw [hremove]) fun hremoved => ?_
          have hnoraise := (removeAll_ok
            { createAll root n workers repo with main := main }
            (h.removes_none hperm hremoved)).1
          rw [hremove] at hnoraise
          cases hnoraise
        | none =>
          refine hsettle (by rw [hremove]) fun _ ⟨e, he⟩ => ?_
          cases he

/-- A batch is all-or-nothing if and only if the condition is met. -/
theorem batch_all_or_nothing (hperm : completed.Perm workers) :
    AllOrNothing repo (b.created n workers)
        (b.implementSubtasksParallel n removes workers completed repo) ↔
      b.Meets n removes workers completed repo.main := by
  unfold Backend.Meets
  cases hroot : b.root with
  | none =>
    unfold Backend.implementSubtasksParallel Backend.created
    rw [hroot]
    exact sequentially_all_or_nothing
  | some root =>
    dsimp only
    by_cases hlen : workers.length < 2
    · unfold Backend.implementSubtasksParallel Backend.created
      rw [hroot]
      dsimp only
      rw [if_pos hlen, if_pos hlen, if_pos hlen]
      exact sequentially_all_or_nothing
    rw [if_neg hlen]
    by_cases hfails : ∃ w ∈ workers, w.Fails n
    · obtain ⟨w, hw, hw'⟩ := hfails
      obtain ⟨e, he⟩ := collect_fails root Dict.empty
        ⟨w, hperm.mem_iff.2 hw, hw'⟩
      unfold Backend.implementSubtasksParallel
      rw [hroot]
      dsimp only
      rw [if_neg hlen, he]
      exact failed_iff hroot hlen ⟨w, hw, hw'⟩ e
    · have hnone : ∀ w ∈ workers, ¬ w.Fails n :=
        fun w hw hw' => hfails ⟨w, hw, hw'⟩
      obtain ⟨results, hcollect, hget⟩ := collect_get root
        Dict.empty fun w hw => hnone w (hperm.mem_iff.1 hw)
      have hcollected : Collected root n completed results := by
        intro taskId
        rw [hget, Dict.get_empty, Option.or_none]
      rw [hcollected.batch_iff hcollect hperm hroot hlen hnone]
      unfold Undone
      refine ⟨fun h => Or.inr ⟨hnone, h⟩, fun h => (h.resolve_left ?_).2⟩
      intro hall
      cases workers with
      | nil => exact hlen Nat.zero_lt_two
      | cons w workers =>
        exact hnone w List.mem_cons_self (hall w List.mem_cons_self)

end Batch

-- ==== two subtasks

/-- A worker whose branch is merged as given. -/
def merging (taskId : String) (merge : MergeOutcome) : Worker where
  subtask := ⟨taskId, "", some "group", [], none⟩
  refuses := none
  agent := .diff ⟨[taskId], 1⟩
  changes := []
  merge := merge
  stderr := "CONFLICT"

/-- A backend with all its inputs. -/
def configured : Backend := ⟨some "/repo", some "/worktrees", some "main"⟩

/-- The files of a commit. -/
def filesOf (commit : String) : Tree := fun _ => some commit

def mainRepo : Repo := ⟨⟨["base"], filesOf "base", filesOf "base", none⟩, []⟩

/-- The first has nothing to merge, and the second is refused. -/
def refusedPair : List Worker := [merging "t1" .upToDate, merging "t2" .refused]

/-- The second one conflicts with the first. -/
def conflictingPair : List Worker :=
  [merging "t1" (.merged "m1" (filesOf "m1") (filesOf "m1")),
    merging "t2" (.conflict (filesOf "m2") (filesOf "m2"))]

/-- The batch raises, and leaves nothing behind. -/
theorem batch_all_or_nothing_refused :
    (configured.implementSubtasksParallel ⟨"run", "b0"⟩ (fun _ => none)
      refusedPair refusedPair mainRepo).2 =
        .error (.bedrockInvocationError "t2" "agent/run-t2-b0" "CONFLICT") ∧
    AllOrNothing mainRepo (configured.created ⟨"run", "b0"⟩ refusedPair)
      (configured.implementSubtasksParallel ⟨"run", "b0"⟩ (fun _ => none)
        refusedPair refusedPair mainRepo) := by
  refine ⟨by decide +kernel,
    (batch_all_or_nothing (List.Perm.refl _)).2 (Or.inr ⟨?_, ?_, ?_⟩)⟩
  · have hnames : ∀ w ∈ refusedPair, w.refuses = none ∧ validBranchName
        ("agent/" ++ BatchNames.sessionId ⟨"run", "b0"⟩ w.subtask.taskId) =
          true := by
      decide +kernel
    intro w hw hfails
    obtain ⟨hrefuses, hvalid⟩ := hnames w hw
    rcases hfails with hinvalid | hrefused
    · rw [hvalid] at hinvalid
      cases hinvalid
    · exact hrefused hrefuses
  · exact fun w _ => rfl
  · refine Or.inr (Or.inr (Or.inr ⟨[merging "t1" .upToDate], _, [], rfl,
      ?_, rfl⟩))
    intro v hv
    rw [List.mem_singleton.1 hv]
    rfl

/-- The second merge fails: the first one stays, and so does the
conflict. -/
theorem first_merge_kept : ¬ ∀ (b : Backend) (n : BatchNames)
    (removes : String → Option String) (workers completed : List Worker)
    (repo : Repo), completed.Perm workers →
      AllOrNothing repo (b.created n workers)
        (b.implementSubtasksParallel n removes workers completed repo) := by
  intro h
  have hraise : (configured.implementSubtasksParallel ⟨"run", "b0"⟩
      (fun _ => none) conflictingPair conflictingPair mainRepo).2 =
        .error (.bedrockInvocationError "t2" "agent/run-t2-b0" "CONFLICT") := by
    decide +kernel
  have hmain := (h configured ⟨"run", "b0"⟩ (fun _ => none) conflictingPair
    conflictingPair mainRepo (List.Perm.refl _)).1 _ hraise
  have hhead : (configured.implementSubtasksParallel ⟨"run", "b0"⟩
      (fun _ => none) conflictingPair conflictingPair mainRepo).1.main.head =
        ["m1", "base"] := by
    decide +kernel
  rw [hmain] at hhead
  exact absurd hhead (by decide)

end SdlcOs.Backend
