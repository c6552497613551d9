/-
What one tenant can see of the others through the index service.

# The channels

A tenant's rate window is its own, and the indexes it asks are kept under
its own repositories' paths, which no other tenant's repository has
(`other_step`). Its tools read below its own directories, where the other
tenants' are not (`Apart`): except that `file_summary` and `ownership`
join the caller's path to the root once more, after `_safe_join` has
passed what it resolves to. That walk goes wherever the path says, and
whether it arrives tells whether the directories on its way are there.

# The condition

`CallOk`: a call that gets that far (`rawWalk`) walks through no other
tenant's directory, nor does a configured path the call goes by. Over
every two runs with the same calls of one tenant's, and any of the
others', any configuration of theirs and any contents of their
directories, the tenant's calls then get the same responses
(`tenant_noninterference`).
-/
import Mathlib
import SdlcOs.Data.Noninterference
import SdlcOs.Proofs.Index.Paths
import SdlcOs.Proofs.Index.Refresh

namespace SdlcOs.Index

open Data (Dict observed Purged Along Unwinding observed_eq)

variable {Blob : Type} {treeOf : String → Tree Blob} {env : Machine Blob}
  {lim : RateLimiter} {D : List String → Prop} {fs fs' : Store treeOf}

-- ==== answers

/-- The path a tool walks as its caller gave it, if it gets that far:
accepted, a file that is not empty and has no record; or one with owners
and no history. -/
def rawWalk (env : Machine Blob) (fs : Store treeOf) (root : List String)
    (idx : RepoIndex) : Tool → Option (List String)
  | .fileModuleSummary _ path =>
    if (IndexService.accepted fs root path).any (env.size · ≠ 0) ∧
        (idx.fileRecords.records.get path).isNone then
      some (joinPath root path)
    else none
  | .ownershipMetadata _ path =>
    if (IndexService.accepted fs root path).isSome ∧
        RepoIndex.ownersOf env fs root path ≠ [] ∧
        (RepoIndex.frequencyOf fs root path).toOption = some none then
      some (joinPath root path)
    else none
  | _ => none

theorem accepted_congr (h : Agree D fs fs') {root : List String}
    (hap : Apart D root) (path : String) :
    IndexService.accepted fs root path =
      IndexService.accepted fs' root path := by
  unfold IndexService.accepted
  cases hjoin : safeJoin root path with
  | none => rfl
  | some p => exact fileAt_congr h (safeJoin_avoids hap hjoin)

theorem ownersOf_congr (h : Agree D fs fs') {root : List String}
    (hroot : Avoids D root) (hap : Apart D root) (path : String) :
    RepoIndex.ownersOf env fs root path =
      RepoIndex.ownersOf env fs' root path := by
  have hcand : ∀ rel ∈ [["CODEOWNERS"], [".github", "CODEOWNERS"],
      ["docs", "CODEOWNERS"]],
      fs.fileAt (root ++ rel) = fs'.fileAt (root ++ rel) := by
    intro rel hrel
    refine fileAt_congr h (avoids_append hap hroot ?_)
    revert rel
    decide
  unfold RepoIndex.ownersOf RepoIndex.parseCodeowners
  rw [List.map_congr_left hcand]

theorem frequencyOf_congr (h : Agree D fs fs') {root : List String}
    (hap : Apart D root) (path : String) :
    RepoIndex.frequencyOf fs root path =
      RepoIndex.frequencyOf fs' root path := by
  have hbelow : ∀ q, resolve root <+: q → ¬ D q :=
    fun q hq hD => (hap q hD).1 hq
  unfold RepoIndex.frequencyOf
  rw [h.repo _ hbelow, h.log _ hbelow]

/-- A tool answers the same on file systems that agree, if the path it
walks as given avoids the rest. -/
theorem answer_congr (h : Agree D fs fs') {root : List String}
    (hroot : Avoids D root) (hap : Apart D root) (idx : RepoIndex)
    (tool : Tool) (hraw : ∀ p, rawWalk env fs root idx tool = some p →
      Avoids D p) :
    IndexService.answer env fs root idx tool =
      IndexService.answer env fs' root idx tool := by
  cases tool with
  | findDefinition repository symbol origin => rfl
  | findReferences repository symbol origin includeTestFiles => rfl
  | findCallers repository symbol origin cursor maxResults => rfl
  | search query repository maxResults => rfl
  | fileModuleSummary repository path =>
    show IndexService.getFileModuleSummary _ _ _ _ _ _ =
      IndexService.getFileModuleSummary _ _ _ _ _ _
    unfold IndexService.getFileModuleSummary
    rw [← accepted_congr h hap path]
    cases hacc : IndexService.accepted fs root path with
    | none => rfl
    | some blob =>
      dsimp only
      split
      · rfl
      · next hsize =>
        have hsummary : idx.fileSummary env fs root path =
            idx.fileSummary env fs' root path := by
          unfold RepoIndex.fileSummary
          cases hrec : idx.fileRecords.records.get path with
          | some r => rfl
          | none =>
            have hav : Avoids D (joinPath root path) := by
              refine hraw _ (if_pos ⟨?_, ?_⟩)
              · rw [hacc]
                exact decide_eq_true hsize
              · rw [hrec]
                rfl
            dsimp only
            rw [fileAt_congr h hav]
        rw [hsummary]
  | ownershipMetadata repository path =>
    show IndexService.getOwnershipMetadata _ _ _ _ _ =
      IndexService.getOwnershipMetadata _ _ _ _ _
    unfold IndexService.getOwnershipMetadata
    rw [← accepted_congr h hap path]
    cases hacc : IndexService.accepted fs root path with
    | none => rfl
    | some blob =>
      have howned : RepoIndex.ownership env fs root path =
          RepoIndex.ownership env fs' root path := by
        unfold RepoIndex.ownership
        rw [← ownersOf_congr h hroot hap path,
          ← frequencyOf_congr h hap path]
        split
        · rfl
        · next howners =>
          cases hfreq : RepoIndex.frequencyOf fs root path with
          | error message => rfl
          | ok cf =>
            cases cf with
            | some cf => rfl
            | none =>
              have hav : Avoids D (joinPath root path) := by
                refine hraw _ (if_pos ⟨?_, howners, ?_⟩)
                · rw [hacc]
                  rfl
                · rw [hfreq]
                  rfl
              dsimp only
              rw [modifiedAt_congr h hav]
      dsimp only
      rw [howned]
  | refresh repository =>
    show IndexService.refreshRepo _ _ _ _ =
      IndexService.refreshRepo _ _ _ _
    unfold IndexService.refreshRepo
    rw [h.repo _ fun q hq hD => (hap q hD).1 hq]

theorem indexAfter_congr (h : Agree D fs fs') {root : List String}
    (hap : Apart D root) (idx : RepoIndex) (tool : Tool) :
    IndexService.indexAfter env fs root idx tool =
      IndexService.indexAfter env fs' root idx tool := by
  cases tool with
  | refresh repository =>
    unfold IndexService.indexAfter
    dsimp only
    rw [h.repo _ fun q hq hD => (hap q hD).1 hq]
  | _ => rfl

-- ==== two registries

/-- No repository's directory of one tenant contains one of another's. -/
def Registry.Disjoint (reg : Registry) : Prop :=
  ∀ t t' r r' p p', t ≠ t' → reg.repoPath t r = some p →
    reg.repoPath t' r' = some p' → ¬ resolve p <+: resolve p'

/-- The positions below the other tenants' directories, in either of two
configurations. -/
def Others (reg reg' : Registry) (tenant : String) (pos : List String) :
    Prop :=
  ∃ t r p, t ≠ tenant ∧
    (reg.repoPath t r = some p ∨ reg'.repoPath t r = some p) ∧
    resolve p <+: pos

/-- Two configurations that have the same for one tenant, and each the
tenants' directories apart. -/
structure SameTenant (tenant : String) (reg reg' : Registry) : Prop where
  config : reg.config.get tenant = reg'.config.get tenant
  baseDir : reg.baseDir = reg'.baseDir
  disjoint : reg.Disjoint
  disjoint' : reg'.Disjoint

namespace SameTenant

variable {tenant : String} {reg reg' : Registry}

theorem repoPath (h : SameTenant tenant reg reg') (repository : String) :
    reg.repoPath tenant repository = reg'.repoPath tenant repository := by
  unfold Registry.repoPath
  rw [h.config, h.baseDir]

theorem apart (h : SameTenant tenant reg reg') {repository : String}
    {root : List String} (hroot : reg.repoPath tenant repository = some root) :
    Apart (Others reg reg' tenant) root := by
  intro q ⟨t, r, p, ht, hp, hpq⟩
  have hboth : ¬ resolve p <+: resolve root ∧ ¬ resolve root <+: resolve p := by
    cases hp with
    | inl hp =>
      exact ⟨h.disjoint t tenant r repository p root ht hp hroot,
        h.disjoint tenant t repository r root p ht.symm hroot hp⟩
    | inr hp =>
      rw [h.repoPath] at hroot
      exact ⟨h.disjoint' t tenant r repository p root ht hp hroot,
        h.disjoint' tenant t repository r root p ht.symm hroot hp⟩
  constructor
  · intro hrq
    cases List.prefix_or_prefix_of_prefix hpq hrq with
    | inl hle => exact hboth.1 hle
    | inr hle => exact hboth.2 hle
  · intro hqr
    exact hboth.1 (hpq.trans hqr)

end SameTenant

namespace IndexService

-- ==== another tenant's call

theorem checkedPath_ok {reg : Registry} {tenant repository : String}
    {path : List String}
    (h : checkedPath reg fs tenant repository = .ok path) :
    reg.repoPath tenant repository = some path := by
  unfold checkedPath at h
  split at h
  · cases h
  · cases hpath : reg.repoPath tenant repository with
    | none =>
      rw [hpath] at h
      cases h
    | some p =>
      rw [hpath] at h
      dsimp only at h
      split at h
      · cases h
      · cases h
        rfl

theorem searchAll_windows {reg : Registry} {tenant query : String}
    {maxResults : Int} : ∀ (repositories : List String) (s : IndexService)
      (results : List SearchHit),
    (searchAll env reg fs tenant query maxResults s results
      repositories).1.windows = s.windows := by
  intro repositories
  induction repositories with
  | nil => intro s results; rfl
  | cons repository repositories ih =>
    intro s results
    rw [searchAll]
    cases checkedPath reg fs tenant repository with
    | error e => rfl
    | ok path => exact ih _ _

theorem perform_windows {reg : Registry} {s : IndexService}
    {tenant : String} {tool : Tool} :
    (perform env reg fs s tenant tool).1.windows = s.windows := by
  unfold perform
  cases Tool.repository tool with
  | none => exact searchAll_windows _ _ _
  | some repository =>
    dsimp only
    unfold onRepository
    cases checkedPath reg fs tenant repository with
    | error e => rfl
    | ok path => rfl

theorem searchAll_indexes {reg : Registry} {tenant query : String}
    {maxResults : Int} {p : List String}
    (hp : ∀ r, reg.repoPath tenant r ≠ some p) :
    ∀ (repositories : List String) (s : IndexService)
      (results : List SearchHit),
    (searchAll env reg fs tenant query maxResults s results
      repositories).1.indexes.get p = s.indexes.get p := by
  intro repositories
  induction repositories with
  | nil => intro s results; rfl
  | cons repository repositories ih =>
    intro s results
    rw [searchAll]
    cases hpath : checkedPath reg fs tenant repository with
    | error e => rfl
    | ok path =>
      have hne : p ≠ path := by
        intro heq
        rw [← heq] at hpath
        exact hp repository (checkedPath_ok hpath)
      exact (ih _ _).trans (Dict.get_set_ne _ hne _)

theorem perform_indexes {reg : Registry} {s : IndexService}
    {tenant : String} {tool : Tool} {p : List String}
    (hp : ∀ r, reg.repoPath tenant r ≠ some p) :
    (perform env reg fs s tenant tool).1.indexes.get p =
      s.indexes.get p := by
  unfold perform
  cases Tool.repository tool with
  | none => exact searchAll_indexes hp _ _ _
  | some repository =>
    dsimp only
    unfold onRepository
    cases hpath : checkedPath reg fs tenant repository with
    | error e => rfl
    | ok path =>
      have hne : p ≠ path := by
        intro heq
        rw [← heq] at hpath
        exact hp repository (checkedPath_ok hpath)
      exact Dict.get_set_ne _ hne _

theorem checkRate_others {s : IndexService} {e : Event treeOf}
    {tenant : String} (ht : e.tenant ≠ tenant) :
    (checkRate lim s e).1.windows.get tenant = s.windows.get tenant ∧
      (checkRate lim s e).1.indexes = s.indexes := by
  unfold checkRate
  split
  · exact ⟨Dict.get_set_ne _ ht.symm _, rfl⟩
  · exact ⟨rfl, rfl⟩

/-- Another tenant's call leaves a tenant's window, and every index but
those of the other's paths. -/
theorem step_others {reg : Registry} {s : IndexService} {e : Event treeOf}
    {tenant : String} (ht : e.tenant ≠ tenant) :
    (step env lim reg s e).1.windows.get tenant = s.windows.get tenant ∧
      ∀ p, (∀ r, reg.repoPath e.tenant r ≠ some p) →
        (step env lim reg s e).1.indexes.get p = s.indexes.get p := by
  obtain ⟨hwin, hidx⟩ := @checkRate_others _ _ lim s e tenant ht
  unfold step
  cases (checkRate lim s e).2 with
  | some retryAfter => exact ⟨hwin, fun p _ => by rw [← hidx]; rfl⟩
  | none =>
    constructor
    · exact (congrArg (·.get tenant) perform_windows).trans hwin
    · intro p hp
      rw [← hidx]
      exact perform_indexes hp

-- ==== the tenant's call

/-- What a tenant can come to see of a service. -/
structure SeenAlike (reg : Registry) (tenant : String)
    (s s' : IndexService) : Prop where
  window : s.windows.get tenant = s'.windows.get tenant
  index : ∀ r p, reg.repoPath tenant r = some p →
    s.indexes.get p = s'.indexes.get p

/-- A repository a tool asks. -/
def Asks (reg : Registry) (tenant : String) (tool : Tool)
    (repository : String) : Prop :=
  Tool.repository tool = some repository ∨
    Tool.repository tool = none ∧ repository ∈ reg.repositoriesFor tenant

/-- A call walks through none of these positions but where it resolves
to: on the configured paths it goes by, and on the path it was given,
should it walk that. -/
structure CallOk (env : Machine Blob) (lim : RateLimiter)
    (D : List String → Prop) (reg : Registry) (s : IndexService)
    (e : Event treeOf) : Prop where
  configured : (checkRate lim s e).2 = none → ∀ repository root,
    Asks reg e.tenant e.tool repository →
    reg.repoPath e.tenant repository = some root → Avoids D root
  given : (checkRate lim s e).2 = none → ∀ repository root p,
    Tool.repository e.tool = some repository →
    checkedPath reg e.fs e.tenant repository = .ok root →
    rawWalk env e.fs root (indexOf env e.fs s root) e.tool = some p →
    Avoids D p

variable {tenant : String} {reg reg' : Registry} {s s' : IndexService}

theorem checkedPath_congr (hreg : SameTenant tenant reg reg')
    (h : Agree D fs fs') {repository : String}
    (hav : ∀ root, reg.repoPath tenant repository = some root →
      Avoids D root) :
    checkedPath reg fs tenant repository =
      checkedPath reg' fs' tenant repository := by
  unfold checkedPath Registry.isKnownTenant
  rw [← hreg.config, ← hreg.repoPath]
  split
  · rfl
  · cases hpath : reg.repoPath tenant repository with
    | none => rfl
    | some root =>
      dsimp only
      rw [isDirAt_congr h (hav root hpath)]

theorem indexOf_congr (hs : SeenAlike reg tenant s s') (h : Agree D fs fs')
    {repository : String} {root : List String} (hap : Apart D root)
    (hroot : reg.repoPath tenant repository = some root) :
    indexOf env fs s root = indexOf env fs' s' root := by
  unfold indexOf
  rw [hs.index repository root hroot,
    h.repo _ fun q hq hD => (hap q hD).1 hq]

theorem seenAlike_keep (hs : SeenAlike reg tenant s s') (path : List String)
    (idx : RepoIndex) :
    SeenAlike reg tenant (s.keep path idx) (s'.keep path idx) := by
  refine ⟨hs.window, fun r p hp => ?_⟩
  show (s.indexes.set path idx).get p = (s'.indexes.set path idx).get p
  by_cases heq : p = path
  · rw [heq, Dict.get_set_self, Dict.get_set_self]
  · rw [Dict.get_set_ne _ heq, Dict.get_set_ne _ heq]
    exact hs.index r p hp

theorem checkRate_congr (hs : SeenAlike reg tenant s s') {e e' : Event treeOf}
    (ht : e.tenant = tenant) (ht' : e'.tenant = tenant)
    (hnow : e.now = e'.now) (htool : e.tool = e'.tool) :
    (checkRate lim s e).2 = (checkRate lim s' e').2 ∧
      SeenAlike reg tenant (checkRate lim s e).1 (checkRate lim s' e').1 := by
  unfold checkRate
  rw [ht, ht', hnow, htool, hs.window]
  split
  · refine ⟨rfl, ⟨?_, hs.index⟩⟩
    dsimp only
    rw [Dict.get_set_self, Dict.get_set_self]
  · exact ⟨rfl, hs⟩

theorem searchAll_congr (hreg : SameTenant tenant reg reg')
    (h : Agree (Others reg reg' tenant) fs fs') {query : String}
    {maxResults : Int} : ∀ (repositories : List String)
      (s s' : IndexService) (results : List SearchHit),
    SeenAlike reg tenant s s' →
    (∀ repository ∈ repositories, ∀ root,
      reg.repoPath tenant repository = some root →
      Avoids (Others reg reg' tenant) root) →
    SeenAlike reg tenant
        (searchAll env reg fs tenant query maxResults s results
          repositories).1
        (searchAll env reg' fs' tenant query maxResults s' results
          repositories).1 ∧
      (searchAll env reg fs tenant query maxResults s results
          repositories).2 =
        (searchAll env reg' fs' tenant query maxResults s' results
          repositories).2 := by
  intro repositories
  induction repositories with
  | nil => intro s s' results hs _; exact ⟨hs, rfl⟩
  | cons repository repositories ih =>
    intro s s' results hs hav
    rw [searchAll, searchAll,
      ← checkedPath_congr hreg h (hav repository List.mem_cons_self)]
    cases hpath : checkedPath reg fs tenant repository with
    | error e => exact ⟨hs, rfl⟩
    | ok root =>
      have hroot := checkedPath_ok hpath
      dsimp only
      rw [← indexOf_congr hs h (hreg.apart hroot) hroot]
      exact ih _ _ _ (seenAlike_keep hs _ _)
        fun r hr => hav r (List.mem_cons_of_mem _ hr)

/-- A tool of the tenant's shows the same, and leaves what it can come to
see the same. -/
theorem perform_congr (hreg : SameTenant tenant reg reg')
    (h : Agree (Others reg reg' tenant) fs fs')
    (hs : SeenAlike reg tenant s s') {tool : Tool}
    (hconf : ∀ repository root, Asks reg tenant tool repository →
      reg.repoPath tenant repository = some root →
      Avoids (Others reg reg' tenant) root)
    (hgiven : ∀ repository root p, Tool.repository tool = some repository →
      checkedPath reg fs tenant repository = .ok root →
      rawWalk env fs root (indexOf env fs s root) tool = some p →
      Avoids (Others reg reg' tenant) p) :
    SeenAlike reg tenant (perform env reg fs s tenant tool).1
        (perform env reg' fs' s' tenant tool).1 ∧
      (perform env reg fs s tenant tool).2 =
        (perform env reg' fs' s' tenant tool).2 := by
  unfold perform
  cases hrepo : Tool.repository tool with
  | none =>
    dsimp only
    have hall : reg.repositoriesFor tenant =
        reg'.repositoriesFor tenant := by
      unfold Registry.repositoriesFor
      rw [hreg.config]
    have hav : ∀ repository ∈ reg.repositoriesFor tenant, ∀ root,
        reg.repoPath tenant repository = some root →
        Avoids (Others reg reg' tenant) root :=
      fun repository hmem root =>
        hconf repository root (Or.inr ⟨hrepo, hmem⟩)
    obtain ⟨hs', hres⟩ := @searchAll_congr _ _ env _ _ tenant reg reg' hreg
      h (Tool.searched tool).1 (Tool.searched tool).2 _ s s' [] hs hav
    rw [← hall]
    exact ⟨hs', by rw [hres]⟩
  | some repository =>
    dsimp only
    unfold onRepository
    rw [← checkedPath_congr hreg h fun root =>
      hconf repository root (Or.inl hrepo)]
    cases hpath : checkedPath reg fs tenant repository with
    | error e => exact ⟨hs, rfl⟩
    | ok root =>
      have hroot := checkedPath_ok hpath
      have hap := hreg.apart hroot
      dsimp only
      rw [← indexOf_congr hs h hap hroot, ← indexAfter_congr h hap,
        answer_congr h (hconf repository root (Or.inl hrepo) hroot) hap _
          tool fun p => hgiven repository root p hrepo hpath]
      exact ⟨seenAlike_keep hs _ _, rfl⟩

-- ==== two runs

/-- The tenant's own calls. -/
def ownCall (tenant : String) (e : Event treeOf) : Bool :=
  e.tenant = tenant

/-- The same call at the same time, of file systems that agree outside
these positions. -/
structure SameCall (D : List String → Prop) (e e' : Event treeOf) : Prop where
  now : e.now = e'.now
  tool : e.tool = e'.tool
  fs : Agree D e.fs e'.fs

theorem repoPath_ne (hdis : reg.Disjoint) {t repository : String}
    {p : List String} (ht : t ≠ tenant)
    (hp : reg.repoPath tenant repository = some p) (r : String) :
    reg.repoPath t r ≠ some p :=
  fun h => hdis t tenant r repository p p ht h hp (List.prefix_refl _)

theorem unwinding (env : Machine Blob) (lim : RateLimiter)
    (hreg : SameTenant tenant reg reg') :
    Unwinding (@ownCall _ treeOf tenant) (SameCall (Others reg reg' tenant))
      (CallOk env lim (Others reg reg' tenant) reg) (step env lim reg)
      (step env lim reg') (SeenAlike reg tenant) where
  left := by
    intro s s' e hown hs
    obtain ⟨hwin, hidx⟩ := @step_others _ _ env lim reg s e tenant
      (of_decide_eq_false hown)
    refine ⟨hwin.trans hs.window, fun r p hp => ?_⟩
    rw [hidx p (repoPath_ne hreg.disjoint (of_decide_eq_false hown) hp)]
    exact hs.index r p hp
  right := by
    intro s s' e hown hs
    obtain ⟨hwin, hidx⟩ := @step_others _ _ env lim reg' s' e tenant
      (of_decide_eq_false hown)
    refine ⟨hs.window.trans hwin.symm, fun r p hp => ?_⟩
    have hp' := hp
    rw [hreg.repoPath] at hp'
    rw [hidx p (repoPath_ne hreg.disjoint' (of_decide_eq_false hown) hp')]
    exact hs.index r p hp
  both := by
    intro s s' e e' hown hown' hsame hok hs
    have ht : e.tenant = tenant := of_decide_eq_true hown
    have ht' : e'.tenant = tenant := of_decide_eq_true hown'
    obtain ⟨hwait, hs₁⟩ :=
      @checkRate_congr _ _ lim tenant reg s s' hs e e' ht ht' hsame.now hsame.tool
    unfold step
    rw [← hwait]
    cases hadm : (checkRate lim s e).2 with
    | some retryAfter => exact ⟨hs₁, rfl⟩
    | none =>
      have hconf := hok.configured hadm
      have hgiven := hok.given hadm
      have hindexes : (checkRate lim s e).1.indexes = s.indexes := by
        unfold checkRate
        split
        · rfl
        · rfl
      rw [ht] at hconf hgiven
      dsimp only [Option.elim_none]
      rw [ht, ht', ← hsame.tool]
      refine perform_congr hreg hsame.fs hs₁ hconf ?_
      intro repository root p hrepo hpath hraw
      refine hgiven repository root p hrepo hpath ?_
      unfold indexOf at hraw ⊢
      rw [hindexes] at hraw
      exact hraw

/-- A tenant whose calls walk through no other tenant's directory gets the
same responses, whatever the others' calls, entries and contents. -/
theorem tenant_noninterference (env : Machine Blob) (lim : RateLimiter)
    {tenant : String} {reg reg' : Registry}
    (hreg : SameTenant tenant reg reg') {es es' : List (Event treeOf)}
    (hp : Purged (ownCall tenant) (SameCall (Others reg reg' tenant)) es es')
    (hok : Along (ownCall tenant)
      (CallOk env lim (Others reg reg' tenant) reg) (step env lim reg)
      new es) :
    observed (ownCall tenant) (step env lim reg) new es =
      observed (ownCall tenant) (step env lim reg') new es' :=
  observed_eq (unwinding env lim hreg) hp ⟨rfl, fun _ _ _ => rfl⟩ hok

/-- A machine for texts and files of comments. -/
def textMachine : Machine String where
  toPlatform := RepoIndex.commentsOnly
  size := String.utf8ByteSize
  fnmatch := fun name pattern => name = pattern
  rank := fun _ _ _ => []

/-- Two tenants, with a repository each. -/
def twoTenants : Registry where
  config := (Dict.empty.set "a" (Dict.empty.set "r" "/srv/a")).set "b"
    (Dict.empty.set "r" "/srv/b")
  baseDir := []

/-- One of them. -/
def oneTenant : Registry where
  config := Dict.empty.set "a" (Dict.empty.set "r" "/srv/a")
  baseDir := []

/-- No commits. -/
def noCommits (_ : String) : Tree String := fun _ => none

/-- A repository without git. -/
def noGit (files : Dict String String) : Repo noCommits where
  files := files
  git := .absent
  diff := fun _ => none
  diff_exact := by
    intro commit since lines hgit
    cases hgit

/-- `/srv/a/notes.txt`, and directories of the other tenant's. -/
def notesStore (dirs : List (List String)) : Store noCommits where
  isDir := fun pos => pos ∈ [[], ["srv"], ["srv", "a"]] ++ dirs
  file := fun pos =>
    if pos = ["srv", "a", "notes.txt"] then some "notes" else none
  modified := fun _ => "2026-01-01T00:00:00+00:00"
  repo := fun pos =>
    noGit (if pos = ["srv", "a"] then Dict.empty.set "notes.txt" "notes"
      else .empty)
  log := fun _ _ _ => .error "git log failed"

theorem repoPath_twoTenants {t r : String} {p : List String}
    (h : twoTenants.repoPath t r = some p) :
    t = "a" ∧ p = ["srv", "a"] ∨ t = "b" ∧ p = ["srv", "b"] := by
  have hroot : ∀ raw q, pathParts raw = q → isAbsolute raw = true →
      ((Dict.empty.set "r" raw).get r).map (fun raw =>
        if isAbsolute raw then pathParts raw
        else resolve ([] ++ pathParts raw)) = some p → p = q := by
    intro raw q hq habs hp
    by_cases hr : r = "r"
    · rw [hr, Dict.get_set_self, Option.map_some, if_pos habs, hq] at hp
      exact (Option.some.inj hp).symm
    · rw [Dict.get_set_ne _ hr] at hp
      cases hp
  unfold Registry.repoPath twoTenants at h
  dsimp only at h
  by_cases hb : t = "b"
  · rw [hb, Dict.get_set_self] at h
    exact Or.inr ⟨hb, hroot "/srv/b" _ (by decide)
      (by decide) h⟩
  · rw [Dict.get_set_ne _ hb] at h
    by_cases ha : t = "a"
    · rw [ha, Dict.get_set_self] at h
      exact Or.inl ⟨ha, hroot "/srv/a" _ (by decide)
        (by decide) h⟩
    · rw [Dict.get_set_ne _ ha] at h
      cases h

theorem repoPath_oneTenant {t r : String} {p : List String}
    (h : oneTenant.repoPath t r = some p) : t = "a" := by
  by_contra ha
  unfold Registry.repoPath oneTenant at h
  dsimp only at h
  rw [Dict.get_set_ne _ ha] at h
  cases h

theorem twoTenants_disjoint : twoTenants.Disjoint := by
  intro t t' r r' p p' ht hp hp'
  have hab : ¬ resolve ["srv", "a"] <+: resolve ["srv", "b"] := by decide
  have hba : ¬ resolve ["srv", "b"] <+: resolve ["srv", "a"] := by decide
  cases repoPath_twoTenants hp with
  | inl h =>
    cases repoPath_twoTenants hp' with
    | inl h' => exact absurd (h.1.trans h'.1.symm) ht
    | inr h' => rw [h.2, h'.2]; exact hab
  | inr h =>
    cases repoPath_twoTenants hp' with
    | inl h' => rw [h.2, h'.2]; exact hba
    | inr h' => exact absurd (h.1.trans h'.1.symm) ht

theorem sameTenant_one : SameTenant "a" twoTenants oneTenant where
  config := rfl
  baseDir := rfl
  disjoint := twoTenants_disjoint
  disjoint' := by
    intro t t' r r' p p' ht hp hp'
    rw [repoPath_oneTenant hp, repoPath_oneTenant hp'] at ht
    exact absurd rfl ht

theorem below_b_others {reg : Registry} {pos : List String}
    (h : ["srv", "b"] <+: pos) : Others twoTenants reg "a" pos :=
  ⟨"b", "r", ["srv", "b"], by decide, Or.inl (by decide), h⟩

theorem notesStore_agree {reg : Registry} {dirs dirs' : List (List String)}
    (h : ∀ d ∈ dirs, ["srv", "b"] <+: d)
    (h' : ∀ d ∈ dirs', ["srv", "b"] <+: d) :
    Agree (Others twoTenants reg "a") (notesStore dirs)
      (notesStore dirs') where
  isDir := by
    intro pos hpos
    have hnot : ∀ l : List (List String), (∀ d ∈ l, ["srv", "b"] <+: d) →
        (pos ∈ [[], ["srv"], ["srv", "a"]] ++ l ↔
          pos ∈ [[], ["srv"], ["srv", "a"]]) := by
      intro l hl
      rw [List.mem_append]
      exact or_iff_left fun hmem => hpos (below_b_others (hl pos hmem))
    unfold notesStore
    dsimp only
    rw [decide_eq_decide, hnot dirs h, hnot dirs' h']
  file := fun _ _ => rfl
  modified := fun _ _ => rfl
  repo := fun _ _ => rfl
  log := fun _ _ => rfl

/-- The tenant asks for a summary; the other, before it, for a
definition. -/
def summaryCall (fs : Store noCommits) (path : String) : Event noCommits :=
  ⟨"a", 1, fs, .fileModuleSummary "r" path⟩

def otherCall (fs : Store noCommits) : Event noCommits :=
  ⟨"b", 0, fs, .findDefinition "r" "run" none⟩

theorem summaryCall_ok (s : IndexService) :
    CallOk textMachine ⟨120, 60⟩ (Others twoTenants oneTenant "a") twoTenants
      s (summaryCall (notesStore [["srv", "b"]]) "notes.txt") := by
  have hconf : ∀ repository root,
      twoTenants.repoPath "a" repository = some root →
      Avoids (Others twoTenants oneTenant "a") root := by
    intro repository root hroot
    have hap := sameTenant_one.apart hroot
    refine avoids_below hap ?_ ?_
    · cases repoPath_twoTenants hroot with
      | inl h => rw [h.2]; decide
      | inr h => exact absurd h.1 (by decide)
    · cases repoPath_twoTenants hroot with
      | inl h => rw [h.2]; decide
      | inr h => exact absurd h.1 (by decide)
  refine ⟨fun _ repository root _ => hconf repository root, ?_⟩
  intro _ repository root p _ hpath hraw
  have hroot := checkedPath_ok hpath
  unfold rawWalk summaryCall at hraw
  dsimp only at hraw
  split at hraw
  · rw [← Option.some.inj hraw, joinPath, if_neg (by decide)]
    exact avoids_append (sameTenant_one.apart hroot) (hconf repository root hroot)
      (by decide)
  · cases hraw

theorem tenant_noninterference_notes :
    observed (ownCall "a") (step textMachine ⟨120, 60⟩ twoTenants) new
        [otherCall (notesStore [["srv", "b"]]),
          summaryCall (notesStore [["srv", "b"]]) "notes.txt"] =
      observed (ownCall "a") (step textMachine ⟨120, 60⟩ oneTenant) new
        [summaryCall (notesStore []) "notes.txt"] := by
  refine tenant_noninterference textMachine ⟨120, 60⟩ sameTenant_one
    (.left (by decide) (.both (by decide) (by decide) ⟨rfl, rfl, ?_⟩ .nil))
    ⟨fun h => absurd h (by decide), fun _ => summaryCall_ok _, trivial⟩
  exact notesStore_agree (by simp) (by simp)

/-- A path that goes through a directory of the other tenant's shows
whether it is there. -/
theorem summary_shows_directory :
    SameTenant "a" twoTenants twoTenants ∧
    Purged (ownCall "a") (SameCall (Others twoTenants twoTenants "a"))
      [summaryCall (notesStore [["srv", "b"], ["srv", "b", "dir"]])
        "../b/dir/../../a/notes.txt"]
      [summaryCall (notesStore [["srv", "b"]])
        "../b/dir/../../a/notes.txt"] ∧
    observed (ownCall "a") (step textMachine ⟨120, 60⟩ twoTenants) new
        [summaryCall (notesStore [["srv", "b"], ["srv", "b", "dir"]])
          "../b/dir/../../a/notes.txt"] ≠
      observed (ownCall "a") (step textMachine ⟨120, 60⟩ twoTenants) new
        [summaryCall (notesStore [["srv", "b"]])
          "../b/dir/../../a/notes.txt"] := by
  refine ⟨⟨rfl, rfl, twoTenants_disjoint, twoTenants_disjoint⟩,
    .both (by decide) (by decide) ⟨rfl, rfl, ?_⟩ .nil, by decide +kernel⟩
  exact notesStore_agree (by simp) (by simp)

end IndexService

end SdlcOs.Index
