/-
Crashes inside the saves of the orchestrator's own stores.

# One save

A save writes in place, so a crash inside it can leave a file cut short.
Cut short, a text is read by nothing (`Json.loads_take`), so a later load
raises; whole, it is read back (`Json.loads_dumps`). A load after the
crash therefore gives the previous value or the new one exactly when the
crash tore no file (`progress_survives`, `plan_survives`).

# Many saves

`PlanArtifactStore.save` writes the version's file first and
`latest.json` second, and the next version number is read off the
second. `Ahead` is what keeps a written version from being written again:
no whole version file is past the latest number, or the number cannot be
read at all. A crash between the two files breaks it
(`between_overwrites`); every other crash keeps it.

# The orchestrator's store

Without a crash inside a save, the files are the store that the
orchestrator's own model saves to in one step (`Represents`).
-/
import SdlcOs.Json.Rational
import SdlcOs.Orchestrator.Core
import SdlcOs.Orchestrator.Durable

namespace SdlcOs.Orchestrator.Durable

open Files
open Json (FloatText loads dumps dumps_object loads_dumps loads_take)

variable (T : Texts)

-- ==== RunProgressStore

theorem asStrs_strs (ss : List String) : asStrs (strs ss) = some ss := by
  show (ss.map Json.Json.str).mapM asStr = some ss
  induction ss with
  | nil => rfl
  | cons s ss ih =>
    rw [List.map_cons, List.mapM_cons, ih]
    rfl

theorem fromDict_toDict (now : String) (p : ProgressRecord) :
    ProgressRecord.fromDict now p.toDict = .ok p := by
  have hknown : (p.toDict.any fun m => m.1 ∉ ProgressRecord.fieldNames) =
      false := by
    simp [ProgressRecord.toDict, ProgressRecord.fieldNames]
  unfold ProgressRecord.fromDict
  rw [hknown]
  simp [ProgressRecord.required, ProgressRecord.optional, Members.get,
    ProgressRecord.toDict, asStrs_strs, asStr, asInt, asFloat]
  rfl

namespace RunProgressStore

variable {T} {now : String} {d : Dir String} {runId : String}

theorem load_whole {p : ProgressRecord}
    (h : d (path runId) = some (dumps T.floats (.obj p.toDict))) :
    load T now d runId = .ok (some p) := by
  unfold load
  rw [h]
  dsimp only
  rw [loads_dumps]
  dsimp only
  rw [fromDict_toDict]
  rfl

theorem load_torn {p : ProgressRecord} {k : Nat}
    (hk : k < (dumps T.floats (.obj p.toDict)).length)
    (h : d (path runId) = some ((dumps T.floats (.obj p.toDict)).take k)) :
    load T now d runId = .error .jsonDecodeError := by
  unfold load
  rw [h]
  dsimp only
  rw [loads_take hk]

theorem load_truncated (d : Dir String) (p : ProgressRecord) :
    load T now (crash d (save T p) 1) p.runId = .error .jsonDecodeError := by
  refine load_torn (p := p) (k := 0) ?_ (put_self ..)
  obtain ⟨rest, hrest⟩ := dumps_object (F := T.floats) p.toDict
  rw [hrest]
  exact Nat.succ_pos _

theorem path_inj {a b : String} (h : path a = path b) : a = b := by
  unfold path at h
  exact String.append_left_inj ".json" |>.1 h

theorem load_congr {d' : Dir String} (h : d' (path runId) = d (path runId)) :
    load T now d' runId = load T now d runId := by
  unfold load
  rw [h]

/-- A load after a crash inside a save gives what it gave before or the new
record exactly when the crash tore no file and the old one loaded or the
new one is whole. -/
theorem survives_iff (now : String) (d : Dir String) (p : ProgressRecord)
    (n : Nat) :
    OldOrNew (load T now d p.runId)
        (load T now (crash d (save T p) n) p.runId) p ↔
      ¬ Torn (save T p) n ∧ ((load T now d p.runId).isOk ∨
        Done (save T p) n (path p.runId)) := by
  have htorn : Torn (save T p) n ↔ TornAt (save T p) n (path p.runId) := by
    constructor
    · rintro ⟨name, hat⟩
      obtain ⟨w, hw, rfl⟩ := hat.mem
      obtain rfl := List.mem_singleton.1 hw
      exact hat
    · exact fun hat => ⟨_, hat⟩
  rw [htorn]
  refine read_crash_iff (fun text => load T now (fun _ => text) p.runId)
    (List.mem_singleton.2 rfl) (List.nodup_singleton _) ?_ ?_ d n
  · exact load_whole rfl
  · intro k hk
    dsimp only
    rw [load_torn hk rfl]
    rfl

theorem load_other {p : ProgressRecord} (h : runId ≠ p.runId) (n : Nat) :
    load T now (crash d (save T p) n) runId = load T now d runId := by
  refine load_congr (crash_other ?_ d n)
  intro w hw hpath
  obtain rfl := List.mem_singleton.1 hw
  exact h (path_inj hpath).symm

end RunProgressStore

-- ==== dictionaries

namespace Members

variable {ms : Members} {key other : String} {v : Doc}

theorem get_cons (m : String × Doc) (h : get ms key = none) :
    get (m :: ms) key = if m.1 = key then some m.2 else none := by
  rw [get, h]

theorem get_cons_ne {m : String × Doc} (h : m.1 ≠ key) :
    get (m :: ms) key = get ms key := by
  rw [get, if_neg h]
  cases get ms key <;> rfl

theorem get_filter (ms : Members) (key other : String) :
    get (ms.filter (·.1 ≠ key)) other =
      if other = key then none else get ms other := by
  induction ms with
  | nil =>
    show none = _
    split <;> rfl
  | cons m ms ih =>
    by_cases hm : m.1 = key
    · rw [List.filter_cons_of_neg (by simpa using hm), ih]
      split
      · rfl
      · next h => rw [get_cons_ne fun he => h (he.symm.trans hm)]
    · rw [List.filter_cons_of_pos (by simpa using hm), get, ih]
      by_cases hkey : other = key
      · rw [if_pos hkey, if_pos hkey, if_neg fun he => hm (he.trans hkey)]
      · rw [if_neg hkey, if_neg hkey, get]

theorem get_set (ms : Members) (key : String) (v : Doc) :
    (set ms key v).get key = some v := by
  induction ms with
  | nil =>
    rw [set, get, if_pos rfl]
    rfl
  | cons m ms ih =>
    rw [set]
    split
    · rw [get_cons _ (by rw [get_filter, if_pos rfl]), if_pos rfl]
    · next h => rw [get_cons_ne h, ih]

theorem get_set_ne (ms : Members) (v : Doc) (h : other ≠ key) :
    (set ms key v).get other = ms.get other := by
  induction ms with
  | nil => rw [set, get_cons_ne h.symm]
  | cons m ms ih =>
    rw [set]
    split
    · next hm =>
      rw [get_cons_ne h.symm, get_filter, if_neg h,
        get_cons_ne fun he => h (he.symm.trans hm)]
    · rw [get, get, ih]

theorem item_eq_ok : ms.item key = .ok v ↔ ms.get key = some v := by
  unfold item
  constructor
  · intro h
    split at h
    · next hv => rw [hv, Except.ok.inj h]
    · cases h
  · intro h
    rw [h]

end Members

-- ==== PlanArtifactStore

namespace PlanArtifactStore

theorem repr_inj {a b : Int} (h : Int.repr a = Int.repr b) : a = b := by
  have hnat : ∀ {m n : Nat}, Nat.repr m = Nat.repr n → m = n := by
    intro m n he
    have hds := congrArg String.toList he
    rw [Nat.repr, String.toList_ofList, Nat.repr, String.toList_ofList] at hds
    rw [← Nat.ofDigitChars_ten_toDigits (n := m), hds,
      Nat.ofDigitChars_ten_toDigits]
  have hsign : ∀ {m n : Nat}, Nat.repr m ≠ "-" ++ Nat.repr n := by
    intro m n he
    have hds := congrArg String.toList he
    rw [Nat.repr, String.toList_ofList, String.toList_append] at hds
    have hminus : '-'.isDigit = true :=
      Nat.isDigit_of_mem_toDigits (b := 10) (n := m) (by decide) (by decide)
        (hds ▸ List.mem_cons_self ..)
    cases hminus
  cases a with
  | ofNat m =>
    cases b with
    | ofNat n => exact congrArg Int.ofNat (hnat h)
    | negSucc n => exact absurd h hsign
  | negSucc m =>
    cases b with
    | ofNat n => exact absurd h.symm hsign
    | negSucc n =>
      have hn := hnat (String.append_right_inj "-" |>.1 h)
      exact congrArg Int.negSucc (Nat.succ.inj hn)

theorem versionFile_inj {a b : Int} (h : versionFile a = versionFile b) :
    a = b := by
  unfold versionFile at h
  have hv := String.append_left_inj ".json" |>.1 h
  exact repr_inj (String.append_right_inj "v" |>.1 hv)

theorem versionFile_ne_latest (n : Int) : versionFile n ≠ latestFile := by
  intro h
  have hchars := congrArg String.toList h
  unfold versionFile latestFile at hchars
  rw [String.toList_append, String.toList_append] at hchars
  exact absurd (List.cons.inj hchars).1 (by decide)

theorem version_ne_latest {id id' : String} (n : Int) :
    (id, versionFile n) ≠ (id', latestFile) :=
  fun he => versionFile_ne_latest n (Prod.mk.inj he).2

variable {T} {d d' : Dir (String × String)} {path : String × String}
  {runId : String} {v : Int} {artifact other : Members}

theorem save_eq_ok {ws : List (Write (String × String))} :
    save T artifact = .ok ws ↔ ∃ runId v,
      artifact.get "run_id" = some (.str runId) ∧
        artifact.get "plan_version" = some (.int v) ∧
        ws = writes T runId v artifact := by
  unfold save
  constructor
  · intro h
    cases hid : artifact.item "run_id" with
    | error e => rw [hid] at h; cases h
    | ok id =>
      rw [hid] at h
      cases hv : artifact.item "plan_version" with
      | error e => rw [hv] at h; cases h
      | ok v =>
        rw [hv] at h
        rw [Members.item_eq_ok] at hid hv
        cases id with
        | str id =>
          cases v with
          | int v => exact ⟨id, v, hid, hv, (Except.ok.inj h).symm⟩
          | _ => cases h
        | _ => cases h
  · rintro ⟨id, v, hid, hv, rfl⟩
    rw [Members.item_eq_ok.2 hid, Members.item_eq_ok.2 hv]
    rfl

theorem loadFile_whole (h : d path = some (planText T artifact)) :
    loadFile T d path = .ok (some (.obj artifact)) := by
  unfold loadFile
  rw [h]
  dsimp only
  rw [planText, loads_dumps]

theorem loadFile_torn {k : Nat} (hk : k < (planText T artifact).length)
    (h : d path = some ((planText T artifact).take k)) :
    loadFile T d path = .error .jsonDecodeError := by
  unfold loadFile
  rw [h]
  dsimp only
  rw [planText, loads_take hk]

theorem loadFile_congr (h : d' path = d path) :
    loadFile T d' path = loadFile T d path := by
  unfold loadFile
  rw [h]

theorem loadLatest_congr (h : d' (runId, latestFile) = d (runId, latestFile)) :
    loadLatest T d' runId = loadLatest T d runId :=
  loadFile_congr h

-- ------------------------------------------------ the states of a save

/-- What a crash after `n` operations leaves of a save: nothing happened,
the version's file is cut short, it is whole and `latest.json` as it was,
`latest.json` is cut short, or both are whole. -/
inductive Cut (T : Texts) (d : Dir (String × String)) (runId : String)
    (v : Int) (artifact : Members) : Nat → Dir (String × String) → Prop
  | before : Cut T d runId v artifact 0 d
  | version {k : Nat} (hk : k < (planText T artifact).length) :
      Cut T d runId v artifact (k + 1)
        (put d (runId, versionFile v) ((planText T artifact).take k))
  | between : Cut T d runId v artifact ((planText T artifact).length + 1)
      (put d (runId, versionFile v) (planText T artifact))
  | latest {k : Nat} (hk : k < (planText T artifact).length) :
      Cut T d runId v artifact ((planText T artifact).length + 1 + (k + 1))
        (put (put d (runId, versionFile v) (planText T artifact))
          (runId, latestFile) ((planText T artifact).take k))
  | whole {n : Nat} (hn : 2 * ((planText T artifact).length + 1) ≤ n) :
      Cut T d runId v artifact n
        (put (put d (runId, versionFile v) (planText T artifact))
          (runId, latestFile) (planText T artifact))

theorem crash_between (d : Dir (String × String)) (runId : String) (v : Int)
    (artifact : Members) :
    crash d (writes T runId v artifact) ((planText T artifact).length + 1) =
      put d (runId, versionFile v) (planText T artifact) :=
  crash_later d ⟨(runId, versionFile v), planText T artifact⟩ _ 0

theorem cut_crash (d : Dir (String × String)) (runId : String) (v : Int)
    (artifact : Members) (n : Nat) :
    Cut T d runId v artifact n (crash d (writes T runId v artifact) n) := by
  unfold writes
  rcases Nat.lt_or_ge (planText T artifact).length n with hlater | hfirst
  · obtain ⟨m, rfl⟩ : ∃ m, n = (planText T artifact).length + 1 + m :=
      ⟨n - ((planText T artifact).length + 1), by omega⟩
    rw [crash_later]
    cases m with
    | zero => exact .between
    | succ k =>
      rcases Nat.lt_or_ge k (planText T artifact).length with hk | hk
      · rw [crash_first _ _ _ (Nat.le_of_lt hk)]
        exact .latest hk
      · obtain ⟨j, rfl⟩ := Nat.exists_eq_add_of_le hk
        rw [show (planText T artifact).length + j + 1 =
          (planText T artifact).length + 1 + j from by omega, crash_later,
          crash_nil]
        exact .whole (by omega)
  · cases n with
    | zero => exact .before
    | succ k =>
      rw [crash_first _ _ _ (by simpa using Nat.le_of_lt hfirst)]
      exact .version hfirst

theorem seam_iff (n : Nat) :
    Seam (writes T runId v artifact) n ↔
      n = (planText T artifact).length + 1 := by
  simp only [writes, Seam, ne_eq, List.cons_ne_nil, not_false_eq_true,
    and_true, not_true_eq_false, and_false, or_false]

theorem length_ops_writes (runId : String) (v : Int) (artifact : Members) :
    (ops (writes T runId v artifact)).length =
      2 * ((planText T artifact).length + 1) := by
  rw [ops, writes, List.flatMap_cons, List.flatMap_cons, List.length_append,
    List.length_append, length_ops, length_ops, List.flatMap_nil,
    List.length_nil]
  dsimp only
  omega

-- ------------------------------------------------------ a load after a save

theorem nodup_writes (runId : String) (v : Int) (artifact : Members) :
    ((writes T runId v artifact).map Write.name).Nodup := by
  refine List.nodup_cons.2 ⟨fun hmem => ?_, List.nodup_singleton _⟩
  exact version_ne_latest v (List.mem_singleton.1 hmem)

theorem loadFile_crash_iff (d : Dir (String × String)) (artifact : Members)
    (n : Nat) (hpath : path = (runId, versionFile v) ∨
      path = (runId, latestFile)) :
    OldOrNew (loadFile T d path)
        (loadFile T (crash d (writes T runId v artifact) n) path)
        (.obj artifact) ↔
      ¬ TornAt (writes T runId v artifact) n path ∧
        ((loadFile T d path).isOk ∨
          Done (writes T runId v artifact) n path) := by
  have hw : (⟨path, planText T artifact⟩ : Write (String × String)) ∈
      writes T runId v artifact := by
    rcases hpath with rfl | rfl
    · exact List.mem_cons_self ..
    · exact List.mem_cons_of_mem _ (List.mem_singleton.2 rfl)
  refine read_crash_iff (fun text => loadFile T (fun _ => text) path) hw
    (nodup_writes runId v artifact) ?_ ?_ d n
  · exact loadFile_whole rfl
  · intro k hk
    dsimp only
    rw [loadFile_torn hk rfl]
    rfl

/-- The loads of a run after a crash inside a save give what they gave
before or the new artifact exactly when the crash tore no file and each
of the two loaded before or is whole. -/
theorem survives_iff (d : Dir (String × String)) (runId : String) (v : Int)
    (artifact : Members) (n : Nat) :
    (OldOrNew (loadLatest T d runId)
        (loadLatest T (crash d (writes T runId v artifact) n) runId)
        (.obj artifact) ∧
      OldOrNew (loadVersion T d runId v)
        (loadVersion T (crash d (writes T runId v artifact) n) runId v)
        (.obj artifact)) ↔
      ¬ Torn (writes T runId v artifact) n ∧
        ((loadLatest T d runId).isOk ∨
          Done (writes T runId v artifact) n (runId, latestFile)) ∧
        ((loadVersion T d runId v).isOk ∨
          Done (writes T runId v artifact) n (runId, versionFile v)) := by
  have htorn : Torn (writes T runId v artifact) n ↔
      TornAt (writes T runId v artifact) n (runId, latestFile) ∨
        TornAt (writes T runId v artifact) n (runId, versionFile v) := by
    constructor
    · rintro ⟨name, hat⟩
      obtain ⟨w, hw, rfl⟩ := hat.mem
      rcases List.mem_cons.1 hw with rfl | hw
      · exact Or.inr hat
      · obtain rfl := List.mem_singleton.1 hw
        exact Or.inl hat
    · rintro (hat | hat)
      · exact ⟨_, hat⟩
      · exact ⟨_, hat⟩
  have hlatest := loadFile_crash_iff (T := T) (v := v) d artifact n
    (Or.inr (rfl : (runId, latestFile) = _))
  have hversion := loadFile_crash_iff (T := T) d artifact n
    (Or.inl (rfl : (runId, versionFile v) = _))
  unfold loadLatest loadVersion
  rw [hlatest, hversion, htorn, not_or]
  constructor
  · rintro ⟨⟨hl, hlok⟩, hv, hvok⟩
    exact ⟨⟨hl, hv⟩, hlok, hvok⟩
  · rintro ⟨⟨hl, hv⟩, hlok, hvok⟩
    exact ⟨⟨hl, hlok⟩, hv, hvok⟩

theorem crash_frame (d : Dir (String × String)) (artifact : Members)
    (n : Nat) (h₁ : path ≠ (runId, versionFile v))
    (h₂ : path ≠ (runId, latestFile)) :
    crash d (writes T runId v artifact) n path = d path := by
  refine crash_other ?_ d n
  intro w hw hname
  rcases List.mem_cons.1 hw with rfl | hw
  · exact h₁ hname.symm
  · obtain rfl := List.mem_singleton.1 hw
    exact h₂ hname.symm

theorem loadLatest_other (d : Dir (String × String)) (v : Int)
    (artifact : Members) (n : Nat) {id : String} (h : id ≠ runId) :
    loadLatest T (crash d (writes T runId v artifact) n) id =
      loadLatest T d id :=
  loadFile_congr (crash_frame d artifact n (fun he => h (Prod.mk.inj he).1)
    (fun he => h (Prod.mk.inj he).1))

theorem version_frame (d : Dir (String × String)) (artifact : Members)
    (n : Nat) {id : String} {N : Int} (h : id ≠ runId ∨ N ≠ v) :
    crash d (writes T runId v artifact) n (id, versionFile N) =
      d (id, versionFile N) := by
  refine crash_frame d artifact n ?_ (version_ne_latest N)
  intro he
  obtain ⟨hrun, hfile⟩ := Prod.mk.inj he
  rcases h with hne | hne
  · exact hne hrun
  · exact hne (versionFile_inj hfile)

theorem loadVersion_other (d : Dir (String × String)) (artifact : Members)
    (n : Nat) {id : String} {N : Int} (h : id ≠ runId ∨ N ≠ v) :
    loadVersion T (crash d (writes T runId v artifact) n) id N =
      loadVersion T d id N :=
  loadFile_congr (version_frame d artifact n h)

-- --------------------------------------------------- the latest number

theorem planVersionOf_eq_ok : planVersionOf (.obj artifact) = .ok v ↔
    artifact.get "plan_version" = some (.int v) := by
  unfold planVersionOf
  dsimp only
  constructor
  · intro h
    cases hitem : artifact.item "plan_version" with
    | error e =>
      rw [hitem] at h
      cases h
    | ok w =>
      rw [hitem] at h
      rw [Members.item_eq_ok] at hitem
      cases w with
      | int w => rw [hitem, Except.ok.inj h]
      | _ => cases h
  · intro h
    rw [Members.item_eq_ok.2 h]
    rfl

theorem latestVersionNumber_congr
    (h : loadLatest T d' runId = loadLatest T d runId) :
    latestVersionNumber T d' runId = latestVersionNumber T d runId := by
  unfold latestVersionNumber
  rw [h]

theorem latestVersionNumber_obj
    (h : loadLatest T d runId = .ok (some (.obj artifact)))
    (hv : artifact.get "plan_version" = some (.int v)) :
    latestVersionNumber T d runId = .ok v := by
  have htruth : truth (.obj artifact) = true := by
    cases artifact with
    | nil => cases hv
    | cons m ms => rfl
  unfold latestVersionNumber
  rw [h]
  dsimp only
  rw [if_pos htruth, planVersionOf_eq_ok.2 hv]

theorem latestVersionNumber_torn {k : Nat}
    (hk : k < (planText T artifact).length)
    (h : d (runId, latestFile) = some ((planText T artifact).take k)) :
    latestVersionNumber T d runId = .error .jsonDecodeError := by
  unfold latestVersionNumber loadLatest
  rw [loadFile_torn hk h]

theorem take_ne_whole {k : Nat} (hk : k < (planText T artifact).length) :
    (planText T artifact).take k ≠ planText T other := by
  intro heq
  have hnone : loads T.floats ((planText T artifact).take k) = none :=
    loads_take hk
  rw [heq, planText, loads_dumps] at hnone
  cases hnone

end PlanArtifactStore

-- ==== many saves

open PlanArtifactStore

variable (budgets : StorySize → Option Budget)

/-- A version's file holds the whole text of an artifact. -/
def Written (d : Dir (String × String)) (runId : String) (N : Int)
    (artifact : Members) : Prop :=
  d (runId, versionFile N) = some (planText T artifact)

/-- Each `latest.json` is of its own run. -/
def Own (d : Dir (String × String)) : Prop :=
  ∀ runId artifact, loadLatest T d runId = .ok (some (.obj artifact)) →
    Members.get artifact "run_id" = some (.str runId)

/-- And no written version is past the latest number, unless the number
cannot be read. -/
structure Ahead (d : Dir (String × String)) : Prop where
  own : Own T d
  ahead : ∀ runId N artifact, Written T d runId N artifact → ∀ latest,
    latestVersionNumber T d runId = .ok latest → N ≤ latest

/-- No save of a sequence crashes between its two files. -/
def Seamless : Dir (String × String) → List Save → Prop
  | _, [] => True
  | d, s :: ss =>
    (∀ ws, s.writes T budgets d = .ok ws → ¬ Seam ws s.stop) ∧
    Seamless (s.run T budgets d) ss

variable {T budgets} {d : Dir (String × String)} {runId : String}
  {artifact other : Members} {v N : Int} {n : Nat}

-- ------------------------------------------------------- what is saved

/-- A generated artifact is of its run and of its version, which is not
below one. -/
theorem generatePlanArtifact_version {id text : String} {v : Nat}
    {out : PlanOutput} {budget : Budget} {now : Time} {a : PlanArtifact}
    {demoted : List String}
    (h : generatePlanArtifact id v out budget text now = .ok (a, demoted)) :
    a.runId = id ∧ a.planVersion = v ∧ 1 ≤ v := by
  simp only [generatePlanArtifact] at h
  split at h
  · next hschema =>
    injection h with h
    injection h with h _
    rw [← h]
    refine ⟨rfl, rfl, ?_⟩
    unfold schemaErrors at hschema
    simp only [List.append_eq_nil_iff, require] at hschema
    have hversion := hschema.1.1.1.1.2
    by_contra hlt
    rw [if_neg (by simpa using hlt)] at hversion
    cases hversion
  · cases h

theorem generatePlan_inv {out : PlanOutput} {text : String} {now : Time}
    (h : generatePlan T budgets d runId out text now = .ok artifact) :
    ∃ latest, latestVersionNumber T d runId = .ok latest ∧
      artifact.get "run_id" = some (.str runId) ∧
      artifact.get "plan_version" = some (.int (latest + 1)) := by
  unfold generatePlan at h
  split at h
  · cases h
  next budget _ =>
    split at h
    · cases h
    next latest hlatest =>
      split at h
      · cases h
      next a demoted hgen =>
        obtain rfl := Except.ok.inj h
        obtain ⟨hrun, hversion, hpos⟩ := generatePlanArtifact_version hgen
        refine ⟨latest, hlatest, ?_, ?_⟩
        · rw [← hrun]
          rfl
        · show some (Json.Json.int a.planVersion) = _
          rw [hversion, Int.toNat_of_nonneg (by omega)]

theorem bind_ok {ε α β : Type} {x : Except ε α} {f : α → Except ε β} {b : β}
    (h : x >>= f = .ok b) : ∃ a, x = .ok a ∧ f a = .ok b := by
  cases x with
  | error e => cases h
  | ok a => exact ⟨a, rfl, h⟩

/-- An extended artifact is of the run it was of, and its version is the
next one. -/
theorem extendScope_inv {ms : Members} {files : List String} {now : Time}
    (h : extendScope T ms files now = .ok artifact) :
    ∃ v, ms.get "plan_version" = some (.int v) ∧
      artifact.get "plan_version" = some (.int (v + 1)) ∧
      artifact.get "run_id" = ms.get "run_id" := by
  unfold extendScope at h
  obtain ⟨scope, _, h⟩ := bind_ok h
  cases scope with
  | obj scope =>
    obtain ⟨_, _, h⟩ := bind_ok h
    split at h
    · obtain ⟨v, hv, h⟩ := bind_ok h
      obtain ⟨_, _, h⟩ := bind_ok h
      obtain rfl := Except.ok.inj h
      refine ⟨v, planVersionOf_eq_ok.1 hv, ?_, ?_⟩
      · rw [Members.get_set_ne _ _ (by decide), Members.get_set]
      · rw [Members.get_set_ne _ _ (by decide),
          Members.get_set_ne _ _ (by decide),
          Members.get_set_ne _ _ (by decide)]
    · cases h
  | _ => cases h

theorem Save.writes_inv (h : Own T d) {s : Save}
    {ws : List (Write (String × String))}
    (hws : s.writes T budgets d = .ok ws) :
    ∃ latest artifact, latestVersionNumber T d s.runId = .ok latest ∧
      artifact.get "run_id" = some (.str s.runId) ∧
      artifact.get "plan_version" = some (.int (latest + 1)) ∧
      ws = PlanArtifactStore.writes T s.runId (latest + 1) artifact := by
  have hartifact : ∀ {artifact : Members}, s.artifact T budgets d =
      .ok artifact → ∃ latest, latestVersionNumber T d s.runId = .ok latest ∧
        artifact.get "run_id" = some (.str s.runId) ∧
        artifact.get "plan_version" = some (.int (latest + 1)) := by
    intro artifact hart
    unfold Save.artifact at hart
    split at hart
    · exact generatePlan_inv hart
    · unfold extendPlan at hart
      split at hart
      · cases hart
      · cases hart
      · next ms hload =>
        unfold orLoad at hart
        split at hart
        · next hext =>
          obtain rfl := Except.ok.inj hart
          obtain ⟨v, hv, hnext, hrun⟩ := extendScope_inv hext
          exact ⟨v, latestVersionNumber_obj hload hv,
            hrun.trans (h _ ms hload), hnext⟩
        · cases hart
      · cases hart
  unfold Save.writes at hws
  split at hws
  · cases hws
  next artifact hart =>
    obtain ⟨latest, hlatest, hrun, hversion⟩ := hartifact hart
    unfold orLoad at hws
    split at hws
    · next hsave =>
      obtain rfl := Except.ok.inj hws
      obtain ⟨id, v, hid, hv, rfl⟩ := save_eq_ok.1 hsave
      rw [hrun] at hid
      rw [hversion] at hv
      injection hid with hid
      injection hid with hid
      injection hv with hv
      injection hv with hv
      subst hid hv
      exact ⟨latest, artifact, hlatest, hrun, hversion, rfl⟩
    · cases hws

-- --------------------------------------------------------- one more save

/-- A version that is written later than another save. -/
theorem Written.crash (hother : Written T d runId N other) (n : Nat)
    {id : String} (h : runId ≠ id ∨ N ≠ v) :
    Written T (Files.crash d (writes T id v artifact) n) runId N other :=
  (version_frame d artifact n h).trans hother

/-- A save keeps every written version. -/
theorem Written.run (h : Ahead T d) (hother : Written T d runId N other)
    (s : Save) : Written T (s.run T budgets d) runId N other := by
  unfold Save.run
  split
  · exact hother
  next ws hws =>
    obtain ⟨latest, artifact, hlatest, _, _, rfl⟩ := Save.writes_inv h.own hws
    refine hother.crash s.stop ?_
    by_cases hrun : runId = s.runId
    · subst hrun
      have hle := h.ahead s.runId N other hother latest hlatest
      exact Or.inr (by omega)
    · exact Or.inl hrun

/-- After a save that did not crash between its two files, the run's
latest number is at or past its written versions: either the number is
the new one, or it is unchanged and the new version is not written. -/
theorem Ahead.saved (h : Ahead T d) {latest : Int}
    (hlatest : latestVersionNumber T d runId = .ok latest)
    (hversion : artifact.get "plan_version" = some (.int (latest + 1)))
    {d' : Dir (String × String)}
    (hcut : Cut T d runId (latest + 1) artifact n d')
    (hseam : n ≠ (planText T artifact).length + 1)
    (hold : N ≠ latest + 1 → Written T d' runId N other →
      Written T d runId N other)
    (hother : Written T d' runId N other) {latest' : Int}
    (hlatest' : latestVersionNumber T d' runId = .ok latest') :
    N ≤ latest' := by
  have hbound : N ≠ latest + 1 → N ≤ latest := fun hN =>
    h.ahead runId N other (hold hN hother) latest hlatest
  cases hcut with
  | before => exact h.ahead runId N other hother latest' hlatest'
  | version hk =>
    have hN : N ≠ latest + 1 := by
      rintro rfl
      have hfile := hother
      unfold Written at hfile
      rw [put_self] at hfile
      exact take_ne_whole hk (Option.some.inj hfile)
    rw [latestVersionNumber_congr (loadLatest_congr
      (put_ne d _ (version_ne_latest _).symm)), hlatest] at hlatest'
    exact Except.ok.inj hlatest' ▸ hbound hN
  | between => exact absurd rfl hseam
  | latest hk =>
    rw [latestVersionNumber_torn hk (put_self ..)] at hlatest'
    cases hlatest'
  | whole hn =>
    rw [latestVersionNumber_obj (loadFile_whole (put_self ..)) hversion]
      at hlatest'
    obtain rfl := Except.ok.inj hlatest'
    by_cases hN : N = latest + 1
    · omega
    · have hle := hbound hN
      omega

/-- A save keeps each `latest.json` of its own run. -/
theorem Own.run (h : Own T d) (s : Save) : Own T (s.run T budgets d) := by
  unfold Save.run
  split
  · exact h
  next ws hws =>
    obtain ⟨latest, artifact, _, hrun, _, rfl⟩ := Save.writes_inv h hws
    intro id ms hload
    by_cases hid : id = s.runId
    · subst hid
      generalize s.stop = n at hload
      have hcut := cut_crash (T := T) d s.runId (latest + 1) artifact n
      generalize Files.crash d _ n = d' at hload hcut
      have hsame : ∀ text, loadLatest T (put d (s.runId,
          versionFile (latest + 1)) text) s.runId = loadLatest T d s.runId :=
        fun text => loadLatest_congr (put_ne d text
          (version_ne_latest (latest + 1)).symm)
      cases hcut with
      | before => exact h s.runId ms hload
      | version hk =>
        rw [hsame] at hload
        exact h s.runId ms hload
      | between =>
        rw [hsame] at hload
        exact h s.runId ms hload
      | latest hk =>
        rw [loadLatest, loadFile_torn hk (put_self ..)] at hload
        cases hload
      | whole hn =>
        rw [loadLatest, loadFile_whole (put_self ..)] at hload
        injection hload with hload
        injection hload with hload
        injection hload with hload
        exact hload ▸ hrun
    · rw [loadLatest_other d _ artifact _ hid] at hload
      exact h id ms hload

/-- A save that does not crash between its two files keeps the latest
number at or past every written version. -/
theorem Ahead.run (h : Ahead T d) (s : Save)
    (hseam : ∀ ws, s.writes T budgets d = .ok ws → ¬ Seam ws s.stop) :
    Ahead T (s.run T budgets d) := by
  refine ⟨h.own.run s, ?_⟩
  unfold Save.run
  split
  · exact h.ahead
  next ws hws =>
    obtain ⟨latest, artifact, hlatest, hrun, hversion, rfl⟩ :=
      Save.writes_inv h.own hws
    have hno := hseam _ hws
    rw [seam_iff] at hno
    intro id N other hother latest' hlatest'
    by_cases hid : id = s.runId
    · subst hid
      refine h.saved hlatest hversion (cut_crash d _ _ artifact s.stop) hno ?_
        hother hlatest'
      intro hN hw
      exact (version_frame d artifact s.stop (Or.inr hN)).symm.trans hw
    · rw [latestVersionNumber_congr (loadLatest_other d _ artifact _ hid)]
        at hlatest'
      refine h.ahead id N other ?_ latest' hlatest'
      exact (version_frame d artifact s.stop (Or.inl hid)).symm.trans hother

/-- Saves that do not crash between their two files keep every written
version. -/
theorem Written.saves : ∀ {ss : List Save} {d : Dir (String × String)},
    Ahead T d → Seamless T budgets d ss → Written T d runId N other →
      Written T (saves T budgets d ss) runId N other := by
  intro ss
  induction ss with
  | nil => intro d _ _ hother; exact hother
  | cons s ss ih =>
    intro d h hrun hother
    exact ih (h.run s hrun.1) hrun.2 (hother.run h s)

theorem Ahead.saves : ∀ {ss : List Save} {d : Dir (String × String)},
    Ahead T d → Seamless T budgets d ss → Ahead T (saves T budgets d ss) := by
  intro ss
  induction ss with
  | nil => intro d h _; exact h
  | cons s ss ih =>
    intro d h hrun
    exact ih (h.run s hrun.1) hrun.2

theorem Ahead.empty : Ahead T fun _ => none := by
  constructor
  · intro runId artifact h
    cases h
  · intro runId N artifact h
    cases h

theorem seamless_append : ∀ {ss ss' : List Save}
    {d : Dir (String × String)}, Seamless T budgets d (ss ++ ss') →
      Seamless T budgets d ss ∧
        Seamless T budgets (Durable.saves T budgets d ss) ss' := by
  intro ss
  induction ss with
  | nil => intro ss' d h; exact ⟨trivial, h⟩
  | cons s ss ih =>
    intro ss' d h
    obtain ⟨hfirst, hlater⟩ := ih h.2
    exact ⟨⟨h.1, hfirst⟩, hlater⟩

theorem written_done
    (h : Done (writes T runId v artifact) n (runId, versionFile v)) :
    Written T (Files.crash d (writes T runId v artifact) n) runId v
      artifact := by
  rcases crash_file (List.mem_cons_self ..) (nodup_writes runId v artifact) d n
    with ⟨_, _, hno⟩ | ⟨_, _, _, _, hno⟩ | ⟨hwhole, _, _⟩
  · exact absurd h hno
  · exact absurd h hno
  · exact hwhole

theorem run_seam {s : Save} {id : String}
    (hws : s.writes T budgets d = .ok (writes T id v artifact))
    (hseam : Seam (writes T id v artifact) s.stop) :
    s.run T budgets d = put d (id, versionFile v) (planText T artifact) := by
  unfold Save.run
  rw [hws, ← crash_between, ← (seam_iff s.stop).1 hseam]

/-- After a crash between the two files of a save, the next save of the
run writes the version just written. -/
theorem seam_overwrites (h : Own T d) {s s' : Save}
    (hrun : s'.runId = s.runId) {ws ws' : List (Write (String × String))}
    (hws : s.writes T budgets d = .ok ws) (hseam : Seam ws s.stop)
    (hws' : s'.writes T budgets (s.run T budgets d) = .ok ws')
    (hdone : ∀ w ∈ ws', Done ws' s'.stop w.name) :
    ∃ N artifact artifact', ws = writes T s.runId N artifact ∧
      ws' = writes T s.runId N artifact' ∧
      Written T (Durable.saves T budgets d [s]) s.runId N artifact ∧
      Written T (Durable.saves T budgets d [s, s']) s.runId N artifact' := by
  obtain ⟨latest', artifact', hlatest', _, _, rfl⟩ :=
    Save.writes_inv (h.run s) hws'
  obtain ⟨latest, artifact, hlatest, _, _, rfl⟩ := Save.writes_inv h hws
  have hfirst := run_seam hws hseam
  have hsame : latest' = latest := by
    rw [hfirst, hrun, latestVersionNumber_congr (loadLatest_congr
      (put_ne d _ (version_ne_latest _).symm)), hlatest] at hlatest'
    exact (Except.ok.inj hlatest').symm
  subst hsame
  rw [hrun] at hws' hdone ⊢
  refine ⟨latest' + 1, artifact, artifact', rfl, rfl, ?_, ?_⟩
  · show Written T (s.run T budgets d) s.runId _ artifact
    rw [hfirst]
    exact put_self ..
  · show Written T (s'.run T budgets (s.run T budgets d)) s.runId _ artifact'
    rw [Save.run, hws']
    exact written_done (hdone _ (List.mem_cons_self ..))

-- ==== the orchestrator's store

/-- A directory holds what the orchestrator's own model of the store
holds. -/
structure Represents (T : Texts) (d : Dir (String × String)) (runId : String)
    (store : PlanStore) : Prop where
  own : ∀ a, store.latest = some a → a.runId = runId
  latest : loadLatest T d runId =
    .ok (store.latest.map fun a => .obj (planDict T a))
  versions : ∀ N : Nat, loadVersion T d runId N =
    .ok ((store.versions.lookup N).map fun a => .obj (planDict T a))

/-- What the orchestrator's own model of the store does for a cause. -/
def applySave (budgets : StorySize → Option Budget) (store : PlanStore)
    (s : Save) : PlanStore :=
  match s.cause with
  | .replan planOutput humanPlanText =>
    match resolveBudget planOutput.storySize
        planOutput.crossCuttingOrHighRisk budgets with
    | none => store
    | some budget =>
      match generatePlanArtifact s.runId
          (PlanStore.latestVersionNumber store.latest + 1) planOutput
          budget humanPlanText s.now with
      | .error _ => store
      | .ok (artifact, _) => store.save artifact
  | .extend extraFiles =>
    match store.latest with
    | none => store
    | some artifact => store.save (artifact.extendScope extraFiles s.now)

variable {store : PlanStore} {a : PlanArtifact}

theorem planDict_runId (a : PlanArtifact) :
    (planDict T a).get "run_id" = some (.str a.runId) := rfl

theorem planDict_planVersion (a : PlanArtifact) :
    (planDict T a).get "plan_version" = some (.int a.planVersion) := rfl

theorem Represents.empty : Represents T (fun _ => none) runId .empty :=
  ⟨fun _ h => (Option.some_ne_none _ h.symm).elim, rfl, fun _ => rfl⟩

theorem Represents.latestVersionNumber (h : Represents T d runId store) :
    latestVersionNumber T d runId =
      .ok (PlanStore.latestVersionNumber store.latest) := by
  have hlatest := h.latest
  cases hs : store.latest with
  | none =>
    rw [hs] at hlatest
    unfold PlanArtifactStore.latestVersionNumber
    rw [hlatest]
    rfl
  | some a =>
    rw [hs] at hlatest
    exact latestVersionNumber_obj hlatest (planDict_planVersion a)

theorem lookup_filter {α : Type} {k N : Nat} (hN : N ≠ k) :
    ∀ l : List (Nat × α),
      (l.filter (·.1 ≠ k)).lookup N = l.lookup N := by
  intro l
  induction l with
  | nil => rfl
  | cons m l ih =>
    by_cases hm : m.1 = k
    · have hne : (N == m.1) = false := beq_false_of_ne fun he =>
        hN (he.trans hm)
      rw [List.filter_cons_of_neg (by simpa using hm), ih, List.lookup_cons,
        hne]
    · rw [List.filter_cons_of_pos (by simpa using hm), List.lookup_cons,
        List.lookup_cons, ih]

/-- A save that is not cut short is the model's save. -/
theorem Represents.save (h : Represents T d a.runId store)
    (hn : 2 * ((planText T (planDict T a)).length + 1) ≤ n) :
    Represents T (Files.crash d
      (writes T a.runId a.planVersion (planDict T a)) n) a.runId
      (store.save a) := by
  have hcut := cut_crash (T := T) d a.runId a.planVersion (planDict T a) n
  have hversions : ∀ N : Nat, N ≠ a.planVersion →
      loadVersion T (Files.crash d
        (writes T a.runId a.planVersion (planDict T a)) n) a.runId N =
        loadVersion T d a.runId N := fun N hN =>
    loadVersion_other d _ n (Or.inr fun he => hN (Int.ofNat.inj he))
  generalize Files.crash d _ n = d' at hcut hversions ⊢
  cases hcut with
  | whole _ =>
    refine ⟨?_, loadFile_whole (put_self ..), fun N => ?_⟩
    · rintro b hb
      rw [← Option.some.inj hb]
    by_cases hN : N = a.planVersion
    · subst hN
      rw [loadVersion, @loadFile_whole _ _ _ (planDict T a)
        ((put_ne _ _ (version_ne_latest _)).trans (put_self ..)),
        PlanStore.save, List.lookup_cons_self]
      rfl
    · rw [hversions N hN, h.versions N, PlanStore.save, List.lookup_cons,
        beq_false_of_ne hN]
      exact congrArg (fun o => Except.ok (Option.map _ o))
        (lookup_filter hN store.versions).symm
  | before => omega
  | version hk => omega
  | between => omega
  | latest hk => omega

theorem extendScope_planDict (a : PlanArtifact) (files : List String)
    (now : Time) : extendScope T (planDict T a) files now =
      .ok (planDict T (a.extendScope files now)) := by
  have hscope : (planDict T a).item "declared_scope" = .ok (.obj
      [("in_scope", strs a.inScope), ("out_of_scope", strs a.outOfScope)]) :=
    rfl
  have hversion := planVersionOf_eq_ok.2 (planDict_planVersion (T := T) a)
  unfold extendScope
  rw [hscope, hversion]
  have hin : Members.item [("in_scope", strs a.inScope),
      ("out_of_scope", strs a.outOfScope)] "in_scope" =
      .ok (strs a.inScope) := rfl
  simp only [bind, Except.bind, hin, asStrs_strs]
  rfl

/-- What is saved for a cause, where the directory holds the model's
store. -/
theorem Represents.saved {s : Save} (h : Represents T d s.runId store) :
    (∃ e, s.artifact T budgets d = .error e ∧
      applySave budgets store s = store) ∨
    ∃ a, a.runId = s.runId ∧ s.artifact T budgets d = .ok (planDict T a) ∧
      applySave budgets store s = store.save a := by
  obtain ⟨id, cause, now, stop⟩ := s
  cases cause with
  | replan out text =>
    show (∃ e, generatePlan T budgets d id out text now = .error e ∧ _) ∨
      ∃ a : PlanArtifact, a.runId = id ∧ generatePlan T budgets d id out text now = _ ∧ _
    unfold generatePlan applySave
    rw [h.latestVersionNumber]
    dsimp only
    rw [show ((PlanStore.latestVersionNumber store.latest : Int) + 1).toNat =
      PlanStore.latestVersionNumber store.latest + 1 from by omega]
    cases resolveBudget out.storySize out.crossCuttingOrHighRisk budgets with
    | none => exact Or.inl ⟨_, rfl, rfl⟩
    | some budget =>
      dsimp only
      cases hgen : generatePlanArtifact id
          (PlanStore.latestVersionNumber store.latest + 1) out budget text
          now with
      | error errors => exact Or.inl ⟨_, rfl, rfl⟩
      | ok result =>
        exact Or.inr ⟨result.1, (generatePlanArtifact_version hgen).1,
          rfl, rfl⟩
  | extend files =>
    have hlatest := h.latest
    have hown := h.own
    show (∃ e, extendPlan T d id files now = .error e ∧ _) ∨
      ∃ a : PlanArtifact, a.runId = id ∧ extendPlan T d id files now = _ ∧ _
    unfold extendPlan applySave
    dsimp only at hlatest hown ⊢
    rw [hlatest]
    cases hs : store.latest with
    | none => exact Or.inl ⟨_, rfl, rfl⟩
    | some a =>
      refine Or.inr ⟨a.extendScope files now, hown a hs, ?_, rfl⟩
      show orLoad (extendScope T (planDict T a) files now) = _
      rw [extendScope_planDict]
      rfl

/-- A save that is not cut short does what the model's does. -/
theorem Represents.run {s : Save} (h : Represents T d s.runId store)
    (hn : ∀ ws, s.writes T budgets d = .ok ws → (ops ws).length ≤ s.stop) :
    Represents T (s.run T budgets d) s.runId (applySave budgets store s) := by
  rcases h.saved with ⟨e, herror, hsame⟩ |
    ⟨a, hrun, hart, hsave⟩
  · rw [hsame, Save.run, Save.writes, herror]
    exact h
  · have hwrites : s.writes T budgets d =
        .ok (writes T a.runId a.planVersion (planDict T a)) := by
      rw [Save.writes, hart]
      dsimp only
      rw [save_eq_ok.2 ⟨a.runId, a.planVersion, planDict_runId a,
        planDict_planVersion a, rfl⟩]
      rfl
    have hlength := hn _ hwrites
    rw [hsave, Save.run, hwrites]
    rw [← hrun] at h ⊢
    rw [length_ops_writes] at hlength
    exact h.save hlength

-- ==== the stores

/-- What crashes inside saves leave of the orchestrator's stores. A load
gives the old value or the new one exactly when the crash tore no file
and what is read loaded before or is whole; other runs and versions load
as before. And saves that do not crash between their two files never
change a version that is written. -/
theorem stores_survive (T : Texts) (budgets : StorySize → Option Budget) :
    (∀ now d (p : ProgressRecord) n,
      (OldOrNew (RunProgressStore.load T now d p.runId)
          (RunProgressStore.load T now
            (Files.crash d (RunProgressStore.save T p) n) p.runId) p ↔
        ¬ Torn (RunProgressStore.save T p) n ∧
          ((RunProgressStore.load T now d p.runId).isOk ∨
            Done (RunProgressStore.save T p) n
              (RunProgressStore.path p.runId))) ∧
      ∀ id, id ≠ p.runId → RunProgressStore.load T now
          (Files.crash d (RunProgressStore.save T p) n) id =
        RunProgressStore.load T now d id) ∧
    (∀ d runId v artifact n,
      PlanArtifactStore.save T artifact =
        .ok (writes T runId v artifact) →
      ((OldOrNew (loadLatest T d runId)
          (loadLatest T (Files.crash d (writes T runId v artifact) n) runId)
          (.obj artifact) ∧
        OldOrNew (loadVersion T d runId v)
          (loadVersion T (Files.crash d (writes T runId v artifact) n) runId v)
          (.obj artifact)) ↔
        ¬ Torn (writes T runId v artifact) n ∧
          ((loadLatest T d runId).isOk ∨
            Done (writes T runId v artifact) n (runId, latestFile)) ∧
          ((loadVersion T d runId v).isOk ∨
            Done (writes T runId v artifact) n (runId, versionFile v))) ∧
      (∀ id, id ≠ runId →
        loadLatest T (Files.crash d (writes T runId v artifact) n) id =
          loadLatest T d id) ∧
      ∀ id N, id ≠ runId ∨ N ≠ v →
        loadVersion T (Files.crash d (writes T runId v artifact) n) id N =
          loadVersion T d id N) ∧
    (∀ ss ss' runId N artifact,
      Seamless T budgets (fun _ => none) (ss ++ ss') →
      Written T (saves T budgets (fun _ => none) ss) runId N artifact →
      Written T (saves T budgets (fun _ => none) (ss ++ ss')) runId N
        artifact) := by
  refine ⟨fun now d p n => ⟨?_, fun id hid => ?_⟩,
    fun d runId v artifact n _ => ⟨?_, fun id hid => ?_, fun id N h => ?_⟩,
    fun ss ss' runId N artifact hseamless hwritten => ?_⟩
  · exact RunProgressStore.survives_iff now d p n
  · exact RunProgressStore.load_other hid n
  · exact PlanArtifactStore.survives_iff d runId v artifact n
  · exact loadLatest_other d v artifact n hid
  · exact loadVersion_other d artifact n h
  · obtain ⟨hfirst, hlater⟩ := seamless_append hseamless
    unfold saves at hwritten ⊢
    rw [List.foldl_append]
    exact hwritten.saves (Ahead.empty.saves hfirst) hlater

-- ------------------------------------------------------- a crashed re-plan

/-- Texts as the platform renders them for the run below. -/
def texts : Texts :=
  { floats := Json.rationalText
    isoformat := fun t =>
      if t = 0 then "1970-01-01T00:00:00+00:00" else "1970-01-01T00:01:00+00:00"
    sha256 := fun _ =>
      "5382be9283936181ca18050fcda4376149f8c51e472f71085021b679576be5d1"
    signature := fun _ => "" }

/-- A model's plan of one subtask. -/
def onePlan (taskId : String) : PlanOutput :=
  { acceptanceCriteria := [], scopeIn := ["src/a.py"], scopeOut := []
    subtasks := [{ taskId := taskId, description := "work"
                   parallelGroup := none }]
    storySize := .S, crossCuttingOrHighRisk := false, riskTier := .low }

/-- The artifact it becomes as the first version. -/
def firstArtifact (taskId : String) (now : Time) : PlanArtifact :=
  { runId := "run-1", planVersion := 1, generatedAt := now
    sourcePlanText := "plan for KEY-1", inScope := ["src/a.py"]
    outOfScope := [], acceptanceCriteriaMap := []
    subtasks := [{ taskId := taskId, description := "work", mode := .sequential
                   parallelGroup := none, dependsOn := []
                   interfaceContract := none }]
    tier := .low, crossCuttingOrHighRisk := false, storySize := .S
    budget := ⟨.S, 30, 5, 150, 5⟩ }

/-- The first plan of a run, its save stopped somewhere. -/
def firstSave (taskId : String) (now : Time) (stop : Nat) : Save :=
  ⟨"run-1", .replan (onePlan taskId) "plan for KEY-1", now, stop⟩

theorem firstSave_writes {d : Dir (String × String)}
    (hd : d ("run-1", latestFile) = none) {taskId : String}
    (hid : taskId ≠ "") (now : Time) (stop : Nat) :
    (firstSave taskId now stop).writes texts defaultBudgets d =
      .ok (writes texts "run-1" 1
        (planDict texts (firstArtifact taskId now))) := by
  have hnumber : latestVersionNumber texts d "run-1" = .ok 0 := by
    rw [latestVersionNumber, loadLatest, loadFile, hd]
  have hgen : generatePlanArtifact "run-1" 1 (onePlan taskId)
      ⟨.S, 30, 5, 150, 5⟩ "plan for KEY-1" now =
      .ok (firstArtifact taskId now, []) := by
    have hminutes : (0 : ℚ) ≤ 30 := by decide
    have hcost : (0 : ℚ) ≤ 5 := by decide
    simp [generatePlanArtifact, schemaErrors, require, onePlan, firstArtifact,
      subtaskErrors, SubtaskEntry.ofSubTask, truthy, hid, hminutes, hcost,
      demoteUngovernedParallelGroups, demote, groupNames]
  have hplan : generatePlan texts defaultBudgets d "run-1" (onePlan taskId)
      "plan for KEY-1" now = .ok (planDict texts (firstArtifact taskId now)) := by
    have hbudget : resolveBudget (onePlan taskId).storySize
        (onePlan taskId).crossCuttingOrHighRisk defaultBudgets =
        some ⟨.S, 30, 5, 150, 5⟩ := rfl
    have hone : ((0 : ℤ) + 1).toNat = 1 := rfl
    unfold generatePlan
    simp only [hnumber, hbudget, hone, hgen]
  unfold Save.writes
  rw [show (firstSave taskId now stop).artifact texts defaultBudgets d =
    .ok (planDict texts (firstArtifact taskId now)) from hplan]
  rfl

/-- The first version of a run is kept when its scope is extended. -/
theorem stores_survive_extended : ∃ s s' : Save,
    Written texts (saves texts defaultBudgets (fun _ => none) ([s] ++ [s']))
      "run-1" 1 (planDict texts (firstArtifact "t1" 0)) ∧
    loadVersion texts (saves texts defaultBudgets (fun _ => none) [s, s'])
      "run-1" 2 = .ok (some (.obj (planDict texts
        ((firstArtifact "t1" 0).extendScope ["src/b.py"] 60000000)))) := by
  obtain ⟨n, hn⟩ : ∃ n, n = (ops (writes texts "run-1" 1
    (planDict texts (firstArtifact "t1" 0)))).length := ⟨_, rfl⟩
  obtain ⟨n', hn'⟩ : ∃ n', n' = (ops (writes texts "run-1" 2 (planDict texts
    ((firstArtifact "t1" 0).extendScope ["src/b.py"] 60000000)))).length :=
    ⟨_, rfl⟩
  have hws := firstSave_writes (d := fun _ => none) rfl
    (show "t1" ≠ "" by decide) 0 n
  have hrun : (firstSave "t1" 0 n).run texts defaultBudgets (fun _ => none) =
      Files.crash (fun _ => none) (writes texts "run-1" 1
        (planDict texts (firstArtifact "t1" 0))) n := by
    rw [Save.run, hws]
    rfl
  let s' : Save := ⟨"run-1", .extend ["src/b.py"], 60000000, n'⟩
  have hws' : s'.writes texts defaultBudgets
      ((firstSave "t1" 0 n).run texts defaultBudgets (fun _ => none)) =
      .ok (writes texts "run-1" 2 (planDict texts
        ((firstArtifact "t1" 0).extendScope ["src/b.py"] 60000000))) := by
    have hlength : 2 * ((planText texts (planDict texts
        (firstArtifact "t1" 0))).length + 1) ≤ n := by
      rw [hn, length_ops_writes]
    have hlatest : loadLatest texts ((firstSave "t1" 0 n).run texts
        defaultBudgets (fun _ => none)) "run-1" =
        .ok (some (.obj (planDict texts (firstArtifact "t1" 0)))) := by
      rw [hrun]
      exact (Represents.empty.save hlength).latest
    have hext : s'.artifact texts defaultBudgets
        ((firstSave "t1" 0 n).run texts defaultBudgets (fun _ => none)) =
        .ok (planDict texts
          ((firstArtifact "t1" 0).extendScope ["src/b.py"] 60000000)) := by
      show extendPlan texts _ "run-1" ["src/b.py"] 60000000 = _
      unfold extendPlan
      rw [hlatest]
      show orLoad (extendScope texts _ ["src/b.py"] 60000000) = _
      rw [extendScope_planDict]
      rfl
    rw [Save.writes, hext]
    rfl
  refine ⟨firstSave "t1" 0 n, s', ?_, ?_⟩
  · refine (stores_survive texts defaultBudgets).2.2 _ _ _ _ _ ⟨?_, ?_, trivial⟩
      ?_
    · intro ws h
      obtain rfl := Except.ok.inj (hws.symm.trans h)
      exact not_seam_all (Nat.le_of_eq hn.symm)
    · intro ws h
      obtain rfl := Except.ok.inj (hws'.symm.trans h)
      exact not_seam_all (Nat.le_of_eq hn'.symm)
    · unfold saves
      rw [List.foldl_cons, List.foldl_nil, hrun]
      exact written_done (done_all (List.mem_cons_self ..)
        (Nat.le_of_eq hn.symm))
  · unfold saves
    rw [List.foldl_cons, List.foldl_cons, List.foldl_nil, Save.run, hws']
    exact loadFile_whole (written_done (done_all (List.mem_cons_self ..)
      (Nat.le_of_eq hn'.symm)))

/-- A record just started. -/
def freshRecord : ProgressRecord :=
  .of texts (RunProgress.fresh "run-1" "attempt-1" 0)

/-- A record's save that is truncated and no more is not read back; and a
plan whose save stops between its two files is overwritten by the next
one. -/
theorem saves_lost :
    (∃ prev, RunProgressStore.load texts "" (fun _ => none) "run-1" = .ok prev) ∧
    RunProgressStore.load texts ""
      (Files.crash (fun _ => none) (RunProgressStore.save texts freshRecord) 1)
      "run-1" = .error .jsonDecodeError ∧
    ∃ s s' : Save, ∃ artifact artifact', artifact ≠ artifact' ∧
      Written texts (saves texts defaultBudgets (fun _ => none) [s])
        "run-1" 1 artifact ∧
      Written texts (saves texts defaultBudgets (fun _ => none) [s, s'])
        "run-1" 1 artifact' := by
  refine ⟨⟨none, rfl⟩, RunProgressStore.load_truncated _ freshRecord, ?_⟩
  generalize hfirst : planDict texts (firstArtifact "t1" 0) = first
  generalize hnext : planDict texts (firstArtifact "t2" 60000000) = next
  obtain ⟨n, hn⟩ : ∃ n, n = (planText texts first).length + 1 := ⟨_, rfl⟩
  obtain ⟨n', hn'⟩ : ∃ n', n' = (ops (writes texts "run-1" 1 next)).length :=
    ⟨_, rfl⟩
  have hws := firstSave_writes (d := fun _ => none) rfl
    (show "t1" ≠ "" by decide) 0 n
  rw [hfirst] at hws
  have hrun := run_seam hws ((seam_iff _).2 hn)
  have hws' := firstSave_writes
    (d := (firstSave "t1" 0 n).run texts defaultBudgets (fun _ => none))
    (by rw [hrun, put_ne _ _ (version_ne_latest 1).symm])
    (show "t2" ≠ "" by decide) 60000000 n'
  rw [hnext] at hws'
  refine ⟨firstSave "t1" 0 n, firstSave "t2" 60000000 n', first, next, ?_, ?_,
    ?_⟩
  · rintro rfl
    have hdate : some (Json.Json.str "1970-01-01T00:00:00+00:00") =
        some (Json.Json.str (φ := ℚ) "1970-01-01T00:01:00+00:00") :=
      congrArg (Members.get · "generated_at") (hfirst.trans hnext.symm)
    injection hdate with hdate
    injection hdate with hdate
    revert hdate
    decide
  · unfold saves
    rw [List.foldl_cons, List.foldl_nil, hrun]
    exact put_self ..
  · unfold saves
    rw [List.foldl_cons, List.foldl_cons, List.foldl_nil, Save.run, hws']
    exact written_done (done_all (List.mem_cons_self ..) (Nat.le_of_eq hn'.symm))

end SdlcOs.Orchestrator.Durable
