/-
What successive rollbacks apply.

A rollback that is recorded has applied the version of the record before
the last and becomes the last record itself (`rollback_recorded`). So the
two records at the end of a history change places: the next rollback goes
back to what this one went back from, and a run of rollbacks goes to and
fro between the two (`rollbacks_alternate`). It walks back one release and
no further.

An apply that fails is not recorded. One that succeeds is not either if its
manifest is no JSON: the next rollback then applies the same version once
more. Whatever is returned as approved is recorded.
-/
import SdlcOs.Release.Rollback

namespace SdlcOs.Release

/-- Two values in turn, `n` of them. -/
def alternating {α : Type} (a b : α) : Nat → List α
  | 0 => []
  | n + 1 => a :: alternating b a n

/-- A run of `tofu` came back with 0. -/
def succeeded : Except Err Int → Bool
  | .ok code => code = 0
  | .error _ => false

/-- Both runs did. -/
def Outside.confirms (o : Outside) : Bool :=
  succeeded o.init && succeeded o.apply

/-- A call gets to an apply, which succeeds. -/
def Turn.applies (turn : Turn) : Bool :=
  turn.outside.logged.isOk && turn.outside.confirms

/-- And a manifest, if there is one, that is JSON. -/
def Turn.records (turn : Turn) : Bool :=
  turn.applies && turn.outside.manifest.isOk

namespace World

variable {w : World} {environment : String} {v : Vars} {now : String}
variable {o : Outside}

-- ==== an apply

/-- An apply that fails leaves the history and the list of applies as they
are, and is not approved. -/
theorem applied_failed (h : o.confirms = false) :
    (w.applied v now o).1 = w ∧
      ∀ outcome, (w.applied v now o).2 = .ok outcome →
        outcome.approved = false := by
  unfold Outside.confirms succeeded at h
  unfold applied applyPlatformVersion TofuResult.ok
  cases hinit : o.init with
  | error e => simp
  | ok code =>
    by_cases hcode : code = 0
    · cases happly : o.apply with
      | error e => simp [hcode]
      | ok code' =>
        have hcode' : code' ≠ 0 := by
          simpa [hinit, happly, hcode] using h
        simp [hcode, hcode']
    · simp [hcode]

/-- One that succeeds is in the list of applies, and in the history if the
manifest can be read. -/
theorem applied_confirmed (w : World) (v : Vars) (now : String)
    (h : o.confirms = true) :
    (w.applied v now o).1.applies = w.applies ++ [v] ∧
      (w.applied v now o).1.history =
        (if o.manifest.isOk then w.history.append (v.record now)
          else w.history) ∧
      ∀ outcome, (w.applied v now o).2 = .ok outcome →
        o.manifest.isOk = true := by
  unfold Outside.confirms succeeded at h
  unfold applied applyPlatformVersion TofuResult.ok
  cases hinit : o.init with
  | error e => simp [hinit] at h
  | ok code =>
    cases happly : o.apply with
    | error e => simp [happly] at h
    | ok code' =>
      obtain ⟨rfl, rfl⟩ : code = 0 ∧ code' = 0 := by
        simpa [hinit, happly] using h
      cases hmanifest : o.manifest with
      | error e => simp [Except.map, Except.isOk, Except.toBool]
      | ok manifest =>
        cases hpersisted : o.persisted with
        | error e => simp [Except.map, append, Except.isOk, Except.toBool]
        | ok u => simp [Except.map, append, Except.isOk, Except.toBool]

theorem applied_ne (h : environment ≠ v.environment) :
    (w.applied v now o).1.history.history environment =
        w.history.history environment ∧
      (w.applied v now o).1.appliesTo environment =
        w.appliesTo environment := by
  cases hconfirms : o.confirms with
  | false =>
    rw [(applied_failed hconfirms).1]
    exact ⟨rfl, rfl⟩
  | true =>
    obtain ⟨happlies, hhistory, -⟩ := applied_confirmed w v now hconfirms
    unfold appliesTo
    rw [happlies, hhistory]
    constructor
    · split
      · exact ReleaseHistory.history_append_ne _ h
      · rfl
    · rw [List.filter_append, List.filter_cons_of_neg, List.filter_nil,
        List.append_nil]
      simpa using h.symm

-- ==== a call

/-- The world once an event is kept. -/
def logging (w : World) (e : AuditEvent) : World :=
  { w with audit := w.audit ++ [e] }

/-- What a rollback to a record applies. -/
def back (w : World) (environment releaseId : String)
    (prior : ReleaseRecord) : Vars where
  environment := environment
  platformVersion := prior.platformVersion
  releaseId := releaseId
  componentVersions := prior.componentVersions
  rolledBackFrom := (w.history.current environment).map (·.platformVersion)

/-- A rollback with a record to go back to is an apply of that record, up to
the last event. -/
theorem rollback_eq {releaseId : String} {prior : ReleaseRecord}
    (hlogged : o.logged = .ok ())
    (hprior : w.history.previous environment = some prior) :
    let done := (w.logging (.rollbackStarted environment releaseId)).applied
      (w.back environment releaseId prior) now o
    (w.rollback environment releaseId now o).1.history = done.1.history ∧
      (w.rollback environment releaseId now o).1.applies =
        done.1.applies ∧
      ∀ outcome, (w.rollback environment releaseId now o).2 = .ok outcome →
        done.2 = .ok outcome := by
  dsimp only
  unfold rollback record rollbackToPrevious
  dsimp only
  rw [hlogged]
  dsimp only
  rw [hprior]
  dsimp only
  rcases hdone : (w.logging (.rollbackStarted environment releaseId)).applied
      (w.back environment releaseId prior) now o with ⟨w', e | outcome⟩
  · unfold logging back at hdone
    rw [hdone]
    exact ⟨rfl, rfl, fun _ h => (by cases h)⟩
  · unfold logging back at hdone
    rw [hdone]
    dsimp only
    cases o.completionLogged with
    | error e => exact ⟨rfl, rfl, fun _ h => (by cases h)⟩
    | ok u => exact ⟨rfl, rfl, fun _ h => h⟩

/-- What a call comes to: nothing that matters here, or an apply for its
environment. -/
theorem call_cases (w : World) (turn : Turn) :
    ((w.call turn).1.history = w.history ∧
        (w.call turn).1.applies = w.applies ∧
        ∃ e, (w.call turn).2 = .error e) ∨
      turn.outside.logged = .ok () ∧
        ∃ (w' : World) (v : Vars), w'.history = w.history ∧
          w'.applies = w.applies ∧ v.environment = turn.call.environment ∧
          (w.call turn).1.history =
            (w'.applied v turn.now turn.outside).1.history ∧
          (w.call turn).1.applies =
            (w'.applied v turn.now turn.outside).1.applies ∧
          ∀ outcome, (w.call turn).2 = .ok outcome →
            (w'.applied v turn.now turn.outside).2 = .ok outcome := by
  obtain ⟨c, now, o⟩ := turn
  cases hlogged : o.logged with
  | error e =>
    left
    cases c with
    | startRelease env version id components report =>
      unfold call startRelease record
      dsimp only
      rw [hlogged]
      exact ⟨rfl, rfl, e, rfl⟩
    | rollback env id =>
      unfold call rollback record
      dsimp only
      rw [hlogged]
      exact ⟨rfl, rfl, e, rfl⟩
  | ok u =>
    cases c with
    | startRelease env version id components report =>
      unfold call startRelease record release
      dsimp only
      rw [hlogged]
      cases report with
      | none =>
        right
        exact ⟨rfl, w.logging _, _, rfl, rfl,
          (rfl : Vars.environment ⟨env, version, id, components, none⟩ =
            env), rfl, rfl, fun _ h => h⟩
      | some report =>
        dsimp only
        cases o.reportLogged with
        | error e =>
          left
          exact ⟨rfl, rfl, e, rfl⟩
        | ok u =>
          dsimp only
          split
          · right
            exact ⟨rfl, (w.logging _).logging _, _, rfl, rfl,
              (rfl : Vars.environment
                ⟨env, version, id, components, none⟩ = env),
              rfl, rfl, fun _ h => h⟩
          · left
            exact ⟨rfl, rfl, _, rfl⟩
    | rollback env id =>
      cases hprior : w.history.previous env with
      | none =>
        left
        unfold call rollback record rollbackToPrevious
        dsimp only
        rw [hlogged]
        dsimp only
        rw [hprior]
        exact ⟨rfl, rfl, _, rfl⟩
      | some prior =>
        right
        exact ⟨rfl, w.logging (.rollbackStarted env id),
          w.back env id prior, rfl, rfl, rfl,
          rollback_eq hlogged hprior⟩

theorem call_ne {turn : Turn} (h : turn.call.environment ≠ environment) :
    (w.call turn).1.history.history environment =
        w.history.history environment ∧
      (w.call turn).1.appliesTo environment = w.appliesTo environment := by
  rcases call_cases w turn with hnothing | happlied
  · obtain ⟨hhistory, happlies, -⟩ := hnothing
    unfold appliesTo
    rw [hhistory, happlies]
    exact ⟨rfl, rfl⟩
  · obtain ⟨-, w', v, hw', happlies', henv, hhistory, happlies, -⟩ := happlied
    have hne : environment ≠ v.environment := by
      rw [henv]
      exact h.symm
    unfold appliesTo
    rw [hhistory, happlies, ← hw', ← happlies']
    exact applied_ne hne

/-- A call whose apply fails, or that does not get to one, changes neither
the history nor the list of applies. -/
theorem call_failed {turn : Turn} (h : turn.applies = false) :
    (w.call turn).1.history = w.history ∧
      (w.call turn).1.applies = w.applies := by
  rcases call_cases w turn with hnothing | happlied
  · exact ⟨hnothing.1, hnothing.2.1⟩
  · obtain ⟨hlogged, w', v, hw', happlies', -, hhistory, happlies, -⟩ :=
      happlied
    have hconfirms : turn.outside.confirms = false := by
      unfold Turn.applies at h
      rw [hlogged] at h
      exact h
    rw [hhistory, happlies, (applied_failed hconfirms).1]
    exact ⟨hw', happlies'⟩

theorem records_of_approved {turn : Turn} {outcome : ApplyOutcome}
    (h : (w.call turn).2 = .ok outcome) (happroved : outcome.approved = true) :
    turn.records = true := by
  rcases call_cases w turn with hnothing | happlied
  · obtain ⟨-, -, e, he⟩ := hnothing
    rw [he] at h
    cases h
  · obtain ⟨hlogged, w', v, -, -, -, -, -, hreturned⟩ := happlied
    have happlied := hreturned outcome h
    unfold Turn.records Turn.applies
    rw [hlogged]
    cases hconfirms : turn.outside.confirms with
    | false =>
      have hfailed := (applied_failed hconfirms).2 outcome happlied
      rw [happroved] at hfailed
      cases hfailed
    | true =>
      rw [(applied_confirmed w' v turn.now hconfirms).2.2 outcome happlied]
      rfl

/-- A rollback whose apply succeeds has applied what the record before the
last pins, and appends it if the manifest can be read. -/
theorem rollback_applied {pre : List ReleaseRecord} {x y : ReleaseRecord}
    {turn : Turn} (henv : turn.call.environment = environment)
    (hback : turn.call.isRollback = true)
    (hist : w.history.history environment = pre ++ [x, y])
    (h : turn.applies = true) :
    ∃ v : Vars, v.versions = x.versions ∧
      v.rolledBackFrom = some y.platformVersion ∧
      (w.call turn).1.appliesTo environment =
        w.appliesTo environment ++ [v] ∧
      (w.call turn).1.history.history environment =
        pre ++ [x, y] ++
          if turn.outside.manifest.isOk then [v.record turn.now] else [] := by
  obtain ⟨hprevious, hcurrent⟩ := ReleaseHistory.last_two hist
  obtain ⟨c, now, o⟩ := turn
  cases c with
  | startRelease => cases hback
  | rollback env id =>
    obtain rfl : env = environment := henv
    obtain ⟨hlogged, hconfirms⟩ : o.logged = .ok () ∧ o.confirms = true := by
      unfold Turn.applies at h
      rw [Bool.and_eq_true] at h
      refine ⟨?_, h.2⟩
      cases hlogged : o.logged with
      | error e =>
        rw [hlogged] at h
        cases h.1
      | ok u => rfl
    let w' : World := w.logging (.rollbackStarted env id)
    let v : Vars := w.back env id x
    have hcall : (w.rollback env id now o).1.history =
          (w'.applied v now o).1.history ∧
        (w.rollback env id now o).1.applies =
          (w'.applied v now o).1.applies ∧ _ :=
      rollback_eq hlogged hprevious
    obtain ⟨happlies, hhistory, -⟩ := applied_confirmed w' v now hconfirms
    refine ⟨v, rfl, ?_, ?_, ?_⟩
    · show (w.history.current env).map _ = _
      rw [hcurrent]
      rfl
    · show (w.rollback env id now o).1.appliesTo env = _
      unfold appliesTo
      rw [hcall.2.1, happlies, List.filter_append]
      simp [v, w', back, logging]
    · show (w.rollback env id now o).1.history.history env = _
      rw [hcall.1, hhistory]
      split
      · rw [← hist]
        exact ReleaseHistory.history_append_self _ (v.record now)
      · rw [List.append_nil]
        exact hist

-- ==== the run

/-- What a run of rollbacks applies and records: to and fro between the
last two records, whatever fails and whatever happens to other environments
in between. A call whose apply fails changes nothing that the next one goes
by, and what is returned as approved is recorded. -/
theorem rollbacks_alternate (w : World) (environment : String)
    (pre : List ReleaseRecord) (x y : ReleaseRecord)
    (hist : w.history.history environment = pre ++ [x, y])
    (turns : List Turn)
    (honly : ∀ turn ∈ turns, turn.call.environment = environment →
      turn.call.isRollback = true) :
    (∃ (vs : List Vars) (rs : List ReleaseRecord),
      (w.run turns).appliesTo environment =
          w.appliesTo environment ++ vs ∧
        (w.run turns).history.history environment =
          pre ++ [x, y] ++ rs ∧
        vs.length = turns.countP (fun turn =>
          turn.call.environment = environment ∧ turn.applies = true) ∧
        rs.length = turns.countP (fun turn =>
          turn.call.environment = environment ∧ turn.records = true) ∧
        rs.map (·.versions) =
          alternating x.versions y.versions rs.length ∧
        rs.map (·.rolledBackFrom) = alternating (some y.platformVersion)
          (some x.platformVersion) rs.length ∧
        (rs.map (·.versions)).Sublist (vs.map Vars.versions)) ∧
    ∀ (w : World) (turn : Turn),
      (turn.applies = false → (w.call turn).1.history = w.history) ∧
        ∀ outcome, (w.call turn).2 = .ok outcome →
          outcome.approved = true → turn.records = true := by
  refine ⟨?_, fun w turn => ⟨fun h => (call_failed h).1,
    fun outcome => records_of_approved⟩⟩
  induction turns generalizing w pre x y with
  | nil =>
    exact ⟨[], [], by simp [run, hist, alternating]⟩
  | cons turn turns ih =>
    have hrest : ∀ turn ∈ turns, turn.call.environment = environment →
        turn.call.isRollback = true :=
      fun turn hmem => honly turn (List.mem_cons_of_mem _ hmem)
    have hrun : w.run (turn :: turns) = (w.call turn).1.run turns := rfl
    rw [hrun]
    by_cases henv : turn.call.environment = environment
    · cases happlies : turn.applies with
      | false =>
        obtain ⟨hhist, hsame⟩ := call_failed (w := w) happlies
        rw [← hhist] at hist
        obtain ⟨vs, rs, hvs, hrs, hlength, hlength', hlaw⟩ :=
          ih _ pre x y hist hrest
        refine ⟨vs, rs, ?_, hrs, ?_, ?_, hlaw⟩
        · rw [hvs]
          unfold appliesTo
          rw [hsame]
        · rw [hlength, List.countP_cons_of_neg (by simp [happlies])]
        · rw [hlength', List.countP_cons_of_neg
            (by simp [Turn.records, happlies])]
      | true =>
        obtain ⟨v, hv, hfrom, hsame, hhist⟩ := rollback_applied henv
          (honly turn List.mem_cons_self henv) hist happlies
        cases hmanifest : turn.outside.manifest.isOk with
        | false =>
          rw [hmanifest, if_neg Bool.false_ne_true,
            List.append_nil] at hhist
          obtain ⟨vs, rs, hvs, hrs, hlength, hlength', hversions,
            hfroms, hsub⟩ := ih _ pre x y hhist hrest
          refine ⟨v :: vs, rs, ?_, hrs, ?_, ?_, hversions, hfroms, ?_⟩
          · rw [hvs, hsame, List.append_assoc]
            rfl
          · rw [List.length_cons, hlength,
              List.countP_cons_of_pos (by simp [henv, happlies])]
          · rw [hlength', List.countP_cons_of_neg
              (by simp [Turn.records, hmanifest])]
          · exact hsub.cons _
        | true =>
          -- the records at the end have changed places
          have hnext : pre ++ [x, y] ++ [v.record turn.now] =
              (pre ++ [x]) ++ [y, v.record turn.now] := by
            simp
          rw [hmanifest, if_pos rfl, hnext] at hhist
          have hz : (v.record turn.now).versions = x.versions := hv
          obtain ⟨vs, rs, hvs, hrs, hlength, hlength', hversions,
            hfroms, hsub⟩ := ih _ (pre ++ [x]) y _ hhist hrest
          refine ⟨v :: vs, v.record turn.now :: rs, ?_, ?_, ?_, ?_,
            ?_, ?_, ?_⟩
          · rw [hvs, hsame, List.append_assoc]
            rfl
          · rw [hrs, ← hnext, List.append_assoc]
            rfl
          · rw [List.length_cons, hlength,
              List.countP_cons_of_pos (by simp [henv, happlies])]
          · rw [List.length_cons, hlength', List.countP_cons_of_pos
              (by simp [Turn.records, henv, happlies, hmanifest])]
          · rw [List.map_cons, hversions, hz]
            rfl
          · have hsource : (v.record turn.now).rolledBackFrom =
                some y.platformVersion := hfrom
            have htarget : (v.record turn.now).platformVersion =
                x.platformVersion := congrArg Prod.fst hz
            rw [List.map_cons, hfroms, hsource, htarget]
            rfl
          · rw [List.map_cons, List.map_cons, hz, hv]
            exact hsub.cons_cons _
    · obtain ⟨hhist, hsame⟩ := call_ne (w := w) henv
      rw [← hhist] at hist
      obtain ⟨vs, rs, hvs, hrs, hlength, hlength', hlaw⟩ :=
        ih _ pre x y hist hrest
      refine ⟨vs, rs, by rw [hvs, hsame], hrs, ?_, ?_, hlaw⟩
      · rw [hlength, List.countP_cons_of_neg (by simp [henv])]
      · rw [hlength', List.countP_cons_of_neg (by simp [henv])]

-- ==== samples

/-- A forward release of a version. -/
def releaseOf (version : String) : Turn :=
  { call := .startRelease "prod" version ("rel-" ++ version) [] none
    now := "t" }

/-- A rollback. -/
def rollbackTurn (outside : Outside) : Turn :=
  { call := .rollback "prod" "rel-back", now := "t", outside := outside }

/-- A rollback that succeeds, three that do not (`tofu apply` fails, takes
too long, or leaves a manifest that is no JSON), one more that succeeds,
and one that is recorded though the history cannot be written. -/
def rollbackTurns : List Turn :=
  [rollbackTurn {}, rollbackTurn { apply := .ok 1 },
    rollbackTurn { apply := .error (.outside "TimeoutExpired") },
    rollbackTurn { manifest := .error (.outside "JSONDecodeError") },
    rollbackTurn {},
    rollbackTurn { persisted := .error (.outside "OSError") }]

/-- After two releases, these go to and fro. -/
theorem rollbacks_alternate_failing : ∃ vs : List Vars,
    ∃ rs : List ReleaseRecord,
    ((World.init.run [releaseOf "v1", releaseOf "v2"]).run
      rollbackTurns).history.history "prod" =
      [⟨"rel-v1", "prod", "v1", [], "t", none⟩,
        ⟨"rel-v2", "prod", "v2", [], "t", none⟩] ++ rs ∧
    rs.map (·.versions) = [("v1", []), ("v2", []), ("v1", [])] ∧
    vs.length = 4 ∧
    ([("v1", []), ("v2", []), ("v1", [])] :
      List (String × List (String × String))).Sublist
        (vs.map Vars.versions) := by
  obtain ⟨⟨vs, rs, -, hrs, hlength, hlength', hversions, -, hsub⟩, -⟩ :=
    rollbacks_alternate
      (World.init.run [releaseOf "v1", releaseOf "v2"]) "prod" []
      ⟨"rel-v1", "prod", "v1", [], "t", none⟩
      ⟨"rel-v2", "prod", "v2", [], "t", none⟩ (by decide) rollbackTurns
      (by decide)
  have hthree : rs.map (·.versions) =
      [("v1", []), ("v2", []), ("v1", [])] := by
    rw [hversions, hlength']
    decide
  refine ⟨vs, rs, hrs, hthree, ?_, ?_⟩
  · rw [hlength]
    decide
  · rw [← hthree]
    exact hsub

/-- The versions a run of rollbacks would apply if each went one release
further back. -/
def walkBack (w : World) (environment : String) (k : Nat) :
    List (String × List (String × String)) :=
  (((w.history.history environment).map (·.versions)).reverse.drop 1).take k

/-- Two rollbacks after three forward releases: the second applies the
version the first went back from. -/
theorem rollback_returns :
    ((World.init.run [releaseOf "v1", releaseOf "v2",
      releaseOf "v3"]).history.history "prod").all
        (·.rolledBackFrom = none) = true ∧
    walkBack (World.init.run [releaseOf "v1", releaseOf "v2",
      releaseOf "v3"]) "prod" 2 = [("v2", []), ("v1", [])] ∧
    ((World.init.run [releaseOf "v1", releaseOf "v2", releaseOf "v3",
      rollbackTurn {}, rollbackTurn {}]).appliesTo "prod").map
        Vars.versions =
      [("v1", []), ("v2", []), ("v3", []), ("v2", []), ("v3", [])] := by
  decide

end World

end SdlcOs.Release
