/-
What the dashboard shows, and to whom.

# Confinement

Whatever other requests and the registry do meanwhile, a reply holds only
cards of tenants its identity is authorized for and asked for. A card is
built from a row the registry held at a step of the request, and from what
the run's own sightings came to once a step of it had noted one
(`served_confined`).

# Exactness

If the registry stands still while a request is served, the reply has
every run of its scope that is not over, once, tenant by tenant, the
newest first, as far as its filters let it through (`served_exact`).

# Why it is so

Both follow one request's process. What the answers on its way may be is
said first (`Witnessed`, `Standing`), and the loop's locals say of the
cards so far what the reply says of all (`Locals`, `Shown`).
-/
import SdlcOs.Proofs.Dashboard.History
import SdlcOs.Proofs.Dashboard.Fetch

namespace SdlcOs.Dashboard

open Data (Dict)
open Effects
open Effects.Prog (Carries carries_bind)
open Effects.Machine (Upshot)
open Registry

-- ==== scopes

section Scopes

variable {identities : Identities} {g : Get} {scope : TenantSet} {t : String}

theorem mem_sorted : t ∈ scope.sorted ↔ t ∈ scope := by
  unfold TenantSet.sorted
  exact List.mem_insertionSort _

theorem not_mem_empty : ¬ t ∈ TenantSet.empty := by
  intro h
  cases h

/-- A resolved scope is within what the identity may see and within what
was asked for. -/
theorem scope_confined {authorized : TenantSet} {requested : Option String}
    {scopeAll : Bool}
    (h : resolveScope authorized requested scopeAll = .ok scope)
    (ht : t ∈ scope) :
    t ∈ authorized ∧ ∀ asked ∈ requested, t = asked := by
  cases requested with
  | some asked =>
    simp only [resolveScope] at h
    by_cases hasked : asked ∈ authorized
    · rw [if_pos hasked] at h
      obtain rfl := Except.ok.inj h
      have heq : t = asked := List.mem_singleton.1 ht
      subst heq
      exact ⟨hasked, fun _ h => Option.some.inj h⟩
    · rw [if_neg hasked] at h
      obtain rfl := Except.ok.inj h
      exact absurd ht not_mem_empty
  | none =>
    refine ⟨?_, fun _ h => by cases h⟩
    simp only [resolveScope] at h
    split at h
    · obtain rfl := Except.ok.inj h
      exact ht
    · split at h
      · obtain rfl := Except.ok.inj h
        exact ht
      · split at h
        · obtain rfl := Except.ok.inj h
          exact absurd ht not_mem_empty
        · cases h

end Scopes

-- ==== confinement

section Confined

variable {identities : Identities} {Pid : Type} [DecidableEq Pid]
variable {cond : State Pid → Act Pid → Prop} {s₀ : State Pid}
variable {ws : List (World × World)}

/-- The registry held the row after one of the request's steps, given by
the world before and after each of them. -/
def HeldOnTheWay (ws : List (World × World)) (run : RunRow) : Prop :=
  ∃ ww ∈ ws, run ∈ ww.2.db.runs

/-- One of the request's steps noted the sighting, and the observation is
what the run's own sightings came to then. -/
def SightedOnTheWay (ws : List (World × World)) (tenantId runId : String)
    (s : Sighting) (obs : RunObservation) : Prop :=
  ∃ ww ∈ ws, ww.2.deeds = .observe tenantId runId s :: ww.1.deeds ∧
    summary runId (seen (tenantId, runId) ww.2.deeds) = some obs

/-- A card shown of a run: the run is not over, the card has its column,
and it was built from a row and an observation of the time. -/
structure Vouched (ws : List (World × World)) (polledAt : Micros)
    (card : Card) : Prop where
  shown : ∃ column, columnForStage card.stage = some column ∧
    card.column = some column
  built : ∃ run obs, card = buildCard run obs polledAt ∧
    HeldOnTheWay ws run ∧
    SightedOnTheWay ws run.tenantId run.id
      ⟨run.stage, run.checkpointPointer, polledAt⟩ obs

/-- What the answers on the way are. -/
def Witnessed (ws : List (World × World)) : (e : Req) → Resp e → Prop
  | .listRuns t _ _, r => ∀ rows, r = .ok rows → ∀ run ∈ rows,
      run.tenantId = t ∧ HeldOnTheWay ws run
  | .observe t run s, obs => SightedOnTheWay ws t run s obs
  | _, _ => True

/-- The runs a poll has in hand are of one tenant of its scope. -/
def InHand (ws : List (World × World)) (scope : TenantSet) (t : String)
    (runs : List RunRow) : Prop :=
  t ∈ scope ∧ ∀ run ∈ runs, run.tenantId = t ∧ HeldOnTheWay ws run

/-- The locals of a poll of a scope. -/
structure Locals (ws : List (World × World)) (scope : TenantSet)
    (filters : Filters) (p : Poll) : Prop where
  ofScope : p.scope = scope
  ofFilters : p.filters = filters
  cards : ∀ card ∈ p.allCards, card.tenantId ∈ scope ∧
    Vouched ws p.polledAt card
  todo :
    match p.todo with
    | .tenants rest => ∀ t ∈ rest, t ∈ scope
    | .fetching t rest f => (∀ t ∈ rest, t ∈ scope) ∧
        InHand ws scope t f.runs
    | .observing t rest runs => (∀ t ∈ rest, t ∈ scope) ∧
        InHand ws scope t runs

/-- What a reply shows of a scope. -/
def Confined (ws : List (World × World)) (scope : TenantSet)
    (filters : Filters) (payload : Payload) : Prop :=
  payload.tenantIdsViewed = scope.sorted ∧
    ∀ card ∈ payload.cards, card.tenantId ∈ scope ∧
      filters.keep card = true ∧
      Vouched ws payload.polledAt card

/-- What a request may be answered with: cards of the tenants it views,
which its identity is authorized for and which it asked for. -/
def ConfinedReply (identities : Identities) (ws : List (World × World))
    (g : Get) (r : Reply) : Prop :=
  ∀ payload, r = .cards payload →
    (∀ t ∈ payload.tenantIdsViewed,
      t ∈ authorizedTenantIds identities g.token ∧
        ∀ asked ∈ g.first "tenant_id", t = asked) ∧
    ∀ card ∈ payload.cards, card.tenantId ∈ payload.tenantIdsViewed ∧
      g.filters.keep card = true ∧
      Vouched ws payload.polledAt card

variable {scope : TenantSet} {filters : Filters} {p : Poll}

theorem Locals.confined (h : Locals ws scope filters p) :
    Confined ws scope filters p.payload := by
  refine ⟨?_, ?_⟩
  · rw [← h.ofScope]
    rfl
  · intro card hcard
    simp only [Poll.payload, applyFilters, List.mem_filter] at hcard
    rw [← h.ofFilters]
    obtain ⟨htenant, hvouched⟩ := h.cards card hcard.1
    exact ⟨htenant, hcard.2, hvouched⟩

theorem turn_runs {P : RunRow → Prop} {f : Fetch}
    {r : Result (List RunRow)} (hold : ∀ run ∈ f.runs, P run)
    (hread : ∀ rows, r = .ok rows → ∀ run ∈ rows, P run) :
    (∀ f', f.turn r = .again f' → ∀ run ∈ f'.runs, P run) ∧
      ∀ runs, f.turn r = .done (.ok runs) → ∀ run ∈ runs, P run := by
  cases r with
  | empty =>
    refine ⟨fun f' h => (by cases h), fun runs h => ?_⟩
    obtain rfl := Except.ok.inj (Ctl.done.inj h)
    exact hold
  | fail e =>
    refine ⟨fun f' h => (by cases h), fun runs h => ?_⟩
    cases Ctl.done.inj h
  | ok page =>
    have hboth : ∀ run ∈ f.runs ++ page, P run := by
      intro run hrun
      rcases List.mem_append.1 hrun with hrun | hrun
      · exact hold run hrun
      · exact hread page rfl run hrun
    simp only [Fetch.turn]
    by_cases hshort : page.length < listRunsPageSize
    · rw [if_pos hshort]
      refine ⟨fun f' h => (by cases h), fun runs h => ?_⟩
      obtain rfl := Except.ok.inj (Ctl.done.inj h)
      exact hboth
    · rw [if_neg hshort]
      refine ⟨fun f' h => ?_, fun runs h => (by cases h)⟩
      obtain rfl := Ctl.again.inj h
      exact hboth

/-- One turn of a poll keeps its locals, on such answers. -/
theorem Locals.turn (h : Locals ws scope filters p) :
    p.turn.Carries (Witnessed ws) (fun _ => True)
      (Upshot (Locals ws scope filters) fun r =>
        ∃ payload, r = .cards payload ∧
          Confined ws scope filters payload) := by
  obtain ⟨hscope, hfilters, hcards, htodo⟩ := h
  have hconf := Locals.confined ⟨hscope, hfilters, hcards, htodo⟩
  unfold Poll.turn
  cases hp : p.todo with
  | tenants rest =>
    rw [hp] at htodo
    cases rest with
    | nil => exact ⟨_, rfl, hconf⟩
    | cons t rest =>
      refine ⟨hscope, hfilters, hcards, ?_⟩
      refine ⟨fun t' ht' => htodo t' (List.mem_cons_of_mem t ht'),
        htodo t List.mem_cons_self, ?_⟩
      intro run hrun
      cases hrun
  | fetching t rest f =>
    rw [hp] at htodo
    obtain ⟨hrest, ht, hruns⟩ := htodo
    refine carries_bind ⟨trivial, fun r hr => ?_⟩
    have hturn := turn_runs hruns hr
    simp only [Prog.Carries]
    cases hstep : f.turn r with
    | again f' => exact ⟨hscope, hfilters, hcards, hrest, ht,
        hturn.1 f' hstep⟩
    | done res =>
      cases res with
      | error e => trivial
      | ok runs =>
        refine carries_bind ⟨trivial, fun _ _ => ?_⟩
        exact ⟨hscope, hfilters, hcards, hrest, ht,
          hturn.2 runs hstep⟩
  | observing t rest runs =>
    rw [hp] at htodo
    obtain ⟨hrest, ht, hruns⟩ := htodo
    cases runs with
    | nil => exact ⟨hscope, hfilters, hcards, hrest⟩
    | cons run runs =>
      have hlater : InHand ws scope t runs :=
        ⟨ht, fun run' h' => hruns run' (List.mem_cons_of_mem run h')⟩
      obtain ⟨htenant, hheld⟩ := hruns run List.mem_cons_self
      dsimp only
      split
      · exact ⟨hscope, hfilters, hcards, hrest, hlater⟩
      · next hshown =>
        refine carries_bind ⟨trivial, fun obs hobs => ?_⟩
        refine ⟨hscope, hfilters, ?_, hrest, hlater⟩
        intro card hcard
        rcases List.mem_append.1 hcard with hold | hnew
        · exact hcards card hold
        · obtain rfl := List.mem_singleton.1 hnew
          have hcolumn : (columnForStage run.stage).isSome := by
            simpa [isShownOnBoard, Option.isSome_iff_ne_none] using hshown
          obtain ⟨column, hcolumn⟩ :=
            Option.isSome_iff_exists.1 hcolumn
          refine ⟨?_, ⟨column, hcolumn, hcolumn⟩, run, obs, rfl,
            hheld, ?_⟩
          · show run.tenantId ∈ scope
            rw [htenant]
            exact ht
          · rw [htenant]
            exact hobs

/-- A request that is not one for cards shows none, and one for cards
starts a poll of its scope. -/
theorem entry_carries {res : Reply → Prop} {good : Poll → Prop} {g : Get}
    {ans : (e : Req) → Resp e → Prop}
    (hplain : ∀ r, (∀ payload, r ≠ .cards payload) → res r)
    (hpoll : ∀ scope now, g.scope identities = .ok scope →
      ans .clock now →
      good
        { scope := scope, filters := g.filters, polledAt := now
          allCards := [], todo := .tenants scope.sorted }) :
    (doGet identities g).Carries ans (fun _ => True) (Upshot good res) := by
  unfold doGet
  split
  · exact hplain _ fun _ h => by cases h
  · split
    · unfold handleCards
      cases hscope : g.scope identities with
      | error e => exact hplain _ fun _ h => by cases h
      | ok scope =>
        exact ⟨trivial, fun now hnow => hpoll scope now hscope hnow⟩
    · split
      · exact hplain _ fun _ h => by cases h
      · exact hplain _ fun _ h => by cases h

theorem mem_page {α : Type} {limit offset : Int} {rows : List α}
    {a : α} (h : a ∈ Db.page limit offset rows) : a ∈ rows := by
  unfold Db.page at h
  dsimp only at h
  split at h
  · exact List.mem_of_mem_drop h
  · exact List.mem_of_mem_drop (List.mem_of_mem_take h)

theorem envelope_ok {rows rows' : List RunRow}
    (h : envelope rows = .ok rows') : rows' = rows := by
  cases rows with
  | nil => cases h
  | cons run rows => exact (Result.ok.inj h).symm

theorem mem_listRuns {db : Db} {t : String} {limit offset : Int}
    {run : RunRow} (h : run ∈ db.listRuns (.text t) none limit offset) :
    run.tenantId = t ∧ run ∈ db.runs := by
  unfold Db.listRuns at h
  split at h
  · cases h
  · have hsorted := mem_page h
    rw [List.mem_insertionSort, List.mem_filter, decide_eq_true_eq] at hsorted
    exact ⟨TenantArg.text.inj hsorted.2.1, hsorted.1⟩

/-- What the registry and the history answer on the way, they are
witnesses of. -/
theorem exec_witnessed {w : World} (hw : Lawful w) (e : Req) (x : Env e)
    (hmem : (w, (exec w e x).1) ∈ ws) : Witnessed ws e (exec w e x).2 := by
  cases e with
  | clock => trivial
  | prune t active => trivial
  | observe t run sighting =>
    refine ⟨_, hmem, rfl, ?_⟩
    show summary run (seen (t, run) (_ :: w.deeds)) = _
    rw [seen, if_pos rfl]
    exact hw.observed.1
  | listRuns t limit offset =>
    intro rows hrows run hrun
    have hlisted : run ∈
        (after w.db x).listRuns (.text t) none limit offset := by
      rw [envelope_ok hrows] at hrun
      exact hrun
    obtain ⟨htenant, hheld⟩ := mem_listRuns hlisted
    exact ⟨htenant, _, hmem, hheld⟩

/-- The locals of a request's poll. -/
def Underway (identities : Identities) (ws : List (World × World)) (g : Get)
    (p : Poll) : Prop :=
  ∃ scope, g.scope identities = .ok scope ∧
    Locals ws scope g.filters p

theorem Confined.reply {g : Get} {payload : Payload}
    (h : Confined ws scope g.filters payload)
    (hscope : g.scope identities = .ok scope) :
    ConfinedReply identities ws g (.cards payload) := by
  intro payload' hr
  obtain rfl := Reply.cards.inj hr
  obtain ⟨hviewed, hcards⟩ := h
  refine ⟨?_, ?_⟩
  · intro t ht
    rw [hviewed, mem_sorted] at ht
    exact scope_confined hscope ht
  · intro card hcard
    obtain ⟨htenant, hkeep, hvouched⟩ := hcards card hcard
    rw [hviewed, mem_sorted]
    exact ⟨htenant, hkeep, hvouched⟩

/-- Whatever other requests and the registry do while a request is
served: its cards are of tenants its identity is authorized for and asked
for, pass its filters, and each was built from a row the registry held at
a step of it and from what the run's own sightings came to at another. -/
theorem served_confined {pid : Pid} {g : Get} {s : State Pid} {r : Reply}
    (hs₀ : (machine identities).Reach Initial cond s₀)
    (h : (machine identities).Serves cond pid g s₀ ws s)
    (hret : s.Returns pid r) : ConfinedReply identities ws g r := by
  have hentry : (doGet identities g).Carries (Witnessed ws)
      (fun _ => True) (Upshot (Underway identities ws g)
        (ConfinedReply identities ws g)) := by
    refine entry_carries (fun r hplain payload hr => ?_) ?_
    · exact absurd hr (hplain payload)
    · intro scope now hscope _
      refine ⟨scope, hscope, rfl, rfl, ?_, fun t ht => mem_sorted.1 ht⟩
      intro card hcard
      cases hcard
  refine h.returned_good hentry (fun p hp => ?_) ?_ hret
  · obtain ⟨scope, hscope, hlocals⟩ := hp
    refine Prog.Carries.mono ?_ hlocals.turn
    intro c hc
    cases c with
    | again p' => exact ⟨scope, hscope, hc⟩
    | done r =>
      obtain ⟨payload, rfl, hconf⟩ := hc
      exact hconf.reply hscope
  · intro s₁ a e x hleads _ _ _ hmem
    exact exec_witnessed (reach_lawful (hs₀.leads hleads)) e x hmem

end Confined

/-- The viewer's second poll, after the run was sent back. -/
theorem served_confined_bounced :
    ∃ (s₀ s : State Unit) (ws : List (World × World)) (r : Reply),
      (machine viewers).Serves (fun _ _ => True) () viewerGet s₀ ws s ∧
      s.Returns () r ∧
      ConfinedReply viewers ws viewerGet r ∧
      ∃ payload, r = .cards payload ∧
        payload.cards.map (fun card => (card.runId, card.bouncedBackAt)) =
          [("later", none), ("docs", none), ("run", some 20)] := by
  obtain ⟨s₀, ws, s, r, hs₀, hserves, hret, htest⟩ := @serves_of_plays
    (fun _ _ => True) (fun _ _ => true) (fun _ _ _ => trivial)
    (viewing 10 [] ++ [.step () .auto]) viewerGet
    ((viewing 20 [.transition "tenant-a" "run" 6 "run-1" .implementation
      "t6" "entry"]).drop 1)
    (fun r => match r with
      | .cards payload =>
        payload.cards.map (fun card => (card.runId, card.bouncedBackAt)) =
          [("later", none), ("docs", none), ("run", some 20)]
      | _ => false) (by decide +kernel)
  refine ⟨s₀, s, ws, r, hserves, hret, served_confined hs₀ hserves hret, ?_⟩
  cases r with
  | cards payload => exact ⟨payload, rfl, of_decide_eq_true htest⟩
  | _ => cases htest

-- ==== exactness

section Exact

variable {identities : Identities} {Pid : Type}
variable {db : Db} {scope : TenantSet} {filters : Filters} {p : Poll}

/-- The registry stands still: nothing is committed between the reads. -/
def Quiet (_ : State Pid) : Act Pid → Prop
  | .step _ (.commits txns) => txns = []
  | _ => True

/-- A tenant's runs, the newest first. -/
def runsOf (db : Db) (t : String) : List RunRow :=
  db.listRuns (.text t) none (-1) 0

/-- Those of them that are not over. -/
def boardOf (db : Db) (t : String) : List RunRow :=
  (runsOf db t).filter fun run => isShownOnBoard run.stage

/-- The runs a board of a scope has, tenant by tenant. -/
def boardRuns (db : Db) (scope : TenantSet) : List RunRow :=
  scope.sorted.flatMap (boardOf db)

/-- What the filters of a request say of a run. -/
def Filters.admits (f : Filters) (run : RunRow) : Bool :=
  (f.repository = none ∨ f.repository = some run.repo) ∧
    (f.team = none ∨ f.team = teamForJiraKey run.jiraKey) ∧
    (f.cloud = none ∨ f.cloud = run.execCloudProvider) ∧
    (f.column = none ∨
      f.column = (columnForStage run.stage).map Column.name)

/-- A run's card. -/
def CardOf (polledAt : Micros) (run : RunRow) (card : Card) : Prop :=
  ∃ obs, card = buildCard run obs polledAt

theorem listRuns_page (t : String) (limit offset : Nat) :
    db.listRuns (.text t) none limit offset =
      ((runsOf db t).drop offset).take limit := by
  unfold runsOf Db.listRuns
  split
  · simp
  · simp [Db.page]

theorem keep_iff_admits {run : RunRow} {card : Card} {polledAt : Micros}
    (h : CardOf polledAt run card) : filters.keep card = filters.admits run := by
  obtain ⟨obs, rfl⟩ := h
  rfl

theorem filter_cards {runs : List RunRow} {cards : List Card}
    {polledAt : Micros} (h : List.Forall₂ (CardOf polledAt) runs cards) :
    List.Forall₂ (CardOf polledAt) (runs.filter filters.admits)
      (applyFilters cards filters) := by
  unfold applyFilters
  induction h with
  | nil => exact .nil
  | @cons run card runs cards hcard _ ih =>
    have hkeep : filters.keep card = filters.admits run :=
      keep_iff_admits hcard
    rw [List.filter_cons, List.filter_cons, hkeep]
    split
    · exact .cons hcard ih
    · exact ih

/-- The answers of a registry that stands still. -/
def Standing (db : Db) : (e : Req) → Resp e → Prop
  | .listRuns t limit offset, r =>
    r = envelope (db.listRuns (.text t) none limit offset)
  | _, _ => True

/-- What is left to show of a registry that stands still. -/
def Todo.left (db : Db) : Todo → List RunRow
  | .tenants rest => rest.flatMap (boardOf db)
  | .fetching t rest _ => boardOf db t ++ rest.flatMap (boardOf db)
  | .observing _ rest runs =>
    (runs.filter fun run => isShownOnBoard run.stage) ++
      rest.flatMap (boardOf db)

/-- A fetch has in hand what is before its offset. -/
def Todo.Paged (db : Db) : Todo → Prop
  | .fetching t _ f => f.runs = (runsOf db t).take f.offset
  | _ => True

/-- The locals of a poll of a registry that stands still: the cards so far
and what is left are all there is. -/
structure Halfway (db : Db) (scope : TenantSet) (filters : Filters)
    (p : Poll) : Prop where
  ofScope : p.scope = scope
  ofFilters : p.filters = filters
  shown : ∃ runs, List.Forall₂ (CardOf p.polledAt) runs p.allCards ∧
    runs ++ p.todo.left db = boardRuns db scope
  paged : p.todo.Paged db

/-- What a reply shows of a registry that stands still. -/
def ExactReply (db : Db) (scope : TenantSet) (filters : Filters)
    (r : Reply) : Prop :=
  ∃ payload, r = .cards payload ∧
    payload.tenantIdsViewed = scope.sorted ∧
    List.Forall₂ (CardOf payload.polledAt)
      ((boardRuns db scope).filter filters.admits) payload.cards

theorem turn_standing {t : String} {f : Fetch}
    (h : f.runs = (runsOf db t).take f.offset) :
    f.turn (envelope (db.listRuns (.text t) none listRunsPageSize f.offset)) =
        .done (.ok (runsOf db t)) ∨
      ∃ f', f.turn (envelope
          (db.listRuns (.text t) none listRunsPageSize f.offset)) =
          .again f' ∧ f'.runs = (runsOf db t).take f'.offset := by
  rw [listRuns_page, turn_envelope, h]
  by_cases hshort :
      (((runsOf db t).drop f.offset).take listRunsPageSize).length <
        listRunsPageSize
  · left
    have hall : ((runsOf db t).drop f.offset).take listRunsPageSize =
        (runsOf db t).drop f.offset := by
      rw [List.length_take] at hshort
      exact List.take_of_length_le (by omega)
    rw [if_pos hshort, hall, List.take_append_drop]
  · right
    refine ⟨_, if_neg hshort, ?_⟩
    exact List.take_add.symm

/-- One turn of a poll of a registry that stands still. -/
theorem Halfway.turn (h : Halfway db scope filters p) :
    p.turn.Carries (Standing db) (fun _ => True)
      (Upshot (Halfway db scope filters) (ExactReply db scope filters)) := by
  obtain ⟨hscope, hfilters, ⟨runs₀, hcards, hleft⟩, hpaged⟩ := h
  unfold Poll.turn
  cases hp : p.todo with
  | tenants rest =>
    rw [hp] at hleft
    cases rest with
    | nil =>
      refine ⟨_, rfl, ?_, ?_⟩
      · rw [← hscope]
        rfl
      · rw [← hleft, ← hfilters]
        have hnone : Todo.left db (.tenants []) = [] := rfl
        rw [hnone, List.append_nil]
        exact filter_cards hcards
    | cons t rest =>
      refine ⟨hscope, hfilters, ⟨runs₀, hcards, ?_⟩, rfl⟩
      rw [← hleft]
      simp [Todo.left]
  | fetching t rest f =>
    rw [hp] at hleft hpaged
    refine carries_bind ⟨trivial, fun r hr => ?_⟩
    obtain rfl : r = _ := hr
    simp only [Prog.Carries]
    rcases turn_standing hpaged with hdone | ⟨f', hagain, hpaged'⟩
    · rw [hdone]
      refine carries_bind ⟨trivial, fun _ _ => ?_⟩
      exact ⟨hscope, hfilters, ⟨runs₀, hcards, hleft⟩, trivial⟩
    · rw [hagain]
      exact ⟨hscope, hfilters, ⟨runs₀, hcards, hleft⟩, hpaged'⟩
  | observing t rest runs =>
    rw [hp] at hleft
    cases runs with
    | nil => exact ⟨hscope, hfilters, ⟨runs₀, hcards, hleft⟩, trivial⟩
    | cons run runs =>
      dsimp only
      by_cases hshown : isShownOnBoard run.stage = false
      · rw [if_pos hshown]
        refine ⟨hscope, hfilters, ⟨runs₀, hcards, ?_⟩, trivial⟩
        rw [← hleft]
        simp [Todo.left, hshown]
      · rw [if_neg hshown]
        refine carries_bind ⟨trivial, fun obs _ => ?_⟩
        refine ⟨hscope, hfilters, ⟨runs₀ ++ [run], ?_, ?_⟩, trivial⟩
        · exact List.rel_append hcards (.cons ⟨obs, rfl⟩ .nil)
        · rw [← hleft]
          simp [Todo.left, hshown]

theorem exec_quiet {s : State Pid} {pid : Pid} {a : Answer} {e : Req}
    {x : Env e} {w : World} (hc : Quiet s (.step pid a))
    (hx : decode e a = some x) :
    (exec w e x).1.db = w.db ∧ Standing w.db e (exec w e x).2 := by
  cases e with
  | clock => exact ⟨rfl, trivial⟩
  | prune t active => exact ⟨rfl, trivial⟩
  | observe t run sighting => exact ⟨rfl, trivial⟩
  | listRuns t limit offset =>
    cases a with
    | auto => cases hx
    | time now => cases hx
    | commits txns =>
      obtain rfl : txns = x := Option.some.inj hx
      obtain rfl : txns = [] := hc
      exact ⟨rfl, rfl⟩

variable [DecidableEq Pid]

theorem leads_db {s₀ s : State Pid}
    (h : (machine identities).Leads Quiet s₀ s) :
    s.world.db = s₀.world.db := by
  induction h with
  | refl => rfl
  | step _ hc happ ih =>
    rw [← ih]
    cases Machine.apply_inv happ with
    | call hp => rfl
    | done hp hprog => rfl
    | again hp hprog => rfl
    | raised hp hprog => rfl
    | op hp hprog hx => exact (exec_quiet hc hx).1
    | crash hp => rfl

/-- A request for cards that nothing is committed beside is answered with
all of its scope: every run that is not over and that its filters let
through, once, tenant by tenant, the newest first. -/
theorem served_exact {pid : Pid} {g : Get} {s₀ s : State Pid}
    {ws : List (World × World)} {r : Reply}
    (h : (machine identities).Serves Quiet pid g s₀ ws s)
    (hret : s.Returns pid r) (hpath : g.path = "/api/cards")
    (hscope : g.scope identities = .ok scope) :
    ExactReply s₀.world.db scope g.filters r := by
  have hentry : (doGet identities g).Carries (Standing s₀.world.db)
      (fun _ => True) (Upshot (Halfway s₀.world.db scope g.filters)
        (ExactReply s₀.world.db scope g.filters)) := by
    unfold doGet handleCards
    rw [hpath, if_neg (by decide), if_pos rfl, hscope]
    refine ⟨trivial, fun now _ => ?_⟩
    exact ⟨rfl, rfl, ⟨[], .nil, rfl⟩, trivial⟩
  refine h.returned_good hentry (fun p hp => hp.turn) ?_ hret
  intro s₁ a e x hleads hc hx _ _
  rw [← leads_db hleads]
  exact (exec_quiet hc hx).2

end Exact

/-- Only the registry's own processes commit; here they do not. -/
def quiet (_ : State Unit) : Act Unit → Bool
  | .step _ (.commits txns) => txns = []
  | _ => true

theorem quiet_sound (s : State Unit) (a : Act Unit)
    (h : quiet s a = true) : Quiet s a := by
  cases a with
  | call p g => trivial
  | crash p => trivial
  | step p ans =>
    cases ans with
    | commits txns => simpa [quiet, Quiet] using h
    | _ => trivial

/-- The viewer asks for the cards of one repository. -/
def repoGet : Get :=
  { viewerGet with query := Dict.ofEntries [("repository", ["repo"])] }

/-- It is shown the two runs there that are not over, the later first. -/
theorem served_exact_fleet :
    ∃ (s₀ s : State Unit) (ws : List (World × World)) (r : Reply),
      (machine viewers).Serves Quiet () repoGet s₀ ws s ∧
      s.Returns () r ∧
      ExactReply s₀.world.db (.one "tenant-a") repoGet.filters r ∧
      ∃ payload, r = .cards payload ∧
        payload.cards.map (·.runId) = ["later", "run"] := by
  obtain ⟨s₀, ws, s, r, -, hserves, hret, htest⟩ := serves_of_plays
    quiet quiet_sound [] repoGet ((viewing 10 []).drop 1)
    (fun r => match r with
      | .cards payload => payload.cards.map (·.runId) = ["later", "run"]
      | _ => false) (by decide +kernel)
  refine ⟨s₀, s, ws, r, hserves, hret,
    served_exact hserves hret rfl (by decide +kernel), ?_⟩
  cases r with
  | cards payload => exact ⟨payload, rfl, of_decide_eq_true htest⟩
  | _ => cases htest

end SdlcOs.Dashboard
