/-
Replies and the pauses they answer.

# What a record identifies

A pending record names its pause by kind and stage, and the comments
that may answer it by the id of its own notification. Both can be wrong:
a notification that could not be posted leaves the record without an id,
so that any older comment answers it; and a decision that took effect
before its tick came to an end leaves the record of the pause before, so
that its comment answers the next pause of the same kind and stage.

# Why it is right otherwise

A row of the registry is never had again once its version is passed
(`Conc.Later`), so a pause is told by the run's row. Comment ids grow,
so a notification is past every comment read before it (`Kept.after`):
one comment cannot answer the pause it was read for and, later, one
whose notification came before it.
-/
import SdlcOs.Effects.Monitor
import SdlcOs.Proofs.Conc.Rows
import SdlcOs.Proofs.Worker.Rules
import SdlcOs.Worker.Script

namespace SdlcOs.Worker

open Effects
open Orchestrator (Call PauseKind PlanArtifact Reply Run RunStatus)
open Orchestrator.Conc (Later)
open Registry (Stage)

namespace Replies

-- ==== vocabulary

/-- The worker's log, read for the notifications in it: a decision read
in a comment is passed on only at a row a notification was posted for,
and before the comment. -/
def replies : Monitor (List (Nat × Run)) Event where
  init := []
  advance := fun m ev =>
    match ev with
    | .notified id row => (id, row) :: m
    | _ => m
  allowed := fun m ev =>
    match ev with
    | .called _ (.reply c) row _ => ∃ id, (id, row) ∈ m ∧ id < c.id
    | _ => True

/-- Every reply was applied to the pause it answers, and no comment
decided two pauses. -/
structure Answered (log : List Event) : Prop where
  own : replies.Accepts log
  once : ∀ c d row plan c' d' row' plan',
    Event.called c (.reply d) row plan ∈ log →
    Event.called c' (.reply d') row' plan' ∈ log → d.id = d'.id → row = row'

/-- The pending record carries the id of its notification, and the run
is still at the pause the record was written for. -/
def upToDate (s : State) : Bool :=
  match s.store.pending with
  | some record =>
    record.lastSeenCommentId.isSome &&
      decide (s.store.noted = some s.below.world.run)
  | none => false

/-- The moves under which replies are applied as they should be: whenever
a reply's decision is about to be passed on, the pending record is up to
date. -/
def prompt (s : State) : Act → Bool
  | .proceed =>
    match s.prog, s.below.procs () with
    | some (.op (.call _ (.reply _)) _), none => upToDate s
    | _, _ => true
  | _ => true

/-- The move meets the condition. -/
def Prompt (s : State) (a : Act) : Prop := prompt s a = true

-- ==== the invariant

/-- A row the log shows the run at. -/
def Shown (log : List Event) (row : Run) : Prop :=
  (∃ id, Event.notified id row ∈ log) ∨
    ∃ c o plan, Event.called c o row plan ∈ log

/-- What the store keeps, whatever the machine below does. -/
structure Kept (l : Store) (w : Orchestrator.World) : Prop where
  sorted : l.comments.Pairwise fun c c' => c.id < c'.id
  posted : ∀ id row, Event.notified id row ∈ l.log →
    ∃ body, Comment.mk id body ∈ l.comments
  heard : ∀ c d row plan, Event.called c (.reply d) row plan ∈ l.log →
    d ∈ l.comments
  rows : ∀ row, Shown l.log row → Later row w.run
  same : ∀ row row', Shown l.log row → Shown l.log row' →
    row.version = row'.version → row = row'
  pending : ∀ record id, l.pending = some record →
    record.lastSeenCommentId = some id →
      ∃ row, l.noted = some row ∧ Event.notified id row ∈ l.log
  after : ∀ c d row plan id row',
    Event.called c (.reply d) row plan ∈ l.log →
    Event.notified id row' ∈ l.log → row.version < row'.version → d.id < id
  own : replies.Accepts l.log

theorem mem_state {log : List Event} {id : Nat} {row : Run} :
    (id, row) ∈ replies.state log ↔ Event.notified id row ∈ log := by
  induction log using List.reverseRecOn with
  | nil => constructor <;> intro h <;> cases h
  | append_singleton log ev ih =>
    rw [Monitor.state_snoc, List.mem_append, List.mem_singleton]
    cases ev with
    | notified id' row' =>
      show (id, row) ∈ (id', row') :: replies.state log ↔ _
      rw [List.mem_cons, ih, Prod.mk.injEq, Event.notified.injEq]
      exact or_comm
    | _ => simpa [replies] using ih

theorem notified_of_accepts {log : List Event} (h : replies.Accepts log)
    {c : Call} {d : Comment} {row : Run} {plan : Option PlanArtifact}
    (hmem : Event.called c (.reply d) row plan ∈ log) :
    ∃ id, Event.notified id row ∈ log ∧ id < d.id := by
  obtain ⟨pre, post, rfl⟩ := List.append_of_mem hmem
  obtain ⟨id, hid, hlt⟩ := h pre _ post rfl
  exact ⟨id, List.mem_append_left _ (mem_state.1 hid), hlt⟩

theorem Kept.answered {l : Store} {w : Orchestrator.World} (h : Kept l w) :
    Answered l.log := by
  have hle : ∀ c d row plan c' d' row' plan',
      Event.called c (.reply d) row plan ∈ l.log →
      Event.called c' (.reply d') row' plan' ∈ l.log → d.id = d'.id →
        ¬ row.version < row'.version := by
    intro c d row plan c' d' row' plan' hc hc' hid hlt
    obtain ⟨id, hnote, hbefore⟩ := notified_of_accepts h.own hc'
    have hafter := h.after c d row plan id row' hc hnote hlt
    omega
  refine ⟨h.own, fun c d row plan c' d' row' plan' hc hc' hid => ?_⟩
  have h₁ := hle c d row plan c' d' row' plan' hc hc' hid
  have h₂ := hle c' d' row' plan' c d row plan hc' hc hid.symm
  exact h.same row row' (Or.inr ⟨c, _, plan, hc⟩) (Or.inr ⟨c', _, plan', hc'⟩)
    (by omega)

-- ==== what moves keep

variable {l : Store} {w w' : Orchestrator.World}

theorem lt_nextId (h : l.comments.Pairwise fun c c' => c.id < c'.id)
    {c : Comment} (hc : c ∈ l.comments) : c.id < l.nextId := by
  unfold Store.nextId
  rcases List.eq_nil_or_concat l.comments with hnil | ⟨cs, last, hcs⟩
  · rw [hnil] at hc
    cases hc
  · rw [List.concat_eq_append] at hcs
    rw [hcs, List.getLast?_append]
    show c.id < last.id + 1
    rw [hcs] at h hc
    rcases List.mem_append.1 hc with hold | hlast
    · have := (List.pairwise_append.1 h).2.2 c hold last (List.mem_singleton_self _)
      omega
    · rw [List.mem_singleton.1 hlast]
      omega

theorem sorted_comment (h : l.comments.Pairwise fun c c' => c.id < c'.id)
    (gap : Nat) (body : String) :
    (l.comment gap body).comments.Pairwise fun c c' => c.id < c'.id := by
  refine List.pairwise_append.2 ⟨h, List.pairwise_singleton _ _, ?_⟩
  intro c hc c' hc'
  rw [List.mem_singleton.1 hc']
  have := lt_nextId h hc
  show c.id < l.nextId + gap
  omega

theorem Kept.comment (h : Kept l w) (gap : Nat) (body : String) :
    Kept (l.comment gap body) w where
  sorted := sorted_comment h.sorted gap body
  posted := by
    intro id row hid
    obtain ⟨b, hb⟩ := h.posted id row hid
    exact ⟨b, List.mem_append_left _ hb⟩
  heard := fun c d row plan hc =>
    List.mem_append_left _ (h.heard c d row plan hc)
  rows := h.rows
  same := h.same
  pending := h.pending
  after := h.after
  own := h.own

theorem Kept.later (h : Kept l w) (hw : Later w.run w'.run) : Kept l w' :=
  { h with rows := fun row hrow => (h.rows row hrow).trans hw }

theorem shown_snoc {log : List Event} {ev : Event} {row : Run}
    (h : Shown (log ++ [ev]) row) :
    Shown log row ∨ (∃ id, ev = .notified id row) ∨
      ∃ c o plan, ev = .called c o row plan := by
  rcases h with ⟨id, hid⟩ | ⟨c, o, plan, hc⟩
  · rcases List.mem_append.1 hid with hold | hnew
    · exact Or.inl (Or.inl ⟨id, hold⟩)
    · exact Or.inr (Or.inl ⟨id, (List.mem_singleton.1 hnew).symm⟩)
  · rcases List.mem_append.1 hc with hold | hnew
    · exact Or.inl (Or.inr ⟨c, o, plan, hold⟩)
    · exact Or.inr (Or.inr ⟨c, o, plan, (List.mem_singleton.1 hnew).symm⟩)

/-- An event that shows the run at all shows it at its row. -/
def AtRow (w : Orchestrator.World) (ev : Event) : Prop :=
  ∀ row, (∃ id, ev = .notified id row) ∨ (∃ c o plan, ev = .called c o row plan) →
    row = w.run

theorem Kept.rows_snoc (h : Kept l w) {ev : Event} (hev : AtRow w ev) :
    (∀ row, Shown (l.log ++ [ev]) row → Later row w.run) ∧
      ∀ row row', Shown (l.log ++ [ev]) row → Shown (l.log ++ [ev]) row' →
        row.version = row'.version → row = row' := by
  have hrows : ∀ row, Shown (l.log ++ [ev]) row →
      Shown l.log row ∨ row = w.run := fun row hrow =>
    (shown_snoc hrow).imp_right (hev row)
  refine ⟨fun row hrow => ?_, fun row row' hrow hrow' hv => ?_⟩
  · rcases hrows row hrow with hold | rfl
    · exact h.rows row hold
    · exact Later.refl _
  · rcases hrows row hrow with hold | rfl
    · rcases hrows row' hrow' with hold' | rfl
      · exact h.same row row' hold hold' hv
      · exact ((h.rows row hold).same hv.symm).symm
    · rcases hrows row' hrow' with hold' | rfl
      · exact (h.rows row' hold').same hv
      · rfl

theorem Kept.quiet (h : Kept l w) {ev : Event}
    (hnote : ∀ id row, ev ≠ .notified id row)
    (hcall : ∀ c o row plan, ev ≠ .called c o row plan) :
    Kept (l.record ev) w := by
  have hnoted : ∀ {id row}, Event.notified id row ∈ l.log ++ [ev] →
      Event.notified id row ∈ l.log := by
    intro id row hid
    rcases List.mem_append.1 hid with hold | hnew
    · exact hold
    · exact absurd (List.mem_singleton.1 hnew).symm (hnote id row)
  have hcalled : ∀ {c o row plan}, Event.called c o row plan ∈ l.log ++ [ev] →
      Event.called c o row plan ∈ l.log := by
    intro c o row plan hc
    rcases List.mem_append.1 hc with hold | hnew
    · exact hold
    · exact absurd (List.mem_singleton.1 hnew).symm (hcall c o row plan)
  have hat : AtRow w ev := by
    rintro row (⟨id, hid⟩ | ⟨c, o, plan, hc⟩)
    · exact absurd hid (hnote id row)
    · exact absurd hc (hcall c o row plan)
  obtain ⟨hrows, hsame⟩ := h.rows_snoc hat
  refine ⟨h.sorted, fun id row hid => h.posted id row (hnoted hid),
    fun c d row plan hc => h.heard c d row plan (hcalled hc), hrows, hsame,
    fun record id hr hid => ?_,
    fun c d row plan id row' hc hid => h.after c d row plan id row' (hcalled hc)
      (hnoted hid), ?_⟩
  · obtain ⟨row, hrow, hmem⟩ := h.pending record id hr hid
    exact ⟨row, hrow, List.mem_append_left _ hmem⟩
  · refine Monitor.accepts_snoc.2 ⟨h.own, ?_⟩
    cases ev with
    | called c o row plan => exact absurd rfl (hcall c o row plan)
    | _ => exact trivial

theorem Kept.notify (h : Kept l w) (gap : Nat) (body : String) :
    Kept ((l.comment gap body).record (.notified (l.nextId + gap) w.run))
      w := by
  have hk := h.comment gap body
  have hat : AtRow w (.notified (l.nextId + gap) w.run) := by
    rintro row (⟨id, hid⟩ | ⟨c, o, plan, hc⟩)
    · injection hid with _ hrow
      exact hrow.symm
    · cases hc
  have hcalled : ∀ {c o row plan}, Event.called c o row plan ∈
      l.log ++ [.notified (l.nextId + gap) w.run] →
        Event.called c o row plan ∈ l.log := by
    intro c o row plan hc
    rcases List.mem_append.1 hc with hold | hnew
    · exact hold
    · cases List.mem_singleton.1 hnew
  obtain ⟨hrows, hsame⟩ := hk.rows_snoc hat
  refine ⟨hk.sorted, ?_, fun c d row plan hc => hk.heard c d row plan
    (hcalled hc), hrows, hsame, fun record id hr hid => ?_, ?_,
    Monitor.accepts_snoc.2 ⟨h.own, trivial⟩⟩
  · intro id row hid
    rcases List.mem_append.1 hid with hold | hnew
    · exact hk.posted id row hold
    · injection List.mem_singleton.1 hnew with hid' _
      refine ⟨body, ?_⟩
      rw [hid']
      exact List.mem_append_right _ (List.mem_singleton_self _)
  · obtain ⟨row, hrow, hmem⟩ := hk.pending record id hr hid
    exact ⟨row, hrow, List.mem_append_left _ hmem⟩
  · intro c d row plan id row' hc hid hlt
    rcases List.mem_append.1 hid with hold | hnew
    · exact hk.after c d row plan id row' (hcalled hc) hold hlt
    · injection List.mem_singleton.1 hnew with hid' _
      have := lt_nextId h.sorted (h.heard c d row plan (hcalled hc))
      omega

/-- A call is made: a reply's, only after a notification at this row. -/
theorem Kept.call (h : Kept l w) {c : Call} {o : Origin}
    (hob : ∀ d, o = .reply d → d ∈ l.comments ∧
      ∃ id, Event.notified id w.run ∈ l.log ∧ id < d.id) :
    Kept (l.record (.called c o w.run w.plans.latest)) w := by
  have hat : AtRow w (.called c o w.run w.plans.latest) := by
    rintro row (⟨id, hid⟩ | ⟨c', o', plan, hc⟩)
    · cases hid
    · injection hc with _ _ hrow _
      exact hrow.symm
  have hnoted : ∀ {id row}, Event.notified id row ∈
      l.log ++ [.called c o w.run w.plans.latest] →
        Event.notified id row ∈ l.log := by
    intro id row hid
    rcases List.mem_append.1 hid with hold | hnew
    · exact hold
    · cases List.mem_singleton.1 hnew
  obtain ⟨hrows, hsame⟩ := h.rows_snoc hat
  refine ⟨h.sorted, fun id row hid => h.posted id row (hnoted hid), ?_, hrows,
    hsame, fun record id hr hid => ?_, ?_, ?_⟩
  · intro c' d row plan hc
    rcases List.mem_append.1 hc with hold | hnew
    · exact h.heard c' d row plan hold
    · injection List.mem_singleton.1 hnew with _ ho _ _
      exact (hob d ho.symm).1
  · obtain ⟨row, hrow, hmem⟩ := h.pending record id hr hid
    exact ⟨row, hrow, List.mem_append_left _ hmem⟩
  · intro c' d row plan id row' hc hid hlt
    rcases List.mem_append.1 hc with hold | hnew
    · exact h.after c' d row plan id row' hold (hnoted hid) hlt
    · -- every notification so far was at this row or an older one
      injection List.mem_singleton.1 hnew with _ _ hrow _
      have hle := (h.rows row' (Or.inl ⟨id, hnoted hid⟩)).version
      rw [hrow] at hlt
      omega
  · refine Monitor.accepts_snoc.2 ⟨h.own, ?_⟩
    cases o with
    | reply d =>
      obtain ⟨_, id, hid, hlt⟩ := hob d rfl
      exact ⟨id, mem_state.2 hid, hlt⟩
    | _ => exact trivial

-- ==== the pact

/-- What the outside does to a store: comments are added. -/
def Grown (l l' : Store) : Prop :=
  ∃ more, l' = { l with comments := l.comments ++ more }

/-- What the worker is held to. -/
def pact : WPact where
  inv := Kept
  allow := fun l w _ o =>
    match o with
    | .reply _ => ∃ record id, l.pending = some record ∧
        record.lastSeenCommentId = some id ∧ l.noted = some w.run
    | _ => True
  oblige := fun l w task =>
    match task with
    | .own (.savePending (some record)) =>
      ∀ id, record.lastSeenCommentId = some id →
        Event.notified id w.run ∈ l.log
    | .call _ (.reply d) => d ∈ l.comments ∧
        ∃ id, Event.notified id w.run ∈ l.log ∧ id < d.id
    | _ => True
  rely := Grown
  guar := fun w w' => Later w.run w'.run

theorem Grown.refl (l : Store) : Grown l l :=
  ⟨[], by rw [List.append_nil]⟩

theorem Grown.trans {l l' l'' : Store} (h : Grown l l') (h' : Grown l' l'') :
    Grown l l'' := by
  obtain ⟨more, rfl⟩ := h
  obtain ⟨more', rfl⟩ := h'
  exact ⟨more ++ more', by rw [List.append_assoc]⟩

theorem kept_land (wording : Notice → String) (n : Notice)
    (landed : Option Nat) (h : Kept l w) :
    Kept (l.land wording w.run n landed) w := by
  cases landed with
  | none => exact h
  | some gap =>
    cases n with
    | paused status plan => exact h.notify gap _
    | _ => exact h.comment gap _

theorem kept_exec {cfg : Settings} {e : Req} {x : Env e} (h : Kept l w)
    (hob : pact.oblige l w (.own e)) :
    Kept (l.exec cfg.wording w e x).1 w := by
  cases e with
  | resolve status =>
    cases x with
    | returned decision =>
      exact h.quiet (fun _ _ he => by cases he) fun _ _ _ _ he => by cases he
    | raised x => exact h
  | listComments =>
    cases x with
    | returned b => cases b <;> exact h
    | raised x => exact h
  | postComment n =>
    cases x with
    | ok gap => exact kept_land cfg.wording n (some gap) h
    | refused landed => exact kept_land cfg.wording n landed h
    | raised landed x => exact kept_land cfg.wording n landed h
  | transitionStatus target n => exact kept_land cfg.wording n x.1 h
  | savePending record =>
    cases record with
    | none => exact { h with pending := fun _ _ hr _ => by cases hr }
    | some record =>
      refine { h with pending := fun record' id hr hid => ?_ }
      obtain rfl := Option.some.inj hr
      exact ⟨w.run, rfl, hob id hid⟩
  | markProcessed =>
    exact ⟨h.sorted, h.posted, h.heard, h.rows, h.same, h.pending, h.after,
      h.own⟩
  | _ => exact h

theorem kept_onCall {c : Call} {o : Origin} (h : Kept l w)
    (hob : pact.oblige l w (.call c o)) : Kept (l.onCall w c o) w := by
  have hcall : Kept (l.record (.called c o w.run w.plans.latest)) w := by
    refine h.call fun d ho => ?_
    subst ho
    exact hob
  unfold Store.onCall
  split
  · exact ⟨hcall.sorted, hcall.posted, hcall.heard, hcall.rows, hcall.same,
      hcall.pending, hcall.after, hcall.own⟩
  · exact hcall

theorem pact_sound (ocfg : Orchestrator.Config) (cfg : Settings) :
    pact.Sound (Orchestrator.machine ocfg) (worker cfg) where
  rely_refl := Grown.refl
  rely_trans := fun _ _ _ => Grown.trans
  guar_refl := fun w => Later.refl w.run
  guar_trans := fun _ _ _ => Later.trans
  outside := fun l o => ⟨_, rfl⟩
  exec := Orchestrator.Conc.exec_later
  onCall := fun w _ => Later.refl w.run
  onStop := fun w => Later.refl w.run
  inv_outside := fun _ _ o h => h.comment o.gap o.text
  inv_guar := fun _ _ _ h hw => h.later hw
  inv_accept := by
    intro l w c l' h haccept
    simp only [worker] at haccept
    split at haccept
    · cases haccept
    · obtain rfl := Option.some.inj haccept
      exact h
  inv_own := fun _ _ _ _ h hob _ => kept_exec h hob
  inv_call := fun _ _ _ _ h hob => kept_onCall h hob
  inv_return := by
    intro l w c r h
    cases r with
    | ok status =>
      exact h.quiet (fun _ _ he => by cases he) fun _ _ _ _ he => by cases he
    | error x => exact h
  callOk := fun _ _ _ _ _ => trivial

-- ==== programs

section Programs

variable {cfg : Settings} {β : Type}

theorem lenient : Lenient pact := by
  intro l w e he
  cases e with
  | savePending record =>
    cases record with
    | none => exact trivial
    | some record => cases he
  | _ => exact trivial

theorem safe_calls {c : Call} {o : Origin} {f : RunStatus → Code β}
    {Q : β → Store → Orchestrator.World → Prop} (ho : ∀ d, o ≠ .reply d)
    (h : ∀ status l' w', Safe cfg pact Q (f status) l' w') :
    Safe cfg pact Q (call c o >>= f) l w := by
  refine Host.safe_bind (safe_call fun l' _ _ _ =>
    ⟨?_, fun _ _ _ _ _ => h _ _ _⟩)
  cases o with
  | reply d => exact absurd rfl (ho d)
  | _ => exact trivial

theorem notified_of_posted {wording : Notice → String} {status : RunStatus}
    {plan : Option PlanArtifact} {x : Posting} {id : Nat}
    (h : (l.exec wording w (.postComment (.paused status plan)) x).2 =
      .returned (some id)) :
    Event.notified id w.run ∈
      (l.exec wording w (.postComment (.paused status plan)) x).1.log := by
  cases x with
  | ok gap =>
    injection h with h
    obtain rfl := Option.some.inj h
    exact List.mem_append_right _ (List.mem_singleton_self _)
  | refused landed =>
    injection h with h
    cases h
  | raised landed x => cases h

theorem safe_onPause {env : Environment} {assignee : Option String}
    {status : RunStatus} {Q : Unit → Store → Orchestrator.World → Prop}
    (h : ∀ l', Q () l' w) :
    Safe cfg pact Q (onPause env assignee status) l w := by
  unfold onPause
  refine safe_describedPlan lenient fun plan l₁ => ?_
  refine safe_ask fun l₂ _ _ => ⟨trivial, fun x _ => ?_⟩
  refine safe_expect fun lastSeen hposted => ?_
  have hnote : ∀ id, lastSeen = some id → Event.notified id w.run ∈
      (l₂.exec cfg.wording w (.postComment (.paused status plan)) x).1.log := by
    intro id hid
    rw [hid] at hposted
    exact notified_of_posted hposted
  refine safe_assign lenient (Grown.refl _) fun l₃ hrely₃ => ?_
  refine Host.safe_own fun l₄ hrely₄ _ => ⟨fun id hid => ?_, fun _ _ => h _⟩
  obtain ⟨more, rfl⟩ := hrely₃.trans hrely₄
  exact hnote id hid

theorem safe_resolver {f : Frame} {status : RunStatus}
    {Q : Option String → Store → Orchestrator.World → Prop}
    (h : ∀ d l', Q d l' w) : Safe cfg pact Q (f.resolver status) l w := by
  have hasync : Safe cfg pact Q (asyncResolve f.env f.assignee status) l w :=
    Host.safe_bind (safe_onPause fun _ => h _ _)
  unfold Frame.resolver
  cases f.site with
  | once =>
    refine safe_ask fun l' _ _ => ⟨trivial, fun x _ => ?_⟩
    cases x with
    | raised x => exact trivial
    | returned decision => exact h _ _
  | pickup => exact hasync
  | reply => exact hasync

theorem safe_autoDecision {level : AutonomyLevel} {status : RunStatus}
    {Q : Option String → Store → Orchestrator.World → Prop}
    (h : ∀ d l', Q d l' w) :
    Safe cfg pact Q (autoDecision level status) l w := by
  unfold autoDecision
  split
  · split
    · refine safe_any lenient rfl fun artifact l' => ?_
      split
      · exact h none l'
      · exact h (some "approve") l'
    · split
      · split
        · exact h none l
        · exact h (some "approve") l
      · exact h none l
  · exact h none l

theorem safe_driveDecision {f : Frame} {status : RunStatus}
    {Q : Option String → Store → Orchestrator.World → Prop}
    (h : ∀ d l', Q d l' w) :
    Safe cfg pact Q (driveDecision f.level f.resolver status) l w := by
  refine Host.safe_bind (safe_autoDecision fun auto l' => ?_)
  cases auto with
  | none => exact safe_resolver h
  | some d => exact h _ _

theorem safe_passDecision {level : AutonomyLevel} {status : RunStatus}
    {d : String} {Q : RunStatus → Store → Orchestrator.World → Prop}
    (h : ∀ status' l' w', Q status' l' w') :
    Safe cfg pact Q (passDecision level status d) l w := by
  have hcall : ∀ c, Safe cfg pact Q (call c (.drive level)) l w := fun c =>
    safe_call fun _ _ _ _ => ⟨trivial, fun _ _ _ _ _ => h _ _ _⟩
  unfold passDecision
  split
  · split
    · exact hcall _
    · split
      · exact hcall _
      · exact trivial
  · exact hcall _
  · exact trivial

theorem safe_driveTurn {f : Frame} {status : RunStatus}
    {Q : Ctl RunStatus RunOutcome → Store → Orchestrator.World → Prop}
    (h : ∀ ctl l' w', Q ctl l' w') :
    Safe cfg pact Q (driveTurn f.level f.resolver status) l w := by
  unfold driveTurn
  split
  · refine Host.safe_bind (safe_driveDecision fun decision l' => ?_)
    cases decision with
    | none => exact h _ _ _
    | some d =>
      refine Host.safe_bind (safe_passDecision fun status' l' w' => ?_)
      show Safe cfg pact Q (if abandons d then _ else _) l' w'
      split
      · exact h _ _ _
      · exact h _ _ _
  · exact safe_any lenient rfl fun _ _ => h _ _ _

-- ==== a reply

theorem newestDecision_inv {record : Record} {comments : List Comment}
    {c : Comment} {d : String}
    (h : record.newestDecision comments = some (c, d)) :
    c ∈ comments ∧ record.lastSeen < c.id := by
  obtain ⟨c', hmem, hd⟩ := List.exists_of_findSome?_eq_some h
  obtain ⟨d', _, heq⟩ := Option.map_eq_some_iff.1 hd
  injection heq with hc _
  subst hc
  rw [List.mem_reverse] at hmem
  obtain ⟨hmem, hlt⟩ := List.mem_filter.1 hmem
  exact ⟨hmem, of_decide_eq_true hlt⟩

theorem listed_inv {wording : Notice → String} {x : Reply Bool}
    {comments : List Comment}
    (h : (l.exec wording w .listComments x).2 = .returned (some comments)) :
    (l.exec wording w .listComments x).1 = l ∧ comments = l.comments := by
  cases x with
  | returned b =>
    cases b with
    | true =>
      injection h with h
      exact ⟨rfl, (Option.some.inj h).symm⟩
    | false =>
      injection h with h
      cases h
  | raised x => cases h

/-- The tick goes by the issue's record, and read its decision in a
comment past the last seen one. -/
structure Holds (record : Record) (c : Comment) (l : Store) : Prop where
  pending : l.pending = some record
  listed : c ∈ l.comments
  past : record.lastSeen < c.id

theorem Holds.grown {record : Record} {c : Comment} {l l' : Store}
    (h : Holds record c l) (hl : Grown l l') : Holds record c l' := by
  obtain ⟨more, rfl⟩ := hl
  exact ⟨h.pending, List.mem_append_left _ h.listed, h.past⟩

theorem Holds.onCall {record : Record} {c : Comment} {l : Store}
    (h : Holds record c l) (cl : Call) (o : Origin) :
    Holds record c (l.onCall w cl o) := by
  unfold Store.onCall
  split
  · exact ⟨h.pending, h.listed, h.past⟩
  · exact ⟨h.pending, h.listed, h.past⟩

theorem Holds.obliged {record : Record} {c : Comment} (h : Holds record c l)
    (hinv : Kept l w) (hallow : ∃ record id, l.pending = some record ∧
      record.lastSeenCommentId = some id ∧ l.noted = some w.run) :
    c ∈ l.comments ∧ ∃ id, Event.notified id w.run ∈ l.log ∧ id < c.id := by
  obtain ⟨record', id, hpend, hid, hnoted⟩ := hallow
  obtain rfl : record = record' :=
    Option.some.inj (h.pending.symm.trans hpend)
  obtain ⟨row, hrow, hnote⟩ := hinv.pending record id hpend hid
  obtain rfl : row = w.run := Option.some.inj (hrow.symm.trans hnoted)
  refine ⟨h.listed, id, hnote, ?_⟩
  have hlt := h.past
  rw [Record.lastSeen, hid] at hlt
  exact Int.ofNat_lt.1 hlt

theorem safe_passReply {record : Record} {c : Comment} {d : String}
    {status : RunStatus} {Q : RunStatus → Store → Orchestrator.World → Prop}
    (hheld : Holds record c l) (h : ∀ status' l' w', Q status' l' w') :
    Safe cfg pact Q (passReply record c d status) l w := by
  have hcall : ∀ cl, Safe cfg pact Q (call cl (.reply c)) l w := fun cl =>
    safe_call fun l' hrely hinv hallow =>
      ⟨(hheld.grown hrely).obliged hinv hallow, fun _ _ _ _ _ => h _ _ _⟩
  unfold passReply
  split
  · split
    · exact hcall _
    · split
      · exact hcall _
      · exact trivial
  · exact hcall _

theorem safe_resumePausedRunAsync {record : Record} {c : Comment} {d : String}
    {assignee : Option String}
    {Q : Ctl (Frame × RunStatus) RunOutcome → Store → Orchestrator.World →
      Prop}
    (hheld : Holds record c l) (h : ∀ ctl l' w', Q ctl l' w') :
    Safe cfg pact Q (resumePausedRunAsync cfg record c d assignee) l w := by
  unfold resumePausedRunAsync
  refine safe_ask fun l₁ hrely₁ _ => ⟨trivial, fun x _ => ?_⟩
  refine safe_expect fun env _ => ?_
  refine Host.safe_bind (safe_call fun l₂ hrely₂ _ _ => ⟨trivial, ?_⟩)
  intro l₃ w₁ status hrely₃ _
  split
  · have hheld₃ : Holds record c (l₃.record (.produced status)) := by
      have hh := (((hheld.grown hrely₁).grown hrely₂).onCall _ _).grown hrely₃
      exact ⟨hh.pending, hh.listed, hh.past⟩
    refine Host.safe_bind (safe_passReply hheld₃ fun status' l' w' => ?_)
    show Safe cfg pact _ (if abandons d then _ else _) l' w'
    split
    · exact h _ _ _
    · exact safe_defaultAutonomyLevel fun _ _ => h _ _ _
  · exact safe_defaultAutonomyLevel fun _ _ => h _ _ _

theorem safe_entry (c : Entry) :
    Safe cfg pact (Host.Post fun _ _ _ => True) (entry cfg c) l w := by
  have hdone : ∀ (ctl : Turn) (l' : Store) (w' : Orchestrator.World),
      Host.Post (fun _ _ _ => True) ctl l' w' := by
    intro ctl l' w'
    cases ctl <;> exact trivial
  have hstart : ∀ {task : String} {assignee : Option String} {l' : Store},
      Safe cfg pact (Host.Post fun _ _ _ => True)
        (startRunAsync cfg task assignee) l' w := by
    intro task assignee l'
    refine safe_any lenient rfl fun _ _ => safe_expect fun env _ => ?_
    refine safe_calls (fun _ h => by cases h) fun status l₁ w₁ => ?_
    exact safe_defaultAutonomyLevel fun _ _ => hdone _ _ _
  cases c with
  | runOnce task =>
    refine safe_any lenient rfl fun _ _ => safe_expect fun env _ => ?_
    refine safe_calls (fun _ h => by cases h) fun status l₁ w₁ => ?_
    exact safe_defaultAutonomyLevel fun _ _ => hdone _ _ _
  | pollOnce =>
    exact safe_pollOnce lenient (fun _ => trivial) fun _ _ _ => hstart
  | checkPendingDecisions =>
    refine safe_ask fun l₁ _ _ => ⟨trivial, fun x _ => ?_⟩
    have hread : (l₁.exec cfg.wording w .loadPending x).2 = l₁.pending := rfl
    rw [hread]
    cases hpend : l₁.pending with
    | none => exact trivial
    | some record =>
      refine safe_ask fun l₂ hrely₂ _ => ⟨trivial, fun x _ => ?_⟩
      refine safe_expect fun bot _ => ?_
      refine safe_ask fun l₃ hrely₃ _ => ⟨trivial, fun x' _ => ?_⟩
      refine safe_expect fun comments hlisted => ?_
      cases comments with
      | none => exact trivial
      | some comments =>
        dsimp only
        split
        · exact trivial
        · next c d hnew =>
          obtain ⟨hstore, rfl⟩ := listed_inv hlisted
          obtain ⟨hmem, hpast⟩ := newestDecision_inv hnew
          have hheld : Holds record c
              (l₃.exec cfg.wording w .listComments x').1 := by
            obtain ⟨more₂, rfl⟩ := hrely₂
            obtain ⟨more₃, rfl⟩ := hrely₃
            rw [hstore]
            exact ⟨hpend, hmem, hpast⟩
          refine Host.safe_bind (safe_resumePausedRunAsync hheld ?_)
          intro ctl l' w'
          cases ctl with
          | again t => exact trivial
          | done outcome =>
            exact safe_settle lenient fun _ _ => trivial

theorem safe_body {t : Frame × RunStatus} :
    Safe cfg pact (Host.Post fun _ _ _ => True) (body cfg t) l w := by
  refine Host.safe_bind (safe_driveTurn fun ctl l' w' => ?_)
  cases ctl with
  | again status => exact trivial
  | done outcome => exact safe_settle lenient fun _ _ => trivial

end Programs

-- ==== the runs

theorem prompt_meets (cfg : Settings) :
    Host.Meets (worker cfg) pact Prompt where
  own := fun _ _ _ _ _ _ _ _ => trivial
  call := by
    intro s c o k hc hp hnone
    cases o with
    | reply d =>
      unfold Prompt at hc
      simp only [prompt, hp, hnone] at hc
      unfold upToDate at hc
      split at hc
      · next record hpend =>
        obtain ⟨hid, hrow⟩ := (Bool.and_eq_true _ _).mp hc
        obtain ⟨id, hid⟩ := Option.isSome_iff_exists.1 hid
        exact ⟨record, id, hpend, hid, of_decide_eq_true hrow⟩
      · cases hc
    | _ => exact trivial
  turn := fun _ _ _ _ => trivial

theorem kept_initial {ocfg : Orchestrator.Config} (h : Initial ocfg l w) :
    Kept l w := by
  obtain ⟨hsorted, hpend, _, _, hlog, _, _⟩ := h
  have hno : ∀ ev, ev ∉ l.log := by
    intro ev hev
    rw [hlog] at hev
    cases hev
  have hnone : ∀ row, ¬ Shown l.log row := by
    rintro row (⟨id, hid⟩ | ⟨c, o, plan, hc⟩)
    · exact hno _ hid
    · exact hno _ hc
  refine ⟨hsorted, fun _ _ h => absurd h (hno _),
    fun _ _ _ _ h => absurd h (hno _), fun row h => absurd h (hnone row),
    fun row _ h => absurd h (hnone row), fun record id hr => ?_,
    fun _ _ _ _ _ _ h => absurd h (hno _), ?_⟩
  · rw [hpend] at hr
    cases hr
  · rw [hlog]
    exact Monitor.accepts_nil

/-- In every run in which a reply is passed on only while the pending
record is up to date, every reply is applied to the pause it answers, and
no comment decides two pauses. -/
theorem replies_answered (ocfg : Orchestrator.Config) (cfg : Settings)
    {s : State} (hs : Reach ocfg cfg Prompt s) : Answered s.store.log :=
  have hstart : ∀ l w, Initial ocfg l w →
      pact.inv l w ∧ Orchestrator.Initial ocfg w :=
    fun _ _ h => ⟨kept_initial h, h.2.2.2.2.2.2⟩
  (Host.Reach.settled (pact_sound ocfg cfg) hstart (prompt_meets cfg)
    (fun _ _ c _ _ _ => safe_entry c) (fun _ _ _ _ _ _ _ _ => safe_body)
    hs).inv.answered

/-- The condition is needed: where no notification was posted for the
pause the run is at, a reply that is passed on answers none. -/
theorem unanswered_of_unnotified {ocfg : Orchestrator.Config}
    {cfg : Settings} {s s' : State} {c : Call} {d : Comment}
    {k : Except Orchestrator.Err RunStatus → Code Turn}
    (hp : s.prog = some (.op (.call c (.reply d)) k))
    (hnone : s.below.procs () = none)
    (hno : ∀ id, Event.notified id s.below.world.run ∉ s.store.log)
    (h : (worker cfg).apply (Orchestrator.machine ocfg) .proceed s = some s') :
    ¬ Answered s'.store.log := by
  intro hans
  have hlog : s'.store.log = s.store.log ++
      [.called c (.reply d) s.below.world.run s.below.world.plans.latest] := by
    cases Host.apply_inv h with
    | ended hp' =>
      rw [hp] at hp'
      cases hp'
    | again hp' =>
      rw [hp] at hp'
      cases hp'
    | raised hp' =>
      rw [hp] at hp'
      cases hp'
    | returned _ hpr _ =>
      rw [hnone] at hpr
      cases hpr
    | called hp' _ _ =>
      rw [hp] at hp'
      obtain ⟨⟨rfl, rfl⟩, _⟩ : (_ ∧ _) ∧ _ := by
        injection hp' with hp'
        injection hp' with htask hk
        injection htask with hc ho
        exact ⟨⟨hc, ho⟩, hk⟩
      rfl
  have hown := hans.own
  rw [hlog] at hown
  obtain ⟨id, hid, _⟩ := (Monitor.accepts_snoc.1 hown).2
  exact hno id (mem_state.1 hid)

/-- The poller starts a run that strays at its first subtask; the pause is
notified and answered, and a tick is about to pass the answer on. -/
def answeredRun : List Act :=
  Sample.picked ++ Sample.authored [Orchestrator.Sample.task "t1",
      Orchestrator.Sample.task "t2"] ++
    Sample.approved ++ Sample.strayed "src/other.py" "c1" ++
    Sample.notified ++ [.outside ⟨0, "Continue."⟩] ++ Sample.ticked

/-- The last event of a state's log is a reply's call. -/
def lastReply (s : State) : Bool :=
  match s.store.log.getLast? with
  | some (.called _ (.reply _) _ _) => true
  | _ => false

theorem replies_answered_ticked :
    ∃ s, Reach Orchestrator.Sample.cfg (Sample.settings "") Prompt s ∧
      lastReply s = true ∧ Answered s.store.log := by
  obtain ⟨s, hs, htest⟩ := reach_of_plays (Sample.settings "")
    Sample.initial_sample prompt (fun _ _ h => h) (answeredRun ++ [.proceed])
    lastReply (by decide +kernel)
  exact ⟨s, hs, htest,
    replies_answered Orchestrator.Sample.cfg (Sample.settings "") hs⟩

/-- The second subtask strays too, its notification raises, and the next
tick reads the comment of the first pause again. -/
def repeatedRun : List Act :=
  answeredRun ++ [.proceed] ++ stepping 1 ++ [.below (.time 0)] ++
    stepping 8 ++ Sample.strayed "src/third.py" "c2" ++
    [.proceed, .own (.posting (.raised none ⟨"Timeout", "read timed out"⟩)),
      .proceed] ++ Sample.ticked ++ [.proceed]

/-- The last event of a state's log is a reply's call that no
notification at its row came before. -/
def lastUnanswered (s : State) : Bool :=
  match s.store.log.getLast? with
  | some (.called _ (.reply _) row _) =>
    (replies.state s.store.log.dropLast).all fun m => decide (m.2 ≠ row)
  | _ => false

theorem not_accepts_of_lastUnanswered {s : State}
    (h : lastUnanswered s = true) : ¬ replies.Accepts s.store.log := by
  unfold lastUnanswered at h
  split at h
  · next c d row plan hlast =>
    intro hacc
    obtain ⟨pre, hlog⟩ := List.getLast?_eq_some_iff.1 hlast
    rw [hlog] at hacc h
    rw [List.dropLast_concat] at h
    obtain ⟨id, hid, _⟩ := (Monitor.accepts_snoc.1 hacc).2
    exact of_decide_eq_true (List.all_eq_true.1 h _ hid) rfl
  · cases h

/-- A comment decides the checkpoint it was written for, and then the
next one of the same stage, which was never notified. -/
theorem reply_repeated :
    ∃ s, Reach Orchestrator.Sample.cfg (Sample.settings "") (fun _ _ => True)
        s ∧ ¬ Answered s.store.log := by
  obtain ⟨s, hs, htest⟩ := reach_of_plays (Sample.settings "")
    Sample.initial_sample (fun _ _ => true) (fun _ _ _ => trivial) repeatedRun
    lastUnanswered (by decide +kernel)
  exact ⟨s, hs, fun hans => not_accepts_of_lastUnanswered htest hans.own⟩

end Replies

end SdlcOs.Worker
