/-
What the batch manager keeps.

`Booked` ties the manager to the stories placed so far: each batch holds
exactly the stories placed under its id, in their order, all of its own
repository, the first of them opened it, and no two batches share an id.
Appending a story and closing a batch both keep it (`append_inv`,
`closeLocked_inv`); a call is one of the first at most and some of the
second (`call_inv`), whether it returns or raises.

How old a batch may be is told from the story that opened it: that is
the time the manager keeps. A story that completed earlier and came later
does not count, a submission looks at its own repository's batch only,
a day is as long as the wall clock has it, and a tripped checkpoint
leaves what is in the batches alone (`batch_left_old`).
-/
import Mathlib.Data.List.Infix
import SdlcOs.Gates.Batching
import SdlcOs.Proofs.Calendar

namespace SdlcOs.Gates.Batching

open Data (DateTime Dict TimeZones)

-- ==== the bookkeeping

/-- A batch holds the stories placed under its id. -/
structure Holds (log : List (Nat × BatchedStory)) (b : Batch) : Prop where
  stories : b.stories = placedIn b.batchId log
  oneRepo : ∀ s ∈ b.stories, s.repo = b.repo
  opener : ∃ s, b.stories.head? = some s ∧ s.completedAt = b.openedAt
  atMostFive : b.stories.length ≤ maxBatchStories

/-- The manager and the stories placed so far. -/
structure Booked (m : BatchManager) (log : List (Nat × BatchedStory)) :
    Prop where
  opens : ∀ repo b, m.openBatches.get repo = some b →
    Holds log b ∧ b.repo = repo ∧ b.batchId < m.nextId
  closeds : ∀ b ∈ m.closedBatches, Holds log b ∧ b.batchId < m.nextId
  openIds : ∀ repo repo' b b', m.openBatches.get repo = some b →
    m.openBatches.get repo' = some b' → b.batchId = b'.batchId → repo = repo'
  apart : ∀ repo b, m.openBatches.get repo = some b →
    ∀ b' ∈ m.closedBatches, b.batchId ≠ b'.batchId
  closedIds : (m.closedBatches.map Batch.batchId).Nodup
  placed : ∀ e ∈ log, ∃ b ∈ m.batches, b.batchId = e.1

/-- No open batch is full. -/
def Small (m : BatchManager) : Prop :=
  ∀ repo b, m.openBatches.get repo = some b →
    b.stories.length < maxBatchStories

variable {zones : TimeZones} {m : BatchManager}
  {log : List (Nat × BatchedStory)}

theorem mem_batches {b : Batch} : b ∈ m.batches ↔
    (∃ repo, m.openBatches.get repo = some b) ∨ b ∈ m.closedBatches := by
  unfold BatchManager.batches
  rw [List.mem_append, Dict.mem_values_iff]

theorem placedIn_snoc_self (id : Nat) (s : BatchedStory) :
    placedIn id (log ++ [(id, s)]) = placedIn id log ++ [s] := by
  unfold placedIn
  rw [List.filter_append, List.map_append,
    List.filter_cons_of_pos (by exact decide_eq_true rfl)]
  rfl

theorem placedIn_snoc_ne {id id' : Nat} (h : id' ≠ id) (s : BatchedStory) :
    placedIn id (log ++ [(id', s)]) = placedIn id log := by
  unfold placedIn
  rw [List.filter_append, List.map_append,
    List.filter_cons_of_neg (by simpa using h), List.filter_nil, List.map_nil,
    List.append_nil]

theorem Holds.snoc {b : Batch} (h : Holds log b) {id : Nat}
    (hne : id ≠ b.batchId) (s : BatchedStory) : Holds (log ++ [(id, s)]) b :=
  { stories := by rw [placedIn_snoc_ne hne]; exact h.stories
    oneRepo := h.oneRepo
    opener := h.opener
    atMostFive := h.atMostFive }

theorem init_inv : Booked .init [] ∧ Small .init :=
  ⟨{ opens := fun _ _ h => by cases h
     closeds := fun _ h => by cases h
     openIds := fun _ _ _ _ h => by cases h
     apart := fun _ _ h => by cases h
     closedIds := List.nodup_nil
     placed := fun _ h => by cases h }, fun _ _ h => by cases h⟩

-- ==== closing

theorem closeLocked_eq {repo : String} {b : Batch}
    (hget : m.openBatches.get repo = some b) (reason : CloseReason)
    (now : DateTime) : ∃ b', b'.batchId = b.batchId ∧ b'.repo = b.repo ∧
      b'.stories = b.stories ∧ b'.openedAt = b.openedAt ∧
      m.closeLocked repo reason now =
        { m with
          openBatches := m.openBatches.erase repo
          closedBatches := m.closedBatches ++ [b'] } := by
  unfold BatchManager.closeLocked
  rw [hget]
  exact ⟨{ b with
    closed := true, closeReason := some reason, closedAt := some now },
    rfl, rfl, rfl, rfl, rfl⟩

theorem get_erase_some {d : Dict String Batch} {repo r : String} {b : Batch}
    (h : (d.erase repo).get r = some b) : r ≠ repo ∧ d.get r = some b := by
  by_cases hr : r = repo
  · rw [hr, Dict.get_erase_self] at h
    cases h
  · rw [Dict.get_erase_ne _ hr] at h
    exact ⟨hr, h⟩

theorem closeLocked_inv (h : Booked m log) {repo : String} {b : Batch}
    (hget : m.openBatches.get repo = some b) (reason : CloseReason)
    (now : DateTime) : Booked (m.closeLocked repo reason now) log := by
  obtain ⟨b', hid, hrepo, hstories, hopened, heq⟩ :=
    closeLocked_eq hget reason now
  obtain ⟨hholds, hb, hlt⟩ := h.opens _ _ hget
  rw [heq]
  refine
    { opens := fun r x hx => h.opens r x (get_erase_some hx).2
      closeds := ?_
      openIds := fun r r' x x' hx hx' =>
        h.openIds r r' x x' (get_erase_some hx).2 (get_erase_some hx').2
      apart := ?_
      closedIds := ?_
      placed := ?_ }
  · intro x hx
    rcases List.mem_append.1 hx with hx | hx
    · exact h.closeds x hx
    · obtain rfl := List.mem_singleton.1 hx
      refine ⟨⟨?_, ?_, ?_, ?_⟩, hid ▸ hlt⟩
      · rw [hstories, hid]
        exact hholds.stories
      · rw [hstories, hrepo]
        exact hholds.oneRepo
      · rw [hstories, hopened]
        exact hholds.opener
      · rw [hstories]
        exact hholds.atMostFive
  · intro r x hx y hy
    obtain ⟨hne, hx⟩ := get_erase_some hx
    rcases List.mem_append.1 hy with hy | hy
    · exact h.apart r x hx y hy
    · rw [List.mem_singleton.1 hy, hid]
      exact fun hsame => hne (h.openIds _ _ _ _ hx hget hsame)
  · rw [List.map_append, List.nodup_append]
    refine ⟨h.closedIds, List.nodup_singleton _, ?_⟩
    intro i hi j hj
    obtain ⟨x, hx, rfl⟩ := List.mem_map.1 hi
    rw [List.mem_singleton.1 hj, hid]
    exact (h.apart _ _ hget x hx).symm
  · intro e he
    obtain ⟨x, hx, hxe⟩ := h.placed e he
    rcases mem_batches.1 hx with ⟨r, hr⟩ | hx
    · by_cases hsame : r = repo
      · rw [hsame, hget] at hr
        refine ⟨b', mem_batches.2 (Or.inr ?_), ?_⟩
        · exact List.mem_append_right _ (List.mem_singleton.2 rfl)
        · rw [hid, Option.some.inj hr, hxe]
      · refine ⟨x, mem_batches.2 (Or.inl ⟨r, ?_⟩), hxe⟩
        show (m.openBatches.erase repo).get r = some x
        rw [Dict.get_erase_ne _ hsame, hr]
    · exact ⟨x, mem_batches.2 (Or.inr (List.mem_append_left _ hx)), hxe⟩

theorem closeLocked_small (h : ∀ r b, r ≠ repo →
      m.openBatches.get r = some b → b.stories.length < maxBatchStories)
    {b : Batch} (hget : m.openBatches.get repo = some b)
    (reason : CloseReason) (now : DateTime) :
    Small (m.closeLocked repo reason now) := by
  obtain ⟨b', _, _, _, _, heq⟩ := closeLocked_eq hget reason now
  rw [heq]
  intro r x hx
  obtain ⟨hne, hx⟩ := get_erase_some hx
  exact h r x hne hx

-- ==== appending

theorem placedIn_fresh (h : Booked m log) : placedIn m.nextId log = [] := by
  unfold placedIn
  rw [List.filter_eq_nil_iff.2, List.map_nil]
  intro e he hid
  obtain ⟨b, hb, hbe⟩ := h.placed e he
  have hlt : b.batchId < m.nextId := by
    rcases mem_batches.1 hb with ⟨r, hr⟩ | hb
    · exact (h.opens _ _ hr).2.2
    · exact (h.closeds _ hb).2
  rw [hbe, of_decide_eq_true hid] at hlt
  exact Nat.lt_irrefl _ hlt

theorem batchFor_cases (m : BatchManager) (repo : String) (now : DateTime) :
    (∃ b, m.openBatches.get repo = some b ∧ m.batchFor repo now = b ∧
      ∀ storyId, (m.append storyId repo now).nextId = m.nextId) ∨
    (m.openBatches.get repo = none ∧
      (m.batchFor repo now).batchId = m.nextId ∧
      (m.batchFor repo now).stories = [] ∧
      (m.batchFor repo now).repo = repo ∧
      (m.batchFor repo now).openedAt = now ∧
      ∀ storyId, (m.append storyId repo now).nextId = m.nextId + 1) := by
  unfold BatchManager.append BatchManager.batchFor
  cases hget : m.openBatches.get repo with
  | none => exact Or.inr ⟨rfl, rfl, rfl, rfl, rfl, fun _ => rfl⟩
  | some b => exact Or.inl ⟨b, rfl, rfl, fun _ => rfl⟩

theorem appended_holds (h : Booked m log) (hsmall : Small m)
    (storyId repo : String) (now : DateTime) :
    Holds (log ++ [((m.appended storyId repo now).batchId,
      ⟨storyId, repo, now⟩)]) (m.appended storyId repo now) ∧
    (m.appended storyId repo now).repo = repo := by
  unfold BatchManager.appended
  rcases batchFor_cases m repo now with ⟨b, hget, hb, _⟩ |
    ⟨_, hid, hnil, hrepo, hopened, _⟩
  · obtain ⟨hholds, hbrepo, _⟩ := h.opens _ _ hget
    rw [hb]
    refine ⟨⟨?_, ?_, ?_, ?_⟩, hbrepo⟩
    · show b.stories ++ _ = placedIn b.batchId _
      rw [placedIn_snoc_self, ← hholds.stories]
    · intro s hs
      rcases List.mem_append.1 hs with hs | hs
      · exact hholds.oneRepo s hs
      · rw [List.mem_singleton.1 hs]
        exact hbrepo.symm
    · obtain ⟨s, hs, hopen⟩ := hholds.opener
      refine ⟨s, ?_, hopen⟩
      show (b.stories ++ _).head? = some s
      rw [List.head?_append, hs]
      rfl
    · show (b.stories ++ _).length ≤ maxBatchStories
      rw [List.length_append]
      exact hsmall _ _ hget
  · refine ⟨⟨?_, ?_, ?_, ?_⟩, hrepo⟩
    · show (m.batchFor repo now).stories ++ _ =
        placedIn (m.batchFor repo now).batchId _
      rw [hid, hnil, placedIn_snoc_self, placedIn_fresh h]
    · intro s hs
      have hs' : s ∈ (m.batchFor repo now).stories ++
        [⟨storyId, repo, now⟩] := hs
      rw [hnil] at hs'
      rw [List.mem_singleton.1 hs']
      exact hrepo.symm
    · refine ⟨⟨storyId, repo, now⟩, ?_, hopened.symm⟩
      show ((m.batchFor repo now).stories ++ _).head? = _
      rw [hnil]
      rfl
    · show ((m.batchFor repo now).stories ++ _).length ≤ maxBatchStories
      rw [hnil]
      exact Nat.le_of_ble_eq_true rfl

theorem appended_fresh (h : Booked m log) (storyId repo : String)
    (now : DateTime) :
    (∀ r b, r ≠ repo → m.openBatches.get r = some b →
      (m.appended storyId repo now).batchId ≠ b.batchId) ∧
    (∀ b ∈ m.closedBatches,
      (m.appended storyId repo now).batchId ≠ b.batchId) ∧
    m.nextId ≤ (m.append storyId repo now).nextId ∧
    (m.appended storyId repo now).batchId <
      (m.append storyId repo now).nextId := by
  unfold BatchManager.appended
  rcases batchFor_cases m repo now with ⟨b, hget, hb, hnext⟩ |
    ⟨_, hid, _, _, _, hnext⟩
  · rw [hb, hnext]
    refine ⟨?_, ?_, Nat.le_refl _, (h.opens _ _ hget).2.2⟩
    · intro r x hr hx hsame
      exact hr (h.openIds _ _ _ _ hget hx hsame).symm
    · intro x hx
      exact h.apart _ _ hget x hx
  · show (∀ r (x : Batch), _ → _ → (m.batchFor repo now).batchId ≠ x.batchId) ∧
      (∀ x ∈ m.closedBatches, (m.batchFor repo now).batchId ≠ x.batchId) ∧
      _ ∧ (m.batchFor repo now).batchId < _
    rw [hid, hnext]
    refine ⟨?_, ?_, Nat.le_succ _, Nat.lt_succ_self _⟩
    · intro r x _ hx hsame
      exact Nat.ne_of_gt (h.opens _ _ hx).2.2 hsame
    · intro x hx hsame
      exact Nat.ne_of_gt (h.closeds _ hx).2 hsame

theorem append_get (m : BatchManager) (storyId repo : String)
    (now : DateTime) (r : String) :
    (m.append storyId repo now).openBatches.get r =
      if r = repo then some (m.appended storyId repo now)
      else m.openBatches.get r := by
  unfold BatchManager.append
  by_cases hr : r = repo
  · rw [if_pos hr, hr, Dict.get_set_self]
  · rw [if_neg hr, Dict.get_set_ne _ hr]

theorem append_inv (h : Booked m log) (hsmall : Small m)
    (storyId repo : String) (now : DateTime) :
    Booked (m.append storyId repo now)
      (log ++ [((m.appended storyId repo now).batchId,
        ⟨storyId, repo, now⟩)]) := by
  obtain ⟨hholds, hrepo⟩ := appended_holds h hsmall storyId repo now
  obtain ⟨hother, hclosed, hle, hlt⟩ := appended_fresh h storyId repo now
  refine
    { opens := ?_, closeds := ?_, openIds := ?_, apart := ?_
      closedIds := h.closedIds, placed := ?_ }
  · intro r b hb
    rw [append_get] at hb
    split at hb
    · next hr =>
      rw [← Option.some.inj hb]
      exact ⟨hholds, hrepo.trans hr.symm, hlt⟩
    · next hr =>
      obtain ⟨hx, hxr, hxlt⟩ := h.opens _ _ hb
      exact ⟨hx.snoc (hother _ _ hr hb) _, hxr, Nat.lt_of_lt_of_le hxlt hle⟩
  · intro b hb
    obtain ⟨hx, hxlt⟩ := h.closeds b hb
    exact ⟨hx.snoc (hclosed b hb) _, Nat.lt_of_lt_of_le hxlt hle⟩
  · intro r r' b b' hb hb' hid
    rw [append_get] at hb hb'
    split at hb
    · next hr =>
      split at hb'
      · next hr' => exact hr.trans hr'.symm
      · next hr' =>
        rw [← Option.some.inj hb] at hid
        exact absurd hid (hother _ _ hr' hb')
    · next hr =>
      split at hb'
      · rw [← Option.some.inj hb'] at hid
        exact absurd hid.symm (hother _ _ hr hb)
      · exact h.openIds _ _ _ _ hb hb' hid
  · intro r b hb b' hb'
    rw [append_get] at hb
    split at hb
    · rw [← Option.some.inj hb]
      exact hclosed b' hb'
    · exact h.apart _ _ hb b' hb'
  · intro e he
    rcases List.mem_append.1 he with he | he
    · obtain ⟨b, hb, hbe⟩ := h.placed e he
      rcases mem_batches.1 hb with ⟨r, hr⟩ | hb
      · by_cases hsame : r = repo
        · -- The batch the story goes to keeps its id.
          rcases batchFor_cases m repo now with ⟨x, hget, hx, _⟩ | ⟨hnone, _⟩
          · refine ⟨m.appended storyId repo now,
              mem_batches.2 (Or.inl ⟨repo, ?_⟩), ?_⟩
            · exact (append_get ..).trans (if_pos rfl)
            · rw [hsame, hget] at hr
              rw [← hbe, ← Option.some.inj hr, ← hx]
              rfl
          · rw [hsame, hnone] at hr
            cases hr
        · refine ⟨b, mem_batches.2 (Or.inl ⟨r, ?_⟩), hbe⟩
          rw [append_get, if_neg hsame, hr]
      · exact ⟨b, mem_batches.2 (Or.inr hb), hbe⟩
    · rw [List.mem_singleton.1 he]
      refine ⟨m.appended storyId repo now,
        mem_batches.2 (Or.inl ⟨repo, ?_⟩), rfl⟩
      exact (append_get ..).trans (if_pos rfl)

-- ==== the calls

theorem reasonToClose_none {b : Batch} {now : DateTime}
    (h : b.reasonToClose zones now = .ok none) :
    b.stories.length < maxBatchStories ∧
      ∃ age, now.minus zones b.openedAt = some age ∧ age < maxBatchAge := by
  unfold Batch.reasonToClose at h
  split at h
  · cases h
  · next hsmall =>
    split at h
    · cases h
    · next age hage =>
      split at h
      · cases h
      · exact ⟨by omega, age, hage, by omega⟩

/-- The rule raises when the batch is not full and its age cannot be
taken. -/
theorem reasonToClose_error {b : Batch} {now : DateTime} {e : CalendarError}
    (h : b.reasonToClose zones now = .error e) :
    b.stories.length < maxBatchStories ∧ e = .typeError ∧
      now.minus zones b.openedAt = none := by
  unfold Batch.reasonToClose at h
  split at h
  · cases h
  · split at h
    · next hsmall hage =>
      cases h
      exact ⟨by omega, rfl, hage⟩
    · cases h

/-- Some repositories' batches were looked at: the rule left them open, or
raised at one of them. -/
def Looked (zones : TimeZones) (now : DateTime) (repos : List String)
    (m : BatchManager) : Option CalendarError → Prop
  | none => ∀ repo ∈ repos, ∀ b, m.openBatches.get repo = some b →
      b.reasonToClose zones now = .ok none
  | some e => ∃ repo ∈ repos, ∃ b, m.openBatches.get repo = some b ∧
      b.reasonToClose zones now = .error e

/-- Closings move batches, without changing what is booked: the ones
closed last are named in what the call returns. -/
structure Closing (m m' : BatchManager) (ids : List Nat) : Prop where
  closeds : ∃ bs, m'.closedBatches = m.closedBatches ++ bs ∧
    bs.map Batch.batchId = ids
  opens : ∀ r b, m'.openBatches.get r = some b →
    m.openBatches.get r = some b

theorem Closing.refl (m : BatchManager) : Closing m m [] :=
  ⟨⟨[], (List.append_nil _).symm, rfl⟩, fun _ _ h => h⟩

theorem Closing.trans {m₁ m₂ m₃ : BatchManager} {ids ids' : List Nat}
    (h : Closing m₁ m₂ ids) (h' : Closing m₂ m₃ ids') :
    Closing m₁ m₃ (ids ++ ids') := by
  obtain ⟨bs, hbs, hids⟩ := h.closeds
  obtain ⟨bs', hbs', hids'⟩ := h'.closeds
  refine ⟨⟨bs ++ bs', ?_, ?_⟩, fun r b hb => h.opens r b (h'.opens r b hb)⟩
  · rw [hbs', hbs, List.append_assoc]
  · rw [List.map_append, hids, hids']

theorem closeLocked_closing {repo : String} {b : Batch}
    (hget : m.openBatches.get repo = some b) (reason : CloseReason)
    (now : DateTime) :
    Closing m (m.closeLocked repo reason now) [b.batchId] := by
  obtain ⟨b', hid, _, _, _, heq⟩ := closeLocked_eq hget reason now
  rw [heq]
  refine ⟨⟨[b'], rfl, ?_⟩, fun r x hx => (get_erase_some hx).2⟩
  rw [List.map_cons, List.map_nil, hid]

/-- What the rest of a sweep finds holds of this repository's batch too,
when that was left open or is open no more. -/
theorem Looked.cons {zones : TimeZones} {now : DateTime} {repo : String}
    {repos : List String} {m m' : BatchManager} {ids : List Nat}
    {e : Option CalendarError} (h : Looked zones now repos m' e)
    (hclose : Closing m m' ids)
    (hfirst : ∀ b, m.openBatches.get repo = some b →
      b.reasonToClose zones now = .ok none) :
    Looked zones now (repo :: repos) m' e := by
  cases e with
  | none =>
    intro r hr b hb
    rcases List.mem_cons.1 hr with rfl | hr
    · exact hfirst b (hclose.opens _ _ hb)
    · exact h r hr b hb
  | some e =>
    obtain ⟨r, hr, b, hb, he⟩ := h
    exact ⟨r, List.mem_cons_of_mem _ hr, b, hb, he⟩

/-- The sweep over some repositories. The induction is on those still to be
looked at. -/
theorem sweep_loop (now : DateTime) (repos : List String) :
    ∀ (m : BatchManager) (ids : List Nat), Booked m log → Small m →
      ∃ m' new e, BatchManager.sweep zones now repos ids m =
          (m', ids ++ new, e) ∧ Booked m' log ∧ Small m' ∧ Closing m m' new ∧
        Looked zones now repos m' e := by
  induction repos with
  | nil =>
    intro m ids h hsmall
    refine ⟨m, [], none, ?_, h, hsmall, Closing.refl m, ?_⟩
    · rw [List.append_nil]
      rfl
    · intro repo hrepo
      cases hrepo
  | cons repo repos ih =>
    intro m ids h hsmall
    rw [BatchManager.sweep]
    cases hget : m.openBatches.get repo with
    | none =>
      obtain ⟨m', new, e, heq, h', hsmall', hclose, hlook⟩ :=
        ih m ids h hsmall
      refine ⟨m', new, e, heq, h', hsmall', hclose,
        hlook.cons hclose fun b hb => ?_⟩
      rw [hget] at hb
      cases hb
    | some b =>
      dsimp only
      cases hreason : b.reasonToClose zones now with
      | error e =>
        refine ⟨m, [], some e, ?_, h, hsmall, Closing.refl m,
          repo, List.mem_cons_self .., b, hget, hreason⟩
        rw [List.append_nil]
      | ok reason =>
        cases reason with
        | none =>
          obtain ⟨m', new, e, heq, h', hsmall', hclose, hlook⟩ :=
            ih m ids h hsmall
          refine ⟨m', new, e, heq, h', hsmall', hclose,
            hlook.cons hclose fun x hx => ?_⟩
          rw [hget] at hx
          rw [← Option.some.inj hx, hreason]
        | some reason =>
          have hclosing := closeLocked_closing hget reason now
          obtain ⟨m', new, e, heq, h', hsmall', hclose, hlook⟩ :=
            ih (m.closeLocked repo reason now) (ids ++ [b.batchId])
              (closeLocked_inv h hget reason now)
              (closeLocked_small (fun r x _ hx => hsmall r x hx) hget
                reason now)
          refine ⟨m', b.batchId :: new, e, ?_, h', hsmall',
            hclosing.trans hclose,
            hlook.cons hclose fun x hx => ?_⟩
          · dsimp only
            rw [heq, List.append_assoc]
            rfl
          · obtain ⟨_, _, _, _, _, heq'⟩ :=
              closeLocked_eq hget reason now
            rw [heq'] at hx
            exact absurd rfl (get_erase_some hx).1

theorem sweep_inv (zones : TimeZones) (h : Booked m log) (hsmall : Small m)
    (clock : DateTime) (now : Option DateTime) :
    ∃ m' ids e, m.sweepAgeBasedClosures zones clock now = (m', ids, e) ∧
      Booked m' log ∧ Small m' ∧ Closing m m' ids ∧
      Looked zones (now.getD clock) m.openBatches.keys m' e := by
  obtain ⟨m', new, e, heq, hinv⟩ :=
    sweep_loop (now.getD clock) m.openBatches.keys m [] h hsmall
  exact ⟨m', new, e, heq, hinv⟩

/-- After a story is placed its repository's batch, if open, was looked
at, and nothing closed if that raised. -/
theorem submit_inv (zones : TimeZones) (h : Booked m log) (hsmall : Small m)
    (clock : DateTime) (a : SubmitArgs) (htripped : a.checkpointTripped = false) :
    ∃ m' closed r, m.submitStory zones clock a = (m', r) ∧
      Booked m' (log ++
        [((m.appended a.storyId a.repo (a.completedAt.getD clock)).batchId,
          ⟨a.storyId, a.repo, a.completedAt.getD clock⟩)]) ∧
      Small m' ∧
      Closing (m.append a.storyId a.repo (a.completedAt.getD clock)) m'
        (if closed then
          [(m.appended a.storyId a.repo (a.completedAt.getD clock)).batchId]
        else []) ∧
      ((r = .ok ⟨a.storyId, a.repo, .batched, none,
            some (m.appended a.storyId a.repo
              (a.completedAt.getD clock)).batchId, closed⟩ ∧
          Looked zones (a.completedAt.getD clock) [a.repo] m' none) ∨
        ∃ e, r = .error e ∧ closed = false ∧
          Looked zones (a.completedAt.getD clock) [a.repo] m' (some e)) := by
  unfold BatchManager.submitStory
  rw [htripped, if_neg Bool.false_ne_true]
  generalize a.completedAt.getD clock = now
  have happend := append_inv h hsmall a.storyId a.repo now
  have hget : (m.append a.storyId a.repo now).openBatches.get a.repo =
      some (m.appended a.storyId a.repo now) :=
    (append_get ..).trans (if_pos rfl)
  have hothers : ∀ r b, r ≠ a.repo →
      (m.append a.storyId a.repo now).openBatches.get r = some b →
      b.stories.length < maxBatchStories := by
    intro r b hr hb
    rw [append_get, if_neg hr] at hb
    exact hsmall r b hb
  -- A batch that stays open stays small.
  have hstays : (m.appended a.storyId a.repo now).stories.length <
      maxBatchStories → Small (m.append a.storyId a.repo now) := by
    intro hlt r b hb
    by_cases hr : r = a.repo
    · rw [hr, hget] at hb
      rw [← Option.some.inj hb]
      exact hlt
    · exact hothers r b hr hb
  cases hreason : (m.appended a.storyId a.repo now).reasonToClose zones now with
  | error e =>
    refine ⟨_, false, _, by simp only [hreason], happend,
      hstays (reasonToClose_error hreason).1, Closing.refl _,
      Or.inr ⟨e, rfl, rfl, a.repo, List.mem_singleton.2 rfl, _, hget,
        hreason⟩⟩
  | ok reason =>
    cases reason with
    | none =>
      refine ⟨_, false, _, by simp only [hreason], happend,
        hstays (reasonToClose_none hreason).1, Closing.refl _,
        Or.inl ⟨rfl, ?_⟩⟩
      intro r hr b hb
      rw [List.mem_singleton.1 hr, hget] at hb
      rw [← Option.some.inj hb, hreason]
    | some reason =>
      refine ⟨_, true, _, by simp only [hreason],
        closeLocked_inv happend hget reason now,
        closeLocked_small hothers hget reason now,
        closeLocked_closing hget reason now, Or.inl ⟨rfl, ?_⟩⟩
      intro r hr b hb
      rw [List.mem_singleton.1 hr] at hb
      obtain ⟨_, _, _, _, _, heq⟩ := closeLocked_eq hget reason now
      rw [heq] at hb
      exact absurd rfl (get_erase_some hb).1

-- ==== the runs

/-- The manager, the stories placed and the batches closed so far. -/
structure Carried (m : BatchManager) (trail : List (Call × Reply)) :
    Prop where
  booked : Booked m (trail.filterMap placed)
  small : Small m
  closings : trail.flatMap closedBy = m.closedBatches.map Batch.batchId
  named : ∀ e ∈ trail, ∀ r, e.2 = .submitted r → r.routed = .batched →
    ∃ id s, r.batchId = some id ∧ placed e = some (id, s)

variable {trail : List (Call × Reply)}

theorem Carried.closings_snoc (h : Carried m trail) {m' : BatchManager}
    {bs : List Batch} {e : Call × Reply}
    (heq : m'.closedBatches = m.closedBatches ++ bs)
    (hids : bs.map Batch.batchId = closedBy e) :
    (trail ++ [e]).flatMap closedBy = m'.closedBatches.map Batch.batchId := by
  rw [List.flatMap_append, h.closings, heq, List.map_append, hids,
    List.flatMap_singleton]

/-- What a call raised, if it did. -/
def Reply.error? : Reply → Option CalendarError
  | .raised _ _ e => some e
  | _ => none

/-- What a call does. -/
structure Called (zones : TimeZones) (m : BatchManager) (c : Call)
    (trail : List (Call × Reply)) : Prop where
  carried : Carried (m.call zones c).1 (trail ++ [(c, (m.call zones c).2)])
  closeds : m.closedBatches <+: (m.call zones c).1.closedBatches
  looked : match c with
    | .submitStory clock a =>
      if a.checkpointTripped then (m.call zones c).1 = m
      else Looked zones (a.completedAt.getD clock) [a.repo]
        (m.call zones c).1 (m.call zones c).2.error?
    | .sweepAgeBasedClosures clock now =>
      (∀ r b, (m.call zones c).1.openBatches.get r = some b →
        m.openBatches.get r = some b) ∧
      Looked zones (now.getD clock) m.openBatches.keys (m.call zones c).1
        (m.call zones c).2.error?

theorem named_snoc (h : Carried m trail) {e : Call × Reply}
    (he : ∀ r, e.2 = .submitted r → r.routed = .batched →
      ∃ id s, r.batchId = some id ∧ placed e = some (id, s)) :
    ∀ e' ∈ trail ++ [e], ∀ r, e'.2 = .submitted r → r.routed = .batched →
      ∃ id s, r.batchId = some id ∧ placed e' = some (id, s) := by
  intro e' he'
  rcases List.mem_append.1 he' with he' | he'
  · exact h.named e' he'
  · rw [List.mem_singleton.1 he']
    exact he

theorem call_returned {clock : DateTime} {a : SubmitArgs} {m' : BatchManager}
    {r : SubmissionResult}
    (h : m.submitStory zones clock a = (m', .ok r)) :
    m.call zones (.submitStory clock a) = (m', .submitted r) := by
  simp only [BatchManager.call, h]

theorem call_raised {clock : DateTime} {a : SubmitArgs} {m' : BatchManager}
    {e : CalendarError}
    (h : m.submitStory zones clock a = (m', .error e)) :
    m.call zones (.submitStory clock a) = (m', .raised
      (some (m.appended a.storyId a.repo (a.completedAt.getD clock)).batchId)
      [] e) := by
  simp only [BatchManager.call, h]

/-- What a sweep replies. -/
def sweptReply (closedIds : List Nat) : Option CalendarError → Reply
  | none => .swept closedIds
  | some e => .raised none closedIds e

theorem call_sweep {clock : DateTime} {now : Option DateTime}
    {m' : BatchManager} {ids : List Nat} {e : Option CalendarError}
    (h : m.sweepAgeBasedClosures zones clock now = (m', ids, e)) :
    m.call zones (.sweepAgeBasedClosures clock now) =
      (m', sweptReply ids e) := by
  cases e with
  | none => simp only [BatchManager.call, h, sweptReply]
  | some e => simp only [BatchManager.call, h, sweptReply]

theorem call_tripped (h : Carried m trail) {clock : DateTime} {a : SubmitArgs}
    (htripped : a.checkpointTripped = true) :
    Called zones m (.submitStory clock a) trail := by
  have hcall : m.call zones (.submitStory clock a) = (m, .submitted
      ⟨a.storyId, a.repo, .individualReview, some "checkpoint", none,
        false⟩) :=
    call_returned (if_pos htripped)
  refine ⟨⟨?_, ?_, ?_, ?_⟩, ?_, ?_⟩
  · rw [hcall, List.filterMap_append]
    show Booked m (_ ++ [])
    rw [List.append_nil]
    exact h.booked
  · rw [hcall]
    exact h.small
  · rw [hcall]
    exact h.closings_snoc (List.append_nil _).symm rfl
  · refine named_snoc h ?_
    intro r hr hbatched
    rw [hcall] at hr
    obtain rfl := Reply.submitted.inj hr
    cases hbatched
  · rw [hcall]
  · show if a.checkpointTripped then _ else _
    rw [htripped, if_pos rfl, hcall]

theorem call_submitted (h : Carried m trail) {clock : DateTime}
    {a : SubmitArgs} (htripped : a.checkpointTripped = false) :
    Called zones m (.submitStory clock a) trail := by
  obtain ⟨m', closed, r, heq, hbooked, hsmall, hclose, hr⟩ :=
    submit_inv zones h.booked h.small clock a htripped
  obtain ⟨bs, hbs, hids⟩ := hclose.closeds
  rcases hr with ⟨rfl, hlook⟩ | ⟨e, rfl, rfl, hlook⟩
  · have hcall : m.call zones (.submitStory clock a) = (m', .submitted
        ⟨a.storyId, a.repo, .batched, none,
          some (m.appended a.storyId a.repo
            (a.completedAt.getD clock)).batchId, closed⟩) :=
      call_returned heq
    refine ⟨⟨?_, ?_, ?_, ?_⟩, ?_, ?_⟩
    · rw [hcall, List.filterMap_append]
      exact hbooked
    · rw [hcall]
      exact hsmall
    · rw [hcall]
      refine h.closings_snoc hbs (hids.trans ?_)
      cases closed <;> rfl
    · refine named_snoc h ?_
      intro r hr hbatched
      rw [hcall] at hr
      obtain rfl := Reply.submitted.inj hr
      exact ⟨_, _, rfl, by rw [hcall]; rfl⟩
    · rw [hcall, hbs]
      exact List.prefix_append _ _
    · show if a.checkpointTripped then _ else _
      rw [htripped, if_neg Bool.false_ne_true, hcall]
      exact hlook
  · have hcall : m.call zones (.submitStory clock a) = (m', .raised
        (some (m.appended a.storyId a.repo
          (a.completedAt.getD clock)).batchId) [] e) :=
      call_raised heq
    refine ⟨⟨?_, ?_, ?_, ?_⟩, ?_, ?_⟩
    · rw [hcall, List.filterMap_append]
      exact hbooked
    · rw [hcall]
      exact hsmall
    · rw [hcall]
      exact h.closings_snoc hbs hids
    · refine named_snoc h ?_
      intro r hr
      rw [hcall] at hr
      cases hr
    · rw [hcall, hbs]
      exact List.prefix_append _ _
    · show if a.checkpointTripped then _ else _
      rw [htripped, if_neg Bool.false_ne_true, hcall]
      exact hlook

theorem call_swept (h : Carried m trail) (clock : DateTime)
    (now : Option DateTime) :
    Called zones m (.sweepAgeBasedClosures clock now) trail := by
  obtain ⟨m', ids, e, heq, hbooked, hsmall, hclose, hlook⟩ :=
    sweep_inv zones h.booked h.small clock now
  obtain ⟨bs, hbs, hids⟩ := hclose.closeds
  have hcall := call_sweep heq
  refine ⟨⟨?_, ?_, ?_, ?_⟩, ?_, ?_⟩
  · rw [hcall, List.filterMap_append]
    show Booked m' (_ ++ [])
    rw [List.append_nil]
    exact hbooked
  · rw [hcall]
    exact hsmall
  · rw [hcall]
    refine h.closings_snoc hbs (hids.trans ?_)
    cases e <;> rfl
  · refine named_snoc h ?_
    intro r hr
    rw [hcall] at hr
    cases e <;> cases hr
  · rw [hcall, hbs]
    exact List.prefix_append _ _
  · show _ ∧ Looked zones (now.getD clock) m.openBatches.keys _ _
    rw [hcall]
    refine ⟨hclose.opens, ?_⟩
    cases e with
    | none => exact hlook
    | some e => exact hlook

theorem call_inv (h : Carried m trail) (c : Call) :
    Called zones m c trail := by
  cases c with
  | submitStory clock a =>
    cases htripped : a.checkpointTripped with
    | true => exact call_tripped h htripped
    | false => exact call_submitted h htripped
  | sweepAgeBasedClosures clock now => exact call_swept h clock now

theorem run_snoc (m : BatchManager) (calls : List Call) (c : Call) :
    m.run zones (calls ++ [c]) =
      (((m.run zones calls).1.call zones c).1,
        (m.run zones calls).2 ++
          [(c, ((m.run zones calls).1.call zones c).2)]) := by
  unfold BatchManager.run
  rw [List.foldl_append]
  rfl

theorem run_carried (zones : TimeZones) (calls : List Call) :
    Carried (BatchManager.init.run zones calls).1
      (BatchManager.init.run zones calls).2 := by
  induction calls using List.reverseRecOn with
  | nil =>
    exact
      { booked := init_inv.1, small := init_inv.2, closings := rfl
        named := fun _ h => by cases h }
  | append_singleton calls c ih =>
    rw [run_snoc]
    exact (call_inv ih c).carried

theorem run_closeds (zones : TimeZones) (calls more : List Call) :
    (BatchManager.init.run zones calls).1.closedBatches <+:
      (BatchManager.init.run zones (calls ++ more)).1.closedBatches := by
  induction more using List.reverseRecOn with
  | nil =>
    rw [List.append_nil]
  | append_singleton more c ih =>
    rw [← List.append_assoc, run_snoc]
    exact ih.trans (call_inv (run_carried zones (calls ++ more)) c).closeds

-- ==== the property

/-- What holds of the batches after any calls. -/
structure Kept (m : BatchManager) (trail : List (Call × Reply)) : Prop where
  distinct : (m.batches.map Batch.batchId).Nodup
  named : ∀ e ∈ trail, ∀ r, e.2 = .submitted r → r.routed = .batched →
    ∃ b ∈ m.batches, r.batchId = some b.batchId
  stories : ∀ b ∈ m.batches,
    b.stories = placedIn b.batchId (trail.filterMap placed)
  oneRepo : ∀ b ∈ m.batches, ∀ s ∈ b.stories, s.repo = b.repo
  atMostFive : ∀ b ∈ m.batches, b.stories.length ≤ 5
  openSmall : ∀ b ∈ m.openBatches.values, b.stories.length < 5
  closings : trail.flatMap closedBy = m.closedBatches.map Batch.batchId

/-- The first story a batch got completed less than a day before a time,
and with it all those that the first is not after. -/
def Young (zones : TimeZones) (now : DateTime) (b : Batch) : Prop :=
  ∃ first, b.stories.head? = some first ∧
    (∃ age, now.minus zones first.completedAt = some age ∧
      age < maxBatchAge) ∧
    ∀ s ∈ b.stories, DateTime.NotAfter zones now.tzinfo first.completedAt
        s.completedAt →
      ∃ age, now.minus zones s.completedAt = some age ∧ age < maxBatchAge

/-- A call raised, at an open batch whose age cannot be taken: one of the
times is naive and the other aware. -/
def Untimed (zones : TimeZones) (now : DateTime) (m : BatchManager)
    (r : Reply) : Prop :=
  r.error? = some .typeError ∧ ∃ b ∈ m.openBatches.values,
    ∃ first, b.stories.head? = some first ∧
      now.minus zones first.completedAt = none

/-- What holds after a call: of the batch a submission went to, of every
open batch when they were swept, of the story of a tripped checkpoint. -/
def AfterCall (zones : TimeZones) (m : BatchManager) (c : Call) (r : Reply)
    (m' : BatchManager) : Prop :=
  match c with
  | .submitStory clock a =>
    if a.checkpointTripped then
      a.storyId ∉ m.openStoryIds → a.storyId ∉ m'.openStoryIds
    else Untimed zones (a.completedAt.getD clock) m' r ∨
      (r.error? = none ∧ ∀ b, m'.openBatches.get a.repo = some b →
        Young zones (a.completedAt.getD clock) b)
  | .sweepAgeBasedClosures clock now =>
    Untimed zones (now.getD clock) m' r ∨
      (r.error? = none ∧ ∀ b ∈ m'.openBatches.values,
        Young zones (now.getD clock) b)

theorem Carried.kept (h : Carried m trail) : Kept m trail := by
  have hholds : ∀ b ∈ m.batches, Holds (trail.filterMap placed) b := by
    intro b hb
    rcases mem_batches.1 hb with ⟨repo, hget⟩ | hb
    · exact (h.booked.opens _ _ hget).1
    · exact (h.booked.closeds _ hb).1
  refine
    { distinct := ?_, named := ?_
      stories := fun b hb => (hholds b hb).stories
      oneRepo := fun b hb => (hholds b hb).oneRepo
      atMostFive := fun b hb => (hholds b hb).atMostFive
      openSmall := ?_, closings := h.closings }
  · unfold BatchManager.batches
    rw [List.map_append, List.nodup_append]
    refine ⟨?_, h.booked.closedIds, ?_⟩
    · exact m.openBatches.nodup_map_values _ h.booked.openIds
    · intro i hi j hj
      obtain ⟨b, hb, rfl⟩ := List.mem_map.1 hi
      obtain ⟨b', hb', rfl⟩ := List.mem_map.1 hj
      obtain ⟨repo, hget⟩ := m.openBatches.mem_values_iff.1 hb
      exact h.booked.apart _ _ hget b' hb'
  · intro e he r hr hbatched
    obtain ⟨id, s, hid, hplaced⟩ := h.named e he r hr hbatched
    obtain ⟨b, hb, hbid⟩ := h.booked.placed _
      (List.mem_filterMap.2 ⟨e, he, hplaced⟩)
    exact ⟨b, hb, by rw [hid, hbid]⟩
  · intro b hb
    obtain ⟨repo, hget⟩ := m.openBatches.mem_values_iff.1 hb
    exact h.small _ _ hget

theorem young_of_looked {log : List (Nat × BatchedStory)} (h : Booked m log)
    {repo : String} {b : Batch} (hget : m.openBatches.get repo = some b)
    {now : DateTime} (hlook : b.reasonToClose zones now = .ok none) :
    Young zones now b := by
  obtain ⟨first, hhead, hopened⟩ := (h.opens _ _ hget).1.opener
  obtain ⟨age, hage, hyoung⟩ := (reasonToClose_none hlook).2
  rw [← hopened] at hage
  refine ⟨first, hhead, ⟨age, hage, hyoung⟩, ?_⟩
  intro s _ hfirst
  -- The order is that of the differences from now; these are taken the
  -- other way round.
  have hswap : first.completedAt.minus zones now = _ :=
    DateTime.minus_swap now first.completedAt
  rw [hage, Option.map_some] at hswap
  rcases DateTime.minus_mono hfirst with ⟨d, e, hd, he, hle⟩ | ⟨hd, -⟩
  · rw [hswap] at hd
    refine ⟨-e, ?_, ?_⟩
    · rw [DateTime.minus_swap s.completedAt now, he, Option.map_some]
    · have := Option.some.inj hd
      omega
  · rw [hswap] at hd
    cases hd

theorem untimed_of_looked {log : List (Nat × BatchedStory)} (h : Booked m log)
    {repos : List String} {now : DateTime} {e : CalendarError} {r : Reply}
    (hr : r.error? = some e) (hlook : Looked zones now repos m (some e)) :
    Untimed zones now m r := by
  obtain ⟨repo, -, b, hget, hreason⟩ := hlook
  obtain ⟨-, rfl, hage⟩ := reasonToClose_error hreason
  obtain ⟨first, hhead, hopened⟩ := (h.opens _ _ hget).1.opener
  rw [← hopened] at hage
  exact ⟨hr, b, (Dict.mem_values_iff _).2 ⟨repo, hget⟩, first, hhead, hage⟩

theorem call_after (h : Carried m trail) (c : Call) :
    AfterCall zones m c (m.call zones c).2 (m.call zones c).1 := by
  have hcalled : Called zones m c trail := call_inv h c
  have hbooked := hcalled.carried.booked
  have hlook := hcalled.looked
  unfold AfterCall
  cases c with
  | submitStory clock a =>
    show if a.checkpointTripped then _ else _
    have hlook : if a.checkpointTripped then _ else _ := hlook
    split
    · next htripped =>
      rw [if_pos htripped] at hlook
      rw [hlook]
      exact id
    · next htripped =>
      rw [if_neg htripped] at hlook
      cases hr : (m.call zones (.submitStory clock a)).2.error? with
      | none =>
        rw [hr] at hlook
        refine Or.inr ⟨rfl, fun b hb => ?_⟩
        exact young_of_looked hbooked hb
          (hlook a.repo (List.mem_singleton.2 rfl) b hb)
      | some e =>
        rw [hr] at hlook
        exact Or.inl (untimed_of_looked hbooked hr hlook)
  | sweepAgeBasedClosures clock now =>
    obtain ⟨hopens, hlook⟩ := hlook
    cases hr : (m.call zones (.sweepAgeBasedClosures clock now)).2.error?
      with
    | none =>
      rw [hr] at hlook
      refine Or.inr ⟨rfl, fun b hb => ?_⟩
      obtain ⟨repo, hget⟩ := (Dict.mem_values_iff _).1 hb
      exact young_of_looked hbooked hget
        (hlook repo (Dict.mem_keys_of_get (hopens _ _ hget)) b hget)
    | some e =>
      rw [hr] at hlook
      exact Or.inl (untimed_of_looked hbooked hr hlook)

/-- After any calls every story placed is in one batch only, of its own
repository, of at most five; batches close once, keep what they closed
with, and none is left open full, or old when it was looked at. -/
theorem batches_kept (zones : TimeZones) (calls : List Call) :
    Kept (BatchManager.init.run zones calls).1
      (BatchManager.init.run zones calls).2 ∧
    (∀ more, (BatchManager.init.run zones calls).1.closedBatches <+:
      (BatchManager.init.run zones (calls ++ more)).1.closedBatches) ∧
    ∀ c, AfterCall zones (BatchManager.init.run zones calls).1 c
      ((BatchManager.init.run zones calls).1.call zones c).2
      (BatchManager.init.run zones (calls ++ [c])).1 := by
  have hcarried := run_carried zones calls
  refine ⟨hcarried.kept, run_closeds zones calls, ?_⟩
  intro c
  rw [run_snoc]
  exact call_after hcarried c

/-- Some hours into the second of November 2024, in New York. -/
def clock (hours minutes : Int) : DateTime :=
  ⟨1730505600000000 + (hours * 60 + minutes) * 60000000, false, some 1⟩

/-- A story completed then. -/
def storyAt (storyId repo : String) (tripped : Bool) (hours : Int) : Call :=
  .submitStory (clock 0 0) ⟨storyId, repo, tripped, some (clock hours 0)⟩

/-- A story of a batch a day old or more by the instants. -/
def LeftOld (calls : List Call) (repo : String) (now : DateTime) : Prop :=
  ∃ b ∈ (BatchManager.init.run autumn calls).1.openBatches.get repo,
    ∃ s ∈ b.stories,
      maxBatchAge ≤ now.utc autumn - s.completedAt.utc autumn

instance (calls : List Call) (repo : String) (now : DateTime) :
    Decidable (LeftOld calls repo now) :=
  inferInstanceAs (Decidable (∃ b ∈
    (BatchManager.init.run autumn calls).1.openBatches.get repo, _))

/-- A submission leaves another repository's old batch open, a story that
completed before the one that opened the batch grows older than a day in
it, a sweep leaves a batch open for the hour by which the wall clock was
set back, and a checkpoint that trips later leaves its story in the
batch. -/
theorem batch_left_old :
    LeftOld [storyAt "A" "app" false 0, storyAt "B" "billing" false 24] "app"
      (clock 24 0) ∧
    LeftOld [storyAt "A" "app" false 1, storyAt "B" "app" false 0,
      .sweepAgeBasedClosures (clock 24 0) none] "app" (clock 24 0) ∧
    LeftOld [storyAt "A" "app" false 12,
      .sweepAgeBasedClosures (clock 35 30) none] "app" (clock 35 30) ∧
    "A" ∈ (BatchManager.init.run autumn [storyAt "A" "app" false 0,
      storyAt "A" "app" true 0]).1.openStoryIds := by
  decide +kernel

end SdlcOs.Gates.Batching
