/-
Batched review (gates/batching.py).

One lock guards the manager, so calls are taken one after another. A
batch's id is a number no batch had. The age of a batch is a difference
of datetimes, as Python takes it; where it cannot be taken the call
raises, with what it did until then done.
-/
import SdlcOs.Gates.Escalation

namespace SdlcOs.Gates.Batching

open Data (DateTime Dict TimeZones)

/-- `MAX_BATCH_STORIES`. -/
def maxBatchStories : Nat := 5

/-- `MAX_BATCH_AGE`, in microseconds. -/
def maxBatchAge : Int := 24 * 3600 * 1000000

/-- `BatchedStory`. -/
structure BatchedStory where
  storyId : String
  repo : String
  completedAt : DateTime
  deriving DecidableEq, Repr

/-- Why a batch closed. -/
inductive CloseReason : Type where
  | size
  | age
  deriving DecidableEq, Repr

/-- `Batch`. -/
structure Batch where
  batchId : Nat
  repo : String
  openedAt : DateTime
  stories : List BatchedStory
  closed : Bool
  closeReason : Option CloseReason
  closedAt : Option DateTime
  deriving DecidableEq, Repr

/-- Where a story goes. -/
inductive Routed : Type where
  | batched
  | individualReview
  deriving DecidableEq, Repr

/-- `SubmissionResult`. -/
structure SubmissionResult where
  storyId : String
  repo : String
  routed : Routed
  reason : Option String
  batchId : Option Nat
  batchClosed : Bool
  deriving DecidableEq, Repr

/-- The arguments of `submit_story`. -/
structure SubmitArgs where
  storyId : String
  repo : String
  checkpointTripped : Bool
  completedAt : Option DateTime

/-- `BatchManager`: `_open` by repository, `_closed`, and the next id. -/
structure BatchManager where
  openBatches : Dict String Batch
  closedBatches : List Batch
  nextId : Nat

/-- `_close_reason_locked`. -/
def Batch.reasonToClose (zones : TimeZones) (batch : Batch)
    (now : DateTime) : Except CalendarError (Option CloseReason) :=
  if maxBatchStories ≤ batch.stories.length then .ok (some .size)
  else match now.minus zones batch.openedAt with
    | none => .error .typeError
    | some age => .ok (if maxBatchAge ≤ age then some .age else none)

namespace BatchManager

variable (zones : TimeZones) (m : BatchManager)

/-- A manager just built. -/
def init : BatchManager := ⟨.empty, [], 0⟩

/-- `_close_locked`. Its callers have just read the repository's batch. -/
def closeLocked (repo : String) (reason : CloseReason) (now : DateTime) :
    BatchManager :=
  match m.openBatches.get repo with
  | none => m
  | some batch =>
    { m with
      openBatches := m.openBatches.erase repo
      closedBatches := m.closedBatches ++
        [{ batch with
           closed := true, closeReason := some reason
           closedAt := some now }] }

/-- The repository's open batch, or the one a story opens. -/
def batchFor (repo : String) (now : DateTime) : Batch :=
  (m.openBatches.get repo).getD
    { batchId := m.nextId, repo := repo, openedAt := now, stories := []
      closed := false, closeReason := none, closedAt := none }

/-- That batch with a story appended. -/
def appended (storyId repo : String) (now : DateTime) : Batch :=
  { m.batchFor repo now with
    stories := (m.batchFor repo now).stories ++ [⟨storyId, repo, now⟩] }

/-- `submit_story` up to its check whether the batch closes. -/
def append (storyId repo : String) (now : DateTime) : BatchManager :=
  { m with
    openBatches := m.openBatches.set repo (m.appended storyId repo now)
    nextId := match m.openBatches.get repo with
      | none => m.nextId + 1
      | some _ => m.nextId }

/-- `submit_story`. -/
def submitStory (clock : DateTime) (a : SubmitArgs) :
    BatchManager × Except CalendarError SubmissionResult :=
  let now := a.completedAt.getD clock
  if a.checkpointTripped then
    (m, .ok ⟨a.storyId, a.repo, .individualReview, some "checkpoint", none,
      false⟩)
  else
    let batch := m.appended a.storyId a.repo now
    match batch.reasonToClose zones now with
    | .error e => (m.append a.storyId a.repo now, .error e)
    | .ok none =>
      (m.append a.storyId a.repo now,
        .ok ⟨a.storyId, a.repo, .batched, none, some batch.batchId, false⟩)
    | .ok (some reason) =>
      ((m.append a.storyId a.repo now).closeLocked a.repo reason now,
        .ok ⟨a.storyId, a.repo, .batched, none, some batch.batchId, true⟩)

/-- The loop of `sweep_age_based_closures`: the ids closed so far, and
what it raises, if anything. -/
def sweep (current : DateTime) : List String → List Nat → BatchManager →
    BatchManager × List Nat × Option CalendarError
  | [], closedIds, m => (m, closedIds, none)
  | repo :: repos, closedIds, m =>
    match m.openBatches.get repo with
    | none => sweep current repos closedIds m
    | some batch =>
      match batch.reasonToClose zones current with
      | .error e => (m, closedIds, some e)
      | .ok none => sweep current repos closedIds m
      | .ok (some reason) =>
        sweep current repos (closedIds ++ [batch.batchId])
          (m.closeLocked repo reason current)

/-- `sweep_age_based_closures`, with the ids it closed also where it
raises. -/
def sweepAgeBasedClosures (clock : DateTime) (now : Option DateTime) :
    BatchManager × List Nat × Option CalendarError :=
  sweep zones (now.getD clock) m.openBatches.keys [] m

/-- Every batch there is. -/
def batches : List Batch := m.openBatches.values ++ m.closedBatches

/-- The stories waiting in open batches. -/
def openStoryIds : List String :=
  m.openBatches.values.flatMap fun batch => batch.stories.map (·.storyId)

end BatchManager

-- ==== sequences

/-- A call, with what the clock shows. -/
inductive Call : Type where
  | submitStory (clock : DateTime) (a : SubmitArgs)
  | sweepAgeBasedClosures (clock : DateTime) (now : Option DateTime)

/-- What a call returns, or raises. A submission that raises has put its
story in a batch, and a sweep that raises has closed some: with what they
raise stand the ids of these. -/
inductive Reply : Type where
  | submitted (r : SubmissionResult)
  | swept (closedIds : List Nat)
  | raised (batchId : Option Nat) (closedIds : List Nat) (e : CalendarError)
  deriving DecidableEq, Repr

/-- A call. -/
def BatchManager.call (zones : TimeZones) (m : BatchManager) :
    Call → BatchManager × Reply
  | .submitStory clock a =>
    match m.submitStory zones clock a with
    | (m', .ok r) => (m', .submitted r)
    | (m', .error e) =>
      (m', .raised (some (m.appended a.storyId a.repo
        (a.completedAt.getD clock)).batchId) [] e)
  | .sweepAgeBasedClosures clock now =>
    match m.sweepAgeBasedClosures zones clock now with
    | (m', closedIds, none) => (m', .swept closedIds)
    | (m', closedIds, some e) => (m', .raised none closedIds e)

/-- Calls one after another, and what they returned or raised. -/
def BatchManager.run (zones : TimeZones) (m : BatchManager)
    (calls : List Call) : BatchManager × List (Call × Reply) :=
  calls.foldl (fun p c =>
    ((p.1.call zones c).1, p.2 ++ [(c, (p.1.call zones c).2)])) (m, [])

/-- The story a call put in a batch, with the batch's id. -/
def placed : Call × Reply → Option (Nat × BatchedStory)
  | (.submitStory clock a, .submitted r) =>
    r.batchId.map fun id =>
      (id, ⟨a.storyId, a.repo, a.completedAt.getD clock⟩)
  | (.submitStory clock a, .raised batchId _ _) =>
    batchId.map fun id =>
      (id, ⟨a.storyId, a.repo, a.completedAt.getD clock⟩)
  | _ => none

/-- The stories put in a batch, in the order they came. -/
def placedIn (id : Nat) (l : List (Nat × BatchedStory)) : List BatchedStory :=
  (l.filter (·.1 = id)).map Prod.snd

/-- The batches a call closed. -/
def closedBy : Call × Reply → List Nat
  | (_, .submitted r) => if r.batchClosed then r.batchId.toList else []
  | (_, .swept closedIds) => closedIds
  | (_, .raised _ closedIds _) => closedIds

end SdlcOs.Gates.Batching
