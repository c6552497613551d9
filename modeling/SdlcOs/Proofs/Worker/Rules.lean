/-
Rules for the worker's requests and calls, whatever it is held to.
-/
import SdlcOs.Worker.Poll

namespace SdlcOs.Worker

open Effects
open Orchestrator (Call Reply RunStatus)

/-- What the worker can be held to. -/
abbrev WPact : Type :=
  Host.Pact Env Store Orchestrator.World Call Origin (Frame × RunStatus)

/-- Worker code meets its obligations. -/
abbrev Safe (cfg : Settings) (P : WPact) {α : Type}
    (Q : α → Store → Orchestrator.World → Prop) (m : Code α) (l : Store)
    (w : Orchestrator.World) : Prop :=
  Host.Safe (worker cfg) P Q m l w

section Rules

variable {cfg : Settings} {P : WPact} {α β : Type}
variable {Q : β → Store → Orchestrator.World → Prop}
variable {R : RunStatus → Store → Orchestrator.World → Prop}
variable {l : Store} {w : Orchestrator.World}

theorem safe_ask {e : Req} {f : Resp e → Code β}
    (h : ∀ l', P.rely l l' → P.inv l' w → P.oblige l' w (.own e) ∧
      ∀ x, P.assume l' w e x →
        Safe cfg P Q (f (l'.exec cfg.wording w e x).2)
          (l'.exec cfg.wording w e x).1 w) :
    Safe cfg P Q (ask e >>= f) l w :=
  Host.safe_bind (Host.safe_own h)

theorem safe_expect {r : Reply α} {f : α → Code β}
    (h : ∀ a, r = .returned a → Safe cfg P Q (f a) l w) :
    Safe cfg P Q (expect r >>= f) l w := by
  cases r with
  | returned a => exact h a rfl
  | raised x => exact trivial

theorem safe_call {c : Call} {o : Origin}
    (h : ∀ l', P.rely l l' → P.inv l' w → P.allow l' w c o →
      P.oblige l' w (.call c o) ∧ ∀ l'' w' status,
        P.rely (l'.onCall w c o) l'' → P.guar w w' →
          R status (l''.record (.produced status)) w') :
    Safe cfg P R (call c o) l w := by
  refine Host.safe_bind (Host.safe_call ?_)
  intro l' hrely hinv hallow
  obtain ⟨hob, hk⟩ := h l' hrely hinv hallow
  refine ⟨hob, fun l'' w' r hl hw => ?_⟩
  cases r with
  | ok status => exact hk l'' w' status hl hw
  | error x => exact trivial

theorem safe_defaultAutonomyLevel {fallback : String}
    {f : AutonomyLevel → Code β}
    (h : ∀ level,
      parseLevel (if cfg.autonomyLevel = "" then fallback
        else cfg.autonomyLevel) = some level → Safe cfg P Q (f level) l w) :
    Safe cfg P Q (defaultAutonomyLevel cfg fallback >>= f) l w := by
  unfold defaultAutonomyLevel
  simp only
  split
  · next level hlevel => exact h level hlevel
  · exact trivial

-- ==== quiet requests

/-- A request that writes no pending record. -/
def quiet : Req → Bool
  | .savePending (some _) => false
  | _ => true

/-- A pact that asks nothing of quiet requests. -/
def Lenient (P : WPact) : Prop :=
  ∀ l w e, quiet e = true → P.oblige l w (.own e)

variable (hP : Lenient P)
include hP

theorem safe_any {e : Req} {f : Resp e → Code β} (he : quiet e = true)
    (h : ∀ r l', Safe cfg P Q (f r) l' w) :
    Safe cfg P Q (ask e >>= f) l w :=
  safe_ask fun l' _ _ => ⟨hP l' w e he, fun _ _ => h _ _⟩

theorem safe_finishIssue {outcome : RunOutcome} {f : Unit → Code β}
    (h : ∀ l', Safe cfg P Q (f ()) l' w) :
    Safe cfg P Q (finishIssue cfg outcome >>= f) l w := by
  refine Host.safe_bind ?_
  unfold finishIssue
  split
  · refine safe_any hP rfl fun _ _ => safe_expect fun moved _ => ?_
    cases moved with
    | true => exact h _
    | false => exact safe_any hP rfl fun _ _ => safe_expect fun _ _ => h _
  · exact safe_any hP rfl fun _ _ => safe_expect fun _ _ => h _

theorem safe_assign {assignee : Option String} {f : Unit → Code β}
    (hrefl : P.rely l l)
    (h : ∀ l', P.rely l l' → Safe cfg P Q (f ()) l' w) :
    Safe cfg P Q (assign assignee >>= f) l w := by
  refine Host.safe_bind ?_
  unfold assign
  split
  · exact h l hrefl
  · split
    · exact h l hrefl
    · refine safe_ask fun l' hrely _ => ⟨hP _ _ _ rfl, fun _ _ => ?_⟩
      exact safe_expect fun _ _ => h l' hrely

theorem safe_describedPlan {status : RunStatus}
    {f : Option Orchestrator.PlanArtifact → Code β}
    (h : ∀ plan l', Safe cfg P Q (f plan) l' w) :
    Safe cfg P Q (describedPlan status >>= f) l w := by
  refine Host.safe_bind ?_
  unfold describedPlan
  split
  · exact Host.safe_own fun l' _ _ => ⟨hP _ _ _ rfl, fun _ _ => h _ _⟩
  · exact h none l

theorem safe_settle {site : Site} {outcome : RunOutcome}
    {f : Option RunOutcome → Code β}
    (h : ∀ o l', Safe cfg P Q (f o) l' w) :
    Safe cfg P Q (settle cfg site outcome >>= f) l w := by
  refine Host.safe_bind ?_
  unfold settle
  cases site with
  | once => exact h _ _
  | pickup =>
    simp only
    split
    · exact h _ _
    · exact safe_finishIssue hP fun _ => safe_any hP rfl fun _ _ => h _ _
  | reply =>
    simp only
    split
    · exact h _ _
    · refine safe_finishIssue hP fun _ => ?_
      exact safe_any hP rfl fun _ _ => safe_any hP rfl fun _ _ => h _ _

theorem safe_pollOnce {R : Turn → Store → Orchestrator.World → Prop}
    (hdone : ∀ l', R (.done none) l' w)
    (hstart : ∀ task assignee l',
      Safe cfg P R (startRunAsync cfg task assignee) l' w) :
    Safe cfg P R (pollOnce cfg) l w := by
  refine safe_any hP rfl fun processed _ => safe_any hP rfl fun pending _ => ?_
  refine safe_any hP rfl fun listed _ => safe_expect fun listed _ => ?_
  show Safe cfg P R (if listed = true ∧ _ then _ else _) _ _
  split
  · refine safe_any hP rfl fun story _ => safe_expect fun story _ => ?_
    cases story with
    | none => exact hdone _
    | some task =>
      refine safe_any hP rfl fun _ _ => safe_expect fun _ _ => ?_
      exact safe_any hP rfl fun _ _ => safe_expect fun bot _ =>
        hstart _ _ _
  · exact hdone _

end Rules

end SdlcOs.Worker
