/-
The registry row under interference.

Every mutating registry call is guarded by the version its caller last
read, and every one that lands bumps it. So a row a process holds is
either the stored one or an old one, told apart by the version
(`Later`): a write under a held row's version lands on that very row.
The graph adds that planning is never re-entered, which `append_attempt`
respects too.
-/
import SdlcOs.Proofs.Conc.Paths

namespace SdlcOs.Orchestrator

open Effects
open Registry (Stage Result ErrorInfo)

namespace Conc

/-- A later row of the same run. -/
structure Later (run run' : Run) : Prop where
  version : run.version ≤ run'.version
  same : run'.version = run.version → run' = run
  past : run.stage.planning = false → run'.stage.planning = false

theorem Later.refl (run : Run) : Later run run :=
  ⟨le_refl _, fun _ => rfl, id⟩

theorem Later.trans {run run' run'' : Run} (h : Later run run')
    (h' : Later run' run'') : Later run run'' := by
  refine ⟨h.version.trans h'.version, fun hv => ?_, h'.past ∘ h.past⟩
  have hle := h.version
  have hle' := h'.version
  have hlast : run'' = run' := h'.same (by omega)
  rw [hlast]
  exact h.same (by omega)

theorem Later.bumped {run run' : Run}
    (hv : run'.version = run.version + 1)
    (hp : run'.stage.planning = true → run.stage.planning = true) :
    Later run run' := by
  refine ⟨by omega, fun h => by omega, fun h => ?_⟩
  cases hs : run'.stage.planning with
  | false => rfl
  | true =>
    rw [hp hs] at h
    exact h

theorem exec_later (w : World) (e : Req) (x : Env e) :
    Later w.run (w.exec e x).1.run := by
  cases e with
  | transitionStage t id v next =>
    rcases World.exec_transition_inv next x with ⟨res, hsame, _⟩ |
      ⟨_, hlegal, hland⟩
    · rw [hsame]
      exact .refl _
    · rw [hland]
      exact .bumped rfl (Stage.planning_of_legal hlegal)
  | appendAttempt t id v reason start trace =>
    rcases World.exec_appendAttempt_inv reason start trace x with
      ⟨res, hsame, _⟩ | ⟨_, hstart, hland⟩
    · rw [hsame]
      exact .refl _
    · rw [hland]
      refine .bumped rfl fun hp => ?_
      rcases hstart with rfl | hlegal
      · exact hp
      · exact Stage.planning_of_legal hlegal hp
  | writeCheckpoint t id v ptr =>
    rcases World.exec_writeCheckpoint_inv ptr x with ⟨res, hsame, _⟩ |
      ⟨_, hland⟩
    · rw [hsame]
      exact .refl _
    · rw [hland]
      exact .bumped rfl fun hp => hp
  | authorPlan ctx => cases x <;> exact .refl _
  | rePlan ctx feedback => cases x <;> exact .refl _
  | _ => exact .refl _

theorem rowOf_exec {w : World} {e : Req} {x : Env e} {run : Run}
    (h : rowOf ⟨e, (w.exec e x).2⟩ = some run) :
    (w.exec e x).1.run = run := by
  cases e with
  | getRun t id =>
    have hget : (w.exec (.getRun t id) x).2 = w.run.getRun t id := rfl
    rw [hget] at h
    unfold Registry.Run.getRun at h
    split at h
    · exact Option.some.inj h
    · cases h
  | transitionStage t id v next =>
    rcases World.exec_transition_inv next x with ⟨res, hsame, hno⟩ |
      ⟨_, _, hland⟩
    · rw [hsame] at h
      cases res with
      | ok upd => exact absurd rfl (hno upd)
      | empty => cases h
      | fail err => cases h
    · rw [hland] at h ⊢
      exact Option.some.inj h
  | writeCheckpoint t id v ptr =>
    rcases World.exec_writeCheckpoint_inv ptr x with ⟨res, hsame, hno⟩ |
      ⟨_, hland⟩
    · rw [hsame] at h
      cases res with
      | ok upd => exact absurd rfl (hno upd)
      | empty => cases h
      | fail err => cases h
    · rw [hland] at h ⊢
      exact Option.some.inj h
  | _ => cases h

theorem exec_moves {w : World} {e : Req} {x : Env e}
    (h : (w.exec e x).1.run.stage ≠ w.run.stage) :
    (∃ t id next, e = .transitionStage t id w.run.version next ∧
      w.run.stage.isLegalTransition next = true) ∨
    ∃ t id v reason start trace,
      e = .appendAttempt t id v reason start trace := by
  cases e with
  | transitionStage t id v next =>
    rcases World.exec_transition_inv next x with ⟨res, hsame, _⟩ |
      ⟨hv, hlegal, _⟩
    · rw [hsame] at h
      exact absurd rfl h
    · subst hv
      exact Or.inl ⟨t, id, next, rfl, hlegal⟩
  | appendAttempt t id v reason start trace =>
    exact Or.inr ⟨t, id, v, reason, start, trace, rfl⟩
  | writeCheckpoint t id v ptr =>
    rcases World.exec_writeCheckpoint_inv ptr x with ⟨res, hsame, _⟩ |
      ⟨_, hland⟩
    · rw [hsame] at h
      exact absurd rfl h
    · rw [hland] at h
      exact absurd rfl h
  | authorPlan ctx => cases x <;> exact absurd rfl h
  | rePlan ctx feedback => cases x <;> exact absurd rfl h
  | _ => exact absurd rfl h

/-- Every row the process holds is the stored one or an older one. -/
def Rows (ph : Phase Call Run) (lg : Heard) (w : World) : Prop :=
  ∀ run, Holds ph lg run → Later run w.run

section Rows

variable {ph : Phase Call Run} {lg : Heard} {w w' : World}

theorem Rows.stable (h : Rows ph lg w) (hw : Later w.run w'.run) :
    Rows ph lg w' :=
  fun run hrun => (h run hrun).trans hw

theorem rows_entry (c : Call) (w : World) : Rows (.entry c) [] w := by
  rintro run (hc | hmem)
  · cases hc
  · cases hmem

/-- A turn begins with a row the last one held. -/
theorem Rows.again {run : Run} (h : Rows ph lg w) (hrun : Holds ph lg run) :
    Rows (.loop run) [] w := by
  rintro run' (hc | hmem)
  · obtain rfl : run = run' := by
      injection hc
    exact h run hrun
  · cases hmem

theorem Rows.asked {e : Req} {x : Env e} (h : Rows ph lg w) :
    Rows ph (⟨e, (w.exec e x).2⟩ :: lg) (w.exec e x).1 := by
  rintro run (hph | hmem)
  · exact (h run (Or.inl hph)).trans (exec_later w e x)
  · rw [List.filterMap_cons] at hmem
    split at hmem
    · exact (h run (Or.inr hmem)).trans (exec_later w e x)
    · next row hrow =>
      rcases List.mem_cons.1 hmem with rfl | hmem
      · rw [rowOf_exec hrow]
        exact .refl _
      · exact (h run (Or.inr hmem)).trans (exec_later w e x)

theorem Rows.lands {run : Run} (h : Rows ph lg w) (hrun : Holds ph lg run)
    (hv : w.run.version = run.version) : w.run = run :=
  (h run hrun).same hv

end Rows

end Conc

end SdlcOs.Orchestrator
