/-
One capacity request for a tenant at a time.

# What the state keeps

`Led`: a tenant's entry is in the map exactly as long as its leader is
before the removal, and no two threads own one pending request. So two
calls of the provider for one tenant would be of one leader.

# What the run keeps

`Served` follows a thread through its call. A follower that found an
entry waits for its owner or for what the owner published; and the
owner's call of the provider was live (`Live`) at some moment of the
follower's own call: in flight, or over with the entry still in the map.
That second moment is needed. A follower that comes after the provider's
answer and before the removal is given that answer (`late_follower`).
-/
import SdlcOs.Dispatch.Coordinator

namespace SdlcOs.Dispatch.Coordinator

open Data (Dict)

variable {Θ ε : Type}

-- ==== places

/-- The pending request a thread owns: it leads it and has not published. -/
def At.owns : At ε → Option (String × Nat)
  | .leading t e => some (t, e)
  | .calling t e => some (t, e)
  | .called t e _ => some (t, e)
  | .removed t e _ => some (t, e)
  | _ => none

/-- The entry a thread has in the map. -/
def At.mapped : At ε → Option (String × Nat)
  | .leading t e => some (t, e)
  | .calling t e => some (t, e)
  | .called t e _ => some (t, e)
  | _ => none

theorem At.owns_of_mapped {place : At ε} {te : String × Nat}
    (h : place.mapped = some te) : place.owns = some te := by
  cases place with
  | leading t e => exact h
  | calling t e => exact h
  | called t e o => exact h
  | outside => cases h
  | arrived t => cases h
  | removed t e o => cases h
  | waiting t e => cases h
  | returning t o => cases h

/-- The call of the provider for a pending request: in flight, or over
with the entry still in the map. -/
def Live (t : String) (e : Nat) (s : State Θ ε) : Prop :=
  ∃ θ, s.threads θ = .calling t e ∨
    ((∃ o, s.threads θ = .called t e o) ∧ s.inflight.get t = some e)

/-- A call of the provider for the tenant's pending request gave the
outcome. -/
def Gave (t : String) (e : Nat) (o : Outcome ε) (past : List (State Θ ε)) :
    Prop :=
  ∃ s ∈ past, ∃ θ, s.threads θ = .called t e o

theorem Gave.cons {t : String} {e : Nat} {o : Outcome ε}
    {past : List (State Θ ε)} (h : Gave t e o past) (s : State Θ ε) :
    Gave t e o (s :: past) := by
  obtain ⟨s', hs', hθ⟩ := h
  exact ⟨s', List.mem_cons_of_mem _ hs', hθ⟩

theorem During.cons {θ : Θ} {P : State Θ ε → Prop}
    {past : List (State Θ ε)} (h : During θ P past) {s : State Θ ε}
    (hs : s.threads θ ≠ .outside) : During θ P (s :: past) :=
  ⟨hs, Or.inr h⟩

-- ==== steps

section steps

variable [DecidableEq Θ]

/-- Everything a step can do. -/
inductive Step (s : State Θ ε) (θ : Θ) : State Θ ε → Prop
  | enter {t : String} (h : s.threads θ = .outside) :
      Step s θ (s.goto θ (.arrived t))
  | join {t : String} {e : Nat} (h : s.threads θ = .arrived t)
      (hget : s.inflight.get t = some e) : Step s θ (s.goto θ (.waiting t e))
  | lead {t : String} (h : s.threads θ = .arrived t)
      (hget : s.inflight.get t = none) :
      Step s θ { s.goto θ (.leading t s.nextPending) with
        inflight := s.inflight.set t s.nextPending
        nextPending := s.nextPending + 1 }
  | startCall {t : String} {e : Nat} (h : s.threads θ = .leading t e) :
      Step s θ (s.goto θ (.calling t e))
  | endCall {t : String} {e : Nat} {o : Outcome ε}
      (h : s.threads θ = .calling t e) : Step s θ (s.goto θ (.called t e o))
  | remove {t : String} {e : Nat} {o : Outcome ε}
      (h : s.threads θ = .called t e o) :
      Step s θ { s.goto θ (.removed t e o) with
        inflight := s.inflight.erase t }
  | publish {t : String} {e : Nat} {o : Outcome ε}
      (h : s.threads θ = .removed t e o) :
      Step s θ { s.goto θ (.returning t o) with
        published := Function.update s.published e (some o) }
  | wake {t : String} {e : Nat} {o : Outcome ε}
      (h : s.threads θ = .waiting t e) (hpub : s.published e = some o) :
      Step s θ (s.goto θ (.returning t o))
  | leave {t : String} {o : Outcome ε} (h : s.threads θ = .returning t o) :
      Step s θ (s.goto θ .outside)

theorem next_inv {s s' : State Θ ε} {θ : Θ} {a : Action ε}
    (hnext : s.next θ a = some s') : Step s θ s' := by
  unfold State.next at hnext
  split at hnext
  · next h =>
    rw [← Option.some.inj hnext]
    exact .enter h
  · next h =>
    split at hnext
    · next hget =>
      rw [← Option.some.inj hnext]
      exact .join h hget
    · next hget =>
      rw [← Option.some.inj hnext]
      exact .lead h hget
  · next h =>
    rw [← Option.some.inj hnext]
    exact .startCall h
  · next h =>
    rw [← Option.some.inj hnext]
    exact .endCall h
  · next h =>
    rw [← Option.some.inj hnext]
    exact .remove h
  · next h =>
    rw [← Option.some.inj hnext]
    exact .publish h
  · next h =>
    split at hnext
    · cases hnext
    · next hpub =>
      rw [← Option.some.inj hnext]
      exact .wake h hpub
  · next h =>
    rw [← Option.some.inj hnext]
    exact .leave h
  · cases hnext

@[simp] theorem goto_self (s : State Θ ε) (θ : Θ) (place : At ε) :
    (s.goto θ place).threads θ = place :=
  Function.update_self ..

theorem goto_ne (s : State Θ ε) {θ θ' : Θ} (h : θ' ≠ θ) (place : At ε) :
    (s.goto θ place).threads θ' = s.threads θ' :=
  Function.update_of_ne h ..

theorem Step.threads_ne {s s' : State Θ ε} {θ θ' : Θ} (h : Step s θ s')
    (hne : θ' ≠ θ) : s'.threads θ' = s.threads θ' := by
  cases h <;> exact goto_ne s hne _

-- ==== the state

/-- The map has the entries of the leaders that have not removed theirs;
a pending request has one owner, and nothing published before. -/
structure Led (s : State Θ ε) : Prop where
  mapped : ∀ t e, s.inflight.get t = some e ↔
    ∃ θ, (s.threads θ).mapped = some (t, e)
  unique : ∀ θ θ' t t' e, (s.threads θ).owns = some (t, e) →
    (s.threads θ').owns = some (t', e) → θ = θ'
  fresh : ∀ θ t e, (s.threads θ).owns = some (t, e) →
    e < s.nextPending ∧ s.published e = none
  published : ∀ e, s.published e ≠ none → e < s.nextPending

omit [DecidableEq Θ] in
theorem init_led : Led (.init : State Θ ε) := by
  refine ⟨?_, ?_, ?_, ?_⟩
  · intro t e
    constructor
    · intro h; cases h
    · rintro ⟨θ, h⟩; cases h
  · intro θ θ' t t' e h; cases h
  · intro θ t e h; cases h
  · intro e h; exact absurd rfl h

variable {s s' : State Θ ε} {θ : Θ}

theorem Led.quiet (h : Led s) {place : At ε}
    (howns : place.owns = (s.threads θ).owns)
    (hmapped : place.mapped = (s.threads θ).mapped) :
    Led (s.goto θ place) := by
  have hown : ∀ θ', ((s.goto θ place).threads θ').owns =
      (s.threads θ').owns := by
    intro θ'
    by_cases hθ : θ' = θ
    · rw [hθ, goto_self, howns]
    · rw [goto_ne s hθ]
  have hmap : ∀ θ', ((s.goto θ place).threads θ').mapped =
      (s.threads θ').mapped := by
    intro θ'
    by_cases hθ : θ' = θ
    · rw [hθ, goto_self, hmapped]
    · rw [goto_ne s hθ]
  refine ⟨?_, ?_, ?_, h.published⟩
  · intro t e
    rw [show (s.goto θ place).inflight = s.inflight from rfl, h.mapped]
    constructor
    · rintro ⟨θ', hθ'⟩
      exact ⟨θ', (hmap θ').trans hθ'⟩
    · rintro ⟨θ', hθ'⟩
      exact ⟨θ', (hmap θ').symm.trans hθ'⟩
  · intro θ₁ θ₂ t t' e h₁ h₂
    rw [hown] at h₁ h₂
    exact h.unique θ₁ θ₂ t t' e h₁ h₂
  · intro θ' t e h'
    rw [hown] at h'
    exact h.fresh θ' t e h'

theorem step_led (h : Led s) (hstep : Step s θ s') : Led s' := by
  cases hstep with
  | enter hat => exact h.quiet (by rw [hat]; rfl) (by rw [hat]; rfl)
  | join hat hget => exact h.quiet (by rw [hat]; rfl) (by rw [hat]; rfl)
  | startCall hat => exact h.quiet (by rw [hat]; rfl) (by rw [hat]; rfl)
  | endCall hat => exact h.quiet (by rw [hat]; rfl) (by rw [hat]; rfl)
  | wake hat hpub => exact h.quiet (by rw [hat]; rfl) (by rw [hat]; rfl)
  | leave hat => exact h.quiet (by rw [hat]; rfl) (by rw [hat]; rfl)
  | @lead t hat hget =>
    have hself := goto_self s θ (.leading t s.nextPending)
    have hne : ∀ {θ'}, θ' ≠ θ → _ := fun hθ =>
      goto_ne s hθ (.leading t s.nextPending)
    -- The new number is owned by nobody yet.
    have hnew : ∀ θ' t', (s.threads θ').owns ≠ some (t', s.nextPending) :=
      fun θ' t' h' => Nat.lt_irrefl _ (h.fresh θ' t' _ h').1
    refine ⟨?_, ?_, ?_, ?_⟩
    · intro t' e
      show (s.inflight.set t s.nextPending).get t' = some e ↔
        ∃ θ', ((s.goto θ (.leading t s.nextPending)).threads θ').mapped =
          some (t', e)
      by_cases ht : t' = t
      · subst ht
        rw [Dict.get_set_self]
        constructor
        · intro he
          rw [← Option.some.inj he]
          exact ⟨θ, by rw [hself]; rfl⟩
        · rintro ⟨θ', hθ'⟩
          by_cases hθ : θ' = θ
          · rw [hθ, hself] at hθ'
            rw [← (Prod.mk.inj (Option.some.inj hθ')).2]
          · rw [hne hθ] at hθ'
            rw [(h.mapped t' e).2 ⟨θ', hθ'⟩] at hget
            cases hget
      · rw [Dict.get_set_ne _ ht, h.mapped]
        constructor
        · rintro ⟨θ', hθ'⟩
          have hθ : θ' ≠ θ := by
            rintro rfl
            rw [hat] at hθ'
            cases hθ'
          exact ⟨θ', by rw [hne hθ]; exact hθ'⟩
        · rintro ⟨θ', hθ'⟩
          by_cases hθ : θ' = θ
          · rw [hθ, hself] at hθ'
            exact absurd (Prod.mk.inj (Option.some.inj hθ')).1.symm ht
          · rw [hne hθ] at hθ'
            exact ⟨θ', hθ'⟩
    · intro θ₁ θ₂ t₁ t₂ e h₁ h₂
      have h₁' : ((s.goto θ (.leading t s.nextPending)).threads θ₁).owns =
        some (t₁, e) := h₁
      have h₂' : ((s.goto θ (.leading t s.nextPending)).threads θ₂).owns =
        some (t₂, e) := h₂
      by_cases hθ₁ : θ₁ = θ
      · by_cases hθ₂ : θ₂ = θ
        · exact hθ₁.trans hθ₂.symm
        · rw [hθ₁, hself] at h₁'
          rw [hne hθ₂, ← (Prod.mk.inj (Option.some.inj h₁')).2] at h₂'
          exact absurd h₂' (hnew θ₂ t₂)
      · rw [hne hθ₁] at h₁'
        by_cases hθ₂ : θ₂ = θ
        · rw [hθ₂, hself] at h₂'
          rw [← (Prod.mk.inj (Option.some.inj h₂')).2] at h₁'
          exact absurd h₁' (hnew θ₁ t₁)
        · rw [hne hθ₂] at h₂'
          exact h.unique θ₁ θ₂ t₁ t₂ e h₁' h₂'
    · intro θ' t' e h'
      have h'' : ((s.goto θ (.leading t s.nextPending)).threads θ').owns =
        some (t', e) := h'
      show e < s.nextPending + 1 ∧ s.published e = none
      by_cases hθ : θ' = θ
      · rw [hθ, hself] at h''
        rw [← (Prod.mk.inj (Option.some.inj h'')).2]
        refine ⟨Nat.lt_succ_self _, ?_⟩
        by_contra hpub
        exact Nat.lt_irrefl _ (h.published _ hpub)
      · rw [hne hθ] at h''
        obtain ⟨hlt, hpub⟩ := h.fresh θ' t' e h''
        exact ⟨Nat.lt_succ_of_lt hlt, hpub⟩
    · intro e he
      exact Nat.lt_succ_of_lt (h.published e he)
  | @remove t e o hat =>
    have hself := goto_self s θ (.removed t e o)
    have hne : ∀ {θ'}, θ' ≠ θ → _ := fun hθ =>
      goto_ne s hθ (.removed t e o)
    have hget : s.inflight.get t = some e :=
      (h.mapped t e).2 ⟨θ, by rw [hat]; rfl⟩
    have hown : ∀ θ', ((s.goto θ (.removed t e o)).threads θ').owns =
        (s.threads θ').owns := by
      intro θ'
      by_cases hθ : θ' = θ
      · rw [hθ, hself, hat]
        rfl
      · rw [hne hθ]
    refine ⟨?_, ?_, ?_, h.published⟩
    · intro t' e'
      show (s.inflight.erase t).get t' = some e' ↔
        ∃ θ', ((s.goto θ (.removed t e o)).threads θ').mapped =
          some (t', e')
      by_cases ht : t' = t
      · subst ht
        rw [Dict.get_erase_self]
        constructor
        · intro h'; cases h'
        · rintro ⟨θ', hθ'⟩
          by_cases hθ : θ' = θ
          · rw [hθ, hself] at hθ'
            cases hθ'
          · -- Two leaders of one tenant would be one.
            rw [hne hθ] at hθ'
            have hsame := (h.mapped t' e').2 ⟨θ', hθ'⟩
            rw [hget] at hsame
            obtain rfl := Option.some.inj hsame
            exact absurd (h.unique θ' θ t' t' e (At.owns_of_mapped hθ')
              (by rw [hat]; rfl)) hθ
      · rw [Dict.get_erase_ne _ ht, h.mapped]
        constructor
        · rintro ⟨θ', hθ'⟩
          have hθ : θ' ≠ θ := by
            rintro rfl
            rw [hat] at hθ'
            exact ht (Prod.mk.inj (Option.some.inj hθ')).1.symm
          exact ⟨θ', by rw [hne hθ]; exact hθ'⟩
        · rintro ⟨θ', hθ'⟩
          by_cases hθ : θ' = θ
          · rw [hθ, hself] at hθ'
            cases hθ'
          · rw [hne hθ] at hθ'
            exact ⟨θ', hθ'⟩
    · intro θ₁ θ₂ t₁ t₂ e' h₁ h₂
      exact h.unique θ₁ θ₂ t₁ t₂ e' ((hown θ₁).symm.trans h₁)
        ((hown θ₂).symm.trans h₂)
    · intro θ' t' e' h'
      exact h.fresh θ' t' e' ((hown θ').symm.trans h')
  | @publish t e o hat =>
    have hself := goto_self s θ (.returning t o)
    have hne : ∀ {θ'}, θ' ≠ θ → _ := fun hθ =>
      goto_ne s hθ (.returning t o)
    have hmine : (s.threads θ).owns = some (t, e) := by rw [hat]; rfl
    have hother : ∀ θ' t' e', ((s.goto θ (.returning t o)).threads θ').owns =
        some (t', e') → θ' ≠ θ ∧ (s.threads θ').owns = some (t', e') := by
      intro θ' t' e' h'
      have hθ : θ' ≠ θ := by
        rintro rfl
        rw [hself] at h'
        cases h'
      exact ⟨hθ, by rw [← hne hθ]; exact h'⟩
    refine ⟨?_, ?_, ?_, ?_⟩
    · intro t' e'
      show s.inflight.get t' = some e' ↔
        ∃ θ', ((s.goto θ (.returning t o)).threads θ').mapped = some (t', e')
      rw [h.mapped]
      constructor
      · rintro ⟨θ', hθ'⟩
        have hθ : θ' ≠ θ := by
          rintro rfl
          rw [hat] at hθ'
          cases hθ'
        exact ⟨θ', by rw [hne hθ]; exact hθ'⟩
      · rintro ⟨θ', hθ'⟩
        obtain ⟨hθ, _⟩ := hother θ' t' e' (At.owns_of_mapped hθ')
        rw [hne hθ] at hθ'
        exact ⟨θ', hθ'⟩
    · intro θ₁ θ₂ t₁ t₂ e' h₁ h₂
      exact h.unique θ₁ θ₂ t₁ t₂ e' (hother _ _ _ h₁).2 (hother _ _ _ h₂).2
    · intro θ' t' e' h'
      obtain ⟨hθ, hold⟩ := hother θ' t' e' h'
      obtain ⟨hlt, hpub⟩ := h.fresh θ' t' e' hold
      refine ⟨hlt, ?_⟩
      show Function.update s.published e (some o) e' = none
      have he : e' ≠ e := by
        rintro rfl
        exact hθ (h.unique θ' θ t' t e' hold hmine)
      rw [Function.update_of_ne he]
      exact hpub
    · intro e' he'
      have he'' : Function.update s.published e (some o) e' ≠ none := he'
      by_cases he : e' = e
      · rw [he]
        exact (h.fresh θ t e hmine).1
      · rw [Function.update_of_ne he] at he''
        exact h.published e' he''

-- ==== the run

/-- What holds of a thread at a place, after a run. -/
def ServedAt (s : State Θ ε) (past : List (State Θ ε)) (θ : Θ) :
    At ε → Prop
  | .waiting t e =>
    ((∃ θ', (s.threads θ').owns = some (t, e)) ∨
      ∃ o, s.published e = some o ∧ Gave t e o (s :: past)) ∧
    (During θ (Live t e) (s :: past) ∨
      ∃ θ', s.threads θ' = .leading t e)
  | .calling t e => During θ (Live t e) (s :: past)
  | .called t e o => Gave t e o (s :: past) ∧ During θ (Live t e) (s :: past)
  | .removed t e o => Gave t e o (s :: past) ∧ During θ (Live t e) (s :: past)
  | .returning t o =>
    ∃ e, Gave t e o (s :: past) ∧ During θ (Live t e) (s :: past)
  | _ => True

/-- What holds of a thread where it is. -/
def Served (s : State Θ ε) (past : List (State Θ ε)) (θ : Θ) : Prop :=
  ServedAt s past θ (s.threads θ)

theorem Step.owner {past : List (State Θ ε)} (h : Step s θ s')
    (hserved : Served s past θ) {t : String} {e : Nat}
    (howner : ∃ θ', (s.threads θ').owns = some (t, e)) :
    (∃ θ', (s'.threads θ').owns = some (t, e)) ∨
      ∃ o, s'.published e = some o ∧ Gave t e o (s' :: s :: past) := by
  obtain ⟨θ', hθ'⟩ := howner
  by_cases hθ : θ' = θ
  · rw [hθ] at hθ'
    unfold Served at hserved
    cases h with
    | enter hat => rw [hat] at hθ'; cases hθ'
    | join hat hget => rw [hat] at hθ'; cases hθ'
    | lead hat hget => rw [hat] at hθ'; cases hθ'
    | wake hat hpub => rw [hat] at hθ'; cases hθ'
    | leave hat => rw [hat] at hθ'; cases hθ'
    | startCall hat =>
      rw [hat] at hθ'
      exact Or.inl ⟨θ, by rw [goto_self]; exact hθ'⟩
    | endCall hat =>
      rw [hat] at hθ'
      exact Or.inl ⟨θ, by rw [goto_self]; exact hθ'⟩
    | @remove t' e' o hat =>
      rw [hat] at hθ'
      refine Or.inl ⟨θ, ?_⟩
      show ((s.goto θ (.removed t' e' o)).threads θ).owns = _
      rw [goto_self]
      exact hθ'
    | @publish t' e' o hat =>
      rw [hat] at hθ' hserved
      obtain ⟨rfl, rfl⟩ := Prod.mk.inj (Option.some.inj hθ')
      refine Or.inr ⟨o, ?_, hserved.1.cons _⟩
      exact Function.update_self ..
  · exact Or.inl ⟨θ', by rw [h.threads_ne hθ]; exact hθ'⟩

/-- What is published stays. -/
theorem Step.published (h : Step s θ s') (hled : Led s) {e : Nat}
    {o : Outcome ε} (hpub : s.published e = some o) :
    s'.published e = some o := by
  cases h with
  | @publish t e' o' hat =>
    have he : e ≠ e' := by
      rintro rfl
      have hmine : (s.threads θ).owns = some (t, e) := by rw [hat]; rfl
      rw [(hled.fresh θ t e hmine).2] at hpub
      cases hpub
    show Function.update s.published e' (some o') e = _
    rw [Function.update_of_ne he]
    exact hpub
  | enter hat => exact hpub
  | join hat hget => exact hpub
  | lead hat hget => exact hpub
  | startCall hat => exact hpub
  | endCall hat => exact hpub
  | remove hat => exact hpub
  | wake hat hpub' => exact hpub
  | leave hat => exact hpub

theorem Step.leading (h : Step s θ s') {t : String} {e : Nat}
    (hleader : ∃ θ', s.threads θ' = .leading t e) :
    (∃ θ', s'.threads θ' = .leading t e) ∨ Live t e s' := by
  obtain ⟨θ', hθ'⟩ := hleader
  by_cases hθ : θ' = θ
  · rw [hθ] at hθ'
    cases h with
    | startCall hat =>
      rw [hat] at hθ'
      injection hθ' with ht he
      subst ht he
      exact Or.inr ⟨θ, Or.inl (goto_self ..)⟩
    | enter hat => rw [hat] at hθ'; cases hθ'
    | join hat hget => rw [hat] at hθ'; cases hθ'
    | lead hat hget => rw [hat] at hθ'; cases hθ'
    | endCall hat => rw [hat] at hθ'; cases hθ'
    | remove hat => rw [hat] at hθ'; cases hθ'
    | publish hat => rw [hat] at hθ'; cases hθ'
    | wake hat hpub => rw [hat] at hθ'; cases hθ'
    | leave hat => rw [hat] at hθ'; cases hθ'
  · exact Or.inl ⟨θ', by rw [h.threads_ne hθ]; exact hθ'⟩

theorem served_other {past : List (State Θ ε)} (h : Step s θ s')
    (hled : Led s) (hserved : ∀ θ, Served s past θ) {θ' : Θ}
    (hθ : θ' ≠ θ) : Served s' (s :: past) θ' := by
  have hsame := h.threads_ne hθ
  have hold := hserved θ'
  unfold Served at hold ⊢
  have hactive : s.threads θ' ≠ .outside → s'.threads θ' ≠ .outside := by
    rw [hsame]
    exact id
  cases hat : s.threads θ' with
  | waiting t e =>
    rw [hat] at hold
    rw [hsame, hat]
    have hin := hactive (by rw [hat]; intro hout; cases hout)
    refine ⟨?_, ?_⟩
    · rcases hold.1 with howner | ⟨o, hpub, hgave⟩
      · exact h.owner (hserved θ) howner
      · exact Or.inr ⟨o, h.published hled hpub, hgave.cons _⟩
    · rcases hold.2 with hduring | hleader
      · exact Or.inl (hduring.cons hin)
      · rcases h.leading hleader with hleader | hlive
        · exact Or.inr hleader
        · exact Or.inl ⟨hin, Or.inl hlive⟩
  | calling t e =>
    rw [hat] at hold
    rw [hsame, hat]
    exact hold.cons (hactive (by rw [hat]; intro hout; cases hout))
  | called t e o =>
    rw [hat] at hold
    rw [hsame, hat]
    exact ⟨hold.1.cons _,
      hold.2.cons (hactive (by rw [hat]; intro hout; cases hout))⟩
  | removed t e o =>
    rw [hat] at hold
    rw [hsame, hat]
    exact ⟨hold.1.cons _,
      hold.2.cons (hactive (by rw [hat]; intro hout; cases hout))⟩
  | returning t o =>
    rw [hat] at hold
    rw [hsame, hat]
    obtain ⟨e, hgave, hduring⟩ := hold
    exact ⟨e, hgave.cons _,
      hduring.cons (hactive (by rw [hat]; intro hout; cases hout))⟩
  | outside => rw [hsame, hat]; trivial
  | arrived t => rw [hsame, hat]; trivial
  | leading t e => rw [hsame, hat]; trivial

theorem served_self {past : List (State Θ ε)} (h : Step s θ s')
    (hled : Led s) (hserved : Served s past θ) :
    Served s' (s :: past) θ := by
  unfold Served at hserved ⊢
  cases h with
  | enter hat => rw [goto_self]; trivial
  | leave hat => rw [goto_self]; trivial
  | @lead t hat hget =>
    have hself := goto_self s θ (.leading t s.nextPending)
    refine hself.symm ▸ ?_
    trivial
  | @join t e hat hget =>
    have hin : (s.goto θ (.waiting t e)).threads θ ≠ .outside := by
      rw [goto_self]
      intro hout
      cases hout
    -- The leader that put the entry there is before its removal.
    obtain ⟨θ', hθ'⟩ := (hled.mapped t e).1 hget
    have hne : θ' ≠ θ := by
      rintro rfl
      rw [hat] at hθ'
      cases hθ'
    have hstay := goto_ne s hne (.waiting t e)
    rw [goto_self]
    refine ⟨Or.inl ⟨θ', ?_⟩, ?_⟩
    · rw [hstay]
      exact At.owns_of_mapped hθ'
    · cases hplace : s.threads θ' with
      | leading t' e' =>
        rw [hplace] at hθ'
        obtain ⟨rfl, rfl⟩ := Prod.mk.inj (Option.some.inj hθ')
        exact Or.inr ⟨θ', hstay.trans hplace⟩
      | calling t' e' =>
        rw [hplace] at hθ'
        obtain ⟨rfl, rfl⟩ := Prod.mk.inj (Option.some.inj hθ')
        exact Or.inl ⟨hin, Or.inl ⟨θ', Or.inl (hstay.trans hplace)⟩⟩
      | called t' e' o =>
        rw [hplace] at hθ'
        obtain ⟨rfl, rfl⟩ := Prod.mk.inj (Option.some.inj hθ')
        exact Or.inl ⟨hin, Or.inl ⟨θ', Or.inr
          ⟨⟨o, hstay.trans hplace⟩, hget⟩⟩⟩
      | outside => rw [hplace] at hθ'; cases hθ'
      | arrived t' => rw [hplace] at hθ'; cases hθ'
      | removed t' e' o => rw [hplace] at hθ'; cases hθ'
      | waiting t' e' => rw [hplace] at hθ'; cases hθ'
      | returning t' o => rw [hplace] at hθ'; cases hθ'
  | @startCall t e hat =>
    rw [goto_self]
    refine ⟨?_, Or.inl ⟨θ, Or.inl (goto_self ..)⟩⟩
    rw [goto_self]
    intro hout
    cases hout
  | @endCall t e o hat =>
    rw [hat] at hserved
    rw [goto_self]
    refine ⟨⟨_, List.mem_cons_self .., θ, goto_self ..⟩, hserved.cons ?_⟩
    rw [goto_self]
    intro hout
    cases hout
  | @remove t e o hat =>
    rw [hat] at hserved
    have hself := goto_self s θ (.removed t e o)
    refine hself.symm ▸ ⟨hserved.1.cons _, hserved.2.cons ?_⟩
    refine hself.symm ▸ ?_
    intro hout
    cases hout
  | @publish t e o hat =>
    rw [hat] at hserved
    have hself := goto_self s θ (.returning t o)
    refine hself.symm ▸ ⟨e, hserved.1.cons _, hserved.2.cons ?_⟩
    refine hself.symm ▸ ?_
    intro hout
    cases hout
  | @wake t e o hat hpub =>
    rw [hat] at hserved
    have hin : (s.goto θ (.returning t o)).threads θ ≠ .outside := by
      rw [goto_self]
      intro hout
      cases hout
    -- The event is set: there is no owner, nor a leader, any more.
    have hunowned : ¬ ∃ θ', (s.threads θ').owns = some (t, e) := by
      rintro ⟨θ', hθ'⟩
      rw [(hled.fresh θ' t e hθ').2] at hpub
      cases hpub
    rw [goto_self]
    refine ⟨e, ?_, ?_⟩
    · rcases hserved.1 with howner | ⟨o', hpub', hgave⟩
      · exact absurd howner hunowned
      · rw [hpub] at hpub'
        rw [Option.some.inj hpub']
        exact hgave.cons _
    · rcases hserved.2 with hduring | ⟨θ', hθ'⟩
      · exact hduring.cons hin
      · exact absurd ⟨θ', by rw [hθ']; rfl⟩ hunowned

theorem history_kept {past : List (State Θ ε)} (h : History past) :
    ∃ s rest, past = s :: rest ∧ Led s ∧ ∀ θ, Served s rest θ := by
  induction h with
  | start => exact ⟨_, _, rfl, init_led, fun _ => trivial⟩
  | @step s s' rest θ a _ hnext ih =>
    obtain ⟨s₀, rest₀, heq, hled, hserved⟩ := ih
    obtain ⟨rfl, rfl⟩ := List.cons.inj heq
    have hstep := next_inv hnext
    refine ⟨_, _, rfl, step_led hled hstep, ?_⟩
    intro θ'
    by_cases hθ : θ' = θ
    · rw [hθ]
      exact served_self hstep hled (hserved θ)
    · exact served_other hstep hled hserved hθ

/-- After any run: one call of the provider for a tenant at a time; a
thread about to return has the outcome of a call for its tenant that was
live during its own; a follower's pending request is published or has its
leader; and no thread inside leaves no entry in the map. -/
theorem capacity_coalesced {s : State Θ ε} {past : List (State Θ ε)}
    (h : History (s :: past)) :
    (∀ t θ θ' e e', s.threads θ = .calling t e →
      s.threads θ' = .calling t e' → θ = θ') ∧
    (∀ θ t o, s.threads θ = .returning t o →
      ∃ e, Gave t e o (s :: past) ∧ During θ (Live t e) (s :: past)) ∧
    (∀ θ t e, s.threads θ = .waiting t e → s.published e ≠ none ∨
      ∃ θ', (s.threads θ').owns = some (t, e)) ∧
    ((∀ θ, s.threads θ = .outside) → ∀ t, s.inflight.get t = none) := by
  obtain ⟨s₀, rest, heq, hled, hserved⟩ := history_kept h
  obtain ⟨rfl, rfl⟩ := List.cons.inj heq
  refine ⟨?_, ?_, ?_, ?_⟩
  · intro t θ θ' e e' hθ hθ'
    have hget := (hled.mapped t e).2 ⟨θ, by rw [hθ]; rfl⟩
    have hget' := (hled.mapped t e').2 ⟨θ', by rw [hθ']; rfl⟩
    rw [hget] at hget'
    rw [← Option.some.inj hget'] at hθ'
    exact hled.unique θ θ' t t e (by rw [hθ]; rfl) (by rw [hθ']; rfl)
  · intro θ t o hθ
    have := hserved θ
    unfold Served at this
    rw [hθ] at this
    exact this
  · intro θ t e hθ
    have := hserved θ
    unfold Served at this
    rw [hθ] at this
    rcases this.1 with howner | ⟨o, hpub, _⟩
    · exact Or.inr howner
    · exact Or.inl (hpub ▸ Option.some_ne_none o)
  · intro hout t
    by_contra hsome
    obtain ⟨e, he⟩ := Option.ne_none_iff_exists'.1 hsome
    obtain ⟨θ, hθ⟩ := (hled.mapped t e).1 he
    rw [hout θ] at hθ
    cases hθ

-- ------------------------------------------------------------ a late follower

/-- Steps taken one after another, with the states on the way. -/
def replay : List (State Θ ε) → List (Θ × Action ε) →
    Option (List (State Θ ε))
  | past, [] => some past
  | [], _ :: _ => none
  | s :: past, (θ, a) :: rest =>
    match s.next θ a with
    | none => none
    | some s' => replay (s' :: s :: past) rest

theorem history_of_replay : ∀ {steps : List (Θ × Action ε)}
    {past past' : List (State Θ ε)}, History past →
    replay past steps = some past' → History past' := by
  intro steps
  induction steps with
  | nil =>
    intro past past' h heq
    rw [replay] at heq
    exact Option.some.inj heq ▸ h
  | cons step rest ih =>
    intro past past' h heq
    cases past with
    | nil => cases heq
    | cons s past =>
      obtain ⟨θ, a⟩ := step
      rw [replay] at heq
      split at heq
      · cases heq
      · next hnext => exact ih (.step h hnext) heq

end steps

/-- A follower that comes between the end of the leader's call and the
removal of its entry. -/
def lateSteps : List (Bool × Action Unit) :=
  [(false, .enter "t1"), (false, .lookUp), (false, .startCall),
    (false, .endCall (.error ())), (true, .enter "t1"), (true, .lookUp),
    (false, .remove), (false, .publish), (true, .wake)]

/-- The run of it. -/
def lateRun : List (State Bool Unit) :=
  (replay [.init] lateSteps).getD []

theorem lateRun_history : History lateRun :=
  @history_of_replay Bool Unit _ lateSteps _ _ .start rfl

theorem capacity_coalesced_late :
    ∃ s past, lateRun = s :: past ∧ s.threads true = .returning "t1" (.error ())
      ∧ ∃ e, Gave "t1" e (.error ()) (s :: past) ∧
        During true (Live "t1" e) (s :: past) :=
  ⟨_, _, rfl, rfl, (capacity_coalesced lateRun_history).2.1 true "t1" (.error ())
    rfl⟩

/-- Nothing held since the thread was outside, if it held in no state
since. -/
theorem not_during {θ : Θ} {P : State Θ ε → Prop} {s : State Θ ε}
    {older : List (State Θ ε)} (hout : s.threads θ = .outside) :
    ∀ {recent : List (State Θ ε)}, (∀ s' ∈ recent, ¬ P s') →
      ¬ During θ P (recent ++ s :: older) := by
  intro recent
  induction recent with
  | nil => exact fun _ h => h.1 hout
  | cons s' recent ih =>
    rintro hno ⟨_, h | h⟩
    · exact hno s' (List.mem_cons_self ..) h
    · exact ih (fun x hx => hno x (List.mem_cons_of_mem _ hx)) h

/-- A thread in a call of the provider. -/
def At.isCalling : At ε → Bool
  | .calling .. => true
  | _ => false

/-- The late follower gets its outcome from a call that was not in flight
at any moment of its own. -/
theorem late_follower :
    History lateRun ∧
    ∃ s past, lateRun = s :: past ∧
      s.threads true = .returning "t1" (.error ()) ∧
      ¬ During true (fun s' => ∃ θ t e, s'.threads θ = .calling t e)
        lateRun := by
  refine ⟨lateRun_history, _, _, rfl, rfl, ?_⟩
  obtain ⟨s₀, older, hdrop, hout⟩ : ∃ s₀ older,
      lateRun.drop 5 = s₀ :: older ∧ s₀.threads true = .outside :=
    ⟨_, _, rfl, rfl⟩
  have hquiet : ∀ s ∈ lateRun.take 5, ∀ θ,
      (s.threads θ).isCalling = false := by
    have hall : (lateRun.take 5).all (fun s =>
        !(s.threads false).isCalling && !(s.threads true).isCalling) = true :=
      rfl
    intro s hs θ
    have := List.all_eq_true.1 hall s hs
    rw [Bool.and_eq_true, Bool.not_eq_true', Bool.not_eq_true'] at this
    cases θ with
    | false => exact this.1
    | true => exact this.2
  rw [← List.take_append_drop 5 lateRun, hdrop]
  refine not_during hout ?_
  rintro s hs ⟨θ, t, e, hθ⟩
  have := hquiet s hs θ
  rw [hθ] at this
  cases this

end SdlcOs.Dispatch.Coordinator
