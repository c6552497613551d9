/-
Where a call of a model goes when calls fail.

# The schedule

Retries within an entry and fail-over between entries are two loops; what
they do is one pass over a list of calls, the schedule, up to the first
outcome that settles the matter (`attemptLoop_passes`,
`failoverLoop_passes`).

# What follows

`failover_in_order`: the calls that are made begin the schedule, all but
the last come to something transient, and the last one says what is
returned or raised and where the next call starts. The schedule itself
has every entry once, from the sticky one on, with as many calls as there
are retries.
-/
import Mathlib.Data.List.Nodup
import Mathlib.Data.List.Range
import SdlcOs.Backend.Failover

namespace SdlcOs.Failover

variable {γ κ ρ : Type}

-- ==== verdicts

/-- What an outcome means. -/
inductive Verdict (ρ : Type) : Type where
  | answer (r : ρ)
  | again (t : Transient)
  | refuse (e : BedrockError)

/-- The verdict of an outcome, for an entry. -/
def verdict (config : BedrockBackendConfig) : Outcome ρ → Verdict ρ
  | .response r => .answer r
  | .timeout => .again .timeout
  | .clientError code message httpStatusCode =>
    if code ∈ accessDeniedErrorCodes then
      .refuse (.accessDenied config code message)
    else if code ∈ throttlingErrorCodes then
      .again (.throttling code message)
    else .refuse (.invocation config code message httpStatusCode)
  | .botoCoreError text => .again (.connection text)

/-- An outcome worth another attempt. -/
def Outcome.Again (o : Outcome ρ) : Prop :=
  ∃ t, ∀ config, verdict config o = .again t

/-- A call of the schedule, for the entry of an index. -/
structure Slot (γ κ : Type) where
  call : Converse γ κ
  config : BedrockBackendConfig
  index : Nat

/-- The calls for some entries, in order. -/
def schedule (request : RequestKwargs κ) (order : List (Attempt γ × Nat)) :
    List (Slot γ κ) :=
  order.flatMap fun a => List.replicate a.1.config.maxRetries.toNat
    ⟨⟨a.1.client, attemptRequest request a.1.modelId⟩, a.1.config, a.2⟩

/-- What a pass over some calls comes to. -/
inductive End (ρ : Type) : Type where
  | answered (r : ρ) (index : Nat)
  | refused (e : BedrockError)
  | exhausted

variable (oracle : Oracle γ κ ρ)

/-- A pass over a schedule, after some calls: the calls that are made and
how it ends. -/
inductive Passes : List (Converse γ κ) → List (Slot γ κ) →
    List (Slot γ κ) → End ρ → Prop where
  | exhausted {calls : List (Converse γ κ)} : Passes calls [] [] .exhausted
  | answer {calls : List (Converse γ κ)} {s : Slot γ κ}
      {rest : List (Slot γ κ)} {r : ρ}
      (h : verdict s.config (oracle (calls ++ [s.call])) = .answer r) :
      Passes calls (s :: rest) [s] (.answered r s.index)
  | refuse {calls : List (Converse γ κ)} {s : Slot γ κ}
      {rest : List (Slot γ κ)} {e : BedrockError}
      (h : verdict s.config (oracle (calls ++ [s.call])) = .refuse e) :
      Passes calls (s :: rest) [s] (.refused e)
  | again {calls : List (Converse γ κ)} {s : Slot γ κ}
      {rest made : List (Slot γ κ)} {t : Transient} {ending : End ρ}
      (h : verdict s.config (oracle (calls ++ [s.call])) = .again t)
      (hrest : Passes (calls ++ [s.call]) rest made ending) :
      Passes calls (s :: rest) (s :: made) ending

variable {oracle} {calls : List (Converse γ κ)} {call : Converse γ κ}
  {config : BedrockBackendConfig} {index left : Nat}

theorem attemptLoop_succ :
    attemptLoop oracle call config (left + 1) calls =
      match verdict config (oracle (calls ++ [call])) with
      | .answer r => (.ok r, calls ++ [call])
      | .again t =>
        if left = 0 then
          (.error (.throttled config (some t)), calls ++ [call])
        else attemptLoop oracle call config left (calls ++ [call])
      | .refuse e => (.error e, calls ++ [call]) := by
  rw [attemptLoop]
  cases oracle (calls ++ [call]) with
  | response r => rfl
  | timeout => rfl
  | clientError code message httpStatusCode =>
    dsimp only [verdict]
    by_cases hdenied : code ∈ accessDeniedErrorCodes
    · rw [if_pos hdenied, if_pos hdenied]
    · rw [if_neg hdenied, if_neg hdenied]
      by_cases hthrottling : code ∈ throttlingErrorCodes
      · rw [if_pos hthrottling, if_pos hthrottling]
      · rw [if_neg hthrottling, if_neg hthrottling]
  | botoCoreError text => rfl

/-- What an ending gives, in one region. -/
def End.result (config : BedrockBackendConfig) (last : Option Transient) :
    End ρ → Except BedrockError ρ
  | .answered r _ => .ok r
  | .refused e => .error e
  | .exhausted => .error (.throttled config last)

/-- Retries are a pass over as many calls as there are attempts. -/
theorem attemptLoop_passes (hleft : 0 < left) :
    ∃ (made : List (Slot γ κ)) (ending : End ρ) (last : Option Transient),
      Passes oracle calls (List.replicate left ⟨call, config, index⟩) made
        ending ∧
      attemptLoop oracle call config left calls =
        (ending.result config last, calls ++ made.map Slot.call) := by
  induction left generalizing calls with
  | zero => exact absurd hleft (Nat.lt_irrefl 0)
  | succ left ih =>
    rw [attemptLoop_succ, List.replicate_succ]
    cases hverdict : verdict config (oracle (calls ++ [call])) with
    | answer r => exact ⟨_, _, none, .answer hverdict, rfl⟩
    | refuse e => exact ⟨_, _, none, .refuse hverdict, rfl⟩
    | again t =>
      dsimp only
      by_cases hlast : left = 0
      · subst hlast
        rw [if_pos rfl]
        exact ⟨_, _, some t, .again hverdict .exhausted, rfl⟩
      · obtain ⟨made, ending, last, hpasses, hloop⟩ :=
          @ih (calls ++ [call]) (Nat.pos_of_ne_zero hlast)
        rw [if_neg hlast, hloop]
        refine ⟨_, ending, last, .again hverdict hpasses, ?_⟩
        rw [List.map_cons, List.append_assoc]
        rfl

/-- Two passes, one after the other. -/
theorem Passes.append {first second made made' : List (Slot γ κ)}
    {ending : End ρ} (h : Passes oracle calls first made .exhausted)
    (h' : Passes oracle (calls ++ made.map Slot.call) second made' ending) :
    Passes oracle calls (first ++ second) (made ++ made') ending := by
  generalize hend : (End.exhausted : End ρ) = final at h
  induction h with
  | exhausted =>
    rw [List.map_nil, List.append_nil] at h'
    exact h'
  | answer _ => cases hend
  | refuse _ => cases hend
  | again hverdict _ ih =>
    refine .again hverdict (ih ?_ hend)
    rw [List.map_cons] at h'
    rw [List.append_assoc]
    exact h'

/-- A pass that is settled does not look at what comes later. -/
theorem Passes.settled {first second made : List (Slot γ κ)} {ending : End ρ}
    (h : Passes oracle calls first made ending)
    (hend : ending ≠ .exhausted) :
    Passes oracle calls (first ++ second) made ending := by
  induction h with
  | exhausted => exact absurd rfl hend
  | answer hverdict => exact .answer hverdict
  | refuse hverdict => exact .refuse hverdict
  | again hverdict _ ih => exact .again hverdict (ih hend)

theorem verdict_refuse {o : Outcome ρ} {e : BedrockError}
    (h : verdict config o = .refuse e) (config' : BedrockBackendConfig)
    (last : Option Transient) : e ≠ .throttled config' last := by
  cases o with
  | response r => cases h
  | timeout => cases h
  | botoCoreError text => cases h
  | clientError code message httpStatusCode =>
    rw [verdict] at h
    split at h
    · cases h
      exact fun h => by cases h
    · split at h
      · cases h
      · cases h
        exact fun h => by cases h

theorem Passes.refusal {first made : List (Slot γ κ)} {e : BedrockError}
    (h : Passes oracle calls first made (.refused e)) :
    ∀ config last, e ≠ .throttled config last := by
  generalize hend : End.refused e = ending at h
  induction h with
  | exhausted => cases hend
  | answer _ => cases hend
  | refuse hverdict =>
    cases hend
    exact verdict_refuse hverdict
  | again _ _ ih => exact ih hend

-- ==== fail-over

/-- What an ending gives: the result, and the index of the entry that
answered. -/
def End.settled (lastError : BedrockError) :
    End ρ → Except BedrockError ρ × Option Nat
  | .answered r index => (.ok r, some index)
  | .refused e => (.error e, none)
  | .exhausted => (.error lastError, none)

theorem Passes.index_mem {first made : List (Slot γ κ)} {r : ρ}
    (h : Passes oracle calls first made (.answered r index)) :
    ∃ s ∈ first, s.index = index := by
  generalize hend : End.answered r index = ending at h
  induction h with
  | exhausted => cases hend
  | answer _ =>
    cases hend
    exact ⟨_, List.mem_cons_self, rfl⟩
  | refuse _ => cases hend
  | again _ _ ih =>
    obtain ⟨s, hs, hindex⟩ := ih hend
    exact ⟨s, List.mem_cons_of_mem _ hs, hindex⟩

/-- Fail-over is a pass over the schedule. -/
theorem failoverLoop_passes {request : RequestKwargs κ}
    {order : List (Attempt γ × Nat)} {last : Option BedrockError}
    (hretries : ∀ a ∈ order, 1 ≤ a.1.config.maxRetries) :
    ∃ (made : List (Slot γ κ)) (ending : End ρ) (lastError : BedrockError),
      Passes oracle calls (schedule request order) made ending ∧
      failoverLoop oracle request order last calls =
        ((ending.settled lastError).1, (ending.settled lastError).2,
          calls ++ made.map Slot.call) ∧
      ((order ≠ [] ∨ ∃ config t, last = some (.throttled config t)) →
        ∃ config t, lastError = .throttled config t) := by
  induction order generalizing calls last with
  | nil =>
    refine ⟨[], .exhausted, last.getD .assertionError, .exhausted, ?_, ?_⟩
    · rw [failoverLoop, List.map_nil, List.append_nil]
      rfl
    · intro h
      obtain ⟨config, t, hlast⟩ := h.resolve_left (not_not_intro rfl)
      exact ⟨config, t, by rw [hlast]; rfl⟩
  | cons a order ih =>
    obtain ⟨attempt, index⟩ := a
    have hpos : 0 < attempt.config.maxRetries.toNat := by
      have := hretries (attempt, index) List.mem_cons_self
      dsimp only at this
      omega
    obtain ⟨made, ending, t, hpasses, hloop⟩ := @attemptLoop_passes
      γ κ ρ oracle calls
      ⟨attempt.client, attemptRequest request attempt.modelId⟩
      attempt.config index _ hpos
    have hrest := fun a (ha : a ∈ order) =>
      hretries a (List.mem_cons_of_mem _ ha)
    unfold schedule
    rw [List.flatMap_cons, failoverLoop]
    unfold callConverseWithRetryOneRegion
    rw [hloop]
    cases ending with
    | answered r i =>
      obtain ⟨s, hs, hindex⟩ := hpasses.index_mem
      rw [List.eq_of_mem_replicate hs] at hindex
      rw [← hindex] at hpasses
      refine ⟨made, .answered r index, .throttled attempt.config t, ?_,
        rfl, fun _ => ⟨_, _, rfl⟩⟩
      exact hpasses.settled fun h => by cases h
    | refused e =>
      refine ⟨made, .refused e, .throttled attempt.config t, ?_, ?_,
        fun _ => ⟨_, _, rfl⟩⟩
      · exact hpasses.settled fun h => by cases h
      have hrefusal := hpasses.refusal
      cases e with
      | throttled config last => exact absurd rfl (hrefusal config last)
      | accessDenied config code message => rfl
      | invocation config code message httpStatusCode => rfl
      | assertionError => rfl
    | exhausted =>
      obtain ⟨made', ending, lastError, hpasses', hloop', hlast⟩ :=
        @ih (calls ++ made.map Slot.call)
          (some (.throttled attempt.config t)) hrest
      refine ⟨made ++ made', ending, lastError,
        hpasses.append hpasses', ?_, ?_⟩
      · rw [List.map_append, ← List.append_assoc]
        exact hloop'
      · exact fun _ => hlast (Or.inr ⟨_, _, rfl⟩)

-- ==== what passes

theorem again_of_verdict {o : Outcome ρ} {t : Transient}
    (h : verdict config o = .again t) : o.Again := by
  refine ⟨t, fun config' => ?_⟩
  cases o with
  | response r => cases h
  | timeout => exact h
  | botoCoreError text => exact h
  | clientError code message httpStatusCode =>
    rw [verdict] at h ⊢
    split at h
    · cases h
    · next hdenied =>
      rw [if_neg hdenied]
      split at h
      · next hthrottling =>
        rw [if_pos hthrottling]
        exact h
      · cases h

theorem response_of_verdict {o : Outcome ρ} {r : ρ}
    (h : verdict config o = .answer r) : o = .response r := by
  cases o with
  | response r' =>
    cases h
    rfl
  | timeout => cases h
  | botoCoreError text => cases h
  | clientError code message httpStatusCode =>
    rw [verdict] at h
    split at h
    · cases h
    · split at h <;> cases h

/-- Where a pass stops, and why. -/
def Stopped (oracle : Oracle γ κ ρ) (slots made : List (Slot γ κ)) :
    End ρ → Prop
  | .answered r index => ∃ before s, made = before ++ [s] ∧
      s.index = index ∧ oracle (made.map Slot.call) = .response r
  | .refused e => ∃ before s, made = before ++ [s] ∧
      verdict s.config (oracle (made.map Slot.call)) = .refuse e
  | .exhausted => made = slots ∧
      ∀ k < made.length, (oracle ((made.take (k + 1)).map Slot.call)).Again

theorem Passes.stops {slots made : List (Slot γ κ)} {ending : End ρ}
    (h : Passes oracle calls slots made ending) :
    made <+: slots ∧
    (∀ k, k + 1 < made.length →
      (oracle (calls ++ (made.take (k + 1)).map Slot.call)).Again) ∧
    Stopped (fun l => oracle (calls ++ l)) slots made ending := by
  induction h with
  | exhausted =>
    refine ⟨List.prefix_rfl, fun k hk => ?_, rfl, fun k hk => ?_⟩
    · exact absurd hk (Nat.not_lt_zero _)
    · exact absurd hk (Nat.not_lt_zero _)
  | answer hverdict =>
    refine ⟨⟨_, rfl⟩, fun k hk => ?_, [], _, rfl, rfl, ?_⟩
    · rw [List.length_singleton] at hk
      omega
    · exact response_of_verdict hverdict
  | refuse hverdict =>
    refine ⟨⟨_, rfl⟩, fun k hk => ?_, [], _, rfl, hverdict⟩
    rw [List.length_singleton] at hk
    omega
  | again hverdict _ ih =>
    next calls s rest made t ending hpasses =>
    obtain ⟨hbegins, hagain, hstop⟩ := ih
    have hshift : ∀ l : List (Converse γ κ),
        calls ++ [s.call] ++ l = calls ++ s.call :: l :=
      fun l => List.append_cons _ _ _ |>.symm
    refine ⟨(List.prefix_cons_inj s).2 hbegins, fun k hk => ?_, ?_⟩
    · cases k with
      | zero => exact again_of_verdict hverdict
      | succ k =>
        have hmore := hagain k (Nat.lt_of_succ_lt_succ hk)
        rw [hshift] at hmore
        exact hmore
    · cases ending with
      | answered r index =>
        obtain ⟨before, last, hmade, hindex, hresponse⟩ := hstop
        refine ⟨s :: before, last, by rw [hmade]; rfl, hindex, ?_⟩
        dsimp only at hresponse ⊢
        rw [hshift] at hresponse
        exact hresponse
      | refused e =>
        obtain ⟨before, last, hmade, hrefuse⟩ := hstop
        refine ⟨s :: before, last, by rw [hmade]; rfl, ?_⟩
        dsimp only at hrefuse ⊢
        rw [hshift] at hrefuse
        exact hrefuse
      | exhausted =>
        obtain ⟨hmade, hall⟩ := hstop
        refine ⟨by rw [hmade], fun k hk => ?_⟩
        cases k with
        | zero => exact again_of_verdict hverdict
        | succ k =>
          have hmore := hall k (Nat.lt_of_succ_lt_succ hk)
          dsimp only at hmore ⊢
          rw [hshift] at hmore
          exact hmore

-- ==== schedules

variable {attempts : List (Attempt γ)} {start : Nat}
  {request : RequestKwargs κ}

theorem orderFrom_snd (h : start ≤ attempts.length) :
    (orderFrom start attempts).map Prod.snd =
      List.range' start (attempts.length - start) ++ List.range start := by
  unfold orderFrom
  rw [List.map_append, List.map_drop, List.map_take, List.zipIdx_map_snd,
    List.drop_range', List.take_range'_of_length_ge h, Nat.zero_add,
    Nat.mul_one, List.range_eq_range']

theorem orderFrom_nodup : ((orderFrom start attempts).map Prod.snd).Nodup := by
  unfold orderFrom
  rw [List.map_append, List.perm_append_comm.nodup_iff, ← List.map_append,
    List.take_append_drop, List.zipIdx_map_snd]
  exact List.nodup_range'

theorem mem_orderFrom {a : Attempt γ × Nat}
    (h : a ∈ orderFrom start attempts) : attempts[a.2]? = some a.1 := by
  unfold orderFrom at h
  have hmem : a ∈ attempts.zipIdx := by
    rcases List.mem_append.1 h with h | h
    · exact List.mem_of_mem_drop h
    · exact List.mem_of_mem_take h
  exact List.mem_zipIdx_iff_getElem?.1 hmem

theorem attemptRequest_eq (request : RequestKwargs κ) (modelId : String) :
    attemptRequest request modelId =
      { request with modelId := some modelId } := by
  unfold attemptRequest
  split
  · next h => rw [← h]
  · rfl

theorem schedule_count {order : List (Attempt γ × Nat)} {retries : Nat}
    (hnodup : (order.map Prod.snd).Nodup)
    (hretries : ∀ a ∈ order, a.1.config.maxRetries.toNat = retries) :
    (schedule request order).countP (·.index = index) ≤ retries := by
  induction order with
  | nil => exact Nat.zero_le _
  | cons a order ih =>
    obtain ⟨hnot, hrest⟩ := List.nodup_cons.1 hnodup
    have hih := ih hrest fun a ha =>
      hretries a (List.mem_cons_of_mem _ ha)
    unfold schedule at hih ⊢
    rw [List.flatMap_cons, List.countP_append, List.countP_replicate,
      hretries a List.mem_cons_self]
    split
    · next hindex =>
      have hnone : (order.flatMap fun a =>
          List.replicate a.1.config.maxRetries.toNat
            (⟨⟨a.1.client, attemptRequest request a.1.modelId⟩,
              a.1.config, a.2⟩ : Slot γ κ)).countP (·.index = index) =
            0 := by
        refine List.countP_eq_zero.2 fun s hs hsame => hnot ?_
        obtain ⟨a', ha', hs⟩ := List.mem_flatMap.1 hs
        rw [List.eq_of_mem_replicate hs] at hsame
        have hsnd : a'.2 = a.2 :=
          (of_decide_eq_true hsame).trans (of_decide_eq_true hindex).symm
        exact hsnd ▸ List.mem_map_of_mem ha'
      omega
    · omega

-- ==== the answer

section Answer

variable (client : γ) (request : RequestKwargs κ)
  (config : BedrockBackendConfig) (fallbackClients : List (γ × String))
  (fallbackModels : List String) (stickyState : Option (Option Int))

theorem attemptsOf_config {a : Attempt γ}
    (h : a ∈ attemptsOf client config fallbackClients fallbackModels) :
    a.config.maxRetries = config.maxRetries := by
  obtain ⟨modelId, -, h⟩ := List.mem_flatMap.1 h
  obtain ⟨region, -, h⟩ := List.mem_map.1 h
  rw [← h]

/-- Where the call starts. -/
def startAt : Nat :=
  startOf stickyState
    (attemptsOf client config fallbackClients fallbackModels).length

/-- All calls that it may come to, in order. -/
def plan : List (Slot γ κ) :=
  schedule request
    (orderFrom (startAt client config fallbackClients fallbackModels
      stickyState) (attemptsOf client config fallbackClients fallbackModels))

/-- What an ending gives back. -/
def Gives (stickyState : Option (Option Int)) (answer : Answer γ κ ρ) :
    End ρ → Prop
  | .answered r index => answer.result = .ok r ∧
      answer.stickyState = stickyState.map fun _ => some (index : Int)
  | .refused e => answer.result = .error e ∧
      answer.stickyState = stickyState ∧ ∀ config last, e ≠ .throttled config last
  | .exhausted => (∃ config last,
      answer.result = .error (.throttled config last)) ∧
        answer.stickyState = stickyState

theorem startAt_lt :
    startAt client config fallbackClients fallbackModels stickyState <
      (attemptsOf client config fallbackClients fallbackModels).length := by
  have hpos :
      0 < (attemptsOf client config fallbackClients fallbackModels).length :=
    Nat.succ_pos _
  unfold startAt startOf
  cases stickyState with
  | none => exact hpos
  | some index =>
    show (index.getD 0 % _).toNat < _
    have hlt := Int.emod_lt_of_pos (index.getD 0) (Int.natCast_pos.2 hpos)
    have hge := Int.emod_nonneg (index.getD 0)
      (Int.natCast_ne_zero.2 hpos.ne')
    omega

theorem callConverseWithRetry_passes (hretries : 1 ≤ config.maxRetries) :
    ∃ (made : List (Slot γ κ)) (ending : End ρ),
      Passes oracle [] (plan client request config fallbackClients
        fallbackModels stickyState) made ending ∧
      (callConverseWithRetry oracle client request config fallbackClients
        fallbackModels stickyState).calls = made.map Slot.call ∧
      Gives stickyState (callConverseWithRetry oracle client request config
        fallbackClients fallbackModels stickyState) ending := by
  have hall : ∀ a ∈ orderFrom (startAt client config fallbackClients
      fallbackModels stickyState)
      (attemptsOf client config fallbackClients fallbackModels),
      1 ≤ a.1.config.maxRetries := by
    intro a ha
    have hmem := List.mem_of_getElem? (mem_orderFrom ha)
    rw [attemptsOf_config client config fallbackClients fallbackModels hmem]
    exact hretries
  obtain ⟨made, ending, lastError, hpasses, hloop, hlast⟩ :=
    @failoverLoop_passes γ κ ρ oracle [] request _ none hall
  have hne : orderFrom (startAt client config fallbackClients
      fallbackModels stickyState)
      (attemptsOf client config fallbackClients fallbackModels) ≠ [] := by
    intro hnil
    have hlength := congrArg List.length hnil
    unfold orderFrom at hlength
    rw [List.length_append, Nat.add_comm, ← List.length_append,
      List.take_append_drop, List.length_zipIdx] at hlength
    cases hlength
  have hanswer : callConverseWithRetry oracle client request config
      fallbackClients fallbackModels stickyState =
      ⟨(ending.settled lastError).1,
        (ending.settled lastError).2.elim stickyState fun index =>
          stickyState.map fun _ => some (index : Int),
        made.map Slot.call⟩ := by
    unfold callConverseWithRetry
    dsimp only
    unfold startAt at hloop
    rw [hloop]
    rfl
  refine ⟨made, ending, hpasses, by rw [hanswer], ?_⟩
  rw [hanswer]
  cases ending with
  | answered r index => exact ⟨rfl, rfl⟩
  | refused e => exact ⟨rfl, rfl, hpasses.refusal⟩
  | exhausted =>
    obtain ⟨config', t, hthrottled⟩ := hlast (Or.inl hne)
    exact ⟨⟨config', t, by rw [← hthrottled]; rfl⟩, rfl⟩

/-- A plan has every entry once, cyclically from the sticky one on, with
at most as many calls as there are retries, each for the entry's model. -/
theorem plan_cyclic :
    (orderFrom (startAt client config fallbackClients fallbackModels
      stickyState) (attemptsOf client config fallbackClients
        fallbackModels)).map Prod.snd =
      List.range' (startAt client config fallbackClients fallbackModels
        stickyState)
        ((attemptsOf client config fallbackClients fallbackModels).length -
          startAt client config fallbackClients fallbackModels stickyState) ++
      List.range (startAt client config fallbackClients fallbackModels
        stickyState) ∧
    (∀ index, (plan client request config fallbackClients fallbackModels
        stickyState).countP (·.index = index) ≤ config.maxRetries.toNat) ∧
    ∀ s ∈ plan client request config fallbackClients fallbackModels
        stickyState,
      ∃ a, (attemptsOf client config fallbackClients
          fallbackModels)[s.index]? = some a ∧
        s.call.client = a.client ∧
        s.call.request = { request with modelId := some a.modelId } := by
  have hlt := startAt_lt client config fallbackClients fallbackModels
    stickyState
  refine ⟨orderFrom_snd hlt.le, fun index => ?_, fun s hs => ?_⟩
  · refine schedule_count orderFrom_nodup fun a ha => ?_
    have hmem := List.mem_of_getElem? (mem_orderFrom ha)
    rw [attemptsOf_config client config fallbackClients fallbackModels hmem]
  · obtain ⟨a, ha, hs⟩ := List.mem_flatMap.1 hs
    rw [List.eq_of_mem_replicate hs]
    exact ⟨a.1, mem_orderFrom ha, rfl, attemptRequest_eq request a.1.modelId⟩

theorem not_again_of_response {o : Outcome ρ} {r : ρ}
    (h : o = .response r) : ¬ o.Again := by
  intro hagain
  obtain ⟨t, ht⟩ := hagain
  rw [h] at ht
  cases ht ⟨"", "", 0, 0⟩

/-- The calls that are made begin the plan; all but the last come to
something transient, and the last one settles the answer: a response is
returned, and is where the next call starts; a refusal is raised, and
changes nothing; and throttling is raised if and only if all calls of the
plan were made and came to something transient. -/
theorem failover_in_order (oracle : Oracle γ κ ρ)
    (hretries : 1 ≤ config.maxRetries) :
    (∃ (made : List (Slot γ κ)) (ending : End ρ),
      made <+: plan client request config fallbackClients fallbackModels
        stickyState ∧
      (callConverseWithRetry oracle client request config fallbackClients
        fallbackModels stickyState).calls = made.map Slot.call ∧
      (∀ k, k + 1 < made.length →
        (oracle ((made.take (k + 1)).map Slot.call)).Again) ∧
      Stopped oracle (plan client request config fallbackClients
        fallbackModels stickyState) made ending ∧
      Gives stickyState (callConverseWithRetry oracle client request config
        fallbackClients fallbackModels stickyState) ending) ∧
    ((∃ config' last, (callConverseWithRetry oracle client request config
        fallbackClients fallbackModels stickyState).result =
          .error (.throttled config' last)) ↔
      (callConverseWithRetry oracle client request config fallbackClients
        fallbackModels stickyState).calls =
          (plan client request config fallbackClients fallbackModels
            stickyState).map Slot.call ∧
      ∀ k < (plan client request config fallbackClients fallbackModels
          stickyState).length,
        (oracle (((plan client request config fallbackClients fallbackModels
          stickyState).take (k + 1)).map Slot.call)).Again) ∧
    ((orderFrom (startAt client config fallbackClients fallbackModels
        stickyState) (attemptsOf client config fallbackClients
          fallbackModels)).map Prod.snd =
        List.range' (startAt client config fallbackClients fallbackModels
          stickyState)
          ((attemptsOf client config fallbackClients
            fallbackModels).length - startAt client config fallbackClients
              fallbackModels stickyState) ++
        List.range (startAt client config fallbackClients fallbackModels
          stickyState) ∧
      (∀ index, (plan client request config fallbackClients fallbackModels
          stickyState).countP (·.index = index) ≤
            config.maxRetries.toNat) ∧
      ∀ s ∈ plan client request config fallbackClients fallbackModels
          stickyState,
        ∃ a, (attemptsOf client config fallbackClients
            fallbackModels)[s.index]? = some a ∧
          s.call.client = a.client ∧
          s.call.request = { request with modelId := some a.modelId }) := by
  obtain ⟨made, ending, hpasses, hcalls, hgives⟩ :=
    @callConverseWithRetry_passes γ κ ρ oracle client request config
      fallbackClients fallbackModels stickyState hretries
  obtain ⟨hbegins, hagain, hstop⟩ := hpasses.stops
  dsimp only [List.nil_append] at hagain hstop
  refine ⟨⟨made, ending, hbegins, hcalls, hagain, hstop, hgives⟩, ?_,
    plan_cyclic client request config fallbackClients fallbackModels
      stickyState⟩
  rw [hcalls]
  have hall : made.map Slot.call = (plan client request config
      fallbackClients fallbackModels stickyState).map Slot.call →
      made = plan client request config fallbackClients fallbackModels
        stickyState := by
    intro hsame
    refine hbegins.eq_of_length ?_
    have hlength := congrArg List.length hsame
    rwa [List.length_map, List.length_map] at hlength
  cases ending with
  | answered r index =>
    obtain ⟨before, s, hmade, -, hresponse⟩ := hstop
    refine iff_of_false (fun h => ?_) fun h => ?_
    · obtain ⟨config', last, h⟩ := h
      rw [hgives.1] at h
      cases h
    · have hplan := hall h.1
      have hlast := h.2 before.length (by
        rw [← hplan, hmade, List.length_append]
        exact Nat.lt_succ_self _)
      rw [← hplan, hmade, List.take_of_length_le (by
        rw [List.length_append]
        rfl), ← hmade] at hlast
      exact not_again_of_response hresponse hlast
  | refused e =>
    obtain ⟨before, s, hmade, hrefuse⟩ := hstop
    refine iff_of_false (fun h => ?_) fun h => ?_
    · obtain ⟨config', last, h⟩ := h
      rw [hgives.1] at h
      exact hgives.2.2 config' last (Except.error.inj h)
    · have hplan := hall h.1
      have hlast := h.2 before.length (by
        rw [← hplan, hmade, List.length_append]
        exact Nat.lt_succ_self _)
      rw [← hplan, hmade, List.take_of_length_le (by
        rw [List.length_append]
        rfl), ← hmade] at hlast
      obtain ⟨t, ht⟩ := hlast
      rw [ht s.config] at hrefuse
      cases hrefuse
  | exhausted =>
    obtain ⟨hmade, hevery⟩ := hstop
    refine iff_of_true hgives.1 ⟨by rw [hmade], ?_⟩
    rw [← hmade]
    exact hevery

end Answer

-- ------------------------------------------------------ a call that fails over

/-- Two attempts for an entry. -/
def twice : BedrockBackendConfig := ⟨"m", "us-east-1", 180, 2⟩

/-- Throttled, timed out, disconnected, and then well. -/
def flaky : Oracle Nat Unit String := fun calls =>
  match calls.length with
  | 1 => .clientError "ThrottlingException" "rate" (some 429)
  | 2 => .timeout
  | 3 => .botoCoreError "reset"
  | _ => .response "done"

/-- A call that starts at the second model's first region. -/
def flakyAnswer : Answer Nat Unit String :=
  callConverseWithRetry flaky 0 ⟨some "m", ()⟩ twice [(1, "us-west-2")] ["n"]
    (some (some 2))

/-- Of four entries the third is sticky: its two attempts fail, and the
second attempt at the fourth is answered. -/
theorem failover_in_order_flaky :
    flakyAnswer.result = .ok "done" ∧
    flakyAnswer.stickyState = some (some 3) ∧
    flakyAnswer.calls.map (fun c => (c.client, c.request.modelId)) =
      [(0, some "n"), (0, some "n"), (1, some "n"), (1, some "n")] ∧
    ∃ (made : List (Slot Nat Unit)) (ending : End String),
      made <+: plan 0 ⟨some "m", ()⟩ twice [(1, "us-west-2")] ["n"]
        (some (some 2)) ∧
      flakyAnswer.calls = made.map Slot.call ∧
      (∀ k, k + 1 < made.length →
        (flaky ((made.take (k + 1)).map Slot.call)).Again) ∧
      Stopped flaky (plan 0 ⟨some "m", ()⟩ twice [(1, "us-west-2")] ["n"]
        (some (some 2))) made ending ∧
      Gives (some (some 2)) flakyAnswer ending :=
  ⟨by decide, by decide, by decide,
    (failover_in_order 0 ⟨some "m", ()⟩ twice [(1, "us-west-2")] ["n"]
      (some (some 2)) flaky (by decide)).1⟩

end SdlcOs.Failover
