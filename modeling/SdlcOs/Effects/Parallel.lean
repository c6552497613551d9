/-
Two systems over one world.

# The product

Two machines whose requests act on the same world run side by side: a
`Pair` is the world and the processes of both. An action is one of either
side's, and moves that side as it would alone (`Pair.first`,
`Pair.second`) while the other side's processes stay where they are.

# Together

Nothing new has to be proved about the programs. When the disciplines of
the two sides keep one invariant and stay within one relation, each side
is to the other just more interference: `Reach.together` is
`Reach.interleaved` for both at once.
-/
import SdlcOs.Effects.Rely

namespace SdlcOs.Effects

variable {Req₁ Req₂ : Type} {Resp₁ Env₁ : Req₁ → Type}
variable {Resp₂ Env₂ : Req₂ → Type}
variable {W Answer₁ X₁ Call₁ σ₁ β₁ Pid₁ Answer₂ X₂ Call₂ σ₂ β₂ Pid₂ : Type}

/-- The world, and the processes of two systems over it. -/
structure Pair (Resp₁ : Req₁ → Type) (Resp₂ : Req₂ → Type)
    (W X₁ Call₁ σ₁ β₁ Pid₁ X₂ Call₂ σ₂ β₂ Pid₂ : Type) where
  world : W
  left : Pid₁ → Option (Proc Resp₁ X₁ Call₁ σ₁ β₁)
  right : Pid₂ → Option (Proc Resp₂ X₂ Call₂ σ₂ β₂)

namespace Pair

/-- The first system, alone. -/
def first (s : Pair Resp₁ Resp₂ W X₁ Call₁ σ₁ β₁ Pid₁ X₂ Call₂ σ₂ β₂ Pid₂) :
    Sys Resp₁ W X₁ Call₁ σ₁ β₁ Pid₁ := ⟨s.world, s.left⟩

/-- The second system, alone. -/
def second
    (s : Pair Resp₁ Resp₂ W X₁ Call₁ σ₁ β₁ Pid₁ X₂ Call₂ σ₂ β₂ Pid₂) :
    Sys Resp₂ W X₂ Call₂ σ₂ β₂ Pid₂ := ⟨s.world, s.right⟩

/-- The pair at rest in a world. -/
def idle (w : W) :
    Pair Resp₁ Resp₂ W X₁ Call₁ σ₁ β₁ Pid₁ X₂ Call₂ σ₂ β₂ Pid₂ :=
  ⟨w, fun _ => none, fun _ => none⟩

end Pair

/-- Two machines over one world. -/
structure Machines (Resp₁ Env₁ : Req₁ → Type) (Resp₂ Env₂ : Req₂ → Type)
    (W Answer₁ X₁ Call₁ σ₁ β₁ Answer₂ X₂ Call₂ σ₂ β₂ : Type) where
  fst : Machine Resp₁ Env₁ Answer₁ W X₁ Call₁ σ₁ β₁
  snd : Machine Resp₂ Env₂ Answer₂ W X₂ Call₂ σ₂ β₂

namespace Machines

/-- The states of the two systems. -/
abbrev State (_ : Machines Resp₁ Env₁ Resp₂ Env₂ W Answer₁ X₁ Call₁ σ₁ β₁
    Answer₂ X₂ Call₂ σ₂ β₂) (Pid₁ Pid₂ : Type) : Type :=
  Pair Resp₁ Resp₂ W X₁ Call₁ σ₁ β₁ Pid₁ X₂ Call₂ σ₂ β₂ Pid₂

/-- An action of one side or the other. -/
abbrev Act (_ : Machines Resp₁ Env₁ Resp₂ Env₂ W Answer₁ X₁ Call₁ σ₁ β₁
    Answer₂ X₂ Call₂ σ₂ β₂) (Pid₁ Pid₂ : Type) : Type :=
  Action Pid₁ Answer₁ Call₁ ⊕ Action Pid₂ Answer₂ Call₂

variable (Ms : Machines Resp₁ Env₁ Resp₂ Env₂ W Answer₁ X₁ Call₁ σ₁ β₁
  Answer₂ X₂ Call₂ σ₂ β₂)
variable [DecidableEq Pid₁] [DecidableEq Pid₂]

/-- Take one action, or refuse it. -/
def apply : Ms.Act Pid₁ Pid₂ → Ms.State Pid₁ Pid₂ →
    Option (Ms.State Pid₁ Pid₂)
  | .inl a, s => (Ms.fst.apply a s.first).map fun t =>
    ⟨t.world, t.procs, s.right⟩
  | .inr a, s => (Ms.snd.apply a s.second).map fun t =>
    ⟨t.world, s.left, t.procs⟩

/-- The states of the runs all of whose actions met `cond`. -/
inductive Reach (init : W → Prop)
    (cond : Ms.State Pid₁ Pid₂ → Ms.Act Pid₁ Pid₂ → Prop) :
    Ms.State Pid₁ Pid₂ → Prop
  | init {w : W} (hw : init w) : Reach init cond (Pair.idle w)
  | step {s s' : Ms.State Pid₁ Pid₂} {a : Ms.Act Pid₁ Pid₂}
      (hs : Reach init cond s) (hc : cond s a)
      (h : Ms.apply a s = some s') : Reach init cond s'

/-- The states a run from a state reaches. -/
inductive Leads (cond : Ms.State Pid₁ Pid₂ → Ms.Act Pid₁ Pid₂ → Prop) :
    Ms.State Pid₁ Pid₂ → Ms.State Pid₁ Pid₂ → Prop
  | refl (s : Ms.State Pid₁ Pid₂) : Leads cond s s
  | step {s s' s'' : Ms.State Pid₁ Pid₂} {a : Ms.Act Pid₁ Pid₂}
      (hs : Leads cond s s') (hc : cond s' a)
      (h : Ms.apply a s' = some s'') : Leads cond s s''

/-- Take a list of actions in order, checking each. -/
def run (Ms : Machines Resp₁ Env₁ Resp₂ Env₂ W Answer₁ X₁ Call₁ σ₁ β₁
    Answer₂ X₂ Call₂ σ₂ β₂)
    (chk : Ms.State Pid₁ Pid₂ → Ms.Act Pid₁ Pid₂ → Bool) :
    List (Ms.Act Pid₁ Pid₂) → Ms.State Pid₁ Pid₂ →
      Option (Ms.State Pid₁ Pid₂)
  | [], s => some s
  | a :: rest, s =>
    if chk s a then
      match Ms.apply a s with
      | none => none
      | some s' => Ms.run chk rest s'
    else none

variable {Ms}
variable {cond : Ms.State Pid₁ Pid₂ → Ms.Act Pid₁ Pid₂ → Prop}
variable {s s' s'' : Ms.State Pid₁ Pid₂} {init : W → Prop}

theorem Reach.leads (hs : Ms.Reach init cond s) (h : Ms.Leads cond s s') :
    Ms.Reach init cond s' := by
  induction h with
  | refl => exact hs
  | step _ hc happ ih => exact .step ih hc happ

theorem leads_of_run
    {chk : Ms.State Pid₁ Pid₂ → Ms.Act Pid₁ Pid₂ → Bool}
    (hchk : ∀ s a, chk s a = true → cond s a) :
    ∀ {acts : List (Ms.Act Pid₁ Pid₂)} {s s' : Ms.State Pid₁ Pid₂},
      Ms.Leads cond s'' s → Ms.run chk acts s = some s' →
        Ms.Leads cond s'' s' := by
  intro acts
  induction acts with
  | nil =>
    intro s s' hs h
    exact Option.some.inj h ▸ hs
  | cons a rest ih =>
    intro s s' hs h
    simp only [run] at h
    split at h
    · next hc =>
      split at h
      · cases h
      · next s₁ happ => exact ih (.step hs (hchk _ _ hc) happ) h
    · cases h

-- ==== together

section Together

variable {D₁ : Discipline Resp₁ Env₁ W Call₁ σ₁}
variable {D₂ : Discipline Resp₂ Env₂ W Call₂ σ₂}

/-- The two disciplines keep one invariant and stay within one
relation. -/
structure Agree (D₁ : Discipline Resp₁ Env₁ W Call₁ σ₁)
    (D₂ : Discipline Resp₂ Env₂ W Call₂ σ₂) : Prop where
  inv : D₂.inv = D₁.inv
  rel : D₂.rel = D₁.rel
  refl : ∀ w, D₁.rel w w

/-- Both sides are orderly. -/
structure Orderly (D₁ : Discipline Resp₁ Env₁ W Call₁ σ₁)
    (D₂ : Discipline Resp₂ Env₂ W Call₂ σ₂)
    (s : Ms.State Pid₁ Pid₂) : Prop where
  first : Machine.Orderly D₁ s.first
  second : Machine.Orderly D₂ s.second

/-- The runs the two disciplines speak of. -/
structure Allows (Ms : Machines Resp₁ Env₁ Resp₂ Env₂ W Answer₁ X₁ Call₁ σ₁
      β₁ Answer₂ X₂ Call₂ σ₂ β₂)
    (D₁ : Discipline Resp₁ Env₁ W Call₁ σ₁)
    (D₂ : Discipline Resp₂ Env₂ W Call₂ σ₂)
    (cond : Ms.State Pid₁ Pid₂ → Ms.Act Pid₁ Pid₂ → Prop) : Prop where
  first : Ms.fst.Allows D₁ fun t a => ∃ s, s.first = t ∧ cond s (.inl a)
  second : Ms.snd.Allows D₂ fun t a => ∃ s, s.second = t ∧ cond s (.inr a)

theorem Orderly.step (hF₁ : D₁.Follows Ms.fst) (hF₂ : D₂.Follows Ms.snd)
    (hS₁ : D₁.Sound Ms.fst) (hS₂ : D₂.Sound Ms.snd) (hagree : Agree D₁ D₂)
    (hall : Allows Ms D₁ D₂ cond) (hs : Orderly D₁ D₂ s)
    {a : Ms.Act Pid₁ Pid₂} (hc : cond s a)
    (h : Ms.apply a s = some s') :
    Orderly D₁ D₂ s' ∧ D₁.rel s.world s'.world := by
  cases a with
  | inl a =>
    obtain ⟨t, ht, rfl⟩ := Option.map_eq_some_iff.1 h
    obtain ⟨hfirst, hrel⟩ := hs.first.step hF₁ hS₁ hagree.refl hall.first
      ⟨s, rfl, hc⟩ ht
    refine ⟨⟨hfirst, ?_, ?_⟩, hrel⟩
    · rw [hagree.inv]
      exact hfirst.inv
    · intro q pr hq
      have hold := hs.second.procs q pr hq
      exact ⟨hS₂.stable (hagree.rel ▸ hrel) hold.knows, hold.paths⟩
  | inr a =>
    obtain ⟨t, ht, rfl⟩ := Option.map_eq_some_iff.1 h
    obtain ⟨hsecond, hrel⟩ := hs.second.step hF₂ hS₂
      (hagree.rel ▸ hagree.refl) hall.second ⟨s, rfl, hc⟩ ht
    rw [hagree.rel] at hrel
    refine ⟨⟨⟨?_, ?_⟩, hsecond⟩, hrel⟩
    · have hinv := hsecond.inv
      rw [hagree.inv] at hinv
      exact hinv
    · intro q pr hq
      have hold := hs.first.procs q pr hq
      exact ⟨hS₁.stable hrel hold.knows, hold.paths⟩

/-- Whatever the interleaving of the two systems, both are orderly. -/
theorem Reach.together (hF₁ : D₁.Follows Ms.fst) (hF₂ : D₂.Follows Ms.snd)
    (hS₁ : D₁.Sound Ms.fst) (hS₂ : D₂.Sound Ms.snd) (hagree : Agree D₁ D₂)
    (hall : Allows Ms D₁ D₂ cond) (hinit : ∀ w, init w → D₁.inv w)
    (hs : Ms.Reach init cond s) : Orderly D₁ D₂ s := by
  induction hs with
  | init hw =>
    refine ⟨⟨hinit _ hw, fun p pr hp => by cases hp⟩, ?_,
      fun p pr hp => by cases hp⟩
    rw [hagree.inv]
    exact hinit _ hw
  | step _ hc happ ih =>
    exact (ih.step hF₁ hF₂ hS₁ hS₂ hagree hall hc happ).1

/-- Along a run of the two systems the world stays within the
relation. -/
theorem Orderly.leads (hF₁ : D₁.Follows Ms.fst) (hF₂ : D₂.Follows Ms.snd)
    (hS₁ : D₁.Sound Ms.fst) (hS₂ : D₂.Sound Ms.snd) (hagree : Agree D₁ D₂)
    (hall : Allows Ms D₁ D₂ cond)
    (htrans : ∀ {w w' w''}, D₁.rel w w' → D₁.rel w' w'' → D₁.rel w w'')
    (hs : Orderly D₁ D₂ s) (h : Ms.Leads cond s s') :
    Orderly D₁ D₂ s' ∧ D₁.rel s.world s'.world := by
  induction h with
  | refl => exact ⟨hs, hagree.refl _⟩
  | step _ hc happ ih =>
    obtain ⟨hs', hrel⟩ := ih
    obtain ⟨hs'', hrel'⟩ := hs'.step hF₁ hF₂ hS₁ hS₂ hagree hall hc happ
    exact ⟨hs'', htrans hrel hrel'⟩

end Together

end Machines

end SdlcOs.Effects
