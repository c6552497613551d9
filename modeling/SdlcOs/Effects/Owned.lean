/-
Processes that own things of the world.

# Tokens

A lock, an open file or a reservation belongs to one process until that
process gives it back. What a process holds can be read off what it has
done in its phase (`holds`). No two processes hold the same token, and
what a process knows of the tokens it holds, no other can make untrue, as
long as nobody touches a token it does not hold.

# The rule

An `Ownership` says this of one step: whatever tokens the others hold, a
step leaves them held and unharmed, and the world keeps its invariant,
which may mention the tokens that are held by somebody. `Reach.owned` has
it then of every state of every interleaving, where no process is lost
with what it holds.
-/
import Mathlib
import SdlcOs.Effects.Rely

namespace SdlcOs.Effects

/-- What processes that own tokens are held to. -/
structure Ownership {Req : Type} (Resp : Req → Type) (W Call σ β Tok : Type)
    where
  may : Phase Call σ → Log Resp → Req → Prop
  holds : Phase Call σ → Log Resp → Set Tok
  handsOn : Phase Call σ → Log Resp → σ → Prop
  returns : Phase Call σ → Log Resp → β → Prop
  knows : Phase Call σ → Log Resp → W → Prop
  inv : W → Set Tok → Prop

namespace Ownership

variable {Req : Type} {Resp Env : Req → Type}
variable {Answer W X Call σ β Tok : Type}

/-- A turn hands its tokens on, or returns with none left. -/
def Ends (O : Ownership Resp W Call σ β Tok) (ph : Phase Call σ) :
    Ctl σ β → Log Resp → Prop
  | .again st, lg => O.handsOn ph lg st
  | .done b, lg => O.holds ph lg = ∅ ∧ O.returns ph lg b

/-- The programs of a machine keep to what they may ask for. -/
structure Follows (O : Ownership Resp W Call σ β Tok)
    (M : Machine Resp Env Answer W X Call σ β) : Prop where
  entry : ∀ c, (M.entry c).Paths (O.may (.entry c)) (O.Ends (.entry c)) []
  body : ∀ st, (M.body st).Paths (O.may (.loop st)) (O.Ends (.loop st)) []

/-- A step of one process, whatever the others hold. -/
structure Frames (O : Ownership Resp W Call σ β Tok)
    (M : Machine Resp Env Answer W X Call σ β) : Prop where
  called : ∀ w c, M.onCall w c = w
  fresh : ∀ c, O.holds (.entry c) [] = ∅
  entered : ∀ w c, O.knows (.entry c) [] w
  again : ∀ {ph : Phase Call σ} {lg : Log Resp} {st : σ},
    O.handsOn ph lg st → O.holds (.loop st) [] = O.holds ph lg ∧
      ∀ w, O.knows ph lg w → O.knows (.loop st) [] w
  asked : ∀ {w : W} {others : Set Tok} {ph : Phase Call σ} {lg : Log Resp}
    {e : Req} {x : Env e}, O.inv w (O.holds ph lg ∪ others) →
      Disjoint (O.holds ph lg) others → O.knows ph lg w → O.may ph lg e →
      O.inv (M.exec w e x).1
          (O.holds ph (⟨e, (M.exec w e x).2⟩ :: lg) ∪ others) ∧
        Disjoint (O.holds ph (⟨e, (M.exec w e x).2⟩ :: lg)) others ∧
        O.knows ph (⟨e, (M.exec w e x).2⟩ :: lg) (M.exec w e x).1 ∧
        ∀ ph' lg', O.holds ph' lg' ⊆ others → O.knows ph' lg' w →
          O.knows ph' lg' (M.exec w e x).1

end Ownership

namespace Sys

variable {Req : Type} {Resp : Req → Type} {W X Call σ β Pid Tok : Type}
variable (O : Ownership Resp W Call σ β Tok)

/-- What the processes but one hold. -/
def heldBut (s : Sys Resp W X Call σ β Pid) (p : Pid) : Set Tok :=
  {t | ∃ q pr, q ≠ p ∧ s.procs q = some pr ∧ t ∈ O.holds pr.phase pr.log}

/-- What the processes hold. -/
def held (s : Sys Resp W X Call σ β Pid) : Set Tok :=
  {t | ∃ q pr, s.procs q = some pr ∧ t ∈ O.holds pr.phase pr.log}

variable {O} {s : Sys Resp W X Call σ β Pid} {p : Pid}

theorem held_of_proc {pr : Proc Resp X Call σ β}
    (hp : s.procs p = some pr) :
    s.held O = O.holds pr.phase pr.log ∪ s.heldBut O p := by
  ext t
  constructor
  · rintro ⟨q, pr', hq, ht⟩
    by_cases hqp : q = p
    · subst hqp
      obtain rfl := Option.some.inj (hp.symm.trans hq)
      exact Or.inl ht
    · exact Or.inr ⟨q, pr', hqp, hq, ht⟩
  · rintro (ht | ⟨q, pr', -, hq, ht⟩)
    · exact ⟨p, pr, hp, ht⟩
    · exact ⟨q, pr', hq, ht⟩

theorem held_of_none (hp : s.procs p = none) :
    s.held O = s.heldBut O p := by
  ext t
  constructor
  · rintro ⟨q, pr', hq, ht⟩
    refine ⟨q, pr', ?_, hq, ht⟩
    rintro rfl
    rw [hp] at hq
    cases hq
  · rintro ⟨q, pr', -, hq, ht⟩
    exact ⟨q, pr', hq, ht⟩

variable [DecidableEq Pid]

theorem heldBut_put (w : W) (pr : Option (Proc Resp X Call σ β)) :
    (s.put w p pr).heldBut O p = s.heldBut O p := by
  ext t
  constructor
  · rintro ⟨q, pr', hqp, hq, ht⟩
    rw [put_procs_ne s w pr hqp] at hq
    exact ⟨q, pr', hqp, hq, ht⟩
  · rintro ⟨q, pr', hqp, hq, ht⟩
    refine ⟨q, pr', hqp, ?_, ht⟩
    rw [put_procs_ne s w pr hqp]
    exact hq

end Sys

namespace Machine

variable {Req : Type} {Resp Env : Req → Type}
variable {Answer W X Call σ β Pid Tok : Type} [DecidableEq Pid]
variable {M : Machine Resp Env Answer W X Call σ β}
variable {O : Ownership Resp W Call σ β Tok}

/-- Every process keeps to its paths and knows what it knows, no two hold
a token, and the invariant holds with what is held. -/
structure Owned (O : Ownership Resp W Call σ β Tok)
    (s : Sys Resp W X Call σ β Pid) : Prop where
  paths : ∀ p pr, s.procs p = some pr →
    pr.prog.Paths (O.may pr.phase) (O.Ends pr.phase) pr.log
  knows : ∀ p pr, s.procs p = some pr → O.knows pr.phase pr.log s.world
  apart : ∀ p pr, s.procs p = some pr →
    Disjoint (O.holds pr.phase pr.log) (s.heldBut O p)
  inv : O.inv s.world (s.held O)

variable {s : Sys Resp W X Call σ β Pid} {p : Pid}

/-- Another process holds nothing that a disjoint set of all others' has
not. -/
theorem Owned.put_some {w : W} {pr : Proc Resp X Call σ β}
    (h : Owned O s)
    (hpaths : pr.prog.Paths (O.may pr.phase) (O.Ends pr.phase) pr.log)
    (hknows : O.knows pr.phase pr.log w)
    (hapart : Disjoint (O.holds pr.phase pr.log) (s.heldBut O p))
    (hinv : O.inv w (O.holds pr.phase pr.log ∪ s.heldBut O p))
    (hothers : ∀ ph lg, O.holds ph lg ⊆ s.heldBut O p →
      O.knows ph lg s.world → O.knows ph lg w) :
    Owned O (s.put w p (some pr)) := by
  have hself : (s.put w p (some pr)).procs p = some pr :=
    Sys.put_procs_self ..
  refine ⟨?_, ?_, ?_, ?_⟩
  · intro q pr' hq
    by_cases hqp : q = p
    · subst hqp
      obtain rfl := Option.some.inj (hself.symm.trans hq)
      exact hpaths
    · rw [Sys.put_procs_ne s w _ hqp] at hq
      exact h.paths q pr' hq
  · intro q pr' hq
    by_cases hqp : q = p
    · subst hqp
      obtain rfl := Option.some.inj (hself.symm.trans hq)
      exact hknows
    · rw [Sys.put_procs_ne s w _ hqp] at hq
      exact hothers _ _ (fun t ht => ⟨q, pr', hqp, hq, ht⟩)
        (h.knows q pr' hq)
  · intro q pr' hq
    by_cases hqp : q = p
    · subst hqp
      obtain rfl := Option.some.inj (hself.symm.trans hq)
      rw [Sys.heldBut_put]
      exact hapart
    · rw [Sys.put_procs_ne s w _ hqp] at hq
      rw [Set.disjoint_left]
      rintro t ht ⟨q', pr'', hne, hq', ht'⟩
      by_cases hqp' : q' = p
      · subst hqp'
        obtain rfl := Option.some.inj (hself.symm.trans hq')
        exact Set.disjoint_left.1 hapart ht' ⟨q, pr', hqp, hq, ht⟩
      · rw [Sys.put_procs_ne s w _ hqp'] at hq'
        exact Set.disjoint_left.1 (h.apart q pr' hq) ht
          ⟨q', pr'', hne, hq', ht'⟩
  · rw [Sys.held_of_proc hself, Sys.heldBut_put]
    exact hinv

theorem Owned.put_none (h : Owned O s)
    (hinv : O.inv s.world (s.heldBut O p)) :
    Owned O (s.put s.world p none) := by
  have hold : ∀ q pr, (s.put s.world p none).procs q = some pr →
      q ≠ p ∧ s.procs q = some pr := by
    intro q pr hq
    by_cases hqp : q = p
    · subst hqp
      rw [Sys.put_procs_self] at hq
      cases hq
    · rw [Sys.put_procs_ne s s.world _ hqp] at hq
      exact ⟨hqp, hq⟩
  refine ⟨?_, ?_, ?_, ?_⟩
  · intro q pr hq
    exact h.paths q pr (hold q pr hq).2
  · intro q pr hq
    exact h.knows q pr (hold q pr hq).2
  · intro q pr hq
    refine (h.apart q pr (hold q pr hq).2).mono_right ?_
    rintro t ⟨q', pr', hne, hq', ht⟩
    exact ⟨q', pr', hne, (hold q' pr' hq').2, ht⟩
  · rw [Sys.held_of_none (p := p) (Sys.put_procs_self ..), Sys.heldBut_put]
    exact hinv

theorem Owned.step [IsEmpty X] (hF : O.Follows M) (hO : O.Frames M)
    {s' : Sys Resp W X Call σ β Pid} {a : Action Pid Answer Call}
    (hs : Owned O s) (hkept : ∀ p, a ≠ .crash p)
    (h : M.apply a s = some s') : Owned O s' := by
  cases apply_inv h with
  | @call p c hp =>
    rw [hO.called]
    have hinv := hs.inv
    rw [Sys.held_of_none hp] at hinv
    refine hs.put_some (hF.entry c) (hO.entered _ c) ?_ ?_
      (fun _ _ _ hk => hk)
    · rw [hO.fresh c]
      exact Set.empty_disjoint _
    · rw [hO.fresh c, Set.empty_union]
      exact hinv
  | @done p ans pr b hp hprog =>
    have hpaths := hs.paths p pr hp
    rw [hprog] at hpaths
    have hinv := hs.inv
    have hnone : O.holds pr.phase pr.log = ∅ := hpaths.1
    rw [Sys.held_of_proc hp, hnone, Set.empty_union] at hinv
    exact hs.put_none hinv
  | @again p ans pr st hp hprog =>
    have hpaths := hs.paths p pr hp
    rw [hprog] at hpaths
    obtain ⟨hsame, hknows⟩ := hO.again hpaths
    have hinv := hs.inv
    rw [Sys.held_of_proc hp, ← hsame] at hinv
    have hapart := hs.apart p pr hp
    rw [← hsame] at hapart
    exact hs.put_some (hF.body st) (hknows _ (hs.knows p pr hp)) hapart
      hinv (fun _ _ _ hk => hk)
  | @raised p ans pr x hp hprog => exact isEmptyElim x
  | @op p ans pr e k x hp hprog hx =>
    have hpaths := hs.paths p pr hp
    rw [hprog] at hpaths
    have hinv := hs.inv
    rw [Sys.held_of_proc hp] at hinv
    obtain ⟨hinv', hapart, hknows, hothers⟩ := hO.asked (x := x) hinv
      (hs.apart p pr hp) (hs.knows p pr hp) hpaths.1
    exact hs.put_some (hpaths.2 _) hknows hapart hinv' hothers
  | @crash p pr hp => exact absurd rfl (hkept p)

/-- Whatever the interleaving, as long as no process is lost. -/
theorem Reach.owned [IsEmpty X] (hF : O.Follows M) (hO : O.Frames M)
    {init : W → Prop} (hinit : ∀ w, init w → O.inv w ∅)
    {cond : Sys Resp W X Call σ β Pid → Action Pid Answer Call → Prop}
    (hkept : ∀ s p, ¬ cond s (.crash p))
    (hs : M.Reach init cond s) : Owned O s := by
  induction hs with
  | @init w hw =>
    have hnone : (Sys.idle w : Sys Resp W X Call σ β Pid).held O = ∅ := by
      ext t
      constructor
      · rintro ⟨q, pr, hq, -⟩
        cases hq
      · intro ht
        cases ht
    refine ⟨fun p pr hp => (by cases hp), fun p pr hp => (by cases hp),
      fun p pr hp => (by cases hp), ?_⟩
    rw [hnone]
    exact hinit w hw
  | step _ hc happ ih =>
    refine ih.step hF hO (fun p hp => ?_) happ
    subst hp
    exact hkept _ p hc

end Machine

end SdlcOs.Effects
