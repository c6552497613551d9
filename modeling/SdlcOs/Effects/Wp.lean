/-
Weakest preconditions for one process at a time, with crashes.

# Contracts

A sequential system has at most one process. A `Contract` says what such
a system keeps: `rest` holds of the world whenever nothing runs. While a
process runs the world may be in between, so the obligation there is
`cut`: were the process to stop now, by a crash or a raise, the world
would be fit to rest in. `stopOk` restricts where stops happen (it is
trivial for a system that may crash anywhere), `assume` what the
environment answers, and `oblige` is what must hold whenever a request
is about to be made.

# The rule

`Wp` folds a contract over a program. `wp_bind` makes it compositional,
so each function of a program gets one lemma and its callers cite it;
`Reach.sequential` is the soundness: entry programs safe from rest and a
loop body safe from its head make every reached state safe.
-/
import SdlcOs.Effects.System

namespace SdlcOs.Effects

/-- What a system of one process at a time is held to. -/
structure Contract {Req : Type} (Env : Req → Type) (W Call σ : Type) where
  rest : W → Prop
  stopOk : W → Prop
  callOk : W → Call → Prop
  assume : Phase Call σ → W → (e : Req) → Env e → Prop
  oblige : Phase Call σ → W → Req → Prop

namespace Machine

variable {Req : Type} {Resp Env : Req → Type}
variable {Answer W X Call σ β : Type}
variable (M : Machine Resp Env Answer W X Call σ β)
variable (K : Contract Env W Call σ)

/-- Stopping here leaves a world fit to rest in. -/
def Cut (w : W) : Prop := K.stopOk w → K.rest (M.onStop w)

/-- Every execution of the program keeps the contract and ends, when it
returns, in the postcondition. -/
def Wp (ph : Phase Call σ) {α : Type} (Q : α → W → Prop) :
    Prog Resp X α → W → Prop
  | .ret a, w => Q a w
  | .raise _, w => M.Cut K w
  | .op e k, w =>
    M.Cut K w ∧ K.oblige ph w e ∧ ∀ x, K.assume ph w e x →
      Wp ph Q (k (M.exec w e x).2) (M.exec w e x).1

variable {M K} {ph : Phase Call σ} {α γ : Type}

-- ==== rules

@[simp] theorem wp_ret {Q : α → W → Prop} {a : α} {w : W} :
    M.Wp K ph Q (.ret a) w ↔ Q a w := Iff.rfl

@[simp] theorem wp_raise {Q : α → W → Prop} {x : X} {w : W} :
    M.Wp K ph Q (.raise x) w ↔ M.Cut K w := Iff.rfl

/-- Sequencing composes preconditions. -/
theorem wp_bind {Q : γ → W → Prop} {f : α → Prog Resp X γ} :
    ∀ {m : Prog Resp X α} {w : W},
      M.Wp K ph Q (m >>= f) w ↔
        M.Wp K ph (fun a w => M.Wp K ph Q (f a) w) m w := by
  intro m
  induction m with
  | ret a => intro w; exact Iff.rfl
  | raise x => intro w; exact Iff.rfl
  | op e k ih =>
    intro w
    constructor
    · rintro ⟨hcut, hob, h⟩
      exact ⟨hcut, hob, fun x hx => (ih _).1 (h x hx)⟩
    · rintro ⟨hcut, hob, h⟩
      exact ⟨hcut, hob, fun x hx => (ih _).2 (h x hx)⟩

theorem Wp.mono {Q Q' : α → W → Prop} (hQ : ∀ a w, Q a w → Q' a w) :
    ∀ {m : Prog Resp X α} {w : W}, M.Wp K ph Q m w → M.Wp K ph Q' m w := by
  intro m
  induction m with
  | ret a => intro w h; exact hQ a w h
  | raise x => intro w h; exact h
  | op e k ih =>
    intro w h
    exact ⟨h.1, h.2.1, fun x hx => ih _ (h.2.2 x hx)⟩

/-- A loop over a list keeps what each of its turns keeps. -/
theorem wp_each {ι : Type} {f : ι → Prog Resp X Unit} {P : W → Prop}
    (hf : ∀ i w, P w → M.Wp K ph (fun _ => P) (f i) w) :
    ∀ {l : List ι} {w : W}, P w → M.Wp K ph (fun _ => P) (Prog.each f l) w := by
  intro l
  induction l with
  | nil => intro w h; exact h
  | cons i rest ih =>
    intro w h
    rw [Prog.each, wp_bind]
    exact (hf i w h).mono fun _ _ h' => ih h'

-- ==== soundness

/-- What a turn of a process must come to: the loop's head again, or
rest, in a world where a stop would still do no harm. -/
def Post (M : Machine Resp Env Answer W X Call σ β)
    (K : Contract Env W Call σ) (head : σ → W → Prop) :
    Ctl σ β → W → Prop
  | .again st, w => M.Cut K w ∧ head st w
  | .done _, w => M.Cut K w ∧ K.rest w

/-- A program fit to run is fit to be stopped. -/
theorem Wp.cut {head : σ → W → Prop} {m : Prog Resp X (Ctl σ β)} {w : W}
    (h : M.Wp K ph (M.Post K head) m w) : M.Cut K w := by
  cases m with
  | ret c =>
    cases c with
    | again st => exact h.1
    | done b => exact h.1
  | raise x => exact h
  | op e k => exact h.1

/-- The actions of a run respect a contract's assumptions. -/
structure Meets {Pid : Type} (M : Machine Resp Env Answer W X Call σ β)
    (K : Contract Env W Call σ)
    (cond : Sys Resp W X Call σ β Pid → Action Pid Answer Call → Prop) :
    Prop where
  call : ∀ s p c, cond s (.call p c) → s.procs p = none → K.callOk s.world c
  op : ∀ s p ans pr e k x, cond s (.step p ans) → s.procs p = some pr →
    pr.prog = .op e k → M.decode e ans = some x →
      K.assume pr.phase s.world e x
  raised : ∀ s p ans pr x, cond s (.step p ans) → s.procs p = some pr →
    pr.prog = .raise x → K.stopOk s.world
  crash : ∀ s p pr, cond s (.crash p) → s.procs p = some pr →
    K.stopOk s.world

/-- A state of a sequential system that is safe to go on from: whatever
runs will keep the contract, and if nothing runs the world rests. -/
structure Settled {Pid : Type} (M : Machine Resp Env Answer W X Call σ β)
    (K : Contract Env W Call σ) (head : σ → W → Prop)
    (s : Sys Resp W X Call σ β Pid) : Prop where
  running : ∀ p pr, s.procs p = some pr →
    M.Wp K pr.phase (M.Post K head) pr.prog s.world
  resting : (∀ p, s.procs p = none) → K.rest s.world

variable {Pid : Type} {head : σ → W → Prop}

/-- The system at rest in a world that may rest is settled. -/
theorem settled_idle {w : W} (hw : K.rest w) :
    Settled M K head (Sys.idle w : Sys Resp W X Call σ β Pid) := by
  refine ⟨?_, fun _ => hw⟩
  intro p pr hp
  cases hp

variable [DecidableEq Pid] [Subsingleton Pid]

/-- With one process at a time, replacing it by a safe one is safe. -/
theorem settled_put_some {s : Sys Resp W X Call σ β Pid} {w : W} {p : Pid}
    {pr : Proc Resp X Call σ β}
    (h : M.Wp K pr.phase (M.Post K head) pr.prog w) :
    Settled M K head (s.put w p (some pr)) := by
  constructor
  · intro q pr' hq
    obtain rfl := Subsingleton.elim p q
    rw [Sys.put_procs_self] at hq
    cases hq
    exact h
  · intro hnone
    have hp := hnone p
    rw [Sys.put_procs_self] at hp
    cases hp

/-- With one process at a time, dropping it in a world fit to rest in is
safe. -/
theorem settled_put_none {s : Sys Resp W X Call σ β Pid} {w : W} {p : Pid}
    (h : K.rest w) : Settled M K head (s.put w p none) := by
  constructor
  · intro q pr' hq
    obtain rfl := Subsingleton.elim p q
    rw [Sys.put_procs_self] at hq
    cases hq
  · intro _
    exact h

theorem Settled.step {s s' : Sys Resp W X Call σ β Pid}
    {a : Action Pid Answer Call}
    {cond : Sys Resp W X Call σ β Pid → Action Pid Answer Call → Prop}
    (hmeets : Meets M K cond)
    (hcall : ∀ w c, K.rest w → K.callOk w c →
      M.Wp K (.entry c) (M.Post K head) (M.entry c) (M.onCall w c))
    (hbody : ∀ st w, head st w →
      M.Wp K (.loop st) (M.Post K head) (M.body st) w)
    (hs : Settled M K head s) (hc : cond s a)
    (h : M.apply a s = some s') : Settled M K head s' := by
  cases apply_inv h with
  | @call p c hp =>
    refine settled_put_some (hcall _ _ (hs.resting fun q => ?_)
      (hmeets.call s p c hc hp))
    obtain rfl := Subsingleton.elim p q
    exact hp
  | @done p ans pr b hp hprog =>
    have hwp := hs.running p pr hp
    rw [hprog] at hwp
    exact settled_put_none hwp.2
  | @again p ans pr st hp hprog =>
    have hwp := hs.running p pr hp
    rw [hprog] at hwp
    exact settled_put_some (hbody st _ hwp.2)
  | @raised p ans pr x hp hprog =>
    have hwp := hs.running p pr hp
    rw [hprog] at hwp
    exact settled_put_none (hwp (hmeets.raised s p ans pr x hc hp hprog))
  | @op p ans pr e k x hp hprog hx =>
    have hwp := hs.running p pr hp
    rw [hprog] at hwp
    exact settled_put_some
      (hwp.2.2 x (hmeets.op s p ans pr e k x hc hp hprog hx))
  | @crash p pr hp =>
    have hwp := hs.running p pr hp
    have hstop := hmeets.crash s p pr hc hp
    exact settled_put_none (hwp.cut hstop)

/-- Whatever a process of a settled system is about to ask for meets the
contract's obligation. -/
theorem Settled.obliged {Pid : Type} {head : σ → W → Prop}
    {s : Sys Resp W X Call σ β Pid} (hs : Settled M K head s) {p : Pid}
    {e : Req} (ha : s.Asks p e) : ∃ ph, K.oblige ph s.world e := by
  obtain ⟨pr, k, hp, hprog⟩ := ha
  refine ⟨pr.phase, ?_⟩
  have hwp := hs.running p pr hp
  rw [hprog] at hwp
  exact hwp.2.1

/-- The same for a process in a turn of its loop, with its phase. -/
theorem Settled.driven {Pid : Type} {head : σ → W → Prop}
    {s : Sys Resp W X Call σ β Pid} (hs : Settled M K head s) {p : Pid}
    {e : Req} (ha : s.Drives p e) :
    ∃ st, K.oblige (.loop st) s.world e := by
  obtain ⟨pr, st, k, hp, hph, hprog⟩ := ha
  refine ⟨st, ?_⟩
  have hwp := hs.running p pr hp
  rw [hprog, hph] at hwp
  exact hwp.2.1

/-- Soundness: a sequential system whose initial worlds may rest, whose
calls are safe from rest and whose loop body is safe from its head is
settled in every state of every run that meets the contract. -/
theorem Reach.sequential {init : W → Prop}
    {cond : Sys Resp W X Call σ β Pid → Action Pid Answer Call → Prop}
    (hinit : ∀ w, init w → K.rest w) (hmeets : Meets M K cond)
    (hcall : ∀ w c, K.rest w → K.callOk w c →
      M.Wp K (.entry c) (M.Post K head) (M.entry c) (M.onCall w c))
    (hbody : ∀ st w, head st w →
      M.Wp K (.loop st) (M.Post K head) (M.body st) w)
    {s : Sys Resp W X Call σ β Pid} (hs : M.Reach init cond s) :
    Settled M K head s := by
  induction hs with
  | init hw => exact settled_idle (hinit _ hw)
  | step _ hc happ ih => exact ih.step hmeets hcall hbody hc happ

end Machine

end SdlcOs.Effects
