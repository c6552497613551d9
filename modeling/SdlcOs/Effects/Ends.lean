/-
Total correctness of looping programs, one process at a time.

`Ends` is a least fixpoint: it holds of a program in a world when every
execution from there that the environment may take is finite and ends in
a raise or in a result of the right kind. A loop is not a tree, so this
is where turns are counted: `ends_of_measure` asks for a measure that
every turn which goes round again decreases.

`Ends.no_infinite_run` reads it back on systems: a process of which
`Ends` holds cannot be stepped for ever.
-/
import Mathlib.Order.WellFounded
import SdlcOs.Effects.Wp

namespace SdlcOs.Effects

namespace Machine

variable {Req : Type} {Resp Env : Req → Type}
variable {Answer W X Call σ β : Type}

/-- Every execution allowed by `ok` is finite and ends in a raise or in a
result that is `fin`. -/
inductive Ends (M : Machine Resp Env Answer W X Call σ β)
    (ok : W → (e : Req) → Env e → Prop) (fin : β → Prop) :
    Prog Resp X (Ctl σ β) → W → Prop
  | done {b : β} {w : W} (hb : fin b) : Ends M ok fin (.ret (.done b)) w
  | raised {x : X} {w : W} : Ends M ok fin (.raise x) w
  | again {st : σ} {w : W} (h : Ends M ok fin (M.body st) w) :
      Ends M ok fin (.ret (.again st)) w
  | op {e : Req} {k : Resp e → Prog Resp X (Ctl σ β)} {w : W}
      (h : ∀ x, ok w e x →
        Ends M ok fin (k (M.exec w e x).2) (M.exec w e x).1) :
      Ends M ok fin (.op e k) w

variable {M : Machine Resp Env Answer W X Call σ β}
variable {ok : W → (e : Req) → Env e → Prop} {fin : β → Prop}
variable {K : Contract Env W Call σ}

theorem Wp.ends {ph : Phase Call σ} {Q : Ctl σ β → W → Prop}
    (hok : ∀ w e x, ok w e x → K.assume ph w e x)
    (hQ : ∀ c w, Q c w → Ends M ok fin (.ret c) w) :
    ∀ {m : Prog Resp X (Ctl σ β)} {w : W}, M.Wp K ph Q m w →
      Ends M ok fin m w := by
  intro m
  induction m with
  | ret c => intro w h; exact hQ c w h
  | raise x => intro w _; exact .raised
  | op e k ih =>
    intro w h
    exact .op fun x hx => ih _ (h.2.2 x (hok w e x hx))

/-- A turn that keeps the loop's head and decreases the measure, or
returns. -/
def Descends {α : Type} [LT α] (head : σ → W → Prop) (μ : σ → W → α)
    (fin : β → Prop) (st : σ) (w : W) : Ctl σ β → W → Prop
  | .again st', w' => head st' w' ∧ μ st' w' < μ st w
  | .done b, _ => fin b

/-- A loop whose every turn decreases a well-founded measure ends. -/
theorem ends_of_measure {α : Type} [LT α] [WellFoundedLT α]
    {head : σ → W → Prop} {μ : σ → W → α}
    (hok : ∀ st w e x, ok w e x → K.assume (.loop st) w e x)
    (hbody : ∀ st w, head st w →
      M.Wp K (.loop st) (Descends head μ fin st w) (M.body st) w) :
    ∀ {st : σ} {w : W}, head st w → Ends M ok fin (M.body st) w := by
  have hmain : ∀ a : α, ∀ st w, head st w → μ st w = a →
      Ends M ok fin (M.body st) w := by
    intro a
    induction a using WellFoundedLT.induction with
    | ind a ih =>
      intro st w hhead hμ
      refine (hbody st w hhead).ends (hok st) ?_
      intro c w' hc
      cases c with
      | done b => exact .done hc
      | again st' =>
        obtain ⟨hhead', hlt⟩ := hc
        exact .again (ih _ (hμ ▸ hlt) st' w' hhead' rfl)
  intro st w hhead
  exact hmain _ st w hhead rfl

-- ==== runs

variable {Pid : Type} [DecidableEq Pid]

/-- One step of process `p` with an answer the environment may give. -/
def Takes (M : Machine Resp Env Answer W X Call σ β)
    (ok : W → (e : Req) → Env e → Prop) (p : Pid)
    (s s' : Sys Resp W X Call σ β Pid) : Prop :=
  ∃ ans, M.apply (.step p ans) s = some s' ∧
    ∀ pr e k x, s.procs p = some pr → pr.prog = .op e k →
      M.decode e ans = some x → ok s.world e x

/-- A process that ends cannot be stepped for ever. -/
theorem Ends.no_infinite_run {prog : Prog Resp X (Ctl σ β)} {w : W}
    (h : Ends M ok fin prog w) {p : Pid} :
    ∀ run : Nat → Sys Resp W X Call σ β Pid, (run 0).world = w →
      (∃ ph lg, (run 0).procs p = some ⟨ph, lg, prog⟩) →
        ¬ ∀ n, M.Takes ok p (run n) (run (n + 1)) := by
  -- a process that is gone takes no step
  have hgone : ∀ s s' : Sys Resp W X Call σ β Pid, s.procs p = none →
      ¬ M.Takes ok p s s' := by
    rintro s s' hnone ⟨ans, happ, _⟩
    simp [apply, hnone] at happ
  induction h with
  | @done b w hb =>
    rintro run hw ⟨ph, lg, hp⟩ hall
    obtain ⟨ans, happ, _⟩ := hall 0
    simp only [apply, hp, Option.some.injEq] at happ
    refine hgone (run 1) (run 2) ?_ (hall 1)
    rw [← happ, Sys.put_procs_self]
  | @raised x w =>
    rintro run hw ⟨ph, lg, hp⟩ hall
    obtain ⟨ans, happ, _⟩ := hall 0
    simp only [apply, hp, Option.some.injEq] at happ
    refine hgone (run 1) (run 2) ?_ (hall 1)
    rw [← happ, Sys.put_procs_self]
  | @again st w _ ih =>
    rintro run hw ⟨ph, lg, hp⟩ hall
    obtain ⟨ans, happ, _⟩ := hall 0
    simp only [apply, hp, Option.some.injEq] at happ
    refine ih (fun n => run (n + 1)) ?_ ⟨.loop st, [], ?_⟩
      (fun n => hall (n + 1))
    · show (run 1).world = w
      rw [← happ, Sys.put_world, hw]
    · show (run 1).procs p = _
      rw [← happ, Sys.put_procs_self]
  | @op e k w _ ih =>
    rintro run hw ⟨ph, lg, hp⟩ hall
    obtain ⟨ans, happ, hans⟩ := hall 0
    simp only [apply, hp] at happ
    split at happ
    · cases happ
    · next x hx =>
      rw [Option.some.injEq] at happ
      have hok := hans _ e k x hp rfl hx
      rw [hw] at hok
      refine ih x hok (fun n => run (n + 1)) ?_
        ⟨ph, ⟨e, (M.exec w e x).2⟩ :: lg, ?_⟩ (fun n => hall (n + 1))
      · show (run 1).world = _
        rw [← happ, Sys.put_world, hw]
      · show (run 1).procs p = _
        rw [← happ, Sys.put_procs_self, hw]

end Machine

end SdlcOs.Effects
