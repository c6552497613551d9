/-
Calls that take effect at one moment.

# Moments

A call on a shared world is a list of steps, other processes' steps in
between. Read through an abstraction of the world, most of them do
nothing. A call `TakesEffect` as an atomic operation when one of its
steps does to the abstract state what the operation does to it, with an
answer that fits, and its other steps leave the abstract state alone. The
moment lies between the call and its return, so calls ordered in time
take effect in that order.

# Histories

Where every action of a system does nothing to the abstract state or one
operation, the state reached is that of the operations performed one
after another (`Reach.history`).
-/
import SdlcOs.Effects.Rely

namespace SdlcOs.Effects

-- ==== moments

section Moments

variable {W A R : Type} {abs : W → A} {f : A → A × R}
variable {ok : W × W → R → Prop} {steps : List (W × W)}

/-- The steps do nothing to the abstract state. -/
def Still (abs : W → A) (steps : List (W × W)) : Prop :=
  ∀ x ∈ steps, abs x.2 = abs x.1

/-- One of the steps does to the abstract state what `f` does, and is
answered as `ok` asks; the others do nothing to it. Latest first. -/
def TakesEffect (abs : W → A) (f : A → A × R) (ok : W × W → R → Prop)
    (steps : List (W × W)) : Prop :=
  ∃ post ww pre, steps = post ++ ww :: pre ∧ Still abs (post ++ pre) ∧
    abs ww.2 = (f (abs ww.1)).1 ∧ ok ww (f (abs ww.1)).2

theorem still_nil : Still abs [] := by
  intro x hx
  cases hx

theorem still_cons {ww : W × W} :
    Still abs (ww :: steps) ↔ abs ww.2 = abs ww.1 ∧ Still abs steps := by
  simp [Still]

theorem still_append {later : List (W × W)} :
    Still abs (later ++ steps) ↔ Still abs later ∧ Still abs steps := by
  simp [Still, or_imp, forall_and]

theorem takesEffect_now {ww : W × W} (hstill : Still abs steps)
    (heff : abs ww.2 = (f (abs ww.1)).1) (hok : ok ww (f (abs ww.1)).2) :
    TakesEffect abs f ok (ww :: steps) :=
  ⟨[], ww, steps, rfl, hstill, heff, hok⟩

/-- Steps after the moment that do nothing leave it the moment. -/
theorem TakesEffect.later {later : List (W × W)}
    (h : TakesEffect abs f ok steps) (hstill : Still abs later) :
    TakesEffect abs f ok (later ++ steps) := by
  obtain ⟨post, ww, pre, rfl, hrest, heff, hok⟩ := h
  refine ⟨later ++ post, ww, pre, by simp, ?_, heff, hok⟩
  rw [List.append_assoc]
  exact still_append.2 ⟨hstill, hrest⟩

end Moments

-- ==== paths

namespace Prog

variable {Req : Type} {Resp : Req → Type} {X α ι : Type}

theorem paths_forall {may : ι → Log Resp → Req → Prop}
    {Q : ι → α → Log Resp → Prop} :
    ∀ {m : Prog Resp X α} {lg : Log Resp},
      (∀ i, Paths (may i) (Q i) m lg) →
        Paths (fun lg e => ∀ i, may i lg e) (fun a lg => ∀ i, Q i a lg)
          m lg := by
  intro m
  induction m with
  | ret a => intro lg h; exact h
  | raise x => intro lg _; exact trivial
  | op e k ih =>
    intro lg h
    exact ⟨fun i => (h i).1, fun r => ih r fun i => (h i).2 r⟩

end Prog

-- ==== histories

/-- Operations that are each accepted where they are performed lead from
one abstract state to another. -/
inductive Plays {A Op : Type} (does : A → Op → A → Prop) :
    A → List Op → A → Prop
  | nil (a : A) : Plays does a [] a
  | snoc {a b c : A} {ops : List Op} {op : Op} (h : Plays does a ops b)
      (hop : does b op c) : Plays does a (ops ++ [op]) c

namespace Machine

variable {Req : Type} {Resp Env : Req → Type}
variable {Answer W X Call σ β Pid A R Op : Type} [DecidableEq Pid]
variable {M : Machine Resp Env Answer W X Call σ β}

/-- What a call has done so far, as its phase and its log have it: nothing
to the abstract state, or what the operation does, answered so. -/
def Effected (abs : W → A) (f : A → A × R) (steps : List (W × W)) :
    Option R → Prop
  | none => Still abs steps
  | some r => TakesEffect abs f (fun _ r' => r' = r) steps

/-- What every turn hands on of a phase, a call keeps. -/
theorem Serves.phase {γ : Type} {of : Phase Call σ → γ} {p : Pid} {c : Call}
    {cond : Sys Resp W X Call σ β Pid → Action Pid Answer Call → Prop}
    {s s' : Sys Resp W X Call σ β Pid} {ws : List (W × W)}
    (hagain : ∀ {ws} {s₁ : Sys Resp W X Call σ β Pid} {pr st},
      M.Serves cond p c s ws s₁ → s₁.procs p = some pr →
      pr.prog = .ret (.again st) → of (.loop st) = of pr.phase)
    (h : M.Serves cond p c s ws s') :
    ∀ pr, s'.procs p = some pr → of pr.phase = of (.entry c) := by
  induction h with
  | called hc happ =>
    intro pr hp
    cases apply_inv happ with
    | call hnone =>
      rw [Sys.put_procs_self] at hp
      obtain rfl := Option.some.inj hp
      rfl
  | @own ws s₁ s₂ a hserves hc happ ih =>
    intro pr hp
    cases apply_inv happ with
    | done hp₁ hprog =>
      rw [Sys.put_procs_self] at hp
      cases hp
    | raised hp₁ hprog =>
      rw [Sys.put_procs_self] at hp
      cases hp
    | again hp₁ hprog =>
      rw [Sys.put_procs_self] at hp
      obtain rfl := Option.some.inj hp
      exact (hagain hserves hp₁ hprog).trans (ih _ hp₁)
    | @op q ans pr₁ e k x hp₁ hprog hx =>
      rw [Sys.put_procs_self] at hp
      obtain rfl := Option.some.inj hp
      exact ih pr₁ hp₁
  | other hserves ha hc happ ih =>
    intro pr hp
    rw [(apply_inv happ).procs_ne ha] at hp
    exact ih pr hp

/-- What a call has come to hear, it heard in a state on its way. -/
theorem Serves.heard (tells : Phase Call σ → Log Resp → Prop)
    {P : Sys Resp W X Call σ β Pid → Prop} {p : Pid} {c : Call}
    {cond : Sys Resp W X Call σ β Pid → Action Pid Answer Call → Prop}
    {s s' : Sys Resp W X Call σ β Pid} {ws : List (W × W)}
    (hnone : ∀ ph, ¬ tells ph [])
    (hop : ∀ {ws} {s₁ : Sys Resp W X Call σ β Pid} {pr e k} {x : Env e},
      M.Serves cond p c s ws s₁ → s₁.procs p = some pr → pr.prog = .op e k →
        tells pr.phase (⟨e, (M.exec s₁.world e x).2⟩ :: pr.log) →
          tells pr.phase pr.log ∨ P s₁)
    (h : M.Serves cond p c s ws s') :
    ∀ pr, s'.procs p = some pr → tells pr.phase pr.log →
      ∃ s₁, M.Leads cond s s₁ ∧ M.Leads cond s₁ s' ∧ P s₁ := by
  induction h with
  | called hc happ =>
    intro pr hp htells
    cases apply_inv happ with
    | call hfree =>
      rw [Sys.put_procs_self] at hp
      obtain rfl := Option.some.inj hp
      exact absurd htells (hnone _)
  | @own ws s₁ s₂ a hserves hc happ ih =>
    intro pr hp htells
    have hnext : ∀ {s₀}, M.Leads cond s₀ s₁ → M.Leads cond s₀ s₂ :=
      fun hleads => .step hleads hc happ
    cases apply_inv happ with
    | done hp₁ hprog =>
      rw [Sys.put_procs_self] at hp
      cases hp
    | raised hp₁ hprog =>
      rw [Sys.put_procs_self] at hp
      cases hp
    | again hp₁ hprog =>
      rw [Sys.put_procs_self] at hp
      obtain rfl := Option.some.inj hp
      exact absurd htells (hnone _)
    | @op q ans pr₁ e k x hp₁ hprog hx =>
      rw [Sys.put_procs_self] at hp
      obtain rfl := Option.some.inj hp
      rcases hop (x := x) hserves hp₁ hprog htells with hold | hnow
      · obtain ⟨s₀, hto, hfrom, hP⟩ := ih _ hp₁ hold
        exact ⟨s₀, hto, hnext hfrom, hP⟩
      · exact ⟨s₁, hserves.leads, hnext (.refl s₁), hnow⟩
  | @other ws s₁ s₂ a hserves ha hc happ ih =>
    intro pr hp htells
    rw [(apply_inv happ).procs_ne ha] at hp
    obtain ⟨s₀, hto, hfrom, hP⟩ := ih pr hp htells
    exact ⟨s₀, hto, .step hfrom hc happ, hP⟩

theorem Effected.later {abs : W → A} {f : A → A × R}
    {steps : List (W × W)} {o : Option R} {ww : W × W}
    (h : Effected abs f steps o) (hstill : abs ww.2 = abs ww.1) :
    Effected abs f (ww :: steps) o := by
  cases o with
  | none => exact still_cons.2 ⟨hstill, h⟩
  | some r =>
    have hdone : TakesEffect abs f (fun _ r' => r' = r) steps := h
    have hlast : Still abs [ww] := still_cons.2 ⟨hstill, still_nil⟩
    exact hdone.later hlast

/-- One call: where each of its steps does nothing to the abstract state,
or what the operation does and nothing more after that, it takes effect as
the operation. -/
theorem Serves.effected {abs : W → A} {f : A → A × R}
    (effect : Phase Call σ → Log Resp → Option R) {p : Pid} {c : Call}
    {cond : Sys Resp W X Call σ β Pid → Action Pid Answer Call → Prop}
    {s s' : Sys Resp W X Call σ β Pid} {ws : List (W × W)}
    (hentry : effect (.entry c) [] = none)
    (hagain : ∀ {ws} {s₁ : Sys Resp W X Call σ β Pid} {pr st},
      M.Serves cond p c s ws s₁ → s₁.procs p = some pr →
      pr.prog = .ret (.again st) →
        effect (.loop st) [] = effect pr.phase pr.log)
    (hop : ∀ {ws} {s₁ : Sys Resp W X Call σ β Pid} {pr e k} {x : Env e},
      M.Serves cond p c s ws s₁ → s₁.procs p = some pr → pr.prog = .op e k →
        effect pr.phase (⟨e, (M.exec s₁.world e x).2⟩ :: pr.log) =
            effect pr.phase pr.log ∧
          abs (M.exec s₁.world e x).1 = abs s₁.world ∨
        effect pr.phase pr.log = none ∧
          effect pr.phase (⟨e, (M.exec s₁.world e x).2⟩ :: pr.log) =
            some (f (abs s₁.world)).2 ∧
          abs (M.exec s₁.world e x).1 = (f (abs s₁.world)).1)
    (h : M.Serves cond p c s ws s') :
    ∀ pr, s'.procs p = some pr →
      Effected abs f ws (effect pr.phase pr.log) := by
  induction h with
  | called hc happ =>
    intro pr hp
    cases apply_inv happ with
    | call hnone =>
      rw [Sys.put_procs_self] at hp
      obtain rfl := Option.some.inj hp
      rw [hentry]
      exact still_nil
  | @own ws s₁ s₂ a hserves hc happ ih =>
    intro pr hp
    cases apply_inv happ with
    | done hp₁ hprog =>
      rw [Sys.put_procs_self] at hp
      cases hp
    | raised hp₁ hprog =>
      rw [Sys.put_procs_self] at hp
      cases hp
    | again hp₁ hprog =>
      rw [Sys.put_procs_self] at hp
      obtain rfl := Option.some.inj hp
      rw [hagain hserves hp₁ hprog]
      exact (ih _ hp₁).later rfl
    | @op q ans pr₁ e k x hp₁ hprog hx =>
      rw [Sys.put_procs_self] at hp
      obtain rfl := Option.some.inj hp
      rcases hop (x := x) hserves hp₁ hprog with
        ⟨hsame, hstill⟩ | ⟨hnone, hsome, heff⟩
      · rw [hsame]
        exact (ih _ hp₁).later hstill
      · have hbefore := ih _ hp₁
        rw [hnone] at hbefore
        rw [hsome]
        show TakesEffect abs f (fun _ r' => r' = (f (abs s₁.world)).2) _
        exact takesEffect_now hbefore heff rfl
  | other hserves ha hc happ ih =>
    intro pr hp
    rw [(apply_inv happ).procs_ne ha] at hp
    exact ih pr hp

/-- Where every action does nothing to the abstract state or performs an
accepted operation, every reachable state is that of a history. -/
theorem Reach.history {abs : W → A} {does : A → Op → A → Prop} {a₀ : A}
    {init : W → Prop}
    {cond : Sys Resp W X Call σ β Pid → Action Pid Answer Call → Prop}
    (hinit : ∀ w, init w → abs w = a₀)
    (hstep : ∀ {s s' : Sys Resp W X Call σ β Pid}
      {a : Action Pid Answer Call}, M.Reach init cond s → cond s a →
      M.apply a s = some s' → abs s'.world = abs s.world ∨
        ∃ op, does (abs s.world) op (abs s'.world))
    {s : Sys Resp W X Call σ β Pid} (hs : M.Reach init cond s) :
    ∃ ops, Plays does a₀ ops (abs s.world) := by
  induction hs with
  | init hw =>
    refine ⟨[], ?_⟩
    rw [← hinit _ hw]
    exact .nil _
  | step hs hc happ ih =>
    obtain ⟨ops, hplays⟩ := ih
    rcases hstep hs hc happ with hsame | ⟨op, hop⟩
    · exact ⟨ops, hsame ▸ hplays⟩
    · exact ⟨ops ++ [op], .snoc hplays hop⟩

end Machine

end SdlcOs.Effects
