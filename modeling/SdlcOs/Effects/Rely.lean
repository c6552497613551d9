/-
Processes under interference.

# Two halves

What a process asks for depends on the answers it heard, not on the
world: `Paths` follows a program along every branch, keeping the log,
and says what each request may be given that log. It mentions no world,
so interference does not touch it, and `paths_bind` composes it function
by function.

What the answers in a log say about the world is the other half. A
`Discipline` has an invariant of the world (`inv`), a relation every
action stays within (`rel`, at once what a process guarantees and what
it relies on) and an assertion on logs (`knows`) that `rel` preserves.

`Reach.interleaved` joins them: any number of processes, stepped in any
order, crashed anywhere.
-/
import SdlcOs.Effects.System

namespace SdlcOs.Effects

namespace Prog

variable {Req : Type} {Resp : Req → Type} {X α β : Type}

/-- Along every path, each request is one the process may make after
what it has heard, and a return is as promised. -/
def Paths (may : Log Resp → Req → Prop) (Q : α → Log Resp → Prop) :
    Prog Resp X α → Log Resp → Prop
  | .ret a, lg => Q a lg
  | .raise _, _ => True
  | .op e k, lg => may lg e ∧ ∀ r, Paths may Q (k r) (⟨e, r⟩ :: lg)

variable {may : Log Resp → Req → Prop}

/-- Sequencing composes paths. -/
theorem paths_bind {Q : β → Log Resp → Prop} {f : α → Prog Resp X β} :
    ∀ {m : Prog Resp X α} {lg : Log Resp},
      Paths may (fun a lg => Paths may Q (f a) lg) m lg →
        Paths may Q (m >>= f) lg := by
  intro m
  induction m with
  | ret a => intro lg h; exact h
  | raise x => intro lg _; exact trivial
  | op e k ih =>
    intro lg h
    exact ⟨h.1, fun r => ih r (h.2 r)⟩

theorem Paths.mono {Q Q' : α → Log Resp → Prop}
    (hQ : ∀ a lg, Q a lg → Q' a lg) :
    ∀ {m : Prog Resp X α} {lg : Log Resp}, Paths may Q m lg →
      Paths may Q' m lg := by
  intro m
  induction m with
  | ret a => intro lg h; exact hQ a lg h
  | raise x => intro lg _; exact trivial
  | op e k ih =>
    intro lg h
    exact ⟨h.1, fun r => ih r (h.2 r)⟩

theorem paths_free {Q : α → Log Resp → Prop} (hQ : ∀ a lg, Q a lg) :
    ∀ {m : Prog Resp X α} {lg : Log Resp},
      Paths (fun _ _ => True) Q m lg := by
  intro m
  induction m with
  | ret a => intro lg; exact hQ a lg
  | raise x => intro lg; exact trivial
  | op e k ih => exact ⟨trivial, fun r => ih r⟩

/-- What holds whatever is asked may be added to what may be asked. -/
theorem Paths.under {p : Prop} (hp : p) {Q : α → Log Resp → Prop} :
    ∀ {m : Prog Resp X α} {lg : Log Resp}, Paths may Q m lg →
      Paths (fun lg e => may lg e ∧ p) Q m lg := by
  intro m
  induction m with
  | ret a => intro lg h; exact h
  | raise x => intro lg _; exact trivial
  | op e k ih =>
    intro lg h
    exact ⟨⟨h.1, hp⟩, fun r => ih r (h.2 r)⟩

/-- A loop over a list keeps what each of its turns keeps. -/
theorem paths_each {ι : Type} {f : ι → Prog Resp X Unit}
    {P : Log Resp → Prop}
    (hf : ∀ i lg, P lg → Paths may (fun _ => P) (f i) lg) :
    ∀ {l : List ι} {lg : Log Resp}, P lg →
      Paths may (fun _ => P) (Prog.each f l) lg := by
  intro l
  induction l with
  | nil => intro lg h; exact h
  | cons i rest ih =>
    intro lg h
    exact paths_bind ((hf i lg h).mono fun _ _ h' => ih h')

end Prog

-- ==== disciplines

/-- What processes that interfere with each other are held to. -/
structure Discipline {Req : Type} (Resp Env : Req → Type)
    (W Call σ : Type) where
  may : Phase Call σ → Log Resp → Req → Prop
  handsOn : Phase Call σ → Log Resp → σ → Prop
  assume : Phase Call σ → Log Resp → W → (e : Req) → Env e → Prop
  inv : W → Prop
  rel : W → W → Prop
  knows : Phase Call σ → Log Resp → W → Prop

namespace Discipline

variable {Req : Type} {Resp Env : Req → Type}
variable {Answer W X Call σ β : Type}

/-- What a turn ends in: a loop state it may hand on, or a result. -/
def Ends (D : Discipline Resp Env W Call σ) (ph : Phase Call σ) :
    Ctl σ β → Log Resp → Prop
  | .again st, lg => D.handsOn ph lg st
  | .done _, _ => True

/-- The programs of a machine follow the discipline's paths. -/
structure Follows (D : Discipline Resp Env W Call σ)
    (M : Machine Resp Env Answer W X Call σ β) : Prop where
  entry : ∀ c, (M.entry c).Paths (D.may (.entry c)) (D.Ends (.entry c)) []
  body : ∀ st, (M.body st).Paths (D.may (.loop st)) (D.Ends (.loop st)) []

/-- What processes know stays true, and every action keeps within the
relation. -/
structure Sound (D : Discipline Resp Env W Call σ)
    (M : Machine Resp Env Answer W X Call σ β) : Prop where
  stable : ∀ {w w' : W} {ph : Phase Call σ} {lg : Log Resp}, D.rel w w' →
    D.knows ph lg w → D.knows ph lg w'
  called : ∀ {w : W} (c : Call), D.inv w →
    D.inv (M.onCall w c) ∧ D.rel w (M.onCall w c)
  stopped : ∀ {w : W}, D.inv w →
    D.inv (M.onStop w) ∧ D.rel w (M.onStop w)
  entered : ∀ {w : W} (c : Call), D.inv w → D.knows (.entry c) [] w
  asked : ∀ {w : W} {ph : Phase Call σ} {lg : Log Resp} {e : Req}
    {x : Env e}, D.inv w → D.knows ph lg w → D.may ph lg e →
      D.assume ph lg w e x →
        D.inv (M.exec w e x).1 ∧ D.rel w (M.exec w e x).1 ∧
          D.knows ph (⟨e, (M.exec w e x).2⟩ :: lg) (M.exec w e x).1
  again : ∀ {w : W} {ph : Phase Call σ} {lg : Log Resp} {st : σ},
    D.inv w → D.knows ph lg w → D.handsOn ph lg st → D.knows (.loop st) [] w

end Discipline

namespace Machine

variable {Req : Type} {Resp Env : Req → Type}
variable {Answer W X Call σ β Pid : Type} [DecidableEq Pid]
variable {M : Machine Resp Env Answer W X Call σ β}
variable {D : Discipline Resp Env W Call σ}

/-- A process keeps the discipline from where it stands. -/
structure Disciplined (D : Discipline Resp Env W Call σ) (w : W)
    (pr : Proc Resp X Call σ β) : Prop where
  knows : D.knows pr.phase pr.log w
  paths : pr.prog.Paths (D.may pr.phase) (D.Ends pr.phase) pr.log

omit [DecidableEq Pid] in
/-- A disciplined process is about to ask for what it may. -/
theorem Disciplined.may {w : W} {pr : Proc Resp X Call σ β}
    (h : Disciplined D w pr) {e : Req} {k : Resp e → Prog Resp X (Ctl σ β)}
    (hprog : pr.prog = .op e k) : D.may pr.phase pr.log e := by
  have hp := h.paths
  rw [hprog] at hp
  exact hp.1

/-- A state in which the invariant holds and every process is
disciplined. -/
structure Orderly (D : Discipline Resp Env W Call σ)
    (s : Sys Resp W X Call σ β Pid) : Prop where
  inv : D.inv s.world
  procs : ∀ p pr, s.procs p = some pr → Disciplined D s.world pr

/-- The runs a discipline speaks of. -/
def Allows (M : Machine Resp Env Answer W X Call σ β)
    (D : Discipline Resp Env W Call σ)
    (cond : Sys Resp W X Call σ β Pid → Action Pid Answer Call → Prop) :
    Prop :=
  ∀ s p ans pr e k x, cond s (.step p ans) → s.procs p = some pr →
    pr.prog = .op e k → M.decode e ans = some x →
      D.assume pr.phase pr.log s.world e x

/-- Replace one process and move the world within the relation. -/
theorem Orderly.put (hD : D.Sound M) {s : Sys Resp W X Call σ β Pid}
    (hs : Orderly D s) {w : W} {p : Pid}
    {pr : Option (Proc Resp X Call σ β)} (hinv : D.inv w)
    (hrel : D.rel s.world w) (hpr : ∀ q ∈ pr, Disciplined D w q) :
    Orderly D (s.put w p pr) := by
  refine ⟨hinv, ?_⟩
  intro q pr' hq
  by_cases hqp : q = p
  · subst hqp
    rw [Sys.put_procs_self] at hq
    exact hpr pr' hq
  · rw [Sys.put_procs_ne s w pr hqp] at hq
    have hold := hs.procs q pr' hq
    exact ⟨hD.stable hrel hold.knows, hold.paths⟩

/-- One action of any process keeps the system orderly, and the world
within the relation. -/
theorem Orderly.step (hF : D.Follows M) (hD : D.Sound M)
    (hrefl : ∀ w, D.rel w w)
    {cond : Sys Resp W X Call σ β Pid → Action Pid Answer Call → Prop}
    (hall : Allows M D cond) {s s' : Sys Resp W X Call σ β Pid}
    {a : Action Pid Answer Call} (hs : Orderly D s) (hc : cond s a)
    (h : M.apply a s = some s') :
    Orderly D s' ∧ D.rel s.world s'.world := by
  cases apply_inv h with
  | @call p c hp =>
    obtain ⟨hinv, hrel⟩ := hD.called c hs.inv
    refine ⟨hs.put hD hinv hrel ?_, hrel⟩
    rintro q ⟨⟩
    exact ⟨hD.entered c hinv, hF.entry c⟩
  | @done p ans pr b hp hprog =>
    exact ⟨hs.put hD hs.inv (hrefl _) (by rintro q ⟨⟩), hrefl _⟩
  | @again p ans pr st hp hprog =>
    have hpr := hs.procs p pr hp
    have hpaths := hpr.paths
    rw [hprog] at hpaths
    refine ⟨hs.put hD hs.inv (hrefl _) ?_, hrefl _⟩
    rintro q ⟨⟩
    exact ⟨hD.again hs.inv hpr.knows hpaths, hF.body st⟩
  | @raised p ans pr x hp hprog =>
    obtain ⟨hinv, hrel⟩ := hD.stopped hs.inv
    exact ⟨hs.put hD hinv hrel (by rintro q ⟨⟩), hrel⟩
  | @op p ans pr e k x hp hprog hx =>
    have hpr := hs.procs p pr hp
    have hpaths := hpr.paths
    rw [hprog] at hpaths
    obtain ⟨hinv, hrel, hknows⟩ := hD.asked hs.inv hpr.knows hpaths.1
      (hall s p ans pr e k x hc hp hprog hx)
    refine ⟨hs.put hD hinv hrel ?_, hrel⟩
    rintro q ⟨⟩
    exact ⟨hknows, hpaths.2 _⟩
  | @crash p pr hp =>
    obtain ⟨hinv, hrel⟩ := hD.stopped hs.inv
    exact ⟨hs.put hD hinv hrel (by rintro q ⟨⟩), hrel⟩

/-- Soundness: whatever the interleaving, every state of a run that meets
the discipline's assumptions is orderly. -/
theorem Reach.interleaved (hF : D.Follows M) (hD : D.Sound M)
    (hrefl : ∀ w, D.rel w w) {init : W → Prop}
    (hinit : ∀ w, init w → D.inv w)
    {cond : Sys Resp W X Call σ β Pid → Action Pid Answer Call → Prop}
    (hall : Allows M D cond) {s : Sys Resp W X Call σ β Pid}
    (hs : M.Reach init cond s) : Orderly D s := by
  induction hs with
  | init hw => exact ⟨hinit _ hw, fun p pr hp => by cases hp⟩
  | step _ hc happ ih => exact (ih.step hF hD hrefl hall hc happ).1

/-- Whatever the interleaving, a process keeps to the paths of its
call. -/
theorem Reach.entered {may : Call → Log Resp → Req → Prop}
    {Q : Call → Ctl σ β → Log Resp → Prop}
    (hentry : ∀ c, (M.entry c).Paths (may c) (Q c) []) {init : W → Prop}
    {cond : Sys Resp W X Call σ β Pid → Action Pid Answer Call → Prop}
    {s : Sys Resp W X Call σ β Pid} (hs : M.Reach init cond s) :
    ∀ {p pr c}, s.procs p = some pr → pr.phase = .entry c →
      pr.prog.Paths (may c) (Q c) pr.log := by
  induction hs with
  | init hw => intro p pr c hp; cases hp
  | @step s s' a _ hc happ ih =>
    intro q pr' c hq hph
    have hstep := apply_inv happ
    by_cases hne : a.pid = q
    · cases hstep with
      | @call p c' hp =>
        obtain rfl : p = q := hne
        rw [Sys.put_procs_self] at hq
        obtain rfl := Option.some.inj hq
        injection hph with hph
        exact hph ▸ hentry c'
      | @op p ans pr e k x hp hprog hx =>
        obtain rfl : p = q := hne
        rw [Sys.put_procs_self] at hq
        obtain rfl := Option.some.inj hq
        have hpaths := ih hp hph
        rw [hprog] at hpaths
        exact hpaths.2 _
      | @again p ans pr st hp hprog =>
        obtain rfl : p = q := hne
        rw [Sys.put_procs_self] at hq
        obtain rfl := Option.some.inj hq
        cases hph
      | @done p ans pr b hp hprog =>
        obtain rfl : p = q := hne
        rw [Sys.put_procs_self] at hq
        cases hq
      | @raised p ans pr x hp hprog =>
        obtain rfl : p = q := hne
        rw [Sys.put_procs_self] at hq
        cases hq
      | @crash p pr hp =>
        obtain rfl : p = q := hne
        rw [Sys.put_procs_self] at hq
        cases hq
    · rw [hstep.procs_ne hne] at hq
      exact ih hq hph

/-- Along a run the world stays within the relation. -/
theorem Orderly.leads (hF : D.Follows M) (hD : D.Sound M)
    (hrefl : ∀ w, D.rel w w)
    (htrans : ∀ {w w' w''}, D.rel w w' → D.rel w' w'' → D.rel w w'')
    {cond : Sys Resp W X Call σ β Pid → Action Pid Answer Call → Prop}
    (hall : Allows M D cond) {s s' : Sys Resp W X Call σ β Pid}
    (hs : Orderly D s) (h : M.Leads cond s s') :
    Orderly D s' ∧ D.rel s.world s'.world := by
  induction h with
  | refl => exact ⟨hs, hrefl _⟩
  | step _ hc happ ih =>
    obtain ⟨hs', hrel⟩ := ih
    obtain ⟨hs'', hrel'⟩ := hs'.step hF hD hrefl hall hc happ
    exact ⟨hs'', htrans hrel hrel'⟩

end Machine

end SdlcOs.Effects
