/-
Systems of looping processes over one shared world.

# The semantics

A `Machine` fixes what each request does to the world, the program of
each public call, and the body of the loop those programs end in. A
system state is the world plus, for each process identifier, the process
that runs there, if one does. Three actions move it: a call starts a
process, a step takes ONE atomic request (or one silent control move),
and a crash discards a process wherever it stands. Everything durable is
in the world, so a crash loses exactly the program and its local log.

# Conditions on runs

`Reach` carries a condition on (state, action) pairs: the states of the
runs ALL of whose actions met the condition in the state they were taken
in. The unconditioned system is `Reach` at the trivial condition.

`run` is the executable spine: it takes a list of actions and checks the
condition as it goes, so that a concrete run is a computation.

# One program by itself

`Trail` follows every execution of a program with nothing interfering
and asks for `P` at every point where it could be stopped and for `Q`
where it returns. Other than in `Wp`, what holds at a point may depend
on what the program has done so far: `note` keeps of each answered
request whatever a proof needs to remember. `recollect` is the memory of
a log, so that a running process, which carries its log, can be asked for
it.
-/
import Mathlib.Data.List.Forall2
import SdlcOs.Effects.Prog

namespace SdlcOs.Effects

/-- What the outside makes of requests and calls: the effect of each
request given the environment's part in it (`Env`), the recording of
calls and stops, and the text of the calls and of the loop. `Answer` is
a single type of environment moves, decoded per request, so that runs
can be written down as lists. -/
structure Machine {Req : Type} (Resp Env : Req → Type)
    (Answer W X Call σ β : Type) where
  exec : (w : W) → (e : Req) → Env e → W × Resp e
  decode : (e : Req) → Answer → Option (Env e)
  onCall : W → Call → W
  onStop : W → W
  entry : Call → Prog Resp X (Ctl σ β)
  body : σ → Prog Resp X (Ctl σ β)

/-- The requests a process has performed in its current phase, with the
answers it saw, latest first. -/
abbrev Log {Req : Type} (Resp : Req → Type) : Type := List ((e : Req) × Resp e)

/-- A running process. -/
structure Proc {Req : Type} (Resp : Req → Type) (X Call σ β : Type) where
  phase : Phase Call σ
  log : Log Resp
  prog : Prog Resp X (Ctl σ β)

/-- A system state: the world and the processes. -/
structure Sys {Req : Type} (Resp : Req → Type) (W X Call σ β Pid : Type) where
  world : W
  procs : Pid → Option (Proc Resp X Call σ β)

/-- One move of the system. -/
inductive Action (Pid Answer Call : Type) : Type where
  | call (p : Pid) (c : Call)
  | step (p : Pid) (ans : Answer)
  | crash (p : Pid)

/-- The process an action is of. -/
def Action.pid {Pid Answer Call : Type} : Action Pid Answer Call → Pid
  | .call p _ => p
  | .step p _ => p
  | .crash p => p

namespace Sys

variable {Req : Type} {Resp Env : Req → Type}
variable {Answer W X Call σ β Pid : Type} [DecidableEq Pid]

/-- The system at rest in a world: no process runs. -/
def idle (w : W) : Sys Resp W X Call σ β Pid := ⟨w, fun _ => none⟩

/-- Replace what runs at `p`. -/
def put (s : Sys Resp W X Call σ β Pid) (w : W) (p : Pid)
    (pr : Option (Proc Resp X Call σ β)) : Sys Resp W X Call σ β Pid :=
  ⟨w, Function.update s.procs p pr⟩

@[simp] theorem put_world (s : Sys Resp W X Call σ β Pid) (w : W) (p : Pid)
    (pr : Option (Proc Resp X Call σ β)) : (s.put w p pr).world = w := rfl

@[simp] theorem put_procs_self (s : Sys Resp W X Call σ β Pid) (w : W)
    (p : Pid) (pr : Option (Proc Resp X Call σ β)) :
    (s.put w p pr).procs p = pr := by
  simp [put]

@[simp] theorem put_put (s : Sys Resp W X Call σ β Pid) (w w' : W) (p : Pid)
    (pr pr' : Option (Proc Resp X Call σ β)) :
    (s.put w p pr).put w' p pr' = s.put w' p pr' := by
  simp [put]

theorem put_procs_ne (s : Sys Resp W X Call σ β Pid) (w : W) {p q : Pid}
    (pr : Option (Proc Resp X Call σ β)) (h : q ≠ p) :
    (s.put w p pr).procs q = s.procs q := by
  simp [put, h]

/-- Process `p` is about to return `b`. -/
def Returns (s : Sys Resp W X Call σ β Pid) (p : Pid) (b : β) : Prop :=
  ∃ pr, s.procs p = some pr ∧ pr.prog = .ret (.done b)

/-- What process `p` is about to return. -/
def returned (s : Sys Resp W X Call σ β Pid) (p : Pid) : Option β :=
  match s.procs p with
  | some ⟨_, _, .ret (.done b)⟩ => some b
  | _ => none

omit [DecidableEq Pid] in
theorem returns_of_returned {s : Sys Resp W X Call σ β Pid} {p : Pid}
    {b : β} (h : s.returned p = some b) : s.Returns p b := by
  unfold returned at h
  split at h
  · next hp =>
    obtain rfl := Option.some.inj h
    exact ⟨_, hp, rfl⟩
  · cases h

/-- Process `p` is about to make request `e`. -/
def Asks (s : Sys Resp W X Call σ β Pid) (p : Pid) (e : Req) : Prop :=
  ∃ pr k, s.procs p = some pr ∧ pr.prog = .op e k

/-- Process `p`, in a turn of its loop, is about to make request `e`. -/
def Drives (s : Sys Resp W X Call σ β Pid) (p : Pid) (e : Req) : Prop :=
  ∃ pr st k, s.procs p = some pr ∧ pr.phase = .loop st ∧ pr.prog = .op e k

omit [DecidableEq Pid] in
theorem Drives.asks {s : Sys Resp W X Call σ β Pid} {p : Pid} {e : Req}
    (h : s.Drives p e) : s.Asks p e := by
  obtain ⟨pr, _, k, hp, _, hprog⟩ := h
  exact ⟨pr, k, hp, hprog⟩

end Sys

namespace Machine

variable {Req : Type} {Resp Env : Req → Type}
variable {Answer W X Call σ β Pid : Type} [DecidableEq Pid]
variable (M : Machine Resp Env Answer W X Call σ β)

-- ==== transitions

/-- Take one action, or refuse it. -/
def apply (a : Action Pid Answer Call) (s : Sys Resp W X Call σ β Pid) :
    Option (Sys Resp W X Call σ β Pid) :=
  match a with
  | .call p c =>
    match s.procs p with
    | some _ => none
    | none => some (s.put (M.onCall s.world c) p
        (some ⟨.entry c, [], M.entry c⟩))
  | .step p ans =>
    match s.procs p with
    | none => none
    | some pr =>
      match pr.prog with
      | .ret (.done _) => some (s.put s.world p none)
      | .ret (.again st) =>
        some (s.put s.world p (some ⟨.loop st, [], M.body st⟩))
      | .raise _ => some (s.put (M.onStop s.world) p none)
      | .op e k =>
        match M.decode e ans with
        | none => none
        | some x =>
          let r := M.exec s.world e x
          some (s.put r.1 p
            (some ⟨pr.phase, ⟨e, r.2⟩ :: pr.log, k r.2⟩))
  | .crash p =>
    match s.procs p with
    | none => none
    | some _ => some (s.put (M.onStop s.world) p none)

/-- Everything one action can do. -/
inductive Step : Sys Resp W X Call σ β Pid → Action Pid Answer Call →
    Sys Resp W X Call σ β Pid → Prop
  | call {s : Sys Resp W X Call σ β Pid} {p : Pid} {c : Call}
      (hp : s.procs p = none) :
      Step s (.call p c)
        (s.put (M.onCall s.world c) p (some ⟨.entry c, [], M.entry c⟩))
  | done {s : Sys Resp W X Call σ β Pid} {p : Pid} {ans : Answer}
      {pr : Proc Resp X Call σ β} {b : β} (hp : s.procs p = some pr)
      (hprog : pr.prog = .ret (.done b)) :
      Step s (.step p ans) (s.put s.world p none)
  | again {s : Sys Resp W X Call σ β Pid} {p : Pid} {ans : Answer}
      {pr : Proc Resp X Call σ β} {st : σ} (hp : s.procs p = some pr)
      (hprog : pr.prog = .ret (.again st)) :
      Step s (.step p ans)
        (s.put s.world p (some ⟨.loop st, [], M.body st⟩))
  | raised {s : Sys Resp W X Call σ β Pid} {p : Pid} {ans : Answer}
      {pr : Proc Resp X Call σ β} {x : X} (hp : s.procs p = some pr)
      (hprog : pr.prog = .raise x) :
      Step s (.step p ans) (s.put (M.onStop s.world) p none)
  | op {s : Sys Resp W X Call σ β Pid} {p : Pid} {ans : Answer}
      {pr : Proc Resp X Call σ β} {e : Req}
      {k : Resp e → Prog Resp X (Ctl σ β)} {x : Env e}
      (hp : s.procs p = some pr) (hprog : pr.prog = .op e k)
      (hx : M.decode e ans = some x) :
      Step s (.step p ans)
        (s.put (M.exec s.world e x).1 p
          (some ⟨pr.phase, ⟨e, (M.exec s.world e x).2⟩ :: pr.log,
            k (M.exec s.world e x).2⟩))
  | crash {s : Sys Resp W X Call σ β Pid} {p : Pid}
      {pr : Proc Resp X Call σ β} (hp : s.procs p = some pr) :
      Step s (.crash p) (s.put (M.onStop s.world) p none)

variable {M}

/-- Inversion: an action that was taken did one of the six things. -/
theorem apply_inv {a : Action Pid Answer Call}
    {s s' : Sys Resp W X Call σ β Pid} (h : M.apply a s = some s') :
    M.Step s a s' := by
  cases a with
  | call p c =>
    simp only [apply] at h
    split at h
    · cases h
    · next hp =>
      injection h with h
      subst h
      exact .call hp
  | step p ans =>
    simp only [apply] at h
    split at h
    · cases h
    · next pr hp =>
      split at h
      · next b hprog =>
        injection h with h
        subst h
        exact .done hp hprog
      · next st hprog =>
        injection h with h
        subst h
        exact .again hp hprog
      · next x hprog =>
        injection h with h
        subst h
        exact .raised hp hprog
      · next e k hprog =>
        split at h
        · cases h
        · next x hx =>
          injection h with h
          subst h
          exact .op hp hprog hx
  | crash p =>
    simp only [apply] at h
    split at h
    · cases h
    · next pr hp =>
      injection h with h
      subst h
      exact .crash hp

-- ==== runs

/-- The states reached by the runs all of whose actions met `cond` in
the state they were taken in. -/
inductive Reach (M : Machine Resp Env Answer W X Call σ β) (init : W → Prop)
    (cond : Sys Resp W X Call σ β Pid → Action Pid Answer Call → Prop) :
    Sys Resp W X Call σ β Pid → Prop
  | init {w : W} (hw : init w) : Reach M init cond (Sys.idle w)
  | step {s s' : Sys Resp W X Call σ β Pid} {a : Action Pid Answer Call}
      (hs : Reach M init cond s) (hc : cond s a)
      (h : M.apply a s = some s') : Reach M init cond s'

/-- A run from one state to a later one. -/
inductive Leads (M : Machine Resp Env Answer W X Call σ β)
    (cond : Sys Resp W X Call σ β Pid → Action Pid Answer Call → Prop) :
    Sys Resp W X Call σ β Pid → Sys Resp W X Call σ β Pid → Prop
  | refl (s : Sys Resp W X Call σ β Pid) : Leads M cond s s
  | step {s s' s'' : Sys Resp W X Call σ β Pid}
      {a : Action Pid Answer Call} (hs : Leads M cond s s')
      (hc : cond s' a) (h : M.apply a s' = some s'') : Leads M cond s s''

/-- One call, from the state it was made in to a later one: with the
world before and after each step of its process, latest first. -/
inductive Serves (M : Machine Resp Env Answer W X Call σ β)
    (cond : Sys Resp W X Call σ β Pid → Action Pid Answer Call → Prop)
    (p : Pid) (c : Call) (s : Sys Resp W X Call σ β Pid) :
    List (W × W) → Sys Resp W X Call σ β Pid → Prop
  | called {s' : Sys Resp W X Call σ β Pid} (hc : cond s (.call p c))
      (h : M.apply (.call p c) s = some s') : Serves M cond p c s [] s'
  | own {ws : List (W × W)} {s' s'' : Sys Resp W X Call σ β Pid}
      {ans : Answer} (hs : Serves M cond p c s ws s')
      (hc : cond s' (.step p ans)) (h : M.apply (.step p ans) s' = some s'') :
      Serves M cond p c s ((s'.world, s''.world) :: ws) s''
  | other {ws : List (W × W)} {s' s'' : Sys Resp W X Call σ β Pid}
      {a : Action Pid Answer Call} (hs : Serves M cond p c s ws s')
      (ha : a.pid ≠ p) (hc : cond s' a) (h : M.apply a s' = some s'') :
      Serves M cond p c s ws s''

theorem Serves.leads
    {cond : Sys Resp W X Call σ β Pid → Action Pid Answer Call → Prop}
    {p : Pid} {c : Call} {s s' : Sys Resp W X Call σ β Pid}
    {ws : List (W × W)} (h : M.Serves cond p c s ws s') :
    M.Leads cond s s' := by
  induction h with
  | called hc happ => exact .step (.refl s) hc happ
  | own _ hc happ ih => exact .step ih hc happ
  | other _ _ hc happ ih => exact .step ih hc happ

theorem Reach.leads {init : W → Prop}
    {cond : Sys Resp W X Call σ β Pid → Action Pid Answer Call → Prop}
    {s s' : Sys Resp W X Call σ β Pid} (hs : M.Reach init cond s)
    (h : M.Leads cond s s') : M.Reach init cond s' := by
  induction h with
  | refl => exact hs
  | step _ hc happ ih => exact .step ih hc happ

theorem Step.procs_ne {a : Action Pid Answer Call}
    {s s' : Sys Resp W X Call σ β Pid} (h : M.Step s a s') {p : Pid}
    (hp : a.pid ≠ p) : s'.procs p = s.procs p := by
  cases h <;> exact Sys.put_procs_ne _ _ _ (Ne.symm hp)

/-- A step of process `p`, in a state on the way from `s`, took the world
from one to the other and was answered so. -/
def Answers (M : Machine Resp Env Answer W X Call σ β)
    (cond : Sys Resp W X Call σ β Pid → Action Pid Answer Call → Prop)
    (p : Pid) (s : Sys Resp W X Call σ β Pid) (ww : W × W)
    (x : (e : Req) × Resp e) : Prop :=
  ∃ s₁ ans pr k env, M.Leads cond s s₁ ∧ cond s₁ (.step p ans) ∧
    s₁.procs p = some pr ∧ pr.prog = .op x.1 k ∧ s₁.world = ww.1 ∧
    M.exec ww.1 x.1 env = (ww.2, x.2)

/-- While a call is in the part before its loop, its log lists the
requests of its steps. -/
theorem Serves.log
    {cond : Sys Resp W X Call σ β Pid → Action Pid Answer Call → Prop}
    {p : Pid} {c : Call} {s s' : Sys Resp W X Call σ β Pid}
    {ws : List (W × W)} (h : M.Serves cond p c s ws s') :
    ∀ {pr c'}, s'.procs p = some pr → pr.phase = .entry c' →
      c' = c ∧ List.Forall₂ (M.Answers cond p s) ws pr.log := by
  induction h with
  | called hc happ =>
    intro pr c' hp hph
    cases apply_inv happ with
    | call hnone =>
      rw [Sys.put_procs_self] at hp
      obtain rfl := Option.some.inj hp
      injection hph with hph
      exact ⟨hph.symm, .nil⟩
  | @own ws s₁ s₂ ans hs hc happ ih =>
    intro pr c' hp hph
    cases apply_inv happ with
    | done hp₁ hprog =>
      rw [Sys.put_procs_self] at hp
      cases hp
    | again hp₁ hprog =>
      rw [Sys.put_procs_self] at hp
      obtain rfl := Option.some.inj hp
      cases hph
    | raised hp₁ hprog =>
      rw [Sys.put_procs_self] at hp
      cases hp
    | @op p ans pr₁ e k x hp₁ hprog hx =>
      rw [Sys.put_procs_self] at hp
      obtain rfl := Option.some.inj hp
      obtain ⟨hc', hall⟩ := ih hp₁ hph
      exact ⟨hc', .cons ⟨s₁, ans, pr₁, k, x, hs.leads, hc, hp₁, hprog,
        rfl, rfl⟩ hall⟩
  | @other ws s₁ s₂ a _ ha hc happ ih =>
    intro pr c' hp hph
    rw [(apply_inv happ).procs_ne ha] at hp
    exact ih hp hph

/-- The last step of a call that is in the part before its loop. -/
theorem Serves.last
    {cond : Sys Resp W X Call σ β Pid → Action Pid Answer Call → Prop}
    {p : Pid} {c : Call} {s s' : Sys Resp W X Call σ β Pid}
    {ws : List (W × W)} (h : M.Serves cond p c s ws s') :
    ∀ {pr : Proc Resp X Call σ β} {c' : Call} {x : (e : Req) × Resp e}
      {lg : Log Resp}, s'.procs p = some pr → pr.phase = .entry c' →
      pr.log = x :: lg →
      ∃ s₁ s₂ ans ws' k env, M.Serves cond p c s ws' s₁ ∧
        ws = (s₁.world, s₂.world) :: ws' ∧ cond s₁ (.step p ans) ∧
        M.apply (.step p ans) s₁ = some s₂ ∧
        s₁.procs p = some ⟨.entry c', lg, .op x.1 k⟩ ∧
        M.exec s₁.world x.1 env = (s₂.world, x.2) ∧ M.Leads cond s₂ s' := by
  induction h with
  | called hc happ =>
    intro pr c' x lg hp hph hlog
    cases apply_inv happ with
    | call hnone =>
      rw [Sys.put_procs_self] at hp
      obtain rfl := Option.some.inj hp
      cases hlog
  | @own ws s₁ s₂ ans hs hc happ ih =>
    intro pr c' x lg hp hph hlog
    cases apply_inv happ with
    | done hp₁ hprog =>
      rw [Sys.put_procs_self] at hp
      cases hp
    | again hp₁ hprog =>
      rw [Sys.put_procs_self] at hp
      obtain rfl := Option.some.inj hp
      cases hph
    | raised hp₁ hprog =>
      rw [Sys.put_procs_self] at hp
      cases hp
    | @op p ans pr₁ e k env hp₁ hprog hx =>
      rw [Sys.put_procs_self] at hp
      obtain rfl := Option.some.inj hp
      obtain ⟨rfl, rfl⟩ := List.cons.inj hlog
      refine ⟨s₁, _, ans, ws, k, env, hs, rfl, hc, happ, ?_, rfl, .refl _⟩
      rw [hp₁, ← hprog, ← hph]
  | @other ws s₁ s₂ a _ ha hc happ ih =>
    intro pr c' x lg hp hph hlog
    rw [(apply_inv happ).procs_ne ha] at hp
    obtain ⟨t₁, t₂, ans, ws', k, env, hs, hws, hcond, hstep, hpr, hexec,
      hleads⟩ := ih hp hph hlog
    exact ⟨t₁, t₂, ans, ws', k, env, hs, hws, hcond, hstep, hpr, hexec,
      .step hleads hc happ⟩

theorem Serves.mem
    {cond : Sys Resp W X Call σ β Pid → Action Pid Answer Call → Prop}
    {p : Pid} {c : Call} {s s' : Sys Resp W X Call σ β Pid}
    {ws : List (W × W)} (h : M.Serves cond p c s ws s') {ww : W × W}
    (hww : ww ∈ ws) : ∃ s₁, M.Leads cond s s₁ ∧ s₁.world = ww.1 := by
  induction h with
  | called hc happ => cases hww
  | @own ws s₁ s₂ ans hs hc happ ih =>
    rcases List.mem_cons.1 hww with rfl | hold
    · exact ⟨s₁, hs.leads, rfl⟩
    · exact ih hold
  | other _ _ _ _ ih => exact ih hww

/-- Take a list of actions in order, checking each against the state it
is taken in. -/
def run (M : Machine Resp Env Answer W X Call σ β)
    (chk : Sys Resp W X Call σ β Pid → Action Pid Answer Call → Bool) :
    List (Action Pid Answer Call) → Sys Resp W X Call σ β Pid →
      Option (Sys Resp W X Call σ β Pid)
  | [], s => some s
  | a :: rest, s =>
    if chk s a then
      match M.apply a s with
      | some s' => M.run chk rest s'
      | none => none
    else none

/-- A checked run from a reached state lands on a reached state. -/
theorem reach_of_run {init : W → Prop}
    {cond : Sys Resp W X Call σ β Pid → Action Pid Answer Call → Prop}
    {chk : Sys Resp W X Call σ β Pid → Action Pid Answer Call → Bool}
    (hchk : ∀ s a, chk s a = true → cond s a) :
    ∀ {acts : List (Action Pid Answer Call)}
      {s s' : Sys Resp W X Call σ β Pid}, M.Reach init cond s →
      M.run chk acts s = some s' → M.Reach init cond s' := by
  intro acts
  induction acts with
  | nil =>
    intro s s' hs h
    simp only [run, Option.some.injEq] at h
    exact h ▸ hs
  | cons a rest ih =>
    intro s s' hs h
    simp only [run] at h
    split at h
    · next hc =>
      split at h
      · next s₁ happ => exact ih (.step hs (hchk _ _ hc) happ) h
      · cases h
    · cases h

/-- A checked run from a state leads from it to where it ends. -/
theorem leads_of_run
    {cond : Sys Resp W X Call σ β Pid → Action Pid Answer Call → Prop}
    {chk : Sys Resp W X Call σ β Pid → Action Pid Answer Call → Bool}
    (hchk : ∀ s a, chk s a = true → cond s a)
    {s₀ : Sys Resp W X Call σ β Pid} :
    ∀ {acts : List (Action Pid Answer Call)}
      {s s' : Sys Resp W X Call σ β Pid}, M.Leads cond s₀ s →
      M.run chk acts s = some s' → M.Leads cond s₀ s' := by
  intro acts
  induction acts with
  | nil =>
    intro s s' hs h
    simp only [run, Option.some.injEq] at h
    exact h ▸ hs
  | cons a rest ih =>
    intro s s' hs h
    simp only [run] at h
    split at h
    · next hc =>
      split at h
      · next s₁ happ => exact ih (.step hs (hchk _ _ hc) happ) h
      · cases h
    · cases h

/-- A checked run whose last state passes a test reaches such a state. -/
theorem reach_of_any {init : W → Prop}
    {cond : Sys Resp W X Call σ β Pid → Action Pid Answer Call → Prop}
    {chk : Sys Resp W X Call σ β Pid → Action Pid Answer Call → Bool}
    (hchk : ∀ s a, chk s a = true → cond s a)
    {acts : List (Action Pid Answer Call)} {w : W} (hw : init w)
    {test : Sys Resp W X Call σ β Pid → Bool}
    (h : (M.run chk acts (Sys.idle w)).any test = true) :
    ∃ s, M.Reach init cond s ∧ test s = true := by
  obtain ⟨s, hrun, htest⟩ := (Option.any_eq_true _ _).1 h
  exact ⟨s, reach_of_run hchk (.init hw) hrun, htest⟩

/-- Take a list of actions while a call of `p` is in progress. -/
def serve (M : Machine Resp Env Answer W X Call σ β)
    (chk : Sys Resp W X Call σ β Pid → Action Pid Answer Call → Bool)
    (p : Pid) : List (Action Pid Answer Call) →
      List (W × W) × Sys Resp W X Call σ β Pid →
      Option (List (W × W) × Sys Resp W X Call σ β Pid)
  | [], x => some x
  | a :: rest, (ws, s) =>
    if chk s a then
      match M.apply a s with
      | none => none
      | some s' =>
        if a.pid ≠ p then M.serve chk p rest (ws, s')
        else
          match a with
          | .step .. => M.serve chk p rest ((s.world, s'.world) :: ws, s')
          | _ => none
    else none

theorem serves_of_serve
    {cond : Sys Resp W X Call σ β Pid → Action Pid Answer Call → Prop}
    {chk : Sys Resp W X Call σ β Pid → Action Pid Answer Call → Bool}
    (hchk : ∀ s a, chk s a = true → cond s a) {p : Pid} {c : Call}
    {s : Sys Resp W X Call σ β Pid} :
    ∀ {acts : List (Action Pid Answer Call)}
      {x y : List (W × W) × Sys Resp W X Call σ β Pid},
      M.Serves cond p c s x.1 x.2 → M.serve chk p acts x = some y →
        M.Serves cond p c s y.1 y.2 := by
  intro acts
  induction acts with
  | nil =>
    intro x y hx h
    simp only [serve, Option.some.injEq] at h
    exact h ▸ hx
  | cons a rest ih =>
    intro x y hx h
    obtain ⟨ws, s₁⟩ := x
    simp only [serve] at h
    split at h
    · next hc =>
      split at h
      · cases h
      · next s₂ happ =>
        split at h
        · next hq =>
          exact ih (x := (ws, s₂)) (.other hx hq (hchk _ _ hc) happ) h
        · next hq =>
          split at h
          · next q ans =>
            obtain rfl : q = p := not_not.1 hq
            exact ih (x := (_, s₂)) (.own hx (hchk _ _ hc) happ) h
          · cases h
    · cases h

/-- Take a run, then a call of `p` and the actions after it: the state
the call was made in, its steps, and the state at the end. -/
def runServe (M : Machine Resp Env Answer W X Call σ β)
    (chk : Sys Resp W X Call σ β Pid → Action Pid Answer Call → Bool)
    (before : List (Action Pid Answer Call)) (p : Pid) (c : Call)
    (acts : List (Action Pid Answer Call))
    (s : Sys Resp W X Call σ β Pid) :
    Option (Sys Resp W X Call σ β Pid × List (W × W) ×
      Sys Resp W X Call σ β Pid) :=
  match M.run chk before s with
  | none => none
  | some s₀ =>
    match M.run chk [.call p c] s₀ with
    | none => none
    | some s₁ => (M.serve chk p acts ([], s₁)).map fun x => (s₀, x)

theorem serves_of_any {init : W → Prop}
    {cond : Sys Resp W X Call σ β Pid → Action Pid Answer Call → Prop}
    {chk : Sys Resp W X Call σ β Pid → Action Pid Answer Call → Bool}
    (hchk : ∀ s a, chk s a = true → cond s a) {w : W} (hw : init w)
    {before acts : List (Action Pid Answer Call)} {p : Pid} {c : Call}
    {test : Sys Resp W X Call σ β Pid × List (W × W) ×
      Sys Resp W X Call σ β Pid → Bool}
    (h : (M.runServe chk before p c acts (Sys.idle w)).any test = true) :
    ∃ s₀ ws s, M.Reach init cond s₀ ∧ M.Serves cond p c s₀ ws s ∧
      test (s₀, ws, s) = true := by
  obtain ⟨⟨s₀, ws, s⟩, hserve, htest⟩ := (Option.any_eq_true _ _).1 h
  unfold runServe at hserve
  split at hserve
  · cases hserve
  · next s₀' hrun =>
    split at hserve
    · cases hserve
    · next s₁ hcall =>
      obtain ⟨x, hx, heq⟩ := Option.map_eq_some_iff.1 hserve
      obtain ⟨rfl, rfl⟩ := Prod.mk.inj heq
      simp only [run] at hcall
      split at hcall
      · next hc =>
        split at hcall
        · next s₂ happ =>
          obtain rfl := Option.some.inj hcall
          exact ⟨s₀', ws, s, reach_of_run hchk (.init hw) hrun,
            serves_of_serve hchk (x := ([], s₂))
              (.called (hchk _ _ hc) happ) hx, htest⟩
        · cases hcall
      · cases hcall

/-- A run under a stronger condition is a run under a weaker one. -/
theorem Reach.mono {init : W → Prop}
    {cond cond' : Sys Resp W X Call σ β Pid → Action Pid Answer Call → Prop}
    (himp : ∀ s a, cond s a → cond' s a)
    {s : Sys Resp W X Call σ β Pid} (h : M.Reach init cond s) :
    M.Reach init cond' s := by
  induction h with
  | init hw => exact .init hw
  | step _ hc happ ih => exact .step ih (himp _ _ hc) happ

theorem Leads.trans
    {cond : Sys Resp W X Call σ β Pid → Action Pid Answer Call → Prop}
    {s s' s'' : Sys Resp W X Call σ β Pid} (h : M.Leads cond s s')
    (h' : M.Leads cond s' s'') : M.Leads cond s s'' := by
  induction h' with
  | refl => exact h
  | step _ hc happ ih => exact .step ih hc happ

theorem Leads.mono
    {cond cond' : Sys Resp W X Call σ β Pid → Action Pid Answer Call → Prop}
    (himp : ∀ s a, cond s a → cond' s a)
    {s s' : Sys Resp W X Call σ β Pid} (h : M.Leads cond s s') :
    M.Leads cond' s s' := by
  induction h with
  | refl => exact .refl _
  | step _ hc happ ih => exact .step ih (himp _ _ hc) happ

end Machine

-- ==== trails

namespace Machine

variable {Req : Type} {Resp Env : Req → Type}
variable {Answer W X Call σ β μ α γ : Type}

/-- What a log leaves in memory. -/
def recollect (note : μ → ((e : Req) × Resp e) → μ) (m : μ) : Log Resp → μ
  | [] => m
  | x :: lg => note (recollect note m lg) x

/-- Every point of every execution satisfies `P`, every return `Q`. -/
def Trail (M : Machine Resp Env Answer W X Call σ β)
    (note : μ → ((e : Req) × Resp e) → μ) (P : μ → W → Prop)
    (Q : α → μ → W → Prop) : Prog Resp X α → μ → W → Prop
  | .ret a, m, w => Q a m w
  | .raise _, m, w => P m w
  | .op e k, m, w => P m w ∧ ∀ x,
      Trail M note P Q (k (M.exec w e x).2) (note m ⟨e, (M.exec w e x).2⟩)
        (M.exec w e x).1

variable {M : Machine Resp Env Answer W X Call σ β}
variable {note : μ → ((e : Req) × Resp e) → μ} {P : μ → W → Prop}

theorem trail_bind {Q : γ → μ → W → Prop} {f : α → Prog Resp X γ} :
    ∀ {prog : Prog Resp X α} {m : μ} {w : W},
      M.Trail note P (fun a m w => M.Trail note P Q (f a) m w) prog m w →
        M.Trail note P Q (prog >>= f) m w := by
  intro prog
  induction prog with
  | ret a => intro m w h; exact h
  | raise x => intro m w h; exact h
  | op e k ih =>
    intro m w h
    exact ⟨h.1, fun x => ih _ (h.2 x)⟩

end Machine

end SdlcOs.Effects
