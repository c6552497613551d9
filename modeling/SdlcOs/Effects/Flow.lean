/-
What flows through a program, and ledgers beside a world.

# Good answers, good requests

`Carries` is the unary logical relation of effect programs: fed only
answers that are as `ans` says, a program makes only requests that are
as `req` says, and returns what `res` says. Like `Paths` it mentions no
world and composes function by function; unlike `Paths` it keeps no log,
so it is the cheaper of the two where what matters is the kind of value
that passes through and not its history. `Reach.carried` closes the
loop: if good requests leave the world able to give good answers, every
answer ever given is good.

# A ledger beside the world

`Machine.beside` gives a machine a second store that every request may
write and none reads. Nothing a process does depends on it, so a run of
the larger machine is a run of the smaller one with the ledger forgotten
(`Reach.forget`).

# An environment that is played

What the environment answers is left open in a machine. A `Player` keeps
a store of its own and works some of the answers out: given what is left
of the environment's part, it says what the answer is and what becomes of
its store. `Machine.played` is the machine with the player in the
environment's seat. The player answers as some environment would, so a
run of the larger machine is a run of the smaller one with the player's
answers written in (`Reach.unplayed`).

# One call among others

`Reach.invariant` is the rule for invariants of the world that no request
can break, whatever asks for it. `Serves.carried` follows one call from
where it was made: if every answer that can be given on the way is good,
the call's process goes on as `Carries` says of its text, and returns what
it promises, however many turns its loop takes.
-/
import SdlcOs.Effects.Rely

namespace SdlcOs.Effects

namespace Prog

variable {Req : Type} {Resp : Req → Type} {X α β : Type}
variable {ans : (e : Req) → Resp e → Prop} {req : Req → Prop}

/-- Fed good answers, the program makes good requests and returns a good
result. -/
def Carries (ans : (e : Req) → Resp e → Prop) (req : Req → Prop)
    (res : α → Prop) : Prog Resp X α → Prop
  | .ret a => res a
  | .raise _ => True
  | .op e k => req e ∧ ∀ r, ans e r → Carries ans req res (k r)

theorem carries_bind {res : β → Prop} {f : α → Prog Resp X β} :
    ∀ {m : Prog Resp X α},
      Carries ans req (fun a => Carries ans req res (f a)) m →
        Carries ans req res (m >>= f) := by
  intro m
  induction m with
  | ret a => intro h; exact h
  | raise x => intro _; exact trivial
  | op e k ih =>
    intro h
    exact ⟨h.1, fun r hr => ih r (h.2 r hr)⟩

theorem Carries.mono {res res' : α → Prop} (hres : ∀ a, res a → res' a) :
    ∀ {m : Prog Resp X α}, Carries ans req res m →
      Carries ans req res' m := by
  intro m
  induction m with
  | ret a => intro h; exact hres a h
  | raise x => intro _; exact trivial
  | op e k ih =>
    intro h
    exact ⟨h.1, fun r hr => ih r (h.2 r hr)⟩

theorem carries_each {ι : Type} {f : ι → Prog Resp X Unit} :
    ∀ {l : List ι}, (∀ i ∈ l, Carries ans req (fun _ => True) (f i)) →
      Carries ans req (fun _ => True) (Prog.each f l) := by
  intro l
  induction l with
  | nil => intro _; exact trivial
  | cons i rest ih =>
    intro h
    refine carries_bind ((h i (List.mem_cons_self ..)).mono fun _ _ => ?_)
    exact ih fun j hj => h j (List.mem_cons_of_mem _ hj)

/-- Every answer in the log is good. -/
def Heeded (ans : (e : Req) → Resp e → Prop) (lg : Log Resp) : Prop :=
  ∀ x ∈ lg, ans x.1 x.2

theorem heeded_cons {e : Req} {r : Resp e} {lg : Log Resp}
    (hr : ans e r) (h : Heeded ans lg) : Heeded ans (⟨e, r⟩ :: lg) := by
  intro x hx
  rcases List.mem_cons.1 hx with rfl | hx
  · exact hr
  · exact h x hx

theorem Carries.paths {res : α → Prop} :
    ∀ {m : Prog Resp X α} {lg : Log Resp},
      (Heeded ans lg → Carries ans req res m) →
        Paths (fun lg e => Heeded ans lg → req e)
          (fun a lg => Heeded ans lg → res a) m lg := by
  intro m
  induction m with
  | ret a => intro lg h; exact h
  | raise x => intro lg _; exact trivial
  | op e k ih =>
    intro lg h
    refine ⟨fun hlg => (h hlg).1, fun r => ih r ?_⟩
    intro hlg
    have hr : ans e r := hlg _ (List.mem_cons_self ..)
    have hrest : Heeded ans lg := fun x hx =>
      hlg x (List.mem_cons_of_mem _ hx)
    exact (h hrest).2 r hr

end Prog

namespace Machine

open Prog (Carries Heeded heeded_cons)

variable {Req : Type} {Resp Env : Req → Type}
variable {Answer W X Call σ β Pid : Type} [DecidableEq Pid]

-- ==== what every run carries

section Carried

variable {M : Machine Resp Env Answer W X Call σ β}
variable {ans : (e : Req) → Resp e → Prop} {req : Req → Prop}
variable {env : (e : Req) → Env e → Prop} {J : W → Prop}

/-- Good requests keep the invariant and are given good answers, as long
as the environment's part in them is good. -/
structure Carrier (M : Machine Resp Env Answer W X Call σ β)
    (ans : (e : Req) → Resp e → Prop) (req : Req → Prop)
    (env : (e : Req) → Env e → Prop) (J : W → Prop) : Prop where
  entry : ∀ c, (M.entry c).Carries ans req (fun _ => True)
  body : ∀ st, (M.body st).Carries ans req (fun _ => True)
  called : ∀ {w : W} (c : Call), J w → J (M.onCall w c)
  stopped : ∀ {w : W}, J w → J (M.onStop w)
  asked : ∀ {w : W} {e : Req} {x : Env e}, J w → req e → env e x →
    J (M.exec w e x).1 ∧ ans e (M.exec w e x).2

/-- The discipline of processes that have heard good answers only. -/
def carrying (ans : (e : Req) → Resp e → Prop) (req : Req → Prop)
    (env : (e : Req) → Env e → Prop) (J : W → Prop) :
    Discipline Resp Env W Call σ where
  may _ lg e := Heeded ans lg → req e
  handsOn _ _ _ := True
  assume _ _ _ e x := env e x
  inv := J
  rel _ _ := True
  knows _ lg _ := Heeded ans lg

theorem Carrier.follows (h : M.Carrier ans req env J) :
    (carrying ans req env J).Follows M := by
  have hends : ∀ (ph : Phase Call σ) (ctl : Ctl σ β) (lg : Log Resp),
      (Heeded ans lg → True) →
        (carrying ans req env J : Discipline Resp Env W Call σ).Ends ph ctl
          lg := by
    intro ph ctl lg _
    cases ctl <;> exact trivial
  constructor
  · intro c
    exact Prog.Paths.mono (hends _) (Carries.paths fun _ => h.entry c)
  · intro st
    exact Prog.Paths.mono (hends _) (Carries.paths fun _ => h.body st)

theorem Carrier.sound (h : M.Carrier ans req env J) :
    (carrying ans req env J).Sound M where
  stable := fun _ hknows => hknows
  called := fun c hJ => ⟨h.called c hJ, trivial⟩
  stopped := fun hJ => ⟨h.stopped hJ, trivial⟩
  entered := fun _ _ _ hx => by cases hx
  asked := by
    intro w ph lg e x hJ hknows hmay hx
    obtain ⟨hJ', hans⟩ := h.asked hJ (hmay hknows) hx
    exact ⟨hJ', trivial, heeded_cons hans hknows⟩
  again := fun _ _ _ _ hx => by cases hx

/-- Whatever the interleaving: along a run in which the environment's
part is good, the invariant holds. -/
theorem Reach.carried (h : M.Carrier ans req env J) {init : W → Prop}
    (hinit : ∀ w, init w → J w)
    {cond : Sys Resp W X Call σ β Pid → Action Pid Answer Call → Prop}
    (hall : Allows M (carrying ans req env J) cond)
    {s : Sys Resp W X Call σ β Pid} (hs : M.Reach init cond s) :
    J s.world :=
  (hs.interleaved h.follows h.sound (fun _ => trivial) hinit hall).inv

end Carried

-- ==== a ledger beside the world

section Beside

variable {L : Type}

/-- A machine with a ledger beside its world: every request may write it
and none reads it. -/
def beside (M : Machine Resp Env Answer W X Call σ β)
    (note : L → Req → L) : Machine Resp Env Answer (W × L) X Call σ β where
  exec w e x := (((M.exec w.1 e x).1, note w.2 e), (M.exec w.1 e x).2)
  decode := M.decode
  onCall w c := (M.onCall w.1 c, w.2)
  onStop w := (M.onStop w.1, w.2)
  entry := M.entry
  body := M.body

/-- Forget the ledger. -/
def forget (s : Sys Resp (W × L) X Call σ β Pid) :
    Sys Resp W X Call σ β Pid := ⟨s.world.1, s.procs⟩

variable {M : Machine Resp Env Answer W X Call σ β} {note : L → Req → L}

/-- An action of the larger machine is an action of the smaller one. -/
theorem apply_forget {a : Action Pid Answer Call}
    {s s' : Sys Resp (W × L) X Call σ β Pid}
    (h : (M.beside note).apply a s = some s') :
    M.apply a (forget s) = some (forget s') := by
  have hprocs : ∀ q, (forget s).procs q = s.procs q := fun _ => rfl
  cases apply_inv h with
  | call hp =>
    simp only [apply, hprocs, hp]
    rfl
  | done hp hprog =>
    simp only [apply, hprocs, hp, hprog]
    rfl
  | again hp hprog =>
    simp only [apply, hprocs, hp, hprog]
    rfl
  | raised hp hprog =>
    simp only [apply, hprocs, hp, hprog]
    rfl
  | @op p ans pr e k x hp hprog hx =>
    have hdec : M.decode e ans = some x := hx
    simp only [apply, hprocs, hp, hprog, hdec]
    rfl
  | crash hp =>
    simp only [apply, hprocs, hp]
    rfl

/-- Forgetting the ledger takes the runs of the larger machine to runs
of the smaller one. -/
theorem Reach.forget {init : W × L → Prop} {init' : W → Prop}
    {cond : Sys Resp (W × L) X Call σ β Pid → Action Pid Answer Call → Prop}
    {cond' : Sys Resp W X Call σ β Pid → Action Pid Answer Call → Prop}
    (hinit : ∀ w, init w → init' w.1)
    (hcond : ∀ s a, cond s a → cond' (Machine.forget s) a)
    {s : Sys Resp (W × L) X Call σ β Pid}
    (hs : (M.beside note).Reach init cond s) :
    M.Reach init' cond' (Machine.forget s) := by
  induction hs with
  | init hw => exact .init (hinit _ hw)
  | step _ hc happ ih => exact .step ih (hcond _ _ hc) (apply_forget happ)

end Beside

end Machine

-- ==== players

/-- Somebody who plays the environment of a machine, given moves of a
lower environment. -/
structure Player {Req : Type} {Resp Env : Req → Type}
    {Answer W X Call σ β : Type}
    (M : Machine Resp Env Answer W X Call σ β) (Env' : Req → Type)
    (Answer' L : Type) where
  play : W → L → (e : Req) → Env' e → L × Env e
  decode : (e : Req) → Answer' → Option (Env' e)
  encode : (e : Req) → Env e → Answer
  idle : Answer
  decode_encode : ∀ e x, M.decode e (encode e x) = some x

namespace Machine

variable {Req : Type} {Resp Env Env' : Req → Type}
variable {Answer Answer' W L X Call σ β Pid : Type} [DecidableEq Pid]
variable {M : Machine Resp Env Answer W X Call σ β}

/-- A machine with a player in its environment's seat. -/
def played (P : Player M Env' Answer' L) :
    Machine Resp Env' Answer' (W × L) X Call σ β where
  exec w e x :=
    (((M.exec w.1 e (P.play w.1 w.2 e x).2).1, (P.play w.1 w.2 e x).1),
      (M.exec w.1 e (P.play w.1 w.2 e x).2).2)
  decode := P.decode
  onCall w c := (M.onCall w.1 c, w.2)
  onStop w := (M.onStop w.1, w.2)
  entry := M.entry
  body := M.body

variable {P : Player M Env' Answer' L}

/-- What the environment of the smaller machine answers in an action of
the larger one. -/
def answered (P : Player M Env' Answer' L)
    (s : Sys Resp (W × L) X Call σ β Pid) (p : Pid) (ans : Answer') : Answer :=
  match s.procs p with
  | some ⟨_, _, .op e _⟩ =>
    match P.decode e ans with
    | some x => P.encode e (P.play s.world.1 s.world.2 e x).2
    | none => P.idle
  | _ => P.idle

end Machine

-- ==== one call

namespace Machine

variable {Req : Type} {Resp Env : Req → Type}
variable {Answer W X Call σ β Pid : Type} [DecidableEq Pid]
variable {M : Machine Resp Env Answer W X Call σ β}

/-- What no request, call or stop breaks holds whatever the
interleaving. -/
theorem Reach.invariant {J : W → Prop} {init : W → Prop}
    {cond : Sys Resp W X Call σ β Pid → Action Pid Answer Call → Prop}
    (hinit : ∀ w, init w → J w) (hcall : ∀ w c, J w → J (M.onCall w c))
    (hstop : ∀ w, J w → J (M.onStop w))
    (hexec : ∀ w e x, J w → J (M.exec w e x).1)
    {s : Sys Resp W X Call σ β Pid} (hs : M.Reach init cond s) :
    J s.world := by
  induction hs with
  | init hw => exact hinit _ hw
  | step _ _ happ ih =>
    cases apply_inv happ with
    | call hp => exact hcall _ _ ih
    | done hp hprog => exact ih
    | again hp hprog => exact ih
    | raised hp hprog => exact hstop _ ih
    | op hp hprog hx => exact hexec _ _ _ ih
    | crash hp => exact hstop _ ih

/-- What a turn ends in: a good loop state, or a good result. -/
def Upshot (good : σ → Prop) (res : β → Prop) : Ctl σ β → Prop
  | .again st => good st
  | .done b => res b

/-- One call, from the state it was made in: where every answer that one
of its own steps was given is good, its process keeps to what its text
promises. -/
theorem Serves.carried {ans : (e : Req) → Resp e → Prop} {req : Req → Prop}
    {good : σ → Prop} {res : β → Prop} {p : Pid} {c : Call}
    {cond : Sys Resp W X Call σ β Pid → Action Pid Answer Call → Prop}
    {s s' : Sys Resp W X Call σ β Pid} {ws : List (W × W)}
    (hentry : (M.entry c).Carries ans req (Upshot good res))
    (hbody : ∀ st, good st → (M.body st).Carries ans req (Upshot good res))
    (hans : ∀ {s₁ : Sys Resp W X Call σ β Pid} {a : Answer} {e : Req}
      {x : Env e}, M.Leads cond s s₁ → cond s₁ (.step p a) →
      M.decode e a = some x → req e →
      (s₁.world, (M.exec s₁.world e x).1) ∈ ws →
      ans e (M.exec s₁.world e x).2)
    (h : M.Serves cond p c s ws s') :
    ∀ pr, s'.procs p = some pr →
      pr.prog.Carries ans req (Upshot good res) := by
  induction h with
  | called hc happ =>
    intro pr hp
    cases apply_inv happ with
    | call hnone =>
      rw [Sys.put_procs_self] at hp
      obtain rfl := Option.some.inj hp
      exact hentry
  | @own ws s₁ s₂ a hserves hc happ ih =>
    intro pr hp
    -- The steps so far are among the steps of the whole call.
    replace ih := ih fun hleads hc hx hreq hmem =>
      hans hleads hc hx hreq (List.mem_cons_of_mem _ hmem)
    cases apply_inv happ with
    | done hp₁ hprog =>
      rw [Sys.put_procs_self] at hp
      cases hp
    | raised hp₁ hprog =>
      rw [Sys.put_procs_self] at hp
      cases hp
    | again hp₁ hprog =>
      rw [Sys.put_procs_self] at hp
      obtain rfl := Option.some.inj hp
      have hgood := ih _ hp₁
      rw [hprog] at hgood
      exact hbody _ hgood
    | op hp₁ hprog hx =>
      rw [Sys.put_procs_self] at hp
      obtain rfl := Option.some.inj hp
      have hgoes := ih _ hp₁
      rw [hprog] at hgoes
      exact hgoes.2 _
        (hans hserves.leads hc hx hgoes.1 List.mem_cons_self)
  | other hserves ha hc happ ih =>
    intro pr hp
    rw [(apply_inv happ).procs_ne ha] at hp
    exact ih hans pr hp

theorem Serves.returned_good {ans : (e : Req) → Resp e → Prop}
    {req : Req → Prop} {good : σ → Prop} {res : β → Prop} {p : Pid}
    {c : Call} {b : β}
    {cond : Sys Resp W X Call σ β Pid → Action Pid Answer Call → Prop}
    {s s' : Sys Resp W X Call σ β Pid} {ws : List (W × W)}
    (hentry : (M.entry c).Carries ans req (Upshot good res))
    (hbody : ∀ st, good st → (M.body st).Carries ans req (Upshot good res))
    (hans : ∀ {s₁ : Sys Resp W X Call σ β Pid} {a : Answer} {e : Req}
      {x : Env e}, M.Leads cond s s₁ → cond s₁ (.step p a) →
      M.decode e a = some x → req e →
      (s₁.world, (M.exec s₁.world e x).1) ∈ ws →
      ans e (M.exec s₁.world e x).2)
    (h : M.Serves cond p c s ws s') (hret : s'.Returns p b) : res b := by
  obtain ⟨pr, hp, hprog⟩ := hret
  have hgoes := h.carried hentry hbody hans pr hp
  rw [hprog] at hgoes
  exact hgoes

end Machine

end SdlcOs.Effects
