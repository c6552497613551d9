/-
One program at a time, from its first request to its end.

# Executions

`complete` runs a program with nothing interfering; what the environment
contributes to a request may depend on the requests before it. It is the
machine that runs: `complete_leads` writes an execution down as a run.

# Two executions

There are two ways to compare executions. One program in two worlds:
`complete_sim` keeps a relation between the worlds as long as the
requests the program may make cannot tell them apart. Two programs, one
the other's image under a translation of requests and answers: `Mirrors`
relates their texts, function by function, and `complete_mirrors` their
executions when the translation commutes with what requests do.
-/
import SdlcOs.Effects.Rely

namespace SdlcOs.Effects

namespace Machine

variable {Req : Type} {Resp Env : Req → Type}
variable {Answer W X Call σ β Pid α : Type}

/-- Run a program to its end. -/
def complete (M : Machine Resp Env Answer W X Call σ β)
    (env : Log Resp → (e : Req) → Env e) :
    Prog Resp X α → Log Resp → W → W × Except X α
  | .ret a, _, w => (w, .ok a)
  | .raise x, _, w => (w, .error x)
  | .op e k, lg, w =>
    complete M env (k (M.exec w e (env lg e)).2)
      (⟨e, (M.exec w e (env lg e)).2⟩ :: lg) (M.exec w e (env lg e)).1

variable {M : Machine Resp Env Answer W X Call σ β}
variable {env : Log Resp → (e : Req) → Env e}

/-- An execution that does not go round a loop is a run of the machine,
at the end of which its process is gone. -/
theorem complete_leads [DecidableEq Pid] [Inhabited Answer]
    (hdecode : ∀ e x, ∃ ans, M.decode e ans = some x)
    (hstop : ∀ w, M.onStop w = w) {p : Pid} :
    ∀ {m : Prog Resp X (Ctl σ β)} {lg : Log Resp} {ph : Phase Call σ}
      {s : Sys Resp W X Call σ β Pid},
      (∀ st, (M.complete env m lg s.world).2 ≠ .ok (.again st)) →
      s.procs p = some ⟨ph, lg, m⟩ →
      M.Leads (fun _ _ => True) s
        (s.put (M.complete env m lg s.world).1 p none) := by
  intro m
  induction m with
  | ret ctl =>
    intro lg ph s hdone hp
    cases ctl with
    | again st => exact absurd rfl (hdone st)
    | done b =>
      refine .step (a := .step p default) (.refl s) trivial ?_
      simp only [apply, hp]
      rfl
  | raise x =>
    intro lg ph s hdone hp
    refine .step (a := .step p default) (.refl s) trivial ?_
    simp only [apply, hp, hstop]
    rfl
  | op e k ih =>
    intro lg ph s hdone hp
    obtain ⟨ans, hans⟩ := hdecode e (env lg e)
    generalize hr : M.exec s.world e (env lg e) = r
    have hfirst : M.apply (.step p ans) s = some (s.put r.1 p
        (some ⟨ph, ⟨e, r.2⟩ :: lg, k r.2⟩)) := by
      simp only [apply, hp, hans, hr]
    have hwhole : M.complete env (.op e k) lg s.world =
        M.complete env (k r.2) (⟨e, r.2⟩ :: lg) r.1 := by
      rw [← hr]
      rfl
    rw [hwhole] at hdone ⊢
    have hrest := ih r.2 (s := s.put r.1 p
      (some ⟨ph, ⟨e, r.2⟩ :: lg, k r.2⟩)) hdone (Sys.put_procs_self ..)
    rw [Sys.put_put] at hrest
    exact (Leads.step (.refl s) trivial hfirst).trans hrest

-- ==== one program twice

/-- What a program does to one world, in terms of an invariant. -/
theorem complete_inv {may : Log Resp → Req → Prop}
    {Q : α → Log Resp → Prop} {I : Log Resp → W → Prop}
    (hstep : ∀ {lg e w}, I lg w → may lg e →
      I (⟨e, (M.exec w e (env lg e)).2⟩ :: lg) (M.exec w e (env lg e)).1) :
    ∀ {m : Prog Resp X α} {lg : Log Resp} {w : W}, m.Paths may Q lg →
      I lg w → ∃ lg', I lg' (M.complete env m lg w).1 := by
  intro m
  induction m with
  | ret a => intro lg w _ h; exact ⟨lg, h⟩
  | raise x => intro lg w _ h; exact ⟨lg, h⟩
  | op e k ih =>
    intro lg w hpaths h
    exact ih _ (hpaths.2 _) (hstep h hpaths.1)

/-- Two worlds that the requests a program may make cannot tell apart give
it the same result. -/
theorem complete_sim {may : Log Resp → Req → Prop}
    {Q : α → Log Resp → Prop} {Sim : Log Resp → W → W → Prop}
    (hstep : ∀ {lg e w w'}, Sim lg w w' → may lg e →
      (M.exec w' e (env lg e)).2 = (M.exec w e (env lg e)).2 ∧
        Sim (⟨e, (M.exec w e (env lg e)).2⟩ :: lg)
          (M.exec w e (env lg e)).1 (M.exec w' e (env lg e)).1) :
    ∀ {m : Prog Resp X α} {lg : Log Resp} {w w' : W}, m.Paths may Q lg →
      Sim lg w w' →
        (M.complete env m lg w').2 = (M.complete env m lg w).2 ∧
          ∃ lg', Sim lg' (M.complete env m lg w).1
            (M.complete env m lg w').1 := by
  intro m
  induction m with
  | ret a => intro lg w w' _ h; exact ⟨rfl, lg, h⟩
  | raise x => intro lg w w' _ h; exact ⟨rfl, lg, h⟩
  | op e k ih =>
    intro lg w w' hpaths h
    obtain ⟨hresp, hsim⟩ := hstep h hpaths.1
    have hrest := ih _ (hpaths.2 _) hsim
    unfold complete
    rw [hresp]
    exact hrest

end Machine

-- ==== two programs

section Mirrors

variable {Req : Type} {Resp Env : Req → Type}
variable {Answer W X Call σ β α α' γ γ' : Type}

/-- A translation of requests and of the answers to them. -/
structure Translation (Resp : Req → Type) where
  req : Req → Req
  resp : ∀ e, Resp e → Resp (req e)

/-- The second program makes the translated requests of the first, goes on
like it at every translated answer, and returns its result, translated. -/
inductive Mirrors (T : Translation Resp) (f : α → α') :
    Prog Resp X α → Prog Resp X α' → Prop
  | ret (a : α) : Mirrors T f (.ret a) (.ret (f a))
  | raise (x : X) : Mirrors T f (.raise x) (.raise x)
  | op {e : Req} {k : Resp e → Prog Resp X α}
      {k' : Resp (T.req e) → Prog Resp X α'}
      (h : ∀ r, Mirrors T f (k r) (k' (T.resp e r))) :
      Mirrors T f (.op e k) (.op (T.req e) k')

variable {T : Translation Resp}

theorem mirrors_bind {g : γ → γ'} {f : α → α'} {m : Prog Resp X γ}
    {m' : Prog Resp X γ'} {k : γ → Prog Resp X α}
    {k' : γ' → Prog Resp X α'} (hm : Mirrors T g m m')
    (hk : ∀ a, Mirrors T f (k a) (k' (g a))) :
    Mirrors T f (m >>= k) (m' >>= k') := by
  induction hm with
  | ret a => exact hk a
  | raise x => exact .raise x
  | op _ ih => exact .op ih

theorem mirrors_perform (e : Req) :
    Mirrors T (T.resp e) (Prog.perform e : Prog Resp X _)
      (Prog.perform (T.req e)) :=
  .op fun r => .ret r

/-- Translate a log. -/
def Translation.log (T : Translation Resp) (lg : Log Resp) : Log Resp :=
  lg.map fun x => ⟨T.req x.1, T.resp x.1 x.2⟩

/-- Mirrored programs have mirrored executions, when requests do the
translated thing to the translated world. -/
theorem complete_mirrors {M : Machine Resp Env Answer W X Call σ β}
    {env env' : Log Resp → (e : Req) → Env e} {R : W → W → Prop}
    {f : α → α'}
    (hexec : ∀ {lg e w w'}, R w w' →
      (M.exec w' (T.req e) (env' (T.log lg) (T.req e))).2 =
          T.resp e (M.exec w e (env lg e)).2 ∧
        R (M.exec w e (env lg e)).1
          (M.exec w' (T.req e) (env' (T.log lg) (T.req e))).1)
    {m : Prog Resp X α} {m' : Prog Resp X α'} (hm : Mirrors T f m m') :
    ∀ (lg : Log Resp) {w w' : W}, R w w' →
      (M.complete env' m' (T.log lg) w').2 =
          (M.complete env m lg w).2.map f ∧
        R (M.complete env m lg w).1 (M.complete env' m' (T.log lg) w').1 := by
  induction hm with
  | ret a => intro lg w w' h; exact ⟨rfl, h⟩
  | raise x => intro lg w w' h; exact ⟨rfl, h⟩
  | @op e k k' _ ih =>
    intro lg w w' h
    obtain ⟨hresp, hworld⟩ : _ ∧ _ := @hexec lg e w w' h
    have hrest := ih (M.exec w e (env lg e)).2
      (⟨e, (M.exec w e (env lg e)).2⟩ :: lg) hworld
    unfold Machine.complete
    rw [hresp]
    exact hrest

end Mirrors

end SdlcOs.Effects
