/-
Programs that drive a machine by its public calls.

# The shape

A host is a program of its own, with its own store and its own requests,
some of which are calls of a machine below it. A call is not atomic: the
machine's process is started, takes its steps one by one, and comes back
with a result or an exception, which is the answer to the host's
request. A crash takes both down, wherever they stand.

Whatever else there is, people say, acts on the host's store between any
two moves (`outside`), never on the machine's world.

# Contracts

A `Pact` is what a host is held to: an invariant of the store and the
machine's world, what must hold when a request is about to be made
(`oblige`), what the outside may do to the store (`rely`) and what the
machine does to its world (`guar`). Which requests keep the invariant is
told once, request by request (`Pact.Sound`); what is left to prove of a
program is that it makes no request it may not (`Safe`).

`HReach.settled` is the soundness: a host whose entries and loop body
are safe keeps its pact in every reached state, and the machine below it
has run as one of its own runs.
-/
import SdlcOs.Effects.System

namespace SdlcOs.Effects

/-- What a hosted program asks for: something of its own, or a call of
the machine below, made under a tag. -/
inductive Task (Own Call Tag : Type) : Type where
  | own (e : Own)
  | call (c : Call) (tag : Tag)

/-- What a task is answered with: a call answers with its result or its
exception. -/
@[reducible] def Task.Resp {Own Call Tag : Type} (OResp : Own → Type)
    (X β : Type) : Task Own Call Tag → Type
  | .own e => OResp e
  | .call _ _ => Except X β

/-- The text and the outside of a host over a machine. -/
structure Host {Own : Type} (OResp OEnv : Own → Type)
    (OAnswer L W Out X Call β Tag Y Entry τ γ : Type) where
  exec : L → W → (e : Own) → OEnv e → L × OResp e
  decode : (e : Own) → OAnswer → Option (OEnv e)
  onCall : L → W → Call → Tag → L
  onReturn : L → W → Call → Except X β → L
  outside : L → Out → L
  accept : L → Entry → Option L
  entry : Entry → Prog (@Task.Resp Own Call Tag OResp X β) Y
    (Ctl τ γ)
  body : τ → Prog (@Task.Resp Own Call Tag OResp X β) Y
    (Ctl τ γ)

/-- A hosted system: the machine below, the host's store, and what is
left of the host's process, if one runs. -/
structure Hosted {Own Req : Type} (OResp : Own → Type) (Resp : Req → Type)
    (L W X Call σ β Tag Y τ γ : Type) where
  below : Sys Resp W X Call σ β Unit
  store : L
  prog : Option (Prog (@Task.Resp Own Call Tag OResp X β) Y
    (Ctl τ γ))

/-- One move of a hosted system: an entry is called, a request of the
host's own is answered, the machine below takes a step, the host moves
on by itself, the outside acts, or everything stops. -/
inductive Deed (OAnswer Answer Out Entry : Type) : Type where
  | enter (c : Entry)
  | own (ans : OAnswer)
  | below (ans : Answer)
  | proceed
  | outside (o : Out)
  | crash

namespace Host

variable {Own Req : Type} {OResp OEnv : Own → Type} {Resp Env : Req → Type}
variable {OAnswer Answer L W Out X Call σ β Tag Y Entry τ γ α : Type}
variable (M : Machine Resp Env Answer W X Call σ β)
variable (H : Host OResp OEnv OAnswer L W Out X Call β Tag Y Entry τ γ)

-- ==== transitions

/-- Programs of the host. -/
abbrev Text (OResp : Own → Type) (X Call β Tag Y α : Type) : Type :=
  Prog (@Task.Resp Own Call Tag OResp X β) Y α

/-- The machine's process is at its end: what it comes back with. -/
def finished (pr : Proc Resp X Call σ β) : Option (Except X β) :=
  match pr.prog with
  | .ret (.done b) => some (.ok b)
  | .raise x => some (.error x)
  | _ => none

/-- The world a finished process leaves. -/
def leave (w : W) : Except X β → W
  | .ok _ => w
  | .error _ => M.onStop w

/-- Take one move, or refuse it. -/
def apply (a : Deed OAnswer Answer Out Entry)
    (s : Hosted OResp Resp L W X Call σ β Tag Y τ γ) :
    Option (Hosted OResp Resp L W X Call σ β Tag Y τ γ) :=
  match a with
  | .enter c =>
    match s.prog with
    | some _ => none
    | none =>
      match H.accept s.store c with
      | none => none
      | some l => some { s with store := l, prog := some (H.entry c) }
  | .own ans =>
    match s.prog with
    | some (.op (.own e) k) =>
      match H.decode e ans with
      | none => none
      | some x =>
        let r := H.exec s.store s.below.world e x
        some { s with store := r.1, prog := some (k r.2) }
    | _ => none
  | .below ans =>
    match s.prog, s.below.procs () with
    | some (.op (.call _ _) _), some pr =>
      match finished pr with
      | some _ => none
      | none =>
        match M.apply (.step () ans) s.below with
        | none => none
        | some below => some { s with below := below }
    | _, _ => none
  | .proceed =>
    match s.prog with
    | some (.ret (.done _)) => some { s with prog := none }
    | some (.ret (.again t)) => some { s with prog := some (H.body t) }
    | some (.raise _) => some { s with prog := none }
    | some (.op (.call c tag) k) =>
      match s.below.procs () with
      | none =>
        match M.apply (.call () c) s.below with
        | none => none
        | some below =>
          some { s with
            below := below
            store := H.onCall s.store s.below.world c tag }
      | some pr =>
        match finished pr with
        | none => none
        | some r =>
          let w := leave M s.below.world r
          some
            { below := s.below.put w () none
              store := H.onReturn s.store w c r
              prog := some (k r) }
    | _ => none
  | .outside o => some { s with store := H.outside s.store o }
  | .crash =>
    match s.prog with
    | none => none
    | some _ =>
      match s.below.procs () with
      | none => some { s with prog := none }
      | some _ =>
        match M.apply (.crash ()) s.below with
        | none => none
        | some below => some { s with below := below, prog := none }

/-- Everything one move can do. -/
inductive Moves : Hosted OResp Resp L W X Call σ β Tag Y τ γ →
    Deed OAnswer Answer Out Entry →
    Hosted OResp Resp L W X Call σ β Tag Y τ γ → Prop
  | entered {s : Hosted OResp Resp L W X Call σ β Tag Y τ γ} {c : Entry}
      {l : L} (hp : s.prog = none) (haccept : H.accept s.store c = some l) :
      Moves s (.enter c) { s with store := l, prog := some (H.entry c) }
  | answered {s : Hosted OResp Resp L W X Call σ β Tag Y τ γ}
      {ans : OAnswer} {e : Own}
      {k : OResp e → Text OResp X Call β Tag Y (Ctl τ γ)} {x : OEnv e}
      (hp : s.prog = some (.op (.own e) k)) (hx : H.decode e ans = some x) :
      Moves s (.own ans)
        { s with
          store := (H.exec s.store s.below.world e x).1
          prog := some (k (H.exec s.store s.below.world e x).2) }
  | stepped {s : Hosted OResp Resp L W X Call σ β Tag Y τ γ}
      {ans : Answer} {c : Call} {tag : Tag}
      {k : Except X β → Text OResp X Call β Tag Y (Ctl τ γ)}
      {pr : Proc Resp X Call σ β} {below : Sys Resp W X Call σ β Unit}
      (hp : s.prog = some (.op (.call c tag) k))
      (hpr : s.below.procs () = some pr) (hrun : finished pr = none)
      (happ : M.apply (.step () ans) s.below = some below) :
      Moves s (.below ans) { s with below := below }
  | ended {s : Hosted OResp Resp L W X Call σ β Tag Y τ γ} {b : γ}
      (hp : s.prog = some (.ret (.done b))) :
      Moves s .proceed { s with prog := none }
  | again {s : Hosted OResp Resp L W X Call σ β Tag Y τ γ} {t : τ}
      (hp : s.prog = some (.ret (.again t))) :
      Moves s .proceed { s with prog := some (H.body t) }
  | raised {s : Hosted OResp Resp L W X Call σ β Tag Y τ γ} {y : Y}
      (hp : s.prog = some (.raise y)) :
      Moves s .proceed { s with prog := none }
  | called {s : Hosted OResp Resp L W X Call σ β Tag Y τ γ}
      {c : Call} {tag : Tag}
      {k : Except X β → Text OResp X Call β Tag Y (Ctl τ γ)}
      {below : Sys Resp W X Call σ β Unit}
      (hp : s.prog = some (.op (.call c tag) k))
      (hpr : s.below.procs () = none)
      (happ : M.apply (.call () c) s.below = some below) :
      Moves s .proceed
        { s with
          below := below
          store := H.onCall s.store s.below.world c tag }
  | returned {s : Hosted OResp Resp L W X Call σ β Tag Y τ γ}
      {c : Call} {tag : Tag}
      {k : Except X β → Text OResp X Call β Tag Y (Ctl τ γ)}
      {pr : Proc Resp X Call σ β} {r : Except X β}
      (hp : s.prog = some (.op (.call c tag) k))
      (hpr : s.below.procs () = some pr) (hend : finished pr = some r) :
      Moves s .proceed
        { below := s.below.put (leave M s.below.world r) () none
          store := H.onReturn s.store (leave M s.below.world r) c r
          prog := some (k r) }
  | outside {s : Hosted OResp Resp L W X Call σ β Tag Y τ γ} (o : Out) :
      Moves s (.outside o) { s with store := H.outside s.store o }
  | crashed {s : Hosted OResp Resp L W X Call σ β Tag Y τ γ}
      {m : Text OResp X Call β Tag Y (Ctl τ γ)} (hp : s.prog = some m)
      (hpr : s.below.procs () = none) :
      Moves s .crash { s with prog := none }
  | felled {s : Hosted OResp Resp L W X Call σ β Tag Y τ γ}
      {m : Text OResp X Call β Tag Y (Ctl τ γ)}
      {pr : Proc Resp X Call σ β} {below : Sys Resp W X Call σ β Unit}
      (hp : s.prog = some m) (hpr : s.below.procs () = some pr)
      (happ : M.apply (.crash ()) s.below = some below) :
      Moves s .crash { s with below := below, prog := none }

variable {M H}

/-- Inversion: a move that was taken is one of the eleven. -/
theorem apply_inv {a : Deed OAnswer Answer Out Entry}
    {s s' : Hosted OResp Resp L W X Call σ β Tag Y τ γ}
    (h : H.apply M a s = some s') : Moves M H s a s' := by
  cases a with
  | enter c =>
    simp only [apply] at h
    split at h
    · cases h
    · next hp =>
      split at h
      · cases h
      · next l hl =>
        obtain rfl := Option.some.inj h
        exact .entered hp hl
  | own ans =>
    simp only [apply] at h
    split at h
    · next e k hp =>
      split at h
      · cases h
      · next x hx =>
        obtain rfl := Option.some.inj h
        exact .answered hp hx
    · cases h
  | below ans =>
    simp only [apply] at h
    split at h
    · next c tag k pr hp hpr =>
      split at h
      · cases h
      · next hrun =>
        split at h
        · cases h
        · next below happ =>
          obtain rfl := Option.some.inj h
          exact .stepped hp hpr hrun happ
    · cases h
  | proceed =>
    simp only [apply] at h
    split at h
    · next b hp =>
      obtain rfl := Option.some.inj h
      exact .ended hp
    · next t hp =>
      obtain rfl := Option.some.inj h
      exact .again hp
    · next y hp =>
      obtain rfl := Option.some.inj h
      exact .raised hp
    · next c tag k hp =>
      split at h
      · next hpr =>
        split at h
        · cases h
        · next below happ =>
          obtain rfl := Option.some.inj h
          exact .called hp hpr happ
      · next pr hpr =>
        split at h
        · cases h
        · next r hend =>
          obtain rfl := Option.some.inj h
          exact .returned hp hpr hend
    · cases h
  | outside o =>
    obtain rfl := Option.some.inj h
    exact .outside o
  | crash =>
    simp only [apply] at h
    split at h
    · cases h
    · next m hp =>
      split at h
      · next hpr =>
        obtain rfl := Option.some.inj h
        exact .crashed hp hpr
      · next pr hpr =>
        split at h
        · cases h
        · next below happ =>
          obtain rfl := Option.some.inj h
          exact .felled hp hpr happ

theorem apply_again {s : Hosted OResp Resp L W X Call σ β Tag Y τ γ} {t : τ}
    (hp : s.prog = some (.ret (.again t))) :
    H.apply M .proceed s = some { s with prog := some (H.body t) } := by
  simp only [apply, hp]

theorem apply_called {s : Hosted OResp Resp L W X Call σ β Tag Y τ γ}
    {c : Call} {tag : Tag}
    {k : Except X β → Text OResp X Call β Tag Y (Ctl τ γ)}
    (hp : s.prog = some (.op (.call c tag) k))
    (hpr : s.below.procs () = none) :
    ∃ s', H.apply M .proceed s = some s' ∧
      s'.store = H.onCall s.store s.below.world c tag := by
  simp only [apply, hp, hpr, Machine.apply]
  exact ⟨_, rfl, rfl⟩

-- ==== runs

/-- The states reached by the runs all of whose moves met `cond` in the
state they were taken in. -/
inductive Reach (M : Machine Resp Env Answer W X Call σ β)
    (H : Host OResp OEnv OAnswer L W Out X Call β Tag Y Entry τ γ)
    (init : L → W → Prop)
    (cond : Hosted OResp Resp L W X Call σ β Tag Y τ γ →
      Deed OAnswer Answer Out Entry → Prop) :
    Hosted OResp Resp L W X Call σ β Tag Y τ γ → Prop
  | init {l : L} {w : W} (h : init l w) :
      Reach M H init cond ⟨Sys.idle w, l, none⟩
  | step {s s' : Hosted OResp Resp L W X Call σ β Tag Y τ γ}
      {a : Deed OAnswer Answer Out Entry} (hs : Reach M H init cond s)
      (hc : cond s a) (h : H.apply M a s = some s') : Reach M H init cond s'

/-- Take a list of moves in order, checking each against the state it is
taken in. -/
def run (M : Machine Resp Env Answer W X Call σ β)
    (H : Host OResp OEnv OAnswer L W Out X Call β Tag Y Entry τ γ)
    (chk : Hosted OResp Resp L W X Call σ β Tag Y τ γ →
      Deed OAnswer Answer Out Entry → Bool) :
    List (Deed OAnswer Answer Out Entry) →
      Hosted OResp Resp L W X Call σ β Tag Y τ γ →
      Option (Hosted OResp Resp L W X Call σ β Tag Y τ γ)
  | [], s => some s
  | a :: rest, s =>
    if chk s a then
      match H.apply M a s with
      | some s' => run M H chk rest s'
      | none => none
    else none

/-- A checked run from a reached state lands on a reached state. -/
theorem reach_of_run {init : L → W → Prop}
    {cond : Hosted OResp Resp L W X Call σ β Tag Y τ γ →
      Deed OAnswer Answer Out Entry → Prop}
    {chk : Hosted OResp Resp L W X Call σ β Tag Y τ γ →
      Deed OAnswer Answer Out Entry → Bool}
    (hchk : ∀ s a, chk s a = true → cond s a) :
    ∀ {acts : List (Deed OAnswer Answer Out Entry)}
      {s s' : Hosted OResp Resp L W X Call σ β Tag Y τ γ},
      Reach M H init cond s → run M H chk acts s = some s' →
        Reach M H init cond s' := by
  intro acts
  induction acts with
  | nil =>
    intro s s' hs h
    simp only [run, Option.some.injEq] at h
    exact h ▸ hs
  | cons a rest ih =>
    intro s s' hs h
    simp only [run] at h
    split at h
    · next hc =>
      split at h
      · next s₁ happ => exact ih (.step hs (hchk _ _ hc) happ) h
      · cases h
    · cases h

-- ==== contracts

/-- What a host is held to. `assume`, `allow` and `turn` are about the
runs that are spoken of: how its own requests are answered, which calls
are made and in which states its loop takes a turn. -/
structure Pact {Own : Type} (OEnv : Own → Type) (L W Call Tag τ : Type) where
  inv : L → W → Prop
  assume : L → W → (e : Own) → OEnv e → Prop := fun _ _ _ _ => True
  allow : L → W → Call → Tag → Prop := fun _ _ _ _ => True
  turn : τ → L → W → Prop := fun _ _ _ => True
  oblige : L → W → Task Own Call Tag → Prop
  rely : L → L → Prop
  guar : W → W → Prop
  callOk : Call → Prop := fun _ => True

/-- The pact's own laws: the invariant outlives every move whose
obligation was met, and the outside and the machine below stay within
what they are said to do. -/
structure Pact.Sound (P : Pact OEnv L W Call Tag τ)
    (M : Machine Resp Env Answer W X Call σ β)
    (H : Host OResp OEnv OAnswer L W Out X Call β Tag Y Entry τ γ) :
    Prop where
  rely_refl : ∀ l, P.rely l l
  rely_trans : ∀ l l' l'', P.rely l l' → P.rely l' l'' → P.rely l l''
  guar_refl : ∀ w, P.guar w w
  guar_trans : ∀ w w' w'', P.guar w w' → P.guar w' w'' → P.guar w w''
  outside : ∀ l o, P.rely l (H.outside l o)
  exec : ∀ w e x, P.guar w (M.exec w e x).1
  onCall : ∀ w c, P.guar w (M.onCall w c)
  onStop : ∀ w, P.guar w (M.onStop w)
  inv_outside : ∀ l w o, P.inv l w → P.inv (H.outside l o) w
  inv_guar : ∀ l w w', P.inv l w → P.guar w w' → P.inv l w'
  inv_accept : ∀ l w c l', P.inv l w → H.accept l c = some l' → P.inv l' w
  inv_own : ∀ l w e x, P.inv l w → P.oblige l w (.own e) →
    P.assume l w e x → P.inv (H.exec l w e x).1 w
  inv_call : ∀ l w c tag, P.inv l w → P.oblige l w (.call c tag) →
    P.inv (H.onCall l w c tag) w
  inv_return : ∀ l w c r, P.inv l w → P.inv (H.onReturn l w c r) w
  callOk : ∀ l w c tag, P.oblige l w (.call c tag) → P.callOk c

/-- Every execution of the program meets its obligations and ends, when
it returns, in the postcondition. Before each request the outside may
have acted; during a call the machine below has, too. -/
def Safe (H : Host OResp OEnv OAnswer L W Out X Call β Tag Y Entry τ γ)
    (P : Pact OEnv L W Call Tag τ) (Q : α → L → W → Prop) :
    Text OResp X Call β Tag Y α → L → W → Prop
  | .ret a, l, w => Q a l w
  | .raise _, _, _ => True
  | .op (.own e) k, l, w => ∀ l', P.rely l l' → P.inv l' w →
      P.oblige l' w (.own e) ∧ ∀ x, P.assume l' w e x →
        Safe H P Q (k (H.exec l' w e x).2) (H.exec l' w e x).1 w
  | .op (.call c tag) k, l, w => ∀ l', P.rely l l' → P.inv l' w →
      P.allow l' w c tag → P.oblige l' w (.call c tag) ∧
        ∀ l'' w' r, P.rely (H.onCall l' w c tag) l'' → P.guar w w' →
          Safe H P Q (k r) (H.onReturn l'' w' c r) w'

section Rules

variable {P : Pact OEnv L W Call Tag τ} {Q : α → L → W → Prop} {l : L} {w : W}

/-- A program of one request is safe where its answers all end in the
postcondition. -/
theorem safe_own {e : Own} {Q : OResp e → L → W → Prop}
    (h : ∀ l', P.rely l l' → P.inv l' w → P.oblige l' w (.own e) ∧
      ∀ x, P.assume l' w e x →
        Q (H.exec l' w e x).2 (H.exec l' w e x).1 w) :
    Safe H P Q (Prog.perform (Task.own e)) l w := h

theorem safe_call {c : Call} {tag : Tag} {Q : Except X β → L → W → Prop}
    (h : ∀ l', P.rely l l' → P.inv l' w → P.allow l' w c tag →
      P.oblige l' w (.call c tag) ∧
        ∀ l'' w' r, P.rely (H.onCall l' w c tag) l'' → P.guar w w' →
          Q r (H.onReturn l'' w' c r) w') :
    Safe H P Q (Prog.perform (Task.call c tag)) l w := h

theorem safe_bind {δ : Type} {Q : δ → L → W → Prop}
    {f : α → Text OResp X Call β Tag Y δ} :
    ∀ {m : Text OResp X Call β Tag Y α} {l : L} {w : W},
      Safe H P (fun a l w => Safe H P Q (f a) l w) m l w →
        Safe H P Q (m >>= f) l w := by
  intro m
  induction m with
  | ret a => exact fun h => h
  | raise y => exact fun h => h
  | op e k ih =>
    intro l w h
    cases e with
    | own e =>
      intro l' hrely hinv
      obtain ⟨hob, hk⟩ := h l' hrely hinv
      exact ⟨hob, fun x hx => ih _ (hk x hx)⟩
    | call c tag =>
      intro l' hrely hinv hallow
      obtain ⟨hob, hk⟩ := h l' hrely hinv hallow
      exact ⟨hob, fun l'' w' r hl hw => ih _ (hk l'' w' r hl hw)⟩

theorem Safe.mono {Q' : α → L → W → Prop} (hQ : ∀ a l w, Q a l w → Q' a l w) :
    ∀ {m : Text OResp X Call β Tag Y α} {l : L} {w : W},
      Safe H P Q m l w → Safe H P Q' m l w := by
  intro m
  induction m with
  | ret a => exact fun h => hQ _ _ _ h
  | raise y => exact fun h => h
  | op e k ih =>
    intro l w h
    cases e with
    | own e =>
      intro l' hrely hinv
      obtain ⟨hob, hk⟩ := h l' hrely hinv
      exact ⟨hob, fun x hx => ih _ (hk x hx)⟩
    | call c tag =>
      intro l' hrely hinv hallow
      obtain ⟨hob, hk⟩ := h l' hrely hinv hallow
      exact ⟨hob, fun l'' w' r hl hw => ih _ (hk l'' w' r hl hw)⟩

end Rules

-- ==== soundness

/-- What a turn of the host must come to. -/
def Post (head : τ → L → W → Prop) : Ctl τ γ → L → W → Prop
  | .again t, l, w => head t l w
  | .done _, _, _ => True

/-- The moves of a run respect a pact's assumptions. -/
structure Meets
    (H : Host OResp OEnv OAnswer L W Out X Call β Tag Y Entry τ γ)
    (P : Pact OEnv L W Call Tag τ)
    (cond : Hosted OResp Resp L W X Call σ β Tag Y τ γ →
      Deed OAnswer Answer Out Entry → Prop) : Prop where
  own : ∀ s ans e k x, cond s (.own ans) →
    s.prog = some (.op (.own e) k) → H.decode e ans = some x →
      P.assume s.store s.below.world e x
  call : ∀ s c tag k, cond s .proceed →
    s.prog = some (.op (.call c tag) k) → s.below.procs () = none →
      P.allow s.store s.below.world c tag
  turn : ∀ s t, cond s .proceed → s.prog = some (.ret (.again t)) →
    P.turn t s.store s.below.world

/-- A run of the machine below that makes only the calls it may. -/
def Calls (callOk : Call → Prop) (_ : Sys Resp W X Call σ β Unit) :
    Action Unit Answer Call → Prop
  | .call _ c => callOk c
  | _ => True

/-- A state of a hosted system that is safe to go on from. While the
machine below runs, what was left of the host at the call (`l`, `w`)
remembers what it may count on when the call returns. -/
structure Settled (M : Machine Resp Env Answer W X Call σ β)
    (H : Host OResp OEnv OAnswer L W Out X Call β Tag Y Entry τ γ)
    (P : Pact OEnv L W Call Tag τ) (init : W → Prop)
    (head : τ → L → W → Prop)
    (s : Hosted OResp Resp L W X Call σ β Tag Y τ γ) : Prop where
  inv : P.inv s.store s.below.world
  below : M.Reach init (Calls P.callOk) s.below
  idle : s.prog = none → s.below.procs () = none
  resting : s.below.procs () = none → ∀ m, s.prog = some m →
    ∃ l, P.rely l s.store ∧ Safe H P (Post head) m l s.below.world
  calling : ∀ pr, s.below.procs () = some pr → ∃ c tag k l w,
    s.prog = some (.op (.call c tag) k) ∧ P.rely l s.store ∧
    P.guar w s.below.world ∧ ∀ l' w' r, P.rely l l' → P.guar w w' →
      Safe H P (Post head) (k r) (H.onReturn l' w' c r) w'

section Soundness

variable {P : Pact OEnv L W Call Tag τ} {init : W → Prop}
variable {head : τ → L → W → Prop}
variable {s s' : Hosted OResp Resp L W X Call σ β Tag Y τ γ}

theorem Pact.Sound.guar_apply (hP : P.Sound M H)
    {a : Action Unit Answer Call} {b b' : Sys Resp W X Call σ β Unit}
    (h : M.apply a b = some b') : P.guar b.world b'.world := by
  cases Machine.apply_inv h with
  | call hp => exact hP.onCall _ _
  | done hp hprog => exact hP.guar_refl _
  | again hp hprog => exact hP.guar_refl _
  | raised hp hprog => exact hP.onStop _
  | op hp hprog hx => exact hP.exec _ _ _
  | crash hp => exact hP.onStop _

/-- Taking the result of a finished process is a step of the machine. -/
theorem apply_of_finished [Inhabited Answer]
    {b : Sys Resp W X Call σ β Unit} {pr : Proc Resp X Call σ β}
    {r : Except X β} (hpr : b.procs () = some pr)
    (hend : finished pr = some r) :
    M.apply (.step () default) b =
      some (b.put (leave M b.world r) () none) := by
  unfold finished at hend
  split at hend
  · next v hprog =>
    obtain rfl := Option.some.inj hend
    simp only [Machine.apply, hpr, hprog]
    rfl
  · next x hprog =>
    obtain rfl := Option.some.inj hend
    simp only [Machine.apply, hpr, hprog]
    rfl
  · cases hend

/-- A process that is not at its end still runs after a step. -/
theorem running_of_step {b b' : Sys Resp W X Call σ β Unit}
    {pr : Proc Resp X Call σ β} {ans : Answer}
    (hpr : b.procs () = some pr) (hrun : finished pr = none)
    (h : M.apply (.step () ans) b = some b') :
    ∃ pr', b'.procs () = some pr' := by
  cases Machine.apply_inv h with
  | done hp hprog =>
    rw [hpr] at hp
    obtain rfl := Option.some.inj hp
    rw [finished, hprog] at hrun
    cases hrun
  | again hp hprog => exact ⟨_, Sys.put_procs_self ..⟩
  | raised hp hprog =>
    rw [hpr] at hp
    obtain rfl := Option.some.inj hp
    rw [finished, hprog] at hrun
    cases hrun
  | op hp hprog hx => exact ⟨_, Sys.put_procs_self ..⟩

/-- With nothing running below, a state is settled where what is left of
the host is safe. -/
theorem settled_rest {b : Sys Resp W X Call σ β Unit} {l : L}
    {p : Option (Text OResp X Call β Tag Y (Ctl τ γ))}
    (hinv : P.inv l b.world) (hb : M.Reach init (Calls P.callOk) b)
    (hnone : b.procs () = none)
    (hp : ∀ m, p = some m →
      ∃ l₀, P.rely l₀ l ∧ Safe H P (Post head) m l₀ b.world) :
    Settled M H P init head ⟨b, l, p⟩ := by
  refine ⟨hinv, hb, fun _ => hnone, fun _ => hp, fun pr hpr => ?_⟩
  rw [show (Hosted.mk b l p).below.procs () = none from hnone] at hpr
  cases hpr

/-- A host that is not in a call has nothing running below it. -/
theorem Settled.quiet (hs : Settled M H P init head s)
    {m : Text OResp X Call β Tag Y (Ctl τ γ)} (hp : s.prog = some m)
    (hm : ∀ c tag k, m ≠ .op (.call c tag) k) : s.below.procs () = none := by
  cases hpr : s.below.procs () with
  | none => rfl
  | some pr =>
    obtain ⟨c, tag, k, _, _, hp', _⟩ := hs.calling pr hpr
    rw [hp] at hp'
    exact absurd (Option.some.inj hp') (hm c tag k)

theorem Settled.step [Inhabited Answer] (hP : P.Sound M H)
    {cond : Hosted OResp Resp L W X Call σ β Tag Y τ γ →
      Deed OAnswer Answer Out Entry → Prop} (hmeets : Meets H P cond)
    (hentry : ∀ l w c l', P.inv l' w → H.accept l c = some l' →
      Safe H P (Post head) (H.entry c) l' w)
    (hbody : ∀ t l l' w, head t l w → P.rely l l' → P.inv l' w →
      P.turn t l' w → Safe H P (Post head) (H.body t) l' w)
    (hs : Settled M H P init head s) {a : Deed OAnswer Answer Out Entry}
    (hc : cond s a) (h : H.apply M a s = some s') :
    Settled M H P init head s' := by
  cases apply_inv h with
  | @entered c l hp haccept =>
    have hinv := hP.inv_accept _ _ c l hs.inv haccept
    refine settled_rest hinv hs.below (hs.idle hp) fun m hm => ?_
    obtain rfl := Option.some.inj hm
    exact ⟨l, hP.rely_refl l, hentry _ _ c l hinv haccept⟩
  | @answered ans e k x hp hx =>
    have hnone := hs.quiet hp fun c tag k' h => by cases h
    obtain ⟨l, hrely, hsafe⟩ := hs.resting hnone _ hp
    have hassume := hmeets.own s ans e k x hc hp hx
    obtain ⟨hob, hk⟩ := hsafe s.store hrely hs.inv
    refine settled_rest (hP.inv_own _ _ e x hs.inv hob hassume) hs.below
      hnone fun m hm => ?_
    obtain rfl := Option.some.inj hm
    exact ⟨_, hP.rely_refl _, hk x hassume⟩
  | @stepped ans c tag k pr below hp hpr hrun happ =>
    obtain ⟨pr', hpr'⟩ := running_of_step hpr hrun happ
    have hguar := hP.guar_apply happ
    obtain ⟨c', tag', k', l, w, hp', hrely, hguar', hk⟩ := hs.calling pr hpr
    refine ⟨hP.inv_guar _ _ _ hs.inv hguar,
      .step (a := .step () ans) hs.below trivial happ, ?_, ?_, ?_⟩
    · intro hn
      rw [hp] at hn
      cases hn
    · intro hn
      rw [show below.procs () = none from hn] at hpr'
      cases hpr'
    · intro _ _
      exact ⟨c', tag', k', l, w, hp', hrely,
        hP.guar_trans _ _ _ hguar' hguar, hk⟩
  | @ended b hp =>
    refine settled_rest hs.inv hs.below
      (hs.quiet hp fun c tag k h => by cases h) fun m hm => ?_
    cases hm
  | @again t hp =>
    have hnone := hs.quiet hp fun c tag k h => by cases h
    obtain ⟨l, hrely, hsafe⟩ := hs.resting hnone _ hp
    refine settled_rest hs.inv hs.below hnone fun m hm => ?_
    obtain rfl := Option.some.inj hm
    exact ⟨_, hP.rely_refl _,
      hbody t l _ _ hsafe hrely hs.inv (hmeets.turn s t hc hp)⟩
  | @raised y hp =>
    refine settled_rest hs.inv hs.below
      (hs.quiet hp fun c tag k h => by cases h) fun m hm => ?_
    cases hm
  | @called c tag k below hp hpr happ =>
    obtain ⟨l, hrely, hsafe⟩ := hs.resting hpr _ hp
    obtain ⟨hob, hk⟩ := hsafe s.store hrely hs.inv
      (hmeets.call s c tag k hc hp hpr)
    have hguar := hP.guar_apply happ
    refine ⟨hP.inv_guar _ _ _ (hP.inv_call _ _ c tag hs.inv hob) hguar,
      .step (a := .call () c) hs.below (hP.callOk _ _ c tag hob) happ,
      ?_, ?_, ?_⟩
    · intro hn
      rw [hp] at hn
      cases hn
    · -- the call has just started its process
      intro hn
      cases Machine.apply_inv happ with
      | call _ =>
        rw [Sys.put_procs_self] at hn
        cases hn
    · intro _ _
      exact ⟨c, tag, k, _, _, hp, hP.rely_refl _, hguar, hk⟩
  | @returned c tag k pr r hp hpr hend =>
    obtain ⟨c', tag', k', l, w, hp', hrely, hguar, hk⟩ := hs.calling pr hpr
    rw [hp] at hp'
    obtain ⟨rfl, rfl⟩ : c = c' ∧ k = k' := by
      injection hp' with hp'
      injection hp' with htask hkk
      injection htask with hcall _
      exact ⟨hcall, hkk⟩
    have happ := apply_of_finished (M := M) hpr hend
    have hguar' := hP.guar_apply happ
    have hinv := hP.inv_guar _ _ _ hs.inv hguar'
    refine settled_rest (hP.inv_return _ _ c r hinv)
      (.step (a := .step () default) hs.below trivial happ)
      (Sys.put_procs_self ..) fun m hm => ?_
    obtain rfl := Option.some.inj hm
    exact ⟨_, hP.rely_refl _,
      hk _ _ r hrely (hP.guar_trans _ _ _ hguar hguar')⟩
  | @outside o =>
    have hout := hP.outside s.store o
    refine ⟨hP.inv_outside _ _ o hs.inv, hs.below, hs.idle, ?_, ?_⟩
    · intro hnone m hm
      obtain ⟨l, hrely, hsafe⟩ := hs.resting hnone m hm
      exact ⟨l, hP.rely_trans _ _ _ hrely hout, hsafe⟩
    · intro pr hpr
      obtain ⟨c, tag, k, l, w, hp, hrely, hguar, hk⟩ := hs.calling pr hpr
      exact ⟨c, tag, k, l, w, hp, hP.rely_trans _ _ _ hrely hout, hguar, hk⟩
  | @crashed m hp hpr =>
    refine settled_rest hs.inv hs.below hpr fun m' hm => ?_
    cases hm
  | @felled m pr below hp hpr happ =>
    refine settled_rest (hP.inv_guar _ _ _ hs.inv (hP.guar_apply happ))
      (.step (a := .crash ()) hs.below trivial happ) ?_ fun m' hm => ?_
    · cases Machine.apply_inv happ with
      | crash _ => exact Sys.put_procs_self ..
    · cases hm

/-- Soundness: a host whose entries and body are safe is settled in every
state of every run that meets its pact. -/
theorem Reach.settled [Inhabited Answer] (hP : P.Sound M H)
    {start : L → W → Prop} (hstart : ∀ l w, start l w → P.inv l w ∧ init w)
    {cond : Hosted OResp Resp L W X Call σ β Tag Y τ γ →
      Deed OAnswer Answer Out Entry → Prop} (hmeets : Meets H P cond)
    (hentry : ∀ l w c l', P.inv l' w → H.accept l c = some l' →
      Safe H P (Post head) (H.entry c) l' w)
    (hbody : ∀ t l l' w, head t l w → P.rely l l' → P.inv l' w →
      P.turn t l' w → Safe H P (Post head) (H.body t) l' w)
    (hs : Reach M H start cond s) : Settled M H P init head s := by
  induction hs with
  | init h =>
    obtain ⟨hinv, hinit⟩ := hstart _ _ h
    refine settled_rest hinv (.init hinit) rfl fun m hm => ?_
    cases hm
  | step _ hc happ ih => exact ih.step hP hmeets hentry hbody hc happ

end Soundness

end Host

end SdlcOs.Effects
