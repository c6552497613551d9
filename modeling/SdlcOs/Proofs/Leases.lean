/-
No two agents lease one worktree.

# The law

Whatever the interleaving of any number of threads of any number of
processes, there is at most one lease of a lock file in all their managers
together (`lease_exclusive`). An `acquire` that returned took effect in
one of its steps, at which no lease of the file stood in any manager, and
a `release` in one of its, and nothing else they do touches a lease
(`lease_effected`). An `acquire` is refused only while somebody has the
lock (`lease_refused`), so the branch that the source calls unreachable is.

# Why it is so

An open file is in the hands of one thread, from `open` to the dictionary
and from the dictionary to `close`, or it is in one dictionary (`Sane`).
Who has it in hand follows from what he has done (`hand`), so that the
rule for owned tokens applies.
-/
import SdlcOs.Effects.Linear
import SdlcOs.Effects.Owned
import SdlcOs.Orchestrator.Leases

namespace SdlcOs.Orchestrator.Leases

open Data (Dict)
open Effects
open Effects.Prog (paths_bind)

/-- What a thread has heard. -/
abbrev Heard : Type := Log Resp

/-- Where a thread is. -/
abbrev At : Type := Phase Call Waiting

-- ==== hands

/-- The call a thread is in. -/
def aim : At → Call
  | .entry c => c
  | .loop a => .acquire a.pid a.worktreePath a.holderSessionId a.blocking

/-- The worktree a call is about. -/
def Call.worktreePath : Call → String
  | .acquire _ path _ _ => path
  | .release _ path => path
  | .currentHolder _ path => path

/-- The worktree a thread works on. -/
def pathOf (ph : At) : String := (aim ph).worktreePath

/-- What an access makes of the file in hand, and of whether it has the
lock. -/
def handed (h : Option (Handle × Bool)) :
    (e : Req) → Resp e → Option (Handle × Bool)
  | .openFile _, r => Option.map (fun fh => (fh, false)) r
  | .flock _, got => h.map fun x => (x.1, got)
  | .store .., _ => none
  | .pop .., r => Option.map (fun fh => (fh, true)) r
  | .unlock _, _ => h.map fun x => (x.1, false)
  | .close _, _ => none
  | .holder .., _ => h

/-- The file a thread has in hand. -/
def hand (ph : At) : Heard → Option (Handle × Bool)
  | [] =>
    match ph with
    | .entry _ => none
    | .loop a => some (a.fh, false)
  | x :: lg => handed (hand ph lg) x.1 x.2

/-- What a thread has done to the leases, by what it has heard. -/
def settled : Heard → Option Outcome
  | [] => none
  | ⟨.store .., none⟩ :: _ => some .acquired
  | ⟨.pop .., _⟩ :: _ => some .released
  | ⟨.holder .., session⟩ :: _ => some (.holder session)
  | _ :: lg => settled lg

/-- What a call that returns has done to them. -/
def Outcome.settled : Outcome → Option Outcome
  | .osError => none
  | .alreadyLeased .. => none
  | o => some o

/-- A thread was told that somebody has the lock. -/
def Told (lg : Heard) : Prop := ∃ fh, ⟨.flock fh, false⟩ ∈ lg

/-- A thread that had the lock found a lease of another session. -/
def Clashed (lg : Heard) : Prop :=
  ∃ pid path session fh holder,
    ⟨.store pid path session fh, some holder⟩ ∈ lg

/-- How a call may return: what it did is done, and it was refused because
somebody had the lock, if it has not clashed. -/
def Returns (ph : At) (lg : Heard) (o : Outcome) : Prop :=
  Leases.settled lg = o.settled ∧
    ∀ path session, o = .alreadyLeased path session →
      Clashed lg ∨ session = none ∧ Told lg ∧
        ∃ pid session', aim ph = .acquire pid path session' false

/-- What a thread may ask for, with what it has in hand. -/
def may (ph : At) (lg : Heard) : Req → Prop
  | .openFile path => hand ph lg = none ∧ path = leaseLockPath (pathOf ph)
  | .flock fh => hand ph lg = some (fh, false)
  | .store pid path session fh => hand ph lg = some (fh, true) ∧
      (∃ blocking, aim ph = .acquire pid path session blocking) ∧
      settled lg = none
  | .pop pid path => hand ph lg = none ∧ aim ph = .release pid path ∧
      settled lg = none
  | .unlock fh => hand ph lg = some (fh, true)
  | .close fh => hand ph lg = some (fh, false)
  | .holder pid path => hand ph lg = none ∧ aim ph = .currentHolder pid path ∧
      settled lg = none

section Locks

variable (places : String → String)

/-- The file a worktree's lease locks. -/
def lockFile (path : String) : String := places (leaseLockPath path)

/-- A thread's file in hand is open at its lock file, and has the lock if
the thread says so; and it has not clashed. -/
structure Knows (ph : At) (lg : Heard) (w : World) : Prop where
  inHand : ∀ {fh locked}, hand ph lg = some (fh, locked) →
    w.opened.get fh = some (lockFile places (pathOf ph)) ∧
      (locked = true →
        w.locks.get (lockFile places (pathOf ph)) = some fh)
  calm : ¬ Clashed lg

/-- Every open file is in one hand or in one dictionary, and there is no
lock without one. -/
structure Sane (w : World) (inHand : Set Handle) : Prop where
  filed : ∀ {pid path fh}, (w.managers pid).fhByPath.get path = some fh →
    w.opened.get fh = some (lockFile places path) ∧
      w.locks.get (lockFile places path) = some fh ∧ fh ∉ inHand
  once : ∀ {pid path pid' path' fh},
    (w.managers pid).fhByPath.get path = some fh →
    (w.managers pid').fhByPath.get path' = some fh →
      pid = pid' ∧ path = path'
  named : ∀ pid path, ((w.managers pid).held.get path).isSome =
    ((w.managers pid).fhByPath.get path).isSome
  locked : ∀ {file fh}, w.locks.get file = some fh →
    w.opened.get fh = some file ∧ (fh ∈ inHand ∨
      ∃ pid path, (w.managers pid).fhByPath.get path = some fh)
  opened : ∀ {fh file}, w.opened.get fh = some file → fh < w.next
  inHand : ∀ fh ∈ inHand, fh < w.next

/-- The threads' ownership of open files. -/
def ownership : Ownership Resp World Call Waiting Outcome Handle where
  may := may
  holds := fun ph lg => {fh | ∃ locked, hand ph lg = some (fh, locked)}
  handsOn := fun ph lg a =>
    hand ph lg = some (a.fh, false) ∧ aim (.loop a) = aim ph ∧
      Leases.settled lg = none
  returns := Returns
  knows := Knows places
  inv := Sane places

end Locks

-- ==== paths

section Paths

variable {places : String → String}

theorem holds_none {ph : At} {lg : Heard} (h : hand ph lg = none) :
    (ownership places).holds ph lg = ∅ := by
  ext fh
  constructor
  · rintro ⟨locked, hin⟩
    rw [h] at hin
    cases hin
  · intro hin
    cases hin

theorem holds_some {ph : At} {lg : Heard} {fh : Handle} {locked : Bool}
    (h : hand ph lg = some (fh, locked)) :
    (ownership places).holds ph lg = {fh} := by
  ext fh'
  constructor
  · rintro ⟨locked', hin⟩
    rw [h] at hin
    injection hin with hin
    injection hin with hin
    exact hin.symm
  · rintro rfl
    exact ⟨locked, h⟩

theorem ends_done {ph : At} {lg : Heard} {o : Outcome}
    (hhand : hand ph lg = none) (hreturns : Returns ph lg o) :
    (ownership places).Ends ph (.done o) lg :=
  ⟨holds_none hhand, hreturns⟩

theorem follows : (ownership places).Follows (machine places) := by
  constructor
  · intro c
    cases c with
    | acquire pid path session blocking =>
      refine ⟨⟨rfl, rfl⟩, fun r => ?_⟩
      cases r with
      | none => exact ends_done rfl ⟨rfl, fun _ _ h => by cases h⟩
      | some fh => exact ⟨rfl, rfl, rfl⟩
    | release pid path =>
      refine ⟨⟨rfl, rfl, rfl⟩, fun r => ?_⟩
      cases r with
      | none => exact ends_done rfl ⟨rfl, fun _ _ h => by cases h⟩
      | some fh =>
        refine ⟨rfl, fun _ => ⟨rfl, fun _ => ?_⟩⟩
        exact ends_done rfl ⟨rfl, fun _ _ h => by cases h⟩
    | currentHolder pid path =>
      refine ⟨⟨rfl, rfl, rfl⟩, fun r => ?_⟩
      exact ends_done rfl ⟨rfl, fun _ _ h => by cases h⟩
  · intro a
    refine ⟨rfl, fun got => ?_⟩
    cases got with
    | true =>
      refine ⟨⟨rfl, ⟨_, rfl⟩, rfl⟩, fun r => ?_⟩
      cases r with
      | none => exact ends_done rfl ⟨rfl, fun _ _ h => by cases h⟩
      | some holder =>
        refine ends_done rfl ⟨rfl, fun _ _ _ => Or.inl ?_⟩
        exact ⟨_, _, _, _, holder, List.mem_cons_self⟩
    | false =>
      show Prog.Paths _ _ (if a.blocking then _ else _) _
      by_cases hblocking : a.blocking
      · rw [if_pos hblocking]
        exact ⟨rfl, rfl, rfl⟩
      · rw [if_neg hblocking]
        refine ⟨rfl, fun _ => ends_done rfl ⟨rfl, fun _ _ h => Or.inr ?_⟩⟩
        cases h
        have hno : a.blocking = false := by simpa using hblocking
        exact ⟨rfl, ⟨a.fh, List.mem_cons_of_mem _
          (List.mem_singleton_self _)⟩, a.pid, a.holderSessionId,
          congrArg _ hno⟩

end Paths

-- ==== steps

section Steps

variable {places : String → String} {w w' : World} {fh : Handle}
variable {inHand : Set Handle}

/-- Nothing is done to other open files than one. -/
structure Spares (fh : Handle) (w w' : World) : Prop where
  opened : ∀ fh', fh' ≠ fh → w'.opened.get fh' = w.opened.get fh'
  locks : ∀ fh' file, fh' ≠ fh → w.locks.get file = some fh' →
    w'.locks.get file = some fh'

theorem Spares.knows (h : Spares fh w w') {ph : At} {lg : Heard}
    (hne : fh ∉ (ownership places).holds ph lg)
    (hknows : Knows places ph lg w) : Knows places ph lg w' := by
  refine ⟨fun {fh' locked} hhand => ?_, hknows.calm⟩
  have hne' : fh' ≠ fh := by
    rintro rfl
    exact hne ⟨locked, hhand⟩
  obtain ⟨hopened, hlocked⟩ := hknows.inHand hhand
  refine ⟨?_, fun hl => ?_⟩
  · rw [h.opened fh' hne']
    exact hopened
  · exact h.locks fh' _ hne' (hlocked hl)

theorem spares_openFile {file : String} :
    Spares w.next w (w.openFile file).1 := by
  constructor
  · intro fh' hne
    exact Dict.get_set_ne _ hne _
  · intro fh' f _ h
    exact h

theorem spares_flock : Spares fh w (w.flock fh).1 := by
  unfold World.flock
  cases hopened : w.opened.get fh with
  | none => exact ⟨fun _ _ => rfl, fun _ _ _ h => h⟩
  | some file =>
    cases hlock : w.locks.get file with
    | some owner =>
      simp only [hlock]
      exact ⟨fun _ _ => rfl, fun _ _ _ h => h⟩
    | none =>
      simp only [hlock]
      refine ⟨fun _ _ => rfl, fun fh' f _ h => ?_⟩
      have hne : f ≠ file := by
        rintro rfl
        rw [hlock] at h
        cases h
      show (w.locks.set file fh).get f = some fh'
      rw [Dict.get_set_ne _ hne]
      exact h

theorem flock_opened : (w.flock fh).1.opened = w.opened := by
  unfold World.flock
  cases w.opened.get fh with
  | none => rfl
  | some file =>
    cases hlock : w.locks.get file with
    | none => simp only [hlock]
    | some owner => simp only [hlock]

theorem flock_managers : (w.flock fh).1.managers = w.managers := by
  unfold World.flock
  cases w.opened.get fh with
  | none => rfl
  | some file =>
    cases hlock : w.locks.get file with
    | none => simp only [hlock]
    | some owner => simp only [hlock]

theorem spares_unlock : Spares fh w (w.unlock fh) := by
  unfold World.unlock
  cases hopened : w.opened.get fh with
  | none => exact ⟨fun _ _ => rfl, fun _ _ _ h => h⟩
  | some file =>
    dsimp only
    split
    · next howner =>
      refine ⟨fun _ _ => rfl, fun fh' f hne h => ?_⟩
      have hne' : f ≠ file := by
        rintro rfl
        exact hne (Option.some.inj (h.symm.trans howner))
      show (w.locks.erase file).get f = some fh'
      rw [Dict.get_erase_ne _ hne']
      exact h
    · exact ⟨fun _ _ => rfl, fun _ _ _ h => h⟩

theorem spares_close : Spares fh w (w.close fh) := by
  have h := @spares_unlock w fh
  refine ⟨fun fh' hne => ?_, h.locks⟩
  show ((w.unlock fh).opened.erase fh).get fh' = _
  rw [Dict.get_erase_ne _ hne]
  exact h.opened fh' hne

theorem spares_update {pid : Nat} {m : Manager} :
    Spares fh w (w.update pid m) :=
  ⟨fun _ _ => rfl, fun _ _ _ h => h⟩

theorem Sane.fresh (h : Sane places w inHand) : w.next ∉ inHand :=
  fun hin => absurd (h.inHand _ hin) (lt_irrefl _)

theorem Sane.openFile (h : Sane places w inHand) (file : String) :
    Sane places (w.openFile file).1 (insert w.next inHand) := by
  have hspares := @spares_openFile w file
  have hne : ∀ {fh' f}, w.opened.get fh' = some f → fh' ≠ w.next := by
    rintro fh' f hf rfl
    exact absurd (h.opened hf) (lt_irrefl _)
  refine ⟨?_, h.once, h.named, ?_, ?_, ?_⟩
  · intro pid path fh' hstored
    obtain ⟨hopened, hlock, hin⟩ := h.filed hstored
    refine ⟨(hspares.opened fh' (hne hopened)).trans hopened, hlock, ?_⟩
    rintro (rfl | hin')
    · exact hne hopened rfl
    · exact hin hin'
  · intro f fh' hlock
    obtain ⟨hopened, hwhere⟩ := h.locked hlock
    refine ⟨(hspares.opened fh' (hne hopened)).trans hopened, ?_⟩
    exact hwhere.imp Or.inr id
  · intro fh' f hopened
    show fh' < w.next + 1
    by_cases hfh : fh' = w.next
    · rw [hfh]
      exact Nat.lt_succ_self _
    · rw [hspares.opened fh' hfh] at hopened
      exact (h.opened hopened).trans (Nat.lt_succ_self _)
  · rintro fh' (rfl | hin)
    · exact Nat.lt_succ_self _
    · exact (h.inHand fh' hin).trans (Nat.lt_succ_self _)

/-- A file in hand tries for its lock. -/
theorem Sane.flock (h : Sane places w inHand) (hin : fh ∈ inHand)
    {file : String} (hopened : w.opened.get fh = some file) :
    Sane places (w.flock fh).1 inHand ∧
      ((w.flock fh).2 = true → (w.flock fh).1.locks.get file = some fh) ∧
      ((w.flock fh).2 = false →
        ∃ fh', w.locks.get file = some fh' ∧ fh' ≠ fh) := by
  unfold World.flock
  cases hlock : w.locks.get file with
  | some owner =>
    simp only [hopened, hlock]
    refine ⟨h, fun hyes => ?_, fun hno => ⟨owner, rfl, ?_⟩⟩
    · rw [of_decide_eq_true hyes]
    · exact of_decide_eq_false hno
  | none =>
    simp only [hopened, hlock]
    refine ⟨⟨?_, h.once, h.named, ?_, h.opened, h.inHand⟩,
      fun _ => Dict.get_set_self _ _ _, fun hno => by cases hno⟩
    · intro pid path fh' hstored
      obtain ⟨hopened', hlock', hin'⟩ := h.filed hstored
      have hne : lockFile places path ≠ file := by
        intro heq
        rw [heq, hlock] at hlock'
        cases hlock'
      refine ⟨hopened', ?_, hin'⟩
      show (w.locks.set file fh).get _ = some fh'
      rw [Dict.get_set_ne _ hne]
      exact hlock'
    · intro f fh' hlock'
      by_cases hf : f = file
      · subst hf
        obtain rfl : fh = fh' :=
          Option.some.inj ((Dict.get_set_self _ _ _).symm.trans hlock')
        exact ⟨hopened, Or.inl hin⟩
      · refine h.locked ?_
        rw [← Dict.get_set_ne w.locks hf fh]
        exact hlock'

theorem Sane.unleased (h : Sane places w inHand) (hin : fh ∈ inHand)
    {path : String} (hlock : w.locks.get (lockFile places path) = some fh)
    (pid : Nat) : (w.managers pid).held.get path = none := by
  cases hheld : (w.managers pid).held.get path with
  | none => rfl
  | some session =>
    have hsome := h.named pid path
    rw [hheld] at hsome
    obtain ⟨fh', hstored⟩ := Option.isSome_iff_exists.1 hsome.symm
    obtain ⟨-, hlock', hin'⟩ := h.filed hstored
    obtain rfl := Option.some.inj (hlock'.symm.trans hlock)
    exact absurd hin hin'

theorem update_self {pid : Nat} {m : Manager} :
    (w.update pid m).managers pid = m := by
  simp [World.update]

theorem update_ne {pid pid' : Nat} {m : Manager} (hne : pid' ≠ pid) :
    (w.update pid m).managers pid' = w.managers pid' := by
  simp [World.update, hne]

theorem stored_set {pid pid' : Nat} {path path' session : String}
    {fh' : Handle} :
    ((w.update pid ⟨(w.managers pid).held.set path session,
        (w.managers pid).fhByPath.set path fh⟩).managers pid').fhByPath.get
          path' = some fh' ↔
      pid' = pid ∧ path' = path ∧ fh = fh' ∨
        ¬ (pid' = pid ∧ path' = path) ∧
          (w.managers pid').fhByPath.get path' = some fh' := by
  by_cases hpid : pid' = pid
  · subst hpid
    rw [update_self]
    by_cases hpath : path' = path
    · subst hpath
      simp
    · simp [Dict.get_set_ne _ hpath, hpath]
  · rw [update_ne hpid]
    simp [hpid]

theorem stored_erase {pid pid' : Nat} {path path' : String}
    {fh' : Handle} :
    ((w.update pid ⟨(w.managers pid).held.erase path,
        (w.managers pid).fhByPath.erase path⟩).managers pid').fhByPath.get
          path' = some fh' ↔
      ¬ (pid' = pid ∧ path' = path) ∧
        (w.managers pid').fhByPath.get path' = some fh' := by
  by_cases hpid : pid' = pid
  · subst hpid
    rw [update_self]
    by_cases hpath : path' = path
    · subst hpath
      simp
    · simp [Dict.get_erase_ne _ hpath, hpath]
  · rw [update_ne hpid]
    simp [hpid]

theorem Sane.store (h : Sane places w (insert fh inHand))
    (hin : fh ∉ inHand) {pid : Nat} {path session : String}
    (hopened : w.opened.get fh = some (lockFile places path))
    (hlock : w.locks.get (lockFile places path) = some fh) :
    Sane places (w.update pid ⟨(w.managers pid).held.set path session,
      (w.managers pid).fhByPath.set path fh⟩) inHand := by
  have hmine : ∀ {pid' path'},
      (w.managers pid').fhByPath.get path' ≠ some fh := by
    intro pid' path' hstored
    exact (h.filed hstored).2.2 (Or.inl rfl)
  refine ⟨?_, ?_, ?_, ?_, h.opened, fun fh' hin' => h.inHand fh' (Or.inr hin')⟩
  · intro pid' path' fh' hstored
    rcases stored_set.1 hstored with ⟨rfl, rfl, rfl⟩ | ⟨-, hold⟩
    · exact ⟨hopened, hlock, hin⟩
    · obtain ⟨hopened', hlock', hin'⟩ := h.filed hold
      exact ⟨hopened', hlock', fun hmem => hin' (Or.inr hmem)⟩
  · intro pid₁ path₁ pid₂ path₂ fh' h₁ h₂
    rcases stored_set.1 h₁ with ⟨rfl, rfl, rfl⟩ | ⟨-, hold₁⟩
    · rcases stored_set.1 h₂ with ⟨rfl, rfl, -⟩ | ⟨-, hold₂⟩
      · exact ⟨rfl, rfl⟩
      · exact absurd hold₂ hmine
    · rcases stored_set.1 h₂ with ⟨-, -, rfl⟩ | ⟨-, hold₂⟩
      · exact absurd hold₁ hmine
      · exact h.once hold₁ hold₂
  · intro pid' path'
    by_cases hpid : pid' = pid
    · subst hpid
      rw [update_self]
      by_cases hpath : path' = path
      · subst hpath
        simp
      · simp only [Dict.get_set_ne _ hpath]
        exact h.named pid' path'
    · rw [update_ne hpid]
      exact h.named pid' path'
  · intro f fh' hlock'
    obtain ⟨hopened', hin' | ⟨pid', path', hstored⟩⟩ := h.locked hlock'
    · refine ⟨hopened', ?_⟩
      rcases hin' with rfl | hin'
      · exact Or.inr ⟨pid, path, stored_set.2 (Or.inl ⟨rfl, rfl, rfl⟩)⟩
      · exact Or.inl hin'
    · refine ⟨hopened', Or.inr ?_⟩
      have hnot : ¬ (pid' = pid ∧ path' = path) := by
        rintro ⟨rfl, rfl⟩
        obtain ⟨-, hlock'', -⟩ := h.filed hstored
        obtain rfl := Option.some.inj (hlock''.symm.trans hlock)
        exact hmine hstored
      exact ⟨pid', path', stored_set.2 (Or.inr ⟨hnot, hstored⟩)⟩

theorem Sane.pop (h : Sane places w inHand) (pid : Nat) (path : String) :
    Sane places (w.update pid ⟨(w.managers pid).held.erase path,
        (w.managers pid).fhByPath.erase path⟩)
      ({fh | (w.managers pid).fhByPath.get path = some fh} ∪ inHand) := by
  refine ⟨?_, ?_, ?_, ?_, h.opened, ?_⟩
  · intro pid' path' fh' hstored
    obtain ⟨hne, hold⟩ := stored_erase.1 hstored
    obtain ⟨hopened', hlock', hin'⟩ := h.filed hold
    refine ⟨hopened', hlock', ?_⟩
    rintro (hpopped | hmem)
    · exact hne (h.once hold hpopped)
    · exact hin' hmem
  · intro pid₁ path₁ pid₂ path₂ fh' h₁ h₂
    exact h.once (stored_erase.1 h₁).2 (stored_erase.1 h₂).2
  · intro pid' path'
    by_cases hpid : pid' = pid
    · subst hpid
      rw [update_self]
      by_cases hpath : path' = path
      · subst hpath
        simp
      · simp only [Dict.get_erase_ne _ hpath]
        exact h.named pid' path'
    · rw [update_ne hpid]
      exact h.named pid' path'
  · intro f fh' hlock'
    obtain ⟨hopened', hin' | ⟨pid', path', hstored⟩⟩ := h.locked hlock'
    · exact ⟨hopened', Or.inl (Or.inr hin')⟩
    · refine ⟨hopened', ?_⟩
      by_cases hsame : pid' = pid ∧ path' = path
      · obtain ⟨rfl, rfl⟩ := hsame
        exact Or.inl (Or.inl hstored)
      · exact Or.inr ⟨pid', path', stored_erase.2 ⟨hsame, hstored⟩⟩
  · rintro fh' (hpopped | hmem)
    · exact h.opened (h.filed hpopped).1
    · exact h.inHand fh' hmem

theorem unlock_opened : (w.unlock fh).opened = w.opened := by
  unfold World.unlock
  cases w.opened.get fh with
  | none => rfl
  | some file =>
    dsimp only
    split <;> rfl

theorem unlock_managers : (w.unlock fh).managers = w.managers := by
  unfold World.unlock
  cases w.opened.get fh with
  | none => rfl
  | some file =>
    dsimp only
    split <;> rfl

theorem unlock_next : (w.unlock fh).next = w.next := by
  unfold World.unlock
  cases w.opened.get fh with
  | none => rfl
  | some file =>
    dsimp only
    split <;> rfl

theorem unlock_locks {file : String} {fh' : Handle}
    (h : (w.unlock fh).locks.get file = some fh') :
    w.locks.get file = some fh' := by
  unfold World.unlock at h
  cases hopened : w.opened.get fh with
  | none =>
    rw [hopened] at h
    exact h
  | some f =>
    rw [hopened] at h
    dsimp only at h
    split at h
    · by_cases hf : file = f
      · subst hf
        rw [Dict.get_erase_self] at h
        cases h
      · rw [Dict.get_erase_ne _ hf] at h
        exact h
    · exact h

theorem unlocked {file : String} (hopened : w.opened.get fh = some file) :
    (w.unlock fh).locks.get file ≠ some fh := by
  intro h
  unfold World.unlock at h
  rw [hopened] at h
  dsimp only at h
  split at h
  · rw [Dict.get_erase_self] at h
    cases h
  · next hno => exact hno h

theorem Sane.unlock (h : Sane places w (insert fh inHand)) :
    Sane places (w.unlock fh) (insert fh inHand) := by
  have hspares := @spares_unlock w fh
  refine ⟨?_, ?_, ?_, ?_, ?_, ?_⟩
  · intro pid path fh' hstored
    rw [unlock_managers] at hstored
    obtain ⟨hopened, hlock, hin⟩ := h.filed hstored
    rw [unlock_opened]
    have hne : fh' ≠ fh := by
      rintro rfl
      exact hin (Or.inl rfl)
    exact ⟨hopened, hspares.locks fh' _ hne hlock, hin⟩
  · rw [unlock_managers]
    exact h.once
  · rw [unlock_managers]
    exact h.named
  · intro f fh' hlock
    rw [unlock_opened, unlock_managers]
    exact h.locked (unlock_locks hlock)
  · rw [unlock_opened, unlock_next]
    exact h.opened
  · rw [unlock_next]
    exact h.inHand

theorem Sane.close (h : Sane places w (insert fh inHand))
    (hin : fh ∉ inHand) : Sane places (w.close fh) inHand := by
  have hclosed := h.unlock
  have hgone : ∀ {f}, (w.unlock fh).locks.get f ≠ some fh := by
    intro f hlock
    obtain ⟨hopened, -⟩ := h.locked (unlock_locks hlock)
    exact unlocked hopened hlock
  have hkept : ∀ {fh'}, fh' ≠ fh →
      (w.close fh).opened.get fh' = (w.unlock fh).opened.get fh' :=
    fun hne => Dict.get_erase_ne _ hne
  refine ⟨?_, hclosed.once, hclosed.named, ?_, ?_, ?_⟩
  · intro pid path fh' hstored
    obtain ⟨hopened, hlock, hin'⟩ := hclosed.filed hstored
    have hne : fh' ≠ fh := by
      rintro rfl
      exact hin' (Or.inl rfl)
    exact ⟨(hkept hne).trans hopened, hlock, fun hmem => hin' (Or.inr hmem)⟩
  · intro f fh' hlock
    have hne : fh' ≠ fh := by
      rintro rfl
      exact hgone hlock
    obtain ⟨hopened, hwhere⟩ := hclosed.locked hlock
    refine ⟨(hkept hne).trans hopened, ?_⟩
    rcases hwhere with (rfl | hmem) | hstored
    · exact absurd rfl hne
    · exact Or.inl hmem
    · exact Or.inr hstored
  · intro fh' f hopened
    by_cases hne : fh' = fh
    · subst hne
      have hnone : (w.close fh').opened.get fh' = none :=
        Dict.get_erase_self _ _
      rw [hnone] at hopened
      cases hopened
    · exact hclosed.opened ((hkept hne).symm.trans hopened)
  · intro fh' hmem
    exact hclosed.inHand fh' (Or.inr hmem)

end Steps

-- ==== runs

section Runs

variable {places : String → String}

variable {w w' : World} {others : Set Handle} {ph : At} {lg lg' : Heard}
variable {fh : Handle}

/-- What a step comes to, for its thread and the others. -/
structure Framed (places : String → String) (w w' : World)
    (others : Set Handle) (ph : At) (lg' : Heard) : Prop where
  inv : Sane places w' ((ownership places).holds ph lg' ∪ others)
  apart : Disjoint ((ownership places).holds ph lg') others
  knows : Knows places ph lg' w'
  others : ∀ ph₁ lg₁, (ownership places).holds ph₁ lg₁ ⊆ others →
    Knows places ph₁ lg₁ w → Knows places ph₁ lg₁ w'

theorem calm_cons {x : (e : Req) × Resp e}
    (hx : ∀ pid path session fh holder,
      x ≠ ⟨.store pid path session fh, some holder⟩)
    (h : ¬ Clashed lg) : ¬ Clashed (x :: lg) := by
  rintro ⟨pid, path, session, fh, holder, hmem⟩
  rcases List.mem_cons.1 hmem with heq | hold
  · exact hx _ _ _ _ _ heq.symm
  · exact h ⟨pid, path, session, fh, holder, hold⟩

theorem framed_none (hhand : hand ph lg' = none) (hcalm : ¬ Clashed lg')
    (hsane : Sane places w' others) (hspares : Spares fh w w')
    (hout : fh ∉ others) : Framed places w w' others ph lg' := by
  have hnone := @holds_none places ph lg' hhand
  refine ⟨?_, ?_, ?_, ?_⟩
  · rw [hnone, Set.empty_union]
    exact hsane
  · rw [hnone]
    exact Set.empty_disjoint _
  · refine ⟨fun h => ?_, hcalm⟩
    rw [hhand] at h
    cases h
  · intro ph₁ lg₁ hsub hknows
    exact hspares.knows (fun hin => hout (hsub hin)) hknows

theorem framed_some {locked : Bool}
    (hhand : hand ph lg' = some (fh, locked)) (hcalm : ¬ Clashed lg')
    (hsane : Sane places w' (insert fh others)) (hspares : Spares fh w w')
    (hout : fh ∉ others)
    (hopened : w'.opened.get fh = some (lockFile places (pathOf ph)))
    (hlock : locked = true →
      w'.locks.get (lockFile places (pathOf ph)) = some fh) :
    Framed places w w' others ph lg' := by
  have hsome := @holds_some places ph lg' fh locked hhand
  refine ⟨?_, ?_, ?_, ?_⟩
  · rw [hsome, Set.singleton_union]
    exact hsane
  · rw [hsome]
    exact Set.disjoint_singleton_left.2 hout
  · refine ⟨fun h => ?_, hcalm⟩
    rw [hhand] at h
    obtain ⟨rfl, rfl⟩ := Prod.mk.inj (Option.some.inj h)
    exact ⟨hopened, hlock⟩
  · intro ph₁ lg₁ hsub hknows
    exact hspares.knows (fun hin => hout (hsub hin)) hknows

theorem framed_asked {e : Req} (x : Env e)
    (hinv : Sane places w ((ownership places).holds ph lg ∪ others))
    (hapart : Disjoint ((ownership places).holds ph lg) others)
    (hknows : Knows places ph lg w) (hmay : may ph lg e) :
    Framed places w (exec places w e x).1 others ph
      (⟨e, (exec places w e x).2⟩ :: lg) := by
  have hheld : ∀ {fh locked}, hand ph lg = some (fh, locked) →
      Sane places w (insert fh others) ∧ fh ∉ others := by
    intro fh locked hhand
    rw [holds_some hhand, Set.singleton_union] at hinv
    rw [holds_some hhand] at hapart
    exact ⟨hinv, Set.disjoint_singleton_left.1 hapart⟩
  have hfree : hand ph lg = none → Sane places w others := by
    intro hhand
    rw [holds_none hhand, Set.empty_union] at hinv
    exact hinv
  have hcalm : ∀ {x : (e : Req) × Resp e}, (∀ pid path session fh holder,
      x ≠ ⟨.store pid path session fh, some holder⟩) →
        ¬ Clashed (x :: lg) := fun hx => calm_cons hx hknows.calm
  cases e with
  | openFile path =>
    obtain ⟨hhand, rfl⟩ := hmay
    have hsane := hfree hhand
    have hcalm' := fun r => @hcalm ⟨.openFile (leaseLockPath (pathOf ph)),
      r⟩ fun _ _ _ _ _ h => by cases h
    cases x with
    | false =>
      have hsame : Spares w.next w w := ⟨fun _ _ => rfl, fun _ _ _ h => h⟩
      exact framed_none rfl (hcalm' _) hsane hsame hsane.fresh
    | true =>
      refine framed_some rfl (hcalm' _) (hsane.openFile _)
        spares_openFile hsane.fresh ?_ fun h => by cases h
      exact Dict.get_set_self _ _ _
  | flock fh =>
    have hhand : hand ph lg = some (fh, false) := hmay
    obtain ⟨hsane, hout⟩ := hheld hhand
    obtain ⟨hopened, -⟩ := hknows.inHand hhand
    obtain ⟨hsane', hgot, -⟩ := hsane.flock (Or.inl rfl) hopened
    have hhand' : hand ph (⟨.flock fh, (w.flock fh).2⟩ :: lg) =
        some (fh, (w.flock fh).2) := by
      show (hand ph lg).map _ = _
      rw [hhand]
      rfl
    refine framed_some hhand' (hcalm fun _ _ _ _ _ h => by cases h) hsane'
      spares_flock hout ?_ hgot
    show (w.flock fh).1.opened.get fh = _
    rw [flock_opened]
    exact hopened
  | store pid path session fh =>
    obtain ⟨hhand, ⟨_, haim⟩, -⟩ := hmay
    obtain rfl : pathOf ph = path := congrArg Call.worktreePath haim
    obtain ⟨hsane, hout⟩ := hheld hhand
    obtain ⟨hopened, hlock⟩ := hknows.inHand hhand
    have hunleased := hsane.unleased (Or.inl rfl) (hlock rfl) pid
    simp only [exec, hunleased]
    exact framed_none rfl (hcalm fun _ _ _ _ _ h => by cases h)
      (hsane.store hout hopened (hlock rfl)) spares_update hout
  | pop pid path =>
    obtain ⟨hhand, haim, -⟩ := hmay
    obtain rfl : pathOf ph = path := congrArg Call.worktreePath haim
    have hsane := hfree hhand
    have hpop := hsane.pop pid (pathOf ph)
    have hcalm' := fun r => @hcalm ⟨.pop pid (pathOf ph), r⟩
      fun _ _ _ _ _ h => by cases h
    cases hstored : (w.managers pid).fhByPath.get (pathOf ph) with
    | none =>
      have hempty : {fh | (w.managers pid).fhByPath.get (pathOf ph) =
          some fh} ∪ others = others := by
        simp [hstored]
      rw [hempty] at hpop
      have hhand' : hand ph (⟨.pop pid (pathOf ph),
          (w.managers pid).fhByPath.get (pathOf ph)⟩ :: lg) = none := by
        rw [hstored]
        rfl
      exact framed_none hhand' (hcalm' _) hpop spares_update hsane.fresh
    | some fh =>
      obtain ⟨hopened, hlock, hout⟩ := hsane.filed hstored
      have hone : {fh | (w.managers pid).fhByPath.get (pathOf ph) =
          some fh} ∪ others = insert fh others := by
        rw [hstored]
        ext fh'
        simp [eq_comm]
      rw [hone] at hpop
      have hhand' : hand ph (⟨.pop pid (pathOf ph),
          (w.managers pid).fhByPath.get (pathOf ph)⟩ :: lg) =
          some (fh, true) := by
        rw [hstored]
        rfl
      exact framed_some hhand' (hcalm' _) hpop spares_update hout hopened
        fun _ => hlock
  | unlock fh =>
    have hhand : hand ph lg = some (fh, true) := hmay
    obtain ⟨hsane, hout⟩ := hheld hhand
    obtain ⟨hopened, -⟩ := hknows.inHand hhand
    have hhand' : hand ph (⟨.unlock fh, ()⟩ :: lg) = some (fh, false) := by
      show (hand ph lg).map _ = _
      rw [hhand]
      rfl
    refine framed_some hhand' (hcalm fun _ _ _ _ _ h => by cases h)
      hsane.unlock spares_unlock hout ?_ fun h => by cases h
    show (w.unlock fh).opened.get fh = _
    rw [unlock_opened]
    exact hopened
  | close fh =>
    have hhand : hand ph lg = some (fh, false) := hmay
    obtain ⟨hsane, hout⟩ := hheld hhand
    exact framed_none rfl (hcalm fun _ _ _ _ _ h => by cases h)
      (hsane.close hout) spares_close hout
  | holder pid path =>
    obtain ⟨hhand, -⟩ := hmay
    have hsane := hfree hhand
    have hsame : Spares w.next w w := ⟨fun _ _ => rfl, fun _ _ _ h => h⟩
    exact framed_none hhand (hcalm fun _ _ _ _ _ h => by cases h) hsane
      hsame hsane.fresh

theorem frames : (ownership places).Frames (machine places) := by
  refine ⟨fun _ _ => rfl, fun _ => holds_none rfl, ?_, ?_, ?_⟩
  · intro w c
    refine ⟨fun h => (by cases h), ?_⟩
    rintro ⟨pid, path, session, fh, holder, hmem⟩
    cases hmem
  · intro ph lg a h
    obtain ⟨hhand, haim, -⟩ := h
    have hloop : hand (.loop a) [] = some (a.fh, false) := rfl
    refine ⟨(holds_some hloop).trans (holds_some hhand).symm, ?_⟩
    intro w hknows
    have hpath : pathOf (.loop a) = pathOf ph :=
      congrArg Call.worktreePath haim
    refine ⟨fun h => ?_, ?_⟩
    · obtain ⟨rfl, rfl⟩ := Prod.mk.inj (Option.some.inj h)
      rw [hpath]
      exact hknows.inHand hhand
    · rintro ⟨pid, path, session, fh, holder, hmem⟩
      cases hmem
  · intro w others ph lg e x hinv hapart hknows hmay
    have h := framed_asked x hinv hapart hknows hmay
    exact ⟨h.inv, h.apart, h.knows, h.others⟩

end Runs

-- ==== the law

section Law

variable {places : String → String} {Tid : Type} [DecidableEq Tid]
variable {cond : State Tid → Act Tid → Prop} {s s₀ : State Tid}

/-- The leases that stand: the session, by process and worktree. -/
abbrev Table : Type := Nat → String → Option String

/-- The leases in the managers. -/
def World.table (w : World) : Table :=
  fun pid path => (w.managers pid).held.get path

/-- A lease of a lock file stands, in whichever process. -/
def Stands (places : String → String) (leases : Table) (file : String) :
    Prop :=
  ∃ pid path, (leases pid path).isSome ∧ lockFile places path = file

open Classical in
/-- What a call does at once: it takes a lease that nobody has, gives one
back, or looks. -/
noncomputable def Call.effect (places : String → String) (c : Call)
    (leases : Table) : Table × Outcome :=
  match c with
  | .acquire pid path session _ =>
    if Stands places leases (lockFile places path) then
      (leases, .alreadyLeased path none)
    else
      (fun n p => if n = pid ∧ p = path then some session else leases n p,
        .acquired)
  | .release pid path =>
    (fun n p => if n = pid ∧ p = path then none else leases n p, .released)
  | .currentHolder pid path => (leases, .holder (leases pid path))

theorem reach_owned (hkept : ∀ s t, ¬ cond s (.crash t))
    (hs : (machine places).Reach Initial cond s) :
    Machine.Owned (ownership places) s := by
  refine hs.owned follows frames (fun w hw => ?_) hkept
  obtain rfl : w = .init := hw
  exact ⟨fun h => (by cases h), fun h => (by cases h), fun _ _ => rfl,
    fun h => (by cases h), fun h => (by cases h), fun _ h => (by cases h)⟩

section Effects

variable {w : World} {others inHand : Set Handle} {ph : At} {lg : Heard}
variable {fh : Handle}

theorem Sane.standing (h : Sane places w inHand) {file : String}
    (hstands : Stands places w.table file) :
    ∃ fh, w.locks.get file = some fh ∧ fh ∉ inHand := by
  obtain ⟨pid, path, hheld, rfl⟩ := hstands
  have hsome : ((w.managers pid).fhByPath.get path).isSome := by
    rw [← h.named]
    exact hheld
  obtain ⟨fh, hstored⟩ := Option.isSome_iff_exists.1 hsome
  obtain ⟨-, hlock, hin⟩ := h.filed hstored
  exact ⟨fh, hlock, hin⟩

theorem table_update {pid : Nat} {m : Manager} (n : Nat) (p : String) :
    (w.update pid m).table n p =
      if n = pid then m.held.get p else w.table n p := by
  unfold World.table World.update
  by_cases hn : n = pid
  · simp [hn]
  · simp [hn]

/-- A step leaves the leases alone, or does to them what its call does at
once, as the first that does. -/
theorem step_settled {e : Req} (x : Env e)
    (hinv : Sane places w ((ownership places).holds ph lg ∪ others))
    (hknows : Knows places ph lg w) (hmay : may ph lg e) :
    settled (⟨e, (exec places w e x).2⟩ :: lg) = settled lg ∧
        (exec places w e x).1.table = w.table ∨
      settled lg = none ∧
        settled (⟨e, (exec places w e x).2⟩ :: lg) =
          some ((aim ph).effect places w.table).2 ∧
        (exec places w e x).1.table =
          ((aim ph).effect places w.table).1 := by
  cases e with
  | openFile path =>
    left
    cases x with
    | false => exact ⟨rfl, rfl⟩
    | true => exact ⟨rfl, rfl⟩
  | flock fh =>
    refine Or.inl ⟨rfl, ?_⟩
    show (w.flock fh).1.table = w.table
    unfold World.table
    rw [flock_managers]
  | unlock fh =>
    refine Or.inl ⟨rfl, ?_⟩
    show (w.unlock fh).table = w.table
    unfold World.table
    rw [unlock_managers]
  | close fh =>
    refine Or.inl ⟨rfl, ?_⟩
    show (w.unlock fh).table = w.table
    unfold World.table
    rw [unlock_managers]
  | holder pid path =>
    obtain ⟨-, haim, hnone⟩ := hmay
    rw [haim]
    exact Or.inr ⟨hnone, rfl, rfl⟩
  | pop pid path =>
    obtain ⟨-, haim, hnone⟩ := hmay
    rw [haim]
    refine Or.inr ⟨hnone, rfl, ?_⟩
    funext n p
    simp only [exec, Call.effect, table_update]
    by_cases hn : n = pid
    · subst hn
      by_cases hp : p = path
      · subst hp
        simp
      · simp [hp, Dict.get_erase_ne _ hp, World.table]
    · simp [hn]
  | store pid path session fh =>
    obtain ⟨hhand, ⟨_, haim⟩, hnone⟩ := hmay
    obtain rfl : pathOf ph = path := congrArg Call.worktreePath haim
    have hin : fh ∈ (ownership places).holds ph lg ∪ others :=
      Or.inl ⟨true, hhand⟩
    obtain ⟨-, hlock⟩ := hknows.inHand hhand
    have hfree : ¬ Stands places w.table (lockFile places (pathOf ph)) := by
      intro hstands
      obtain ⟨fh', hlock', hout⟩ := hinv.standing hstands
      obtain rfl := Option.some.inj ((hlock rfl).symm.trans hlock')
      exact hout hin
    rw [haim]
    simp only [exec, hinv.unleased hin (hlock rfl) pid, Call.effect,
      if_neg hfree]
    refine Or.inr ⟨hnone, rfl, ?_⟩
    funext n p
    rw [table_update]
    by_cases hn : n = pid
    · subst hn
      by_cases hp : p = pathOf ph
      · simp [hp]
      · simp [hp, Dict.get_set_ne _ hp, World.table]
    · simp [hn]

end Effects

/-- In every state of every run: two leases of one lock file, in whichever
managers, are one lease. -/
theorem lease_exclusive (hkept : ∀ s t, ¬ cond s (.crash t))
    (hs : (machine places).Reach Initial cond s) {pid pid' : Nat}
    {path path' session session' : String}
    (h : s.world.table pid path = some session)
    (h' : s.world.table pid' path' = some session')
    (hfile : lockFile places path = lockFile places path') :
    pid = pid' ∧ path = path' ∧ session = session' := by
  have hsane : Sane places s.world _ := (reach_owned hkept hs).inv
  have hstored : ∀ {pid path session},
      s.world.table pid path = some session → ∃ fh,
        (s.world.managers pid).fhByPath.get path = some fh := by
    intro pid path session h
    have hsome := hsane.named pid path
    rw [show (s.world.managers pid).held.get path = some session from h]
      at hsome
    exact Option.isSome_iff_exists.1 hsome.symm
  obtain ⟨fh, hfh⟩ := hstored h
  obtain ⟨fh', hfh'⟩ := hstored h'
  obtain ⟨-, hlock, -⟩ := hsane.filed hfh
  obtain ⟨-, hlock', -⟩ := hsane.filed hfh'
  rw [← hfile, hlock] at hlock'
  obtain rfl := Option.some.inj hlock'
  obtain ⟨rfl, rfl⟩ := hsane.once hfh hfh'
  exact ⟨rfl, rfl, Option.some.inj (h.symm.trans h')⟩

theorem calls_aim (hkept : ∀ s t, ¬ cond s (.crash t))
    (hs₀ : (machine places).Reach Initial cond s₀) {tid : Tid} {c : Call}
    {ws : List (World × World)}
    (h : (machine places).Serves cond tid c s₀ ws s) :
    ∀ pr, s.procs tid = some pr → aim pr.phase = c := by
  refine h.phase fun hserves hp hprog => ?_
  have hpaths := (reach_owned hkept (hs₀.leads hserves.leads)).paths _ _ hp
  rw [hprog] at hpaths
  exact hpaths.2.1

theorem leased_of_plays (script : List (Act Bool)) (pid : Nat)
    (path session : String)
    (h : ((machine id).run kept script (Sys.idle .init)).any
      (fun s => s.world.table pid path = some session) = true) :
    ∃ s : State Bool, (machine id).Reach Initial Kept s ∧
      s.world.table pid path = some session := by
  obtain ⟨s, hs, htest⟩ := reach_of_plays script _ h
  exact ⟨s, hs, of_decide_eq_true htest⟩

/-- Two threads of two processes ask for one worktree in two spellings: the
only lease of its lock file is the first one's, and once that is released
the second one's. -/
theorem lease_exclusive_contended :
    (∃ s : State Bool, (machine id).Reach Initial Kept s ∧
      s.world.table 0 "/trees/s1" = some "a" ∧
      ∀ pid path session, s.world.table pid path = some session →
        lockFile id path = "/trees/.lease-s1.lock" →
          pid = 0 ∧ path = "/trees/s1" ∧ session = "a") ∧
    ∃ s : State Bool, (machine id).Reach Initial Kept s ∧
      s.world.table 1 "/trees/./s1/" = some "b" ∧
      ∀ pid path session, s.world.table pid path = some session →
        lockFile id path = "/trees/.lease-s1.lock" →
          pid = 1 ∧ path = "/trees/./s1/" ∧ session = "b" := by
  constructor
  · obtain ⟨s, hs, hheld⟩ := leased_of_plays
      (opening ++ [.call true (.acquire 1 "/trees/./s1/" "b" true)] ++
        contended) 0 "/trees/s1" "a" (by decide +kernel)
    refine ⟨s, hs, hheld, fun pid path session h hfile => ?_⟩
    have hsame : lockFile id "/trees/s1" = "/trees/.lease-s1.lock" := by
      decide +kernel
    exact lease_exclusive (fun _ _ h => h) hs h hheld
      (hfile.trans hsame.symm)
  · obtain ⟨s, hs, hheld⟩ := leased_of_plays
      (opening ++ [.call true (.acquire 1 "/trees/./s1/" "b" true)] ++
        contended ++ handedOver) 1 "/trees/./s1/" "b" (by decide +kernel)
    refine ⟨s, hs, hheld, fun pid path session h hfile => ?_⟩
    have hsame : lockFile id "/trees/./s1/" = "/trees/.lease-s1.lock" := by
      decide +kernel
    exact lease_exclusive (fun _ _ h => h) hs h hheld
      (hfile.trans hsame.symm)

/-- Every call that returns has done to the leases, in one of its steps,
what it does at once, and is answered so; if it was refused, it has done
nothing to them. All its other steps leave the leases alone. -/
theorem lease_effected (hkept : ∀ s t, ¬ cond s (.crash t))
    (hs₀ : (machine places).Reach Initial cond s₀) {tid : Tid} {c : Call}
    {ws : List (World × World)} {o : Outcome}
    (h : (machine places).Serves cond tid c s₀ ws s)
    (hret : s.Returns tid o) :
    Machine.Effected World.table (c.effect places) ws o.settled := by
  have howned : ∀ {s₁}, (machine places).Leads cond s₀ s₁ →
      Machine.Owned (ownership places) s₁ :=
    fun hleads => reach_owned hkept (hs₀.leads hleads)
  obtain ⟨pr, hp, hprog⟩ := hret
  have hends := (howned h.leads).paths _ _ hp
  rw [hprog] at hends
  have hsettled : settled pr.log = o.settled := hends.2.1
  rw [← hsettled]
  refine h.effected (fun _ lg => settled lg) rfl ?_ ?_ pr hp
  · intro ws s₁ pr st hserves hp hprog
    have hpaths := (howned hserves.leads).paths _ _ hp
    rw [hprog] at hpaths
    exact hpaths.2.2.symm
  · intro ws s₁ pr e k x hserves hp hprog
    have hthere := howned hserves.leads
    have hpaths := hthere.paths _ _ hp
    rw [hprog] at hpaths
    have hinv := hthere.inv
    rw [Sys.held_of_proc hp] at hinv
    have hstep := step_settled x hinv (hthere.knows _ _ hp) hpaths.1
    rw [calls_aim hkept hs₀ hserves _ hp] at hstep
    exact hstep

/-- The second thread's call, which was refused twice on the way and goes on
while the first leases and releases. -/
theorem lease_effected_contended :
    ∃ (s₀ s : State Bool) (ws : List (World × World)),
      (machine id).Serves Kept true (.acquire 1 "/trees/./s1/" "b" true) s₀ ws
        s ∧ s.Returns true .acquired ∧ ws.length = 8 ∧
      TakesEffect World.table
        ((Call.acquire 1 "/trees/./s1/" "b" true).effect id)
        (fun _ o => o = .acquired) ws := by
  obtain ⟨s₀, ws, s, hs₀, hserves, htest⟩ := Machine.serves_of_any kept_sound
    (show Initial .init from rfl)
    (show ((machine id).runServe kept opening true
      (.acquire 1 "/trees/./s1/" "b" true) (contended ++ handedOver)
      (Sys.idle .init)).any (fun x =>
        x.2.2.returned true = some .acquired ∧ x.2.1.length = 8) = true by
      decide +kernel)
  obtain ⟨hacquired, hlength⟩ := of_decide_eq_true htest
  have hret := Sys.returns_of_returned hacquired
  exact ⟨s₀, s, ws, hserves, hret, hlength,
    lease_effected (fun _ _ h => h) hs₀ hserves hret⟩

/-- Another thread has the lock of a file, on its way to a lease or from
one. -/
def Midway (places : String → String) (s : State Tid) (tid : Tid)
    (file : String) : Prop :=
  ∃ q pr fh locked, q ≠ tid ∧ s.procs q = some pr ∧
    hand pr.phase pr.log = some (fh, locked) ∧
    lockFile places (pathOf pr.phase) = file ∧
    s.world.locks.get file = some fh

omit [DecidableEq Tid] in
theorem taken {tid : Tid} {pr : Proc Resp Empty Call Waiting Outcome}
    {fh : Handle} (howns : Machine.Owned (ownership places) s)
    (hp : s.procs tid = some pr)
    (hhand : hand pr.phase pr.log = some (fh, false))
    (hno : (s.world.flock fh).2 = false) :
    Stands places s.world.table (lockFile places (pathOf pr.phase)) ∨
      Midway places s tid (lockFile places (pathOf pr.phase)) := by
  have hsane : Sane places s.world (s.held (ownership places)) := howns.inv
  have hknows : ∀ {q pr fh locked}, s.procs q = some pr →
      hand pr.phase pr.log = some (fh, locked) →
        s.world.opened.get fh = some (lockFile places (pathOf pr.phase)) :=
    fun hq hh => ((howns.knows _ _ hq).inHand hh).1
  have hopened := hknows hp hhand
  have hin : fh ∈ s.held (ownership places) := ⟨tid, pr, hp, false, hhand⟩
  obtain ⟨fh', hlock, hne⟩ := (hsane.flock hin hopened).2.2 hno
  obtain ⟨hopened', ⟨q, pr', hq, locked, hh⟩ | ⟨pid, path, hstored⟩⟩ :=
    hsane.locked hlock
  · right
    refine ⟨q, pr', fh', locked, ?_, hq, hh, ?_, hlock⟩
    · rintro rfl
      obtain rfl := Option.some.inj (hp.symm.trans hq)
      rw [hhand] at hh
      exact hne (Prod.mk.inj (Option.some.inj hh)).1.symm
    · exact Option.some.inj ((hknows hq hh).symm.trans hopened')
  · left
    refine ⟨pid, path, ?_, ?_⟩
    · show ((s.world.managers pid).held.get path).isSome
      rw [hsane.named, hstored]
      rfl
    · exact Option.some.inj ((hsane.filed hstored).1.symm.trans hopened')

/-- An `acquire` is refused only without `blocking`, names nobody, and
only if in a state on its way a lease of its lock file stood, or another
thread had the lock. -/
theorem lease_refused (hkept : ∀ s t, ¬ cond s (.crash t))
    (hs₀ : (machine places).Reach Initial cond s₀) {tid : Tid} {c : Call}
    {ws : List (World × World)} {path : String} {holder : Option String}
    (h : (machine places).Serves cond tid c s₀ ws s)
    (hret : s.Returns tid (.alreadyLeased path holder)) :
    holder = none ∧ (∃ pid session, c = .acquire pid path session false) ∧
      ∃ s₁, (machine places).Leads cond s₀ s₁ ∧
        (machine places).Leads cond s₁ s ∧
        (Stands places s₁.world.table (lockFile places path) ∨
          Midway places s₁ tid (lockFile places path)) := by
  have howned : ∀ {s₁}, (machine places).Leads cond s₀ s₁ →
      Machine.Owned (ownership places) s₁ :=
    fun hleads => reach_owned hkept (hs₀.leads hleads)
  have haim := calls_aim hkept hs₀ h
  obtain ⟨pr, hp, hprog⟩ := hret
  have hthere := howned h.leads
  have hends := hthere.paths _ _ hp
  rw [hprog] at hends
  rcases hends.2.2 _ _ rfl with hclash | ⟨rfl, htold, pid, session, hcall⟩
  · exact absurd hclash (hthere.knows _ _ hp).calm
  · rw [haim _ hp] at hcall
    refine ⟨rfl, ⟨pid, session, hcall⟩, ?_⟩
    refine h.heard (fun _ lg => Told lg) ?_ ?_ pr hp htold
    · rintro ph ⟨fh, hmem⟩
      cases hmem
    · intro ws s₁ pr e k x hserves hp hprog htold
      obtain ⟨fh, hmem⟩ := htold
      rcases List.mem_cons.1 hmem with hnow | hold
      · right
        have howns := howned hserves.leads
        have hpaths := howns.paths _ _ hp
        rw [hprog] at hpaths
        have hmay : may pr.phase pr.log e := hpaths.1
        obtain rfl : Req.flock fh = e := congrArg Sigma.fst hnow
        have hno : (s₁.world.flock fh).2 = false :=
          (eq_of_heq (Sigma.mk.inj hnow).2).symm
        have hpath : pathOf pr.phase = path := by
          unfold pathOf
          rw [calls_aim hkept hs₀ hserves _ hp, hcall]
          rfl
        rw [← hpath]
        exact taken howns hp hmay hno
      · exact Or.inl ⟨fh, hold⟩

theorem lease_refused_contended :
    ∃ (s₀ s s₁ : State Bool) (ws : List (World × World)),
      (machine id).Serves Kept true (.acquire 1 "/trees/./s1/" "b" false) s₀
        ws s ∧ s.Returns true (.alreadyLeased "/trees/./s1/" none) ∧
      (machine id).Leads Kept s₀ s₁ ∧
      (Stands id s₁.world.table (lockFile id "/trees/./s1/") ∨
        Midway id s₁ true (lockFile id "/trees/./s1/")) := by
  obtain ⟨s₀, ws, s, o, hs₀, hserves, hret, htest⟩ := serves_of_plays
    (opening ++ [.step false .auto, .step false .auto]) true
    (.acquire 1 "/trees/./s1/" "b" false) refusal
    (fun o => o = .alreadyLeased "/trees/./s1/" none) (by decide +kernel)
  obtain rfl : o = .alreadyLeased "/trees/./s1/" none :=
    of_decide_eq_true htest
  obtain ⟨-, -, s₁, hto, -, hwhy⟩ :=
    lease_refused (fun _ _ h => h) hs₀ hserves hret
  exact ⟨s₀, s, s₁, ws, hserves, hret, hto, hwhy⟩

end Law

end SdlcOs.Orchestrator.Leases
