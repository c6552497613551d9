/-
Files written in place, and the states a crash leaves them in.

# Writing

Opening a file for writing truncates it; its text then arrives byte by
byte, in whatever portions. So a sequence of writes is a list of atomic
operations (`ops`), and a crash performs some of them and no more
(`crash`). Nothing is written aside and renamed, so between the
truncation and the last byte the file holds neither text.

# The states

`crash_file` lists what a crash leaves of one file: what it held, a part
of its new text, or all of it. The number of operations done says which
(`TornAt`, `Done`). Where a reader can tell a part from a whole,
`read_crash_iff` says when a read survives.

A text is the list of its characters, which are its bytes as long as
they are ASCII.
-/
import Mathlib.Data.List.Basic
import Mathlib.Logic.Function.Basic

namespace SdlcOs.Files

/-- The files there are, by name, and what they hold. -/
abbrev Dir (ν : Type) : Type := ν → Option (List Char)

/-- A file to be written, and its text. -/
structure Write (ν : Type) where
  name : ν
  text : List Char

/-- What happens at once: a truncation, or the arrival of a byte. -/
inductive Op (ν : Type) : Type where
  | truncate (name : ν)
  | append (name : ν) (c : Char)

variable {ν : Type}

/-- The operations of a write. -/
def Write.ops (w : Write ν) : List (Op ν) :=
  .truncate w.name :: w.text.map (.append w.name)

/-- The operations of a sequence of writes. -/
def ops (ws : List (Write ν)) : List (Op ν) := ws.flatMap Write.ops

variable [DecidableEq ν]

/-- Make a file hold a text. -/
def put (fs : Dir ν) (name : ν) (text : List Char) : Dir ν :=
  Function.update fs name (some text)

/-- Perform an operation. -/
def perform (fs : Dir ν) : Op ν → Dir ν
  | .truncate name => put fs name []
  | .append name c => put fs name ((fs name).getD [] ++ [c])

/-- The files after a crash that let `n` operations happen. -/
def crash (fs : Dir ν) (ws : List (Write ν)) (n : Nat) : Dir ν :=
  ((ops ws).take n).foldl perform fs

/-- The crash came after the truncation of a file and before its last
byte. -/
def TornAt : List (Write ν) → Nat → ν → Prop
  | [], _, _ => False
  | w :: ws, n, name => (w.name = name ∧ 0 < n ∧ n ≤ w.text.length) ∨
      (w.text.length < n ∧ TornAt ws (n - (w.text.length + 1)) name)

/-- The crash came inside a file. -/
def Torn (ws : List (Write ν)) (n : Nat) : Prop := ∃ name, TornAt ws n name

/-- The crash came after the last byte of a file. -/
def Done : List (Write ν) → Nat → ν → Prop
  | [], _, _ => False
  | w :: ws, n, name => w.text.length < n ∧
      (w.name = name ∨ Done ws (n - (w.text.length + 1)) name)

/-- The crash came between two files: after the last byte of one and
before the truncation of the next. -/
def Seam : List (Write ν) → Nat → Prop
  | [], _ => False
  | w :: ws, n => (n = w.text.length + 1 ∧ ws ≠ []) ∨
      (w.text.length < n ∧ Seam ws (n - (w.text.length + 1)))

/-- A read after a crash gives what it gave before or the new value, and
does not raise. -/
def OldOrNew {ε α : Type} (before after : Except ε (Option α)) (new : α) :
    Prop :=
  ∃ v, after = .ok v ∧ (before = .ok v ∨ v = some new)

-- ==== one write

@[simp] theorem put_self (fs : Dir ν) (name : ν) (text : List Char) :
    put fs name text name = some text :=
  Function.update_self ..

theorem put_ne (fs : Dir ν) {name other : ν} (text : List Char)
    (h : other ≠ name) : put fs name text other = fs other :=
  Function.update_of_ne h ..

@[simp] theorem put_put (fs : Dir ν) (name : ν) (text text' : List Char) :
    put (put fs name text) name text' = put fs name text' :=
  Function.update_idem ..

theorem foldl_append (fs : Dir ν) (name : ν) :
    ∀ (text done : List Char),
      (text.map (Op.append name)).foldl perform (put fs name done) =
        put fs name (done ++ text) := by
  intro text
  induction text with
  | nil =>
    intro done
    rw [List.append_nil]
    rfl
  | cons c text ih =>
    intro done
    have hfirst : perform (put fs name done) (.append name c) =
        put fs name (done ++ [c]) := by
      simp only [perform, put_self, Option.getD_some, put_put]
    rw [List.map_cons, List.foldl_cons, hfirst, ih, List.append_assoc]
    rfl

theorem foldl_write (fs : Dir ν) (w : Write ν) (k : Nat) :
    (w.ops.take (k + 1)).foldl perform fs = put fs w.name (w.text.take k) := by
  have hrest := foldl_append fs w.name (w.text.take k) []
  rw [List.nil_append, List.map_take] at hrest
  exact hrest

omit [DecidableEq ν] in
theorem length_ops (w : Write ν) : w.ops.length = w.text.length + 1 := by
  unfold Write.ops
  rw [List.length_cons, List.length_map]

theorem foldl_ops (fs : Dir ν) (w : Write ν) :
    w.ops.foldl perform fs = put fs w.name w.text := by
  have hall := foldl_write fs w w.text.length
  rw [List.take_of_length_le (Nat.le_of_eq (length_ops w)), List.take_length] at hall
  exact hall

-- ==== a sequence of writes

theorem crash_first (fs : Dir ν) (w : Write ν) (ws : List (Write ν))
    {k : Nat} (hk : k ≤ w.text.length) :
    crash fs (w :: ws) (k + 1) = put fs w.name (w.text.take k) := by
  unfold crash ops
  rw [List.flatMap_cons, List.take_append_of_le_length (by
    rw [length_ops]
    omega), foldl_write]

theorem crash_later (fs : Dir ν) (w : Write ν) (ws : List (Write ν))
    (n : Nat) :
    crash fs (w :: ws) (w.text.length + 1 + n) =
      crash (put fs w.name w.text) ws n := by
  unfold crash ops
  rw [List.flatMap_cons, ← length_ops, List.take_length_add_append,
    List.foldl_append, foldl_ops]

@[simp] theorem crash_zero (fs : Dir ν) (ws : List (Write ν)) :
    crash fs ws 0 = fs := rfl

@[simp] theorem crash_nil (fs : Dir ν) (n : Nat) : crash fs [] n = fs := by
  unfold crash ops
  rw [List.flatMap_nil, List.take_nil]
  rfl

theorem crash_other {name : ν} : ∀ {ws : List (Write ν)},
    (∀ w ∈ ws, w.name ≠ name) → ∀ (fs : Dir ν) (n : Nat),
      crash fs ws n name = fs name := by
  intro ws
  induction ws with
  | nil =>
    intro _ fs n
    rw [crash_nil]
  | cons w ws ih =>
    intro hne fs n
    have hw : name ≠ w.name := (hne w (List.mem_cons_self ..)).symm
    rcases Nat.lt_or_ge w.text.length n with hlater | hfirst
    · obtain ⟨m, rfl⟩ : ∃ m, n = w.text.length + 1 + m :=
        ⟨n - (w.text.length + 1), by omega⟩
      rw [crash_later, ih fun w' hw' => hne w' (List.mem_cons_of_mem _ hw'),
        put_ne _ _ hw]
    · cases n with
      | zero => rfl
      | succ k => rw [crash_first fs w ws (by omega), put_ne _ _ hw]

-- ==== the states of a file

omit [DecidableEq ν] in
theorem tornAt_later (w : Write ν) (ws : List (Write ν)) (n : Nat)
    (name : ν) :
    TornAt (w :: ws) (w.text.length + 1 + n) name ↔ TornAt ws n name := by
  rw [TornAt, Nat.add_sub_cancel_left]
  constructor
  · rintro (⟨_, _, hle⟩ | ⟨_, htorn⟩)
    · omega
    · exact htorn
  · intro htorn
    exact Or.inr ⟨by omega, htorn⟩

omit [DecidableEq ν] in
theorem done_later (w : Write ν) (ws : List (Write ν)) (n : Nat) (name : ν) :
    Done (w :: ws) (w.text.length + 1 + n) name ↔
      w.name = name ∨ Done ws n name := by
  rw [Done, Nat.add_sub_cancel_left]
  exact and_iff_right (by omega)

omit [DecidableEq ν] in
theorem TornAt.mem {name : ν} : ∀ {ws : List (Write ν)} {n : Nat},
    TornAt ws n name → ∃ w ∈ ws, w.name = name := by
  intro ws
  induction ws with
  | nil => intro n h; exact h.elim
  | cons w ws ih =>
    intro n h
    rcases h with ⟨hname, _⟩ | ⟨_, hrest⟩
    · exact ⟨w, List.mem_cons_self .., hname⟩
    · obtain ⟨w', hw', hname⟩ := ih hrest
      exact ⟨w', List.mem_cons_of_mem _ hw', hname⟩

omit [DecidableEq ν] in
theorem done_all {w : Write ν} : ∀ {ws : List (Write ν)} {n : Nat},
    w ∈ ws → (ops ws).length ≤ n → Done ws n w.name := by
  intro ws
  induction ws with
  | nil => intro n hw; cases hw
  | cons w' ws ih =>
    intro n hw hn
    rw [ops, List.flatMap_cons, List.length_append, length_ops] at hn
    obtain ⟨m, rfl⟩ : ∃ m, n = w'.text.length + 1 + m :=
      ⟨n - (w'.text.length + 1), by omega⟩
    rw [done_later]
    rcases List.mem_cons.1 hw with rfl | hw
    · exact Or.inl rfl
    · refine Or.inr (ih hw ?_)
      rw [ops]
      omega

omit [DecidableEq ν] in
theorem not_seam_all : ∀ {ws : List (Write ν)} {n : Nat},
    (ops ws).length ≤ n → ¬ Seam ws n := by
  intro ws
  induction ws with
  | nil => intro n _ h; exact h
  | cons w ws ih =>
    rintro n hn (⟨rfl, hne⟩ | ⟨_, hrest⟩)
    · rw [ops, List.flatMap_cons, List.length_append, length_ops] at hn
      cases ws with
      | nil => exact hne rfl
      | cons w' ws =>
        rw [List.flatMap_cons, List.length_append, length_ops] at hn
        omega
    · rw [ops, List.flatMap_cons, List.length_append, length_ops] at hn
      refine ih ?_ hrest
      rw [ops]
      omega

/-- What a crash leaves of a file written once: what it held, a part of
its text, or its text. -/
theorem crash_file {w : Write ν} : ∀ {ws : List (Write ν)}, w ∈ ws →
    (ws.map Write.name).Nodup → ∀ (fs : Dir ν) (n : Nat),
      (crash fs ws n w.name = fs w.name ∧
        ¬ TornAt ws n w.name ∧ ¬ Done ws n w.name) ∨
      (∃ k, k < w.text.length ∧
        crash fs ws n w.name = some (w.text.take k) ∧
        TornAt ws n w.name ∧ ¬ Done ws n w.name) ∨
      (crash fs ws n w.name = some w.text ∧
        ¬ TornAt ws n w.name ∧ Done ws n w.name) := by
  intro ws
  induction ws with
  | nil => intro hw; cases hw
  | cons w' ws ih =>
    intro hw hnodup fs n
    obtain ⟨hfresh, hrest⟩ := List.nodup_cons.1 hnodup
    rcases Nat.lt_or_ge w'.text.length n with hlater | hfirst
    · obtain ⟨m, rfl⟩ : ∃ m, n = w'.text.length + 1 + m :=
        ⟨n - (w'.text.length + 1), by omega⟩
      rw [crash_later, tornAt_later, done_later]
      rcases List.mem_cons.1 hw with rfl | hmem
      · refine Or.inr (Or.inr ⟨?_, ?_, Or.inl rfl⟩)
        · rw [crash_other (fun v hv hname => hfresh
            (List.mem_map.2 ⟨v, hv, hname⟩)), put_self]
        · intro htorn
          obtain ⟨v, hv, hname⟩ := htorn.mem
          exact hfresh (List.mem_map.2 ⟨v, hv, hname⟩)
      · have hne : w'.name ≠ w.name := fun hname =>
          hfresh (hname ▸ List.mem_map.2 ⟨w, hmem, rfl⟩)
        have hfile := ih hmem hrest (put fs w'.name w'.text) m
        rw [put_ne _ _ hne.symm] at hfile
        rw [or_iff_right hne]
        exact hfile
    · cases n with
      | zero =>
        refine Or.inl ⟨rfl, ?_, ?_⟩
        · rintro (⟨_, hpos, _⟩ | ⟨hlt, _⟩) <;> omega
        · rintro ⟨hlt, _⟩
          omega
      | succ k =>
        rw [crash_first fs w' ws (by omega)]
        by_cases hname : w'.name = w.name
        · have hself : w = w' := by
            rcases List.mem_cons.1 hw with hself | hmem
            · exact hself
            · exact absurd (hname ▸ List.mem_map.2 ⟨w, hmem, rfl⟩) hfresh
          subst hself
          refine Or.inr (Or.inl ⟨k, hfirst, put_self .., Or.inl
            ⟨rfl, Nat.succ_pos k, hfirst⟩, ?_⟩)
          rintro ⟨hlt, _⟩
          omega
        · refine Or.inl ⟨put_ne _ _ (Ne.symm hname), ?_, ?_⟩
          · rintro (⟨hself, _⟩ | ⟨hlt, _⟩)
            · exact hname hself
            · omega
          · rintro ⟨hlt, _⟩
            omega

/-- Where a text cut short is not read, a read after a crash gives the old
value or the new one exactly when the crash did not come inside its file
and the file could be read before or was written to its end. -/
theorem read_crash_iff {ε α : Type}
    (read : Option (List Char) → Except ε (Option α)) {w : Write ν}
    {ws : List (Write ν)} {new : α} (hw : w ∈ ws)
    (hnodup : (ws.map Write.name).Nodup)
    (hwhole : read (some w.text) = .ok (some new))
    (htorn : ∀ k, k < w.text.length →
      (read (some (w.text.take k))).isOk = false)
    (fs : Dir ν) (n : Nat) :
    OldOrNew (read (fs w.name)) (read (crash fs ws n w.name)) new ↔
      ¬ TornAt ws n w.name ∧
        ((read (fs w.name)).isOk ∨ Done ws n w.name) := by
  rcases crash_file hw hnodup fs n with ⟨hsame, hno, hundone⟩ |
    ⟨k, hk, hpart, hyes, _⟩ | ⟨hall, hno, hdone⟩
  · rw [hsame, and_iff_right hno, or_iff_left hundone]
    constructor
    · rintro ⟨v, hv, _⟩
      rw [hv]
      rfl
    · intro hok
      cases hread : read (fs w.name) with
      | error e =>
        rw [hread] at hok
        cases hok
      | ok v => exact ⟨v, rfl, Or.inl rfl⟩
  · refine iff_of_false ?_ fun hno => hno.1 hyes
    rintro ⟨v, hv, _⟩
    have hfalse := htorn k hk
    rw [← hpart, hv] at hfalse
    cases hfalse
  · refine iff_of_true ?_ ⟨hno, Or.inr hdone⟩
    rw [hall]
    exact ⟨some new, hwhole, Or.inr rfl⟩

end SdlcOs.Files
