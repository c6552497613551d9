/-
What the calls of a file system find and leave.

# Looking

What `look` finds is there, and what it does not find is not
(`get_of_look`, `get_of_noEntry`). It looks at nothing but the way to a
location, so what is put elsewhere changes nothing (`look_put_ne`).

# Making directories

`mkdirs` succeeds where `Makeable` says: the deepest directory on the way
that is there takes a new name, and no name is too long. It makes what is
missing and touches nothing else (`mkdirs_spec`).
-/
import SdlcOs.Files.System

namespace SdlcOs.Files

open Data

namespace FileSystem

variable {fs : FileSystem} {p q up : Loc} {name : Name} {node there : Node}

-- ==== looking

theorem entry_inv (h : fs.entry p = .ok node) :
    fs.entries.get p = some node ∧ fs.tooLong p = false := by
  unfold entry at h
  split at h
  · cases h
  · next hlong =>
    split at h
    · cases h
    · next n hget =>
      obtain rfl := Except.ok.inj h
      exact ⟨hget, Bool.eq_false_iff.2 hlong⟩

theorem entry_of_get (h : fs.entries.get p = some node)
    (hlong : fs.tooLong p = false) : fs.entry p = .ok node := by
  unfold entry
  rw [if_neg (by rw [hlong]; decide), h]

theorem entry_noEntry (h : fs.entry p = .error .noEntry) :
    fs.entries.get p = none ∧ fs.tooLong p = false := by
  unfold entry at h
  split at h
  · cases h
  · next hlong =>
    split at h
    · next hget => exact ⟨hget, Bool.eq_false_iff.2 hlong⟩
    · cases h

theorem look_cons {r w : Bool} (h : fs.look up = .ok (.dir r w true)) :
    fs.look (name :: up) = fs.entry (name :: up) := by
  rw [look, h]

theorem look_cons_error {e : Errno} (h : fs.look up = .error e) :
    fs.look (name :: up) = .error e := by
  rw [look, h]

/-- What is found is there. -/
theorem get_of_look (h : fs.look p = .ok node) :
    fs.entries.get p = some node := by
  cases p with
  | nil => exact (entry_inv h).1
  | cons name up =>
    rw [look] at h
    split at h
    · exact (entry_inv h).1
    · cases h
    · cases h
    · cases h
    · cases h

theorem look_cons_inv (h : fs.look (name :: up) = .ok node) :
    ∃ r w, fs.look up = .ok (.dir r w true) := by
  rw [look] at h
  split at h
  · next r w hup => exact ⟨r, w, hup⟩
  · cases h
  · cases h
  · cases h
  · cases h

/-- What is not found is not there, and neither is its directory or it is
one that is searched. -/
theorem look_noEntry_inv (h : fs.look (name :: up) = .error .noEntry) :
    fs.look up = .error .noEntry ∨
      (∃ r w, fs.look up = .ok (.dir r w true)) ∧
        fs.entry (name :: up) = .error .noEntry := by
  rw [look] at h
  split at h
  · next r w hup => exact Or.inr ⟨⟨r, w, hup⟩, h⟩
  · cases h
  · cases h
  · cases h
  · next e hup =>
    rw [hup, Except.error.inj h]
    exact Or.inl rfl

theorem get_of_noEntry (h : fs.look p = .error .noEntry) :
    fs.entries.get p = none := by
  induction p with
  | nil => exact (entry_noEntry h).1
  | cons name up ih =>
    rcases look_noEntry_inv h with hup | ⟨_, hentry⟩
    · have hnone := ih hup
      cases hget : fs.entries.get (name :: up) with
      | none => rfl
      | some node =>
        obtain ⟨r, w, x, hdir⟩ := fs.parents hget
        rw [hnone] at hdir
        cases hdir
    · exact (entry_noEntry hentry).1

-- ==== putting

theorem get_put (h : fs.Fits p node) :
    (fs.put p node).entries = fs.entries.set p node := by
  unfold put
  rw [dif_pos h]

theorem tooLong_put : (fs.put p node).tooLong = fs.tooLong := by
  unfold put
  split
  · rfl
  · rfl

theorem entries_put_ne (h : q ≠ p) :
    (fs.put p node).entries.get q = fs.entries.get q := by
  unfold put
  split
  · exact Dict.get_set_ne fs.entries h node
  · rfl

theorem entry_put_ne (h : q ≠ p) : (fs.put p node).entry q = fs.entry q := by
  unfold entry
  rw [tooLong_put, entries_put_ne h]

/-- What is not on the way is not looked at. -/
theorem look_put_ne (h : ¬ p <:+ q) :
    (fs.put p node).look q = fs.look q := by
  induction q with
  | nil =>
    rw [look, look, entry_put_ne]
    intro heq
    exact h (heq ▸ List.suffix_refl _)
  | cons name up ih =>
    have hup := ih fun hs => h (hs.trans (List.suffix_cons name up))
    rw [look, look, hup, entry_put_ne]
    intro heq
    exact h (heq ▸ List.suffix_refl _)

theorem look_put_self (hfits : fs.Fits p node)
    (hlong : fs.tooLong p = false)
    (hup : ∀ name up, p = name :: up →
      ∃ r w, fs.look up = .ok (.dir r w true)) :
    (fs.put p node).look p = .ok node := by
  have hentry : (fs.put p node).entry p = .ok node := by
    refine entry_of_get ?_ (by rw [tooLong_put]; exact hlong)
    rw [get_put hfits, Dict.get_set_self]
  cases p with
  | nil => exact hentry
  | cons name up =>
    obtain ⟨r, w, hdir⟩ := hup name up rfl
    have hnot : ¬ name :: up <:+ up := fun hs => by
      have := hs.length_le
      rw [List.length_cons] at this
      omega
    rw [look_cons (r := r) (w := w) (by rw [look_put_ne hnot, hdir])]
    exact hentry

theorem content_put_ne (h : q ≠ p) :
    (fs.put p node).content q = fs.content q := by
  unfold content
  rw [entries_put_ne h]

theorem fits_of_look {b b' : List UInt8} {r w r' w' : Bool}
    (h : fs.look p = .ok (.file b r w)) : fs.Fits p (.file b' r' w') := by
  refine ⟨?_, Or.inr ?_⟩
  · rintro name up rfl
    obtain ⟨r, w, hdir⟩ := look_cons_inv h
    rw [get_of_look hdir]
    rfl
  · rw [get_of_look h]
    rfl

theorem tooLong_of_look (h : fs.look p = .ok node) : fs.tooLong p = false := by
  cases p with
  | nil => exact (entry_inv h).2
  | cons name up =>
    obtain ⟨r, w, hdir⟩ := look_cons_inv h
    rw [look_cons hdir] at h
    exact (entry_inv h).2

theorem look_put_file {b b' : List UInt8} {r w r' w' : Bool}
    (h : fs.look p = .ok (.file b r w)) :
    (fs.put p (.file b' r' w')).look p = .ok (.file b' r' w') := by
  refine look_put_self (fits_of_look h) (tooLong_of_look h) ?_
  rintro name up rfl
  exact look_cons_inv h

theorem content_of_look {b : List UInt8} {r w : Bool}
    (h : fs.look p = .ok (.file b r w)) : fs.content p = some b := by
  unfold content
  rw [get_of_look h]

-- ==== the way

theorem look_suffix (h : fs.look p = .ok node) (hq : q <:+ p) :
    ∃ there, fs.look q = .ok there := by
  induction p generalizing node with
  | nil =>
    rw [List.suffix_nil] at hq
    rw [hq]
    exact ⟨node, h⟩
  | cons name up ih =>
    rcases List.suffix_cons_iff.1 hq with rfl | hq
    · exact ⟨node, h⟩
    · obtain ⟨r, w, hup⟩ := look_cons_inv h
      exact ih hup hq

theorem look_noEntry_of_suffix (h : fs.look q = .error .noEntry)
    (hq : q <:+ p) : fs.look p = .error .noEntry := by
  induction p with
  | nil =>
    rw [List.suffix_nil] at hq
    rw [← hq]
    exact h
  | cons name up ih =>
    rcases List.suffix_cons_iff.1 hq with rfl | hq
    · exact h
    · exact look_cons_error (ih hq)

theorem isDir_of_look (h : fs.look p = .ok node) :
    fs.isDir p = node.isDir := by
  unfold isDir
  rw [h]

theorem isDir_of_error {e : Errno} (h : fs.look p = .error e) :
    fs.isDir p = false := by
  unfold isDir
  rw [h]

theorem fits_dir {r w x r' w' x' : Bool} (h : fs.look up = .ok (.dir r w x)) :
    fs.Fits (name :: up) (.dir r' w' x') := by
  refine ⟨?_, Or.inl rfl⟩
  intro name' up' heq
  rw [← (List.cons.inj heq).2, get_of_look h]
  rfl

theorem fits_file {r w x r' w' : Bool} {b : List UInt8}
    (h : fs.look up = .ok (.dir r w x))
    (hnone : fs.entries.get (name :: up) = none) :
    fs.Fits (name :: up) (.file b r' w') := by
  refine ⟨?_, Or.inr ?_⟩
  · intro name' up' heq
    rw [← (List.cons.inj heq).2, get_of_look h]
    rfl
  · rw [hnone]
    rfl

theorem look_put_cons {r w : Bool} (h : fs.look up = .ok (.dir r w true))
    (hfits : fs.Fits (name :: up) node)
    (hlong : fs.tooLong (name :: up) = false) :
    (fs.put (name :: up) node).look (name :: up) = .ok node := by
  refine look_put_self hfits hlong ?_
  intro name' up' heq
  rw [← (List.cons.inj heq).2]
  exact ⟨r, w, h⟩

-- ==== what can be made

/-- A directory that is there or can be made with those on its way: the
deepest that is there can be written, and no name is too long. -/
def Makeable (fs : FileSystem) : Loc → Prop
  | [] => fs.isDir [] = true
  | name :: up =>
    match fs.look (name :: up) with
    | .ok node => node.isDir = true
    | .error .noEntry =>
      match fs.look up with
      | .ok (.dir _ w _) => w = true
      | .error .noEntry =>
        fs.tooLong (name :: up) = false ∧ Makeable fs up
      | _ => False
    | .error _ => False

/-- A file that is there and can be written, or can be made in its
directory once that is made. -/
def Openable (fs : FileSystem) : Loc → Prop
  | [] => False
  | name :: up =>
    match fs.look (name :: up) with
    | .ok (.file _ _ w) => w = true
    | .error .noEntry =>
      match fs.look up with
      | .ok (.dir _ w _) => w = true
      | .error .noEntry => fs.tooLong (name :: up) = false
      | _ => False
    | _ => False

end FileSystem

-- ==== directories

/-- What making a directory leaves: it is there, what was missing on the
way and nothing else was made, and only that was touched. -/
structure Made (d d' : Disk) (p : Loc) : Prop where
  found : (∃ node, d.fs.look p = .ok node ∧ node.isDir = true ∧ d' = d) ∨
    (d.fs.look p = .error .noEntry ∧
      d'.fs.look p = .ok (.dir true true true))
  get : ∀ q, ¬ (d.fs.look q = .error .noEntry ∧ q <:+ p) →
    d'.fs.entries.get q = d.fs.entries.get q
  content : ∀ q, d'.fs.content q = d.fs.content q
  tooLong : d'.fs.tooLong = d.fs.tooLong
  touched : ∃ new, d'.touched = new ++ d.touched ∧
    ∀ q, q ∈ new ↔ d.fs.look q = .error .noEntry ∧ q <:+ p

section Directories

variable {d d' : Disk} {p up : Loc} {name : Name}

open FileSystem

theorem made_found {node : Node} (h : d.fs.look p = .ok node)
    (hdir : node.isDir = true) : Made d d p := by
  refine ⟨Or.inl ⟨node, h, hdir, rfl⟩, fun _ _ => rfl, fun _ => rfl, rfl,
    [], rfl, fun q => iff_of_false List.not_mem_nil ?_⟩
  rintro ⟨hq, hsuffix⟩
  obtain ⟨there, hthere⟩ := look_suffix h hsuffix
  rw [hq] at hthere
  cases hthere

theorem content_of_noEntry {q : Loc} (h : d.fs.look q = .error .noEntry) :
    d.fs.content q = none := by
  unfold content
  rw [get_of_noEntry h]

theorem Made.cons {d₁ : Disk} {r w : Bool} (h : Made d d₁ up)
    (hup : d₁.fs.look up = .ok (.dir r w true))
    (hnone : d.fs.look (name :: up) = .error .noEntry)
    (hlong : d.fs.tooLong (name :: up) = false) :
    Made d (d₁.put (name :: up) (.dir true true true)) (name :: up) := by
  have hfits : d₁.fs.Fits (name :: up) (.dir true true true) := fits_dir hup
  refine ⟨Or.inr ⟨hnone, look_put_cons hup hfits ?_⟩, ?_, ?_, ?_, ?_⟩
  · rw [h.tooLong]
    exact hlong
  · intro q hq
    have hne : q ≠ name :: up := fun he =>
      hq ⟨he ▸ hnone, he ▸ List.suffix_refl _⟩
    refine (entries_put_ne hne).trans (h.get q fun hnew => hq ⟨hnew.1, ?_⟩)
    exact hnew.2.trans (List.suffix_cons name up)
  · intro q
    by_cases hq : q = name :: up
    · rw [hq, content_of_noEntry hnone]
      unfold FileSystem.content
      rw [show (d₁.put (name :: up) (.dir true true true)).fs.entries.get
        (name :: up) = some (.dir true true true) from by
          show (d₁.fs.put _ _).entries.get _ = _
          rw [get_put hfits, Dict.get_set_self]]
    · exact (content_put_ne hq).trans (h.content q)
  · exact tooLong_put.trans h.tooLong
  · obtain ⟨new, htouched, hnew⟩ := h.touched
    refine ⟨(name :: up) :: new, ?_, fun q => ?_⟩
    · show (name :: up) :: d₁.touched = _
      rw [htouched]
      rfl
    · rw [List.mem_cons, hnew, List.suffix_cons_iff]
      constructor
      · rintro (rfl | ⟨hq, hsuffix⟩)
        · exact ⟨hnone, Or.inl rfl⟩
        · exact ⟨hq, Or.inr hsuffix⟩
      · rintro ⟨hq, rfl | hsuffix⟩
        · exact Or.inl rfl
        · exact Or.inr ⟨hq, hsuffix⟩

theorem osMkdir_found {node : Node} (h : d.fs.look p = .ok node) :
    d.osMkdir p = .error .exists := by
  unfold Disk.osMkdir
  rw [h]

theorem osMkdir_error {e : Errno} (h : d.fs.look p = .error e)
    (he : e ≠ .noEntry) : d.osMkdir p = .error e := by
  unfold Disk.osMkdir
  rw [h]
  cases e <;> first | rfl | exact absurd rfl he

theorem osMkdir_new {r w x : Bool} (h : d.fs.look p = .error .noEntry)
    (hup : d.fs.look p.tail = .ok (.dir r w x)) :
    d.osMkdir p = if w = true then .ok (d.put p (.dir true true true))
      else .error .access := by
  unfold Disk.osMkdir Disk.admits
  rw [h, hup]
  cases w <;> rfl

theorem osMkdir_noEntry (h : d.fs.look p = .error .noEntry)
    (hup : d.fs.look p.tail = .error .noEntry) :
    d.osMkdir p = .error .noEntry := by
  unfold Disk.osMkdir Disk.admits
  rw [h, hup]

theorem mkdirFailed_of (p : Loc) (e : Errno) (h : d.fs.isDir p = false) :
    d.mkdirFailed p e = (.error e, d) := by
  unfold Disk.mkdirFailed
  rw [h]
  rfl

theorem mkdirs_found {node : Node} (h : d.fs.look p = .ok node) :
    d.mkdirs p = if node.isDir = true then (.ok (), d)
      else (.error .exists, d) := by
  have hmk := osMkdir_found h
  have hfailed : d.mkdirFailed p .exists = if node.isDir = true then
      (.ok (), d) else (.error .exists, d) := by
    unfold Disk.mkdirFailed
    rw [isDir_of_look h]
  cases p with
  | nil =>
    rw [Disk.mkdirs, hmk]
    exact hfailed
  | cons name up =>
    rw [Disk.mkdirs, hmk]
    exact hfailed

theorem mkdirs_error {e : Errno} (h : d.fs.look p = .error e)
    (he : e ≠ .noEntry) : d.mkdirs p = (.error e, d) := by
  have hmk := osMkdir_error h he
  have hfailed := mkdirFailed_of (d := d) p e (isDir_of_error h)
  cases p with
  | nil =>
    rw [Disk.mkdirs, hmk]
    cases e <;> first | exact hfailed | exact absurd rfl he
  | cons name up =>
    rw [Disk.mkdirs, hmk]
    cases e <;> first | exact hfailed | exact absurd rfl he

theorem look_made (name : Name) (h : Made d d' up)
    (hup : d.fs.look up = .error .noEntry)
    (hnone : d.fs.look (name :: up) = .error .noEntry) :
    d'.fs.look up = .ok (.dir true true true) ∧
      d'.fs.look (name :: up) = if d.fs.tooLong (name :: up) = true
        then .error .nameTooLong else .error .noEntry := by
  have hdir : d'.fs.look up = .ok (.dir true true true) := by
    rcases h.found with ⟨node, hnode, _⟩ | ⟨_, hdir⟩
    · rw [hup] at hnode
      cases hnode
    · exact hdir
  refine ⟨hdir, ?_⟩
  have hget : d'.fs.entries.get (name :: up) = none := by
    rw [h.get _ fun hq => ?_, get_of_noEntry hnone]
    have := hq.2.length_le
    rw [List.length_cons] at this
    omega
  rw [look_cons hdir]
  unfold FileSystem.entry
  rw [hget, h.tooLong]

theorem mkdirs_new {r w x : Bool}
    (h : d.fs.look (name :: up) = .error .noEntry)
    (hup : d.fs.look up = .ok (.dir r w x)) :
    d.mkdirs (name :: up) =
      if w = true then (.ok (), d.put (name :: up) (.dir true true true))
      else (.error .access, d) := by
  rw [Disk.mkdirs, osMkdir_new h hup]
  cases w with
  | false =>
    exact mkdirFailed_of (d := d) (name :: up) .access (isDir_of_error h)
  | true => rfl

theorem mkdirs_below {d₁ : Disk}
    (h : d.fs.look (name :: up) = .error .noEntry)
    (hup : d.fs.look up = .error .noEntry)
    (hmk : d.mkdirs up = (.ok (), d₁)) (hmade : Made d d₁ up) :
    d.mkdirs (name :: up) = if d.fs.tooLong (name :: up) = true
      then (.error .nameTooLong, d₁)
      else (.ok (), d₁.put (name :: up) (.dir true true true)) := by
  obtain ⟨hdir, hlook⟩ := look_made name hmade hup h
  rw [Disk.mkdirs, osMkdir_noEntry h hup, hmk]
  dsimp only
  split at hlook
  · next hlong =>
    rw [if_pos hlong, osMkdir_error hlook (by decide)]
    exact mkdirFailed_of (d := d₁) (name :: up) .nameTooLong
      (isDir_of_error hlook)
  · next hlong =>
    rw [if_neg hlong, osMkdir_new hlook hdir]
    rfl

/-- `mkdirs` makes what can be made, and raises where that cannot. -/
theorem mkdirs_spec (d : Disk) (p : Loc) :
    (Makeable d.fs p → ∃ d', d.mkdirs p = (.ok (), d') ∧ Made d d' p) ∧
    (¬ Makeable d.fs p → ∃ e d', d.mkdirs p = (.error e, d')) := by
  induction p with
  | nil =>
    cases h : d.fs.look [] with
    | ok node =>
      have hmk := mkdirs_found h
      have hdir : Makeable d.fs [] ↔ node.isDir = true := by
        show d.fs.isDir [] = true ↔ _
        rw [isDir_of_look h]
      constructor
      · intro hm
        rw [if_pos (hdir.1 hm)] at hmk
        exact ⟨d, hmk, made_found h (hdir.1 hm)⟩
      · intro hm
        rw [if_neg fun hd => hm (hdir.2 hd)] at hmk
        exact ⟨_, _, hmk⟩
    | error e =>
      have hno : ¬ Makeable d.fs [] := fun hm => by
        have hdir : d.fs.isDir [] = true := hm
        rw [isDir_of_error h] at hdir
        cases hdir
      refine ⟨fun hm => absurd hm hno, fun _ => ?_⟩
      by_cases he : e = .noEntry
      · subst he
        refine ⟨.noEntry, d, ?_⟩
        rw [Disk.mkdirs, osMkdir_noEntry h h]
      · exact ⟨e, d, mkdirs_error h he⟩
  | cons name up ih =>
    cases h : d.fs.look (name :: up) with
    | ok node =>
      have hmk := mkdirs_found h
      have hdir : Makeable d.fs (name :: up) ↔ node.isDir = true := by
        rw [Makeable, h]
      constructor
      · intro hm
        rw [if_pos (hdir.1 hm)] at hmk
        exact ⟨d, hmk, made_found h (hdir.1 hm)⟩
      · intro hm
        rw [if_neg fun hd => hm (hdir.2 hd)] at hmk
        exact ⟨_, _, hmk⟩
    | error e =>
      by_cases he : e = .noEntry
      · subst he
        rcases look_noEntry_inv h with hup | ⟨⟨r, w, hup⟩, hentry⟩
        · have hm : Makeable d.fs (name :: up) ↔
              d.fs.tooLong (name :: up) = false ∧ Makeable d.fs up := by
            rw [Makeable, h]
            dsimp only
            rw [hup]
          rw [hm]
          by_cases hmup : Makeable d.fs up
          · obtain ⟨d₁, hmk, hmade⟩ := ih.1 hmup
            have hbelow := mkdirs_below h hup hmk hmade
            cases hlong : d.fs.tooLong (name :: up) with
            | true =>
              rw [if_pos hlong] at hbelow
              exact ⟨fun hyes => Bool.noConfusion hyes.1,
                fun _ => ⟨_, _, hbelow⟩⟩
            | false =>
              rw [if_neg (by rw [hlong]; decide)] at hbelow
              refine ⟨fun _ => ⟨_, hbelow, ?_⟩,
                fun hno => absurd ⟨rfl, hmup⟩ hno⟩
              exact hmade.cons (look_made name hmade hup h).1 h hlong
          · refine ⟨fun hyes => absurd hyes.2 hmup, fun _ => ?_⟩
            obtain ⟨e, d₁, hmk⟩ := ih.2 hmup
            refine ⟨e, d₁, ?_⟩
            rw [Disk.mkdirs, osMkdir_noEntry h hup, hmk]
        · have hm : Makeable d.fs (name :: up) ↔ w = true := by
            rw [Makeable, h]
            dsimp only
            rw [hup]
          rw [hm]
          have hnew := mkdirs_new h hup
          cases w with
          | true =>
            refine ⟨fun _ => ⟨_, hnew, ?_⟩, fun hno => absurd rfl hno⟩
            exact (made_found hup rfl).cons hup h
              (entry_noEntry hentry).2
          | false =>
            exact ⟨fun hyes => Bool.noConfusion hyes,
              fun _ => ⟨_, _, hnew⟩⟩
      · have hno : ¬ Makeable d.fs (name :: up) := by
          rw [Makeable, h]
          cases e <;> first | exact id | exact absurd rfl he
        exact ⟨fun hm => absurd hm hno,
          fun _ => ⟨e, d, mkdirs_error h he⟩⟩

-- ==== files

/-- What opening a file for writing leaves: the file, empty, and nothing
else is touched. -/
structure Opened (d d' : Disk) (p : Loc) : Prop where
  put : ∃ r, d' = d.put p (.file [] r true)
  empty : ∃ r, d'.fs.look p = .ok (.file [] r true)

theorem openForWriting_error {e : Errno} (h : d.fs.look p = .error e)
    (he : e ≠ .noEntry) : d.openForWriting p = (.error e, d) := by
  unfold Disk.openForWriting
  rw [h]
  cases e <;> first | rfl | exact absurd rfl he

theorem openForWriting_new {r w x : Bool}
    (h : d.fs.look p = .error .noEntry)
    (hup : d.fs.look p.tail = .ok (.dir r w x)) :
    d.openForWriting p =
      if w = true then (.ok (), d.put p (.file [] true true))
      else (.error .access, d) := by
  unfold Disk.openForWriting Disk.admits
  rw [h, hup]
  cases w <;> rfl

theorem opened_new {r w : Bool}
    (h : d.fs.look (name :: up) = .error .noEntry)
    (hup : d.fs.look up = .ok (.dir r w true)) :
    Opened d (d.put (name :: up) (.file [] true true)) (name :: up) := by
  have hlong : d.fs.tooLong (name :: up) = false := by
    rw [look_cons hup] at h
    exact (entry_noEntry h).2
  exact ⟨⟨true, rfl⟩, true,
    look_put_cons hup (fits_file hup (get_of_noEntry h)) hlong⟩

theorem searched_of_noEntry {r w x : Bool}
    (h : d.fs.look (name :: up) = .error .noEntry)
    (hup : d.fs.look up = .ok (.dir r w x)) : x = true := by
  rw [look, hup] at h
  cases x with
  | false => cases h
  | true => rfl

theorem openForWriting_found {node : Node} (h : d.fs.look p = .ok node) :
    (∃ b r, node = .file b r true ∧
      d.openForWriting p = (.ok (), d.put p (.file [] r true))) ∨
    (∀ b r, node ≠ .file b r true) ∧
      ∃ e, d.openForWriting p = (.error e, d) := by
  unfold Disk.openForWriting
  rw [h]
  cases node with
  | file b r w =>
    cases w with
    | true => exact Or.inl ⟨b, r, rfl, rfl⟩
    | false => exact Or.inr ⟨fun _ _ h => (by cases h), .access, rfl⟩
  | dir r w x => exact Or.inr ⟨fun _ _ h => (by cases h), .isDirectory, rfl⟩
  | link a t => exact Or.inr ⟨fun _ _ h => (by cases h), .loop, rfl⟩

/-- With its directory there or made, a file is opened where it can be,
and raises where it cannot. -/
theorem openForWriting_spec (h : Made d d' p.tail) :
    (Openable d.fs p → ∃ d'', d'.openForWriting p = (.ok (), d'') ∧
      Opened d' d'' p) ∧
    (¬ Openable d.fs p → ∃ e d'', d'.openForWriting p = (.error e, d'')) := by
  cases p with
  | nil =>
    refine ⟨fun h => h.elim, fun _ => ?_⟩
    -- "/" is a directory
    obtain ⟨node, hnode, hdir⟩ : ∃ node, d'.fs.look [] = .ok node ∧
        node.isDir = true := by
      rcases h.found with ⟨node, hnode, hdir, rfl⟩ | ⟨_, hmade⟩
      · exact ⟨node, hnode, hdir⟩
      · exact ⟨_, hmade, rfl⟩
    rcases openForWriting_found hnode with ⟨b, r, rfl, _⟩ | ⟨_, e, he⟩
    · cases hdir
    · exact ⟨e, d', he⟩
  | cons name up =>
    have hmade : Made d d' up := h
    rw [Openable]
    rcases hmade.found with ⟨dir, hdir, hisDir, rfl⟩ | ⟨hnone, hnew⟩
    · cases hp : d'.fs.look (name :: up) with
      | ok node =>
        rcases openForWriting_found hp with ⟨b, r, rfl, hopen⟩ |
          ⟨hnot, e, he⟩
        · exact ⟨fun _ => ⟨_, hopen, ⟨r, rfl⟩, r, look_put_file hp⟩,
            fun hno => absurd rfl hno⟩
        · refine ⟨fun hyes => ?_, fun _ => ⟨e, d', he⟩⟩
          cases node with
          | file b r w => exact absurd (congrArg _ hyes) (hnot b r)
          | dir r w x => exact hyes.elim
          | link a t => exact hyes.elim
      | error e =>
        by_cases he : e = .noEntry
        · subst he
          obtain ⟨r, w, x, rfl⟩ : ∃ r w x, dir = .dir r w x := by
            cases dir with
            | file b r w => cases hisDir
            | dir r w x => exact ⟨r, w, x, rfl⟩
            | link a t => cases hisDir
          have hopen := openForWriting_new hp hdir
          rw [hdir]
          obtain rfl := searched_of_noEntry hp hdir
          cases w with
          | true =>
            exact ⟨fun _ => ⟨_, hopen, opened_new hp hdir⟩,
              fun hno => absurd rfl hno⟩
          | false =>
            exact ⟨fun h => Bool.noConfusion h,
              fun _ => ⟨_, _, hopen⟩⟩
        · have hopen := openForWriting_error hp he
          refine ⟨fun hyes => ?_, fun _ => ⟨e, d', hopen⟩⟩
          cases e <;> first | exact hyes.elim | exact absurd rfl he
    · have hp : d.fs.look (name :: up) = .error .noEntry :=
        look_cons_error hnone
      obtain ⟨hdir, hlook⟩ := look_made name hmade hnone hp
      rw [hp, hnone]
      dsimp only
      cases hlong : d.fs.tooLong (name :: up) with
      | true =>
        rw [hlong] at hlook
        exact ⟨fun h => Bool.noConfusion h,
          fun _ => ⟨_, _, openForWriting_error hlook (by decide)⟩⟩
      | false =>
        rw [hlong] at hlook
        exact ⟨fun _ => ⟨_, openForWriting_new hlook hdir,
          opened_new hlook hdir⟩, fun hno => absurd rfl hno⟩

end Directories

end SdlcOs.Files
