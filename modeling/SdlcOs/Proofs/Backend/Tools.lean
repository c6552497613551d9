/-
What a tool call may raise, touch and leave.

# What is promised

`_execute_tool` is to answer whatever the model asks and whatever the
workspace holds: nothing is raised, nothing outside the workspace root is
read or written, and an error leaves every file as it was (`Contained`).

# Where it is kept

Containment is: `_safe_join` compares resolved paths, and directories are
made below the root as long as the root's own directory is there. But the
handlers catch what the input can cause and not what the file system
says, so every permission that is missing and every file in a directory's
place ends the subtask; `list_files` asks any value for its `get`; and a
text with a lone surrogate is found not to be encodable after the file
was opened for writing. `Safe` says for each tool exactly when none of
this happens (`tool_contained`).
-/
import SdlcOs.Proofs.Backend.EditFile

namespace SdlcOs.Backend.Tools

open Data Utf8 Files

-- ==== containment

/-- What a tool call owes, from a disk to what it ends with. -/
structure Contained (before : Disk) (rootResolved : Loc)
    (out : Except Exn Payload × Disk) : Prop where
  answers : ∃ payload, out.1 = .ok payload
  inside : ∃ new, out.2.touched = new ++ before.touched ∧
    ∀ q ∈ new, rootResolved <:+ q
  outside : ∀ q, ¬ rootResolved <:+ q →
    out.2.fs.entries.get q = before.fs.entries.get q
  unchanged : ∀ m, out.1 = .ok (.error m) →
    ∀ q, out.2.fs.content q = before.fs.content q

/-- The location a tool call names. -/
def Reaches (fs : FileSystem) (root : List Name) (toolInput : Value)
    (p : Loc) : Prop :=
  ∃ path, item toolInput "path" = .ok path ∧ safeJoin fs root path = .ok p

/-- A file that is to be read can be. -/
def ReadSafe (fs : FileSystem) (root : List Name) (toolInput : Value) :
    Prop :=
  ∀ p, Reaches fs root toolInput p → ∀ b r w,
    fs.look p = .ok (.file b r w) → r = true

/-- The root's own directory is there, those on the way to the file are or
can be made, and where there is a text, the file can be opened and the
text encoded, or the file is empty anyway. -/
def WriteSafe (fs : FileSystem) (root : List Name) (toolInput : Value) :
    Prop :=
  ∀ p, Reaches fs root toolInput p →
    fs.look (fs.realpath root).tail ≠ .error .noEntry ∧
      fs.Makeable p.tail ∧ ∀ text, item toolInput "content" =
        .ok (.str text) → fs.Openable p ∧
          ((encode text).isSome = true ∨ fs.content p = some [])

/-- A file that is to be edited can be read unless the texts are the same,
and where the edit comes to be written, so can the file, and the new text
can be encoded or the file is empty anyway. -/
def EditSafe (fs : FileSystem) (root : List Name) (toolInput : Value) :
    Prop :=
  ∀ p, Reaches fs root toolInput p → ∀ b r w,
    fs.look p = .ok (.file b r w) → ∀ old new all,
      item toolInput "old_str" = .ok old →
      item toolInput "new_str" = .ok new →
      getD toolInput "replace_all" (.bool false) = .ok all →
        old.same new = true ∨ (r = true ∧ ∀ o n, old = .str o →
          new = .str n → ¬ Refused b o n all.truth →
            w = true ∧ ((encode n).isSome = true ∨ b = []))

/-- The input is an object, and a directory that is to be listed can be
read. -/
def ListSafe (fs : FileSystem) (root : List Name) (toolInput : Value) :
    Prop :=
  (∃ ms, toolInput = .obj ms) ∧ ∀ path p,
    getD toolInput "path" (.str (str ".")) = .ok path →
      safeJoin fs root path = .ok p → ∀ r w x,
        fs.look p = .ok (.dir r w x) → r = true

/-- When a tool call keeps what it owes. -/
def Safe (fs : FileSystem) (root : List Name) (name : Str)
    (toolInput : Value) : Prop :=
  if name = str "read_file" then ReadSafe fs root toolInput
  else if name = str "write_file" then WriteSafe fs root toolInput
  else if name = str "edit_file" then EditSafe fs root toolInput
  else if name = str "list_files" then ListSafe fs root toolInput
  else True

section Ends

variable {d d' : Disk} {root : List Name} {name : Str} {toolInput : Value}
variable {p rr : Loc} {out : Except Exn Payload × Disk}

theorem contained_answer (payload : Payload) :
    Contained d rr (.ok payload, d) :=
  ⟨⟨payload, rfl⟩, ⟨[], rfl, fun _ h => by cases h⟩, fun _ _ => rfl,
    fun _ _ _ => rfl⟩

theorem contained_touch (payload : Payload) (h : rr <:+ p) :
    Contained d rr (.ok payload, d.touch p) := by
  refine ⟨⟨payload, rfl⟩, ⟨[p], rfl, ?_⟩, fun _ _ => rfl, fun _ _ _ => rfl⟩
  intro q hq
  rw [List.mem_singleton.1 hq]
  exact h

theorem not_contained {x : Exn} : ¬ Contained d rr (.error x, d') := by
  intro h
  obtain ⟨payload, hpayload⟩ := h.answers
  cases hpayload

/-- What the handlers of `_execute_tool` catch. -/
def Caught (x : Exn) : Prop :=
  (∃ m, x = .valueError m) ∨ (∃ field, x = .keyError field) ∨ x = .typeError

theorem Caught.answered {x : Exn} (h : Caught x) (name : Str) :
    ∃ m, caught name x = .ok (.error m) := by
  rcases h with ⟨m, rfl⟩ | ⟨field, rfl⟩ | rfl
  · exact ⟨m, rfl⟩
  · exact ⟨_, rfl⟩
  · exact ⟨_, rfl⟩

theorem item_error {key : String} {x : Exn}
    (h : item toolInput key = .error x) : Caught x := by
  unfold item at h
  split at h
  · split at h
    · cases h
    · exact Or.inr (Or.inl ⟨_, (Except.error.inj h).symm⟩)
  · exact Or.inr (Or.inr (Except.error.inj h).symm)

theorem safeJoin_error {fs : FileSystem} {v : Value} {x : Exn}
    (h : safeJoin fs root v = .error x) : Caught x := by
  unfold safeJoin at h
  split at h
  · next path =>
    by_cases hall : path.all nameable = true
    · rw [if_pos hall] at h
      dsimp only at h
      generalize fs.realpath (if path.head? = some slash then parts path
        else root ++ parts path) = candidate at h
      split at h
      · exact Or.inl ⟨_, (Except.error.inj h).symm⟩
      · cases h
    · rw [if_neg hall] at h
      exact Or.inl ⟨_, (Except.error.inj h).symm⟩
  · exact Or.inr (Or.inr (Except.error.inj h).symm)

theorem safeJoin_inside {fs : FileSystem} {v : Value}
    (h : safeJoin fs root v = .ok p) : fs.realpath root <:+ p := by
  unfold safeJoin at h
  split at h
  · next path =>
    by_cases hall : path.all nameable = true
    · rw [if_pos hall] at h
      dsimp only at h
      generalize fs.realpath (if path.head? = some slash then parts path
        else root ++ parts path) = candidate at h
      split at h
      · cases h
      · next hin =>
        obtain rfl := Except.ok.inj h
        rw [not_and_or, not_not, not_not] at hin
        rcases hin with heq | hmem
        · rw [heq]
        · exact (List.mem_tails _ _ |>.1 hmem).trans (List.tail_suffix _)
    · rw [if_neg hall] at h
      cases h
  · cases h

theorem contained_caught {x : Exn} (hx : Caught x)
    (h : dispatch root name toolInput d = (.error x, d)) :
    Contained d rr (executeTool root name toolInput d) := by
  obtain ⟨m, hm⟩ := hx.answered name
  rw [executeTool_error h, hm]
  exact contained_answer _

theorem contained_caught_touch {x : Exn} (hx : Caught x) (hin : rr <:+ p)
    (h : dispatch root name toolInput d = (.error x, d.touch p)) :
    Contained d rr (executeTool root name toolInput d) := by
  obtain ⟨m, hm⟩ := hx.answered name
  rw [executeTool_error h, hm]
  exact contained_touch _ hin

theorem not_contained_os {e : Errno}
    (h : dispatch root name toolInput d = (.error (.osError e), d')) :
    ¬ Contained d rr (executeTool root name toolInput d) := by
  rw [executeTool_error h]
  exact not_contained

end Ends

section Reached

variable {d : Disk} {root : List Name} {name : Str} {toolInput : Value}
variable {body : Value → Loc → Act Payload} {P : Loc → Prop}

/-- Three tools begin alike: what is wrong with the path is answered, and
the rest depends on the location it leads to. -/
theorem contained_reached
    (hrun : dispatch root name toolInput = do
      let path ← Act.lift (item toolInput "path")
      let p ← Act.ask (safeJoin · root path)
      body path p)
    (hbody : ∀ path p, item toolInput "path" = .ok path →
      d.fs.realpath root <:+ p →
      dispatch root name toolInput d = body path p d →
        (Contained d (d.fs.realpath root)
          (executeTool root name toolInput d) ↔ P p)) :
    Contained d (d.fs.realpath root) (executeTool root name toolInput d) ↔
      ∀ p, Reaches d.fs root toolInput p → P p := by
  have hd := congrFun hrun d
  cases hpath : item toolInput "path" with
  | error x =>
    rw [Act.lift_error hpath] at hd
    refine iff_of_true (contained_caught (item_error hpath) hd) ?_
    rintro p ⟨path, hpath', _⟩
    rw [hpath] at hpath'
    cases hpath'
  | ok path =>
    rw [Act.lift_ok hpath] at hd
    cases hp : safeJoin d.fs root path with
    | error x =>
      rw [Act.ask_error hp] at hd
      refine iff_of_true (contained_caught (safeJoin_error hp) hd) ?_
      rintro p ⟨path', hpath', hp'⟩
      obtain rfl := Except.ok.inj (hpath.symm.trans hpath')
      rw [hp] at hp'
      cases hp'
    | ok p =>
      rw [Act.ask_ok hp] at hd
      rw [hbody path p hpath (safeJoin_inside hp) hd]
      constructor
      · rintro h p' ⟨path', hpath', hp'⟩
        obtain rfl := Except.ok.inj (hpath.symm.trans hpath')
        obtain rfl := Except.ok.inj (hp.symm.trans hp')
        exact h
      · exact fun h => h p ⟨path, hpath, hp⟩

end Reached

-- ==== read_file

section ReadFile

variable {d : Disk} {root : List Name} {toolInput : Value}

theorem dispatch_read : dispatch root (str "read_file") toolInput =
    executeReadFile root toolInput := if_pos rfl

theorem isFile_iff {fs : FileSystem} {p : Loc} : fs.isFile p = true ↔
    ∃ b r w, fs.look p = .ok (.file b r w) := by
  unfold FileSystem.isFile
  constructor
  · intro h
    split at h
    · next b r w hlook => exact ⟨b, r, w, hlook⟩
    · cases h
  · rintro ⟨b, r, w, hlook⟩
    rw [hlook]

theorem contained_read :
    Contained d (d.fs.realpath root)
        (executeTool root (str "read_file") toolInput d) ↔
      ReadSafe d.fs root toolInput := by
  refine contained_reached dispatch_read fun path p _ hin hd => ?_
  rw [Act.get_bind] at hd
  cases hfile : d.fs.isFile p with
  | false =>
    rw [if_pos hfile] at hd
    rw [executeTool_ok hd]
    refine iff_of_true (contained_answer _) fun b r w hlook => ?_
    rw [isFile_iff.2 ⟨b, r, w, hlook⟩] at hfile
    cases hfile
  | true =>
    obtain ⟨b, r, w, hlook⟩ := isFile_iff.1 hfile
    rw [if_neg (by rw [hfile]; decide)] at hd
    cases r with
    | false =>
      rw [readTextAt_error hlook] at hd
      refine iff_of_false (not_contained_os hd) fun h => ?_
      cases h b false w hlook
    | true =>
      rw [readTextAt_ok hlook] at hd
      rw [executeTool_ok hd]
      refine iff_of_true (contained_touch _ hin) fun b' r w' h => ?_
      rw [hlook] at h
      injection h with h
      injection h with _ h _
      exact h.symm

end ReadFile

-- ==== write_file

section WriteFile

variable {d d' : Disk} {root : List Name} {toolInput : Value} {p rr : Loc}
variable {name : Str}

theorem dispatch_write : dispatch root (str "write_file") toolInput =
    executeWriteFile root toolInput := by
  unfold dispatch
  rw [if_neg (by decide), if_pos rfl]

theorem tail_suffix_tail {q : Loc} (h : q <:+ p) : q.tail <:+ p.tail := by
  obtain ⟨before, rfl⟩ := h
  cases before with
  | nil => exact List.suffix_refl _
  | cons name before =>
    exact (List.tail_suffix q).trans (List.suffix_append before q)

theorem look_root_of_makeable {fs : FileSystem} :
    ∀ {q : Loc}, fs.Makeable q → fs.look [] ≠ .error .noEntry
  | [], h => fun hnone => by
    have hdir : fs.isDir [] = true := h
    rw [FileSystem.isDir_of_error hnone] at hdir
    cases hdir
  | name :: up, h => fun hnone => by
    have hup := FileSystem.look_noEntry_of_suffix hnone
      (List.nil_suffix (l := up))
    have hthis := FileSystem.look_noEntry_of_suffix hnone
      (List.nil_suffix (l := name :: up))
    rw [FileSystem.Makeable, hthis] at h
    dsimp only at h
    rw [hup] at h
    exact look_root_of_makeable h.2 hnone

theorem made_inside (hin : rr <:+ p)
    (hroot : d.fs.look rr.tail ≠ .error .noEntry) {q : Loc}
    (hnone : d.fs.look q = .error .noEntry) (hq : q <:+ p.tail) :
    rr <:+ q := by
  rcases List.suffix_or_suffix_of_suffix hin
    (hq.trans (List.tail_suffix p)) with h | h
  · exact h
  · rcases rr with _ | ⟨name, up⟩
    · exact List.nil_suffix
    · rcases List.suffix_cons_iff.1 h with rfl | h
      · exact List.suffix_refl _
      · exact absurd (FileSystem.look_noEntry_of_suffix hnone h) hroot

/-- Once directories were made, and something inside was done, what was
touched is inside exactly where the root's own directory was there. -/
theorem touched_inside (hmade : Made d d' p.tail)
    (hm : d.fs.Makeable p.tail) (hin : rr <:+ p) {more touched : List Loc}
    (htouched : touched = more ++ d'.touched) (hmore : ∀ q ∈ more, q = p) :
    (∃ new, touched = new ++ d.touched ∧ ∀ q ∈ new, rr <:+ q) ↔
      d.fs.look rr.tail ≠ .error .noEntry := by
  obtain ⟨made, hd', hnew⟩ := hmade.touched
  rw [htouched, hd', ← List.append_assoc]
  constructor
  · rintro ⟨new, heq, hinside⟩ hnone
    rw [← List.append_cancel_right heq] at hinside
    have hmem := (hnew rr.tail).2 ⟨hnone, tail_suffix_tail hin⟩
    have hsuffix := hinside _ (List.mem_append_right more hmem)
    rcases rr with _ | ⟨name, up⟩
    · exact look_root_of_makeable hm hnone
    · have := hsuffix.length_le
      rw [List.length_cons, List.tail_cons] at this
      omega
  · intro hroot
    refine ⟨more ++ made, rfl, fun q hq => ?_⟩
    rcases List.mem_append.1 hq with hq | hq
    · rw [hmore q hq]
      exact hin
    · obtain ⟨hnone, hsuffix⟩ := (hnew q).1 hq
      exact made_inside hin hroot hnone hsuffix

theorem outside_made (hmade : Made d d' p.tail) (hin : rr <:+ p)
    (hroot : d.fs.look rr.tail ≠ .error .noEntry) {q : Loc}
    (hq : ¬ rr <:+ q) :
    d'.fs.entries.get q = d.fs.entries.get q :=
  hmade.get q fun h => hq (made_inside hin hroot h.1 h.2)

theorem contained_made_error {m : Message} (hmade : Made d d' p.tail)
    (hm : d.fs.Makeable p.tail) (hin : rr <:+ p) :
    Contained d rr (.ok (.error m), d') ↔
      d.fs.look rr.tail ≠ .error .noEntry := by
  have htouched := touched_inside hmade hm hin
    (show d'.touched = [] ++ d'.touched from rfl)
    fun q hq => (by cases hq)
  constructor
  · exact fun h => htouched.1 h.inside
  · intro hroot
    exact ⟨⟨_, rfl⟩, htouched.2 hroot,
      fun q hq => outside_made hmade hin hroot hq,
      fun _ _ q => hmade.content q⟩

theorem contained_made_caught {x : Exn} (hx : Caught x)
    (hmade : Made d d' p.tail) (hm : d.fs.Makeable p.tail) (hin : rr <:+ p)
    (h : dispatch root name toolInput d = (.error x, d')) :
    Contained d rr (executeTool root name toolInput d) ↔
      d.fs.look rr.tail ≠ .error .noEntry := by
  obtain ⟨m, hanswer⟩ := hx.answered name
  rw [executeTool_error h, hanswer]
  exact contained_made_error hmade hm hin

theorem writeTextAt_opened {d'' : Disk} {text : Str} {b : List UInt8}
    {k : Unit → Act Payload} (hopen : d'.openForWriting p = (.ok (), d''))
    (hencode : encode text = some b) :
    (writeTextAt p (.str text) >>= k) d' = k () (d''.writeBytes p b) := by
  refine Act.bind_ok ((Act.system_ok hopen).trans ?_)
  rw [hencode]
  rfl

theorem writeTextAt_lost {d'' : Disk} {text : Str}
    {k : Unit → Act Payload} (hopen : d'.openForWriting p = (.ok (), d''))
    (hencode : encode text = none) :
    (writeTextAt p (.str text) >>= k) d' =
      (.error (.valueError .notEncodable), d'') := by
  refine Act.bind_error ((Act.system_ok hopen).trans ?_)
  rw [hencode]
  rfl

theorem writeBytes_opened {d'' : Disk} (h : Opened d' d'' p)
    (b : List UInt8) : ∃ r, d''.writeBytes p b =
      d''.put p (.file b r true) := by
  obtain ⟨r, hr⟩ := h.empty
  refine ⟨r, ?_⟩
  unfold Disk.writeBytes
  rw [hr]

theorem contained_written {d'' : Disk} {path : Str} {n : Nat}
    {b : List UInt8} (hmade : Made d d' p.tail) (hm : d.fs.Makeable p.tail)
    (hin : rr <:+ p) (hopened : Opened d' d'' p) :
    Contained d rr (.ok (.written path n), d''.writeBytes p b) ↔
      d.fs.look rr.tail ≠ .error .noEntry := by
  obtain ⟨r, hbytes⟩ := writeBytes_opened hopened b
  obtain ⟨r', rfl⟩ := hopened.put
  rw [hbytes]
  have htouched := touched_inside hmade hm hin
    (show (d'.put p (.file [] r' true)).touched = [p] ++ d'.touched from rfl)
    fun q hq => List.mem_singleton.1 hq
  have hmore := touched_inside hmade hm hin
    (show ((d'.put p (.file [] r' true)).put p (.file b r true)).touched =
      [p, p] ++ d'.touched from rfl) fun q hq => by
        rcases List.mem_cons.1 hq with hq | hq
        · exact hq
        · exact List.mem_singleton.1 hq
  constructor
  · exact fun h => hmore.1 h.inside
  · intro hroot
    refine ⟨⟨_, rfl⟩, hmore.2 hroot, fun q hq => ?_, fun m h => ?_⟩
    · have hne : q ≠ p := fun he => hq (he ▸ hin)
      refine (FileSystem.entries_put_ne hne).trans ?_
      refine (FileSystem.entries_put_ne hne).trans ?_
      exact outside_made hmade hin hroot hq
    · cases h

theorem contained_lost {d'' : Disk} {m : Message}
    (hmade : Made d d' p.tail) (hm : d.fs.Makeable p.tail)
    (hin : rr <:+ p) (hopened : Opened d' d'' p) :
    Contained d rr (.ok (.error m), d'') ↔
      d.fs.look rr.tail ≠ .error .noEntry ∧ d.fs.content p = some [] := by
  obtain ⟨r', hr'⟩ := hopened.empty
  have hempty := FileSystem.content_of_look hr'
  obtain ⟨r, rfl⟩ := hopened.put
  have htouched := touched_inside hmade hm hin
    (show (d'.put p (.file [] r true)).touched = [p] ++ d'.touched from rfl)
    fun q hq => List.mem_singleton.1 hq
  constructor
  · intro h
    refine ⟨htouched.1 h.inside, ?_⟩
    rw [← h.unchanged m rfl p]
    exact hempty
  · rintro ⟨hroot, hcontent⟩
    refine ⟨⟨_, rfl⟩, htouched.2 hroot, fun q hq => ?_, fun _ _ q => ?_⟩
    · have hne : q ≠ p := fun he => hq (he ▸ hin)
      exact (FileSystem.entries_put_ne hne).trans
        (outside_made hmade hin hroot hq)
    · by_cases hq : q = p
      · rw [hq, hcontent]
        exact hempty
      · exact (FileSystem.content_put_ne hq).trans (hmade.content q)

/-- `write_file` keeps what it owes where the directories can be made, and
the text can be written. -/
theorem contained_write :
    Contained d (d.fs.realpath root)
        (executeTool root (str "write_file") toolInput d) ↔
      WriteSafe d.fs root toolInput := by
  refine contained_reached dispatch_write fun path p _ hin hd => ?_
  obtain ⟨hmakes, hfails⟩ := mkdirs_spec d p.tail
  by_cases hm : d.fs.Makeable p.tail
  · obtain ⟨d', hmk, hmade⟩ := hmakes hm
    rw [Act.system_ok hmk] at hd
    -- without a text, all depends on where directories were made
    have hrest : (∀ text, item toolInput "content" ≠ .ok (.str text)) →
        (d.fs.look (d.fs.realpath root).tail ≠ .error .noEntry ↔
          d.fs.look (d.fs.realpath root).tail ≠ .error .noEntry ∧
            d.fs.Makeable p.tail ∧ ∀ text, item toolInput "content" =
              .ok (.str text) → d.fs.Openable p ∧
                ((encode text).isSome = true ∨
                  d.fs.content p = some [])) := by
      intro hno
      exact ⟨fun h => ⟨h, hm, fun text ht => absurd ht (hno text)⟩,
        fun h => h.1⟩
    cases hcontent : item toolInput "content" with
    | error x =>
      rw [Act.lift_error hcontent] at hd
      rw [contained_made_caught (item_error hcontent) hmade hm hin hd]
      rw [hcontent] at hrest
      exact hrest fun text h => (by cases h)
    | ok v =>
      rw [Act.lift_ok hcontent] at hd
      rw [hcontent] at hrest
      by_cases hv : ∃ text, v = .str text
      · obtain ⟨text, rfl⟩ := hv
        obtain ⟨hopens, hcannot⟩ := openForWriting_spec hmade
        have hiff : (∀ text', (Except.ok (Value.str text) :
            Except Exn Value) = .ok (.str text') → d.fs.Openable p ∧
              ((encode text').isSome = true ∨
                d.fs.content p = some [])) ↔
            d.fs.Openable p ∧ ((encode text).isSome = true ∨
              d.fs.content p = some []) := by
          constructor
          · exact fun h => h text rfl
          · intro h text' heq
            injection heq with heq
            injection heq with heq
            rw [← heq]
            exact h
        rw [hiff]
        by_cases ho : d.fs.Openable p
        · obtain ⟨d'', hopen, hopened⟩ := hopens ho
          cases hencode : encode text with
          | none =>
            rw [writeTextAt_lost hopen hencode] at hd
            rw [executeTool_error hd]
            refine (contained_lost hmade hm hin hopened).trans ?_
            constructor
            · exact fun h => ⟨h.1, hm, ho, Or.inr h.2⟩
            · rintro ⟨hroot, _, _, hsome | hempty⟩
              · cases hsome
              · exact ⟨hroot, hempty⟩
          | some b =>
            rw [writeTextAt_opened hopen hencode] at hd
            rw [executeTool_ok hd]
            refine (contained_written hmade hm hin hopened).trans ?_
            exact ⟨fun h => ⟨h, hm, ho, Or.inl rfl⟩, fun h => h.1⟩
        · obtain ⟨e, d'', hopen⟩ := hcannot ho
          have hraise : (writeTextAt p (.str text) >>= fun _ =>
              pure (.written (shown path) (shown (.str text)).length) :
                Act Payload) d' = (.error (.osError e), d'') :=
            Act.bind_error (Act.system_error hopen)
          refine iff_of_false
            (not_contained_os (hd.trans hraise)) fun h => ho h.2.2.1
      · have hraise : dispatch root (str "write_file") toolInput d =
            (.error .typeError, d') := by
          rw [hd]
          cases v with
          | str text => exact absurd ⟨text, rfl⟩ hv
          | null => rfl
          | bool b => rfl
          | num x => rfl
          | arr xs => rfl
          | obj ms => rfl
        rw [contained_made_caught (Or.inr (Or.inr rfl)) hmade hm hin
          hraise]
        refine hrest fun text h => hv ⟨text, ?_⟩
        injection h
  · obtain ⟨e, d', hmk⟩ := hfails hm
    rw [Act.system_error hmk] at hd
    exact iff_of_false (not_contained_os hd) fun h => hm h.2.1

end WriteFile

-- ==== edit_file

section EditFile

variable {d : Disk} {root : List Name} {toolInput : Value}

theorem getD_of_item {key key' : String} {v default : Value}
    (h : item toolInput key = .ok v) :
    ∃ v', getD toolInput key' default = .ok v' := by
  unfold item at h
  unfold getD
  split at h
  · exact ⟨_, rfl⟩
  · cases h

theorem not_str {v : Value} (h : ¬ ∃ text, v = .str text) (content : Str) :
    countOf content v = .error .typeError ∧
      ∀ v' limit, replaceIn content v' v limit = .error .typeError := by
  cases v with
  | str text => exact absurd ⟨text, rfl⟩ h
  | null => exact ⟨rfl, fun v' limit => by cases v' <;> rfl⟩
  | bool b => exact ⟨rfl, fun v' limit => by cases v' <;> rfl⟩
  | num x => exact ⟨rfl, fun v' limit => by cases v' <;> rfl⟩
  | arr xs => exact ⟨rfl, fun v' limit => by cases v' <;> rfl⟩
  | obj ms => exact ⟨rfl, fun v' limit => by cases v' <;> rfl⟩

theorem contained_rewritten {p rr : Loc} {b e : List UInt8} {r w : Bool}
    {payload : Payload} (hin : rr <:+ p)
    (hpayload : payload.isError = false) :
    Contained d rr (.ok payload,
      ((d.touch p).put p (.file b r w)).put p (.file e r w)) := by
  refine ⟨⟨_, rfl⟩, ⟨[p, p, p], rfl, fun q hq => ?_⟩, fun q hq => ?_,
    fun m h => ?_⟩
  · rcases List.mem_cons.1 hq with hq | hq
    · rw [hq]
      exact hin
    · rcases List.mem_cons.1 hq with hq | hq
      · rw [hq]
        exact hin
      · rw [List.mem_singleton.1 hq]
        exact hin
  · have hne : q ≠ p := fun he => hq (he ▸ hin)
    exact (FileSystem.entries_put_ne hne).trans
      (FileSystem.entries_put_ne hne)
  · injection h with h
    rw [h] at hpayload
    cases hpayload

theorem contained_emptied {p rr : Loc} {b : List UInt8} {w : Bool}
    {m : Message} (hin : rr <:+ p)
    (hlook : d.fs.look p = .ok (.file b true w)) :
    Contained d rr (.ok (.error m),
      (d.touch p).put p (.file [] true true)) ↔ b = [] := by
  have hempty : ((d.touch p).put p (.file [] true true)).fs.content p =
      some [] := FileSystem.content_of_look (FileSystem.look_put_file hlook)
  have hthere := FileSystem.content_of_look hlook
  constructor
  · intro h
    have hsame := h.unchanged m rfl p
    rw [hempty, hthere] at hsame
    exact (Option.some.inj hsame).symm
  · rintro rfl
    refine ⟨⟨_, rfl⟩, ⟨[p, p], rfl, fun q hq => ?_⟩, fun q hq => ?_,
      fun _ _ q => ?_⟩
    · rcases List.mem_cons.1 hq with hq | hq
      · rw [hq]
        exact hin
      · rw [List.mem_singleton.1 hq]
        exact hin
    · exact FileSystem.entries_put_ne fun he => hq (he ▸ hin)
    · by_cases hq : q = p
      · rw [hq, hthere]
        exact hempty
      · exact FileSystem.content_put_ne hq

/-- What an edit of a file that can be read is to meet. -/
def EditMeets (b : List UInt8) (w : Bool) (old new all : Value) : Prop :=
  ∀ o n, old = .str o → new = .str n → ¬ Refused b o n all.truth →
    w = true ∧ ((encode n).isSome = true ∨ b = [])

theorem contained_edit_read {p rr : Loc} {b : List UInt8} {w : Bool}
    {old new all path : Value} (hin : rr <:+ p)
    (hlook : d.fs.look p = .ok (.file b true w))
    (hsame : old.same new = false)
    (hd : dispatch root (str "edit_file") toolInput d = (do
      let occurrences ← Act.lift (countOf (readText b) old)
      if occurrences = 0 then pure (.error .notFound)
      else if 1 < occurrences ∧ all.truth = false then
        pure (.error (.notUnique occurrences))
      else do
        let newContent ← Act.lift (replaceIn (readText b) old new
          (if all.truth then none else some 1))
        writeTextAt p (.str newContent)
        pure (.edited (shown path) (if all.truth then occurrences else 1)) :
          Act Payload) (d.touch p)) :
    Contained d rr (executeTool root (str "edit_file") toolInput d) ↔
      EditMeets b w old new all := by
  by_cases hold : ∃ o, old = .str o
  · obtain ⟨o, rfl⟩ := hold
    have hcount : countOf (readText b) (.str o) =
        .ok (count o 0 (readText b)) := rfl
    rw [Act.lift_ok hcount] at hd
    by_cases hnone : count o 0 (readText b) = 0
    · rw [if_pos hnone] at hd
      rw [executeTool_ok hd]
      refine iff_of_true (contained_touch _ hin) fun o' n ho _ hreach => ?_
      injection ho with ho
      rw [← ho] at hreach
      exact absurd (Or.inr (Or.inl hnone)) hreach
    · rw [if_neg hnone] at hd
      by_cases hmany : 1 < count o 0 (readText b) ∧ all.truth = false
      · rw [if_pos hmany] at hd
        rw [executeTool_ok hd]
        refine iff_of_true (contained_touch _ hin) fun o' n ho _ hreach => ?_
        injection ho with ho
        rw [← ho] at hreach
        exact absurd (Or.inr (Or.inr hmany)) hreach
      · rw [if_neg hmany] at hd
        by_cases hnew : ∃ n, new = .str n
        · obtain ⟨n, rfl⟩ := hnew
          have hreplace : replaceIn (readText b) (.str o) (.str n)
              (if all.truth then none else some 1) = .ok (replace o n
                (if all.truth then none else some 1) 0 (readText b)) := rfl
          rw [Act.lift_ok hreplace] at hd
          have hreach : ¬ Refused b o n all.truth := fun h =>
            h.elim (fun he => of_decide_eq_false hsame he)
              fun h => h.elim hnone hmany
          have hmeets : EditMeets b w (.str o) (.str n) all ↔
              w = true ∧ ((encode n).isSome = true ∨ b = []) := by
            constructor
            · exact fun h => h o n rfl rfl hreach
            · intro h o' n' ho hn _
              injection hn with hn
              rw [← hn]
              exact h
          rw [hmeets]
          have htouch : (d.touch p).fs.look p = .ok (.file b true w) := hlook
          have hsome := encode_replaced hreach
          cases w with
          | false =>
            rw [writeTextAt_readOnly htouch] at hd
            exact iff_of_false (not_contained_os hd)
              fun h => Bool.noConfusion h.1
          | true =>
            cases hencode : encode (replace o n
                (if all.truth then none else some 1) 0 (readText b)) with
            | none =>
              rw [writeTextAt_surrogate htouch hencode] at hd
              rw [executeTool_error hd]
              refine (contained_emptied hin hlook).trans ?_
              rw [← hsome, hencode]
              constructor
              · exact fun h => ⟨rfl, Or.inr h⟩
              · rintro ⟨_, h | h⟩
                · cases h
                · exact h
            | some e =>
              rw [writeTextAt_ok htouch hencode] at hd
              rw [executeTool_ok hd]
              rw [← hsome, hencode]
              exact iff_of_true (contained_rewritten hin rfl)
                ⟨rfl, Or.inl rfl⟩
        · have hraise := (not_str hnew (readText b)).2 (.str o)
            (if all.truth then none else some 1)
          rw [Act.lift_error hraise] at hd
          exact iff_of_true
            (contained_caught_touch (Or.inr (Or.inr rfl)) hin hd)
            fun o' n _ hn => absurd ⟨n, hn⟩ hnew
  · rw [Act.lift_error (not_str hold (readText b)).1] at hd
    exact iff_of_true (contained_caught_touch (Or.inr (Or.inr rfl)) hin hd)
      fun o n ho => absurd ⟨o, ho⟩ hold

/-- `edit_file` keeps what it owes where the file can be read, and where
it comes to that, written. -/
theorem contained_edit :
    Contained d (d.fs.realpath root)
        (executeTool root (str "edit_file") toolInput d) ↔
      EditSafe d.fs root toolInput := by
  refine contained_reached dispatch_edit fun path p hpath hin hd => ?_
  cases hold : item toolInput "old_str" with
  | error x =>
    rw [Act.lift_error hold] at hd
    exact iff_of_true (contained_caught (item_error hold) hd)
      fun b r w _ old new all h => (by cases h)
  | ok old =>
    rw [Act.lift_ok hold] at hd
    cases hnew : item toolInput "new_str" with
    | error x =>
      rw [Act.lift_error hnew] at hd
      exact iff_of_true (contained_caught (item_error hnew) hd)
        fun b r w _ old new all _ h => (by cases h)
    | ok new =>
      rw [Act.lift_ok hnew] at hd
      obtain ⟨all, hall⟩ : ∃ all, getD toolInput "replace_all"
          (.bool false) = .ok all := getD_of_item hpath
      rw [Act.lift_ok hall, Act.get_bind] at hd
      cases hfile : d.fs.isFile p with
      | false =>
        rw [if_pos hfile] at hd
        rw [executeTool_ok hd]
        refine iff_of_true (contained_answer _) fun b r w hlook => ?_
        rw [isFile_iff.2 ⟨b, r, w, hlook⟩] at hfile
        cases hfile
      | true =>
        obtain ⟨b, r, w, hlook⟩ := isFile_iff.1 hfile
        rw [if_neg (by rw [hfile]; decide)] at hd
        have hmeets : (∀ b' r' w', d.fs.look p =
            .ok (.file b' r' w') → ∀ old' new' all',
              Except.ok (ε := Exn) old = .ok old' →
              Except.ok (ε := Exn) new = .ok new' →
              getD toolInput "replace_all" (.bool false) =
                .ok all' → old'.same new' = true ∨ (r' = true ∧
                  EditMeets b' w' old' new' all')) ↔
            old.same new = true ∨
              (r = true ∧ EditMeets b w old new all) := by
          constructor
          · exact fun h => h b r w hlook old new all rfl rfl hall
          · intro h b' r' w' hlook' old' new' all' ho hn ha
            obtain rfl := Except.ok.inj ho
            obtain rfl := Except.ok.inj hn
            obtain rfl := Except.ok.inj (hall.symm.trans ha)
            rw [hlook] at hlook'
            injection hlook' with hlook'
            injection hlook' with hb hr hw
            rw [← hb, ← hr, ← hw]
            exact h
        refine Iff.trans ?_ hmeets.symm
        cases hsame : old.same new with
        | true =>
          rw [if_pos hsame] at hd
          rw [executeTool_ok hd]
          exact iff_of_true (contained_answer _) (Or.inl rfl)
        | false =>
          rw [if_neg (by rw [hsame]; decide)] at hd
          cases r with
          | false =>
            rw [readTextAt_error hlook] at hd
            refine iff_of_false (not_contained_os hd) ?_
            rintro (h | h)
            · cases h
            · cases h.1
          | true =>
            rw [readTextAt_ok hlook] at hd
            rw [contained_edit_read hin hlook hsame hd]
            constructor
            · exact fun h => Or.inr ⟨rfl, h⟩
            · rintro (h | h)
              · cases h
              · exact h.2

end EditFile

-- ==== list_files

section ListFiles

variable {d : Disk} {root : List Name} {toolInput : Value}

theorem dispatch_list : dispatch root (str "list_files") toolInput =
    executeListFiles root toolInput := by
  unfold dispatch
  rw [if_neg (by decide), if_neg (by decide),
    if_neg (by decide), if_pos rfl]

theorem isDir_iff {fs : FileSystem} {p : Loc} : fs.isDir p = true ↔
    ∃ r w x, fs.look p = .ok (.dir r w x) := by
  constructor
  · intro h
    cases hlook : fs.look p with
    | error e =>
      rw [FileSystem.isDir_of_error hlook] at h
      cases h
    | ok node =>
      rw [FileSystem.isDir_of_look hlook] at h
      cases node with
      | file b r w => cases h
      | dir r w x => exact ⟨r, w, x, rfl⟩
      | link a t => cases h
  · rintro ⟨r, w, x, hlook⟩
    rw [FileSystem.isDir_of_look hlook]
    rfl

/-- `list_files` keeps what it owes where it is given an object, and the
directory can be read. -/
theorem contained_list :
    Contained d (d.fs.realpath root)
        (executeTool root (str "list_files") toolInput d) ↔
      ListSafe d.fs root toolInput := by
  have hd : dispatch root (str "list_files") toolInput d =
      executeListFiles root toolInput d := congrFun dispatch_list d
  unfold executeListFiles at hd
  by_cases hobj : ∃ ms, toolInput = .obj ms
  · obtain ⟨path, hpath⟩ : ∃ path,
        getD toolInput "path" (.str (str ".")) = .ok path := by
      obtain ⟨ms, rfl⟩ := hobj
      exact ⟨_, rfl⟩
    rw [Act.lift_ok hpath] at hd
    cases hp : safeJoin d.fs root path with
    | error x =>
      rw [Act.ask_error hp] at hd
      refine iff_of_true (contained_caught (safeJoin_error hp) hd)
        ⟨hobj, fun path' p' hpath' hp' => ?_⟩
      obtain rfl := Except.ok.inj (hpath.symm.trans hpath')
      rw [hp] at hp'
      cases hp'
    | ok p =>
      rw [Act.ask_ok hp, Act.get_bind] at hd
      have hin := safeJoin_inside hp
      have hmeets : ListSafe d.fs root toolInput ↔ ∀ r w x,
          d.fs.look p = .ok (.dir r w x) → r = true := by
        constructor
        · exact fun h => h.2 path p hpath hp
        · refine fun h => ⟨hobj, fun path' p' hpath' hp' => ?_⟩
          obtain rfl := Except.ok.inj (hpath.symm.trans hpath')
          obtain rfl := Except.ok.inj (hp.symm.trans hp')
          exact h
      rw [hmeets]
      cases hdir : d.fs.isDir p with
      | false =>
        rw [if_pos hdir] at hd
        rw [executeTool_ok hd]
        refine iff_of_true (contained_answer _) fun r w x hlook => ?_
        rw [isDir_iff.2 ⟨r, w, x, hlook⟩] at hdir
        cases hdir
      | true =>
        obtain ⟨r, w, x, hlook⟩ := isDir_iff.1 hdir
        rw [if_neg (by rw [hdir]; decide)] at hd
        cases r with
        | false =>
          have hnames : d.iterdir p = (.error .access, d) := by
            unfold Disk.iterdir
            rw [hlook]
          rw [Act.system_error hnames] at hd
          refine iff_of_false (not_contained_os hd) fun h => ?_
          cases h false w x hlook
        | true =>
          obtain ⟨names, hnames⟩ : ∃ names,
              d.iterdir p = (.ok names, d.touch p) := by
            unfold Disk.iterdir
            rw [hlook]
            exact ⟨_, rfl⟩
          rw [Act.system_ok hnames, Act.get_bind] at hd
          rw [executeTool_ok hd]
          refine iff_of_true (contained_touch _ hin)
            fun r' w' x' h => ?_
          rw [hlook] at h
          injection h with h
          injection h with h
          exact h.symm
  · have hraise : getD toolInput "path" (.str (str ".")) =
        .error .attributeError := by
      unfold getD
      split
      · next ms => exact absurd ⟨ms, rfl⟩ hobj
      · rfl
    rw [Act.lift_error hraise] at hd
    rw [executeTool_error hd]
    exact iff_of_false not_contained fun h => hobj h.1

end ListFiles

-- ==== any tool

/-- A tool call keeps what it owes exactly where `Safe` says. -/
theorem tool_contained (d : Disk) (root : List Name) (name : Str)
    (toolInput : Value) :
    Contained d (d.fs.realpath root) (executeTool root name toolInput d) ↔
      Safe d.fs root name toolInput := by
  unfold Safe
  by_cases hread : name = str "read_file"
  · rw [if_pos hread, hread]
    exact contained_read
  · rw [if_neg hread]
    by_cases hwrite : name = str "write_file"
    · rw [if_pos hwrite, hwrite]
      exact contained_write
    · rw [if_neg hwrite]
      by_cases hedit : name = str "edit_file"
      · rw [if_pos hedit, hedit]
        exact contained_edit
      · rw [if_neg hedit]
        by_cases hlist : name = str "list_files"
        · rw [if_pos hlist, hlist]
          exact contained_list
        · rw [if_neg hlist]
          have hd : dispatch root name toolInput d =
              (.ok (.error (.unknownTool name)), d) := by
            unfold dispatch
            rw [if_neg hread, if_neg hwrite, if_neg hedit, if_neg hlist]
            rfl
          rw [executeTool_ok hd]
          exact iff_of_true (contained_answer _) trivial

/-- A file in the place of a directory ends the subtask. -/
theorem file_on_the_way : ¬ Contained (Sample.disk [97])
    ((Sample.disk [97]).fs.realpath [str "w"])
    (executeTool [str "w"] (str "write_file")
      (.obj [(str "path", .str (str "f/x")), (str "content", .str [])])
      (Sample.disk [97])) := by
  intro h
  obtain ⟨payload, hpayload⟩ := h.answers
  have hend : (executeTool [str "w"] (str "write_file")
      (.obj [(str "path", .str (str "f/x")), (str "content", .str [])])
      (Sample.disk [97])).1 = .error (.osError .exists) := by
    decide +kernel
  rw [hend] at hpayload
  cases hpayload

end SdlcOs.Backend.Tools
