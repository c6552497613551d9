/-
What `edit_file` does to the bytes of a file.

# The way of the bytes

The file is decoded with replacements and with universal newlines, the
text is edited, and the text is encoded. `Data.Utf8` compares what is
read with what was there, `Data.Substring` what is replaced with what is
counted.

# Where it is the edit it says

The bytes that come out are the bytes of the file with the occurrences
replaced exactly when the file is valid UTF-8 and has no carriage return:
replacing takes the same bytes out on both sides and puts the same in, so
nothing else may be lost or gained, and what reading changes can be told
from the numbers of carriage returns and of bytes below 0xF0
(`clean_of_counts`). Without `replace_all` the code counts occurrences
that do not overlap, so it takes "aa" in "aaa" for unique.

A new text with a lone surrogate cannot be encoded, which is found out
when the file has been opened for writing, and is empty.
-/
import SdlcOs.Backend.Tools
import SdlcOs.Proofs.Files.System

namespace SdlcOs.Backend.Tools

open Data Utf8 Files

-- ==== actions

namespace Act

variable {α β : Type} {m : Act α} {f : α → Act β} {d d' : Disk}

theorem bind_ok {a : α} (h : m d = (.ok a, d')) : (m >>= f) d = f a d' := by
  simp only [bind, h]

theorem bind_error {x : Exn} (h : m d = (.error x, d')) :
    (m >>= f) d = (.error x, d') := by
  simp only [bind, h]

theorem lift_ok {r : Except Exn α} {a : α} (h : r = .ok a) :
    (lift r >>= f) d = f a d :=
  bind_ok (congrArg (·, d) h)

theorem lift_error {r : Except Exn α} {x : Exn} (h : r = .error x) :
    (lift r >>= f) d = (.error x, d) :=
  bind_error (congrArg (·, d) h)

theorem ask_ok {g : FileSystem → Except Exn α} {a : α} (h : g d.fs = .ok a) :
    (ask g >>= f) d = f a d :=
  bind_ok (congrArg (·, d) h)

theorem ask_error {g : FileSystem → Except Exn α} {x : Exn}
    (h : g d.fs = .error x) : (ask g >>= f) d = (.error x, d) :=
  bind_error (congrArg (·, d) h)

theorem get_bind (g : FileSystem → α) : (get g >>= f) d = f (g d.fs) d :=
  ask_ok rfl

theorem system_ok {call : Disk → Except Errno α × Disk} {a : α}
    (h : call d = (.ok a, d')) : (system call >>= f) d = f a d' := by
  refine bind_ok ?_
  unfold system
  rw [h]

theorem system_error {call : Disk → Except Errno α × Disk} {e : Errno}
    (h : call d = (.error e, d')) :
    (system call >>= f) d = (.error (.osError e), d') := by
  refine bind_error ?_
  unfold system
  rw [h]

end Act

-- ==== texts

section Texts

variable {d : Disk} {p : Loc} {b : List UInt8} {r w : Bool} {α : Type}
variable {f : Str → Act α} {k : Unit → Act α}

theorem readTextAt_ok (h : d.fs.look p = .ok (.file b true w)) :
    (readTextAt p >>= f) d = f (readText b) (d.touch p) := by
  refine Act.bind_ok ?_
  unfold readTextAt
  refine Act.system_ok ?_
  unfold Disk.readBytes
  rw [h]

theorem readTextAt_error (h : d.fs.look p = .ok (.file b false w)) :
    (readTextAt p >>= f) d = (.error (.osError .access), d) := by
  refine Act.bind_error ?_
  unfold readTextAt
  refine Act.system_error ?_
  unfold Disk.readBytes
  rw [h]

theorem writeTextAt_ok {text : Str} {e : List UInt8}
    (h : d.fs.look p = .ok (.file b r true)) (he : encode text = some e) :
    (writeTextAt p (.str text) >>= k) d =
      k () ((d.put p (.file [] r true)).put p (.file e r true)) := by
  refine Act.bind_ok ?_
  have hopen : d.openForWriting p = (.ok (), d.put p (.file [] r true)) := by
    unfold Disk.openForWriting
    rw [h]
  refine (Act.system_ok hopen).trans ?_
  rw [he]
  show (Except.ok (), Disk.writeBytes _ p e) = _
  unfold Disk.writeBytes
  rw [show (d.put p (.file [] r true)).fs.look p = _ from
    FileSystem.look_put_file h]

theorem writeTextAt_surrogate {text : Str}
    (h : d.fs.look p = .ok (.file b r true)) (he : encode text = none) :
    (writeTextAt p (.str text) >>= k) d =
      (.error (.valueError .notEncodable), d.put p (.file [] r true)) := by
  refine Act.bind_error ?_
  have hopen : d.openForWriting p = (.ok (), d.put p (.file [] r true)) := by
    unfold Disk.openForWriting
    rw [h]
  refine (Act.system_ok hopen).trans ?_
  rw [he]
  rfl

theorem writeTextAt_readOnly {text : Str}
    (h : d.fs.look p = .ok (.file b r false)) :
    (writeTextAt p (.str text) >>= k) d = (.error (.osError .access), d) := by
  refine Act.bind_error (Act.system_error ?_)
  unfold Disk.openForWriting
  rw [h]

end Texts

-- ==== inputs

/-- A tool input that asks for an edit of the file at a location. -/
structure Asks (fs : FileSystem) (root : List Name) (toolInput : Value)
    (p : Loc) (old new : Str) (all : Bool) : Prop where
  path : ∃ path, item toolInput "path" = .ok path ∧
    safeJoin fs root path = .ok p
  old : item toolInput "old_str" = .ok (.str old)
  new : item toolInput "new_str" = .ok (.str new)
  all : ∃ v, getD toolInput "replace_all" (.bool false) = .ok v ∧
    v.truth = all

/-- The edit is turned down with the file as it is: the texts are the
same, or the old one is not in the file, or is counted more than once and
was not to be replaced everywhere. -/
def Refused (b : List UInt8) (old new : Str) (all : Bool) : Prop :=
  old = new ∨ count old 0 (readText b) = 0 ∨
    1 < count old 0 (readText b) ∧ all = false

/-- How an edit ends: with what is answered, and what the file holds. -/
inductive Edited (b : List UInt8) (r w : Bool) (old new : Str) (all : Bool) :
    Except Exn Payload → List UInt8 → Prop
  | raised {e : Errno} (h : r = false ∨ w = false) :
      Edited b r w old new all (.error (.osError e)) b
  | refused {m : Message} (h : Refused b old new all) :
      Edited b r w old new all (.ok (.error m)) b
  | emptied {m : Message} (hreach : ¬ Refused b old new all)
      (hr : r = true) (hw : w = true)
      (h : encode (replace old new (if all then none else some 1) 0
        (readText b)) = none) :
      Edited b r w old new all (.ok (.error m)) []
  | written {path : Str} {e : List UInt8} (hreach : ¬ Refused b old new all)
      (hr : r = true) (hw : w = true)
      (h : encode (replace old new (if all then none else some 1) 0
        (readText b)) = some e) :
      Edited b r w old new all
        (.ok (.edited path (if all then count old 0 (readText b) else 1))) e

section Edit

variable {d : Disk} {root : List Name} {toolInput : Value} {p : Loc}
variable {b : List UInt8} {r w all : Bool} {old new : Str}

theorem dispatch_edit : dispatch root (str "edit_file") toolInput =
    executeEditFile root toolInput := by
  unfold dispatch
  rw [if_neg (by decide), if_neg (by decide), if_pos rfl]

theorem executeTool_ok {name : Str} {a : Payload} {d' : Disk}
    (h : dispatch root name toolInput d = (.ok a, d')) :
    executeTool root name toolInput d = (.ok a, d') := by
  unfold executeTool
  rw [h]

theorem executeTool_error {name : Str} {x : Exn} {d' : Disk}
    (h : dispatch root name toolInput d = (.error x, d')) :
    executeTool root name toolInput d = (caught name x, d') := by
  unfold executeTool
  rw [h]

theorem executeEditFile_of (h : Asks d.fs root toolInput p old new all)
    (hfile : d.fs.look p = .ok (.file b r w)) :
    ∃ path, executeEditFile root toolInput d =
      (if old = new then pure (.error .identical)
      else do
        let content ← readTextAt p
        if count old 0 content = 0 then pure (.error .notFound)
        else if 1 < count old 0 content ∧ all = false then
          pure (.error (.notUnique (count old 0 content)))
        else do
          writeTextAt p (.str (replace old new
            (if all then none else some 1) 0 content))
          pure (.edited path (if all then count old 0 content else 1)) :
            Act Payload) d := by
  obtain ⟨⟨path, hpath, hp⟩, hold, hnew, v, hv, rfl⟩ := h
  have hisFile : d.fs.isFile p = true := by
    unfold FileSystem.isFile
    rw [hfile]
  refine ⟨shown path, ?_⟩
  unfold executeEditFile
  rw [Act.lift_ok hpath, Act.ask_ok hp, Act.lift_ok hold, Act.lift_ok hnew,
    Act.lift_ok hv, Act.get_bind, if_neg (by rw [hisFile]; decide)]
  by_cases hsame : old = new
  · rw [if_pos hsame, if_pos]
    exact decide_eq_true hsame
  · rw [if_neg hsame, if_neg]
    · rfl
    · intro h
      exact hsame (of_decide_eq_true h)

theorem edited_of_asks
    (h : Asks d.fs root toolInput p old new all)
    (hfile : d.fs.look p = .ok (.file b r w)) :
    ∃ end' b', (executeTool root (str "edit_file") toolInput d).1 = end' ∧
      (executeTool root (str "edit_file") toolInput d).2.fs.content p =
        some b' ∧ Edited b r w old new all end' b' := by
  obtain ⟨path, hedit⟩ := executeEditFile_of h hfile
  rw [← dispatch_edit] at hedit
  have hcontent := FileSystem.content_of_look hfile
  have htouch : (d.touch p).fs.look p = .ok (.file b r w) := hfile
  by_cases hsame : old = new
  · rw [if_pos hsame] at hedit
    rw [executeTool_ok hedit]
    exact ⟨_, b, rfl, hcontent, .refused (Or.inl hsame)⟩
  · rw [if_neg hsame] at hedit
    cases r with
    | false =>
      rw [readTextAt_error hfile] at hedit
      rw [executeTool_error hedit]
      exact ⟨_, b, rfl, hcontent, .raised (Or.inl rfl)⟩
    | true =>
      rw [readTextAt_ok hfile] at hedit
      by_cases hnone : count old 0 (readText b) = 0
      · rw [if_pos hnone] at hedit
        rw [executeTool_ok hedit]
        exact ⟨_, b, rfl, hcontent, .refused (Or.inr (Or.inl hnone))⟩
      · rw [if_neg hnone] at hedit
        by_cases hmany : 1 < count old 0 (readText b) ∧ all = false
        · rw [if_pos hmany] at hedit
          rw [executeTool_ok hedit]
          exact ⟨_, b, rfl, hcontent, .refused (Or.inr (Or.inr hmany))⟩
        · rw [if_neg hmany] at hedit
          have hreach : ¬ Refused b old new all := fun h =>
            h.elim hsame fun h => h.elim hnone hmany
          cases w with
          | false =>
            rw [writeTextAt_readOnly htouch] at hedit
            rw [executeTool_error hedit]
            exact ⟨_, b, rfl, hcontent, .raised (Or.inr rfl)⟩
          | true =>
            have hput : (d.fs.put p (.file [] true true)).look p =
                .ok (.file [] true true) :=
              FileSystem.look_put_file htouch
            cases hencode : encode (replace old new
                (if all then none else some 1) 0 (readText b)) with
            | none =>
              rw [writeTextAt_surrogate htouch hencode] at hedit
              rw [executeTool_error hedit]
              exact ⟨_, [], rfl, FileSystem.content_of_look hput,
                .emptied hreach rfl rfl hencode⟩
            | some e =>
              rw [writeTextAt_ok htouch hencode] at hedit
              rw [executeTool_ok hedit]
              exact ⟨_, e, rfl, FileSystem.content_of_look
                (FileSystem.look_put_file hput),
                .written hreach rfl rfl hencode⟩

-- ==== the edit

/-- What is answered is what was done: with success, the file's bytes with
as many occurrences replaced as reported, and without `replace_all` the
only one; with an error, nothing. -/
def TouchesOnly (b b' : List UInt8) (old new : Str) (all : Bool) :
    Except Exn Payload → Prop
  | .ok (.edited _ n) => ∃ e e', encode old = some e ∧
      encode new = some e' ∧ Replaces e e' n b b' ∧
      (all = false → occurrences e b = 1)
  | .ok (.error _) => b' = b
  | _ => True

/-- The file is read and written as it is, the new text can be encoded,
and an occurrence that was not to be replaced with others has none that
overlaps it; or the file is empty, and is left so. -/
def Faithful (b : List UInt8) (old new : Str) (all : Bool) : Prop :=
  if (encode new).isSome then
    Clean b ∧ (all = false → occurrences old (readText b) = 1)
  else b = []

theorem encode_old (h : ¬ Refused b old new all) :
    ∃ e, encode old = some e := by
  obtain ⟨t, ht⟩ := readText_encodes b
  have hall := encode_isSome.1 (Option.isSome_iff_exists.2 ⟨t, ht⟩)
  refine Option.isSome_iff_exists.1 (encode_isSome.2 fun c hc => hall c ?_)
  exact mem_of_count hc fun hzero => h (Or.inr (Or.inl hzero))

theorem replaces_reported (h : ¬ Refused b old new all) :
    ∃ n, (if all then count old 0 (readText b) else 1) = n + 1 ∧
      Replaces old new (n + 1) (readText b) (replace old new
        (if all then none else some 1) 0 (readText b)) := by
  have hne : count old 0 (readText b) ≠ 0 :=
    fun hzero => h (Or.inr (Or.inl hzero))
  have hrep := replaces_replace old new (if all then none else some 1) 0
    (readText b) (Or.inr rfl)
  rw [List.drop_zero] at hrep
  cases all with
  | false =>
    refine ⟨0, rfl, ?_⟩
    rw [show within (if false = true then none else some 1)
      (count old 0 (readText b)) = 0 + 1 from
        Nat.min_eq_left (Nat.one_le_iff_ne_zero.2 hne)] at hrep
    exact hrep
  | true =>
    obtain ⟨n, hn⟩ := Nat.exists_eq_succ_of_ne_zero hne
    refine ⟨n, hn, ?_⟩
    rw [show within (if true = true then none else some 1)
      (count old 0 (readText b)) = n + 1 from hn] at hrep
    exact hrep

theorem encode_replaced (h : ¬ Refused b old new all) :
    (encode (replace old new (if all then none else some 1) 0
      (readText b))).isSome = (encode new).isSome := by
  obtain ⟨n, _, hrep⟩ := replaces_reported h
  obtain ⟨t, ht⟩ := readText_encodes b
  have hall := encode_isSome.1 (Option.isSome_iff_exists.2 ⟨t, ht⟩)
  rw [Bool.eq_iff_iff, encode_isSome, encode_isSome]
  constructor
  · intro hnew c hc
    exact hnew c (hrep.subset hc)
  · intro hnew c hc
    exact (hrep.mem hc).elim (hall c) (hnew c)

theorem occurrences_once {e : List UInt8} (hclean : Clean b)
    (he : encode old = some e) :
    occurrences e b = 1 ↔ occurrences old (readText b) = 1 := by
  have hread := encode_readText hclean
  by_cases hnil : old = []
  · subst hnil
    obtain rfl := Option.some.inj he
    rw [occurrences_nil, occurrences_nil]
    constructor
    · intro h
      obtain rfl : b = [] := List.length_eq_zero_iff.1 (by omega)
      rfl
    · intro h
      have ht : readText b = [] := List.length_eq_zero_iff.1 (by omega)
      rw [ht] at hread
      obtain rfl := Option.some.inj hread
      rfl
  · rw [occurrences_encode hnil he hread]

/-- Where an edit is written, it is the edit it says exactly when the file
is read and written as it is. -/
theorem touchesOnly_written {path : Str} {t : List UInt8}
    (hreach : ¬ Refused b old new all)
    (ht : encode (replace old new (if all then none else some 1) 0
      (readText b)) = some t) :
    TouchesOnly b t old new all (.ok (.edited path
        (if all then count old 0 (readText b) else 1))) ↔
      Faithful b old new all := by
  obtain ⟨e, he⟩ := encode_old hreach
  have hsome := encode_replaced hreach
  rw [ht] at hsome
  obtain ⟨e', he'⟩ := Option.isSome_iff_exists.1 hsome.symm
  obtain ⟨n, hn, hrep⟩ := replaces_reported hreach
  obtain ⟨bt, hbt⟩ := readText_encodes b
  have hbytes := replaces_encode he he' hrep hbt ht
  have hnew : (encode new).isSome = true := hsome.symm
  unfold Faithful
  rw [if_pos hnew, hn]
  show (∃ e e', encode old = some e ∧ encode new = some e' ∧
    Replaces e e' (n + 1) b t ∧ (all = false → occurrences e b = 1)) ↔ _
  constructor
  · rintro ⟨e₁, e₁', he₁, he₁', hreplaces, honce⟩
    obtain rfl := Option.some.inj (he.symm.trans he₁)
    obtain rfl := Option.some.inj (he'.symm.trans he₁')
    -- the same bytes went and came on both sides
    have hcount : ∀ q : UInt8 → Bool, bt.countP q = b.countP q := by
      intro q
      have h₁ := hreplaces.countP q
      have h₂ := hbytes.countP q
      omega
    have hclean := clean_of_counts hbt (hcount _) (hcount _)
    exact ⟨hclean, fun hall =>
      (occurrences_once hclean he).1 (honce hall)⟩
  · rintro ⟨hclean, honce⟩
    rw [encode_readText hclean] at hbt
    obtain rfl := Option.some.inj hbt
    exact ⟨e, e', he, he', hbytes, fun hall =>
      (occurrences_once hclean he).2 (honce hall)⟩

/-- The answer of `edit_file` is what was done to the file's bytes exactly
when the edit does not come to be written, or the file is read and
written as it is. -/
theorem edit_touches_only (h : Asks d.fs root toolInput p old new all)
    (hfile : d.fs.look p = .ok (.file b r w)) :
    (∃ b', (executeTool root (str "edit_file") toolInput d).2.fs.content p =
        some b' ∧
      TouchesOnly b b' old new all
        (executeTool root (str "edit_file") toolInput d).1) ↔
      r = false ∨ w = false ∨ Refused b old new all ∨
        Faithful b old new all := by
  obtain ⟨end', b', hend, hcontent, hedited⟩ := edited_of_asks h hfile
  rw [hend, hcontent]
  have hb' : (∃ b'', some b' = some b'' ∧
      TouchesOnly b b'' old new all end') ↔
        TouchesOnly b b' old new all end' := by
    constructor
    · rintro ⟨_, hb'', htouches⟩
      rw [Option.some.inj hb'']
      exact htouches
    · exact fun htouches => ⟨b', rfl, htouches⟩
  rw [hb']
  cases hedited with
  | raised hrw =>
    refine iff_of_true trivial ?_
    rcases hrw with hr | hw
    · exact Or.inl hr
    · exact Or.inr (Or.inl hw)
  | refused href => exact iff_of_true rfl (Or.inr (Or.inr (Or.inl href)))
  | emptied hreach hr hw hnone =>
    have hsome := encode_replaced hreach
    rw [hnone] at hsome
    have hfaithful : Faithful b old new all ↔ b = [] := by
      unfold Faithful
      rw [if_neg (by rw [← hsome]; decide)]
    rw [hr, hw, hfaithful]
    show [] = b ↔ _
    constructor
    · exact fun h => Or.inr (Or.inr (Or.inr h.symm))
    · rintro (h | h | h | h)
      · cases h
      · cases h
      · exact absurd h hreach
      · exact h.symm
  | written hreach hr hw hsome =>
    rw [touchesOnly_written hreach hsome, hr, hw]
    constructor
    · exact fun h => Or.inr (Or.inr (Or.inr h))
    · rintro (h | h | h | h)
      · cases h
      · cases h
      · exact absurd h hreach
      · exact h

end Edit

namespace Sample

/-- A workspace with one file. -/
def disk (content : List UInt8) : Disk :=
  ⟨(FileSystem.bare.put [str "w"] (.dir true true true)).put
    [str "f", str "w"] (.file content true true), []⟩

/-- An edit of it. -/
def edit (old new : Str) : Value :=
  .obj [(str "path", .str (str "f")), (str "old_str", .str old),
    (str "new_str", .str new)]

theorem asks_edit (content : List UInt8) (old new : Str)
    (h : safeJoin (disk content).fs [str "w"] (.str (str "f")) =
      .ok [str "f", str "w"]) :
    Asks (disk content).fs [str "w"] (edit old new) [str "f", str "w"]
      old new false := by
  have hpath : item (edit old new) "path" = .ok (.str (str "f")) := by
    unfold item edit
    dsimp only
    rw [Value.find, if_pos rfl]
  have hold : item (edit old new) "old_str" = .ok (.str old) := by
    unfold item edit
    dsimp only
    rw [Value.find, if_neg (by decide), Value.find, if_pos rfl]
  have hnew : item (edit old new) "new_str" = .ok (.str new) := by
    unfold item edit
    dsimp only
    rw [Value.find, if_neg (by decide), Value.find,
      if_neg (show str "old_str" ≠ str "new_str" by decide),
      Value.find, if_pos rfl]
  have hall : getD (edit old new) "replace_all" (.bool false) =
      .ok (.bool false) := by
    unfold getD edit
    dsimp only
    rw [Value.find, if_neg (by decide), Value.find,
      if_neg (show str "old_str" ≠ str "replace_all" by decide),
      Value.find,
      if_neg (show str "new_str" ≠ str "replace_all" by decide)]
    rfl
  exact ⟨⟨_, hpath, h⟩, hold, hnew, _, hall, rfl⟩

end Sample

/-- "ab" becomes "ac". -/
theorem edit_touches_only_plain :
    ∃ b', (executeTool [str "w"] (str "edit_file")
        (Sample.edit (str "b") (str "c")) (Sample.disk [97, 98])).2.fs.content
          [str "f", str "w"] = some b' ∧
      TouchesOnly [97, 98] b' (str "b") (str "c") false
        (executeTool [str "w"] (str "edit_file")
          (Sample.edit (str "b") (str "c")) (Sample.disk [97, 98])).1 := by
  refine (edit_touches_only (r := true) (w := true) (Sample.asks_edit _ _ _
    (by decide +kernel)) (by decide +kernel)).2 (Or.inr (Or.inr (Or.inr ?_)))
  have hfaithful : (encode (str "c")).isSome = true := by decide +kernel
  unfold Faithful
  rw [if_pos hfaithful]
  exact ⟨⟨⟨[point 97, point 98], by decide +kernel⟩, by decide +kernel⟩,
    fun _ => by decide +kernel⟩

/-- The carriage return of another line goes with an edit. -/
theorem return_lost :
    ¬ ∃ b', (executeTool [str "w"] (str "edit_file")
        (Sample.edit (str "b") (str "c"))
        (Sample.disk [97, 13, 10, 98])).2.fs.content [str "f", str "w"] =
          some b' ∧
      TouchesOnly [97, 13, 10, 98] b' (str "b") (str "c") false
        (executeTool [str "w"] (str "edit_file")
          (Sample.edit (str "b") (str "c"))
          (Sample.disk [97, 13, 10, 98])).1 := by
  rintro ⟨b', hcontent, htouches⟩
  have hend : (executeTool [str "w"] (str "edit_file")
      (Sample.edit (str "b") (str "c")) (Sample.disk [97, 13, 10, 98])).1 =
        .ok (.edited (str "f") 1) := by decide +kernel
  have hleft : (executeTool [str "w"] (str "edit_file")
      (Sample.edit (str "b") (str "c"))
      (Sample.disk [97, 13, 10, 98])).2.fs.content [str "f", str "w"] =
        some [97, 10, 99] := by decide +kernel
  rw [hend] at htouches
  rw [hleft] at hcontent
  obtain ⟨e, e', he, he', hreplaces, _⟩ := htouches
  obtain rfl := Option.some.inj hcontent
  obtain rfl := Option.some.inj
    (he.symm.trans (show encode (str "b") = some [98] by decide +kernel))
  obtain rfl := Option.some.inj
    (he'.symm.trans (show encode (str "c") = some [99] by decide +kernel))
  have hcount := hreplaces.countP (ascii 13)
  revert hcount
  decide

end SdlcOs.Backend.Tools
