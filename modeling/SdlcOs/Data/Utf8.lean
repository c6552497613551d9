/-
Texts as code points, and as bytes in UTF-8.

# Code points

A text is a list of code points, lone surrogates among them: these have
no encoding, and what is encoded has none of them.

# Decoding

`decode` reads one byte at a time and never fails. A character that is
begun and not finished, up to the first byte that cannot go on with it,
comes out as one U+FFFD, and so does a byte that can begin none. Valid
bytes are decoded to what they encode (`decode_encode`). Of the others
there is always less than of what comes out, if the bytes from 0xF0 on
are left out (`Decoded`), so nothing invalid decodes to something that
is encoded to as many such bytes.
-/
import SdlcOs.Data.Substring

namespace SdlcOs.Data.Utf8

-- ==== code points

/-- A code point, surrogate or not. -/
abbrev CodePoint : Type := Fin 0x110000

/-- U+FFFD. -/
def replacement : CodePoint := ⟨0xFFFD, by decide⟩

/-- The bytes of a code point. -/
def utf8 (c : CodePoint) : Option (List UInt8) :=
  if c.val < 0x80 then some [.ofNat c.val]
  else if c.val < 0x800 then
    some [.ofNat (0xC0 + c.val / 64), .ofNat (0x80 + c.val % 64)]
  else if 0xD800 ≤ c.val ∧ c.val < 0xE000 then none
  else if c.val < 0x10000 then
    some [.ofNat (0xE0 + c.val / 4096), .ofNat (0x80 + c.val / 64 % 64),
      .ofNat (0x80 + c.val % 64)]
  else
    some [.ofNat (0xF0 + c.val / 262144), .ofNat (0x80 + c.val / 4096 % 64),
      .ofNat (0x80 + c.val / 64 % 64), .ofNat (0x80 + c.val % 64)]

/-- `s.encode()`, unless a lone surrogate is in the way. -/
def encode : List CodePoint → Option (List UInt8)
  | [] => some []
  | c :: cs => do
    let b ← utf8 c
    let bs ← encode cs
    some (b ++ bs)

/-- A character that is begun: how many bytes it wants after the next,
the range of the next, and its bits so far. -/
structure Partial where
  owed : Nat
  low : Nat
  high : Nat
  value : Nat

/-- The code point of a value. -/
def point (n : Nat) : CodePoint := Fin.ofNat 0x110000 n

/-- A byte between characters: what comes out, and what is begun. -/
def fresh (b : Nat) : List CodePoint × Option Partial :=
  if b < 0x80 then ([point b], none)
  else if 0xC2 ≤ b ∧ b < 0xE0 then ([], some ⟨0, 0x80, 0xBF, b - 0xC0⟩)
  else if 0xE0 ≤ b ∧ b < 0xF0 then
    -- not an overlong form, and not a surrogate
    ([], some ⟨1, if b = 0xE0 then 0xA0 else 0x80,
      if b = 0xED then 0x9F else 0xBF, b - 0xE0⟩)
  else if 0xF0 ≤ b ∧ b < 0xF5 then
    -- not an overlong form, and not above the last code point
    ([], some ⟨2, if b = 0xF0 then 0x90 else 0x80,
      if b = 0xF4 then 0x8F else 0xBF, b - 0xF0⟩)
  else ([replacement], none)

/-- One byte. -/
def step : Option Partial → Nat → List CodePoint × Option Partial
  | none, b => fresh b
  | some p, b =>
    if p.low ≤ b ∧ b ≤ p.high then
      match p.owed with
      | 0 => ([point (p.value * 64 + (b - 0x80))], none)
      | owed + 1 =>
        ([], some ⟨owed, 0x80, 0xBF, p.value * 64 + (b - 0x80)⟩)
    else (replacement :: (fresh b).1, (fresh b).2)

/-- What comes out of bytes from a state on. -/
def decodeFrom : Option Partial → List UInt8 → List CodePoint
  | none, [] => []
  | some _, [] => [replacement]
  | q, b :: bs => (step q b.toNat).1 ++ decodeFrom (step q b.toNat).2 bs

/-- `b.decode(errors="replace")`. -/
def decode (bs : List UInt8) : List CodePoint := decodeFrom none bs

/-- Bytes that encode a text. -/
def Valid (bs : List UInt8) : Prop := ∃ t, encode t = some bs

-- ==== encoding

theorem encode_append {s t : List CodePoint} {bs bs' : List UInt8}
    (hs : encode s = some bs) (ht : encode t = some bs') :
    encode (s ++ t) = some (bs ++ bs') := by
  induction s generalizing bs with
  | nil =>
    obtain rfl := Option.some.inj hs
    exact ht
  | cons c cs ih =>
    rw [encode, Option.bind_eq_bind, Option.bind_eq_some_iff] at hs
    obtain ⟨b, hb, hs⟩ := hs
    rw [Option.bind_eq_some_iff] at hs
    obtain ⟨rest, hrest, hs⟩ := hs
    obtain rfl := Option.some.inj hs
    rw [List.cons_append, encode, hb, ih hrest]
    show some (b ++ (rest ++ bs')) = _
    rw [List.append_assoc]

theorem encode_isSome {t : List CodePoint} :
    (encode t).isSome ↔ ∀ c ∈ t, (utf8 c).isSome := by
  induction t with
  | nil => simp [encode]
  | cons c cs ih =>
    rw [List.forall_mem_cons, ← ih, encode]
    cases hc : utf8 c with
    | none => simp
    | some b =>
      cases hcs : encode cs with
      | none => simp
      | some bs => simp

theorem toNat_byte {n : Nat} (h : n < 256) : (UInt8.ofNat n).toNat = n :=
  UInt8.toNat_ofNat_of_lt' h

/-- The bytes of a code point: one below 0x80, or one that is no
continuation and continuations. -/
theorem utf8_shape {c : CodePoint} {b : List UInt8} (h : utf8 c = some b) :
    (c.val < 0x80 ∧ b = [.ofNat c.val]) ∨
    (0x80 ≤ c.val ∧ ∃ b₀ bs, b = b₀ :: bs ∧ 0xC0 ≤ b₀.toNat ∧
      ∀ b' ∈ bs, 0x80 ≤ b'.toNat ∧ b'.toNat < 0xC0) := by
  have hc := c.isLt
  unfold utf8 at h
  split at h
  · next h1 => exact Or.inl ⟨h1, (Option.some.inj h).symm⟩
  · next h1 =>
    right
    refine ⟨by omega, ?_⟩
    split at h
    · next h2 =>
      refine ⟨_, _, (Option.some.inj h).symm, ?_, ?_⟩
      · rw [toNat_byte (by omega)]
        omega
      · intro b' hb'
        rw [List.mem_singleton] at hb'
        rw [hb', toNat_byte (by omega)]
        omega
    · split at h
      · cases h
      · split at h
        · next h2 h3 h4 =>
          refine ⟨_, _, (Option.some.inj h).symm, ?_, ?_⟩
          · rw [toNat_byte (by omega)]
            omega
          · intro b' hb'
            simp only [List.mem_cons, List.not_mem_nil, or_false] at hb'
            rcases hb' with rfl | rfl
            · rw [toNat_byte (by omega)]
              omega
            · rw [toNat_byte (by omega)]
              omega
        · refine ⟨_, _, (Option.some.inj h).symm, ?_, ?_⟩
          · rw [toNat_byte (by omega)]
            omega
          · intro b' hb'
            simp only [List.mem_cons, List.not_mem_nil, or_false] at hb'
            rcases hb' with rfl | rfl | rfl
            · rw [toNat_byte (by omega)]
              omega
            · rw [toNat_byte (by omega)]
              omega
            · rw [toNat_byte (by omega)]
              omega

-- ==== decoding

theorem decodeFrom_cons (q : Option Partial) (b : UInt8) (bs : List UInt8) :
    decodeFrom q (b :: bs) =
      (step q b.toNat).1 ++ decodeFrom (step q b.toNat).2 bs := by
  cases q <;> rfl

theorem point_val (c : CodePoint) : point c.val = c :=
  Fin.ofNat_val_eq_self c

theorem val_point {n : Nat} (h : n < 0x110000) : (point n).val = n :=
  Nat.mod_eq_of_lt h

section Steps

variable {b : Nat}

theorem fresh_one (h : b < 0x80) : fresh b = ([point b], none) := if_pos h

theorem fresh_two (h : 0xC2 ≤ b ∧ b < 0xE0) :
    fresh b = ([], some ⟨0, 0x80, 0xBF, b - 0xC0⟩) := by
  unfold fresh
  rw [if_neg (by omega), if_pos h]

theorem fresh_three (h : 0xE0 ≤ b ∧ b < 0xF0) :
    fresh b = ([], some ⟨1, if b = 0xE0 then 0xA0 else 0x80,
      if b = 0xED then 0x9F else 0xBF, b - 0xE0⟩) := by
  unfold fresh
  rw [if_neg (by omega), if_neg (by omega), if_pos h]

theorem fresh_four (h : 0xF0 ≤ b ∧ b < 0xF5) :
    fresh b = ([], some ⟨2, if b = 0xF0 then 0x90 else 0x80,
      if b = 0xF4 then 0x8F else 0xBF, b - 0xF0⟩) := by
  unfold fresh
  rw [if_neg (by omega), if_neg (by omega), if_neg (by omega), if_pos h]

theorem fresh_bad (h : 0x80 ≤ b ∧ b < 0xC2 ∨ 0xF5 ≤ b) :
    fresh b = ([replacement], none) := by
  unfold fresh
  rw [if_neg (by omega), if_neg (by omega), if_neg (by omega),
    if_neg (by omega)]

theorem step_last {low high value : Nat} (h : low ≤ b ∧ b ≤ high) :
    step (some ⟨0, low, high, value⟩) b =
      ([point (value * 64 + (b - 0x80))], none) :=
  if_pos h

theorem step_more {owed low high value : Nat} (h : low ≤ b ∧ b ≤ high) :
    step (some ⟨owed + 1, low, high, value⟩) b =
      ([], some ⟨owed, 0x80, 0xBF, value * 64 + (b - 0x80)⟩) :=
  if_pos h

theorem step_bad {p : Partial} (h : ¬ (p.low ≤ b ∧ b ≤ p.high)) :
    step (some p) b = (replacement :: (fresh b).1, (fresh b).2) :=
  if_neg h

end Steps

/-- An encoded code point decodes to itself, whatever follows. -/
theorem decodeFrom_utf8 {c : CodePoint} {b : List UInt8}
    (h : utf8 c = some b) (bs : List UInt8) :
    decodeFrom none (b ++ bs) = c :: decodeFrom none bs := by
  have hc := c.isLt
  unfold utf8 at h
  split at h
  · next h1 =>
    obtain rfl := Option.some.inj h
    rw [List.singleton_append, decodeFrom_cons, toNat_byte (by omega)]
    show (fresh c.val).1 ++ decodeFrom (fresh c.val).2 bs = _
    rw [fresh_one h1, point_val]
    rfl
  · next h1 =>
    split at h
    · next h2 =>
      obtain rfl := Option.some.inj h
      rw [List.cons_append, List.singleton_append, decodeFrom_cons,
        toNat_byte (by omega)]
      show (fresh _).1 ++ decodeFrom (fresh _).2 _ = _
      rw [fresh_two (by omega), decodeFrom_cons, toNat_byte (by omega), step_last (by omega)]
      rw [show (0xC0 + c.val / 64 - 0xC0) * 64 + (0x80 + c.val % 64 - 0x80) =
        c.val from by omega, point_val]
      rfl
    · next h2 =>
      split at h
      · cases h
      · next h3 =>
        split at h
        · next h4 =>
          obtain rfl := Option.some.inj h
          rw [List.cons_append, List.cons_append, List.singleton_append,
            decodeFrom_cons, toNat_byte (by omega)]
          show (fresh _).1 ++ decodeFrom (fresh _).2 _ = _
          rw [fresh_three (by omega), decodeFrom_cons, toNat_byte (by omega), step_more (by
              constructor
              · split
                · omega
                · omega
              · split
                · omega
                · omega), decodeFrom_cons, toNat_byte (by omega), step_last (by omega)]
          rw [show ((0xE0 + c.val / 4096 - 0xE0) * 64 +
              (0x80 + c.val / 64 % 64 - 0x80)) * 64 +
              (0x80 + c.val % 64 - 0x80) = c.val from by omega, point_val]
          rfl
        · next h4 =>
          obtain rfl := Option.some.inj h
          rw [List.cons_append, List.cons_append, List.cons_append,
            List.singleton_append, decodeFrom_cons, toNat_byte (by omega)]
          show (fresh _).1 ++ decodeFrom (fresh _).2 _ = _
          rw [fresh_four (by omega), decodeFrom_cons, toNat_byte (by omega), step_more (by
              constructor
              · split
                · omega
                · omega
              · split
                · omega
                · omega), decodeFrom_cons, toNat_byte (by omega), step_more (by omega),
            decodeFrom_cons, toNat_byte (by omega), step_last (by omega)]
          rw [show (((0xF0 + c.val / 262144 - 0xF0) * 64 +
              (0x80 + c.val / 4096 % 64 - 0x80)) * 64 +
              (0x80 + c.val / 64 % 64 - 0x80)) * 64 +
              (0x80 + c.val % 64 - 0x80) = c.val from by omega, point_val]
          rfl

theorem decodeFrom_encode {t : List CodePoint} {b : List UInt8}
    (h : encode t = some b) (bs : List UInt8) :
    decodeFrom none (b ++ bs) = t ++ decodeFrom none bs := by
  induction t generalizing b with
  | nil =>
    obtain rfl := Option.some.inj h
    rfl
  | cons c cs ih =>
    rw [encode, Option.bind_eq_bind, Option.bind_eq_some_iff] at h
    obtain ⟨b₀, hb, h⟩ := h
    rw [Option.bind_eq_some_iff] at h
    obtain ⟨rest, hrest, h⟩ := h
    obtain rfl := Option.some.inj h
    rw [List.append_assoc, decodeFrom_utf8 hb, ih hrest]
    rfl

theorem decode_encode {t : List CodePoint} {b : List UInt8}
    (h : encode t = some b) : decode b = t := by
  have hd := decodeFrom_encode h []
  rw [List.append_nil, show decodeFrom none [] = [] from rfl,
    List.append_nil] at hd
  exact hd

-- ==== what comes out

/-- A byte below 0xF0. -/
def narrow (b : UInt8) : Bool := b.toNat < 0xF0

/-- The byte of an ASCII character. -/
def ascii (a : Nat) (b : UInt8) : Bool := b.toNat = a

/-- Bytes of a character that may yet turn out to be none. -/
structure Short (pre : List UInt8) : Prop where
  narrow : pre.countP narrow < 3
  high : ∀ b ∈ pre, 0x80 ≤ b.toNat

/-- The bytes of a character that is begun, which bytes in range would
finish. -/
def Begun (pre : List UInt8) : Nat → Nat → Nat → Nat → Prop
  | 0, low, high, value => Short pre ∧
      ∀ b : UInt8, low ≤ b.toNat ∧ b.toNat ≤ high →
        utf8 (point (value * 64 + (b.toNat - 0x80))) = some (pre ++ [b])
  | owed + 1, low, high, value => Short pre ∧
      ∀ b : UInt8, low ≤ b.toNat ∧ b.toNat ≤ high →
        Begun (pre ++ [b]) owed 0x80 0xBF (value * 64 + (b.toNat - 0x80))

/-- The bytes a state has taken in. -/
def Holds : Option Partial → List UInt8 → Prop
  | none, pre => pre = []
  | some p, pre => Begun pre p.owed p.low p.high p.value

/-- How the encoding of what comes out compares with the bytes: it is the
bytes, or has more that are below 0xF0; of an ASCII character it has as
many. -/
structure Decoded (t : List CodePoint) (bs : List UInt8) : Prop where
  ex : ∃ e, encode t = some e ∧
    (e = bs ∨ bs.countP narrow < e.countP narrow) ∧
    ∀ a, a < 0x80 → e.countP (ascii a) = bs.countP (ascii a)

theorem ofNat_eq {n : Nat} {b : UInt8} (h : n = b.toNat) :
    UInt8.ofNat n = b := by
  rw [h, UInt8.ofNat_toNat]

theorem utf8_one {b : UInt8} (h : b.toNat < 0x80) :
    utf8 (point b.toNat) = some [b] := by
  have hv : (point b.toNat).val = b.toNat := val_point (by omega)
  unfold utf8
  rw [hv, if_pos h, UInt8.ofNat_toNat]

theorem utf8_two {b c : UInt8} (hb : 0xC2 ≤ b.toNat ∧ b.toNat < 0xE0)
    (hc : 0x80 ≤ c.toNat ∧ c.toNat ≤ 0xBF) :
    utf8 (point ((b.toNat - 0xC0) * 64 + (c.toNat - 0x80))) =
      some [b, c] := by
  have hv := val_point
    (n := (b.toNat - 0xC0) * 64 + (c.toNat - 0x80)) (by omega)
  unfold utf8
  rw [hv, if_neg (by omega), if_pos (by omega), ofNat_eq (b := b) (by omega),
    ofNat_eq (b := c) (by omega)]

theorem utf8_three {b c d : UInt8} (hb : 0xE0 ≤ b.toNat ∧ b.toNat < 0xF0)
    (hc : (if b.toNat = 0xE0 then 0xA0 else 0x80) ≤ c.toNat ∧
      c.toNat ≤ if b.toNat = 0xED then 0x9F else 0xBF)
    (hd : 0x80 ≤ d.toNat ∧ d.toNat ≤ 0xBF) :
    utf8 (point (((b.toNat - 0xE0) * 64 + (c.toNat - 0x80)) * 64 +
      (d.toNat - 0x80))) = some [b, c, d] := by
  have hrange : 0x80 ≤ c.toNat ∧ c.toNat ≤ 0xBF ∧
      (b.toNat = 0xE0 → 0xA0 ≤ c.toNat) ∧
        (b.toNat = 0xED → c.toNat ≤ 0x9F) := by
    obtain ⟨hlow, hhigh⟩ := hc
    split at hlow
    · split at hhigh
      · omega
      · omega
    · split at hhigh
      · omega
      · omega
  have hv := val_point (n := ((b.toNat - 0xE0) * 64 + (c.toNat - 0x80)) * 64 +
    (d.toNat - 0x80)) (by omega)
  unfold utf8
  rw [hv, if_neg (by omega), if_neg (by omega), if_neg (by omega),
    if_pos (by omega), ofNat_eq (b := b) (by omega),
    ofNat_eq (b := c) (by omega), ofNat_eq (b := d) (by omega)]

theorem utf8_four {b c d e : UInt8} (hb : 0xF0 ≤ b.toNat ∧ b.toNat < 0xF5)
    (hc : (if b.toNat = 0xF0 then 0x90 else 0x80) ≤ c.toNat ∧
      c.toNat ≤ if b.toNat = 0xF4 then 0x8F else 0xBF)
    (hd : 0x80 ≤ d.toNat ∧ d.toNat ≤ 0xBF)
    (he : 0x80 ≤ e.toNat ∧ e.toNat ≤ 0xBF) :
    utf8 (point ((((b.toNat - 0xF0) * 64 + (c.toNat - 0x80)) * 64 +
      (d.toNat - 0x80)) * 64 + (e.toNat - 0x80))) = some [b, c, d, e] := by
  have hrange : 0x80 ≤ c.toNat ∧ c.toNat ≤ 0xBF ∧
      (b.toNat = 0xF0 → 0x90 ≤ c.toNat) ∧
        (b.toNat = 0xF4 → c.toNat ≤ 0x8F) := by
    obtain ⟨hlow, hhigh⟩ := hc
    split at hlow
    · split at hhigh
      · omega
      · omega
    · split at hhigh
      · omega
      · omega
  have hv := val_point (n := (((b.toNat - 0xF0) * 64 + (c.toNat - 0x80)) * 64 +
    (d.toNat - 0x80)) * 64 + (e.toNat - 0x80)) (by omega)
  unfold utf8
  rw [hv, if_neg (by omega), if_neg (by omega), if_neg (by omega),
    if_neg (by omega), ofNat_eq (b := b) (by omega),
    ofNat_eq (b := c) (by omega), ofNat_eq (b := d) (by omega),
    ofNat_eq (b := e) (by omega)]

theorem short_of {pre : List UInt8} (hlength : pre.length < 4)
    (hwide : pre.length = 3 → ∃ b ∈ pre, narrow b = false)
    (high : ∀ b ∈ pre, 0x80 ≤ b.toNat) : Short pre := by
  refine ⟨?_, high⟩
  have hle := List.countP_le_length (p := narrow) (l := pre)
  by_cases hthree : pre.length = 3
  · obtain ⟨b, hb, hwide⟩ := hwide hthree
    have hne : pre.countP narrow ≠ pre.length := by
      intro h
      have hall := List.countP_eq_length.1 h b hb
      rw [hwide] at hall
      cases hall
    omega
  · omega

theorem short_one {b : UInt8} (h : 0x80 ≤ b.toNat) : Short [b] := by
  refine short_of (by simp) (fun h => by cases h) ?_
  intro b' hb'
  rw [List.mem_singleton] at hb'
  rw [hb']
  exact h

theorem short_two {b c : UInt8} (hb : 0x80 ≤ b.toNat) (hc : 0x80 ≤ c.toNat) :
    Short [b, c] := by
  refine short_of (by simp) (fun h => by cases h) ?_
  intro b' hb'
  simp only [List.mem_cons, List.not_mem_nil, or_false] at hb'
  rcases hb' with rfl | rfl
  · exact hb
  · exact hc

theorem short_three {b c d : UInt8} (hb : 0xF0 ≤ b.toNat)
    (hc : 0x80 ≤ c.toNat) (hd : 0x80 ≤ d.toNat) : Short [b, c, d] := by
  refine short_of (by simp) (fun _ => ?_) ?_
  · refine ⟨b, List.mem_cons_self, ?_⟩
    unfold narrow
    rw [decide_eq_false_iff_not]
    omega
  · intro b' hb'
    simp only [List.mem_cons, List.not_mem_nil, or_false] at hb'
    rcases hb' with rfl | rfl | rfl
    · omega
    · exact hc
    · exact hd

theorem high_of_low {b c k l : Nat} (hl : 0x80 ≤ l)
    (h : (if b = k then l else 0x80) ≤ c) : 0x80 ≤ c := by
  split at h
  · omega
  · exact h

/-- What a byte begins is a character its bytes would finish. -/
theorem holds_fresh (b : UInt8) {p : Partial}
    (h : (fresh b.toNat).2 = some p) : Holds (some p) [b] := by
  by_cases hone : b.toNat < 0x80
  · rw [fresh_one hone] at h
    cases h
  · by_cases htwo : 0xC2 ≤ b.toNat ∧ b.toNat < 0xE0
    · rw [fresh_two htwo] at h
      obtain rfl := Option.some.inj h
      exact ⟨short_one (by omega), fun c hc => utf8_two htwo hc⟩
    · by_cases hthree : 0xE0 ≤ b.toNat ∧ b.toNat < 0xF0
      · rw [fresh_three hthree] at h
        obtain rfl := Option.some.inj h
        refine ⟨short_one (by omega), fun c hc => ⟨?_, fun d hd => ?_⟩⟩
        · exact short_two (by omega) (high_of_low (by decide) hc.1)
        · exact utf8_three hthree hc hd
      · by_cases hfour : 0xF0 ≤ b.toNat ∧ b.toNat < 0xF5
        · rw [fresh_four hfour] at h
          obtain rfl := Option.some.inj h
          refine ⟨short_one (by omega), fun c hc => ?_⟩
          have hhigh := high_of_low (by decide) hc.1
          refine ⟨short_two (by omega) hhigh, fun d hd => ⟨?_, fun e he => ?_⟩⟩
          · exact short_three hfour.1 hhigh (by omega)
          · exact utf8_four hfour hc hd he
        · rw [fresh_bad (by omega)] at h
          cases h

namespace Decoded

variable {t t' : List CodePoint} {bs bs' pre : List UInt8}

/-- What is encoded as it was, and the rest. -/
theorem append (ht : encode t = some bs) (h : Decoded t' bs') :
    Decoded (t ++ t') (bs ++ bs') := by
  obtain ⟨e, he, hor, hascii⟩ := h.ex
  refine ⟨bs ++ e, encode_append ht he, ?_, ?_⟩
  · rcases hor with rfl | hlt
    · exact Or.inl rfl
    · right
      rw [List.countP_append, List.countP_append]
      omega
  · intro a ha
    rw [List.countP_append, List.countP_append, hascii a ha]

theorem replaced (hpre : Short pre) (h : Decoded t' bs') :
    Decoded (replacement :: t') (pre ++ bs') := by
  obtain ⟨e, he, hor, hascii⟩ := h.ex
  have hone : encode [replacement] = some [0xEF, 0xBF, 0xBD] := by decide
  refine ⟨[0xEF, 0xBF, 0xBD] ++ e, encode_append hone he, Or.inr ?_, ?_⟩
  · rw [List.countP_append, List.countP_append]
    have hthree : [0xEF, 0xBF, 0xBD].countP narrow = 3 := by decide
    have hshort := hpre.narrow
    rcases hor with rfl | hlt
    · omega
    · omega
  · intro a ha
    rw [List.countP_append, List.countP_append, hascii a ha]
    have hnone : ∀ l : List UInt8, (∀ b ∈ l, 0x80 ≤ b.toNat) →
        l.countP (ascii a) = 0 := by
      intro l hl
      rw [List.countP_eq_zero]
      intro b hb hb'
      have := hl b hb
      have hba : b.toNat = a := of_decide_eq_true hb'
      omega
    rw [hnone _ (by decide +kernel), hnone _ hpre.high]

end Decoded

theorem decoded_fresh {bs : List UInt8}
    (ih : ∀ q pre, Holds q pre → Decoded (decodeFrom q bs) (pre ++ bs))
    (b : UInt8) : Decoded
      ((fresh b.toNat).1 ++ decodeFrom (fresh b.toNat).2 bs) (b :: bs) := by
  by_cases hone : b.toNat < 0x80
  · rw [fresh_one hone]
    have hencode : encode [point b.toNat] = some [b] := by
      rw [encode, utf8_one hone]
      rfl
    exact Decoded.append hencode (ih none [] rfl)
  · by_cases hbad : 0x80 ≤ b.toNat ∧ b.toNat < 0xC2 ∨ 0xF5 ≤ b.toNat
    · rw [fresh_bad hbad]
      have hshort : Short [b] := short_one (by omega)
      exact Decoded.replaced hshort (ih none [] rfl)
    · obtain ⟨p, hp⟩ : ∃ p, fresh b.toNat = ([], some p) := by
        by_cases htwo : b.toNat < 0xE0
        · exact ⟨_, fresh_two (by omega)⟩
        · by_cases hthree : b.toNat < 0xF0
          · exact ⟨_, fresh_three (by omega)⟩
          · exact ⟨_, fresh_four (by omega)⟩
      have hholds := holds_fresh b (congrArg Prod.snd hp)
      rw [hp]
      exact ih (some p) [b] hholds

/-- What comes out of the bytes a state has taken in and those that
follow. -/
theorem decoded_decodeFrom (bs : List UInt8) : ∀ q pre, Holds q pre →
    Decoded (decodeFrom q bs) (pre ++ bs) := by
  induction bs with
  | nil =>
    intro q pre h
    have hnil : Decoded [] [] := ⟨[], rfl, Or.inl rfl, fun _ _ => rfl⟩
    cases q with
    | none =>
      obtain rfl : pre = [] := h
      exact hnil
    | some p =>
      obtain ⟨owed, low, high, value⟩ := p
      have hshort : Short pre := by
        cases owed with
        | zero => exact h.1
        | succ owed => exact h.1
      exact Decoded.replaced hshort hnil
  | cons b bs ih =>
    intro q pre h
    rw [decodeFrom_cons]
    cases q with
    | none =>
      obtain rfl : pre = [] := h
      exact decoded_fresh ih b
    | some p =>
      obtain ⟨owed, low, high, value⟩ := p
      by_cases hfits : low ≤ b.toNat ∧ b.toNat ≤ high
      · cases owed with
        | zero =>
          rw [step_last hfits, List.append_cons]
          refine Decoded.append ?_ (ih none [] rfl)
          rw [encode, h.2 b hfits]
          exact congrArg some (List.append_nil _)
        | succ owed =>
          rw [step_more hfits, List.append_cons]
          exact ih _ _ (h.2 b hfits)
      · have hshort : Short pre := by
          cases owed with
          | zero => exact h.1
          | succ owed => exact h.1
        rw [step_bad hfits]
        exact Decoded.replaced hshort (decoded_fresh ih b)

theorem decoded_decode (bs : List UInt8) : Decoded (decode bs) bs :=
  decoded_decodeFrom bs none [] rfl

-- ==== occurrences

theorem encode_cons_inv {c : CodePoint} {cs : List CodePoint}
    {b : List UInt8} (h : encode (c :: cs) = some b) :
    ∃ u rest, utf8 c = some u ∧ encode cs = some rest ∧ b = u ++ rest := by
  rw [encode, Option.bind_eq_bind, Option.bind_eq_some_iff] at h
  obtain ⟨u, hu, h⟩ := h
  rw [Option.bind_eq_some_iff] at h
  obtain ⟨rest, hrest, h⟩ := h
  exact ⟨u, rest, hu, hrest, (Option.some.inj h).symm⟩

theorem encode_append_inv {s t : List CodePoint} {b : List UInt8}
    (h : encode (s ++ t) = some b) :
    ∃ bs bs', encode s = some bs ∧ encode t = some bs' ∧ b = bs ++ bs' := by
  induction s generalizing b with
  | nil => exact ⟨[], b, rfl, h, rfl⟩
  | cons c cs ih =>
    obtain ⟨u, rest, hu, hrest, rfl⟩ := encode_cons_inv h
    obtain ⟨bs, bs', hbs, hbs', rfl⟩ := ih hrest
    refine ⟨u ++ bs, bs', ?_, hbs', (List.append_assoc ..).symm⟩
    rw [encode, hu, hbs]
    rfl

theorem prefix_encode {old t : List CodePoint} {e b : List UInt8}
    (hold : encode old = some e) (ht : encode t = some b) :
    e <+: b ↔ old <+: t := by
  constructor
  · rintro ⟨rest, hrest⟩
    refine ⟨decodeFrom none rest, ?_⟩
    rw [← decodeFrom_encode hold, hrest]
    exact decode_encode ht
  · rintro ⟨rest, rfl⟩
    obtain ⟨bs, bs', hbs, _, rfl⟩ := encode_append_inv ht
    rw [hold] at hbs
    rw [Option.some.inj hbs]
    exact List.prefix_append bs bs'

/-- Nothing that begins a character occurs among continuations. -/
theorem occurrences_continuations {b₀ : UInt8} {e us rest : List UInt8}
    (hb₀ : ¬ (0x80 ≤ b₀.toNat ∧ b₀.toNat < 0xC0))
    (hus : ∀ b ∈ us, 0x80 ≤ b.toNat ∧ b.toNat < 0xC0) :
    occurrences (b₀ :: e) (us ++ rest) = occurrences (b₀ :: e) rest := by
  induction us with
  | nil => rfl
  | cons u us ih =>
    obtain ⟨hu, hus⟩ := List.forall_mem_cons.1 hus
    rw [List.cons_append, occurrences, ih hus, if_neg, Nat.zero_add]
    intro hfound
    obtain ⟨_, h⟩ := List.isPrefixOf_iff_prefix.1 hfound
    rw [List.cons_append, List.cons.injEq] at h
    rw [h.1] at hb₀
    exact hb₀ hu

/-- A text occurs in another as often as its bytes in the other's. -/
theorem occurrences_encode {old t : List CodePoint} {e b : List UInt8}
    (hne : old ≠ []) (hold : encode old = some e) (ht : encode t = some b) :
    occurrences e b = occurrences old t := by
  obtain ⟨o, os, rfl⟩ := List.exists_cons_of_ne_nil hne
  obtain ⟨u, rest, hu, _, rfl⟩ := encode_cons_inv hold
  obtain ⟨b₀, us, rfl, hb₀⟩ : ∃ b₀ us, u = b₀ :: us ∧
      ¬ (0x80 ≤ b₀.toNat ∧ b₀.toNat < 0xC0) := by
    rcases utf8_shape hu with ⟨hval, rfl⟩ | ⟨_, b₀, us, rfl, hlow, _⟩
    · refine ⟨_, [], rfl, ?_⟩
      rw [toNat_byte (by omega)]
      omega
    · exact ⟨b₀, us, rfl, by omega⟩
  induction t generalizing b with
  | nil =>
    obtain rfl := Option.some.inj ht
    rfl
  | cons c cs ih =>
    obtain ⟨v, rest', hv, hrest', rfl⟩ := encode_cons_inv ht
    obtain ⟨v₀, vs, rfl, hvs⟩ : ∃ v₀ vs, v = v₀ :: vs ∧
        ∀ b ∈ vs, 0x80 ≤ b.toNat ∧ b.toNat < 0xC0 := by
      rcases utf8_shape hv with ⟨_, rfl⟩ | ⟨_, v₀, vs, rfl, _, hvs⟩
      · exact ⟨_, [], rfl, fun _ h => by cases h⟩
      · exact ⟨v₀, vs, rfl, hvs⟩
    have hfound := prefix_encode hold ht
    rw [← List.isPrefixOf_iff_prefix, ← List.isPrefixOf_iff_prefix] at hfound
    have hcont : occurrences (b₀ :: us ++ rest) (vs ++ rest') =
        occurrences (b₀ :: us ++ rest) rest' :=
      occurrences_continuations hb₀ hvs
    show (if (b₀ :: us ++ rest).isPrefixOf (v₀ :: vs ++ rest') then 1
      else 0) + occurrences (b₀ :: us ++ rest) (vs ++ rest') = _
    rw [hcont, ih hrest', occurrences, if_congr hfound rfl rfl]

theorem replaces_encode {old new t t' : List CodePoint} {n : Nat}
    {e e' b b' : List UInt8} (hold : encode old = some e)
    (hnew : encode new = some e') (h : Replaces old new n t t')
    (ht : encode t = some b) (ht' : encode t' = some b') :
    Replaces e e' n b b' := by
  induction h generalizing b b' with
  | same l =>
    obtain rfl := Option.some.inj (ht.symm.trans ht')
    exact .same b
  | step x _ ih =>
    obtain ⟨bs, rest, hbs, hrest, rfl⟩ := encode_append_inv ht
    obtain ⟨bs', rest', hbs', hrest', rfl⟩ := encode_append_inv ht'
    obtain ⟨u, v, hu, hv, rfl⟩ := encode_append_inv hbs
    obtain ⟨u', v', hu', hv', rfl⟩ := encode_append_inv hbs'
    obtain rfl := Option.some.inj (hu.symm.trans hu')
    obtain rfl := Option.some.inj (hv.symm.trans hold)
    obtain rfl := Option.some.inj (hv'.symm.trans hnew)
    exact .step u (ih hrest hrest')

-- ==== text files

/-- The carriage return, and the line feed. -/
def cr : CodePoint := ⟨13, by decide⟩

def lf : CodePoint := ⟨10, by decide⟩

/-- Universal newlines: how a text file's line ends are read. -/
def universal : Bool → List CodePoint → List CodePoint
  | _, [] => []
  | afterReturn, c :: cs =>
    if c = cr then lf :: universal true cs
    else if c = lf ∧ afterReturn = true then universal false cs
    else c :: universal false cs

/-- `path.read_text(errors="replace")` of a file's bytes. -/
def readText (bs : List UInt8) : List CodePoint := universal false (decode bs)

/-- Bytes that are read as they are: valid ones without a carriage
return. -/
def Clean (bs : List UInt8) : Prop := Valid bs ∧ (13 : UInt8) ∉ bs

theorem mem_universal {afterReturn : Bool} {t : List CodePoint}
    {c : CodePoint} (h : c ∈ universal afterReturn t) :
    c ≠ cr ∧ (c ∈ t ∨ c = lf) := by
  induction t generalizing afterReturn with
  | nil => cases h
  | cons d ds ih =>
    rw [universal] at h
    split at h
    · rcases List.mem_cons.1 h with rfl | h
      · exact ⟨by decide, Or.inr rfl⟩
      · exact ⟨(ih h).1, (ih h).2.imp_left (List.mem_cons_of_mem d)⟩
    · next hcr =>
      split at h
      · exact ⟨(ih h).1, (ih h).2.imp_left (List.mem_cons_of_mem d)⟩
      · rcases List.mem_cons.1 h with rfl | h
        · exact ⟨hcr, Or.inl List.mem_cons_self⟩
        · exact ⟨(ih h).1, (ih h).2.imp_left (List.mem_cons_of_mem d)⟩

/-- Without carriage returns there is nothing to translate. -/
theorem universal_of_not_mem {t : List CodePoint} (h : cr ∉ t) :
    universal false t = t := by
  induction t with
  | nil => rfl
  | cons c cs ih =>
    rw [List.mem_cons, not_or] at h
    rw [universal, if_neg (Ne.symm h.1), if_neg (by simp), ih h.2]

/-- An ASCII character's byte occurs where the character does. -/
theorem countP_ascii {t : List CodePoint} {e : List UInt8} {a : Nat}
    (ha : a < 0x80) (h : encode t = some e) :
    e.countP (ascii a) = t.countP fun c => c.val = a := by
  induction t generalizing e with
  | nil =>
    obtain rfl := Option.some.inj h
    rfl
  | cons c cs ih =>
    obtain ⟨u, rest, hu, hrest, rfl⟩ := encode_cons_inv h
    rw [List.countP_append, ih hrest, List.countP_cons, Nat.add_comm]
    congr 1
    rcases utf8_shape hu with ⟨hval, rfl⟩ | ⟨hval, b₀, us, rfl, hb₀, hus⟩
    · rw [List.countP_singleton]
      unfold ascii
      rw [toNat_byte (by omega)]
    · rw [if_neg (by rw [decide_eq_true_eq]; omega), List.countP_eq_zero]
      intro b hb hba
      have hba : b.toNat = a := of_decide_eq_true hba
      rcases List.mem_cons.1 hb with rfl | hb
      · omega
      · have := hus b hb
        omega

theorem countP_return {t : List CodePoint} {e : List UInt8}
    (h : encode t = some e) : e.countP (ascii 13) = 0 ↔ cr ∉ t := by
  rw [countP_ascii (by decide) h, List.countP_eq_zero]
  constructor
  · intro hall hmem
    exact hall cr hmem (decide_eq_true rfl)
  · intro hnot c hc hval
    have hcr : c = cr := Fin.ext (of_decide_eq_true hval)
    exact hnot (hcr ▸ hc)

theorem return_not_mem {bs : List UInt8} :
    bs.countP (ascii 13) = 0 ↔ (13 : UInt8) ∉ bs := by
  rw [List.countP_eq_zero]
  constructor
  · intro hall hmem
    exact hall 13 hmem (by decide)
  · intro hnot b hb hval
    have h13 : b = 13 := UInt8.toNat_inj.1 (of_decide_eq_true hval)
    exact hnot (h13 ▸ hb)

theorem encode_readText {bs : List UInt8} (h : Clean bs) :
    encode (readText bs) = some bs := by
  obtain ⟨⟨t, ht⟩, hcr⟩ := h
  have hnot : cr ∉ t := (countP_return ht).1 (return_not_mem.2 hcr)
  unfold readText
  rw [decode_encode ht, universal_of_not_mem hnot, ht]

theorem readText_encodes (bs : List UInt8) :
    ∃ e, encode (readText bs) = some e := by
  obtain ⟨e, he, _⟩ := (decoded_decode bs).ex
  have hall := encode_isSome.1 (Option.isSome_iff_exists.2 ⟨e, he⟩)
  refine Option.isSome_iff_exists.1 (encode_isSome.2 fun c hc => ?_)
  rcases (mem_universal hc).2 with hc | rfl
  · exact hall c hc
  · decide

/-- If what is read comes to as many carriage returns and as many bytes
below 0xF0 as there were, the bytes are clean. -/
theorem clean_of_counts {bs e : List UInt8}
    (he : encode (readText bs) = some e)
    (hreturn : e.countP (ascii 13) = bs.countP (ascii 13))
    (hnarrow : e.countP narrow = bs.countP narrow) : Clean bs := by
  obtain ⟨e₀, he₀, hor, hascii⟩ := (decoded_decode bs).ex
  have hzero : e.countP (ascii 13) = 0 :=
    (countP_return he).2 fun hmem => (mem_universal hmem).1 rfl
  have hbs : bs.countP (ascii 13) = 0 := hreturn.symm.trans hzero
  have hnot : cr ∉ decode bs :=
    (countP_return he₀).1 ((hascii 13 (by decide)).trans hbs)
  unfold readText at he
  rw [universal_of_not_mem hnot, he₀] at he
  obtain rfl := Option.some.inj he
  rcases hor with rfl | hlt
  · exact ⟨⟨_, he₀⟩, return_not_mem.1 hbs⟩
  · omega

end SdlcOs.Data.Utf8
