/-
What a request that verifies is.

A request is `Authentic` for a tenant when the header names it, the
timestamp is an integer near the clock, as floats subtract, and the
signature is the one computed under the tenant's secret. It is `Garbled` when verifying it
raises: a timestamp no float is near, or, past the window and with a
known tenant, a timestamp or a signature beyond ASCII. Every other
request is rejected (`verify_cases`).

# The window

A difference of floats is rounded twice. For a clock past the fourth
minute of the epoch and below 53 bits, an integer it finds within five
minutes is (`Near.exact`); further from zero the rounding can hide that
it is not (`late_accepted`).

# The message

A timestamp is joined to the body with a period. `int` takes no period,
so that among the timestamps it takes the first period ends the timestamp
(`canonicalMessage_injective`).
-/
import Mathlib.Data.List.TakeWhile
import Mathlib.Data.Nat.Cast.Order.Field
import Mathlib.Data.Rat.Cast.Order
import Mathlib.Tactic.NormNum
import SdlcOs.Dispatch.Signing

namespace SdlcOs.Dispatch

open Data (Binary Dict nearest)

variable {P : Platform}

-- ==== integers

/-- The characters of a numeral, of the blanks and signs around it. -/
def isIntChar (c : Char) : Bool :=
  c.isDigit || c = '_' || isBlank c || c = '-' || c = '+'

/-- What a numeral is made of. -/
def isNumeralChar (c : Char) : Bool := c.isDigit || c = '_'

theorem readNat_eq (s : List Char) : readNat s =
    if isNumeral (s.takeWhile isNumeralChar) &&
        (s.dropWhile isNumeralChar).all isBlank &&
        ((s.takeWhile isNumeralChar).filter Char.isDigit).length ≤ maxStrDigits
    then some (Nat.ofDigitChars 10
      ((s.takeWhile isNumeralChar).filter Char.isDigit) 0)
    else none := rfl

theorem readNat_chars {s : List Char} {n : Nat} (h : readNat s = some n) :
    ∀ c ∈ s, isIntChar c = true := by
  intro c hc
  rw [readNat_eq] at h
  split at h
  · next hok =>
    rw [Bool.and_eq_true, Bool.and_eq_true] at hok
    rw [← List.takeWhile_append_dropWhile (p := isNumeralChar) (l := s)] at hc
    unfold isIntChar
    rcases List.mem_append.1 hc with hc | hc
    · have hnum := List.all_eq_true.1 List.all_takeWhile c hc
      unfold isNumeralChar at hnum
      rw [hnum]
      rfl
    · rw [List.all_eq_true.1 hok.1.2 c hc, Bool.or_true]
      rfl
  · cases h

theorem pyInt_chars {s : String} {n : Int} (h : pyInt P s = some n) :
    ∀ c ∈ narrow P s, isIntChar c = true := by
  intro c hc
  rw [← List.takeWhile_append_dropWhile (p := isBlank) (l := narrow P s)] at hc
  rcases List.mem_append.1 hc with hc | hc
  · have hblank := List.all_eq_true.1 List.all_takeWhile c hc
    unfold isIntChar
    rw [hblank, Bool.or_true]
    rfl
  · unfold pyInt at h
    split at h
    · next s' heq =>
      obtain ⟨m, hm, _⟩ := Option.map_eq_some_iff.1 h
      rw [heq] at hc
      rcases List.mem_cons.1 hc with rfl | hc
      · rfl
      · exact readNat_chars hm c hc
    · next s' heq =>
      obtain ⟨m, hm, _⟩ := Option.map_eq_some_iff.1 h
      rw [heq] at hc
      rcases List.mem_cons.1 hc with rfl | hc
      · rfl
      · exact readNat_chars hm c hc
    · obtain ⟨m, hm, _⟩ := Option.map_eq_some_iff.1 h
      exact readNat_chars hm c hc

-- ==== the message

/-- The codes of an ASCII text. -/
def codes (cs : List Char) : Bytes := cs.map fun c => UInt8.ofNat c.toNat

theorem encodeAscii_ok {s : String} {bs : Bytes}
    (h : encodeAscii s = .ok bs) : isAscii s = true ∧
      bs = codes s.toList := by
  unfold encodeAscii at h
  split at h
  · next hs => exact ⟨hs, (Except.ok.inj h).symm⟩
  · cases h

theorem code_injective {c c' : Char} (hc : c.toNat < 128)
    (hc' : c'.toNat < 128)
    (h : UInt8.ofNat c.toNat = UInt8.ofNat c'.toNat) : c = c' := by
  have hnat := congrArg UInt8.toNat h
  rw [UInt8.toNat_ofNat', UInt8.toNat_ofNat',
    Nat.mod_eq_of_lt (by omega), Nat.mod_eq_of_lt (by omega)] at hnat
  exact Char.toNat_inj.1 hnat

/-- Two lists without a marker, each with the marker and a rest behind
it. -/
theorem split_at_marker {α : Type} {marker : α} {xs xs' rest rest' : List α}
    (hxs : marker ∉ xs) (hxs' : marker ∉ xs')
    (h : xs ++ marker :: rest = xs' ++ marker :: rest') :
    xs = xs' ∧ rest = rest' := by
  induction xs generalizing xs' with
  | nil =>
    cases xs' with
    | nil => exact ⟨rfl, (List.cons.inj h).2⟩
    | cons x' xs' =>
      rw [(List.cons.inj h).1] at hxs'
      exact absurd (List.mem_cons_self ..) hxs'
  | cons x xs ih =>
    cases xs' with
    | nil =>
      rw [(List.cons.inj h).1] at hxs
      exact absurd (List.mem_cons_self ..) hxs
    | cons x' xs' =>
      obtain ⟨hhead, htail⟩ := List.cons.inj h
      obtain ⟨hxs₂, hrest⟩ := ih (fun hm => hxs (List.mem_cons_of_mem _ hm))
        (fun hm => hxs' (List.mem_cons_of_mem _ hm)) htail
      exact ⟨by rw [hhead, hxs₂], hrest⟩

theorem codes_injective : ∀ {cs cs' : List Char},
    (∀ c ∈ cs, c.toNat < 128) → (∀ c ∈ cs', c.toNat < 128) →
    codes cs = codes cs' → cs = cs' := by
  intro cs
  induction cs with
  | nil =>
    intro cs' _ _ h
    exact (List.map_eq_nil_iff.1 h.symm).symm
  | cons c cs ih =>
    intro cs' hcs hcs' h
    cases cs' with
    | nil => exact absurd h (List.cons_ne_nil _ _)
    | cons c' cs' =>
      obtain ⟨hhead, htail⟩ := List.cons.inj h
      rw [code_injective (hcs c (List.mem_cons_self ..))
          (hcs' c' (List.mem_cons_self ..)) hhead,
        ih (fun x hx => hcs x (List.mem_cons_of_mem _ hx))
          (fun x hx => hcs' x (List.mem_cons_of_mem _ hx)) htail]

theorem period_notMem_codes {cs : List Char}
    (h : ∀ c ∈ cs, c.toNat < 128 ∧ c ≠ '.') : 46 ∉ codes cs := by
  intro hmem
  obtain ⟨c, hc, hcode⟩ := List.mem_map.1 hmem
  exact (h c hc).2 (code_injective (h c hc).1 (by decide) hcode)

theorem ascii_int_chars {s : String} {n : Int} (hint : pyInt P s = some n)
    (hs : isAscii s = true) : ∀ c ∈ s.toList, c.toNat < 128 ∧ c ≠ '.' := by
  intro c hc
  refine ⟨of_decide_eq_true (List.all_eq_true.1 hs c hc), ?_⟩
  have hnarrow : narrow P s = s.toList := if_pos hs
  have hchar := pyInt_chars hint c (hnarrow ▸ hc)
  rintro rfl
  exact absurd hchar (by decide)

/-- The message determines the timestamp and the body. -/
theorem canonicalMessage_injective {s s' : String} {b b' m : Bytes}
    {n n' : Int} (hint : pyInt P s = some n) (hint' : pyInt P s' = some n')
    (h : canonicalMessage s b = .ok m) (h' : canonicalMessage s' b' = .ok m) :
    s = s' ∧ b = b' := by
  unfold canonicalMessage at h h'
  cases hbs : encodeAscii s with
  | error e => rw [hbs] at h; cases h
  | ok bs =>
    cases hbs' : encodeAscii s' with
    | error e => rw [hbs'] at h'; cases h'
    | ok bs' =>
      rw [hbs] at h
      rw [hbs'] at h'
      have heq := (Except.ok.inj h).trans (Except.ok.inj h').symm
      obtain ⟨hs, rfl⟩ := encodeAscii_ok hbs
      obtain ⟨hs', rfl⟩ := encodeAscii_ok hbs'
      rw [List.append_assoc, List.append_assoc] at heq
      have hchars := ascii_int_chars hint hs
      have hchars' := ascii_int_chars hint' hs'
      obtain ⟨hcodes, hbody⟩ := split_at_marker
        (period_notMem_codes hchars) (period_notMem_codes hchars') heq
      exact ⟨String.toList_inj.1 (codes_injective
        (fun c hc => (hchars c hc).1) (fun c hc => (hchars' c hc).1)
        hcodes), hbody⟩

-- ==== timestamps

theorem isNumeral_digits : ∀ {ds : List Char}, ds ≠ [] →
    (∀ c ∈ ds, c.isDigit = true) → isNumeral ds = true := by
  intro ds
  induction ds with
  | nil => intro h; exact absurd rfl h
  | cons c ds ih =>
    intro _ hds
    have hc := hds c (List.mem_cons_self ..)
    cases ds with
    | nil => exact hc
    | cons d ds =>
      have hd := hds d (List.mem_cons_of_mem _ (List.mem_cons_self ..))
      have hrest := ih (List.cons_ne_nil d ds) fun x hx =>
        hds x (List.mem_cons_of_mem _ hx)
      unfold isNumeral
      split
      · next heq => cases heq
      · next heq => cases heq
      · next heq =>
        obtain ⟨rfl, htail⟩ := List.cons.inj heq
        obtain ⟨rfl, _⟩ := List.cons.inj htail
        exact absurd hd (by decide)
      · next heq =>
        obtain ⟨rfl, rfl⟩ := List.cons.inj heq
        rw [hc, hrest]
        rfl

theorem readNat_digits {ds : List Char} (hne : ds ≠ [])
    (hds : ∀ c ∈ ds, c.isDigit = true) (hlen : ds.length ≤ maxStrDigits) :
    readNat ds = some (Nat.ofDigitChars 10 ds 0) := by
  have htake : ds.takeWhile isNumeralChar = ds := by
    rw [List.takeWhile_eq_self_iff]
    intro c hc
    unfold isNumeralChar
    rw [hds c hc]
    rfl
  have hdrop : ds.dropWhile isNumeralChar = [] := by
    have hsplit := List.takeWhile_append_dropWhile (p := isNumeralChar)
      (l := ds)
    rw [htake] at hsplit
    exact List.append_right_eq_self.1 hsplit
  have hfilter : ds.filter Char.isDigit = ds := List.filter_eq_self.2 hds
  rw [readNat_eq, htake, hdrop, hfilter, isNumeral_digits hne hds,
    decide_eq_true hlen]
  rfl

theorem isDigit_facts {c : Char} (h : c.isDigit = true) :
    c.toNat < 128 ∧ isBlank c = false ∧ c ≠ '-' ∧ c ≠ '+' := by
  have hval : 48 ≤ c.toNat ∧ c.toNat ≤ 57 := by
    unfold Char.isDigit at h
    rw [Bool.and_eq_true, decide_eq_true_eq, decide_eq_true_eq] at h
    exact ⟨h.1, h.2⟩
  refine ⟨by omega, ?_, ?_, ?_⟩
  · unfold isBlank
    rw [Bool.or_eq_false_iff, decide_eq_false_iff_not, Bool.and_eq_false_iff,
      decide_eq_false_iff_not, decide_eq_false_iff_not]
    refine ⟨?_, by omega⟩
    rintro rfl
    exact absurd h (by decide)
  · rintro rfl
    exact absurd h (by decide)
  · rintro rfl
    exact absurd h (by decide)

theorem pyInt_pyStr {n : Int} {s : String} (h : pyStr n = .ok s) :
    pyInt P s = some n ∧ isAscii s = true ∧ s ≠ "" := by
  unfold pyStr at h
  have hdigits : ∀ c ∈ Nat.toDigits 10 n.natAbs, c.isDigit = true :=
    fun c hc => Nat.isDigit_of_mem_toDigits (by decide) (by decide) hc
  have hne : Nat.toDigits 10 n.natAbs ≠ [] := Nat.toDigits_ne_nil
  by_cases hlen : maxStrDigits < (Nat.toDigits 10 n.natAbs).length
  · rw [if_pos hlen] at h
    cases h
  · have hread := readNat_digits hne hdigits (by omega)
    rw [Nat.ofDigitChars_ten_toDigits] at hread
    rw [if_neg hlen] at h
    obtain rfl := Except.ok.inj h
    by_cases hneg : n < 0
    · rw [if_pos hneg]
      have hascii : isAscii (.ofList ('-' :: Nat.toDigits 10 n.natAbs)) =
          true := by
        unfold isAscii
        rw [String.toList_ofList, List.all_cons, Bool.and_eq_true,
          List.all_eq_true]
        exact ⟨rfl, fun c hc => decide_eq_true (isDigit_facts (hdigits c hc)).1⟩
      refine ⟨?_, hascii, ?_⟩
      · unfold pyInt narrow
        rw [if_pos hascii, String.toList_ofList, List.dropWhile_cons_of_neg
          (by decide)]
        show (readNat _).map (fun n : Nat => -(n : Int)) = some n
        rw [hread, Option.map_some]
        congr 1
        omega
      · intro hempty
        have := congrArg String.toList hempty
        rw [String.toList_ofList] at this
        cases this
    · rw [if_neg hneg]
      have hascii : isAscii (.ofList (Nat.toDigits 10 n.natAbs)) = true := by
        unfold isAscii
        rw [String.toList_ofList, List.all_eq_true]
        exact fun c hc => decide_eq_true (isDigit_facts (hdigits c hc)).1
      refine ⟨?_, hascii, ?_⟩
      · unfold pyInt narrow
        rw [if_pos hascii, String.toList_ofList]
        cases hds : Nat.toDigits 10 n.natAbs with
        | nil => exact absurd hds hne
        | cons c ds =>
          obtain ⟨_, hblank, hminus, hplus⟩ := isDigit_facts
            (hdigits c (hds ▸ List.mem_cons_self ..))
          rw [List.dropWhile_cons_of_neg (by rw [hblank]; exact
            Bool.false_ne_true)]
          split
          · next heq => exact absurd (List.cons.inj heq).1 hminus
          · next heq => exact absurd (List.cons.inj heq).1 hplus
          · rw [← hds, hread, Option.map_some]
            show some (n.natAbs : Int) = some n
            congr 1
            omega
      · intro hempty
        have := congrArg String.toList hempty
        rw [String.toList_ofList] at this
        exact hne this

-- ==== clocks

/-- An integer within the window of a clock, as floats subtract. -/
def Float64.Near (now : Float64) (window n : Int) : Prop :=
  ∃ difference, now.minusInt n = .ok (some difference) ∧
    |difference| ≤ window

section clocks

variable {now : Float64} {window n : Int}

theorem minusInt_error {e : PyError} (h : now.minusInt n = .error e) :
    roundsToInfinity n = true := by
  unfold Float64.minusInt at h
  split at h
  · next hround => exact hround
  · cases h

theorem minusInt_ok {difference : Option ℚ}
    (h : now.minusInt n = .ok difference) : roundsToInfinity n = false := by
  unfold Float64.minusInt at h
  split at h
  · cases h
  · next hround => exact Bool.eq_false_of_not_eq_true hround

theorem minusInt_some {d : ℚ} (h : now.minusInt n = .ok (some d)) :
    d = nearest (now.val - nearest n) := by
  unfold Float64.minusInt at h
  split at h
  · cases h
  · have hd := Except.ok.inj h
    split at hd
    · exact (Option.some.inj hd).symm
    · cases hd

theorem near_iff {difference : Option ℚ}
    (h : now.minusInt n = .ok difference) :
    now.Near window n ↔ exceeds window difference = false := by
  unfold Float64.Near
  rw [h]
  cases difference with
  | none =>
    refine iff_of_false ?_ fun h => by cases h
    rintro ⟨_, h, -⟩
    cases h
  | some d =>
    unfold exceeds
    rw [decide_eq_false_iff_not, not_lt]
    constructor
    · rintro ⟨d', h, hle⟩
      rwa [Option.some.inj (Except.ok.inj h)]
    · intro hle
      exact ⟨d, rfl, hle⟩

theorem Float64.Near.finite (h : now.Near window n) :
    roundsToInfinity n = false := by
  obtain ⟨_, h, -⟩ := h
  exact minusInt_ok h

theorem natAbs_toInt_le (x : Float64) : (x.toInt.natAbs : ℚ) ≤ |x.val| := by
  have habs : |x.val| = (x.val.num.natAbs : ℚ) / x.val.den := by
    rw [Rat.abs_def, Rat.divInt_eq_div]
    rfl
  unfold Float64.toInt
  rw [Int.natAbs_tdiv, Int.natAbs_natCast, habs]
  exact Nat.cast_div_le

theorem cast_pow_sub_pow {a b : Nat} (h : b ≤ a) :
    ((2 ^ a - 2 ^ b : Nat) : ℚ) = 2 ^ a - 2 ^ b := by
  rw [Nat.cast_sub (Nat.pow_le_pow_right two_pos h), Nat.cast_pow,
    Nat.cast_pow, Nat.cast_ofNat]

theorem toInt_finite (x : Float64) : roundsToInfinity x.toInt = false := by
  have hlt : (2 : ℚ) ^ 970 < 2 ^ 971 :=
    pow_lt_pow_right₀ one_lt_two (Nat.lt_succ_self 970)
  refine decide_eq_false fun h => ?_
  have hle : ((2 ^ 1024 - 2 ^ 970 : Nat) : ℚ) ≤ maxFloat :=
    (Nat.cast_le.2 h).trans ((natAbs_toInt_le x).trans x.bounded)
  rw [cast_pow_sub_pow (Nat.le_of_ble_eq_true rfl)] at hle
  exact absurd hle (not_le.2 (sub_lt_sub_left hlt _))

theorem binary_toInt (x : Float64) : Binary (x.toInt : ℚ) := by
  by_cases hsmall : |x.val| ≤ 2 ^ 53
  · refine Data.binary_intCast ?_
    have hle := (natAbs_toInt_le x).trans hsmall
    rw [Int.abs_eq_natAbs]
    exact_mod_cast hle
  · -- A float of more than 53 bits is an integer.
    obtain ⟨k, hk⟩ := x.binary.multiple (e := 1) (not_le.1 hsmall)
    have hint : x.val = ((k * 2 : Int) : ℚ) := by
      rw [hk, Int.cast_mul, zpow_one]
      rfl
    have hsame : (x.toInt : ℚ) = x.val := by
      unfold Float64.toInt
      rw [hint, Rat.num_intCast, Rat.den_intCast, Int.natCast_one,
        Int.tdiv_one]
    rw [hsame]
    exact x.binary

/-- A float within a window is near, unless the window is larger than
any. -/
theorem near_of_within (hbinary : Binary (n : ℚ))
    (hfinite : roundsToInfinity n = false) (hsize : window ≤ 2 ^ 53)
    (h : |now.val - n| ≤ (window : ℚ)) : now.Near window n := by
  have hzero : (0 : ℚ) ≤ window := (abs_nonneg _).trans h
  have hpos : 0 ≤ window := by exact_mod_cast hzero
  have hround : |nearest (now.val - n)| ≤ (window : ℚ) :=
    Data.abs_nearest_le (Data.binary_intCast (by rwa [abs_of_nonneg hpos])) h
  have hwindow : (window : ℚ) ≤ 2 ^ 53 := by exact_mod_cast hsize
  have hlt : |nearest (now.val - n)| < 2 ^ 1024 :=
    lt_of_le_of_lt (hround.trans hwindow)
      (pow_lt_pow_right₀ one_lt_two (Nat.le_of_ble_eq_true rfl))
  refine ⟨nearest (now.val - n), ?_, hround⟩
  unfold Float64.minusInt
  rw [hfinite, Data.nearest_of_binary hbinary]
  simp only [Bool.false_eq_true, if_false, hlt, if_true]

/-- Around a clock of no more than 53 bits and past 256, what is near is
within the window. The differences are multiples of a bit that the window
is told from the next one by. -/
theorem Float64.Near.exact (h : now.Near replayWindowSeconds n)
    (hpast : 2 ^ 8 < |now.val|) (hbelow : |now.val| + 300 < 2 ^ 53) :
    |now.val - n| ≤ (replayWindowSeconds : ℚ) := by
  obtain ⟨d, hd, hle⟩ := h
  obtain ⟨f, hf⟩ := Data.nearest_intCast n
  obtain ⟨k, hk⟩ := now.binary.multiple (e := -44) (by norm_num; linarith)
  have hgrid : now.val - f = ((k - f * 2 ^ 44 : Int) : ℚ) * 2 ^ (-44 : Int) := by
    rw [hk]
    push_cast
    norm_num
    ring
  rw [minusInt_some hd, hf] at hle
  have hnear : |now.val - f| ≤ 300 := by
    by_contra hfar
    rw [not_le, hgrid] at hfar
    have hround := Data.lt_abs_nearest (e := -44) (j := 300 * 2 ^ 44)
      (k := k - f * 2 ^ 44) (by decide) (by decide) (by decide)
      (by push_cast; norm_num at hfar ⊢; exact hfar)
    rw [← hgrid] at hround
    refine absurd hle (not_le.2 (lt_of_eq_of_lt ?_ hround))
    norm_num [replayWindowSeconds]
  -- The timestamp has no more than 53 bits, so it is no other float.
  have hsmall : |n| ≤ 2 ^ 53 := by
    by_contra hlarge
    have hsize : (2 : ℚ) ^ 53 ≤ |(n : ℚ)| := by
      exact_mod_cast le_of_lt (not_le.1 hlarge)
    have hpow : ((2 ^ 53 : Int) : ℚ) = 2 ^ 53 := by norm_num
    rw [← hpow] at hsize
    have hfsize := Data.le_abs_nearest (Data.binary_intCast (by decide)) hsize
    rw [hf] at hfsize
    have htriangle : |(f : ℚ)| ≤ |now.val| + |now.val - f| := by
      have := abs_sub now.val (now.val - f)
      rwa [sub_sub_cancel] at this
    rw [hpow] at hfsize
    linarith
  rw [Data.nearest_of_binary (Data.binary_intCast hsmall)] at hf
  rw [hf]
  exact hnear.trans (by norm_num [replayWindowSeconds])

end clocks

-- ==== verifying

/-- The three headers of a request, none of them empty. -/
structure Presents (P : Platform) (headers : Dict String String)
    (tenantId timestamp signature : String) : Prop where
  tenantId : header P headers headerTenantId = some tenantId
  timestamp : header P headers headerTimestamp = some timestamp
  signature : header P headers headerSignature = some signature

section verify

variable (P : Platform) (mac : Mac) (headers : Dict String String)
  (body : Bytes) (secretLookup : String → Option Bytes) (now : Float64)
  (window : Int)

/-- The timestamp is an integer within the window. -/
def Current (timestamp : String) : Prop :=
  ∃ n, pyInt P timestamp = some n ∧ now.Near window n

/-- The header names the tenant, the timestamp is current, and the
signature was computed over both under the tenant's secret. -/
def Authentic (tenantId timestamp signature : String) : Prop :=
  Presents P headers tenantId timestamp signature ∧
  Current P now window timestamp ∧
  ∃ secret, secretLookup tenantId = some secret ∧
    computeSignature mac secret timestamp body = .ok signature

/-- Verifying the request raises. -/
def Garbled : Prop :=
  ∃ tenantId timestamp signature,
    Presents P headers tenantId timestamp signature ∧
    ((∃ n, pyInt P timestamp = some n ∧ roundsToInfinity n = true) ∨
      (Current P now window timestamp ∧ secretLookup tenantId ≠ none ∧
        (isAscii timestamp = false ∨ isAscii signature = false)))

end verify

variable {mac : Mac} {headers : Dict String String} {body : Bytes}
  {secretLookup : String → Option Bytes} {now : Float64} {window : Int}

theorem Presents.unique {t t' ts ts' s s' : String}
    (h : Presents P headers t ts s) (h' : Presents P headers t' ts' s') :
    t = t' ∧ ts = ts' ∧ s = s' :=
  ⟨Option.some.inj (h.tenantId.symm.trans h'.tenantId),
    Option.some.inj (h.timestamp.symm.trans h'.timestamp),
    Option.some.inj (h.signature.symm.trans h'.signature)⟩

theorem computeSignature_ok {secret : Bytes} {timestamp signature : String}
    (h : computeSignature mac secret timestamp body = .ok signature) :
    isAscii timestamp = true ∧ isAscii signature = true := by
  unfold computeSignature canonicalMessage at h
  cases hts : encodeAscii timestamp with
  | error e =>
    rw [hts] at h
    cases h
  | ok ts =>
    rw [hts] at h
    rw [← Except.ok.inj h]
    exact ⟨(encodeAscii_ok hts).1, mac.ascii ..⟩

theorem computeSignature_ascii (mac : Mac) (secret : Bytes)
    {timestamp : String} (h : isAscii timestamp = true) (body : Bytes) :
    ∃ signature,
      computeSignature mac secret timestamp body = .ok signature := by
  unfold computeSignature canonicalMessage encodeAscii
  rw [if_pos h]
  exact ⟨_, rfl⟩

theorem computeSignature_wide (mac : Mac) (secret : Bytes)
    {timestamp : String} (h : isAscii timestamp = false) (body : Bytes) :
    computeSignature mac secret timestamp body = .error .unicodeEncodeError := by
  unfold computeSignature canonicalMessage encodeAscii
  rw [h]
  rfl

/-- What the check of a signature gives: it verifies, it raises, or it
does neither. -/
theorem verifySignature_cases (mac : Mac)
    (tenantId timestamp signature : String) (body : Bytes)
    (secretLookup : String → Option Bytes) :
    (verifySignature mac tenantId timestamp signature body secretLookup =
        .ok ⟨true, some tenantId, none, none⟩ ∧
      ∃ secret, secretLookup tenantId = some secret ∧
        computeSignature mac secret timestamp body = .ok signature) ∨
    ((∃ r, verifySignature mac tenantId timestamp signature body
        secretLookup = .ok r ∧ r.ok = false) ∧
      (¬ ∃ secret, secretLookup tenantId = some secret ∧
        computeSignature mac secret timestamp body = .ok signature) ∧
      ¬ (secretLookup tenantId ≠ none ∧
        (isAscii timestamp = false ∨ isAscii signature = false))) ∨
    ((∃ e, verifySignature mac tenantId timestamp signature body
        secretLookup = .error e) ∧
      secretLookup tenantId ≠ none ∧
      (isAscii timestamp = false ∨ isAscii signature = false)) := by
  unfold verifySignature
  cases hsecret : secretLookup tenantId with
  | none =>
    refine Or.inr (Or.inl ⟨⟨_, rfl, rfl⟩, ?_, fun h => h.1 rfl⟩)
    rintro ⟨secret, h, _⟩
    cases h
  | some secret =>
    have hknown : some secret ≠ none := Option.some_ne_none secret
    cases hts : isAscii timestamp with
    | false =>
      simp only [computeSignature_wide mac secret hts body]
      exact Or.inr (Or.inr ⟨⟨_, rfl⟩, hknown, Or.inl trivial⟩)
    | true =>
      obtain ⟨expected, hexpected⟩ :=
        computeSignature_ascii mac secret hts body
      have hasciis := (computeSignature_ok hexpected).2
      simp only [hexpected]
      unfold compareDigest
      rw [hasciis, Bool.true_and]
      cases hsig : isAscii signature with
      | false => exact Or.inr (Or.inr ⟨⟨_, rfl⟩, hknown, Or.inr rfl⟩)
      | true =>
        rw [if_pos rfl]
        by_cases hsame : expected = signature
        · rw [decide_eq_true hsame]
          exact Or.inl ⟨rfl, secret, rfl, hsame ▸ hexpected⟩
        · rw [decide_eq_false hsame]
          refine Or.inr (Or.inl ⟨⟨_, rfl, rfl⟩, ?_, ?_⟩)
          · rintro ⟨secret', h, hsig'⟩
            obtain rfl := Option.some.inj h
            exact hsame (Except.ok.inj (hexpected.symm.trans hsig'))
          · rintro ⟨_, h | h⟩ <;> cases h

/-- What verifying a request gives: it is verified, rejected, or it
raises. -/
theorem verify_cases (P : Platform) (mac : Mac)
    (headers : Dict String String) (body : Bytes)
    (secretLookup : String → Option Bytes) (now : Float64) (window : Int) :
    (∃ tenantId timestamp signature,
      verifyRequest P mac headers body secretLookup now window =
        .ok ⟨true, some tenantId, none, none⟩ ∧
      Authentic P mac headers body secretLookup now window tenantId timestamp
        signature) ∨
    ((∃ r, verifyRequest P mac headers body secretLookup now window = .ok r ∧
        r.ok = false) ∧
      (∀ t ts s,
        ¬ Authentic P mac headers body secretLookup now window t ts s) ∧
      ¬ Garbled P headers secretLookup now window) ∨
    ((∃ e, verifyRequest P mac headers body secretLookup now window =
        .error e) ∧ Garbled P headers secretLookup now window) := by
  -- A request that lacks a header, or whose timestamp does not pass, is
  -- neither authentic nor garbled.
  unfold verifyRequest
  cases htenant : header P headers headerTenantId with
  | none =>
    refine Or.inr (Or.inl ⟨⟨_, rfl, rfl⟩, ?_, ?_⟩)
    · intro t ts s h
      exact absurd (htenant.symm.trans h.1.tenantId) (by simp)
    · rintro ⟨t, ts, s, h, _⟩
      exact absurd (htenant.symm.trans h.tenantId) (by simp)
  | some tenantId =>
  cases htime : header P headers headerTimestamp with
  | none =>
    refine Or.inr (Or.inl ⟨⟨_, rfl, rfl⟩, ?_, ?_⟩)
    · intro t ts s h
      exact absurd (htime.symm.trans h.1.timestamp) (by simp)
    · rintro ⟨t, ts, s, h, _⟩
      exact absurd (htime.symm.trans h.timestamp) (by simp)
  | some timestamp =>
  cases hsignature : header P headers headerSignature with
  | none =>
    refine Or.inr (Or.inl ⟨⟨_, rfl, rfl⟩, ?_, ?_⟩)
    · intro t ts s h
      exact absurd (hsignature.symm.trans h.1.signature) (by simp)
    · rintro ⟨t, ts, s, h, _⟩
      exact absurd (hsignature.symm.trans h.signature) (by simp)
  | some signature =>
  have hpresents : Presents P headers tenantId timestamp signature :=
    ⟨htenant, htime, hsignature⟩
  cases hint : pyInt P timestamp with
  | none =>
    have hno : ∀ n, pyInt P timestamp ≠ some n := by
      intro n h
      rw [hint] at h
      cases h
    simp only [hint]
    refine Or.inr (Or.inl ⟨⟨_, rfl, rfl⟩, ?_, ?_⟩)
    · rintro t ts s ⟨h, ⟨n, hn, _⟩, _⟩
      obtain ⟨_, rfl, _⟩ := hpresents.unique h
      exact hno n hn
    · rintro ⟨t, ts, s, h, ⟨n, hn, _⟩ | ⟨⟨n, hn, _⟩, _⟩⟩ <;>
        obtain ⟨_, rfl, _⟩ := hpresents.unique h <;> exact hno n hn
  | some n =>
  have hsame : ∀ m, pyInt P timestamp = some m → m = n := by
    intro m h
    exact Option.some.inj (h.symm.trans hint)
  cases hage : now.minusInt n with
  | error e =>
    refine Or.inr (Or.inr ⟨⟨e, ?_⟩, tenantId, timestamp, signature, hpresents,
      Or.inl ⟨n, hint, minusInt_error hage⟩⟩)
    simp only [hint, hage]
  | ok difference =>
  have hround := minusInt_ok hage
  have hnear : now.Near window n ↔ exceeds window difference = false :=
    near_iff hage
  simp only [hint, hage]
  cases hwindow : exceeds window difference with
  | true =>
    rw [if_pos rfl]
    have hold : ¬ Current P now window timestamp := by
      rintro ⟨m, hm, hle⟩
      rw [hsame m hm, hnear, hwindow] at hle
      cases hle
    refine Or.inr (Or.inl ⟨⟨_, rfl, rfl⟩, ?_, ?_⟩)
    · rintro t ts s ⟨h, hcurrent, _⟩
      obtain ⟨_, rfl, _⟩ := hpresents.unique h
      exact hold hcurrent
    · rintro ⟨t, ts, s, h, ⟨m, hm, hinf⟩ | ⟨hcurrent, _⟩⟩ <;>
        obtain ⟨_, rfl, _⟩ := hpresents.unique h
      · rw [hsame m hm, hround] at hinf
        cases hinf
      · exact hold hcurrent
  | false =>
    rw [if_neg Bool.false_ne_true]
    have hcurrent : Current P now window timestamp :=
      ⟨n, hint, hnear.2 hwindow⟩
    rcases verifySignature_cases mac tenantId timestamp signature body
      secretLookup with ⟨heq, hsecret⟩ | ⟨hrejected, hnot, hascii⟩ |
        ⟨herror, hknown, hwide⟩
    · exact Or.inl ⟨tenantId, timestamp, signature, heq, hpresents, hcurrent,
        hsecret⟩
    · refine Or.inr (Or.inl ⟨hrejected, ?_, ?_⟩)
      · rintro t ts s ⟨h, _, hsecret⟩
        obtain ⟨rfl, rfl, rfl⟩ := hpresents.unique h
        exact hnot hsecret
      · rintro ⟨t, ts, s, h, ⟨m, hm, hinf⟩ | ⟨_, hgarbled⟩⟩ <;>
          obtain ⟨rfl, rfl, rfl⟩ := hpresents.unique h
        · rw [hsame m hm, hround] at hinf
          cases hinf
        · exact hascii hgarbled
    · exact Or.inr (Or.inr ⟨herror, tenantId, timestamp, signature, hpresents,
        Or.inr ⟨hcurrent, hknown, hwide⟩⟩)

theorem verify_of_authentic {tenantId timestamp signature : String}
    (h : Authentic P mac headers body secretLookup now window tenantId
      timestamp signature) :
    verifyRequest P mac headers body secretLookup now window =
      .ok ⟨true, some tenantId, none, none⟩ := by
  rcases verify_cases P mac headers body secretLookup now window with
    ⟨t, ts, s, heq, hauth⟩ | ⟨_, hnot, _⟩ | ⟨_, t, ts, s, hpresents, hgarbled⟩
  · obtain ⟨rfl, -⟩ := h.1.unique hauth.1
    exact heq
  · exact absurd h (hnot _ _ _)
  · obtain ⟨rfl, rfl, rfl⟩ := h.1.unique hpresents
    obtain ⟨-, ⟨n, hint, hnear⟩, secret, -, hsignature⟩ := h
    rcases hgarbled with ⟨m, hm, hinf⟩ | ⟨_, _, hwide⟩
    · rw [← Option.some.inj (hint.symm.trans hm), hnear.finite] at hinf
      cases hinf
    · rw [(computeSignature_ok hsignature).1,
        (computeSignature_ok hsignature).2] at hwide
      rcases hwide with h | h <;> cases h

-- ==== signed requests

/-- The three headers. -/
def signedHeaders (tenantId timestamp signature : String) :
    Dict String String :=
  ((Dict.empty.set headerTenantId tenantId).set headerTimestamp
    timestamp).set headerSignature signature

theorem normalized_signed (P : Platform)
    (tenantId timestamp signature : String) :
    normalized P (signedHeaders tenantId timestamp signature) =
      ((Dict.empty.set "x-sdlc-tenant-id" tenantId).set "x-sdlc-timestamp"
        timestamp).set "x-sdlc-signature" signature := by
  have hentries : (signedHeaders tenantId timestamp signature).entries =
      [(headerTenantId, tenantId), (headerTimestamp, timestamp),
        (headerSignature, signature)] := by
    rfl
  unfold normalized
  rw [hentries]
  show ((Dict.empty.set (P.lower headerTenantId) tenantId).set
    (P.lower headerTimestamp) timestamp).set (P.lower headerSignature)
    signature = _
  rw [P.lower_ascii headerTenantId (by decide),
    P.lower_ascii headerTimestamp (by decide),
    P.lower_ascii headerSignature (by decide)]
  rfl

theorem presents_signed (P : Platform) {tenantId timestamp signature : String}
    (htenant : tenantId ≠ "") (htime : timestamp ≠ "")
    (hsignature : signature ≠ "") :
    Presents P (signedHeaders tenantId timestamp signature) tenantId timestamp
      signature := by
  constructor
  · unfold header
    rw [normalized_signed, P.lower_ascii headerTenantId (by decide),
      Dict.get_set_ne _ (by decide), Dict.get_set_ne _ (by decide),
      show asciiLower headerTenantId = "x-sdlc-tenant-id" from rfl,
      Dict.get_set_self]
    exact if_pos (by simpa using htenant)
  · unfold header
    rw [normalized_signed, P.lower_ascii headerTimestamp (by decide),
      Dict.get_set_ne _ (by decide),
      show asciiLower headerTimestamp = "x-sdlc-timestamp" from rfl,
      Dict.get_set_self]
    exact if_pos (by simpa using htime)
  · unfold header
    rw [normalized_signed, P.lower_ascii headerSignature (by decide),
      show asciiLower headerSignature = "x-sdlc-signature" from rfl,
      Dict.get_set_self]
    exact if_pos (by simpa using hsignature)

theorem header_unnamed (P : Platform) (timestamp signature : String) :
    header P (signedHeaders "" timestamp signature) headerTenantId = none := by
  unfold header
  rw [normalized_signed, P.lower_ascii headerTenantId (by decide),
    Dict.get_set_ne _ (by decide), Dict.get_set_ne _ (by decide),
    show asciiLower headerTenantId = "x-sdlc-tenant-id" from rfl,
    Dict.get_set_self]
  rfl

theorem signed_verifies (P : Platform) (mac : Mac) {tenantId : String}
    {secret body : Bytes} {signedAt : Float64} {headers : Dict String String}
    (hsigned : signRequest mac tenantId secret body signedAt = .ok headers)
    (htenant : tenantId ≠ "") {secretLookup : String → Option Bytes}
    (hsecret : secretLookup tenantId = some secret) {now : Float64}
    {window : Int} (hsize : window ≤ 2 ^ 53)
    (hwindow : |now.val - signedAt.toInt| ≤ window) :
    verifyRequest P mac headers body secretLookup now window =
      .ok ⟨true, some tenantId, none, none⟩ := by
  unfold signRequest at hsigned
  cases htime : pyStr signedAt.toInt with
  | error e =>
    rw [htime] at hsigned
    cases hsigned
  | ok timestamp =>
    obtain ⟨hint, hascii, hne⟩ := pyInt_pyStr (P := P) htime
    obtain ⟨signature, hsignature⟩ :=
      computeSignature_ascii mac secret hascii body
    simp only [htime, hsignature] at hsigned
    obtain rfl := Except.ok.inj hsigned
    have hsig : signature ≠ "" := by
      unfold computeSignature at hsignature
      split at hsignature
      · cases hsignature
      · rw [← Except.ok.inj hsignature]
        exact mac.ne_empty _ _
    have hpresents := presents_signed P htenant hne hsig
    have hauthentic : Authentic P mac (signedHeaders tenantId timestamp
        signature) body secretLookup now window tenantId timestamp
        signature :=
      ⟨hpresents, ⟨_, hint, near_of_within (binary_toInt signedAt)
        (toInt_finite signedAt) hsize hwindow⟩, secret, hsecret, hsignature⟩
    exact verify_of_authentic hauthentic

-- ------------------------------------------------------ an idealised hash

/-- Bytes in unary, each ended by a letter of its own. -/
def unary (bs : Bytes) : List Char :=
  bs.flatMap fun b => List.replicate b.toNat 'a' ++ ['b']

theorem unary_cons (b : UInt8) (bs : Bytes) :
    unary (b :: bs) = List.replicate b.toNat 'a' ++ 'b' :: unary bs := by
  unfold unary
  rw [List.flatMap_cons, List.append_assoc]
  rfl

theorem mem_unary {bs : Bytes} {c : Char} (h : c ∈ unary bs) :
    c = 'a' ∨ c = 'b' := by
  obtain ⟨b, _, hc⟩ := List.mem_flatMap.1 h
  rcases List.mem_append.1 hc with hc | hc
  · exact Or.inl (List.eq_of_mem_replicate hc)
  · exact Or.inr (List.mem_singleton.1 hc)

theorem unary_injective : ∀ {bs bs' : Bytes}, unary bs = unary bs' →
    bs = bs' := by
  intro bs
  induction bs with
  | nil =>
    intro bs' h
    cases bs' with
    | nil => rfl
    | cons b' bs' =>
      rw [unary_cons] at h
      exact absurd h.symm (List.append_ne_nil_of_right_ne_nil _
        (List.cons_ne_nil _ _))
  | cons b bs ih =>
    intro bs' h
    cases bs' with
    | nil =>
      rw [unary_cons] at h
      exact absurd h (List.append_ne_nil_of_right_ne_nil _
        (List.cons_ne_nil _ _))
    | cons b' bs' =>
      rw [unary_cons, unary_cons] at h
      have hb : ∀ n, 'b' ∉ List.replicate n 'a' := by
        intro n hmem
        exact absurd (List.eq_of_mem_replicate hmem) (by decide)
      obtain ⟨hcount, hrest⟩ := split_at_marker (hb _) (hb _) h
      have hlen := congrArg List.length hcount
      rw [List.length_replicate, List.length_replicate] at hlen
      rw [UInt8.toNat_inj.1 hlen, ih hrest]

/-- An idealised hash there is: the secret and the message, written out. -/
def plainMac : IdealMac :=
  { hexdigest := fun secret message =>
      .ofList (unary secret ++ '.' :: unary message)
    ascii := fun secret message => by
      unfold isAscii
      rw [String.toList_ofList, List.all_eq_true]
      intro c hc
      rcases List.mem_append.1 hc with hc | hc
      · rcases mem_unary hc with rfl | rfl <;> rfl
      · rcases List.mem_cons.1 hc with rfl | hc
        · rfl
        · rcases mem_unary hc with rfl | rfl <;> rfl
    ne_empty := fun secret message h => by
      have := congrArg String.toList h
      rw [String.toList_ofList] at this
      exact absurd this (List.append_ne_nil_of_right_ne_nil _
        (List.cons_ne_nil _ _))
    injective := fun secret secret' message message' h => by
      have hperiod : ∀ bs, '.' ∉ unary bs := by
        intro bs hmem
        rcases mem_unary hmem with h | h <;> exact absurd h (by decide)
      have hlists := congrArg String.toList h
      rw [String.toList_ofList, String.toList_ofList] at hlists
      obtain ⟨hsecret, hmessage⟩ :=
        split_at_marker (hperiod _) (hperiod _) hlists
      exact ⟨unary_injective hsecret, unary_injective hmessage⟩ }

/-- A platform whose texts are ASCII. -/
def plainPlatform : Platform :=
  { lower := asciiLower, lower_ascii := asciiLower_agrees
    decimal := fun _ => none, decimal_lt := no_decimal }

/-- A clock that shows a small integer. -/
def seconds (n : Int) (h : |n| ≤ 2 ^ 62) (hbinary : Binary (n : ℚ)) :
    Float64 :=
  ⟨n, hbinary, by
    have hsize : |(n : ℚ)| ≤ 2 ^ 62 := by exact_mod_cast h
    have hhalf : (2 : ℚ) ^ 971 ≤ 2 ^ 1023 :=
      pow_le_pow_right₀ one_le_two (Nat.le_of_ble_eq_true rfl)
    have hfloat : (2 : ℚ) ^ 62 ≤ 2 ^ 1023 :=
      pow_le_pow_right₀ one_le_two (Nat.le_of_ble_eq_true rfl)
    have hdouble : (2 : ℚ) ^ 1024 = 2 * 2 ^ 1023 := pow_succ' 2 1023
    rw [maxFloat, le_sub_iff_add_le, hdouble, two_mul]
    exact add_le_add (hsize.trans hfloat) hhalf⟩

/-- A clock at the epoch. -/
def epoch : Float64 :=
  seconds 0 (by decide) (Data.binary_intCast (by decide))

/-- A clock in the year 2023. -/
def autumn2023 : Float64 :=
  seconds 1700000000 (by decide) (Data.binary_intCast (by decide))

end SdlcOs.Dispatch
