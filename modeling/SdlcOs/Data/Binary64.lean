/-
Binary floating point of 53 bits, rounded to the nearest.

A rational is `Binary` when it is an integer of at most 53 bits times a
power of two that is not below the smallest one. `nearest` takes a
rational to the nearest such, of two as near to the one whose last bit is
zero. There is no largest here: what overflows is for the user to say.

Nothing binary is nearer (`abs_nearest_sub_le`), which is all that is
needed for what is binary to stay as it is (`nearest_of_binary`) and for
the order to be kept (`nearest_mono`).
-/
import Mathlib.Data.Int.Log
import Mathlib.Data.Rat.Floor
import Mathlib.Tactic.Linarith
import Mathlib.Tactic.Ring

namespace SdlcOs.Data

-- ==== integers

/-- The nearest integer, of two as near the even one. -/
def roundEven (q : ℚ) : ℤ :=
  if q - ⌊q⌋ < 1 / 2 then ⌊q⌋
  else if 1 / 2 < q - ⌊q⌋ then ⌊q⌋ + 1
  else if ⌊q⌋ % 2 = 0 then ⌊q⌋
  else ⌊q⌋ + 1

theorem floor_nearest {q : ℚ} (h : q - ⌊q⌋ ≤ 1 / 2) (k : ℤ) :
    |(⌊q⌋ : ℚ) - q| ≤ |(k : ℚ) - q| := by
  have hfloor : (⌊q⌋ : ℚ) ≤ q := Int.floor_le q
  rw [abs_of_nonpos (by linarith)]
  by_cases hk : k ≤ ⌊q⌋
  · have hk' : (k : ℚ) ≤ ⌊q⌋ := Int.cast_le.2 hk
    rw [abs_of_nonpos (by linarith)]
    linarith
  · have hk' : (⌊q⌋ : ℚ) + 1 ≤ k := by
      rw [← Int.cast_one, ← Int.cast_add, Int.cast_le]
      omega
    rw [abs_of_nonneg (by linarith)]
    linarith

theorem ceil_nearest {q : ℚ} (h : 1 / 2 ≤ q - ⌊q⌋) (k : ℤ) :
    |((⌊q⌋ + 1 : ℤ) : ℚ) - q| ≤ |(k : ℚ) - q| := by
  have hnext : q < ⌊q⌋ + 1 := Int.lt_floor_add_one q
  rw [Int.cast_add, Int.cast_one, abs_of_nonneg (by linarith)]
  by_cases hk : k ≤ ⌊q⌋
  · have hk' : (k : ℚ) ≤ ⌊q⌋ := Int.cast_le.2 hk
    rw [abs_of_nonpos (by linarith)]
    linarith
  · have hk' : (⌊q⌋ : ℚ) + 1 ≤ k := by
      rw [← Int.cast_one, ← Int.cast_add, Int.cast_le]
      omega
    rw [abs_of_nonneg (by linarith)]
    linarith

theorem abs_roundEven_sub_le (q : ℚ) (k : ℤ) :
    |(roundEven q : ℚ) - q| ≤ |(k : ℚ) - q| := by
  unfold roundEven
  split
  · next h => exact floor_nearest (le_of_lt h) k
  · next hlow =>
    split
    · next h => exact ceil_nearest (le_of_lt h) k
    · next hhigh =>
      split
      · exact floor_nearest (not_lt.1 hhigh) k
      · exact ceil_nearest (not_lt.1 hlow) k

/-- What lies between two integers is rounded between them. -/
theorem abs_roundEven_le {q : ℚ} {k : ℕ} (h : |q| ≤ k) :
    |roundEven q| ≤ k := by
  have hlow : (-(k : ℤ)) ≤ ⌊q⌋ := by
    rw [Int.le_floor, Int.cast_neg, Int.cast_natCast]
    exact (abs_le.1 h).1
  have hhigh : (⌊q⌋ : ℚ) ≤ k := (Int.floor_le q).trans (abs_le.1 h).2
  have hfloor : ⌊q⌋ ≤ k := by exact_mod_cast hhigh
  have hup : roundEven q = ⌊q⌋ ∨
      (roundEven q = ⌊q⌋ + 1 ∧ ¬ q - ⌊q⌋ < 1 / 2) := by
    unfold roundEven
    split
    · exact Or.inl rfl
    · next hnot =>
      split
      · exact Or.inr ⟨rfl, hnot⟩
      · split
        · exact Or.inl rfl
        · exact Or.inr ⟨rfl, hnot⟩
  rw [abs_le]
  rcases hup with hup | ⟨hup, hnot⟩
  · rw [hup]
    exact ⟨hlow, hfloor⟩
  · rw [hup]
    refine ⟨by omega, ?_⟩
    by_contra hover
    have heq : ⌊q⌋ = k := by omega
    rw [heq, Int.cast_natCast] at hnot
    have hq := (abs_le.1 h).2
    exact hnot (by linarith)

-- ==== binary

/-- An integer of at most 53 bits, times a power of two. -/
def Binary (x : ℚ) : Prop :=
  ∃ m e : ℤ, |m| ≤ 2 ^ 53 ∧ -1074 ≤ e ∧ x = m * 2 ^ e

/-- The exponent of the last bit at a rational's size. -/
def lastBit (x : ℚ) : ℤ := max (Int.log 2 |x| - 52) (-1074)

/-- The nearest binary rational. -/
def nearest (x : ℚ) : ℚ := roundEven (x / 2 ^ lastBit x) * 2 ^ lastBit x

theorem two_zpow_pos (e : ℤ) : (0 : ℚ) < 2 ^ e := zpow_pos two_pos e

theorem abs_le_lastBit (x : ℚ) : |x| ≤ 2 ^ 53 * 2 ^ lastBit x := by
  have hlt : |x| < (2 : ℕ) ^ (Int.log 2 |x| + 1) :=
    Int.lt_zpow_succ_log_self one_lt_two |x|
  have hle : Int.log 2 |x| + 1 ≤ 53 + lastBit x := by
    unfold lastBit
    omega
  calc |x| ≤ (2 : ℚ) ^ (Int.log 2 |x| + 1) := le_of_lt hlt
    _ ≤ 2 ^ (53 + lastBit x) := zpow_le_zpow_right₀ one_le_two hle
    _ = 2 ^ 53 * 2 ^ lastBit x := by
        rw [zpow_add₀ two_ne_zero]
        rfl

theorem Binary.neg {x : ℚ} (h : Binary x) : Binary (-x) := by
  obtain ⟨m, e, hm, he, rfl⟩ := h
  exact ⟨-m, e, by rwa [abs_neg], he, by rw [Int.cast_neg, neg_mul]⟩

theorem nearest_binary (x : ℚ) : Binary (nearest x) := by
  refine ⟨roundEven (x / 2 ^ lastBit x), lastBit x, ?_, le_max_right _ _, rfl⟩
  have hsize : |x / 2 ^ lastBit x| ≤ ((2 ^ 53 : ℕ) : ℚ) := by
    rw [abs_div, abs_of_pos (two_zpow_pos _), div_le_iff₀ (two_zpow_pos _)]
    exact_mod_cast abs_le_lastBit x
  exact_mod_cast abs_roundEven_le hsize

theorem abs_nearest_sub_le_multiple (x : ℚ) (k : ℤ) :
    |nearest x - x| ≤ |k * 2 ^ lastBit x - x| := by
  have hscale : ∀ j : ℤ, |(j : ℚ) * 2 ^ lastBit x - x| =
      |(j : ℚ) - x / 2 ^ lastBit x| * 2 ^ lastBit x := by
    intro j
    rw [← abs_of_pos (two_zpow_pos (lastBit x)), ← abs_mul, sub_mul,
      abs_of_pos (two_zpow_pos (lastBit x)),
      div_mul_cancel₀ _ (two_zpow_pos _).ne']
  unfold nearest
  rw [hscale, hscale]
  exact mul_le_mul_of_nonneg_right (abs_roundEven_sub_le _ k)
    (two_zpow_pos _).le

/-- What is binary and no multiple of the last bit is smaller than the
power of two below the rational. -/
theorem Binary.multiple_or {b : ℚ} (hb : Binary b) (x : ℚ) :
    (∃ k : ℤ, b = k * 2 ^ lastBit x) ∨
      (|b| ≤ 2 ^ (lastBit x + 52) ∧ lastBit x = Int.log 2 |x| - 52) := by
  obtain ⟨m, e, hm, he, rfl⟩ := hb
  by_cases hbit : lastBit x ≤ e
  · refine Or.inl ⟨m * 2 ^ (e - lastBit x).toNat, ?_⟩
    rw [Int.cast_mul, Int.cast_pow, Int.cast_ofNat, mul_assoc, ← zpow_natCast,
      ← zpow_add₀ two_ne_zero]
    congr 2
    omega
  · have hm' : |(m : ℚ)| ≤ 2 ^ (53 : ℤ) := by exact_mod_cast hm
    refine Or.inr ⟨?_, by unfold lastBit at hbit ⊢; omega⟩
    rw [abs_mul, abs_of_pos (two_zpow_pos e)]
    calc |(m : ℚ)| * 2 ^ e ≤ 2 ^ (53 : ℤ) * 2 ^ e :=
          mul_le_mul_of_nonneg_right hm' (two_zpow_pos e).le
      _ = 2 ^ (53 + e) := (zpow_add₀ two_ne_zero _ _).symm
      _ ≤ 2 ^ (lastBit x + 52) :=
          zpow_le_zpow_right₀ one_le_two (by omega)

/-- Nothing binary is nearer. -/
theorem abs_nearest_sub_le (x : ℚ) {b : ℚ} (hb : Binary b) :
    |nearest x - x| ≤ |b - x| := by
  rcases hb.multiple_or x with ⟨k, rfl⟩ | ⟨hsmall, hbit⟩
  · exact abs_nearest_sub_le_multiple x k
  · by_cases hx : x = 0
    · subst hx
      have h := abs_nearest_sub_le_multiple 0 0
      rw [Int.cast_zero, zero_mul, sub_self, abs_zero] at h
      exact h.trans (abs_nonneg _)
    · -- The power of two below the rational lies between the two.
      have hpower : (2 : ℚ) ^ (lastBit x + 52) ≤ |x| := by
        rw [hbit, sub_add_cancel]
        exact Int.zpow_log_le_self one_lt_two (abs_pos.2 hx)
      have hmultiple : (2 : ℚ) ^ (lastBit x + 52) =
          ((2 ^ 52 : ℤ) : ℚ) * 2 ^ lastBit x := by
        rw [zpow_add₀ two_ne_zero, mul_comm]
        norm_num
      rcases lt_or_gt_of_ne hx with hneg | hpos
      · rw [abs_of_neg hneg] at hpower
        have h := abs_nearest_sub_le_multiple x (-2 ^ 52)
        have habove : 0 ≤ -(2 : ℚ) ^ (lastBit x + 52) - x := by linarith
        rw [Int.cast_neg, neg_mul, ← hmultiple, abs_of_nonneg habove] at h
        refine h.trans (le_trans ?_ (le_abs_self (b - x)))
        linarith [(abs_le.1 hsmall).1]
      · rw [abs_of_pos hpos] at hpower
        have h := abs_nearest_sub_le_multiple x (2 ^ 52)
        have hbelow : (2 : ℚ) ^ (lastBit x + 52) - x ≤ 0 := by linarith
        rw [← hmultiple, abs_of_nonpos hbelow] at h
        refine h.trans (le_trans ?_ (neg_le_abs (b - x)))
        linarith [(abs_le.1 hsmall).2]

/-- What is binary is its own nearest. -/
theorem nearest_of_binary {x : ℚ} (h : Binary x) : nearest x = x := by
  have hle := abs_nearest_sub_le x h
  rw [sub_self, abs_zero] at hle
  exact sub_eq_zero.1 (abs_nonpos_iff.1 hle)

/-- Rounding keeps the order. -/
theorem nearest_mono {x y : ℚ} (h : x ≤ y) : nearest x ≤ nearest y := by
  by_contra hlt
  rw [not_le] at hlt
  -- Each of the two is at least as near to its own as the other one is, so
  -- the middle between them is below the one and above the other.
  have hx := abs_nearest_sub_le x (nearest_binary y)
  have hy := abs_nearest_sub_le y (nearest_binary x)
  have hmid : nearest x + nearest y ≤ 2 * x := by
    by_contra hcon
    rw [not_le] at hcon
    rw [abs_of_pos (by linarith)] at hx
    rcases abs_cases (nearest y - x) with ⟨heq, -⟩ | ⟨heq, -⟩ <;> linarith
  have hmid' : 2 * y ≤ nearest x + nearest y := by
    by_contra hcon
    rw [not_le] at hcon
    rw [abs_of_neg (by linarith)] at hy
    rcases abs_cases (nearest x - y) with ⟨heq, -⟩ | ⟨heq, -⟩ <;> linarith
  have heq : x = y := le_antisymm h (by linarith)
  rw [heq] at hlt
  exact lt_irrefl _ hlt

-- ==== the sizes

theorem binary_intCast {n : ℤ} (h : |n| ≤ 2 ^ 53) : Binary (n : ℚ) :=
  ⟨n, 0, h, by omega, by rw [zpow_zero, mul_one]⟩

theorem abs_nearest_le {x b : ℚ} (hb : Binary b) (h : |x| ≤ b) :
    |nearest x| ≤ b := by
  obtain ⟨hlow, hhigh⟩ := abs_le.1 h
  have hlow' := nearest_mono hlow
  have hhigh' := nearest_mono hhigh
  rw [nearest_of_binary hb.neg] at hlow'
  rw [nearest_of_binary hb] at hhigh'
  exact abs_le.2 ⟨hlow', hhigh'⟩

theorem le_abs_nearest {x b : ℚ} (hb : Binary b) (h : b ≤ |x|) :
    b ≤ |nearest x| := by
  rcases le_abs.1 h with h | h
  · have hround := nearest_mono h
    rw [nearest_of_binary hb] at hround
    exact hround.trans (le_abs_self _)
  · have hround := nearest_mono (le_neg_of_le_neg h)
    rw [nearest_of_binary hb.neg] at hround
    exact (le_neg_of_le_neg hround).trans (neg_le_abs _)

theorem nearest_intCast (n : ℤ) : ∃ k : ℤ, nearest (n : ℚ) = k := by
  by_cases hbit : 0 ≤ lastBit (n : ℚ)
  · refine ⟨roundEven (n / 2 ^ lastBit (n : ℚ)) * 2 ^ (lastBit (n : ℚ)).toNat,
      ?_⟩
    rw [Int.cast_mul, Int.cast_pow, Int.cast_ofNat, ← zpow_natCast,
      Int.toNat_of_nonneg hbit]
    rfl
  · refine ⟨n, nearest_of_binary (binary_intCast ?_)⟩
    have hsize := abs_le_lastBit (n : ℚ)
    have hone : (2 : ℚ) ^ lastBit (n : ℚ) ≤ 2 ^ (0 : ℤ) :=
      zpow_le_zpow_right₀ one_le_two (by omega)
    rw [zpow_zero] at hone
    have hle : |(n : ℚ)| ≤ 2 ^ 53 := by linarith
    exact_mod_cast hle

/-- What is binary and larger than 53 bits over some bit is a multiple of
that bit. -/
theorem Binary.multiple {x : ℚ} (h : Binary x) {e : ℤ}
    (hlarge : 2 ^ (e + 52) < |x|) : ∃ k : ℤ, x = k * 2 ^ e := by
  obtain ⟨m, e', hm, he', rfl⟩ := h
  by_cases hle : e ≤ e'
  · refine ⟨m * 2 ^ (e' - e).toNat, ?_⟩
    rw [Int.cast_mul, Int.cast_pow, Int.cast_ofNat, mul_assoc, ← zpow_natCast,
      ← zpow_add₀ two_ne_zero]
    congr 2
    omega
  · have hm' : |(m : ℚ)| ≤ 2 ^ (53 : ℤ) := by exact_mod_cast hm
    rw [abs_mul, abs_of_pos (two_zpow_pos e')] at hlarge
    have hsmall : |(m : ℚ)| * 2 ^ e' ≤ 2 ^ (e + 52) :=
      calc |(m : ℚ)| * 2 ^ e' ≤ 2 ^ (53 : ℤ) * 2 ^ e' :=
            mul_le_mul_of_nonneg_right hm' (two_zpow_pos e').le
        _ = 2 ^ (53 + e') := (zpow_add₀ two_ne_zero _ _).symm
        _ ≤ 2 ^ (e + 52) := zpow_le_zpow_right₀ one_le_two (by omega)
    exact absurd hlarge (not_lt.2 hsmall)

/-- Of the multiples of a bit, one beyond another of 53 bits is rounded
beyond it. -/
theorem lt_abs_nearest {e j k : ℤ} (he : -1074 ≤ e) (hj : 0 ≤ j)
    (hj' : j < 2 ^ 53) (h : (j : ℚ) * 2 ^ e < |(k : ℚ) * 2 ^ e|) :
    (j : ℚ) * 2 ^ e < |nearest (k * 2 ^ e)| := by
  have hpos := two_zpow_pos e
  have hnext : (((j + 1 : ℤ) : ℚ)) * 2 ^ e ≤ |(k : ℚ) * 2 ^ e| := by
    rw [abs_mul, abs_of_pos hpos] at h ⊢
    have hlt : (j : ℚ) < |(k : ℚ)| := lt_of_mul_lt_mul_right h hpos.le
    have hle : j + 1 ≤ |k| := by
      have hlt' : j < |k| := by exact_mod_cast hlt
      omega
    refine mul_le_mul_of_nonneg_right ?_ hpos.le
    exact_mod_cast hle
  have hbinary : Binary (((j + 1 : ℤ) : ℚ) * 2 ^ e) :=
    ⟨j + 1, e, by rw [abs_of_nonneg (by omega)]; omega, he, rfl⟩
  refine lt_of_lt_of_le ?_ (le_abs_nearest hbinary hnext)
  rw [Int.cast_add, Int.cast_one, add_mul, one_mul]
  exact lt_add_of_pos_right _ hpos

end SdlcOs.Data
