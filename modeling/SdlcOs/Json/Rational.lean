/-
A printer and a reader of rationals.

An integer is printed as Python prints the float of that value, `3.0`.
Any other rational is printed as its numerator with its denominator for
an exponent, which no platform does; it keeps the printer injective on
all of them.
-/
import SdlcOs.Json.RoundTrip
import Mathlib.Data.Rat.Defs
import Mathlib.Data.Rat.Lemmas

namespace SdlcOs.Json

/-- The text after a number's integer part: `.0`, or its denominator as
an exponent. -/
def tailText (den : Nat) : List Char :=
  if den = 1 then ['.', '0'] else 'e' :: Nat.toDigits 10 den

/-- What `tailText` stands for. -/
def readTail : List Char → Option Nat
  | 'e' :: ds => some (Nat.ofDigitChars 10 ds 0)
  | '.' :: _ => some 1
  | _ => none

/-- A character of an integer. -/
def isIntChar (c : Char) : Bool := c.isDigit || c = '-'

theorem intText_intChar (n : Int) : ∀ c ∈ intText n, isIntChar c = true := by
  have hdigits : ∀ m : Nat, ∀ c ∈ Nat.toDigits 10 m, isIntChar c = true := by
    intro m c hc
    unfold isIntChar
    rw [Nat.isDigit_of_mem_toDigits (by decide) (by decide) hc]
    rfl
  cases n with
  | ofNat n => exact hdigits n
  | negSucc n =>
    intro c hc
    rcases List.mem_cons.1 hc with rfl | hc
    · rfl
    · exact hdigits (n + 1) c hc

theorem readTail_tailText (den : Nat) :
    readTail (tailText den) = some den := by
  unfold tailText
  split
  · next h => rw [h]; rfl
  · show some _ = _
    rw [Nat.ofDigitChars_ten_toDigits]

theorem tailText_numeral (den : Nat) :
    ∀ c ∈ tailText den, isNumeral c = true := by
  intro c hc
  unfold tailText at hc
  split at hc
  · rcases List.mem_cons.1 hc with rfl | hc
    · rfl
    · obtain rfl := List.mem_singleton.1 hc
      rfl
  · rcases List.mem_cons.1 hc with rfl | hc
    · rfl
    · exact isNumeral_of_isDigit
        (Nat.isDigit_of_mem_toDigits (by decide) (by decide) hc)

theorem tailText_cons (den : Nat) : ∃ c cs, tailText den = c :: cs ∧
    isIntChar c = false := by
  unfold tailText
  split
  · exact ⟨'.', _, rfl, rfl⟩
  · exact ⟨'e', _, rfl, rfl⟩

theorem isFraction_tailText (den : Nat) :
    isFraction (tailText den) = true := by
  unfold tailText
  split
  · rfl
  · have hall : (Nat.toDigits 10 den).all Char.isDigit = true :=
      List.all_eq_true.2 fun c hc =>
        Nat.isDigit_of_mem_toDigits (by decide) (by decide) hc
    obtain ⟨d, ds, hds, hd⟩ := toDigits_cons den
    rw [hds] at hall ⊢
    have hsign : d ≠ '-' ∧ d ≠ '+' := by
      constructor <;> (rintro rfl; cases hd)
    show isExponent ('e' :: d :: ds) = true
    rw [isExponent, hall]
    · rfl
    · exact fun s heq => hsign.1 (List.cons.inj heq).1
    · exact fun s heq => hsign.2 (List.cons.inj heq).1

theorem span_append {p : Char → Bool} {l : List Char} {c : Char}
    {cs : List Char} (hl : ∀ x ∈ l, p x = true) (hc : p c = false) :
    (l ++ c :: cs).takeWhile p = l ∧ (l ++ c :: cs).dropWhile p = c :: cs := by
  rw [List.takeWhile_append_of_pos hl, List.dropWhile_append_of_pos hl,
    List.takeWhile_cons_of_neg (by simp [hc]),
    List.dropWhile_cons_of_neg (by simp [hc]), List.append_nil]
  exact ⟨rfl, rfl⟩

theorem isFloatText_append (n : Int) (den : Nat) :
    isFloatText (intText n ++ tailText den) = true := by
  obtain ⟨c, cs, hcs, hc⟩ := tailText_cons den
  have hdigit : c.isDigit = false := by
    unfold isIntChar at hc
    rw [Bool.or_eq_false_iff] at hc
    exact hc.1
  have hparts : ∀ m : Nat,
      (isNatText ((Nat.toDigits 10 m ++ tailText den).takeWhile Char.isDigit) &&
        isFraction ((Nat.toDigits 10 m ++ tailText den).dropWhile
          Char.isDigit)) = true := by
    intro m
    obtain ⟨htake, hdrop⟩ := @span_append Char.isDigit _ _ cs
      (fun x hx => Nat.isDigit_of_mem_toDigits (by decide) (by decide) hx :
        ∀ x ∈ Nat.toDigits 10 m, x.isDigit = true) hdigit
    rw [← hcs] at htake hdrop
    rw [htake, hdrop, isNatText_toDigits, isFraction_tailText]
    rfl
  cases n with
  | ofNat m =>
    obtain ⟨d, ds, hds, hd⟩ := toDigits_cons m
    have hminus : d ≠ '-' := by
      rintro rfl
      cases hd
    have hm := hparts m
    show isFloatText (Nat.toDigits 10 m ++ tailText den) = true
    rw [hds] at hm ⊢
    unfold isFloatText
    split
    · next heq => exact absurd (List.cons.inj heq).1 hminus
    · exact hm
  | negSucc m => exact hparts (m + 1)

/-- A printer of rationals: integers as Python prints a float, other
numbers with their denominator. -/
def rationalText : FloatText ℚ where
  repr x := intText x.num ++ tailText x.den
  read s :=
    match readInt (s.takeWhile isIntChar), readTail (s.dropWhile isIntChar) with
    | some n, some den => some (mkRat n den)
    | _, _ => none
  repr_numeral x c hc := by
    rcases List.mem_append.1 hc with hc | hc
    · exact (intText_numeral x.num).1 c hc
    · exact tailText_numeral x.den c hc
  repr_float x := isFloatText_append x.num x.den
  read_repr x := by
    obtain ⟨c, cs, hcs, hc⟩ := tailText_cons x.den
    obtain ⟨htake, hdrop⟩ := @span_append _ _ _ cs (intText_intChar x.num) hc
    rw [hcs, htake, hdrop, ← hcs, readInt_intText, readTail_tailText]
    exact congrArg some (Rat.mkRat_self x)

end SdlcOs.Json
