/-
What was printed is read back, and what was cut short is not.

The induction is on the value: the text of each is read under as much
fuel as it is long, whatever follows it, as long as no numeral character
does (`Fenced`), for a number would go on.
-/
import Mathlib.Data.List.TakeWhile
import SdlcOs.Json.Layout

namespace SdlcOs.Json

-- ==== strings

theorem hexVal_digitChar : ∀ d < 16, hexVal (Nat.digitChar d) = some d := by
  decide

theorem readHex_escape {n : Nat} (hn : n < 0x10000) (rest : List Char) :
    readHex (Nat.digitChar (n / 4096 % 16) :: Nat.digitChar (n / 256 % 16) ::
      Nat.digitChar (n / 16 % 16) :: Nat.digitChar (n % 16) :: rest) =
        some (n, rest) := by
  have hmod : ∀ k, k % 16 < 16 := fun k => Nat.mod_lt k (by omega)
  simp only [readHex, hexVal_digitChar _ (hmod _), Option.bind_eq_bind,
    Option.bind_some, Option.some.injEq, Prod.mk.injEq, and_true]
  omega

theorem readUnicode_unit {n : Nat} (hn : n < 0x10000)
    (hunit : n < 0xd800 ∨ 0xe000 ≤ n) (rest : List Char) :
    readChar (unicodeEscape n ++ rest) = some (Char.ofNat n, rest) := by
  show readUnicode (_ :: _ :: _ :: _ :: rest) = _
  unfold readUnicode
  rw [readHex_escape hn]
  dsimp only
  rw [if_neg (by omega), if_neg (by omega)]

theorem readUnicode_pair {high low : Nat} (hhigh : 0xd800 ≤ high)
    (hhigh' : high < 0xdc00) (hlow : 0xdc00 ≤ low) (hlow' : low < 0xe000)
    (rest : List Char) :
    readChar (unicodeEscape high ++ unicodeEscape low ++ rest) =
      some (joinPair high low, rest) := by
  show readUnicode (_ :: _ :: _ :: _ :: (unicodeEscape low ++ rest)) = _
  unfold readUnicode
  rw [readHex_escape (by omega)]
  dsimp only
  rw [if_pos ⟨hhigh, hhigh'⟩]
  have hread : readLow (unicodeEscape low ++ rest) = some (low, rest) :=
    readHex_escape (by omega) rest
  rw [hread]
  dsimp only
  rw [if_pos ⟨hlow, hlow'⟩]

/-- The halves of the pair of a character put it together again. -/
theorem joinPair_halves {c : Char} (hc : 0x10000 ≤ c.toNat) :
    joinPair (0xd800 + (c.toNat - 0x10000) / 0x400)
      (0xdc00 + (c.toNat - 0x10000) % 0x400) = c := by
  have hsum : 0x10000 + (0xd800 + (c.toNat - 0x10000) / 0x400 - 0xd800) * 0x400 +
      (0xdc00 + (c.toNat - 0x10000) % 0x400 - 0xdc00) = c.toNat := by
    omega
  rw [joinPair, hsum, Char.ofNat_toNat]

theorem readChar_escape (c : Char) (rest : List Char) :
    readChar (escapeChar c ++ rest) = some (c, rest) := by
  have hvalid : c.toNat < 0xd800 ∨ 0xdfff < c.toNat ∧ c.toNat < 0x110000 :=
    c.valid
  unfold escapeChar
  by_cases hquote : c = '"'
  · subst hquote
    rfl
  rw [if_neg hquote]
  by_cases hslash : c = '\\'
  · subst hslash
    rfl
  rw [if_neg hslash]
  by_cases hn : c = '\n'
  · subst hn
    rfl
  rw [if_neg hn]
  by_cases hr : c = '\r'
  · subst hr
    rfl
  rw [if_neg hr]
  by_cases ht : c = '\t'
  · subst ht
    rfl
  rw [if_neg ht]
  by_cases hf : c = '\x0c'
  · subst hf
    rfl
  rw [if_neg hf]
  by_cases hb : c = '\x08'
  · subst hb
    rfl
  rw [if_neg hb]
  by_cases hprint : ' ' ≤ c ∧ c ≤ '~'
  · have hraw : ¬ (c = '"' ∨ c.toNat < 32) := by
      rintro (h | h)
      · exact hquote h
      · exact absurd (UInt32.le_iff_toNat_le.1 hprint.1) (Nat.not_le.2 h)
    rw [if_pos hprint]
    show (if c = '\\' then _ else if _ then none else some (c, rest)) = _
    rw [if_neg hslash, if_neg hraw]
  rw [if_neg hprint]
  by_cases hunit : c.toNat < 0x10000
  · rw [if_pos hunit, readUnicode_unit hunit (by omega), Char.ofNat_toNat]
  · rw [if_neg hunit]
    have hlow := Nat.mod_lt (c.toNat - 0x10000) (show 0 < 0x400 by decide)
    dsimp only
    rw [readUnicode_pair (by omega) (by omega) (by omega) (by omega),
      joinPair_halves (by omega)]

theorem escapeChar_cons (c : Char) :
    ∃ a w, escapeChar c = a :: w ∧ a ≠ '"' := by
  unfold escapeChar
  split
  · exact ⟨_, _, rfl, by decide⟩
  · next hquote =>
    split
    · exact ⟨_, _, rfl, by decide⟩
    split
    · exact ⟨_, _, rfl, by decide⟩
    split
    · exact ⟨_, _, rfl, by decide⟩
    split
    · exact ⟨_, _, rfl, by decide⟩
    split
    · exact ⟨_, _, rfl, by decide⟩
    split
    · exact ⟨_, _, rfl, by decide⟩
    split
    · exact ⟨_, _, rfl, hquote⟩
    split
    · exact ⟨_, _, rfl, by decide⟩
    · exact ⟨_, _, rfl, by decide⟩

theorem readString_escape (rest : List Char) :
    ∀ (cs : List Char) (n : Nat), cs.length < n →
      readString n (cs.flatMap escapeChar ++ '"' :: rest) =
        some (cs, rest) := by
  intro cs
  induction cs with
  | nil =>
    intro n hn
    obtain ⟨n, rfl⟩ : ∃ k, n = k + 1 := ⟨n - 1, by omega⟩
    rfl
  | cons c cs ih =>
    intro n hn
    obtain ⟨n, rfl⟩ : ∃ k, n = k + 1 := ⟨n - 1, by omega⟩
    obtain ⟨a, w, hc, ha⟩ := escapeChar_cons c
    have hread := readChar_escape c (cs.flatMap escapeChar ++ '"' :: rest)
    rw [List.flatMap_cons, List.append_assoc, hc, List.cons_append,
      readString_cons ha, ← List.cons_append, ← hc, hread]
    dsimp only
    rw [ih n (Nat.lt_of_succ_lt_succ hn)]
    rfl

-- ==== numbers

theorem isNatText_toDigits (n : Nat) : isNatText (Nat.toDigits 10 n) = true := by
  unfold isNatText
  rw [Nat.ofDigitChars_ten_toDigits, Bool.and_eq_true, decide_eq_true_eq,
    List.all_eq_true]
  exact ⟨fun c hc => Nat.isDigit_of_mem_toDigits (by decide) (by decide) hc,
    rfl⟩

theorem toDigits_cons (n : Nat) :
    ∃ d ds, Nat.toDigits 10 n = d :: ds ∧ d.isDigit = true := by
  cases h : Nat.toDigits 10 n with
  | nil => exact absurd h Nat.toDigits_ne_nil
  | cons d ds =>
    refine ⟨d, ds, rfl, ?_⟩
    refine Nat.isDigit_of_mem_toDigits (b := 10) (n := n) (by decide)
      (by decide) ?_
    rw [h]
    exact List.mem_cons_self ..

theorem readInt_intText (n : Int) : readInt (intText n) = some n := by
  cases n with
  | ofNat n =>
    obtain ⟨d, ds, hds, hd⟩ := toDigits_cons n
    have hminus : d ≠ '-' := by
      rintro rfl
      cases hd
    show readInt (Nat.toDigits 10 n) = _
    rw [readInt, if_pos (isNatText_toDigits n), Nat.ofDigitChars_ten_toDigits]
    · rfl
    · intro ds' h
      rw [hds] at h
      exact hminus (List.cons.inj h).1
  | negSucc n =>
    show (if isNatText (Nat.toDigits 10 (n + 1)) then _ else _) = _
    rw [if_pos (isNatText_toDigits _), Nat.ofDigitChars_ten_toDigits]
    rfl

theorem isFraction_digits {ds : List Char} (h : isNatText ds = true) :
    isFraction (ds.dropWhile Char.isDigit) = false := by
  unfold isNatText at h
  rw [Bool.and_eq_true, List.all_eq_true] at h
  rw [List.dropWhile_eq_nil_iff.2 h.1]
  rfl

theorem readInt_float {s : List Char} (h : isFloatText s = true) :
    readInt s = none := by
  unfold readInt
  split
  · next ds =>
    split
    · next hds =>
      rw [isFloatText, isFraction_digits hds, Bool.and_false] at h
      cases h
    · rfl
  · next ds hminus =>
    split
    · next hds =>
      rw [isFloatText, isFraction_digits hds, Bool.and_false] at h
      · cases h
      · exact hminus
    · rfl

variable {φ : Type} {F : FloatText φ}

theorem isNumeral_of_isDigit {c : Char} (h : c.isDigit = true) :
    isNumeral c = true := by
  unfold isNumeral
  rw [h]
  rfl

theorem intText_numeral (n : Int) :
    (∀ c ∈ intText n, isNumeral c = true) ∧ intText n ≠ [] := by
  have hdigits : ∀ k, ∀ c ∈ Nat.toDigits 10 k, isNumeral c = true :=
    fun k c hc => isNumeral_of_isDigit
      (Nat.isDigit_of_mem_toDigits (by decide) (by decide) hc)
  cases n with
  | ofNat n => exact ⟨hdigits n, Nat.toDigits_ne_nil⟩
  | negSucc n =>
    refine ⟨?_, List.cons_ne_nil _ _⟩
    intro c hc
    rcases List.mem_cons.1 hc with rfl | hc
    · rfl
    · exact hdigits _ c hc

/-- No numeral character follows. -/
def Fenced (s : List Char) : Prop := ∀ c ∈ s.head?, isNumeral c = false

theorem readAtom_word {w rest : List Char} {v : Json φ}
    (hw : ∀ c ∈ w, isNumeral c = true) (hne : w ≠ [])
    (hrest : Fenced rest) (hv : readNumber F w = some v) :
    readAtom F (w ++ rest) = some (v, rest) := by
  obtain ⟨c, w, rfl⟩ := List.exists_cons_of_ne_nil hne
  have hstop : rest.takeWhile isNumeral = [] ∧
      rest.dropWhile isNumeral = rest := by
    cases rest with
    | nil => exact ⟨rfl, rfl⟩
    | cons d rest =>
      have hd : ¬ isNumeral d = true := by
        rw [hrest d rfl]
        decide
      exact ⟨List.takeWhile_cons_of_neg hd, List.dropWhile_cons_of_neg hd⟩
  rw [List.cons_append, readAtom_numeral (hw c (List.mem_cons_self ..)),
    ← List.cons_append, List.takeWhile_append_of_pos hw,
    List.dropWhile_append_of_pos hw, hstop.1, hstop.2, List.append_nil, hv]
  rfl

-- ==== spaces

theorem skip_cons {c : Char} (hc : isSpace c = false) (s : List Char) :
    skip (c :: s) = c :: s :=
  List.dropWhile_cons_of_neg (by rw [hc]; decide)

theorem skip_spaces {w : List Char} (hw : ∀ c ∈ w, isSpace c = true)
    (s : List Char) : skip (w ++ s) = skip s :=
  List.dropWhile_append_of_pos hw

theorem expect_spaces {w : List Char} (hw : ∀ c ∈ w, isSpace c = true)
    (c : Char) (s : List Char) : expect c (w ++ s) = expect c s := by
  unfold expect
  rw [skip_spaces hw]

theorem expect_self {c : Char} (hc : isSpace c = false) (s : List Char) :
    expect c (c :: s) = some s := by
  unfold expect
  rw [skip_cons hc]
  exact if_pos rfl

theorem expect_other {a c : Char} (ha : isSpace a = false) (hne : a ≠ c)
    (s : List Char) : expect c (a :: s) = none := by
  unfold expect
  rw [skip_cons ha]
  exact if_neg hne

-- ==== values

theorem readNumber_intText (n : Int) :
    readNumber F (intText n) = some (.int n) := by
  unfold readNumber
  rw [readInt_intText]

theorem readNumber_repr (x : φ) : readNumber F (F.repr x) = some (.float x) := by
  unfold readNumber
  rw [readInt_float (F.repr_float x), F.read_repr]
  exact if_pos (F.repr_float x)

theorem repr_ne_nil (x : φ) : F.repr x ≠ [] := by
  intro hnil
  have hfloat := F.repr_float x
  rw [hnil] at hfloat
  cases hfloat

/-- A numeral character opens nothing and is no white space. -/
theorem numeral_ne {c : Char} (hc : isNumeral c = true) :
    isSpace c = false ∧ c ≠ '"' ∧ c ≠ '[' ∧ c ≠ '{' ∧ c ≠ ']' := by
  have hne : ∀ d, isNumeral d = false → c ≠ d := by
    rintro d hd rfl
    rw [hc] at hd
    cases hd
  refine ⟨?_, hne _ (by decide), hne _ (by decide), hne _ (by decide),
    hne _ (by decide)⟩
  unfold isSpace
  simp only [hne ' ' (by decide), hne '\t' (by decide), hne '\n' (by decide),
    hne '\r' (by decide), decide_false, Bool.or_false]

variable {L : Layout}

/-- A text begins with no white space and no closing bracket. -/
theorem text_cons (level : Nat) (v : Json φ) :
    ∃ c s, L.text F level v = c :: s ∧ isSpace c = false ∧ c ≠ ']' := by
  have hword : ∀ w : List Char, (∀ c ∈ w, isNumeral c = true) → w ≠ [] →
      ∃ c s, w = c :: s ∧ isSpace c = false ∧ c ≠ ']' := by
    intro w hw hne
    obtain ⟨c, s, rfl⟩ := List.exists_cons_of_ne_nil hne
    have hc := numeral_ne (hw c (List.mem_cons_self ..))
    exact ⟨c, s, rfl, hc.1, hc.2.2.2.2⟩
  cases v with
  | null => exact ⟨_, _, rfl, by decide, by decide⟩
  | bool b => cases b <;> exact ⟨_, _, rfl, by decide, by decide⟩
  | int n =>
    rw [Layout.text]
    exact hword _ (intText_numeral n).1 (intText_numeral n).2
  | float x =>
    rw [Layout.text]
    exact hword _ (F.repr_numeral x) (repr_ne_nil x)
  | str s => exact ⟨_, _, rfl, by decide, by decide⟩
  | arr vs => cases vs <;> exact ⟨_, _, rfl, by decide, by decide⟩
  | obj ms =>
    rcases ms with _ | ⟨⟨k, v⟩, ms⟩ <;>
      exact ⟨_, _, rfl, by decide, by decide⟩

theorem skip_text {w : List Char} (hw : ∀ c ∈ w, isSpace c = true)
    (level : Nat) (v : Json φ) (s : List Char) :
    skip (w ++ (L.text F level v ++ s)) = L.text F level v ++ s := by
  obtain ⟨c, r, htext, hc, _⟩ := text_cons (L := L) (F := F) level v
  rw [skip_spaces hw, htext, List.cons_append, skip_cons hc]

/-- A value that begins with no quote, bracket or brace is an atom. -/
theorem readValue_atom {n : Nat} {c : Char} {s : List Char} (hquote : c ≠ '"')
    (hbracket : c ≠ '[') (hbrace : c ≠ '{') :
    readValue F (n + 1) (c :: s) = readAtom F (c :: s) := by
  rw [readValue, if_neg hquote, if_neg hbracket, if_neg hbrace]

theorem readAtom_null (rest : List Char) :
    readAtom F ('n' :: 'u' :: 'l' :: 'l' :: rest) = some (.null, rest) := by
  have hword : ('n' :: 'u' :: 'l' :: 'l' :: rest).dropPrefix?
      ['n', 'u', 'l', 'l'] = some rest := dropPrefix_iff.2 rfl
  unfold readAtom
  rw [hword]

theorem readAtom_true (rest : List Char) :
    readAtom F ('t' :: 'r' :: 'u' :: 'e' :: rest) =
      some (.bool true, rest) := by
  have hword : ('t' :: 'r' :: 'u' :: 'e' :: rest).dropPrefix?
      ['t', 'r', 'u', 'e'] = some rest := dropPrefix_iff.2 rfl
  unfold readAtom
  rw [dropPrefix_ne (by decide), hword]

theorem readAtom_false (rest : List Char) :
    readAtom F ('f' :: 'a' :: 'l' :: 's' :: 'e' :: rest) =
      some (.bool false, rest) := by
  have hword : ('f' :: 'a' :: 'l' :: 's' :: 'e' :: rest).dropPrefix?
      ['f', 'a', 'l', 's', 'e'] = some rest := dropPrefix_iff.2 rfl
  unfold readAtom
  rw [dropPrefix_ne (by decide), dropPrefix_ne (by decide), hword]

theorem readValue_word {n : Nat} {w rest : List Char} {v : Json φ}
    (hw : ∀ c ∈ w, isNumeral c = true) (hne : w ≠ [])
    (hn : w.length ≤ n) (hrest : Fenced rest)
    (hv : readNumber F w = some v) :
    readValue F n (w ++ rest) = some (v, rest) := by
  have hatom := readAtom_word hw hne hrest hv
  obtain ⟨c, w, rfl⟩ := List.exists_cons_of_ne_nil hne
  obtain ⟨n, rfl⟩ : ∃ k, n = k + 1 := ⟨n - 1, by
    rw [List.length_cons] at hn
    omega⟩
  obtain ⟨_, hquote, hbracket, hbrace, _⟩ :=
    numeral_ne (hw c (List.mem_cons_self ..))
  rw [List.cons_append] at hatom ⊢
  rw [readValue_atom hquote hbracket hbrace, hatom]

theorem readString_text {k : String} {n : Nat} (hn : (strText k).length ≤ n + 1)
    (rest : List Char) :
    readString n (k.toList.flatMap escapeChar ++ '"' :: rest) =
      some (k.toList, rest) := by
  have hlen : ∀ cs : List Char,
      cs.length ≤ (cs.flatMap escapeChar).length := by
    intro cs
    induction cs with
    | nil => exact Nat.le_refl _
    | cons c cs ih =>
      obtain ⟨a, w, hc, _⟩ := escapeChar_cons c
      rw [List.flatMap_cons, List.length_append, hc, List.length_cons,
        List.length_cons]
      omega
  refine readString_escape rest k.toList n ?_
  have hk := hlen k.toList
  unfold strText at hn
  rw [List.length_cons, List.length_append, List.length_singleton] at hn
  omega

theorem strText_append (k : String) (s : List Char) :
    strText k ++ s = '"' :: (k.toList.flatMap escapeChar ++ '"' :: s) := by
  unfold strText
  rw [List.cons_append, List.append_assoc]
  rfl

theorem readMembers_member {n : Nat} {k : String} {v : Json φ}
    {level : Nat} {s : List Char} (hk : (strText k).length ≤ n + 1)
    (hv : readValue F n (L.text F level v ++ s) = some (v, s)) :
    readMembers F (n + 1)
        (strText k ++ ':' :: (L.colon ++ (L.text F level v ++ s))) =
      readRest '}' (readMembers F n) (k, v) s := by
  have hskip : skip (L.colon ++ (L.text F level v ++ s)) =
      L.text F level v ++ s :=
    skip_text L.spaces_colon level v s
  rw [strText_append, readMembers, if_pos rfl, readString_text hk]
  dsimp only
  rw [expect_self (by decide)]
  dsimp only
  rw [hskip, hv, String.ofList_toList]

/-- White space and a closing bracket are no numeral characters. -/
theorem fenced_after {close : Char} (hclose : isNumeral close = false)
    (outer : Nat) (s : List Char) : Fenced (L.after outer ++ close :: s) := by
  intro c hc
  cases hafter : L.after outer with
  | nil =>
    rw [hafter] at hc
    obtain rfl := Option.some.inj hc
    exact hclose
  | cons a w =>
    rw [hafter] at hc
    obtain rfl := Option.some.inj hc
    have hspace := L.spaces_after outer a (by rw [hafter]; simp)
    cases ha : isNumeral a with
    | false => rfl
    | true =>
      rw [(numeral_ne ha).1] at hspace
      cases hspace

/-- What follows an element or a member is no numeral character. -/
theorem fenced_items (level : Nat) (vs : List (Json φ)) (outer : Nat)
    (s : List Char) :
    Fenced (L.itemsText F level vs ++ (L.after outer ++ ']' :: s)) := by
  cases vs with
  | nil => exact fenced_after (by decide) outer s
  | cons v vs =>
    intro c hc
    rw [Layout.itemsText] at hc
    obtain rfl := Option.some.inj hc
    rfl

theorem fenced_members (level : Nat) (ms : List (String × Json φ))
    (outer : Nat) (s : List Char) :
    Fenced (L.membersText F level ms ++ (L.after outer ++ '}' :: s)) := by
  rcases ms with _ | ⟨⟨k, v⟩, ms⟩
  · exact fenced_after (by decide) outer s
  · intro c hc
    rw [Layout.membersText] at hc
    obtain rfl := Option.some.inj hc
    rfl

theorem readRest_close {α : Type} {close : Char}
    (hclose : isSpace close = false) (hcomma : close ≠ ',')
    (read : List Char → Option (List α × List Char)) (v : α) (outer : Nat)
    (rest : List Char) :
    readRest close read v (L.after outer ++ close :: rest) =
      some ([v], rest) := by
  have hspaces := L.spaces_after outer
  unfold readRest
  rw [expect_spaces hspaces, expect_other hclose hcomma,
    expect_spaces hspaces, expect_self hclose]
  rfl

mutual

/-- The text of a value is read back, under as much fuel as it is
long. -/
theorem readValue_text : ∀ (v : Json φ) (level n : Nat) (rest : List Char),
    (L.text F level v).length ≤ n → Fenced rest →
      readValue F n (L.text F level v ++ rest) = some (v, rest)
  | .null, level, n, rest, hn, _ => by
    rw [Layout.text] at hn ⊢
    obtain ⟨n, rfl⟩ : ∃ k, n = k + 1 := ⟨n - 1, by simp at hn; omega⟩
    exact (readValue_atom (by decide) (by decide) (by decide)).trans
      (readAtom_null rest)
  | .bool true, level, n, rest, hn, _ => by
    rw [Layout.text] at hn ⊢
    obtain ⟨n, rfl⟩ : ∃ k, n = k + 1 := ⟨n - 1, by simp at hn; omega⟩
    exact (readValue_atom (by decide) (by decide) (by decide)).trans
      (readAtom_true rest)
  | .bool false, level, n, rest, hn, _ => by
    rw [Layout.text] at hn ⊢
    obtain ⟨n, rfl⟩ : ∃ k, n = k + 1 := ⟨n - 1, by simp at hn; omega⟩
    exact (readValue_atom (by decide) (by decide) (by decide)).trans
      (readAtom_false rest)
  | .int i, level, n, rest, hn, hrest => by
    rw [Layout.text] at hn ⊢
    exact readValue_word (intText_numeral i).1 (intText_numeral i).2 hn
      hrest (readNumber_intText i)
  | .float x, level, n, rest, hn, hrest => by
    rw [Layout.text] at hn ⊢
    exact readValue_word (F.repr_numeral x) (repr_ne_nil x) hn hrest
      (readNumber_repr x)
  | .str s, level, n, rest, hn, _ => by
    rw [Layout.text] at hn ⊢
    obtain ⟨n, rfl⟩ : ∃ k, n = k + 1 := ⟨n - 1, by
      simp [strText] at hn
      omega⟩
    rw [strText_append, readValue, if_pos rfl, readString_text hn]
    show some (Json.str (String.ofList s.toList), rest) = _
    rw [String.ofList_toList]
  | .arr [], level, n, rest, hn, _ => by
    rw [Layout.text] at hn ⊢
    obtain ⟨n, rfl⟩ : ∃ k, n = k + 1 := ⟨n - 1, by simp at hn; omega⟩
    rfl
  | .arr (v :: vs), level, n, rest, hn, _ => by
    have hlen : (L.text F level (.arr (v :: vs))).length =
        (L.before (level + 1)).length + 2 +
          (L.text F (level + 1) v).length +
          (L.itemsText F (level + 1) vs).length + (L.after level).length := by
      rw [Layout.text]
      simp only [List.length_cons, List.length_append,
        List.length_nil]
      omega
    obtain ⟨n, rfl⟩ : ∃ k, n = k + 2 := ⟨n - 2, by omega⟩
    obtain ⟨c, w, htext, hc, hclose⟩ := text_cons (L := L) (F := F) (level + 1) v
    have hfirst : expect ']' (L.before (level + 1) ++ (L.text F (level + 1) v ++
        (L.itemsText F (level + 1) vs ++ (L.after level ++ ']' :: rest)))) =
          none := by
      rw [expect_spaces (L.spaces_before _), htext, List.cons_append,
        expect_other hc hclose]
    have hitems : readItems F (n + 1) (L.text F (level + 1) v ++
        (L.itemsText F (level + 1) vs ++ (L.after level ++ ']' :: rest))) =
          some (v :: vs, rest) := by
      rw [readItems, readValue_text v (level + 1) n _ (by omega)
        (fenced_items _ vs level _)]
      exact readRest_items vs v (level + 1) level n rest (by omega)
    have happend : L.text F level (.arr (v :: vs)) ++ rest =
        '[' :: (L.before (level + 1) ++ (L.text F (level + 1) v ++
          (L.itemsText F (level + 1) vs ++ (L.after level ++ ']' :: rest)))) := by
      rw [Layout.text]
      simp only [List.cons_append, List.append_assoc, List.nil_append]
    rw [happend, readValue, if_neg (by decide), if_pos rfl]
    unfold readOpened
    rw [hfirst]
    dsimp only
    rw [skip_text (L.spaces_before _), hitems]
    rfl
  | .obj [], level, n, rest, hn, _ => by
    rw [Layout.text] at hn ⊢
    obtain ⟨n, rfl⟩ : ∃ k, n = k + 1 := ⟨n - 1, by simp at hn; omega⟩
    rfl
  | .obj ((k, v) :: ms), level, n, rest, hn, _ => by
    have hlen : (L.text F level (.obj ((k, v) :: ms))).length =
        (L.before (level + 1)).length + 3 + L.colon.length +
          (strText k).length +
          (L.text F (level + 1) v).length +
          (L.membersText F (level + 1) ms).length + (L.after level).length := by
      rw [Layout.text]
      simp only [List.length_cons, List.length_append,
        List.length_nil]
      omega
    obtain ⟨n, rfl⟩ : ∃ k, n = k + 2 := ⟨n - 2, by omega⟩
    have hfirst : expect '}' (L.before (level + 1) ++ (strText k ++
        ':' :: (L.colon ++ (L.text F (level + 1) v ++
          (L.membersText F (level + 1) ms ++
            (L.after level ++ '}' :: rest)))))) = none := by
      rw [expect_spaces (L.spaces_before _), strText_append]
      exact expect_other (by decide) (by decide) _
    have hskip : skip (L.before (level + 1) ++ (strText k ++
        ':' :: (L.colon ++ (L.text F (level + 1) v ++
          (L.membersText F (level + 1) ms ++
            (L.after level ++ '}' :: rest)))))) =
        strText k ++ ':' :: (L.colon ++ (L.text F (level + 1) v ++
          (L.membersText F (level + 1) ms ++
            (L.after level ++ '}' :: rest)))) := by
      rw [skip_spaces (L.spaces_before _), strText_append]
      exact skip_cons (by decide) _
    have hmembers : readMembers F (n + 1) (strText k ++
        ':' :: (L.colon ++ (L.text F (level + 1) v ++
          (L.membersText F (level + 1) ms ++
            (L.after level ++ '}' :: rest))))) = some ((k, v) :: ms, rest) := by
      rw [readMembers_member (by omega) (readValue_text v (level + 1) n _
        (by omega) (fenced_members _ ms level _))]
      exact readRest_members ms (k, v) (level + 1) level n rest (by omega)
    have happend : L.text F level (.obj ((k, v) :: ms)) ++ rest =
        '{' :: (L.before (level + 1) ++ (strText k ++
          ':' :: (L.colon ++ (L.text F (level + 1) v ++
            (L.membersText F (level + 1) ms ++
              (L.after level ++ '}' :: rest)))))) := by
      rw [Layout.text]
      simp only [List.cons_append, List.append_assoc, List.nil_append]
    rw [happend, readValue, if_neg (by decide), if_neg (by decide),
      if_pos rfl]
    unfold readOpened
    rw [hfirst]
    dsimp only
    rw [hskip, hmembers]
    rfl

/-- After an item: the items that follow it, and the closing bracket. -/
theorem readRest_items : ∀ (vs : List (Json φ)) (v : Json φ)
    (level outer n : Nat) (rest : List Char),
    (L.itemsText F level vs).length ≤ n →
      readRest ']' (readItems F n) v
        (L.itemsText F level vs ++ (L.after outer ++ ']' :: rest)) =
          some (v :: vs, rest)
  | [], v, level, outer, n, rest, _ =>
    readRest_close (by decide) (by decide) _ v outer rest
  | w :: vs, v, level, outer, n, rest, hn => by
    have hlen : (L.itemsText F level (w :: vs)).length =
        (L.between level).length + 1 + (L.text F level w).length +
          (L.itemsText F level vs).length := by
      rw [Layout.itemsText, List.length_cons, List.length_append, List.length_append]
      omega
    obtain ⟨n, rfl⟩ : ∃ k, n = k + 1 := ⟨n - 1, by omega⟩
    rw [Layout.itemsText, List.cons_append, List.append_assoc, List.append_assoc]
    unfold readRest
    rw [expect_self (by decide)]
    dsimp only
    rw [skip_text (L.spaces_between _), readItems, readValue_text w level n _ (by omega)
      (fenced_items level vs outer _)]
    dsimp only
    rw [readRest_items vs w level outer n rest (by omega)]
    rfl

/-- After a member: the members that follow it, and the closing
brace. -/
theorem readRest_members : ∀ (ms : List (String × Json φ))
    (m : String × Json φ) (level outer n : Nat) (rest : List Char),
    (L.membersText F level ms).length ≤ n →
      readRest '}' (readMembers F n) m
        (L.membersText F level ms ++ (L.after outer ++ '}' :: rest)) =
          some (m :: ms, rest)
  | [], m, level, outer, n, rest, _ =>
    readRest_close (by decide) (by decide) _ m outer rest
  | (k, v) :: ms, m, level, outer, n, rest, hn => by
    have hlen : (L.membersText F level ((k, v) :: ms)).length =
        (L.between level).length + 2 + L.colon.length +
          (strText k).length +
          (L.text F level v).length +
          (L.membersText F level ms).length := by
      rw [Layout.membersText]
      simp only [List.length_cons, List.length_append]
      omega
    obtain ⟨n, rfl⟩ : ∃ k, n = k + 1 := ⟨n - 1, by omega⟩
    have happend : L.membersText F level ((k, v) :: ms) ++
        (L.after outer ++ '}' :: rest) =
          ',' :: (L.between level ++ (strText k ++
            ':' :: (L.colon ++ (L.text F level v ++ (L.membersText F level ms ++
              (L.after outer ++ '}' :: rest)))))) := by
      rw [Layout.membersText]
      simp only [List.cons_append, List.append_assoc]
    have hskip : skip (L.between level ++ (strText k ++
        ':' :: (L.colon ++ (L.text F level v ++ (L.membersText F level ms ++
          (L.after outer ++ '}' :: rest)))))) =
        strText k ++ ':' :: (L.colon ++ (L.text F level v ++
          (L.membersText F level ms ++
            (L.after outer ++ '}' :: rest)))) := by
      rw [skip_spaces (L.spaces_between _), strText_append]
      exact skip_cons (by decide) _
    rw [happend]
    unfold readRest
    rw [expect_self (by decide)]
    dsimp only
    rw [hskip, readMembers_member (by omega) (readValue_text v level n _
      (by omega) (fenced_members level ms outer _)),
      readRest_members ms (k, v) level outer n rest (by omega)]
    rfl

end

-- ==== results

theorem readValue_dumps (v : Json φ) {n : Nat}
    (hn : (L.dumps F v).length ≤ n) :
    readValue F n (L.dumps F v) = some (v, []) := by
  have hread := readValue_text (L := L) (F := F) v 0 n [] hn
    (by intro d hd; cases hd)
  rw [List.append_nil] at hread
  exact hread

/-- What was printed is read back. -/
theorem Layout.loads_dumps (v : Json φ) : loads F (L.dumps F v) = some v := by
  obtain ⟨c, w, htext, hc, _⟩ := text_cons (L := L) (F := F) 0 v
  have hskip : skip (L.dumps F v) = L.dumps F v := by
    unfold Layout.dumps
    rw [htext, skip_cons hc]
  unfold loads
  rw [hskip, readValue_dumps v (Nat.le_succ _)]
  exact if_pos rfl

theorem loads_dumps (v : Json φ) : loads F (dumps F v) = some v := by
  rw [← indented_dumps, Layout.loads_dumps]

/-- An object that is read from a text is read from any longer one, with
the rest left over. -/
theorem readValue_object {n m : Nat} {s r t : List Char} {v : Json φ}
    (hnm : n ≤ m) (h : readValue F n ('{' :: s) = some (v, r)) :
    readValue F m ('{' :: s ++ t) = some (v, r ++ t) := by
  cases n with
  | zero => cases h
  | succ n =>
    obtain ⟨m, rfl⟩ : ∃ k, m = k + 1 := ⟨m - 1, by omega⟩
    have hnm' : n ≤ m := Nat.le_of_succ_le_succ hnm
    rw [readValue, if_neg (by decide), if_neg (by decide), if_pos rfl] at h
    obtain ⟨x, hx, heq⟩ := Option.map_eq_some_iff.1 h
    obtain ⟨rfl, rfl⟩ := Prod.mk.inj heq
    rw [List.cons_append, readValue, if_neg (by decide), if_neg (by decide),
      if_pos rfl, readOpened_more readMembers_nil
        (fun s vs r => (read_more n).2.2 m s vs r t hnm') hx]
    rfl

theorem Layout.dumps_object (ms : List (String × Json φ)) :
    ∃ s, L.dumps F (.obj ms) = '{' :: s := by
  rcases ms with _ | ⟨⟨k, v⟩, ms⟩ <;> exact ⟨_, rfl⟩

theorem dumps_object (ms : List (String × Json φ)) :
    ∃ s, dumps F (.obj ms) = '{' :: s := by
  rw [← indented_dumps]
  exact indented.dumps_object ms

/-- An object's text cut short anywhere is read under no fuel. -/
theorem readValue_take {ms : List (String × Json φ)} {k : Nat}
    (hk : k < (L.dumps F (.obj ms)).length) {n : Nat} {v : Json φ}
    {r : List Char}
    (h : readValue F n (skip ((L.dumps F (.obj ms)).take k)) = some (v, r)) :
    False := by
  obtain ⟨s, hs⟩ := L.dumps_object (F := F) ms
  cases k with
  | zero =>
    rw [List.take_zero] at h
    cases n <;> cases h
  | succ k =>
    have htake : (L.dumps F (.obj ms)).take (k + 1) = '{' :: s.take k := by
      rw [hs, List.take_succ_cons]
    rw [htake, skip_cons (by decide)] at h
    have hwhole : '{' :: s.take k ++ s.drop k = L.dumps F (.obj ms) := by
      rw [List.cons_append, List.take_append_drop, hs]
    -- under enough fuel the whole text is read, once to its end and once
    -- with the part that was cut off left over
    have hshort := readValue_object (t := s.drop k)
      (Nat.le_max_left n (L.dumps F (.obj ms)).length) h
    rw [hwhole, readValue_dumps _ (Nat.le_max_right _ _)] at hshort
    have hrest := (Prod.mk.inj (Option.some.inj hshort)).2
    have hdrop : s.drop k = [] := (List.append_eq_nil_iff.1 hrest.symm).2
    rw [List.drop_eq_nil_iff] at hdrop
    rw [hs, List.length_cons] at hk
    omega

/-- An object's text cut short anywhere is not read. -/
theorem Layout.loads_take {ms : List (String × Json φ)} {k : Nat}
    (hk : k < (L.dumps F (.obj ms)).length) :
    loads F ((L.dumps F (.obj ms)).take k) = none := by
  unfold loads
  split
  · next v r h => exact (readValue_take hk h).elim
  · rfl

theorem loads_take {ms : List (String × Json φ)} {k : Nat}
    (hk : k < (dumps F (.obj ms)).length) :
    loads F ((dumps F (.obj ms)).take k) = none := by
  rw [← indented_dumps] at hk ⊢
  exact indented.loads_take hk

end SdlcOs.Json
