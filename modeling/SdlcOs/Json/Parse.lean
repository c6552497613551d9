/-
Reading JSON text.

# The reader

`loads` is the reader of Python's `json.loads`: white space around every
token, numbers by the grammar, strings with their escapes and no raw
control character, nothing after the value. A number is taken as the
longest run of the characters numbers are made of and checked afterwards,
which accepts the same texts, since no such character can follow a
number. A lone surrogate, which a text of characters cannot hold, is an
error, and so are the three names of no number.

The reader is recursive under a fuel, of which the length of the text is
enough for what the printer makes.

# Two facts

- `loads_dumps`: what was printed is read back.
- `loads_take`: an object's text cut short anywhere is not read. The
  reader only ever stops at a character it has seen (`more`), so a value
  read from the shorter text is read from the longer one as well, with
  the rest left over; and the rest of the printed text is empty.
-/
import SdlcOs.Json.Text

namespace SdlcOs.Json

-- ==== strings

/-- The value of a hexadecimal digit. -/
def hexVal (c : Char) : Option Nat :=
  if '0' ≤ c ∧ c ≤ '9' then some (c.toNat - '0'.toNat)
  else if 'a' ≤ c ∧ c ≤ 'f' then some (c.toNat - 'a'.toNat + 10)
  else if 'A' ≤ c ∧ c ≤ 'F' then some (c.toNat - 'A'.toNat + 10)
  else none

/-- Four hexadecimal digits. -/
def readHex : List Char → Option (Nat × List Char)
  | a :: b :: c :: d :: s => do
    let a ← hexVal a
    let b ← hexVal b
    let c ← hexVal c
    let d ← hexVal d
    some (((a * 16 + b) * 16 + c) * 16 + d, s)
  | _ => none

/-- The second half of a surrogate pair, with its `\u`. -/
def readLow : List Char → Option (Nat × List Char)
  | a :: b :: s => if a = '\\' ∧ b = 'u' then readHex s else none
  | _ => none

/-- The character of a surrogate pair. -/
def joinPair (high low : Nat) : Char :=
  Char.ofNat (0x10000 + (high - 0xd800) * 0x400 + (low - 0xdc00))

/-- After `\u`: one code unit, or a pair of surrogates. -/
def readUnicode (s : List Char) : Option (Char × List Char) :=
  match readHex s with
  | none => none
  | some (u, s) =>
    if 0xd800 ≤ u ∧ u < 0xdc00 then
      match readLow s with
      | none => none
      | some (l, s) =>
        if 0xdc00 ≤ l ∧ l < 0xe000 then some (joinPair u l, s) else none
    else if 0xdc00 ≤ u ∧ u < 0xe000 then none
    else some (Char.ofNat u, s)

/-- The character a one-letter escape stands for. -/
def unescape (c : Char) : Option Char :=
  if c = '"' then some '"'
  else if c = '\\' then some '\\'
  else if c = '/' then some '/'
  else if c = 'b' then some '\x08'
  else if c = 'f' then some '\x0c'
  else if c = 'n' then some '\n'
  else if c = 'r' then some '\r'
  else if c = 't' then some '\t'
  else none

/-- What follows a backslash. -/
def readEscape : List Char → Option (Char × List Char)
  | [] => none
  | c :: s =>
    if c = 'u' then readUnicode s else (unescape c).map fun c => (c, s)

/-- One character of a string. -/
def readChar : List Char → Option (Char × List Char)
  | [] => none
  | c :: s =>
    if c = '\\' then readEscape s
    else if c = '"' ∨ c.toNat < 32 then none
    else some (c, s)

/-- A string, from after its opening quote to its closing one. -/
def readString : Nat → List Char → Option (List Char × List Char)
  | 0, _ => none
  | _ + 1, '"' :: s => some ([], s)
  | n + 1, s =>
    match readChar s with
    | none => none
    | some (c, s) => (readString n s).map fun r => (c :: r.1, r.2)

theorem readString_cons {n : Nat} {a : Char} {s : List Char} (ha : a ≠ '"') :
    readString (n + 1) (a :: s) =
      match readChar (a :: s) with
      | none => none
      | some (c, s) => (readString n s).map fun r => (c :: r.1, r.2) := by
  rw [readString]
  intro s' h
  exact ha (List.cons.inj h).1

-- ==== values

/-- White space. -/
def isSpace (c : Char) : Bool :=
  c = ' ' || c = '\t' || c = '\n' || c = '\r'

/-- Skip white space. -/
def skip (s : List Char) : List Char := s.dropWhile isSpace

/-- Skip white space and one given character. -/
def expect (c : Char) (s : List Char) : Option (List Char) :=
  match skip s with
  | [] => none
  | a :: s => if a = c then some s else none

variable {φ : Type} (F : FloatText φ)

/-- The number a run of numeral characters is. -/
def readNumber (s : List Char) : Option (Json φ) :=
  match readInt s with
  | some n => some (.int n)
  | none => if isFloatText s then (F.read s).map .float else none

/-- A value that is no string and no container. -/
def readAtom (s : List Char) : Option (Json φ × List Char) :=
  match s.dropPrefix? ['n', 'u', 'l', 'l'] with
  | some s => some (.null, s)
  | none =>
    match s.dropPrefix? ['t', 'r', 'u', 'e'] with
    | some s => some (.bool true, s)
    | none =>
      match s.dropPrefix? ['f', 'a', 'l', 's', 'e'] with
      | some s => some (.bool false, s)
      | none => (readNumber F (s.takeWhile isNumeral)).map fun v =>
        (v, s.dropWhile isNumeral)

/-- After the opening of a container: its close, or what `read` reads. -/
def readOpened {α : Type} (close : Char)
    (read : List Char → Option (List α × List Char)) (s : List Char) :
    Option (List α × List Char) :=
  match expect close s with
  | some s => some ([], s)
  | none => read (skip s)

/-- After an element: a comma and what `read` reads, or the close. -/
def readRest {α : Type} (close : Char)
    (read : List Char → Option (List α × List Char)) (v : α)
    (s : List Char) : Option (List α × List Char) :=
  match expect ',' s with
  | some s => (read (skip s)).map fun r => (v :: r.1, r.2)
  | none => (expect close s).map fun s => ([v], s)

mutual

/-- A value. -/
def readValue : Nat → List Char → Option (Json φ × List Char)
  | 0, _ => none
  | _ + 1, [] => none
  | n + 1, c :: s =>
    if c = '"' then
      (readString n s).map fun r => (.str (String.ofList r.1), r.2)
    else if c = '[' then
      (readOpened ']' (readItems n) s).map fun r => (.arr r.1, r.2)
    else if c = '{' then
      (readOpened '}' (readMembers n) s).map fun r => (.obj r.1, r.2)
    else readAtom F (c :: s)

/-- The items of an array, from the first to the closing bracket. -/
def readItems : Nat → List Char → Option (List (Json φ) × List Char)
  | 0, _ => none
  | n + 1, s =>
    match readValue n s with
    | none => none
    | some (v, s) => readRest ']' (readItems n) v s

/-- The members of an object, from the first to the closing brace. -/
def readMembers : Nat → List Char →
    Option (List (String × Json φ) × List Char)
  | 0, _ => none
  | _ + 1, [] => none
  | n + 1, c :: s =>
    if c = '"' then
      match readString n s with
      | none => none
      | some (k, s) =>
        match expect ':' s with
        | none => none
        | some s =>
          match readValue n (skip s) with
          | none => none
          | some (v, s) =>
            readRest '}' (readMembers n) (String.ofList k, v) s
    else none

end

/-- `json.loads`; `none` is a `JSONDecodeError`. -/
def loads (s : List Char) : Option (Json φ) :=
  match readValue F (s.length + 1) (skip s) with
  | some (v, rest) => if skip rest = [] then some v else none
  | none => none

-- ==== reading from a longer text

section More

variable {s r t : List Char} {n m : Nat}

/-- What white space was skipped up to is there in the longer text. -/
theorem skip_more (h : skip s ≠ []) : skip (s ++ t) = skip s ++ t := by
  unfold skip at h ⊢
  rw [List.dropWhile_append]
  cases hs : s.dropWhile isSpace with
  | nil => exact absurd hs h
  | cons c r => rfl

theorem expect_more {c : Char} (h : expect c s = some r) :
    expect c (s ++ t) = some (r ++ t) := by
  unfold expect at h ⊢
  cases hs : skip s with
  | nil =>
    rw [hs] at h
    cases h
  | cons a s₁ =>
    rw [hs] at h
    rw [skip_more (by rw [hs]; exact List.cons_ne_nil _ _), hs]
    dsimp only [List.cons_append] at h ⊢
    by_cases hac : a = c
    · rw [if_pos hac] at h ⊢
      rw [Option.some.inj h]
    · rw [if_neg hac] at h
      cases h

/-- What is not there is not there in the longer text, unless the text
ended. -/
theorem expect_less {c : Char} (h : expect c s = none) (hs : skip s ≠ []) :
    expect c (s ++ t) = none := by
  unfold expect at h ⊢
  rw [skip_more hs]
  cases hs' : skip s with
  | nil => exact absurd hs' hs
  | cons a s₁ =>
    rw [hs'] at h
    dsimp only [List.cons_append] at h ⊢
    by_cases hac : a = c
    · rw [if_pos hac] at h
      cases h
    · rw [if_neg hac]

theorem skip_ne_nil {c : Char} (h : expect c s = some r) : skip s ≠ [] := by
  intro hs
  unfold expect at h
  rw [hs] at h
  cases h

-- ------------------------------------------------------- containers

section Containers

variable {α : Type} {close : Char} {vs : List α}
variable {read read' : List Char → Option (List α × List Char)}

theorem readOpened_more (hnil : read [] = none)
    (hread : ∀ s vs r, read s = some (vs, r) →
      read' (s ++ t) = some (vs, r ++ t))
    (h : readOpened close read s = some (vs, r)) :
    readOpened close read' (s ++ t) = some (vs, r ++ t) := by
  unfold readOpened at h ⊢
  cases hclose : expect close s with
  | some s' =>
    rw [hclose] at h
    rw [expect_more hclose]
    cases h
    rfl
  | none =>
    rw [hclose] at h
    have hs : skip s ≠ [] := by
      intro hs
      dsimp only at h
      rw [hs, hnil] at h
      cases h
    rw [expect_less hclose hs, skip_more hs]
    exact hread _ _ _ h

theorem readRest_more {v : α} (hnil : read [] = none)
    (hread : ∀ s vs r, read s = some (vs, r) →
      read' (s ++ t) = some (vs, r ++ t))
    (h : readRest close read v s = some (vs, r)) :
    readRest close read' v (s ++ t) = some (vs, r ++ t) := by
  unfold readRest at h ⊢
  cases hcomma : expect ',' s with
  | some s' =>
    rw [hcomma] at h
    obtain ⟨x, hx, heq⟩ := Option.map_eq_some_iff.1 h
    obtain ⟨rfl, rfl⟩ := Prod.mk.inj heq
    have hs : skip s' ≠ [] := by
      intro hs
      rw [hs, hnil] at hx
      cases hx
    rw [expect_more hcomma]
    dsimp only
    rw [skip_more hs, hread _ _ _ hx]
    rfl
  | none =>
    rw [hcomma] at h
    obtain ⟨s', hclose, heq⟩ := Option.map_eq_some_iff.1 h
    obtain ⟨rfl, rfl⟩ := Prod.mk.inj heq
    rw [expect_less hcomma (skip_ne_nil hclose), expect_more hclose]
    rfl

theorem readRest_ne_nil {v : α} (h : readRest close read v s = some (vs, r)) :
    s ≠ [] := by
  rintro rfl
  cases h

end Containers

-- ---------------------------------------------------------- strings

theorem readHex_more {u : Nat} (h : readHex s = some (u, r)) :
    readHex (s ++ t) = some (u, r ++ t) := by
  rcases s with _ | ⟨a, _ | ⟨b, _ | ⟨c, _ | ⟨d, s⟩⟩⟩⟩
  · cases h
  · cases h
  · cases h
  · cases h
  · simp only [readHex, List.cons_append, Option.bind_eq_bind,
      Option.bind_eq_some_iff, Option.some.injEq, Prod.mk.injEq] at h ⊢
    obtain ⟨a', ha, b', hb, c', hc, d', hd, hu, rfl⟩ := h
    exact ⟨a', ha, b', hb, c', hc, d', hd, hu, rfl⟩

theorem readLow_more {u : Nat} (h : readLow s = some (u, r)) :
    readLow (s ++ t) = some (u, r ++ t) := by
  rcases s with _ | ⟨a, _ | ⟨b, s⟩⟩
  · cases h
  · cases h
  · simp only [readLow, List.cons_append] at h ⊢
    split at h
    · next hab =>
      rw [if_pos hab]
      exact readHex_more h
    · cases h

theorem readUnicode_more {c : Char} (h : readUnicode s = some (c, r)) :
    readUnicode (s ++ t) = some (c, r ++ t) := by
  unfold readUnicode at h ⊢
  cases hu : readHex s with
  | none =>
    rw [hu] at h
    cases h
  | some x =>
    obtain ⟨u, s₁⟩ := x
    rw [hu] at h
    rw [readHex_more hu]
    dsimp only at h ⊢
    by_cases hhigh : 0xd800 ≤ u ∧ u < 0xdc00
    · rw [if_pos hhigh] at h ⊢
      cases hl : readLow s₁ with
      | none =>
        rw [hl] at h
        cases h
      | some y =>
        obtain ⟨l, s₂⟩ := y
        rw [hl] at h
        rw [readLow_more hl]
        dsimp only at h ⊢
        by_cases hlow : 0xdc00 ≤ l ∧ l < 0xe000
        · rw [if_pos hlow] at h ⊢
          obtain ⟨hc, hr⟩ := Prod.mk.inj (Option.some.inj h)
          rw [hc, hr]
        · rw [if_neg hlow] at h
          cases h
    · rw [if_neg hhigh] at h ⊢
      by_cases hlow : 0xdc00 ≤ u ∧ u < 0xe000
      · rw [if_pos hlow] at h
        cases h
      · rw [if_neg hlow] at h ⊢
        cases h
        rfl

theorem readEscape_more {c : Char} (h : readEscape s = some (c, r)) :
    readEscape (s ++ t) = some (c, r ++ t) := by
  cases s with
  | nil => cases h
  | cons a s =>
    simp only [readEscape, List.cons_append] at h ⊢
    by_cases hu : a = 'u'
    · rw [if_pos hu] at h ⊢
      exact readUnicode_more h
    · rw [if_neg hu] at h ⊢
      obtain ⟨a', ha, heq⟩ := Option.map_eq_some_iff.1 h
      obtain ⟨rfl, rfl⟩ := Prod.mk.inj heq
      rw [ha]
      rfl

theorem readChar_more {c : Char} (h : readChar s = some (c, r)) :
    readChar (s ++ t) = some (c, r ++ t) := by
  cases s with
  | nil => cases h
  | cons a s =>
    simp only [readChar, List.cons_append] at h ⊢
    by_cases hslash : a = '\\'
    · rw [if_pos hslash] at h ⊢
      exact readEscape_more h
    · rw [if_neg hslash] at h ⊢
      by_cases hraw : a = '"' ∨ a.toNat < 32
      · rw [if_pos hraw] at h
        cases h
      · rw [if_neg hraw] at h ⊢
        cases h
        rfl

theorem readString_more {cs : List Char} (hnm : n ≤ m)
    (h : readString n s = some (cs, r)) :
    readString m (s ++ t) = some (cs, r ++ t) := by
  induction n generalizing m s cs with
  | zero => cases h
  | succ n ih =>
    obtain ⟨m, rfl⟩ : ∃ k, m = k + 1 := ⟨m - 1, by omega⟩
    rcases s with _ | ⟨a, s⟩
    · cases h
    · by_cases hquote : a = '"'
      · subst hquote
        cases h
        rfl
      · rw [readString_cons hquote] at h
        rw [List.cons_append, readString_cons hquote, ← List.cons_append]
        cases hc : readChar (a :: s) with
        | none =>
          rw [hc] at h
          cases h
        | some x =>
          obtain ⟨c, s₁⟩ := x
          rw [hc] at h
          rw [readChar_more hc]
          dsimp only at h ⊢
          obtain ⟨y, hy, heq⟩ := Option.map_eq_some_iff.1 h
          obtain ⟨rfl, rfl⟩ := Prod.mk.inj heq
          rw [ih (Nat.le_of_succ_le_succ hnm) hy]
          rfl

-- ----------------------------------------------------------- values

variable {φ : Type} {F : FloatText φ}

theorem dropPrefix_iff {w s r : List Char} :
    s.dropPrefix? w = some r ↔ s = w ++ r := by
  rw [List.dropPrefix?_eq_some_iff]
  constructor
  · rintro ⟨w', hs, hw⟩
    rw [hs, eq_of_beq hw]
  · intro hs
    exact ⟨w, hs, beq_self_eq_true w⟩

theorem dropPrefix_ne {a b : Char} {w s : List Char} (h : b ≠ a) :
    (b :: s).dropPrefix? (a :: w) = none := by
  rw [Option.eq_none_iff_forall_ne_some]
  intro r hr
  exact h (List.cons.inj (dropPrefix_iff.1 hr)).1

/-- A text that begins with a numeral character can only be a number. -/
theorem readAtom_numeral {c : Char} (hc : isNumeral c = true) :
    readAtom F (c :: s) = (readNumber F ((c :: s).takeWhile isNumeral)).map
      fun v => (v, (c :: s).dropWhile isNumeral) := by
  have hne : ∀ d, isNumeral d = false → c ≠ d := by
    rintro d hd rfl
    rw [hc] at hd
    cases hd
  unfold readAtom
  rw [dropPrefix_ne (hne 'n' (by decide)), dropPrefix_ne (hne 't' (by decide)),
    dropPrefix_ne (hne 'f' (by decide))]

theorem readNumber_nil : readNumber F [] = none := by
  rfl

theorem numeral_more (hr : t = [] ∨ s.dropWhile isNumeral ≠ []) :
    (s ++ t).takeWhile isNumeral = s.takeWhile isNumeral ∧
      (s ++ t).dropWhile isNumeral = s.dropWhile isNumeral ++ t := by
  rcases hr with rfl | hr
  · rw [List.append_nil, List.append_nil]
    exact ⟨rfl, rfl⟩
  · refine ⟨?_, ?_⟩
    · rw [List.takeWhile_append, if_neg]
      intro hlen
      have hall : s.takeWhile isNumeral = s :=
        (List.takeWhile_prefix _).eq_of_length hlen
      refine hr ?_
      have happ := List.takeWhile_append_dropWhile (p := isNumeral) (l := s)
      rw [hall] at happ
      exact List.append_right_eq_self.1 happ
    · rw [List.dropWhile_append, if_neg]
      rw [List.isEmpty_iff]
      exact hr

theorem readAtom_more {v : Json φ} (h : readAtom F s = some (v, r))
    (hr : t = [] ∨ r ≠ []) : readAtom F (s ++ t) = some (v, r ++ t) := by
  have hword : ∀ {w s' : List Char}, s.dropPrefix? w = some s' →
      (s ++ t).dropPrefix? w = some (s' ++ t) := by
    intro w s' hw
    rw [dropPrefix_iff] at hw ⊢
    rw [hw, List.append_assoc]
  have hhead : ∀ {a b : Char} {w w' s' : List Char}, b ≠ a →
      s.dropPrefix? (b :: w) = some s' →
        (s ++ t).dropPrefix? (a :: w') = none := by
    intro a b w w' s' hne hw
    rw [dropPrefix_iff.1 hw]
    exact dropPrefix_ne hne
  cases hnull : s.dropPrefix? ['n', 'u', 'l', 'l'] with
  | some s' =>
    unfold readAtom at h ⊢
    rw [hnull] at h
    rw [hword hnull]
    cases h
    rfl
  | none =>
    cases htrue : s.dropPrefix? ['t', 'r', 'u', 'e'] with
    | some s' =>
      unfold readAtom at h ⊢
      rw [hnull, htrue] at h
      rw [hhead (by decide) htrue, hword htrue]
      cases h
      rfl
    | none =>
      cases hfalse : s.dropPrefix? ['f', 'a', 'l', 's', 'e'] with
      | some s' =>
        unfold readAtom at h ⊢
        rw [hnull, htrue, hfalse] at h
        rw [hhead (by decide) hfalse, hhead (by decide) hfalse,
          hword hfalse]
        cases h
        rfl
      | none =>
        unfold readAtom at h
        rw [hnull, htrue, hfalse] at h
        dsimp only at h
        obtain ⟨v', hv, heq⟩ := Option.map_eq_some_iff.1 h
        obtain ⟨rfl, rfl⟩ := Prod.mk.inj heq
        cases s with
        | nil =>
          rw [List.takeWhile_nil, readNumber_nil] at hv
          cases hv
        | cons c s =>
          cases hc : isNumeral c with
          | false =>
            rw [List.takeWhile_cons_of_neg (by rw [hc]; decide),
              readNumber_nil] at hv
            cases hv
          | true =>
            obtain ⟨htake, hdrop⟩ := numeral_more hr
            rw [List.cons_append, readAtom_numeral hc,
              ← List.cons_append, htake, hdrop, hv]
            rfl

theorem readValue_nil : readValue F n [] = none := by
  cases n <;> rfl

theorem readItems_nil : readItems F n [] = none := by
  rcases n with _ | _ | n <;> rfl

theorem readMembers_nil : readMembers F n [] = none := by
  cases n <;> rfl

/-- A value that something follows, and any items and members, read under
less fuel from the shorter text. -/
theorem read_more (n : Nat) :
    (∀ m s v r t, n ≤ m → readValue F n s = some (v, r) → (t = [] ∨ r ≠ []) →
      readValue F m (s ++ t) = some (v, r ++ t)) ∧
    (∀ m s vs r t, n ≤ m → readItems F n s = some (vs, r) →
      readItems F m (s ++ t) = some (vs, r ++ t)) ∧
    (∀ m s ms r t, n ≤ m → readMembers F n s = some (ms, r) →
      readMembers F m (s ++ t) = some (ms, r ++ t)) := by
  induction n with
  | zero =>
    refine ⟨?_, ?_, ?_⟩ <;>
      · intro m s v r t _ h
        cases h
  | succ n ih =>
    obtain ⟨ihvalue, ihitems, ihmembers⟩ := ih
    refine ⟨?_, ?_, ?_⟩
    · intro m s v r t hnm h hr
      obtain ⟨m, rfl⟩ : ∃ k, m = k + 1 := ⟨m - 1, by omega⟩
      have hnm' : n ≤ m := Nat.le_of_succ_le_succ hnm
      cases s with
      | nil => cases h
      | cons c s =>
        simp only [readValue, List.cons_append] at h ⊢
        by_cases hquote : c = '"'
        · rw [if_pos hquote] at h ⊢
          obtain ⟨x, hx, heq⟩ := Option.map_eq_some_iff.1 h
          obtain ⟨rfl, rfl⟩ := Prod.mk.inj heq
          rw [readString_more hnm' hx]
          rfl
        rw [if_neg hquote] at h ⊢
        by_cases hbracket : c = '['
        · rw [if_pos hbracket] at h ⊢
          obtain ⟨x, hx, heq⟩ := Option.map_eq_some_iff.1 h
          obtain ⟨rfl, rfl⟩ := Prod.mk.inj heq
          rw [readOpened_more readItems_nil
            (fun s vs r => ihitems m s vs r t hnm') hx]
          rfl
        rw [if_neg hbracket] at h ⊢
        by_cases hbrace : c = '{'
        · rw [if_pos hbrace] at h ⊢
          obtain ⟨x, hx, heq⟩ := Option.map_eq_some_iff.1 h
          obtain ⟨rfl, rfl⟩ := Prod.mk.inj heq
          rw [readOpened_more readMembers_nil
            (fun s vs r => ihmembers m s vs r t hnm') hx]
          rfl
        · rw [if_neg hbrace] at h ⊢
          exact readAtom_more h hr
    · intro m s vs r t hnm h
      obtain ⟨m, rfl⟩ : ∃ k, m = k + 1 := ⟨m - 1, by omega⟩
      have hnm' : n ≤ m := Nat.le_of_succ_le_succ hnm
      simp only [readItems] at h ⊢
      cases hv : readValue F n s with
      | none =>
        rw [hv] at h
        cases h
      | some x =>
        obtain ⟨v, s₁⟩ := x
        rw [hv] at h
        rw [ihvalue m _ _ _ t hnm' hv (Or.inr (readRest_ne_nil h))]
        exact readRest_more readItems_nil
          (fun s vs r => ihitems m s vs r t hnm') h
    · intro m s ms r t hnm h
      obtain ⟨m, rfl⟩ : ∃ k, m = k + 1 := ⟨m - 1, by omega⟩
      have hnm' : n ≤ m := Nat.le_of_succ_le_succ hnm
      cases s with
      | nil => cases h
      | cons c s =>
        simp only [readMembers, List.cons_append] at h ⊢
        by_cases hquote : c = '"'
        · rw [if_pos hquote] at h ⊢
          cases hk : readString n s with
          | none =>
            rw [hk] at h
            cases h
          | some x =>
            obtain ⟨k, s₁⟩ := x
            rw [hk] at h
            rw [readString_more hnm' hk]
            dsimp only at h ⊢
            cases hcolon : expect ':' s₁ with
            | none =>
              rw [hcolon] at h
              cases h
            | some s₂ =>
              rw [hcolon] at h
              rw [expect_more hcolon]
              dsimp only at h ⊢
              cases hv : readValue F n (skip s₂) with
              | none =>
                rw [hv] at h
                cases h
              | some y =>
                obtain ⟨v, s₃⟩ := y
                rw [hv] at h
                have hs₂ : skip s₂ ≠ [] := by
                  intro hs
                  rw [hs, readValue_nil] at hv
                  cases hv
                rw [skip_more hs₂, ihvalue m _ _ _ t hnm' hv
                  (Or.inr (readRest_ne_nil h))]
                exact readRest_more readMembers_nil
                  (fun s vs r => ihmembers m s vs r t hnm') h
        · rw [if_neg hquote] at h
          cases h

end More

end SdlcOs.Json
