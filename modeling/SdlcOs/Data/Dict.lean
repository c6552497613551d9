/-
Dictionaries that keep the order their keys came in.

A key that is set again keeps its place and gets a new value; one that
is deleted and set again comes last. No key occurs twice, which is a
field, so that a dictionary's entries and its lookups say the same
(`mem_entries_iff`).

A list of pairs makes two dictionaries. Where a key comes more than once,
`ofEntries` keeps the value that came last (`get_ofEntries`), and
`extend`, with lists for values, all of them (`mem_foldl_extend`).
-/
import Mathlib.Data.List.Dedup
import Mathlib.Data.List.Induction

namespace SdlcOs.Data

/-- Paths, as the lists of their names, compare lawfully. -/
instance lawfulBEq_names : LawfulBEq (List String) := inferInstance

/-- A dictionary. -/
structure Dict (κ α : Type) where
  entries : List (κ × α)
  nodup : (entries.map Prod.fst).Nodup

namespace Dict

variable {κ α : Type} [DecidableEq κ]

/-- No keys. -/
def empty : Dict κ α := ⟨[], List.nodup_nil⟩

/-- The value of a key in a list of entries. -/
def find (key : κ) : List (κ × α) → Option α
  | [] => none
  | e :: l => if e.1 = key then some e.2 else find key l

/-- A list of entries with a key set. -/
def put (key : κ) (a : α) : List (κ × α) → List (κ × α)
  | [] => [(key, a)]
  | e :: l => if e.1 = key then (key, a) :: l else e :: put key a l

theorem mem_keys_put {key k : κ} {a : α} : ∀ {l : List (κ × α)},
    k ∈ (put key a l).map Prod.fst ↔ k = key ∨ k ∈ l.map Prod.fst := by
  intro l
  induction l with
  | nil => rw [put, List.map_cons, List.mem_cons]
  | cons e l ih =>
    rw [put]
    split
    · next he =>
      rw [List.map_cons, List.map_cons, List.mem_cons, List.mem_cons, he]
      exact or_self_left.symm
    · rw [List.map_cons, List.map_cons, List.mem_cons, List.mem_cons, ih]
      exact or_left_comm

theorem nodup_put {key : κ} {a : α} : ∀ {l : List (κ × α)},
    (l.map Prod.fst).Nodup → ((put key a l).map Prod.fst).Nodup := by
  intro l
  induction l with
  | nil => intro _; exact List.nodup_singleton _
  | cons e l ih =>
    intro h
    rw [List.map_cons, List.nodup_cons] at h
    rw [put]
    split
    · next he =>
      rw [List.map_cons, List.nodup_cons, ← he]
      exact h
    · next he =>
      rw [List.map_cons, List.nodup_cons, mem_keys_put]
      exact ⟨fun hmem => hmem.elim he h.1, ih h.2⟩

theorem put_of_not_mem {key : κ} {a : α} : ∀ {l : List (κ × α)},
    key ∉ l.map Prod.fst → put key a l = l ++ [(key, a)] := by
  intro l
  induction l with
  | nil => intro _; rfl
  | cons e l ih =>
    intro h
    rw [List.map_cons, List.mem_cons, not_or] at h
    rw [put, if_neg (Ne.symm h.1), ih h.2, List.cons_append]

/-- `d.get(key)`. -/
def get (d : Dict κ α) (key : κ) : Option α := find key d.entries

/-- `d[key] = a`. -/
def set (d : Dict κ α) (key : κ) (a : α) : Dict κ α :=
  ⟨put key a d.entries, nodup_put d.nodup⟩

/-- `dict(pairs)`. -/
def ofEntries (l : List (κ × α)) : Dict κ α :=
  l.foldl (fun d e => d.set e.1 e.2) empty

/-- `d.pop(key, None)`. -/
def erase (d : Dict κ α) (key : κ) : Dict κ α :=
  ⟨d.entries.filter (·.1 ≠ key),
    d.nodup.sublist (List.filter_sublist.map Prod.fst)⟩

/-- `d.keys()`. -/
def keys (d : Dict κ α) : List κ := d.entries.map Prod.fst

/-- `d.values()`. -/
def values (d : Dict κ α) : List α := d.entries.map Prod.snd

-- ==== lookups

@[simp] theorem get_empty (key : κ) : (empty : Dict κ α).get key = none := rfl

theorem find_put_self (key : κ) (a : α) :
    ∀ l : List (κ × α), find key (put key a l) = some a := by
  intro l
  induction l with
  | nil => exact if_pos rfl
  | cons e l ih =>
    rw [put]
    split
    · exact if_pos rfl
    · next he => rw [find, if_neg he, ih]

theorem find_put_ne {key k : κ} (h : k ≠ key) (a : α) :
    ∀ l : List (κ × α), find k (put key a l) = find k l := by
  intro l
  induction l with
  | nil => exact if_neg h.symm
  | cons e l ih =>
    rw [put]
    split
    · next he =>
      rw [find, find, if_neg h.symm, if_neg (he.trans_ne h.symm)]
    · rw [find, find, ih]

theorem find_filter (key k : κ) : ∀ l : List (κ × α),
    find k (l.filter (·.1 ≠ key)) = if k = key then none else find k l := by
  intro l
  induction l with
  | nil =>
    show none = _
    split <;> rfl
  | cons e l ih =>
    by_cases he : e.1 = key
    · rw [List.filter_cons_of_neg (by simpa using he), ih]
      split
      · rfl
      · next hk => rw [find, if_neg (he.trans_ne (Ne.symm hk))]
    · rw [List.filter_cons_of_pos (by simpa using he), find, ih, find]
      by_cases hk : k = key
      · rw [if_pos hk, if_pos hk, if_neg fun heq => he (heq.trans hk)]
      · rw [if_neg hk, if_neg hk]

@[simp] theorem get_set_self (d : Dict κ α) (key : κ) (a : α) :
    (d.set key a).get key = some a :=
  find_put_self key a d.entries

theorem get_set_ne (d : Dict κ α) {key k : κ} (h : k ≠ key) (a : α) :
    (d.set key a).get k = d.get k :=
  find_put_ne h a d.entries

@[simp] theorem get_erase_self (d : Dict κ α) (key : κ) :
    (d.erase key).get key = none := by
  unfold get erase
  rw [find_filter, if_pos rfl]

theorem get_erase_ne (d : Dict κ α) {key k : κ} (h : k ≠ key) :
    (d.erase key).get k = d.get k := by
  unfold get erase
  rw [find_filter, if_neg h]

theorem find_eq_some {key : κ} {a : α} : ∀ {l : List (κ × α)},
    (l.map Prod.fst).Nodup → (find key l = some a ↔ (key, a) ∈ l) := by
  intro l
  induction l with
  | nil =>
    intro _
    constructor
    · intro h; cases h
    · intro h; cases h
  | cons e l ih =>
    intro h
    rw [List.map_cons, List.nodup_cons] at h
    rw [find, List.mem_cons]
    split
    · next he =>
      constructor
      · intro ha
        exact Or.inl (Prod.ext he.symm (Option.some.inj ha).symm)
      · rintro (rfl | hmem)
        · rfl
        · exact absurd (List.mem_map.2 ⟨_, hmem, he.symm⟩) h.1
    · next he =>
      rw [ih h.2]
      constructor
      · exact Or.inr
      · rintro (rfl | hmem)
        · exact absurd rfl he
        · exact hmem

/-- An entry is what its key's lookup gives. -/
theorem mem_entries_iff (d : Dict κ α) {key : κ} {a : α} :
    (key, a) ∈ d.entries ↔ d.get key = some a :=
  (find_eq_some d.nodup).symm

theorem mem_values_iff (d : Dict κ α) {a : α} :
    a ∈ d.values ↔ ∃ key, d.get key = some a := by
  unfold values
  rw [List.mem_map]
  constructor
  · rintro ⟨e, he, rfl⟩
    exact ⟨e.1, d.mem_entries_iff.1 he⟩
  · rintro ⟨key, hget⟩
    exact ⟨(key, a), d.mem_entries_iff.2 hget, rfl⟩

theorem mem_keys_of_get {d : Dict κ α} {key : κ} {a : α}
    (h : d.get key = some a) : key ∈ d.keys :=
  List.mem_map.2 ⟨_, d.mem_entries_iff.2 h, rfl⟩

theorem mem_keys_iff (d : Dict κ α) {key : κ} :
    key ∈ d.keys ↔ (d.get key).isSome := by
  constructor
  · intro h
    obtain ⟨e, he, rfl⟩ := List.mem_map.1 h
    rw [d.mem_entries_iff.1 he]
    rfl
  · intro h
    obtain ⟨a, ha⟩ := Option.isSome_iff_exists.1 h
    exact mem_keys_of_get ha

theorem entries_foldl_set : ∀ {l : List (κ × α)} {d : Dict κ α},
    ((d.entries ++ l).map Prod.fst).Nodup →
      (l.foldl (fun d e => d.set e.1 e.2) d).entries = d.entries ++ l := by
  intro l
  induction l with
  | nil => intro d _; exact (List.append_nil _).symm
  | cons e l ih =>
    intro d h
    have hnew : e.1 ∉ d.entries.map Prod.fst := by
      rw [List.map_append, List.map_cons] at h
      exact fun he => (List.disjoint_of_nodup_append h) he
        List.mem_cons_self
    have hset : (d.set e.1 e.2).entries = d.entries ++ [e] :=
      put_of_not_mem hnew
    rw [List.foldl_cons, ih (by rwa [hset, List.append_assoc]), hset,
      List.append_assoc]
    rfl

theorem get_foldl_set {key : κ} : ∀ {l : List (κ × α)} {d : Dict κ α},
    key ∉ l.map Prod.fst →
      (l.foldl (fun d e => d.set e.1 e.2) d).get key = d.get key := by
  intro l
  induction l with
  | nil => intro d _; rfl
  | cons e l ih =>
    intro d h
    rw [List.map_cons, List.mem_cons, not_or] at h
    rw [List.foldl_cons, ih h.2, get_set_ne _ h.1]

/-- Pairs without a repeated key are the entries of their dictionary. -/
theorem entries_ofEntries {l : List (κ × α)}
    (h : (l.map Prod.fst).Nodup) : (ofEntries l).entries = l :=
  entries_foldl_set h

theorem nodup_map_values {β : Type} (d : Dict κ α) (f : α → β)
    (h : ∀ k k' a a', d.get k = some a → d.get k' = some a' → f a = f a' →
      k = k') : (d.values.map f).Nodup := by
  unfold values
  rw [List.map_map]
  refine List.Nodup.map_on ?_ (List.Nodup.of_map _ d.nodup)
  intro e he e' he' heq
  have hget := d.mem_entries_iff.1 he
  have hget' := d.mem_entries_iff.1 he'
  have hkey := h _ _ _ _ hget hget' heq
  rw [← hkey, hget] at hget'
  exact Prod.ext hkey (Option.some.inj hget')

-- ==== tabulation

/-- The dictionary of what a function gives at the keys of a list. -/
def tabulate (keys : List κ) (f : κ → Option α) : Dict κ α where
  entries := keys.dedup.filterMap fun key => (f key).map (key, ·)
  nodup := by
    have hsub : ((keys.dedup.filterMap fun key => (f key).map (key, ·)).map
        Prod.fst).Sublist keys.dedup := by
      induction keys.dedup with
      | nil => exact List.Sublist.slnil
      | cons key rest ih =>
        cases hf : f key with
        | none =>
          rw [List.filterMap_cons_none (by rw [hf]; rfl)]
          exact ih.cons key
        | some a =>
          rw [List.filterMap_cons_some (by rw [hf]; rfl)]
          exact ih.cons_cons key
    exact (List.nodup_dedup keys).sublist hsub

theorem get_tabulate (keys : List κ) (f : κ → Option α) (key : κ) :
    (tabulate keys f).get key = if key ∈ keys then f key else none := by
  refine Option.ext fun a => ?_
  rw [← mem_entries_iff]
  show (key, a) ∈ keys.dedup.filterMap _ ↔ _
  rw [List.mem_filterMap]
  constructor
  · rintro ⟨k, hk, heq⟩
    obtain ⟨b, hb, hpair⟩ := Option.map_eq_some_iff.1 heq
    obtain ⟨rfl, rfl⟩ := Prod.mk.inj hpair
    rw [if_pos (List.mem_dedup.1 hk)]
    exact hb
  · intro h
    by_cases hkey : key ∈ keys
    · rw [if_pos hkey] at h
      exact ⟨key, List.mem_dedup.2 hkey, by rw [h]; rfl⟩
    · rw [if_neg hkey] at h
      cases h

end Dict

namespace Dict

variable {κ α β : Type} [DecidableEq κ]

-- ==== last

/-- The last pair of a key counts. -/
theorem get_ofEntries (l : List (κ × α)) (key : κ) :
    (ofEntries l).get key =
      (l.reverse.find? fun e => e.1 = key).map Prod.snd := by
  induction l using List.reverseRecOn with
  | nil => rfl
  | append_singleton l e ih =>
    have hset : ofEntries (l ++ [e]) = (ofEntries l).set e.1 e.2 :=
      List.foldl_concat ..
    rw [hset, List.reverse_append, List.reverse_singleton,
      List.singleton_append, List.find?_cons]
    by_cases he : e.1 = key
    · rw [← he, get_set_self, decide_eq_true rfl]
      rfl
    · rw [get_set_ne _ (Ne.symm he), ih, decide_eq_false he]

-- ==== all

/-- `d.setdefault(key, []).extend(values)`. -/
def extend (d : Dict κ (List α)) (key : κ) (values : List α) :
    Dict κ (List α) :=
  d.set key ((d.get key).getD [] ++ values)

/-- A key's list, which is empty before there is one. -/
def listOf (d : Dict κ (List α)) (key : κ) : List α := (d.get key).getD []

theorem listOf_extend (d : Dict κ (List α)) (key k : κ) (values : List α) :
    (d.extend key values).listOf k =
      if key = k then d.listOf k ++ values else d.listOf k := by
  unfold extend listOf
  by_cases h : key = k
  · rw [if_pos h, h, get_set_self]
    rfl
  · rw [if_neg h, get_set_ne _ (Ne.symm h)]

/-- What is in a key's list came with the key. -/
theorem mem_foldl_extend {key : β → κ} {values : β → List α} {k : κ} {a : α} :
    ∀ {l : List β} {d : Dict κ (List α)},
      a ∈ (l.foldl (fun d b => d.extend (key b) (values b)) d).listOf k ↔
        a ∈ d.listOf k ∨ ∃ b ∈ l, key b = k ∧ a ∈ values b := by
  intro l
  induction l with
  | nil =>
    intro d
    exact ⟨Or.inl, fun h => h.elim id fun ⟨_, hb, _⟩ => (by cases hb)⟩
  | cons b l ih =>
    intro d
    rw [List.foldl_cons, ih, listOf_extend, List.exists_mem_cons_iff,
      ← or_assoc]
    refine or_congr_left ?_
    by_cases h : key b = k
    · rw [if_pos h, List.mem_append]
      exact or_congr_right (and_iff_right h).symm
    · rw [if_neg h]
      exact (or_iff_left fun hb => h hb.1).symm

end Dict

end SdlcOs.Data
