/-
Records whose key and content are each followed by a separator.

A key has no separator in it and is known from its spelling. Where the
contents have none either, a stream of records can be read in one way
only (`flatMap_inj`). A content with separators in it can hold the
records that would have come after it (`merge`, `of_single`).
-/
import Mathlib.Data.List.Basic

namespace SdlcOs.Data

theorem append_sep_inj {α : Type} {sep : α} {a b s s' : List α}
    (ha : sep ∉ a) (hb : sep ∉ b) (h : a ++ sep :: s = b ++ sep :: s') :
    a = b ∧ s = s' := by
  induction a generalizing b with
  | nil =>
    cases b with
    | nil => exact ⟨rfl, (List.cons.inj h).2⟩
    | cons y b =>
      rw [(List.cons.inj h).1] at hb
      exact absurd List.mem_cons_self hb
  | cons x a ih =>
    cases b with
    | nil =>
      rw [← (List.cons.inj h).1] at ha
      exact absurd List.mem_cons_self ha
    | cons y b =>
      obtain ⟨rfl, htail⟩ := List.cons.inj h
      obtain ⟨rfl, hs⟩ := ih (fun h => ha (List.mem_cons_of_mem _ h))
        (fun h => hb (List.mem_cons_of_mem _ h)) htail
      exact ⟨rfl, hs⟩

/-- How keys are spelled. -/
structure Terminated (α κ : Type) where
  sep : α
  spell : κ → List α
  Ok : κ → Prop
  sep_notMem : ∀ k, Ok k → sep ∉ spell k
  spell_inj : ∀ k k', Ok k → Ok k' → spell k = spell k' → k = k'

namespace Terminated

variable {α κ : Type} (enc : Terminated α κ)

/-- A record in the stream. -/
def record (r : κ × List α) : List α :=
  enc.spell r.1 ++ [enc.sep] ++ r.2 ++ [enc.sep]

variable {enc} {r r' : κ × List α} {rs rs' : List (κ × List α)}
  {s s' : List α}

theorem record_append :
    enc.record r ++ s = enc.spell r.1 ++ enc.sep :: (r.2 ++ enc.sep :: s) := by
  simp [record]

theorem record_ne_nil (enc : Terminated α κ) (r : κ × List α) :
    enc.record r ≠ [] := by
  simp [record]

theorem key_unique (hr : enc.Ok r.1) (hr' : enc.Ok r'.1)
    (h : enc.record r ++ s = enc.record r' ++ s') :
    r.1 = r'.1 ∧ r.2 ++ enc.sep :: s = r'.2 ++ enc.sep :: s' := by
  rw [record_append, record_append] at h
  obtain ⟨hkey, hrest⟩ :=
    append_sep_inj (enc.sep_notMem _ hr) (enc.sep_notMem _ hr') h
  exact ⟨enc.spell_inj _ _ hr hr' hkey, hrest⟩

/-- The record at the head of a stream, if no content has a separator. -/
theorem record_unique (hr : enc.Ok r.1) (hr' : enc.Ok r'.1)
    (hsep : enc.sep ∉ r.2) (hsep' : enc.sep ∉ r'.2)
    (h : enc.record r ++ s = enc.record r' ++ s') : r = r' ∧ s = s' := by
  obtain ⟨hkey, hrest⟩ := key_unique hr hr' h
  obtain ⟨hcontent, hs⟩ := append_sep_inj hsep hsep' hrest
  exact ⟨Prod.ext hkey hcontent, hs⟩

/-- A stream of records without separators is read in one way. -/
theorem flatMap_inj (hok : ∀ r ∈ rs, enc.Ok r.1 ∧ enc.sep ∉ r.2)
    (hok' : ∀ r ∈ rs', enc.Ok r.1 ∧ enc.sep ∉ r.2)
    (h : rs.flatMap enc.record = rs'.flatMap enc.record) : rs = rs' := by
  induction rs generalizing rs' with
  | nil =>
    cases rs' with
    | nil => rfl
    | cons r' rs' =>
      rw [List.flatMap_nil, List.flatMap_cons] at h
      exact absurd (List.append_eq_nil_iff.1 h.symm).1 (record_ne_nil _ _)
  | cons r rs ih =>
    cases rs' with
    | nil =>
      rw [List.flatMap_nil, List.flatMap_cons] at h
      exact absurd (List.append_eq_nil_iff.1 h).1 (record_ne_nil _ _)
    | cons r' rs' =>
      rw [List.flatMap_cons, List.flatMap_cons] at h
      have hr := hok r List.mem_cons_self
      have hr' := hok' r' List.mem_cons_self
      obtain ⟨rfl, hrest⟩ := record_unique hr.1 hr'.1 hr.2 hr'.2 h
      rw [ih (fun r h => hok r (List.mem_cons_of_mem _ h))
        (fun r h => hok' r (List.mem_cons_of_mem _ h)) hrest]

theorem exists_flatMap_cons (enc : Terminated α κ) (r : κ × List α)
    (rs : List (κ × List α)) :
    ∃ after, (r :: rs).flatMap enc.record =
      enc.spell r.1 ++ enc.sep :: (after ++ [enc.sep]) := by
  induction rs generalizing r with
  | nil => exact ⟨r.2, by simp [record]⟩
  | cons r' rs ih =>
    obtain ⟨after, hafter⟩ := ih r'
    refine ⟨r.2 ++ enc.sep :: (enc.spell r'.1 ++ enc.sep :: after), ?_⟩
    rw [List.flatMap_cons, hafter, record_append]
    simp

/-- Two or more records, as one. -/
theorem merge (enc : Terminated α κ) (r r' : κ × List α)
    (rs : List (κ × List α)) :
    ∃ content, enc.record (r.1, content) =
      (r :: r' :: rs).flatMap enc.record := by
  obtain ⟨after, hafter⟩ := exists_flatMap_cons enc r' rs
  refine ⟨r.2 ++ enc.sep :: (enc.spell r'.1 ++ enc.sep :: after), ?_⟩
  rw [List.flatMap_cons, hafter, record_append]
  simp [record]

theorem split {k k' : κ} {before after : List α} :
    enc.record (k, before ++ enc.sep :: (enc.spell k' ++ enc.sep :: after)) =
      [(k, before), (k', after)].flatMap enc.record := by
  simp [record]

/-- What a record can be read as: itself, or more records whose second key
is spelled in its content. -/
theorem of_single (enc : Terminated α κ) (hr : enc.Ok r.1) (hok : ∀ r ∈ rs, enc.Ok r.1)
    (h : enc.record r = rs.flatMap enc.record) :
    rs = [r] ∨ ∃ before r' rs' after, rs = (r.1, before) :: r' :: rs' ∧
      r.2 = before ++ enc.sep :: (enc.spell r'.1 ++ enc.sep :: after) := by
  cases rs with
  | nil => exact absurd h (record_ne_nil _ _)
  | cons g gs =>
    rw [List.flatMap_cons, ← List.append_nil (enc.record r)] at h
    obtain ⟨hkey, hrest⟩ := key_unique hr (hok g List.mem_cons_self) h
    cases gs with
    | nil =>
      have hcontent := List.append_cancel_right hrest
      exact Or.inl (by rw [Prod.ext hkey hcontent])
    | cons r' rs' =>
      obtain ⟨after, hafter⟩ := exists_flatMap_cons enc r' rs'
      rw [hafter] at hrest
      refine Or.inr ⟨g.2, r', rs', after, by rw [hkey], ?_⟩
      have hlast : r.2 ++ [enc.sep] =
          (g.2 ++ enc.sep :: (enc.spell r'.1 ++ enc.sep :: after)) ++
            [enc.sep] := by
        rw [hrest]
        simp
      exact List.append_cancel_right hlast

end Terminated

end SdlcOs.Data
