/-
Patterns of file names, as Python's `fnmatch` reads them where names are
not folded.

`*` stands for any text, `?` for one character and `[…]` for one of a
set; `translate` reads a pattern into these. A set that is not closed is
a bracket. A hyphen between two characters makes a range, and a range
whose ends are the wrong way round is left out; what comes first after
that says if the set is negated.

A pattern without these three characters matches itself alone
(`fnmatch_literal`).
-/
import Mathlib.Data.List.Basic

namespace SdlcOs.Data.Fnmatch

/-- What a part of a pattern stands for. -/
inductive Glob : Type where
  | star
  | question
  | literal (c : Char)
  /-- One of some ranges, or none of them. -/
  | set (negated : Bool) (ranges : List (Char × Char))
  deriving DecidableEq, Repr

/-- The ranges of a set; a character by itself has no end. -/
def ranges : List Char → List (Char × Option Char)
  | a :: '-' :: b :: rest => (a, some b) :: ranges rest
  | a :: rest => (a, none) :: ranges rest
  | [] => []

/-- The ends are the right way round. -/
def proper (r : Char × Option Char) : Bool :=
  r.2.all fun b => r.1 ≤ b

/-- A range, its ends given. -/
def ends (r : Char × Option Char) : Char × Char := (r.1, r.2.getD r.1)

/-- The set between two brackets. -/
def setOf (stuff : List Char) : Glob :=
  let all := match stuff with
    | '!' :: rest => ('!', none) :: ranges rest
    | _ => ranges stuff
  match all.filter proper with
  | ('!', none) :: rest => .set true (rest.map ends)
  | ('!', some b) :: rest => .set true (('-', '-') :: (b, b) :: rest.map ends)
  | rest => .set false (rest.map ends)

/-- What is between the brackets, and what comes after them, if the set is
closed: a bracket that comes first is one of its characters. -/
def closed (rest : List Char) : Option (List Char × List Char) :=
  let first := match rest with
    | '!' :: ']' :: _ => 2
    | '!' :: _ => 1
    | ']' :: _ => 1
    | _ => 0
  match (rest.drop first).dropWhile (· ≠ ']') with
  | [] => none
  | _ :: after =>
    some (rest.take first ++ (rest.drop first).takeWhile (· ≠ ']'), after)

/-- `translate`, of a pattern of at most some length. -/
def translate : Nat → List Char → List Glob
  | 0, _ => []
  | _, [] => []
  | fuel + 1, c :: rest =>
    if c = '*' then .star :: translate fuel rest
    else if c = '?' then .question :: translate fuel rest
    else if c = '[' then
      match closed rest with
      | some (stuff, after) => setOf stuff :: translate fuel after
      | none => .literal '[' :: translate fuel rest
    else .literal c :: translate fuel rest

/-- A character is in one of some ranges. -/
def inRanges (ranges : List (Char × Char)) (c : Char) : Bool :=
  ranges.any fun r => r.1 ≤ c && c ≤ r.2

/-- A name is what the parts of a pattern stand for. -/
def globs : List Glob → List Char → Bool
  | [], name => name.isEmpty
  | .star :: pattern, name => name.tails.any (globs pattern)
  | _ :: _, [] => false
  | .question :: pattern, _ :: name => globs pattern name
  | .literal c :: pattern, d :: name => c = d && globs pattern name
  | .set negated ranges :: pattern, d :: name =>
    (inRanges ranges d != negated) && globs pattern name

/-- `fnmatch`. -/
def fnmatch (name pattern : String) : Bool :=
  globs (translate pattern.toList.length pattern.toList) name.toList

/-- A character that has a meaning of its own. -/
def isWild (c : Char) : Bool := c = '*' || c = '?' || c = '['

/-- A pattern in which some character has. -/
def hasWildcard (pattern : String) : Bool := pattern.toList.any isWild

-- ==== literals

theorem translate_literal : ∀ {pattern : List Char},
    pattern.any isWild = false →
    translate pattern.length pattern = pattern.map Glob.literal := by
  intro pattern
  induction pattern with
  | nil => exact fun _ => rfl
  | cons c rest ih =>
    intro h
    rw [List.any_cons, Bool.or_eq_false_iff] at h
    obtain ⟨hc, hrest⟩ := h
    unfold isWild at hc
    simp only [Bool.or_eq_false_iff, decide_eq_false_iff_not] at hc
    rw [List.length_cons, translate, if_neg hc.1.1, if_neg hc.1.2,
      if_neg hc.2, ih hrest, List.map_cons]

theorem globs_literal : ∀ {pattern name : List Char},
    globs (pattern.map Glob.literal) name = true ↔ name = pattern := by
  intro pattern
  induction pattern with
  | nil =>
    intro name
    exact List.isEmpty_iff
  | cons c pattern ih =>
    intro name
    cases name with
    | nil => exact iff_of_false Bool.false_ne_true (List.cons_ne_nil _ _).symm
    | cons d name =>
      rw [List.map_cons, globs, Bool.and_eq_true, decide_eq_true_eq, ih,
        List.cons.injEq, eq_comm]

/-- A pattern without wildcards matches itself. -/
theorem fnmatch_literal {name pattern : String}
    (h : hasWildcard pattern = false) :
    fnmatch name pattern = true ↔ name = pattern := by
  unfold fnmatch
  rw [translate_literal h, globs_literal, String.toList_inj]

end SdlcOs.Data.Fnmatch
