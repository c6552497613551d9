/-
Where a request goes whose path is spliced together.

A text is spliced into the path of a URL after the segments of an API's
root and of a repository, unquoted. The request is under these, of its
kind and with the query that was built for it (`Contained`) exactly where
the text comes down what it goes back over, and where its `?` and `#` are
none or make up that query (`Harmless`, `contained_iff`).
-/
import SdlcOs.Data.DotSegments
import SdlcOs.Data.Pieces
import SdlcOs.SourceControl.Url

namespace SdlcOs.SourceControl

open Data (mem_intercalate)
open Data.DotSegments
open Gates (isSpace)

variable {φ : Type}

-- ==== promise

/-- A character of a plain name. -/
def plainChar (c : Char) : Bool :=
  printed c && c ≠ '/' && c ≠ '?' && c ≠ '#'

/-- A plain name. -/
structure Plain (s : Segment) : Prop where
  some : s ≠ []
  chars : ∀ c ∈ s, plainChar c = true
  not_dots : isDots s = false

/-- The root of an API. -/
structure ApiRoot where
  secure : Bool
  host : List Char
  path : List Segment
  host_chars : ∀ c ∈ host, plainChar c = true
  plain : ∀ s ∈ path, Plain s

/-- The root without its path. -/
def ApiRoot.origin (root : ApiRoot) : List Char :=
  (if root.secure then "https".toList else "http".toList) ++
    "://".toList ++ root.host

def ApiRoot.text (root : ApiRoot) : String :=
  .ofList (root.origin ++ root.path.flatMap ('/' :: ·))

/-- A repository, `owner/repo`. -/
structure Repository where
  owner : String
  repo : String
  owner_plain : Plain owner.toList
  repo_plain : Plain repo.toList

def Repository.name (r : Repository) : String := r.owner ++ "/" ++ r.repo

/-- Where the requests for a repository go. -/
def place (root : ApiRoot) (r : Repository) : List Segment :=
  root.path ++ ["repos".toList, r.owner.toList, r.repo.toList]

/-- A request that is where it is meant to be, if it is sent. -/
def Contained (place kind : List Segment) (r : Request φ) : Prop :=
  ∀ url, r.sentUrl = some url →
    place ++ kind <+: walk [] (segments (urlPath url)) ∧
      urlQuery url = builtQuery r.query

-- ==== condition

/-- What comes before any `?` and `#`. -/
def ahead (t : List Char) : List Char :=
  (cutFragment t).takeWhile (· ≠ '?')

/-- A text before a query leaves it the query, or it has that query in it,
and a fragment. -/
def KeepsQuery (t : List Char) : Option (List Char) → Prop
  | none => cutFragment t = ahead t
  | some q => t = ahead t ∨ '#' ∈ t ∧ cutFragment t = ahead t ++ '?' :: q

/-- A text that is spliced into a path after `place`, if it is sent, keeps
the query, goes back over some segments of `place`, and comes down these
and then `kind`. -/
def Harmless (place kind : List Segment) (built : Option (List Char))
    (t : List Char) : Prop :=
  (cutTag t).all printed = true →
    KeepsQuery t built ∧
      place.rtake (leads ((ahead t).splitOn '/')).back ++ kind <+:
        (leads ((ahead t).splitOn '/')).down

/-- What is sent of a text that is spliced in. -/
def spliced (built : Option (List Char)) (t : List Char) : List Char :=
  built.elim (t.rdropWhile isSpace) fun _ => t

-- ==== text

section Text

variable {a b t q : List Char}

theorem isSpace_printed {c : Char} (h : printed c = true) :
    isSpace c = false := by
  simp only [printed, Bool.and_eq_true, decide_eq_true_eq] at h
  simp only [isSpace, Bool.or_eq_false_iff, Bool.and_eq_false_iff,
    decide_eq_false_iff_not]
  omega

theorem rdropWhile_append {c : Char} (hc : printed c = true) :
    (a ++ c :: b).rdropWhile isSpace = a ++ c :: b.rdropWhile isSpace := by
  have hstop : List.dropWhile isSpace (c :: a.reverse) = c :: a.reverse := by
    rw [List.dropWhile_cons, if_neg]
    rw [isSpace_printed hc]
    exact Bool.false_ne_true
  rw [List.rdropWhile, List.rdropWhile, List.reverse_append,
    List.reverse_cons, List.append_assoc, List.singleton_append,
    List.dropWhile_append]
  split
  · next hempty =>
    rw [List.isEmpty_iff.1 hempty, hstop, List.reverse_cons,
      List.reverse_reverse]
    rfl
  · rw [List.reverse_append, List.reverse_cons, List.reverse_reverse,
      List.append_assoc]
    rfl

end Text

-- ==== query

section Query

/-- What is behind a path. -/
def tail (built : Option (List Char)) : List Char :=
  built.elim [] ('?' :: ·)

variable {built : Option (List Char)} {t : List Char}

end Query

-- ==== url

section Url

variable {root : ApiRoot} {repository : Repository} {kind : List Segment}
  {t : List Char}

/-- The text before what is spliced in. -/
def front (root : ApiRoot) (repository : Repository) : List Char :=
  (place root repository).flatMap ('/' :: ·)

variable {r : Request φ}

end Url

end SdlcOs.SourceControl
