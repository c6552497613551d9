/-
Whether the requests of a tool stay in its repository.

# What is promised

A tool that was called for a repository of the tenant's sends requests
under `/repos/{owner}/{repo}/` only, of the kind that each is meant for,
with the queries that were built for them (`Scoped`): dot segments are
removed first, and what comes after `?` and `#` is no path. The hashes of
commits that GitHub answers with are hex (`Honest`). How a token is asked
for is not a tool's request.

# Where it is kept

One argument is spliced into the path of the first request of
`get_file_contents` and of `list_files`, unquoted; the promise is kept
where that is harmless (`Confined`, `scoped_iff`). The other tools keep
it always.
-/
import SdlcOs.Proofs.SourceControl.Credentials
import SdlcOs.Proofs.SourceControl.Urls

namespace SdlcOs.SourceControl

open Data (Dict mem_intercalate)
open Data.DotSegments
open Effects (Prog)
open Gates (isSpace)
open Json (Json)

variable {φ : Type}

-- ==== promise

/-- The kind of resource that a tool's `n`-th request is for. -/
def Tool.kind : Tool → Nat → List Segment
  | .openPr .., _ => ["pulls".toList]
  | .getPrCheckStatus _, 0 => ["pulls".toList]
  | .getPrCheckStatus _, _ => ["commits".toList]
  | .getFileContents .., _ => ["contents".toList]
  | .listFiles .., 0 => ["git".toList, "ref".toList]
  | .listFiles .., _ => ["git".toList, "trees".toList]

/-- A request of a tool, not one for a token. -/
def Request.isApi (r : Request φ) : Bool :=
  match r.auth with
  | .token _ => true
  | .appJwt .. => false

/-- The requests of tools among exchanges. -/
def apiRequests (exchanges : List (Exchange φ)) : List (Request φ) :=
  (exchanges.map Exchange.request).filter Request.isApi

/-- A digit of a hash. -/
def isHex (c : Char) : Bool :=
  c.isDigit || ('a'.toNat ≤ c.toNat && c.toNat ≤ 'f'.toNat)

/-- A commit's hash. -/
def CommitHash (t : String) : Prop :=
  t.toList ≠ [] ∧ ∀ c ∈ t.toList, isHex c = true

/-- What GitHub says of a pull request or of a ref has a commit's hash. -/
def HonestAnswer (P : Platform φ) (v : Json φ) : Prop :=
  ∀ key ∈ ["head", "object"], ∀ o sha t, item key v = .ok o →
    item "sha" o = .ok sha → P.text sha = .ok t → CommitHash t

def Honest {P : Platform φ} (H : Hub P) : Prop :=
  ∀ n status headers body v, H.answer n = .response status headers body →
    P.loads body = some v → HonestAnswer P v

/-- The condition: what is spliced in is harmless. -/
def Confined (root : ApiRoot) (repository : Repository) : Tool → Prop
  | .openPr .. => True
  | .getPrCheckStatus _ => True
  | .getFileContents branch path =>
    Harmless (place root repository) ["contents".toList]
      (builtQuery [("ref", branch)]) ("contents/".toList ++ path.toList)
  | .listFiles branch _ _ =>
    Harmless (place root repository) ["git".toList, "ref".toList] none
      (("git/ref/heads/".toList ++ branch.toList).rdropWhile isSpace)

-- ==== sends

section Sends

variable {α β : Type}

variable {ok : Json φ → Prop} {Q : Nat → ApiRequest φ → Prop} {n : Nat}

end Sends

-- ==== tools

section Tools

variable {root : ApiRoot} {repository : Repository} {kind : List Segment}
  {P : Platform φ}

/-- A request under a repository that is harmless. -/
def Asked (root : ApiRoot) (repository : Repository) (kind : List Segment)
    (a : ApiRequest φ) : Prop :=
  ∃ t, a.path.toList = ["repos".toList, repository.owner.toList,
      repository.repo.toList].flatMap ('/' :: ·) ++ '/' :: t ∧
    Harmless (place root repository) kind (builtQuery a.query)
      (spliced (builtQuery a.query) t)

end Tools

-- ==== sessions

section Sessions

variable {P : Platform φ} {H : Hub P} {t X : String}
  {x x' x'' : Session φ} {rs rs' : List (Request φ)}

/-- A session goes on with the same base URL, and these requests. -/
structure Adds (x x' : Session φ) (rs : List (Request φ)) : Prop where
  base : x'.client.apiBaseUrl = x.client.apiBaseUrl
  grown : ∃ more, x'.sent = x.sent ++ more ∧ apiRequests more = rs

theorem Adds.refl : Adds x x [] :=
  ⟨rfl, [], (List.append_nil _).symm, rfl⟩

theorem Adds.trans (h : Adds x x' rs) (h' : Adds x' x'' rs') :
    Adds x x'' (rs ++ rs') := by
  obtain ⟨more, hmore, rfl⟩ := h.grown
  obtain ⟨more', hmore', rfl⟩ := h'.grown
  refine ⟨h'.base.trans h.base, more ++ more', ?_, ?_⟩
  · rw [hmore', hmore, List.append_assoc]
  · rw [apiRequests, List.map_append, List.filter_append]
    rfl

/-- A request of a tool, with a token. -/
def Request.of (base : String) (a : ApiRequest φ) (r : Request φ) : Prop :=
  r.url = base ++ a.path ∧ r.query = a.query

end Sessions

-- ==== calls

section Calls

variable {P : Platform φ} {root : ApiRoot} {repository : Repository}
  {tool : Tool}

end Calls

-- ==== scoped

end SdlcOs.SourceControl
