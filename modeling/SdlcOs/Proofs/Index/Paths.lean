/-
Which of two file systems' differences a path can see.

The two agree outside some positions `D` (`Agree`). A walk sees only the
positions on its way, so it is the same in both if none of these is in
`D` (`Avoids`). A directory is `Apart` from `D` if nothing below it and
nothing above it is in `D`; then so is the way to whatever resolves to a
position below it (`avoids_below`).
-/
import SdlcOs.Index.Service

namespace SdlcOs.Index

variable {Blob : Type} {treeOf : String → Tree Blob}
  {D : List String → Prop} {fs fs' : Store treeOf}

-- ==== resolve

theorem foldl_next_plain {p : List String} (hp : ∀ c ∈ p, c ≠ "..") :
    ∀ pos, p.foldl next pos = pos ++ p := by
  induction p with
  | nil => intro pos; exact (List.append_nil pos).symm
  | cons c p ih =>
    intro pos
    rw [List.foldl_cons, next, if_neg (hp c List.mem_cons_self),
      ih fun c' hc' => hp c' (List.mem_cons_of_mem _ hc'),
      List.append_assoc]
    rfl

theorem resolve_plain {p : List String} (hp : ∀ c ∈ p, c ≠ "..") :
    resolve p = p := foldl_next_plain hp []

theorem plain_resolve (p : List String) : ∀ c ∈ resolve p, c ≠ ".." := by
  have hall : ∀ (p pos : List String), (∀ c ∈ pos, c ≠ "..") →
      ∀ c ∈ p.foldl next pos, c ≠ ".." := by
    intro p
    induction p with
    | nil => intro pos hpos; exact hpos
    | cons c p ih =>
      intro pos hpos
      refine ih _ ?_
      intro c' hc'
      rw [next] at hc'
      split at hc'
      · exact hpos c' (List.dropLast_subset _ hc')
      · next hc =>
        rw [List.mem_append, List.mem_singleton] at hc'
        cases hc' with
        | inl hc' => exact hpos c' hc'
        | inr hc' => rw [hc']; exact hc
  exact hall p [] fun c hc => absurd hc List.not_mem_nil

-- ==== walks

/-- Two file systems agree outside some positions: about each position
outside, and about what is found in a directory with none below it. -/
structure Agree (D : List String → Prop) (fs fs' : Store treeOf) : Prop where
  isDir : ∀ pos, ¬ D pos → fs.isDir pos = fs'.isDir pos
  file : ∀ pos, ¬ D pos → fs.file pos = fs'.file pos
  modified : ∀ pos, ¬ D pos → fs.modified pos = fs'.modified pos
  repo : ∀ pos, (∀ q, pos <+: q → ¬ D q) → fs.repo pos = fs'.repo pos
  log : ∀ pos, (∀ q, pos <+: q → ¬ D q) → fs.log pos = fs'.log pos

/-- No position on the way of a path is one of these. -/
def Avoids (D : List String → Prop) (path : List String) : Prop :=
  ∀ pre, pre <+: path → ¬ D (resolve pre)

/-- None of these positions is below a directory or above it. -/
def Apart (D : List String → Prop) (root : List String) : Prop :=
  ∀ q, D q → ¬ resolve root <+: q ∧ ¬ q <+: resolve root

theorem walk_congr (h : Agree D fs fs') : ∀ (path pos : List String),
    (∀ pre, pre <+: path → ¬ D (pre.foldl next pos)) →
    fs.walk pos path = fs'.walk pos path := by
  intro path
  induction path with
  | nil => intro pos _; rfl
  | cons c path ih =>
    intro pos hpos
    rw [Store.walk, Store.walk,
      h.isDir pos (hpos [] List.nil_prefix)]
    split
    · refine ih _ fun pre hpre => ?_
      exact hpos (c :: pre) (List.cons_prefix_cons.2 ⟨rfl, hpre⟩)
    · rfl

theorem walk_resolves : ∀ {path pos q : List String},
    fs.walk pos path = some q → q = path.foldl next pos := by
  intro path
  induction path with
  | nil =>
    intro pos q h
    exact (Option.some.inj h).symm
  | cons c path ih =>
    intro pos q h
    rw [Store.walk] at h
    split at h
    · exact ih h
    · cases h

theorem walk_cases (h : Agree D fs fs') {path : List String}
    (hav : Avoids D path) :
    fs.walk [] path = fs'.walk [] path ∧
      ∀ pos, fs'.walk [] path = some pos → ¬ D pos := by
  refine ⟨walk_congr h path [] hav, fun pos hpos => ?_⟩
  rw [walk_resolves hpos]
  exact hav path (List.prefix_refl _)

theorem fileAt_congr (h : Agree D fs fs') {path : List String}
    (hav : Avoids D path) : fs.fileAt path = fs'.fileAt path := by
  obtain ⟨hwalk, hpos⟩ := walk_cases h hav
  rw [Store.fileAt, Store.fileAt, hwalk]
  cases hq : fs'.walk [] path with
  | none => rfl
  | some pos => exact h.file pos (hpos pos hq)

theorem isDirAt_congr (h : Agree D fs fs') {path : List String}
    (hav : Avoids D path) : fs.isDirAt path = fs'.isDirAt path := by
  obtain ⟨hwalk, hpos⟩ := walk_cases h hav
  rw [Store.isDirAt, Store.isDirAt, hwalk]
  cases hq : fs'.walk [] path with
  | none => rfl
  | some pos => exact h.isDir pos (hpos pos hq)

theorem modifiedAt_congr (h : Agree D fs fs') {path : List String}
    (hav : Avoids D path) : fs.modifiedAt path = fs'.modifiedAt path := by
  obtain ⟨hwalk, hpos⟩ := walk_cases h hav
  rw [Store.modifiedAt, Store.modifiedAt, hwalk]
  cases hq : fs'.walk [] path with
  | none => rfl
  | some pos =>
    have hnot := hpos pos hq
    rw [Option.filter_some, Option.filter_some, h.isDir pos hnot,
      h.file pos hnot]
    split
    · exact congrArg some (h.modified pos hnot)
    · rfl

-- ==== below a directory

/-- The way to a resolved position below such a directory. -/
theorem avoids_below {root p : List String} (hap : Apart D root)
    (hp : ∀ c ∈ p, c ≠ "..") (hbelow : resolve root <+: p) :
    Avoids D p := by
  intro pre hpre hD
  rw [resolve_plain fun c hc => hp c (hpre.subset hc)] at hD
  cases List.prefix_or_prefix_of_prefix hpre hbelow with
  | inl h => exact (hap pre hD).2 h
  | inr h => exact (hap pre hD).1 h

theorem avoids_append {root rel : List String} (hap : Apart D root)
    (hroot : Avoids D root) (hrel : ∀ c ∈ rel, c ≠ "..") :
    Avoids D (root ++ rel) := by
  intro pre hpre
  cases List.prefix_or_prefix_of_prefix hpre (List.prefix_append root rel) with
  | inl h => exact hroot pre h
  | inr h =>
    obtain ⟨down, rfl⟩ := h
    have hdown : down <+: rel := (List.prefix_append_right_inj root).1 hpre
    intro hD
    refine (hap _ hD).1 ?_
    show resolve root <+: (root ++ down).foldl next []
    rw [List.foldl_append,
      foldl_next_plain fun c hc => hrel c (hdown.subset hc)]
    exact List.prefix_append _ _

theorem safeJoin_avoids {root p : List String} {path : String}
    (hap : Apart D root) (h : safeJoin root path = some p) :
    Avoids D p := by
  rw [safeJoin] at h
  split at h
  · next hpre =>
    cases h
    exact avoids_below hap (plain_resolve _) (List.isPrefixOf_iff_prefix.1 hpre)
  · cases h

end SdlcOs.Index
