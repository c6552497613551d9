/-
What a pinned module version stands for.

# The condition

A promotion pins the hash of the directory as it is then. It meets the
condition (`Meets`) if that is the tree that every run of the validation
saw and, where the version is pinned already, the tree that is pinned.

# What holds then

Evidence and record agree (`Backed`). A pin that meets the condition
writes the hash that is there already, so hashes never change, the tree
behind a version never does either, and every cell definition that is
accepted refers to it (`pins_immutable`). Without the condition neither
holds: a version is promoted again from an edited directory
(`pins_change`).
-/
import SdlcOs.Release.ModuleVersions

namespace SdlcOs.ModuleVersions

open Data

-- ==== the registry

namespace ModuleVersionRegistry

variable {g : ModuleVersionRegistry} {record : PinnedModuleVersion}

@[simp] theorem get_promote_self (g : ModuleVersionRegistry)
    (record : PinnedModuleVersion) :
    (g.promote record).get record.moduleName record.version = some record := by
  simp [get, promote]

theorem get_promote_ne {m v : String}
    (h : (m, v) ≠ (record.moduleName, record.version)) :
    (g.promote record).get m v = g.get m v := by
  unfold get promote
  by_cases hm : m = record.moduleName
  · have hv : v ≠ record.version := fun hv => h (by rw [hm, hv])
    rw [hm, Dict.get_set_self, Option.getD_some, Dict.get_set_ne _ hv]
  · rw [Dict.get_set_ne _ hm]

end ModuleVersionRegistry

namespace World

variable {sha256 : List UInt8 → String} {w w' : World} {act : Act}

-- ==== what happens

theorem step_inv (h : w.step sha256 act = some w') :
    (w'.registry = w.registry ∧ w'.evidence = w.evidence ∧
        w'.accepted = w.accepted) ∨
      (∃ cell, (validateCellDefinition cell w.registry).approved = true ∧
        w'.registry = w.registry ∧ w'.evidence = w.evidence ∧
        w'.accepted =
          w.accepted ++ (w.refersTo cell).toList.map (cell, ·)) ∨
      ∃ p now, act = .pin now ∧ w.promoting = some p ∧ p.left = [] ∧
        w' = w.pinned sha256 p now := by
  cases act with
  | edit dir tree =>
    obtain rfl := Option.some.inj h
    exact Or.inl ⟨rfl, rfl, rfl⟩
  | promote candidate validatedBy =>
    rw [step] at h
    split at h
    · cases h
    split at h
    · obtain rfl := Option.some.inj h
      exact Or.inl ⟨rfl, rfl, rfl⟩
    · obtain rfl := Option.some.inj h
      exact Or.inl ⟨rfl, rfl, rfl⟩
  | tofu r =>
    rw [step] at h
    split at h
    · cases h
    split at h
    · cases h
    · obtain rfl := Option.some.inj h
      unfold runTofu
      split
      · exact Or.inl ⟨rfl, rfl, rfl⟩
      · exact Or.inl ⟨rfl, rfl, rfl⟩
  | pin now =>
    rw [step] at h
    split at h
    · cases h
    next p hp =>
    split at h
    · next hleft =>
      exact Or.inr (Or.inr ⟨p, now, rfl, hp, hleft,
        (Option.some.inj h).symm⟩)
    · cases h
  | validateCell cell =>
    rw [step] at h
    split at h
    · next happroved =>
      obtain rfl := Option.some.inj h
      exact Or.inr (Or.inl ⟨cell, happroved, rfl, rfl, rfl⟩)
    · obtain rfl := Option.some.inj h
      exact Or.inl ⟨rfl, rfl, rfl⟩
  | die =>
    obtain rfl := Option.some.inj h
    exact Or.inl ⟨rfl, rfl, rfl⟩

-- ==== the condition

/-- A promotion pins the tree that its validation ran on, and a version
that is pinned already with the tree that is pinned. -/
def Meets (w : World) : Act → Prop
  | .pin _ => ∀ p, w.promoting = some p → p.left = [] →
      (∀ tree ∈ p.seen, tree = w.dirs p.candidate.moduleDir) ∧
      ∀ e, w.evidence.get (p.candidate.moduleName, p.candidate.version) =
        some e → e.hashed = w.dirs p.candidate.moduleDir
  | _ => True

variable (sha256) in
/-- Every step of a run meets the condition. -/
def Careful : World → List Act → Prop
  | _, [] => True
  | w, act :: acts => w.Meets act ∧
      ∀ w', w.step sha256 act = some w' → Careful w' acts

/-- What was pinned is pinned with the same hash. -/
def PinsKept (w w' : World) : Prop :=
  ∀ m v r, w.registry.get m v = some r →
    ∃ r', w'.registry.get m v = some r' ∧ r'.contentHash = r.contentHash

variable (sha256) in
/-- A pinned hash is that of what its validation ran on. -/
def Exact (w : World) : Prop :=
  ∀ m v r, w.registry.get m v = some r →
    ∃ e, w.evidence.get (m, v) = some e ∧ e.validatedOn ≠ [] ∧
      ∀ tree ∈ e.validatedOn, r.contentHash = hashModuleDir sha256 tree

/-- Cell definitions that are accepted for one version refer to one
tree. -/
def SameContent (w : World) : Prop :=
  ∀ x ∈ w.accepted, ∀ y ∈ w.accepted,
    x.1.moduleName = y.1.moduleName → x.1.moduleVersion = y.1.moduleVersion →
      x.2 = y.2

variable (sha256) in
/-- What holds as long as the condition is met. -/
structure Backed (w : World) : Prop where
  backed : ∀ m v r, w.registry.get m v = some r →
    ∃ e, w.evidence.get (m, v) = some e ∧ e.validatedOn ≠ [] ∧
      (∀ tree ∈ e.validatedOn, tree = e.hashed) ∧
      r.contentHash = hashModuleDir sha256 e.hashed
  current : ∀ x ∈ w.accepted, w.refersTo x.1 = some x.2
  ran : ∀ p, w.promoting = some p →
    p.seen.length + p.left.length = 3

theorem backed_init (dirs : String → Tree) :
    Backed sha256 (World.init dirs) where
  backed := fun m v r h => by cases h
  current := fun x h => by cases h
  ran := fun p h => by cases h

theorem Backed.exact (h : Backed sha256 w) : Exact sha256 w := by
  intro m v r hget
  obtain ⟨e, he, hne, hseen, hhash⟩ := h.backed m v r hget
  refine ⟨e, he, hne, fun tree htree => ?_⟩
  rw [hseen tree htree]
  exact hhash

theorem Backed.sameContent (h : Backed sha256 w) : SameContent w := by
  intro x hx y hy hname hversion
  have htree := h.current x hx
  rw [refersTo, hname, hversion] at htree
  exact Option.some.inj (htree.symm.trans (h.current y hy))

theorem step_ran (h : ∀ p, w.promoting = some p →
      p.seen.length + p.left.length = 3)
    (hstep : w.step sha256 act = some w') :
    ∀ p, w'.promoting = some p → p.seen.length + p.left.length = 3 := by
  intro p' hp'
  cases act with
  | edit dir tree =>
    obtain rfl := Option.some.inj hstep
    exact h p' hp'
  | promote candidate validatedBy =>
    rw [step] at hstep
    split at hstep
    · cases hstep
    split at hstep
    · obtain rfl := Option.some.inj hstep
      exact h p' hp'
    · obtain rfl := Option.some.inj hstep
      obtain rfl := Option.some.inj hp'
      rfl
  | tofu r =>
    rw [step] at hstep
    split at hstep
    · cases hstep
    next p hp =>
    split at hstep
    · cases hstep
    next command left hleft =>
    obtain rfl := Option.some.inj hstep
    have hlen := h p hp
    rw [hleft, List.length_cons] at hlen
    unfold runTofu at hp'
    split at hp'
    · obtain rfl := Option.some.inj hp'
      show (p.seen ++ [_]).length + left.length = 3
      rw [List.length_append, List.length_singleton]
      omega
    · cases hp'
  | pin now =>
    rw [step] at hstep
    split at hstep
    · cases hstep
    split at hstep
    · obtain rfl := Option.some.inj hstep
      cases hp'
    · cases hstep
  | validateCell cell =>
    rw [step] at hstep
    split at hstep
    · obtain rfl := Option.some.inj hstep
      exact h p' hp'
    · obtain rfl := Option.some.inj hstep
      exact h p' hp'
  | die =>
    obtain rfl := Option.some.inj hstep
    cases hp'

-- ==== a pin

section Pin

variable {p : Promotion} {now : String}

theorem pinned_get_self : (w.pinned sha256 p now).registry.get
    p.candidate.moduleName p.candidate.version =
      some (w.pinnedRecord sha256 p now) :=
  ModuleVersionRegistry.get_promote_self _ (w.pinnedRecord sha256 p now)

theorem pinned_get_ne {m v : String}
    (h : (m, v) ≠ (p.candidate.moduleName, p.candidate.version)) :
    (w.pinned sha256 p now).registry.get m v = w.registry.get m v :=
  ModuleVersionRegistry.get_promote_ne h

theorem pinned_evidence_self : (w.pinned sha256 p now).evidence.get
    (p.candidate.moduleName, p.candidate.version) =
      some ⟨p.seen, w.dirs p.candidate.moduleDir⟩ :=
  Dict.get_set_self _ _ _

theorem pinned_evidence_ne {key : String × String}
    (h : key ≠ (p.candidate.moduleName, p.candidate.version)) :
    (w.pinned sha256 p now).evidence.get key = w.evidence.get key :=
  Dict.get_set_ne _ h _

/-- A pin that meets the condition leaves the trees and the hashes of the
versions as they are. -/
theorem Backed.pin (h : Backed sha256 w) (hmeets : w.Meets (.pin now))
    (hp : w.promoting = some p) (hleft : p.left = []) :
    Backed sha256 (w.pinned sha256 p now) ∧
      PinsKept w (w.pinned sha256 p now) := by
  obtain ⟨hseen, hsame⟩ := hmeets p hp hleft
  refine ⟨⟨?_, ?_, ?_⟩, ?_⟩
  · intro m v r hget
    by_cases hkey : (m, v) = (p.candidate.moduleName, p.candidate.version)
    · obtain ⟨rfl, rfl⟩ := Prod.mk.inj hkey
      rw [pinned_get_self] at hget
      obtain rfl := Option.some.inj hget
      refine ⟨_, pinned_evidence_self, ?_, hseen, rfl⟩
      intro hnil
      have hran := h.ran p hp
      rw [hleft] at hran
      replace hnil : p.seen = [] := hnil
      rw [hnil] at hran
      cases hran
    · rw [pinned_get_ne hkey] at hget
      rw [pinned_evidence_ne hkey]
      exact h.backed m v r hget
  · intro x hx
    have hcurrent := h.current x hx
    unfold refersTo at hcurrent ⊢
    by_cases hkey : (x.1.moduleName, x.1.moduleVersion) =
        (p.candidate.moduleName, p.candidate.version)
    · rw [hkey] at hcurrent ⊢
      obtain ⟨e, he, htree⟩ := Option.map_eq_some_iff.1 hcurrent
      rw [pinned_evidence_self, Option.map_some, ← hsame e he, htree]
    · rw [pinned_evidence_ne hkey]
      exact hcurrent
  · intro p' hp'
    cases hp'
  · intro m v r hget
    by_cases hkey : (m, v) = (p.candidate.moduleName, p.candidate.version)
    · obtain ⟨rfl, rfl⟩ := Prod.mk.inj hkey
      obtain ⟨e, he, _, _, hhash⟩ := h.backed _ _ r hget
      refine ⟨_, pinned_get_self, ?_⟩
      rw [hhash, hsame e he]
      rfl
    · exact ⟨r, (pinned_get_ne hkey).trans hget, rfl⟩

end Pin

-- ==== runs

theorem PinsKept.refl (w : World) : PinsKept w w :=
  fun _ _ r h => ⟨r, h, rfl⟩

theorem PinsKept.trans {w'' : World} (h : PinsKept w w')
    (h' : PinsKept w' w'') : PinsKept w w'' := by
  intro m v r hget
  obtain ⟨r', hget', heq⟩ := h m v r hget
  obtain ⟨r'', hget'', heq'⟩ := h' m v r' hget'
  exact ⟨r'', hget'', heq'.trans heq⟩

theorem Backed.step (h : Backed sha256 w) (hmeets : w.Meets act)
    (hstep : w.step sha256 act = some w') :
    Backed sha256 w' ∧ PinsKept w w' := by
  rcases step_inv hstep with ⟨hreg, hev, hacc⟩ |
    ⟨cell, _, hreg, hev, hacc⟩ | ⟨p, now, rfl, hp, hleft, rfl⟩
  · refine ⟨⟨?_, ?_, step_ran h.ran hstep⟩, ?_⟩
    · rw [hreg, hev]
      exact h.backed
    · rw [hacc]
      intro x hx
      rw [refersTo, hev]
      exact h.current x hx
    · intro m v r hget
      exact ⟨r, by rw [hreg]; exact hget, rfl⟩
  · refine ⟨⟨?_, ?_, step_ran h.ran hstep⟩, ?_⟩
    · rw [hreg, hev]
      exact h.backed
    · intro x hx
      rw [hacc, List.mem_append] at hx
      rw [refersTo, hev]
      rcases hx with hx | hx
      · exact h.current x hx
      · obtain ⟨tree, htree, rfl⟩ := List.mem_map.1 hx
        exact Option.mem_toList.1 htree
    · intro m v r hget
      exact ⟨r, by rw [hreg]; exact hget, rfl⟩
  · exact h.pin hmeets hp hleft

theorem Backed.run {acts : List Act} : ∀ {w : World}, Backed sha256 w →
    Careful sha256 w acts → w.run sha256 acts = some w' →
      Backed sha256 w' ∧ PinsKept w w' := by
  induction acts with
  | nil =>
    intro w h _ hrun
    obtain rfl := Option.some.inj hrun
    exact ⟨h, PinsKept.refl _⟩
  | cons act acts ih =>
    intro w h hcareful hrun
    rw [World.run] at hrun
    obtain ⟨w₁, hstep, hrest⟩ := Option.bind_eq_some_iff.1 hrun
    obtain ⟨hmeets, hcareful⟩ := hcareful
    obtain ⟨h₁, hkept⟩ := h.step hmeets hstep
    obtain ⟨h', hkept'⟩ := ih h₁ (hcareful w₁ hstep) hrest
    exact ⟨h', hkept.trans hkept'⟩

theorem careful_append {pre post : List Act} : ∀ {w : World},
    Careful sha256 w (pre ++ post) → w.run sha256 pre = some w' →
      Careful sha256 w pre ∧ Careful sha256 w' post := by
  induction pre with
  | nil =>
    intro w h hrun
    obtain rfl := Option.some.inj hrun
    exact ⟨trivial, h⟩
  | cons act pre ih =>
    intro w h hrun
    rw [World.run] at hrun
    obtain ⟨w₁, hstep, hrest⟩ := Option.bind_eq_some_iff.1 hrun
    obtain ⟨hmeets, hcareful⟩ := h
    refine ⟨⟨hmeets, fun w₂ hstep₂ => ?_⟩, (ih (hcareful w₁ hstep) hrest).2⟩
    rw [hstep] at hstep₂
    obtain rfl := Option.some.inj hstep₂
    exact (ih (hcareful w₁ hstep) hrest).1

end World

-- ==== two versions

/-- A module of one file. -/
def moduleTree (bytes : List UInt8) : Tree where
  files := [(["main.tf"], bytes)]
  nodup := List.nodup_singleton _

/-- Its directory at first. -/
def moduleDirs : String → Tree := fun _ => moduleTree [97]

/-- A stand-in that keeps what it hashes. -/
def plainHash (bytes : List UInt8) : String :=
  String.ofList (bytes.map fun b => Char.ofNat b.toNat)

/-- A promotion of the module, all of whose runs succeed. -/
def promotion : List Act :=
  [.promote { moduleName := "net", version := "1.0", moduleDir := "/net" } "ci",
    .tofu ⟨0, "", ""⟩, .tofu ⟨0, "", ""⟩, .tofu ⟨0, "", ""⟩, .pin "now"]

/-- A cell of that version. -/
def netCell : CellDefinition := ⟨"acme", "net", "1.0"⟩

namespace World

/-- In a run whose steps meet the condition a pinned hash never changes, is
that of what the validation ran on, and the cell definitions that are
accepted for a version refer to one tree. -/
theorem pins_immutable {dirs : String → Tree} {pre post : List Act}
    {w w' : World} (hpre : (World.init dirs).run sha256 pre = some w)
    (hpost : w.run sha256 post = some w')
    (hcareful : Careful sha256 (World.init dirs) (pre ++ post)) :
    PinsKept w w' ∧ Exact sha256 w' ∧ SameContent w' := by
  obtain ⟨hpre', hpost'⟩ := careful_append hcareful hpre
  obtain ⟨h, _⟩ := (backed_init dirs).run hpre' hpre
  obtain ⟨h', hkept⟩ := h.run hpost' hpost
  exact ⟨hkept, h'.exact, h'.sameContent⟩

theorem promotion_careful (cell : CellDefinition) : Careful plainHash
    (World.init moduleDirs) (promotion ++ [.validateCell cell]) := by
  refine ⟨trivial, fun w h => ?_⟩
  obtain rfl := Option.some.inj h
  refine ⟨trivial, fun w h => ?_⟩
  obtain rfl := Option.some.inj h
  refine ⟨trivial, fun w h => ?_⟩
  obtain rfl := Option.some.inj h
  refine ⟨trivial, fun w h => ?_⟩
  obtain rfl := Option.some.inj h
  refine ⟨?_, fun w _ => ⟨trivial, fun _ _ => trivial⟩⟩
  intro p hp _
  obtain rfl := Option.some.inj hp
  constructor
  · intro tree htree
    exact List.eq_of_mem_replicate (n := 3) htree
  · intro e he
    cases he

/-- A version that is promoted and then used. -/
theorem pins_immutable_used : ∃ w w',
    (World.init moduleDirs).run plainHash promotion = some w ∧
      w.run plainHash [.validateCell netCell] = some w' ∧
        PinsKept w w' ∧ Exact plainHash w' ∧ SameContent w' :=
  ⟨_, _, rfl, rfl, pins_immutable rfl rfl (promotion_careful netCell)⟩

/-- The module is edited and promoted again, a cell accepted before and
after. -/
theorem pins_change : ¬ ∀ (sha256 : List UInt8 → String)
    (dirs : String → Tree) (pre post : List Act) (w w' : World),
      (World.init dirs).run sha256 pre = some w →
        w.run sha256 post = some w' →
          PinsKept w w' ∧ Exact sha256 w' ∧ SameContent w' := by
  intro h
  obtain ⟨_, _, hsame⟩ := h plainHash moduleDirs [] (promotion ++
    [.validateCell netCell, .edit "/net" (moduleTree [98])] ++ promotion ++
    [.validateCell netCell]) _ _ rfl rfl
  have htrees := hsame (netCell, moduleTree [97]) List.mem_cons_self
    (netCell, moduleTree [98]) (List.mem_cons_of_mem _ List.mem_cons_self)
    rfl rfl
  exact absurd htrees (by decide)

end World

end SdlcOs.ModuleVersions
