/-
Which module directories a content hash tells apart.

# What is promised

The hash stands for the directory: two trees whose files are hashed as
the same bytes have the same paths with the same contents (`Separated`).

# Where it is kept

A path has no NUL byte in it and a content may. Contents without NUL
bytes are told apart (`separated_of_nulFree`). In general a content can
hold what the next files would have added to the stream, so that a tree
is told apart from every other one only if it has at most one file and
that file's content spells no path that could come next (`Alone`,
`separated_iff`).

# Paths

A path that is no Unicode text has no UTF-8 encoding and is not hashed.
-/
import SdlcOs.Data.Terminated
import SdlcOs.Release.ModuleVersions

namespace SdlcOs.ModuleVersions

open Data (Terminated)

-- ==== paths

/-- The name of a file or of a directory. -/
structure PartOk (part : String) : Prop where
  some : part ≠ ""
  here : part ≠ "."
  up : part ≠ ".."
  slash : '/' ∉ part.toList
  nul : '\x00' ∉ part.toList

/-- The relative path of a file. -/
structure PathOk (path : List String) : Prop where
  some : path ≠ []
  parts : ∀ part ∈ path, PartOk part

/-- A directory's files, as a file system has them: no file is inside
another. -/
structure ModuleTree extends Tree where
  paths : ∀ file ∈ files, PathOk file.1
  apart : ∀ file ∈ files, ∀ file' ∈ files,
    file.1 <+: file'.1 → file = file'

/-- A path, in the stream. -/
def pathBytes (path : List String) : List UInt8 :=
  (asPosix path).toUTF8.toList

theorem toList_loop (bytes : ByteArray) (r : List UInt8) :
    ∀ n i, bytes.size - i = n →
      ByteArray.toList.loop bytes i r =
        r.reverse ++ bytes.data.toList.drop i := by
  intro n
  induction n generalizing r with
  | zero =>
    intro i hi
    rw [ByteArray.toList.loop, if_neg (by omega), List.drop_eq_nil_of_le,
      List.append_nil]
    rw [Array.length_toList]
    show bytes.size ≤ i
    omega
  | succ n ih =>
    intro i hi
    have hlt : i < bytes.data.toList.length := by
      rw [Array.length_toList]
      show i < bytes.size
      omega
    rw [ByteArray.toList.loop, if_pos (by omega), ih _ _ (by omega),
      List.drop_eq_getElem_cons hlt]
    have hget : bytes.get! i = bytes.data.toList[i] := by
      show bytes.data[i]! = _
      rw [getElem!_pos bytes.data i (by simpa using hlt)]
      rfl
    rw [hget]
    simp

theorem toList_utf8 (s : String) :
    s.toUTF8.toList = s.toList.flatMap String.utf8EncodeChar := by
  have hbytes : s.toUTF8.toList = s.toUTF8.data.toList := by
    show ByteArray.toList.loop _ 0 [] = _
    rw [toList_loop _ _ _ _ rfl]
    simp
  rw [hbytes]
  show s.toByteArray.data.toList = _
  rw [← String.utf8Encode_toList]
  simp [List.utf8Encode]

theorem zero_notMem_utf8EncodeChar {c : Char} (h : c ≠ '\x00') :
    0 ∉ String.utf8EncodeChar c := by
  have hset : ∀ x y : UInt8, y ≠ 0 → ¬ 0 = x ||| y := fun x y hy hx =>
    hy (UInt8.or_eq_zero_iff.1 hx.symm).2
  obtain hsize | hsize | hsize | hsize := c.utf8Size_eq
  · rw [String.utf8EncodeChar_eq_singleton hsize, List.mem_singleton]
    have hlow := Char.utf8Size_eq_one_iff.1 hsize
    rw [UInt32.le_iff_toNat_le] at hlow
    intro hzero
    apply h
    apply Char.ext
    rw [← UInt32.toNat_inj]
    rw [← UInt8.toNat_inj, UInt32.toNat_toUInt8,
      Nat.mod_eq_of_lt (Nat.lt_of_le_of_lt hlow (by decide))] at hzero
    exact hzero.symm
  · rw [String.utf8EncodeChar_eq_cons_cons hsize]
    simp [hset]
  · rw [String.utf8EncodeChar_eq_cons_cons_cons hsize]
    simp [hset]
  · rw [String.utf8EncodeChar_eq_cons_cons_cons_cons hsize]
    simp [hset]

theorem toList_asPosix (path : List String) :
    (asPosix path).toList = ['/'].intercalate (path.map String.toList) := by
  rw [asPosix, String.toList_intercalate]
  rfl

theorem asPosix_inj {path path' : List String} (h : PathOk path)
    (h' : PathOk path') (heq : asPosix path = asPosix path') :
    path = path' := by
  have hparts : ∀ {path}, PathOk path →
      (asPosix path).toList.splitOn '/' = path.map String.toList := by
    intro path hpath
    rw [toList_asPosix, List.splitOn_intercalate]
    · intro l hl
      obtain ⟨part, hpart, rfl⟩ := List.mem_map.1 hl
      exact (hpath.parts part hpart).slash
    · simpa using hpath.some
  have hmap : path.map String.toList = path'.map String.toList := by
    rw [← hparts h, ← hparts h', heq]
  exact List.map_injective_iff.2 (fun _ _ => String.toList_inj.1) hmap

theorem pathBytes_inj {path path' : List String} (h : PathOk path)
    (h' : PathOk path') (heq : pathBytes path = pathBytes path') :
    path = path' := by
  refine asPosix_inj h h' ?_
  rw [pathBytes, pathBytes, toList_utf8, toList_utf8] at heq
  rw [← String.toByteArray_inj, ← String.utf8Encode_toList,
    ← String.utf8Encode_toList, List.utf8Encode, List.utf8Encode, heq]

theorem mem_toList_asPosix {path : List String} {c : Char}
    (h : c ∈ (asPosix path).toList) :
    c = '/' ∨ ∃ part ∈ path, c ∈ part.toList := by
  rw [toList_asPosix] at h
  induction path with
  | nil => exact absurd h List.not_mem_nil
  | cons part path ih =>
    cases path with
    | nil =>
      rw [List.map_singleton, List.intercalate_singleton] at h
      exact Or.inr ⟨part, List.mem_cons_self, h⟩
    | cons part' path =>
      rw [List.map_cons, List.map_cons, List.intercalate_cons_cons,
        List.mem_append, List.mem_append] at h
      rcases h with (h | h) | h
      · exact Or.inr ⟨part, List.mem_cons_self, h⟩
      · exact Or.inl (List.mem_singleton.1 h)
      · exact (ih h).imp_right fun ⟨part, hpart, hc⟩ =>
          ⟨part, List.mem_cons_of_mem _ hpart, hc⟩

theorem zero_notMem_pathBytes {path : List String} (h : PathOk path) :
    0 ∉ pathBytes path := by
  intro hmem
  rw [pathBytes, toList_utf8, List.mem_flatMap] at hmem
  obtain ⟨c, hc, hzero⟩ := hmem
  refine zero_notMem_utf8EncodeChar ?_ hzero
  rintro rfl
  obtain hslash | ⟨part, hpart, hnul⟩ := mem_toList_asPosix hc
  · exact absurd hslash (by decide)
  · exact (h.parts part hpart).nul hnul

-- ==== stream

/-- The stream's records: a path and a content. -/
def encoding : Terminated UInt8 (List String) where
  sep := 0
  spell := pathBytes
  Ok := PathOk
  sep_notMem := fun _ => zero_notMem_pathBytes
  spell_inj := fun _ _ => pathBytes_inj

theorem hashedFile_eq : hashedFile = encoding.record := rfl

/-- The files, by relative path. -/
def Tree.sorted (tree : Tree) : List (List String × List UInt8) :=
  tree.files.insertionSort fun a b => a.1 ≤ b.1

/-- What `hash_module_dir` feeds to the hash. -/
def hashedBytes (tree : Tree) : List UInt8 := tree.sorted.flatMap hashedFile

theorem hashModuleDir_eq (sha256 : List UInt8 → String) (tree : Tree) :
    hashModuleDir sha256 tree = sha256 (hashedBytes tree) := rfl

/-- The trees have the same paths with the same contents. -/
def SameFiles (tree tree' : Tree) : Prop :=
  ∀ file, file ∈ tree.files ↔ file ∈ tree'.files

/-- The promise, for two trees. -/
def Separated (tree tree' : Tree) : Prop :=
  hashedBytes tree = hashedBytes tree' → SameFiles tree tree'

theorem mem_sorted {tree : Tree} {file : List String × List UInt8} :
    file ∈ tree.sorted ↔ file ∈ tree.files :=
  List.mem_insertionSort _

theorem sorted_pairwise (tree : Tree) :
    tree.sorted.Pairwise fun a b => a.1 ≤ b.1 := by
  have htotal : Std.Total fun a b : List String × List UInt8 => a.1 ≤ b.1 :=
    ⟨fun a b => le_total a.1 b.1⟩
  have htrans : IsTrans (List String × List UInt8) fun a b => a.1 ≤ b.1 :=
    ⟨fun _ _ _ => le_trans⟩
  exact List.pairwise_insertionSort _ _

theorem sameFiles_of_sorted {tree tree' : Tree}
    (h : tree.sorted = tree'.sorted) : SameFiles tree tree' := by
  intro file
  rw [← mem_sorted, h, mem_sorted]

-- ==== separate contents

/-- No content has a NUL byte. -/
def NulFree (tree : Tree) : Prop := ∀ file ∈ tree.files, 0 ∉ file.2

/-- Two trees without NUL bytes are told apart. -/
theorem separated_of_nulFree {tree tree' : ModuleTree}
    (h : NulFree tree.toTree) (h' : NulFree tree'.toTree) :
    Separated tree.toTree tree'.toTree := by
  intro heq
  have hok : ∀ tree : ModuleTree, NulFree tree.toTree →
      ∀ file ∈ tree.sorted, encoding.Ok file.1 ∧ encoding.sep ∉ file.2 := by
    intro tree h file hfile
    exact ⟨tree.paths _ (mem_sorted.1 hfile), h _ (mem_sorted.1 hfile)⟩
  exact sameFiles_of_sorted
    (Terminated.flatMap_inj (hok tree h) (hok tree' h') heq)

/-- The content spells a path that could come next, between two NUL
bytes. -/
def Resumes (file : List String × List UInt8) : Prop :=
  ∃ before path after, PathOk path ∧ file.1 < path ∧ ¬ file.1 <+: path ∧
    file.2 = before ++ 0 :: (pathBytes path ++ 0 :: after)

/-- At most one file, whose content spells no path that could come
next. -/
def Alone (tree : Tree) : Prop :=
  tree.files.length ≤ 1 ∧ ∀ file ∈ tree.files, ¬ Resumes file

theorem separated_of_alone {tree tree' : ModuleTree}
    (h : Alone tree.toTree) : Separated tree.toTree tree'.toTree := by
  intro heq
  have hok : ∀ file ∈ tree'.sorted, encoding.Ok file.1 := fun file hfile =>
    tree'.paths _ (mem_sorted.1 hfile)
  refine sameFiles_of_sorted ?_
  have hlen : tree.sorted.length = tree.files.length :=
    List.length_insertionSort _ _
  cases hsorted : tree.sorted with
  | nil =>
    rw [hashedBytes, hsorted, List.flatMap_nil] at heq
    cases hsorted' : tree'.sorted with
    | nil => rfl
    | cons file' files' =>
      rw [hashedBytes, hsorted', List.flatMap_cons] at heq
      exact absurd (List.append_eq_nil_iff.1 heq.symm).1
        (Terminated.record_ne_nil encoding _)
  | cons file files =>
    have hfile : file ∈ tree.files := by
      rw [← mem_sorted, hsorted]
      exact List.mem_cons_self
    have hnil : files = [] := by
      rw [hsorted, List.length_cons] at hlen
      exact List.eq_nil_of_length_eq_zero (by have := h.1; omega)
    subst hnil
    rw [hashedBytes, hsorted, List.flatMap_cons, List.flatMap_nil,
      List.append_nil] at heq
    obtain hone | ⟨before, next, files', after, hmore, hcontent⟩ :=
      Terminated.of_single encoding (tree.paths _ hfile) hok heq
    · exact hone.symm
    · refine absurd ?_ (h.2 _ hfile)
      have hfirst : (file.1, before) ∈ tree'.files := by
        rw [← mem_sorted, hmore]
        exact List.mem_cons_self
      have hnext : next ∈ tree'.files := by
        rw [← mem_sorted, hmore]
        exact List.mem_cons_of_mem _ List.mem_cons_self
      have hnodup : (tree'.sorted.map Prod.fst).Nodup :=
        ((List.perm_insertionSort _ _).map _).nodup_iff.2 tree'.nodup
      have hne : file.1 ≠ next.1 := by
        rw [hmore, List.map_cons, List.map_cons, List.nodup_cons] at hnodup
        exact fun heq => hnodup.1 (heq ▸ List.mem_cons_self)
      have hle : file.1 ≤ next.1 := by
        have hpair := sorted_pairwise tree'.toTree
        rw [hmore, List.pairwise_cons] at hpair
        exact hpair.1 next List.mem_cons_self
      refine ⟨before, next.1, after, tree'.paths _ hnext,
        lt_of_le_of_ne hle hne, ?_, hcontent⟩
      intro hinside
      have hsame := tree'.apart _ hfirst _ hnext hinside
      rw [← hsame] at hne
      exact hne rfl

/-- A tree of one file. -/
def single (path : List String) (content : List UInt8) (h : PathOk path) :
    ModuleTree where
  files := [(path, content)]
  nodup := List.nodup_singleton _
  paths := fun file hfile => by
    obtain rfl := List.mem_singleton.1 hfile
    exact h
  apart := fun file hfile file' hfile' _ => by
    rw [List.mem_singleton.1 hfile, List.mem_singleton.1 hfile']

theorem le_of_extends {path path' : List String} (h : path <+: path') :
    path ≤ path' := by
  obtain ⟨rest, rfl⟩ := h
  have hle := @List.le_append_left String _ _ path rest
  exact not_lt.1 hle

theorem sorted_single {tree : Tree} {file : List String × List UInt8}
    (h : tree.files = [file]) : tree.sorted = [file] := by
  rw [Tree.sorted, h]
  rfl

theorem sorted_pair {tree : Tree} {file file' : List String × List UInt8}
    (hle : file.1 ≤ file'.1) (h : tree.files = [file, file']) :
    tree.sorted = [file, file'] := by
  rw [Tree.sorted, h]
  exact List.Pairwise.insertionSort_eq (List.pairwise_pair.2 hle)

/-- A tree of two files, in their order. -/
def pair (path path' : List String) (content content' : List UInt8)
    (h : PathOk path) (h' : PathOk path') (hlt : path < path')
    (hinside : ¬ path <+: path') : ModuleTree where
  files := [(path, content), (path', content')]
  nodup := by
    simpa using hlt.ne
  paths := fun file hfile => by
    rcases List.mem_pair.1 hfile with rfl | rfl
    · exact h
    · exact h'
  apart := fun file hfile file' hfile' hle => by
    rcases List.mem_pair.1 hfile with rfl | rfl <;>
      rcases List.mem_pair.1 hfile' with rfl | rfl
    · rfl
    · exact absurd hle hinside
    · exact absurd (le_of_extends hle) (not_le_of_gt hlt)
    · rfl

theorem exists_merged {tree : ModuleTree} (h : 1 < tree.files.length) :
    ∃ tree' : ModuleTree, ¬ Separated tree.toTree tree'.toTree := by
  have hlen : tree.sorted.length = tree.files.length :=
    List.length_insertionSort _ _
  cases hsorted : tree.sorted with
  | nil =>
    rw [hsorted, List.length_nil] at hlen
    omega
  | cons file files =>
    cases files with
    | nil =>
      rw [hsorted, List.length_singleton] at hlen
      omega
    | cons file' files =>
      have hfile : file ∈ tree.files := by
        rw [← mem_sorted, hsorted]
        exact List.mem_cons_self
      have hfile' : file' ∈ tree.files := by
        rw [← mem_sorted, hsorted]
        exact List.mem_cons_of_mem _ List.mem_cons_self
      obtain ⟨content, hcontent⟩ :=
        Terminated.merge encoding file file' files
      refine ⟨single file.1 content (tree.paths _ hfile), ?_⟩
      intro hsep
      have hsame := hsep (by
        rw [hashedBytes, hsorted, hashedFile_eq, ← hcontent]
        exact (List.append_nil _).symm)
      have hmem := List.mem_singleton.1 ((hsame file).1 hfile)
      have hmem' := List.mem_singleton.1 ((hsame file').1 hfile')
      have hnodup : tree.sorted.Nodup :=
        (List.perm_insertionSort _ _).nodup_iff.2 tree.nodup.of_map
      rw [hsorted, List.nodup_cons, hmem, hmem'] at hnodup
      exact hnodup.1 List.mem_cons_self

theorem exists_split {tree : ModuleTree} {file : List String × List UInt8}
    (hone : tree.files = [file]) (h : Resumes file) :
    ∃ tree' : ModuleTree, ¬ Separated tree.toTree tree'.toTree := by
  obtain ⟨before, path, after, hpath, hlt, hinside, hcontent⟩ := h
  have hfile : file ∈ tree.files := by
    rw [hone]
    exact List.mem_singleton_self _
  refine ⟨pair file.1 path before after (tree.paths _ hfile) hpath hlt
    hinside, ?_⟩
  intro hsep
  have hsame := hsep (by
    rw [hashedBytes, hashedBytes, sorted_single hone,
      sorted_pair hlt.le rfl, List.flatMap_cons, List.flatMap_nil,
      List.append_nil, hashedFile_eq, ← Terminated.split]
    show encoding.record (file.1, file.2) = _
    rw [hcontent]
    rfl)
  have hmem := (hsame (path, after)).2
    (List.mem_cons_of_mem _ (List.mem_singleton_self _))
  rw [hone, List.mem_singleton] at hmem
  rw [← hmem] at hlt
  exact absurd hlt (lt_irrefl _)

/-- Contents without NUL bytes are told apart, and a tree is told apart
from every other one exactly if it is alone. -/
theorem hash_separates_iff (tree : ModuleTree) :
    (∀ tree' : ModuleTree, NulFree tree.toTree → NulFree tree'.toTree →
      Separated tree.toTree tree'.toTree) ∧
    ((∀ tree' : ModuleTree, Separated tree.toTree tree'.toTree) ↔
      Alone tree.toTree) := by
  refine ⟨fun tree' h h' => separated_of_nulFree h h', ?_⟩
  constructor
  · intro h
    have hnone : ¬ ∃ tree' : ModuleTree,
        ¬ Separated tree.toTree tree'.toTree := fun ⟨tree', hsep⟩ =>
      hsep (h tree')
    have hlen : tree.files.length ≤ 1 := by
      by_contra hlt
      exact hnone (exists_merged (by omega))
    refine ⟨hlen, ?_⟩
    intro file hfile hresumes
    refine hnone (exists_split ?_ hresumes)
    cases hfiles : tree.files with
    | nil =>
      rw [hfiles] at hfile
      cases hfile
    | cons file' files =>
      rw [hfiles, List.length_cons] at hlen
      obtain rfl : files = [] :=
        List.eq_nil_of_length_eq_zero (by omega)
      rw [hfiles] at hfile
      rw [List.mem_singleton.1 hfile]
  · intro h tree'
    exact separated_of_alone h

namespace Sample

theorem path_ok {name : String} (h : PartOk name) : PathOk [name] where
  some := List.cons_ne_nil _ _
  parts := fun part hpart => by
    obtain rfl := List.mem_singleton.1 hpart
    exact h

theorem a_ok : PathOk ["a"] := path_ok
  { some := by decide
    here := by decide
    up := by decide
    slash := by decide
    nul := by decide }

theorem b_ok : PathOk ["b"] := path_ok
  { some := by decide
    here := by decide
    up := by decide
    slash := by decide
    nul := by decide }

/-- "a", with "x" NUL "b" NUL "y" in it. -/
def one : ModuleTree :=
  single ["a"] [120, 0, 98, 0, 121] a_ok

/-- "a" with "x" in it, and "b" with "y". -/
def two : ModuleTree :=
  pair ["a"] ["b"] [120] [121] a_ok b_ok (by decide)
    (by decide)

end Sample

/-- A file is hashed as two files are. -/
theorem files_in_content : ¬ Separated Sample.one.toTree Sample.two.toTree := by
  intro h
  have hsame := h (by decide +kernel)
  exact absurd ((hsame (["a"], [120])).2 List.mem_cons_self)
    (by decide +kernel)

end SdlcOs.ModuleVersions
