/-
Which identifiers of a Python file the walker turns into references.

# Uses

`uses` are the identifiers that stand for something: all but those in
imports and the names that are given to functions, classes, parameters,
keyword arguments and, outside functions, plain assignment targets.

# What is not read

`unread` are the uses in the parts that the walker passes over. Every
other use is on the chain of exactly one occurrence; so all of them are
if and only if `unread` is empty (`walker_loses_none`). In a tree that
parses, these parts are annotations and type parameters and, outside
functions, the targets of an assignment that are no plain names.
-/
import Mathlib.Data.List.Count
import SdlcOs.Index.PythonAdapter

namespace SdlcOs.Index

-- ==== uses

/-- How the identifiers in a part of the tree count. -/
inductive Part : Type where
  /-- None of them is a use. -/
  | given
  /-- All but the names given further down. -/
  | whole (s : Scope)
  /-- A statement outside a function. -/
  | statement (s : Scope)
  /-- A pattern that names are given in. -/
  | target (s : Scope)
  | parameters
  | parameter

/-- The statements that import. -/
def importTypes : List String :=
  ["import_statement", "import_from_statement", "future_import_statement"]

/-- The patterns that names are given in. -/
def patternTypes : List String :=
  ["pattern_list", "tuple_pattern", "list_pattern", "list_splat_pattern",
    "dictionary_splat_pattern"]

/-- How the children of a node count, by the fields they fill. -/
def wholeParts (s : Scope) (type : String) (field : Option String) : Part :=
  if type ∈ importTypes then .given
  else if type = "function_definition" then
    if field = some "name" then .given
    else if field = some "parameters" then .parameters
    else if field = some "body" then .whole .function
    else .whole s
  else if type = "class_definition" then
    if field = some "name" then .given
    else if field = some "body" then .whole .class
    else .whole s
  else if type = "keyword_argument" then
    if field = some "name" then .given else .whole s
  else if type = "expression_statement" ∧ s ≠ .function then .statement s
  else .whole s

/-- The same, by how the node itself counts. -/
def Part.below (part : Part) (type : String) (field : Option String) : Part :=
  match part with
  | .given => .given
  | .whole s => wholeParts s type field
  | .statement s =>
    if type = "assignment" then
      if field = some "left" then .target s else .whole s
    else wholeParts s type field
  | .target s =>
    if type ∈ patternTypes then .target s else wholeParts s type field
  | .parameters => .parameter
  | .parameter =>
    if type ∈ parameterTypes then
      if field = some "type" ∨ field = some "value" then .whole .function
      else .target .function
    else if type ∈ patternTypes then .target .function
    else wholeParts .function type field

/-- An identifier in this part is a use. -/
def Part.counts : Part → Bool
  | .whole _ => true
  | .statement _ => true
  | _ => false

mutual

/-- The identifiers in a part that are uses. -/
def uses (part : Part) : Node → List Node
  | .mk id type text row column endRow children =>
    (if type = "identifier" ∧ part.counts then
      [.mk id type text row column endRow children] else []) ++
      usesIn (part.below type) children

def usesIn (part : Option String → Part) : List Child → List Node
  | [] => []
  | (f, n) :: rest => uses (part f) n ++ usesIn part rest

end

-- ==== unread

/-- What the walker does with a part of the tree. -/
inductive Reading : Type where
  /-- It passes over it. -/
  | skipped (part : Part)
  /-- It visits it. -/
  | visited (s : Scope)
  /-- It visits its children. -/
  | children (s : Scope)
  /-- It takes a chain from it, or visits it. -/
  | callee (s : Scope)
  /-- It takes a chain from it. -/
  | chain (s : Scope)
  /-- It takes a name from it. -/
  | link (s : Scope)
  /-- An assignment outside a function. -/
  | assigned (s : Scope)
  | parameters
  | parameter

/-- What happens to the children of a node on a chain. -/
def chainBelow (s : Scope) (type : String) (field : Option String) :
    Reading :=
  if type = "identifier" then .skipped (.whole s)
  else if type = "dotted_name" then .link s
  else if type = "attribute" then
    if field = some "object" ∨ field = some "attribute" then .chain s
    else .skipped (.whole s)
  else .skipped (.whole s)

/-- What happens to the children of a node that is visited. -/
def visitedBelow (s : Scope) (type : String) (isChain : Bool)
    (field : Option String) : Reading :=
  if type ∈ importTypes then .skipped .given
  else if type = "function_definition" then
    if field = some "parameters" then .parameters
    else if field = some "body" then .children .function
    else .skipped (wholeParts s type field)
  else if type = "class_definition" then
    if field = some "superclasses" then .visited s
    else if field = some "body" then .children .class
    else .skipped (wholeParts s type field)
  else if type = "keyword_argument" then
    if field = some "value" then .visited s
    else .skipped (wholeParts s type field)
  else if type = "call" then
    if field = some "function" then .callee s
    else if field = some "arguments" then .children s
    else .skipped (.whole s)
  else if type = "attribute" then
    if isChain then chainBelow s type field else .visited s
  else if type = "identifier" then .skipped (.whole s)
  else .visited s

/-- What happens to the children of a node that is not visited as a
whole, by what happens to it. -/
def Reading.below (r : Reading) (type : String) (field : Option String) :
    Reading :=
  match r with
  | .skipped part => .skipped (part.below type field)
  | .visited s => .visited s
  | .children s => .visited s
  | .callee s => .visited s
  | .chain s => chainBelow s type field
  | .link s => .skipped (wholeParts s type field)
  | .assigned s =>
    if field = some "right" then .visited s
    else .skipped ((Part.statement s).below type field)
  | .parameters => .parameter
  | .parameter =>
    if type ∈ parameterTypes ∧ field = some "value" then .visited .function
    else .skipped (Part.parameter.below type field)

/-- A callee is on a chain or visited, a name that is none passed over. -/
def Reading.settled (r : Reading) (type : String) (isChain : Bool) :
    Reading :=
  match r with
  | .callee s => if isChain then .chain s else .visited s
  | .link s => if type = "identifier" then .link s else .skipped (.whole s)
  | r => r

mutual

/-- The uses in a part that the walker does not read. -/
def unread (r : Reading) : Node → List Node
  | .mk id type text row column endRow children =>
    let node := Node.mk id type text row column endRow children
    let isChain := (flattenDotted node).isSome
    match r.settled type isChain with
    | .skipped part => uses part node
    | .visited s =>
      if type = "expression_statement" ∧ s ≠ .function ∧
          firstType children = "assignment" then
        unreadStatement s children
      else unreadIn (visitedBelow s type isChain) children
    | r => unreadIn (r.below type) children

def unreadIn (r : Option String → Reading) : List Child → List Node
  | [] => []
  | (f, n) :: rest => unread (r f) n ++ unreadIn r rest

/-- After an assignment everything is passed over. -/
def unreadStatement (s : Scope) : List Child → List Node
  | [] => []
  | (_, n) :: rest =>
    unread (.assigned s) n ++ usesIn (fun _ => .statement s) rest

end

-- ==== the lists

theorem usesIn_eq (part : Option String → Part) (l : List Child) :
    usesIn part l = l.flatMap fun c => uses (part c.1) c.2 := by
  induction l with
  | nil => rfl
  | cons c l ih => rw [usesIn, ih, List.flatMap_cons]

theorem unreadIn_eq (r : Option String → Reading) (l : List Child) :
    unreadIn r l = l.flatMap fun c => unread (r c.1) c.2 := by
  induction l with
  | nil => rfl
  | cons c l ih => rw [unreadIn, ih, List.flatMap_cons]

theorem idsAll_eq (l : List Child) :
    Node.idsAll l = l.flatMap fun c => c.2.ids := by
  induction l with
  | nil => rfl
  | cons c l ih => rw [Node.idsAll, ih, List.flatMap_cons]

theorem unread_skipped (part : Part) (n : Node) :
    unread (.skipped part) n = uses part n := by
  cases n with
  | mk id type text row column endRow children =>
    rw [unread]
    rfl

mutual

theorem count_uses (part : Part) (i : Nat) :
    ∀ n : Node, ((uses part n).map Node.id).count i ≤ n.ids.count i
  | .mk id type text row column endRow children => by
    have hbelow := count_usesIn (part.below type) i children
    rw [uses, Node.ids, List.map_append, List.count_append,
      List.count_cons]
    split
    · rw [List.map_singleton, List.count_singleton]
      show (if (id == i) = true then 1 else 0) + _ ≤ _
      omega
    · rw [List.map_nil, List.count_nil]
      omega

theorem count_usesIn (part : Option String → Part) (i : Nat) :
    ∀ l : List Child,
      ((usesIn part l).map Node.id).count i ≤ (Node.idsAll l).count i
  | [] => Nat.le_refl _
  | (f, n) :: rest => by
    have hn := count_uses (part f) i n
    have hrest := count_usesIn part i rest
    rw [usesIn, Node.idsAll, List.map_append, List.count_append,
      List.count_append]
    omega

end

-- ==== covering

/-- Each use is passed over or on a chain, and no node of the part is
twice among these. -/
structure Covered (used left chain : List Node) (ids : List Nat) : Prop where
  covered : ∀ n ∈ used, n ∈ left ∨ n ∈ chain
  counts : ∀ i, (chain.map Node.id).count i + (left.map Node.id).count i ≤
    ids.count i

/-- The same of some children of a node. -/
def CoveredIn (part : Option String → Part) (r : Option String → Reading)
    (chain : List Node) (l : List Child) : Prop :=
  Covered (usesIn part l) (unreadIn r l) chain (Node.idsAll l)

section Covered

variable {used used' left left' chain chain' : List Node}
  {ids ids' : List Nat} {part part' : Option String → Part}
  {r r' : Option String → Reading} {l l' : List Child}

theorem Covered.append (h : Covered used left chain ids)
    (h' : Covered used' left' chain' ids') :
    Covered (used ++ used') (left ++ left') (chain ++ chain')
      (ids ++ ids') := by
  refine ⟨?_, ?_⟩
  · intro n hn
    rcases List.mem_append.1 hn with hn | hn
    · exact (h.covered n hn).imp (List.mem_append_left _)
        (List.mem_append_left _)
    · exact (h'.covered n hn).imp (List.mem_append_right _)
        (List.mem_append_right _)
  · intro i
    have hi := h.counts i
    have hi' := h'.counts i
    rw [List.map_append, List.map_append, List.count_append,
      List.count_append, List.count_append]
    omega

theorem Covered.weaken (h : Covered used left chain ids)
    (hused : ∀ n ∈ used', n ∈ used)
    (hleft : ∀ n ∈ used', n ∈ left → n ∈ left')
    (hcount : ∀ i, (left'.map Node.id).count i ≤ (left.map Node.id).count i)
    (hids : ∀ i, ids.count i ≤ ids'.count i) :
    Covered used' left' chain ids' := by
  refine ⟨?_, ?_⟩
  · intro n hn
    exact (h.covered n (hused n hn)).imp_left (hleft n hn)
  · intro i
    have hi := h.counts i
    have hleft' := hcount i
    have hids' := hids i
    omega

theorem Covered.perm (h : Covered used left chain ids)
    (hused : used.Perm used') (hleft : left.Perm left')
    (hids : ids.Perm ids') : Covered used' left' chain ids' :=
  h.weaken (fun _ hn => hused.mem_iff.2 hn) (fun _ _ hn => hleft.mem_iff.1 hn)
    (fun i => ((hleft.map Node.id).count_eq i).ge)
    (fun i => (hids.count_eq i).le)

theorem CoveredIn.perm (h : CoveredIn part r chain l) (hl : l.Perm l') :
    CoveredIn part r chain l' := by
  unfold CoveredIn at h ⊢
  rw [usesIn_eq, unreadIn_eq, idsAll_eq] at h ⊢
  exact Covered.perm h (hl.flatMap_right _) (hl.flatMap_right _)
    (hl.flatMap_right _)

theorem CoveredIn.append (h : CoveredIn part r chain l)
    (h' : CoveredIn part r chain' l') :
    CoveredIn part r (chain ++ chain') (l ++ l') := by
  unfold CoveredIn at h h' ⊢
  rw [usesIn_eq, unreadIn_eq, idsAll_eq] at h h' ⊢
  rw [List.flatMap_append, List.flatMap_append, List.flatMap_append]
  exact Covered.append h h'

theorem usesIn_congr (h : ∀ c ∈ l, part c.1 = part' c.1) :
    usesIn part l = usesIn part' l := by
  rw [usesIn_eq, usesIn_eq]
  refine List.flatMap_congr fun c hc => ?_
  rw [h c hc]

theorem unreadIn_congr (h : ∀ c ∈ l, r c.1 = r' c.1) :
    unreadIn r l = unreadIn r' l := by
  rw [unreadIn_eq, unreadIn_eq]
  refine List.flatMap_congr fun c hc => ?_
  rw [h c hc]

theorem CoveredIn.congr (h : CoveredIn part r chain l)
    (hpart : ∀ c ∈ l, part c.1 = part' c.1)
    (hr : ∀ c ∈ l, r c.1 = r' c.1) : CoveredIn part' r' chain l := by
  unfold CoveredIn at h ⊢
  rw [← usesIn_congr hpart, ← unreadIn_congr hr]
  exact h

/-- What is passed over is covered. -/
theorem CoveredIn.skip (h : ∀ c ∈ l, r c.1 = .skipped (part c.1)) :
    CoveredIn part r [] l := by
  have hsame : unreadIn r l = usesIn part l := by
    rw [unreadIn_eq, usesIn_eq]
    refine List.flatMap_congr fun c hc => ?_
    rw [h c hc, unread_skipped]
  unfold CoveredIn
  rw [hsame]
  refine ⟨fun _ hn => Or.inl hn, ?_⟩
  intro i
  rw [List.map_nil, List.count_nil, Nat.zero_add]
  exact count_usesIn part i l

theorem CoveredIn.nil : CoveredIn part r [] [] :=
  CoveredIn.skip fun _ h => by cases h

theorem CoveredIn.cons {f : Option String} {n : Node}
    (h : Covered (uses (part f) n) (unread (r f) n) chain n.ids)
    (h' : CoveredIn part r chain' l) :
    CoveredIn part r (chain ++ chain') ((f, n) :: l) :=
  Covered.append h h'

theorem CoveredIn.single {f : Option String} {n : Node}
    (h : Covered (uses (part f) n) (unread (r f) n) chain n.ids) :
    CoveredIn part r chain [(f, n)] := by
  have hcons := CoveredIn.cons h CoveredIn.nil
  rw [List.append_nil] at hcons
  exact hcons

end Covered

-- ==== fields

/-- The children that fill a field. -/
def pick (field : String) (l : List Child) : List Child :=
  l.filter (·.1 = some field)

/-- The children that fill none of some fields. -/
def others (fields : List String) (l : List Child) : List Child :=
  l.filter fun c => fields.all fun f => c.1 ≠ some f

theorem mem_pick {field : String} {l : List Child} {c : Child} :
    c ∈ pick field l ↔ c ∈ l ∧ c.1 = some field := by
  unfold pick
  rw [List.mem_filter, decide_eq_true_eq]

theorem mem_others {fields : List String} {l : List Child} {c : Child} :
    c ∈ others fields l ↔ c ∈ l ∧ ∀ f ∈ fields, c.1 ≠ some f := by
  unfold others
  rw [List.mem_filter, List.all_eq_true]
  simp only [decide_eq_true_eq]

theorem fields_perm (l : List Child) : ∀ {fields : List String},
    fields.Nodup →
    (fields.flatMap (pick · l) ++ others fields l).Perm l := by
  intro fields
  induction fields with
  | nil =>
    intro _
    exact List.Perm.of_eq (List.filter_eq_self.2 fun _ _ => rfl)
  | cons f fields ih =>
    intro hnodup
    obtain ⟨hf, hfields⟩ := List.nodup_cons.1 hnodup
    have hpick : (others fields l).filter (·.1 = some f) = pick f l := by
      unfold pick others
      rw [List.filter_filter]
      refine List.filter_congr fun c _ => ?_
      by_cases hc : c.1 = some f
      · rw [decide_eq_true hc, Bool.true_and, List.all_eq_true]
        intro f' hf'
        refine decide_eq_true fun heq => hf ?_
        rw [Option.some.inj (hc.symm.trans heq)]
        exact hf'
      · rw [decide_eq_false hc, Bool.false_and]
    have hothers : (others fields l).filter (fun c => !(c.1 = some f)) =
        others (f :: fields) l := by
      unfold others
      rw [List.filter_filter]
      refine List.filter_congr fun c _ => ?_
      rw [List.all_cons, decide_not]
    have hsplit := List.filter_append_perm (fun c : Child => c.1 = some f)
      (others fields l)
    rw [hpick, hothers] at hsplit
    rw [List.flatMap_cons, List.append_assoc]
    exact (List.perm_append_comm_assoc _ _ _).trans
      ((hsplit.append_left _).trans (ih hfields))

theorem length_pick (field : String) (l : List Child) :
    (pick field l).length = (l.filterMap Prod.fst).count field := by
  induction l with
  | nil => rfl
  | cons c l ih =>
    obtain ⟨f, n⟩ := c
    unfold pick at ih ⊢
    rw [List.filter_cons]
    cases f with
    | none =>
      rw [if_neg (by simp), ih, List.filterMap_cons_none rfl]
    | some f =>
      have hmap : ((some f, n) :: l).filterMap Prod.fst =
          f :: l.filterMap Prod.fst := rfl
      rw [hmap, List.count_cons]
      by_cases hf : f = field
      · rw [if_pos (by simp [hf]), List.length_cons, ih,
          if_pos (beq_iff_eq.2 hf)]
      · rw [if_neg (by simpa using hf), ih,
          if_neg (mt beq_iff_eq.1 hf), Nat.add_zero]

theorem pick_once {field : String} {l : List Child}
    (h : (l.filterMap Prod.fst).Nodup) :
    pick field l = [] ∨ ∃ n, pick field l = [(some field, n)] := by
  have hlength := length_pick field l
  have hcount := List.nodup_iff_count_le_one.1 h field
  cases hpick : pick field l with
  | nil => exact Or.inl rfl
  | cons c rest =>
    rw [hpick, List.length_cons] at hlength
    have hrest : rest = [] := List.length_eq_zero_iff.1 (by omega)
    have hc : c ∈ pick field l := by
      rw [hpick]
      exact List.mem_cons_self
    refine Or.inr ⟨c.2, ?_⟩
    rw [hrest, ← (mem_pick.1 hc).2]

theorem childIn_mem {field : String} {n : Node} : ∀ {l : List Child},
    Node.childIn field l = some n → (some field, n) ∈ pick field l := by
  intro l
  induction l with
  | nil => intro h; cases h
  | cons c l ih =>
    obtain ⟨f, m⟩ := c
    intro h
    rw [Node.childIn] at h
    rw [mem_pick, List.mem_cons]
    split at h
    · next hf =>
      rw [hf, Option.some.inj h]
      exact ⟨Or.inl rfl, rfl⟩
    · exact ⟨Or.inr (mem_pick.1 (ih h)).1, rfl⟩

theorem pick_childIn {field : String} {n : Node} {l : List Child}
    (honce : (l.filterMap Prod.fst).Nodup)
    (h : Node.childIn field l = some n) : pick field l = [(some field, n)] := by
  have hmem := childIn_mem h
  rcases pick_once honce with hnone | ⟨m, hm⟩
  · rw [hnone] at hmem
    cases hmem
  · rw [hm] at hmem ⊢
    rw [List.mem_singleton.1 hmem]

theorem pick_here {field : String} {f : Option String} {n : Node}
    {l : List Child} (honce : (((f, n) :: l).filterMap Prod.fst).Nodup)
    (hf : f = some field) : pick field ((f, n) :: l) = [(f, n)] := by
  subst hf
  refine pick_childIn honce ?_
  rw [Node.childIn, if_pos rfl]

theorem pick_later {field : String} {f : Option String} {n : Node}
    {l : List Child} (hf : f ≠ some field) :
    pick field ((f, n) :: l) = pick field l :=
  List.filter_cons_of_neg (by simpa using hf)

theorem fields_rest {c : Child} {l : List Child}
    (h : ((c :: l).filterMap Prod.fst).Nodup) :
    (l.filterMap Prod.fst).Nodup :=
  h.sublist ((List.sublist_cons_self _ _).filterMap _)

theorem grammaticalAll_iff {type : String} {l : List Child} :
    Node.grammaticalAll type l = true ↔
      ∀ c ∈ l, Node.childOk type c = true ∧ c.2.grammatical = true := by
  induction l with
  | nil => exact iff_of_true rfl fun _ h => by cases h
  | cons c l ih =>
    rw [Node.grammaticalAll, Bool.and_eq_true, Bool.and_eq_true, ih,
      List.forall_mem_cons]

theorem grammatical_iff {id row column endRow : Nat} {type text : String}
    {children : List Child} :
    (Node.mk id type text row column endRow children).grammatical = true ↔
      (type ∈ Node.fieldTypes → (children.filterMap Prod.fst).Nodup) ∧
      (type ∈ Node.namedTypes → (Node.childIn "name" children).isSome) ∧
      ∀ c ∈ children,
        Node.childOk type c = true ∧ c.2.grammatical = true := by
  rw [Node.grammatical, Bool.and_eq_true, Bool.and_eq_true,
    grammaticalAll_iff, Bool.or_eq_true, Bool.or_eq_true, decide_eq_true_eq,
    decide_eq_true_eq, decide_eq_true_eq, and_assoc,
    ← Decidable.imp_iff_not_or, ← Decidable.imp_iff_not_or]

theorem childOk_attribute {n : Node}
    (h : Node.childOk "attribute" (some "attribute", n) = true) :
    n.type = "identifier" := by
  unfold Node.childOk at h
  simpa using h

theorem childOk_body {type : String} {c : Child}
    (htype : type ∈ Node.namedTypes) (hbody : c.1 = some "body")
    (h : Node.childOk type c = true) : c.2.type = "block" := by
  unfold Node.childOk at h
  simpa [hbody, htype] using h

theorem childOk_arguments {c : Child} (harguments : c.1 = some "arguments")
    (h : Node.childOk "call" c = true) :
    c.2.type = "argument_list" ∨ c.2.type = "generator_expression" := by
  unfold Node.childOk at h
  simpa [harguments] using h

-- ==== chains

section Chains

variable {s : Scope} {id row column endRow : Nat} {type text : String}
  {children : List Child} {part : Option String → Part}
  {r : Option String → Reading} {chain : List Node}

theorem Covered.under (h : CoveredIn part r chain children) :
    Covered ([] ++ usesIn part children) (unreadIn r children) chain
      (id :: Node.idsAll children) := by
  refine Covered.weaken h (fun _ hn => hn) (fun _ _ hn => hn)
    (fun _ => Nat.le_refl _) ?_
  intro i
  rw [List.count_cons]
  exact Nat.le_add_right _ _

theorem Covered.own (h : CoveredIn part r [] children) :
    Covered ([.mk id type text row column endRow children] ++
        usesIn part children) (unreadIn r children)
      [.mk id type text row column endRow children]
      (id :: Node.idsAll children) := by
  have hown : Covered [.mk id type text row column endRow children] []
      [.mk id type text row column endRow children] [id] := by
    refine ⟨fun _ hn => Or.inr hn, ?_⟩
    intro i
    exact Nat.le_refl _
  exact Covered.append hown h

theorem uses_identifier (s : Scope) (h : type = "identifier") :
    uses (.whole s) (.mk id type text row column endRow children) =
      [.mk id type text row column endRow children] ++
        usesIn (fun _ => .whole s) children := by
  rw [uses, if_pos ⟨h, rfl⟩, h]
  rfl

theorem uses_other (s : Scope) (h : type ≠ "identifier") :
    uses (.whole s) (.mk id type text row column endRow children) =
      [] ++ usesIn (wholeParts s type) children := by
  rw [uses, if_neg fun hc => h hc.1]
  rfl

theorem link_covered (s : Scope) (n : Node) :
    Covered (uses (.whole s) n) (unread (.link s) n)
      (if n.type = "identifier" then [n] else []) n.ids := by
  cases n with
  | mk id type text row column endRow children =>
    show Covered _ _ (if type = "identifier" then _ else _) _
    by_cases h : type = "identifier"
    · rw [if_pos h, uses_identifier s h, unread]
      simp only [Reading.settled, if_pos h]
      exact Covered.own (CoveredIn.skip fun _ _ => by rw [h]; rfl)
    · rw [if_neg h, unread]
      simp only [Reading.settled, if_neg h]
      refine ⟨fun _ hn => Or.inl hn, ?_⟩
      intro i
      rw [List.map_nil, List.count_nil, Nat.zero_add]
      exact count_uses _ i _

theorem links_covered (s : Scope) (l : List Child) :
    CoveredIn (fun _ => .whole s) (fun _ => .link s)
      ((l.map Prod.snd).filter (·.type = "identifier")) l := by
  induction l with
  | nil => exact CoveredIn.nil
  | cons c l ih =>
    obtain ⟨f, n⟩ := c
    have hcons := Covered.append (link_covered s n) ih
    rw [List.map_cons, List.filter_cons]
    by_cases h : n.type = "identifier"
    · rw [if_pos h] at hcons
      rw [if_pos (decide_eq_true h)]
      exact hcons
    · rw [if_neg h] at hcons
      rw [if_neg (by simpa using h)]
      exact hcons

theorem name_covered (s : Scope) {n : Node} (h : n.type = "identifier") :
    Covered (uses (.whole s) n) (unread (.chain s) n) [n] n.ids := by
  cases n with
  | mk id type text row column endRow children =>
    have htype : type = "identifier" := h
    rw [uses_identifier s htype, unread]
    refine Covered.own (CoveredIn.skip fun _ _ => ?_)
    show chainBelow s type _ = _
    unfold chainBelow
    rw [if_pos htype]

mutual

theorem chain_covered (s : Scope) : ∀ (n : Node) {chain : List Node},
    n.grammatical = true → flattenDotted n = some chain →
      Covered (uses (.whole s) n) (unread (.chain s) n) chain n.ids
  | .mk id type text row column endRow children, chain, hgrammar, h => by
    rw [flattenDotted] at h
    rw [grammatical_iff] at hgrammar
    split at h
    · next htype =>
      rw [← Option.some.inj h]
      exact name_covered s htype
    · next hidentifier =>
      rw [uses_other s hidentifier, unread]
      split at h
      · next htype =>
        rw [← Option.some.inj h]
        refine Covered.under ((links_covered s children).congr ?_ ?_)
        · intro _ _
          rw [htype]
          rfl
        · intro _ _
          rw [htype]
          rfl
      · split at h
        · next hattribute =>
          subst hattribute
          have honce := hgrammar.1 (by decide)
          obtain ⟨base, hbase, hattr⟩ := Option.bind_eq_some_iff.1 h
          obtain ⟨attr, hattr, hchain⟩ := Option.map_eq_some_iff.1 hattr
          have hpick := pick_childIn honce hattr
          have hname : attr.type = "identifier" := by
            have hmem := (mem_pick.1 (childIn_mem hattr)).1
            exact childOk_attribute (hgrammar.2.2 _ hmem).1
          have hobject : CoveredIn (wholeParts s "attribute")
              (chainBelow s "attribute") base (pick "object" children) := by
            refine (object_covered s children (fun c hc =>
              (hgrammar.2.2 c hc).2) honce hbase).congr ?_ ?_
            · exact fun _ _ => rfl
            · intro c hc
              rw [(mem_pick.1 hc).2]
              rfl
          have hattribute : CoveredIn (wholeParts s "attribute")
              (chainBelow s "attribute") [attr]
              (pick "attribute" children) := by
            rw [hpick]
            exact CoveredIn.single (name_covered s hname)
          have hothers : CoveredIn (wholeParts s "attribute")
              (chainBelow s "attribute") []
              (others ["object", "attribute"] children) := by
            refine CoveredIn.skip ?_
            intro c hc
            have hne := (mem_others.1 hc).2
            have hskip : ¬ (c.1 = some "object" ∨
                c.1 = some "attribute") := by
              intro hc
              exact hc.elim (hne _ (by decide)) (hne _ (by decide))
            show (if c.1 = some "object" ∨ c.1 = some "attribute" then
              Reading.chain s else .skipped (.whole s)) = _
            rw [if_neg hskip]
            rfl
          have hall := (hobject.append (hattribute.append
            CoveredIn.nil)).append hothers
          rw [← hchain]
          rw [List.append_nil, List.append_nil] at hall
          exact Covered.under (hall.perm
            (@fields_perm children ["object", "attribute"] (by decide)))
        · cases h

theorem object_covered (s : Scope) : ∀ (l : List Child) {chain : List Node},
    (∀ c ∈ l, c.2.grammatical = true) → (l.filterMap Prod.fst).Nodup →
    flattenObject l = some chain →
      CoveredIn (fun _ => .whole s) (fun _ => .chain s) chain
        (pick "object" l)
  | [], chain, _, _, h => by cases h
  | (f, n) :: rest, chain, hgrammar, honce, h => by
    rw [flattenObject] at h
    split at h
    · next hf =>
      have hfirst : Node.childIn "object" ((f, n) :: rest) = some n := by
        rw [Node.childIn, if_pos hf]
      rw [pick_childIn honce hfirst]
      exact CoveredIn.single (chain_covered s n
        (hgrammar (f, n) List.mem_cons_self) h)
    · next hf =>
      have hpick : pick "object" ((f, n) :: rest) = pick "object" rest :=
        List.filter_cons_of_neg (by simpa using hf)
      rw [hpick]
      refine object_covered s rest
        (fun c hc => hgrammar c (List.mem_cons_of_mem _ hc)) ?_ h
      exact honce.sublist ((List.sublist_cons_self _ _).filterMap _)

end

end Chains

-- ==== runs

/-- A node is of a tree. -/
inductive InTree (tree : SyntaxTree) : Node → Prop where
  | root : InTree tree tree.rootNode
  | child {n : Node} {c : Child} (hn : InTree tree n) (hc : c ∈ n.fields) :
      InTree tree c.2

section InTree

variable {tree : SyntaxTree}

theorem InTree.inner {id row column endRow : Nat} {type text : String}
    {children : List Child}
    (h : InTree tree (.mk id type text row column endRow children)) :
    ∀ c ∈ children, InTree tree c.2 :=
  fun _ hc => .child h hc

theorem InTree.grammar {n : Node} (h : InTree tree n) :
    n.grammatical = true := by
  induction h with
  | root => exact tree.grammatical
  | child hn hc ih =>
    next n c =>
    cases n with
    | mk id type text row column endRow children =>
      exact ((grammatical_iff.1 ih).2.2 c hc).2

end InTree

/-- An occurrence has the chain of a node of the tree, and its place. -/
def ChainOf (tree : SyntaxTree) (o : Occurrence) : Prop :=
  ∃ n, InTree tree n ∧ flattenDotted n = some o.chain ∧
    o.line = n.row + 1 ∧ o.column = n.column + 1

/-- What a run of the walker adds. -/
structure Added (tree : SyntaxTree) (w w' : Walker) (ids : List Nat)
    (new : List Occurrence) : Prop where
  refs : w'.rawRefs = w.rawRefs ++ new
  visited : ∀ i ∈ w'.visited, i ∈ w.visited ∨ i ∈ ids
  chains : ∀ o ∈ new, ChainOf tree o

/-- A run over parts that were not visited returns, and covers their
uses. -/
def Reads (tree : SyntaxTree) (run : Walker → Option Walker)
    (used left : List Node) (ids : List Nat) : Prop :=
  ∀ w, (∀ i ∈ ids, i ∉ w.visited) → ∃ w' new, run w = some w' ∧
    Added tree w w' ids new ∧ Covered used left (new.flatMap (·.chain)) ids

/-- The same of some children of a node. -/
def ReadsIn (tree : SyntaxTree) (run : Walker → Option Walker)
    (part : Option String → Part) (r : Option String → Reading)
    (l : List Child) : Prop :=
  Reads tree run (usesIn part l) (unreadIn r l) (Node.idsAll l)

section Runs

variable {tree : SyntaxTree} {run run' : Walker → Option Walker}
  {used used' left left' : List Node} {ids ids' : List Nat}
  {part part' : Option String → Part} {r r' : Option String → Reading}
  {l l' : List Child}

theorem Reads.bind (h : Reads tree run used left ids)
    (h' : Reads tree run' used' left' ids')
    (hdisjoint : ∀ i ∈ ids, i ∉ ids') :
    Reads tree (fun w => (run w).bind run') (used ++ used') (left ++ left')
      (ids ++ ids') := by
  intro w hfresh
  obtain ⟨w', new, hw', hadded, hcovered⟩ := h w
    (fun i hi => hfresh i (List.mem_append_left _ hi))
  have hfresh' : ∀ i ∈ ids', i ∉ w'.visited := by
    intro i hi hvisited
    rcases hadded.visited i hvisited with hvisited | hids
    · exact hfresh i (List.mem_append_right _ hi) hvisited
    · exact hdisjoint i hids hi
  obtain ⟨w'', new', hw'', hadded', hcovered'⟩ := h' w' hfresh'
  refine ⟨w'', new ++ new', ?_, ⟨?_, ?_, ?_⟩, ?_⟩
  · show (run w).bind run' = some w''
    rw [hw', Option.bind_some, hw'']
  · rw [hadded'.refs, hadded.refs, List.append_assoc]
  · intro i hi
    rcases hadded'.visited i hi with hi | hi
    · exact (hadded.visited i hi).imp_right (List.mem_append_left _)
    · exact Or.inr (List.mem_append_right _ hi)
  · intro o ho
    rcases List.mem_append.1 ho with ho | ho
    · exact hadded.chains o ho
    · exact hadded'.chains o ho
  · rw [List.flatMap_append]
    exact hcovered.append hcovered'

theorem Reads.weaken (h : Reads tree run used left ids)
    (hused : ∀ n ∈ used', n ∈ used)
    (hleft : ∀ n ∈ used', n ∈ left → n ∈ left')
    (hcount : ∀ i, (left'.map Node.id).count i ≤ (left.map Node.id).count i)
    (hids : ∀ i, ids.count i ≤ ids'.count i) :
    Reads tree run used' left' ids' := by
  have hmem : ∀ i ∈ ids, i ∈ ids' := by
    intro i hi
    exact List.count_pos_iff.1 ((List.count_pos_iff.2 hi).trans_le (hids i))
  intro w hfresh
  obtain ⟨w', new, hrun, hadded, hcovered⟩ :=
    h w fun i hi => hfresh i (hmem i hi)
  exact ⟨w', new, hrun, ⟨hadded.refs, fun i hi =>
    (hadded.visited i hi).imp_right (hmem i), hadded.chains⟩,
    hcovered.weaken hused hleft hcount hids⟩

theorem Reads.perm (h : Reads tree run used left ids) (hused : used.Perm used')
    (hleft : left.Perm left') (hids : ids.Perm ids') :
    Reads tree run used' left' ids' :=
  h.weaken (fun _ hn => hused.mem_iff.2 hn) (fun _ _ hn => hleft.mem_iff.1 hn)
    (fun i => ((hleft.map Node.id).count_eq i).ge)
    (fun i => (hids.count_eq i).le)

theorem Reads.quiet {g : Walker → Walker}
    (hcount : ∀ i, (used.map Node.id).count i ≤ ids.count i)
    (hrefs : ∀ w, (g w).rawRefs = w.rawRefs)
    (hvisited : ∀ w, ∀ i ∈ (g w).visited, i ∈ w.visited ∨ i ∈ ids) :
    Reads tree (fun w => some (g w)) used used ids := by
  intro w _
  refine ⟨g w, [], rfl, ⟨?_, hvisited w, fun _ ho => by cases ho⟩,
    fun _ hn => Or.inl hn, ?_⟩
  · rw [List.append_nil, hrefs]
  · intro i
    rw [List.flatMap_nil, List.map_nil, List.count_nil, Nat.zero_add]
    exact hcount i

theorem Reads.emits {g : Walker → Walker} {chain : List Node}
    (hcovered : Covered used left chain ids)
    (hrefs : ∀ w, ∃ o, (g w).rawRefs = w.rawRefs ++ [o] ∧
      o.chain = chain ∧ ChainOf tree o)
    (hvisited : ∀ w, ∀ i ∈ (g w).visited, i ∈ w.visited ∨ i ∈ ids) :
    Reads tree (fun w => some (g w)) used left ids := by
  intro w _
  obtain ⟨o, ho, hchain, hof⟩ := hrefs w
  refine ⟨g w, [o], rfl, ⟨ho, hvisited w, ?_⟩, ?_⟩
  · exact List.forall_mem_singleton.2 hof
  rw [List.flatMap_singleton, hchain]
  exact hcovered

theorem ReadsIn.perm (h : ReadsIn tree run part r l) (hl : l.Perm l') :
    ReadsIn tree run part r l' := by
  unfold ReadsIn at h ⊢
  rw [usesIn_eq, unreadIn_eq, idsAll_eq] at h ⊢
  exact Reads.perm h (hl.flatMap_right _) (hl.flatMap_right _)
    (hl.flatMap_right _)

theorem ReadsIn.congr (h : ReadsIn tree run part r l)
    (hpart : ∀ c ∈ l, part c.1 = part' c.1)
    (hr : ∀ c ∈ l, r c.1 = r' c.1) : ReadsIn tree run part' r' l := by
  unfold ReadsIn at h ⊢
  rw [← usesIn_congr hpart, ← unreadIn_congr hr]
  exact h

theorem idsAll_append (l l' : List Child) :
    Node.idsAll (l ++ l') = Node.idsAll l ++ Node.idsAll l' := by
  rw [idsAll_eq, idsAll_eq, idsAll_eq, List.flatMap_append]

theorem ReadsIn.bind (h : ReadsIn tree run part r l)
    (h' : ReadsIn tree run' part r l')
    (hnodup : (Node.idsAll (l ++ l')).Nodup) :
    ReadsIn tree (fun w => (run w).bind run') part r (l ++ l') := by
  rw [idsAll_append, List.nodup_append] at hnodup
  have hreads := Reads.bind h h' fun i hi hi' => hnodup.2.2 i hi i hi' rfl
  unfold ReadsIn
  rw [usesIn_eq, unreadIn_eq, idsAll_eq] at hreads ⊢
  rw [usesIn_eq, unreadIn_eq, idsAll_eq] at hreads
  rw [List.flatMap_append, List.flatMap_append, List.flatMap_append]
  exact hreads

theorem ReadsIn.quiet {g : Walker → Walker}
    (h : ∀ c ∈ l, r c.1 = .skipped (part c.1))
    (hrefs : ∀ w, (g w).rawRefs = w.rawRefs)
    (hvisited : ∀ w, ∀ i ∈ (g w).visited,
      i ∈ w.visited ∨ i ∈ Node.idsAll l) :
    ReadsIn tree (fun w => some (g w)) part r l := by
  have hsame : unreadIn r l = usesIn part l := by
    rw [unreadIn_eq, usesIn_eq]
    refine List.flatMap_congr fun c hc => ?_
    rw [h c hc, unread_skipped]
  unfold ReadsIn
  rw [hsame]
  exact Reads.quiet (fun i => count_usesIn part i l) hrefs hvisited

theorem ReadsIn.skip (h : ∀ c ∈ l, r c.1 = .skipped (part c.1)) :
    ReadsIn tree some part r l :=
  ReadsIn.quiet h (fun _ => rfl) fun _ _ hi => Or.inl hi

theorem ReadsIn.single {f : Option String} {n : Node}
    (h : Reads tree run (uses (part f) n) (unread (r f) n) n.ids) :
    ReadsIn tree run part r [(f, n)] := by
  unfold ReadsIn
  rw [usesIn, unreadIn, Node.idsAll, usesIn, unreadIn, Node.idsAll,
    List.append_nil, List.append_nil, List.append_nil]
  exact h

theorem Reads.congr (h : Reads tree run used left ids)
    (hrun : ∀ w, (∀ i ∈ ids, i ∉ w.visited) → run' w = run w) :
    Reads tree run' used left ids := by
  intro w hfresh
  rw [hrun w hfresh]
  exact h w hfresh

/-- Some runs, one after the other. -/
def inTurn : List (Walker → Option Walker) → Walker → Option Walker
  | [], w => some w
  | run :: rest, w => (run w).bind (inTurn rest)

theorem inTurn_reads {steps : List (String × (Walker → Option Walker))}
    (hsteps : ∀ step ∈ steps, ReadsIn tree step.2 part r (pick step.1 l))
    (hnodup : (Node.idsAll (steps.flatMap fun step => pick step.1 l)).Nodup) :
    ReadsIn tree (inTurn (steps.map Prod.snd)) part r
      (steps.flatMap fun step => pick step.1 l) := by
  induction steps with
  | nil => exact ReadsIn.skip fun _ h => by cases h
  | cons step steps ih =>
    rw [List.flatMap_cons] at hnodup ⊢
    have hrest : (Node.idsAll
        (steps.flatMap fun step => pick step.1 l)).Nodup := by
      rw [idsAll_append] at hnodup
      exact hnodup.of_append_right
    exact ReadsIn.bind (hsteps step List.mem_cons_self)
      (ih (fun step h => hsteps step (List.mem_cons_of_mem _ h)) hrest)
      hnodup

/-- A node whose children are read field by field, the others passed
over. -/
theorem fields_reads (fields : List String)
    (steps : List (String × (Walker → Option Walker)))
    (hsame : steps.map Prod.fst = fields) (hfields : fields.Nodup)
    (hsteps : ∀ step ∈ steps, ReadsIn tree step.2 part r (pick step.1 l))
    (hothers : ∀ c ∈ l, (∀ f ∈ fields, c.1 ≠ some f) →
      r c.1 = .skipped (part c.1))
    (hnodup : (Node.idsAll l).Nodup) :
    ReadsIn tree (inTurn (steps.map Prod.snd)) part r l := by
  subst hsame
  have hperm := fields_perm l hfields
  rw [List.flatMap_map] at hperm
  have hids : (Node.idsAll ((steps.flatMap fun step => pick step.1 l) ++
      others (steps.map Prod.fst) l)).Nodup := by
    rw [idsAll_eq] at hnodup ⊢
    exact (hperm.flatMap_right _).nodup_iff.2 hnodup
  have hfirst := hids
  rw [idsAll_append] at hfirst
  have hskip : ReadsIn tree some part r (others (steps.map Prod.fst) l) := by
    refine ReadsIn.skip fun c hc => ?_
    obtain ⟨hmem, hne⟩ := mem_others.1 hc
    exact hothers c hmem hne
  have hall := ((inTurn_reads hsteps hfirst.of_append_left).bind hskip
    hids).perm hperm
  exact Reads.congr hall fun w _ => (Option.bind_fun_some _).symm

end Runs

-- ==== quietly

theorem id_mem_ids (n : Node) : n.id ∈ n.ids := by
  cases n with
  | mk id type text row column endRow children =>
    rw [Node.ids]
    exact List.mem_cons_self

theorem id_mem_pick {field : String} {n : Node} {l : List Child}
    (h : Node.childIn field l = some n) :
    n.id ∈ Node.idsAll (pick field l) := by
  rw [idsAll_eq]
  exact List.mem_flatMap.2 ⟨_, childIn_mem h, id_mem_ids n⟩

theorem mark_visited {w : Walker} {n : Node} {ids : List Nat}
    (h : n.id ∈ ids) : ∀ i ∈ (w.mark n).visited, i ∈ w.visited ∨ i ∈ ids := by
  intro i hi
  rcases List.mem_cons.1 hi with hi | hi
  · exact Or.inr (hi ▸ h)
  · exact Or.inl hi

theorem markAll_visited {w : Walker} {n : Node} :
    ∀ i ∈ (w.markAll n).visited, i ∈ w.visited ∨ i ∈ n.ids :=
  fun _ hi => (List.mem_append.1 hi).symm

theorem markField_visited {w : Walker} {field : String} {l : List Child} :
    ∀ i ∈ (w.markField field l).visited,
      i ∈ w.visited ∨ i ∈ Node.idsAll (pick field l) := by
  unfold Walker.markField
  cases h : Node.childIn field l with
  | none => exact fun _ hi => Or.inl hi
  | some n => exact mark_visited (id_mem_pick h)

theorem markField_rawRefs (w : Walker) (field : String) (l : List Child) :
    (w.markField field l).rawRefs = w.rawRefs := by
  unfold Walker.markField
  cases Node.childIn field l with
  | none => rfl
  | some n => rfl

section Walk

variable {tree : SyntaxTree} {env : WalkerEnv}

theorem defineTarget_visited {w : Walker} {cs : List String} {n : Node} :
    ∀ i ∈ (w.defineTarget env cs n).visited,
      i ∈ w.visited ∨ i ∈ Node.idsAll (pick "left" n.fields) := by
  unfold Walker.defineTarget Node.childByFieldName
  split
  · exact fun _ hi => Or.inl hi
  · next left h =>
    split
    · exact @mark_visited (w.define env _ left n cs) left _ (id_mem_pick h)
    · exact fun _ hi => Or.inl hi

theorem defineTarget_rawRefs (w : Walker) (cs : List String) (n : Node) :
    (w.defineTarget env cs n).rawRefs = w.rawRefs := by
  unfold Walker.defineTarget
  split
  · rfl
  · split <;> rfl

theorem foldl_rawRefs {f : Walker → Node → Walker}
    (h : ∀ w n, (f w n).rawRefs = w.rawRefs ∧ (f w n).visited = w.visited) :
    ∀ (l : List Node) (w : Walker), (l.foldl f w).rawRefs = w.rawRefs ∧
      (l.foldl f w).visited = w.visited := by
  intro l
  induction l with
  | nil => exact fun _ => ⟨rfl, rfl⟩
  | cons n l ih =>
    intro w
    rw [List.foldl_cons, (ih _).1, (ih _).2]
    exact h w n

theorem importedModule_quiet (w : Walker) (n : Node) :
    (w.importedModule n).rawRefs = w.rawRefs ∧
      (w.importedModule n).visited = w.visited := by
  unfold Walker.importedModule
  split
  · split <;> exact ⟨rfl, rfl⟩
  · exact ⟨rfl, rfl⟩

theorem importedName_quiet (moduleDotted : String) (moduleId : Option Nat)
    (w : Walker) (n : Node) :
    (w.importedName moduleDotted moduleId n).rawRefs = w.rawRefs ∧
      (w.importedName moduleDotted moduleId n).visited = w.visited := by
  unfold Walker.importedName
  split
  · exact ⟨rfl, rfl⟩
  · split
    · exact ⟨rfl, rfl⟩
    · split
      · split <;> exact ⟨rfl, rfl⟩
      · exact ⟨rfl, rfl⟩

theorem importStatement_quiet (w : Walker) (n : Node) :
    (w.handleImportStatement n).rawRefs = w.rawRefs ∧
    ∀ i ∈ (w.handleImportStatement n).visited, i ∈ w.visited ∨ i ∈ n.ids := by
  have hfold := foldl_rawRefs importedModule_quiet n.children w
  refine ⟨hfold.1, fun i hi => ?_⟩
  rw [← hfold.2]
  exact markAll_visited i hi

theorem importFrom_quiet (w : Walker) (n : Node) :
    (w.handleImportFromStatement n).rawRefs = w.rawRefs ∧
    ∀ i ∈ (w.handleImportFromStatement n).visited,
      i ∈ w.visited ∨ i ∈ n.ids := by
  have hfold := foldl_rawRefs (importedName_quiet
    (((n.childByFieldName "module_name").or
      (n.childOfType "dotted_name")).elim "" dottedText)
    (((n.childByFieldName "module_name").or
      (n.childOfType "dotted_name")).map Node.id)) n.children w
  refine ⟨hfold.1, fun i hi => ?_⟩
  rw [← hfold.2]
  exact markAll_visited i hi

-- ==== node by node

section Nodes

variable {id row column endRow : Nat} {type text : String}
  {children : List Child} {cs : List String} {s : Scope}
  {run : Walker → Option Walker} {part : Option String → Part}
  {r : Option String → Reading}

mutual

theorem uses_given : ∀ n : Node, uses .given n = []
  | .mk _ _ _ _ _ _ children => by
    rw [uses, if_neg fun h => Bool.noConfusion h.2, List.nil_append]
    exact usesIn_given children

theorem usesIn_given : ∀ l : List Child, usesIn (fun _ => .given) l = []
  | [] => rfl
  | (_, n) :: rest => by
    rw [usesIn, uses_given n, usesIn_given rest]
    rfl

end

theorem unreadIn_given (l : List Child) :
    unreadIn (fun _ => .skipped .given) l = [] := by
  rw [unreadIn_eq, List.flatMap_eq_nil_iff]
  intro c _
  rw [unread_skipped, uses_given]

theorem Reads.under (h : ReadsIn tree run part r children) :
    Reads tree run ([] ++ usesIn part children) (unreadIn r children)
      (id :: Node.idsAll children) := by
  refine Reads.weaken h (fun _ hn => hn) (fun _ _ hn => hn)
    (fun _ => Nat.le_refl _) ?_
  intro i
  rw [List.count_cons]
  exact Nat.le_add_right _ _

theorem unread_visited :
    unread (.visited s) (.mk id type text row column endRow children) =
      if type = "expression_statement" ∧ s ≠ .function ∧
          firstType children = "assignment" then unreadStatement s children
      else unreadIn (visitedBelow s type (flattenDotted
        (.mk id type text row column endRow children)).isSome) children := by
  rw [unread]
  rfl

theorem unread_chain :
    unread (.chain s) (.mk id type text row column endRow children) =
      unreadIn (chainBelow s type) children := by
  rw [unread]
  rfl

theorem unread_callee (n : Node) : unread (.callee s) n =
    if (flattenDotted n).isSome then unread (.chain s) n
    else unread (.visited s) n := by
  cases n with
  | mk id type text row column endRow children =>
    rw [unread, unread_chain, unread_visited]
    generalize (flattenDotted
      (.mk id type text row column endRow children)).isSome = isChain
    cases isChain <;> rfl

/-- A type whose children count as the node does. -/
def Plain (type : String) : Prop :=
  type ≠ "identifier" ∧ ∀ s field, wholeParts s type field = .whole s

theorem uses_plain (h : Plain type) :
    uses (.whole s) (.mk id type text row column endRow children) =
      usesIn (fun _ => .whole s) children := by
  have hbelow : wholeParts s type = fun _ => .whole s := funext (h.2 s)
  rw [uses_other s h.1, hbelow]
  rfl

theorem plain_block : Plain "block" := ⟨by decide, fun _ _ => rfl⟩

theorem plain_argument_list : Plain "argument_list" :=
  ⟨by decide, fun _ _ => rfl⟩

theorem plain_generator : Plain "generator_expression" :=
  ⟨by decide, fun _ _ => rfl⟩

theorem import_reads (hrun : ∀ w, ∃ w', run w = some w' ∧
      w'.rawRefs = w.rawRefs ∧
      ∀ i ∈ w'.visited, i ∈ w.visited ∨ i ∈ id :: Node.idsAll children) :
    Reads tree run [] [] (id :: Node.idsAll children) := by
  intro w _
  obtain ⟨w', hw', hrefs, hvisited⟩ := hrun w
  refine ⟨w', [], hw', ⟨?_, hvisited, fun _ ho => by cases ho⟩,
    fun _ hn => Or.inl hn, ?_⟩
  · rw [List.append_nil, hrefs]
  · exact fun _ => Nat.zero_le _

theorem name_reads {name : Node} {kind : Kind} {whole : Node}
    (hname : Node.childIn "name" children = some name)
    (h : ∀ c ∈ pick "name" children, r c.1 = .skipped (part c.1)) :
    ReadsIn tree
      (fun w => some ((w.define env kind name whole cs).mark name)) part r
      (pick "name" children) := by
  refine ReadsIn.quiet h (fun _ => rfl) ?_
  intro w
  exact @mark_visited (w.define env kind name whole cs) name _
    (id_mem_pick hname)

theorem function_reads {isChain : Bool} {kind : Kind} {whole : Node}
    (hnamed : (Node.childIn "name" children).isSome)
    (hnodup : (Node.idsAll children).Nodup)
    (hparameters : ReadsIn tree (fun w => visitParameters env w cs children)
      (fun _ => .parameters) (fun _ => .parameters)
      (pick "parameters" children))
    (hbody : ReadsIn tree
      (fun w => visitChildrenOf env "body" w cs .function children)
      (fun _ => .whole .function) (fun _ => .children .function)
      (pick "body" children)) :
    ReadsIn tree (fun w => (Node.childIn "name" children).bind fun name =>
        (visitParameters env ((w.define env kind name whole cs).mark name) cs
          children).bind fun w =>
            visitChildrenOf env "body" w cs .function children)
      (wholeParts s "function_definition")
      (visitedBelow s "function_definition" isChain) children := by
  cases hname : Node.childIn "name" children with
  | none => rw [hname] at hnamed; cases hnamed
  | some name =>
    have hfields : ReadsIn tree (inTurn
        [fun w => some ((w.define env kind name whole cs).mark name),
          fun w => visitParameters env w cs children,
          fun w => visitChildrenOf env "body" w cs .function children])
        (wholeParts s "function_definition")
        (visitedBelow s "function_definition" isChain) children := by
      refine fields_reads ["name", "parameters", "body"]
        [("name", _), ("parameters", _), ("body", _)] rfl
        (by decide) ?_ ?_ hnodup
      · rw [List.forall_mem_cons, List.forall_mem_cons,
          List.forall_mem_singleton]
        refine ⟨name_reads hname ?_, hparameters.congr ?_ ?_,
          hbody.congr ?_ ?_⟩
        all_goals
          intro c hc
          rw [(mem_pick.1 hc).2]
          rfl
      · intro c _ hne
        have hparam := hne "parameters" (by decide)
        have hbody := hne "body" (by decide)
        show (if c.1 = some "parameters" then Reading.parameters
          else if c.1 = some "body" then .children .function
          else .skipped (wholeParts s "function_definition" c.1)) = _
        rw [if_neg hparam, if_neg hbody]
    refine Reads.congr hfields fun w _ => ?_
    simp only [inTurn, Option.bind_some, Option.bind_fun_some]

theorem class_reads {isChain : Bool} {whole : Node}
    (hnamed : (Node.childIn "name" children).isSome)
    (hnodup : (Node.idsAll children).Nodup)
    (hbases : ReadsIn tree
      (fun w => visitField env "superclasses" w cs s children)
      (fun _ => .whole s) (fun _ => .visited s)
      (pick "superclasses" children))
    (hbody : ∀ cs, ReadsIn tree
      (fun w => visitChildrenOf env "body" w cs .class children)
      (fun _ => .whole .class) (fun _ => .children .class)
      (pick "body" children)) :
    ReadsIn tree (fun w => (Node.childIn "name" children).bind fun name =>
        (visitField env "superclasses" ((w.define env .class name whole
          cs).mark name) cs s children).bind fun w =>
            visitChildrenOf env "body" w (cs ++ [name.text]) .class children)
      (wholeParts s "class_definition")
      (visitedBelow s "class_definition" isChain) children := by
  cases hname : Node.childIn "name" children with
  | none => rw [hname] at hnamed; cases hnamed
  | some name =>
    have hfields : ReadsIn tree (inTurn
        [fun w => some ((w.define env .class name whole cs).mark name),
          fun w => visitField env "superclasses" w cs s children,
          fun w => visitChildrenOf env "body" w (cs ++ [name.text]) .class
            children])
        (wholeParts s "class_definition")
        (visitedBelow s "class_definition" isChain) children := by
      refine fields_reads ["name", "superclasses", "body"]
        [("name", _), ("superclasses", _), ("body", _)] rfl
        (by decide) ?_ ?_ hnodup
      · rw [List.forall_mem_cons, List.forall_mem_cons,
          List.forall_mem_singleton]
        refine ⟨name_reads hname ?_, hbases.congr ?_ ?_,
          (hbody _).congr ?_ ?_⟩
        all_goals
          intro c hc
          rw [(mem_pick.1 hc).2]
          rfl
      · intro c _ hne
        have hbases := hne "superclasses" (by decide)
        have hbody := hne "body" (by decide)
        show (if c.1 = some "superclasses" then Reading.visited s
          else if c.1 = some "body" then .children .class
          else .skipped (wholeParts s "class_definition" c.1)) = _
        rw [if_neg hbases, if_neg hbody]
    refine Reads.congr hfields fun w _ => ?_
    simp only [inTurn, Option.bind_some, Option.bind_fun_some]

theorem keyword_reads {isChain : Bool}
    (hnodup : (Node.idsAll children).Nodup)
    (hvalue : ReadsIn tree (fun w => visitField env "value" w cs s children)
      (fun _ => .whole s) (fun _ => .visited s) (pick "value" children)) :
    ReadsIn tree (fun w => visitField env "value"
        (w.markField "name" children) cs s children)
      (wholeParts s "keyword_argument")
      (visitedBelow s "keyword_argument" isChain) children := by
  have hfields : ReadsIn tree (inTurn
      [fun w => some (w.markField "name" children),
        fun w => visitField env "value" w cs s children])
      (wholeParts s "keyword_argument")
      (visitedBelow s "keyword_argument" isChain) children := by
    refine fields_reads ["name", "value"] [("name", _), ("value", _)] rfl
      (by decide) ?_ ?_ hnodup
    · rw [List.forall_mem_cons, List.forall_mem_singleton]
      refine ⟨ReadsIn.quiet ?_ (fun w => markField_rawRefs w _ _)
        fun _ => markField_visited, hvalue.congr ?_ ?_⟩
      all_goals
        intro c hc
        rw [(mem_pick.1 hc).2]
        rfl
    · intro c _ hne
      have hvalue := hne "value" (by decide)
      show (if c.1 = some "value" then Reading.visited s
        else .skipped (wholeParts s "keyword_argument" c.1)) = _
      rw [if_neg hvalue]
  refine Reads.congr hfields fun w _ => ?_
  simp only [inTurn, Option.bind_some, Option.bind_fun_some]

theorem call_reads {isChain : Bool} (hnodup : (Node.idsAll children).Nodup)
    (hcallee : ReadsIn tree (fun w => visitCallee env w cs s children)
      (fun _ => .whole s) (fun _ => .callee s) (pick "function" children))
    (harguments : ReadsIn tree
      (fun w => visitChildrenOf env "arguments" w cs s children)
      (fun _ => .whole s) (fun _ => .children s)
      (pick "arguments" children)) :
    ReadsIn tree (fun w => (visitCallee env w cs s children).bind fun w =>
        visitChildrenOf env "arguments" w cs s children)
      (wholeParts s "call") (visitedBelow s "call" isChain) children := by
  have hfields : ReadsIn tree (inTurn
      [fun w => visitCallee env w cs s children,
        fun w => visitChildrenOf env "arguments" w cs s children])
      (wholeParts s "call") (visitedBelow s "call" isChain) children := by
    refine fields_reads ["function", "arguments"]
      [("function", _), ("arguments", _)] rfl (by decide) ?_ ?_ hnodup
    · rw [List.forall_mem_cons, List.forall_mem_singleton]
      refine ⟨hcallee.congr ?_ ?_, harguments.congr ?_ ?_⟩
      all_goals
        intro c hc
        rw [(mem_pick.1 hc).2]
        rfl
    · intro c _ hne
      have hfunction := hne "function" (by decide)
      have harguments := hne "arguments" (by decide)
      show (if c.1 = some "function" then Reading.callee s
        else if c.1 = some "arguments" then .children s
        else .skipped (.whole s)) = _
      rw [if_neg hfunction, if_neg harguments]
      rfl
  refine Reads.congr hfields fun w _ => ?_
  simp only [inTurn, Option.bind_fun_some]

theorem parameter_reads (htype : type ∈ parameterTypes)
    (hnodup : (Node.idsAll children).Nodup)
    (hvalue : ReadsIn tree
      (fun w => visitField env "value" w cs .function children)
      (fun _ => .whole .function) (fun _ => .visited .function)
      (pick "value" children)) :
    ReadsIn tree (fun w => visitField env "value"
        (w.markField "name" children) cs .function children)
      (Part.parameter.below type)
      (Reading.parameter.below type) children := by
  have hfields : ReadsIn tree (inTurn
      [fun w => some (w.markField "name" children),
        fun w => visitField env "value" w cs .function children])
      (Part.parameter.below type) (Reading.parameter.below type)
      children := by
    refine fields_reads ["name", "value"] [("name", _), ("value", _)] rfl
      (by decide) ?_ ?_ hnodup
    · rw [List.forall_mem_cons, List.forall_mem_singleton]
      refine ⟨ReadsIn.quiet ?_ (fun w => markField_rawRefs w _ _)
        fun _ => markField_visited, hvalue.congr ?_ ?_⟩
      · intro c hc
        rw [(mem_pick.1 hc).2]
        exact if_neg fun h => absurd h.2
          (show ¬ some "name" = some "value" by decide)
      · intro c hc
        rw [(mem_pick.1 hc).2]
        exact ((if_pos htype).trans (if_pos (Or.inr rfl))).symm
      · intro c hc
        rw [(mem_pick.1 hc).2]
        exact (if_pos ⟨htype, rfl⟩).symm
    · intro c _ hne
      exact if_neg fun h => hne "value" (by decide) h.2
  refine Reads.congr hfields fun w _ => ?_
  simp only [inTurn, Option.bind_some, Option.bind_fun_some]

theorem assigned_reads (hnodup : (Node.idsAll children).Nodup)
    (hvalue : ReadsIn tree (fun w => visitField env "right" w cs s children)
      (fun _ => .whole s) (fun _ => .visited s) (pick "right" children)) :
    ReadsIn tree (fun w => visitField env "right" (w.defineTarget env cs
        (.mk id type text row column endRow children)) cs s children)
      ((Part.statement s).below "assignment")
      ((Reading.assigned s).below "assignment") children := by
  have hfields : ReadsIn tree (inTurn
      [fun w => some (w.defineTarget env cs
          (.mk id type text row column endRow children)),
        fun w => visitField env "right" w cs s children])
      ((Part.statement s).below "assignment")
      ((Reading.assigned s).below "assignment") children := by
    refine fields_reads ["left", "right"] [("left", _), ("right", _)] rfl
      (by decide) ?_ ?_ hnodup
    · rw [List.forall_mem_cons, List.forall_mem_singleton]
      refine ⟨ReadsIn.quiet ?_ (fun w => defineTarget_rawRefs w _ _)
        fun w => ?_, hvalue.congr ?_ ?_⟩
      · intro c hc
        rw [(mem_pick.1 hc).2]
        rfl
      · exact @defineTarget_visited env w cs
          (.mk id type text row column endRow children)
      · intro c hc
        rw [(mem_pick.1 hc).2]
        rfl
      · intro c hc
        rw [(mem_pick.1 hc).2]
        rfl
    · intro c _ hne
      exact if_neg (hne "right" (by decide))
  refine Reads.congr hfields fun w _ => ?_
  simp only [inTurn, Option.bind_some, Option.bind_fun_some]

-- ==== the steps

section Steps

variable {w : Walker} (hfresh : id ∉ w.visited)
include hfresh

attribute [local simp] visit

theorem visit_import : visit env w cs s
    (.mk id "import_statement" text row column endRow children) =
      some (w.handleImportStatement
        (.mk id "import_statement" text row column endRow children)) := by
  simp [hfresh]

theorem visit_importFrom : visit env w cs s
    (.mk id "import_from_statement" text row column endRow children) =
      some (w.handleImportFromStatement
        (.mk id "import_from_statement" text row column endRow children)) := by
  simp [hfresh]

theorem visit_function : visit env w cs s
    (.mk id "function_definition" text row column endRow children) =
      (Node.childIn "name" children).bind fun name =>
        (visitParameters env ((w.define env
            (if cs = [] then .function else .method) name
            (.mk id "function_definition" text row column endRow children)
            cs).mark name) cs children).bind fun w =>
          visitChildrenOf env "body" w cs .function children := by
  simp [hfresh]

theorem visit_class : visit env w cs s
    (.mk id "class_definition" text row column endRow children) =
      (Node.childIn "name" children).bind fun name =>
        (visitField env "superclasses" ((w.define env .class name
            (.mk id "class_definition" text row column endRow children)
            cs).mark name) cs s children).bind fun w =>
          visitChildrenOf env "body" w (cs ++ [name.text]) .class
            children := by
  simp [hfresh]

theorem visit_statement (hs : s ≠ .function)
    (hfirst : firstType children = "assignment") : visit env w cs s
    (.mk id "expression_statement" text row column endRow children) =
      visitAssigned env w cs s children := by
  simp [hfresh, hs, hfirst]

theorem visit_keyword : visit env w cs s
    (.mk id "keyword_argument" text row column endRow children) =
      visitField env "value" (w.markField "name" children) cs s
        children := by
  simp [hfresh]

theorem visit_call : visit env w cs s
    (.mk id "call" text row column endRow children) =
      (visitCallee env w cs s children).bind fun w =>
        visitChildrenOf env "arguments" w cs s children := by
  simp [hfresh]

theorem visit_chain {chain : List Node} (hchain : flattenDotted
      (.mk id "attribute" text row column endRow children) = some chain) :
    visit env w cs s (.mk id "attribute" text row column endRow children) =
      some ((w.emit .attrRead chain
        (.mk id "attribute" text row column endRow children) cs).markAll
          (.mk id "attribute" text row column endRow children)) := by
  simp [hfresh, hchain]

theorem visit_attribute (hchain : flattenDotted
      (.mk id "attribute" text row column endRow children) = none) :
    visit env w cs s (.mk id "attribute" text row column endRow children) =
      visitAll env w cs s children := by
  simp [hfresh, hchain]

theorem visit_identifier : visit env w cs s
    (.mk id "identifier" text row column endRow children) =
      some (w.emit .bareRead
        [.mk id "identifier" text row column endRow children]
        (.mk id "identifier" text row column endRow children) cs) := by
  simp [hfresh]

theorem visit_generic (htype : type ∉ ["import_statement",
      "import_from_statement", "function_definition", "class_definition",
      "keyword_argument", "call", "attribute", "identifier"])
    (hstatement : ¬ (type = "expression_statement" ∧ s ≠ .function ∧
      firstType children = "assignment")) :
    visit env w cs s (.mk id type text row column endRow children) =
      visitAll env w cs s children := by
  simp only [List.mem_cons, List.not_mem_nil, or_false, not_or] at htype
  rw [visit]
  simp only [if_neg hfresh, if_neg hstatement, htype, if_false]

end Steps

end Nodes

-- ==== the targets

mutual

theorem uses_target {s : Scope} :
    ∀ (n : Node), ∀ m ∈ uses (.target s) n, m ∈ uses (.whole s) n
  | .mk id type text row column endRow children, m, hm => by
    rw [uses, if_neg fun h => Bool.noConfusion h.2, List.nil_append] at hm
    rw [uses]
    refine List.mem_append_right _ ?_
    by_cases hpattern : type ∈ patternTypes
    · have hbelow : (Part.target s).below type = fun _ => .target s :=
        funext fun _ => if_pos hpattern
      have hwhole : (Part.whole s).below type = fun _ => .whole s := by
        unfold patternTypes at hpattern
        simp only [List.mem_cons, List.not_mem_nil, or_false] at hpattern
        rcases hpattern with rfl | rfl | rfl | rfl | rfl <;> rfl
      rw [hbelow] at hm
      rw [hwhole]
      exact usesIn_target children m hm
    · have hbelow : (Part.target s).below type =
          (Part.whole s).below type := funext fun _ => if_neg hpattern
      rw [hbelow] at hm
      exact hm

theorem usesIn_target {s : Scope} : ∀ (l : List Child),
    ∀ m ∈ usesIn (fun _ => .target s) l, m ∈ usesIn (fun _ => .whole s) l
  | [], _, hm => hm
  | (_, n) :: rest, m, hm => by
    rw [usesIn] at hm ⊢
    rcases List.mem_append.1 hm with hm | hm
    · exact List.mem_append_left _ (uses_target n m hm)
    · exact List.mem_append_right _ (usesIn_target rest m hm)

end

theorem uses_statement {s : Scope} (n : Node) :
    ∀ m ∈ uses (.statement s) n, m ∈ uses (.whole s) n := by
  cases n with
  | mk id type text row column endRow children =>
    intro m hm
    rw [uses] at hm ⊢
    rcases List.mem_append.1 hm with hm | hm
    · exact List.mem_append_left _ hm
    · refine List.mem_append_right _ ?_
      by_cases htype : type = "assignment"
      · subst htype
        rw [usesIn_eq] at hm ⊢
        obtain ⟨c, hc, hm⟩ := List.mem_flatMap.1 hm
        refine List.mem_flatMap.2 ⟨c, hc, ?_⟩
        have hbelow : (Part.statement s).below "assignment" c.1 =
          if c.1 = some "left" then .target s else .whole s := rfl
        rw [hbelow] at hm
        split at hm
        · exact uses_target c.2 m hm
        · exact hm
      · have hbelow : (Part.statement s).below type =
            (Part.whole s).below type := funext fun _ => if_neg htype
        rw [hbelow] at hm
        exact hm

theorem usesIn_statement {s : Scope} (l : List Child) :
    ∀ m ∈ usesIn (fun _ => .statement s) l,
      m ∈ usesIn (fun _ => .whole s) l := by
  intro m hm
  rw [usesIn_eq] at hm ⊢
  obtain ⟨c, hc, hm⟩ := List.mem_flatMap.1 hm
  exact List.mem_flatMap.2 ⟨c, hc, uses_statement c.2 m hm⟩

-- ==== the walk

section Cases

variable {id row column endRow : Nat} {type text : String}
  {children : List Child} {cs : List String} {s : Scope} {w : Walker}

theorem importStatement_reads : Reads tree (fun w => visit env w cs s
      (.mk id "import_statement" text row column endRow children))
    (uses (.whole s)
      (.mk id "import_statement" text row column endRow children))
    (unread (.visited s)
      (.mk id "import_statement" text row column endRow children))
    (id :: Node.idsAll children) := by
  have huses := usesIn_given children
  have hleft := unreadIn_given children
  rw [uses_other s (by decide), unread_visited,
    if_neg fun h => absurd h.1 (by decide)]
  have himport : Reads tree (fun w => some (w.handleImportStatement
      (.mk id "import_statement" text row column endRow children)))
      [] [] (id :: Node.idsAll children) := by
    refine import_reads fun w => ⟨_, rfl, ?_⟩
    exact importStatement_quiet w _
  show Reads tree _ (usesIn (fun _ => .given) children)
    (unreadIn (fun _ => .skipped .given) children) _
  rw [huses, hleft]
  exact Reads.congr himport fun w hfresh =>
    visit_import (hfresh id List.mem_cons_self)

theorem importFrom_reads : Reads tree (fun w => visit env w cs s
      (.mk id "import_from_statement" text row column endRow children))
    (uses (.whole s)
      (.mk id "import_from_statement" text row column endRow children))
    (unread (.visited s)
      (.mk id "import_from_statement" text row column endRow children))
    (id :: Node.idsAll children) := by
  have huses := usesIn_given children
  have hleft := unreadIn_given children
  rw [uses_other s (by decide), unread_visited,
    if_neg fun h => absurd h.1 (by decide)]
  have himport : Reads tree (fun w => some (w.handleImportFromStatement
      (.mk id "import_from_statement" text row column endRow children)))
      [] [] (id :: Node.idsAll children) := by
    refine import_reads fun w => ⟨_, rfl, ?_⟩
    exact importFrom_quiet w _
  show Reads tree _ (usesIn (fun _ => .given) children)
    (unreadIn (fun _ => .skipped .given) children) _
  rw [huses, hleft]
  exact Reads.congr himport fun w hfresh =>
    visit_importFrom (hfresh id List.mem_cons_self)

theorem identifier_reads (htree : InTree tree
      (.mk id "identifier" text row column endRow children)) :
    Reads tree (fun w => visit env w cs s
      (.mk id "identifier" text row column endRow children))
    (uses (.whole s) (.mk id "identifier" text row column endRow children))
    (unread (.visited s)
      (.mk id "identifier" text row column endRow children))
    (id :: Node.idsAll children) := by
  rw [uses_identifier s rfl, unread_visited,
    if_neg fun h => absurd h.1 (by decide)]
  have hemits : Reads tree (fun w => some (w.emit .bareRead
        [.mk id "identifier" text row column endRow children]
        (.mk id "identifier" text row column endRow children) cs))
      ([.mk id "identifier" text row column endRow children] ++
        usesIn (fun _ => .whole s) children)
      (unreadIn (fun _ => .skipped (.whole s)) children)
      (id :: Node.idsAll children) := by
    refine Reads.emits (Covered.own (CoveredIn.skip fun _ _ => rfl)) ?_ ?_
    · exact fun w => ⟨_, rfl, rfl, _, htree, rfl, rfl, rfl⟩
    · exact fun w i hi => Or.inl hi
  exact Reads.congr hemits fun w hfresh =>
    visit_identifier (hfresh id List.mem_cons_self)

theorem attribute_reads
    (htree : InTree tree
      (.mk id "attribute" text row column endRow children))
    (hall : ReadsIn tree (fun w => visitAll env w cs s children)
      (fun _ => .whole s) (fun _ => .visited s) children) :
    Reads tree (fun w => visit env w cs s
      (.mk id "attribute" text row column endRow children))
    (uses (.whole s) (.mk id "attribute" text row column endRow children))
    (unread (.visited s)
      (.mk id "attribute" text row column endRow children))
    (id :: Node.idsAll children) := by
  cases hchain : flattenDotted
      (.mk id "attribute" text row column endRow children) with
  | some chain =>
    have hcovered := chain_covered s _ htree.grammar hchain
    rw [unread_chain, Node.ids] at hcovered
    rw [unread_visited, if_neg fun h => absurd h.1 (by decide), hchain]
    have hemits := @Reads.emits tree _ _ _
      (fun w => (w.emit .attrRead chain
        (.mk id "attribute" text row column endRow children) cs).markAll
          (.mk id "attribute" text row column endRow children)) _ hcovered
      (fun w => ⟨_, rfl, rfl, _, htree, hchain, rfl, rfl⟩) ?_
    · exact Reads.congr hemits fun w hfresh =>
        visit_chain (hfresh id List.mem_cons_self) hchain
    · intro w i hi
      have hvisited := @markAll_visited (w.emit .attrRead chain
        (.mk id "attribute" text row column endRow children) cs) _ i hi
      rw [Node.ids] at hvisited
      exact hvisited
  | none =>
    rw [unread_visited, if_neg fun h => absurd h.1 (by decide), hchain,
      uses_other s (by decide)]
    have hunder : Reads tree _ _ _ (id :: Node.idsAll children) :=
      Reads.under hall
    exact Reads.congr hunder fun w hfresh =>
      visit_attribute (hfresh id List.mem_cons_self) hchain

theorem generic_reads (htype : type ∉ ["import_statement",
      "import_from_statement", "function_definition", "class_definition",
      "keyword_argument", "call", "attribute", "identifier"])
    (hstatement : ¬ (type = "expression_statement" ∧ s ≠ .function ∧
      firstType children = "assignment"))
    (hall : ReadsIn tree (fun w => visitAll env w cs s children)
      (fun _ => .whole s) (fun _ => .visited s) children) :
    Reads tree (fun w => visit env w cs s
      (.mk id type text row column endRow children))
    (uses (.whole s) (.mk id type text row column endRow children))
    (unread (.visited s) (.mk id type text row column endRow children))
    (id :: Node.idsAll children) := by
  have hrun : Reads tree (fun w => visit env w cs s
      (.mk id type text row column endRow children))
      ([] ++ usesIn (fun _ => .whole s) children)
      (unreadIn (fun _ => .visited s) children)
      (id :: Node.idsAll children) :=
    Reads.congr (Reads.under hall) fun w hfresh =>
      visit_generic (hfresh id List.mem_cons_self) htype hstatement
  simp only [List.mem_cons, List.not_mem_nil, or_false, not_or] at htype
  obtain ⟨himport, hfrom, hfunction, hclass, hkeyword, hcall, hattribute,
    hidentifier⟩ := htype
  rw [uses_other s hidentifier, unread_visited, if_neg hstatement]
  by_cases hfuture : type = "future_import_statement"
  · subst hfuture
    have huses := usesIn_given children
    have hleft := unreadIn_given children
    show Reads tree _ (usesIn (fun _ => .given) children)
      (unreadIn (fun _ => .skipped .given) children) _
    rw [huses, hleft]
    exact hrun.weaken (fun _ h => by cases h) (fun _ h => by cases h)
      (fun _ => Nat.zero_le _) fun _ => Nat.le_refl _
  · have htypes : type ∉ importTypes := by
      unfold importTypes
      simp only [List.mem_cons, List.not_mem_nil, or_false, not_or]
      exact ⟨himport, hfrom, hfuture⟩
    have hleft : visitedBelow s type (flattenDotted (.mk id type text row
        column endRow children)).isSome = fun _ => .visited s := by
      funext field
      simp only [visitedBelow, htypes, hfunction, hclass, hkeyword, hcall,
        hattribute, hidentifier, if_false]
    rw [hleft]
    by_cases hs : type = "expression_statement" ∧ s ≠ .function
    · have hpart : wholeParts s type = fun _ => .statement s := by
        funext field
        rw [wholeParts, if_neg htypes, if_neg hfunction, if_neg hclass,
          if_neg hkeyword, if_pos hs]
      rw [hpart]
      exact hrun.weaken (usesIn_statement children) (fun _ _ h => h)
        (fun _ => Nat.le_refl _) fun _ => Nat.le_refl _
    · have hpart : wholeParts s type = fun _ => .whole s := by
        funext field
        simp only [wholeParts, htypes, hfunction, hclass, hkeyword, hs,
          if_false]
      rw [hpart]
      exact hrun

theorem Reads.visited {run : Walker → Option Walker}
    (htype : type ≠ "identifier") (hstatement : type ≠ "expression_statement")
    (h : ReadsIn tree run (wholeParts s type)
      (visitedBelow s type (flattenDotted
        (.mk id type text row column endRow children)).isSome) children)
    (hrun : ∀ w : Walker, id ∉ w.visited → visit env w cs s
      (.mk id type text row column endRow children) = run w) :
    Reads tree (fun w => visit env w cs s
      (.mk id type text row column endRow children))
    (uses (.whole s) (.mk id type text row column endRow children))
    (unread (.visited s) (.mk id type text row column endRow children))
    (id :: Node.idsAll children) := by
  rw [uses_other s htype, unread_visited,
    if_neg fun h => hstatement h.1]
  exact Reads.congr (Reads.under h) fun w hfresh =>
    hrun w (hfresh id List.mem_cons_self)

theorem statement_reads (hs : s ≠ .function)
    (hfirst : firstType children = "assignment")
    (h : Reads tree (fun w => visitAssigned env w cs s children)
      (usesIn (fun _ => .statement s) children) (unreadStatement s children)
      (Node.idsAll children)) :
    Reads tree (fun w => visit env w cs s
      (.mk id "expression_statement" text row column endRow children))
    (uses (.whole s)
      (.mk id "expression_statement" text row column endRow children))
    (unread (.visited s)
      (.mk id "expression_statement" text row column endRow children))
    (id :: Node.idsAll children) := by
  have hpart : wholeParts s "expression_statement" =
      fun _ => .statement s := by
    funext field
    show (if "expression_statement" = "expression_statement" ∧
      s ≠ .function then Part.statement s else .whole s) = _
    rw [if_pos (And.intro rfl hs)]
  have hunder : Reads tree (fun w => visitAssigned env w cs s children)
      (usesIn (fun _ => .statement s) children) (unreadStatement s children)
      (id :: Node.idsAll children) := by
    refine h.weaken (fun _ hn => hn) (fun _ _ hn => hn)
      (fun _ => Nat.le_refl _) fun i => ?_
    rw [List.count_cons]
    exact Nat.le_add_right _ _
  rw [uses_other s (by decide), hpart, unread_visited,
    if_pos ⟨rfl, hs, hfirst⟩]
  exact Reads.congr hunder fun w hfresh =>
    visit_statement (hfresh id List.mem_cons_self) hs hfirst

theorem callee_reads {f : Option String} {n : Node} {rest : List Child}
    (hf : f = some "function") (htree : InTree tree n)
    (hn : Reads tree (fun w => visit env w cs s n) (uses (.whole s) n)
      (unread (.visited s) n) n.ids) :
    Reads tree (fun w => visitCallee env w cs s ((f, n) :: rest))
      (uses (.whole s) n) (unread (.callee s) n) n.ids := by
  rw [unread_callee]
  cases hchain : flattenDotted n with
  | none =>
    rw [if_neg (by decide)]
    refine Reads.congr hn fun w _ => ?_
    rw [visitCallee, if_pos hf, hchain]
  | some chain =>
    rw [if_pos Option.isSome_some]
    have hemits := @Reads.emits tree _ _ _
      (fun w => (w.emit .call chain n cs).markAll n) _
      (chain_covered s n htree.grammar hchain) ?_ fun w => markAll_visited
    · refine Reads.congr hemits fun w _ => ?_
      rw [visitCallee, if_pos hf, hchain]
    · exact fun w => ⟨_, rfl, rfl, n, htree, hchain, rfl, rfl⟩

theorem eachParameter_reads
    (hnodup : (Node.idsAll children).Nodup)
    (hvalue : type ∈ parameterTypes → ReadsIn tree
      (fun w => visitField env "value" w cs .function children)
      (fun _ => .whole .function) (fun _ => .visited .function)
      (pick "value" children)) :
    Reads tree (fun w => if type = "identifier" then
        some (w.mark (.mk id type text row column endRow children))
      else if type ∈ parameterTypes then
        visitField env "value" (w.markField "name" children) cs .function
          children
      else some w)
    (uses .parameter (.mk id type text row column endRow children))
    (unread .parameter (.mk id type text row column endRow children))
    (Node.mk id type text row column endRow children).ids := by
  have hcounts := fun i => count_uses .parameter i
    (.mk id type text row column endRow children)
  by_cases hparameter : type ∈ parameterTypes
  · have hname : type ≠ "identifier" := by
      intro h
      rw [h] at hparameter
      exact absurd hparameter (by decide)
    rw [uses, if_neg fun h => Bool.noConfusion h.2, unread, Node.ids]
    refine Reads.congr (Reads.under
      (parameter_reads hparameter hnodup (hvalue hparameter))) fun w _ => ?_
    rw [if_neg hname, if_pos hparameter]
  · have hskip : unread .parameter
        (.mk id type text row column endRow children) =
          uses .parameter (.mk id type text row column endRow children) := by
      rw [uses, if_neg fun h => Bool.noConfusion h.2, unread,
        List.nil_append]
      show unreadIn (Reading.parameter.below type) children = _
      rw [unreadIn_eq, usesIn_eq]
      refine List.flatMap_congr fun c _ => ?_
      have hbelow : Reading.parameter.below type c.1 =
          .skipped (Part.parameter.below type c.1) :=
        if_neg fun h => hparameter h.1
      rw [hbelow, unread_skipped]
    rw [hskip]
    by_cases hname : type = "identifier"
    · have hmark := @Reads.quiet tree _ _
        (fun w => w.mark (.mk id type text row column endRow children))
        hcounts (fun _ => rfl) fun w => mark_visited (id_mem_ids _)
      refine Reads.congr hmark fun w _ => ?_
      rw [if_pos hname]
    · have hpass := @Reads.quiet tree _ _ (fun w => w) hcounts (fun _ => rfl)
        fun _ _ hi => Or.inl hi
      refine Reads.congr hpass fun w _ => ?_
      rw [if_neg hname, if_neg hparameter]

theorem parameterTypes_fields (h : type ∈ parameterTypes) :
    type ∈ Node.fieldTypes := by
  have hall : ∀ t ∈ parameterTypes, t ∈ Node.fieldTypes := by decide
  exact hall type h

end Cases

mutual

theorem visit_reads (cs : List String) (s : Scope) : ∀ n : Node,
    InTree tree n → n.ids.Nodup →
      Reads tree (fun w => visit env w cs s n) (uses (.whole s) n)
        (unread (.visited s) n) n.ids
  | .mk id type text row column endRow children, htree, hnodup => by
    have hgrammar := htree.grammar
    obtain ⟨honce, hnamed, hchildren⟩ := grammatical_iff.1 hgrammar
    rw [Node.ids, List.nodup_cons] at hnodup
    have hids := hnodup.2
    have htrees := htree.inner
    rw [Node.ids]
    by_cases himport : type = "import_statement"
    · subst himport
      exact importStatement_reads
    by_cases hfrom : type = "import_from_statement"
    · subst hfrom
      exact importFrom_reads
    by_cases hfunction : type = "function_definition"
    · subst hfunction
      have hfields := honce (by decide)
      refine Reads.visited (by decide) (by decide) (function_reads
        (hnamed (by decide)) hids
        (visitParameters_reads cs children htrees hids hfields)
        (visitChildrenOf_reads "body" cs .function children htrees hids
          hfields ?_)) fun w => visit_function
      intro c hc hbody
      rw [childOk_body (by decide) hbody (hchildren c hc).1]
      exact plain_block
    by_cases hclass : type = "class_definition"
    · subst hclass
      have hfields := honce (by decide)
      refine Reads.visited (by decide) (by decide) (class_reads
        (hnamed (by decide)) hids
        (visitField_reads "superclasses" cs s children htrees hids
          hfields)
        (fun cs => visitChildrenOf_reads "body" cs .class children
          htrees hids hfields ?_)) fun w => visit_class
      intro c hc hbody
      rw [childOk_body (by decide) hbody (hchildren c hc).1]
      exact plain_block
    by_cases hkeyword : type = "keyword_argument"
    · subst hkeyword
      exact Reads.visited (by decide) (by decide) (keyword_reads hids
        (visitField_reads "value" cs s children htrees hids
          (honce (by decide)))) fun w => visit_keyword
    by_cases hcall : type = "call"
    · subst hcall
      have hfields := honce (by decide)
      refine Reads.visited (by decide) (by decide) (call_reads hids
        (visitCallee_reads cs s children htrees hids hfields)
        (visitChildrenOf_reads "arguments" cs s children htrees hids
          hfields ?_)) fun w => visit_call
      intro c hc harguments
      rcases childOk_arguments harguments (hchildren c hc).1 with hc | hc
      · rw [hc]
        exact plain_argument_list
      · rw [hc]
        exact plain_generator
    have hall := visitAll_reads cs s children htrees hids
    by_cases hattribute : type = "attribute"
    · subst hattribute
      exact attribute_reads htree hall
    by_cases hidentifier : type = "identifier"
    · subst hidentifier
      exact identifier_reads htree
    by_cases hstatement : type = "expression_statement" ∧ s ≠ .function ∧
        firstType children = "assignment"
    · obtain ⟨htype, hs, hfirst⟩ := hstatement
      subst htype
      have hassigned := visitAssigned_reads cs s children htrees hids
        hfirst
      exact statement_reads hs hfirst hassigned
    · refine generic_reads ?_ hstatement hall
      simp only [List.mem_cons, List.not_mem_nil, or_false, not_or]
      exact ⟨himport, hfrom, hfunction, hclass, hkeyword, hcall,
        hattribute, hidentifier⟩

theorem visitAll_reads (cs : List String) (s : Scope) : ∀ l : List Child,
    (∀ c ∈ l, InTree tree c.2) → (Node.idsAll l).Nodup →
      ReadsIn tree (fun w => visitAll env w cs s l) (fun _ => .whole s)
        (fun _ => .visited s) l
  | [], _, _ => ReadsIn.skip fun _ h => by cases h
  | (f, n) :: rest, htree, hnodup => by
    rw [Node.idsAll, List.nodup_append] at hnodup
    have hn := visit_reads cs s n (htree (f, n) List.mem_cons_self)
      hnodup.1
    have hrest := visitAll_reads cs s rest
      (fun c hc => htree c (List.mem_cons_of_mem _ hc)) hnodup.2.1
    exact Reads.bind hn hrest fun i hi hi' => hnodup.2.2 i hi i hi' rfl

theorem visitField_reads (field : String) (cs : List String) (s : Scope) :
    ∀ l : List Child, (∀ c ∈ l, InTree tree c.2) →
      (Node.idsAll l).Nodup → (l.filterMap Prod.fst).Nodup →
      ReadsIn tree (fun w => visitField env field w cs s l) (fun _ => .whole s)
        (fun _ => .visited s) (pick field l)
  | [], _, _, _ => ReadsIn.skip fun _ h => by cases h
  | (f, n) :: rest, htree, hnodup, honce => by
    rw [Node.idsAll] at hnodup
    by_cases hf : f = some field
    · have hn := visit_reads cs s n (htree (f, n) List.mem_cons_self)
        hnodup.of_append_left
      rw [pick_here honce hf]
      refine ReadsIn.single (Reads.congr hn fun w _ => ?_)
      rw [visitField, if_pos hf]
    · have hrest := visitField_reads field cs s rest
        (fun c hc => htree c (List.mem_cons_of_mem _ hc))
        hnodup.of_append_right (fields_rest honce)
      rw [pick_later hf]
      refine Reads.congr hrest fun w _ => ?_
      rw [visitField, if_neg hf]

theorem visitChildrenOf_reads (field : String) (cs : List String)
    (s : Scope) : ∀ l : List Child, (∀ c ∈ l, InTree tree c.2) →
      (Node.idsAll l).Nodup → (l.filterMap Prod.fst).Nodup →
      (∀ c ∈ l, c.1 = some field → Plain c.2.type) →
      ReadsIn tree (fun w => visitChildrenOf env field w cs s l)
        (fun _ => .whole s) (fun _ => .children s) (pick field l)
  | [], _, _, _, _ => ReadsIn.skip fun _ h => by cases h
  | (f, .mk id type text row column endRow children) :: rest, htree,
      hnodup, honce, hplain => by
      rw [Node.idsAll] at hnodup
      by_cases hf : f = some field
      · have hn := hnodup.of_append_left
        rw [Node.ids, List.nodup_cons] at hn
        have hall := visitAll_reads cs s children
          (htree _ List.mem_cons_self).inner hn.2
        rw [pick_here honce hf]
        refine ReadsIn.single ?_
        have htype : Plain type := hplain _ List.mem_cons_self hf
        rw [uses_plain htype, unread, Node.ids]
        refine Reads.congr (Reads.under hall) fun w _ => ?_
        rw [visitChildrenOf, if_pos hf]
      · have hrest := visitChildrenOf_reads field cs s rest
          (fun c hc => htree c (List.mem_cons_of_mem _ hc))
          hnodup.of_append_right (fields_rest honce)
          (fun c hc => hplain c (List.mem_cons_of_mem _ hc))
        rw [pick_later hf]
        refine Reads.congr hrest fun w _ => ?_
        rw [visitChildrenOf, if_neg hf]

theorem visitAssigned_reads (cs : List String) (s : Scope) :
    ∀ l : List Child, (∀ c ∈ l, InTree tree c.2) →
      (Node.idsAll l).Nodup → firstType l = "assignment" →
      Reads tree (fun w => visitAssigned env w cs s l)
        (usesIn (fun _ => .statement s) l) (unreadStatement s l)
        (Node.idsAll l)
  | [], _, _, h => absurd h (by decide)
  | (f, .mk id type text row column endRow children) :: rest, htree,
      hnodup, h => by
      have htype : type = "assignment" := h
      subst htype
      rw [Node.idsAll, List.nodup_append] at hnodup
      have hn := hnodup.1
      rw [Node.ids, List.nodup_cons] at hn
      have hn' := htree _ List.mem_cons_self
      have honce := (grammatical_iff.1 (hn'.grammar)).1
      have hvalue := visitField_reads "right" cs s children hn'.inner hn.2
        (honce (by decide))
      have hassigned := @assigned_reads tree env id row column endRow
        "assignment" text children cs s hn.2 hvalue
      have hskip : Reads tree some (usesIn (fun _ => .statement s) rest)
          (usesIn (fun _ => .statement s) rest) (Node.idsAll rest) :=
        Reads.quiet (fun i => count_usesIn _ i rest) (fun _ => rfl)
          fun _ _ hi => Or.inl hi
      have hunder : Reads tree _ _ _ (id :: Node.idsAll children) :=
        Reads.under hassigned
      have hboth := Reads.bind hunder hskip
        fun i hi hi' => hnodup.2.2 i (by rw [Node.ids]; exact hi) i hi' rfl
      rw [usesIn, uses, unreadStatement, unread, Node.idsAll, Node.ids]
      refine Reads.congr hboth fun w _ => ?_
      rw [visitAssigned, Option.bind_fun_some]

theorem visitCallee_reads (cs : List String) (s : Scope) :
    ∀ l : List Child, (∀ c ∈ l, InTree tree c.2) →
      (Node.idsAll l).Nodup → (l.filterMap Prod.fst).Nodup →
      ReadsIn tree (fun w => visitCallee env w cs s l) (fun _ => .whole s)
        (fun _ => .callee s) (pick "function" l)
  | [], _, _, _ => ReadsIn.skip fun _ h => by cases h
  | (f, n) :: rest, htree, hnodup, honce => by
    rw [Node.idsAll] at hnodup
    by_cases hf : f = some "function"
    · have htrees := htree (f, n) List.mem_cons_self
      have hn := visit_reads cs s n htrees hnodup.of_append_left
      rw [pick_here honce hf]
      exact ReadsIn.single (callee_reads hf htrees hn)
    · have hrest := visitCallee_reads cs s rest
        (fun c hc => htree c (List.mem_cons_of_mem _ hc))
        hnodup.of_append_right (fields_rest honce)
      rw [pick_later hf]
      refine Reads.congr hrest fun w _ => ?_
      rw [visitCallee, if_neg hf]

theorem visitParameters_reads (cs : List String) : ∀ l : List Child,
    (∀ c ∈ l, InTree tree c.2) → (Node.idsAll l).Nodup →
      (l.filterMap Prod.fst).Nodup →
      ReadsIn tree (fun w => visitParameters env w cs l) (fun _ => .parameters)
        (fun _ => .parameters) (pick "parameters" l)
  | [], _, _, _ => ReadsIn.skip fun _ h => by cases h
  | (f, .mk id type text row column endRow children) :: rest, htree,
      hnodup, honce => by
      rw [Node.idsAll] at hnodup
      by_cases hf : f = some "parameters"
      · have hn := hnodup.of_append_left
        rw [Node.ids, List.nodup_cons] at hn
        have heach := visitEachParameter_reads cs children
          (htree _ List.mem_cons_self).inner hn.2
        rw [pick_here honce hf]
        refine ReadsIn.single ?_
        rw [uses, if_neg fun h => Bool.noConfusion h.2, unread, Node.ids]
        refine Reads.congr (Reads.under heach) fun w _ => ?_
        rw [visitParameters, if_pos hf]
      · have hrest := visitParameters_reads cs rest
          (fun c hc => htree c (List.mem_cons_of_mem _ hc))
          hnodup.of_append_right (fields_rest honce)
        rw [pick_later hf]
        refine Reads.congr hrest fun w _ => ?_
        rw [visitParameters, if_neg hf]

theorem visitEachParameter_reads (cs : List String) : ∀ l : List Child,
    (∀ c ∈ l, InTree tree c.2) → (Node.idsAll l).Nodup →
      ReadsIn tree (fun w => visitEachParameter env w cs l)
        (fun _ => .parameter) (fun _ => .parameter) l
  | [], _, _ => ReadsIn.skip fun _ h => by cases h
  | (f, .mk id type text row column endRow children) :: rest, htree,
      hnodup => by
      rw [Node.idsAll, List.nodup_append] at hnodup
      have hn := hnodup.1
      rw [Node.ids, List.nodup_cons] at hn
      have hrest := visitEachParameter_reads cs rest
        (fun c hc => htree c (List.mem_cons_of_mem _ hc)) hnodup.2.1
      have hfirst : type ∈ parameterTypes → ReadsIn tree
          (fun w => visitField env "value" w cs .function children)
          (fun _ => .whole .function) (fun _ => .visited .function)
          (pick "value" children) := by
        intro htype
        have hn' := htree _ List.mem_cons_self
        have honce := (grammatical_iff.1 (hn'.grammar)).1
        exact visitField_reads "value" cs .function children hn'.inner hn.2
          (honce (parameterTypes_fields htype))
      have hboth := Reads.bind (eachParameter_reads hn.2 hfirst) hrest
        fun i hi hi' => hnodup.2.2 i hi i hi' rfl
      refine Reads.congr hboth fun w _ => ?_
      rw [visitEachParameter]

end

-- ==== no use lost

/-- A node is on the chain of exactly one occurrence, once, and the chain
is that of a node of the tree. -/
structure ReadOnce (tree : SyntaxTree) (w : Walker) (n : Node) : Prop where
  onChain : ∃ o ∈ w.rawRefs, n ∈ o.chain ∧ ChainOf tree o
  once : ((w.rawRefs.flatMap (·.chain)).map Node.id).count n.id = 1

/-- The uses of a file. -/
def SyntaxTree.uses (tree : SyntaxTree) : List Node :=
  usesIn (fun _ => .whole .module) tree.rootNode.fields

/-- Those that the walker passes over. -/
def SyntaxTree.unread (tree : SyntaxTree) : List Node :=
  unreadIn (fun _ => .visited .module) tree.rootNode.fields

theorem SyntaxTree.idsAll_nodup (tree : SyntaxTree) :
    (Node.idsAll tree.rootNode.fields).Nodup := by
  have hnodup := tree.ids_nodup
  cases hroot : tree.rootNode with
  | mk id type text row column endRow children =>
    rw [hroot, Node.ids, List.nodup_cons] at hnodup
    exact hnodup.2

theorem walk_reads (env : WalkerEnv) (tree : SyntaxTree) :
    ∃ w, walk env tree = some w ∧
      ∀ n ∈ tree.uses, ReadOnce tree w n ↔ n ∉ tree.unread := by
  have hnodup := tree.idsAll_nodup
  obtain ⟨w, new, hw, hadded, hcovered⟩ := @visitAll_reads tree env []
    .module tree.rootNode.fields (fun _ hc => .child .root hc) hnodup .new
    fun _ _ hi => by cases hi
  have hrefs : w.rawRefs = new := hadded.refs
  refine ⟨w, hw, fun n hn => ⟨?_, ?_⟩⟩
  · intro honce hleft
    have hcount := hcovered.counts n.id
    have hids := List.nodup_iff_count_le_one.1 hnodup n.id
    have hread := honce.once
    rw [hrefs] at hread
    have hpos := List.count_pos_iff.2 (List.mem_map_of_mem (f := Node.id) hleft)
    unfold SyntaxTree.unread at hpos
    omega
  · intro hleft
    have hchain := (hcovered.covered n hn).resolve_left hleft
    obtain ⟨o, ho, hmem⟩ := List.mem_flatMap.1 hchain
    refine ⟨⟨o, hrefs ▸ ho, hmem, hadded.chains o ho⟩, ?_⟩
    have hcount := hcovered.counts n.id
    have hids := List.nodup_iff_count_le_one.1 hnodup n.id
    have hpos := List.count_pos_iff.2
      (List.mem_map_of_mem (f := Node.id) hchain)
    rw [hrefs]
    omega

/-- The walker loses no use if and only if it passes over none. -/
theorem walker_loses_none (env : WalkerEnv) (tree : SyntaxTree) :
    (∃ w, walk env tree = some w ∧ ∀ n ∈ tree.uses, ReadOnce tree w n) ↔
      ∀ n ∈ tree.uses, n ∉ tree.unread := by
  obtain ⟨w, hw, hreads⟩ := walk_reads env tree
  constructor
  · intro h n hn
    obtain ⟨w', hw', honce⟩ := h
    rw [hw] at hw'
    rw [← Option.some.inj hw'] at honce
    exact (hreads n hn).1 (honce n hn)
  · intro h
    exact ⟨w, hw, fun n hn => (hreads n hn).2 (h n hn)⟩

/-- `def f() -> T: pass`. -/
def annotated : SyntaxTree where
  rootNode := .mk 0 "module" "def f() -> T: pass" 0 0 0
    [(none, .mk 1 "function_definition" "def f() -> T: pass" 0 0 0
      [(none, .mk 2 "def" "def" 0 0 0 []),
        (some "name", .mk 3 "identifier" "f" 0 4 0 []),
        (some "parameters", .mk 4 "parameters" "()" 0 5 0
          [(none, .mk 5 "(" "(" 0 5 0 []), (none, .mk 6 ")" ")" 0 6 0 [])]),
        (none, .mk 7 "->" "->" 0 8 0 []),
        (some "return_type", .mk 8 "type" "T" 0 11 0
          [(none, .mk 9 "identifier" "T" 0 11 0 [])]),
        (none, .mk 10 ":" ":" 0 12 0 []),
        (some "body", .mk 11 "block" "pass" 0 14 0
          [(none, .mk 12 "pass_statement" "pass" 0 14 0 [])])])]
  grammatical := by decide
  ids_nodup := by decide

/-- The type that a function returns is read by nothing. -/
theorem return_type_lost : ∃ n ∈ annotated.uses, ∃ w,
    walk ⟨"m", [], fun _ => false⟩ annotated = some w ∧
      ∀ o ∈ w.rawRefs, n ∉ o.chain :=
  ⟨.mk 9 "identifier" "T" 0 11 0 [], List.mem_singleton_self _, _, rfl,
    fun _ h => by cases h⟩

end Walk

end SdlcOs.Index
