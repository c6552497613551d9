/-
What is read back from an event file after crashes.

# The file

As long as every step meets a condition (`Meets`) the file is the lines of
the events that were written whole, the last one perhaps without its line
break (`Shape`), and their numbers increase (`Kept`). Read, such a file
gives these events (`read_shape`).

# The condition

An `emit` meets it if the sink is open, the file ends where a line ends
and no event of the file has the sink's next number or a higher one; a
crash meets it if nothing of the line arrived, or all of its JSON did and
the same holds. A step that does not meet it breaks the file at once
(`breaks`): a text cut short is not JSON (`Json.Layout.loads_take`), two
texts on one line are not, and a number that is not past the others is
out of order. So the runs after each of whose steps the file can be
recovered are exactly the runs that meet the condition
(`events_recovered`).
-/
import Mathlib.Data.List.DropRight
import SdlcOs.Json.Rational
import SdlcOs.Observability.Sink

namespace SdlcOs.Observability

open Json (Json FloatText Layout loads compact isNumeral)

variable {φ : Type} {F : FloatText φ}

-- ==== line breaks

/-- No character ends a line. -/
def Unbroken (cs : List Char) : Prop := ∀ c ∈ cs, c ≠ '\n' ∧ c ≠ '\r'

theorem unbroken_append {a b : List Char} :
    Unbroken (a ++ b) ↔ Unbroken a ∧ Unbroken b := by
  unfold Unbroken
  simp only [List.mem_append]
  constructor
  · intro h
    exact ⟨fun c hc => h c (Or.inl hc), fun c hc => h c (Or.inr hc)⟩
  · intro h c hc
    exact hc.elim (h.1 c) (h.2 c)

theorem unbroken_cons {c : Char} {cs : List Char} :
    Unbroken (c :: cs) ↔ (c ≠ '\n' ∧ c ≠ '\r') ∧ Unbroken cs := by
  unfold Unbroken
  simp

theorem unbroken_nil : Unbroken [] := by
  intro c hc
  cases hc

theorem unbroken_digits (n : Nat) : Unbroken (Json.unicodeEscape n) := by
  have hdigit : ∀ d < 16, Nat.digitChar d ≠ '\n' ∧ Nat.digitChar d ≠ '\r' := by
    decide
  have hmod : ∀ k, k % 16 < 16 := fun k => Nat.mod_lt k (by omega)
  unfold Json.unicodeEscape
  simp only [unbroken_cons]
  exact ⟨by decide, by decide, hdigit _ (hmod _), hdigit _ (hmod _),
    hdigit _ (hmod _), hdigit _ (hmod _), unbroken_nil⟩

theorem unbroken_escape (c : Char) : Unbroken (Json.escapeChar c) := by
  have hpair : ∀ {a : Char}, a ≠ '\n' ∧ a ≠ '\r' → Unbroken ['\\', a] :=
    fun ha => unbroken_cons.2 ⟨by decide, unbroken_cons.2 ⟨ha, unbroken_nil⟩⟩
  unfold Json.escapeChar
  split
  · exact hpair (by decide)
  split
  · exact hpair (by decide)
  split
  · exact hpair (by decide)
  · next hn =>
    split
    · exact hpair (by decide)
    · next hr =>
      split
      · exact hpair (by decide)
      split
      · exact hpair (by decide)
      split
      · exact hpair (by decide)
      split
      · exact unbroken_cons.2 ⟨⟨hn, hr⟩, unbroken_nil⟩
      split
      · exact unbroken_digits _
      · exact unbroken_append.2 ⟨unbroken_digits _, unbroken_digits _⟩

theorem unbroken_str (s : String) : Unbroken (Json.strText s) := by
  unfold Json.strText
  refine unbroken_cons.2 ⟨by decide, unbroken_append.2 ⟨?_, ?_⟩⟩
  · intro c hc
    obtain ⟨a, _, ha⟩ := List.mem_flatMap.1 hc
    exact unbroken_escape a c ha
  · exact unbroken_cons.2 ⟨by decide, unbroken_nil⟩

theorem unbroken_of_all {cs : List Char}
    (h : cs.all (fun c => c ≠ '\n' ∧ c ≠ '\r') = true) : Unbroken cs :=
  fun c hc => of_decide_eq_true (List.all_eq_true.1 h c hc)

theorem unbroken_numeral {cs : List Char}
    (h : ∀ c ∈ cs, isNumeral c = true) : Unbroken cs := by
  intro c hc
  have hnum := h c hc
  constructor
  · rintro rfl
    cases hnum
  · rintro rfl
    cases hnum

mutual

theorem unbroken_text : ∀ (v : Json φ) (level : Nat),
    Unbroken (compact.text F level v)
  | .null, _ => by
    rw [Layout.text]
    exact unbroken_of_all (by decide)
  | .bool true, _ => by
    rw [Layout.text]
    exact unbroken_of_all (by decide)
  | .bool false, _ => by
    rw [Layout.text]
    exact unbroken_of_all (by decide)
  | .int n, _ => by
    rw [Layout.text]
    exact unbroken_numeral (Json.intText_numeral n).1
  | .float x, _ => by
    rw [Layout.text]
    exact unbroken_numeral (F.repr_numeral x)
  | .str s, _ => by
    rw [Layout.text]
    exact unbroken_str s
  | .arr [], _ => by
    rw [Layout.text]
    exact unbroken_of_all (by decide)
  | .arr (v :: vs), level => by
    rw [Layout.text]
    simp only [compact, List.nil_append, List.cons_append, unbroken_cons,
      unbroken_append]
    exact ⟨by decide, ⟨unbroken_text v _, unbroken_items vs _⟩, by decide,
      unbroken_nil⟩
  | .obj [], _ => by
    rw [Layout.text]
    exact unbroken_of_all (by decide)
  | .obj ((k, v) :: ms), level => by
    rw [Layout.text]
    simp only [compact, List.nil_append, List.cons_append, unbroken_cons,
      unbroken_append]
    exact ⟨by decide, ⟨unbroken_str k, by decide, by decide,
      unbroken_text v _, unbroken_members ms _⟩, by decide, unbroken_nil⟩

theorem unbroken_items : ∀ (vs : List (Json φ)) (level : Nat),
    Unbroken (compact.itemsText F level vs)
  | [], _ => by
    rw [Layout.itemsText]
    exact unbroken_nil
  | v :: vs, level => by
    rw [Layout.itemsText]
    simp only [compact, List.cons_append, List.nil_append, unbroken_cons,
      unbroken_append]
    exact ⟨by decide, by decide, unbroken_text v _, unbroken_items vs _⟩

theorem unbroken_members : ∀ (ms : List (String × Json φ)) (level : Nat),
    Unbroken (compact.membersText F level ms)
  | [], _ => by
    rw [Layout.membersText]
    exact unbroken_nil
  | (k, v) :: ms, level => by
    rw [Layout.membersText]
    simp only [compact, List.cons_append, List.nil_append, unbroken_cons,
      unbroken_append]
    exact ⟨by decide, by decide, unbroken_str k, by decide, by decide,
      unbroken_text v _, unbroken_members ms _⟩

end

theorem unbroken_event (e : Event φ) : Unbroken (text F e) :=
  unbroken_text _ 0

theorem linesFrom_unbroken {cs : List Char} (h : Unbroken cs) :
    ∀ (cur rest : List Char),
      linesFrom cur (cs ++ '\n' :: rest) = (cur ++ cs) :: linesFrom [] rest := by
  induction cs with
  | nil =>
    intro cur rest
    rw [List.nil_append, List.append_nil, linesFrom, if_pos (Or.inl rfl)]
    intro s hs
    cases hs
  | cons c cs ih =>
    intro cur rest
    obtain ⟨⟨hn, hr⟩, hcs⟩ := unbroken_cons.1 h
    rw [List.cons_append, linesFrom, if_neg (by simp [hn, hr]), ih hcs,
      List.append_assoc]
    · rfl
    · intro s hs
      exact fun _ => hr hs

theorem linesFrom_last {cs : List Char} (h : Unbroken cs) :
    ∀ cur : List Char, linesFrom cur cs =
      if cur ++ cs = [] then [] else [cur ++ cs] := by
  induction cs with
  | nil =>
    intro cur
    rw [linesFrom, List.append_nil]
  | cons c cs ih =>
    intro cur
    obtain ⟨⟨hn, hr⟩, hcs⟩ := unbroken_cons.1 h
    rw [linesFrom, if_neg (by simp [hn, hr]), ih hcs, List.append_assoc]
    · rfl
    · intro s hs
      exact fun _ => hr hs

-- ==== stripping

theorem strip_brace (cs : List Char) :
    strip ('{' :: cs) = ('{' :: cs).rdropWhile Gates.isSpace := by
  unfold strip List.rdropWhile
  rw [List.dropWhile_cons_of_neg (by decide)]

/-- Stripping keeps an opening brace and what stands before a closing
one. -/
theorem strip_keep {c : Char} (hc : Gates.isSpace c = false)
    (a b : List Char) :
    ∃ b', strip ('{' :: (a ++ c :: b)) = '{' :: (a ++ c :: b') := by
  rw [strip_brace]
  induction b using List.reverseRecOn with
  | nil =>
    refine ⟨[], ?_⟩
    have happ : '{' :: (a ++ [c]) = ('{' :: a) ++ [c] := rfl
    rw [happ, List.rdropWhile_concat_neg _ _ _ (by simp [hc])]
  | append_singleton b d ih =>
    obtain ⟨b', hb'⟩ := ih
    have happ : '{' :: (a ++ c :: (b ++ [d])) =
        ('{' :: (a ++ c :: b)) ++ [d] := by
      simp
    rw [happ, List.rdropWhile_concat]
    split
    · exact ⟨b', hb'⟩
    · exact ⟨b ++ [d], by simp⟩

theorem strip_braces (a : List Char) :
    strip ('{' :: (a ++ ['}'])) = '{' :: (a ++ ['}']) := by
  have happ : '{' :: (a ++ ['}']) = ('{' :: a) ++ ['}'] := rfl
  rw [strip_brace, happ, List.rdropWhile_concat_neg _ _ _ (by decide)]

theorem strip_take (cs : List Char) :
    ∃ k, strip ('{' :: cs) = ('{' :: cs).take (k + 1) := by
  have hpre := List.rdropWhile_prefix Gates.isSpace (l := '{' :: cs)
  rw [← strip_brace, List.prefix_iff_eq_take] at hpre
  rw [hpre]
  cases hlen : (strip ('{' :: cs)).length with
  | zero =>
    have hnil := List.eq_nil_of_length_eq_zero hlen
    rw [strip_brace, List.rdropWhile_eq_nil_iff] at hnil
    have hspace := hnil '{' List.mem_cons_self
    exact absurd hspace (by decide)
  | succ k => exact ⟨k, rfl⟩

-- ==== events

theorem text_braces (e : Event φ) : ∃ a, text F e = '{' :: (a ++ ['}']) :=
  ⟨_, rfl⟩

theorem fromJsonDict_toJsonDict (e : Event φ) :
    Event.fromJsonDict (.obj e.toJsonDict) = some e := by
  unfold Event.fromJsonDict Event.toJsonDict member fieldNames
  simp

theorem readEvent_text (e : Event φ) : readEvent F (text F e) = .ok e := by
  unfold readEvent text
  rw [Layout.loads_dumps]
  dsimp only
  rw [fromJsonDict_toJsonDict]

theorem strip_text (e : Event φ) : strip (text F e) = text F e := by
  obtain ⟨a, ha⟩ := text_braces (F := F) e
  rw [ha, strip_braces]

theorem text_ne_nil (e : Event φ) : text F e ≠ [] := by
  obtain ⟨a, ha⟩ := text_braces (F := F) e
  rw [ha]
  exact List.cons_ne_nil _ _

theorem readLines_text {e : Event φ} {rest : List (List Char)}
    {es : List (Event φ)} (h : readLines F rest = .ok es) :
    readLines F (text F e :: rest) = .ok (e :: es) := by
  rw [readLines, strip_text, if_neg (text_ne_nil e), readEvent_text, h]

theorem readLines_raise {e : Event φ} {rest : List (List Char)}
    {x : ReadError} (h : readLines F rest = .error x) :
    readLines F (text F e :: rest) = .error x := by
  rw [readLines, strip_text, if_neg (text_ne_nil e), readEvent_text, h]

theorem readLines_bad {l : List Char} {rest : List (List Char)}
    (hne : strip l ≠ []) (h : loads F (strip l) = none) :
    readLines F (l :: rest) = .error .jsonDecodeError := by
  rw [readLines, if_neg hne, readEvent, h]

theorem loads_cut {e : Event φ} {k : Nat} (hk : k < (text F e).length)
    (hpos : k ≠ 0) :
    strip ((text F e).take k) ≠ [] ∧
      loads F (strip ((text F e).take k)) = none := by
  obtain ⟨a, ha⟩ := text_braces (F := F) e
  obtain ⟨k, rfl⟩ := Nat.exists_eq_succ_of_ne_zero hpos
  have htake : (text F e).take (k + 1) = '{' :: (a ++ ['}']).take k := by
    rw [ha, List.take_succ_cons]
  obtain ⟨n, hn⟩ := strip_take ((a ++ ['}']).take k)
  rw [← htake, List.take_take] at hn
  rw [hn]
  constructor
  · intro hnil
    rw [List.take_eq_nil_iff] at hnil
    rcases hnil with hnil | hnil
    · omega
    · exact text_ne_nil e hnil
  · exact Layout.loads_take (by unfold text at hk; omega)

theorem loads_merged (e : Event φ) (cs : List Char) :
    strip (text F e ++ '{' :: cs) ≠ [] ∧
      loads F (strip (text F e ++ '{' :: cs)) = none := by
  obtain ⟨a, ha⟩ := text_braces (F := F) e
  have happ : text F e ++ '{' :: cs = '{' :: ((a ++ ['}']) ++ '{' :: cs) := by
    rw [ha]
    rfl
  obtain ⟨cs', hcs'⟩ := strip_keep (c := '{') (by decide) (a ++ ['}']) cs
  have hstrip : strip (text F e ++ '{' :: cs) = text F e ++ '{' :: cs' := by
    rw [happ, hcs', ha]
    rfl
  rw [hstrip]
  refine ⟨by simp, ?_⟩
  have hwhole := Json.readValue_dumps (L := compact) (F := F)
    (.obj e.toJsonDict) (Nat.le_refl _)
  have hhead : compact.dumps F (.obj e.toJsonDict) = '{' :: (a ++ ['}']) := ha
  rw [hhead] at hwhole
  have hmore := Json.readValue_object (t := '{' :: cs')
    (m := ('{' :: (a ++ ['}']) ++ '{' :: cs').length + 1) (by simp) hwhole
  unfold loads
  rw [ha, List.cons_append, Json.skip_cons (by decide), ← List.cons_append,
    hmore]
  dsimp only
  rw [List.nil_append, Json.skip_cons (by decide), if_neg (by simp)]

-- ==== the file

/-- The file holds the lines of some events and then, without its line
break, the text of another one at most. -/
structure Shape (F : FloatText φ) (file : Option (List Char))
    (done : List (Event φ)) (last : Option (Event φ)) : Prop where
  eq : file.getD [] = done.flatMap (line F) ++ last.elim [] (text F)

theorem linesFrom_done (done : List (Event φ)) (rest : List Char) :
    linesFrom [] (done.flatMap (line F) ++ rest) =
      done.map (text F) ++ linesFrom [] rest := by
  induction done with
  | nil => rfl
  | cons e done ih =>
    have happ : (e :: done).flatMap (line F) ++ rest =
        text F e ++ '\n' :: (done.flatMap (line F) ++ rest) := by
      rw [List.flatMap_cons, line]
      simp
    rw [happ, linesFrom_unbroken (unbroken_event e), ih]
    rfl

theorem readLines_done (done : List (Event φ)) {rest : List (List Char)}
    {es : List (Event φ)} (h : readLines F rest = .ok es) :
    readLines F (done.map (text F) ++ rest) = .ok (done ++ es) := by
  induction done with
  | nil => exact h
  | cons e done ih => exact readLines_text ih

theorem readLines_done_raise (done : List (Event φ))
    {rest : List (List Char)} {x : ReadError}
    (h : readLines F rest = .error x) :
    readLines F (done.map (text F) ++ rest) = .error x := by
  induction done with
  | nil => exact h
  | cons e done ih => exact readLines_raise ih

/-- Reading a file after its lines. -/
theorem read_file {file : Option (List Char)} {cs : List Char}
    (h : file.getD [] = cs) :
    readEventsFromFile F file = readLines F (linesFrom [] cs) := by
  cases file with
  | none =>
    rw [← h]
    rfl
  | some text =>
    rw [← h]
    rfl

/-- A file of such a shape gives its events. -/
theorem read_shape {file : Option (List Char)} {done : List (Event φ)}
    {last : Option (Event φ)} (h : Shape F file done last) :
    readEventsFromFile F file = .ok (done ++ last.toList) := by
  rw [read_file h.eq, linesFrom_done]
  refine readLines_done done ?_
  cases last with
  | none => rfl
  | some e =>
    rw [Option.elim_some, linesFrom_last (unbroken_event e), List.nil_append,
      if_neg (text_ne_nil e)]
    exact readLines_text rfl

theorem read_cut {file : Option (List Char)} {done : List (Event φ)}
    {e : Event φ} {k : Nat}
    (h : file.getD [] = done.flatMap (line F) ++ (text F e).take k)
    (hk : k < (text F e).length) (hpos : k ≠ 0) :
    readEventsFromFile F file = .error .jsonDecodeError := by
  obtain ⟨hne, hloads⟩ := loads_cut hk hpos
  have htake : Unbroken ((text F e).take k) :=
    fun c hc => unbroken_event e c (List.mem_of_mem_take hc)
  rw [read_file h, linesFrom_done]
  refine readLines_done_raise done ?_
  rw [linesFrom_last htake, List.nil_append, if_neg]
  · exact readLines_bad hne hloads
  · intro hnil
    rw [hnil] at hne
    exact hne rfl

theorem read_merged {file : Option (List Char)} {done : List (Event φ)}
    {e e' : Event φ} {k : Nat}
    (h : file.getD [] = done.flatMap (line F) ++
      (text F e ++ (line F e').take k)) (hpos : k ≠ 0) :
    readEventsFromFile F file = .error .jsonDecodeError := by
  obtain ⟨a, ha⟩ := text_braces (F := F) e'
  obtain ⟨k, rfl⟩ := Nat.exists_eq_succ_of_ne_zero hpos
  rw [read_file h, linesFrom_done]
  refine readLines_done_raise done ?_
  by_cases hk : k + 1 ≤ (text F e').length
  · -- the line break of the second text is missing too
    have htake : (line F e').take (k + 1) = '{' :: (a ++ ['}']).take k := by
      rw [line, List.take_append_of_le_length hk, ha, List.take_succ_cons]
    have hunbroken : Unbroken (text F e ++ (line F e').take (k + 1)) := by
      rw [line, List.take_append_of_le_length hk]
      exact unbroken_append.2 ⟨unbroken_event e, fun c hc =>
        unbroken_event e' c (List.mem_of_mem_take hc)⟩
    rw [linesFrom_last hunbroken, List.nil_append, htake, if_neg (by simp)]
    obtain ⟨hne, hloads⟩ := loads_merged (F := F) e ((a ++ ['}']).take k)
    exact readLines_bad hne hloads
  · have htake : (line F e').take (k + 1) = text F e' ++ '\n' :: [] := by
      rw [List.take_of_length_le (by
        rw [line, List.length_append, List.length_singleton]
        omega)]
      rfl
    have hunbroken : Unbroken (text F e ++ text F e') :=
      unbroken_append.2 ⟨unbroken_event e, unbroken_event e'⟩
    rw [htake, ← List.append_assoc, linesFrom_unbroken hunbroken,
      List.nil_append, ha]
    obtain ⟨hne, hloads⟩ := loads_merged (F := F) e (a ++ ['}'])
    exact readLines_bad hne hloads

-- ==== the condition

/-- The file ends where a line ends. -/
def Finished (s : State φ) : Prop := ∀ c ∈ (s.file.getD []).getLast?, c = '\n'

/-- The sink's next number is past those of the file's events. -/
def Past (s : State φ) (sink : EventSink) : Prop :=
  ∀ e ∈ s.written, ∀ n : Int, e.sequence = .int n → n < sink.seq

variable (F) in
/-- The condition on a step: an event is only emitted on an open sink,
after a line's end, under a number past those of the file; and a crash
leaves nothing of the line, or all of its text under the same
condition. -/
def Meets (s : State φ) : Act φ → Prop
  | .emit a => ∀ sink attributes, s.sink = some sink →
      a.attributes = some attributes →
        sink.isOpen = true ∧ Finished s ∧ Past s sink
  | .die a stop => ∀ sink attributes, s.sink = some sink →
      a.attributes = some attributes → sink.isOpen = true → stop ≠ 0 →
        (text F (a.event attributes sink.seq)).length ≤ stop ∧
          Finished s ∧ Past s sink
  | _ => True

/-- The first event's number is lower. -/
def Before (e e' : Event φ) : Prop :=
  ∃ m n : Int, e.sequence = .int m ∧ e'.sequence = .int n ∧ m < n

variable (F) in
/-- Every event whose `emit` returned is read back, in the order of
emission, nothing raises, and the numbers of what is read increase. -/
def Recovered (s : State φ) : Prop :=
  ∃ es, readEventsFromFile F s.file = .ok es ∧ s.returned.Sublist es ∧
    es.Pairwise Before

variable (F) in
/-- What holds as long as the condition is met. -/
structure Kept (s : State φ) : Prop where
  shape : ∃ done last, Shape F s.file done last ∧
    s.written = done ++ last.toList
  returned : s.returned.Sublist s.written
  order : s.written.Pairwise Before
  ids : ∀ e ∈ s.written, ∃ id ∈ s.ids, e.eventId = .str id
  numbered : ∀ e ∈ s.written, ∃ n : Int, e.sequence = .int n

variable {s s' : State φ} {a : EmitArgs φ} {stop : Option Nat}

theorem Kept.recovered (h : Kept F s) : Recovered F s := by
  obtain ⟨done, last, hshape, hwritten⟩ := h.shape
  refine ⟨_, read_shape hshape, ?_, ?_⟩
  · rw [← hwritten]
    exact h.returned
  · rw [← hwritten]
    exact h.order

theorem kept_init : Kept F (State.init : State φ) where
  shape := ⟨[], none, ⟨rfl⟩, rfl⟩
  returned := List.Sublist.refl _
  order := List.Pairwise.nil
  ids := fun _ h => by cases h
  numbered := fun _ h => by cases h

/-- The file ends where a line ends exactly if no text waits for its line
break. -/
theorem finished_iff {done : List (Event φ)} {last : Option (Event φ)}
    (h : Shape F s.file done last) : Finished s ↔ last = none := by
  unfold Finished
  rw [h.eq]
  cases last with
  | none =>
    refine ⟨fun _ => rfl, fun _ c hc => ?_⟩
    rw [Option.elim_none, List.append_nil] at hc
    induction done using List.reverseRecOn with
    | nil => cases hc
    | append_singleton done e _ =>
      rw [List.flatMap_append, List.flatMap_singleton, line,
        ← List.append_assoc, List.getLast?_concat] at hc
      exact (Option.some.inj hc).symm
  | some e =>
    obtain ⟨b, hb⟩ := text_braces (F := F) e
    have happ : done.flatMap (line F) ++ text F e =
        (done.flatMap (line F) ++ '{' :: b) ++ ['}'] := by
      rw [hb]
      simp
    rw [Option.elim_some, happ, List.getLast?_concat]
    constructor
    · intro hall
      exact absurd (hall '}' rfl) (by decide)
    · intro hnone
      cases hnone

theorem emit_inv (h : s.emit F a stop = some s') : ∃ sink,
    s.sink = some sink ∧ a.eventId ∉ s.ids ∧ s'.ids = a.eventId :: s.ids ∧
    ((a.attributes = none ∧ s'.file = s.file ∧ s'.returned = s.returned ∧
        s'.written = s.written) ∨
      ∃ attributes, a.attributes = some attributes ∧
        s'.returned = s.returned ++
          (if stop = none then [a.event attributes sink.seq] else []) ∧
        ((sink.isOpen = false ∧ s'.file = s.file ∧ s'.written = s.written) ∨
          ∃ n, sink.isOpen = true ∧
            n = stop.getD (line F (a.event attributes sink.seq)).length ∧
            s'.file = some (s.file.getD [] ++
              (line F (a.event attributes sink.seq)).take n) ∧
            s'.written =
              if (text F (a.event attributes sink.seq)).length ≤ n then
                s.written ++ [a.event attributes sink.seq]
              else s.written)) := by
  unfold State.emit at h
  cases hsink : s.sink with
  | none =>
    rw [hsink] at h
    cases h
  | some sink =>
    rw [hsink] at h
    dsimp only at h
    by_cases hid : a.eventId ∈ s.ids
    · rw [if_pos hid] at h
      cases h
    rw [if_neg hid] at h
    refine ⟨sink, rfl, hid, ?_⟩
    cases hattr : a.attributes with
    | none =>
      rw [hattr] at h
      obtain rfl := Option.some.inj h
      exact ⟨rfl, Or.inl ⟨rfl, rfl, rfl, rfl⟩⟩
    | some attributes =>
      rw [hattr] at h
      cases stop with
      | some stop =>
        dsimp only at h
        obtain rfl := Option.some.inj h
        cases hopen : sink.isOpen with
        | true =>
          refine ⟨rfl, Or.inr ⟨attributes, rfl, ?_, Or.inr ⟨stop, rfl,
            rfl, rfl, rfl⟩⟩⟩
          simp [State.wrote]
        | false =>
          refine ⟨rfl, Or.inr ⟨attributes, rfl, ?_, Or.inl ⟨rfl, rfl,
            rfl⟩⟩⟩
          simp
      | none =>
        dsimp only at h
        obtain rfl := Option.some.inj h
        cases hopen : sink.isOpen with
        | true =>
          exact ⟨rfl, Or.inr ⟨attributes, rfl, rfl, Or.inr ⟨_, rfl, rfl,
            rfl, rfl⟩⟩⟩
        | false =>
          exact ⟨rfl, Or.inr ⟨attributes, rfl, rfl, Or.inl ⟨rfl, rfl,
            rfl⟩⟩⟩

theorem shape_grow {done : List (Event φ)} {last : Option (Event φ)}
    (h : Shape F s.file done last) (hwritten : s.written = done ++ last.toList)
    (hfin : Finished s) {e : Event φ} {n : Nat}
    (hn : (text F e).length ≤ n) : ∃ done' last',
      Shape F (some (s.file.getD [] ++ (line F e).take n)) done' last' ∧
        s.written ++ [e] = done' ++ last'.toList := by
  obtain rfl := (finished_iff h).1 hfin
  have hfile := h.eq
  rw [Option.elim_none, List.append_nil] at hfile
  rw [Option.toList_none, List.append_nil] at hwritten
  rcases Nat.eq_or_lt_of_le hn with rfl | hlt
  · refine ⟨done, some e, ⟨?_⟩, by rw [hwritten]; rfl⟩
    rw [Option.getD_some, hfile, line, List.take_left]
    rfl
  · refine ⟨done ++ [e], none, ⟨?_⟩, by rw [hwritten]; simp⟩
    rw [Option.getD_some, hfile, List.take_of_length_le (by
      rw [line, List.length_append, List.length_singleton]
      omega)]
    simp

theorem Kept.grow (h : Kept F s) {sink : EventSink}
    {attributes : List (String × Json φ)} {n : Nat} (hfin : Finished s)
    (hpast : Past s sink)
    (hn : (text F (a.event attributes sink.seq)).length ≤ n)
    (hfile : s'.file = some (s.file.getD [] ++
      (line F (a.event attributes sink.seq)).take n))
    (hwritten : s'.written = s.written ++ [a.event attributes sink.seq])
    (hids : s'.ids = a.eventId :: s.ids)
    (hreturned : s'.returned.Sublist s'.written) : Kept F s' := by
  obtain ⟨done, last, hshape, hdone⟩ := h.shape
  obtain ⟨done', last', hshape', hdone'⟩ := shape_grow hshape hdone hfin hn
  refine ⟨⟨done', last', ?_, ?_⟩, hreturned, ?_, ?_, ?_⟩
  · rw [hfile]
    exact hshape'
  · rw [hwritten]
    exact hdone'
  · rw [hwritten, List.pairwise_append]
    refine ⟨h.order, List.pairwise_singleton _ _, ?_⟩
    intro e he e' he'
    obtain rfl := List.mem_singleton.1 he'
    obtain ⟨m, hm⟩ := h.numbered e he
    exact ⟨m, sink.seq, hm, rfl, hpast e he m hm⟩
  · intro e he
    rw [hwritten, List.mem_append] at he
    rw [hids]
    rcases he with he | he
    · obtain ⟨id, hid, heq⟩ := h.ids e he
      exact ⟨id, List.mem_cons_of_mem _ hid, heq⟩
    · obtain rfl := List.mem_singleton.1 he
      exact ⟨a.eventId, List.mem_cons_self, rfl⟩
  · intro e he
    rw [hwritten, List.mem_append] at he
    rcases he with he | he
    · exact h.numbered e he
    · obtain rfl := List.mem_singleton.1 he
      exact ⟨sink.seq, rfl⟩

theorem Kept.same (h : Kept F s) (hfile : s'.file.getD [] = s.file.getD [])
    (hwritten : s'.written = s.written) (hreturned : s'.returned = s.returned)
    (hids : ∀ id ∈ s.ids, id ∈ s'.ids) : Kept F s' := by
  obtain ⟨done, last, hshape, hdone⟩ := h.shape
  refine ⟨⟨done, last, ⟨hfile.trans hshape.eq⟩, hwritten.trans hdone⟩,
    ?_, ?_, ?_, ?_⟩
  · rw [hreturned, hwritten]
    exact h.returned
  · rw [hwritten]
    exact h.order
  · intro e he
    rw [hwritten] at he
    obtain ⟨id, hid, heq⟩ := h.ids e he
    exact ⟨id, hids id hid, heq⟩
  · intro e he
    rw [hwritten] at he
    exact h.numbered e he

theorem length_line (e : Event φ) :
    (line F e).length = (text F e).length + 1 := by
  rw [line, List.length_append, List.length_singleton]

theorem Kept.step (h : Kept F s) {act : Act φ} (hmeets : Meets F s act)
    (hstep : s.step F act = some s') : Kept F s' := by
  cases act with
  | start =>
    obtain rfl := Option.some.inj hstep
    exact h.same rfl rfl rfl fun _ hid => hid
  | close =>
    obtain rfl := Option.some.inj hstep
    exact h.same rfl rfl rfl fun _ hid => hid
  | kill =>
    obtain rfl := Option.some.inj hstep
    exact h.same rfl rfl rfl fun _ hid => hid
  | emit a =>
    obtain ⟨sink, hsink, _, hids, hcase⟩ := emit_inv hstep
    have hmore : ∀ id ∈ s.ids, id ∈ s'.ids := fun id hid => by
      rw [hids]
      exact List.mem_cons_of_mem _ hid
    rcases hcase with ⟨_, hfile, hret, hwritten⟩ |
      ⟨attributes, hattr, hret, hcase⟩
    · exact h.same (by rw [hfile]) hwritten hret hmore
    · obtain ⟨hopen, hfin, hpast⟩ := hmeets sink attributes hsink hattr
      rcases hcase with ⟨hclosed, _⟩ | ⟨n, _, rfl, hfile, hwritten⟩
      · rw [hopen] at hclosed
        cases hclosed
      · have hn : (text F (a.event attributes sink.seq)).length ≤
            (line F (a.event attributes sink.seq)).length := by
          rw [length_line]
          omega
        rw [Option.getD_none, if_pos hn] at hwritten
        rw [Option.getD_none] at hfile
        refine h.grow hfin hpast hn hfile hwritten hids ?_
        rw [hret, hwritten, if_pos rfl]
        exact h.returned.append (List.Sublist.refl _)
  | die a stop =>
    obtain ⟨sink, hsink, _, hids, hcase⟩ := emit_inv hstep
    have hmore : ∀ id ∈ s.ids, id ∈ s'.ids := fun id hid => by
      rw [hids]
      exact List.mem_cons_of_mem _ hid
    rcases hcase with ⟨_, hfile, hret, hwritten⟩ |
      ⟨attributes, hattr, hret, hcase⟩
    · exact h.same (by rw [hfile]) hwritten hret hmore
    · rw [if_neg (by simp), List.append_nil] at hret
      rcases hcase with ⟨_, hfile, hwritten⟩ |
        ⟨n, hopen, hstop, hfile, hwritten⟩
      · exact h.same (by rw [hfile]) hwritten hret hmore
      · rw [hstop, Option.getD_some] at hfile hwritten
        by_cases hstop : stop = 0
        · subst hstop
          have hpos : (text F (a.event attributes sink.seq)).length ≠ 0 :=
            fun h0 => text_ne_nil _ (List.eq_nil_of_length_eq_zero h0)
          rw [if_neg (by omega)] at hwritten
          rw [List.take_zero, List.append_nil] at hfile
          exact h.same (by rw [hfile]; rfl) hwritten hret hmore
        · obtain ⟨hn, hfin, hpast⟩ :=
            hmeets sink attributes hsink hattr hopen hstop
          rw [if_pos hn] at hwritten
          refine h.grow hfin hpast hn hfile hwritten hids ?_
          rw [hret, hwritten]
          exact h.returned.trans (List.sublist_append_left _ _)

theorem Kept.breaks_write (h : Kept F s) {sink : EventSink}
    {attributes : List (String × Json φ)} {n : Nat} (hpos : n ≠ 0)
    (hfile : s'.file = some (s.file.getD [] ++
      (line F (a.event attributes sink.seq)).take n))
    (hmeets : ¬ ((text F (a.event attributes sink.seq)).length ≤ n ∧
      Finished s ∧ Past s sink)) : ¬ Recovered F s' := by
  intro ⟨es, hread, _, horder⟩
  obtain ⟨done, last, hshape, hdone⟩ := h.shape
  by_cases hfin : Finished s
  · by_cases hlen : (text F (a.event attributes sink.seq)).length ≤ n
    · -- a whole event whose number is not past the others
      obtain ⟨done', last', hshape', hdone'⟩ :=
        shape_grow hshape hdone hfin hlen
      rw [hfile, read_shape hshape', ← hdone'] at hread
      obtain rfl := Except.ok.inj hread
      refine hmeets ⟨hlen, hfin, fun e he m hm => ?_⟩
      obtain ⟨_, _, hbefore⟩ := List.pairwise_append.1 horder
      obtain ⟨m', n', hm', hn', hlt⟩ :=
        hbefore e he _ (List.mem_singleton.2 rfl)
      rw [hm] at hm'
      obtain rfl := Json.int.inj hm'
      obtain rfl := Json.int.inj hn'
      exact hlt
    · -- a text that is cut short
      obtain rfl := (finished_iff hshape).1 hfin
      have hcut : s'.file.getD [] = done.flatMap (line F) ++
          (text F (a.event attributes sink.seq)).take n := by
        rw [hfile, Option.getD_some, hshape.eq, Option.elim_none,
          List.append_nil, line, List.take_append_of_le_length (by omega)]
      rw [read_cut hcut (by omega) hpos] at hread
      cases hread
  · -- two texts on one line
    cases last with
    | none => exact hfin ((finished_iff hshape).2 rfl)
    | some e =>
      have hmerged : s'.file.getD [] = done.flatMap (line F) ++
          (text F e ++ (line F (a.event attributes sink.seq)).take n) := by
        rw [hfile, Option.getD_some, hshape.eq, Option.elim_some,
          List.append_assoc]
      rw [read_merged hmerged hpos] at hread
      cases hread

/-- A step that does not meet the condition breaks the file. -/
theorem Kept.breaks (h : Kept F s) {act : Act φ} (hmeets : ¬ Meets F s act)
    (hstep : s.step F act = some s') : ¬ Recovered F s' := by
  cases act with
  | start => exact absurd trivial hmeets
  | close => exact absurd trivial hmeets
  | kill => exact absurd trivial hmeets
  | emit a =>
    obtain ⟨sink, hsink, hfresh, _, hcase⟩ := emit_inv hstep
    simp only [Meets, hsink, Option.some.injEq] at hmeets
    push Not at hmeets
    obtain ⟨sink', attributes, rfl, hattr, hmeets⟩ := hmeets
    rcases hcase with ⟨hnone, _⟩ | ⟨attributes', hattr', hret, hcase⟩
    · rw [hnone] at hattr
      cases hattr
    rw [hattr] at hattr'
    obtain rfl := Option.some.inj hattr'
    rcases hcase with ⟨_, hfile, _⟩ | ⟨n, hopen, hn, hfile, _⟩
    · -- the event of a closed sink is not in the file
      intro ⟨es, hread, hsub, _⟩
      obtain ⟨done, last, hshape, hdone⟩ := h.shape
      rw [hfile, read_shape hshape, ← hdone] at hread
      obtain rfl := Except.ok.inj hread
      rw [hret, if_pos rfl] at hsub
      have hmem : a.event attributes sink.seq ∈ s.written :=
        hsub.subset (List.mem_append_right _ (List.mem_singleton.2 rfl))
      obtain ⟨id, hid, heq⟩ := h.ids _ hmem
      obtain rfl := Json.str.inj heq
      exact hfresh hid
    · rw [Option.getD_none, length_line] at hn
      refine h.breaks_write (by omega) hfile ?_
      intro ⟨_, hfin, hpast⟩
      exact hmeets hopen hfin hpast
  | die a stop =>
    obtain ⟨sink, hsink, _, _, hcase⟩ := emit_inv hstep
    simp only [Meets, hsink, Option.some.injEq] at hmeets
    push Not at hmeets
    obtain ⟨sink', attributes, rfl, hattr, hopen, hpos, hmeets⟩ := hmeets
    rcases hcase with ⟨hnone, _⟩ | ⟨attributes', hattr', hret, hcase⟩
    · rw [hnone] at hattr
      cases hattr
    rw [hattr] at hattr'
    obtain rfl := Option.some.inj hattr'
    rcases hcase with ⟨hclosed, _⟩ | ⟨n, _, hn, hfile, _⟩
    · rw [hopen] at hclosed
      cases hclosed
    · rw [Option.getD_some] at hn
      subst hn
      refine h.breaks_write hpos hfile ?_
      intro ⟨hlen, hfin, hpast⟩
      exact hmeets hlen hfin hpast

-- ==== runs

variable (F) in
/-- The property holds of a state and of those that a run goes through
from there. -/
def Always (P : State φ → Prop) : State φ → List (Act φ) → Prop
  | s, [] => P s
  | s, act :: acts => P s ∧ ∀ s', s.step F act = some s' → Always P s' acts

variable (F) in
/-- Every step of a run meets the condition. -/
def Careful : State φ → List (Act φ) → Prop
  | _, [] => True
  | s, act :: acts =>
    ∀ s', s.step F act = some s' → Meets F s act ∧ Careful s' acts

theorem Kept.always_iff (acts : List (Act φ)) : ∀ {s : State φ}, Kept F s →
    (Always F (Recovered F) s acts ↔ Careful F s acts) := by
  induction acts with
  | nil => exact fun h => ⟨fun _ => trivial, fun _ => h.recovered⟩
  | cons act acts ih =>
    intro s h
    rw [Always, Careful]
    constructor
    · intro ⟨_, hrest⟩ s' hstep
      have hmeets : Meets F s act := by
        by_contra hmeets
        refine h.breaks hmeets hstep ?_
        cases acts with
        | nil => exact hrest s' hstep
        | cons _ _ => exact (hrest s' hstep).1
      exact ⟨hmeets, (ih (h.step hmeets hstep)).1 (hrest s' hstep)⟩
    · intro hcareful
      refine ⟨h.recovered, fun s' hstep => ?_⟩
      obtain ⟨hmeets, hrest⟩ := hcareful s' hstep
      exact (ih (h.step hmeets hstep)).2 hrest

/-- The file can be recovered after each step of a run exactly if every
step of the run meets the condition. -/
theorem events_recovered (acts : List (Act φ)) :
    Always F (Recovered F) State.init acts ↔ Careful F State.init acts :=
  kept_init.always_iff acts

/-- Two processes, one after the other, that each emit an event. -/
def restarted : List (Act Rat) :=
  [.start,
    .emit { kind := "custom", name := "a", eventId := "a", timestampNs := 0 },
    .kill, .start,
    .emit { kind := "custom", name := "b", eventId := "b", timestampNs := 1 }]

set_option maxRecDepth 8000 in
/-- The second process counts from 1 again. -/
theorem restarted_repeats : ¬ ∀ (φ : Type) (F : FloatText φ)
    (acts : List (Act φ)), Always F (Recovered F) State.init acts := by
  intro h
  have hcareful := (kept_init.always_iff restarted).1
    (h _ Json.rationalText restarted)
  obtain ⟨_, h1⟩ := hcareful _ rfl
  obtain ⟨_, h2⟩ := h1 _ rfl
  obtain ⟨_, h3⟩ := h2 _ rfl
  obtain ⟨_, h4⟩ := h3 _ rfl
  obtain ⟨hmeets, _⟩ := h4 _ rfl
  obtain ⟨_, _, hpast⟩ := hmeets _ _ rfl rfl
  exact absurd (hpast _ (List.mem_singleton.2 rfl) 1 rfl) (by decide)

end SdlcOs.Observability
