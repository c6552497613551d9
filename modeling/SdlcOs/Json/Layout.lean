/-
The layouts of `json.dumps`.

With an indentation or without one, the printer makes the same tokens and
differs in the white space after an opening bracket, after a comma, after
a colon and before a closing bracket. A `Layout` is that white space;
`Layout.text` is the printer that uses it. `indented` is the layout of
`dumps` (`indented_text`), `compact` the one of `json.dumps(value)`,
`packed` the one with `separators=(",", ":")`.
-/
import SdlcOs.Json.Parse

namespace SdlcOs.Json

/-- The white space of a printer, by the level of what it stands
before. -/
structure Layout where
  before : Nat → List Char
  between : Nat → List Char
  colon : List Char
  after : Nat → List Char
  spaces_before : ∀ level, ∀ c ∈ before level, isSpace c = true
  spaces_between : ∀ level, ∀ c ∈ between level, isSpace c = true
  spaces_colon : ∀ c ∈ colon, isSpace c = true
  spaces_after : ∀ level, ∀ c ∈ after level, isSpace c = true

theorem newline_spaces (level : Nat) :
    ∀ c ∈ newline level, isSpace c = true := by
  intro c hc
  rcases List.mem_cons.1 hc with rfl | hc
  · rfl
  · rw [List.eq_of_mem_replicate hc]
    rfl

/-- `indent=2`. -/
def indented : Layout where
  before := newline
  between := newline
  colon := [' ']
  after := newline
  spaces_before := newline_spaces
  spaces_between := newline_spaces
  spaces_colon := by simp [isSpace]
  spaces_after := newline_spaces

/-- No `indent`: a space after a comma. -/
def compact : Layout where
  before _ := []
  between _ := [' ']
  colon := [' ']
  after _ := []
  spaces_before := by simp
  spaces_between := by simp [isSpace]
  spaces_colon := by simp [isSpace]
  spaces_after := by simp

/-- `separators=(",", ":")`: no space at all. -/
def packed : Layout where
  before _ := []
  between _ := []
  colon := []
  after _ := []
  spaces_before := by simp
  spaces_between := by simp
  spaces_colon := by simp
  spaces_after := by simp

variable {φ : Type} (L : Layout) (F : FloatText φ)

namespace Layout

mutual

/-- A value printed at a level. -/
def text (level : Nat) : Json φ → List Char
  | .null => ['n', 'u', 'l', 'l']
  | .bool true => ['t', 'r', 'u', 'e']
  | .bool false => ['f', 'a', 'l', 's', 'e']
  | .int n => intText n
  | .float x => F.repr x
  | .str s => strText s
  | .arr [] => ['[', ']']
  | .arr (v :: vs) =>
    '[' :: (L.before (level + 1) ++ (text (level + 1) v ++
      itemsText (level + 1) vs)) ++ (L.after level ++ [']'])
  | .obj [] => ['{', '}']
  | .obj ((k, v) :: ms) =>
    '{' :: (L.before (level + 1) ++ (strText k ++ (':' ::
      (L.colon ++ (text (level + 1) v ++ membersText (level + 1) ms))))) ++
      (L.after level ++ ['}'])

/-- The items of an array after its first. -/
def itemsText (level : Nat) : List (Json φ) → List Char
  | [] => []
  | v :: vs =>
    ',' :: (L.between level ++ (text level v ++ itemsText level vs))

/-- The members of an object after its first. -/
def membersText (level : Nat) : List (String × Json φ) → List Char
  | [] => []
  | (k, v) :: ms =>
    ',' :: (L.between level ++ (strText k ++ (':' ::
      (L.colon ++ (text level v ++ membersText level ms)))))

end

/-- A value printed. -/
def dumps (v : Json φ) : List Char := L.text F 0 v

end Layout

mutual

theorem indented_text : ∀ (v : Json φ) (level : Nat),
    indented.text F level v = text F level v
  | .null, _ => by rw [Layout.text, text]
  | .bool true, _ => by rw [Layout.text, text]
  | .bool false, _ => by rw [Layout.text, text]
  | .int _, _ => by rw [Layout.text, text]
  | .float _, _ => by rw [Layout.text, text]
  | .str _, _ => by rw [Layout.text, text]
  | .arr [], _ => by rw [Layout.text, text]
  | .arr (v :: vs), level => by
    rw [Layout.text, text, indented_text v, indented_items vs]
    rfl
  | .obj [], _ => by rw [Layout.text, text]
  | .obj ((k, v) :: ms), level => by
    rw [Layout.text, text, indented_text v, indented_members ms]
    rfl

theorem indented_items : ∀ (vs : List (Json φ)) (level : Nat),
    indented.itemsText F level vs = itemsText F level vs
  | [], _ => by rw [Layout.itemsText, itemsText]
  | v :: vs, level => by
    rw [Layout.itemsText, itemsText, indented_text v, indented_items vs]
    rfl

theorem indented_members : ∀ (ms : List (String × Json φ)) (level : Nat),
    indented.membersText F level ms = membersText F level ms
  | [], _ => by rw [Layout.membersText, membersText]
  | (k, v) :: ms, level => by
    rw [Layout.membersText, membersText, indented_text v,
      indented_members ms]
    rfl

end

theorem indented_dumps (v : Json φ) : indented.dumps F v = dumps F v :=
  indented_text F v 0

end SdlcOs.Json
