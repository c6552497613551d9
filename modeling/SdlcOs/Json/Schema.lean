/-
JSON schemas, as the sets of the values that conform to them.

An object may have members that its schema does not name; those it names
and does not require may be absent. A number with no fraction is an
integer also where it is written as a float.
-/
import SdlcOs.Json.Text

namespace SdlcOs.Json

variable {φ : Type}

-- ==== members

/-- A member of an object. -/
def find (key : String) (members : List (String × Json φ)) :
    Option (Json φ) :=
  (members.find? fun m => m.1 = key).map Prod.snd

/-- A member of a value, if it is an object. -/
def Json.field (key : String) : Json φ → Option (Json φ)
  | .obj members => find key members
  | _ => none

@[simp] theorem field_obj {key : String}
    {members : List (String × Json φ)} :
    (Json.obj members).field key = find key members := rfl

-- ==== numbers

/-- What a float is cut down to. -/
inductive Truncated : Type where
  | nan
  | infinite
  | whole (n : Int)
  | fraction (n : Int)
  deriving DecidableEq, Repr

/-- What is known of a float: whether it is zero, and what is left of it
without its fraction. -/
structure Floats (φ : Type) where
  isZero : φ → Bool
  truncate : φ → Truncated

/-- The value is this integer. -/
def Floats.Integer (F : Floats φ) (v : Json φ) (n : Int) : Prop :=
  v = .int n ∨ ∃ x, v = .float x ∧ F.truncate x = .whole n

-- ==== schemas

/-- A schema: the values that conform to it. -/
def Schema (φ : Type) : Type := Json φ → Prop

namespace Schema

/-- `"type": "string"`. -/
def string : Schema φ := fun v => ∃ s, v = .str s

/-- `"type": "string"` with an `enum`. -/
def enum (values : List String) : Schema φ := fun v =>
  ∃ s ∈ values, v = .str s

/-- `"type": "boolean"`. -/
def boolean : Schema φ := fun v => ∃ b, v = .bool b

/-- `"type": "integer"`. -/
def integer (F : Floats φ) : Schema φ := fun v => ∃ n, F.Integer v n

/-- `"type": [..., "null"]`. -/
def nullable (S : Schema φ) : Schema φ := fun v => v = .null ∨ S v

/-- `"type": "array"`. -/
def array (S : Schema φ) : Schema φ := fun v =>
  ∃ items, v = .arr items ∧ ∀ item ∈ items, S item

/-- `"type": "object"`. -/
def object (properties : List (String × Schema φ))
    (required : List String) : Schema φ := fun v =>
  ∃ members, v = .obj members ∧
    (∀ key ∈ required, ∃ w, find key members = some w) ∧
    ∀ p ∈ properties, ∀ w, find p.1 members = some w → p.2 w

variable {S S' : Schema φ} {v w : Json φ} {key : String}
  {properties properties' : List (String × Schema φ)}
  {required required' : List String}

theorem array_mono (h : ∀ v, S v → S' v) (hv : array S v) : array S' v := by
  obtain ⟨items, rfl, hitems⟩ := hv
  exact ⟨items, rfl, fun item hitem => h item (hitems item hitem)⟩

/-- An object conforms to a schema that asks less of each member. -/
theorem object_mono
    (hprops : ∀ p ∈ properties', ∃ S, (p.1, S) ∈ properties ∧
      ∀ w, S w → p.2 w)
    (hreq : ∀ key ∈ required', key ∈ required)
    (hv : object properties required v) : object properties' required' v := by
  obtain ⟨members, rfl, hmembers, hschema⟩ := hv
  refine ⟨members, rfl, fun key hkey => hmembers key (hreq key hkey), ?_⟩
  intro p hp w hw
  obtain ⟨S, hS, himp⟩ := hprops p hp
  exact himp w (hschema _ hS w hw)

theorem field_required (key : String) (hv : object properties required v)
    (hkey : key ∈ required) : ∃ w, v.field key = some w := by
  obtain ⟨members, rfl, hmembers, _⟩ := hv
  exact hmembers key hkey

theorem field_schema (hv : object properties required v)
    (hp : (key, S) ∈ properties) (hw : v.field key = some w) : S w := by
  obtain ⟨members, rfl, _, hschema⟩ := hv
  exact hschema _ hp w hw

theorem object_of_field (h : v.field key = some w) :
    ∃ members, v = .obj members := by
  cases v with
  | obj members => exact ⟨members, rfl⟩
  | _ => cases h

theorem object_intro (hv : ∃ members, v = .obj members)
    (hreq : ∀ key ∈ required, ∃ w, v.field key = some w)
    (hprops : ∀ p ∈ properties, ∀ w, v.field p.1 = some w → p.2 w) :
    object properties required v := by
  obtain ⟨members, rfl⟩ := hv
  exact ⟨members, rfl, hreq, hprops⟩

end Schema

end SdlcOs.Json
