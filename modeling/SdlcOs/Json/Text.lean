/-
JSON values and the text a pretty-printer gives them.

# The printer

`dumps` is the printer of Python's `json.dumps(value, indent=2)`: two
spaces a level, `": "` after a key, an empty container on one line, and
every character outside printable ASCII escaped, beyond the basic plane
as a surrogate pair.

# Numbers

An integer is printed as its decimal numeral. What is printed for a float
is the platform's affair: `FloatText` is a printer and a reader of floats
with what they promise each other, that the reader takes back what was
printed, and that what is printed is a JSON number that is no integer.
-/
import Mathlib.Data.List.Basic

namespace SdlcOs.Json

/-- A JSON value. An object is the list of its members in order. -/
inductive Json (φ : Type) : Type where
  | null
  | bool (b : Bool)
  | int (n : Int)
  | float (x : φ)
  | str (s : String)
  | arr (items : List (Json φ))
  | obj (members : List (String × Json φ))

-- ==== numbers

/-- The characters a number is made of. -/
def isNumeral (c : Char) : Bool :=
  c.isDigit || c = '-' || c = '+' || c = '.' || c = 'e' || c = 'E'

/-- The decimal numeral of an integer. -/
def intText : Int → List Char
  | .ofNat n => Nat.toDigits 10 n
  | .negSucc n => '-' :: Nat.toDigits 10 (n + 1)

/-- `0|[1-9]\d*`: the digits are the numeral of the number they spell. -/
def isNatText (ds : List Char) : Bool :=
  ds.all Char.isDigit && Nat.toDigits 10 (Nat.ofDigitChars 10 ds 0) = ds

/-- `-?(0|[1-9]\d*)`, read. -/
def readInt : List Char → Option Int
  | '-' :: ds =>
    if isNatText ds then some (-(Nat.ofDigitChars 10 ds 0 : Int)) else none
  | ds => if isNatText ds then some (Nat.ofDigitChars 10 ds 0 : Int) else none

/-- `[eE][-+]?\d+`. -/
def isExponent : List Char → Bool
  | e :: s =>
    let ds := match s with
      | '-' :: s => s
      | '+' :: s => s
      | s => s
    (e = 'e' || e = 'E') && ds ≠ [] && ds.all Char.isDigit
  | [] => false

/-- `(\.\d+)?([eE][-+]?\d+)?`, one of them at least. -/
def isFraction : List Char → Bool
  | '.' :: s =>
    s.takeWhile Char.isDigit ≠ [] &&
      (s.dropWhile Char.isDigit = [] || isExponent (s.dropWhile Char.isDigit))
  | s => isExponent s

/-- A number with a fraction or an exponent. -/
def isFloatText : List Char → Bool
  | '-' :: s => isNatText (s.takeWhile Char.isDigit) &&
      isFraction (s.dropWhile Char.isDigit)
  | s => isNatText (s.takeWhile Char.isDigit) &&
      isFraction (s.dropWhile Char.isDigit)

/-- A printer and a reader of floats. -/
structure FloatText (φ : Type) where
  repr : φ → List Char
  read : List Char → Option φ
  repr_numeral : ∀ x, ∀ c ∈ repr x, isNumeral c = true
  repr_float : ∀ x, isFloatText (repr x) = true
  read_repr : ∀ x, read (repr x) = some x

-- ==== strings

/-- `'\\u{0:04x}'`. -/
def unicodeEscape (n : Nat) : List Char :=
  ['\\', 'u', Nat.digitChar (n / 4096 % 16), Nat.digitChar (n / 256 % 16),
    Nat.digitChar (n / 16 % 16), Nat.digitChar (n % 16)]

/-- One character of a string: itself, its short escape, or its code
units. -/
def escapeChar (c : Char) : List Char :=
  if c = '"' then ['\\', '"']
  else if c = '\\' then ['\\', '\\']
  else if c = '\n' then ['\\', 'n']
  else if c = '\r' then ['\\', 'r']
  else if c = '\t' then ['\\', 't']
  else if c = '\x0c' then ['\\', 'f']
  else if c = '\x08' then ['\\', 'b']
  else if ' ' ≤ c ∧ c ≤ '~' then [c]
  else if c.toNat < 0x10000 then unicodeEscape c.toNat
  else
    let n := c.toNat - 0x10000
    unicodeEscape (0xd800 + n / 0x400) ++ unicodeEscape (0xdc00 + n % 0x400)

/-- A string between its quotes. -/
def strText (s : String) : List Char :=
  '"' :: (s.toList.flatMap escapeChar ++ ['"'])

-- ==== values

/-- A line break and the indentation of a level. -/
def newline (level : Nat) : List Char :=
  '\n' :: List.replicate (2 * level) ' '

variable {φ : Type} (F : FloatText φ)

mutual

/-- A value printed at a level of indentation. -/
def text (level : Nat) : Json φ → List Char
  | .null => ['n', 'u', 'l', 'l']
  | .bool true => ['t', 'r', 'u', 'e']
  | .bool false => ['f', 'a', 'l', 's', 'e']
  | .int n => intText n
  | .float x => F.repr x
  | .str s => strText s
  | .arr [] => ['[', ']']
  | .arr (v :: vs) =>
    '[' :: (newline (level + 1) ++ (text (level + 1) v ++
      itemsText (level + 1) vs)) ++ (newline level ++ [']'])
  | .obj [] => ['{', '}']
  | .obj ((k, v) :: ms) =>
    '{' :: (newline (level + 1) ++ (strText k ++ (':' :: ' ' ::
      (text (level + 1) v ++ membersText (level + 1) ms)))) ++
      (newline level ++ ['}'])

/-- The items of an array after its first. -/
def itemsText (level : Nat) : List (Json φ) → List Char
  | [] => []
  | v :: vs =>
    ',' :: (newline level ++ (text level v ++ itemsText level vs))

/-- The members of an object after its first. -/
def membersText (level : Nat) : List (String × Json φ) → List Char
  | [] => []
  | (k, v) :: ms =>
    ',' :: (newline level ++ (strText k ++ (':' :: ' ' ::
      (text level v ++ membersText level ms))))

end

/-- `json.dumps(value, indent=2)`. -/
def dumps (v : Json φ) : List Char := text F 0 v

end SdlcOs.Json
