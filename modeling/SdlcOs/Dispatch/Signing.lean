/-
Signed webhook requests (issue_tracker/webhook_signing.py).

# The platform

`str.lower` and the decimal digits beyond ASCII are tables of the
platform; all that is said of them is what `lower` does to ASCII and that
a digit is less than ten. `int` of a text is `PyLong_FromUnicodeObject`:
an ASCII text is read as it is, in any other the wide spaces become
blanks and the wide digits plain ones.

A clock shows a finite float, which stands for the rational it is. A
timestamp that is subtracted from it is rounded to a float first, and the
difference once more; a timestamp that rounds beyond the largest float
raises, and a difference that does is infinite.

# The signature

`Mac` is the keyed hash with its hexadecimal form. An idealised one
(`IdealMac`) has one secret and one message for each signature.
-/
import Mathlib.Algebra.Order.Ring.Rat
import Mathlib.Algebra.Order.Group.Unbundled.Abs
import Mathlib.Data.String.Basic
import SdlcOs.Data.Binary64
import SdlcOs.Data.Dict

namespace SdlcOs.Dispatch

open Data (Binary Dict nearest)

-- ==== strings

/-- `bytes`. -/
abbrev Bytes : Type := List UInt8

/-- The exceptions the intake meets. -/
inductive PyError : Type where
  | unicodeEncodeError
  | overflowError
  | valueError
  | typeError
  | attributeError
  | assertionError
  deriving DecidableEq, Repr

/-- `str.isascii`. -/
def isAscii (s : String) : Bool := s.toList.all fun c => c.toNat < 128

/-- The lower case of an ASCII text. -/
def asciiLower (s : String) : String := .ofList (s.toList.map Char.toLower)

/-- The platform's character tables. -/
structure Platform where
  lower : String → String
  lower_ascii : ∀ s, isAscii s = true → lower s = asciiLower s
  decimal : Char → Option Nat
  decimal_lt : ∀ c d, decimal c = some d → d < 10

theorem asciiLower_agrees (s : String) (_ : isAscii s = true) :
    asciiLower s = asciiLower s := rfl

theorem no_decimal (c : Char) (d : Nat)
    (h : (fun _ : Char => (none : Option Nat)) c = some d) : d < 10 := by
  cases h

/-- `str.encode("ascii")`. -/
def encodeAscii (s : String) : Except PyError Bytes :=
  if isAscii s then .ok (s.toList.map fun c => UInt8.ofNat c.toNat)
  else .error .unicodeEncodeError

-- ==== integers

/-- The blanks of ASCII. -/
def isBlank (c : Char) : Bool :=
  c = ' ' || (9 ≤ c.toNat && c.toNat ≤ 13)

/-- The spaces beyond ASCII. -/
def isWideSpace (c : Char) : Bool :=
  let n := c.toNat
  n = 0x85 || n = 0xa0 || n = 0x1680 || (0x2000 ≤ n && n ≤ 0x200a) ||
    n = 0x2028 || n = 0x2029 || n = 0x202f || n = 0x205f || n = 0x3000

/-- A character as `int` takes it. -/
def narrowChar (P : Platform) (c : Char) : Char :=
  if c.toNat < 127 then c
  else if isWideSpace c then ' '
  else match P.decimal c with
    | some d => d.digitChar
    | none => '?'

/-- A text as `int` takes it. -/
def narrow (P : Platform) (s : String) : List Char :=
  if isAscii s then s.toList else s.toList.map (narrowChar P)

/-- Digits, with single underscores between them. -/
def isNumeral : List Char → Bool
  | [] => false
  | [c] => c.isDigit
  | c :: '_' :: s => c.isDigit && isNumeral s
  | c :: s => c.isDigit && isNumeral s

/-- How many digits a numeral may have. -/
def maxStrDigits : Nat := 4300

/-- The natural number a text of digits, underscores and blanks after
them spells. -/
def readNat (s : List Char) : Option Nat :=
  let body := s.takeWhile fun c => c.isDigit || c = '_'
  let rest := s.dropWhile fun c => c.isDigit || c = '_'
  let digits := body.filter Char.isDigit
  if isNumeral body && rest.all isBlank && digits.length ≤ maxStrDigits then
    some (Nat.ofDigitChars 10 digits 0)
  else none

/-- `int(s)`, or `none` for its `ValueError`. -/
def pyInt (P : Platform) (s : String) : Option Int :=
  match (narrow P s).dropWhile isBlank with
  | '-' :: s => (readNat s).map fun n : Nat => -(n : Int)
  | '+' :: s => (readNat s).map Int.ofNat
  | s => (readNat s).map Int.ofNat

/-- `str(n)` of an integer. -/
def pyStr (n : Int) : Except PyError String :=
  let digits := Nat.toDigits 10 n.natAbs
  if maxStrDigits < digits.length then .error .valueError
  else .ok (.ofList (if n < 0 then '-' :: digits else digits))

-- ==== clocks

/-- The largest finite float. -/
def maxFloat : ℚ := 2 ^ 1024 - 2 ^ 971

/-- A finite float. -/
structure Float64 where
  val : ℚ
  binary : Binary val
  bounded : |val| ≤ maxFloat

/-- `int(x)`: towards zero. -/
def Float64.toInt (x : Float64) : Int := x.val.num.tdiv x.val.den

/-- An integer no float is near. -/
def roundsToInfinity (n : Int) : Bool := 2 ^ 1024 - 2 ^ 970 ≤ n.natAbs

/-- `now - n`; `none` is an infinity. -/
def Float64.minusInt (now : Float64) (n : Int) : Except PyError (Option ℚ) :=
  if roundsToInfinity n then .error .overflowError
  else
    let difference := nearest (now.val - nearest n)
    .ok (if |difference| < 2 ^ 1024 then some difference else none)

/-- `abs(difference) > window`. -/
def exceeds (window : Int) : Option ℚ → Bool
  | none => true
  | some difference => (window : ℚ) < |difference|

-- ==== signing

/-- `REPLAY_WINDOW_SECONDS`. -/
def replayWindowSeconds : Int := 300

/-- `HEADER_TENANT_ID`. -/
def headerTenantId : String := "X-SDLC-Tenant-Id"

/-- `HEADER_TIMESTAMP`. -/
def headerTimestamp : String := "X-SDLC-Timestamp"

/-- `HEADER_SIGNATURE`. -/
def headerSignature : String := "X-SDLC-Signature"

/-- `hmac.new(secret, message, sha256).hexdigest()`. -/
structure Mac where
  hexdigest : Bytes → Bytes → String
  ascii : ∀ secret message, isAscii (hexdigest secret message) = true
  ne_empty : ∀ secret message, hexdigest secret message ≠ ""

/-- A hash that no two secrets or messages share a value of. -/
structure IdealMac extends Mac where
  injective : Function.Injective2 hexdigest

/-- `_canonical_message`. -/
def canonicalMessage (timestamp : String) (body : Bytes) :
    Except PyError Bytes :=
  match encodeAscii timestamp with
  | .error e => .error e
  | .ok ts => .ok (ts ++ [46] ++ body)

/-- `compute_signature`. -/
def computeSignature (mac : Mac) (secret : Bytes) (timestamp : String)
    (body : Bytes) : Except PyError String :=
  match canonicalMessage timestamp body with
  | .error e => .error e
  | .ok message => .ok (mac.hexdigest secret message)

/-- `sign_request`. -/
def signRequest (mac : Mac) (tenantId : String) (secret body : Bytes)
    (now : Float64) : Except PyError (Dict String String) :=
  match pyStr now.toInt with
  | .error e => .error e
  | .ok timestamp =>
    match computeSignature mac secret timestamp body with
    | .error e => .error e
    | .ok signature =>
      .ok (((Dict.empty.set headerTenantId tenantId).set headerTimestamp
        timestamp).set headerSignature signature)

-- ==== verifying

/-- `RejectReason`. -/
inductive RejectReason : Type where
  | missingTenantId
  | missingTimestamp
  | missingSignature
  | malformedTimestamp
  | staleTimestamp
  | unknownTenant
  | signatureMismatch
  deriving DecidableEq, Repr

/-- What the detail of a stale timestamp names. -/
structure StaleDetail where
  tsValue : Int
  window : Int
  now : Float64

/-- `VerifyResult`. -/
structure VerifyResult where
  ok : Bool
  tenantId : Option String
  rejectReason : Option RejectReason
  detail : Option StaleDetail

/-- A rejection. -/
def rejected (tenantId : Option String) (reason : RejectReason)
    (detail : Option StaleDetail) : VerifyResult :=
  ⟨false, tenantId, some reason, detail⟩

/-- `{k.lower(): v for k, v in headers.items()}`. -/
def normalized (P : Platform) (headers : Dict String String) :
    Dict String String :=
  headers.entries.foldl (fun d e => d.set (P.lower e.1) e.2) .empty

/-- A header's value, if there is one and it is not empty. -/
def header (P : Platform) (headers : Dict String String) (name : String) :
    Option String :=
  ((normalized P headers).get (P.lower name)).filter (· ≠ "")

/-- `hmac.compare_digest` of two strings. -/
def compareDigest (a b : String) : Except PyError Bool :=
  if isAscii a && isAscii b then .ok (a = b) else .error .typeError

/-- `verify_request` from the lookup of the secret on. -/
def verifySignature (mac : Mac) (tenantId timestamp signature : String)
    (body : Bytes) (secretLookup : String → Option Bytes) :
    Except PyError VerifyResult :=
  match secretLookup tenantId with
  | none => .ok (rejected (some tenantId) .unknownTenant none)
  | some secret =>
    match computeSignature mac secret timestamp body with
    | .error e => .error e
    | .ok expected =>
      match compareDigest expected signature with
      | .error e => .error e
      | .ok false => .ok (rejected (some tenantId) .signatureMismatch none)
      | .ok true => .ok ⟨true, some tenantId, none, none⟩

/-- `verify_request`. -/
def verifyRequest (P : Platform) (mac : Mac) (headers : Dict String String)
    (body : Bytes) (secretLookup : String → Option Bytes) (now : Float64)
    (window : Int) : Except PyError VerifyResult :=
  match header P headers headerTenantId with
  | none => .ok (rejected none .missingTenantId none)
  | some tenantId =>
    match header P headers headerTimestamp with
    | none => .ok (rejected (some tenantId) .missingTimestamp none)
    | some timestamp =>
      match header P headers headerSignature with
      | none => .ok (rejected (some tenantId) .missingSignature none)
      | some signature =>
        match pyInt P timestamp with
        | none =>
          .ok (rejected (some tenantId) .malformedTimestamp none)
        | some tsValue =>
          match now.minusInt tsValue with
          | .error e => .error e
          | .ok age =>
            if exceeds window age then
              .ok (rejected (some tenantId) .staleTimestamp
                (some ⟨tsValue, window, now⟩))
            else
              verifySignature mac tenantId timestamp signature body
                secretLookup

end SdlcOs.Dispatch
