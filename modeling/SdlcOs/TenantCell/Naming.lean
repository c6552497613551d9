/-
The names of a tenant's resources, in Python and in HCL.

# Texts

`lower` differs between the two only where a letter beyond ASCII becomes
an ASCII letter: U+0130 is `i` and a combining dot in Python and `i`
alone in HCL, U+212A is `k` in both. What every other character becomes
is no letter or digit of ASCII, and for one of ASCII itself (`Casing`).

A text is a list of Unicode characters. In HCL every string is kept in
its composed form (NFC), an input as well as the result of a function;
Python leaves its strings as they are.

# The digest

`sha256` is a parameter: the hash of a text's UTF-8 bytes, in hex.
-/
import SdlcOs.Data.Runs
import SdlcOs.Gates.Service

namespace SdlcOs.TenantCell.Naming

open Data.Runs (collapse trim)
open Gates (isSpace)

-- ==== texts

/-- `[a-z0-9]`. -/
def kept (c : Char) : Bool :=
  ('a'.toNat ≤ c.toNat && c.toNat ≤ 'z'.toNat) ||
    ('0'.toNat ≤ c.toNat && c.toNat ≤ '9'.toNat)

/-- A capital letter of ASCII. -/
def capital (c : Char) : Bool :=
  'A'.toNat ≤ c.toNat && c.toNat ≤ 'Z'.toNat

/-- A character of ASCII. -/
def isAscii (c : Char) : Bool := c.toNat < 128

/-- What the characters become that become no letter or digit of ASCII,
between what comes before and what comes after. -/
structure Casing where
  other : List Char → Char → List Char → List Char
  some : ∀ before c after, other before c after ≠ []
  not_kept : ∀ before c after, ∀ x ∈ other before c after, kept x = false
  ascii : ∀ before c after, isAscii c = true → kept c = false →
    other before c after = [c]

/-- A character in lower case, where U+0130 becomes `dotted`. -/
def lowerChar (U : Casing) (dotted before : List Char) (c : Char)
    (after : List Char) : List Char :=
  if kept c then [c]
  else if capital c then [Char.ofNat (c.toNat + 32)]
  else if c = '\u0130' then dotted
  else if c = '\u212a' then ['k']
  else U.other before c after

def lowerFrom (U : Casing) (dotted before : List Char) :
    List Char → List Char
  | [] => []
  | c :: after =>
    lowerChar U dotted before c after ++
      lowerFrom U dotted (before ++ [c]) after

/-- `str.lower`. -/
def pyLower (U : Casing) (s : List Char) : List Char :=
  lowerFrom U ['i', '\u0307'] [] s

/-- HCL's `lower`, up to composition. -/
def goLower (U : Casing) (s : List Char) : List Char :=
  lowerFrom U ['i'] [] s

/-- The composed form of a text. What is ASCII is composed already, and
nothing composes with an ASCII character before it. -/
structure Composition where
  nfc : List Char → List Char
  idem : ∀ s, nfc (nfc s) = nfc s
  ascii : ∀ s, (∀ c ∈ s, isAscii c = true) → nfc s = s
  append : ∀ s t, (∀ c ∈ t, isAscii c = true) → nfc (s ++ t) = nfc s ++ t

/-- `str.strip`. -/
def strip (s : List Char) : List Char :=
  (s.dropWhile isSpace).rdropWhile isSpace

/-- The hash of a text, in hex. -/
structure Digest where
  sha256 : List Char → List Char
  length : ∀ s, (sha256 s).length = 64
  hex : ∀ s, ∀ c ∈ sha256 s, kept c = true

-- ==== python

section Python

variable (U : Casing) (D : Digest)

/-- `_HASH_SUFFIX_LEN`. -/
def hashSuffixLen : Nat := 8

/-- `sanitized`, before the fallback. -/
def sanitized (tenantId : List Char) : List Char :=
  trim '-' (collapse kept '-' false (pyLower U (strip tenantId)))

/-- `tenant_slug`; a `ValueError` has its message. -/
def tenantSlug (tenantId : List Char) : Except String (List Char) :=
  if tenantId = [] then .error "tenant_id must be a non-empty string"
  else
    let name :=
      if sanitized U tenantId = [] then "tenant".toList
      else sanitized U tenantId
    .ok (name ++ ['-'] ++ (D.sha256 tenantId).take hashSuffixLen)

/-- `tenant_environment`. -/
def tenantEnvironment (baseEnvironment tenantId : List Char) :
    Except String (List Char) :=
  if baseEnvironment = [] then
    .error "base_environment must be a non-empty string"
  else do
    let slug ← tenantSlug U D tenantId
    .ok (baseEnvironment ++ "-tenant-".toList ++ slug)

/-- `node_pool_name`. -/
def nodePoolName (baseEnvironment tenantId : List Char) :
    Except String (List Char) := do
  let environment ← tenantEnvironment U D baseEnvironment tenantId
  .ok (environment ++ "-gpu-node-pool".toList)

/-- `model_serving_namespace`. -/
def modelServingNamespace (_baseEnvironment tenantId : List Char) :
    Except String (List Char) := do
  let slug ← tenantSlug U D tenantId
  .ok ("model-serving-".toList ++ slug)

end Python

-- ==== hcl

namespace Hcl

variable (U : Casing) (N : Composition) (D : Digest)

/-- `lower`. -/
def lower (s : List Char) : List Char := N.nfc (goLower U s)

/-- `local.tenant_slug_sanitized`, of a variable's value. -/
def tenantSlugSanitized (tenantId : List Char) : List Char :=
  trim '-' (collapse kept '-' false (lower U N tenantId))

/-- `local.tenant_slug`. -/
def slugOf (tenantId : List Char) : List Char :=
  N.nfc ((if tenantSlugSanitized U N tenantId ≠ [] then
      tenantSlugSanitized U N tenantId
    else "tenant".toList) ++ ['-'] ++ (D.sha256 tenantId).take 8)

/-- `local.tenant_slug`, of what is passed for `var.tenant_id`. -/
def tenantSlug (tenantId : List Char) : List Char :=
  slugOf U N D (N.nfc tenantId)

/-- `local.tenant_environment`, of what is passed for its variables. -/
def tenantEnvironment (baseEnvironment tenantId : List Char) : List Char :=
  N.nfc (N.nfc baseEnvironment ++ "-tenant-".toList ++
    tenantSlug U N D tenantId)

end Hcl

end SdlcOs.TenantCell.Naming
