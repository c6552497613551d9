/-
Envelope encryption over an ideal key service and an ideal cipher.

# The parts

A key service hands out data keys, each with a blob that wraps it, and
unwraps a blob for a caller who names the key and the context it was
wrapped under. An authenticated cipher takes a data key and a nonce. Both
are ideal: what was wrapped or encrypted comes back for exactly the
arguments it went in under, and is refused for every other.

# The whole

`enclose` wraps a fresh data key and encrypts under it, `disclose` undoes
it. Who can open an envelope is decided by the key and the context
presented (`disclose_enclose`), and by nothing else.
-/
import Mathlib.Logic.Basic

namespace SdlcOs.Crypto

/-- An ideal key service. `generate` refuses a key that it does not hold;
its coins are the service's own randomness. -/
structure KeyService (KeyId Context DataKey Blob Coins : Type)
    [DecidableEq KeyId] (same : Context → Context → Prop)
    [DecidableRel same] where
  generate : Coins → KeyId → Context → Option (DataKey × Blob)
  unwrap : Blob → KeyId → Context → Option DataKey
  unwrap_generate : ∀ coins k c d b, generate coins k c = some (d, b) →
    ∀ k' c', unwrap b k' c' = if k' = k ∧ same c c' then some d else none

/-- An ideal authenticated cipher. -/
structure Aead (DataKey Nonce Plain Cipher : Type) [DecidableEq DataKey]
    [DecidableEq Nonce] where
  encrypt : DataKey → Nonce → Plain → Cipher
  decrypt : DataKey → Nonce → Cipher → Option Plain
  decrypt_encrypt : ∀ d n p d' n',
    decrypt d' n' (encrypt d n p) =
      if d' = d ∧ n' = n then some p else none

/-- What is kept of a sealed text. -/
structure Envelope (Blob Nonce Cipher : Type) where
  wrapped : Blob
  nonce : Nonce
  ciphertext : Cipher

/-- Why an envelope stays shut. -/
inductive Refusal where
  | service | cipher
  deriving DecidableEq, Repr

section
variable {KeyId Context DataKey Blob Coins Nonce Plain Cipher : Type}
  [DecidableEq KeyId] [DecidableEq DataKey] [DecidableEq Nonce]
  {same : Context → Context → Prop} [DecidableRel same]
  (K : KeyService KeyId Context DataKey Blob Coins same)
  (A : Aead DataKey Nonce Plain Cipher)

/-- Seals a text under a key and a context. -/
def enclose (coins : Coins) (nonce : Nonce) (k : KeyId) (c : Context)
    (p : Plain) : Option (Envelope Blob Nonce Cipher) :=
  (K.generate coins k c).map fun g =>
    { wrapped := g.2, nonce := nonce, ciphertext := A.encrypt g.1 nonce p }

/-- Unseals an envelope for a key and a context. -/
def disclose (k : KeyId) (c : Context) (v : Envelope Blob Nonce Cipher) :
    Except Refusal Plain :=
  match K.unwrap v.wrapped k c with
  | none => .error .service
  | some d =>
    match A.decrypt d v.nonce v.ciphertext with
    | none => .error .cipher
    | some p => .ok p

variable {coins : Coins} {nonce : Nonce} {k k' : KeyId} {c c' : Context}
  {p q : Plain} {v : Envelope Blob Nonce Cipher}

/-- A sealed text comes back under its key and context; under any other
the service refuses. -/
theorem disclose_enclose (h : enclose K A coins nonce k c p = some v) :
    disclose K A k' c' v =
      if k' = k ∧ same c c' then .ok p else .error .service := by
  unfold enclose at h
  rw [Option.map_eq_some_iff] at h
  obtain ⟨g, hg, rfl⟩ := h
  unfold disclose
  rw [K.unwrap_generate coins k c g.1 g.2 hg]
  by_cases hkc : k' = k ∧ same c c'
  · rw [if_pos hkc, if_pos hkc]
    dsimp only
    rw [A.decrypt_encrypt, if_pos ⟨rfl, rfl⟩]
  · rw [if_neg hkc, if_neg hkc]

end

end SdlcOs.Crypto
