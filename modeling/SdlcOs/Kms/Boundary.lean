/-
Envelope encryption per tenant (kms-boundary: envelope.py,
key_resolver.py, wrapped_secret.py).

The key service and the cipher are the platform's and ideal
(`Crypto.KeyService`, `Crypto.Aead`); the bytes that only they read are
types of theirs. An encryption context is a dictionary, and the service
compares two of them by their pairs.
-/
import Mathlib.Data.List.Sort
import SdlcOs.Crypto.Envelope
import SdlcOs.Data.Dict

namespace SdlcOs.KmsBoundary

open Crypto (KeyService Aead)
open Data (Dict)

/-- The exceptions of the package, of its client and of the cipher. -/
inductive KmsError : Type where
  | unknownTenant (message : String)
  | crossTenantDecryption (message : String)
  | client
  | invalidTag
  deriving DecidableEq, Repr

/-- `TenantKeyResolver`. -/
abbrev TenantKeyResolver : Type := String → Except KmsError String

/-- `StaticTenantKeyResolver.__call__`. -/
def staticTenantKeyResolver (tenantToKeyId : Dict String String) :
    TenantKeyResolver := fun tenantId =>
  match tenantToKeyId.get tenantId with
  | some keyId => .ok keyId
  | none => .error (.unknownTenant
      ("no KMS key configured for tenant '" ++ tenantId ++ "'"))

/-- An encryption context. -/
abbrev Context : Type := Dict String String

/-- Two contexts with the same pairs. -/
abbrev SamePairs (c c' : Context) : Prop := c.entries.Perm c'.entries

/-- `WrappedSecret`. -/
structure WrappedSecret (Blob Nonce Cipher : Type) where
  tenantId : String
  keyId : String
  wrappedDataKey : Blob
  nonce : Nonce
  ciphertext : Cipher
  encryptionContext : List (String × String)

/-- `WrappedSecret.encryption_context_dict`. -/
def WrappedSecret.encryptionContextDict {Blob Nonce Cipher : Type}
    (w : WrappedSecret Blob Nonce Cipher) : Context :=
  .ofEntries w.encryptionContext

section
variable {DataKey Blob Coins Nonce Plain Cipher : Type}
  [DecidableEq DataKey] [DecidableEq Nonce]

/-- `KmsBoundary`. -/
structure KmsBoundary (DataKey Blob Coins Nonce Plain Cipher : Type)
    [DecidableEq DataKey] [DecidableEq Nonce] where
  kms : KeyService String Context DataKey Blob Coins SamePairs
  aesgcm : Aead DataKey Nonce Plain Cipher
  resolveKey : TenantKeyResolver

namespace KmsBoundary

variable (B : KmsBoundary DataKey Blob Coins Nonce Plain Cipher)

/-- `KmsBoundary.encrypt`. The service's coins and the drawn nonce are
arguments. -/
def encrypt (coins : Coins) (nonce : Nonce) (tenantId : String)
    (plaintext : Plain) :
    Except KmsError (WrappedSecret Blob Nonce Cipher) :=
  match B.resolveKey tenantId with
  | .error x => .error x
  | .ok keyId =>
    let context : Context := Dict.empty.set "tenant_id" tenantId
    match B.kms.generate coins keyId context with
    | none => .error .client
    | some (dataKey, wrappedDataKey) =>
      .ok
        { tenantId := tenantId
          keyId := keyId
          wrappedDataKey := wrappedDataKey
          nonce := nonce
          ciphertext := B.aesgcm.encrypt dataKey nonce plaintext
          encryptionContext :=
            context.entries.insertionSort fun a b => a.1 ≤ b.1 }

/-- `KmsBoundary.decrypt`. -/
def decrypt (tenantId : String) (wrapped : WrappedSecret Blob Nonce Cipher) :
    Except KmsError Plain :=
  match B.resolveKey tenantId with
  | .error x => .error x
  | .ok keyId =>
    match B.kms.unwrap wrapped.wrappedDataKey keyId
        wrapped.encryptionContextDict with
    | none => .error (.crossTenantDecryption
        ("tenant '" ++ tenantId ++ "' (KMS key '" ++ keyId ++
          "') cannot decrypt a secret wrapped for tenant '" ++
          wrapped.tenantId ++ "' (KMS key '" ++ wrapped.keyId ++ "')"))
    | some dataKey =>
      match B.aesgcm.decrypt dataKey wrapped.nonce wrapped.ciphertext with
      | none => .error .invalidTag
      | some plaintext => .ok plaintext

end KmsBoundary

end

end SdlcOs.KmsBoundary
