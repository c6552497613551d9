/-
Who can decrypt a wrapped secret.

# The argument

The key and the context of a wrapped secret are those its tenant encrypted
under. A secret is an envelope under these (`encrypt_encloses`,
`decrypt_discloses`). A tenant who decrypts it presents the key of its own
resolution, and the context that came with the secret (`decrypt_encrypt`).
So the second of the two bindings is met by whoever holds the secret, and
a tenant is kept out by the key alone.
-/
import SdlcOs.Kms.Boundary

namespace SdlcOs.KmsBoundary

open Crypto (KeyService Aead Envelope Refusal enclose disclose
  disclose_enclose)
open Data (Dict)

section
variable {DataKey Blob Coins Nonce Plain Cipher : Type}
  [DecidableEq DataKey] [DecidableEq Nonce]
  {B : KmsBoundary DataKey Blob Coins Nonce Plain Cipher} {coins : Coins}
  {nonce : Nonce} {t t' : String} {p : Plain}
  {w : WrappedSecret Blob Nonce Cipher}

-- ==== contexts

theorem samePairs_sorted (c : Context) (r : String × String →
    String × String → Prop) [DecidableRel r] :
    SamePairs c (.ofEntries (c.entries.insertionSort r)) := by
  have hperm := List.perm_insertionSort r c.entries
  unfold SamePairs
  rw [Dict.entries_ofEntries ((hperm.map Prod.fst).nodup_iff.2 c.nodup)]
  exact hperm.symm

-- ==== the secret

/-- The part of a secret that the service and the cipher made. -/
def WrappedSecret.envelope (w : WrappedSecret Blob Nonce Cipher) :
    Envelope Blob Nonce Cipher :=
  ⟨w.wrappedDataKey, w.nonce, w.ciphertext⟩

/-- What `encrypt` returns is enclosed under the tenant's key and under a
context that the secret carries. -/
theorem encrypt_encloses (h : B.encrypt coins nonce t p = .ok w) :
    ∃ keyId context, B.resolveKey t = .ok keyId ∧
      enclose B.kms B.aesgcm coins nonce keyId context p = some w.envelope ∧
      SamePairs context w.encryptionContextDict := by
  unfold KmsBoundary.encrypt at h
  split at h
  · cases h
  · next keyId hkey =>
    dsimp only at h
    split at h
    · cases h
    · next dataKey blob hgen =>
      cases h
      refine ⟨keyId, _, hkey, ?_,
        samePairs_sorted (Dict.empty.set "tenant_id" t) fun a b => a.1 ≤ b.1⟩
      rw [enclose, hgen]
      rfl

/-- A refusal in the words of `decrypt`. -/
def refusal (t keyId : String) (w : WrappedSecret Blob Nonce Cipher) :
    Refusal → KmsError
  | .service => .crossTenantDecryption
      ("tenant '" ++ t ++ "' (KMS key '" ++ keyId ++
        "') cannot decrypt a secret wrapped for tenant '" ++ w.tenantId ++
        "' (KMS key '" ++ w.keyId ++ "')")
  | .cipher => .invalidTag

/-- `decrypt` discloses under the key of the tenant's own resolution and
the context of the secret. -/
theorem decrypt_discloses (B : KmsBoundary DataKey Blob Coins Nonce Plain
    Cipher) (t : String) (w : WrappedSecret Blob Nonce Cipher) :
    B.decrypt t w =
      match B.resolveKey t with
      | .error x => .error x
      | .ok keyId =>
        (disclose B.kms B.aesgcm keyId w.encryptionContextDict
          w.envelope).mapError (refusal t keyId w) := by
  unfold KmsBoundary.decrypt
  cases B.resolveKey t with
  | error x => rfl
  | ok keyId =>
    dsimp only [disclose, WrappedSecret.envelope]
    cases B.kms.unwrap w.wrappedDataKey keyId w.encryptionContextDict with
    | none => rfl
    | some dataKey =>
      dsimp only
      cases B.aesgcm.decrypt dataKey w.nonce w.ciphertext with
      | none => rfl
      | some plaintext => rfl

/-- A secret decrypts for the tenants who resolve to its key, whoever they
are. -/
theorem decrypt_encrypt (h : B.encrypt coins nonce t p = .ok w) :
    B.decrypt t' w =
      match B.resolveKey t' with
      | .error x => .error x
      | .ok keyId =>
        if B.resolveKey t = .ok keyId then .ok p
        else .error (refusal t' keyId w .service) := by
  obtain ⟨key, context, hkey, henclosed, hsame⟩ := encrypt_encloses h
  rw [decrypt_discloses]
  cases hkey' : B.resolveKey t' with
  | error x => rfl
  | ok keyId =>
    dsimp only
    rw [disclose_enclose B.kms B.aesgcm henclosed, hkey]
    by_cases hk : keyId = key
    · rw [if_pos ⟨hk, hsame⟩, if_pos (congrArg Except.ok hk.symm)]
      rfl
    · rw [if_neg (fun hc => hk hc.1),
        if_neg (fun hc => hk (Except.ok.inj hc).symm)]
      rfl

theorem decrypt_own (h : B.encrypt coins nonce t p = .ok w) :
    B.decrypt t w = .ok p := by
  obtain ⟨key, -, hkey, -, -⟩ := encrypt_encloses h
  rw [decrypt_encrypt h, hkey]
  exact if_pos rfl

theorem decrypt_fails_iff (h : B.encrypt coins nonce t p = .ok w) :
    (∃ x, B.decrypt t' w = .error x) ↔ B.resolveKey t' ≠ B.resolveKey t := by
  obtain ⟨key, -, hkey, -, -⟩ := encrypt_encloses h
  rw [decrypt_encrypt h, hkey]
  cases hkey' : B.resolveKey t' with
  | error x =>
    refine ⟨?_, fun _ => ⟨x, rfl⟩⟩
    intro _ hc
    cases hc
  | ok keyId =>
    dsimp only
    by_cases hk : key = keyId
    · rw [if_pos (congrArg Except.ok hk), hk]
      refine ⟨?_, fun hc => absurd rfl hc⟩
      intro hx
      obtain ⟨x, hx⟩ := hx
      cases hx
    · rw [if_neg (fun hc => hk (Except.ok.inj hc))]
      exact ⟨fun _ hc => hk (Except.ok.inj hc).symm, fun _ => ⟨_, rfl⟩⟩

-- ==== isolation

/-- Isolation of a tenant from another, for one secret: the other fails to
decrypt it, the tenant itself gets its text. -/
def Isolated (B : KmsBoundary DataKey Blob Coins Nonce Plain Cipher)
    (t t' : String) (p : Plain) (w : WrappedSecret Blob Nonce Cipher) :
    Prop :=
  (∃ x, B.decrypt t' w = .error x) ∧ B.decrypt t w = .ok p

/-- A secret is isolated from a tenant exactly if the two tenants do not
resolve to one key. -/
theorem isolated_iff (h : B.encrypt coins nonce t p = .ok w) :
    Isolated B t t' p w ↔ B.resolveKey t' ≠ B.resolveKey t := by
  unfold Isolated
  rw [decrypt_fails_iff h]
  exact and_iff_left (decrypt_own h)

end

-- ==== a shared key

/-- A key service that holds every key; its blobs say what they wrap. -/
def plainService :
    KeyService String Context Nat (Nat × String × Context) Nat SamePairs where
  generate := fun coins k c => some (coins, coins, k, c)
  unwrap := fun b k c => if k = b.2.1 ∧ SamePairs b.2.2 c then some b.1
    else none
  unwrap_generate := by
    intro coins k c d b h k' c'
    cases h
    rfl

/-- A cipher whose texts say what they were encrypted under. -/
def plainCipher : Aead Nat Nat String (Nat × Nat × String) where
  encrypt := fun d n p => (d, n, p)
  decrypt := fun d n c => if d = c.1 ∧ n = c.2.1 then some c.2.2 else none
  decrypt_encrypt := fun _ _ _ _ _ => rfl

/-- A boundary over a static map of tenants to keys. -/
def staticBoundary (keys : List (String × String)) :
    KmsBoundary Nat (Nat × String × Context) Nat Nat String
      (Nat × Nat × String) where
  kms := plainService
  aesgcm := plainCipher
  resolveKey := staticTenantKeyResolver (.ofEntries keys)

/-- Two tenants with a key each. -/
def ownKeys : List (String × String) :=
  [("acme", "alias/acme"), ("globex", "alias/globex")]

/-- Two tenants with one key. -/
def sharedKey : List (String × String) :=
  [("acme", "alias/platform"), ("globex", "alias/platform")]

/-- The private key of `acme`, wrapped under a key. -/
def acmeSecret (keyId : String) :
    WrappedSecret (Nat × String × Context) Nat (Nat × Nat × String) where
  tenantId := "acme"
  keyId := keyId
  wrappedDataKey := (7, keyId, .ofEntries [("tenant_id", "acme")])
  nonce := 1
  ciphertext := (7, 1, "pem")
  encryptionContext := [("tenant_id", "acme")]

theorem encrypt_acme (keys : List (String × String)) {keyId : String}
    (h : (staticBoundary keys).resolveKey "acme" = .ok keyId) :
    (staticBoundary keys).encrypt 7 1 "acme" "pem" =
      .ok (acmeSecret keyId) := by
  unfold KmsBoundary.encrypt
  rw [h]
  rfl

/-- With a key each, `globex` is kept out of the secret of `acme`. -/
theorem isolated_ownKeys :
    Isolated (staticBoundary ownKeys) "acme" "globex" "pem"
        (acmeSecret "alias/acme") ↔
      (staticBoundary ownKeys).resolveKey "globex" ≠
        (staticBoundary ownKeys).resolveKey "acme" :=
  isolated_iff (encrypt_acme ownKeys rfl)

/-- With one key for both, `globex` reads the private key of `acme`. -/
theorem not_isolated_sharedKey :
    (staticBoundary sharedKey).encrypt 7 1 "acme" "pem" =
        .ok (acmeSecret "alias/platform") ∧
      (staticBoundary sharedKey).decrypt "globex"
        (acmeSecret "alias/platform") = .ok "pem" ∧
      ¬ Isolated (staticBoundary sharedKey) "acme" "globex" "pem"
        (acmeSecret "alias/platform") := by
  have henc := @encrypt_acme sharedKey "alias/platform" rfl
  have hdec : (staticBoundary sharedKey).decrypt "globex"
      (acmeSecret "alias/platform") = .ok "pem" := by
    rw [decrypt_encrypt henc]
    rfl
  refine ⟨henc, hdec, ?_⟩
  intro hiso
  obtain ⟨x, hx⟩ := hiso.1
  rw [hdec] at hx
  cases hx

end SdlcOs.KmsBoundary
