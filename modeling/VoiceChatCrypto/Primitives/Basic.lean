import VoiceChatCrypto.Data.Cursor
import VoiceChatCrypto.Data.Enumeration

/-!
# The primitive layer

The cryptographic primitives are third-party code: X25519, HKDF and HMAC over SHA-256, AES-256-GCM,
ML-KEM-768, SHA-3 and the curve arithmetic under XEd25519. They enter the model as a record of
functions, `Primitives B`, over the byte strings of an alphabet. Nothing is assumed of them here;
what a theorem needs it names as a hypothesis (`Primitives/Ideal.lean`).

Random draws are arguments. A function that calls `X25519Secret::generate()` takes the secret it will
draw, so that "fresh" is a property of a run and not of the model.

The wrappers around the primitives — `X25519Public::from_bytes`, `aead::open`, the frozen labels, the
ML-KEM length checks, `EncodeEC` and `EncodeKEM` — are the repository's own and are defined here.
-/

open Alphabet

namespace VoiceChatCrypto

/-- Errors of the primitive layer. -/
inductive PrimitiveError
  | invalidPublicKey
  | invalidSecretKey
  | invalidKemCiphertext
  | aeadDecryptionFailed
  | aeadAuthFailed
  | invalidNonce
  | invalidLength
  | hkdfLength
  | signatureInvalid
  | rng
  | internal
  | limitExceeded
  deriving DecidableEq, Repr

/-- The third-party primitives, as functions of byte strings. What is assumed of them is said where
it is needed; randomness is an argument. -/
structure Primitives (B : Type) where
  /-- X25519: the public key of a secret. -/
  publicKey : Block B 32 → Block B 32
  /-- X25519: the shared secret of a secret and a public key. -/
  diffieHellman : Block B 32 → Block B 32 → Block B 32
  /-- HKDF-SHA-256: the `i`-th 32-byte block `T(i+1)` of the output for salt, input and label. -/
  hkdfBlock : List B → List B → List B → ℕ → Block B 32
  /-- HMAC-SHA-256 of a key and a message. -/
  hmacSha256 : List B → List B → Block B 32
  /-- AES-256-GCM encryption of a plaintext with associated data. Fails on oversized inputs. -/
  aeadEncrypt : Block B 32 → Block B 12 → List B → List B → Option (List B)
  /-- AES-256-GCM decryption. -/
  aeadDecrypt : Block B 32 → Block B 12 → List B → List B → Option (List B)
  /-- ML-KEM-768: the encapsulation key of a seed. -/
  kemPublic : Block B 64 → Block B 1184
  /-- ML-KEM-768: the encapsulation-key check of `EncapsulationKey::new`. -/
  kemValid : Block B 1184 → Bool
  /-- ML-KEM-768 encapsulation with the given coins: shared secret and ciphertext. -/
  kemEncapsulate : Block B 1184 → Block B 32 → Block B 32 × Block B 1088
  /-- ML-KEM-768 decapsulation under the key of a seed. -/
  kemDecapsulate : Block B 64 → Block B 1088 → Block B 32
  /-- SHA3-256. -/
  sha3 : List B → Block B 32
  /-- SHA3-512 of a message and a key hash, split in two: `g_hash`. -/
  gHash : Block B 32 → Block B 32 → Block B 32 × Block B 32
  /-- K-PKE encryption, first ciphertext part, from `ρ` and coins: `pke_encrypt_ct1`. -/
  pkeEncryptCt1 : Block B 32 → Block B 32 → Block B 32 → Block B 960
  /-- K-PKE encryption, second ciphertext part, from `t̂`, coins and message: `pke_encrypt_ct2`. -/
  pkeEncryptCt2 : List B → Block B 32 → Block B 32 → Block B 128
  /-- XEd25519 signature of a message under a secret with a 64-byte nonce. -/
  xeddsaSign : Block B 32 → List B → Block B 64 → Block B 64
  /-- XEd25519 verification. -/
  xeddsaVerify : Block B 32 → List B → Block B 64 → Bool

variable {B : Type} [Alphabet B]

/-! ### X25519 -/

/-- `X25519Public::from_bytes`: any 32 bytes but zero. -/
def publicFromBytes (b : Block B 32) : Except PrimitiveError (Block B 32) :=
  if b = Block.zero 32 then .error .invalidPublicKey else .ok b

/-- The only key that is refused is zero, and an accepted key is taken as it is. -/
theorem publicFromBytes_eq_ok {b c : Block B 32} :
    publicFromBytes b = .ok c ↔ b ≠ Block.zero 32 ∧ c = b := by
  unfold publicFromBytes
  split
  · simp_all
  · simp_all [eq_comm]

@[simp] theorem publicFromBytes_of_ne {b : Block B 32} (h : b ≠ Block.zero 32) :
    publicFromBytes b = .ok b :=
  publicFromBytes_eq_ok.2 ⟨h, rfl⟩

/-! ### Key derivation -/

/-- The frozen domain-separation labels. -/
def Labels.drRoot : List B := ascii "VoiceChat/DR/v1/Root"
@[inherit_doc Labels.drRoot] def Labels.drChain : List B := ascii "VoiceChat/DR/v1/Chain"
@[inherit_doc Labels.drRoot] def Labels.drMessage : List B := ascii "VoiceChat/DR/v1/Message"
@[inherit_doc Labels.drRoot] def Labels.drHeader : List B := ascii "VoiceChat/DR/v1/Header"
@[inherit_doc Labels.drRoot] def Labels.spqrEpoch : List B := ascii "VoiceChat/SPQR/v1/Epoch"
@[inherit_doc Labels.drRoot] def Labels.tripleHybrid : List B := ascii "VoiceChat/Triple/v1/Hybrid"
@[inherit_doc Labels.drRoot] def Labels.pqxdhKdfInfo : List B :=
  ascii "VoiceChat_CURVE25519_SHA-256_ML-KEM-768"
@[inherit_doc Labels.drRoot] def Labels.braidProtocolInfo : List B :=
  ascii "VoiceChat_MLKEM768_SHA-256"

/-- The salt HKDF uses when none is given: a hash length of zeros. -/
def noSalt : List B := (Block.zero 32 : Block B 32).val

variable (P : Primitives B)

/-- `hkdf_extract_expand`, the `i`-th 32-byte slice of its output. The lengths requested by this
repository are at most three slices, so the length error of HKDF never fires. -/
def hkdf (salt : Option (List B)) (ikm info : List B) (i : ℕ) : Block B 32 :=
  P.hkdfBlock (salt.getD noSalt) ikm info i

/-- `pqxdh_kdf`: HKDF over 32 bytes `0xFF` and the key material, with an all-zero salt. -/
def pqxdhKdf (km : List B) : Block B 32 :=
  hkdf P (some noSalt) (List.replicate 32 (ofNat 255) ++ km) Labels.pqxdhKdfInfo 0

/-! ### AEAD -/

/-- `aead::seal`. -/
def aeadSeal (key : Block B 32) (nonce : Block B 12) (pt ad : List B) :
    Except PrimitiveError (List B) :=
  match P.aeadEncrypt key nonce pt ad with
  | some ct => .ok ct
  | none => .error .internal

/-- `aead::open`. A ciphertext shorter than the tag is refused outright. -/
def aeadOpen (key : Block B 32) (nonce : Block B 12) (ct ad : List B) :
    Except PrimitiveError (List B) :=
  if ct.length < 16 then .error .aeadDecryptionFailed
  else match P.aeadDecrypt key nonce ct ad with
    | some pt => .ok pt
    | none => .error .aeadDecryptionFailed

/-! ### ML-KEM-768 -/

/-- `MlKemPublic::from_bytes`: exact length, then the library's key check. -/
def kemPublicFromBytes (bs : List B) : Except PrimitiveError (Block B 1184) :=
  if h : bs.length = 1184 then
    if P.kemValid ⟨bs, h⟩ then .ok ⟨bs, h⟩ else .error .invalidPublicKey
  else .error .invalidPublicKey

/-- `MlKemCiphertext::from_bytes`: exact length. -/
def kemCiphertextFromBytes (bs : List B) : Except PrimitiveError (Block B 1088) :=
  if h : bs.length = 1088 then .ok ⟨bs, h⟩ else .error .invalidKemCiphertext

/-- `MlKemPublic::encapsulate`, with the library's coins as an argument. -/
def kemEncapsulate (pk : Block B 1184) (coins : Block B 32) :
    Except PrimitiveError (Block B 32 × Block B 1088) :=
  if P.kemValid pk then .ok (P.kemEncapsulate pk coins) else .error .invalidPublicKey

/-! ### Key encodings -/

/-- `EncodeEC`: a curve identifier and the public key. -/
def encodeEc (pk : Block B 32) : List B := ofNat 0x01 :: pk.val

/-- `EncodeKEM`: a KEM identifier and the encapsulation key. -/
def encodeKem (pk : Block B 1184) : List B := ofNat 0x81 :: pk.val

/-- `verify`: XEd25519 verification as a fallible call. -/
def xeddsaVerify (pk : Block B 32) (message : List B) (sig : Block B 64) :
    Except PrimitiveError Unit :=
  if P.xeddsaVerify pk message sig then .ok () else .error .signatureInvalid

/-! ### Counters -/

/-- `checked_inc`: the next counter value, or `LimitExceeded` at the top of `u32`. -/
def checkedInc (n : UInt32) : Except PrimitiveError UInt32 :=
  if n.toNat + 1 < 2 ^ 32 then .ok (n + 1) else .error .limitExceeded

/-- A counter that could be increased has been increased by one. -/
theorem checkedInc_eq_ok {n m : UInt32} (h : checkedInc n = .ok m) :
    m.toNat = n.toNat + 1 := by
  unfold checkedInc at h
  split at h
  · cases h
    rw [UInt32.toNat_add]
    exact Nat.mod_eq_of_lt (by simpa using ‹_›)
  · cases h

/-- A counter below the last value can be increased. -/
theorem checkedInc_of_lt {n : UInt32} (h : n.toNat + 1 < 2 ^ 32) : checkedInc n = .ok (n + 1) :=
  if_pos h

/-- A 32-bit integer survives four letters. -/
theorem ofNat_toNat_mod (n : UInt32) : UInt32.ofNat (n.toNat % 256 ^ 4) = n := by
  rw [Nat.mod_eq_of_lt (by have := n.toNat_lt; omega), UInt32.ofNat_toNat]

/-- A number below `2^32` survives the cast to `u32`. -/
theorem toNat_ofNat_u32 {k : ℕ} (h : k < 2 ^ 32) : (UInt32.ofNat k).toNat = k := by
  rw [UInt32.toNat_ofNat']
  exact Nat.mod_eq_of_lt h

/-- The cast to `u32` tells numbers below `2^32` apart. -/
theorem ofNat_u32_inj {j k : ℕ} (hj : j < 2 ^ 32) (hk : k < 2 ^ 32)
    (h : UInt32.ofNat j = UInt32.ofNat k) : j = k := by
  rw [← toNat_ofNat_u32 hj, ← toNat_ofNat_u32 hk, h]

end VoiceChatCrypto
