import VoiceChatCrypto.Primitives.Basic

/-!
# Idealised primitives

The assumptions under which the protocol layer is analysed, one structure for each primitive. They
are the usual ones of the symbolic model: key derivation is **injective** and its two constructions
have **disjoint** ranges, Diffie–Hellman **commutes** and separates honest public keys, AEAD opens
what it sealed. A theorem lists the ones it uses.

None of them says anything about what an adversary can compute; unforgeability is a property of a
*run* and is stated where runs are defined.
-/

open Alphabet

namespace VoiceChatCrypto

variable {B : Type} [Alphabet B]

/-- HKDF and HMAC under 32-byte keys, as injective maps with disjoint ranges: keys that are derived
differently are different. -/
structure IdealKdf (P : Primitives B) : Prop where
  /-- Salt, input, label and block index can be read off an output block. -/
  hkdf_inj : ∀ {salt salt' ikm ikm' info info' : List B} {i i' : ℕ},
    salt.length = 32 → salt'.length = 32 →
    P.hkdfBlock salt ikm info i = P.hkdfBlock salt' ikm' info' i' →
    salt = salt' ∧ ikm = ikm' ∧ info = info' ∧ i = i'
  /-- Key and message can be read off a tag. -/
  hmac_inj : ∀ {key key' msg msg' : List B}, key.length = 32 → key'.length = 32 →
    P.hmacSha256 key msg = P.hmacSha256 key' msg' → key = key' ∧ msg = msg'
  /-- No HKDF block is a tag. -/
  hkdf_ne_hmac : ∀ (salt ikm info key msg : List B) (i : ℕ),
    P.hkdfBlock salt ikm info i ≠ P.hmacSha256 key msg

/-- X25519: both sides compute the same secret. -/
def DhCommutes (P : Primitives B) : Prop :=
  ∀ a b, P.diffieHellman a (P.publicKey b) = P.diffieHellman b (P.publicKey a)

/-- X25519 on honestly generated keys. Nothing is said of keys that an attacker has made up. -/
structure IdealDh (P : Primitives B) : Prop where
  /-- Both sides compute the same secret. -/
  comm : ∀ a b, P.diffieHellman a (P.publicKey b) = P.diffieHellman b (P.publicKey a)
  /-- A secret tells honest public keys apart. -/
  inj : ∀ {a x y}, P.diffieHellman a (P.publicKey x) = P.diffieHellman a (P.publicKey y) →
    P.publicKey x = P.publicKey y
  /-- Public keys are usable. -/
  publicKey_ne_zero : ∀ a, P.publicKey a ≠ Block.zero 32

/-- AES-256-GCM opens what it sealed; a ciphertext is a tag longer than its plaintext. -/
structure IdealAead (P : Primitives B) : Prop where
  /-- Correctness. -/
  decrypt_encrypt : ∀ {key nonce pt ad ct}, P.aeadEncrypt key nonce pt ad = some ct →
    P.aeadDecrypt key nonce ct ad = some pt
  /-- Length. -/
  length_encrypt : ∀ {key nonce pt ad ct}, P.aeadEncrypt key nonce pt ad = some ct →
    ct.length = pt.length + 16

omit [Alphabet B] in
/-- The wrapper opens what the wrapper sealed, with the nonce in front. -/
theorem IdealAead.open_seal {P : Primitives B} (hP : IdealAead P) {key : Block B 32}
    {nonce : Block B 12} {pt ad ct : List B} (h : aeadSeal P key nonce pt ad = .ok ct) :
    aeadOpen P key nonce ct ad = .ok pt := by
  unfold aeadSeal at h
  split at h
  · cases h
    have hlen := hP.length_encrypt ‹_›
    rw [aeadOpen, if_neg (by omega), hP.decrypt_encrypt ‹_›]
  · cases h

/-- AES-256-GCM opens a ciphertext to a plaintext that is a tag shorter. -/
def OpenLength (P : Primitives B) : Prop :=
  ∀ {key nonce pt ad ct}, P.aeadDecrypt key nonce ct ad = some pt → ct.length = pt.length + 16

omit [Alphabet B] in
/-- What opens is a tag longer than its plaintext, whoever made it. -/
theorem OpenLength.length_open {P : Primitives B} (hP : OpenLength P) {key : Block B 32}
    {nonce : Block B 12} {pt ad ct : List B} (h : aeadOpen P key nonce ct ad = .ok pt) :
    ct.length = pt.length + 16 := by
  unfold aeadOpen at h
  split at h
  · cases h
  · split at h
    · cases h
      exact hP ‹_›
    · cases h

omit [Alphabet B] in
/-- What was sealed is a tag longer than its plaintext. -/
theorem IdealAead.length_seal {P : Primitives B} (hP : IdealAead P) {key : Block B 32}
    {nonce : Block B 12} {pt ad ct : List B} (h : aeadSeal P key nonce pt ad = .ok ct) :
    ct.length = pt.length + 16 := by
  unfold aeadSeal at h
  split at h
  · cases h
    exact hP.length_encrypt ‹_›
  · cases h

/-- What AES-256-GCM has sealed opens under no other key: the ciphertext commits to its key. -/
def OneKey (P : Primitives B) : Prop :=
  ∀ {key key' nonce nonce' pt pt' ad ad' ct}, P.aeadEncrypt key nonce pt ad = some ct →
    P.aeadDecrypt key' nonce' ct ad' = some pt' → key = key'

omit [Alphabet B] in
/-- A ciphertext opens under the key it was sealed with and under no other. -/
theorem OneKey.key_eq {P : Primitives B} (hP : OneKey P) {key key' : Block B 32}
    {nonce nonce' : Block B 12} {pt pt' ad ad' ct : List B}
    (hseal : aeadSeal P key nonce pt ad = .ok ct) (hopen : aeadOpen P key' nonce' ct ad' = .ok pt') :
    key = key' := by
  unfold aeadSeal at hseal
  unfold aeadOpen at hopen
  split at hseal
  · cases hseal
    split at hopen
    · cases hopen
    · split at hopen
      · exact hP ‹_› ‹_›
      · cases hopen
  · cases hseal

/-- AES-256-GCM seals whatever it is given. The implementation refuses inputs of more than 64 GiB. -/
def SealTotal (P : Primitives B) : Prop :=
  ∀ key nonce pt ad, ∃ ct, P.aeadEncrypt key nonce pt ad = some ct

omit [Alphabet B] in
theorem SealTotal.seal {P : Primitives B} (hP : SealTotal P) (key : Block B 32) (nonce : Block B 12)
    (pt ad : List B) : ∃ ct, aeadSeal P key nonce pt ad = .ok ct := by
  obtain ⟨ct, h⟩ := hP key nonce pt ad
  exact ⟨ct, by rw [aeadSeal, h]⟩

/-- ML-KEM-768 on honestly generated keys. -/
structure IdealKem (P : Primitives B) : Prop where
  /-- Keys pass their own check. -/
  valid : ∀ seed, P.kemValid (P.kemPublic seed) = true
  /-- Decapsulation undoes encapsulation. -/
  decapsulate : ∀ seed coins, P.kemDecapsulate seed
    (P.kemEncapsulate (P.kemPublic seed) coins).2 = (P.kemEncapsulate (P.kemPublic seed) coins).1

/-- XEd25519 accepts what it signed. -/
def SignatureCorrect (P : Primitives B) : Prop :=
  ∀ secret message nonce,
    P.xeddsaVerify (P.publicKey secret) message (P.xeddsaSign secret message nonce) = true

/-! ### Labels -/

/-- Labels are told apart by their byte values. -/
theorem ascii_ne {s t : String}
    (h : s.toList.map (fun c ↦ c.toNat % 256) ≠ t.toList.map fun c ↦ c.toNat % 256) :
    (ascii s : List B) ≠ ascii t := by
  intro heq
  apply h
  have hmap := congrArg (List.map Alphabet.toNat) heq
  simpa [ascii, List.map_map, Function.comp_def] using hmap

end VoiceChatCrypto
