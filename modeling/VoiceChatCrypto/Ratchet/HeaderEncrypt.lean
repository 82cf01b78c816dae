import VoiceChatCrypto.Ratchet.Double

/-!
# The header-encrypting Double Ratchet

`HeaderEncryptState` as `src/ratchet/header_encrypt/mod.rs` computes it. Headers travel sealed under a
header key; the receiver finds out which chain a message belongs to by trying keys: those of stored
message keys first, then the current one, then the next one, which triggers a DH ratchet step.

The loop over the stored keys visits a hash map, so its order is an argument (`Enumeration`). As in
the plain ratchet the receiving half works on a trial copy.
-/

open Alphabet

namespace VoiceChatCrypto

variable {B : Type} [Alphabet B]

/-- The header-encrypting ratchet state. -/
structure HeaderEncryptState (B : Type) [Alphabet B] where
  /-- The sending ratchet secret. -/
  dhs : Option (Block B 32)
  /-- The peer's ratchet public key. -/
  dhr : Option (Block B 32)
  /-- The root key. -/
  rk : Block B 32
  /-- The sending chain key. -/
  cks : Option (Block B 32)
  /-- The receiving chain key. -/
  ckr : Option (Block B 32)
  /-- Sending header key. -/
  hks : Option (Block B 32)
  /-- Receiving header key. -/
  hkr : Option (Block B 32)
  /-- Next sending header key. -/
  nhks : Option (Block B 32)
  /-- Next receiving header key. -/
  nhkr : Option (Block B 32)
  /-- Sending message number. -/
  ns : UInt32
  /-- Receiving message number. -/
  nr : UInt32
  /-- Length of the previous sending chain. -/
  pn : UInt32
  /-- Skipped message keys by header key and message number. -/
  mkskipped : Dict (Block B 32 × UInt32) (Block B 32)
  /-- The limit on skipped keys and on the distance of one skip. -/
  maxSkip : UInt32


section Kdf

variable (P : Primitives B)

/-- `kdf_rk_he`: the next root key, a chain key and the next header key. -/
def kdfRkHe (rk dhOut : Block B 32) : Block B 32 × Block B 32 × Block B 32 :=
  (hkdf P (some rk.val) dhOut.val Labels.drRoot 0, hkdf P (some rk.val) dhOut.val Labels.drRoot 1,
    hkdf P (some rk.val) dhOut.val Labels.drRoot 2)

/-- `kdf_ck` of this variant: the next chain key and the message key. -/
def kdfCkHe (ck : Block B 32) : Block B 32 × Block B 32 :=
  (hkdf P none ck.val Labels.drChain 0,
    hkdf P none (hkdf P none ck.val Labels.drChain 1).val Labels.drMessage 0)

/-- A nonce is shorter than a key. -/
theorem nonce_le_key : 12 ≤ 32 := by decide

/-- `derive_nonce`: the first twelve bytes of a message key. -/
def deriveNonce (mk : Block B 32) : Block B 12 := mk.initial 12 nonce_le_key

/-- `hencrypt`, with the nonce it draws. -/
def hencrypt (hk : Block B 32) (nonce : Block B 12) (headerBytes : List B) :
    Except PrimitiveError (List B) := do
  let ct ← aeadSeal P hk nonce headerBytes []
  return nonce.val ++ ct

/-- `hdecrypt`. -/
def hdecrypt (hk : Block B 32) (encHeader : List B) : Except PrimitiveError (Header B) := do
  let (nonce, ct) ← Cursor.takeBlock PrimitiveError.invalidLength 12 encHeader
  let plain ← aeadOpen P hk nonce ct []
  Header.decode plain

/-- `concat_ad` of this variant: length-prefixed caller data, then the sealed header. -/
def concatAdHe (ad encHeader : List B) : List B := le 8 ad.length ++ ad ++ encHeader

end Kdf

namespace HeaderEncryptState

variable (P : Primitives B)

/-- `init_alice`, with the ratchet secret it draws. -/
def initAlice (dhs sk bobDhPublic sharedHka sharedNhkb : Block B 32) (maxSkip : UInt32) :
    HeaderEncryptState B :=
  let (rk, cks, nhks) := kdfRkHe P sk (P.diffieHellman dhs bobDhPublic)
  { dhs := some dhs, dhr := some bobDhPublic, rk, cks := some cks, ckr := none
    hks := some sharedHka, hkr := none, nhks := some nhks, nhkr := some sharedNhkb
    ns := 0, nr := 0, pn := 0, mkskipped := ∅, maxSkip }

/-- `init_bob`. -/
def initBob (sk bobDhKeypair sharedHka sharedNhkb : Block B 32) (maxSkip : UInt32) :
    HeaderEncryptState B :=
  { dhs := some bobDhKeypair, dhr := none, rk := sk, cks := none, ckr := none
    hks := none, nhks := some sharedNhkb, hkr := none, nhkr := some sharedHka
    ns := 0, nr := 0, pn := 0, mkskipped := ∅, maxSkip }

/-- `encrypt`, with the header nonce it draws: the sealed header and the ciphertext. -/
def encrypt (headerNonce : Block B 12) (s : HeaderEncryptState B) (plaintext ad : List B) :
    Except PrimitiveError ((List B × List B) × HeaderEncryptState B) := do
  let some cks := s.cks | throw .internal
  let (newCks, msgKey) := kdfCkHe P cks
  let ns ← checkedInc s.ns
  let some dhs := s.dhs | throw .internal
  let header : Header B := { dh := P.publicKey dhs, pn := s.pn, n := s.ns }
  let some hks := s.hks | throw .internal
  let encHeader ← hencrypt P hks headerNonce header.encode
  let ct ← aeadSeal P msgKey (deriveNonce msgKey) plaintext (concatAdHe ad encHeader)
  return ((encHeader, ct), { s with cks := some newCks, ns })

/-- The loop of `try_skipped` over the header keys of the stored message keys. -/
def trySkippedLoop (encHeader : List B) (s : HeaderEncryptState B) :
    List (Block B 32) → Option (Block B 32 × HeaderEncryptState B)
  | [] => none
  | hk :: hks =>
    match hdecrypt P hk encHeader with
    | .error _ => trySkippedLoop encHeader s hks
    | .ok header =>
      match s.mkskipped.lookup (hk, header.n) with
      | some msgKey =>
        some (msgKey, { s with mkskipped := s.mkskipped.erase (hk, header.n) })
      | none => trySkippedLoop encHeader s hks

/-- `try_skipped`. -/
def trySkipped (σ : Enumeration) (encHeader : List B) (s : HeaderEncryptState B) :
    Option (Block B 32 × HeaderEncryptState B) :=
  trySkippedLoop P encHeader s ((σ.list s.mkskipped).map fun e ↦ e.1.1)

/-- The loop of `skip_message_keys`, `fuel` positions long. -/
def skipLoop (hkr : Block B 32) : ℕ → HeaderEncryptState B → Block B 32 →
    Except PrimitiveError (HeaderEncryptState B × Block B 32)
  | 0, s, ckr => .ok (s, ckr)
  | fuel + 1, s, ckr =>
    if UInt32.ofNat s.mkskipped.size ≥ s.maxSkip then .error .invalidLength
    else do
      let (newCkr, msgKey) := kdfCkHe P ckr
      let nr ← checkedInc s.nr
      skipLoop hkr fuel { s with mkskipped := s.mkskipped.insert (hkr, s.nr) msgKey, nr } newCkr

/-- `skip_message_keys`. The limit saturates instead of failing. -/
def skipMessageKeys (s : HeaderEncryptState B) (upTo : UInt32) :
    Except PrimitiveError (HeaderEncryptState B) :=
  if min (s.nr.toNat + s.maxSkip.toNat) (2 ^ 32 - 1) < upTo.toNat then .error .invalidLength
  else match s.ckr, s.hkr with
    | some ckr, some hkr => do
      let (s, ckr) ← skipLoop P hkr (upTo.toNat - s.nr.toNat) s ckr
      return { s with ckr := some ckr }
    | _, _ => .ok s

/-- `dh_ratchet`, with the sending secret it draws. -/
def dhRatchet (fresh : Block B 32) (header : Header B) (s : HeaderEncryptState B) :
    Except PrimitiveError (HeaderEncryptState B) := do
  let some dhs := s.dhs | throw .internal
  let (rk1, ckr, nhkr) := kdfRkHe P s.rk (P.diffieHellman dhs header.dh)
  let (rk2, cks, nhks) := kdfRkHe P rk1 (P.diffieHellman fresh header.dh)
  return { s with
    pn := s.ns, ns := 0, nr := 0, hks := s.nhks, hkr := s.nhkr, dhr := some header.dh
    rk := rk2, ckr := some ckr, nhkr := some nhkr, cks := some cks, nhks := some nhks
    dhs := some fresh }

/-- One step of the receiving chain. -/
def advanceReceiving (s : HeaderEncryptState B) :
    Except PrimitiveError (Block B 32 × HeaderEncryptState B) := do
  let some ckr := s.ckr | throw .internal
  let (newCkr, msgKey) := kdfCkHe P ckr
  let nr ← checkedInc s.nr
  return (msgKey, { s with ckr := some newCkr, nr })

/-- The header a key opens, when there is a key and it opens one. -/
def tryHeader (hk : Option (Block B 32)) (encHeader : List B) : Option (Header B) :=
  hk.bind fun hk ↦ (hdecrypt P hk encHeader).toOption

/-- `receive_key`: stored keys, the current header key, the next header key. -/
def receiveKey (σ : Enumeration) (fresh : Block B 32) (encHeader : List B)
    (s : HeaderEncryptState B) : Except PrimitiveError (Block B 32 × HeaderEncryptState B) :=
  match trySkipped P σ encHeader s with
  | some r => .ok r
  | none =>
    match tryHeader P s.hkr encHeader with
    | some header => do
      let s ← skipMessageKeys P s header.n
      advanceReceiving P s
    | none =>
      match tryHeader P s.nhkr encHeader with
      | some header => do
        let s ← skipMessageKeys P s header.pn
        let s ← dhRatchet P fresh header s
        let s ← skipMessageKeys P s header.n
        advanceReceiving P s
      | none => .error .aeadAuthFailed

/-- `decrypt`: the result, and the state left behind. -/
def decrypt (σ : Enumeration) (fresh : Block B 32) (encHeader ciphertext ad : List B)
    (s : HeaderEncryptState B) : Except PrimitiveError (List B) × HeaderEncryptState B :=
  match receiveKey P σ fresh encHeader s with
  | .error e => (.error e, s)
  | .ok (msgKey, trial) =>
    match aeadOpen P msgKey (deriveNonce msgKey) ciphertext (concatAdHe ad encHeader) with
    | .error e => (.error e, s)
    | .ok plaintext => (.ok plaintext, trial)

/-- **`decrypt` commits or does nothing.** -/
theorem decrypt_cases (P : Primitives B) (σ : Enumeration) (fresh : Block B 32)
    (encHeader ct ad : List B) (s : HeaderEncryptState B) :
    (∃ msgKey trial pt, receiveKey P σ fresh encHeader s = .ok (msgKey, trial) ∧
      aeadOpen P msgKey (deriveNonce msgKey) ct (concatAdHe ad encHeader) = .ok pt ∧
      decrypt P σ fresh encHeader ct ad s = (.ok pt, trial)) ∨
    ∃ e, decrypt P σ fresh encHeader ct ad s = (.error e, s) := by
  unfold decrypt
  cases hkey : receiveKey P σ fresh encHeader s with
  | error e => exact .inr ⟨e, rfl⟩
  | ok r =>
    obtain ⟨msgKey, trial⟩ := r
    cases hopen : aeadOpen P msgKey (deriveNonce msgKey) ct (concatAdHe ad encHeader) with
    | error e => exact .inr ⟨e, by simp only [hopen]⟩
    | ok pt => exact .inl ⟨msgKey, trial, pt, rfl, hopen, by simp only [hopen]⟩

end HeaderEncryptState

end VoiceChatCrypto
