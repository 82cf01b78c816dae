import VoiceChatCrypto.Data.Checked
import VoiceChatCrypto.Engine.Session
import VoiceChatCrypto.Envelope.Codec

/-!
# Parsers on machine words

The parsers of untrusted bytes once more, now with the index arithmetic of the source: every sum, slice
and conversion is one that the machine checks (`Data/Checked.lean`), on words of `w` bits.

A length of 16 bits cannot overflow a sum with an index, since no string has more than half as many
bytes as there are addresses. A length of 32 bits can, where words have 32 bits: three of the six
parsers add one to the index **before** they compare it with the length of the input.
-/

open Alphabet

namespace VoiceChatCrypto

/-- The pointer widths of the supported targets. -/
inductive PointerWidth
  | w32
  | w64
  deriving DecidableEq

/-- The number of bits of a `usize`. -/
def PointerWidth.bits : PointerWidth → ℕ
  | w32 => 32
  | w64 => 64

/-- A byte string in memory: it has at most `isize::MAX` bytes. -/
structure Slice (w : PointerWidth) where
  /-- Its contents. -/
  bytes : List UInt8
  /-- Rust allocates nothing larger. -/
  length_lt : bytes.length < 2 ^ (w.bits - 1)

open Checked

variable (w : ℕ) (data : List UInt8)

/-! ### Padding -/

/-- `padding::unpad`. -/
def unpad : Checked PrimitiveError (List UInt8) := do
  ensure (4 ≤ data.length) .invalidLength
  let len ← word w data 0 4
  let stop ← add w 4 len
  ensure (stop ≤ data.length) .invalidLength
  slice data 4 stop

/-! ### Sealed messages and packets -/

/-- `SealedMessage::decode`. -/
def SealedMessage.decodeAt : Checked CryptoError (SealedMessage UInt8) := do
  ensure (8 + 16 + 8 ≤ data.length) .invalidArgument
  let magic ← slice data 0 8
  ensure (magic = ascii "VCSEAL01") .invalidArgument
  let i := 8
  let stop ← add w i 16
  let hint ← slice data i stop
  let hint ← array 16 hint
  let i ← add w i 16
  let stop ← add w i 4
  ensure (stop ≤ data.length) .invalidArgument
  let hlen ← word w data i 4
  let i ← add w i 4
  let stop ← add w i hlen
  let stop ← add w stop 4
  ensure (stop ≤ data.length) .invalidArgument
  let stop ← add w i hlen
  let header ← slice data i stop
  let i ← add w i hlen
  let clen ← word w data i 4
  let i ← add w i 4
  let stop ← add w i clen
  ensure (stop = data.length) .invalidArgument
  let ciphertext ← slice data i data.length
  return { header, ciphertext, sessionHint := hint }

/-- A `take` of two or four bytes as an integer. -/
def takeInt {ε : Type} (e : ε) (i k : ℕ) : Checked ε (ℕ × ℕ) := do
  let (s, i) ← take w e data i k
  let bs ← array k s
  return (fromLe bs.val, i)

/-- A `take` of an array. -/
def takeArray {ε : Type} (e : ε) (i n : ℕ) : Checked ε (Block UInt8 n × ℕ) := do
  let (s, i) ← take w e data i n
  let bs ← array n s
  return (bs, i)

/-- A `take` of one byte. -/
def takeByte {ε : Type} (e : ε) (i : ℕ) : Checked ε (UInt8 × ℕ) := do
  let (s, i) ← take w e data i 1
  let b ← index s 0
  return (b, i)

/-- The optional one-time prekey id of a packet. -/
def InitiationPacket.opkIdAt (hasOpk : UInt8) (i : ℕ) : Checked CryptoError (Option UInt32 × ℕ) :=
  if hasOpk = 0 then ok (none, i)
  else if hasOpk = 1 then do
    let (id, i) ← takeInt w data .invalidArgument i 4
    return (some (UInt32.ofNat id), i)
  else err .invalidArgument

/-- The end of a packet: the PQ prekey id and the first message. -/
def InitiationPacket.firstMessageAt (i : ℕ) : Checked CryptoError (ℕ × SealedMessage UInt8) := do
  let (pqId, i) ← takeInt w data .invalidArgument i 4
  let (firstLen, i) ← takeInt w data .invalidArgument i 4
  let (first, i) ← take w .invalidArgument data i firstLen
  ensure (i = data.length) .invalidArgument
  let firstMessage ← SealedMessage.decodeAt w first
  return (pqId, firstMessage)

/-- `InitiationPacket::decode`. -/
def InitiationPacket.decodeAt : Checked CryptoError (InitiationPacket UInt8) := do
  ensure (8 + 32 + 32 + 2 + 4 + 1 + 4 + 4 ≤ data.length) .invalidArgument
  let magic ← slice data 0 8
  ensure (magic = ascii "VCINIT01") .invalidArgument
  let (ik, i) ← takeArray w data .invalidArgument 8 32
  let (ek, i) ← takeArray w data .invalidArgument i 32
  let (ctLen, i) ← takeInt w data .invalidArgument i 2
  let (kemCiphertext, i) ← take w .invalidArgument data i ctLen
  let (spkId, i) ← takeInt w data .invalidArgument i 4
  let (hasOpk, i) ← takeByte w data .invalidArgument i
  let (usedEcOpkId, i) ← opkIdAt w data hasOpk i
  let (pqId, firstMessage) ← firstMessageAt w data i
  return { senderIdentityPublic := ik, senderEphemeralPublic := ek, kemCiphertext
           usedSpkId := UInt32.ofNat spkId, usedEcOpkId, pqPrekeyId := UInt32.ofNat pqId
           firstMessage }

/-! ### Prekey bundles -/

/-- The optional one-time EC prekey of a bundle. -/
def PublicPrekeyBundle.oneTimeEcAt (hasOpk : UInt8) (i : ℕ) :
    Checked PrimitiveError (Option (UInt32 × Block UInt8 32) × ℕ) :=
  if hasOpk = 0 then ok (none, i)
  else if hasOpk = 1 then do
    let (id, i) ← takeInt w data .invalidLength i 4
    let (pk, i) ← takeArray w data .invalidLength i 32
    let pk ← ofExcept (publicFromBytes pk)
    return (some (UInt32.ofNat id, pk), i)
  else err .invalidLength

/-- `PublicPrekeyBundle::decode`. -/
def PublicPrekeyBundle.decodeAt (P : Primitives UInt8) :
    Checked PrimitiveError (PublicPrekeyBundle UInt8) := do
  ensure (8 + 32 + 4 + 32 + 64 + 1 + 4 + 2 + 64 + 1 ≤ data.length) .invalidLength
  let magic ← slice data 0 8
  ensure (magic = ascii "VCBUNDL1") .invalidLength
  let (ik, i) ← takeArray w data .invalidLength 8 32
  let (spkId, i) ← takeInt w data .invalidLength i 4
  let (spk, i) ← takeArray w data .invalidLength i 32
  let (spkSig, i) ← takeArray w data .invalidLength i 64
  let (hasOpk, i) ← takeByte w data .invalidLength i
  let (oneTimeEc, i) ← oneTimeEcAt w data hasOpk i
  let (pqId, i) ← takeInt w data .invalidLength i 4
  let (pqLen, i) ← takeInt w data .invalidLength i 2
  let (pq, i) ← take w .invalidLength data i pqLen
  let (pqSig, i) ← takeArray w data .invalidLength i 64
  let (isOne, i) ← takeByte w data .invalidLength i
  ensure (i = data.length) .invalidLength
  let identityKey ← ofExcept (publicFromBytes ik)
  let signedPrekey ← ofExcept (publicFromBytes spk)
  let bundle : PublicPrekeyBundle UInt8 :=
    { identityKey, signedPrekeyId := UInt32.ofNat spkId, signedPrekey, signedPrekeySig := spkSig
      oneTimeEc, pqPrekeyId := UInt32.ofNat pqId, pqPrekeyPublic := pq, pqPrekeySig := pqSig
      isPqOneTime := isOne = 1 }
  ofExcept (bundle.validate P)
  return bundle

/-! ### Hybrid headers -/

/-- `Header::decode`. -/
def Header.decodeAt : Checked PrimitiveError (Header UInt8) := do
  ensure (data.length = 40) .invalidLength
  let pk ← slice data 0 32
  let pk ← array 32 pk
  let dh ← ofExcept (publicFromBytes pk)
  let pn ← word w data 32 4
  let n ← word w data 36 4
  return { dh, pn := UInt32.ofNat pn, n := UInt32.ofNat n }

/-- `BraidMessage::decode`. -/
def BraidMessage.decodeAt : Checked PrimitiveError (BraidMessage UInt8) := do
  ensure (9 ≤ data.length) .invalidLength
  let epoch ← slice data 0 8
  let epoch ← array 8 epoch
  let tag ← index data 8
  let typ ← ofExcept (BraidType.fromNat tag.toNat)
  let rest ← slice data 9 data.length
  ensure ((typ = .none ∨ typ = .ct1Ack) ∨ rest.length = chunkWire) .invalidLength
  return { epoch := UInt64.ofNat (fromBe epoch.val), typ, data := rest }

/-- The optional Braid message of a hybrid header. -/
def TripleHeader.sckaAt : Checked PrimitiveError (Option (BraidMessage UInt8)) :=
  if data.length = 48 then ok none
  else do
    let tag ← index data 48
    if tag = 0 then
      ensure (data.length = 49) .invalidLength
      return none
    else if 51 ≤ data.length ∧ tag = 1 then
      let n ← word w data 49 2
      let total ← add w 51 n
      ensure (data.length = total) .invalidLength
      let blob ← slice data 51 data.length
      let m ← BraidMessage.decodeAt blob
      return some m
    else err .invalidLength

/-- `TripleHeader::decode`. -/
def TripleHeader.decodeAt : Checked PrimitiveError (TripleHeader UInt8) := do
  ensure (48 ≤ data.length) .invalidLength
  let classical ← slice data 0 40
  let classical ← Header.decodeAt w classical
  let pqEpoch ← word w data 40 4
  let pqN ← word w data 44 4
  let scka ← sckaAt w data
  return { classical, pqEpoch := UInt32.ofNat pqEpoch, pqN := UInt32.ofNat pqN, scka }

/-! ### Envelopes -/

namespace Envelope

/-- `read_u8`. -/
def readU8At (i : ℕ) : Checked PrimitiveError (UInt8 × ℕ) := do
  ensure (i < data.length) .invalidLength
  let v ← index data i
  let i ← add w i 1
  return (v, i)

/-- `read_u16`, `read_u32` and `read_u64`, by width. -/
def readLeAt (i k : ℕ) : Checked PrimitiveError (ℕ × ℕ) := do
  let stop ← add w i k
  ensure (stop ≤ data.length) .invalidLength
  let v ← word w data i k
  let i ← add w i k
  return (v, i)

/-- `read_bytes_u16`. -/
def readBytesU16At (i : ℕ) : Checked PrimitiveError (List UInt8 × ℕ) := do
  let (len, i) ← readLeAt w data i 2
  ensure (len ≤ maxIdLen) .invalidLength
  let stop ← add w i len
  ensure (stop ≤ data.length) .invalidLength
  let v ← slice data i stop
  let i ← add w i len
  return (v, i)

/-- The voice block of `parse`. -/
def readVoiceAt (payloadType : PayloadType) (i : ℕ) :
    Checked PrimitiveError (Option SyntheticVoiceMeta × ℕ) :=
  if payloadType = .syntheticVoice then do
    let (codecBytes, i) ← readBytesU16At w data i
    let codec ← ofExcept (fromUtf8 codecBytes)
    ensure (isAscii codec ∧ (asBytes codec).length ≤ maxIdLen) .invalidLength
    let (durationMs, i) ← readLeAt w data i 4
    let (payloadLength, i) ← readLeAt w data i 4
    return (some { codec, durationMs := UInt32.ofNat durationMs
                   payloadLength := UInt32.ofNat payloadLength }, i)
  else ok (none, i)

/-- `parse`. -/
def parseAt : Checked PrimitiveError Envelope := do
  let (version, i) ← readU8At w data 0
  ensure (version = envelopeVersion) .invalidLength
  let (suite, i) ← readU8At w data i
  let cryptoSuite ← ofExcept (CryptoSuite.fromU8 suite)
  let (conversationId, i) ← readBytesU16At w data i
  let (senderUserId, i) ← readBytesU16At w data i
  let (senderDeviceId, i) ← readBytesU16At w data i
  let (recipientUserId, i) ← readBytesU16At w data i
  let (recipientDeviceId, i) ← readBytesU16At w data i
  let (messageId, i) ← readBytesU16At w data i
  let (messageType, i) ← readU8At w data i
  let (sequence, i) ← readLeAt w data i 8
  let (createdTimestamp, i) ← readLeAt w data i 8
  let (typ, i) ← readU8At w data i
  let payloadType ← ofExcept (PayloadType.fromU8 typ)
  let (syntheticVoice, i) ← readVoiceAt w data payloadType i
  let (payloadLen, i) ← readLeAt w data i 4
  ensure (payloadLen ≤ maxPayloadLen) .invalidLength
  let stop ← add w i payloadLen
  ensure (stop = data.length) .invalidLength
  let stop ← add w i payloadLen
  let payload ← slice data i stop
  ensure (¬ syntheticVoice.any fun voice ↦ voice.payloadLength.toNat ≠ payload.length) .invalidLength
  let e : Envelope :=
    { protocolVersion := version, cryptoSuite, conversationId, senderUserId, senderDeviceId
      recipientUserId, recipientDeviceId, messageId, messageType
      sequence := UInt64.ofNat sequence, createdTimestamp := UInt64.ofNat createdTimestamp
      payloadType, syntheticVoice, payload }
  ofExcept e.validateLimits
  return e

end Envelope

/-! ### Reads that cannot panic -/

variable {w data}

/-- There are far more addresses than bytes of a string, so that an offset into it can be increased
by a small constant without overflow. -/
def Roomy (w : ℕ) (data : List UInt8) : Prop := data.length + 2 ^ 24 ≤ 2 ^ w

/-- Whatever is in memory leaves room for the offsets of the parsers. -/
theorem Slice.roomy {w : PointerWidth} (s : Slice w) : Roomy w.bits s.bytes := by
  have h := s.length_lt
  unfold Roomy
  cases w with
  | w32 =>
    simp only [PointerWidth.bits] at h ⊢
    omega
  | w64 =>
    simp only [PointerWidth.bits] at h ⊢
    omega

section Reads

variable {ε : Type} {e : ε} {i n : ℕ}

/-- The index that a read returns lies in the string. -/
def Inside {α : Type} (data : List UInt8) (out : α × ℕ) : Prop := out.2 ≤ data.length

/-- An array of a fixed small size is read without a panic from any offset within the data. -/
theorem takeArray_safe (hroom : Roomy w data) (hi : i ≤ data.length) (hn : n < 2 ^ 24) :
    Safe (takeArray w data e i n) (Inside data) := by
  unfold Roomy at hroom
  refine Safe.bind (Safe.take (by omega)) ?_
  rintro ⟨s, j⟩ ⟨hlen, hj⟩
  exact Safe.bind (Safe.array hlen) fun _ _ ↦ hj

theorem takeInt_safe (hroom : Roomy w data) (hi : i ≤ data.length) (hn : n < 2 ^ 24) :
    Safe (takeInt w data e i n) fun out ↦ out.1 < 256 ^ n ∧ out.2 ≤ data.length := by
  unfold Roomy at hroom
  refine Safe.bind (Safe.take (by omega)) ?_
  rintro ⟨s, j⟩ ⟨hlen, hj⟩
  refine Safe.bind (Safe.array hlen) fun b _ ↦ ⟨?_, hj⟩
  have h := fromLe_lt b.val
  rwa [Block.length_val] at h

/-- A byte is read without a panic from any offset within the data. -/
theorem takeByte_safe (hroom : Roomy w data) (hi : i ≤ data.length) :
    Safe (takeByte w data e i) (Inside data) := by
  unfold Roomy at hroom
  refine Safe.bind (Safe.take (by omega)) ?_
  rintro ⟨s, j⟩ ⟨hlen, hj⟩
  exact Safe.bind (Safe.index (by dsimp only at hlen ⊢; omega)) fun _ _ ↦ hj

/-- A slice of fewer than `2^24` bytes is taken without a panic from any offset within the data. -/
theorem take_safe (hroom : Roomy w data) (hi : i ≤ data.length) (hn : n < 2 ^ 24) :
    Safe (take w e data i n) (Inside data) := by
  unfold Roomy at hroom
  exact (Safe.take (by omega)).mono fun _ h ↦ h.2

end Reads

/-! ### Prekey bundles -/

/-- The optional one-time prekey of a bundle is read without a panic, whatever its tag. -/
theorem PublicPrekeyBundle.oneTimeEcAt_safe (hroom : Roomy w data) (hasOpk : UInt8) {i : ℕ}
    (hi : i ≤ data.length) : Safe (oneTimeEcAt w data hasOpk i) (Inside data) := by
  unfold oneTimeEcAt
  split
  · exact hi
  split
  · refine Safe.bind (takeInt_safe hroom hi (by omega)) ?_
    rintro ⟨id, i⟩ ⟨-, hi⟩
    refine Safe.bind (takeArray_safe hroom hi (by omega)) ?_
    rintro ⟨pk, i⟩ hi
    exact Safe.bind (Safe.ofExcept _) fun _ _ ↦ hi
  · trivial

/-- **Decoding a bundle does not panic.** Its only length has 16 bits, and a string in memory leaves
that much room on either width. -/
theorem PublicPrekeyBundle.decodeAt_safe (hroom : Roomy w data) (P : Primitives UInt8) :
    Safe (decodeAt w data P) fun _ ↦ True := by
  refine Safe.bind (Safe.ensure _ _) fun _ hlen ↦ ?_
  refine Safe.bind (Safe.slice (by omega) (by omega)) fun magic _ ↦ ?_
  refine Safe.bind (Safe.ensure _ _) fun _ _ ↦ ?_
  refine Safe.bind (takeArray_safe hroom (by omega) (by omega)) ?_
  rintro ⟨ik, i⟩ hi
  refine Safe.bind (takeInt_safe hroom hi (by omega)) ?_
  rintro ⟨spkId, i⟩ ⟨-, hi⟩
  refine Safe.bind (takeArray_safe hroom hi (by omega)) ?_
  rintro ⟨spk, i⟩ hi
  refine Safe.bind (takeArray_safe hroom hi (by omega)) ?_
  rintro ⟨spkSig, i⟩ hi
  refine Safe.bind (takeByte_safe hroom hi) ?_
  rintro ⟨hasOpk, i⟩ hi
  refine Safe.bind (oneTimeEcAt_safe hroom hasOpk hi) ?_
  rintro ⟨oneTimeEc, i⟩ hi
  refine Safe.bind (takeInt_safe hroom hi (by omega)) ?_
  rintro ⟨pqId, i⟩ ⟨-, hi⟩
  refine Safe.bind (takeInt_safe hroom hi (by omega)) ?_
  rintro ⟨pqLen, i⟩ ⟨hpqLen, hi⟩
  refine Safe.bind (take_safe hroom hi (by dsimp only at hpqLen ⊢; omega)) ?_
  rintro ⟨pq, i⟩ hi
  refine Safe.bind (takeArray_safe hroom hi (by omega)) ?_
  rintro ⟨pqSig, i⟩ hi
  refine Safe.bind (takeByte_safe hroom hi) ?_
  rintro ⟨isOne, i⟩ hi
  refine Safe.bind (Safe.ensure _ _) fun _ _ ↦ ?_
  refine Safe.bind (Safe.ofExcept _) fun _ _ ↦ ?_
  refine Safe.bind (Safe.ofExcept _) fun _ _ ↦ ?_
  exact Safe.bind (Safe.ofExcept _) fun _ _ ↦ trivial

/-! ### Hybrid headers -/

/-- The header of the classical ratchet is decoded without a panic. -/
theorem Header.decodeAt_safe (hroom : Roomy w data) : Safe (decodeAt w data) fun _ ↦ True := by
  unfold Roomy at hroom
  refine Safe.bind (Safe.ensure _ _) fun _ hlen ↦ ?_
  refine Safe.bind (Safe.slice (by omega) (by omega)) fun pk hpk ↦ ?_
  refine Safe.bind (Safe.array (by omega)) fun _ _ ↦ ?_
  refine Safe.bind (Safe.ofExcept _) fun _ _ ↦ ?_
  refine Safe.bind (Safe.word (by omega) (by omega)) fun _ _ ↦ ?_
  exact Safe.bind (Safe.word (by omega) (by omega)) fun _ _ ↦ trivial

theorem BraidMessage.decodeAt_safe (data : List UInt8) : Safe (decodeAt data) fun _ ↦ True := by
  refine Safe.bind (Safe.ensure _ _) fun _ hlen ↦ ?_
  refine Safe.bind (Safe.slice (by omega) (by omega)) fun epoch hepoch ↦ ?_
  refine Safe.bind (Safe.array (by omega)) fun _ _ ↦ ?_
  refine Safe.bind (Safe.index (by omega)) fun _ _ ↦ ?_
  refine Safe.bind (Safe.ofExcept _) fun _ _ ↦ ?_
  refine Safe.bind (Safe.slice (by omega) (by omega)) fun _ _ ↦ ?_
  exact Safe.bind (Safe.ensure _ _) fun _ _ ↦ trivial

/-- The Braid part of a hybrid header is decoded without a panic. -/
theorem TripleHeader.sckaAt_safe (hroom : Roomy w data) (hlen : 48 ≤ data.length) :
    Safe (sckaAt w data) fun _ ↦ True := by
  unfold Roomy at hroom
  unfold sckaAt
  split
  · trivial
  refine Safe.bind (Safe.index (by omega)) fun tag _ ↦ ?_
  split
  · exact Safe.bind (Safe.ensure _ _) fun _ _ ↦ trivial
  split
  · rename_i h51
    refine Safe.bind (Safe.word (by omega) (by omega)) fun n hn ↦ ?_
    refine Safe.bind (Safe.add (by omega)) fun total _ ↦ ?_
    refine Safe.bind (Safe.ensure _ _) fun _ _ ↦ ?_
    refine Safe.bind (Safe.slice (by omega) (by omega)) fun blob _ ↦ ?_
    exact Safe.bind (BraidMessage.decodeAt_safe blob) fun _ _ ↦ trivial
  · trivial

/-- **Decoding a hybrid header does not panic.** -/
theorem TripleHeader.decodeAt_safe (hroom : Roomy w data) :
    Safe (decodeAt w data) fun _ ↦ True := by
  have hroom' := hroom
  unfold Roomy at hroom'
  refine Safe.bind (Safe.ensure _ _) fun _ hlen ↦ ?_
  refine Safe.bind (Safe.slice (by omega) (by omega)) fun classical hclassical ↦ ?_
  have hshort : Roomy w classical := by
    unfold Roomy
    omega
  refine Safe.bind (Header.decodeAt_safe hshort) fun _ _ ↦ ?_
  refine Safe.bind (Safe.word (by omega) (by omega)) fun _ _ ↦ ?_
  refine Safe.bind (Safe.word (by omega) (by omega)) fun _ _ ↦ ?_
  exact Safe.bind (sckaAt_safe hroom hlen) fun _ _ ↦ trivial

/-! ### Envelopes -/

namespace Envelope

theorem readU8At_safe (hroom : Roomy w data) (i : ℕ) : Safe (readU8At w data i) (Inside data) := by
  unfold Roomy at hroom
  refine Safe.bind (Safe.ensure _ _) fun _ hi ↦ ?_
  refine Safe.bind (Safe.index hi) fun _ _ ↦ ?_
  refine Safe.bind (Safe.add (by omega)) ?_
  rintro j rfl
  exact hi

/-- A number of an envelope is read without a panic. -/
theorem readLeAt_safe (hroom : Roomy w data) {i k : ℕ} (hi : i ≤ data.length) (hk : k < 2 ^ 24) :
    Safe (readLeAt w data i k) fun out ↦ out.1 < 256 ^ k ∧ out.2 ≤ data.length := by
  unfold Roomy at hroom
  refine Safe.bind (Safe.add (by omega)) ?_
  rintro stop rfl
  refine Safe.bind (Safe.ensure _ _) fun _ hstop ↦ ?_
  refine Safe.bind (Safe.word (by omega) hstop) fun v hv ↦ ?_
  refine Safe.bind (Safe.add (by omega)) ?_
  rintro j rfl
  exact ⟨hv, hstop⟩

/-- A string of an envelope is read without a panic, whatever length it announces. -/
theorem readBytesU16At_safe (hroom : Roomy w data) {i : ℕ} (hi : i ≤ data.length) :
    Safe (readBytesU16At w data i) (Inside data) := by
  have hmax : maxIdLen = 128 := rfl
  refine Safe.bind (readLeAt_safe hroom hi (by omega)) ?_
  rintro ⟨len, i⟩ ⟨-, hi⟩
  dsimp only at hi ⊢
  unfold Roomy at hroom
  refine Safe.bind (Safe.ensure _ _) fun _ hlen ↦ ?_
  refine Safe.bind (Safe.add (by omega)) ?_
  rintro stop rfl
  refine Safe.bind (Safe.ensure _ _) fun _ hstop ↦ ?_
  refine Safe.bind (Safe.slice (by omega) hstop) fun _ _ ↦ ?_
  refine Safe.bind (Safe.add (by omega)) ?_
  rintro j rfl
  exact hstop

/-- The voice block of an envelope is read without a panic. -/
theorem readVoiceAt_safe (hroom : Roomy w data) (typ : PayloadType) {i : ℕ} (hi : i ≤ data.length) :
    Safe (readVoiceAt w data typ i) (Inside data) := by
  unfold readVoiceAt
  split
  · refine Safe.bind (readBytesU16At_safe hroom hi) ?_
    rintro ⟨codecBytes, i⟩ hi
    refine Safe.bind (Safe.ofExcept _) fun codec _ ↦ ?_
    refine Safe.bind (Safe.ensure _ _) fun _ _ ↦ ?_
    refine Safe.bind (readLeAt_safe hroom hi (by omega)) ?_
    rintro ⟨durationMs, i⟩ ⟨-, hi⟩
    refine Safe.bind (readLeAt_safe hroom hi (by omega)) ?_
    rintro ⟨payloadLength, i⟩ ⟨-, hi⟩
    exact hi
  · exact hi

/-- **Parsing an envelope does not panic.** The payload length has 32 bits, but is compared with the
limit before it is added to the index. -/
theorem parseAt_safe (hroom : Roomy w data) : Safe (parseAt w data) fun _ ↦ True := by
  have hmax : maxPayloadLen = 2 ^ 20 := rfl
  have hroom' := hroom
  unfold Roomy at hroom'
  refine Safe.bind (readU8At_safe hroom 0) ?_
  rintro ⟨version, i⟩ -
  refine Safe.bind (Safe.ensure _ _) fun _ _ ↦ ?_
  refine Safe.bind (readU8At_safe hroom i) ?_
  rintro ⟨suite, i⟩ hi
  refine Safe.bind (Safe.ofExcept _) fun cryptoSuite _ ↦ ?_
  refine Safe.bind (readBytesU16At_safe hroom hi) ?_
  rintro ⟨conversationId, i⟩ hi
  refine Safe.bind (readBytesU16At_safe hroom hi) ?_
  rintro ⟨senderUserId, i⟩ hi
  refine Safe.bind (readBytesU16At_safe hroom hi) ?_
  rintro ⟨senderDeviceId, i⟩ hi
  refine Safe.bind (readBytesU16At_safe hroom hi) ?_
  rintro ⟨recipientUserId, i⟩ hi
  refine Safe.bind (readBytesU16At_safe hroom hi) ?_
  rintro ⟨recipientDeviceId, i⟩ hi
  refine Safe.bind (readBytesU16At_safe hroom hi) ?_
  rintro ⟨messageId, i⟩ hi
  refine Safe.bind (readU8At_safe hroom i) ?_
  rintro ⟨messageType, i⟩ hi
  refine Safe.bind (readLeAt_safe hroom hi (by omega)) ?_
  rintro ⟨sequence, i⟩ ⟨-, hi⟩
  refine Safe.bind (readLeAt_safe hroom hi (by omega)) ?_
  rintro ⟨createdTimestamp, i⟩ ⟨-, hi⟩
  refine Safe.bind (readU8At_safe hroom i) ?_
  rintro ⟨typ, i⟩ hi
  refine Safe.bind (Safe.ofExcept _) fun payloadType _ ↦ ?_
  refine Safe.bind (readVoiceAt_safe hroom payloadType hi) ?_
  rintro ⟨syntheticVoice, i⟩ hi
  refine Safe.bind (readLeAt_safe hroom hi (by omega)) ?_
  rintro ⟨payloadLen, i⟩ ⟨-, hi⟩
  dsimp only at hi ⊢
  refine Safe.bind (Safe.ensure _ _) fun _ hpayload ↦ ?_
  refine Safe.bind (Safe.add (by omega)) ?_
  rintro stop rfl
  refine Safe.bind (Safe.ensure _ _) fun _ hall ↦ ?_
  refine Safe.bind (Safe.add (by omega)) ?_
  rintro stop rfl
  refine Safe.bind (Safe.slice (by omega) hall.le) fun payload _ ↦ ?_
  refine Safe.bind (Safe.ensure _ _) fun _ _ ↦ ?_
  exact Safe.bind (Safe.ofExcept _) fun _ _ ↦ trivial

end Envelope

/-! ### The three that panic -/

/-- The length in front of padded data can be added to its own four bytes. With words of 64 bits it
always can. -/
def UnpadFits (w : ℕ) (data : List UInt8) : Prop := 4 ≤ data.length → 4 + wordAt data 0 4 < 2 ^ w

/-- **Reading a padded text panics exactly where its announced length overflows the word.** -/
theorem unpad_ne_panic_iff (hroom : Roomy w data) : unpad w data ≠ panic ↔ UnpadFits w data := by
  unfold Roomy at hroom
  unfold unpad UnpadFits
  rw [ensure_bind_ne_panic, word_bind_ne_panic, add_bind_ne_panic, ensure_bind_ne_panic]
  constructor
  · intro h h4
    exact (h h4).2.2.1
  · intro h h4
    exact ⟨by omega, by omega, h h4, fun hstop ↦ (Safe.slice (by omega) hstop).ne_panic⟩

/-- The two lengths of a sealed message can be added to the offsets behind them. -/
def SealedMessage.Fits (w : ℕ) (data : List UInt8) : Prop :=
  8 + 16 + 8 ≤ data.length → data.take 8 = ascii "VCSEAL01" →
    32 + wordAt data 24 4 < 2 ^ w ∧
      (32 + wordAt data 24 4 ≤ data.length →
        32 + wordAt data 24 4 + wordAt data (28 + wordAt data 24 4) 4 < 2 ^ w)

/-- **Decoding a message panics exactly where one of its announced lengths overflows the word.** -/
theorem SealedMessage.decodeAt_ne_panic_iff (hroom : Roomy w data) :
    decodeAt w data ≠ panic ↔ Fits w data := by
  unfold Roomy at hroom
  unfold decodeAt Fits
  simp only [ensure_bind_ne_panic, word_bind_ne_panic, add_bind_ne_panic, slice_bind_ne_panic,
    array_bind_ne_panic, List.drop_zero, Nat.sub_zero, Nat.reduceAdd]
  generalize wordAt data 24 4 = hlen
  generalize wordAt data (28 + hlen) 4 = clen
  constructor
  · intro h h32 hmagic
    obtain ⟨-, -, _, -, -, hheader⟩ := (h h32).2 hmagic
    obtain ⟨-, -, -, -, hsum, hciphertext⟩ := hheader (by omega)
    refine ⟨by omega, fun hle ↦ ?_⟩
    obtain ⟨-, -, -, -, -, -, hstop, -⟩ := hciphertext (by omega)
    omega
  · intro h h32
    refine ⟨by omega, fun hmagic ↦ ?_⟩
    obtain ⟨hsum, hciphertext⟩ := h h32 hmagic
    refine ⟨by omega, by omega, length_slice (by omega), by omega, by omega, fun _ ↦ ?_⟩
    refine ⟨by omega, by omega, by omega, by omega, by omega, fun hle ↦ ?_⟩
    have hstop := hciphertext (by omega)
    refine ⟨by omega, by omega, by omega, by omega, by omega, by omega, by omega, fun _ ↦ ?_⟩
    exact ⟨by omega, pure_ne_panic _⟩

section Sequences

variable {ε α : Type} {e : ε} {i n : ℕ}

/-- What follows an array is reached when there is enough left. -/
theorem takeArray_bind_ne_panic {f : Block UInt8 n × ℕ → Checked ε α} :
    (takeArray w data e i n >>= f) ≠ panic ↔
      i + n < 2 ^ w ∧ ∀ h : i + n ≤ data.length,
        f (⟨(data.drop i).take n, length_slice h⟩, i + n) ≠ panic := by
  unfold takeArray
  rw [Checked.bind_assoc, take_bind_ne_panic]
  refine and_congr_right fun _ ↦ forall_congr' fun hle ↦ ?_
  dsimp only
  rw [array_of_length (length_slice hle)]
  rfl

/-- What follows an integer is reached when there is enough left. -/
theorem takeInt_bind_ne_panic {f : ℕ × ℕ → Checked ε α} :
    (takeInt w data e i n >>= f) ≠ panic ↔
      i + n < 2 ^ w ∧ (i + n ≤ data.length → f (wordAt data i n, i + n) ≠ panic) := by
  unfold takeInt
  rw [Checked.bind_assoc, take_bind_ne_panic]
  refine and_congr_right fun _ ↦ forall_congr' fun hle ↦ ?_
  dsimp only
  rw [array_of_length (length_slice hle)]
  rfl

/-- What follows a byte is reached when there is one. -/
theorem takeByte_bind_ne_panic {f : UInt8 × ℕ → Checked ε α} :
    (takeByte w data e i >>= f) ≠ panic ↔
      i + 1 < 2 ^ w ∧ ∀ b, data[i]? = some b → f (b, i + 1) ≠ panic := by
  unfold takeByte
  rw [Checked.bind_assoc, take_bind_ne_panic]
  refine and_congr_right fun _ ↦ ⟨fun h b hb ↦ ?_, fun h hle ↦ ?_⟩
  · have hle : i + 1 ≤ data.length := (List.getElem?_eq_some_iff.1 hb).1
    have hget := h hle
    dsimp only at hget
    rw [index, List.getElem?_take_of_lt (by omega), List.getElem?_drop, Nat.add_zero, hb] at hget
    exact hget
  · have hlt : i < data.length := hle
    have hget := h _ (List.getElem?_eq_getElem hlt)
    dsimp only
    rw [index, List.getElem?_take_of_lt (by omega), List.getElem?_drop, Nat.add_zero,
      List.getElem?_eq_getElem hlt]
    exact hget

end Sequences

namespace InitiationPacket

/-- The length of a first message can be added to the offset behind it, and the lengths in that message
fit as well. -/
def FirstFits (w : ℕ) (data : List UInt8) (i : ℕ) : Prop :=
  i + 8 ≤ data.length → i + 8 + wordAt data (i + 4) 4 < 2 ^ w ∧
    (i + 8 + wordAt data (i + 4) 4 = data.length → SealedMessage.Fits w (data.drop (i + 8)))

/-- The first message of a packet comes after an optional id of four bytes, and fits. -/
def Fits (w : ℕ) (data : List UInt8) : Prop :=
  let tag := 78 + wordAt data 72 2
  8 + 32 + 32 + 2 + 4 + 1 + 4 + 4 ≤ data.length → data.take 8 = ascii "VCINIT01" →
    (data[tag]? = some 0 → FirstFits w data (tag + 1)) ∧
      (data[tag]? = some 1 → FirstFits w data (tag + 5))

/-- The embedded first message panics exactly where its announced length overflows the word. -/
theorem firstMessageAt_ne_panic_iff (hroom : Roomy w data) {i : ℕ} (hi : i ≤ data.length) :
    firstMessageAt w data i ≠ panic ↔ FirstFits w data i := by
  unfold Roomy at hroom
  unfold firstMessageAt FirstFits
  rw [takeInt_bind_ne_panic, takeInt_bind_ne_panic, take_bind_ne_panic, ensure_bind_ne_panic,
    bind_ne_panic_iff fun _ ↦ pure_ne_panic _, Nat.add_assoc i 4 4]
  generalize wordAt data (i + 4) 4 = len
  have hshort : Roomy w ((data.drop (i + 8)).take len) := by
    unfold Roomy
    rw [List.length_take, List.length_drop]
    omega
  rw [SealedMessage.decodeAt_ne_panic_iff hshort]
  constructor
  · intro h h8
    obtain ⟨hsum, hfirst⟩ := (h.2 (by omega)).2 h8
    refine ⟨hsum, fun hall ↦ ?_⟩
    have hfits := hfirst (by omega) hall
    rwa [List.take_of_length_le (by rw [List.length_drop]; omega)] at hfits
  · intro h
    refine ⟨by omega, fun h4 ↦ ⟨by omega, fun h8 ↦ ?_⟩⟩
    obtain ⟨hsum, hfirst⟩ := h h8
    refine ⟨hsum, fun _ hall ↦ ?_⟩
    rw [List.take_of_length_le (by rw [List.length_drop]; omega)]
    exact hfirst hall

/-- What follows the optional prekey id is reached with tag 0 at once, with tag 1 behind four bytes,
and otherwise not at all. -/
theorem opkIdAt_bind_ne_panic {tag : UInt8} {i : ℕ} {α : Type}
    {f : Option UInt32 × ℕ → Checked CryptoError α} :
    (opkIdAt w data tag i >>= f) ≠ panic ↔ (tag = 0 → f (none, i) ≠ panic) ∧
      (tag = 1 → i + 4 < 2 ^ w ∧ (i + 4 ≤ data.length →
        f (some (UInt32.ofNat (wordAt data i 4)), i + 4) ≠ panic)) := by
  unfold opkIdAt
  by_cases h0 : tag = 0
  · subst h0
    rw [if_pos rfl, ok_bind, forall_prop_of_true rfl]
    exact ⟨fun h ↦ ⟨h, fun h1 ↦ absurd h1 (by decide)⟩, fun h ↦ h.1⟩
  rw [if_neg h0]
  by_cases h1 : tag = 1
  · rw [if_pos h1, Checked.bind_assoc, takeInt_bind_ne_panic, forall_prop_of_true h1]
    exact ⟨fun h ↦ ⟨fun h0' ↦ absurd h0' h0, h⟩, fun h ↦ h.2⟩
  · rw [if_neg h1, err_bind]
    exact iff_of_true (err_ne_panic _) ⟨fun h ↦ absurd h h0, fun h ↦ absurd h h1⟩

/-- **Decoding an initiation panics exactly where one of its announced lengths overflows the word.**
-/
theorem decodeAt_ne_panic_iff (hroom : Roomy w data) : decodeAt w data ≠ panic ↔ Fits w data := by
  have hroom' := hroom
  unfold Roomy at hroom'
  have hct := wordAt_lt data 72 2
  unfold decodeAt Fits
  simp only [ensure_bind_ne_panic, slice_bind_ne_panic, takeArray_bind_ne_panic,
    takeInt_bind_ne_panic, takeByte_bind_ne_panic, take_bind_ne_panic, opkIdAt_bind_ne_panic,
    bind_ne_panic_iff fun _ ↦ pure_ne_panic _, List.drop_zero, Nat.sub_zero, Nat.reduceAdd]
  have htag : 74 + wordAt data 72 2 + 4 = 78 + wordAt data 72 2 := by omega
  rw [htag]
  generalize 78 + wordAt data 72 2 = tag at htag ⊢
  constructor
  · intro h h87 hmagic
    obtain ⟨-, h⟩ := h h87
    obtain ⟨-, h⟩ := h hmagic
    obtain ⟨-, h⟩ := h (by omega)
    obtain ⟨-, h⟩ := h (by omega)
    obtain ⟨-, h⟩ := h (by omega)
    refine ⟨fun h0 ↦ ?_, fun h1 h8 ↦ ?_⟩
    · have hlt : tag < data.length := (List.getElem?_eq_some_iff.1 h0).1
      obtain ⟨-, h⟩ := h (by omega)
      obtain ⟨-, h⟩ := h (by omega)
      exact (firstMessageAt_ne_panic_iff hroom hlt).1 ((h 0 h0).1 rfl)
    · obtain ⟨-, h⟩ := h (by omega)
      obtain ⟨-, h⟩ := h (by omega)
      obtain ⟨-, h⟩ := (h 1 h1).2 rfl
      exact (firstMessageAt_ne_panic_iff hroom (by omega)).1 (h (by omega)) h8
  · intro h h87
    refine ⟨by omega, fun hmagic ↦ ?_⟩
    obtain ⟨h0, h1⟩ := h h87 hmagic
    refine ⟨by omega, fun _ ↦ ⟨by omega, fun _ ↦ ⟨by omega, fun _ ↦ ⟨by omega, fun _ ↦ ⟨by omega,
      fun _ ↦ ⟨by omega, fun b hb ↦ ?_⟩⟩⟩⟩⟩⟩
    have hlt : tag < data.length := (List.getElem?_eq_some_iff.1 hb).1
    refine ⟨?_, ?_⟩
    · rintro rfl
      exact (firstMessageAt_ne_panic_iff hroom hlt).2 (h0 hb)
    · rintro rfl
      exact ⟨by omega, fun hle ↦ (firstMessageAt_ne_panic_iff hroom hle).2 (h1 hb)⟩

end InitiationPacket

/-! ### Where the parsers panic -/

/-- A word of 64 bits has room for every length. -/
theorem fits_w64 (s : Slice .w64) :
    SealedMessage.Fits 64 s.bytes ∧ InitiationPacket.Fits 64 s.bytes ∧ UnpadFits 64 s.bytes := by
  have hsealed : ∀ data : List UInt8, data.length < 2 ^ 63 → SealedMessage.Fits 64 data := by
    intro data hdata hlen _
    have hheader := wordAt_lt data 24 4
    have hciphertext := wordAt_lt data (28 + wordAt data 24 4) 4
    exact ⟨by omega, fun _ ↦ by omega⟩
  have hbytes : s.bytes.length < 2 ^ 63 := s.length_lt
  have hfirst : ∀ i, InitiationPacket.FirstFits 64 s.bytes i := by
    intro i hi
    have hlen := wordAt_lt s.bytes (i + 4) 4
    refine ⟨by omega, fun _ ↦ hsealed _ ?_⟩
    rw [List.length_drop]
    omega
  refine ⟨hsealed _ hbytes, fun _ _ ↦ ⟨fun _ ↦ hfirst _, fun _ ↦ hfirst _⟩, fun hlen ↦ ?_⟩
  have hpadded := wordAt_lt s.bytes 0 4
  omega

/-- **Where the parsers of untrusted bytes are free of panics.** None of the six panics on a string
exactly when words have 64 bits, or the sums of an offset and a 32-bit length that `SealedMessage`,
`InitiationPacket` and `unpad` form on it are below `2 ^ 32`. -/
theorem parsers_panic_free_iff (P : Primitives UInt8) (w : PointerWidth) (s : Slice w) :
    (SealedMessage.decodeAt w.bits s.bytes ≠ .panic ∧
        InitiationPacket.decodeAt w.bits s.bytes ≠ .panic ∧
        PublicPrekeyBundle.decodeAt w.bits s.bytes P ≠ .panic ∧
        TripleHeader.decodeAt w.bits s.bytes ≠ .panic ∧
        Envelope.parseAt w.bits s.bytes ≠ .panic ∧
        unpad w.bits s.bytes ≠ .panic) ↔
      w = .w64 ∨ (SealedMessage.Fits 32 s.bytes ∧ InitiationPacket.Fits 32 s.bytes ∧
        UnpadFits 32 s.bytes) := by
  have hroom := s.roomy
  rw [SealedMessage.decodeAt_ne_panic_iff hroom, InitiationPacket.decodeAt_ne_panic_iff hroom,
    unpad_ne_panic_iff hroom]
  have hbundle := (PublicPrekeyBundle.decodeAt_safe hroom P).ne_panic
  have hheader := (TripleHeader.decodeAt_safe hroom).ne_panic
  have henvelope := (Envelope.parseAt_safe hroom).ne_panic
  cases w with
  | w32 =>
    constructor
    · rintro ⟨hsealed, hpacket, -, -, -, hpadded⟩
      exact .inr ⟨hsealed, hpacket, hpadded⟩
    · rintro (h | ⟨hsealed, hpacket, hpadded⟩)
      · cases h
      · exact ⟨hsealed, hpacket, hbundle, hheader, henvelope, hpadded⟩
  | w64 =>
    obtain ⟨hsealed, hpacket, hpadded⟩ := fits_w64 s
    exact iff_of_true ⟨hsealed, hpacket, hbundle, hheader, henvelope, hpadded⟩ (.inl rfl)

/-- A sealed message whose header claims `2 ^ 32 - 1` bytes. -/
def endlessHeader : List UInt8 := ascii "VCSEAL01" ++ List.replicate 16 0 ++ [255, 255, 255, 255] ++
  List.replicate 4 0

/-- **On 32-bit words three parsers panic**, each on a length of `2 ^ 32 - 1`. -/
theorem long_lengths_panic :
    SealedMessage.decodeAt PointerWidth.w32.bits endlessHeader = .panic ∧
      InitiationPacket.decodeAt PointerWidth.w32.bits (ascii "VCINIT01" ++ List.replicate 75 0 ++
        [255, 255, 255, 255]) = .panic ∧
      unpad PointerWidth.w32.bits [255, 255, 255, 255] = .panic :=
  ⟨rfl, rfl, rfl⟩

end VoiceChatCrypto
