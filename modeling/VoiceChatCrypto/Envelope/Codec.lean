import VoiceChatCrypto.Primitives.Basic

/-!
# The application envelope

`src/envelope/mod.rs`: the versioned record around every application message, its canonical
serialization and the parser of it.

The serializer checks limits in three places and the parser in four. Both come down to one predicate,
`Sendable`, and one function, `bytes`: the serializer writes `bytes e` exactly for sendable envelopes,
and the parser accepts exactly the strings `bytes e`, and returns `e`. Everything else about the codec
follows from these two facts.

Codec names are Lean strings, which are valid UTF-8 by construction as those of the source are.
-/

open Alphabet

namespace VoiceChatCrypto

/-- `ENVELOPE_VERSION`. -/
def envelopeVersion : UInt8 := 1
/-- `MAX_PAYLOAD_LEN`. -/
def maxPayloadLen : ℕ := 1024 * 1024
/-- `MAX_ID_LEN`. -/
def maxIdLen : ℕ := 128

/-- `CryptoSuite`. -/
inductive CryptoSuite
  | pqxdhTripleAes256Gcm
  deriving DecidableEq

namespace CryptoSuite

/-- `as_u8`. -/
def asU8 : CryptoSuite → UInt8
  | pqxdhTripleAes256Gcm => 1

/-- `from_u8`. -/
def fromU8 (v : UInt8) : Except PrimitiveError CryptoSuite :=
  if v = 1 then .ok pqxdhTripleAes256Gcm else .error .invalidLength

/-- Each suite has one number, and no other number is accepted. -/
theorem fromU8_eq_ok {v : UInt8} {s : CryptoSuite} : fromU8 v = .ok s ↔ v = s.asU8 := by
  cases s
  unfold fromU8 asU8
  split <;> simp_all

end CryptoSuite

/-- `PayloadType`. -/
inductive PayloadType
  | text
  | syntheticVoice
  | edit
  | acknowledgement
  deriving DecidableEq

namespace PayloadType

/-- `as_u8`. -/
def asU8 : PayloadType → UInt8
  | text => 1
  | syntheticVoice => 2
  | edit => 3
  | acknowledgement => 4

/-- `from_u8`. -/
def fromU8 (v : UInt8) : Except PrimitiveError PayloadType :=
  if v = 1 then .ok text
  else if v = 2 then .ok syntheticVoice
  else if v = 3 then .ok edit
  else if v = 4 then .ok acknowledgement
  else .error .invalidLength

/-- Each payload type has one number, and no other number is accepted. -/
theorem fromU8_eq_ok {v : UInt8} {t : PayloadType} : fromU8 v = .ok t ↔ v = t.asU8 := by
  unfold fromU8
  split_ifs <;> cases t <;> simp_all [asU8]

end PayloadType

/-- `SyntheticVoiceMeta`. -/
structure SyntheticVoiceMeta where
  /-- The name of the codec, in UTF-8. -/
  codec : String
  /-- The duration in milliseconds. -/
  durationMs : UInt32
  /-- The length of the payload, which has to agree with the payload itself. -/
  payloadLength : UInt32
  deriving DecidableEq

/-- `Envelope`. -/
structure Envelope where
  /-- The version of the format; only one is accepted. -/
  protocolVersion : UInt8
  /-- The suite of the session. -/
  cryptoSuite : CryptoSuite
  /-- The conversation. -/
  conversationId : List UInt8
  /-- Whose device sent it. -/
  senderUserId : List UInt8
  /-- Which device sent it. -/
  senderDeviceId : List UInt8
  /-- Whose device it is for. -/
  recipientUserId : List UInt8
  /-- Which device it is for. -/
  recipientDeviceId : List UInt8
  /-- The name of the message. -/
  messageId : List UInt8
  /-- Left to the application. -/
  messageType : UInt8
  /-- The sender's count. -/
  sequence : UInt64
  /-- The sender's clock. -/
  createdTimestamp : UInt64
  /-- What the payload is. -/
  payloadType : PayloadType
  /-- Present for synthetic voice, and only then. -/
  syntheticVoice : Option SyntheticVoiceMeta
  /-- The contents. -/
  payload : List UInt8
  deriving DecidableEq

/-! ### Strings -/

/-- `str::as_bytes`. -/
def asBytes (s : String) : List UInt8 := s.toByteArray.data.toList

/-- `str::from_utf8`. -/
def fromUtf8 (bs : List UInt8) : Except PrimitiveError String :=
  match String.fromUTF8? ⟨bs.toArray⟩ with
  | some s => .ok s
  | none => .error .invalidLength

/-- `str::is_ascii`. -/
def isAscii (s : String) : Bool := (asBytes s).all fun b ↦ b < 128

/-- **Strings are their bytes.** -/
theorem fromUtf8_eq_ok {bs : List UInt8} {s : String} : fromUtf8 bs = .ok s ↔ bs = asBytes s := by
  have hvalid : ∀ a : ByteArray, String.fromUTF8? a = some s ↔ a = s.toByteArray := by
    intro a
    unfold String.fromUTF8?
    split
    · rw [Option.some_inj, ← String.toByteArray_inj]
      rfl
    · rename_i hnot
      constructor
      · intro h
        cases h
      · rintro rfl
        exact absurd s.isValidUTF8 hnot
  have hdata : (⟨bs.toArray⟩ : ByteArray) = s.toByteArray ↔ bs = asBytes s := by
    refine ⟨fun h ↦ ?_, fun h ↦ ?_⟩
    · rw [asBytes, ← h]
    · rw [h, asBytes, Array.toArray_toList]
  rw [← hdata, ← hvalid, fromUtf8]
  split <;> simp_all

/-! ### Writing -/

/-- `write_bytes_u16`. -/
def writeBytesU16 (data : List UInt8) : Except PrimitiveError (List UInt8) :=
  if data.length > 65535 ∨ data.length > maxIdLen then .error .invalidLength
  else .ok (le 2 data.length ++ data)

namespace Envelope

/-- The identifiers whose lengths `validate_limits` bounds. -/
def ids (e : Envelope) : List (List UInt8) :=
  [e.conversationId, e.senderUserId, e.senderDeviceId, e.recipientUserId, e.recipientDeviceId,
    e.messageId]

/-- `validate_limits`. -/
def validateLimits (e : Envelope) : Except PrimitiveError Unit :=
  if e.protocolVersion ≠ envelopeVersion then .error .invalidLength
  else if e.ids.any fun id ↦ id.length > maxIdLen then .error .invalidLength
  else if e.payload.length > maxPayloadLen then .error .invalidLength
  else .ok ()

/-- The voice block of `canonical_bytes`. -/
def voiceBlock (e : Envelope) : Except PrimitiveError (List UInt8) :=
  if e.payloadType = .syntheticVoice then
    match e.syntheticVoice with
    | none => .error .invalidLength
    | some voice =>
      -- codec names are short and plain ASCII
      if (asBytes voice.codec).length > maxIdLen ∨ ¬ isAscii voice.codec then .error .invalidLength
      else do
        let codec ← writeBytesU16 (asBytes voice.codec)
        if voice.payloadLength.toNat ≠ e.payload.length then throw .invalidLength
        return codec ++ le 4 voice.durationMs.toNat ++ le 4 voice.payloadLength.toNat
  else if e.syntheticVoice.isSome then .error .invalidLength
  else .ok []

/-- `canonical_bytes`. -/
def canonicalBytes (e : Envelope) : Except PrimitiveError (List UInt8) := do
  e.validateLimits
  let conversationId ← writeBytesU16 e.conversationId
  let senderUserId ← writeBytesU16 e.senderUserId
  let senderDeviceId ← writeBytesU16 e.senderDeviceId
  let recipientUserId ← writeBytesU16 e.recipientUserId
  let recipientDeviceId ← writeBytesU16 e.recipientDeviceId
  let messageId ← writeBytesU16 e.messageId
  let voice ← e.voiceBlock
  if e.payload.length > maxPayloadLen then throw .invalidLength
  return [e.protocolVersion, e.cryptoSuite.asU8] ++ conversationId ++ senderUserId ++
    senderDeviceId ++ recipientUserId ++ recipientDeviceId ++ messageId ++ [e.messageType] ++
    le 8 e.sequence.toNat ++ le 8 e.createdTimestamp.toNat ++ [e.payloadType.asU8] ++ voice ++
    le 4 e.payload.length ++ e.payload

/-- `associated_data`: the canonical serialization with an empty payload. -/
def associatedData (e : Envelope) : Except PrimitiveError (List UInt8) :=
  canonicalBytes { e with payload := [] }

end Envelope

/-! ### Reading -/

/-- `read_u8`. -/
def readU8 : List UInt8 → Except PrimitiveError (UInt8 × List UInt8)
  | [] => .error .invalidLength
  | v :: rest => .ok (v, rest)

/-- `read_u16`, `read_u32` and `read_u64`, by width. -/
def readLe (w : ℕ) (data : List UInt8) : Except PrimitiveError (ℕ × List UInt8) :=
  Cursor.takeLe .invalidLength w data

/-- `read_bytes_u16`. -/
def readBytesU16 (data : List UInt8) : Except PrimitiveError (List UInt8 × List UInt8) := do
  let (len, data) ← readLe 2 data
  if len > maxIdLen then throw .invalidLength
  Cursor.take PrimitiveError.invalidLength len data

namespace Envelope

/-- The voice block of `parse`. -/
def readVoice (payloadType : PayloadType) (data : List UInt8) :
    Except PrimitiveError (Option SyntheticVoiceMeta × List UInt8) :=
  if payloadType = .syntheticVoice then do
    let (codecBytes, data) ← readBytesU16 data
    let codec ← fromUtf8 codecBytes
    if ¬ isAscii codec ∨ (asBytes codec).length > maxIdLen then throw .invalidLength
    let (durationMs, data) ← readLe 4 data
    let (payloadLength, data) ← readLe 4 data
    return (some { codec, durationMs := UInt32.ofNat durationMs
                   payloadLength := UInt32.ofNat payloadLength }, data)
  else .ok (none, data)

/-- `parse`. -/
def parse (data : List UInt8) : Except PrimitiveError Envelope := do
  let (version, data) ← readU8 data
  if version ≠ envelopeVersion then throw .invalidLength
  let (suite, data) ← readU8 data
  let cryptoSuite ← CryptoSuite.fromU8 suite
  let (conversationId, data) ← readBytesU16 data
  let (senderUserId, data) ← readBytesU16 data
  let (senderDeviceId, data) ← readBytesU16 data
  let (recipientUserId, data) ← readBytesU16 data
  let (recipientDeviceId, data) ← readBytesU16 data
  let (messageId, data) ← readBytesU16 data
  let (messageType, data) ← readU8 data
  let (sequence, data) ← readLe 8 data
  let (createdTimestamp, data) ← readLe 8 data
  let (typ, data) ← readU8 data
  let payloadType ← PayloadType.fromU8 typ
  let (syntheticVoice, data) ← readVoice payloadType data
  let (payloadLen, payload) ← readLe 4 data
  if payloadLen > maxPayloadLen then throw .invalidLength
  if payload.length ≠ payloadLen then throw .invalidLength
  if syntheticVoice.any fun voice ↦ voice.payloadLength.toNat ≠ payload.length then
    throw .invalidLength
  let e : Envelope :=
    { protocolVersion := version, cryptoSuite, conversationId, senderUserId, senderDeviceId
      recipientUserId, recipientDeviceId, messageId, messageType
      sequence := UInt64.ofNat sequence, createdTimestamp := UInt64.ofNat createdTimestamp
      payloadType, syntheticVoice, payload }
  e.validateLimits
  return e

/-! ### What is sendable, and as what -/

/-- The voice metadata fits the payload type and the payload. -/
def VoiceFits (e : Envelope) : Prop :=
  match e.syntheticVoice with
  | none => e.payloadType ≠ .syntheticVoice
  | some voice => e.payloadType = .syntheticVoice ∧ (asBytes voice.codec).length ≤ maxIdLen ∧
      isAscii voice.codec ∧ voice.payloadLength.toNat = e.payload.length

/-- An envelope within all limits. -/
structure Sendable (e : Envelope) : Prop where
  /-- It is of the version in use. -/
  version : e.protocolVersion = envelopeVersion
  /-- The lengths of the ids fit into two bytes and the limit. -/
  ids : ∀ id ∈ e.ids, id.length ≤ maxIdLen
  /-- The payload is within its limit. -/
  payload : e.payload.length ≤ maxPayloadLen
  /-- Voice data is there exactly when the type says so, and fits the payload. -/
  voice : e.VoiceFits

/-- The bytes of the voice metadata. -/
def voiceBytes : Option SyntheticVoiceMeta → List UInt8
  | none => []
  | some voice => le 2 (asBytes voice.codec).length ++ asBytes voice.codec ++
      le 4 voice.durationMs.toNat ++ le 4 voice.payloadLength.toNat

/-- The bytes of an identifier. -/
def idBytes (id : List UInt8) : List UInt8 := le 2 id.length ++ id

/-- The bytes of an envelope. -/
def bytes (e : Envelope) : List UInt8 :=
  [e.protocolVersion, e.cryptoSuite.asU8] ++ idBytes e.conversationId ++ idBytes e.senderUserId ++
    idBytes e.senderDeviceId ++ idBytes e.recipientUserId ++ idBytes e.recipientDeviceId ++
    idBytes e.messageId ++ [e.messageType] ++ le 8 e.sequence.toNat ++
    le 8 e.createdTimestamp.toNat ++ [e.payloadType.asU8] ++ voiceBytes e.syntheticVoice ++
    le 4 e.payload.length ++ e.payload

/-! ### The writer -/

/-- An id is written with its length in front, unless it is too long. -/
theorem writeBytesU16_eq_ok {id bs : List UInt8} :
    writeBytesU16 id = .ok bs ↔ id.length ≤ maxIdLen ∧ bs = idBytes id := by
  have hmax : maxIdLen = 128 := rfl
  unfold writeBytesU16
  split
  · simp only [reduceCtorEq, false_iff]
    omega
  · rw [Except.ok.injEq, eq_comm]
    exact ⟨fun h ↦ ⟨by omega, h⟩, fun h ↦ h.2⟩

/-- The limits that are checked on both sides of the wire. -/
theorem validateLimits_eq_ok {e : Envelope} : e.validateLimits = .ok () ↔
    e.protocolVersion = envelopeVersion ∧ (∀ id ∈ e.ids, id.length ≤ maxIdLen) ∧
      e.payload.length ≤ maxPayloadLen := by
  unfold validateLimits
  split
  · simp_all
  split
  · rename_i hid
    obtain ⟨id, hmem, hlong⟩ := List.any_eq_true.1 hid
    rw [decide_eq_true_eq] at hlong
    simp only [reduceCtorEq, false_iff]
    rintro ⟨-, hids, -⟩
    have := hids id hmem
    omega
  rename_i hversion hids
  have hshort : ∀ id ∈ e.ids, id.length ≤ maxIdLen := by
    intro id hmem
    by_contra hlong
    exact hids (List.any_eq_true.2 ⟨id, hmem, decide_eq_true (by omega)⟩)
  split
  · simp only [reduceCtorEq, false_iff]
    rintro ⟨-, -, hpayload⟩
    omega
  · exact ⟨fun _ ↦ ⟨not_not.1 hversion, hshort, by omega⟩, fun _ ↦ rfl⟩

theorem voiceBlock_of_fits {e : Envelope} (h : e.VoiceFits) :
    e.voiceBlock = .ok (voiceBytes e.syntheticVoice) := by
  unfold VoiceFits at h
  unfold voiceBlock
  cases hvoice : e.syntheticVoice with
  | none =>
    rw [hvoice] at h
    rw [if_neg h]
    rfl
  | some voice =>
    rw [hvoice] at h
    obtain ⟨htyp, hshort, hascii, hlen⟩ := h
    have hcodec : ¬ ((asBytes voice.codec).length > maxIdLen ∨ ¬ isAscii voice.codec) := by
      rintro (hlong | hnot)
      · omega
      · exact hnot hascii
    have hwrite := writeBytesU16_eq_ok.2 ⟨hshort, rfl⟩
    simp only [htyp, hcodec, hwrite, hlen, if_true, if_false, ne_eq, not_true, bind, Except.bind,
      pure, Except.pure]
    rw [voiceBytes, hlen]
    rfl

theorem fits_of_voiceBlock {e : Envelope} {bs : List UInt8} (h : e.voiceBlock = .ok bs) :
    e.VoiceFits := by
  unfold voiceBlock at h
  unfold VoiceFits
  split at h
  · rename_i htyp
    cases hvoice : e.syntheticVoice with
    | none =>
      rw [hvoice] at h
      cases h
    | some voice =>
      simp only [hvoice] at h
      split at h
      · cases h
      rename_i hcodec
      obtain ⟨codec, -, h⟩ := Except.bind_eq_ok.1 h
      split at h
      · cases h
      rename_i hlen
      push Not at hcodec hlen
      exact ⟨htyp, hcodec.1, hcodec.2, hlen⟩
  · rename_i htyp
    split at h
    · cases h
    · rename_i hnone
      rw [Option.not_isSome_iff_eq_none.1 hnone]
      exact htyp

/-- **The writer** writes the bytes of sendable envelopes, and refuses all others. -/
theorem canonicalBytes_eq_ok {e : Envelope} {bs : List UInt8} :
    e.canonicalBytes = .ok bs ↔ e.Sendable ∧ bs = e.bytes := by
  constructor
  · intro h
    obtain ⟨_, hlimits, h⟩ := Except.bind_eq_ok.1 h
    obtain ⟨conversationId, h1, h⟩ := Except.bind_eq_ok.1 h
    obtain ⟨senderUserId, h2, h⟩ := Except.bind_eq_ok.1 h
    obtain ⟨senderDeviceId, h3, h⟩ := Except.bind_eq_ok.1 h
    obtain ⟨recipientUserId, h4, h⟩ := Except.bind_eq_ok.1 h
    obtain ⟨recipientDeviceId, h5, h⟩ := Except.bind_eq_ok.1 h
    obtain ⟨messageId, h6, h⟩ := Except.bind_eq_ok.1 h
    obtain ⟨voice, hvoice, h⟩ := Except.bind_eq_ok.1 h
    dsimp only at h
    split at h
    · cases h
    cases h
    obtain ⟨hversion, hids, hpayload⟩ := validateLimits_eq_ok.1 hlimits
    have hfits := fits_of_voiceBlock hvoice
    rw [voiceBlock_of_fits hfits] at hvoice
    cases hvoice
    refine ⟨⟨hversion, hids, hpayload, hfits⟩, ?_⟩
    rw [(writeBytesU16_eq_ok.1 h1).2, (writeBytesU16_eq_ok.1 h2).2, (writeBytesU16_eq_ok.1 h3).2,
      (writeBytesU16_eq_ok.1 h4).2, (writeBytesU16_eq_ok.1 h5).2, (writeBytesU16_eq_ok.1 h6).2]
    rfl
  · rintro ⟨⟨hversion, hids, hpayload, hfits⟩, rfl⟩
    have hlimits := validateLimits_eq_ok.2 ⟨hversion, hids, hpayload⟩
    have hwrite : ∀ id ∈ e.ids, writeBytesU16 id = .ok (idBytes id) :=
      fun id hmem ↦ writeBytesU16_eq_ok.2 ⟨hids id hmem, rfl⟩
    have hlong : ¬ e.payload.length > maxPayloadLen := by omega
    unfold canonicalBytes
    simp only [ids, List.mem_cons, List.not_mem_nil, or_false, forall_eq_or_imp, forall_eq] at hwrite
    simp only [hlimits, hwrite, voiceBlock_of_fits hfits, hlong, if_false, bind, Except.bind, pure,
      Except.pure]
    rfl

/-! ### The reader -/

theorem readBytesU16_append {id : List UInt8} (h : id.length ≤ maxIdLen) (rest : List UInt8) :
    readBytesU16 (idBytes id ++ rest) = .ok (id, rest) := by
  have hmax : maxIdLen = 128 := rfl
  have hmod : id.length % 256 ^ 2 = id.length := Nat.mod_eq_of_lt (by omega)
  have hshort : ¬ id.length > maxIdLen := by omega
  simp only [readBytesU16, readLe, idBytes, List.append_assoc, Cursor.takeLe_append, hmod, hshort,
    if_false, bind, Except.bind, Cursor.take_append]

/-- Only the form that is written is read, and only within the limit. -/
theorem readBytesU16_eq_ok {id data rest : List UInt8} (h : readBytesU16 data = .ok (id, rest)) :
    data = idBytes id ++ rest ∧ id.length ≤ maxIdLen := by
  obtain ⟨⟨len, data₁⟩, hlen, h⟩ := Except.bind_eq_ok.1 h
  dsimp only at h
  split at h
  · cases h
  obtain ⟨hid, hid'⟩ := Cursor.take_eq_ok h
  rw [(Cursor.takeLe_eq_ok bytes_uint8 hlen).1, hid, idBytes, hid', List.append_assoc]
  exact ⟨rfl, by omega⟩

theorem readU8_eq_ok {v : UInt8} {data rest : List UInt8} (h : readU8 data = .ok (v, rest)) :
    data = v :: rest := by
  cases data with
  | nil => cases h
  | cons x xs =>
    cases h
    rfl

/-- Voice metadata is read where the payload type calls for it. -/
theorem readVoice_append {e : Envelope} (h : e.VoiceFits) (rest : List UInt8) :
    readVoice e.payloadType (voiceBytes e.syntheticVoice ++ rest) = .ok (e.syntheticVoice, rest) := by
  unfold VoiceFits at h
  unfold readVoice
  cases hvoice : e.syntheticVoice with
  | none =>
    rw [hvoice] at h
    rw [if_neg h]
    rfl
  | some voice =>
    rw [hvoice] at h
    obtain ⟨htyp, hshort, hascii, -⟩ := h
    have hcodec : ¬ (¬ isAscii voice.codec ∨ (asBytes voice.codec).length > maxIdLen) := by
      rintro (hnot | hlong)
      · exact hnot hascii
      · omega
    have hread := readBytesU16_append hshort (le 4 voice.durationMs.toNat ++
      (le 4 voice.payloadLength.toNat ++ rest))
    unfold idBytes at hread
    rw [if_pos htyp]
    simp only [voiceBytes, List.append_assoc] at hread ⊢
    simp only [hread, fromUtf8_eq_ok.2 rfl, hcodec, if_false, readLe, Cursor.takeLe_append,
      ofNat_toNat_mod, bind, Except.bind, pure, Except.pure]

/-- Only a voice block that is written for the type is read. -/
theorem readVoice_eq_ok {typ : PayloadType} {voice : Option SyntheticVoiceMeta}
    {data rest : List UInt8} (h : readVoice typ data = .ok (voice, rest)) :
    data = voiceBytes voice ++ rest ∧ (voice = none → typ ≠ .syntheticVoice) ∧
      ∀ v, voice = some v →
        typ = .syntheticVoice ∧ (asBytes v.codec).length ≤ maxIdLen ∧ isAscii v.codec := by
  unfold readVoice at h
  split at h
  · rename_i htyp
    obtain ⟨⟨codecBytes, data₁⟩, hbytes, h⟩ := Except.bind_eq_ok.1 h
    obtain ⟨codec, hcodec, h⟩ := Except.bind_eq_ok.1 h
    dsimp only at h
    split at h
    · cases h
    rename_i hplain
    obtain ⟨⟨durationMs, data₂⟩, hduration, h⟩ := Except.bind_eq_ok.1 h
    obtain ⟨⟨payloadLength, data₃⟩, hlength, h⟩ := Except.bind_eq_ok.1 h
    cases h
    push Not at hplain
    obtain ⟨hduration, hdurationLt⟩ := Cursor.takeLe_eq_ok bytes_uint8 hduration
    obtain ⟨hlength, hlengthLt⟩ := Cursor.takeLe_eq_ok bytes_uint8 hlength
    dsimp only at hlength ⊢
    refine ⟨?_, fun hnone ↦ ?_, fun v hv ↦ ?_⟩
    · rw [(readBytesU16_eq_ok hbytes).1, fromUtf8_eq_ok.1 hcodec, hduration, hlength, voiceBytes,
        toNat_ofNat_u32 hdurationLt, toNat_ofNat_u32 hlengthLt, idBytes]
      simp only [List.append_assoc]
    · cases hnone
    · cases hv
      exact ⟨htyp, hplain.2, hplain.1⟩
  · rename_i htyp
    cases h
    refine ⟨rfl, fun _ ↦ htyp, fun v hv ↦ ?_⟩
    cases hv

/-- A 64-bit integer survives eight letters. -/
theorem ofNat_toNat_mod_u64 (n : UInt64) : UInt64.ofNat (n.toNat % 256 ^ 8) = n := by
  rw [Nat.mod_eq_of_lt (by have := n.toNat_lt; omega), UInt64.ofNat_toNat]

/-- A number of eight bytes survives the cast to `u64`. -/
theorem toNat_ofNat_u64 {k : ℕ} (h : k < 256 ^ 8) : (UInt64.ofNat k).toNat = k := by
  rw [UInt64.toNat_ofNat']
  exact Nat.mod_eq_of_lt h

/-- **Sendable envelopes are read back.** -/
theorem parse_bytes {e : Envelope} (h : e.Sendable) : parse e.bytes = .ok e := by
  have hmax : maxPayloadLen = 1024 * 1024 := rfl
  have hread : ∀ id ∈ e.ids, ∀ rest, readBytesU16 (idBytes id ++ rest) = .ok (id, rest) :=
    fun id hmem ↦ readBytesU16_append (h.ids id hmem)
  have hmod : e.payload.length % 256 ^ 4 = e.payload.length :=
    Nat.mod_eq_of_lt (by have := h.payload; omega)
  have hshort : ¬ e.payload.length > maxPayloadLen := by
    have := h.payload
    omega
  have hvoice : ¬ (e.syntheticVoice.any fun voice ↦
      voice.payloadLength.toNat ≠ e.payload.length) = true := by
    have hfits := h.voice
    unfold VoiceFits at hfits
    cases hv : e.syntheticVoice with
    | none => exact Bool.false_ne_true
    | some voice =>
      rw [hv] at hfits
      simp [hfits.2.2.2]
  have hlimits := validateLimits_eq_ok.2 ⟨h.version, h.ids, h.payload⟩
  have hversion : ¬ e.protocolVersion ≠ envelopeVersion := not_not.2 h.version
  simp only [ids, List.mem_cons, List.not_mem_nil, or_false, forall_eq_or_imp, forall_eq] at hread
  obtain ⟨h1, h2, h3, h4, h5, h6⟩ := hread
  unfold parse bytes
  simp only [List.append_assoc, List.cons_append, List.nil_append, readU8, hversion, if_false,
    CryptoSuite.fromU8_eq_ok.2 rfl, h1, h2, h3, h4, h5, h6, readLe, Cursor.takeLe_append,
    PayloadType.fromU8_eq_ok.2 rfl, readVoice_append h.voice, hmod, hshort, ne_eq, not_true,
    ofNat_toNat_mod_u64, bind, Except.bind, pure, Except.pure]
  simp only [ne_eq] at hvoice
  rw [if_neg hvoice, hlimits]

/-- **What is accepted is sendable**, and is read as what it was written from. -/
theorem parse_eq_ok {data : List UInt8} {e : Envelope} (h : parse data = .ok e) :
    e.Sendable ∧ data = e.bytes := by
  obtain ⟨⟨version, data₁⟩, hversion, h⟩ := Except.bind_eq_ok.1 h
  dsimp only at h
  split at h
  · cases h
  obtain ⟨⟨suite, data₂⟩, hsuite, h⟩ := Except.bind_eq_ok.1 h
  obtain ⟨cryptoSuite, hcryptoSuite, h⟩ := Except.bind_eq_ok.1 h
  obtain ⟨⟨conversationId, data₃⟩, h1, h⟩ := Except.bind_eq_ok.1 h
  obtain ⟨⟨senderUserId, data₄⟩, h2, h⟩ := Except.bind_eq_ok.1 h
  obtain ⟨⟨senderDeviceId, data₅⟩, h3, h⟩ := Except.bind_eq_ok.1 h
  obtain ⟨⟨recipientUserId, data₆⟩, h4, h⟩ := Except.bind_eq_ok.1 h
  obtain ⟨⟨recipientDeviceId, data₇⟩, h5, h⟩ := Except.bind_eq_ok.1 h
  obtain ⟨⟨messageId, data₈⟩, h6, h⟩ := Except.bind_eq_ok.1 h
  obtain ⟨⟨messageType, data₉⟩, hmessageType, h⟩ := Except.bind_eq_ok.1 h
  obtain ⟨⟨sequence, data₁₀⟩, hsequence, h⟩ := Except.bind_eq_ok.1 h
  obtain ⟨⟨created, data₁₁⟩, hcreated, h⟩ := Except.bind_eq_ok.1 h
  obtain ⟨⟨typ, data₁₂⟩, htyp, h⟩ := Except.bind_eq_ok.1 h
  obtain ⟨payloadType, hpayloadType, h⟩ := Except.bind_eq_ok.1 h
  obtain ⟨⟨voice, data₁₃⟩, hvoice, h⟩ := Except.bind_eq_ok.1 h
  obtain ⟨⟨len, payload⟩, hlen, h⟩ := Except.bind_eq_ok.1 h
  dsimp only at h
  split at h
  · cases h
  split at h
  · cases h
  rename_i hall
  split at h
  · cases h
  rename_i hfits
  obtain ⟨_, hlimits, h⟩ := Except.bind_eq_ok.1 h
  cases h
  dsimp only at hcryptoSuite h1 h2 h3 h4 h5 h6 hmessageType hsequence hcreated
  dsimp only at htyp hpayloadType hvoice hlen
  obtain ⟨hversion', hids, hpayload⟩ := validateLimits_eq_ok.1 hlimits
  obtain ⟨hvoice, hnone, hsome⟩ := readVoice_eq_ok hvoice
  obtain ⟨hsequence, hsequenceLt⟩ := Cursor.takeLe_eq_ok bytes_uint8 hsequence
  obtain ⟨hcreated, hcreatedLt⟩ := Cursor.takeLe_eq_ok bytes_uint8 hcreated
  obtain ⟨hlen, -⟩ := Cursor.takeLe_eq_ok bytes_uint8 hlen
  refine ⟨⟨hversion', hids, hpayload, ?_⟩, ?_⟩
  · unfold VoiceFits
    cases voice with
    | none => exact hnone rfl
    | some v =>
      obtain ⟨htyp', hshort, hascii⟩ := hsome v rfl
      refine ⟨htyp', hshort, hascii, ?_⟩
      by_contra hne
      exact hfits (decide_eq_true hne)
  · rw [readU8_eq_ok hversion, readU8_eq_ok hsuite, (readBytesU16_eq_ok h1).1,
      (readBytesU16_eq_ok h2).1, (readBytesU16_eq_ok h3).1, (readBytesU16_eq_ok h4).1,
      (readBytesU16_eq_ok h5).1, (readBytesU16_eq_ok h6).1, readU8_eq_ok hmessageType, hsequence,
      hcreated, readU8_eq_ok htyp, hvoice, hlen, ← not_not.1 hall,
      CryptoSuite.fromU8_eq_ok.1 hcryptoSuite, PayloadType.fromU8_eq_ok.1 hpayloadType]
    dsimp only [bytes]
    rw [toNat_ofNat_u64 hsequenceLt, toNat_ofNat_u64 hcreatedLt]
    simp only [List.append_assoc, List.cons_append, List.nil_append]

/-- **The envelope codec is a bijection** between the envelopes that can be serialized and the strings
that can be parsed. -/
theorem codec_bijective :
    (∀ (e : Envelope) (data : List UInt8), e.canonicalBytes = .ok data → parse data = .ok e) ∧
      ∀ (data : List UInt8) (e : Envelope), parse data = .ok e → e.canonicalBytes = .ok data := by
  refine ⟨fun e data h ↦ ?_, fun data e h ↦ canonicalBytes_eq_ok.2 (parse_eq_ok h)⟩
  obtain ⟨hsendable, rfl⟩ := canonicalBytes_eq_ok.1 h
  exact parse_bytes hsendable

/-! ### Associated data -/

/-- **Different envelopes are different byte strings.** -/
theorem bytes_injective {e e' : Envelope} (h : e.Sendable) (h' : e'.Sendable)
    (heq : e.bytes = e'.bytes) : e = e' := by
  have hparse := parse_bytes h
  rw [heq, parse_bytes h', Except.ok.injEq] at hparse
  exact hparse.symm

/-- Without its payload, a voice envelope contradicts the length it claims. -/
theorem sendable_emptied_iff {e : Envelope} (h : e.Sendable) :
    Sendable { e with payload := [] } ↔ e.payloadType ≠ .syntheticVoice ∨ e.payload = [] := by
  have hfits := h.voice
  constructor
  · intro hempty
    have hfits' := hempty.voice
    unfold VoiceFits at hfits hfits'
    cases hvoice : e.syntheticVoice with
    | none =>
      rw [hvoice] at hfits
      exact .inl hfits
    | some voice =>
      simp only [hvoice] at hfits hfits'
      exact .inr (List.length_eq_zero_iff.1 (hfits.2.2.2.symm.trans hfits'.2.2.2))
  · rintro (htyp | hnil)
    · refine ⟨h.version, h.ids, Nat.zero_le _, ?_⟩
      unfold VoiceFits at hfits ⊢
      cases hvoice : e.syntheticVoice with
      | none =>
        simp only
        exact htyp
      | some voice =>
        rw [hvoice] at hfits
        exact absurd hfits.1 htyp
    · rw [show ({ e with payload := [] } : Envelope) = e by rw [← hnil]]
      exact h

/-- **When envelopes have associated data that binds them.** Of two sendable envelopes, both have
associated data, and equal ones only if they agree in everything but the payload, exactly when neither
is a voice envelope with a payload. -/
theorem associated_data_binds_iff {e₁ e₂ : Envelope} {b₁ b₂ : List UInt8}
    (h₁ : e₁.canonicalBytes = .ok b₁) (h₂ : e₂.canonicalBytes = .ok b₂) :
    ((∃ ad, e₁.associatedData = .ok ad) ∧ (∃ ad, e₂.associatedData = .ok ad) ∧
        (e₁.associatedData = e₂.associatedData →
          { e₁ with payload := [] } = { e₂ with payload := [] })) ↔
      (e₁.payloadType ≠ .syntheticVoice ∨ e₁.payload = []) ∧
        (e₂.payloadType ≠ .syntheticVoice ∨ e₂.payload = []) := by
  rw [← sendable_emptied_iff (canonicalBytes_eq_ok.1 h₁).1,
    ← sendable_emptied_iff (canonicalBytes_eq_ok.1 h₂).1]
  constructor
  · rintro ⟨⟨ad₁, had₁⟩, ⟨ad₂, had₂⟩, -⟩
    exact ⟨(canonicalBytes_eq_ok.1 had₁).1, (canonicalBytes_eq_ok.1 had₂).1⟩
  · rintro ⟨hs₁, hs₂⟩
    have had₁ := canonicalBytes_eq_ok.2 ⟨hs₁, rfl⟩
    have had₂ := canonicalBytes_eq_ok.2 ⟨hs₂, rfl⟩
    refine ⟨⟨_, had₁⟩, ⟨_, had₂⟩, fun heq ↦ ?_⟩
    unfold associatedData at heq
    rw [had₁, had₂, Except.ok.injEq] at heq
    exact bytes_injective hs₁ hs₂ heq

/-- A text of two bytes. -/
def sampleText : Envelope where
  protocolVersion := 1
  cryptoSuite := .pqxdhTripleAes256Gcm
  conversationId := [1]
  senderUserId := [2]
  senderDeviceId := [3]
  recipientUserId := [4]
  recipientDeviceId := [5]
  messageId := [6]
  messageType := 0
  sequence := 42
  createdTimestamp := 100
  payloadType := .text
  syntheticVoice := none
  payload := [104, 105]

/-- A voice message of two bytes. -/
def sampleVoice : Envelope :=
  { sampleText with
    payloadType := .syntheticVoice
    syntheticVoice := some { codec := "opus", durationMs := 1500, payloadLength := 2 } }

/-- Two texts of different conversations have different associated data. -/
theorem associated_data_binds_texts :
    (∃ ad, sampleText.associatedData = .ok ad) ∧
    (∃ ad, { sampleText with conversationId := [7] }.associatedData = .ok ad) ∧
    (sampleText.associatedData = { sampleText with conversationId := [7] }.associatedData →
      { sampleText with payload := [] } = { sampleText with conversationId := [7], payload := [] }) := by
  have h : sampleText.canonicalBytes = .ok sampleText.bytes := by decide +kernel
  have h' : { sampleText with conversationId := [7] }.canonicalBytes =
      .ok { sampleText with conversationId := [7] }.bytes := by decide +kernel
  exact (associated_data_binds_iff h h').2 ⟨.inl (by decide), .inl (by decide)⟩

/-- **A voice message has no associated data**, although it can be sent: its payload is emptied
before it is encoded, and then contradicts the length in the voice data. -/
theorem voice_without_associated_data :
    sampleVoice.canonicalBytes = .ok sampleVoice.bytes ∧
      sampleVoice.associatedData = .error .invalidLength := by
  constructor <;> decide +kernel

end Envelope

end VoiceChatCrypto
