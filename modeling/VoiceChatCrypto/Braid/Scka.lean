import VoiceChatCrypto.Braid.Rs

/-!
# ML-KEM Braid

The sparse continuous key agreement of `src/ratchet/braid/mod.rs`: two parties take turns in one
ML-KEM encapsulation per epoch, spread over the chunks that ride on ordinary messages. One side
samples a key pair and sends its header, then the key; the other encapsulates to the header at once
(`ct1`), and to the full key when it has it (`ct2`).

An `Agent` is one of eleven states; `send` and `receive` are its transitions. Where the source calls
`copy_from_slice` on lengths that every agent built by `send` and `receive` has, the model
concatenates and lets the length check of `MlKemCiphertext::from_bytes` decide.

The K-PKE halves of ML-KEM (`pke_encrypt_ct1`, `pke_encrypt_ct2`) are fields of `Primitives`: nothing
in this module depends on what they compute.
-/

open Alphabet

namespace VoiceChatCrypto

variable {B : Type} [Alphabet B]

/-! ### Authenticator -/

/-- The ratcheted authenticator: what both sides have agreed on so far, which the tags of headers
and ciphertexts are made with. -/
structure Authenticator (B : Type) where
  /-- The root the next authenticator is derived from. -/
  rootKey : Block B 32
  /-- The key of the tags of one epoch. -/
  macKey : Block B 32
  deriving DecidableEq

namespace Authenticator

variable (P : Primitives B)

/-- `update`. -/
def update (a : Authenticator B) (epoch : UInt64) (key : Block B 32) : Authenticator B :=
  let info := Labels.braidProtocolInfo ++ ascii ":Authenticator Update" ++ be 8 epoch.toNat
  { rootKey := hkdf P (some a.rootKey.val) key.val info 0
    macKey := hkdf P (some a.rootKey.val) key.val info 1 }

/-- `init`. -/
def init (epoch : UInt64) (key : Block B 32) : Authenticator B :=
  update P { rootKey := Block.zero 32, macKey := Block.zero 32 } epoch key

/-- `mac_hdr`. -/
def macHdr (a : Authenticator B) (epoch : UInt64) (hdr : List B) : Block B 32 :=
  P.hmacSha256 a.macKey.val
    (Labels.braidProtocolInfo ++ ascii ":ekheader" ++ be 8 epoch.toNat ++ hdr)

/-- `mac_ct`. -/
def macCt (a : Authenticator B) (epoch : UInt64) (ct : List B) : Block B 32 :=
  P.hmacSha256 a.macKey.val
    (Labels.braidProtocolInfo ++ ascii ":ciphertext" ++ be 8 epoch.toNat ++ ct)

/-- `vfy_hdr`. -/
def vfyHdr (a : Authenticator B) (epoch : UInt64) (hdr expected : List B) :
    Except PrimitiveError Unit :=
  if (a.macHdr P epoch hdr).val = expected then .ok () else .error .aeadAuthFailed

/-- `vfy_ct`. -/
def vfyCt (a : Authenticator B) (epoch : UInt64) (ct expected : List B) :
    Except PrimitiveError Unit :=
  if (a.macCt P epoch ct).val = expected then .ok () else .error .aeadAuthFailed

end Authenticator

/-- `kdf_ok`: the key an epoch contributes. -/
def kdfOk (P : Primitives B) (sharedSecret : Block B 32) (epoch : UInt64) : Block B 32 :=
  hkdf P (some noSalt) sharedSecret.val
    (Labels.braidProtocolInfo ++ ascii ":SCKA Key" ++ be 8 epoch.toNat) 0

/-! ### Incremental encapsulation -/

/-- What `encaps1` keeps for `encaps2`, which runs when the rest of the key has arrived. -/
structure EncapsSecret (B : Type) where
  /-- The message that was encapsulated. -/
  m : Block B 32
  /-- The randomness of both parts of the ciphertext. -/
  coins : Block B 32
  /-- The shared secret. -/
  k : Block B 32
  /-- `ρ` of the header it was encapsulated for. -/
  rho : Block B 32
  /-- The hash of the key, which the vector `t̂` has to match when it arrives. -/
  hek : Block B 32
  deriving DecidableEq

section Incremental

variable (P : Primitives B)

/-- `header_from_ek`: `ρ` with the hash of the key, and the vector `t̂`. -/
def headerFromEk (ek : Block B 1184) : List B × List B :=
  (ek.val.drop 1152 ++ (P.sha3 ek.val).val, ek.val.take 1152)

/-- `encaps1` on a parsed header, with the message it draws. -/
def encaps1 (rho hek m : Block B 32) : EncapsSecret B × Block B 960 × Block B 32 :=
  let (k, coins) := P.gHash m hek
  ({ m, coins, k, rho, hek }, P.pkeEncryptCt1 rho coins m, k)

/-- `encaps2`. -/
def encaps2 (secret : EncapsSecret B) (ekVector : List B) :
    Except PrimitiveError (Block B 128) :=
  if ekVector.length ≠ 1152 then .error .invalidLength
  else if P.sha3 (ekVector ++ secret.rho.val) ≠ secret.hek then .error .invalidPublicKey
  else .ok (P.pkeEncryptCt2 ekVector secret.coins secret.m)

end Incremental

/-! ### Messages -/

/-- `BraidType`. -/
inductive BraidType
  | none
  | hdr
  | ek
  | ekCt1Ack
  | ct1Ack
  | ct1
  | ct2
  deriving DecidableEq

namespace BraidType

/-- The wire value. -/
def toNat : BraidType → ℕ
  | none => 0
  | hdr => 1
  | ek => 2
  | ekCt1Ack => 3
  | ct1Ack => 4
  | ct1 => 5
  | ct2 => 6

/-- `from_u8`. -/
def fromNat : ℕ → Except PrimitiveError BraidType
  | 0 => .ok none
  | 1 => .ok hdr
  | 2 => .ok ek
  | 3 => .ok ekCt1Ack
  | 4 => .ok ct1Ack
  | 5 => .ok ct1
  | 6 => .ok ct2
  | _ => .error .invalidLength

@[simp] theorem fromNat_toNat (t : BraidType) : fromNat t.toNat = .ok t := by
  cases t <;> rfl

theorem toNat_of_fromNat {n : ℕ} {t : BraidType} (h : fromNat n = .ok t) : t.toNat = n := by
  unfold fromNat at h
  split at h <;> cases h <;> rfl

end BraidType

/-- `BraidMessage`. -/
structure BraidMessage (B : Type) where
  /-- The epoch of the sender. -/
  epoch : UInt64
  /-- What the data is a chunk of. -/
  typ : BraidType
  /-- One chunk, or nothing. -/
  data : List B
  deriving DecidableEq

/-- `SckaOutput`. -/
structure SckaOutput (B : Type) where
  /-- The epoch that contributed the key. -/
  epoch : UInt64
  /-- The key, which either ratchet mixes in. -/
  key : Block B 32

/-! ### Agents -/

/-- `Agent`. -/
inductive Agent (B : Type)
  | keysUnsampled
  | keysSampled (dk : Block B 64) (ekVector : List B) (headerEnc : Encoder B)
  | headerSent (dk : Block B 64) (ekEnc : Encoder B) (ct1Dec : Decoder B)
  | ct1Received (dk : Block B 64) (ct1 : List B) (ekEnc : Encoder B)
  | ekSentCt1Received (dk : Block B 64) (ct1 : List B) (ct2Dec : Decoder B)
  | noHeaderReceived (headerDec : Decoder B)
  | headerReceived (ekSeed hek : Block B 32) (ekDec : Decoder B)
  | ct1Sampled (secret : EncapsSecret B) (ct1 : Block B 960) (ct1Enc : Encoder B)
      (ekDec : Decoder B) (ss : Block B 32) (emittedSs : Bool)
  | ekReceivedCt1Sampled (secret : EncapsSecret B) (ct1 : Block B 960) (ekVector : List B)
      (ct1Enc : Encoder B) (ss : Block B 32) (emittedSs : Bool)
  | ct1Acknowledged (secret : EncapsSecret B) (ct1 : Block B 960) (ekDec : Decoder B)
      (ss : Block B 32) (emittedSs : Bool)
  | ct2Sampled (ct2Enc : Encoder B) (ss : Block B 32) (emittedSs : Bool)

/-- The encoder an agent sends its chunks from. -/
def Agent.encoder : Agent B → Option (Encoder B)
  | .keysSampled _ _ enc => some enc
  | .headerSent _ enc _ => some enc
  | .ct1Received _ _ enc => some enc
  | .ct1Sampled _ _ enc _ _ _ => some enc
  | .ekReceivedCt1Sampled _ _ _ enc _ _ => some enc
  | .ct2Sampled enc _ _ => some enc
  | _ => none

/-- `BraidScka`. -/
structure BraidScka (B : Type) where
  /-- The current epoch, from 1. -/
  epoch : UInt64
  /-- The authenticator of the epoch. -/
  auth : Authenticator B
  /-- What the party is doing in the epoch. -/
  agent : Agent B

namespace BraidScka

variable (P : Primitives B)

/-- `init_alice`. -/
def initAlice (shared : Block B 32) : BraidScka B :=
  { epoch := 1, auth := Authenticator.init P 1 shared, agent := .keysUnsampled }

/-- `init_bob`. -/
def initBob (shared : Block B 32) : BraidScka B :=
  { epoch := 1, auth := Authenticator.init P 1 shared
    agent := .noHeaderReceived (Decoder.new (64 + 32)) }

/-- `encaps1_if_needed`, with the message `encaps1` draws. -/
def encaps1IfNeeded (m : Block B 32) (s : BraidScka B) : BraidScka B :=
  match s.agent with
  | .headerReceived ekSeed hek ekDec =>
    let (secret, ct1, ssRaw) := encaps1 P ekSeed hek m
    let ss := kdfOk P ssRaw s.epoch
    { s with
      auth := s.auth.update P s.epoch ss
      agent := .ct1Sampled secret ct1 (Encoder.new ct1.val) ekDec ss false }
  | _ => s

/-- `msg`. -/
def msg (s : BraidScka B) (typ : BraidType) (data : List B) : BraidMessage B :=
  { epoch := s.epoch, typ, data }

/-- `send`, with the seed of a new key pair and the message of an encapsulation, of which at most one
is used. The source returns an epoch and an optional output as well; the output is always `None`. -/
def send (seed : Block B 64) (m : Block B 32) (s : BraidScka B) :
    (BraidMessage B × ℕ × Option (SckaOutput B)) × BraidScka B :=
  let s := encaps1IfNeeded P m s
  let sendingEpoch := s.epoch.toNat - 1
  match s.agent with
  | .keysUnsampled =>
    let (headerBytes, t) := headerFromEk P (P.kemPublic seed)
    let mac := s.auth.macHdr P s.epoch headerBytes
    let (chunk, headerEnc) := (Encoder.new (headerBytes ++ mac.val)).nextChunk
    ((s.msg .hdr chunk, sendingEpoch, none), { s with agent := .keysSampled seed t headerEnc })
  | .keysSampled dk ekVector headerEnc =>
    let (chunk, headerEnc) := headerEnc.nextChunk
    ((s.msg .hdr chunk, sendingEpoch, none), { s with agent := .keysSampled dk ekVector headerEnc })
  | .headerSent dk ekEnc ct1Dec =>
    let (chunk, ekEnc) := ekEnc.nextChunk
    ((s.msg .ek chunk, sendingEpoch, none), { s with agent := .headerSent dk ekEnc ct1Dec })
  | .ct1Received dk ct1 ekEnc =>
    let (chunk, ekEnc) := ekEnc.nextChunk
    ((s.msg .ekCt1Ack chunk, sendingEpoch, none), { s with agent := .ct1Received dk ct1 ekEnc })
  | .ekSentCt1Received .. | .noHeaderReceived .. | .headerReceived .. | .ct1Acknowledged .. =>
    ((s.msg .none [], sendingEpoch, none), s)
  | .ct1Sampled secret ct1 ct1Enc ekDec ss emittedSs =>
    let (chunk, ct1Enc) := ct1Enc.nextChunk
    ((s.msg .ct1 chunk, sendingEpoch, none),
      { s with agent := .ct1Sampled secret ct1 ct1Enc ekDec ss emittedSs })
  | .ekReceivedCt1Sampled secret ct1 ekVector ct1Enc ss emittedSs =>
    let (chunk, ct1Enc) := ct1Enc.nextChunk
    ((s.msg .ct1 chunk, sendingEpoch, none),
      { s with agent := .ekReceivedCt1Sampled secret ct1 ekVector ct1Enc ss emittedSs })
  | .ct2Sampled ct2Enc ss emittedSs =>
    let (chunk, ct2Enc) := ct2Enc.nextChunk
    ((s.msg .ct2 chunk, sendingEpoch, none), { s with agent := .ct2Sampled ct2Enc ss emittedSs })

/-! ### Receiving -/

/-- The second half of an encapsulation, shared by `recv_ek_or_ack`, `finish_encaps2` and the
`Ct1Acknowledged` arm of `receive`: `ct2` with the MAC of the whole ciphertext. -/
def sampleCt2 (s : BraidScka B) (secret : EncapsSecret B) (ct1 : Block B 960) (ekVector : List B)
    (ss : Block B 32) (emittedSs : Bool) : Except PrimitiveError (BraidScka B) := do
  let ct2 ← encaps2 P secret ekVector
  let mac := s.auth.macCt P s.epoch (ct1.val ++ ct2.val)
  return { s with agent := .ct2Sampled (Encoder.new (ct2.val ++ mac.val)) ss emittedSs }

/-- `complete_encapsulator`. -/
def completeEncapsulator (s : BraidScka B) (ss : Block B 32) (newEpoch : UInt64) :
    SckaOutput B × BraidScka B :=
  ({ epoch := s.epoch, key := ss }, { s with epoch := newEpoch, agent := .keysUnsampled })

/-- The `EkSentCt1Received` arm once `ct2` is complete: decapsulate, verify, open the next epoch. -/
def decapsulate (s : BraidScka B) (dk : Block B 64) (ct1 blob : List B) :
    Except PrimitiveError (SckaOutput B × BraidScka B) := do
  if blob.length < 128 + 32 then throw .invalidLength
  let joined := ct1 ++ blob.take 128
  let cto ← kemCiphertextFromBytes joined
  let ss := kdfOk P (P.kemDecapsulate dk cto) s.epoch
  let auth := s.auth.update P s.epoch ss
  auth.vfyCt P s.epoch joined ((blob.drop 128).take 32)
  if s.epoch.toNat + 1 < 2 ^ 64 then
    return ({ epoch := s.epoch, key := ss },
      { epoch := s.epoch + 1, auth, agent := .noHeaderReceived (Decoder.new (64 + 32)) })
  else throw .limitExceeded

/-- The `NoHeaderReceived` arm once the header is complete. -/
def acceptHeader (s : BraidScka B) (blob : List B) : Except PrimitiveError (BraidScka B) := do
  if blob.length < 64 + 32 then throw .invalidLength
  s.auth.vfyHdr P s.epoch (blob.take 64) ((blob.drop 64).take 32)
  let (ekSeed, rest) ← Cursor.takeBlock PrimitiveError.invalidLength 32 blob
  let (hek, _) ← Cursor.takeBlock PrimitiveError.invalidLength 32 rest
  return { s with agent := .headerReceived ekSeed hek (Decoder.new 1152) }

/-- `recv_ek_or_ack`. -/
def recvEkOrAck (s : BraidScka B) (msg : BraidMessage B) (secret : EncapsSecret B)
    (ct1 : Block B 960) (ct1Enc : Encoder B) (ekDec : Decoder B) (ss : Block B 32)
    (emittedSs : Bool) : Except PrimitiveError (BraidScka B) :=
  if msg.epoch ≠ s.epoch then .ok s
  else match msg.typ with
    | .ek => do
      let ekDec ← ekDec.addChunk msg.data
      match ekDec.decoded with
      | some t =>
        return { s with agent := .ekReceivedCt1Sampled secret ct1 t ct1Enc ss emittedSs }
      | none => return { s with agent := .ct1Sampled secret ct1 ct1Enc ekDec ss emittedSs }
    | .ekCt1Ack => do
      let ekDec ← ekDec.addChunk msg.data
      match ekDec.decoded with
      | some t => sampleCt2 P s secret ct1 t ss emittedSs
      | none => return { s with agent := .ct1Acknowledged secret ct1 ekDec ss emittedSs }
    | _ => .ok s

/-- `receive`: the receiving epoch and the key that became available, if any. -/
def receive (msg : BraidMessage B) (s : BraidScka B) :
    Except PrimitiveError ((ℕ × Option (SckaOutput B)) × BraidScka B) := do
  let receivingEpoch := s.epoch.toNat - 1
  if msg.epoch.toNat > s.epoch.toNat + 1 then throw .invalidLength
  match s.agent with
  | .keysUnsampled => return ((receivingEpoch, none), s)
  | .keysSampled dk ekVector _ =>
    if msg.epoch = s.epoch ∧ msg.typ = .ct1 then
      let ct1Dec ← (Decoder.new 960).addChunk msg.data
      return ((receivingEpoch, none),
        { s with agent := .headerSent dk (Encoder.new ekVector) ct1Dec })
    else return ((receivingEpoch, none), s)
  | .headerSent dk ekEnc ct1Dec =>
    if msg.epoch = s.epoch ∧ msg.typ = .ct1 then
      let ct1Dec ← ct1Dec.addChunk msg.data
      match ct1Dec.decoded with
      | some ct1 => return ((receivingEpoch, none), { s with agent := .ct1Received dk ct1 ekEnc })
      | none => return ((receivingEpoch, none), { s with agent := .headerSent dk ekEnc ct1Dec })
    else return ((receivingEpoch, none), s)
  | .ct1Received dk ct1 _ =>
    if msg.epoch = s.epoch ∧ msg.typ = .ct2 then
      let ct2Dec ← (Decoder.new (128 + 32)).addChunk msg.data
      return ((receivingEpoch, none), { s with agent := .ekSentCt1Received dk ct1 ct2Dec })
    else return ((receivingEpoch, none), s)
  | .ekSentCt1Received dk ct1 ct2Dec =>
    if msg.epoch = s.epoch ∧ msg.typ = .ct2 then
      let ct2Dec ← ct2Dec.addChunk msg.data
      match ct2Dec.decoded with
      | some blob =>
        let (out, s) ← decapsulate P s dk ct1 blob
        return ((receivingEpoch, some out), s)
      | none =>
        return ((receivingEpoch, none), { s with agent := .ekSentCt1Received dk ct1 ct2Dec })
    else return ((receivingEpoch, none), s)
  | .noHeaderReceived headerDec =>
    if msg.epoch = s.epoch ∧ msg.typ = .hdr then
      let headerDec ← headerDec.addChunk msg.data
      match headerDec.decoded with
      | some blob =>
        let s ← acceptHeader P s blob
        return ((receivingEpoch, none), s)
      | none => return ((receivingEpoch, none), { s with agent := .noHeaderReceived headerDec })
    else return ((receivingEpoch, none), s)
  | .headerReceived .. => return ((receivingEpoch, none), s)
  | .ct1Sampled secret ct1 ct1Enc ekDec ss emittedSs =>
    let s ← recvEkOrAck P s msg secret ct1 ct1Enc ekDec ss emittedSs
    return ((receivingEpoch, none), s)
  | .ekReceivedCt1Sampled secret ct1 ekVector _ ss emittedSs =>
    if msg.epoch = s.epoch ∧ (msg.typ = .ekCt1Ack ∨ msg.typ = .ct1Ack) then
      let s ← sampleCt2 P s secret ct1 ekVector ss emittedSs
      return ((receivingEpoch, none), s)
    else if msg.epoch.toNat = s.epoch.toNat + 1 then
      let (out, s) := completeEncapsulator s ss msg.epoch
      return ((receivingEpoch, some out), s)
    else return ((receivingEpoch, none), s)
  | .ct1Acknowledged secret ct1 ekDec ss emittedSs =>
    if msg.epoch = s.epoch ∧ (msg.typ = .ek ∨ msg.typ = .ekCt1Ack) then
      let ekDec ← ekDec.addChunk msg.data
      match ekDec.decoded with
      | some t =>
        let s ← sampleCt2 P s secret ct1 t ss emittedSs
        return ((receivingEpoch, none), s)
      | none =>
        return ((receivingEpoch, none),
          { s with agent := .ct1Acknowledged secret ct1 ekDec ss emittedSs })
    else return ((receivingEpoch, none), s)
  | .ct2Sampled _ ss _ =>
    if msg.epoch.toNat = s.epoch.toNat + 1 then
      let (out, s) := completeEncapsulator s ss msg.epoch
      return ((receivingEpoch, some out), s)
    else return ((receivingEpoch, none), s)

/-! ### What a message can do -/

/-- **The transitions of `receive`**, each with the key that comes out of it: nothing happens, a chunk
is collected, a chunk completes what it belongs to, or the epoch ends. -/
inductive Receives (msg : BraidMessage B) (s : BraidScka B) :
    Option (SckaOutput B) → BraidScka B → Prop
  | stay : Receives msg s none s
  | firstCt1 {dk : Block B 64} {ekVector : List B} {headerEnc : Encoder B} {d : Decoder B}
      (hagent : s.agent = .keysSampled dk ekVector headerEnc)
      (hmsg : msg.epoch = s.epoch ∧ msg.typ = .ct1)
      (hadd : (Decoder.new 960).addChunk msg.data = .ok d) :
      Receives msg s none { s with agent := .headerSent dk (Encoder.new ekVector) d }
  | ct1 {dk : Block B 64} {ekEnc : Encoder B} {ct1Dec d : Decoder B}
      (hagent : s.agent = .headerSent dk ekEnc ct1Dec) (hmsg : msg.epoch = s.epoch ∧ msg.typ = .ct1)
      (hadd : ct1Dec.addChunk msg.data = .ok d) (hdec : d.decoded = none) :
      Receives msg s none { s with agent := .headerSent dk ekEnc d }
  | ct1Done {dk : Block B 64} {ekEnc : Encoder B} {ct1Dec d : Decoder B} {ct1 : List B}
      (hagent : s.agent = .headerSent dk ekEnc ct1Dec) (hmsg : msg.epoch = s.epoch ∧ msg.typ = .ct1)
      (hadd : ct1Dec.addChunk msg.data = .ok d) (hdec : d.decoded = some ct1) :
      Receives msg s none { s with agent := .ct1Received dk ct1 ekEnc }
  | firstCt2 {dk : Block B 64} {ct1 : List B} {ekEnc : Encoder B} {d : Decoder B}
      (hagent : s.agent = .ct1Received dk ct1 ekEnc) (hmsg : msg.epoch = s.epoch ∧ msg.typ = .ct2)
      (hadd : (Decoder.new (128 + 32)).addChunk msg.data = .ok d) :
      Receives msg s none { s with agent := .ekSentCt1Received dk ct1 d }
  | ct2 {dk : Block B 64} {ct1 : List B} {ct2Dec d : Decoder B}
      (hagent : s.agent = .ekSentCt1Received dk ct1 ct2Dec)
      (hmsg : msg.epoch = s.epoch ∧ msg.typ = .ct2) (hadd : ct2Dec.addChunk msg.data = .ok d)
      (hdec : d.decoded = none) :
      Receives msg s none { s with agent := .ekSentCt1Received dk ct1 d }
  | ct2Done {dk : Block B 64} {ct1 blob : List B} {ct2Dec d : Decoder B} {out : SckaOutput B}
      {s' : BraidScka B} (hagent : s.agent = .ekSentCt1Received dk ct1 ct2Dec)
      (hmsg : msg.epoch = s.epoch ∧ msg.typ = .ct2) (hadd : ct2Dec.addChunk msg.data = .ok d)
      (hdec : d.decoded = some blob) (hdecaps : decapsulate P s dk ct1 blob = .ok (out, s')) :
      Receives msg s (some out) s'
  | hdr {headerDec d : Decoder B} (hagent : s.agent = .noHeaderReceived headerDec)
      (hmsg : msg.epoch = s.epoch ∧ msg.typ = .hdr) (hadd : headerDec.addChunk msg.data = .ok d)
      (hdec : d.decoded = none) :
      Receives msg s none { s with agent := .noHeaderReceived d }
  | hdrDone {headerDec d : Decoder B} {blob : List B} {s' : BraidScka B}
      (hagent : s.agent = .noHeaderReceived headerDec)
      (hmsg : msg.epoch = s.epoch ∧ msg.typ = .hdr) (hadd : headerDec.addChunk msg.data = .ok d)
      (hdec : d.decoded = some blob) (hacc : acceptHeader P s blob = .ok s') :
      Receives msg s none s'
  | ek {secret : EncapsSecret B} {ct1 : Block B 960} {ct1Enc : Encoder B} {ekDec d : Decoder B}
      {ss : Block B 32} {emittedSs : Bool}
      (hagent : s.agent = .ct1Sampled secret ct1 ct1Enc ekDec ss emittedSs)
      (hmsg : msg.epoch = s.epoch ∧ msg.typ = .ek) (hadd : ekDec.addChunk msg.data = .ok d)
      (hdec : d.decoded = none) :
      Receives msg s none { s with agent := .ct1Sampled secret ct1 ct1Enc d ss emittedSs }
  | ekDone {secret : EncapsSecret B} {ct1 : Block B 960} {ct1Enc : Encoder B} {ekDec d : Decoder B}
      {ss : Block B 32} {emittedSs : Bool} {t : List B}
      (hagent : s.agent = .ct1Sampled secret ct1 ct1Enc ekDec ss emittedSs)
      (hmsg : msg.epoch = s.epoch ∧ msg.typ = .ek) (hadd : ekDec.addChunk msg.data = .ok d)
      (hdec : d.decoded = some t) :
      Receives msg s none { s with agent := .ekReceivedCt1Sampled secret ct1 t ct1Enc ss emittedSs }
  | ekCt1Ack {secret : EncapsSecret B} {ct1 : Block B 960} {ct1Enc : Encoder B}
      {ekDec d : Decoder B} {ss : Block B 32} {emittedSs : Bool}
      (hagent : s.agent = .ct1Sampled secret ct1 ct1Enc ekDec ss emittedSs)
      (hmsg : msg.epoch = s.epoch ∧ msg.typ = .ekCt1Ack) (hadd : ekDec.addChunk msg.data = .ok d)
      (hdec : d.decoded = none) :
      Receives msg s none { s with agent := .ct1Acknowledged secret ct1 d ss emittedSs }
  | acknowledged {secret : EncapsSecret B} {ct1 : Block B 960} {ekDec d : Decoder B}
      {ss : Block B 32} {emittedSs : Bool}
      (hagent : s.agent = .ct1Acknowledged secret ct1 ekDec ss emittedSs)
      (hmsg : msg.epoch = s.epoch ∧ (msg.typ = .ek ∨ msg.typ = .ekCt1Ack))
      (hadd : ekDec.addChunk msg.data = .ok d) (hdec : d.decoded = none) :
      Receives msg s none { s with agent := .ct1Acknowledged secret ct1 d ss emittedSs }
  | sampled {secret : EncapsSecret B} {ct1 : Block B 960} {t : List B} {ss : Block B 32}
      {emittedSs : Bool} {s' : BraidScka B} (hmsg : msg.epoch = s.epoch)
      (hct2 : sampleCt2 P s secret ct1 t ss emittedSs = .ok s') :
      Receives msg s none s'
  | complete {ss : Block B 32} (hnext : msg.epoch.toNat = s.epoch.toNat + 1) :
      Receives msg s (some ⟨s.epoch, ss⟩) { s with epoch := msg.epoch, agent := .keysUnsampled }

section Inversion

variable {P} {s s' : BraidScka B} {msg : BraidMessage B}

/-- A key chunk leads where the table of transitions says. -/
theorem receives_of_recvEkOrAck {secret : EncapsSecret B} {ct1 : Block B 960} {ct1Enc : Encoder B}
    {ekDec : Decoder B} {ss : Block B 32} {emittedSs : Bool}
    (hagent : s.agent = .ct1Sampled secret ct1 ct1Enc ekDec ss emittedSs)
    (h : recvEkOrAck P s msg secret ct1 ct1Enc ekDec ss emittedSs = .ok s') :
    Receives P msg s none s' := by
  unfold recvEkOrAck at h
  split at h
  · cases h
    exact .stay
  rename_i hepoch
  have hepoch := not_not.1 hepoch
  split at h
  · rename_i htyp
    obtain ⟨d, hadd, h⟩ := Except.bind_eq_ok.1 h
    split at h
    · rename_i hdec
      cases h
      exact .ekDone hagent ⟨hepoch, htyp⟩ hadd hdec
    · rename_i hdec
      cases h
      exact .ek hagent ⟨hepoch, htyp⟩ hadd hdec
  · rename_i htyp
    obtain ⟨d, hadd, h⟩ := Except.bind_eq_ok.1 h
    split at h
    · exact .sampled hepoch h
    · rename_i hdec
      cases h
      exact .ekCt1Ack hagent ⟨hepoch, htyp⟩ hadd hdec
  · cases h
    exact .stay

/-- **A message does one of these.** -/
theorem receives_of_receive {r : ℕ × Option (SckaOutput B)} (h : receive P msg s = .ok (r, s')) :
    Receives P msg s r.2 s' := by
  unfold receive at h
  dsimp only at h
  split at h
  · cases h
  split at h
  all_goals rename_i hagent
  · cases h
    exact .stay
  · split at h
    · obtain ⟨d, hadd, h⟩ := Except.bind_eq_ok.1 h
      cases h
      exact .firstCt1 hagent ‹_› hadd
    · cases h
      exact .stay
  · split at h
    · obtain ⟨d, hadd, h⟩ := Except.bind_eq_ok.1 h
      split at h
      · cases h
        exact .ct1Done hagent ‹_› hadd ‹_›
      · cases h
        exact .ct1 hagent ‹_› hadd ‹_›
    · cases h
      exact .stay
  · split at h
    · obtain ⟨d, hadd, h⟩ := Except.bind_eq_ok.1 h
      cases h
      exact .firstCt2 hagent ‹_› hadd
    · cases h
      exact .stay
  · split at h
    · obtain ⟨d, hadd, h⟩ := Except.bind_eq_ok.1 h
      split at h
      · obtain ⟨⟨out, t⟩, hdecaps, h⟩ := Except.bind_eq_ok.1 h
        cases h
        exact .ct2Done hagent ‹_› hadd ‹_› hdecaps
      · cases h
        exact .ct2 hagent ‹_› hadd ‹_›
    · cases h
      exact .stay
  · split at h
    · obtain ⟨d, hadd, h⟩ := Except.bind_eq_ok.1 h
      split at h
      · obtain ⟨t, hacc, h⟩ := Except.bind_eq_ok.1 h
        cases h
        exact .hdrDone hagent ‹_› hadd ‹_› hacc
      · cases h
        exact .hdr hagent ‹_› hadd ‹_›
    · cases h
      exact .stay
  · cases h
    exact .stay
  · obtain ⟨t, hrecv, h⟩ := Except.bind_eq_ok.1 h
    cases h
    exact receives_of_recvEkOrAck hagent hrecv
  · split at h
    · rename_i hmsg
      obtain ⟨t, hct2, h⟩ := Except.bind_eq_ok.1 h
      cases h
      exact .sampled hmsg.1 hct2
    split at h
    · cases h
      exact .complete ‹_›
    · cases h
      exact .stay
  · split at h
    · rename_i hmsg
      obtain ⟨d, hadd, h⟩ := Except.bind_eq_ok.1 h
      split at h
      · obtain ⟨t, hct2, h⟩ := Except.bind_eq_ok.1 h
        cases h
        exact .sampled hmsg.1 hct2
      · cases h
        exact .acknowledged hagent hmsg hadd ‹_›
    · cases h
      exact .stay
  · split at h
    · cases h
      exact .complete ‹_›
    · cases h
      exact .stay

/-- What decapsulation leaves. -/
theorem decapsulate_eq_ok {dk : Block B 64} {ct1 blob : List B} {out : SckaOutput B}
    (h : decapsulate P s dk ct1 blob = .ok (out, s')) : s.epoch.toNat + 1 < 2 ^ 64 ∧
      s'.epoch = s.epoch + 1 ∧ s'.agent = .noHeaderReceived (Decoder.new (64 + 32)) := by
  unfold decapsulate at h
  dsimp only at h
  split at h
  · cases h
  obtain ⟨cto, -, h⟩ := Except.bind_eq_ok.1 h
  obtain ⟨-, -, h⟩ := Except.bind_eq_ok.1 h
  split at h
  · rename_i hlt
    cases h
    exact ⟨hlt, rfl, rfl⟩
  · cases h

/-- What an accepted header leaves. -/
theorem acceptHeader_eq_ok {blob : List B} (h : acceptHeader P s blob = .ok s') :
    ∃ ekSeed hek, s' = { s with agent := .headerReceived ekSeed hek (Decoder.new 1152) } := by
  unfold acceptHeader at h
  dsimp only at h
  split at h
  · cases h
  obtain ⟨-, -, h⟩ := Except.bind_eq_ok.1 h
  obtain ⟨⟨ekSeed, rest⟩, -, h⟩ := Except.bind_eq_ok.1 h
  obtain ⟨⟨hek, rest'⟩, -, h⟩ := Except.bind_eq_ok.1 h
  cases h
  exact ⟨ekSeed, hek, rfl⟩

/-- What a completed encapsulation leaves. -/
theorem sampleCt2_eq_ok {secret : EncapsSecret B} {ct1 : Block B 960} {ekVector : List B}
    {ss : Block B 32} {emittedSs : Bool}
    (h : sampleCt2 P s secret ct1 ekVector ss emittedSs = .ok s') : ∃ (ct2 : Block B 128)
      (mac : Block B 32), s' = { s with
        agent := .ct2Sampled (Encoder.new (ct2.val ++ mac.val)) ss emittedSs } := by
  obtain ⟨ct2, -, hret⟩ := Except.bind_eq_ok.1 h
  cases hret
  exact ⟨ct2, _, rfl⟩

end Inversion

end BraidScka

end VoiceChatCrypto
