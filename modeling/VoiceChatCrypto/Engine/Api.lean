import VoiceChatCrypto.Engine.Session
import VoiceChatCrypto.Engine.Storage

/-!
# The engine

`VoiceChatCryptoEngine` of `src/engine/mod.rs`: one device with its identity, prekeys, sessions,
replay cache, trust store and storage, and the calls an application can make. Every call returns its
result **and** the state it leaves behind, because several of them change the state before they can
fail; which of those changes survive an error is a question about the code, answered in later
modules and not built into the type.

Random draws are arguments (`Draws`), so a failing random number generator has no counterpart here.
Of the calls that only read, `remote_identity_state` is here; `has_session`, `safety_fingerprint` and
`local_identity_public` are not modelled.
-/

open Alphabet

namespace VoiceChatCrypto

variable {B : Type} [Alphabet B]

/-- `VoiceChatCryptoEngine`. -/
structure Engine (B : Type) [Alphabet B] where
  /-- The long-lived identity key of the device. -/
  identity : IdentityKeyPair B
  /-- The name of the device, chosen by the caller. -/
  deviceId : List B
  /-- The profile of the sessions it opens. -/
  profile : CryptoProfile
  /-- The prekeys it has offered. -/
  prekeys : PrekeyStore B
  /-- Its live sessions. -/
  sessions : Dict (SessionId B) (LiveSession B)
  /-- What it has accepted lately. -/
  replay : ReplayCache B
  /-- Its contacts. -/
  trust : TrustStore B
  /-- Its storage, with the transaction that may be open. -/
  storage : MemoryStorage B

/-- `DeviceConfig`. -/
structure DeviceConfig (B : Type) where
  /-- The name of the device. -/
  deviceId : List B
  /-- The profile of its sessions. -/
  profile : CryptoProfile

/-- What `initialize_device` draws: the identity, the signed prekey, the last-resort key, the nonces
of the two signatures, and the order in which its maps are written. -/
structure DeviceDraws (B : Type) where
  /-- The order in which maps are written. -/
  order : Enumeration
  /-- The secret of the identity key. -/
  identity : Block B 32
  /-- The secret of the signed prekey. -/
  signedPrekey : Block B 32
  /-- The nonce of its signature. -/
  signedNonce : Block B 64
  /-- The seed of the last-resort KEM key. -/
  lastResort : Block B 64
  /-- The nonce of its signature. -/
  lastResortNonce : Block B 64

namespace Engine

/-! ### Persistence -/

/-- `KEY_IDENTITY`. -/
def keyIdentity : List B := ascii "identity"
/-- `KEY_PREKEYS`. -/
def keyPrekeys : List B := ascii "prekeys"
/-- `KEY_REPLAY`. -/
def keyReplay : List B := ascii "replay"
/-- `KEY_TRUST`. -/
def keyTrust : List B := ascii "trust"

/-- `commit_pairs`. -/
def commitPairs (σ : Enumeration) (pairs : List (List B × List B)) (e : Engine B) :
    Except CryptoError Unit × Engine B :=
  match e.storage.commitPairs σ pairs with
  | (.ok (), storage) => (.ok (), { e with storage })
  | (.error _, storage) => (.error .storage, { e with storage })

/-- The pairs of `persist_device_state`. -/
def devicePairs (σ : Enumeration) (e : Engine B) : List (List B × List B) :=
  [(keyIdentity, e.identity.serialize), (keyPrekeys, e.prekeys.serialize σ),
    (keyReplay, e.replay.serialize), (keyTrust, e.trust.serialize σ)]

/-- `persist_device_state`. -/
def persistDeviceState (σ : Enumeration) (e : Engine B) : Except CryptoError Unit × Engine B :=
  e.commitPairs σ (e.devicePairs σ)

/-- The pairs of `persist_session_aux`. -/
def sessionPairs (σ : Enumeration) (sid : SessionId B) (s : LiveSession B) (e : Engine B) :
    List (List B × List B) :=
  [(sid.val, s.encode σ sid), (keyReplay, e.replay.serialize), (keyTrust, e.trust.serialize σ)]

/-- `persist_session_aux`. -/
def persistSessionAux (σ : Enumeration) (sid : SessionId B) (e : Engine B) :
    Except CryptoError Unit × Engine B :=
  match e.sessions.lookup sid with
  | none => (.error .noSession, e)
  | some s => e.commitPairs σ (e.sessionPairs σ sid s)

/-- The pairs of `persist_handshake`. -/
def handshakePairs (σ : Enumeration) (sid : SessionId B) (s : LiveSession B) (e : Engine B) :
    List (List B × List B) :=
  [(keyIdentity, e.identity.serialize), (keyPrekeys, e.prekeys.serialize σ),
    (sid.val, s.encode σ sid), (keyReplay, e.replay.serialize), (keyTrust, e.trust.serialize σ)]

/-- `persist_handshake`. -/
def persistHandshake (σ : Enumeration) (sid : SessionId B) (e : Engine B) :
    Except CryptoError Unit × Engine B :=
  match e.sessions.lookup sid with
  | none => (.error .noSession, e)
  | some s => e.commitPairs σ (e.handshakePairs σ sid s)

variable (P : Primitives B)

/-- `initialize_device`. -/
def initializeDevice (config : DeviceConfig B) (d : DeviceDraws B) :
    Except CryptoError (Engine B) :=
  let identity : IdentityKeyPair B := { secret := d.identity }
  let e : Engine B :=
    { identity, deviceId := config.deviceId, profile := config.profile
      prekeys := PrekeyStore.new P identity d.signedPrekey d.signedNonce d.lastResort
        d.lastResortNonce
      sessions := ∅, replay := ReplayCache.new 4096, trust := TrustStore.new
      storage := MemoryStorage.empty }
  match e.persistDeviceState d.order with
  | (.ok (), e) => .ok e
  | (.error err, _) => .error err

/-! ### Prekeys -/

/-- `generate_public_prekey_bundle`, and `replenish_prekeys`, which calls it. -/
def generatePublicPrekeyBundle (oneTimeCount : ℕ) (d : Draws B) (e : Engine B) :
    Except CryptoError (PublicPrekeyBundle B) × Engine B :=
  match e.prekeys.replenish P e.identity d.prekeys oneTimeCount oneTimeCount with
  | (.error err, prekeys) => (.error (.ofPrimitive err), { e with prekeys })
  | (.ok (), prekeys) =>
    match ({ e with prekeys } : Engine B).persistDeviceState d.order with
    | (.error err, e) => (.error err, e)
    | (.ok (), e) => (.ok (e.prekeys.publicBundle P d.order e.identity), e)

/-! ### Messages -/

/-- `encrypt`. -/
def encrypt (sid : SessionId B) (plaintext ad : List B) (d : Draws B) (e : Engine B) :
    Except CryptoError (SealedMessage B) × Engine B :=
  match e.sessions.lookup sid with
  | none => (.error .noSession, e)
  | some sess =>
    match sess.ratchet.encrypt P d plaintext (sess.boundAd ad) with
    | .error err => (.error err, e)
    | .ok ((header, ciphertext), ratchet) =>
      let e := { e with sessions := e.sessions.insert sid { sess with ratchet } }
      match e.persistSessionAux d.order sid with
      | (.error err, e) => (.error err, e)
      | (.ok (), e) => (.ok { header, ciphertext, sessionHint := sid }, e)

/-- `contains_seq`. -/
def containsSeq (hay needle : List B) : Bool :=
  !needle.isEmpty && (List.range (hay.length + 1 - needle.length)).any fun i ↦
    (hay.drop i).take needle.length = needle

/-- `encrypt_voice_payload`. -/
def encryptVoicePayload (sid : SessionId B) (payload ad : List B) (d : Draws B) (e : Engine B) :
    Except CryptoError (SealedMessage B) × Engine B :=
  if containsSeq ad (ascii "voice_profile") || containsSeq ad (ascii "voice-profile") then
    (.error .voiceProfileForbidden, e)
  else e.encrypt P sid payload ad d

/-- `apply_decrypt`: opens on a trial copy, then records the message in the replay cache. -/
def applyDecrypt (sid : SessionId B) (sealed : SealedMessage B) (ad : List B) (d : Draws B)
    (e : Engine B) : Except CryptoError (List B) × Engine B :=
  match e.sessions.lookup sid with
  | none => (.error .noSession, e)
  | some sess =>
    let rkey := replayKey sid sealed sess.conversation e.deviceId
    if e.replay.contains rkey then (.error .replay, e)
    else
      match sess.ratchet.decrypt P d sealed.header sealed.ciphertext (sess.boundAd ad) with
      | .error err => (.error err, e)
      | .ok (plaintext, ratchet) =>
        let (replayed, replay) := e.replay.checkAndInsert rkey
        let e := { e with sessions := e.sessions.insert sid { sess with ratchet }, replay }
        if replayed then (.error .replay, e) else (.ok plaintext, e)

/-- `decrypt`. -/
def decrypt (sid : SessionId B) (sealed : SealedMessage B) (ad : List B) (d : Draws B)
    (e : Engine B) : Except CryptoError (List B) × Engine B :=
  match e.applyDecrypt P sid sealed ad d with
  | (.error err, e) => (.error err, e)
  | (.ok plaintext, e) =>
    match e.persistSessionAux d.order sid with
    | (.error err, e) => (.error err, e)
    | (.ok (), e) => (.ok plaintext, e)

/-! ### Handshakes -/

/-- The part of `establish_outbound_session` before the session exists: PQXDH and the ratchet. -/
def initiate (bundle : PublicPrekeyBundle B) (d : Draws B) (e : Engine B) :
    Except CryptoError (AliceInitiation B × LiveRatchet B) := do
  liftError (bundle.validate P)
  let initiation ← liftError (aliceInitiate P d.ephemeral d.kemCoins e.identity bundle)
  let ratchet ← initAliceRatchet P e.profile d.ratchet initiation.shared.sk bundle.signedPrekey
  return (initiation, ratchet)

/-- The engine with a new session that has sent and received nothing. -/
def openSession (sid : SessionId B) (ratchet : LiveRatchet B) (remote : Block B 32)
    (conversation handshakeAd : List B) (e : Engine B) : Engine B :=
  let trust := e.trust.recordSeen { identityKey := remote, deviceId := none }
  { e with
    trust
    sessions := e.sessions.insert sid
      { ratchet, remoteIdentity := remote, conversation
        identityTracker := trust.trackerFor remote, handshakeAd } }

/-- `establish_outbound_session`. -/
def establishOutboundSession (bundle : PublicPrekeyBundle B) (conversation firstPlaintext ad : List B)
    (d : Draws B) (e : Engine B) :
    Except CryptoError (SessionId B × InitiationPacket B) × Engine B :=
  match e.initiate P bundle d with
  | .error err => (.error err, e)
  | .ok (initiation, ratchet) =>
    let e := e.openSession d.sessionId ratchet bundle.identityKey conversation initiation.shared.ad
    match e.encrypt P d.sessionId firstPlaintext ad d with
    | (.error err, e) => (.error err, e)
    | (.ok firstMessage, e) =>
      let packet : InitiationPacket B :=
        { senderIdentityPublic := e.identity.publicKey P
          senderEphemeralPublic := initiation.ephemeralPublic
          kemCiphertext := initiation.kemCiphertext
          usedSpkId := bundle.signedPrekeyId
          usedEcOpkId := initiation.usedEcOpkId
          pqPrekeyId := initiation.usedPqPrekeyId
          firstMessage }
      (.ok (d.sessionId, packet), e)

/-- The one-time EC prekey a packet names. -/
def peekPacketEc (message : InitiationPacket B) (prekeys : PrekeyStore B) :
    Except CryptoError (Option (OneTimeEcPrekey B)) :=
  match message.usedEcOpkId with
  | some id => do
    let k ← liftError (prekeys.peekEc id)
    return some k
  | none => .ok none

/-- The KEM seed a packet names: the last resort by its id, or else a one-time prekey. -/
def peekPacketPq (message : InitiationPacket B) (prekeys : PrekeyStore B) :
    Except CryptoError (Block B 64) :=
  if message.pqPrekeyId = prekeys.lastResortPq.id then .ok prekeys.lastResortPq.secret
  else do
    let k ← liftError (prekeys.peekPq message.pqPrekeyId)
    return k.secret

/-- The part of `process_inbound_session` before the session exists: the checks, PQXDH and the
ratchet. -/
def respond (message : InitiationPacket B) (e : Engine B) :
    Except CryptoError (Block B 32 × PqxdhSharedSecret B × LiveRatchet B) := do
  let aliceIk ← liftError (publicFromBytes message.senderIdentityPublic)
  let aliceEk ← liftError (publicFromBytes message.senderEphemeralPublic)
  if message.usedSpkId ≠ e.prekeys.signed.id then throw .cryptoFailure
  let peekedEc ← peekPacketEc message e.prekeys
  let pqSecret ← peekPacketPq message e.prekeys
  let shared ← liftError (bobProcess P e.identity e.prekeys.signed peekedEc pqSecret
    (P.kemPublic pqSecret) aliceIk aliceEk message.kemCiphertext message.usedEcOpkId)
  let ratchet ← initBobRatchet P e.profile shared.sk e.prekeys.signed.secret
  return (aliceIk, shared, ratchet)

/-- The consumption of the one-time prekeys a packet names. The EC prekey goes first. -/
def consumePrekeys (message : InitiationPacket B) (prekeys : PrekeyStore B) :
    Except CryptoError Unit × PrekeyStore B :=
  let consumedEc := match message.usedEcOpkId with
    | some id => prekeys.consumeEc id
    | none => .ok prekeys
  match consumedEc with
  | .error err => (.error (.ofPrimitive err), prekeys)
  | .ok prekeys' =>
    if message.pqPrekeyId = prekeys.lastResortPq.id then (.ok (), prekeys')
    else
      match prekeys'.consumePq message.pqPrekeyId with
      | .error err => (.error (.ofPrimitive err), prekeys')
      | .ok prekeys'' => (.ok (), prekeys'')

/-- `process_inbound_session`. -/
def processInboundSession (message : InitiationPacket B) (conversation ad : List B) (d : Draws B)
    (e : Engine B) : Except CryptoError (SessionId B × List B) × Engine B :=
  match e.respond P message with
  | .error err => (.error err, e)
  | .ok (aliceIk, shared, ratchet) =>
    let sid := d.sessionId
    match (e.openSession sid ratchet aliceIk conversation shared.ad).applyDecrypt P sid
        message.firstMessage ad d with
    | (.error err, e) => (.error err, { e with sessions := e.sessions.erase sid })
    | (.ok plaintext, e) =>
      match consumePrekeys message e.prekeys with
      | (.error err, prekeys) => (.error err, { e with prekeys })
      | (.ok (), prekeys) =>
        match ({ e with prekeys } : Engine B).persistHandshake d.order sid with
        | (.error err, e) => (.error err, { e with sessions := e.sessions.erase sid })
        | (.ok (), e) => (.ok (sid, plaintext), e)

/-! ### Identity and deletion -/

/-- `acknowledge_identity_change`. -/
def acknowledgeIdentityChange (remote : Block B 32) (deviceId : Option (List B)) (d : Draws B)
    (e : Engine B) : Except CryptoError Unit × Engine B :=
  match publicFromBytes remote with
  | .error err => (.error (.ofPrimitive err), e)
  | .ok remote =>
    let material : IdentityMaterial B := { identityKey := remote, deviceId }
    let sessions := e.sessions.mapValues fun s ↦
      if s.remoteIdentity = remote ∨ (s.identityTracker.observe material).isChanged then
        { s with identityTracker := s.identityTracker.acknowledge material }
      else s
    let e := { e with sessions, trust := e.trust.acknowledge material 0 .safetyNumber }
    e.persistDeviceState d.order

/-- `remote_identity_state`. -/
def remoteIdentityState (remote : Block B 32) (deviceId : Option (List B)) (e : Engine B) :
    Except CryptoError (IdentityState B) := do
  let remote ← liftError (publicFromBytes remote)
  return (e.trust.trackerFor remote).observe { identityKey := remote, deviceId }

/-- `delete_session`. The results of `delete` and `commit` are dropped. -/
def deleteSession (sid : SessionId B) (d : Draws B) (e : Engine B) :
    Except CryptoError Unit × Engine B :=
  match e.sessions.lookup sid with
  | none => (.error .noSession, e)
  | some _ =>
    let e := { e with sessions := e.sessions.erase sid }
    match e.storage.begin_ with
    | (.error _, storage) => (.error .storage, { e with storage })
    | (.ok tx, storage) =>
      let storage := (storage.stage tx sid.val none).2
      (.ok (), { e with storage := (storage.commit d.order tx).2 })

/-- `delete_all_sessions`. -/
def deleteAllSessions (e : Engine B) : Except CryptoError Unit × Engine B :=
  (.ok (), { e with sessions := ∅, storage := e.storage.clear })

/-! ### Reload -/

/-- The blobs that `simulate_crash_reload` takes for sessions. -/
def isSessionBlob (blob : List B) : Bool := blob.take 8 = ascii "VCSESS01"

/-- One round of the reload loop. -/
def restoreBlob (restored : Dict (SessionId B) (LiveSession B)) (entry : List B × List B) :
    Except CryptoError (Dict (SessionId B) (LiveSession B)) :=
  if isSessionBlob entry.2 then do
    let (sid, s) ← LiveSession.decode entry.2
    return restored.insert sid s
  else .ok restored

/-- The part of `simulate_crash_reload` after the sessions are restored: the replay cache and the
trust store, when their blobs decode, and the identity trackers. -/
def reloadAux (e : Engine B) : Engine B :=
  let replay := match e.storage.committed.lookup keyReplay with
    | none => e.replay
    | some blob => (ReplayCache.deserialize blob).toOption.getD e.replay
  let trust := match e.storage.committed.lookup keyTrust with
    | none => e.trust
    | some blob => (TrustStore.deserialize blob).toOption.getD e.trust
  { e with
    replay, trust
    sessions := e.sessions.mapValues fun s ↦
      { s with identityTracker := trust.trackerFor s.remoteIdentity } }

/-- `simulate_crash_reload`. Each part that fails to decode leaves what was reloaded before it. -/
def simulateCrashReload (d : Draws B) (e : Engine B) : Except CryptoError Unit × Engine B :=
  let identity : Except PrimitiveError (IdentityKeyPair B) :=
    match e.storage.committed.lookup keyIdentity with
    | none => .ok e.identity
    | some blob => IdentityKeyPair.deserialize blob
  match identity with
  | .error err => (.error (.ofPrimitive err), e)
  | .ok identity =>
    let e := { e with identity }
    let prekeys : Except PrimitiveError (PrekeyStore B) :=
      match e.storage.committed.lookup keyPrekeys with
      | none => .ok e.prekeys
      | some blob => PrekeyStore.deserialize blob
    match prekeys with
    | .error err => (.error (.ofPrimitive err), e)
    | .ok prekeys =>
      let e := { e with prekeys }
      match (d.order.list e.storage.committed).foldlM restoreBlob ∅ with
      | .error err => (.error err, e)
      | .ok sessions => (.ok (), ({ e with sessions } : Engine B).reloadAux)

end Engine

end VoiceChatCrypto
