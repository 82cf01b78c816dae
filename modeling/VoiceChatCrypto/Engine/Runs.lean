import VoiceChatCrypto.Data.System
import VoiceChatCrypto.Engine.Api

/-!
# Runs of an engine

The calls of an application as one type, and what each of them can do as one relation: `Effect` lists
the ways a call can change an engine whose storage is idle, with the facts that hold when it does.
`call_effect` says that the list is complete. Every invariant of the engine is a case analysis on it,
and no other proof unfolds a call.

A run keeps a log of its calls with the state each was made in, so that a statement about two moments
of a run is a statement about one reachable state.
-/

open Alphabet

namespace VoiceChatCrypto

variable {B : Type} [Alphabet B]

/-- The calls of an application. -/
inductive Call (B : Type)
  | generateBundle (oneTimeCount : ℕ)
  | establish (bundle : PublicPrekeyBundle B) (conversation firstPlaintext ad : List B)
  | processInbound (packet : InitiationPacket B) (conversation ad : List B)
  | encrypt (sid : SessionId B) (plaintext ad : List B)
  | encryptVoicePayload (sid : SessionId B) (payload ad : List B)
  | decrypt (sid : SessionId B) (sealed : SealedMessage B) (ad : List B)
  | acknowledge (remote : Block B 32) (deviceId : Option (List B))
  | deleteSession (sid : SessionId B)
  | deleteAllSessions
  | crashReload

/-- What a successful call returns. -/
inductive Output (B : Type)
  | bundle (b : PublicPrekeyBundle B)
  | established (sid : SessionId B) (packet : InitiationPacket B)
  | processed (sid : SessionId B) (plaintext : List B)
  | sealed (m : SealedMessage B)
  | opened (plaintext : List B)
  | done
  deriving DecidableEq

namespace Engine

variable (P : Primitives B)

/-- The result of a call as an output. -/
def report {α : Type} (f : α → Output B) (r : Except CryptoError α × Engine B) :
    Except CryptoError (Output B) × Engine B :=
  (r.1.map f, r.2)

/-- One call. -/
def call (d : Draws B) (c : Call B) (e : Engine B) : Except CryptoError (Output B) × Engine B :=
  match c with
  | .generateBundle n => report .bundle (e.generatePublicPrekeyBundle P n d)
  | .establish bundle conv pt ad =>
    report (fun r ↦ .established r.1 r.2) (e.establishOutboundSession P bundle conv pt ad d)
  | .processInbound packet conv ad =>
    report (fun r ↦ .processed r.1 r.2) (e.processInboundSession P packet conv ad d)
  | .encrypt sid pt ad => report .sealed (e.encrypt P sid pt ad d)
  | .encryptVoicePayload sid pt ad => report .sealed (e.encryptVoicePayload P sid pt ad d)
  | .decrypt sid sealed ad => report .opened (e.decrypt P sid sealed ad d)
  | .acknowledge remote dev => report (fun _ ↦ .done) (e.acknowledgeIdentityChange remote dev d)
  | .deleteSession sid => report (fun _ ↦ .done) (e.deleteSession sid d)
  | .deleteAllSessions => report (fun _ ↦ .done) e.deleteAllSessions
  | .crashReload => report (fun _ ↦ .done) (e.simulateCrashReload d)

/-! ### Commits -/

/-- The engine after a successful transaction. -/
def committed (pairs : List (List B × List B)) (e : Engine B) : Engine B :=
  { e with storage := e.storage.afterCommit pairs }

/-- The engine after `persist_device_state`. -/
def commitDevice (σ : Enumeration) (e : Engine B) : Engine B := e.committed (e.devicePairs σ)

/-- The engine after `persist_session_aux`. -/
def commitSession (σ : Enumeration) (sid : SessionId B) (s : LiveSession B) (e : Engine B) :
    Engine B :=
  e.committed (e.sessionPairs σ sid s)

/-- The engine after `persist_handshake`. -/
def commitHandshake (σ : Enumeration) (sid : SessionId B) (s : LiveSession B) (e : Engine B) :
    Engine B :=
  e.committed (e.handshakePairs σ sid s)

variable {P} {e : Engine B}

theorem commitPairs_of_idle (h : e.storage.staged = none) (σ : Enumeration)
    (pairs : List (List B × List B)) : e.commitPairs σ pairs = (.ok (), e.committed pairs) := by
  rw [commitPairs, MemoryStorage.commitPairs_of_idle σ pairs h]
  rfl

theorem persistDeviceState_of_idle (h : e.storage.staged = none) (σ : Enumeration) :
    e.persistDeviceState σ = (.ok (), e.commitDevice σ) :=
  commitPairs_of_idle h σ _

theorem persistSessionAux_of_idle (h : e.storage.staged = none) (σ : Enumeration)
    {sid : SessionId B} {s : LiveSession B} (hs : e.sessions.lookup sid = some s) :
    e.persistSessionAux σ sid = (.ok (), e.commitSession σ sid s) := by
  rw [persistSessionAux, hs]
  exact commitPairs_of_idle h σ _

theorem persistHandshake_of_idle (h : e.storage.staged = none) (σ : Enumeration)
    {sid : SessionId B} {s : LiveSession B} (hs : e.sessions.lookup sid = some s) :
    e.persistHandshake σ sid = (.ok (), e.commitHandshake σ sid s) := by
  rw [persistHandshake, hs]
  exact commitPairs_of_idle h σ _

/-! ### What each call computes -/

/-- The engine with another ratchet in a session. -/
def withRatchet (sid : SessionId B) (s : LiveSession B) (ratchet : LiveRatchet B) (e : Engine B) :
    Engine B :=
  { e with sessions := e.sessions.insert sid { s with ratchet } }

/-- A session with a new ratchet is otherwise the same. -/
theorem lookup_withRatchet (sid : SessionId B) (s : LiveSession B) (ratchet : LiveRatchet B)
    (e : Engine B) : (e.withRatchet sid s ratchet).sessions.lookup sid = some { s with ratchet } :=
  Finmap.lookup_insert _

/-- **`encrypt`** fails and changes nothing, or moves the ratchet on and commits it. -/
theorem encrypt_cases (h : e.storage.staged = none) (sid : SessionId B) (pt ad : List B)
    (d : Draws B) :
    (∃ err, e.encrypt P sid pt ad d = (.error err, e) ∧
      (e.sessions.lookup sid = none ∨ ∃ s, e.sessions.lookup sid = some s ∧
        s.ratchet.encrypt P d pt (s.boundAd ad) = .error err)) ∨
    ∃ s header ct r, e.sessions.lookup sid = some s ∧
      s.ratchet.encrypt P d pt (s.boundAd ad) = .ok ((header, ct), r) ∧
      e.encrypt P sid pt ad d = (.ok ⟨header, ct, sid⟩,
        (e.withRatchet sid s r).commitSession d.order sid { s with ratchet := r }) := by
  unfold encrypt
  cases hs : e.sessions.lookup sid with
  | none => exact .inl ⟨_, rfl, .inl rfl⟩
  | some s =>
    cases henc : s.ratchet.encrypt P d pt (s.boundAd ad) with
    | error err => exact .inl ⟨err, by simp only [henc], .inr ⟨s, rfl, henc⟩⟩
    | ok out =>
      obtain ⟨⟨header, ct⟩, r⟩ := out
      refine .inr ⟨s, header, ct, r, rfl, henc, ?_⟩
      have hpersist := persistSessionAux_of_idle (e := e.withRatchet sid s r) h d.order
        (lookup_withRatchet sid s r e)
      unfold withRatchet at hpersist ⊢
      simp only [henc, hpersist]

/-- The engine after a message was opened, before anything is committed. -/
def received (sid : SessionId B) (s : LiveSession B) (ratchet : LiveRatchet B)
    (sealed : SealedMessage B) (e : Engine B) : Engine B :=
  { e.withRatchet sid s ratchet with
    replay := (e.replay.checkAndInsert (replayKey sid sealed s.conversation e.deviceId)).2 }

/-- A message that is not in the replay cache and that the ratchet opens. The second look into the
cache never finds anything. -/
theorem applyDecrypt_eq_ok {e : Engine B} {sid : SessionId B} {sealed : SealedMessage B}
    {ad pt : List B} {d : Draws B} {s : LiveSession B} {r : LiveRatchet B}
    (hs : e.sessions.lookup sid = some s)
    (hrep : e.replay.contains (replayKey sid sealed s.conversation e.deviceId) = false)
    (hdec : s.ratchet.decrypt P d sealed.header sealed.ciphertext (s.boundAd ad) = .ok (pt, r)) :
    e.applyDecrypt P sid sealed ad d = (.ok pt, e.received sid s r sealed) := by
  have hfirst : (e.replay.checkAndInsert
      (replayKey sid sealed s.conversation e.deviceId)).1 = false := by
    rw [ReplayCache.checkAndInsert, hrep]
    rfl
  simp only [applyDecrypt, hs, hrep, hdec, Bool.false_eq_true, if_false, hfirst]
  rfl

/-- **`apply_decrypt`** fails and changes nothing, or moves the ratchet on and records the message. -/
theorem applyDecrypt_cases (e : Engine B) (sid : SessionId B) (sealed : SealedMessage B)
    (ad : List B) (d : Draws B) :
    (∃ err, e.applyDecrypt P sid sealed ad d = (.error err, e)) ∨
    ∃ s pt r, e.sessions.lookup sid = some s ∧
      e.replay.contains (replayKey sid sealed s.conversation e.deviceId) = false ∧
      s.ratchet.decrypt P d sealed.header sealed.ciphertext (s.boundAd ad) = .ok (pt, r) ∧
      e.applyDecrypt P sid sealed ad d = (.ok pt, e.received sid s r sealed) := by
  cases hs : e.sessions.lookup sid with
  | none => exact .inl ⟨.noSession, by simp only [applyDecrypt, hs]⟩
  | some s =>
    cases hrep : e.replay.contains (replayKey sid sealed s.conversation e.deviceId) with
    | true => exact .inl ⟨.replay, by simp only [applyDecrypt, hs, hrep, if_true]⟩
    | false =>
      cases hdec : s.ratchet.decrypt P d sealed.header sealed.ciphertext (s.boundAd ad) with
      | error err =>
        refine .inl ⟨err, ?_⟩
        simp only [applyDecrypt, hs, hrep, hdec, Bool.false_eq_true, if_false]
      | ok out =>
        obtain ⟨pt, r⟩ := out
        exact .inr ⟨s, pt, r, rfl, hrep, hdec, applyDecrypt_eq_ok hs hrep hdec⟩

/-- A message that is not in the replay cache and that the ratchet opens is opened and committed. -/
theorem decrypt_of_opens (h : e.storage.staged = none) {sid : SessionId B} {sealed : SealedMessage B}
    {ad pt : List B} {d : Draws B} {s : LiveSession B} {r : LiveRatchet B}
    (hs : e.sessions.lookup sid = some s)
    (hrep : e.replay.contains (replayKey sid sealed s.conversation e.deviceId) = false)
    (hdec : s.ratchet.decrypt P d sealed.header sealed.ciphertext (s.boundAd ad) = .ok (pt, r)) :
    e.decrypt P sid sealed ad d = (.ok pt,
      (e.received sid s r sealed).commitSession d.order sid { s with ratchet := r }) := by
  have hpersist := persistSessionAux_of_idle (e := e.received sid s r sealed) h d.order
    (lookup_withRatchet sid s r e)
  simp only [decrypt, applyDecrypt_eq_ok hs hrep hdec, hpersist]

/-- **`decrypt`** fails and changes nothing, or commits. -/
theorem decrypt_cases (h : e.storage.staged = none) (sid : SessionId B) (sealed : SealedMessage B)
    (ad : List B) (d : Draws B) :
    (∃ err, e.decrypt P sid sealed ad d = (.error err, e)) ∨
    ∃ s pt r, e.sessions.lookup sid = some s ∧
      e.replay.contains (replayKey sid sealed s.conversation e.deviceId) = false ∧
      s.ratchet.decrypt P d sealed.header sealed.ciphertext (s.boundAd ad) = .ok (pt, r) ∧
      e.decrypt P sid sealed ad d = (.ok pt,
        (e.received sid s r sealed).commitSession d.order sid { s with ratchet := r }) := by
  rcases applyDecrypt_cases (P := P) e sid sealed ad d with
    ⟨err, heq⟩ | ⟨s, pt, r, hs, hrep, hdec, -⟩
  · refine .inl ⟨err, ?_⟩
    rw [decrypt, heq]
  · exact .inr ⟨s, pt, r, hs, hrep, hdec, decrypt_of_opens h hs hrep hdec⟩

/-- The session that an initiation opens. -/
def outboundSession (bundle : PublicPrekeyBundle B) (conv : List B) (i : AliceInitiation B)
    (r : LiveRatchet B) (e : Engine B) : LiveSession B :=
  let trust := e.trust.recordSeen { identityKey := bundle.identityKey, deviceId := none }
  ⟨r, bundle.identityKey, conv, trust.trackerFor bundle.identityKey, i.shared.ad⟩

/-- The packet of an initiation. -/
def initiationPacket (P : Primitives B) (bundle : PublicPrekeyBundle B) (i : AliceInitiation B)
    (firstMessage : SealedMessage B) (e : Engine B) : InitiationPacket B :=
  { senderIdentityPublic := e.identity.publicKey P
    senderEphemeralPublic := i.ephemeralPublic
    kemCiphertext := i.kemCiphertext
    usedSpkId := bundle.signedPrekeyId
    usedEcOpkId := i.usedEcOpkId
    pqPrekeyId := i.usedPqPrekeyId
    firstMessage }

/-- **`establish_outbound_session`** is refused before it touches anything; or stops with an open
session, when the first message cannot be sealed; or commits. -/
theorem establish_cases (h : e.storage.staged = none) (bundle : PublicPrekeyBundle B)
    (conv pt ad : List B) (d : Draws B) :
    (∃ err, e.initiate P bundle d = .error err ∧
      e.establishOutboundSession P bundle conv pt ad d = (.error err, e)) ∨
    ∃ i r, e.initiate P bundle d = .ok (i, r) ∧
      let s := e.outboundSession bundle conv i r
      let opened := e.openSession d.sessionId r bundle.identityKey conv i.shared.ad
      ((∃ err, r.encrypt P d pt (s.boundAd ad) = .error err ∧
        e.establishOutboundSession P bundle conv pt ad d = (.error err, opened)) ∨
      ∃ header ct r', r.encrypt P d pt (s.boundAd ad) = .ok ((header, ct), r') ∧
        e.establishOutboundSession P bundle conv pt ad d =
          (.ok (d.sessionId, e.initiationPacket P bundle i ⟨header, ct, d.sessionId⟩),
            (opened.withRatchet d.sessionId s r').commitSession d.order d.sessionId
              { s with ratchet := r' })) := by
  unfold establishOutboundSession
  cases hinit : e.initiate P bundle d with
  | error err => exact .inl ⟨err, rfl, rfl⟩
  | ok out =>
    obtain ⟨i, r⟩ := out
    refine .inr ⟨i, r, rfl, ?_⟩
    intro s opened
    have hs : opened.sessions.lookup d.sessionId = some s := Finmap.lookup_insert _
    rcases encrypt_cases (P := P) (e := opened) h d.sessionId pt ad d with
      ⟨err, heq, hnone | ⟨s', hs', herr⟩⟩ | ⟨s', header, ct, r', hs', henc, heq⟩
    · rw [hs] at hnone
      cases hnone
    · rw [hs] at hs'
      cases hs'
      left
      refine ⟨err, herr, ?_⟩
      dsimp only
      rw [heq]
    · rw [hs] at hs'
      cases hs'
      right
      refine ⟨header, ct, r', henc, ?_⟩
      dsimp only
      rw [heq]
      rfl

/-- The store after a packet has used up the one-time prekeys it names. -/
def consumedBy (m : InitiationPacket B) (s : PrekeyStore B) : PrekeyStore B :=
  { s with
    oneTimeEc := match m.usedEcOpkId with
      | some id => s.oneTimeEc.erase id
      | none => s.oneTimeEc
    oneTimePq := if m.pqPrekeyId = s.lastResortPq.id then s.oneTimePq
      else s.oneTimePq.erase m.pqPrekeyId }

/-- What has been checked when a packet gets a ratchet: the prekeys it names are there. -/
structure Answers (P : Primitives B) (m : InitiationPacket B) (e : Engine B)
    (shared : PqxdhSharedSecret B) (r : LiveRatchet B) : Prop where
  /-- The sender's identity key is usable. -/
  identity : m.senderIdentityPublic ≠ Block.zero 32
  /-- The signed prekey it names is the one in use. -/
  spk : m.usedSpkId = e.prekeys.signed.id
  /-- The one-time EC prekey it names, if any, is there. -/
  ec : ∀ id, m.usedEcOpkId = some id → ∃ k, e.prekeys.oneTimeEc.lookup id = some k
  /-- So is the one-time KEM key, unless it names the last-resort key. -/
  pq : m.pqPrekeyId ≠ e.prekeys.lastResortPq.id →
    ∃ k, e.prekeys.oneTimePq.lookup m.pqPrekeyId = some k
  /-- The associated data of the handshake has its fixed length. -/
  ad : shared.ad.length = 1251
  /-- The ratchet of the responder starts from the shared secret. -/
  ratchet : initBobRatchet P e.profile shared.sk e.prekeys.signed.secret = .ok r

/-- The associated data of a handshake has a fixed length. -/
theorem length_pqxdhAd (a b : Block B 32) (pq : Block B 1184) : (pqxdhAd a b pq).length = 1251 := by
  simp [pqxdhAd, encodeEc, encodeKem]

theorem respond_eq_ok {m : InitiationPacket B} {ik : Block B 32} {shared : PqxdhSharedSecret B}
    {r : LiveRatchet B} (h : e.respond P m = .ok (ik, shared, r)) :
    ik = m.senderIdentityPublic ∧ Answers P m e shared r := by
  unfold respond at h
  obtain ⟨aliceIk, hik, h⟩ := Except.bind_eq_ok.1 h
  obtain ⟨aliceEk, -, h⟩ := Except.bind_eq_ok.1 h
  dsimp only at h
  split at h
  · cases h
  rename_i hspk
  obtain ⟨peekedEc, hec, h⟩ := Except.bind_eq_ok.1 h
  obtain ⟨pqSecret, hpq, h⟩ := Except.bind_eq_ok.1 h
  obtain ⟨sh, hbob, h⟩ := Except.bind_eq_ok.1 h
  obtain ⟨ratchet, hratchet, h⟩ := Except.bind_eq_ok.1 h
  cases h
  obtain ⟨hne, rfl⟩ := publicFromBytes_eq_ok.1 (liftError_eq_ok.1 hik)
  refine ⟨rfl, hne, not_not.1 hspk, ?_, ?_, ?_, hratchet⟩
  · intro id hid
    unfold peekPacketEc at hec
    rw [hid] at hec
    obtain ⟨k, hk, -⟩ := Except.bind_eq_ok.1 hec
    exact ⟨k, PrekeyStore.peekEc_eq_ok.1 (liftError_eq_ok.1 hk)⟩
  · intro hlr
    unfold peekPacketPq at hpq
    rw [if_neg hlr] at hpq
    obtain ⟨k, hk, -⟩ := Except.bind_eq_ok.1 hpq
    exact ⟨k, PrekeyStore.peekPq_eq_ok.1 (liftError_eq_ok.1 hk)⟩
  · obtain ⟨ct, -, hbob⟩ := Except.bind_eq_ok.1 (liftError_eq_ok.1 hbob)
    obtain ⟨dh4, -, hbob⟩ := Except.bind_eq_ok.1 hbob
    cases hbob
    exact length_pqxdhAd _ _ _

omit [Alphabet B] in
/-- The prekeys a packet names can be consumed. -/
theorem consumePrekeys_eq {m : InitiationPacket B} {s : PrekeyStore B}
    (hec : ∀ id, m.usedEcOpkId = some id → ∃ k, s.oneTimeEc.lookup id = some k)
    (hpq : m.pqPrekeyId ≠ s.lastResortPq.id → ∃ k, s.oneTimePq.lookup m.pqPrekeyId = some k) :
    consumePrekeys m s = (.ok (), consumedBy m s) := by
  have hconsumePq : ∀ {t : PrekeyStore B} {k : PqPrekey B},
      t.oneTimePq.lookup m.pqPrekeyId = some k →
      t.consumePq m.pqPrekeyId = .ok { t with oneTimePq := t.oneTimePq.erase m.pqPrekeyId } := by
    intro t k hk
    rw [PrekeyStore.consumePq, PrekeyStore.peekPq_eq_ok.2 hk]
    rfl
  unfold consumePrekeys consumedBy
  cases hid : m.usedEcOpkId with
  | none =>
    by_cases hlr : m.pqPrekeyId = s.lastResortPq.id
    · simp only [hlr, if_true]
    · obtain ⟨k, hk⟩ := hpq hlr
      simp only [hlr, if_false, hconsumePq hk]
  | some id =>
    obtain ⟨k, hk⟩ := hec id hid
    have hconsumeEc : s.consumeEc id = .ok { s with oneTimeEc := s.oneTimeEc.erase id } := by
      rw [PrekeyStore.consumeEc, PrekeyStore.peekEc_eq_ok.2 hk]
      rfl
    by_cases hlr : m.pqPrekeyId = s.lastResortPq.id
    · simp only [hlr, if_true, hconsumeEc]
    · obtain ⟨k', hk'⟩ := hpq hlr
      have hpq' := hconsumePq (t := { s with oneTimeEc := s.oneTimeEc.erase id }) hk'
      simp only [hlr, if_false, hconsumeEc, hpq']

/-- The session a packet opens. -/
def inboundSession (m : InitiationPacket B) (conv : List B) (shared : PqxdhSharedSecret B)
    (r : LiveRatchet B) (e : Engine B) : LiveSession B :=
  let trust := e.trust.recordSeen { identityKey := m.senderIdentityPublic, deviceId := none }
  ⟨r, m.senderIdentityPublic, conv, trust.trackerFor m.senderIdentityPublic, shared.ad⟩

/-- The engine after the first message of a packet was opened and its prekeys were used up, before
anything is committed. -/
def answered (m : InitiationPacket B) (sid : SessionId B) (s : LiveSession B) (r' : LiveRatchet B)
    (e : Engine B) : Engine B :=
  let opened := e.openSession sid s.ratchet s.remoteIdentity s.conversation s.handshakeAd
  { opened.received sid s r' m.firstMessage with prekeys := consumedBy m e.prekeys }

/-- Nothing can fail after the first message was opened. -/
theorem process_eq_ok (h : e.storage.staged = none) {m : InitiationPacket B} {conv ad pt : List B}
    {d : Draws B} {ik : Block B 32} {shared : PqxdhSharedSecret B} {r r' : LiveRatchet B}
    (hresp : e.respond P m = .ok (ik, shared, r))
    (hrep : e.replay.contains (replayKey d.sessionId m.firstMessage conv e.deviceId) = false)
    (hdec : r.decrypt P d m.firstMessage.header m.firstMessage.ciphertext
      ((e.inboundSession m conv shared r).boundAd ad) = .ok (pt, r')) :
    e.processInboundSession P m conv ad d = (.ok (d.sessionId, pt),
      (e.answered m d.sessionId (e.inboundSession m conv shared r) r').commitHandshake d.order
        d.sessionId { e.inboundSession m conv shared r with ratchet := r' }) := by
  obtain ⟨rfl, hans⟩ := respond_eq_ok hresp
  generalize hs : e.inboundSession m conv shared r = s at hdec ⊢
  generalize hopened : e.openSession d.sessionId r m.senderIdentityPublic conv shared.ad = opened
  have hlookup : opened.sessions.lookup d.sessionId = some s := by
    rw [← hopened, ← hs]
    exact Finmap.lookup_insert _
  have happly : opened.applyDecrypt P d.sessionId m.firstMessage ad d =
      (.ok pt, opened.received d.sessionId s r' m.firstMessage) := by
    subst hs hopened
    exact applyDecrypt_eq_ok hlookup hrep hdec
  have hprekeys : (opened.received d.sessionId s r' m.firstMessage).prekeys = e.prekeys := by
    rw [← hopened]
    rfl
  have hanswered : ({ opened.received d.sessionId s r' m.firstMessage with
      prekeys := consumedBy m e.prekeys } : Engine B) = e.answered m d.sessionId s r' := by
    subst hs hopened
    rfl
  have hnew : (e.answered m d.sessionId s r').sessions.lookup d.sessionId =
      some { s with ratchet := r' } := by
    subst hs
    exact lookup_withRatchet d.sessionId _ r' _
  have hpersist := persistHandshake_of_idle (e := e.answered m d.sessionId s r') h d.order hnew
  simp only [processInboundSession, hresp, hopened, happly, hprekeys,
    consumePrekeys_eq hans.ec hans.pq, hanswered, hpersist]

/-- **`process_inbound_session`** is refused before it touches anything; or fails to open the first
message, and closes the session again; or commits. -/
theorem process_cases (h : e.storage.staged = none) (m : InitiationPacket B) (conv ad : List B)
    (d : Draws B) :
    (∃ err, e.processInboundSession P m conv ad d = (.error err, e)) ∨
    ∃ shared r, Answers P m e shared r ∧
      let s := e.inboundSession m conv shared r
      let opened := e.openSession d.sessionId r m.senderIdentityPublic conv shared.ad
      ((∃ err, e.processInboundSession P m conv ad d =
        (.error err, { opened with sessions := opened.sessions.erase d.sessionId })) ∨
      ∃ pt r', e.replay.contains (replayKey d.sessionId m.firstMessage conv e.deviceId) = false ∧
        r.decrypt P d m.firstMessage.header m.firstMessage.ciphertext (s.boundAd ad) =
          .ok (pt, r') ∧
        e.processInboundSession P m conv ad d = (.ok (d.sessionId, pt),
          (e.answered m d.sessionId s r').commitHandshake d.order d.sessionId
            { s with ratchet := r' })) := by
  cases hresp : e.respond P m with
  | error err => exact .inl ⟨err, by simp only [processInboundSession, hresp]⟩
  | ok out =>
    obtain ⟨ik, shared, r⟩ := out
    obtain ⟨rfl, hans⟩ := respond_eq_ok hresp
    refine .inr ⟨shared, r, hans, ?_⟩
    intro s opened
    have hs : opened.sessions.lookup d.sessionId = some s := Finmap.lookup_insert _
    rcases applyDecrypt_cases (P := P) opened d.sessionId m.firstMessage ad d with
      ⟨err, heq⟩ | ⟨s', pt, r', hs', hrep, hdec, -⟩
    · left
      refine ⟨err, ?_⟩
      unfold processInboundSession
      rw [hresp]
      dsimp only
      rw [heq]
    · rw [hs] at hs'
      cases hs'
      exact .inr ⟨pt, r', hrep, hdec, process_eq_ok h hresp hrep hdec⟩

/-- **`generate_public_prekey_bundle`** stops in the middle of replenishing, with a store that has
grown and is not committed; or commits. -/
theorem generate_cases (h : e.storage.staged = none) (n : ℕ) (d : Draws B) :
    (∃ err prekeys, e.prekeys.replenish P e.identity d.prekeys n n = (.error err, prekeys) ∧
      e.generatePublicPrekeyBundle P n d = (.error (.ofPrimitive err), { e with prekeys })) ∨
    ∃ prekeys, e.prekeys.replenish P e.identity d.prekeys n n = (.ok (), prekeys) ∧
      e.generatePublicPrekeyBundle P n d = (.ok (prekeys.publicBundle P d.order e.identity),
        ({ e with prekeys } : Engine B).commitDevice d.order) := by
  unfold generatePublicPrekeyBundle
  cases hrep : e.prekeys.replenish P e.identity d.prekeys n n with
  | mk r prekeys =>
    cases r with
    | error err => exact .inl ⟨err, prekeys, rfl, rfl⟩
    | ok u =>
      refine .inr ⟨prekeys, rfl, ?_⟩
      have hpersist := persistDeviceState_of_idle (e := { e with prekeys }) h d.order
      dsimp only
      rw [hpersist]
      rfl

/-- The engine after an acknowledgement, before it is committed. -/
def acknowledged (material : IdentityMaterial B) (e : Engine B) : Engine B :=
  { e with
    sessions := e.sessions.mapValues fun s ↦
      if s.remoteIdentity = material.identityKey ∨
          (s.identityTracker.observe material).isChanged then
        { s with identityTracker := s.identityTracker.acknowledge material }
      else s
    trust := e.trust.acknowledge material 0 .safetyNumber }

/-- **`acknowledge_identity_change`** is refused, or commits. -/
theorem acknowledge_cases (h : e.storage.staged = none) (remote : Block B 32)
    (dev : Option (List B)) (d : Draws B) :
    (∃ err, e.acknowledgeIdentityChange remote dev d = (.error err, e)) ∨
    e.acknowledgeIdentityChange remote dev d =
      (.ok (), (e.acknowledged ⟨remote, dev⟩).commitDevice d.order) := by
  unfold acknowledgeIdentityChange publicFromBytes
  split
  · exact .inl ⟨_, rfl⟩
  · rename_i heq
    split at heq
    · cases heq
    · cases heq
      exact .inr (persistDeviceState_of_idle (e := e.acknowledged ⟨remote, dev⟩) h d.order)

/-- The engine after a session was deleted. -/
def forgot (sid : SessionId B) (e : Engine B) : Engine B :=
  { e with
    sessions := e.sessions.erase sid
    storage := { e.storage with
      nextTx := e.storage.nextTx + 1, committed := e.storage.committed.erase sid.val } }

/-- Deleting a live session commits. -/
theorem deleteSession_of_live (h : e.storage.staged = none) {sid : SessionId B} {s : LiveSession B}
    (hs : e.sessions.lookup sid = some s) (d : Draws B) :
    e.deleteSession sid d = (.ok (), e.forgot sid) := by
  have hbegin : e.storage.begin_ = (.ok e.storage.nextTx, { e.storage with
      nextTx := e.storage.nextTx + 1, staged := some (e.storage.nextTx, ∅) }) := by
    rw [MemoryStorage.begin_, h]
  unfold deleteSession
  rw [hs]
  dsimp only
  rw [hbegin]
  simp only [MemoryStorage.stage, MemoryStorage.commit, ne_eq, not_true, if_false,
    MemoryStorage.applyWrites_delete, forgot, ← h]

/-- **`delete_session`** is refused, or commits. -/
theorem deleteSession_cases (h : e.storage.staged = none) (sid : SessionId B) (d : Draws B) :
    (∃ err, e.deleteSession sid d = (.error err, e)) ∨
    e.deleteSession sid d = (.ok (), e.forgot sid) := by
  cases hs : e.sessions.lookup sid with
  | none => exact .inl ⟨.noSession, by simp only [deleteSession, hs]⟩
  | some s => exact .inr (deleteSession_of_live h hs d)

/-- What a reload puts in place of a value: what its blob decodes to, or the old one when there is no
blob. -/
def Reloaded {α : Type} (e : Engine B) (key : List B) (decode : List B → Except PrimitiveError α)
    (old new : α) : Prop :=
  (e.storage.committed.lookup key = none ∧ new = old) ∨
    ∃ blob, e.storage.committed.lookup key = some blob ∧ decode blob = .ok new

/-- **`simulate_crash_reload`** fails with what it had reloaded by then, or reloads everything. -/
theorem reload_cases (e : Engine B) (d : Draws B) :
    (∃ err identity prekeys,
      (identity = e.identity ∨
        e.Reloaded keyIdentity IdentityKeyPair.deserialize e.identity identity) ∧
      (prekeys = e.prekeys ∨ e.Reloaded keyPrekeys PrekeyStore.deserialize e.prekeys prekeys) ∧
      e.simulateCrashReload d = (.error err, { e with identity, prekeys })) ∨
    ∃ identity prekeys sessions,
      e.Reloaded keyIdentity IdentityKeyPair.deserialize e.identity identity ∧
      e.Reloaded keyPrekeys PrekeyStore.deserialize e.prekeys prekeys ∧
      (d.order.list e.storage.committed).foldlM restoreBlob ∅ = .ok sessions ∧
      e.simulateCrashReload d =
        (.ok (), ({ e with identity, prekeys, sessions } : Engine B).reloadAux) := by
  unfold simulateCrashReload
  dsimp only
  split
  · exact .inl ⟨_, e.identity, e.prekeys, .inl rfl, .inl rfl, rfl⟩
  · rename_i identity hidentity
    have hi : e.Reloaded keyIdentity IdentityKeyPair.deserialize e.identity identity := by
      split at hidentity
      · cases hidentity
        exact .inl ⟨‹_›, rfl⟩
      · exact .inr ⟨_, ‹_›, hidentity⟩
    split
    · exact .inl ⟨_, identity, e.prekeys, .inr hi, .inl rfl, rfl⟩
    · rename_i prekeys hprekeys
      have hp : e.Reloaded keyPrekeys PrekeyStore.deserialize e.prekeys prekeys := by
        split at hprekeys
        · cases hprekeys
          exact .inl ⟨‹_›, rfl⟩
        · exact .inr ⟨_, ‹_›, hprekeys⟩
      split
      · exact .inl ⟨_, identity, prekeys, .inr hi, .inr hp, rfl⟩
      · rename_i sessions hsessions
        exact .inr ⟨identity, prekeys, sessions, hi, hp, hsessions, rfl⟩

/-! ### The effects of a call -/

/-- **What a call can do** to an engine whose storage is idle. Invariants of runs are proved by
cases on this list, so that they do not unfold the calls. -/
inductive Effect (P : Primitives B) (d : Draws B) (e : Engine B) :
    Call B → Except CryptoError (Output B) → Engine B → Prop
  /-- An error that leaves everything as it was. -/
  | refused (c : Call B) (err : CryptoError) : Effect P d e c (.error err) e
  /-- Replenishing stopped midway: the store has grown, and nothing is committed. -/
  | replenishStopped (n : ℕ) (err : PrimitiveError) (prekeys : PrekeyStore B)
      (h : e.prekeys.replenish P e.identity d.prekeys n n = (.error err, prekeys)) :
      Effect P d e (.generateBundle n) (.error (.ofPrimitive err)) { e with prekeys }
  /-- A new bundle. -/
  | replenished (n : ℕ) (prekeys : PrekeyStore B)
      (h : e.prekeys.replenish P e.identity d.prekeys n n = (.ok (), prekeys)) :
      Effect P d e (.generateBundle n)
        (.ok (.bundle (prekeys.publicBundle P d.order e.identity)))
        (({ e with prekeys } : Engine B).commitDevice d.order)
  /-- The first message of a new session could not be sealed: the session stays open. -/
  | establishStopped (bundle : PublicPrekeyBundle B) (conv pt ad : List B) (i : AliceInitiation B)
      (r : LiveRatchet B) (err : CryptoError) (hi : e.initiate P bundle d = .ok (i, r))
      (henc : r.encrypt P d pt ((e.outboundSession bundle conv i r).boundAd ad) = .error err) :
      Effect P d e (.establish bundle conv pt ad) (.error err)
        (e.openSession d.sessionId r bundle.identityKey conv i.shared.ad)
  /-- A new outbound session. -/
  | established (bundle : PublicPrekeyBundle B) (conv pt ad : List B) (i : AliceInitiation B)
      (r r' : LiveRatchet B) (header ct : List B) (hi : e.initiate P bundle d = .ok (i, r))
      (henc : r.encrypt P d pt ((e.outboundSession bundle conv i r).boundAd ad) =
        .ok ((header, ct), r')) :
      Effect P d e (.establish bundle conv pt ad)
        (.ok (.established d.sessionId
          (e.initiationPacket P bundle i ⟨header, ct, d.sessionId⟩)))
        (((e.openSession d.sessionId r bundle.identityKey conv i.shared.ad).withRatchet d.sessionId
          (e.outboundSession bundle conv i r) r').commitSession d.order d.sessionId
            { e.outboundSession bundle conv i r with ratchet := r' })
  /-- The first message of a packet could not be opened: the session is closed again. -/
  | processClosed (m : InitiationPacket B) (conv ad : List B) (shared : PqxdhSharedSecret B)
      (r : LiveRatchet B) (err : CryptoError) (hans : Answers P m e shared r) :
      Effect P d e (.processInbound m conv ad) (.error err)
        { e.openSession d.sessionId r m.senderIdentityPublic conv shared.ad with
          sessions := (e.openSession d.sessionId r m.senderIdentityPublic conv
            shared.ad).sessions.erase d.sessionId }
  /-- A new inbound session. -/
  | processed (m : InitiationPacket B) (conv ad pt : List B) (shared : PqxdhSharedSecret B)
      (r r' : LiveRatchet B) (hans : Answers P m e shared r)
      (hreplay :
        e.replay.contains (replayKey d.sessionId m.firstMessage conv e.deviceId) = false)
      (hdec : r.decrypt P d m.firstMessage.header m.firstMessage.ciphertext
        ((e.inboundSession m conv shared r).boundAd ad) = .ok (pt, r')) :
      Effect P d e (.processInbound m conv ad) (.ok (.processed d.sessionId pt))
        ((e.answered m d.sessionId (e.inboundSession m conv shared r) r').commitHandshake d.order
          d.sessionId { e.inboundSession m conv shared r with ratchet := r' })
  /-- A sealed message. -/
  | sealed (c : Call B) (sid : SessionId B) (pt ad : List B) (s : LiveSession B)
      (r : LiveRatchet B) (header ct : List B)
      (hc : c = .encrypt sid pt ad ∨ c = .encryptVoicePayload sid pt ad)
      (hs : e.sessions.lookup sid = some s)
      (henc : s.ratchet.encrypt P d pt (s.boundAd ad) = .ok ((header, ct), r)) :
      Effect P d e c (.ok (.sealed ⟨header, ct, sid⟩))
        ((e.withRatchet sid s r).commitSession d.order sid { s with ratchet := r })
  /-- An opened message. -/
  | opened (sid : SessionId B) (m : SealedMessage B) (ad pt : List B) (s : LiveSession B)
      (r : LiveRatchet B) (hs : e.sessions.lookup sid = some s)
      (hreplay : e.replay.contains (replayKey sid m s.conversation e.deviceId) = false)
      (hdec : s.ratchet.decrypt P d m.header m.ciphertext (s.boundAd ad) = .ok (pt, r)) :
      Effect P d e (.decrypt sid m ad) (.ok (.opened pt))
        ((e.received sid s r m).commitSession d.order sid { s with ratchet := r })
  /-- An acknowledged identity. -/
  | acknowledged (remote : Block B 32) (dev : Option (List B)) :
      Effect P d e (.acknowledge remote dev) (.ok .done)
        ((e.acknowledged ⟨remote, dev⟩).commitDevice d.order)
  /-- A deleted session. -/
  | forgot (sid : SessionId B) : Effect P d e (.deleteSession sid) (.ok .done) (e.forgot sid)
  /-- Everything stored is deleted. -/
  | cleared : Effect P d e .deleteAllSessions (.ok .done)
      { e with sessions := ∅, storage := e.storage.clear }
  /-- A reload that stopped at a blob it could not decode. -/
  | reloadStopped (err : CryptoError) (identity : IdentityKeyPair B) (prekeys : PrekeyStore B)
      (hi : identity = e.identity ∨
        e.Reloaded keyIdentity IdentityKeyPair.deserialize e.identity identity)
      (hp : prekeys = e.prekeys ∨
        e.Reloaded keyPrekeys PrekeyStore.deserialize e.prekeys prekeys) :
      Effect P d e .crashReload (.error err) { e with identity, prekeys }
  /-- A reload. -/
  | reloaded (identity : IdentityKeyPair B) (prekeys : PrekeyStore B)
      (sessions : Dict (SessionId B) (LiveSession B))
      (hi : e.Reloaded keyIdentity IdentityKeyPair.deserialize e.identity identity)
      (hp : e.Reloaded keyPrekeys PrekeyStore.deserialize e.prekeys prekeys)
      (hs : (d.order.list e.storage.committed).foldlM restoreBlob ∅ = .ok sessions) :
      Effect P d e .crashReload (.ok .done)
        ({ e with identity, prekeys, sessions } : Engine B).reloadAux

/-- **The list of effects is complete.** -/
theorem call_effect (h : e.storage.staged = none) (d : Draws B) (c : Call B) :
    Effect P d e c (e.call P d c).1 (e.call P d c).2 := by
  cases c with
  | generateBundle n =>
    dsimp only [call, report]
    rcases generate_cases (P := P) h n d with ⟨err, prekeys, hrep, heq⟩ | ⟨prekeys, hrep, heq⟩
    · rw [heq]
      exact .replenishStopped n err prekeys hrep
    · rw [heq]
      exact .replenished n prekeys hrep
  | establish bundle conv pt ad =>
    dsimp only [call, report]
    rcases establish_cases (P := P) h bundle conv pt ad d with
      ⟨err, -, heq⟩ | ⟨i, r, hi, ⟨err, henc, heq⟩ | ⟨header, ct, r', henc, heq⟩⟩
    · rw [heq]
      exact .refused _ err
    · rw [heq]
      exact .establishStopped bundle conv pt ad i r err hi henc
    · rw [heq]
      exact .established bundle conv pt ad i r r' header ct hi henc
  | processInbound m conv ad =>
    dsimp only [call, report]
    rcases process_cases (P := P) h m conv ad d with
      ⟨err, heq⟩ | ⟨shared, r, hans, ⟨err, heq⟩ | ⟨pt, r', hrep, hdec, heq⟩⟩
    · rw [heq]
      exact .refused _ err
    · rw [heq]
      exact .processClosed m conv ad shared r err hans
    · rw [heq]
      exact .processed m conv ad pt shared r r' hans hrep hdec
  | encrypt sid pt ad =>
    dsimp only [call, report]
    rcases encrypt_cases (P := P) h sid pt ad d with
      ⟨err, heq, -⟩ | ⟨s, header, ct, r, hs, henc, heq⟩
    · rw [heq]
      exact .refused _ err
    · rw [heq]
      exact .sealed _ sid pt ad s r header ct (.inl rfl) hs henc
  | encryptVoicePayload sid pt ad =>
    dsimp only [call, report, encryptVoicePayload]
    split
    · exact .refused _ _
    · rcases encrypt_cases (P := P) h sid pt ad d with
        ⟨err, heq, -⟩ | ⟨s, header, ct, r, hs, henc, heq⟩
      · rw [heq]
        exact .refused _ err
      · rw [heq]
        exact .sealed _ sid pt ad s r header ct (.inr rfl) hs henc
  | decrypt sid m ad =>
    dsimp only [call, report]
    rcases decrypt_cases (P := P) h sid m ad d with ⟨err, heq⟩ | ⟨s, pt, r, hs, hrep, hdec, heq⟩
    · rw [heq]
      exact .refused _ err
    · rw [heq]
      exact .opened sid m ad pt s r hs hrep hdec
  | acknowledge remote dev =>
    dsimp only [call, report]
    rcases acknowledge_cases h remote dev d with ⟨err, heq⟩ | heq
    · rw [heq]
      exact .refused _ err
    · rw [heq]
      exact .acknowledged remote dev
  | deleteSession sid =>
    dsimp only [call, report]
    rcases deleteSession_cases h sid d with ⟨err, heq⟩ | heq
    · rw [heq]
      exact .refused _ err
    · rw [heq]
      exact .forgot sid
  | deleteAllSessions => exact .cleared
  | crashReload =>
    dsimp only [call, report]
    rcases reload_cases e d with
      ⟨err, identity, prekeys, hi, hp, heq⟩ | ⟨identity, prekeys, sessions, hi, hp, hs, heq⟩
    · rw [heq]
      exact .reloadStopped err identity prekeys hi hp
    · rw [heq]
      exact .reloaded identity prekeys sessions hi hp hs

/-- No call leaves a transaction open. -/
theorem Effect.idle {d : Draws B} {c : Call B} {out : Except CryptoError (Output B)}
    {e' : Engine B} (h : Effect P d e c out e') (hidle : e.storage.staged = none) :
    e'.storage.staged = none := by
  cases h with
  | refused c err => exact hidle
  | replenishStopped n err prekeys h => exact hidle
  | replenished n prekeys h => exact (MemoryStorage.afterCommit_staged _ _).trans hidle
  | establishStopped bundle conv pt ad i r err hi henc => exact hidle
  | established bundle conv pt ad i r r' header ct hi henc =>
    exact (MemoryStorage.afterCommit_staged _ _).trans hidle
  | processClosed m conv ad shared r err hans => exact hidle
  | processed m conv ad pt shared r r' hans hreplay hdec =>
    exact (MemoryStorage.afterCommit_staged _ _).trans hidle
  | sealed c sid pt ad s r header ct hc hs henc =>
    exact (MemoryStorage.afterCommit_staged _ _).trans hidle
  | opened sid m ad pt s r hs hreplay hdec =>
    exact (MemoryStorage.afterCommit_staged _ _).trans hidle
  | acknowledged remote dev => exact (MemoryStorage.afterCommit_staged _ _).trans hidle
  | forgot sid => exact hidle
  | cleared => rfl
  | reloadStopped err identity prekeys hi hp => exact hidle
  | reloaded identity prekeys sessions hi hp hs => exact hidle

end Engine

/-! ### Runs -/

/-- One call of a run: the state it was made in, the call with its draws, and what it returned. -/
structure Event (B : Type) [Alphabet B] where
  /-- The engine before the call. -/
  before : Engine B
  /-- The call with its arguments. -/
  call : Call B
  /-- What it drew. -/
  draws : Draws B
  /-- What it returned. -/
  outcome : Except CryptoError (Output B)

/-- A run so far: the engine with all that was done to it. Statements about several calls are about
the log. -/
structure Run (B : Type) [Alphabet B] where
  /-- The engine now. -/
  engine : Engine B
  /-- The calls so far, the oldest first. -/
  log : List (Event B)

/-- The run after one more call. -/
def Run.extend (P : Primitives B) (r : Run B) (d : Draws B) (c : Call B) : Run B :=
  { engine := (r.engine.call P d c).2
    log := r.log ++ [⟨r.engine, c, d, (r.engine.call P d c).1⟩] }

/-- The runs of a device: any calls in any order, with any draws for which `allow` holds. -/
def device (P : Primitives B) (allow : Run B → Call B → Draws B → Prop) : System (Run B) where
  start r := r.log = [] ∧ ∃ config draws, Engine.initializeDevice P config draws = .ok r.engine
  step r r' := ∃ c d, allow r c d ∧ r' = r.extend P d c

/-- Any calls, any draws. -/
def anyCall : Run B → Call B → Draws B → Prop := fun _ _ _ ↦ True

/-- A new device before anything is committed. -/
def Engine.blank (P : Primitives B) (config : DeviceConfig B) (d : DeviceDraws B) : Engine B :=
  { identity := { secret := d.identity }, deviceId := config.deviceId, profile := config.profile
    prekeys := PrekeyStore.new P { secret := d.identity } d.signedPrekey d.signedNonce d.lastResort
      d.lastResortNonce
    sessions := ∅, replay := ReplayCache.new 4096, trust := TrustStore.new
    storage := MemoryStorage.empty }

/-- A new device. -/
def Engine.newDevice (P : Primitives B) (config : DeviceConfig B) (d : DeviceDraws B) : Engine B :=
  (Engine.blank P config d).commitDevice d.order

theorem initializeDevice_eq (P : Primitives B) (config : DeviceConfig B) (d : DeviceDraws B) :
    Engine.initializeDevice P config d = .ok (Engine.newDevice P config d) := by
  unfold Engine.initializeDevice
  dsimp only
  rw [Engine.persistDeviceState_of_idle rfl]
  rfl

/-- Runs start on new devices. -/
theorem eq_newDevice_of_start {P : Primitives B} {allow : Run B → Call B → Draws B → Prop}
    {r : Run B} (h : (device P allow).start r) :
    ∃ config d, r = ⟨Engine.newDevice P config d, []⟩ := by
  obtain ⟨hlog, config, d, hinit⟩ := h
  rw [initializeDevice_eq] at hinit
  cases r
  cases hlog
  cases hinit
  exact ⟨config, d, rfl⟩

theorem reachable_newDevice (P : Primitives B) (allow : Run B → Call B → Draws B → Prop)
    (config : DeviceConfig B) (d : DeviceDraws B) :
    (device P allow).Reachable ⟨Engine.newDevice P config d, []⟩ :=
  .of_start ⟨rfl, config, d, initializeDevice_eq P config d⟩

theorem reachable_extend {P : Primitives B} {allow : Run B → Call B → Draws B → Prop} {r : Run B}
    (hr : (device P allow).Reachable r) {c : Call B} {d : Draws B} (h : allow r c d) :
    (device P allow).Reachable (r.extend P d c) :=
  hr.of_step ⟨c, d, h, rfl⟩

/-- **No reachable engine has an open transaction**: each call that begins one commits it before it
returns. -/
theorem device_idle {P : Primitives B} {allow : Run B → Call B → Draws B → Prop} {r : Run B}
    (hr : (device P allow).Reachable r) : r.engine.storage.staged = none := by
  refine System.Reachable.invariant (I := fun r ↦ r.engine.storage.staged = none) ?_ ?_ hr
  · intro s hs
    obtain ⟨config, d, rfl⟩ := eq_newDevice_of_start hs
    exact MemoryStorage.afterCommit_staged _ _
  · rintro s t - hs ⟨c, d, -, rfl⟩
    exact (Engine.call_effect (P := P) hs d c).idle hs

end VoiceChatCrypto
