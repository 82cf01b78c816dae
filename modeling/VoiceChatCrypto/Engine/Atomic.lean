import VoiceChatCrypto.Engine.Runs
import VoiceChatCrypto.Primitives.Symbolic

/-!
# Failed calls

A call that seals, opens or handshakes and returns an error leaves the sessions, the prekeys, the
replay cache and the committed storage alone. For most errors that is so because nothing has been
touched yet. Two paths need an argument: `process_inbound_session` inserts the session before it
opens the first message and must take it out again, which restores the map when the session id was
new; and `establish_outbound_session` inserts the session before it seals the first message, where a
fresh ratchet can only fail if the AEAD does.
-/

open Alphabet

namespace VoiceChatCrypto

variable {B : Type} [Alphabet B] {P : Primitives B}

/-! ### A fresh ratchet can send -/

/-- A new initiator has a sending chain, and its first position. -/
theorem DoubleRatchetState.initAlice_sendMessageKey (dhs sk bobPub : Block B 32) (maxSkip : UInt32) :
    ∃ r s, sendMessageKey P (initAlice P dhs sk bobPub maxSkip) = .ok (r, s) :=
  ⟨_, _, rfl⟩

/-- A header-encrypting ratchet with a sending chain that is not at its end can seal. -/
theorem HeaderEncryptState.encrypt_of_chain (hseal : SealTotal P) {s : HeaderEncryptState B}
    {cks dhs hks : Block B 32} {ns : UInt32} (hcks : s.cks = some cks) (hdhs : s.dhs = some dhs)
    (hhks : s.hks = some hks) (hns : checkedInc s.ns = .ok ns) (nonce : Block B 12)
    (pt ad : List B) : ∃ out s', encrypt P nonce s pt ad = .ok (out, s') := by
  obtain ⟨hct, hheader⟩ := hseal.seal hks nonce (Header.encode ⟨P.publicKey dhs, s.pn, s.ns⟩) []
  obtain ⟨ct, hct'⟩ := hseal.seal (kdfCkHe P cks).2 (deriveNonce (kdfCkHe P cks).2) pt
    (concatAdHe ad (nonce.val ++ hct))
  refine ⟨(nonce.val ++ hct, ct), { s with cks := some (kdfCkHe P cks).1, ns }, ?_⟩
  simp only [encrypt, hencrypt, hcks, hdhs, hhks, hns, hheader, hct', bind, Except.bind, pure,
    Except.pure]

/-- After its first epoch a post-quantum ratchet has a sending chain. -/
theorem SpqrState.sendKey_of_fresh {skPq scka : Block B 32} {m epoch : UInt32} {s : SpqrState B}
    (h : (SpqrState.init skPq m).advanceEpoch P scka = .ok (epoch, s)) :
    ∃ r s', s.sendKey P = .ok (r, s') := by
  obtain ⟨next, -, hret⟩ := Except.bind_eq_ok.1 h
  cases hret
  exact ⟨_, _, rfl⟩

/-- A hybrid ratchet seals when both of its parts yield a key. -/
theorem TripleRatchetState.encrypt_of_keys (hseal : SealTotal P) {s : TripleRatchetState B}
    {header : Header B} {ecMk pqMk : Block B 32} {c : DoubleRatchetState B} {pqEpoch pqN : UInt32}
    {q : SpqrState B} (hec : s.classical.sendMessageKey P = .ok ((header, ecMk), c))
    (hpq : s.spqr.sendKey P = .ok ((pqEpoch, pqN, pqMk), q)) (seed : Block B 64) (m : Block B 32)
    (pt ad : List B) : ∃ out s', encrypt P seed m s pt ad = .ok (out, s') := by
  have hnone := BraidScka.send_output P seed m s.braid
  unfold encrypt
  generalize s.braid.send P seed m = sent at hnone ⊢
  obtain ⟨⟨msg, epoch, out⟩, braid⟩ := sent
  cases hnone
  obtain ⟨ct, hct⟩ := hseal.seal (aeadFromHybrid P (kdfHybrid P ecMk pqMk)).1
    (aeadFromHybrid P (kdfHybrid P ecMk pqMk)).2 pt
    (concatTripleAd ad ⟨header, pqEpoch, pqN, some msg⟩)
  refine ⟨(⟨header, pqEpoch, pqN, some msg⟩, ct), ⟨c, q, braid⟩, ?_⟩
  simp only [hec, hpq, hct, bind, Except.bind, pure, Except.pure]

/-- A live ratchet seals as its classical state does. -/
theorem LiveRatchet.encrypt_classical {r r' : DoubleRatchetState B} {d : Draws B} {pt ad ct : List B}
    {h : Header B} (henc : r.encrypt P pt ad = .ok ((h, ct), r')) :
    (classical r).encrypt P d pt ad = .ok ((h.encode, ct), classical r') := by
  simp only [encrypt, henc, liftError, bind, Except.bind, pure, Except.pure]

/-- A live ratchet seals as its header-encrypting state does. -/
theorem LiveRatchet.encrypt_headerEncrypt {r r' : HeaderEncryptState B} {d : Draws B}
    {pt ad : List B} {out : List B × List B}
    (henc : r.encrypt P d.headerNonce pt ad = .ok (out, r')) :
    (headerEncrypt r).encrypt P d pt ad = .ok (out, headerEncrypt r') := by
  simp only [encrypt, henc, liftError, bind, Except.bind, pure, Except.pure]

theorem LiveRatchet.encrypt_hybrid {r r' : TripleRatchetState B} {d : Draws B} {pt ad ct : List B}
    {h : TripleHeader B}
    (henc : r.encrypt P d.braidSeed d.braidMessage pt ad = .ok ((h, ct), r')) :
    (hybrid r).encrypt P d pt ad = .ok ((h.encode, ct), hybrid r') := by
  simp only [encrypt, henc, liftError, bind, Except.bind, pure, Except.pure]

/-- **A fresh ratchet of Alice seals its first message**, in each profile. -/
theorem initAliceRatchet_encrypt (hseal : SealTotal P) {profile : CryptoProfile}
    {dhs sk bobSpk : Block B 32} {r : LiveRatchet B}
    (h : initAliceRatchet P profile dhs sk bobSpk = .ok r) (d : Draws B) (pt ad : List B) :
    ∃ out r', r.encrypt P d pt ad = .ok (out, r') := by
  cases profile with
  | classicalV1 =>
    cases h
    obtain ⟨⟨header, msgKey⟩, s, hsend⟩ :=
      DoubleRatchetState.initAlice_sendMessageKey (P := P) dhs sk bobSpk defaultMaxSkip
    obtain ⟨ct, hct⟩ := hseal.seal (aeadFromMk P msgKey).1 (aeadFromMk P msgKey).2 pt
      (concatAd ad header)
    have henc := DoubleRatchetState.encrypt_eq_ok.2 ⟨msgKey, hsend, hct⟩
    exact ⟨_, _, LiveRatchet.encrypt_classical henc⟩
  | classicalHeV1 =>
    cases h
    have hinc : checkedInc 0 = .ok 1 := rfl
    obtain ⟨out, s, henc⟩ := HeaderEncryptState.encrypt_of_chain hseal
      (s := HeaderEncryptState.initAlice P dhs sk bobSpk (heKeysFromSk P sk).1 (heKeysFromSk P sk).2
        defaultMaxSkip) rfl rfl rfl hinc d.headerNonce pt ad
    exact ⟨_, _, LiveRatchet.encrypt_headerEncrypt henc⟩
  | hybridPqV1 =>
    obtain ⟨t, hinit, hret⟩ := Except.bind_eq_ok.1 h
    cases hret
    obtain ⟨⟨epoch, spqr⟩, hadv, hret⟩ := Except.bind_eq_ok.1 (liftError_eq_ok.1 hinit)
    cases hret
    obtain ⟨⟨header, ecMk⟩, c, hec⟩ := DoubleRatchetState.initAlice_sendMessageKey (P := P) dhs
      (TripleRatchetState.splitSk P sk).1 bobSpk defaultMaxSkip
    obtain ⟨⟨pqEpoch, pqN, pqMk⟩, q, hpq⟩ := SpqrState.sendKey_of_fresh hadv
    obtain ⟨⟨th, ct⟩, s, henc⟩ := TripleRatchetState.encrypt_of_keys hseal
      (s := ⟨_, spqr, BraidScka.initAlice P (TripleRatchetState.splitSk P sk).2⟩) hec hpq
      d.braidSeed d.braidMessage pt ad
    exact ⟨_, _, LiveRatchet.encrypt_hybrid henc⟩

/-! ### Atomicity -/

/-- The calls that seal, open or handshake. -/
def Call.Transactional : Call B → Prop
  | .establish .. | .processInbound .. | .encrypt .. | .encryptVoicePayload .. | .decrypt .. => True
  | _ => False

namespace Engine

/-- Sessions, prekeys, replay cache and committed storage are the same. Neither an open transaction
nor what is known of contacts counts here. -/
structure Unchanged (e e' : Engine B) : Prop where
  /-- The live sessions are the same. -/
  sessions : e'.sessions = e.sessions
  /-- The prekeys are the same. -/
  prekeys : e'.prekeys = e.prekeys
  /-- The replay cache is the same. -/
  replay : e'.replay = e.replay
  /-- What is committed to storage is the same; an open transaction does not count. -/
  committed : e'.storage.committed = e.storage.committed

theorem Unchanged.refl (e : Engine B) : Unchanged e e := ⟨rfl, rfl, rfl, rfl⟩

/-- An error of a call that seals, opens or handshakes: whatever was inserted or moved on before it is
back in place. -/
theorem unchanged_of_error (hseal : SealTotal P) {e : Engine B} (hidle : e.storage.staged = none)
    {c : Call B} (hc : c.Transactional) {d : Draws B}
    (hfresh : e.sessions.lookup d.sessionId = none) {err : CryptoError}
    (herr : (e.call P d c).1 = .error err) : Unchanged e (e.call P d c).2 := by
  have heffect := call_effect (P := P) hidle d c
  rw [herr] at heffect
  generalize (e.call P d c).2 = e' at heffect ⊢
  cases heffect with
  | refused c err => exact Unchanged.refl _
  | replenishStopped n err prekeys h => cases hc
  | establishStopped bundle conv pt ad i ratchet err hi henc =>
    -- the ratchet is fresh, so sealing cannot have failed
    obtain ⟨-, -, hi⟩ := Except.bind_eq_ok.1 hi
    obtain ⟨i', -, hi⟩ := Except.bind_eq_ok.1 hi
    obtain ⟨ratchet', hratchet, hi⟩ := Except.bind_eq_ok.1 hi
    cases hi
    obtain ⟨out, r', hok⟩ := initAliceRatchet_encrypt hseal hratchet d pt
      ((e.outboundSession bundle conv i ratchet).boundAd ad)
    rw [hok] at henc
    cases henc
  | processClosed m conv ad shared ratchet err hans =>
    exact ⟨Dict.erase_insert hfresh _, rfl, rfl, rfl⟩
  | reloadStopped err identity prekeys hi hp => cases hc

/-- **Failed calls change nothing** that a later call could see, in every reachable state. -/
theorem call_error_unchanged (hseal : SealTotal P) {r : Run B}
    (hr : (device P anyCall).Reachable r) {c : Call B} (hc : c.Transactional) {d : Draws B}
    (hfresh : r.engine.sessions.lookup d.sessionId = none) {err : CryptoError}
    (herr : (r.engine.call P d c).1 = .error err) :
    Unchanged r.engine (r.engine.call P d c).2 :=
  unchanged_of_error hseal (device_idle hr) hc hfresh herr

end Engine

/-! ### Symbolic devices -/

namespace Symbolic

/-- A secret named by a number. -/
def secretOf (w n : ℕ) : Block Sym (w + 1) := Sym.block w (.lit n)

/-- The draws of the `n`-th device. -/
noncomputable def deviceDraws (n : ℕ) : DeviceDraws Sym :=
  { order := .arbitrary
    identity := secretOf 31 (10 * n), signedPrekey := secretOf 31 (10 * n + 1)
    signedNonce := secretOf 63 0, lastResort := secretOf 63 (10 * n + 2)
    lastResortNonce := secretOf 63 0 }

/-- The draws of the `n`-th call. -/
noncomputable def draws (n : ℕ) : Draws Sym :=
  { order := .arbitrary
    prekeys :=
      { ec := fun k ↦ secretOf 31 (1000 * n + k), pq := fun k ↦ secretOf 63 (1000 * n + k)
        nonce := fun _ ↦ secretOf 63 0 }
    ephemeral := secretOf 31 (100 + 10 * n), kemCoins := secretOf 31 (101 + 10 * n)
    ratchet := secretOf 31 (102 + 10 * n), headerNonce := secretOf 11 (103 + 10 * n)
    braidSeed := secretOf 63 (104 + 10 * n), braidMessage := secretOf 31 (105 + 10 * n)
    sessionId := secretOf 15 (106 + 10 * n) }

/-- The `n`-th device. -/
noncomputable def engine (n : ℕ) (profile : CryptoProfile) : Engine Sym :=
  Engine.newDevice symbolic ⟨[], profile⟩ (deviceDraws n)

/-- The bundle of an engine that has no one-time prekeys. -/
noncomputable def bundle (e : Engine Sym) : PublicPrekeyBundle Sym :=
  { identityKey := e.identity.publicKey symbolic
    signedPrekeyId := e.prekeys.signed.id
    signedPrekey := symbolic.publicKey e.prekeys.signed.secret
    signedPrekeySig := e.prekeys.signed.signature
    oneTimeEc := none
    pqPrekeyId := e.prekeys.lastResortPq.id
    pqPrekeyPublic := (symbolic.kemPublic e.prekeys.lastResortPq.secret).val
    pqPrekeySig := e.prekeys.lastResortPq.signature
    isPqOneTime := false }

/-- The packet in a result, or a meaningless one. -/
def packetOf : Except CryptoError (SessionId Sym × InitiationPacket Sym) → InitiationPacket Sym
  | .ok (_, packet) => packet
  | .error _ =>
    ⟨Block.zero 32, Block.zero 32, [], 0, none, 0, ⟨[], [], Block.zero 16⟩⟩

/-- The packet of device 1 for device 2, with an empty first message. -/
noncomputable def packet (profile : CryptoProfile) : InitiationPacket Sym :=
  packetOf ((engine 1 profile).establishOutboundSession symbolic (bundle (engine 2 profile)) [] [] []
    (draws 1)).1

/-- The same packet with its ciphertext cut off. -/
noncomputable def tampered (profile : CryptoProfile) : InitiationPacket Sym :=
  { packet profile with firstMessage := { (packet profile).firstMessage with ciphertext := [] } }

end Symbolic

namespace Engine

open Symbolic in
/-- A tampered packet gets as far as the trial decryption, and leaves no trace. -/
theorem call_error_unchanged_tampered :
    ((Symbolic.engine 2 .hybridPqV1).call symbolic (Symbolic.draws 2)
      (.processInbound (tampered .hybridPqV1) [] [])).1 = .error .cryptoFailure ∧
    Unchanged (Symbolic.engine 2 .hybridPqV1) ((Symbolic.engine 2 .hybridPqV1).call symbolic
      (Symbolic.draws 2) (.processInbound (tampered .hybridPqV1) [] [])).2 := by
  have herr : ((Symbolic.engine 2 .hybridPqV1).call symbolic (Symbolic.draws 2)
      (.processInbound (tampered .hybridPqV1) [] [])).1 = .error .cryptoFailure := by
    decide +kernel
  have hrun := reachable_newDevice symbolic anyCall ⟨[], .hybridPqV1⟩ (deviceDraws 2)
  exact ⟨herr, call_error_unchanged Symbolic.sealTotal hrun
    (c := .processInbound (tampered .hybridPqV1) [] []) trivial (Finmap.lookup_empty _) herr⟩

end Engine

end VoiceChatCrypto
