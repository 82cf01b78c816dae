import VoiceChatCrypto.Engine.PrekeyUse
import VoiceChatCrypto.Engine.Sizes

/-!
# Handshakes complete

Alice's packet for a bundle that Bob still offers makes Bob accept: both sides derive the same PQXDH
secret and the same associated data, the two fresh ratchets fit together in each of the three profiles,
and the first message opens. On the wire one thing can go wrong. The length of the first message is
written into 32 bits without a check, so a first message of 4 GiB or more does not survive the encoding.
-/

open Alphabet

namespace VoiceChatCrypto

variable {B : Type} [Alphabet B] {P : Primitives B}

/-! ### The first message of a ratchet -/

/-- Nothing is skipped at the start of a chain. -/
theorem DoubleRatchetState.skipMessageKeys_start {s : DoubleRatchetState B} (hnr : s.nr = 0)
    (hmax : s.maxSkip = defaultMaxSkip) : s.skipMessageKeys P 0 = .ok s := by
  have hlimit : (0 : UInt32).toNat + defaultMaxSkip.toNat = 1000 := rfl
  have hzero : (0 : UInt32).toNat = 0 := rfl
  unfold skipMessageKeys
  rw [hnr, hmax, hlimit, if_neg (by decide), if_neg (by decide)]
  cases hckr : s.ckr with
  | none => rfl
  | some ckr =>
    simp only [hzero, Nat.sub_self, skipLoop, bind, Except.bind, pure, Except.pure, ← hckr]

/-- The header and key of Alice's first message. -/
theorem DoubleRatchetState.send_first (dhs sk bobPub : Block B 32) (maxSkip : UInt32) :
    ∃ s', (initAlice P dhs sk bobPub maxSkip).sendMessageKey P =
      .ok ((⟨P.publicKey dhs, 0, 0⟩, (kdfCk P (kdfRk P sk (P.diffieHellman dhs bobPub)).2).2), s') :=
  ⟨_, rfl⟩

/-- Bob's classical ratchet derives the key of Alice's first message. -/
theorem DoubleRatchetState.receive_first (hD : IdealDh P) (fresh dhs sk bobDh : Block B 32) :
    ∃ s', (initBob sk bobDh defaultMaxSkip).ratchetReceiveKey P fresh ⟨P.publicKey dhs, 0, 0⟩ =
      .ok ((kdfCk P (kdfRk P sk (P.diffieHellman dhs (P.publicKey bobDh))).2).2, s') := by
  have hnone : (initBob sk bobDh defaultMaxSkip).mkskipped.lookup (P.publicKey dhs, 0) = none :=
    Finmap.lookup_empty _
  have hnew : (initBob sk bobDh defaultMaxSkip).dhr ≠ some (P.publicKey dhs) := nofun
  have hdhs : (initBob sk bobDh defaultMaxSkip).dhs = some bobDh := rfl
  unfold ratchetReceiveKey
  rw [hnone, if_pos hnew, skipMessageKeys_start rfl rfl]
  dsimp only [bind, Except.bind]
  rw [dhRatchet_of_dhs hdhs]
  dsimp only
  rw [skipMessageKeys_start rfl rfl, hD.comm dhs bobDh]
  exact ⟨_, rfl⟩

/-- Likewise with encrypted headers. -/
theorem HeaderEncryptState.skipMessageKeys_start {s : HeaderEncryptState B} (hnr : s.nr = 0) :
    s.skipMessageKeys P 0 = .ok s := by
  have hzero : (0 : UInt32).toNat = 0 := rfl
  unfold skipMessageKeys
  rw [hnr, hzero, if_neg (Nat.not_lt_zero _)]
  split
  · rename_i ckr hkr hckr hhkr
    simp only [Nat.sub_self, skipLoop, bind, Except.bind, pure, Except.pure, ← hckr]
  · rfl

/-- Bob's header-encrypting ratchet opens Alice's first header with the next header key, and derives
the key of her first message. -/
theorem HeaderEncryptState.receive_first (hD : IdealDh P) (hA : IdealAead P) (σ : Enumeration)
    (fresh dhs sk bobDh hka nhkb : Block B 32) (nonce : Block B 12) {encHeader : List B}
    (henc : hencrypt P hka nonce (Header.encode ⟨P.publicKey dhs, 0, 0⟩) = .ok encHeader) :
    ∃ s', (initBob sk bobDh hka nhkb defaultMaxSkip).receiveKey P σ fresh encHeader =
      .ok ((kdfCkHe P (kdfRkHe P sk (P.diffieHellman dhs (P.publicKey bobDh))).2.1).2, s') := by
  have hskipped : (initBob sk bobDh hka nhkb defaultMaxSkip).trySkipped P σ encHeader = none :=
    trySkipped_of_empty rfl
  obtain ⟨ct, hseal, rfl⟩ := hencrypt_eq_ok henc
  have hheader : hdecrypt P hka (nonce.val ++ ct) = .ok ⟨P.publicKey dhs, 0, 0⟩ :=
    hdecrypt_seal hA (hD.publicKey_ne_zero dhs) hseal
  have hnext : tryHeader P (initBob sk bobDh hka nhkb defaultMaxSkip).nhkr (nonce.val ++ ct) =
      some ⟨P.publicKey dhs, 0, 0⟩ := by
    show (hdecrypt P hka (nonce.val ++ ct)).toOption = _
    rw [hheader]
    rfl
  have hcurrent : tryHeader P (initBob sk bobDh hka nhkb defaultMaxSkip).hkr (nonce.val ++ ct) =
      none := rfl
  have hdhs : (initBob sk bobDh hka nhkb defaultMaxSkip).dhs = some bobDh := rfl
  unfold receiveKey
  rw [hskipped, hcurrent, hnext]
  dsimp only
  rw [skipMessageKeys_start rfl]
  dsimp only [bind, Except.bind]
  rw [dhRatchet_of_dhs hdhs]
  dsimp only
  rw [skipMessageKeys_start rfl, hD.comm dhs bobDh]
  exact ⟨_, rfl⟩

/-! ### The first Braid message -/

/-- Alice's first Braid message is a whole chunk of her header. -/
theorem BraidScka.send_initAlice (shared : Block B 32) (seed : Block B 64) (m : Block B 32) :
    ∃ chunk s, chunk.length = chunkWire ∧
      (initAlice P shared).send P seed m = ((⟨1, .hdr, chunk⟩, 0, none), s) :=
  ⟨_, _, Encoder.length_nextChunk (Encoder.new_whole _), rfl⟩

/-- Bob takes it: it does not complete anything. -/
theorem BraidScka.receive_initBob (shared : Block B 32) {chunk : List B}
    (h : chunk.length = chunkWire) :
    ∃ s, (initBob P shared).receive P ⟨1, .hdr, chunk⟩ = .ok ((0, none), s) := by
  have hadd : ∃ dec, (Decoder.new (64 + 32)).addChunk chunk = .ok dec ∧ dec.decoded = none := by
    rw [Decoder.addChunk, dif_pos h]
    exact ⟨_, rfl, rfl⟩
  obtain ⟨dec, hdec, hnone⟩ := hadd
  unfold receive
  simp only [initBob, hdec, hnone, bind, Except.bind, pure, Except.pure]
  exact ⟨_, rfl⟩

/-! ### The first hybrid message -/

/-- Both sides of SPQR start from the same chain. -/
theorem SpqrState.receive_first {skPq : Block B 32} {m epoch : UInt32} {s : SpqrState B}
    (h : (init skPq m).advanceEpoch P skPq = .ok (epoch, s)) :
    ∃ pqEpoch pqN msgKey s₁ s₂, s.sendKey P = .ok ((pqEpoch, pqN, msgKey), s₁) ∧
      s.receiveKey P pqEpoch pqN = .ok (msgKey, s₂) := by
  obtain ⟨next, -, hret⟩ := Except.bind_eq_ok.1 h
  cases hret
  have hskipped : ∀ (p : UInt32 × UInt32 → Prop) [DecidablePred p] (k : UInt32 × UInt32),
      (Dict.filter p (init skPq m).skipped).lookup k = none := by
    intro p _ k
    rw [Dict.lookup_filter, init, Finmap.lookup_empty, ite_self]
  have hinc : checkedInc 0 = .ok 1 := rfl
  exact ⟨_, _, _, _, _, sendKey_of_chain rfl hinc, receiveKey_next rfl (hskipped _ _) hinc⟩

/-- Bob's hybrid ratchet opens Alice's first message. -/
theorem TripleRatchetState.receive_first (hD : IdealDh P) (hA : IdealAead P)
    {dhs sk bobDh : Block B 32} (fresh : Block B 32) {m : Block B 32} {seed : Block B 64}
    {a a' : TripleRatchetState B} {header : TripleHeader B} {pt ad ct : List B}
    (hinit : initAlice P dhs sk (P.publicKey bobDh) = .ok a)
    (henc : a.encrypt P seed m pt ad = .ok ((header, ct), a')) :
    header.encode.length = 94 ∧ TripleHeader.decode header.encode = .ok header ∧
      ∃ b b', initBob P sk bobDh = .ok b ∧ b.decrypt P fresh header ct ad = (.ok pt, b') := by
  obtain ⟨⟨epoch, spqr⟩, hadv, hret⟩ := Except.bind_eq_ok.1 hinit
  cases hret
  obtain ⟨ecHeader, ecMk, pqEpoch, pqN, pqMk, hec, hpq, -, hheader, hseal⟩ := encrypt_eq_ok henc
  -- what Alice's three parts send, and what Bob's derive from it
  obtain ⟨c, hec'⟩ := DoubleRatchetState.send_first (P := P) dhs (splitSk P sk).1
    (P.publicKey bobDh) defaultMaxSkip
  obtain ⟨c', hclassical⟩ := DoubleRatchetState.receive_first hD fresh dhs (splitSk P sk).1 bobDh
  obtain ⟨pqEpoch', pqN', pqMk', q, q', hpq', hspqr⟩ := SpqrState.receive_first hadv
  obtain ⟨chunk, b, hchunk, hsend⟩ := BraidScka.send_initAlice (P := P) (splitSk P sk).2 seed m
  obtain ⟨b', hbraid⟩ := BraidScka.receive_initBob (P := P) (splitSk P sk).2 hchunk
  cases hec'.symm.trans hec
  cases hpq'.symm.trans hpq
  have hheader : header = ⟨⟨P.publicKey dhs, 0, 0⟩, pqEpoch, pqN, some ⟨1, .hdr, chunk⟩⟩ := by
    rw [hheader]
    exact congrArg (fun sent ↦ (⟨_, pqEpoch, pqN, some sent.1.1⟩ : TripleHeader B)) hsend
  subst hheader
  have hbob : initBob P sk bobDh = .ok ⟨DoubleRatchetState.initBob (splitSk P sk).1 bobDh
      defaultMaxSkip, spqr, BraidScka.initBob P (splitSk P sk).2⟩ :=
    Except.bind_eq_ok.2 ⟨(epoch, spqr), hadv, rfl⟩
  refine ⟨?_, TripleHeader.decode_encode rfl (hD.publicKey_ne_zero dhs) hchunk.le (.inr hchunk), _,
    ⟨c', q', b'⟩, hbob, ?_⟩
  · rw [TripleHeader.length_encode rfl, hchunk]
    rfl
  · simp only [decrypt, tryDecrypt, receiveScka, hbraid, hclassical, hspqr, hA.open_seal hseal, bind,
      Except.bind, pure, Except.pure]

/-! ### The first message in each profile -/

/-- The length of the header of a first message. -/
def CryptoProfile.firstHeaderLength : CryptoProfile → ℕ
  | .classicalV1 => 40
  | .classicalHeV1 => 68
  | .hybridPqV1 => 94

/-- A live ratchet opens as its header-encrypting state does. -/
theorem LiveRatchet.decrypt_headerEncrypt {r r' : HeaderEncryptState B} {d : Draws B}
    {header ct ad pt : List B} {msgKey : Block B 32}
    (hkey : r.receiveKey P d.order d.ratchet header = .ok (msgKey, r'))
    (hopen : aeadOpen P msgKey (deriveNonce msgKey) ct (concatAdHe ad header) = .ok pt) :
    (headerEncrypt r).decrypt P d header ct ad = .ok (pt, headerEncrypt r') := by
  simp only [decrypt, HeaderEncryptState.decrypt, hkey, hopen]

/-- **The two fresh ratchets of a session fit together**: Bob's opens what Alice's seals first. -/
theorem first_message_opens (hD : IdealDh P) (hA : IdealAead P) {profile : CryptoProfile}
    {dhs sk bobDh : Block B 32} {d : Draws B} (d' : Draws B) {a a' : LiveRatchet B}
    {pt ad header ct : List B}
    (hinit : initAliceRatchet P profile dhs sk (P.publicKey bobDh) = .ok a)
    (henc : a.encrypt P d pt ad = .ok ((header, ct), a')) :
    header.length = profile.firstHeaderLength ∧
      ∃ b b', initBobRatchet P profile sk bobDh = .ok b ∧
        b.decrypt P d' header ct ad = .ok (pt, b') := by
  cases profile with
  | classicalV1 =>
    cases hinit
    obtain ⟨⟨⟨h, c⟩, s⟩, hout, hret⟩ := Except.bind_eq_ok.1 henc
    cases hret
    obtain ⟨msgKey, hsend, hseal⟩ := DoubleRatchetState.encrypt_eq_ok.1 (liftError_eq_ok.1 hout)
    obtain ⟨s', hreceive⟩ := DoubleRatchetState.receive_first hD d'.ratchet dhs sk bobDh
    obtain ⟨s'', hsend'⟩ := DoubleRatchetState.send_first (P := P) dhs sk (P.publicKey bobDh)
      defaultMaxSkip
    cases hsend'.symm.trans hsend
    have hdecode := Header.decode_encode (h := (⟨P.publicKey dhs, 0, 0⟩ : Header B))
      (hD.publicKey_ne_zero dhs)
    refine ⟨Header.length_encode _, _, .classical s', rfl, ?_⟩
    simp only [LiveRatchet.decrypt, hdecode, DoubleRatchetState.decrypt, hreceive,
      hA.open_seal hseal, liftError, bind, Except.bind, pure, Except.pure]
  | classicalHeV1 =>
    cases hinit
    obtain ⟨⟨⟨h, c⟩, s⟩, hout, hret⟩ := Except.bind_eq_ok.1 henc
    cases hret
    obtain ⟨cks, dhs', hks, ns, hcks, hdhs, hhks, -, hheader, hseal, -⟩ :=
      HeaderEncryptState.encrypt_eq_ok (liftError_eq_ok.1 hout)
    cases hcks
    cases hdhs
    cases hhks
    obtain ⟨s', hreceive⟩ := HeaderEncryptState.receive_first hD hA d'.order d'.ratchet dhs sk bobDh
      (heKeysFromSk P sk).1 (heKeysFromSk P sk).2 d.headerNonce hheader
    refine ⟨?_, _, .headerEncrypt s', rfl, ?_⟩
    · obtain ⟨hct, hsealed, hret⟩ := Except.bind_eq_ok.1 hheader
      cases hret
      rw [List.length_append, Block.length_val, hA.length_seal hsealed, Header.length_encode]
      rfl
    · exact LiveRatchet.decrypt_headerEncrypt hreceive (hA.open_seal hseal)
  | hybridPqV1 =>
    obtain ⟨t, ht, hret⟩ := Except.bind_eq_ok.1 hinit
    cases hret
    obtain ⟨⟨⟨h, c⟩, s⟩, hout, hret⟩ := Except.bind_eq_ok.1 henc
    cases hret
    obtain ⟨hlen, hdecode, b, b', hbob, hdec⟩ := TripleRatchetState.receive_first hD hA d'.ratchet
      (liftError_eq_ok.1 ht) (liftError_eq_ok.1 hout)
    refine ⟨hlen, .hybrid b, .hybrid b', ?_, ?_⟩
    · simp only [initBobRatchet, hbob, liftError, bind, Except.bind, pure, Except.pure]
    · simp only [LiveRatchet.decrypt, hdecode, hdec, liftError, bind, Except.bind, pure, Except.pure]

/-! ### The two sides of PQXDH -/

omit [Alphabet B] in
theorem kemPublicFromBytes_val (hK : IdealKem P) (seed : Block B 64) :
    kemPublicFromBytes P (P.kemPublic seed).val = .ok (P.kemPublic seed) := by
  have hlen : (P.kemPublic seed).val.length = 1184 := (P.kemPublic seed).2
  rw [kemPublicFromBytes, dif_pos hlen]
  exact if_pos (hK.valid seed)

omit [Alphabet B] in
/-- A signature of an identity key verifies under its public key. -/
theorem xeddsaVerify_sign (hS : SignatureCorrect P) (identity : IdentityKeyPair B)
    (nonce : Block B 64) (message : List B) :
    xeddsaVerify P (identity.publicKey P) message (identity.sign P nonce message) = .ok () :=
  if_pos (hS identity.secret message nonce)

/-- A bundle on offer is valid. -/
theorem Offers.validate {identity : IdentityKeyPair B} {s : PrekeyStore B}
    {b : PublicPrekeyBundle B} (h : Offers P identity s b) (hD : IdealDh P) (hK : IdealKem P)
    (hS : SignatureCorrect P) : b.validate P = .ok () := by
  obtain ⟨nonce, hsig⟩ := h.signedPrekeySig
  obtain ⟨k, -, hpk, ⟨pqNonce, hpqSig⟩, -, -⟩ := h.pq
  refine PublicPrekeyBundle.validate_eq_ok.2 ⟨?_, ?_, ?_, P.kemPublic k.secret, ?_, ?_, ?_⟩
  · rw [h.identityKey]
    exact hD.publicKey_ne_zero _
  · rw [h.signedPrekey]
    exact hD.publicKey_ne_zero _
  · rw [hsig, h.identityKey]
    exact xeddsaVerify_sign hS _ _ _
  · rw [hpk]
    exact kemPublicFromBytes_val hK k.secret
  · rw [hpqSig, h.identityKey]
    exact xeddsaVerify_sign hS _ _ _
  · intro id opk hid
    obtain ⟨k', -, rfl⟩ := h.ec id opk hid
    exact hD.publicKey_ne_zero _

/-- The secret that both sides hash together, with Alice's view of the Diffie–Hellman terms. -/
def pqxdhSecret (P : Primitives B) (eka coins : Block B 32) (aliceIk : IdentityKeyPair B)
    (bundle : PublicPrekeyBundle B) (pq : Block B 1184) : Block B 32 :=
  pqxdhKdf P ((P.diffieHellman aliceIk.secret bundle.signedPrekey).val ++
    (P.diffieHellman eka bundle.identityKey).val ++ (P.diffieHellman eka bundle.signedPrekey).val ++
    (match bundle.oneTimeEc with
    | some (_, opk) => (P.diffieHellman eka opk).val
    | none => []) ++ (P.kemEncapsulate pq coins).1.val)

/-- What Alice computes from a bundle whose KEM key has the given seed. -/
def initiation (P : Primitives B) (eka coins : Block B 32) (aliceIk : IdentityKeyPair B)
    (bundle : PublicPrekeyBundle B) (seed : Block B 64) : AliceInitiation B :=
  { ephemeralPublic := P.publicKey eka
    shared := ⟨pqxdhSecret P eka coins aliceIk bundle (P.kemPublic seed),
      pqxdhAd (aliceIk.publicKey P) bundle.identityKey (P.kemPublic seed)⟩
    kemCiphertext := (P.kemEncapsulate (P.kemPublic seed) coins).2.val
    usedEcOpkId := bundle.oneTimeEc.map fun e ↦ e.1
    usedPqPrekeyId := bundle.pqPrekeyId }

/-- With a valid bundle and a generated KEM key, the initiator's handshake succeeds with the values
of the protocol. -/
theorem aliceInitiate_eq (hK : IdealKem P) {eka coins : Block B 32} {aliceIk : IdentityKeyPair B}
    {bundle : PublicPrekeyBundle B} {seed : Block B 64} (hvalid : bundle.validate P = .ok ())
    (hpq : bundle.pqPrekeyPublic = (P.kemPublic seed).val) :
    aliceInitiate P eka coins aliceIk bundle = .ok (initiation P eka coins aliceIk bundle seed) := by
  have hencaps : kemEncapsulate P (P.kemPublic seed) coins =
      .ok (P.kemEncapsulate (P.kemPublic seed) coins) := if_pos (hK.valid seed)
  simp only [aliceInitiate, hvalid, hpq, kemPublicFromBytes_val hK, hencaps, bind, Except.bind, pure,
    Except.pure]
  rfl

/-- A ratchet of Alice can always be set up. -/
theorem initAliceRatchet_total (P : Primitives B) (profile : CryptoProfile)
    (dhs sk bobSpk : Block B 32) : ∃ r, initAliceRatchet P profile dhs sk bobSpk = .ok r := by
  cases profile <;> exact ⟨_, rfl⟩

namespace Engine

/-- Alice can use a bundle on offer. -/
theorem initiate_of_offers (hD : IdealDh P) (hK : IdealKem P) (hS : SignatureCorrect P)
    {identity : IdentityKeyPair B} {s : PrekeyStore B} {b : PublicPrekeyBundle B}
    (h : Offers P identity s b) (alice : Engine B) (d : Draws B) {seed : Block B 64}
    (hpk : b.pqPrekeyPublic = (P.kemPublic seed).val) :
    ∃ r, initAliceRatchet P alice.profile d.ratchet
        (initiation P d.ephemeral d.kemCoins alice.identity b seed).shared.sk b.signedPrekey = .ok r ∧
      alice.initiate P b d =
        .ok (initiation P d.ephemeral d.kemCoins alice.identity b seed, r) := by
  have hvalid := h.validate hD hK hS
  obtain ⟨r, hr⟩ := initAliceRatchet_total P alice.profile d.ratchet
    (initiation P d.ephemeral d.kemCoins alice.identity b seed).shared.sk b.signedPrekey
  refine ⟨r, hr, ?_⟩
  simp only [initiate, hvalid, aliceInitiate_eq hK hvalid hpk, hr, liftError, bind, Except.bind, pure,
    Except.pure]

/-- The store finds the KEM seed behind a bundle on offer. -/
theorem peekPacketPq_of_offers {identity : IdentityKeyPair B} {s : PrekeyStore B}
    {b : PublicPrekeyBundle B} (hs : s.Valid) (h : Offers P identity s b) :
    ∃ seed, b.pqPrekeyPublic = (P.kemPublic seed).val ∧
      ∀ m : InitiationPacket B, m.pqPrekeyId = b.pqPrekeyId → peekPacketPq m s = .ok seed := by
  obtain ⟨k, hid, hpk, -, hone, hlast⟩ := h.pq
  refine ⟨k.secret, hpk, fun m hm ↦ ?_⟩
  unfold peekPacketPq
  cases hflag : b.isPqOneTime with
  | true =>
    -- a one-time id is never the id of the last resort
    have hk := hone hflag
    have htwo := (hs.pq _ k hk).2.1
    have hne : m.pqPrekeyId ≠ s.lastResortPq.id := by
      rw [hm, hid, hs.lastResort_id]
      rintro heq
      rw [heq] at htwo
      exact absurd htwo (by decide)
    rw [if_neg hne, hm, hid, PrekeyStore.peekPq_eq_ok.2 hk]
    rfl
  | false =>
    cases hlast hflag
    rw [if_pos (hm.trans hid)]

/-- Bob's fourth term, when the bundle has a one-time EC prekey. -/
theorem oneTimeTerm_of_offers (hD : IdealDh P) {identity : IdentityKeyPair B} {s : PrekeyStore B}
    {b : PublicPrekeyBundle B} {m : InitiationPacket B} (hs : s.Valid)
    (h : Offers P identity s b) (hm : m.usedEcOpkId = b.oneTimeEc.map fun e ↦ e.1)
    (eka : Block B 32) :
    ∃ peeked, peekPacketEc m s = .ok peeked ∧
      bobOneTimeTerm P (P.publicKey eka) peeked m.usedEcOpkId = .ok (match b.oneTimeEc with
        | some (_, opk) => (P.diffieHellman eka opk).val
        | none => []) := by
  unfold peekPacketEc
  cases hec : b.oneTimeEc with
  | none =>
    rw [hec] at hm
    rw [hm]
    exact ⟨none, rfl, rfl⟩
  | some entry =>
    obtain ⟨id, opk⟩ := entry
    rw [hec] at hm
    obtain ⟨k, hk, rfl⟩ := h.ec id opk hec
    have hid : k.id = id := (hs.ec id k hk).1
    rw [hm]
    refine ⟨some k, ?_, ?_⟩
    · simp only [Option.map_some, PrekeyStore.peekEc_eq_ok.2 hk, liftError, bind, Except.bind, pure,
        Except.pure]
    · simp only [bobOneTimeTerm, Option.map_some, hid, ne_eq, not_true, if_false, hD.comm]

/-- **Both sides derive the same secret and the same associated data**, because the bundle shows the
public halves of what the store holds and exchanges commute. -/
theorem respond_of_offers (hD : IdealDh P) (hK : IdealKem P) {bob : Engine B}
    {b : PublicPrekeyBundle B} (hs : bob.prekeys.Valid)
    (h : Offers P bob.identity bob.prekeys b) {seed : Block B 64}
    (hpeek : ∀ m : InitiationPacket B, m.pqPrekeyId = b.pqPrekeyId →
      peekPacketPq m bob.prekeys = .ok seed)
    (alice : Engine B) (d : Draws B) (first : SealedMessage B) {r : LiveRatchet B}
    (hr : initBobRatchet P bob.profile
      (initiation P d.ephemeral d.kemCoins alice.identity b seed).shared.sk
      bob.prekeys.signed.secret = .ok r) :
    bob.respond P (alice.initiationPacket P b
        (initiation P d.ephemeral d.kemCoins alice.identity b seed) first) =
      .ok (alice.identity.publicKey P,
        (initiation P d.ephemeral d.kemCoins alice.identity b seed).shared, r) := by
  generalize hm : alice.initiationPacket P b
    (initiation P d.ephemeral d.kemCoins alice.identity b seed) first = m
  have hik : m.senderIdentityPublic = alice.identity.publicKey P := by rw [← hm]; rfl
  have hek : m.senderEphemeralPublic = P.publicKey d.ephemeral := by rw [← hm]; rfl
  have hspk : m.usedSpkId = bob.prekeys.signed.id := by rw [← hm]; exact h.signedPrekeyId
  have hkem : kemCiphertextFromBytes m.kemCiphertext =
      .ok (P.kemEncapsulate (P.kemPublic seed) d.kemCoins).2 := by
    rw [← hm]
    exact dif_pos (Block.length_val _)
  obtain ⟨peeked, hpeeked, hterm⟩ := oneTimeTerm_of_offers hD hs h (m := m) (by rw [← hm]; rfl)
    d.ephemeral
  -- the three Diffie–Hellman terms, from Bob's side
  have hdh1 := hD.comm bob.prekeys.signed.secret alice.identity.secret
  have hdh2 := hD.comm bob.identity.secret d.ephemeral
  have hdh3 := hD.comm bob.prekeys.signed.secret d.ephemeral
  rw [← h.signedPrekey] at hdh1 hdh3
  have hid : P.publicKey bob.identity.secret = b.identityKey := h.identityKey.symm
  rw [hid] at hdh2
  have hbob : bobProcess P bob.identity bob.prekeys.signed peeked seed (P.kemPublic seed)
      (alice.identity.publicKey P) (P.publicKey d.ephemeral) m.kemCiphertext m.usedEcOpkId =
      .ok (initiation P d.ephemeral d.kemCoins alice.identity b seed).shared := by
    unfold bobProcess
    simp only [hkem, hterm, hK.decapsulate, IdentityKeyPair.publicKey, hdh1, hdh2, hdh3, hid, bind,
      Except.bind, pure, Except.pure]
    rfl
  have hne := hD.publicKey_ne_zero alice.identity.secret
  have hne' := hD.publicKey_ne_zero d.ephemeral
  unfold respond
  simp only [hik, hek, IdentityKeyPair.publicKey] at hbob ⊢
  simp only [publicFromBytes_of_ne hne, publicFromBytes_of_ne hne', hspk, hpeeked, hpeek m (by rw [← hm]; rfl),
    hbob, hr, liftError, bind, Except.bind, pure, Except.pure, ne_eq, not_true, if_false]

/-! ### Completeness -/

/-- No message of a session with this id has been recorded: the id is fresh. -/
def FreshId (e : Engine B) (sid : SessionId B) : Prop :=
  ∀ m conv, e.replay.contains (replayKey sid m conv e.deviceId) = false

/-- **The handshake completes**: Alice gets a packet for the bundle, Bob accepts it, directly and after
it has been on the wire, with Alice's plaintext, and the two have derived the same secret and the same
associated data. -/
def Completes (P : Primitives B) (alice bob : Engine B) (b : PublicPrekeyBundle B)
    (conv pt ad : List B) (d d' : Draws B) : Prop :=
  ∃ i r packet r', alice.initiate P b d = .ok (i, r) ∧
    (alice.establishOutboundSession P b conv pt ad d).1 = .ok (d.sessionId, packet) ∧
    bob.respond P packet = .ok (alice.identity.publicKey P, i.shared, r') ∧
    (bob.processInboundSession P packet conv ad d').1 = .ok (d'.sessionId, pt) ∧
    ∃ received, InitiationPacket.decode packet.encode = .ok received ∧
      (bob.processInboundSession P received conv ad d').1 = .ok (d'.sessionId, pt)

variable {alice bob : Engine B} {b : PublicPrekeyBundle B} {d' : Draws B}

/-- Everything but the wire. -/
theorem handshake_of_offers (hD : IdealDh P) (hK : IdealKem P) (hS : SignatureCorrect P)
    (hA : IdealAead P) (hseal : SealTotal P) (halice : alice.storage.staged = none)
    (hbob : bob.storage.staged = none) (hprofile : alice.profile = bob.profile)
    (hs : bob.prekeys.Valid) (h : Offers P bob.identity bob.prekeys b)
    (hfresh : bob.FreshId d'.sessionId) (conv pt ad : List B) (d : Draws B) :
    ∃ i r packet r', alice.initiate P b d = .ok (i, r) ∧
      (alice.establishOutboundSession P b conv pt ad d).1 = .ok (d.sessionId, packet) ∧
      bob.respond P packet = .ok (alice.identity.publicKey P, i.shared, r') ∧
      (bob.processInboundSession P packet conv ad d').1 = .ok (d'.sessionId, pt) ∧
      packet.kemCiphertext.length = 1088 ∧
      packet.firstMessage.ciphertext.length = pt.length + 16 ∧
      packet.firstMessage.encode.length = 48 + bob.profile.firstHeaderLength + pt.length := by
  obtain ⟨seed, hpk, hpeek⟩ := peekPacketPq_of_offers hs h
  obtain ⟨r, hr, hinit⟩ := initiate_of_offers hD hK hS h alice d hpk
  generalize hi : initiation P d.ephemeral d.kemCoins alice.identity b seed = i at hr hinit
  obtain ⟨⟨header, ct⟩, r₁, henc⟩ := initAliceRatchet_encrypt hseal hr d pt
    ((alice.outboundSession b conv i r).boundAd ad)
  rw [hprofile, h.signedPrekey] at hr
  obtain ⟨hheader, r', r₂, hr', hdec⟩ := first_message_opens hD hA d' hr henc
  have hestablish : (alice.establishOutboundSession P b conv pt ad d).1 =
      .ok (d.sessionId, alice.initiationPacket P b i ⟨header, ct, d.sessionId⟩) := by
    rcases establish_cases (P := P) halice b conv pt ad d with
      ⟨err, herr, -⟩ | ⟨i', ratchet, hi', ⟨err, herr, -⟩ | ⟨header', ct', r₃, henc', heq⟩⟩
    · cases hinit.symm.trans herr
    · cases hinit.symm.trans hi'
      cases henc.symm.trans herr
    · cases hinit.symm.trans hi'
      cases henc.symm.trans henc'
      rw [heq]
  have hresp : bob.respond P (alice.initiationPacket P b i ⟨header, ct, d.sessionId⟩) =
      .ok (alice.identity.publicKey P, i.shared, r') := by
    subst hi
    exact respond_of_offers hD hK hs h hpeek alice d _ hr'
  have hprocess := process_eq_ok hbob hresp (hfresh _ _) hdec
  have hct := (LiveRatchet.length_encrypt hA henc).2
  refine ⟨i, r, _, r', hinit, hestablish, hresp, by rw [hprocess], length_kemCiphertext hinit, hct, ?_⟩
  show (SealedMessage.encode ⟨header, ct, d.sessionId⟩).length = _
  rw [SealedMessage.length_encode]
  dsimp only
  omega

/-- On the wire, the first message has to fit its length. -/
theorem completes_iff_of_offers (hD : IdealDh P) (hK : IdealKem P) (hS : SignatureCorrect P)
    (hA : IdealAead P) (hseal : SealTotal P) (halice : alice.storage.staged = none)
    (hbob : bob.storage.staged = none) (hprofile : alice.profile = bob.profile)
    (hs : bob.prekeys.Valid) (h : Offers P bob.identity bob.prekeys b)
    (hfresh : bob.FreshId d'.sessionId) (conv pt ad : List B) (d : Draws B) :
    Completes P alice bob b conv pt ad d d' ↔
      48 + bob.profile.firstHeaderLength + pt.length < 2 ^ 32 := by
  obtain ⟨i, r, packet, r', hinit, hestablish, hresp, hprocess, hkem, -, hlen⟩ :=
    handshake_of_offers hD hK hS hA hseal halice hbob hprofile hs h hfresh conv pt ad d
  constructor
  · rintro ⟨i', ratchet, packet', ratchet', -, hestablish', -, -, received, hdecode, -⟩
    cases hestablish.symm.trans hestablish'
    by_contra hlong
    rw [InitiationPacket.decode_encode_of_le (by omega) (by omega)] at hdecode
    cases hdecode
  · intro hshort
    have hdecode := InitiationPacket.decode_encode (p := packet) (by omega) (by omega)
    exact ⟨i, r, packet, r', hinit, hestablish, hresp, hprocess, packet, hdecode, hprocess⟩

end Engine

/-- **Handshakes complete.** For every run of Bob, every bundle that Bob returned in it and whose
one-time prekeys no accepted packet has used since, and every Alice with the same profile: the handshake
completes exactly if the first message, framed and sealed, is shorter than `2 ^ 32` bytes. -/
theorem handshake_completes_iff (hD : IdealDh P) (hK : IdealKem P) (hS : SignatureCorrect P)
    (hA : IdealAead P) (hseal : SealTotal P) {alice bob : Run B}
    (halice : (device P anyCall).Reachable alice) (hbob : (device P anyCall).Reachable bob)
    (before since : List (Event B)) {ev : Event B} {b : PublicPrekeyBundle B}
    (hlog : bob.log = before ++ ev :: since) (hb : ev.Returned b)
    (hspares : ∀ ev' ∈ since, ∀ m, ev'.Accepted m → m.Spares b)
    (hprofile : alice.engine.profile = bob.engine.profile) (conv pt ad : List B) (d d' : Draws B)
    (hfresh : bob.engine.FreshId d'.sessionId) :
    Engine.Completes P alice.engine bob.engine b conv pt ad d d' ↔
      48 + bob.engine.profile.firstHeaderLength + pt.length < 2 ^ 32 := by
  obtain ⟨S, hS'⟩ := exists_settled hbob
  have hoffers := (hS'.offered before ev since b hlog hb hspares).grow hS'.backed.grows
  exact Engine.completes_iff_of_offers hD hK hS hA hseal (device_idle halice) (device_idle hbob)
    hprofile hS'.backed.valid hoffers hfresh conv pt ad d

namespace Symbolic

/-- Device 2 has published a bundle with one prekey of each kind, and has recorded nothing. -/
theorem issued_spec (profile : CryptoProfile) :
    ∃ ev b, (issued profile).log = [ev] ∧ ev.Returned b ∧
      (issued profile).engine.profile = profile ∧ (issued profile).engine.sessions = ∅ ∧
      ∀ sid, (issued profile).engine.FreshId sid := by
  have hidle := device_idle (reachable_newDevice symbolic anyCall ⟨[], profile⟩ (deviceDraws 2))
  have hok : ((engine 2 profile).prekeys.replenish symbolic (engine 2 profile).identity
      (draws 2).prekeys 1 1).1 = .ok () := by
    cases profile <;> decide +kernel
  rcases Engine.generate_cases (P := symbolic) hidle 1 (draws 2) with
    ⟨err, prekeys, hrep, -⟩ | ⟨prekeys, hrep, heq⟩
  · rw [show (engine 2 profile).prekeys.replenish symbolic (engine 2 profile).identity
      (draws 2).prekeys 1 1 = (.error err, prekeys) from hrep] at hok
    cases hok
  · have hcall : (engine 2 profile).call symbolic (draws 2) (.generateBundle 1) =
        Engine.report .bundle _ := congrArg (Engine.report .bundle) heq
    have hengine : (issued profile).engine = _ := congrArg Prod.snd hcall
    refine ⟨_, _, rfl, congrArg Prod.fst hcall, by rw [hengine]; rfl, by rw [hengine]; rfl, ?_⟩
    intro sid m conv
    rw [hengine]
    rfl

end Symbolic

open Symbolic in
/-- Device 1 opens a session with device 2 on its bundle. -/
theorem handshake_completes_issued : ∃ ev b, (issued .hybridPqV1).log = [ev] ∧ ev.Returned b ∧
    Engine.Completes symbolic (Symbolic.engine 1 .hybridPqV1) (issued .hybridPqV1).engine b [] [] []
      (Symbolic.draws 1) (Symbolic.draws 3) := by
  obtain ⟨ev, b, hlog, hb, hprofile, -, hfresh⟩ := issued_spec .hybridPqV1
  refine ⟨ev, b, hlog, hb, ?_⟩
  have halice := reachable_newDevice symbolic anyCall ⟨[], .hybridPqV1⟩ (deviceDraws 1)
  refine (handshake_completes_iff idealDh idealKem signatureCorrect idealAead sealTotal halice
    (reachable_issued .hybridPqV1) [] [] hlog hb (by simp) hprofile.symm [] []
    [] (Symbolic.draws 1) (Symbolic.draws 3) (hfresh _)).2 ?_
  rw [hprofile]
  decide

open Symbolic in
/-- **A first message of 4 GiB does not survive the wire**: its length is written modulo `2 ^ 32`,
and the packet that is read is another one. -/
theorem handshake_lost_on_wire : ∃ ev b, (issued .classicalV1).log = [ev] ∧ ev.Returned b ∧
    ¬ Engine.Completes symbolic (Symbolic.engine 1 .classicalV1) (issued .classicalV1).engine b []
      (List.replicate (2 ^ 32) (.lit 0)) [] (Symbolic.draws 1) (Symbolic.draws 3) := by
  obtain ⟨ev, b, hlog, hb, hprofile, -, hfresh⟩ := issued_spec .classicalV1
  refine ⟨ev, b, hlog, hb, fun hcompletes ↦ ?_⟩
  have hbob := reachable_issued .classicalV1
  obtain ⟨S, hS⟩ := exists_settled hbob
  have hoffers := (hS.offered [] ev [] b hlog hb (by simp)).grow hS.backed.grows
  have halice := reachable_newDevice symbolic anyCall ⟨[], .classicalV1⟩ (deviceDraws 1)
  have hshort := (Engine.completes_iff_of_offers idealDh idealKem signatureCorrect idealAead sealTotal
    (device_idle halice) (device_idle hbob) hprofile.symm hS.backed.valid hoffers (hfresh _) []
    (List.replicate (2 ^ 32) (.lit 0)) [] (Symbolic.draws 1)).1 hcompletes
  rw [List.length_replicate] at hshort
  omega

end VoiceChatCrypto
