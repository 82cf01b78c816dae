import VoiceChatCrypto.Engine.Positions
import VoiceChatCrypto.Engine.Profiles
import VoiceChatCrypto.Engine.Reload
import VoiceChatCrypto.Ratchet.KeyDeletion

/-!
# Keys are used once

What a device can still open. Any number of calls, with any arguments, and any number of reloads from
storage lie between: a session opens no message twice (`once`), and nothing that a device holds of a
session reveals a key of a message that was sent or accepted in it (`forward_secrecy`). The argument
counts keys and not messages, so the replay cache, which forgets, plays no part in it.

The two assumptions that a run makes are that session ids are drawn anew and that conversations fit
their 32-bit length.
-/

open Alphabet

namespace VoiceChatCrypto

variable {B : Type} [Alphabet B] {P : Primitives B}

/-- What AES-256-GCM opens was sealed under the same key, nonce and associated data. -/
def OpensSealed (P : Primitives B) : Prop :=
  ∀ {key nonce pt ad ct}, P.aeadDecrypt key nonce ct ad = some pt →
    P.aeadEncrypt key nonce pt ad = some ct

omit [Alphabet B] in
/-- **A ciphertext opens under one key.** -/
theorem OpensSealed.key_eq (hP : OpensSealed P) (hone : OneKey P) {key key' : Block B 32}
    {nonce nonce' : Block B 12} {pt pt' ad ad' ct : List B} (h : aeadOpen P key nonce ct ad = .ok pt)
    (h' : aeadOpen P key' nonce' ct ad' = .ok pt') : key = key' := by
  have hseal : aeadSeal P key nonce pt ad = .ok ct := by
    unfold aeadOpen at h
    split at h
    · cases h
    · split at h
      · cases h
        rw [aeadSeal, hP ‹_›]
      · cases h
  exact hone.key_eq hseal h'

/-! ### Ratchets -/

/-- The secrets of a handshake are not root keys. -/
theorem notDerived_pqxdhKdf (hP : IdealKdf P) (km : List B) : NotDerived P (pqxdhKdf P km) := by
  intro rk d h
  obtain ⟨-, -, hinfo, -⟩ := hP.hkdf_inj (by simp) (by simp [noSalt]) h
  exact ascii_ne (by decide) hinfo

/-- The first half of a split secret is no message key. -/
theorem notDerived_splitSk (hP : IdealKdf P) (sk : Block B 32) :
    NotDerived P (TripleRatchetState.splitSk P sk).1 := by
  intro rk d h
  obtain ⟨-, -, hinfo, -⟩ := hP.hkdf_inj (by simp) (by simp [noSalt]) h
  exact ascii_ne (by decide) hinfo

/-- The classical key of a hybrid one. -/
theorem kdfHybrid_inj (hP : IdealKdf P) {ec ec' pq pq' : Block B 32}
    (h : kdfHybrid P ec pq = kdfHybrid P ec' pq') : ec = ec' :=
  Subtype.ext (hP.hkdf_inj (by simp) (by simp) h).2.1

/-- What a hybrid message is opened with. -/
theorem TripleRatchetState.tryDecrypt_opens {fresh : Block B 32} {header : TripleHeader B}
    {ct ad pt : List B} {s s' : TripleRatchetState B}
    (h : tryDecrypt P fresh header ct ad s = .ok (pt, s')) : ∃ ecMk pqMk,
      s.classical.ratchetReceiveKey P fresh header.classical = .ok (ecMk, s'.classical) ∧
      aeadOpen P (aeadFromHybrid P (kdfHybrid P ecMk pqMk)).1
        (aeadFromHybrid P (kdfHybrid P ecMk pqMk)).2 ct (concatTripleAd ad header) = .ok pt := by
  obtain ⟨⟨braid, spqr, pending⟩, -, h⟩ := Except.bind_eq_ok.1 h
  obtain ⟨⟨ecMk, classical⟩, hec, h⟩ := Except.bind_eq_ok.1 h
  obtain ⟨⟨pqMk, spqr'⟩, -, h⟩ := Except.bind_eq_ok.1 h
  obtain ⟨pt', hopen, h⟩ := Except.bind_eq_ok.1 h
  refine ⟨ecMk, pqMk, ?_⟩
  cases pending with
  | none =>
    cases h
    exact ⟨hec, hopen⟩
  | some k =>
    obtain ⟨⟨e, sp⟩, -, h⟩ := Except.bind_eq_ok.1 h
    cases h
    exact ⟨hec, hopen⟩

namespace LiveRatchet

variable {r r' : LiveRatchet B} {d : Draws B} {header ct pt ad : List B}

/-- The ratchet comes from a secret that is not a root key. -/
def Sound (P : Primitives B) : LiveRatchet B → Prop
  | classical r => r.Sound P
  | headerEncrypt r => r.Sound P
  | hybrid r => r.classical.Sound P

/-- **The AEAD keys that can be derived** from what the ratchet holds. What the post-quantum ratchet
adds to a hybrid key is not counted as a secret. -/
def Reveals (P : Primitives B) (r : LiveRatchet B) (key : Block B 32) : Prop :=
  match r with
  | classical r => ∃ mk, r.keyRing.Reveals P (doubleDescent P) mk ∧ key = (aeadFromMk P mk).1
  | headerEncrypt r => r.keyRing.Reveals P (headerDescent P) key
  | hybrid r => ∃ ec pq, r.classical.keyRing.Reveals P (doubleDescent P) ec ∧
      key = (aeadFromHybrid P (kdfHybrid P ec pq)).1

/-- **A use of an AEAD key**: what the ratchet revealed and the next one does not. -/
structure Uses (P : Primitives B) (r : LiveRatchet B) (key : Block B 32) (r' : LiveRatchet B) :
    Prop where
  /-- Nothing becomes available that was not so before. -/
  within : ∀ k, r'.Reveals P k → r.Reveals P k
  /-- The key was available. -/
  revealed : r.Reveals P key
  /-- It is not available any more. -/
  gone : ¬ r'.Reveals P key

/-- A use of a message key is a use of the AEAD key derived from it. -/
theorem uses_classical (hP : IdealKdf P) {r r' : DoubleRatchetState B} {mk : Block B 32}
    (h : r.keyRing.Uses P (doubleDescent P) mk r'.keyRing) :
    Uses P (.classical r) (aeadFromMk P mk).1 (.classical r') where
  within := by
    rintro k ⟨w, hw, rfl⟩
    exact ⟨w, h.within w hw, rfl⟩
  revealed := ⟨mk, h.revealed, rfl⟩
  gone := by
    rintro ⟨w, hw, heq⟩
    exact h.gone (aeadFromMk_fst_inj hP heq ▸ hw)

/-- A use of the classical message key is a use of the hybrid AEAD key, whatever the other half. -/
theorem uses_hybrid (hP : IdealKdf P) {r r' : TripleRatchetState B} {ec : Block B 32}
    (h : r.classical.keyRing.Uses P (doubleDescent P) ec r'.classical.keyRing) (pq : Block B 32) :
    Uses P (.hybrid r) (aeadFromHybrid P (kdfHybrid P ec pq)).1 (.hybrid r') where
  within := by
    rintro k ⟨w, pq', hw, rfl⟩
    exact ⟨w, pq', h.within w hw, rfl⟩
  revealed := ⟨ec, pq, h.revealed, rfl⟩
  gone := by
    rintro ⟨w, pq', hw, heq⟩
    exact h.gone (kdfHybrid_inj hP (aeadFromMk_fst_inj hP heq) ▸ hw)

/-- **Opening uses up its key.** -/
theorem decrypt_uses (hP : IdealKdf P) (hr : r.Sound P)
    (h : r.decrypt P d header ct ad = .ok (pt, r')) :
    r'.Sound P ∧ ∃ key nonce ad', aeadOpen P key nonce ct ad' = .ok pt ∧ r.Uses P key r' := by
  cases r with
  | classical r =>
    obtain ⟨hd, -, h⟩ := Except.bind_eq_ok.1 h
    rcases DoubleRatchetState.decrypt_cases P d.ratchet hd ct ad r with
      ⟨mk, trial, pt', hkey, hopen, heq⟩ | ⟨e, heq, -⟩
    · rw [heq] at h
      cases h
      obtain ⟨hs, huses⟩ := DoubleRatchetState.Sound.receive hP hr hkey
      exact ⟨hs, _, _, _, hopen, uses_classical hP huses⟩
    · rw [heq] at h
      cases h
  | headerEncrypt r =>
    rcases HeaderEncryptState.decrypt_cases P d.order d.ratchet header ct ad r with
      ⟨mk, trial, pt', hkey, hopen, heq⟩ | ⟨e, heq⟩
    · rw [decrypt, heq] at h
      cases h
      obtain ⟨hs, huses⟩ := HeaderEncryptState.Sound.receive hP hr hkey
      exact ⟨hs, _, _, _, hopen, huses.within, huses.revealed, huses.gone⟩
    · rw [decrypt, heq] at h
      cases h
  | hybrid r =>
    obtain ⟨hd, -, h⟩ := Except.bind_eq_ok.1 h
    unfold TripleRatchetState.decrypt at h
    cases htry : r.tryDecrypt P d.ratchet hd ct ad with
    | error e =>
      rw [htry] at h
      cases h
    | ok out =>
      obtain ⟨pt', trial⟩ := out
      rw [htry] at h
      cases h
      obtain ⟨ec, pq, hkey, hopen⟩ := TripleRatchetState.tryDecrypt_opens htry
      obtain ⟨hs, huses⟩ := DoubleRatchetState.Sound.receive hP hr hkey
      exact ⟨hs, _, _, _, hopen, uses_hybrid hP huses pq⟩

/-- **Sealing uses up its key.** -/
theorem encrypt_uses (hP : IdealKdf P) (hr : r.Sound P)
    (h : r.encrypt P d pt ad = .ok ((header, ct), r')) :
    r'.Sound P ∧ ∃ key nonce ad', aeadSeal P key nonce pt ad' = .ok ct ∧ r.Uses P key r' := by
  cases r with
  | classical r =>
    obtain ⟨⟨⟨hd, c⟩, t⟩, henc, hret⟩ := Except.bind_eq_ok.1 h
    cases hret
    obtain ⟨mk, hsend, hseal⟩ := DoubleRatchetState.encrypt_eq_ok.1 (liftError_eq_ok.1 henc)
    obtain ⟨hs, huses⟩ := DoubleRatchetState.Sound.send hP hr hsend
    exact ⟨hs, _, _, _, hseal, uses_classical hP huses⟩
  | headerEncrypt r =>
    obtain ⟨⟨⟨hd, c⟩, t⟩, henc, hret⟩ := Except.bind_eq_ok.1 h
    cases hret
    obtain ⟨hs, mk, huses, hseal⟩ := HeaderEncryptState.Sound.encrypt hP hr (liftError_eq_ok.1 henc)
    exact ⟨hs, _, _, _, hseal, huses.within, huses.revealed, huses.gone⟩
  | hybrid r =>
    obtain ⟨⟨⟨hd, c⟩, t⟩, henc, hret⟩ := Except.bind_eq_ok.1 h
    cases hret
    obtain ⟨ecHeader, ecMk, pqEpoch, pqN, pqMk, hsend, -, -, -, hseal⟩ :=
      TripleRatchetState.encrypt_eq_ok (liftError_eq_ok.1 henc)
    obtain ⟨hs, huses⟩ := DoubleRatchetState.Sound.send hP hr hsend
    exact ⟨hs, _, _, _, hseal, uses_hybrid hP huses pqMk⟩

end LiveRatchet

/-- Alice's first ratchet. -/
theorem sound_initAliceRatchet (hP : IdealKdf P) {profile : CryptoProfile} {dhs bobSpk : Block B 32}
    {km : List B} {r : LiveRatchet B}
    (h : initAliceRatchet P profile dhs (pqxdhKdf P km) bobSpk = .ok r) : r.Sound P := by
  have hsk := notDerived_pqxdhKdf hP km
  cases profile with
  | classicalV1 =>
    cases h
    exact DoubleRatchetState.sound_initAlice hsk _ _ _
  | classicalHeV1 =>
    cases h
    exact HeaderEncryptState.sound_initAlice hsk _ _ _ _ _
  | hybridPqV1 =>
    obtain ⟨t, hinit, hret⟩ := Except.bind_eq_ok.1 h
    cases hret
    obtain ⟨⟨epoch, spqr⟩, -, hret⟩ := Except.bind_eq_ok.1 (liftError_eq_ok.1 hinit)
    cases hret
    exact DoubleRatchetState.sound_initAlice (notDerived_splitSk hP _) _ _ _

/-- Bob's first ratchet. -/
theorem sound_initBobRatchet (hP : IdealKdf P) {profile : CryptoProfile} {bobDh : Block B 32}
    {km : List B} {r : LiveRatchet B}
    (h : initBobRatchet P profile (pqxdhKdf P km) bobDh = .ok r) : r.Sound P := by
  have hsk := notDerived_pqxdhKdf hP km
  cases profile with
  | classicalV1 =>
    cases h
    exact DoubleRatchetState.sound_initBob hsk _ _
  | classicalHeV1 =>
    cases h
    exact HeaderEncryptState.sound_initBob hsk _ _ _ _
  | hybridPqV1 =>
    obtain ⟨t, hinit, hret⟩ := Except.bind_eq_ok.1 h
    cases hret
    obtain ⟨⟨epoch, spqr⟩, -, hret⟩ := Except.bind_eq_ok.1 (liftError_eq_ok.1 hinit)
    cases hret
    exact DoubleRatchetState.sound_initBob (notDerived_splitSk hP _) _ _

/-- **A ratchet that a call has made**: it was set up, and has sealed or opened its first message or is
still to seal it. -/
inductive LiveRatchet.Begun (P : Primitives B) (d : Draws B) : LiveRatchet B → Prop
  | unsent {profile : CryptoProfile} {dhs spk : Block B 32} {km : List B} {r : LiveRatchet B}
      (h : initAliceRatchet P profile dhs (pqxdhKdf P km) spk = .ok r) : Begun P d r
  | sealed {profile : CryptoProfile} {dhs spk : Block B 32} {km pt ad header ct : List B}
      {r r' : LiveRatchet B} (h : initAliceRatchet P profile dhs (pqxdhKdf P km) spk = .ok r)
      (henc : r.encrypt P d pt ad = .ok ((header, ct), r')) : Begun P d r'
  | opened {profile : CryptoProfile} {dh : Block B 32} {km header ct ad pt : List B}
      {r r' : LiveRatchet B} (h : initBobRatchet P profile (pqxdhKdf P km) dh = .ok r)
      (hdec : r.decrypt P d header ct ad = .ok (pt, r')) : Begun P d r'

theorem LiveRatchet.Begun.sound (hP : IdealKdf P) {d : Draws B} {r : LiveRatchet B}
    (h : r.Begun P d) : r.Sound P := by
  cases h with
  | unsent h => exact sound_initAliceRatchet hP h
  | sealed h henc => exact (LiveRatchet.encrypt_uses hP (sound_initAliceRatchet hP h) henc).1
  | opened h hdec => exact (LiveRatchet.decrypt_uses hP (sound_initBobRatchet hP h) hdec).1

/-! ### Ciphertexts -/

/-- **The ciphertext can be opened** with a key that can be derived from what the ratchet holds. -/
def LiveRatchet.CanOpen (P : Primitives B) (r : LiveRatchet B) (ct : List B) : Prop :=
  ∃ key nonce ad pt, aeadOpen P key nonce ct ad = .ok pt ∧ r.Reveals P key

section Ideal

variable (hP : IdealKdf P) (hO : OpensSealed P) (h1 : OneKey P)
include hP hO h1

/-- **A ratchet opens a ciphertext once.** -/
theorem LiveRatchet.decrypt_canOpen {r r' : LiveRatchet B} {d : Draws B} {header ct pt ad : List B}
    (hr : r.Sound P) (h : r.decrypt P d header ct ad = .ok (pt, r')) :
    r'.Sound P ∧ r.CanOpen P ct ∧ ¬ r'.CanOpen P ct ∧ ∀ c, r'.CanOpen P c → r.CanOpen P c := by
  obtain ⟨hr', key, nonce, ad', hopen, huses⟩ := decrypt_uses hP hr h
  refine ⟨hr', ⟨key, nonce, ad', pt, hopen, huses.revealed⟩, ?_, ?_⟩
  · rintro ⟨k, n, a, p, hk, hleft⟩
    exact huses.gone (hO.key_eq h1 hopen hk ▸ hleft)
  · rintro c ⟨k, n, a, p, hk, hleft⟩
    exact ⟨k, n, a, p, hk, huses.within k hleft⟩

omit hO in
/-- **What a ratchet seals it cannot open.** -/
theorem LiveRatchet.encrypt_canOpen {r r' : LiveRatchet B} {d : Draws B} {header ct pt ad : List B}
    (hr : r.Sound P) (h : r.encrypt P d pt ad = .ok ((header, ct), r')) :
    r'.Sound P ∧ ¬ r'.CanOpen P ct ∧ ∀ c, r'.CanOpen P c → r.CanOpen P c := by
  obtain ⟨hr', key, nonce, ad', hseal, huses⟩ := encrypt_uses hP hr h
  refine ⟨hr', ?_, ?_⟩
  · rintro ⟨k, n, a, p, hk, hleft⟩
    exact huses.gone (h1.key_eq hseal hk ▸ hleft)
  · rintro c ⟨k, n, a, p, hk, hleft⟩
    exact ⟨k, n, a, p, hk, huses.within k hleft⟩

end Ideal

namespace Engine

variable {e e' : Engine B} {d : Draws B} {c : Call B} {sid : SessionId B}

/-! ### Where ratchets come from -/

/-- The secret of an initiation. -/
theorem initiate_sk {bundle : PublicPrekeyBundle B} {i : AliceInitiation B} {r : LiveRatchet B}
    (h : e.initiate P bundle d = .ok (i, r)) : ∃ km, i.shared.sk = pqxdhKdf P km := by
  obtain ⟨u, -, h⟩ := Except.bind_eq_ok.1 h
  obtain ⟨i', hinit, h⟩ := Except.bind_eq_ok.1 h
  obtain ⟨r', -, h⟩ := Except.bind_eq_ok.1 h
  cases h
  obtain ⟨-, -, hinit⟩ := Except.bind_eq_ok.1 (liftError_eq_ok.1 hinit)
  obtain ⟨pq, -, hinit⟩ := Except.bind_eq_ok.1 hinit
  obtain ⟨⟨ss, ct⟩, -, hinit⟩ := Except.bind_eq_ok.1 hinit
  cases hinit
  exact ⟨_, rfl⟩

/-- The secret of an answer. -/
theorem respond_sk {m : InitiationPacket B} {ik : Block B 32} {shared : PqxdhSharedSecret B}
    {r : LiveRatchet B} (h : e.respond P m = .ok (ik, shared, r)) :
    ∃ km, shared.sk = pqxdhKdf P km := by
  unfold respond at h
  obtain ⟨aliceIk, -, h⟩ := Except.bind_eq_ok.1 h
  obtain ⟨aliceEk, -, h⟩ := Except.bind_eq_ok.1 h
  dsimp only at h
  split at h
  · cases h
  obtain ⟨peekedEc, -, h⟩ := Except.bind_eq_ok.1 h
  obtain ⟨pqSecret, -, h⟩ := Except.bind_eq_ok.1 h
  obtain ⟨sh, hbob, h⟩ := Except.bind_eq_ok.1 h
  obtain ⟨ratchet, -, h⟩ := Except.bind_eq_ok.1 h
  cases h
  obtain ⟨ct, -, hbob⟩ := Except.bind_eq_ok.1 (liftError_eq_ok.1 hbob)
  obtain ⟨dh4, -, hbob⟩ := Except.bind_eq_ok.1 hbob
  cases hbob
  exact ⟨_, rfl⟩

/-- The ratchet of an initiator starts from the secret of the handshake. -/
theorem initiate_ratchet {bundle : PublicPrekeyBundle B} {i : AliceInitiation B} {r : LiveRatchet B}
    (h : e.initiate P bundle d = .ok (i, r)) : ∃ profile dhs km spk,
      initAliceRatchet P profile dhs (pqxdhKdf P km) spk = .ok r := by
  obtain ⟨km, hsk⟩ := initiate_sk h
  obtain ⟨-, -, -, hratchet⟩ := initiate_eq_ok h
  rw [hsk] at hratchet
  exact ⟨_, _, _, _, hratchet⟩

theorem initiate_sound (hP : IdealKdf P) {bundle : PublicPrekeyBundle B} {i : AliceInitiation B}
    {r : LiveRatchet B} (h : e.initiate P bundle d = .ok (i, r)) : r.Sound P := by
  obtain ⟨profile, dhs, km, spk, hratchet⟩ := initiate_ratchet h
  exact sound_initAliceRatchet hP hratchet

/-- The session that an answer leaves is new, or was there. -/
theorem process_lookup (hP : IdealKdf P) (hO : OpensSealed P) (h1 : OneKey P)
    (hidle : e.storage.staged = none) {m : InitiationPacket B} {conv ad : List B} {s : LiveSession B}
    (h : (e.processInboundSession P m conv ad d).2.sessions.lookup d.sessionId = some s) :
    (e.sessions.lookup d.sessionId = some s ∧
      ∃ err, (e.processInboundSession P m conv ad d).1 = .error err) ∨
    s.ratchet.Begun P d ∧ ¬ s.ratchet.CanOpen P m.firstMessage.ciphertext := by
  cases hresp : e.respond P m with
  | error err =>
    have heq : e.processInboundSession P m conv ad d = (.error err, e) := by
      simp only [processInboundSession, hresp]
    rw [heq] at h ⊢
    exact .inl ⟨h, err, rfl⟩
  | ok out =>
    obtain ⟨ik, shared, r⟩ := out
    obtain ⟨rfl, hans⟩ := respond_eq_ok hresp
    obtain ⟨km, hsk⟩ := respond_sk hresp
    have hratchet := hans.ratchet
    rw [hsk] at hratchet
    have hsound := sound_initBobRatchet hP hratchet
    have hlook : (e.openSession d.sessionId r m.senderIdentityPublic conv shared.ad).sessions.lookup
        d.sessionId = some (e.inboundSession m conv shared r) := Finmap.lookup_insert _
    rcases applyDecrypt_cases (P := P) (e.openSession d.sessionId r m.senderIdentityPublic conv
      shared.ad) d.sessionId m.firstMessage ad d with
      ⟨err, heq⟩ | ⟨s', pt, r', hs', hrep, hdec, -⟩
    · -- the session was closed again
      have hclosed : e.processInboundSession P m conv ad d = (.error err,
          { e.openSession d.sessionId r m.senderIdentityPublic conv shared.ad with
            sessions := (e.openSession d.sessionId r m.senderIdentityPublic conv
              shared.ad).sessions.erase d.sessionId }) := by
        simp only [processInboundSession, hresp, heq]
      rw [hclosed] at h
      rw [Finmap.lookup_erase] at h
      cases h
    · rw [hlook] at hs'
      cases hs'
      have hprocess : e.processInboundSession P m conv ad d = _ :=
        process_eq_ok hidle hresp hrep hdec
      rw [hprocess] at h
      have hnew : some s = some { e.inboundSession m conv shared r with ratchet := r' } :=
        h.symm.trans (lookup_withRatchet d.sessionId _ r' _)
      cases hnew
      obtain ⟨-, -, hgone, -⟩ := LiveRatchet.decrypt_canOpen hP hO h1 hsound hdec
      exact .inr ⟨.opened hratchet hdec, hgone⟩

/-- **Where a held ratchet comes from**: it was held, it is of a new session, or it was used. -/
inductive Origin (P : Primitives B) (d : Draws B) (e : Engine B) (sid : SessionId B) :
    LiveRatchet B → Prop
  | held {s : LiveSession B} {r : LiveRatchet B} (hs : e.Held sid s) (hr : r = s.ratchet) :
      Origin P d e sid r
  | fresh {r : LiveRatchet B} (hsid : sid = d.sessionId) (hr : r.Begun P d) : Origin P d e sid r
  | sealed {s : LiveSession B} {r : LiveRatchet B} {pt ad header ct : List B}
      (hs : e.sessions.lookup sid = some s)
      (henc : s.ratchet.encrypt P d pt ad = .ok ((header, ct), r)) : Origin P d e sid r
  | opened {s : LiveSession B} {r : LiveRatchet B} {header ct ad pt : List B}
      (hs : e.sessions.lookup sid = some s)
      (hdec : s.ratchet.decrypt P d header ct ad = .ok (pt, r)) : Origin P d e sid r

/-- **Every ratchet that is held after a call has one** that was held before, or begins with the
call; so what is proved of new ratchets and kept by both uses holds of all. -/
theorem call_origin (hP : IdealKdf P) (hO : OpensSealed P) (h1 : OneKey P)
    (hidle : e.storage.staged = none) (hlay : e.Layout) (hc : c.Fits) {t : LiveSession B}
    (ht : (e.call P d c).2.Held sid t) : Origin P d e sid t.ratchet := by
  have hslot := (call_effect (P := P) hidle d c).slot hlay sid
  unfold Held at ht
  -- what storage holds and the call leaves alone was held before
  have hstored : (∃ τ : Enumeration, t.Storable ∧ e.blob sid = some (t.encode τ sid)) →
      Origin P d e sid t.ratchet := fun h ↦ .held (.inr h) rfl
  generalize hmem : (e.call P d c).2.sessions.lookup sid = mem at hslot ht
  generalize (e.call P d c).2.blob sid = blob' at hslot ht
  cases hslot with
  | kept mem h =>
    rcases ht with rfl | ht
    · obtain ⟨s, hs, hcore⟩ := Option.map_eq_some_iff.1 h.symm
      exact .held (.inl hs) (LiveSession.ratchet_eq_of_core_eq hcore).symm
    · exact hstored ht
  | written σ s hmade =>
    rw [ratchet_eq_of_written (hmade.storable hc hlay.live) rfl rfl ht]
    cases hmade with
    | outbound bundle conv pt ad i r r' header ct hc' hi henc =>
      obtain ⟨profile, dhs, km, spk, hratchet⟩ := initiate_ratchet hi
      exact .fresh rfl (.sealed hratchet henc)
    | inbound m conv ad pt shared r r' hc' hans hdec =>
      subst hc'
      rcases process_lookup hP hO h1 hidle hmem with ⟨hs, -⟩ | ⟨hr, -⟩
      · exact .held (.inl hs) rfl
      · exact .fresh rfl hr
    | sealed sid pt ad s r header ct hc' hs henc => exact .sealed hs henc
    | opened sid m ad pt s r hc' hs hdec => exact .opened hs hdec
  | unsent bundle conv pt ad i r err hsid hc' hi henc =>
    rcases ht with ht | ht
    · cases ht
      obtain ⟨profile, dhs, km, spk, hratchet⟩ := initiate_ratchet hi
      exact .fresh hsid (.unsent hratchet)
    · exact hstored ht
  | closed hsid =>
    rcases ht with ht | ht
    · cases ht
    · exact hstored ht
  | erased =>
    rcases ht with ht | ⟨τ, -, ht⟩
    · cases ht
    · cases ht
  | restored mem h =>
    rcases ht with rfl | ht
    · rcases h with ⟨hnone, -⟩ | ⟨σ, s, s', hsome, hcore, hs, hblob⟩
      · cases hnone
      · cases hsome
        exact .held (.inr ⟨σ, hs, hblob⟩) (LiveSession.ratchet_eq_of_core_eq hcore)
    · exact hstored ht

end Engine

/-! ### Over a run -/

/-- The call accepted a message of a session. -/
def Event.Accepts (ev : Event B) (sid : SessionId B) (header ct : List B) : Prop :=
  (∃ m ad pt, ev.call = .decrypt sid m ad ∧ ev.outcome = .ok (.opened pt) ∧ m.header = header ∧
    m.ciphertext = ct) ∨
  ∃ m conv ad pt, ev.call = .processInbound m conv ad ∧ ev.outcome = .ok (.processed sid pt) ∧
    m.firstMessage.header = header ∧ m.firstMessage.ciphertext = ct

/-- The call sealed a message of a session. -/
def Event.Sends (ev : Event B) (sid : SessionId B) (header ct : List B) : Prop :=
  (∃ m, ev.outcome = .ok (.sealed m) ∧ m.sessionHint = sid ∧ m.header = header ∧
    m.ciphertext = ct) ∨
  ∃ packet, ev.outcome = .ok (.established sid packet) ∧ packet.firstMessage.header = header ∧
    packet.firstMessage.ciphertext = ct

/-- The call used a key of the session, for sealing or for opening. Two uses of one key are what
must never happen. -/
def Event.Used (ev : Event B) (sid : SessionId B) (ct : List B) : Prop :=
  ∃ header, ev.Accepts sid header ct ∨ ev.Sends sid header ct

/-- The session id was drawn by the run. -/
def Run.DrewSession (r : Run B) (sid : SessionId B) : Prop := ∃ ev ∈ r.log, ev.draws.sessionId = sid

/-- The conversation fits its 32-bit length, and the session id is a new one. -/
structure FreshSessions (r : Run B) (c : Call B) (d : Draws B) : Prop where
  /-- The conversation fits its 32-bit length. -/
  fits : c.Fits
  /-- No session of the run has the drawn id. -/
  session : ¬ r.DrewSession d.sessionId

theorem freshSessions_nil (e : Engine B) {c : Call B} (hc : c.Fits) (d : Draws B) :
    FreshSessions ⟨e, []⟩ c d where
  fits := hc
  session := by
    rintro ⟨ev, hev, -⟩
    exact List.not_mem_nil hev

theorem Run.DrewSession.extend {r : Run B} {sid : SessionId B} (h : r.DrewSession sid) (d : Draws B)
    (c : Call B) : (r.extend P d c).DrewSession sid := by
  obtain ⟨ev, hev, hsid⟩ := h
  exact ⟨ev, List.mem_append_left _ hev, hsid⟩

theorem Run.drewSession_extend (r : Run B) (d : Draws B) (c : Call B) :
    (r.extend P d c).DrewSession d.sessionId :=
  ⟨_, List.mem_append_right _ (List.mem_singleton_self _), rfl⟩

/-- **The invariant of a run**: no ratchet that memory or storage holds can open what its session has
sealed or accepted. -/
structure Run.Once (P : Primitives B) (r : Run B) : Prop where
  /-- Each session is stored under its own id. -/
  layout : r.engine.Layout
  /-- All ratchets, in memory and in storage, are sound. -/
  sound : ∀ sid s, r.engine.Held sid s → s.ratchet.Sound P
  /-- All sessions were drawn in the run. -/
  drawn : ∀ sid s, r.engine.Held sid s → r.DrewSession sid
  /-- So were the sessions that have sealed or accepted anything, even if they are gone. -/
  used_drawn : ∀ ev ∈ r.log, ∀ sid ct, ev.Used sid ct → r.DrewSession sid
  /-- No ratchet that is held can open what its session has used. -/
  closed : ∀ ev ∈ r.log, ∀ sid ct, ev.Used sid ct →
    ∀ s, r.engine.Held sid s → ¬ s.ratchet.CanOpen P ct
  /-- A message that was sealed or accepted has not been accepted later. -/
  once : r.log.Pairwise fun ev ev' ↦ ∀ sid header ct, ev.Used sid ct → ¬ ev'.Accepts sid header ct

section Ideal

variable (hP : IdealKdf P) (hO : OpensSealed P) (h1 : OneKey P)
include hP hO h1

/-- **What a call accepts** could be opened before, in a session that is held, or the session is new;
and it cannot be opened afterwards. -/
theorem Engine.call_accepts {e : Engine B} {d : Draws B} {c : Call B} {sid : SessionId B}
    {header ct : List B} (hidle : e.storage.staged = none) (hlay : e.Layout) (hc : c.Fits)
    (hsound : ∀ sid s, e.Held sid s → s.ratchet.Sound P)
    (h : Event.Accepts ⟨e, c, d, (e.call P d c).1⟩ sid header ct) :
    ((∃ s, e.Held sid s ∧ s.ratchet.CanOpen P ct) ∨ sid = d.sessionId) ∧
      ∀ t, (e.call P d c).2.Held sid t → ¬ t.ratchet.CanOpen P ct := by
  have heffect := call_effect (P := P) hidle d c
  have hlay' := heffect.layout hc hlay
  rcases h with ⟨m, ad, pt, hcall, hout, rfl, rfl⟩ | ⟨m, conv, ad, pt, hcall, hout, rfl, rfl⟩
  · dsimp only at hcall hout
    subst hcall
    generalize (e.call P d (.decrypt sid m ad)).1 = out at hout heffect
    generalize (e.call P d (.decrypt sid m ad)).2 = e' at heffect hlay' ⊢
    subst hout
    cases heffect with
    | opened sid m ad pt s r hs hreplay hdec =>
      obtain ⟨-, hcan, hgone, -⟩ :=
        LiveRatchet.decrypt_canOpen hP hO h1 (hsound sid s (.inl hs)) hdec
      refine ⟨.inl ⟨s, .inl hs, hcan⟩, fun t ht ↦ ?_⟩
      have hmem : ((e.received sid s r m).commitSession d.order sid
          { s with ratchet := r }).sessions.lookup sid = some { s with ratchet := r } :=
        Finmap.lookup_insert _
      rw [ratchet_eq_of_written (hlay'.live _ _ hmem) hmem blob_commitSession ht]
      exact hgone
  · dsimp only at hcall hout
    subst hcall
    have hlook : ∀ s, (e.call P d (.processInbound m conv ad)).2.sessions.lookup d.sessionId = some s →
        ¬ s.ratchet.CanOpen P m.firstMessage.ciphertext := by
      intro s hs
      rcases process_lookup hP hO h1 hidle hs with ⟨-, err, herr⟩ | ⟨-, hgone⟩
      · have hfail : (e.call P d (.processInbound m conv ad)).1 = .error err := by
          show (e.processInboundSession P m conv ad d).1.map _ = _
          rw [herr]
          rfl
        rw [hfail] at hout
        cases hout
      · exact hgone
    generalize (e.call P d (.processInbound m conv ad)).1 = out at hout heffect
    generalize (e.call P d (.processInbound m conv ad)).2 = e' at heffect hlay' hlook ⊢
    subst hout
    cases heffect with
    | processed m conv ad pt shared r r' hans hreplay hdec =>
      refine ⟨.inr rfl, fun t ht ↦ ?_⟩
      have hmem : ((e.answered m d.sessionId (e.inboundSession m conv shared r) r').commitHandshake
          d.order d.sessionId { e.inboundSession m conv shared r with ratchet := r' }).sessions.lookup
            d.sessionId = some { e.inboundSession m conv shared r with ratchet := r' } :=
        Finmap.lookup_insert _
      rw [ratchet_eq_of_written (hlay'.live _ _ hmem) hmem blob_commitHandshake ht]
      exact hlook _ hmem

omit hO in
/-- **What a call seals** cannot be opened afterwards. -/
theorem Engine.call_sends {e : Engine B} {d : Draws B} {c : Call B} {sid : SessionId B}
    {header ct : List B} (hidle : e.storage.staged = none) (hlay : e.Layout) (hc : c.Fits)
    (hsound : ∀ sid s, e.Held sid s → s.ratchet.Sound P)
    (h : Event.Sends ⟨e, c, d, (e.call P d c).1⟩ sid header ct) :
    ((∃ s, e.Held sid s) ∨ sid = d.sessionId) ∧
      ∀ t, (e.call P d c).2.Held sid t → ¬ t.ratchet.CanOpen P ct := by
  have heffect := call_effect (P := P) hidle d c
  have hlay' := heffect.layout hc hlay
  generalize (e.call P d c).2 = e' at heffect hlay' ⊢
  rcases h with ⟨m, hout, rfl, rfl, rfl⟩ | ⟨packet, hout, rfl, rfl⟩
  · dsimp only at hout
    rw [hout] at heffect
    cases heffect with
    | sealed c sid pt ad s r header ct hc' hs henc =>
      obtain ⟨-, hgone, -⟩ := LiveRatchet.encrypt_canOpen hP h1 (hsound sid s (.inl hs)) henc
      refine ⟨.inl ⟨s, .inl hs⟩, fun t ht ↦ ?_⟩
      have hmem : ((e.withRatchet sid s r).commitSession d.order sid
          { s with ratchet := r }).sessions.lookup sid = some { s with ratchet := r } :=
        Finmap.lookup_insert _
      rw [ratchet_eq_of_written (hlay'.live _ _ hmem) hmem blob_commitSession ht]
      exact hgone
  · dsimp only at hout
    rw [hout] at heffect
    cases heffect with
    | established bundle conv pt ad i r r' header ct hi henc =>
      obtain ⟨-, hgone, -⟩ := LiveRatchet.encrypt_canOpen hP h1 (initiate_sound hP hi) henc
      refine ⟨.inr rfl, fun t ht ↦ ?_⟩
      have hmem : (((e.openSession d.sessionId r bundle.identityKey conv i.shared.ad).withRatchet
          d.sessionId (e.outboundSession bundle conv i r) r').commitSession d.order d.sessionId
            { e.outboundSession bundle conv i r with ratchet := r' }).sessions.lookup d.sessionId =
          some { e.outboundSession bundle conv i r with ratchet := r' } :=
        Finmap.lookup_insert _
      rw [ratchet_eq_of_written (hlay'.live _ _ hmem) hmem blob_commitSession ht]
      exact hgone

/-- **One more call** keeps it so. -/
theorem Run.Once.extend {r : Run B} (h : r.Once P) (hidle : r.engine.storage.staged = none)
    {d : Draws B} {c : Call B} (hc : FreshSessions r c d) : (r.extend P d c).Once P := by
  have horigin : ∀ {sid t}, (r.extend P d c).engine.Held sid t →
      Engine.Origin P d r.engine sid t.ratchet :=
    fun ht ↦ Engine.call_origin hP hO h1 hidle h.layout hc.fits ht
  have hnew : ∀ {sid ct}, Event.Used ⟨r.engine, c, d, (r.engine.call P d c).1⟩ sid ct →
      ((∃ s, r.engine.Held sid s) ∨ sid = d.sessionId) ∧
        ∀ t, (r.engine.call P d c).2.Held sid t → ¬ t.ratchet.CanOpen P ct := by
    rintro sid ct ⟨header, hacc | hsent⟩
    · obtain ⟨hold, hgone⟩ := Engine.call_accepts hP hO h1 hidle h.layout hc.fits h.sound hacc
      exact ⟨hold.imp_left fun ⟨s, hs, _⟩ ↦ ⟨s, hs⟩, hgone⟩
    · exact Engine.call_sends hP h1 hidle h.layout hc.fits h.sound hsent
  -- nothing was used in the session that is new
  have hfresh : ∀ ev ∈ r.log, ∀ ct, ¬ ev.Used d.sessionId ct :=
    fun ev hev ct hused ↦ hc.session (h.used_drawn ev hev _ _ hused)
  refine ⟨(Engine.call_effect hidle d c).layout hc.fits h.layout, ?_, ?_, ?_, ?_, ?_⟩
  · intro sid t ht
    cases horigin ht with
    | held hs hr =>
      rw [hr]
      exact h.sound sid _ hs
    | fresh hsid hr => exact hr.sound hP
    | sealed hs henc => exact (LiveRatchet.encrypt_canOpen hP h1 (h.sound sid _ (.inl hs)) henc).1
    | opened hs hdec =>
      exact (LiveRatchet.decrypt_canOpen hP hO h1 (h.sound sid _ (.inl hs)) hdec).1
  · intro sid t ht
    cases horigin ht with
    | held hs hr => exact (h.drawn sid _ hs).extend d c
    | fresh hsid hr =>
      rw [hsid]
      exact r.drewSession_extend d c
    | sealed hs henc => exact (h.drawn sid _ (.inl hs)).extend d c
    | opened hs hdec => exact (h.drawn sid _ (.inl hs)).extend d c
  · intro ev hev sid ct hused
    rcases List.mem_append.1 hev with hev | hev
    · exact (h.used_drawn ev hev sid ct hused).extend d c
    · cases List.mem_singleton.1 hev
      rcases (hnew hused).1 with ⟨s, hs⟩ | rfl
      · exact (h.drawn sid s hs).extend d c
      · exact r.drewSession_extend d c
  · intro ev hev sid ct hused t ht
    rcases List.mem_append.1 hev with hev | hev
    · have hold := h.closed ev hev sid ct hused
      cases horigin ht with
      | held hs hr =>
        rw [hr]
        exact hold _ hs
      | fresh hsid hr =>
        subst hsid
        exact absurd hused (hfresh ev hev ct)
      | sealed hs henc =>
        exact fun hcan ↦ hold _ (.inl hs)
          ((LiveRatchet.encrypt_canOpen hP h1 (h.sound sid _ (.inl hs)) henc).2.2 ct hcan)
      | opened hs hdec =>
        exact fun hcan ↦ hold _ (.inl hs)
          ((LiveRatchet.decrypt_canOpen hP hO h1 (h.sound sid _ (.inl hs)) hdec).2.2.2 ct hcan)
    · cases List.mem_singleton.1 hev
      exact (hnew hused).2 t ht
  · refine List.pairwise_append.2 ⟨h.once, List.pairwise_singleton _ _, ?_⟩
    intro ev hev ev' hev' sid header ct hused hacc
    cases List.mem_singleton.1 hev'
    rcases (Engine.call_accepts hP hO h1 hidle h.layout hc.fits h.sound hacc).1 with
      ⟨s, hs, hcan⟩ | rfl
    · exact h.closed ev hev sid ct hused s hs hcan
    · exact hfresh ev hev ct hused

/-- **Every run uses a key once**: what a session has sealed or accepted none of its ratchets can
open, neither the one in memory nor the one that a reload would bring back. -/
theorem once {r : Run B} (hr : (device P FreshSessions).Reachable r) : r.Once P := by
  refine System.Reachable.invariant (I := fun r ↦ r.Once P) ?_ ?_ hr
  · intro s hs
    obtain ⟨config, d, rfl⟩ := eq_newDevice_of_start hs
    have hnone : ∀ sid s, ¬ (Engine.newDevice P config d).Held sid s := by
      rintro sid s (hs | ⟨σ, -, hs⟩)
      · cases hs
      · rw [Engine.newDevice, Engine.blob_commitDevice] at hs
        cases hs
    exact ⟨Engine.newDevice_layout P config d, fun sid s hs ↦ absurd hs (hnone sid s),
      fun sid s hs ↦ absurd hs (hnone sid s), fun ev hev ↦ absurd hev List.not_mem_nil,
      fun ev hev ↦ absurd hev List.not_mem_nil, .nil⟩
  · rintro s t hreach hs ⟨c, d, hc, rfl⟩
    exact hs.extend hP hO h1 (device_idle hreach) hc

/-- **Forward secrecy**: from what a device holds of a session at any time, in memory or in storage, no
key can be derived that opens what the session has sent or accepted by then. -/
theorem forward_secrecy {r : Run B} (hr : (device P FreshSessions).Reachable r) {ev : Event B}
    (hev : ev ∈ r.log) {sid : SessionId B} {ct : List B} (hused : ev.Used sid ct) {s : LiveSession B}
    (hs : r.engine.Held sid s) {key : Block B 32} (hkey : s.ratchet.Reveals P key)
    (nonce : Block B 12) (ad pt : List B) : aeadOpen P key nonce ct ad ≠ .ok pt :=
  fun hopen ↦ (once hP hO h1 hr).closed ev hev sid ct hused s hs ⟨key, nonce, ad, pt, hopen, hkey⟩

end Ideal

/-- A device that has answered one packet has accepted its first message and nothing else. -/
theorem Run.accepts_processInbound {e : Engine B} {m : InitiationPacket B} {conv ad pt : List B}
    {d : Draws B} {sid : SessionId B}
    (h : (e.call P d (.processInbound m conv ad)).1 = .ok (.processed sid pt)) (sid' : SessionId B)
    (header ct : List B) :
    (∃ ev ∈ (Run.extend P ⟨e, []⟩ d (.processInbound m conv ad)).log, ev.Accepts sid' header ct) ↔
      sid' = sid ∧ header = m.firstMessage.header ∧ ct = m.firstMessage.ciphertext := by
  constructor
  · rintro ⟨ev, hev, hacc⟩
    cases List.mem_singleton.1 hev
    rcases hacc with ⟨m', ad', pt', hcall, -⟩ | ⟨m', conv', ad', pt', hcall, hout, rfl, rfl⟩
    · cases hcall
    · cases hcall
      have hsame := Except.ok.inj (h.symm.trans hout)
      exact ⟨(Output.processed.inj hsame).1.symm, rfl, rfl⟩
  · rintro ⟨rfl, rfl, rfl⟩
    exact ⟨_, List.mem_singleton_self _, .inr ⟨m, conv, ad, pt, rfl, h, rfl, rfl⟩⟩

/-- Any ratchet reveals keys, of chains that are still to come. -/
theorem LiveRatchet.exists_reveals (P : Primitives B) (r : LiveRatchet B) : ∃ key, r.Reveals P key := by
  cases r with
  | classical r => exact ⟨_, _, .root .start (Block.zero 32) 0, rfl⟩
  | headerEncrypt r => exact ⟨_, .root .start (Block.zero 32) 0⟩
  | hybrid r => exact ⟨_, _, Block.zero 32, .root .start (Block.zero 32) 0, rfl⟩

namespace Symbolic

/-- Symbolic ciphertexts open under the key they were sealed with and under no other. -/
theorem opensSealed : OpensSealed symbolic := by
  intro key nonce pt ad ct h
  simp only [symbolic] at h ⊢
  split at h
  · rename_i heq
    cases h
    rw [← heq]
  · cases h

/-- The responder of the example accepts the packet. -/
theorem processed_answered : ((engine 2 .classicalV1).call symbolic (draws 3)
    (.processInbound (packet .classicalV1) [] [])).1 = .ok (.processed (draws 3).sessionId []) := by
  decide +kernel

/-- What device 2 has accepted. -/
theorem accepts_answered (sid : SessionId Sym) (header ct : List Sym) :
    (∃ ev ∈ (answered .classicalV1).log, ev.Accepts sid header ct) ↔
      sid = (draws 3).sessionId ∧ header = (packet .classicalV1).firstMessage.header ∧
        ct = (packet .classicalV1).firstMessage.ciphertext :=
  Run.accepts_processInbound processed_answered sid header ct

end Symbolic

open Symbolic in
/-- Device 2 has accepted the first message of device 1, and holds keys, none of which opens it. -/
theorem forward_secrecy_answered :
    ∃ s, (answered .classicalV1).engine.Held (Symbolic.draws 3).sessionId s ∧
      ∃ key, s.ratchet.Reveals symbolic key ∧ ∀ nonce ad pt, aeadOpen symbolic key nonce
        (packet .classicalV1).firstMessage.ciphertext ad ≠ .ok pt := by
  have hreach : (device symbolic FreshSessions).Reachable (answered .classicalV1) := by
    refine reachable_extend (reachable_newDevice symbolic FreshSessions ⟨[], .classicalV1⟩
      (deviceDraws 2)) (freshSessions_nil _ ?_ _)
    show ([] : List Sym).length < 2 ^ 32
    decide
  have hheld : ((answered .classicalV1).engine.sessions.lookup (Symbolic.draws 3).sessionId).isSome := by
    decide +kernel
  obtain ⟨s, hs⟩ := Option.isSome_iff_exists.1 hheld
  obtain ⟨key, hkey⟩ := s.ratchet.exists_reveals symbolic
  obtain ⟨ev, hev, hacc⟩ := (accepts_answered _ _ _).2 ⟨rfl, rfl, rfl⟩
  exact ⟨s, .inl hs, key, hkey,
    forward_secrecy idealKdf opensSealed oneKey hreach hev ⟨_, .inl hacc⟩ (.inl hs) hkey⟩

end VoiceChatCrypto
