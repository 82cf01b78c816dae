import VoiceChatCrypto.Engine.Handshake
import VoiceChatCrypto.Engine.Sizes

/-!
# Profiles

The profile of a session is written nowhere: not in its messages and not in their associated data.
Two things keep the profiles apart.

* **Lengths.** A header has 40 bytes in the classical profile, 68 when it travels sealed, and 60 or 94
  in the hybrid one, and the first two are the only lengths their own ratchets read.
* **Keys.** The hybrid ratchet reads headers of many lengths, 68 among them, and a sealed header is 68
  bytes of anything. There the message key decides: it is derived from a chain key on one side and
  from a hybrid key on the other, under different labels.

The hybrid lengths are a fact about whole sessions: chunks are only as long as the wire says when the
encoder they come from holds whole chunks, which every encoder in a session does.
-/

open Alphabet

namespace VoiceChatCrypto

variable {B : Type} [Alphabet B] {P : Primitives B}

/-! ### Chunks on the wire -/

namespace BraidScka

variable {s s' : BraidScka B}

/-- What an agent sends comes in whole chunks. -/
def Whole (s : BraidScka B) : Prop := ∀ enc, s.agent.encoder = some enc → enc.Whole

theorem Whole.encaps1IfNeeded (hs : s.Whole) (m : Block B 32) : (encaps1IfNeeded P m s).Whole := by
  unfold BraidScka.encaps1IfNeeded
  split
  · intro enc henc
    cases henc
    exact Encoder.new_whole _
  · exact hs

/-- **Sending** keeps chunks whole, and a message carries one or nothing. -/
theorem Whole.send (hs : s.Whole) (seed : Block B 64) (m : Block B 32) :
    (s.send P seed m).2.Whole ∧
      ((s.send P seed m).1.1.typ = .none ∧ (s.send P seed m).1.1.data.length = 0 ∨
        (s.send P seed m).1.1.data.length = chunkWire) := by
  have ht : (BraidScka.encaps1IfNeeded P m s).Whole := hs.encaps1IfNeeded m
  -- an encoder hands out a chunk and keeps its message
  have hnext : ∀ {t : BraidScka B} {e : Encoder B}, e.Whole →
      t.agent.encoder = some e.nextChunk.2 → t.Whole := by
    intro t e he heq enc henc
    rw [heq] at henc
    cases henc
    exact he
  unfold BraidScka.send
  dsimp only
  split
  · exact ⟨hnext (Encoder.new_whole _) rfl, .inr (Encoder.length_nextChunk (Encoder.new_whole _))⟩
  all_goals rename_i hagent
  · have he := ht _ (by rw [hagent]; rfl)
    exact ⟨hnext he rfl, .inr (Encoder.length_nextChunk he)⟩
  · have he := ht _ (by rw [hagent]; rfl)
    exact ⟨hnext he rfl, .inr (Encoder.length_nextChunk he)⟩
  · have he := ht _ (by rw [hagent]; rfl)
    exact ⟨hnext he rfl, .inr (Encoder.length_nextChunk he)⟩
  · exact ⟨ht, .inl ⟨rfl, rfl⟩⟩
  · exact ⟨ht, .inl ⟨rfl, rfl⟩⟩
  · exact ⟨ht, .inl ⟨rfl, rfl⟩⟩
  · exact ⟨ht, .inl ⟨rfl, rfl⟩⟩
  · have he := ht _ (by rw [hagent]; rfl)
    exact ⟨hnext he rfl, .inr (Encoder.length_nextChunk he)⟩
  · have he := ht _ (by rw [hagent]; rfl)
    exact ⟨hnext he rfl, .inr (Encoder.length_nextChunk he)⟩
  · have he := ht _ (by rw [hagent]; rfl)
    exact ⟨hnext he rfl, .inr (Encoder.length_nextChunk he)⟩

/-- Encoders come from three places only. -/
def EncoderFrom (s s' : BraidScka B) : Prop :=
  s'.agent.encoder = none ∨ s'.agent.encoder = s.agent.encoder ∨
    ∃ l, s'.agent.encoder = some (Encoder.new l)

/-- A step that takes its encoder over, or makes a new one, keeps it whole. -/
theorem Whole.of_encoderFrom (hs : s.Whole) (h : EncoderFrom s s') : s'.Whole := by
  intro enc henc
  rcases h with hnone | hsame | ⟨l, hnew⟩
  · rw [hnone] at henc
    cases henc
  · exact hs enc (hsame ▸ henc)
  · rw [hnew] at henc
    cases henc
    exact Encoder.new_whole l

/-- **Receiving** keeps the encoder, drops it, or makes a new one. -/
theorem receive_encoder {msg : BraidMessage B} {r : ℕ × Option (SckaOutput B)}
    (h : receive P msg s = .ok (r, s')) : EncoderFrom s s' := by
  obtain ⟨n, out⟩ := r
  cases receives_of_receive h with
  | stay => exact .inr (.inl rfl)
  | firstCt1 => exact .inr (.inr ⟨_, rfl⟩)
  | ct1 hagent => exact .inr (.inl (by rw [hagent]; rfl))
  | ct1Done hagent => exact .inr (.inl (by rw [hagent]; rfl))
  | firstCt2 => exact .inl rfl
  | ct2 => exact .inl rfl
  | ct2Done _ _ _ _ hdecaps =>
    obtain ⟨-, -, hagent⟩ := decapsulate_eq_ok hdecaps
    exact .inl (by rw [hagent]; rfl)
  | hdr => exact .inl rfl
  | hdrDone _ _ _ _ hacc =>
    obtain ⟨ekSeed, hek, rfl⟩ := acceptHeader_eq_ok hacc
    exact .inl rfl
  | ek hagent => exact .inr (.inl (by rw [hagent]; rfl))
  | ekDone hagent => exact .inr (.inl (by rw [hagent]; rfl))
  | ekCt1Ack => exact .inl rfl
  | acknowledged => exact .inl rfl
  | sampled _ hct2 =>
    obtain ⟨ct2, mac, rfl⟩ := sampleCt2_eq_ok hct2
    exact .inr (.inr ⟨_, rfl⟩)
  | complete => exact .inl rfl

end BraidScka

/-- Receiving the Braid part of a header keeps every encoder whole. -/
theorem TripleRatchetState.receiveScka_whole {s : TripleRatchetState B} (hs : s.braid.Whole)
    {scka : Option (BraidMessage B)} {pqEpoch : UInt32} {braid : BraidScka B} {spqr : SpqrState B}
    {pending : Option (Block B 32)} (h : receiveScka P scka pqEpoch s = .ok (braid, spqr, pending)) :
    braid.Whole := by
  unfold receiveScka at h
  split at h
  · cases h
    exact hs
  obtain ⟨⟨⟨epoch, out⟩, b⟩, hrecv, h⟩ := Except.bind_eq_ok.1 h
  have hb : b.Whole := hs.of_encoderFrom (BraidScka.receive_encoder hrecv)
  dsimp only at h
  split at h
  · cases h
    exact hb
  split at h
  · obtain ⟨⟨e, sp⟩, -, h⟩ := Except.bind_eq_ok.1 h
    cases h
    exact hb
  · cases h
    exact hb

/-- What a hybrid message has been opened with, and what is left of the Braid state. -/
theorem TripleRatchetState.decrypt_eq_ok {fresh : Block B 32} {header : TripleHeader B}
    {ct ad pt : List B} {s s' : TripleRatchetState B}
    (h : s.decrypt P fresh header ct ad = (.ok pt, s')) :
    (s.braid.Whole → s'.braid.Whole) ∧ ∃ ecMk pqMk nonce ad',
      aeadOpen P (aeadFromHybrid P (kdfHybrid P ecMk pqMk)).1 nonce ct ad' = .ok pt := by
  unfold decrypt at h
  cases htry : tryDecrypt P fresh header ct ad s with
  | error e =>
    rw [htry] at h
    cases h
  | ok a =>
    obtain ⟨pt', trial⟩ := a
    rw [htry] at h
    cases h
    obtain ⟨⟨braid, spqr, pending⟩, hscka, htry⟩ := Except.bind_eq_ok.1 htry
    obtain ⟨⟨ecMk, classical⟩, -, htry⟩ := Except.bind_eq_ok.1 htry
    obtain ⟨⟨pqMk, spqr'⟩, -, htry⟩ := Except.bind_eq_ok.1 htry
    obtain ⟨pt', hopen, htry⟩ := Except.bind_eq_ok.1 htry
    dsimp only at htry
    split at htry
    · obtain ⟨⟨epoch, sp⟩, -, htry⟩ := Except.bind_eq_ok.1 htry
      cases htry
      exact ⟨fun hs ↦ receiveScka_whole hs hscka, ecMk, pqMk, _, _, hopen⟩
    · cases htry
      exact ⟨fun hs ↦ receiveScka_whole hs hscka, ecMk, pqMk, _, _, hopen⟩

/-! ### Headers -/

/-- The lengths a header has, by profile. -/
def CryptoProfile.headerLengths : CryptoProfile → List ℕ
  | .classicalV1 => [40]
  | .classicalHeV1 => [68]
  | .hybridPqV1 => [60, 94]

theorem Header.length_of_decode {data : List B} {h : Header B} (hd : decode data = .ok h) :
    data.length = 40 := by
  unfold decode at hd
  dsimp only at hd
  split at hd
  · cases hd
  · omega

theorem TripleHeader.length_of_decode {data : List B} {h : TripleHeader B}
    (hd : decode data = .ok h) : 48 ≤ data.length := by
  unfold decode at hd
  dsimp only at hd
  split at hd
  · cases hd
  · omega

namespace HeaderEncryptState

theorem length_of_hdecrypt (hO : OpenLength P) {hk : Block B 32} {encHeader : List B}
    {h : Header B} (hd : hdecrypt P hk encHeader = .ok h) : encHeader.length = 68 := by
  obtain ⟨⟨nonce, ct⟩, htake, hd⟩ := Except.bind_eq_ok.1 hd
  obtain ⟨plain, hopen, hd⟩ := Except.bind_eq_ok.1 hd
  have hplain := Header.length_of_decode hd
  have hct := hO.length_open hopen
  rw [Cursor.takeBlock_eq_ok htake, List.length_append, Block.length_val]
  omega

theorem length_of_tryHeader (hO : OpenLength P) {hk : Option (Block B 32)} {encHeader : List B}
    {h : Header B} (hd : tryHeader P hk encHeader = some h) : encHeader.length = 68 := by
  obtain ⟨k, -, hk⟩ := Option.bind_eq_some_iff.1 hd
  cases hdec : hdecrypt P k encHeader with
  | error e => rw [hdec] at hk; cases hk
  | ok header => exact length_of_hdecrypt hO hdec

/-- Whichever key opens it, an accepted header has one length. -/
theorem length_of_receiveKey (hO : OpenLength P) {σ : Enumeration} {fresh msgKey : Block B 32}
    {encHeader : List B} {s s' : HeaderEncryptState B}
    (h : receiveKey P σ fresh encHeader s = .ok (msgKey, s')) : encHeader.length = 68 := by
  unfold receiveKey at h
  split at h
  · rename_i r hskipped
    cases h
    obtain ⟨hk, -, header, hdec, -, -⟩ := trySkippedLoop_eq_some hskipped
    exact length_of_hdecrypt hO hdec
  split at h
  · exact length_of_tryHeader hO ‹_›
  split at h
  · exact length_of_tryHeader hO ‹_›
  · cases h

end HeaderEncryptState

/-! ### Ratchets -/

/-- No key of a header-encrypting chain is a hybrid message key: the labels differ one step up. -/
theorem kdfCkHe_snd_ne (hK : IdealKdf P) (ck ecMk pqMk : Block B 32) :
    (kdfCkHe P ck).2 ≠ (aeadFromHybrid P (kdfHybrid P ecMk pqMk)).1 := by
  intro heq
  obtain ⟨-, hikm, -, -⟩ := hK.hkdf_inj (Block.length_val _) (Block.length_val _) heq
  obtain ⟨-, -, hinfo, -⟩ := hK.hkdf_inj (Block.length_val _) (Block.length_val _)
    (Subtype.ext hikm)
  exact ascii_ne (by decide) hinfo

namespace LiveRatchet

/-- The profile a ratchet belongs to. -/
def profile : LiveRatchet B → CryptoProfile
  | classical _ => .classicalV1
  | headerEncrypt _ => .classicalHeV1
  | hybrid _ => .hybridPqV1

/-- What a ratchet sends comes in whole chunks. -/
def Whole : LiveRatchet B → Prop
  | hybrid r => r.braid.Whole
  | _ => True

variable {r r' : LiveRatchet B} {d : Draws B} {header ct pt ad : List B}

/-- **Sealing** stays in the profile, and its header has one of the profile's lengths. -/
theorem encrypt_profile (hA : IdealAead P) (hr : r.Whole)
    (h : r.encrypt P d pt ad = .ok ((header, ct), r')) :
    r'.profile = r.profile ∧ r'.Whole ∧ header.length ∈ r.profile.headerLengths := by
  cases r with
  | classical r =>
    obtain ⟨⟨⟨hd, c⟩, t⟩, -, hret⟩ := Except.bind_eq_ok.1 h
    cases hret
    exact ⟨rfl, trivial, by simp [profile, CryptoProfile.headerLengths]⟩
  | headerEncrypt r =>
    obtain ⟨⟨⟨hd, c⟩, t⟩, henc, hret⟩ := Except.bind_eq_ok.1 h
    cases hret
    obtain ⟨cks, dhs, hks, ns, -, -, -, -, hheader, -, -⟩ :=
      HeaderEncryptState.encrypt_eq_ok (liftError_eq_ok.1 henc)
    obtain ⟨c, hc, hret⟩ := Except.bind_eq_ok.1 hheader
    cases hret
    have hlen := hA.length_seal hc
    rw [Header.length_encode] at hlen
    exact ⟨rfl, trivial, by simp [profile, CryptoProfile.headerLengths, hlen]⟩
  | hybrid r =>
    obtain ⟨⟨⟨hd, c⟩, t⟩, henc, hret⟩ := Except.bind_eq_ok.1 h
    cases hret
    obtain ⟨ecHeader, ecMk, pqEpoch, pqN, pqMk, -, -, hbraid, rfl, -⟩ :=
      TripleRatchetState.encrypt_eq_ok (liftError_eq_ok.1 henc)
    obtain ⟨hwhole, hdata⟩ := BraidScka.Whole.send (P := P) hr d.braidSeed d.braidMessage
    refine ⟨rfl, ?_, ?_⟩
    · show t.braid.Whole
      rw [hbraid]
      exact hwhole
    · rw [TripleHeader.length_encode rfl]
      rcases hdata with ⟨-, hdata⟩ | hdata
      · simp [profile, CryptoProfile.headerLengths, hdata]
      · simp [profile, CryptoProfile.headerLengths, hdata, chunkWire]

/-- **Opening** stays in the profile. The plain and the header-encrypting ratchet read headers of one
length only. -/
theorem decrypt_profile (hO : OpenLength P) (h : r.decrypt P d header ct ad = .ok (pt, r')) :
    r'.profile = r.profile ∧ (r.Whole → r'.Whole) ∧
      (r.profile = .classicalV1 → header.length = 40) ∧
      (r.profile = .classicalHeV1 → header.length = 68) ∧
      (r.profile = .hybridPqV1 → 48 ≤ header.length) := by
  cases r with
  | classical r =>
    obtain ⟨hd, hdec, h⟩ := Except.bind_eq_ok.1 h
    have hlen := Header.length_of_decode (liftError_eq_ok.1 hdec)
    rcases DoubleRatchetState.decrypt_cases P d.ratchet hd ct ad r with
      ⟨mk, trial, pt', -, -, heq⟩ | ⟨e, heq, -⟩
    · rw [heq] at h
      cases h
      exact ⟨rfl, fun _ ↦ trivial, fun _ ↦ hlen, nofun, nofun⟩
    · rw [heq] at h
      cases h
  | headerEncrypt r =>
    unfold decrypt at h
    rcases HeaderEncryptState.decrypt_cases P d.order d.ratchet header ct ad r with
      ⟨mk, trial, pt', hkey, -, heq⟩ | ⟨e, heq⟩
    · simp only [heq] at h
      cases h
      exact ⟨rfl, fun _ ↦ trivial, nofun, fun _ ↦ HeaderEncryptState.length_of_receiveKey hO hkey,
        nofun⟩
    · simp only [heq] at h
      cases h
  | hybrid r =>
    obtain ⟨hd, hdec, h⟩ := Except.bind_eq_ok.1 h
    have hlen := TripleHeader.length_of_decode (liftError_eq_ok.1 hdec)
    cases hopen : r.decrypt P d.ratchet hd ct ad with
    | mk res t =>
      rw [hopen] at h
      cases res with
      | error e => cases h
      | ok pt' =>
        cases h
        exact ⟨rfl, (TripleRatchetState.decrypt_eq_ok hopen).1, nofun, nofun, fun _ ↦ hlen⟩

/-- A sealed header may read as a hybrid one; its message does not open. -/
theorem headerEncrypt_ne_hybrid (hK : IdealKdf P) (hA : OneKey P) {r : HeaderEncryptState B}
    {t : TripleRatchetState B} {d' : Draws B} {pt' ad' : List B} {r₁ r₂ : LiveRatchet B}
    (h : (headerEncrypt r).encrypt P d pt ad = .ok ((header, ct), r₁)) :
    (hybrid t).decrypt P d' header ct ad' ≠ .ok (pt', r₂) := by
  intro hdec
  obtain ⟨⟨⟨hd, c⟩, t'⟩, henc, hret⟩ := Except.bind_eq_ok.1 h
  cases hret
  obtain ⟨cks, dhs, hks, ns, -, -, -, -, -, hct, -⟩ :=
    HeaderEncryptState.encrypt_eq_ok (liftError_eq_ok.1 henc)
  obtain ⟨hd, -, hdec⟩ := Except.bind_eq_ok.1 hdec
  cases hopen : t.decrypt P d'.ratchet hd ct ad' with
  | mk res t' =>
    rw [hopen] at hdec
    cases res with
    | error e => cases hdec
    | ok pt'' =>
      obtain ⟨-, ecMk, pqMk, nonce, ad'', hopen⟩ := TripleRatchetState.decrypt_eq_ok hopen
      exact kdfCkHe_snd_ne hK cks ecMk pqMk (hA.key_eq hct hopen)

/-- **Only a ratchet of the same profile opens what a ratchet seals**: headers of different profiles
have different lengths, or their keys are derived under different labels. -/
theorem profile_eq_of_opens (hK : IdealKdf P) (hA : IdealAead P) (hO : OpenLength P)
    (h1 : OneKey P) {r₁ r₂ r₁' r₂' : LiveRatchet B} {d₁ d₂ : Draws B} {pt' ad' : List B}
    (hr : r₁.Whole) (henc : r₁.encrypt P d₁ pt ad = .ok ((header, ct), r₁'))
    (hdec : r₂.decrypt P d₂ header ct ad' = .ok (pt', r₂')) : r₁.profile = r₂.profile := by
  obtain ⟨-, -, hlen⟩ := encrypt_profile hA hr henc
  obtain ⟨-, -, hclassical, hhe, hhybrid⟩ := decrypt_profile hO hdec
  cases r₁ with
  | classical r₁ =>
    have hlen : header.length = 40 := by simpa [profile, CryptoProfile.headerLengths] using hlen
    cases r₂ with
    | classical r₂ => rfl
    | headerEncrypt r₂ =>
      have := hhe rfl
      omega
    | hybrid r₂ =>
      have := hhybrid rfl
      omega
  | headerEncrypt r₁ =>
    have hlen : header.length = 68 := by simpa [profile, CryptoProfile.headerLengths] using hlen
    cases r₂ with
    | classical r₂ =>
      have := hclassical rfl
      omega
    | headerEncrypt r₂ => rfl
    | hybrid r₂ => exact absurd hdec (headerEncrypt_ne_hybrid hK h1 henc)
  | hybrid r₁ =>
    have hlen : header.length = 60 ∨ header.length = 94 := by
      simpa [profile, CryptoProfile.headerLengths] using hlen
    cases r₂ with
    | classical r₂ =>
      have := hclassical rfl
      omega
    | headerEncrypt r₂ =>
      have := hhe rfl
      omega
    | hybrid r₂ => rfl

/-- **The ratchets of a session**: set up from a shared secret in a profile, by either side, and then
used and persisted any number of times. -/
inductive Grown (P : Primitives B) (p : CryptoProfile) (sk : Block B 32) : LiveRatchet B → Prop
  | alice {dhs bobSpk : Block B 32} {r : LiveRatchet B} (hspk : bobSpk ≠ Block.zero 32)
      (h : initAliceRatchet P p dhs sk bobSpk = .ok r) : Grown P p sk r
  | bob {spk : Block B 32} {r : LiveRatchet B} (h : initBobRatchet P p sk spk = .ok r) :
      Grown P p sk r
  | sealed {r r' : LiveRatchet B} {d : Draws B} {pt ad : List B} {out : List B × List B}
      (hr : Grown P p sk r) (h : r.encrypt P d pt ad = .ok (out, r')) : Grown P p sk r'
  | opened {r r' : LiveRatchet B} {d : Draws B} {header ct ad pt : List B} (hr : Grown P p sk r)
      (h : r.decrypt P d header ct ad = .ok (pt, r')) : Grown P p sk r'
  | restored {r r' : LiveRatchet B} {σ : Enumeration} (hr : Grown P p sk r)
      (h : restore (r.persistBlob σ) = .ok r') : Grown P p sk r'

/-- A session keeps its profile, and sends whole chunks. -/
theorem Grown.spec (hA : IdealAead P) (hO : OpenLength P) {p : CryptoProfile} {sk : Block B 32}
    (h : Grown P p sk r) : r.profile = p ∧ r.Whole ∧ r.Storable := by
  induction h with
  | alice hspk h =>
    have hstorable := (initAliceRatchet_eq_ok hspk h).1
    cases p with
    | classicalV1 =>
      cases h
      exact ⟨rfl, trivial, hstorable⟩
    | classicalHeV1 =>
      cases h
      exact ⟨rfl, trivial, hstorable⟩
    | hybridPqV1 =>
      obtain ⟨t, hinit, hret⟩ := Except.bind_eq_ok.1 h
      cases hret
      obtain ⟨⟨epoch, spqr⟩, -, hret⟩ := Except.bind_eq_ok.1 (liftError_eq_ok.1 hinit)
      cases hret
      exact ⟨rfl, nofun, hstorable⟩
  | bob h =>
    have hstorable := (initBobRatchet_eq_ok h).1
    cases p with
    | classicalV1 =>
      cases h
      exact ⟨rfl, trivial, hstorable⟩
    | classicalHeV1 =>
      cases h
      exact ⟨rfl, trivial, hstorable⟩
    | hybridPqV1 =>
      obtain ⟨t, hinit, hret⟩ := Except.bind_eq_ok.1 h
      cases hret
      obtain ⟨⟨epoch, spqr⟩, -, hret⟩ := Except.bind_eq_ok.1 (liftError_eq_ok.1 hinit)
      cases hret
      exact ⟨rfl, nofun, hstorable⟩
  | sealed hr h ih =>
    obtain ⟨hp, hw, hs⟩ := ih
    obtain ⟨hp', hw', -⟩ := encrypt_profile hA hw h
    exact ⟨hp'.trans hp, hw', (encrypt_eq_ok h).1 hs⟩
  | opened hr h ih =>
    obtain ⟨hp, hw, hs⟩ := ih
    obtain ⟨hp', hw', -⟩ := decrypt_profile hO h
    exact ⟨hp'.trans hp, hw' hw, (decrypt_eq_ok hs h).1⟩
  | restored hr h ih =>
    rw [restore_persistBlob ih.2.2] at h
    cases h
    exact ih

end LiveRatchet

/-! ### Engines -/

namespace Engine

variable {e : Engine B} {d : Draws B} {sid : SessionId B} {pt ad : List B}

/-- What has happened when an engine seals a message. -/
theorem encrypt_eq_ok {m : SealedMessage B} (h : (e.encrypt P sid pt ad d).1 = .ok m) :
    ∃ s r, e.sessions.lookup sid = some s ∧
      s.ratchet.encrypt P d pt (s.boundAd ad) = .ok ((m.header, m.ciphertext), r) := by
  unfold encrypt at h
  cases hs : e.sessions.lookup sid with
  | none =>
    rw [hs] at h
    cases h
  | some s =>
    rw [hs] at h
    dsimp only at h
    split at h
    · cases h
    · rename_i header ct r henc
      split at h
      · cases h
      · cases h
        exact ⟨s, r, rfl, henc⟩

/-- What has happened when an engine opens a message. -/
theorem decrypt_eq_ok {m : SealedMessage B} (h : (e.decrypt P sid m ad d).1 = .ok pt) :
    ∃ s r, e.sessions.lookup sid = some s ∧
      s.ratchet.decrypt P d m.header m.ciphertext (s.boundAd ad) = .ok (pt, r) := by
  unfold decrypt at h
  rcases applyDecrypt_cases (P := P) e sid m ad d with ⟨err, heq⟩ | ⟨s, pt', r, hs, -, hdec, heq⟩
  · rw [heq] at h
    cases h
  · rw [heq] at h
    dsimp only at h
    split at h
    · cases h
    · cases h
      exact ⟨s, r, hs, hdec⟩

/-- What has happened when an engine starts a session. -/
theorem establish_eq_ok {bundle : PublicPrekeyBundle B} {conv : List B} {packet : InitiationPacket B}
    (h : (e.establishOutboundSession P bundle conv pt ad d).1 = .ok (sid, packet)) :
    ∃ i r r' ad', e.initiate P bundle d = .ok (i, r) ∧ r.encrypt P d pt ad' =
      .ok ((packet.firstMessage.header, packet.firstMessage.ciphertext), r') := by
  unfold establishOutboundSession at h
  split at h
  · cases h
  · rename_i i r hi
    dsimp only at h
    split at h
    · cases h
    · rename_i m e' henc
      cases h
      obtain ⟨s, r', hs, henc⟩ := encrypt_eq_ok (congrArg Prod.fst henc)
      rw [openSession, Finmap.lookup_insert] at hs
      cases hs
      exact ⟨i, r, r', _, hi, henc⟩

/-- What has happened when an engine answers a packet. -/
theorem process_decrypts {packet : InitiationPacket B} {conv : List B}
    (h : (e.processInboundSession P packet conv ad d).1 = .ok (sid, pt)) :
    ∃ shared r r' ad', Answers P packet e shared r ∧
      r.decrypt P d packet.firstMessage.header packet.firstMessage.ciphertext ad' = .ok (pt, r') := by
  unfold processInboundSession at h
  split at h
  · cases h
  · rename_i ik shared r hresp
    obtain ⟨rfl, hans⟩ := respond_eq_ok hresp
    dsimp only at h
    rcases applyDecrypt_cases (P := P) (e.openSession d.sessionId r packet.senderIdentityPublic conv
      shared.ad) d.sessionId packet.firstMessage ad d with ⟨err, heq⟩ | ⟨s, pt', r', hs, -, hdec, heq⟩
    · rw [heq] at h
      cases h
    · rw [heq] at h
      dsimp only at h
      rw [openSession, Finmap.lookup_insert] at hs
      cases hs
      split at h
      · cases h
      split at h
      · cases h
      · cases h
        exact ⟨shared, r, r', _, hans, hdec⟩

end Engine

/-! ### The sessions of a device -/

namespace Engine

variable {e e' : Engine B} {d : Draws B} {c : Call B} {sid : SessionId B}

/-- No call changes the profile. -/
theorem Effect.profile {out : Except CryptoError (Output B)} (h : Effect P d e c out e') :
    e'.profile = e.profile := by
  cases h <;> rfl

/-- A session on a ratchet of the engine's profile: one that a handshake of this profile has begun,
whatever it has done since. -/
def Bred (P : Primitives B) (e : Engine B) (s : LiveSession B) : Prop :=
  ∃ sk, s.ratchet.Grown P e.profile sk

/-- The sessions that a call makes are of the engine's profile. -/
theorem Made.bred {s : LiveSession B} (h : Made P d e c sid s)
    (hlive : ∀ sid s, e.sessions.lookup sid = some s → e.Bred P s) : e.Bred P s := by
  cases h with
  | outbound bundle conv pt ad i r r' header ct hc hi henc =>
    obtain ⟨-, hspk, -, hinit⟩ := initiate_eq_ok hi
    exact ⟨i.shared.sk, .sealed (.alice hspk hinit) henc⟩
  | inbound m conv ad pt shared r r' hc hans hdec =>
    exact ⟨shared.sk, .opened (.bob hans.ratchet) hdec⟩
  | sealed sid pt ad s r header ct hc hs henc =>
    obtain ⟨sk, hg⟩ := hlive sid s hs
    exact ⟨sk, .sealed hg henc⟩
  | opened sid m ad pt s r hc hs hdec =>
    obtain ⟨sk, hg⟩ := hlive sid s hs
    exact ⟨sk, .opened hg hdec⟩

/-- **The sessions of an engine**, in memory and in storage, are of its profile. -/
structure Pure (P : Primitives B) (e : Engine B) : Prop where
  /-- Each session is stored under its own id, and nothing else looks like a session. -/
  layout : e.Layout
  /-- Live sessions have a ratchet of the engine's profile. -/
  live : ∀ sid s, e.sessions.lookup sid = some s → e.Bred P s
  /-- So have the sessions that the stored blobs were written from. -/
  stored : ∀ sid v, e.blob sid = some v → ∃ (σ : Enumeration) (s : LiveSession B),
    v = s.encode σ sid ∧ s.Storable ∧ e.Bred P s

/-- What a call does under one session id keeps the profile. -/
theorem Pure.slot (h : e.Pure P) {mem : Option (LiveSession B)} {blob' : Option (List B)}
    (hc : c.Fits) (hstep : SlotStep P d e c sid mem blob') :
    (∀ s, mem = some s → e.Bred P s) ∧ ∀ v, blob' = some v → ∃ (σ : Enumeration)
      (s : LiveSession B), v = s.encode σ sid ∧ s.Storable ∧ e.Bred P s := by
  cases hstep with
  | kept mem hmem =>
    refine ⟨fun s hs ↦ ?_, h.stored sid⟩
    rw [hs, Option.map_some] at hmem
    obtain ⟨s₀, hs₀, hcore⟩ := Option.map_eq_some_iff.1 hmem.symm
    unfold Bred
    rw [LiveSession.ratchet_eq_of_core_eq hcore.symm]
    exact h.live sid s₀ hs₀
  | written σ s hmade =>
    have hbred := hmade.bred h.live
    refine ⟨fun s' hs' ↦ ?_, fun v hv ↦ ?_⟩
    · cases hs'
      exact hbred
    · cases hv
      exact ⟨σ, s, rfl, hmade.storable hc h.layout.live, hbred⟩
  | unsent bundle conv pt ad i r err hsid hc' hi henc =>
    refine ⟨fun s hs ↦ ?_, h.stored sid⟩
    cases hs
    obtain ⟨-, hspk, -, hinit⟩ := initiate_eq_ok hi
    exact ⟨i.shared.sk, .alice hspk hinit⟩
  | closed hsid => exact ⟨by simp, h.stored sid⟩
  | erased => exact ⟨by simp, by simp⟩
  | restored mem hmem =>
    refine ⟨fun s hs ↦ ?_, h.stored sid⟩
    rcases hmem with ⟨hnone, -⟩ | ⟨σ, s₀, s', hsome, hcore, hs₀, hblob⟩
    · rw [hs] at hnone
      cases hnone
    · rw [hs] at hsome
      cases hsome
      -- the blob is that of a session of the profile, and determines its ratchet
      obtain ⟨τ, t, heq, ht, hbred⟩ := h.stored sid _ hblob
      have hcore' := LiveSession.core_eq_of_encode_eq hs₀ ht heq
      unfold Bred
      rw [LiveSession.ratchet_eq_of_core_eq (hcore.trans hcore')]
      exact hbred

/-- **Each call keeps the sessions of the engine's profile.** -/
theorem Effect.pure {out : Except CryptoError (Output B)} (h : Effect P d e c out e') (hc : c.Fits)
    (he : e.Pure P) : e'.Pure P where
  layout := h.layout hc he.layout
  live sid s hs := by
    unfold Bred
    rw [h.profile]
    exact (he.slot hc (h.slot he.layout sid)).1 s hs
  stored sid v hv := by
    unfold Bred
    rw [h.profile]
    exact (he.slot hc (h.slot he.layout sid)).2 v hv

end Engine

/-- Conversations fit their 32-bit lengths. -/
def fitting : Run B → Call B → Draws B → Prop := fun _ c _ ↦ c.Fits

/-- **Every session of a device is of its profile**, in every state of every run whose conversations
fit. -/
theorem device_pure {r : Run B} (hr : (device P fitting).Reachable r) : r.engine.Pure P := by
  refine System.Reachable.invariant (I := fun r ↦ r.engine.Pure P) ?_ ?_ hr
  · intro s hs
    obtain ⟨config, d, rfl⟩ := eq_newDevice_of_start hs
    refine ⟨Engine.newDevice_layout P config d, fun sid s hs ↦ ?_, fun sid v hv ↦ ?_⟩
    · cases hs
    · rw [Engine.newDevice, Engine.blob_commitDevice] at hv
      cases hv
  · rintro s t hs hpure ⟨c, d, hfits, rfl⟩
    exact (Engine.call_effect (device_idle hs) d c).pure hfits hpure

/-! ### Profiles do not mix -/

/-- **Profiles do not mix.** Let `p` and `q` differ. An engine of profile `q` rejects every initiation
packet of an engine of profile `p`; and a session of profile `q` rejects every message of a session of
profile `p` with the same shared secret, whatever either of them has done before. -/
theorem profiles_do_not_mix (hK : IdealKdf P) (hA : IdealAead P) (hO : OpenLength P) (h1 : OneKey P)
    {p q : CryptoProfile} (hpq : p ≠ q) {e₁ e₂ : Engine B} :
    (∀ (bundle : PublicPrekeyBundle B) (conv pt ad : List B) (d : Draws B) (sid : SessionId B)
      (packet : InitiationPacket B), e₁.profile = p → e₂.profile = q →
      (e₁.establishOutboundSession P bundle conv pt ad d).1 = .ok (sid, packet) →
      ∀ (conv' ad' : List B) (d' : Draws B),
        ∃ err, (e₂.processInboundSession P packet conv' ad' d').1 = .error err) ∧
    ∀ (sid₁ sid₂ : SessionId B) (s₁ s₂ : LiveSession B) (sk : Block B 32),
      e₁.sessions.lookup sid₁ = some s₁ → e₂.sessions.lookup sid₂ = some s₂ →
      s₁.ratchet.Grown P p sk → s₂.ratchet.Grown P q sk →
      ∀ (pt ad : List B) (d : Draws B) (m : SealedMessage B),
        ((e₁.encrypt P sid₁ pt ad d).1 = .ok m ∨ (e₁.encryptVoicePayload P sid₁ pt ad d).1 = .ok m) →
        ∀ (ad' : List B) (d' : Draws B), ∃ err, (e₂.decrypt P sid₂ m ad' d').1 = .error err := by
  refine ⟨?_, ?_⟩
  · intro bundle conv pt ad d sid packet hp hq hest conv' ad' d'
    cases hproc : (e₂.processInboundSession P packet conv' ad' d').1 with
    | error err => exact ⟨err, rfl⟩
    | ok out =>
      obtain ⟨i, r, r', ad₁, hi, henc⟩ := Engine.establish_eq_ok hest
      obtain ⟨-, hspk, -, hinit⟩ := Engine.initiate_eq_ok hi
      obtain ⟨shared, t, t', ad₂, hans, hdec⟩ := Engine.process_decrypts hproc
      obtain ⟨hr, hwhole, -⟩ := (LiveRatchet.Grown.alice hspk hinit).spec hA hO
      obtain ⟨ht, -, -⟩ := (LiveRatchet.Grown.bob hans.ratchet).spec hA hO
      have heq := LiveRatchet.profile_eq_of_opens hK hA hO h1 hwhole henc hdec
      rw [hr, ht, hp, hq] at heq
      exact absurd heq hpq
  · intro sid₁ sid₂ s₁ s₂ sk hs₁ hs₂ hg₁ hg₂ pt ad d m hseal ad' d'
    have hseal : (e₁.encrypt P sid₁ pt ad d).1 = .ok m := by
      refine hseal.elim id fun hvoice ↦ ?_
      unfold Engine.encryptVoicePayload at hvoice
      split at hvoice
      · cases hvoice
      · exact hvoice
    cases hopen : (e₂.decrypt P sid₂ m ad' d').1 with
    | error err => exact ⟨err, rfl⟩
    | ok out =>
      obtain ⟨s, r, hs, henc⟩ := Engine.encrypt_eq_ok hseal
      rw [hs₁] at hs
      cases hs
      obtain ⟨s, t, hs, hdec⟩ := Engine.decrypt_eq_ok hopen
      rw [hs₂] at hs
      cases hs
      obtain ⟨hr, hwhole, -⟩ := hg₁.spec hA hO
      obtain ⟨ht, -, -⟩ := hg₂.spec hA hO
      have heq := LiveRatchet.profile_eq_of_opens hK hA hO h1 hwhole henc hdec
      rw [hr, ht] at heq
      exact absurd heq hpq

namespace Symbolic

/-- An engine with one session on a given ratchet. -/
noncomputable def holding (e : Engine Sym) (r : LiveRatchet Sym) : Engine Sym :=
  let s : LiveSession Sym :=
    { ratchet := r, remoteIdentity := secretOf 31 1, conversation := []
      identityTracker := IdentityTracker.new, handshakeAd := [] }
  { e with sessions := (∅ : Dict (SessionId Sym) (LiveSession Sym)).insert (secretOf 15 0) s }

/-- A header-encrypting ratchet of Alice. -/
def aliceHe : HeaderEncryptState Sym :=
  HeaderEncryptState.initAlice symbolic (secretOf 31 2) (secretOf 31 3)
    (symbolic.publicKey (secretOf 31 4)) (heKeysFromSk symbolic (secretOf 31 3)).1
    (heKeysFromSk symbolic (secretOf 31 3)).2 defaultMaxSkip

end Symbolic

open Symbolic in
/-- Device 2 holds the prekeys that the packet of device 1 names, and a ratchet on the secret that
device 1 has one on; but it runs the hybrid profile, and device 1 seals its headers. -/
theorem profiles_do_not_mix_hybrid :
    ((Symbolic.engine 1 .classicalHeV1).establishOutboundSession symbolic
      (bundle (Symbolic.engine 2 .hybridPqV1)) [] [] [] (Symbolic.draws 1)).1 =
        .ok ((Symbolic.draws 1).sessionId, packet .classicalHeV1) ∧
    (∃ err, ((Symbolic.engine 2 .hybridPqV1).processInboundSession symbolic (packet .classicalHeV1) []
      [] (Symbolic.draws 2)).1 = .error err) ∧
    ∃ r m, initBobRatchet symbolic .hybridPqV1 (secretOf 31 3) (secretOf 31 4) = .ok r ∧
      ((holding (Symbolic.engine 1 .classicalHeV1) (.headerEncrypt aliceHe)).encrypt symbolic
        (secretOf 15 0) [] [] (Symbolic.draws 3)).1 = .ok m ∧
      ∃ err, ((holding (Symbolic.engine 2 .hybridPqV1) r).decrypt symbolic (secretOf 15 0) m []
        (Symbolic.draws 4)).1 = .error err := by
  have hest : ((Symbolic.engine 1 .classicalHeV1).establishOutboundSession symbolic
      (bundle (Symbolic.engine 2 .hybridPqV1)) [] [] [] (Symbolic.draws 1)).1 =
        .ok ((Symbolic.draws 1).sessionId, packet .classicalHeV1) := by
    decide +kernel
  have hsent : ((holding (Symbolic.engine 1 .classicalHeV1) (.headerEncrypt aliceHe)).encrypt symbolic
      (secretOf 15 0) [] [] (Symbolic.draws 3)).1.isOk = true := by
    decide +kernel
  refine ⟨hest, (profiles_do_not_mix idealKdf idealAead openLength oneKey (by decide)).1 _ _ _ _ _ _ _
    rfl rfl hest _ _ _, ?_⟩
  cases hm : ((holding (Symbolic.engine 1 .classicalHeV1) (.headerEncrypt aliceHe)).encrypt symbolic
      (secretOf 15 0) [] [] (Symbolic.draws 3)).1 with
  | error err =>
    rw [hm] at hsent
    cases hsent
  | ok m =>
    obtain ⟨r, hr⟩ : ∃ r, initBobRatchet symbolic .hybridPqV1 (secretOf 31 3) (secretOf 31 4) = .ok r :=
      ⟨_, rfl⟩
    have halice : (LiveRatchet.headerEncrypt aliceHe).Grown symbolic .classicalHeV1 (secretOf 31 3) :=
      .alice (idealDh.publicKey_ne_zero (secretOf 31 4)) rfl
    refine ⟨r, m, hr, rfl, ?_⟩
    exact (profiles_do_not_mix idealKdf idealAead openLength oneKey (by decide)).2 _ _ _ _
      (secretOf 31 3) (Finmap.lookup_insert _) (Finmap.lookup_insert _)
      halice (.bob hr) _ _ _ _ (.inl hm) _ _

end VoiceChatCrypto
