import VoiceChatCrypto.Braid.Chunks
import VoiceChatCrypto.Braid.Scka

/-!
# One epoch of Braid

In an epoch one party decapsulates and the other encapsulates. What they exchange is determined by
four things: the authenticator both start with, the key pair of the one, the message the other
encapsulates, and whether the encapsulation is complete. An `Epoch` holds them, each once it has been
chosen.

* `Decapsulates` and `Encapsulates` say what an agent holds at each of its states, in terms of the
  epoch: which message its encoder carries, which message its decoder collects.
* `FromDecapsulator` and `FromEncapsulator` say which messages are on their way. Messages of earlier
  epochs are among them; nobody listens to those.

Then `send` and `receive` are read off, state by state: what is received fits, no check fails, and the
epoch ends with both sides holding the same key and the same authenticator.
-/

open Alphabet

namespace VoiceChatCrypto

variable {B : Type} [Alphabet B]

/-- What has been chosen in an epoch. Both sides' states and all messages of the epoch are functions
of it, so that the invariant need not describe them one by one. -/
structure Epoch (B : Type) where
  /-- Its number, the same on both sides. -/
  number : UInt64
  /-- The authenticator both sides start with. -/
  auth : Authenticator B
  /-- The key pair of the decapsulator. -/
  seed : Option (Block B 64)
  /-- The message of the encapsulator. -/
  message : Option (Block B 32)
  /-- The encapsulator has completed its ciphertext. -/
  complete : Bool

namespace Epoch

variable (P : Primitives B)

/-- `ρ` of a key pair. -/
def rho (seed : Block B 64) : Block B 32 :=
  ⟨(P.kemPublic seed).val.drop 1152, by rw [List.length_drop, Block.length_val]⟩

/-- The hash of a key. -/
def hek (seed : Block B 64) : Block B 32 := P.sha3 (P.kemPublic seed).val

/-- The header of a key. -/
def header (seed : Block B 64) : List B := (headerFromEk P (P.kemPublic seed)).1

/-- The vector `t̂` of a key. -/
def vector (seed : Block B 64) : List B := (headerFromEk P (P.kemPublic seed)).2

/-- What the encapsulator keeps. -/
def secret (seed : Block B 64) (m : Block B 32) : EncapsSecret B :=
  (encaps1 P (rho P seed) (hek P seed) m).1

/-- The first part of the ciphertext. -/
def ct1 (seed : Block B 64) (m : Block B 32) : Block B 960 :=
  (encaps1 P (rho P seed) (hek P seed) m).2.1

/-- The second part of the ciphertext. -/
def ct2 (seed : Block B 64) (m : Block B 32) : Block B 128 :=
  P.pkeEncryptCt2 (vector P seed) (secret P seed m).coins m

/-- **The incremental encapsulation is correct**: decapsulating `ct1 ‖ ct2` returns the secret that was
encapsulated, for the key that both were made for. -/
def IncrementalKem : Prop :=
  ∀ (seed : Block B 64) (m : Block B 32) (ct : Block B 1088),
    ct.val = (ct1 P seed m).val ++ (ct2 P seed m).val →
    P.kemDecapsulate seed ct = (encaps1 P (rho P seed) (hek P seed) m).2.2

variable (g : Epoch B)

/-- The key of the epoch. -/
def key (seed : Block B 64) (m : Block B 32) : Block B 32 :=
  kdfOk P (encaps1 P (rho P seed) (hek P seed) m).2.2 g.number

/-- The authenticator both sides end with. -/
def authAfter (seed : Block B 64) (m : Block B 32) : Authenticator B :=
  g.auth.update P g.number (g.key P seed m)

/-- The message that carries the header. -/
def headerMessage (seed : Block B 64) : List B :=
  header P seed ++ (g.auth.macHdr P g.number (header P seed)).val

/-- The message that carries the second part of the ciphertext. -/
def ct2Message (seed : Block B 64) (m : Block B 32) : List B :=
  (ct2 P seed m).val ++
    ((g.authAfter P seed m).macCt P g.number ((ct1 P seed m).val ++ (ct2 P seed m).val)).val

variable {P g}

omit [Alphabet B] in
/-- The header is `ρ` followed by the hash of the key. -/
theorem header_eq (seed : Block B 64) : header P seed = (rho P seed).val ++ (hek P seed).val := rfl

omit [Alphabet B] in
theorem vector_append_rho (seed : Block B 64) :
    vector P seed ++ (rho P seed).val = (P.kemPublic seed).val :=
  List.take_append_drop 1152 _

theorem chunked_headerMessage (seed : Block B 64) : Chunked 3 (g.headerMessage P seed) where
  length := by simp [headerMessage, header_eq]
  pos := by omega
  le := by omega

omit [Alphabet B] in
theorem chunked_vector (seed : Block B 64) : Chunked 36 (vector P seed) where
  length := by simp [vector, headerFromEk]
  pos := by omega
  le := by omega

omit [Alphabet B] in
/-- The first part of a ciphertext is 30 chunks long. -/
theorem chunked_ct1 (seed : Block B 64) (m : Block B 32) : Chunked 30 (ct1 P seed m).val where
  length := by simp
  pos := by omega
  le := by omega

/-- The second part with its tag is five chunks long. -/
theorem chunked_ct2Message (seed : Block B 64) (m : Block B 32) :
    Chunked 5 (g.ct2Message P seed m) where
  length := by simp [ct2Message]
  pos := by omega
  le := by omega

end Epoch

/-! ### Roles -/

/-- **The agent of a decapsulator**, from the key pair that is generated to the ciphertext that is
awaited. -/
inductive Decapsulates (P : Primitives B) (g : Epoch B) : Agent B → Prop
  | keysUnsampled (hseed : g.seed = none) : Decapsulates P g .keysUnsampled
  | keysSampled {seed : Block B 64} {enc : Encoder B} (hseed : g.seed = some seed)
      (henc : enc.Carries (g.headerMessage P seed)) :
      Decapsulates P g (.keysSampled seed (Epoch.vector P seed) enc)
  | headerSent {seed : Block B 64} {m : Block B 32} {enc : Encoder B} {dec : Decoder B}
      (hseed : g.seed = some seed) (hm : g.message = some m) (henc : enc.Carries (Epoch.vector P seed))
      (hdec : dec.Collects (Epoch.ct1 P seed m).val) : Decapsulates P g (.headerSent seed enc dec)
  | ct1Received {seed : Block B 64} {m : Block B 32} {enc : Encoder B} (hseed : g.seed = some seed)
      (hm : g.message = some m) (henc : enc.Carries (Epoch.vector P seed)) :
      Decapsulates P g (.ct1Received seed (Epoch.ct1 P seed m).val enc)
  | ekSentCt1Received {seed : Block B 64} {m : Block B 32} {dec : Decoder B}
      (hseed : g.seed = some seed) (hm : g.message = some m) (hcomplete : g.complete = true)
      (hdec : dec.Collects (g.ct2Message P seed m)) :
      Decapsulates P g (.ekSentCt1Received seed (Epoch.ct1 P seed m).val dec)

/-- **The authenticator and the agent of an encapsulator**, from the header that is awaited to the
ciphertext that is repeated. -/
inductive Encapsulates (P : Primitives B) (g : Epoch B) : Authenticator B → Agent B → Prop
  | noHeaderReceived {dec : Decoder B} (hm : g.message = none) (hcomplete : g.complete = false)
      (hnone : g.seed = none → dec = Decoder.new (64 + 32))
      (hsome : ∀ seed, g.seed = some seed → dec.Collects (g.headerMessage P seed)) :
      Encapsulates P g g.auth (.noHeaderReceived dec)
  | headerReceived {seed : Block B 64} {dec : Decoder B} (hseed : g.seed = some seed)
      (hm : g.message = none) (hcomplete : g.complete = false)
      (hdec : dec.Collects (Epoch.vector P seed)) :
      Encapsulates P g g.auth (.headerReceived (Epoch.rho P seed) (Epoch.hek P seed) dec)
  | ct1Sampled {seed : Block B 64} {m : Block B 32} {enc : Encoder B} {dec : Decoder B} {b : Bool}
      (hseed : g.seed = some seed) (hm : g.message = some m) (hcomplete : g.complete = false)
      (henc : enc.Carries (Epoch.ct1 P seed m).val) (hdec : dec.Collects (Epoch.vector P seed)) :
      Encapsulates P g (g.authAfter P seed m) (.ct1Sampled (Epoch.secret P seed m)
        (Epoch.ct1 P seed m) enc dec (g.key P seed m) b)
  | ekReceivedCt1Sampled {seed : Block B 64} {m : Block B 32} {enc : Encoder B} {b : Bool}
      (hseed : g.seed = some seed) (hm : g.message = some m) (hcomplete : g.complete = false)
      (henc : enc.Carries (Epoch.ct1 P seed m).val) :
      Encapsulates P g (g.authAfter P seed m) (.ekReceivedCt1Sampled (Epoch.secret P seed m)
        (Epoch.ct1 P seed m) (Epoch.vector P seed) enc (g.key P seed m) b)
  | ct1Acknowledged {seed : Block B 64} {m : Block B 32} {dec : Decoder B} {b : Bool}
      (hseed : g.seed = some seed) (hm : g.message = some m) (hcomplete : g.complete = false)
      (hdec : dec.Collects (Epoch.vector P seed)) :
      Encapsulates P g (g.authAfter P seed m) (.ct1Acknowledged (Epoch.secret P seed m)
        (Epoch.ct1 P seed m) dec (g.key P seed m) b)
  | ct2Sampled {seed : Block B 64} {m : Block B 32} {enc : Encoder B} {b : Bool}
      (hseed : g.seed = some seed) (hm : g.message = some m) (hcomplete : g.complete = true)
      (henc : enc.Carries (g.ct2Message P seed m)) :
      Encapsulates P g (g.authAfter P seed m) (.ct2Sampled enc (g.key P seed m) b)

/-- **The messages of a decapsulator**, and older ones: chunks of the header, then chunks of the
vector `t̂`. -/
inductive FromDecapsulator (P : Primitives B) (g : Epoch B) : BraidMessage B → Prop
  | old {msg : BraidMessage B} (h : msg.epoch.toNat < g.number.toNat) : FromDecapsulator P g msg
  | none : FromDecapsulator P g ⟨g.number, .none, []⟩
  | hdr {seed : Block B 64} (hseed : g.seed = some seed) (idx : UInt16) :
      FromDecapsulator P g ⟨g.number, .hdr, chunk (g.headerMessage P seed) idx⟩
  | ek {seed : Block B 64} (hseed : g.seed = some seed) (idx : UInt16) :
      FromDecapsulator P g ⟨g.number, .ek, chunk (Epoch.vector P seed) idx⟩
  | ekCt1Ack {seed : Block B 64} (hseed : g.seed = some seed) (idx : UInt16) :
      FromDecapsulator P g ⟨g.number, .ekCt1Ack, chunk (Epoch.vector P seed) idx⟩

/-- **The messages of an encapsulator**, and older ones: chunks of either part of the ciphertext. -/
inductive FromEncapsulator (P : Primitives B) (g : Epoch B) : BraidMessage B → Prop
  | old {msg : BraidMessage B} (h : msg.epoch.toNat < g.number.toNat) : FromEncapsulator P g msg
  | none : FromEncapsulator P g ⟨g.number, .none, []⟩
  | ct1 {seed : Block B 64} {m : Block B 32} (hseed : g.seed = some seed) (hm : g.message = some m)
      (idx : UInt16) : FromEncapsulator P g ⟨g.number, .ct1, chunk (Epoch.ct1 P seed m).val idx⟩
  | ct2 {seed : Block B 64} {m : Block B 32} (hseed : g.seed = some seed) (hm : g.message = some m)
      (hcomplete : g.complete = true) (idx : UInt16) :
      FromEncapsulator P g ⟨g.number, .ct2, chunk (g.ct2Message P seed m) idx⟩

/-! ### Growth -/

/-- More has been chosen. Messages that are on their way stay what they were, since they speak only
of what had been chosen when they were sent. -/
structure Epoch.Extends (g g' : Epoch B) : Prop where
  /-- It is the same epoch. -/
  number : g'.number = g.number
  /-- Both sides started it with the same authenticator. -/
  auth : g'.auth = g.auth
  /-- A key pair is generated once. -/
  seed : ∀ seed, g.seed = some seed → g'.seed = some seed
  /-- So is a ciphertext. -/
  message : ∀ m, g.message = some m → g'.message = some m
  /-- A completed ciphertext stays complete. -/
  complete : g.complete = true → g'.complete = true

variable {P : Primitives B} {g g' : Epoch B} {msg : BraidMessage B}

omit [Alphabet B] in
theorem Epoch.Extends.refl (g : Epoch B) : g.Extends g :=
  ⟨rfl, rfl, fun _ h ↦ h, fun _ h ↦ h, id⟩

/-- What the decapsulator said stays true when more is chosen. -/
theorem FromDecapsulator.mono (h : FromDecapsulator P g msg) (hg : g.Extends g') :
    FromDecapsulator P g' msg := by
  obtain ⟨number, auth, seed', message', complete'⟩ := g'
  obtain ⟨rfl, rfl, hseed, -, -⟩ := hg
  cases h with
  | old h => exact .old h
  | none => exact .none
  | hdr hs idx => exact .hdr (g := ⟨g.number, g.auth, seed', message', complete'⟩) (hseed _ hs) idx
  | ek hs idx => exact .ek (g := ⟨g.number, g.auth, seed', message', complete'⟩) (hseed _ hs) idx
  | ekCt1Ack hs idx =>
    exact .ekCt1Ack (g := ⟨g.number, g.auth, seed', message', complete'⟩) (hseed _ hs) idx

/-- What the encapsulator said stays true when more is chosen. -/
theorem FromEncapsulator.mono (h : FromEncapsulator P g msg) (hg : g.Extends g') :
    FromEncapsulator P g' msg := by
  obtain ⟨number, auth, seed', message', complete'⟩ := g'
  obtain ⟨rfl, rfl, hseed, hmessage, hcomplete⟩ := hg
  cases h with
  | old h => exact .old h
  | none => exact .none
  | ct1 hs hm idx =>
    exact .ct1 (g := ⟨g.number, g.auth, seed', message', complete'⟩) (hseed _ hs) (hmessage _ hm) idx
  | ct2 hs hm hc idx =>
    exact .ct2 (g := ⟨g.number, g.auth, seed', message', complete'⟩) (hseed _ hs) (hmessage _ hm)
      (hcomplete hc) idx

/-- A decapsulator does not mind what its peer chooses. -/
theorem Decapsulates.mono {agent : Agent B} (h : Decapsulates P g agent) (hg : g.Extends g')
    (hseed : g'.seed = g.seed) : Decapsulates P g' agent := by
  obtain ⟨number, auth, seed', message', complete'⟩ := g'
  obtain ⟨rfl, rfl, -, hmessage, hcomplete⟩ := hg
  cases hseed
  cases h with
  | keysUnsampled hs => exact .keysUnsampled hs
  | keysSampled hs henc =>
    exact .keysSampled (g := ⟨g.number, g.auth, g.seed, message', complete'⟩) hs henc
  | headerSent hs hm henc hdec =>
    exact .headerSent (g := ⟨g.number, g.auth, g.seed, message', complete'⟩) hs (hmessage _ hm) henc hdec
  | ct1Received hs hm henc =>
    exact .ct1Received (g := ⟨g.number, g.auth, g.seed, message', complete'⟩) hs (hmessage _ hm) henc
  | ekSentCt1Received hs hm hc hdec =>
    exact .ekSentCt1Received (g := ⟨g.number, g.auth, g.seed, message', complete'⟩) hs
      (hmessage _ hm) (hcomplete hc) hdec

/-- An encapsulator that has not heard of a key does not mind the choice of one. -/
theorem Encapsulates.mono {auth : Authenticator B} {agent : Agent B}
    (h : Encapsulates P g auth agent) (hg : g.Extends g') (hmessage : g'.message = g.message)
    (hcomplete : g'.complete = g.complete) : Encapsulates P g' auth agent := by
  obtain ⟨number, auth', seed', message', complete'⟩ := g'
  obtain ⟨rfl, rfl, hseed, -, -⟩ := hg
  cases hmessage
  cases hcomplete
  cases h with
  | noHeaderReceived hm hc hnone hsome =>
    refine .noHeaderReceived (g := ⟨g.number, g.auth, seed', g.message, g.complete⟩) hm hc ?_ ?_
    · intro hnot
      cases hs : g.seed with
      | none => exact hnone hs
      | some seed => cases (hseed seed hs).symm.trans hnot
    · intro seed hs'
      cases hs : g.seed with
      | none =>
        -- the key has just been chosen; the decoder is still the new one
        rw [hnone hs]
        have hnew := Decoder.new_collects (g.headerMessage P seed)
        rw [(Epoch.chunked_headerMessage seed).length] at hnew
        exact hnew
      | some seed' =>
        cases (hseed seed' hs).symm.trans hs'
        exact hsome _ hs
  | headerReceived hs hm hc hdec =>
    exact .headerReceived (g := ⟨g.number, g.auth, seed', g.message, g.complete⟩) (hseed _ hs) hm hc
      hdec
  | ct1Sampled hs hm hc henc hdec =>
    exact .ct1Sampled (g := ⟨g.number, g.auth, seed', g.message, g.complete⟩) (hseed _ hs) hm hc henc
      hdec
  | ekReceivedCt1Sampled hs hm hc henc =>
    exact .ekReceivedCt1Sampled (g := ⟨g.number, g.auth, seed', g.message, g.complete⟩) (hseed _ hs)
      hm hc henc
  | ct1Acknowledged hs hm hc hdec =>
    exact .ct1Acknowledged (g := ⟨g.number, g.auth, seed', g.message, g.complete⟩) (hseed _ hs) hm hc
      hdec
  | ct2Sampled hs hm hc henc =>
    exact .ct2Sampled (g := ⟨g.number, g.auth, seed', g.message, g.complete⟩) (hseed _ hs) hm hc henc

/-! ### Old messages -/

/-- **Nobody listens to an old message**: the state is the same and nothing is output, whatever the
message contains. -/
theorem BraidScka.receive_old {s : BraidScka B} (h : msg.epoch.toNat < s.epoch.toNat) :
    s.receive P msg = .ok ((s.epoch.toNat - 1, none), s) := by
  have hne : msg.epoch ≠ s.epoch := fun heq ↦ by
    rw [heq] at h
    omega
  have hnext : ¬ msg.epoch.toNat = s.epoch.toNat + 1 := by omega
  have hfuture : ¬ msg.epoch.toNat > s.epoch.toNat + 1 := by omega
  unfold BraidScka.receive
  dsimp only
  rw [if_neg hfuture]
  split <;> simp [hne, hnext, recvEkOrAck, bind, Except.bind, pure, Except.pure]

/-! ### Sending -/

/-- **A decapsulator sends** a message of its epoch. It may have to sample its key pair first. -/
theorem Decapsulates.send {agent : Agent B} (h : Decapsulates P g agent) (seed : Block B 64)
    (m : Block B 32) :
    ∃ g' agent', g.Extends g' ∧ g'.message = g.message ∧ g'.complete = g.complete ∧
      (g'.seed = g.seed ∨ g.seed = none) ∧ Decapsulates P g' agent' ∧
      ∃ msg, FromDecapsulator P g' msg ∧ (BraidScka.mk g.number g.auth agent).send P seed m =
        ((msg, g.number.toNat - 1, none), ⟨g.number, g.auth, agent'⟩) := by
  cases h with
  | keysUnsampled hseed =>
    obtain ⟨hchunk, hcarries⟩ := (Encoder.new_carries (g.headerMessage P seed)).nextChunk
    refine ⟨{ g with seed := some seed }, _, ⟨rfl, rfl, fun s hs ↦ ?_, fun _ h ↦ h, id⟩, rfl, rfl,
      .inr hseed, .keysSampled rfl hcarries, _, ?_, rfl⟩
    · rw [hseed] at hs
      cases hs
    · show FromDecapsulator P _ ⟨g.number, .hdr, (Encoder.new (g.headerMessage P seed)).nextChunk.1⟩
      rw [hchunk]
      exact .hdr (g := { g with seed := some seed }) rfl _
  | @keysSampled sd enc hseed henc =>
    obtain ⟨hchunk, hcarries⟩ := henc.nextChunk
    refine ⟨g, _, .refl g, rfl, rfl, .inl rfl, .keysSampled hseed hcarries, _, ?_, rfl⟩
    have hmsg := FromDecapsulator.hdr (P := P) hseed enc.next
    rw [← hchunk] at hmsg
    exact hmsg
  | @headerSent sd msg enc dec hseed hm henc hdec =>
    obtain ⟨hchunk, hcarries⟩ := henc.nextChunk
    refine ⟨g, _, .refl g, rfl, rfl, .inl rfl, .headerSent hseed hm hcarries hdec, _, ?_, rfl⟩
    have hmsg := FromDecapsulator.ek (P := P) hseed enc.next
    rw [← hchunk] at hmsg
    exact hmsg
  | @ct1Received sd msg enc hseed hm henc =>
    obtain ⟨hchunk, hcarries⟩ := henc.nextChunk
    refine ⟨g, _, .refl g, rfl, rfl, .inl rfl, .ct1Received hseed hm hcarries, _, ?_, rfl⟩
    have hmsg := FromDecapsulator.ekCt1Ack (P := P) hseed enc.next
    rw [← hchunk] at hmsg
    exact hmsg
  | ekSentCt1Received hseed hm hcomplete hdec =>
    exact ⟨g, _, .refl g, rfl, rfl, .inl rfl, .ekSentCt1Received hseed hm hcomplete hdec, _, .none,
      rfl⟩

/-- **An encapsulator sends** a message of its epoch. It may have to sample its encapsulation first. -/
theorem Encapsulates.send {auth : Authenticator B} {agent : Agent B} (h : Encapsulates P g auth agent)
    (seed : Block B 64) (m : Block B 32) :
    ∃ g' auth' agent', g.Extends g' ∧ g'.seed = g.seed ∧ Encapsulates P g' auth' agent' ∧
      ∃ msg, FromEncapsulator P g' msg ∧ (BraidScka.mk g.number auth agent).send P seed m =
        ((msg, g.number.toNat - 1, none), ⟨g.number, auth', agent'⟩) := by
  cases h with
  | noHeaderReceived hm hcomplete hnone hsome =>
    exact ⟨g, _, _, .refl g, rfl, .noHeaderReceived hm hcomplete hnone hsome, _, .none, rfl⟩
  | @headerReceived sd dec hseed hm hcomplete hdec =>
    obtain ⟨hchunk, hcarries⟩ := (Encoder.new_carries (Epoch.ct1 P sd m).val).nextChunk
    refine ⟨{ g with message := some m }, _, _, ⟨rfl, rfl, fun _ h ↦ h, fun m' hm' ↦ ?_, id⟩, rfl,
      .ct1Sampled (g := { g with message := some m }) (b := false) hseed rfl hcomplete hcarries hdec, _,
      ?_, rfl⟩
    · rw [hm] at hm'
      cases hm'
    · show FromEncapsulator P _ ⟨g.number, .ct1, (Encoder.new (Epoch.ct1 P sd m).val).nextChunk.1⟩
      rw [hchunk]
      exact .ct1 (g := { g with message := some m }) hseed rfl _
  | @ct1Sampled sd msg enc dec b hseed hm hcomplete henc hdec =>
    obtain ⟨hchunk, hcarries⟩ := henc.nextChunk
    refine ⟨g, _, _, .refl g, rfl, .ct1Sampled hseed hm hcomplete hcarries hdec, _, ?_, rfl⟩
    have hmsg := FromEncapsulator.ct1 (P := P) hseed hm enc.next
    rw [← hchunk] at hmsg
    exact hmsg
  | @ekReceivedCt1Sampled sd msg enc b hseed hm hcomplete henc =>
    obtain ⟨hchunk, hcarries⟩ := henc.nextChunk
    refine ⟨g, _, _, .refl g, rfl, .ekReceivedCt1Sampled hseed hm hcomplete hcarries, _, ?_, rfl⟩
    have hmsg := FromEncapsulator.ct1 (P := P) hseed hm enc.next
    rw [← hchunk] at hmsg
    exact hmsg
  | ct1Acknowledged hseed hm hcomplete hdec =>
    exact ⟨g, _, _, .refl g, rfl, .ct1Acknowledged hseed hm hcomplete hdec, _, .none, rfl⟩
  | @ct2Sampled sd msg enc b hseed hm hcomplete henc =>
    obtain ⟨hchunk, hcarries⟩ := henc.nextChunk
    refine ⟨g, _, _, .refl g, rfl, .ct2Sampled hseed hm hcomplete hcarries, _, ?_, rfl⟩
    have hmsg := FromEncapsulator.ct2 (P := P) hseed hm hcomplete enc.next
    rw [← hchunk] at hmsg
    exact hmsg

/-! ### Receiving -/

/-- What `receive` leaves behind: no output, and the same epoch and authenticator. -/
def Quiet (P : Primitives B) (s : BraidScka B) (msg : BraidMessage B) (agent' : Agent B) : Prop :=
  s.receive P msg = .ok ((s.epoch.toNat - 1, none), { s with agent := agent' })

/-- **The decapsulator completes**: `ct2` opens to the key of the epoch, and its MAC is right. -/
theorem decapsulate_eq (hkem : Epoch.IncrementalKem P) (agent : Agent B) (seed : Block B 64)
    (m : Block B 32) :
    (BraidScka.mk g.number g.auth agent).decapsulate P seed (Epoch.ct1 P seed m).val
      (g.ct2Message P seed m) =
        if g.number.toNat + 1 < 2 ^ 64 then .ok (⟨g.number, g.key P seed m⟩,
          ⟨g.number + 1, g.authAfter P seed m, .noHeaderReceived (Decoder.new (64 + 32))⟩)
        else .error .limitExceeded := by
  have hlen : ¬ (g.ct2Message P seed m).length < 128 + 32 := by
    rw [(Epoch.chunked_ct2Message seed m).length]
    decide
  have hct2 : (g.ct2Message P seed m).take 128 = (Epoch.ct2 P seed m).val :=
    List.take_left' (Block.length_val _)
  have hmac : ((g.ct2Message P seed m).drop 128).take 32 = ((g.authAfter P seed m).macCt P g.number
      ((Epoch.ct1 P seed m).val ++ (Epoch.ct2 P seed m).val)).val := by
    rw [Epoch.ct2Message, List.drop_left' (Block.length_val _), List.take_of_length_le]
    rw [Block.length_val]
  have hjoined : ((Epoch.ct1 P seed m).val ++ (Epoch.ct2 P seed m).val).length = 1088 := by
    rw [List.length_append, Block.length_val, Block.length_val]
  have hcto : kemCiphertextFromBytes ((Epoch.ct1 P seed m).val ++ (Epoch.ct2 P seed m).val) =
      .ok ⟨_, hjoined⟩ := dif_pos hjoined
  have hkey : kdfOk P (P.kemDecapsulate seed ⟨_, hjoined⟩) g.number = g.key P seed m := by
    rw [hkem seed m ⟨_, hjoined⟩ rfl]
    rfl
  have hvfy : ((g.authAfter P seed m).vfyCt P g.number ((Epoch.ct1 P seed m).val ++
      (Epoch.ct2 P seed m).val) ((g.authAfter P seed m).macCt P g.number
        ((Epoch.ct1 P seed m).val ++ (Epoch.ct2 P seed m).val)).val) = .ok () := if_pos rfl
  have hauth : g.auth.update P g.number (g.key P seed m) = g.authAfter P seed m := rfl
  unfold BraidScka.decapsulate
  rw [if_neg hlen]
  simp only [hct2, hmac, hcto, hkey, hauth, hvfy, bind, Except.bind]
  rfl

/-- **What a decapsulator receives** fits: it goes on, or completes the epoch. -/
theorem Decapsulates.receive (hB : Bytes B) (hkem : Epoch.IncrementalKem P) {agent : Agent B}
    (h : Decapsulates P g agent) (hmsg : FromEncapsulator P g msg) :
    (∃ agent', Decapsulates P g agent' ∧ Quiet P ⟨g.number, g.auth, agent⟩ msg agent') ∨
    ∃ seed m, g.seed = some seed ∧ g.message = some m ∧ g.complete = true ∧
      (g.number.toNat + 1 < 2 ^ 64 → (BraidScka.mk g.number g.auth agent).receive P msg =
        .ok ((g.number.toNat - 1, some ⟨g.number, g.key P seed m⟩),
          ⟨g.number + 1, g.authAfter P seed m, .noHeaderReceived (Decoder.new (64 + 32))⟩)) ∧
      (¬ g.number.toNat + 1 < 2 ^ 64 → ∃ err,
        (BraidScka.mk g.number g.auth agent).receive P msg = .error err) := by
  by_cases hold : msg.epoch.toNat < g.number.toNat
  · exact .inl ⟨agent, h, BraidScka.receive_old hold⟩
  cases h with
  | keysUnsampled hseed =>
    refine .inl ⟨_, .keysUnsampled hseed, ?_⟩
    cases hmsg with
    | old h => exact absurd h hold
    | none => simp [Quiet, BraidScka.receive, pure, Except.pure]
    | ct1 hs hm idx => simp [Quiet, BraidScka.receive, pure, Except.pure]
    | ct2 hs hm hcomplete idx => simp [Quiet, BraidScka.receive, pure, Except.pure]
  | @keysSampled seed enc hseed henc =>
    cases hmsg with
    | old h => exact absurd h hold
    | none =>
      exact .inl ⟨_, .keysSampled hseed henc, by simp [Quiet, BraidScka.receive, pure, Except.pure]⟩
    | @ct1 seed' m hs hm idx =>
      cases hs.symm.trans hseed
      obtain ⟨d, hadd, hdec⟩ := (Decoder.new_collects (Epoch.ct1 P seed m).val).addChunk hB
        (Epoch.chunked_ct1 seed m) idx
      rw [Block.length_val] at hadd
      refine .inl ⟨_, .headerSent hseed hm (Encoder.new_carries _) hdec, ?_⟩
      simp [Quiet, BraidScka.receive, hadd, bind, Except.bind, pure, Except.pure]
    | ct2 hs hm hcomplete idx =>
      exact .inl ⟨_, .keysSampled hseed henc, by simp [Quiet, BraidScka.receive, pure, Except.pure]⟩
  | @headerSent seed m enc dec hseed hm henc hdec =>
    cases hmsg with
    | old h => exact absurd h hold
    | none =>
      exact .inl ⟨_, .headerSent hseed hm henc hdec,
        by simp [Quiet, BraidScka.receive, pure, Except.pure]⟩
    | @ct1 seed' m' hs hm' idx =>
      cases hs.symm.trans hseed
      cases hm'.symm.trans hm
      obtain ⟨d, hadd, hdec⟩ := hdec.addChunk hB (Epoch.chunked_ct1 seed m) idx
      cases hfull : d.decoded with
      | none =>
        refine .inl ⟨_, .headerSent hseed hm henc hdec, ?_⟩
        simp [Quiet, BraidScka.receive, hadd, hfull, bind, Except.bind, pure, Except.pure]
      | some ct1 =>
        cases hdec.decoded ct1 hfull
        refine .inl ⟨_, .ct1Received hseed hm henc, ?_⟩
        simp [Quiet, BraidScka.receive, hadd, hfull, bind, Except.bind, pure, Except.pure]
    | ct2 hs hm' hcomplete idx =>
      exact .inl ⟨_, .headerSent hseed hm henc hdec,
        by simp [Quiet, BraidScka.receive, pure, Except.pure]⟩
  | @ct1Received seed m enc hseed hm henc =>
    cases hmsg with
    | old h => exact absurd h hold
    | none =>
      exact .inl ⟨_, .ct1Received hseed hm henc, by simp [Quiet, BraidScka.receive, pure, Except.pure]⟩
    | ct1 hs hm' idx =>
      exact .inl ⟨_, .ct1Received hseed hm henc, by simp [Quiet, BraidScka.receive, pure, Except.pure]⟩
    | @ct2 seed' m' hs hm' hcomplete idx =>
      cases hs.symm.trans hseed
      cases hm'.symm.trans hm
      obtain ⟨d, hadd, hdec⟩ := (Decoder.new_collects (g.ct2Message P seed m)).addChunk hB
        (Epoch.chunked_ct2Message seed m) idx
      rw [(Epoch.chunked_ct2Message seed m).length] at hadd
      refine .inl ⟨_, .ekSentCt1Received hseed hm hcomplete hdec, ?_⟩
      simp [Quiet, BraidScka.receive, hadd, bind, Except.bind, pure, Except.pure]
  | @ekSentCt1Received seed m dec hseed hm hcomplete hdec =>
    cases hmsg with
    | old h => exact absurd h hold
    | none =>
      exact .inl ⟨_, .ekSentCt1Received hseed hm hcomplete hdec,
        by simp [Quiet, BraidScka.receive, pure, Except.pure]⟩
    | ct1 hs hm' idx =>
      exact .inl ⟨_, .ekSentCt1Received hseed hm hcomplete hdec,
        by simp [Quiet, BraidScka.receive, pure, Except.pure]⟩
    | @ct2 seed' m' hs hm' hcomplete' idx =>
      cases hs.symm.trans hseed
      cases hm'.symm.trans hm
      obtain ⟨d, hadd, hdec⟩ := hdec.addChunk hB (Epoch.chunked_ct2Message seed m) idx
      cases hfull : d.decoded with
      | none =>
        refine .inl ⟨_, .ekSentCt1Received hseed hm hcomplete hdec, ?_⟩
        simp [Quiet, BraidScka.receive, hadd, hfull, bind, Except.bind, pure, Except.pure]
      | some blob =>
        cases hdec.decoded blob hfull
        have hend := decapsulate_eq (g := g) hkem (.ekSentCt1Received seed (Epoch.ct1 P seed m).val dec)
          seed m
        refine .inr ⟨seed, m, hseed, hm, hcomplete, fun hlimit ↦ ?_, fun hlimit ↦ ?_⟩
        · rw [if_pos hlimit] at hend
          simp [BraidScka.receive, hadd, hfull, hend, bind, Except.bind, pure, Except.pure]
        · rw [if_neg hlimit] at hend
          simp [BraidScka.receive, hadd, hfull, hend, bind, Except.bind]

/-- **The header is accepted**: its MAC is right, and it parses to `ρ` and the hash of the key. -/
theorem acceptHeader_eq (agent : Agent B) (seed : Block B 64) :
    (BraidScka.mk g.number g.auth agent).acceptHeader P (g.headerMessage P seed) =
      .ok ⟨g.number, g.auth, .headerReceived (Epoch.rho P seed) (Epoch.hek P seed)
        (Decoder.new 1152)⟩ := by
  have hlen : ¬ (g.headerMessage P seed).length < 64 + 32 := by
    rw [(Epoch.chunked_headerMessage seed).length]
    decide
  have hheader : (Epoch.header P seed).length = 64 := by
    simp [Epoch.header_eq]
  have htake : (g.headerMessage P seed).take 64 = Epoch.header P seed := List.take_left' hheader
  have hmac : ((g.headerMessage P seed).drop 64).take 32 =
      (g.auth.macHdr P g.number (Epoch.header P seed)).val := by
    rw [Epoch.headerMessage, List.drop_left' hheader, List.take_of_length_le]
    rw [Block.length_val]
  have hvfy : g.auth.vfyHdr P g.number (Epoch.header P seed)
      (g.auth.macHdr P g.number (Epoch.header P seed)).val = .ok () := if_pos rfl
  have hsplit : g.headerMessage P seed = (Epoch.rho P seed).val ++ ((Epoch.hek P seed).val ++
      (g.auth.macHdr P g.number (Epoch.header P seed)).val) := by
    rw [Epoch.headerMessage, Epoch.header_eq, List.append_assoc]
  unfold BraidScka.acceptHeader
  rw [if_neg hlen]
  simp only [htake, hmac, hvfy, bind, Except.bind]
  rw [hsplit]
  simp only [Cursor.takeBlock_append]
  rfl

/-- **The ciphertext is completed**: the vector is the one the header promised. -/
theorem sampleCt2_eq (agent : Agent B) (seed : Block B 64) (m : Block B 32) (b : Bool) :
    (BraidScka.mk g.number (g.authAfter P seed m) agent).sampleCt2 P (Epoch.secret P seed m)
      (Epoch.ct1 P seed m) (Epoch.vector P seed) (g.key P seed m) b =
        .ok ⟨g.number, g.authAfter P seed m, .ct2Sampled (Encoder.new (g.ct2Message P seed m))
          (g.key P seed m) b⟩ := by
  have hlen : ¬ (Epoch.vector P seed).length ≠ 1152 := by
    rw [(Epoch.chunked_vector seed).length]
    decide
  have hhash : ¬ P.sha3 (Epoch.vector P seed ++ (Epoch.secret P seed m).rho.val) ≠
      (Epoch.secret P seed m).hek := by
    rw [not_not]
    exact congrArg P.sha3 (Epoch.vector_append_rho seed)
  have hct2 : encaps2 P (Epoch.secret P seed m) (Epoch.vector P seed) = .ok (Epoch.ct2 P seed m) := by
    rw [encaps2, if_neg hlen, if_neg hhash]
    rfl
  unfold BraidScka.sampleCt2
  simp only [hct2, bind, Except.bind]
  rfl

/-- **What an encapsulator receives** in the same epoch fits: it goes on. -/
theorem Encapsulates.receive (hB : Bytes B) {auth : Authenticator B} {agent : Agent B}
    (h : Encapsulates P g auth agent) (hmsg : FromDecapsulator P g msg) :
    ∃ g' agent', g.Extends g' ∧ g'.seed = g.seed ∧ Encapsulates P g' auth agent' ∧
      Quiet P ⟨g.number, auth, agent⟩ msg agent' := by
  by_cases hold : msg.epoch.toNat < g.number.toNat
  · exact ⟨g, agent, .refl g, rfl, h, BraidScka.receive_old hold⟩
  have hdone : g.Extends { g with complete := true } :=
    ⟨rfl, rfl, fun _ h ↦ h, fun _ h ↦ h, fun _ ↦ rfl⟩
  have hlast {seed : Block B 64} {m : Block B 32} (hseed : g.seed = some seed)
      (hm : g.message = some m) (b : Bool) :
      Encapsulates P { g with complete := true } (g.authAfter P seed m)
        (.ct2Sampled (Encoder.new (g.ct2Message P seed m)) (g.key P seed m) b) :=
    .ct2Sampled (g := { g with complete := true }) hseed hm rfl (Encoder.new_carries _)
  cases h with
  | @noHeaderReceived dec hm hcomplete hnone hsome =>
    cases hmsg with
    | old h => exact absurd h hold
    | none =>
      exact ⟨g, _, .refl g, rfl, .noHeaderReceived hm hcomplete hnone hsome,
        by simp [Quiet, BraidScka.receive, pure, Except.pure]⟩
    | @hdr seed hseed idx =>
      obtain ⟨d, hadd, hdec⟩ := (hsome seed hseed).addChunk hB (Epoch.chunked_headerMessage seed) idx
      cases hfull : d.decoded with
      | none =>
        refine ⟨g, .noHeaderReceived d, .refl g, rfl, .noHeaderReceived hm hcomplete ?_ ?_, ?_⟩
        · intro hnot
          cases hseed.symm.trans hnot
        · intro seed' hseed'
          cases hseed.symm.trans hseed'
          exact hdec
        · simp [Quiet, BraidScka.receive, hadd, hfull, bind, Except.bind, pure, Except.pure]
      | some blob =>
        cases hdec.decoded blob hfull
        have hnew := Decoder.new_collects (Epoch.vector P seed)
        rw [(Epoch.chunked_vector seed).length] at hnew
        refine ⟨g, _, .refl g, rfl, .headerReceived hseed hm hcomplete hnew, ?_⟩
        simp [Quiet, BraidScka.receive, hadd, hfull, acceptHeader_eq, bind, Except.bind, pure,
          Except.pure]
    | ek hseed idx =>
      exact ⟨g, _, .refl g, rfl, .noHeaderReceived hm hcomplete hnone hsome,
        by simp [Quiet, BraidScka.receive, pure, Except.pure]⟩
    | ekCt1Ack hseed idx =>
      exact ⟨g, _, .refl g, rfl, .noHeaderReceived hm hcomplete hnone hsome,
        by simp [Quiet, BraidScka.receive, pure, Except.pure]⟩
  | @headerReceived seed dec hseed hm hcomplete hdec =>
    refine ⟨g, _, .refl g, rfl, .headerReceived hseed hm hcomplete hdec, ?_⟩
    cases hmsg with
    | old h => exact absurd h hold
    | none => simp [Quiet, BraidScka.receive, pure, Except.pure]
    | hdr hs idx => simp [Quiet, BraidScka.receive, pure, Except.pure]
    | ek hs idx => simp [Quiet, BraidScka.receive, pure, Except.pure]
    | ekCt1Ack hs idx => simp [Quiet, BraidScka.receive, pure, Except.pure]
  | @ct1Sampled seed m enc dec b hseed hm hcomplete henc hdec =>
    cases hmsg with
    | old h => exact absurd h hold
    | none =>
      exact ⟨g, _, .refl g, rfl, .ct1Sampled (b := b) hseed hm hcomplete henc hdec,
        by simp [Quiet, BraidScka.receive, BraidScka.recvEkOrAck, bind, Except.bind, pure,
          Except.pure]⟩
    | hdr hs idx =>
      exact ⟨g, _, .refl g, rfl, .ct1Sampled (b := b) hseed hm hcomplete henc hdec,
        by simp [Quiet, BraidScka.receive, BraidScka.recvEkOrAck, bind, Except.bind, pure,
          Except.pure]⟩
    | @ek seed' hs idx =>
      cases hs.symm.trans hseed
      obtain ⟨d, hadd, hdec⟩ := hdec.addChunk hB (Epoch.chunked_vector seed) idx
      cases hfull : d.decoded with
      | none =>
        refine ⟨g, _, .refl g, rfl, .ct1Sampled (b := b) hseed hm hcomplete henc hdec, ?_⟩
        simp [Quiet, BraidScka.receive, BraidScka.recvEkOrAck, hadd, hfull, bind, Except.bind, pure,
          Except.pure]
      | some t =>
        cases hdec.decoded t hfull
        refine ⟨g, _, .refl g, rfl, .ekReceivedCt1Sampled (b := b) hseed hm hcomplete henc, ?_⟩
        simp [Quiet, BraidScka.receive, BraidScka.recvEkOrAck, hadd, hfull, bind, Except.bind, pure,
          Except.pure]
    | @ekCt1Ack seed' hs idx =>
      cases hs.symm.trans hseed
      obtain ⟨d, hadd, hdec⟩ := hdec.addChunk hB (Epoch.chunked_vector seed) idx
      cases hfull : d.decoded with
      | none =>
        refine ⟨g, _, .refl g, rfl, .ct1Acknowledged (b := b) hseed hm hcomplete hdec, ?_⟩
        simp [Quiet, BraidScka.receive, BraidScka.recvEkOrAck, hadd, hfull, bind, Except.bind, pure,
          Except.pure]
      | some t =>
        cases hdec.decoded t hfull
        refine ⟨_, _, hdone, rfl, hlast hseed hm b, ?_⟩
        simp [Quiet, BraidScka.receive, BraidScka.recvEkOrAck, hadd, hfull, sampleCt2_eq, bind,
          Except.bind, pure, Except.pure]
  | @ekReceivedCt1Sampled seed m enc b hseed hm hcomplete henc =>
    cases hmsg with
    | old h => exact absurd h hold
    | none =>
      exact ⟨g, _, .refl g, rfl, .ekReceivedCt1Sampled (b := b) hseed hm hcomplete henc,
        by simp [Quiet, BraidScka.receive, pure, Except.pure]⟩
    | hdr hs idx =>
      exact ⟨g, _, .refl g, rfl, .ekReceivedCt1Sampled (b := b) hseed hm hcomplete henc,
        by simp [Quiet, BraidScka.receive, pure, Except.pure]⟩
    | ek hs idx =>
      exact ⟨g, _, .refl g, rfl, .ekReceivedCt1Sampled (b := b) hseed hm hcomplete henc,
        by simp [Quiet, BraidScka.receive, pure, Except.pure]⟩
    | ekCt1Ack hs idx =>
      refine ⟨_, _, hdone, rfl, hlast hseed hm b, ?_⟩
      simp [Quiet, BraidScka.receive, sampleCt2_eq, bind, Except.bind, pure, Except.pure]
  | @ct1Acknowledged seed m dec b hseed hm hcomplete hdec =>
    cases hmsg with
    | old h => exact absurd h hold
    | none =>
      exact ⟨g, _, .refl g, rfl, .ct1Acknowledged (b := b) hseed hm hcomplete hdec,
        by simp [Quiet, BraidScka.receive, pure, Except.pure]⟩
    | hdr hs idx =>
      exact ⟨g, _, .refl g, rfl, .ct1Acknowledged (b := b) hseed hm hcomplete hdec,
        by simp [Quiet, BraidScka.receive, pure, Except.pure]⟩
    | @ek seed' hs idx =>
      cases hs.symm.trans hseed
      obtain ⟨d, hadd, hdec⟩ := hdec.addChunk hB (Epoch.chunked_vector seed) idx
      cases hfull : d.decoded with
      | none =>
        refine ⟨g, _, .refl g, rfl, .ct1Acknowledged (b := b) hseed hm hcomplete hdec, ?_⟩
        simp [Quiet, BraidScka.receive, hadd, hfull, bind, Except.bind, pure, Except.pure]
      | some t =>
        cases hdec.decoded t hfull
        refine ⟨_, _, hdone, rfl, hlast hseed hm b, ?_⟩
        simp [Quiet, BraidScka.receive, hadd, hfull, sampleCt2_eq, bind, Except.bind, pure,
          Except.pure]
    | @ekCt1Ack seed' hs idx =>
      cases hs.symm.trans hseed
      obtain ⟨d, hadd, hdec⟩ := hdec.addChunk hB (Epoch.chunked_vector seed) idx
      cases hfull : d.decoded with
      | none =>
        refine ⟨g, _, .refl g, rfl, .ct1Acknowledged (b := b) hseed hm hcomplete hdec, ?_⟩
        simp [Quiet, BraidScka.receive, hadd, hfull, bind, Except.bind, pure, Except.pure]
      | some t =>
        cases hdec.decoded t hfull
        refine ⟨_, _, hdone, rfl, hlast hseed hm b, ?_⟩
        simp [Quiet, BraidScka.receive, hadd, hfull, sampleCt2_eq, bind, Except.bind, pure,
          Except.pure]
  | @ct2Sampled seed m enc b hseed hm hcomplete henc =>
    refine ⟨g, _, .refl g, rfl, .ct2Sampled (b := b) hseed hm hcomplete henc, ?_⟩
    cases hmsg with
    | old h => exact absurd h hold
    | none => simp [Quiet, BraidScka.receive, pure, Except.pure]
    | hdr hs idx => simp [Quiet, BraidScka.receive, pure, Except.pure]
    | ek hs idx => simp [Quiet, BraidScka.receive, pure, Except.pure]
    | ekCt1Ack hs idx => simp [Quiet, BraidScka.receive, pure, Except.pure]

/-! ### The end of an epoch -/

/-- Only a ciphertext that is complete has been completed. -/
theorem Encapsulates.exists_ct2Sampled {auth : Authenticator B} {agent : Agent B}
    (h : Encapsulates P g auth agent) {seed : Block B 64} {m : Block B 32}
    (hseed : g.seed = some seed) (hm : g.message = some m) (hcomplete : g.complete = true) :
    auth = g.authAfter P seed m ∧ ∃ enc b, agent = .ct2Sampled enc (g.key P seed m) b ∧
      enc.Carries (g.ct2Message P seed m) := by
  cases h with
  | noHeaderReceived hm' hc => cases hc.symm.trans hcomplete
  | headerReceived hs hm' hc => cases hc.symm.trans hcomplete
  | ct1Sampled hs hm' hc => cases hc.symm.trans hcomplete
  | ekReceivedCt1Sampled hs hm' hc => cases hc.symm.trans hcomplete
  | ct1Acknowledged hs hm' hc => cases hc.symm.trans hcomplete
  | @ct2Sampled seed' m' enc b hs hm' hc henc =>
    cases hs.symm.trans hseed
    cases hm'.symm.trans hm
    exact ⟨rfl, enc, b, rfl, henc⟩

theorem FromDecapsulator.epoch_le (h : FromDecapsulator P g msg) :
    msg.epoch.toNat ≤ g.number.toNat := by
  cases h with
  | old h => exact h.le
  | none => exact le_rfl
  | hdr => exact le_rfl
  | ek => exact le_rfl
  | ekCt1Ack => exact le_rfl

theorem FromEncapsulator.epoch_le (h : FromEncapsulator P g msg) :
    msg.epoch.toNat ≤ g.number.toNat := by
  cases h with
  | old h => exact h.le
  | none => exact le_rfl
  | ct1 => exact le_rfl
  | ct2 => exact le_rfl

/-- An encapsulator that is done waits for a message of the next epoch. -/
theorem BraidScka.receive_ct2Sampled {s : BraidScka B} {enc : Encoder B} {ss : Block B 32} {b : Bool}
    (hagent : s.agent = .ct2Sampled enc ss b) (h : msg.epoch.toNat ≤ s.epoch.toNat) :
    s.receive P msg = .ok ((s.epoch.toNat - 1, none), s) := by
  have hnext : ¬ msg.epoch.toNat = s.epoch.toNat + 1 := by omega
  have hfuture : ¬ msg.epoch.toNat > s.epoch.toNat + 1 := by omega
  unfold BraidScka.receive
  dsimp only
  rw [if_neg hfuture, hagent]
  simp [hnext, pure, Except.pure]

/-- A message of the next epoch completes the epoch of the encapsulator. -/
theorem BraidScka.receive_next {s : BraidScka B} {enc : Encoder B} {ss : Block B 32} {b : Bool}
    (hagent : s.agent = .ct2Sampled enc ss b) (h : msg.epoch.toNat = s.epoch.toNat + 1) :
    s.receive P msg = .ok ((s.epoch.toNat - 1, some ⟨s.epoch, ss⟩),
      { s with epoch := msg.epoch, agent := .keysUnsampled }) := by
  have hfuture : ¬ msg.epoch.toNat > s.epoch.toNat + 1 := by omega
  unfold BraidScka.receive
  dsimp only
  rw [if_neg hfuture, hagent]
  simp [h, BraidScka.completeEncapsulator, pure, Except.pure]

end VoiceChatCrypto
