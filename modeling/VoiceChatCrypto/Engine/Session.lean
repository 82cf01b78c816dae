import VoiceChatCrypto.Engine.Pqxdh
import VoiceChatCrypto.Engine.Replay
import VoiceChatCrypto.Engine.Trust
import VoiceChatCrypto.Ratchet.TriplePersist

/-!
# Sessions and wire messages

What the engine of `src/engine/mod.rs` is made of: the sealed message and the initiation packet with
their wire formats, the ratchet of a session in its three profiles, and the session record with its
storage format.

All lengths on the wire and in storage are truncated to 16 or 32 bits, as the casts of the source do;
a round trip therefore has the bound as a hypothesis.
-/

open Alphabet

namespace VoiceChatCrypto

variable {B : Type} [Alphabet B]

/-- `CryptoError`. -/
inductive CryptoError
  | invalidArgument
  | cryptoFailure
  | noSession
  | identityChanged
  | replay
  | storage
  | limitExceeded
  | voiceProfileForbidden
  | internal
  deriving DecidableEq, Repr

/-- `From<PrimitiveError>`. -/
def CryptoError.ofPrimitive : PrimitiveError → CryptoError
  | .internal => .internal
  | .limitExceeded => .limitExceeded
  | .invalidLength | .invalidPublicKey => .invalidArgument
  | _ => .cryptoFailure

/-- `map_err(CryptoError::from)`. -/
def liftError {α : Type} : Except PrimitiveError α → Except CryptoError α
  | .ok a => .ok a
  | .error e => .error (.ofPrimitive e)

@[simp] theorem liftError_eq_ok {α : Type} {x : Except PrimitiveError α} {a : α} :
    liftError x = .ok a ↔ x = .ok a := by
  cases x <;> simp [liftError]

/-- `CryptoProfile`. -/
inductive CryptoProfile
  | classicalV1
  | classicalHeV1
  | hybridPqV1
  deriving DecidableEq, Repr

/-- `SessionId`. -/
abbrev SessionId (B : Type) := Block B 16

/-! ### Wire messages -/

/-- `SealedMessage`. -/
structure SealedMessage (B : Type) where
  /-- The header of the ratchet, encrypted or not. -/
  header : List B
  /-- The sealed text. -/
  ciphertext : List B
  /-- The sender's id of the session. -/
  sessionHint : SessionId B
  deriving DecidableEq

namespace SealedMessage

/-- `encode`. -/
def encode (m : SealedMessage B) : List B :=
  ascii "VCSEAL01" ++ m.sessionHint.val ++ Cursor.putVec m.header ++ Cursor.putVec m.ciphertext

/-- `decode`. -/
def decode (data : List B) : Except CryptoError (SealedMessage B) := do
  if data.length < 8 + 16 + 8 then throw .invalidArgument
  let data ← Cursor.expect CryptoError.invalidArgument (ascii "VCSEAL01") data
  let (sessionHint, data) ← Cursor.takeBlock CryptoError.invalidArgument 16 data
  let (header, data) ← Cursor.takeVec CryptoError.invalidArgument data
  let (ciphertext, data) ← Cursor.takeVec CryptoError.invalidArgument data
  Cursor.finish CryptoError.invalidArgument data { header, ciphertext, sessionHint }

/-- A message is its id, two length prefixes, the header and the ciphertext. -/
theorem length_encode (m : SealedMessage B) :
    m.encode.length = 32 + m.header.length + m.ciphertext.length := by
  have hmagic : (ascii "VCSEAL01" : List B).length = 8 := rfl
  simp only [encode, List.length_append, hmagic, Block.length_val, Cursor.length_putVec]
  omega

/-- **A message whose parts fit is read back.** -/
theorem decode_encode {m : SealedMessage B} (hh : m.header.length < 2 ^ 32)
    (hc : m.ciphertext.length < 2 ^ 32) : decode m.encode = .ok m := by
  have h1 := Cursor.takeVec_reads CryptoError.invalidArgument hh
  have h2 := Cursor.takeVec_reads CryptoError.invalidArgument hc []
  rw [List.append_nil] at h2
  have hlen : ¬ m.encode.length < 8 + 16 + 8 := by
    rw [length_encode]
    omega
  unfold decode
  rw [if_neg hlen]
  simp only [encode, List.append_assoc, Cursor.expect_append, Cursor.takeBlock_append, h1 _, h2,
    bind, Except.bind, Cursor.finish_nil]

/-- **A sealed message has one encoding.** -/
theorem encode_of_decode (hB : Bytes B) {data : List B} {m : SealedMessage B}
    (h : decode data = .ok m) : m.encode = data := by
  unfold decode at h
  split at h
  · cases h
  obtain ⟨data₁, hmagic, h⟩ := Except.bind_eq_ok.1 h
  obtain ⟨⟨hint, data₂⟩, hhint, h⟩ := Except.bind_eq_ok.1 h
  obtain ⟨⟨header, data₃⟩, hheader, h⟩ := Except.bind_eq_ok.1 h
  obtain ⟨⟨ciphertext, data₄⟩, hciphertext, h⟩ := Except.bind_eq_ok.1 h
  obtain ⟨rfl, rfl⟩ := Cursor.finish_eq_ok h
  rw [Cursor.expect_eq_ok hmagic, Cursor.takeBlock_eq_ok hhint, Cursor.takeVec_eq_ok hB hheader,
    Cursor.takeVec_eq_ok hB hciphertext, List.append_nil, encode, List.append_assoc,
    List.append_assoc]

end SealedMessage

/-- `InitiationPacket`. -/
structure InitiationPacket (B : Type) where
  /-- The identity key of the initiator. -/
  senderIdentityPublic : Block B 32
  /-- Its ephemeral key. -/
  senderEphemeralPublic : Block B 32
  /-- The ciphertext for the KEM key. -/
  kemCiphertext : List B
  /-- The signed prekey that was used. -/
  usedSpkId : UInt32
  /-- The one-time EC prekey that was used, if any. -/
  usedEcOpkId : Option UInt32
  /-- The KEM key that was used. -/
  pqPrekeyId : UInt32
  /-- The first message of the session. -/
  firstMessage : SealedMessage B
  deriving DecidableEq

namespace InitiationPacket

/-- `encode`. -/
def encode (p : InitiationPacket B) : List B :=
  ascii "VCINIT01" ++ p.senderIdentityPublic.val ++ p.senderEphemeralPublic.val ++
    le 2 p.kemCiphertext.length ++ p.kemCiphertext ++ le 4 p.usedSpkId.toNat ++
    (match p.usedEcOpkId with
    | none => [ofNat 0]
    | some id => ofNat 1 :: le 4 id.toNat) ++
    le 4 p.pqPrekeyId.toNat ++ Cursor.putVec p.firstMessage.encode

/-- The optional one-time prekey id. -/
def takeOpkId (data : List B) : Except CryptoError (Option UInt32 × List B) := do
  let (tag, data) ← Cursor.takeTag CryptoError.invalidArgument data
  match tag with
  | 0 => return (none, data)
  | 1 =>
    let (id, data) ← Cursor.takeLe CryptoError.invalidArgument 4 data
    return (some (UInt32.ofNat id), data)
  | _ => throw .invalidArgument

/-- `decode`. -/
def decode (data : List B) : Except CryptoError (InitiationPacket B) := do
  if data.length < 8 + 32 + 32 + 2 + 4 + 1 + 4 + 4 then throw .invalidArgument
  let data ← Cursor.expect CryptoError.invalidArgument (ascii "VCINIT01") data
  let (ik, data) ← Cursor.takeBlock CryptoError.invalidArgument 32 data
  let (ek, data) ← Cursor.takeBlock CryptoError.invalidArgument 32 data
  let (ctLen, data) ← Cursor.takeLe CryptoError.invalidArgument 2 data
  let (kemCiphertext, data) ← Cursor.take CryptoError.invalidArgument ctLen data
  let (spkId, data) ← Cursor.takeLe CryptoError.invalidArgument 4 data
  let (usedEcOpkId, data) ← takeOpkId data
  let (pqId, data) ← Cursor.takeLe CryptoError.invalidArgument 4 data
  let (first, data) ← Cursor.takeVec CryptoError.invalidArgument data
  if data.length ≠ 0 then throw .invalidArgument
  let firstMessage ← SealedMessage.decode first
  return { senderIdentityPublic := ik, senderEphemeralPublic := ek, kemCiphertext
           usedSpkId := UInt32.ofNat spkId, usedEcOpkId, pqPrekeyId := UInt32.ofNat pqId
           firstMessage }

theorem takeOpkId_append (id : Option UInt32) (rest : List B) :
    takeOpkId ((match id with
      | none => [ofNat 0]
      | some id => ofNat 1 :: le 4 id.toNat) ++ rest) = .ok (id, rest) := by
  cases id with
  | none => simp [takeOpkId, bind, Except.bind, pure, Except.pure]
  | some id => simp [takeOpkId, bind, Except.bind, pure, Except.pure]

/-- **A packet survives the wire** when its parts fit their lengths. -/
theorem decode_encode {p : InitiationPacket B} (hk : p.kemCiphertext.length < 2 ^ 16)
    (hf : p.firstMessage.encode.length < 2 ^ 32) : decode p.encode = .ok p := by
  have hmagic : (ascii "VCINIT01" : List B).length = 8 := rfl
  have hk' : p.kemCiphertext.length % 256 ^ 2 = p.kemCiphertext.length :=
    Nat.mod_eq_of_lt (by omega)
  have hfirst := Cursor.takeVec_reads CryptoError.invalidArgument hf []
  rw [List.append_nil] at hfirst
  have hmsg : SealedMessage.decode p.firstMessage.encode = .ok p.firstMessage := by
    rw [SealedMessage.length_encode] at hf
    exact SealedMessage.decode_encode (by omega) (by omega)
  have hlen : ¬ p.encode.length < 8 + 32 + 32 + 2 + 4 + 1 + 4 + 4 := by
    simp only [encode, List.length_append, hmagic, Block.length_val, length_le,
      Cursor.length_putVec]
    split <;> simp <;> omega
  unfold decode
  rw [if_neg hlen]
  simp only [encode, List.append_assoc, Cursor.expect_append, Cursor.takeBlock_append,
    Cursor.takeLe_append, hk', Cursor.take_append, takeOpkId_append, hfirst, hmsg, ofNat_toNat_mod,
    bind, Except.bind, pure, Except.pure, List.length_nil, ne_eq, not_true, if_false]

/-- A first message that does not fit its length leaves bytes over, and is refused. -/
theorem decode_encode_of_le {p : InitiationPacket B} (hk : p.kemCiphertext.length < 2 ^ 16)
    (hf : 2 ^ 32 ≤ p.firstMessage.encode.length) : decode p.encode = .error .invalidArgument := by
  have hmagic : (ascii "VCINIT01" : List B).length = 8 := rfl
  have hk' : p.kemCiphertext.length % 256 ^ 2 = p.kemCiphertext.length :=
    Nat.mod_eq_of_lt (by omega)
  -- the length is written modulo `2 ^ 32`, and that many bytes are taken back
  have hlt : p.firstMessage.encode.length % 256 ^ 4 < 2 ^ 32 := Nat.mod_lt _ (by decide)
  have htake : Cursor.takeVec CryptoError.invalidArgument (Cursor.putVec p.firstMessage.encode) =
      .ok (p.firstMessage.encode.take (p.firstMessage.encode.length % 256 ^ 4),
        p.firstMessage.encode.drop (p.firstMessage.encode.length % 256 ^ 4)) := by
    unfold Cursor.takeVec Cursor.putVec Cursor.take
    simp only [Cursor.takeLe_append, bind, Except.bind]
    rw [if_neg (by omega)]
  have hrest : (p.firstMessage.encode.drop (p.firstMessage.encode.length % 256 ^ 4)).length ≠ 0 := by
    rw [List.length_drop]
    omega
  have hlen : ¬ p.encode.length < 8 + 32 + 32 + 2 + 4 + 1 + 4 + 4 := by
    simp only [encode, List.length_append, hmagic, Block.length_val, length_le,
      Cursor.length_putVec]
    split <;> simp <;> omega
  unfold decode
  rw [if_neg hlen]
  simp only [encode, List.append_assoc, Cursor.expect_append, Cursor.takeBlock_append,
    Cursor.takeLe_append, hk', Cursor.take_append, takeOpkId_append, htake, bind, Except.bind]
  rw [if_pos hrest]
  rfl

theorem takeOpkId_eq_ok (hB : Bytes B) {data rest : List B} {id : Option UInt32} :
    takeOpkId data = .ok (id, rest) → data = (match id with
      | none => [ofNat 0]
      | some id => ofNat 1 :: le 4 id.toNat) ++ rest := by
  intro hok
  obtain ⟨⟨tag, data₁⟩, htag, h⟩ := Except.bind_eq_ok.1 hok
  rw [(Cursor.takeTag_eq_ok hB htag).1]
  dsimp only at h
  split at h
  · cases h
    rfl
  · obtain ⟨⟨n, data₂⟩, hn, h⟩ := Except.bind_eq_ok.1 h
    obtain ⟨hdata, hlt⟩ := Cursor.takeLe_eq_ok hB hn
    cases h
    show ofNat 1 :: data₁ = ofNat 1 :: le 4 (UInt32.ofNat n).toNat ++ data₂
    rw [hdata, toNat_ofNat_u32 hlt, List.cons_append]
  · cases h

/-- **A packet has one encoding.** -/
theorem encode_of_decode (hB : Bytes B) {data : List B} {p : InitiationPacket B}
    (h : decode data = .ok p) : p.encode = data := by
  unfold decode at h
  split at h
  · cases h
  obtain ⟨data₁, hmagic, h⟩ := Except.bind_eq_ok.1 h
  obtain ⟨⟨ik, data₂⟩, hik, h⟩ := Except.bind_eq_ok.1 h
  obtain ⟨⟨ek, data₃⟩, hek, h⟩ := Except.bind_eq_ok.1 h
  obtain ⟨⟨ctLen, data₄⟩, hlen, h⟩ := Except.bind_eq_ok.1 h
  obtain ⟨⟨ct, data₅⟩, hct, h⟩ := Except.bind_eq_ok.1 h
  obtain ⟨⟨spkId, data₆⟩, hspk, h⟩ := Except.bind_eq_ok.1 h
  obtain ⟨⟨opkId, data₇⟩, hopk, h⟩ := Except.bind_eq_ok.1 h
  obtain ⟨⟨pqId, data₈⟩, hpq, h⟩ := Except.bind_eq_ok.1 h
  obtain ⟨⟨first, data₉⟩, hfirst, h⟩ := Except.bind_eq_ok.1 h
  dsimp only at h
  split at h
  · cases h
  rename_i hrest
  obtain ⟨msg, hmsg, h⟩ := Except.bind_eq_ok.1 h
  cases h
  have hnil : data₉ = [] := List.length_eq_zero_iff.1 (not_not.1 hrest)
  obtain ⟨hct, hctLen⟩ := Cursor.take_eq_ok hct
  obtain ⟨hspk, hspkLt⟩ := Cursor.takeLe_eq_ok hB hspk
  obtain ⟨hpq, hpqLt⟩ := Cursor.takeLe_eq_ok hB hpq
  rw [Cursor.expect_eq_ok hmagic, Cursor.takeBlock_eq_ok hik, Cursor.takeBlock_eq_ok hek,
    (Cursor.takeLe_eq_ok hB hlen).1, hct, hspk, takeOpkId_eq_ok hB hopk, hpq,
    Cursor.takeVec_eq_ok hB hfirst, hnil, ← SealedMessage.encode_of_decode hB hmsg]
  dsimp only [encode]
  rw [toNat_ofNat_u32 hspkLt, toNat_ofNat_u32 hpqLt, hctLen]
  simp only [List.append_assoc, List.append_nil]

end InitiationPacket

/-- A decoded hybrid header has a usable ratchet key. -/
theorem TripleHeader.dh_ne_zero_of_decode {data : List B} {h : TripleHeader B}
    (hd : TripleHeader.decode data = .ok h) : h.classical.dh ≠ Block.zero 32 := by
  unfold TripleHeader.decode at hd
  dsimp only at hd
  split at hd
  · cases hd
  obtain ⟨classical, hc, hd⟩ := Except.bind_eq_ok.1 hd
  obtain ⟨⟨pqEpoch, rest⟩, -, hd⟩ := Except.bind_eq_ok.1 hd
  obtain ⟨⟨pqN, rest'⟩, -, hd⟩ := Except.bind_eq_ok.1 hd
  have hne := Header.dh_ne_zero_of_decode hc
  dsimp only at hd
  split at hd
  · cases hd
    exact hne
  split at hd
  · split at hd
    · cases hd
    · cases hd
      exact hne
  split at hd
  · obtain ⟨⟨n, blob⟩, -, hd⟩ := Except.bind_eq_ok.1 hd
    dsimp only at hd
    split at hd
    · cases hd
    obtain ⟨m, -, hd⟩ := Except.bind_eq_ok.1 hd
    cases hd
    exact hne
  · cases hd

/-! ### Live ratchets -/

/-- What one engine call may draw from the random number generator, and the order in which it will
see the entries of its hash maps. -/
structure Draws (B : Type) where
  /-- Iteration order of hash maps. -/
  order : Enumeration
  /-- One-time prekeys. -/
  prekeys : PrekeyDraws B
  /-- The ephemeral secret of a handshake. -/
  ephemeral : Block B 32
  /-- The KEM coins of a handshake. -/
  kemCoins : Block B 32
  /-- A ratchet secret. -/
  ratchet : Block B 32
  /-- The nonce of a sealed header. -/
  headerNonce : Block B 12
  /-- The seed of a Braid key pair. -/
  braidSeed : Block B 64
  /-- The message of a Braid encapsulation. -/
  braidMessage : Block B 32
  /-- A session id. -/
  sessionId : SessionId B

/-- `LiveRatchet`. -/
inductive LiveRatchet (B : Type) [Alphabet B]
  | classical (r : DoubleRatchetState B)
  | headerEncrypt (r : HeaderEncryptState B)
  | hybrid (r : TripleRatchetState B)

namespace LiveRatchet

variable (P : Primitives B)

/-- `encrypt`: header bytes, ciphertext, and the ratchet afterwards. -/
def encrypt (d : Draws B) (plaintext ad : List B) :
    LiveRatchet B → Except CryptoError ((List B × List B) × LiveRatchet B)
  | classical r => do
    let ((h, ct), r) ← liftError (r.encrypt P plaintext ad)
    return ((h.encode, ct), classical r)
  | headerEncrypt r => do
    let (out, r) ← liftError (r.encrypt P d.headerNonce plaintext ad)
    return (out, headerEncrypt r)
  | hybrid r => do
    let ((h, ct), r) ← liftError (r.encrypt P d.braidSeed d.braidMessage plaintext ad)
    return ((h.encode, ct), hybrid r)

/-- `decrypt` on a trial copy: the plaintext, and the ratchet to commit. -/
def decrypt (d : Draws B) (header ciphertext ad : List B) :
    LiveRatchet B → Except CryptoError (List B × LiveRatchet B)
  | classical r => do
    let h ← liftError (Header.decode header)
    match r.decrypt P d.ratchet h ciphertext ad with
    | (.ok plaintext, r) => return (plaintext, classical r)
    | (.error e, _) => throw (.ofPrimitive e)
  | headerEncrypt r =>
    match r.decrypt P d.order d.ratchet header ciphertext ad with
    | (.ok plaintext, r) => .ok (plaintext, headerEncrypt r)
    | (.error e, _) => .error (.ofPrimitive e)
  | hybrid r => do
    let h ← liftError (TripleHeader.decode header)
    match r.decrypt P d.ratchet h ciphertext ad with
    | (.ok plaintext, r) => return (plaintext, hybrid r)
    | (.error e, _) => throw (.ofPrimitive e)

/-- `persist_blob`. -/
def persistBlob (σ : Enumeration) : LiveRatchet B → List B
  | classical r => ofNat 1 :: r.serialize σ
  | hybrid r => ofNat 2 :: r.serialize σ
  | headerEncrypt r => ofNat 3 :: r.serialize σ

/-- `restore`. -/
def restore (data : List B) : Except CryptoError (LiveRatchet B) := do
  let (tag, data) ← Cursor.takeTag CryptoError.storage data
  match tag with
  | 1 =>
    let r ← liftError (DoubleRatchetState.deserialize defaultMaxSkip data)
    return classical r
  | 2 =>
    let r ← liftError (TripleRatchetState.deserialize defaultMaxSkip data)
    return hybrid r
  | 3 =>
    let r ← liftError (HeaderEncryptState.deserialize defaultMaxSkip data)
    return headerEncrypt r
  | _ => throw .storage

/-- The position of a sending chain: the public half of its ratchet secret, and the message number.
There is none before the chain is open. -/
def chainPosition (dhs cks : Option (Block B 32)) (ns : UInt32) : Option (Block B 32 × UInt32) :=
  match dhs, cks with
  | some s, some _ => some (P.publicKey s, ns)
  | _, _ => none

/-- The position the next message will be sealed at. -/
def position : LiveRatchet B → Option (Block B 32 × UInt32)
  | classical r => chainPosition P r.dhs r.cks r.ns
  | headerEncrypt r => chainPosition P r.dhs r.cks r.ns
  | hybrid r => chainPosition P r.classical.dhs r.classical.cks r.classical.ns

/-- The limit on skipped keys. -/
def maxSkip : LiveRatchet B → UInt32
  | classical r => r.maxSkip
  | headerEncrypt r => r.maxSkip
  | hybrid r => r.classical.maxSkip

/-- Ratchets whose format loses nothing but the limit, in each profile. -/
def Fits : LiveRatchet B → Prop
  | classical r => r.Fits
  | headerEncrypt r => r.Fits
  | hybrid r => r.Fits

/-- **Storable ratchets**, in each profile. -/
def Storable : LiveRatchet B → Prop
  | classical r => r.Storable
  | headerEncrypt r => r.Storable
  | hybrid r => r.Storable

variable {P}

theorem Storable.fits {r : LiveRatchet B} (hr : r.Storable) : r.Fits := by
  cases r with
  | classical r => exact DoubleRatchetState.Storable.fits hr
  | headerEncrypt r => exact HeaderEncryptState.Storable.fits hr
  | hybrid r => exact TripleRatchetState.Storable.fits hr

theorem Storable.maxSkip_eq {r : LiveRatchet B} (hr : r.Storable) :
    r.maxSkip = defaultMaxSkip := by
  cases r with
  | classical r => exact DoubleRatchetState.Storable.maxSkip hr
  | headerEncrypt r => exact HeaderEncryptState.Storable.maxSkip hr
  | hybrid r => exact (TripleRatchetState.Storable.classical hr).maxSkip

/-- **A ratchet survives persistence**, in each profile, when its limit is the one `restore` puts
back. -/
theorem restore_persistBlob_of_fits {r : LiveRatchet B} (hr : r.Fits)
    (hskip : r.maxSkip = defaultMaxSkip) (σ : Enumeration) :
    restore (r.persistBlob σ) = .ok r := by
  cases r with
  | classical r =>
    have h := DoubleRatchetState.deserialize_serialize hr σ
    rw [show r.maxSkip = defaultMaxSkip from hskip] at h
    simp [restore, persistBlob, h, liftError, bind, Except.bind, pure, Except.pure]
  | headerEncrypt r =>
    have h := HeaderEncryptState.deserialize_serialize hr σ
    rw [show r.maxSkip = defaultMaxSkip from hskip] at h
    simp [restore, persistBlob, h, liftError, bind, Except.bind, pure, Except.pure]
  | hybrid r =>
    have h := TripleRatchetState.deserialize_serialize hr σ
    rw [show r.classical.maxSkip = defaultMaxSkip from hskip] at h
    simp [restore, persistBlob, h, liftError, bind, Except.bind, pure, Except.pure]

/-- **A storable ratchet is read back as it was.** -/
theorem restore_persistBlob {r : LiveRatchet B} (hr : r.Storable) (σ : Enumeration) :
    restore (r.persistBlob σ) = .ok r :=
  restore_persistBlob_of_fits hr.fits hr.maxSkip_eq σ

theorem length_persistBlob_lt {r : LiveRatchet B} (hr : r.Storable) (σ : Enumeration) :
    (r.persistBlob σ).length < 2 ^ 32 := by
  cases r with
  | classical r =>
    have h := DoubleRatchetState.length_serialize_le hr σ
    simp only [persistBlob, List.length_cons]
    omega
  | headerEncrypt r =>
    have h := HeaderEncryptState.length_serialize_le hr σ
    simp only [persistBlob, List.length_cons]
    omega
  | hybrid r =>
    have h := TripleRatchetState.length_serialize_le hr σ
    simp only [persistBlob, List.length_cons]
    omega

omit [Alphabet B] in
/-- A chain that was opened on the drawn secret, or not touched at all. -/
theorem chainPosition_after {fresh : Block B 32} {dhs cks dhs' cks' : Option (Block B 32)}
    {ns ns' : UInt32}
    (h : (dhs' = dhs ∧ ns' = ns ∧ cks' = cks) ∨ (dhs' = some fresh ∧ ns' = 0 ∧ cks'.isSome)) :
    chainPosition P dhs' cks' ns' = chainPosition P dhs cks ns ∨
      chainPosition P dhs' cks' ns' = some (P.publicKey fresh, 0) := by
  rcases h with ⟨rfl, rfl, rfl⟩ | ⟨rfl, rfl, hc⟩
  · exact .inl rfl
  · obtain ⟨c, rfl⟩ := Option.isSome_iff_exists.1 hc
    exact .inr rfl

/-- **Sealing moves one position on**, and keeps a ratchet storable. -/
theorem encrypt_eq_ok {d : Draws B} {pt ad header ct : List B} {r r' : LiveRatchet B}
    (h : encrypt P d pt ad r = .ok ((header, ct), r')) :
    (r.Storable → r'.Storable) ∧ ∃ pk n n', r.position P = some (pk, n) ∧
      r'.position P = some (pk, n') ∧ n'.toNat = n.toNat + 1 := by
  cases r with
  | classical r =>
    obtain ⟨⟨⟨hd, c⟩, t⟩, henc, hret⟩ := Except.bind_eq_ok.1 h
    cases hret
    obtain ⟨msgKey, hsend, -⟩ := DoubleRatchetState.encrypt_eq_ok.1 (liftError_eq_ok.1 henc)
    refine ⟨fun hr ↦ DoubleRatchetState.sendMessageKey_storable hr hsend, ?_⟩
    obtain ⟨cks, dhs, ns, hcks, hdhs, hns, -, -, rfl⟩ :=
      DoubleRatchetState.sendMessageKey_eq_ok hsend
    refine ⟨P.publicKey dhs, _, ns, ?_, ?_, checkedInc_eq_ok hns⟩
    · simp only [position, hdhs, hcks, chainPosition]
    · simp only [position, hdhs, chainPosition]
  | headerEncrypt r =>
    obtain ⟨⟨⟨hd, c⟩, t⟩, henc, hret⟩ := Except.bind_eq_ok.1 h
    cases hret
    have henc := liftError_eq_ok.1 henc
    refine ⟨fun hr ↦ HeaderEncryptState.encrypt_storable hr henc, ?_⟩
    obtain ⟨cks, dhs, hks, ns, hcks, hdhs, -, hns, -, -, rfl⟩ :=
      HeaderEncryptState.encrypt_eq_ok henc
    refine ⟨P.publicKey dhs, _, ns, ?_, ?_, checkedInc_eq_ok hns⟩
    · simp only [position, hdhs, hcks, chainPosition]
    · simp only [position, hdhs, chainPosition]
  | hybrid r =>
    obtain ⟨⟨⟨hd, c⟩, t⟩, henc, hret⟩ := Except.bind_eq_ok.1 h
    cases hret
    have henc := liftError_eq_ok.1 henc
    refine ⟨fun hr ↦ TripleRatchetState.encrypt_storable hr henc, ?_⟩
    obtain ⟨ecHeader, ecMk, pqEpoch, pqN, pqMk, hsend, -⟩ := TripleRatchetState.encrypt_eq_ok henc
    obtain ⟨cks, dhs, ns, hcks, hdhs, hns, -, -, hc⟩ :=
      DoubleRatchetState.sendMessageKey_eq_ok hsend
    refine ⟨P.publicKey dhs, _, ns, ?_, ?_, checkedInc_eq_ok hns⟩
    · simp only [position, hdhs, hcks, chainPosition]
    · simp only [position, hc, hdhs, chainPosition]

/-- Opening leaves the sending position alone, or opens a new chain on the drawn secret. -/
theorem decrypt_eq_ok {d : Draws B} {header ct ad pt : List B} {r r' : LiveRatchet B}
    (hr : r.Storable) (h : decrypt P d header ct ad r = .ok (pt, r')) :
    r'.Storable ∧
      (r'.position P = r.position P ∨ r'.position P = some (P.publicKey d.ratchet, 0)) := by
  cases r with
  | classical r =>
    obtain ⟨hd, hdec, h⟩ := Except.bind_eq_ok.1 h
    have hne := Header.dh_ne_zero_of_decode (liftError_eq_ok.1 hdec)
    rcases DoubleRatchetState.decrypt_cases P d.ratchet hd ct ad r with
      ⟨msgKey, trial, pt', hkey, -, heq⟩ | ⟨e, heq, -⟩
    · rw [heq] at h
      cases h
      obtain ⟨hs, hsend⟩ := DoubleRatchetState.ratchetReceiveKey_storable hr hne hkey
      exact ⟨hs, chainPosition_after hsend⟩
    · rw [heq] at h
      cases h
  | headerEncrypt r =>
    unfold decrypt at h
    rcases HeaderEncryptState.decrypt_cases P d.order d.ratchet header ct ad r with
      ⟨msgKey, trial, pt', hkey, -, heq⟩ | ⟨e, heq⟩
    · simp only [heq] at h
      cases h
      obtain ⟨hs, hsend⟩ := HeaderEncryptState.receiveKey_storable hr hkey
      exact ⟨hs, chainPosition_after hsend⟩
    · simp only [heq] at h
      cases h
  | hybrid r =>
    obtain ⟨hd, hdec, h⟩ := Except.bind_eq_ok.1 h
    have hne := TripleHeader.dh_ne_zero_of_decode (liftError_eq_ok.1 hdec)
    unfold TripleRatchetState.decrypt at h
    cases htry : TripleRatchetState.tryDecrypt P d.ratchet hd ct ad r with
    | error e =>
      rw [htry] at h
      cases h
    | ok a =>
      obtain ⟨pt', trial⟩ := a
      rw [htry] at h
      cases h
      obtain ⟨hs, hsend⟩ := TripleRatchetState.tryDecrypt_storable hr hne htry
      exact ⟨hs, chainPosition_after hsend⟩

end LiveRatchet

section Init

variable (P : Primitives B)

/-- `he_keys_from_sk`. -/
def heKeysFromSk (sk : Block B 32) : Block B 32 × Block B 32 :=
  (hkdf P none sk.val Labels.drHeader 0, hkdf P none sk.val Labels.drHeader 1)

/-- `init_alice_ratchet`, with the ratchet secret it draws. -/
def initAliceRatchet (profile : CryptoProfile) (dhs sk bobSpk : Block B 32) :
    Except CryptoError (LiveRatchet B) :=
  match profile with
  | .classicalV1 => .ok (.classical (DoubleRatchetState.initAlice P dhs sk bobSpk defaultMaxSkip))
  | .classicalHeV1 =>
    let (hka, nhkb) := heKeysFromSk P sk
    .ok (.headerEncrypt (HeaderEncryptState.initAlice P dhs sk bobSpk hka nhkb defaultMaxSkip))
  | .hybridPqV1 => do
    let r ← liftError (TripleRatchetState.initAlice P dhs sk bobSpk)
    return .hybrid r

/-- `init_bob_ratchet`. -/
def initBobRatchet (profile : CryptoProfile) (sk bobDh : Block B 32) :
    Except CryptoError (LiveRatchet B) :=
  match profile with
  | .classicalV1 => .ok (.classical (DoubleRatchetState.initBob sk bobDh defaultMaxSkip))
  | .classicalHeV1 =>
    let (hka, nhkb) := heKeysFromSk P sk
    .ok (.headerEncrypt (HeaderEncryptState.initBob sk bobDh hka nhkb defaultMaxSkip))
  | .hybridPqV1 => do
    let r ← liftError (TripleRatchetState.initBob P sk bobDh)
    return .hybrid r

variable {P}

/-- A fresh ratchet of Alice is storable and stands at the start of its first chain. -/
theorem initAliceRatchet_eq_ok {profile : CryptoProfile} {dhs sk bobSpk : Block B 32}
    {r : LiveRatchet B} (hb : bobSpk ≠ Block.zero 32)
    (h : initAliceRatchet P profile dhs sk bobSpk = .ok r) :
    r.Storable ∧ r.position P = some (P.publicKey dhs, 0) := by
  cases profile with
  | classicalV1 =>
    cases h
    exact ⟨DoubleRatchetState.initAlice_storable P dhs sk hb, rfl⟩
  | classicalHeV1 =>
    cases h
    exact ⟨HeaderEncryptState.initAlice_storable P dhs sk _ _ hb, rfl⟩
  | hybridPqV1 =>
    obtain ⟨t, hinit, hret⟩ := Except.bind_eq_ok.1 h
    cases hret
    have hinit := liftError_eq_ok.1 hinit
    refine ⟨TripleRatchetState.initAlice_storable hb hinit, ?_⟩
    obtain ⟨⟨epoch, spqr⟩, -, hret⟩ := Except.bind_eq_ok.1 hinit
    cases hret
    rfl

/-- A fresh ratchet of Bob is storable and cannot send yet. -/
theorem initBobRatchet_eq_ok {profile : CryptoProfile} {sk bobDh : Block B 32} {r : LiveRatchet B}
    (h : initBobRatchet P profile sk bobDh = .ok r) : r.Storable ∧ r.position P = none := by
  cases profile with
  | classicalV1 =>
    cases h
    exact ⟨DoubleRatchetState.initBob_storable sk bobDh, rfl⟩
  | classicalHeV1 =>
    cases h
    exact ⟨HeaderEncryptState.initBob_storable sk bobDh _ _, rfl⟩
  | hybridPqV1 =>
    obtain ⟨t, hinit, hret⟩ := Except.bind_eq_ok.1 h
    cases hret
    have hinit := liftError_eq_ok.1 hinit
    refine ⟨TripleRatchetState.initBob_storable hinit, ?_⟩
    obtain ⟨⟨epoch, spqr⟩, -, hret⟩ := Except.bind_eq_ok.1 hinit
    cases hret
    rfl

end Init

/-! ### Sessions -/

/-- `LiveSession`. -/
structure LiveSession (B : Type) [Alphabet B] where
  /-- The ratchet, of any profile. -/
  ratchet : LiveRatchet B
  /-- The identity key of the peer. -/
  remoteIdentity : Block B 32
  /-- The conversation, which every message binds. -/
  conversation : List B
  /-- What is known of the peer's identity. -/
  identityTracker : IdentityTracker B
  /-- The associated data of the handshake, which every message binds. -/
  handshakeAd : List B

namespace LiveSession

/-- `encode_session`. -/
def encode (σ : Enumeration) (sid : SessionId B) (s : LiveSession B) : List B :=
  ascii "VCSESS01" ++ sid.val ++ s.remoteIdentity.val ++ Cursor.putVec s.conversation ++
    Cursor.putVec s.handshakeAd ++ Cursor.putVec (s.ratchet.persistBlob σ)

/-- `decode_session`. The identity tracker is not stored: it is rebuilt from the trust store. -/
def decode (data : List B) : Except CryptoError (SessionId B × LiveSession B) := do
  if data.length < 8 + 16 + 32 + 12 then throw .storage
  let data ← Cursor.expect CryptoError.storage (ascii "VCSESS01") data
  let (sid, data) ← Cursor.takeBlock CryptoError.storage 16 data
  let (ik, data) ← Cursor.takeBlock CryptoError.storage 32 data
  let (conversation, data) ← Cursor.takeVec CryptoError.storage data
  let (handshakeAd, data) ← Cursor.takeVec CryptoError.storage data
  let (rlen, data) ← Cursor.takeLe CryptoError.storage 4 data
  if rlen ≠ data.length then throw .storage
  let ratchet ← LiveRatchet.restore data
  let remoteIdentity ← liftError (publicFromBytes ik)
  return (sid,
    { ratchet, remoteIdentity, conversation, identityTracker := IdentityTracker.new, handshakeAd })

/-- **Storable sessions** are written and read back without loss, up to their identity trackers,
which the trust store restores. -/
structure Storable (s : LiveSession B) : Prop where
  /-- The ratchet can be stored. -/
  ratchet : s.ratchet.Storable
  /-- The peer's identity key is usable. -/
  remoteIdentity : s.remoteIdentity ≠ Block.zero 32
  /-- The conversation's length fits into its prefix. -/
  conversation : s.conversation.length < 2 ^ 32
  /-- So does that of the handshake's data. -/
  handshakeAd : s.handshakeAd.length < 2 ^ 32

/-- **A session survives persistence**, up to its identity tracker. -/
theorem decode_encode {s : LiveSession B} (hs : s.Storable) (σ : Enumeration) (sid : SessionId B) :
    decode (s.encode σ sid) = .ok (sid, { s with identityTracker := IdentityTracker.new }) := by
  have hmagic : (ascii "VCSESS01" : List B).length = 8 := rfl
  have hconv := Cursor.takeVec_reads CryptoError.storage hs.conversation
  have had := Cursor.takeVec_reads CryptoError.storage hs.handshakeAd
  have hblob := LiveRatchet.length_persistBlob_lt hs.ratchet σ
  have hrlen : (s.ratchet.persistBlob σ).length % 256 ^ 4 = (s.ratchet.persistBlob σ).length :=
    Nat.mod_eq_of_lt (by omega)
  have hput : Cursor.putVec (s.ratchet.persistBlob σ) =
      le 4 (s.ratchet.persistBlob σ).length ++ s.ratchet.persistBlob σ := rfl
  have hlen : ¬ (s.encode σ sid).length < 8 + 16 + 32 + 12 := by
    simp only [encode, List.length_append, hmagic, Block.length_val, Cursor.length_putVec]
    omega
  unfold decode
  rw [if_neg hlen]
  simp only [encode, List.append_assoc, Cursor.expect_append, Cursor.takeBlock_append, hconv _,
    had _, hput, Cursor.takeLe_append, hrlen, LiveRatchet.restore_persistBlob hs.ratchet,
    publicFromBytes_of_ne hs.remoteIdentity, liftError, bind, Except.bind, pure, Except.pure, ne_eq,
    not_true, if_false]

/-- `bound_ad`: the handshake data and the conversation, each behind its length, then the caller's
data. -/
def boundAd (s : LiveSession B) (ad : List B) : List B :=
  Cursor.putVec s.handshakeAd ++ Cursor.putVec s.conversation ++ ad

end LiveSession

/-- `PROTOCOL_VERSION`. -/
def protocolVersion : ℕ := 1

/-- `replay_key`. -/
def replayKey (sid : SessionId B) (sealed : SealedMessage B) (conversation senderDevice : List B) :
    ReplayKey B :=
  { conversationId := conversation
    senderDeviceId := senderDevice
    messageId := le 2 protocolVersion ++ sid.val ++ sealed.header ++ sealed.ciphertext.take 32 }

end VoiceChatCrypto
