import VoiceChatCrypto.Braid.Scka
import VoiceChatCrypto.Ratchet.Double

/-!
# The Triple Ratchet

The hybrid of the classical Double Ratchet with SPQR, whose epochs are driven by Braid:
`src/ratchet/spqr/mod.rs` and `src/ratchet/triple/mod.rs`. Every message carries the classical header,
the SPQR epoch and position, and one Braid message; its key is derived from both ratchets' keys.

The delicate point is **when** the SPQR receiving chain moves to a new epoch. The encapsulating side
learns that its peer has finished from a message of the next epoch, and advances *before* deriving
that message's key; the decapsulating side finishes on a message that is still of the old epoch, and
advances *after* it. `advance_epoch` replaces the receiving chain outright.
-/

open Alphabet

namespace VoiceChatCrypto

variable {B : Type} [Alphabet B]

/-! ### SPQR -/

/-- `SPQR_MAX_SKIP_EPOCHS`. -/
def spqrMaxSkipEpochs : UInt32 := 32

/-- One epoch's message-key chain. When the next epoch begins it is dropped, and so are the keys
that it could still have derived. -/
structure EpochChain (B : Type) where
  /-- The epoch. -/
  epoch : UInt32
  /-- The chain key. -/
  chainKey : Block B 32
  /-- The number of the next message. -/
  n : UInt32
  deriving DecidableEq

/-- `SpqrState`. -/
structure SpqrState (B : Type) where
  /-- The sending chain, once an epoch has begun. -/
  sending : Option (EpochChain B)
  /-- The receiving chain, once an epoch has begun. -/
  receiving : Option (EpochChain B)
  /-- The root for the next epoch. -/
  root : Block B 32
  /-- The number of the next epoch. -/
  nextEpoch : UInt32
  /-- Skipped message keys by epoch and position. -/
  skipped : Dict (UInt32 × UInt32) (Block B 32)
  /-- For how many epochs skipped keys are kept. -/
  maxSkipEpochs : UInt32

namespace SpqrState

variable (P : Primitives B)

/-- `init`. -/
def init (skPq : Block B 32) (maxSkipEpochs : UInt32) : SpqrState B :=
  { sending := none, receiving := none, root := skPq, nextEpoch := 1, skipped := ∅, maxSkipEpochs }

/-- `kdf_ck_spqr`. -/
def kdfCkSpqr (ck : Block B 32) : Block B 32 × Block B 32 :=
  (hkdf P none ck.val Labels.drChain 0, hkdf P none ck.val Labels.drChain 1)

/-- `advance_epoch`: a new root, and new chains in both directions from the same material. Stored keys
of old epochs are dropped. -/
def advanceEpoch (scka : Block B 32) (s : SpqrState B) :
    Except PrimitiveError (UInt32 × SpqrState B) := do
  let epoch := s.nextEpoch
  let nextEpoch ← checkedInc s.nextEpoch
  let root := hkdf P (some s.root.val) scka.val Labels.spqrEpoch 0
  let chain : EpochChain B :=
    { epoch, chainKey := hkdf P (some s.root.val) scka.val Labels.spqrEpoch 1, n := 0 }
  return (epoch, { s with
    nextEpoch, root, sending := some chain, receiving := some chain
    skipped := s.skipped.filter fun k ↦ k.1.toNat + s.maxSkipEpochs.toNat ≥ epoch.toNat })

/-- `receiving_epoch`. -/
def receivingEpoch (s : SpqrState B) : Option UInt32 := s.receiving.map fun c ↦ c.epoch

/-- `send_key`: epoch, position and key of the next message. -/
def sendKey (s : SpqrState B) :
    Except PrimitiveError ((UInt32 × UInt32 × Block B 32) × SpqrState B) := do
  let some chain := s.sending | throw .internal
  let (newCk, msgKey) := kdfCkSpqr P chain.chainKey
  let n ← checkedInc chain.n
  return ((chain.epoch, chain.n, msgKey), { s with sending := some { chain with chainKey := newCk, n } })

/-- The loop of `receive_key`, `fuel` positions long. -/
def skipLoop : ℕ → EpochChain B → Dict (UInt32 × UInt32) (Block B 32) →
    Except PrimitiveError (EpochChain B × Dict (UInt32 × UInt32) (Block B 32))
  | 0, chain, skipped => .ok (chain, skipped)
  | fuel + 1, chain, skipped => do
    let (newCk, msgKey) := kdfCkSpqr P chain.chainKey
    let skipped := skipped.insert (chain.epoch, chain.n) msgKey
    let n ← checkedInc chain.n
    if Dict.size skipped > 256 then throw .invalidLength
    skipLoop fuel { chain with chainKey := newCk, n } skipped

/-- `receive_key`. -/
def receiveKey (epoch n : UInt32) (s : SpqrState B) :
    Except PrimitiveError (Block B 32 × SpqrState B) :=
  match s.skipped.lookup (epoch, n) with
  | some msgKey => .ok (msgKey, { s with skipped := s.skipped.erase (epoch, n) })
  | none => do
    let some chain := s.receiving | throw .internal
    if chain.epoch ≠ epoch then throw .invalidLength
    if n.toNat < chain.n.toNat then throw .invalidLength
    if n.toNat - chain.n.toNat > min (s.maxSkipEpochs.toNat * 64) (2 ^ 32 - 1) then
      throw .invalidLength
    let (chain, skipped) ← skipLoop P (n.toNat - chain.n.toNat) chain s.skipped
    let (newCk, msgKey) := kdfCkSpqr P chain.chainKey
    let next ← checkedInc chain.n
    return (msgKey,
      { s with receiving := some { chain with chainKey := newCk, n := next }, skipped })

variable {P} {s : SpqrState B} {c : EpochChain B} {n : UInt32}

/-- One step of the sending chain. -/
theorem sendKey_of_chain (hsend : s.sending = some c) (hinc : checkedInc c.n = .ok n) :
    s.sendKey P = .ok ((c.epoch, c.n, (kdfCkSpqr P c.chainKey).2),
      { s with sending := some { c with chainKey := (kdfCkSpqr P c.chainKey).1, n } }) := by
  simp only [sendKey, hsend, hinc, bind, Except.bind, pure, Except.pure]

/-- The next message in order is one step of the receiving chain. -/
theorem receiveKey_next (hrecv : s.receiving = some c)
    (hskip : s.skipped.lookup (c.epoch, c.n) = none) (hinc : checkedInc c.n = .ok n) :
    s.receiveKey P c.epoch c.n = .ok ((kdfCkSpqr P c.chainKey).2,
      { s with receiving := some { c with chainKey := (kdfCkSpqr P c.chainKey).1, n } }) := by
  have hbefore : ¬ c.n.toNat < c.n.toNat := lt_irrefl _
  have hnear : ¬ 0 > min (s.maxSkipEpochs.toNat * 64) (2 ^ 32 - 1) := Nat.not_lt_zero _
  unfold receiveKey
  simp only [hskip, hrecv, ne_eq, not_true, if_false, hbefore, Nat.sub_self, hnear, skipLoop, hinc,
    bind, Except.bind, pure, Except.pure]

end SpqrState

/-! ### Headers -/

namespace BraidMessage

/-- `BraidMessage::encode`. -/
def encode (m : BraidMessage B) : List B := be 8 m.epoch.toNat ++ ofNat m.typ.toNat :: m.data

/-- `BraidMessage::decode`. -/
def decode (data : List B) : Except PrimitiveError (BraidMessage B) := do
  let (epoch, data) ← Cursor.take PrimitiveError.invalidLength 8 data
  let (tag, rest) ← Cursor.takeTag PrimitiveError.invalidLength data
  let typ ← BraidType.fromNat tag
  if ¬ (typ = .none ∨ typ = .ct1Ack) ∧ rest.length ≠ chunkWire then throw .invalidLength
  return { epoch := UInt64.ofNat (fromBe epoch), typ, data := rest }

/-- Messages that carry a whole chunk, or none, survive the wire. -/
theorem decode_encode {m : BraidMessage B}
    (hm : (m.typ = .none ∨ m.typ = .ct1Ack) ∨ m.data.length = chunkWire) : decode m.encode = .ok m := by
  have hepoch : UInt64.ofNat (fromBe (be 8 m.epoch.toNat : List B)) = m.epoch := by
    rw [fromBe_be, Nat.mod_eq_of_lt (by have := m.epoch.toNat_lt; omega), UInt64.ofNat_toNat]
  have htag : m.typ.toNat % 256 = m.typ.toNat := Nat.mod_eq_of_lt (by cases m.typ <;> decide)
  have hdata : ¬ (¬ (m.typ = .none ∨ m.typ = .ct1Ack) ∧ m.data.length ≠ chunkWire) := by
    rintro ⟨h1, h2⟩
    exact hm.elim h1 h2
  unfold decode encode
  simp only [Cursor.take_append (length_be 8 m.epoch.toNat), Cursor.takeTag_cons, htag,
    BraidType.fromNat_toNat, if_neg hdata, hepoch, bind, Except.bind, pure, Except.pure]

/-- **A Braid message has one encoding.** -/
theorem encode_of_decode (hB : Bytes B) {data : List B} {m : BraidMessage B}
    (h : decode data = .ok m) : m.encode = data := by
  obtain ⟨⟨epoch, data₁⟩, hepoch, h⟩ := Except.bind_eq_ok.1 h
  obtain ⟨⟨tag, rest⟩, htag, h⟩ := Except.bind_eq_ok.1 h
  obtain ⟨typ, htyp, h⟩ := Except.bind_eq_ok.1 h
  dsimp only at h
  split at h
  · cases h
  cases h
  obtain ⟨hepoch, hlen⟩ := Cursor.take_eq_ok hepoch
  have hlt : fromBe epoch < 2 ^ 64 := by
    have := fromBe_lt epoch
    rw [hlen] at this
    omega
  have hback : be 8 (UInt64.ofNat (fromBe epoch)).toNat = epoch := by
    rw [UInt64.toNat_ofNat', Nat.mod_eq_of_lt hlt, ← hlen, be_fromBe hB]
  rw [hepoch, (Cursor.takeTag_eq_ok hB htag).1, encode, hback, BraidType.toNat_of_fromNat htyp]

end BraidMessage

/-- The hybrid message header. -/
structure TripleHeader (B : Type) where
  /-- The header of the classical ratchet. -/
  classical : Header B
  /-- The epoch of the post-quantum key. -/
  pqEpoch : UInt32
  /-- Its position in the epoch. -/
  pqN : UInt32
  /-- The Braid message that goes with it; absent in the form of 48 bytes. -/
  scka : Option (BraidMessage B)
  deriving DecidableEq

namespace TripleHeader

/-- `TripleHeader::encode`. -/
def encode (h : TripleHeader B) : List B :=
  h.classical.encode ++ le 4 h.pqEpoch.toNat ++ le 4 h.pqN.toNat ++
    match h.scka with
    | none => [ofNat 0]
    | some m => ofNat 1 :: le 2 m.encode.length ++ m.encode

/-- `TripleHeader::decode`. -/
def decode (data : List B) : Except PrimitiveError (TripleHeader B) := do
  if data.length < 48 then throw .invalidLength
  let classical ← Header.decode (data.take 40)
  let (pqEpoch, rest) ← Cursor.takeLe PrimitiveError.invalidLength 4 (data.drop 40)
  let (pqN, rest) ← Cursor.takeLe PrimitiveError.invalidLength 4 rest
  let header (scka : Option (BraidMessage B)) : TripleHeader B :=
    { classical, pqEpoch := UInt32.ofNat pqEpoch, pqN := UInt32.ofNat pqN, scka }
  match rest with
  | [] => return header none
  | tag :: rest =>
    if toNat tag = 0 then
      if rest.length ≠ 0 then throw .invalidLength
      return header none
    else if rest.length ≥ 2 ∧ toNat tag = 1 then
      let (n, blob) ← Cursor.takeLe PrimitiveError.invalidLength 2 rest
      if blob.length ≠ n then throw .invalidLength
      let m ← BraidMessage.decode blob
      return header (some m)
    else throw .invalidLength

/-- A header with a Braid message has 60 letters and its data. -/
theorem length_encode {h : TripleHeader B} {m : BraidMessage B} (hm : h.scka = some m) :
    h.encode.length = 60 + m.data.length := by
  simp only [encode, hm, List.length_append, Header.length_encode, length_le, List.length_cons,
    BraidMessage.encode, length_be]
  omega

/-- Headers with a usable ratchet key and a whole Braid message survive the wire. -/
theorem decode_encode {h : TripleHeader B} {m : BraidMessage B} (hm : h.scka = some m)
    (hdh : h.classical.dh ≠ Block.zero 32) (hlen : m.data.length ≤ chunkWire)
    (hdata : (m.typ = .none ∨ m.typ = .ct1Ack) ∨ m.data.length = chunkWire) :
    decode h.encode = .ok h := by
  have hwire : chunkWire = 34 := rfl
  have hblob : m.encode.length = 9 + m.data.length := by
    simp only [BraidMessage.encode, List.length_append, length_be, List.length_cons]
    omega
  have hmod : m.encode.length % 256 ^ 2 = m.encode.length := Nat.mod_eq_of_lt (by omega)
  have hlong : ¬ h.encode.length < 48 := by
    rw [length_encode hm]
    omega
  -- the classical header is the first forty letters
  have hsplit : h.encode = h.classical.encode ++ (le 4 h.pqEpoch.toNat ++ (le 4 h.pqN.toNat ++
      ofNat 1 :: (le 2 m.encode.length ++ m.encode))) := by
    simp only [encode, hm, List.append_assoc, List.cons_append]
  have htake : h.encode.take 40 = h.classical.encode := by
    rw [hsplit, List.take_left' h.classical.length_encode]
  have hdrop : h.encode.drop 40 = le 4 h.pqEpoch.toNat ++ (le 4 h.pqN.toNat ++
      ofNat 1 :: (le 2 m.encode.length ++ m.encode)) := by
    rw [hsplit, List.drop_left' h.classical.length_encode]
  have htag : toNat (ofNat 1 : B) = 1 := toNat_ofNat 1
  have htwo : (le 2 m.encode.length ++ m.encode).length ≥ 2 := by
    rw [List.length_append, length_le]
    omega
  unfold decode
  rw [if_neg hlong]
  simp only [htake, hdrop, Header.decode_encode hdh, Cursor.takeLe_append, htag, htwo,
    BraidMessage.decode_encode hdata, hmod, ofNat_toNat_mod, bind, Except.bind, pure, Except.pure,
    ne_eq, not_true, one_ne_zero, if_false, and_self, if_true]
  cases h
  cases hm
  rfl

/-- **A hybrid header has one encoding**, but for the form without a tag. -/
theorem encode_of_decode (hB : Bytes B) {data : List B} {h : TripleHeader B}
    (hd : decode data = .ok h) :
    h.encode = if data.length = 48 then data ++ [ofNat 0] else data := by
  unfold decode at hd
  split at hd
  · cases hd
  rename_i hlen
  obtain ⟨classical, hc, hd⟩ := Except.bind_eq_ok.1 hd
  obtain ⟨⟨pqEpoch, data₁⟩, hepoch, hd⟩ := Except.bind_eq_ok.1 hd
  obtain ⟨⟨pqN, data₂⟩, hn, hd⟩ := Except.bind_eq_ok.1 hd
  have hc := Header.encode_of_decode hB hc
  obtain ⟨hepoch, hepochLt⟩ := Cursor.takeLe_eq_ok hB hepoch
  obtain ⟨hn, hnLt⟩ := Cursor.takeLe_eq_ok hB hn
  have hdata : data = classical.encode ++ le 4 pqEpoch ++ le 4 pqN ++ data₂ := by
    nth_rewrite 1 [← List.take_append_drop 40 data]
    rw [hc, hepoch, hn, List.append_assoc, List.append_assoc]
  have hlength : data.length = 48 + data₂.length := by
    rw [hdata]
    simp only [List.length_append, Header.length_encode, length_le]
  -- the header without its Braid part
  have hencode : ∀ scka, encode
      { classical, pqEpoch := UInt32.ofNat pqEpoch, pqN := UInt32.ofNat pqN, scka } =
        classical.encode ++ le 4 pqEpoch ++ le 4 pqN ++
        match scka with
        | none => [ofNat 0]
        | some m => ofNat 1 :: le 2 m.encode.length ++ m.encode := by
    intro scka
    rw [encode, toNat_ofNat_u32 hepochLt, toNat_ofNat_u32 hnLt]
  dsimp only at hd
  split at hd
  · cases hd
    rw [hencode, if_pos (by simpa using hlength), hdata, List.append_nil]
  rename_i tag rest _
  rw [if_neg (by rw [hlength, List.length_cons]; omega), hdata]
  split at hd
  · rename_i htag
    split at hd
    · cases hd
    rename_i hrest
    cases hd
    rw [hencode, List.length_eq_zero_iff.1 (not_not.1 hrest), ← hB tag, htag]
  split at hd
  · rename_i htag
    obtain ⟨⟨n, blob⟩, hblob, hd⟩ := Except.bind_eq_ok.1 hd
    dsimp only at hd
    split at hd
    · cases hd
    rename_i hsize
    obtain ⟨m, hm, hd⟩ := Except.bind_eq_ok.1 hd
    cases hd
    rw [hencode, (Cursor.takeLe_eq_ok hB hblob).1, ← not_not.1 hsize,
      ← BraidMessage.encode_of_decode hB hm, ← hB tag, htag.2]
    rfl
  · cases hd

end TripleHeader

/-! ### The hybrid -/

/-- `TripleRatchetState`. -/
structure TripleRatchetState (B : Type) [Alphabet B] where
  /-- The classical ratchet. -/
  classical : DoubleRatchetState B
  /-- The post-quantum ratchet. -/
  spqr : SpqrState B
  /-- The key agreement that feeds it. -/
  braid : BraidScka B

/-- `kdf_hybrid`. -/
def kdfHybrid (P : Primitives B) (classicalMk pqMk : Block B 32) : Block B 32 :=
  hkdf P (some pqMk.val) classicalMk.val Labels.tripleHybrid 0

/-- `aead_from_hybrid`: the derivation of the classical ratchet, over a hybrid key. -/
def aeadFromHybrid (P : Primitives B) (mk : Block B 32) : Block B 32 × Block B 12 := aeadFromMk P mk

/-- `concat_triple_ad`. -/
def concatTripleAd (ad : List B) (h : TripleHeader B) : List B := le 8 ad.length ++ ad ++ h.encode

namespace TripleRatchetState

variable (P : Primitives B)

/-- `split_sk`: the roots of the classical ratchet and of SPQR. -/
def splitSk (sk : Block B 32) : Block B 32 × Block B 32 :=
  (hkdf P none sk.val Labels.tripleHybrid 0, hkdf P none sk.val Labels.tripleHybrid 1)

/-- `init_alice`, with the ratchet secret it draws. -/
def initAlice (dhs sk bobDhPublic : Block B 32) : Except PrimitiveError (TripleRatchetState B) := do
  let (skEc, skPq) := splitSk P sk
  let classical := DoubleRatchetState.initAlice P dhs skEc bobDhPublic defaultMaxSkip
  let (_, spqr) ← (SpqrState.init skPq spqrMaxSkipEpochs).advanceEpoch P skPq
  return { classical, spqr, braid := BraidScka.initAlice P skPq }

/-- `init_bob`. -/
def initBob (sk bobDhKeypair : Block B 32) : Except PrimitiveError (TripleRatchetState B) := do
  let (skEc, skPq) := splitSk P sk
  let classical := DoubleRatchetState.initBob skEc bobDhKeypair defaultMaxSkip
  let (_, spqr) ← (SpqrState.init skPq spqrMaxSkipEpochs).advanceEpoch P skPq
  return { classical, spqr, braid := BraidScka.initBob P skPq }

/-- `encrypt`, with the draws of `BraidScka::send`. The output of the latter is always `None`, so the
`advance_epoch` on it never happens. -/
def encrypt (seed : Block B 64) (m : Block B 32) (s : TripleRatchetState B) (plaintext ad : List B) :
    Except PrimitiveError ((TripleHeader B × List B) × TripleRatchetState B) := do
  let ((sckaMsg, _, newSs), braid) := s.braid.send P seed m
  let spqr ← match newSs with
    | some o => do
      let (_, spqr) ← s.spqr.advanceEpoch P o.key
      pure spqr
    | none => pure s.spqr
  let ((classicalHeader, ecMk), classical) ← s.classical.sendMessageKey P
  let ((pqEpoch, pqN, pqMk), spqr) ← spqr.sendKey P
  let hybridMk := kdfHybrid P ecMk pqMk
  let header : TripleHeader B :=
    { classical := classicalHeader, pqEpoch, pqN, scka := some sckaMsg }
  let (key, nonce) := aeadFromHybrid P hybridMk
  let ct ← aeadSeal P key nonce plaintext (concatTripleAd ad header)
  return ((header, ct), { classical, spqr, braid })

/-- The Braid half of `decrypt` on the trial copies: the new Braid state, the SPQR state to derive the
key from, and a key to advance by once the message is authenticated. -/
def receiveScka (scka : Option (BraidMessage B)) (pqEpoch : UInt32) (s : TripleRatchetState B) :
    Except PrimitiveError (BraidScka B × SpqrState B × Option (Block B 32)) :=
  match scka with
  | none => .ok (s.braid, s.spqr, none)
  | some msg => do
    let ((_, out), braid) ← s.braid.receive P msg
    match out with
    | none => return (braid, s.spqr, none)
    | some o =>
      if s.spqr.receivingEpoch ≠ some pqEpoch then
        let (_, spqr) ← s.spqr.advanceEpoch P o.key
        return (braid, spqr, none)
      else return (braid, s.spqr, some o.key)

/-- The part of `decrypt` that works on trial copies: the plaintext and the state to commit. -/
def tryDecrypt (fresh : Block B 32) (header : TripleHeader B) (ciphertext ad : List B)
    (s : TripleRatchetState B) : Except PrimitiveError (List B × TripleRatchetState B) := do
  let (braid, spqr, pending) ← receiveScka P header.scka header.pqEpoch s
  let (ecMk, classical) ← s.classical.ratchetReceiveKey P fresh header.classical
  let (pqMk, spqr) ← spqr.receiveKey P header.pqEpoch header.pqN
  let hybridMk := kdfHybrid P ecMk pqMk
  let (key, nonce) := aeadFromHybrid P hybridMk
  let plaintext ← aeadOpen P key nonce ciphertext (concatTripleAd ad header)
  let spqr ← match pending with
    | some k => do
      let (_, spqr) ← spqr.advanceEpoch P k
      pure spqr
    | none => pure spqr
  return (plaintext, { classical, spqr, braid })

/-- `decrypt`: the result, and the state left behind. -/
def decrypt (fresh : Block B 32) (header : TripleHeader B) (ciphertext ad : List B)
    (s : TripleRatchetState B) : Except PrimitiveError (List B) × TripleRatchetState B :=
  match tryDecrypt P fresh header ciphertext ad s with
  | .error e => (.error e, s)
  | .ok (plaintext, trial) => (.ok plaintext, trial)

end TripleRatchetState

end VoiceChatCrypto
