import VoiceChatCrypto.Braid.Persist
import VoiceChatCrypto.Ratchet.Persist
import VoiceChatCrypto.Ratchet.Triple

/-!
# Persistence of the Triple Ratchet

`SpqrState` and `TripleRatchetState` in their binary formats. The hybrid writes its three parts one
after the other, each behind its length, so its round trip is the three round trips of the parts,
and it is storable when they are.
-/

open Alphabet

namespace VoiceChatCrypto

variable {B : Type} [Alphabet B]

/-! ### SPQR -/

namespace SpqrState

/-- `write_chain`. -/
def writeChain : Option (EpochChain B) → List B
  | none => [ofNat 0]
  | some c => ofNat 1 :: le 4 c.epoch.toNat ++ c.chainKey.val ++ le 4 c.n.toNat

/-- `read_chain`. -/
def readChain (data : List B) : Except PrimitiveError (Option (EpochChain B) × List B) := do
  let (tag, data) ← Cursor.takeTag PrimitiveError.invalidLength data
  if tag = 0 then return (none, data)
  else if tag = 1 then
    let (epoch, data) ← Cursor.takeLe PrimitiveError.invalidLength 4 data
    let (chainKey, data) ← Cursor.takeBlock PrimitiveError.invalidLength 32 data
    let (n, data) ← Cursor.takeLe PrimitiveError.invalidLength 4 data
    return (some { epoch := UInt32.ofNat epoch, chainKey, n := UInt32.ofNat n }, data)
  else throw .invalidLength

theorem readChain_append (c : Option (EpochChain B)) (rest : List B) :
    readChain (writeChain c ++ rest) = .ok (c, rest) := by
  cases c with
  | none => simp [readChain, writeChain, bind, Except.bind, pure, Except.pure]
  | some c =>
    simp [readChain, writeChain, bind, Except.bind, pure, Except.pure]

theorem length_writeChain_le (c : Option (EpochChain B)) : (writeChain c).length ≤ 41 := by
  cases c with
  | none => simp [writeChain]
  | some c => simp [writeChain]

/-- One skipped message key. -/
def writeSkipped (e : (UInt32 × UInt32) × Block B 32) : List B :=
  le 4 e.1.1.toNat ++ le 4 e.1.2.toNat ++ e.2.val

/-- Reads one skipped message key. -/
def readSkipped (data : List B) :
    Except PrimitiveError (((UInt32 × UInt32) × Block B 32) × List B) := do
  let (epoch, data) ← Cursor.takeLe PrimitiveError.invalidLength 4 data
  let (n, data) ← Cursor.takeLe PrimitiveError.invalidLength 4 data
  let (msgKey, data) ← Cursor.takeBlock PrimitiveError.invalidLength 32 data
  return (((UInt32.ofNat epoch, UInt32.ofNat n), msgKey), data)

theorem readSkipped_reads (e : (UInt32 × UInt32) × Block B 32) :
    Cursor.Reads readSkipped (writeSkipped e) e := by
  intro rest
  simp only [readSkipped, writeSkipped, List.append_assoc, Cursor.takeLe_append,
    Cursor.takeBlock_append, bind, Except.bind, pure, Except.pure, ofNat_toNat_mod]

/-- `serialize`. -/
def serialize (σ : Enumeration) (s : SpqrState B) : List B :=
  s.root.val ++ le 4 s.nextEpoch.toNat ++ le 4 s.maxSkipEpochs.toNat ++ writeChain s.sending ++
    writeChain s.receiving ++ le 4 s.skipped.size ++ (σ.list s.skipped).flatMap writeSkipped

/-- `deserialize`. -/
def deserialize (data : List B) : Except PrimitiveError (SpqrState B) := do
  let (root, data) ← Cursor.takeBlock PrimitiveError.invalidLength 32 data
  let (nextEpoch, data) ← Cursor.takeLe PrimitiveError.invalidLength 4 data
  let (maxSkipEpochs, data) ← Cursor.takeLe PrimitiveError.invalidLength 4 data
  let (sending, data) ← readChain data
  let (receiving, data) ← readChain data
  let (count, data) ← Cursor.takeLe PrimitiveError.invalidLength 4 data
  let (skipped, data) ← Cursor.takeMany readSkipped count data
  Cursor.finish PrimitiveError.invalidLength data
    { sending, receiving, root, nextEpoch := UInt32.ofNat nextEpoch
      skipped := Dict.ofPairs skipped, maxSkipEpochs := UInt32.ofNat maxSkipEpochs }

/-- **SPQR survives persistence.** -/
theorem deserialize_serialize {s : SpqrState B} (hs : s.skipped.size < 2 ^ 32) (σ : Enumeration) :
    deserialize (serialize σ s) = .ok s := by
  have hsize : s.skipped.size % 256 ^ 4 = s.skipped.size := Nat.mod_eq_of_lt (by omega)
  have hmany := Cursor.takeMany_append (σ.length_list s.skipped)
    (fun e _ ↦ readSkipped_reads e) []
  rw [List.append_nil] at hmany
  simp only [deserialize, serialize, List.append_assoc, Cursor.takeBlock_append,
    Cursor.takeLe_append, readChain_append, hsize, hmany, ofNat_toNat_mod, Enumeration.ofPairs_list,
    bind, Except.bind, Cursor.finish_nil]

/-- A post-quantum ratchet is written in at most 20000 letters. -/
theorem length_serialize_le {s : SpqrState B} (hs : s.skipped.size ≤ 256) (σ : Enumeration) :
    (serialize σ s).length ≤ 20000 := by
  have hw : ∀ e : (UInt32 × UInt32) × Block B 32, (writeSkipped e).length = 40 := by
    intro e
    simp [writeSkipped]
  have h1 := length_writeChain_le s.sending
  have h2 := length_writeChain_le s.receiving
  simp only [serialize, List.length_append, length_le, Block.length_val,
    Cursor.length_flatMap_eq hw, σ.length_list]
  omega

variable {P : Primitives B} {s s' : SpqrState B}

theorem advanceEpoch_skipped_le {scka : Block B 32} {epoch : UInt32} (hs : s.skipped.size ≤ 256)
    (h : advanceEpoch P scka s = .ok (epoch, s')) : s'.skipped.size ≤ 256 := by
  obtain ⟨next, -, hret⟩ := Except.bind_eq_ok.1 h
  cases hret
  exact (Dict.size_filter_le _ _).trans hs

theorem sendKey_skipped {r : UInt32 × UInt32 × Block B 32} (h : sendKey P s = .ok (r, s')) :
    s'.skipped = s.skipped := by
  unfold sendKey at h
  split at h
  · obtain ⟨n, -, hret⟩ := Except.bind_eq_ok.1 h
    cases hret
    rfl
  · cases h

theorem skipLoop_skipped_le {chain' : EpochChain B}
    {skipped' : Dict (UInt32 × UInt32) (Block B 32)} :
    ∀ {fuel : ℕ} {chain : EpochChain B} {skipped : Dict (UInt32 × UInt32) (Block B 32)},
      skipped.size ≤ 256 → skipLoop P fuel chain skipped = .ok (chain', skipped') →
      skipped'.size ≤ 256
  | 0, chain, skipped, hs, h => by
    cases h
    exact hs
  | fuel + 1, chain, skipped, hs, h => by
    obtain ⟨n, -, h⟩ := Except.bind_eq_ok.1 h
    dsimp only at h
    split at h
    · cases h
    · exact skipLoop_skipped_le (not_lt.1 ‹_›) h

theorem receiveKey_skipped_le {epoch n : UInt32} {msgKey : Block B 32} (hs : s.skipped.size ≤ 256)
    (h : receiveKey P epoch n s = .ok (msgKey, s')) : s'.skipped.size ≤ 256 := by
  unfold receiveKey at h
  split at h
  · cases h
    exact (Dict.size_erase_le _ _).trans hs
  split at h
  · dsimp only at h
    split at h
    · cases h
    split at h
    · cases h
    split at h
    · cases h
    obtain ⟨⟨chain, skipped⟩, hloop, h⟩ := Except.bind_eq_ok.1 h
    obtain ⟨next, -, h⟩ := Except.bind_eq_ok.1 h
    cases h
    exact skipLoop_skipped_le hs hloop
  · cases h

end SpqrState

/-! ### The hybrid -/

/-- `BraidScka::send` yields no key: the sender of a message never advances on it. -/
theorem BraidScka.send_output (P : Primitives B) (seed : Block B 64)
    (m : Block B 32) (b : BraidScka B) : (b.send P seed m).1.2.2 = none := by
  unfold BraidScka.send
  dsimp only
  split <;> rfl

namespace TripleRatchetState

/-- `serialize`. -/
def serialize (σ : Enumeration) (s : TripleRatchetState B) : List B :=
  Cursor.putVec (s.classical.serialize σ) ++ Cursor.putVec (s.spqr.serialize σ) ++
    Cursor.putVec s.braid.serialize

/-- `deserialize`. -/
def deserialize (maxSkip : UInt32) (data : List B) :
    Except PrimitiveError (TripleRatchetState B) := do
  let (c, data) ← Cursor.takeVec PrimitiveError.invalidLength data
  let classical ← DoubleRatchetState.deserialize maxSkip c
  let (s, data) ← Cursor.takeVec PrimitiveError.invalidLength data
  let spqr ← SpqrState.deserialize s
  let (k, data) ← Cursor.takeVec PrimitiveError.invalidLength data
  let braid ← BraidScka.deserialize k
  Cursor.finish PrimitiveError.invalidLength data { classical, spqr, braid }

/-- States whose format loses nothing: the three parts lose nothing, and each fits behind its
length. How long a part is does not depend on the order of iteration. -/
structure Fits (s : TripleRatchetState B) : Prop where
  /-- The classical ratchet fits its format. -/
  classical : s.classical.Fits
  /-- The number of skipped post-quantum keys fits into its field. -/
  spqr : s.spqr.skipped.size < 2 ^ 32
  /-- The Braid fits its format. -/
  braid : s.braid.agent.Fits
  /-- The classical part can be embedded, whatever the order of writing. -/
  classicalBlob : ∀ σ, (s.classical.serialize σ).length < 2 ^ 32
  /-- So can the post-quantum part. -/
  spqrBlob : ∀ σ, (s.spqr.serialize σ).length < 2 ^ 32
  /-- And the Braid. -/
  braidBlob : s.braid.serialize.length < 2 ^ 32

/-- **Storable states**: the three parts are. -/
structure Storable (s : TripleRatchetState B) : Prop where
  /-- The classical ratchet is storable. -/
  classical : s.classical.Storable
  /-- There are no more skipped post-quantum keys than the code keeps. -/
  spqr : s.spqr.skipped.size ≤ 256
  /-- The Braid is storable. -/
  braid : s.braid.agent.Storable

theorem Storable.fits {s : TripleRatchetState B} (hs : s.Storable) : s.Fits where
  classical := hs.classical.fits
  spqr := by have := hs.spqr; omega
  braid := hs.braid.fits
  classicalBlob σ := by have := DoubleRatchetState.length_serialize_le hs.classical σ; omega
  spqrBlob σ := by have := SpqrState.length_serialize_le hs.spqr σ; omega
  braidBlob := by have := BraidScka.length_serialize_le hs.braid; omega

/-- **The hybrid survives persistence.** -/
theorem deserialize_serialize {s : TripleRatchetState B} (hs : s.Fits) (σ : Enumeration) :
    deserialize s.classical.maxSkip (serialize σ s) = .ok s := by
  have rc := Cursor.takeVec_reads PrimitiveError.invalidLength (hs.classicalBlob σ)
  have rp := Cursor.takeVec_reads PrimitiveError.invalidLength (hs.spqrBlob σ)
  have rb := Cursor.takeVec_reads PrimitiveError.invalidLength hs.braidBlob []
  rw [List.append_nil] at rb
  simp only [deserialize, serialize, List.append_assoc, rc _, rp _, rb,
    DoubleRatchetState.deserialize_serialize hs.classical, SpqrState.deserialize_serialize hs.spqr,
    BraidScka.deserialize_serialize hs.braid, bind, Except.bind, Cursor.finish_nil]

/-- A storable state is written in at most nine million letters. -/
theorem length_serialize_le {s : TripleRatchetState B} (hs : s.Storable) (σ : Enumeration) :
    (serialize σ s).length ≤ 9000000 := by
  have hc := DoubleRatchetState.length_serialize_le hs.classical σ
  have hp := SpqrState.length_serialize_le hs.spqr σ
  have hb := BraidScka.length_serialize_le hs.braid
  simp only [serialize, List.length_append, Cursor.length_putVec]
  omega

variable {P : Primitives B} {s s' : TripleRatchetState B}

theorem initAlice_storable {dhs sk bobPub : Block B 32} (hb : bobPub ≠ Block.zero 32)
    (h : initAlice P dhs sk bobPub = .ok s) : s.Storable := by
  obtain ⟨⟨epoch, spqr⟩, hadv, hret⟩ := Except.bind_eq_ok.1 h
  cases hret
  exact ⟨DoubleRatchetState.initAlice_storable P _ _ hb,
    SpqrState.advanceEpoch_skipped_le (by simp [SpqrState.init]) hadv, True.intro⟩

theorem initBob_storable {sk bobDh : Block B 32} (h : initBob P sk bobDh = .ok s) :
    s.Storable := by
  obtain ⟨⟨epoch, spqr⟩, hadv, hret⟩ := Except.bind_eq_ok.1 h
  cases hret
  exact ⟨DoubleRatchetState.initBob_storable _ _,
    SpqrState.advanceEpoch_skipped_le (by simp [SpqrState.init]) hadv,
    Decoder.new_storable (by omega)⟩

/-- **What `encrypt` does**: one Braid message, one step of each sending chain, one seal. -/
theorem encrypt_eq_ok {seed : Block B 64} {m : Block B 32} {pt ad ct : List B}
    {header : TripleHeader B} (h : encrypt P seed m s pt ad = .ok ((header, ct), s')) :
    ∃ ecHeader ecMk pqEpoch pqN pqMk,
      s.classical.sendMessageKey P = .ok ((ecHeader, ecMk), s'.classical) ∧
      s.spqr.sendKey P = .ok ((pqEpoch, pqN, pqMk), s'.spqr) ∧
      s'.braid = (s.braid.send P seed m).2 ∧
      header = ⟨ecHeader, pqEpoch, pqN, some (s.braid.send P seed m).1.1⟩ ∧
      aeadSeal P (aeadFromHybrid P (kdfHybrid P ecMk pqMk)).1
        (aeadFromHybrid P (kdfHybrid P ecMk pqMk)).2 pt (concatTripleAd ad header) = .ok ct := by
  have hnone := BraidScka.send_output P seed m s.braid
  unfold encrypt at h
  generalize s.braid.send P seed m = sent at h hnone ⊢
  obtain ⟨⟨msg, epoch, out⟩, braid⟩ := sent
  cases hnone
  obtain ⟨spqr₀, hpure, h⟩ := Except.bind_eq_ok.1 h
  cases hpure
  obtain ⟨⟨⟨ecHeader, ecMk⟩, classical⟩, hec, h⟩ := Except.bind_eq_ok.1 h
  obtain ⟨⟨⟨pqEpoch, pqN, pqMk⟩, spqr⟩, hpq, h⟩ := Except.bind_eq_ok.1 h
  obtain ⟨ct', hct, h⟩ := Except.bind_eq_ok.1 h
  cases h
  exact ⟨ecHeader, ecMk, pqEpoch, pqN, pqMk, hec, hpq, rfl, rfl, hct⟩

theorem encrypt_storable (hs : s.Storable) {seed : Block B 64} {m : Block B 32} {pt ad : List B}
    {r : TripleHeader B × List B} (h : encrypt P seed m s pt ad = .ok (r, s')) : s'.Storable := by
  obtain ⟨header, ct⟩ := r
  obtain ⟨ecHeader, ecMk, pqEpoch, pqN, pqMk, hec, hpq, hbraid, -, -⟩ := encrypt_eq_ok h
  refine ⟨DoubleRatchetState.sendMessageKey_storable hs.classical hec, ?_, ?_⟩
  · rw [SpqrState.sendKey_skipped hpq]
    exact hs.spqr
  · rw [hbraid]
    exact BraidScka.send_storable seed m hs.braid

/-- **What the Braid half of `decrypt` does**: it may read one Braid message, and a key that comes out
of it opens a new SPQR epoch, now or once the message is authenticated. -/
theorem receiveScka_eq_ok {scka : Option (BraidMessage B)} {pqEpoch : UInt32} {braid : BraidScka B}
    {spqr : SpqrState B} {pending : Option (Block B 32)}
    (h : receiveScka P scka pqEpoch s = .ok (braid, spqr, pending)) :
    (braid = s.braid ∧ spqr = s.spqr ∧ pending = none) ∨
    ∃ msg epoch out, s.braid.receive P msg = .ok ((epoch, out), braid) ∧
      ((out = none ∧ spqr = s.spqr ∧ pending = none) ∨
      ∃ o, out = some o ∧
        ((s.spqr.receivingEpoch ≠ some pqEpoch ∧ pending = none ∧
            ∃ e, s.spqr.advanceEpoch P o.key = .ok (e, spqr)) ∨
          (s.spqr.receivingEpoch = some pqEpoch ∧ pending = some o.key ∧ spqr = s.spqr))) := by
  unfold receiveScka at h
  split at h
  · cases h
    exact .inl ⟨rfl, rfl, rfl⟩
  rename_i msg
  obtain ⟨⟨⟨epoch, out⟩, b⟩, hrecv, h⟩ := Except.bind_eq_ok.1 h
  dsimp only at h
  split at h
  · cases h
    exact .inr ⟨msg, epoch, none, hrecv, .inl ⟨rfl, rfl, rfl⟩⟩
  rename_i o
  split at h
  · rename_i hother
    obtain ⟨⟨e, sp⟩, hadv, h⟩ := Except.bind_eq_ok.1 h
    cases h
    exact .inr ⟨msg, epoch, some o, hrecv, .inr ⟨o, rfl, .inl ⟨hother, rfl, e, hadv⟩⟩⟩
  · rename_i hsame
    cases h
    exact .inr ⟨msg, epoch, some o, hrecv, .inr ⟨o, rfl, .inr ⟨not_not.1 hsame, rfl, rfl⟩⟩⟩

/-- **What a successful `decrypt` commits**: the Braid's state, the classical ratchet behind its
message key, and SPQR behind its own, in the next epoch if the Braid has output a key. -/
theorem tryDecrypt_eq_ok {fresh : Block B 32} {header : TripleHeader B} {ct ad pt : List B}
    (h : tryDecrypt P fresh header ct ad s = .ok (pt, s')) :
    ∃ spqr pending ecMk pqMk spqr',
      receiveScka P header.scka header.pqEpoch s = .ok (s'.braid, spqr, pending) ∧
      s.classical.ratchetReceiveKey P fresh header.classical = .ok (ecMk, s'.classical) ∧
      spqr.receiveKey P header.pqEpoch header.pqN = .ok (pqMk, spqr') ∧
      ((pending = none ∧ s'.spqr = spqr') ∨
        ∃ k e, pending = some k ∧ spqr'.advanceEpoch P k = .ok (e, s'.spqr)) := by
  obtain ⟨⟨braid, spqr, pending⟩, hscka, h⟩ := Except.bind_eq_ok.1 h
  obtain ⟨⟨ecMk, classical⟩, hec, h⟩ := Except.bind_eq_ok.1 h
  obtain ⟨⟨pqMk, spqr'⟩, hpq, h⟩ := Except.bind_eq_ok.1 h
  obtain ⟨pt', -, h⟩ := Except.bind_eq_ok.1 h
  cases pending with
  | none =>
    cases h
    exact ⟨spqr, none, ecMk, pqMk, spqr', hscka, hec, hpq, .inl ⟨rfl, rfl⟩⟩
  | some k =>
    obtain ⟨⟨e, sp⟩, hadv, h⟩ := Except.bind_eq_ok.1 h
    cases h
    exact ⟨spqr, some k, ecMk, pqMk, spqr', hscka, hec, hpq, .inr ⟨k, e, rfl, hadv⟩⟩

/-- **The rule for SPQR.** All that `decrypt` does to it is to open epochs and to derive keys. -/
theorem tryDecrypt_spqr {I : SpqrState B → Prop}
    (hadv : ∀ {t t' : SpqrState B} {k e}, I t → t.advanceEpoch P k = .ok (e, t') → I t')
    (hkey : ∀ {t t' : SpqrState B} {e n mk}, I t → t.receiveKey P e n = .ok (mk, t') → I t')
    (hI : I s.spqr) {fresh : Block B 32} {header : TripleHeader B} {ct ad pt : List B}
    (h : tryDecrypt P fresh header ct ad s = .ok (pt, s')) : I s'.spqr := by
  obtain ⟨spqr, pending, ecMk, pqMk, spqr', hscka, -, hpq, hfin⟩ := tryDecrypt_eq_ok h
  have hspqr : I spqr := by
    rcases receiveScka_eq_ok hscka with ⟨-, rfl, -⟩ | ⟨msg, epoch, out, -, ⟨-, rfl, -⟩ |
      ⟨o, -, ⟨-, -, e, hopen⟩ | ⟨-, -, rfl⟩⟩⟩
    · exact hI
    · exact hI
    · exact hadv hI hopen
    · exact hI
  rcases hfin with ⟨-, rfl⟩ | ⟨k, e, -, hopen⟩
  · exact hkey hspqr hpq
  · exact hadv (hkey hspqr hpq) hopen

/-- `decrypt` leaves the Braid state alone or lets it receive one message. -/
theorem tryDecrypt_braid {fresh : Block B 32} {header : TripleHeader B} {ct ad pt : List B}
    (hs : s.braid.agent.Storable) (h : tryDecrypt P fresh header ct ad s = .ok (pt, s')) :
    s'.braid.agent.Storable := by
  obtain ⟨spqr, pending, -, -, -, hscka, -, -, -⟩ := tryDecrypt_eq_ok h
  rcases receiveScka_eq_ok hscka with ⟨hb, -, -⟩ | ⟨msg, epoch, out, hrecv, -⟩
  · rwa [hb]
  · exact BraidScka.receive_storable hs hrecv

/-- **Receiving keeps a state storable**, and touches the classical sending half only to open a new
chain. -/
theorem tryDecrypt_storable (hs : s.Storable) {fresh : Block B 32} {header : TripleHeader B}
    {ct ad pt : List B} (hh : header.classical.dh ≠ Block.zero 32)
    (h : tryDecrypt P fresh header ct ad s = .ok (pt, s')) :
    s'.Storable ∧ DoubleRatchetState.SendingAfter fresh s.classical s'.classical := by
  obtain ⟨-, -, ecMk, -, -, -, hec, -, -⟩ := tryDecrypt_eq_ok h
  obtain ⟨hc, hsend⟩ := DoubleRatchetState.ratchetReceiveKey_storable hs.classical hh hec
  have hspqr := tryDecrypt_spqr (I := fun t ↦ t.skipped.size ≤ 256)
    SpqrState.advanceEpoch_skipped_le SpqrState.receiveKey_skipped_le hs.spqr h
  exact ⟨⟨hc, hspqr, tryDecrypt_braid hs.braid h⟩, hsend⟩

end TripleRatchetState

end VoiceChatCrypto
