import VoiceChatCrypto.Braid.Scka

/-!
# Persistence of Braid

The binary formats of an erasure encoder and decoder, of the eleven agents and of `BraidScka`,
including the two compact formats that older versions wrote. A symbol is stored with its letters in
the opposite order of the wire, as `to_le_bytes` and `to_be_bytes` have it.

Every variable part of an agent is a length-prefixed string. The format is read back exactly when
each of them fits behind its length (`Agent.Fits`), which the agents that `send` and `receive` build
are far below (`Agent.Storable`).
-/

open Alphabet

namespace VoiceChatCrypto

variable {B : Type} [Alphabet B]

/-! ### Encoders -/

namespace Encoder

/-- One symbol, low letter first. -/
def writeSymbol (s : B × B) : List B := [s.2, s.1]

/-- Reads one symbol. -/
def readSymbol : List B → Except PrimitiveError ((B × B) × List B)
  | lo :: hi :: data => .ok ((hi, lo), data)
  | _ => .error .invalidLength

/-- `Encoder::encode`. -/
def encode (e : Encoder B) : List B :=
  le 4 e.kChunks ++ le 2 e.next.toNat ++ le 4 e.data.length ++ e.data.flatMap writeSymbol

/-- `Encoder::decode`. -/
def decode (data : List B) : Except PrimitiveError (Encoder B) := do
  if data.length < 10 then throw .invalidLength
  let (kChunks, data) ← Cursor.takeLe PrimitiveError.invalidLength 4 data
  let (next, data) ← Cursor.takeLe PrimitiveError.invalidLength 2 data
  let (n, data) ← Cursor.takeLe PrimitiveError.invalidLength 4 data
  let (symbols, data) ← Cursor.takeMany readSymbol n data
  Cursor.finish PrimitiveError.invalidLength data
    { data := symbols, kChunks, next := UInt16.ofNat next }

/-- Encoders whose format loses nothing: the counts fit into their four letters, and so does the
length of the whole, which an agent writes in front of it. -/
structure Fits (e : Encoder B) : Prop where
  /-- The chunk count fits into its field. -/
  kChunks : e.kChunks < 2 ^ 32
  /-- The encoder as a whole can be embedded in an agent. -/
  encoded : e.encode.length < 2 ^ 32

/-- Encoders as small as the ones in use. -/
structure Storable (e : Encoder B) : Prop where
  /-- More than any message of the protocol needs. -/
  kChunks : e.kChunks ≤ 100
  /-- In symbols of two letters. -/
  data : e.data.length ≤ 2000

theorem length_encode (e : Encoder B) : e.encode.length = 10 + 2 * e.data.length := by
  have hw : ∀ s : B × B, (writeSymbol s).length = 2 := fun _ ↦ rfl
  simp only [encode, List.length_append, length_le, Cursor.length_flatMap_eq hw]

theorem Storable.fits {e : Encoder B} (he : e.Storable) : e.Fits where
  kChunks := by have := he.kChunks; omega
  encoded := by
    have := he.data
    rw [length_encode]
    omega

/-- **An encoder that fits is read back as it was.** -/
theorem decode_encode {e : Encoder B} (he : e.Fits) : decode e.encode = .ok e := by
  have hk : e.kChunks % 256 ^ 4 = e.kChunks := by
    have := he.kChunks
    exact Nat.mod_eq_of_lt (by omega)
  have hn : e.data.length % 256 ^ 4 = e.data.length := by
    have := he.encoded
    rw [length_encode] at this
    exact Nat.mod_eq_of_lt (by omega)
  have hnext : UInt16.ofNat (e.next.toNat % 256 ^ 2) = e.next := by
    rw [Nat.mod_eq_of_lt (by have := e.next.toNat_lt; omega), UInt16.ofNat_toNat]
  have hmany := Cursor.takeMany_append (p := readSymbol) (w := writeSymbol) (l := e.data) rfl
    (fun s _ rest ↦ rfl) []
  rw [List.append_nil] at hmany
  have hlen : ¬ e.encode.length < 10 := by
    rw [length_encode]
    omega
  unfold decode
  rw [if_neg hlen]
  simp only [encode, List.append_assoc, Cursor.takeLe_append, hk, hn, hnext, hmany, bind,
    Except.bind, Cursor.finish_nil]

/-- An encoder of a vector `t̂`, the longest message there is, is storable. -/
theorem new_storable {message : List B} (h : message.length ≤ 1152) : (new message).Storable := by
  have hk : chunkCount message.length ≤ 36 := by
    unfold chunkCount
    omega
  have hdata : (new message).data.length = 16 * chunkCount message.length := new_whole message
  refine ⟨by show chunkCount message.length ≤ 100; omega, ?_⟩
  omega

theorem nextChunk_storable {e : Encoder B} (he : e.Storable) : e.nextChunk.2.Storable :=
  ⟨he.kChunks, he.data⟩

end Encoder

/-! ### Decoders -/

namespace Decoder

/-- One chunk received. -/
def writeChunk (e : UInt16 × Block B 32) : List B := le 2 e.1.toNat ++ e.2.val

/-- Reads one chunk. -/
def readChunk (data : List B) : Except PrimitiveError ((UInt16 × Block B 32) × List B) := do
  let (idx, data) ← Cursor.takeLe PrimitiveError.invalidLength 2 data
  let (payload, data) ← Cursor.takeBlock PrimitiveError.invalidLength 32 data
  return ((UInt16.ofNat idx, payload), data)

theorem readChunk_reads (e : UInt16 × Block B 32) : Cursor.Reads readChunk (writeChunk e) e := by
  intro rest
  have hidx : UInt16.ofNat (e.1.toNat % 256 ^ 2) = e.1 := by
    rw [Nat.mod_eq_of_lt (by have := e.1.toNat_lt; omega), UInt16.ofNat_toNat]
  simp only [readChunk, writeChunk, List.append_assoc, Cursor.takeLe_append,
    Cursor.takeBlock_append, bind, Except.bind, pure, Except.pure, hidx]

/-- `Decoder::encode`. -/
def encode (d : Decoder B) : List B :=
  le 4 d.messageLen ++ le 4 d.kChunks ++ le 4 d.got.size ++ d.got.entries.flatMap writeChunk ++
    match d.decoded with
    | none => [ofNat 0]
    | some m => ofNat 1 :: Cursor.putVec m

/-- `Decoder::decode`. Behind the tag of an unfinished message nothing is checked. -/
def decode (data : List B) : Except PrimitiveError (Decoder B) := do
  if data.length < 13 then throw .invalidLength
  let (messageLen, data) ← Cursor.takeLe PrimitiveError.invalidLength 4 data
  let (kChunks, data) ← Cursor.takeLe PrimitiveError.invalidLength 4 data
  let (n, data) ← Cursor.takeLe PrimitiveError.invalidLength 4 data
  let (got, data) ← Cursor.takeMany readChunk n data
  let (tag, data) ← Cursor.takeTag PrimitiveError.invalidLength data
  match tag with
  | 0 => return { messageLen, kChunks, got := BTree.ofPairs got, decoded := none }
  | 1 =>
    let (m, data) ← Cursor.takeVec PrimitiveError.invalidLength data
    Cursor.finish PrimitiveError.invalidLength data
      { messageLen, kChunks, got := BTree.ofPairs got, decoded := some m }
  | _ => throw .invalidLength

/-- Decoders whose format loses nothing: the lengths and counts fit into their four letters, and so
does the length of the whole. -/
structure Fits (d : Decoder B) : Prop where
  /-- The announced length fits into its field. -/
  messageLen : d.messageLen < 2 ^ 32
  /-- So does the chunk count. -/
  kChunks : d.kChunks < 2 ^ 32
  /-- The decoder as a whole can be embedded in an agent. -/
  encoded : d.encode.length < 2 ^ 32

/-- Decoders as small as the ones in use. -/
structure Storable (d : Decoder B) : Prop where
  /-- More than any message of the protocol has. -/
  messageLen : d.messageLen ≤ 2000
  /-- And more chunks than it needs. -/
  kChunks : d.kChunks ≤ 100
  /-- What has been decoded is as short as what was announced. -/
  decoded : ∀ m, d.decoded = some m → m.length ≤ 2000

omit [Alphabet B] in
/-- There are no more chunks than indices. -/
theorem size_got_le (d : Decoder B) : d.got.size ≤ 65536 := by
  have hnodup : (d.got.entries.map fun e ↦ e.1.toNat).Nodup := by
    rw [List.Nodup, List.pairwise_map]
    refine d.got.sorted.imp fun hlt ↦ ?_
    exact ne_of_lt (UInt16.lt_iff_toNat_lt.1 hlt)
  have hsub : (d.got.entries.map fun e ↦ e.1.toNat).toFinset ⊆ Finset.range 65536 := by
    intro n hn
    obtain ⟨e, -, rfl⟩ := List.mem_map.1 (List.mem_toFinset.1 hn)
    exact Finset.mem_range.2 e.1.toNat_lt
  have hcard := Finset.card_le_card hsub
  rwa [List.toFinset_card_of_nodup hnodup, List.length_map, Finset.card_range] at hcard

/-- A decoder that fits has decoded a message whose length fits. -/
theorem Fits.decoded_lt {d : Decoder B} (hd : d.Fits) {m : List B} (hm : d.decoded = some m) :
    m.length < 2 ^ 32 := by
  have h := hd.encoded
  simp only [encode, hm, List.length_append, List.length_cons, Cursor.length_putVec] at h
  omega

/-- **A decoder that fits is read back as it was.** -/
theorem decode_encode {d : Decoder B} (hd : d.Fits) : decode d.encode = .ok d := by
  have hlen : d.messageLen % 256 ^ 4 = d.messageLen := by
    have := hd.messageLen
    exact Nat.mod_eq_of_lt (by omega)
  have hk : d.kChunks % 256 ^ 4 = d.kChunks := by
    have := hd.kChunks
    exact Nat.mod_eq_of_lt (by omega)
  have hn : d.got.size % 256 ^ 4 = d.got.size := by
    have := d.size_got_le
    exact Nat.mod_eq_of_lt (by omega)
  have hmany := Cursor.takeMany_append (p := readChunk) (w := writeChunk) (l := d.got.entries)
    (n := d.got.size) rfl fun e _ ↦ readChunk_reads e
  have hshort : ¬ d.encode.length < 13 := by
    simp only [encode, List.length_append, length_le]
    split
    · simp
    · simp only [List.length_cons, Cursor.length_putVec]
      omega
  unfold decode
  rw [if_neg hshort]
  simp only [encode, List.append_assoc, Cursor.takeLe_append, hlen, hk, hn, hmany, bind, Except.bind]
  cases hdec : d.decoded with
  | none =>
    simp only [Cursor.takeTag_cons, BTree.ofPairs_entries, pure, Except.pure, Nat.zero_mod]
    rw [← hdec]
  | some m =>
    have hvec := Cursor.takeVec_reads PrimitiveError.invalidLength
      (l := m) (hd.decoded_lt hdec) []
    rw [List.append_nil] at hvec
    simp only [Cursor.takeTag_cons, hvec, BTree.ofPairs_entries, Cursor.finish_nil, Nat.one_mod]
    rw [← hdec]

/-- Even with a chunk under every index a decoder in use stays far below `2^32` letters. -/
theorem length_encode_le {d : Decoder B} (hd : d.Storable) : d.encode.length ≤ 3000000 := by
  have hw : ∀ e : UInt16 × Block B 32, (writeChunk e).length = 34 := by
    intro e
    simp [writeChunk]
  have hsize := d.size_got_le
  have hsize' : d.got.entries.length ≤ 65536 := hsize
  simp only [encode, List.length_append, length_le, Cursor.length_flatMap_eq hw]
  cases hdec : d.decoded with
  | none =>
    simp only [List.length_cons, List.length_nil]
    omega
  | some m =>
    have := hd.decoded m hdec
    simp only [List.length_cons, Cursor.length_putVec]
    omega

theorem Storable.fits {d : Decoder B} (hd : d.Storable) : d.Fits where
  messageLen := by have := hd.messageLen; omega
  kChunks := by have := hd.kChunks; omega
  encoded := by have := length_encode_le hd; omega

omit [Alphabet B] in
/-- A decoder that waits for a vector `t̂`, the longest message there is, is storable. -/
theorem new_storable {n : ℕ} (h : n ≤ 1152) : (new n : Decoder B).Storable where
  messageLen := by show n ≤ 2000; omega
  kChunks := by
    show chunkCount n ≤ 100
    unfold chunkCount
    omega
  decoded m hm := by cases hm

theorem tryDecode_storable {d : Decoder B} (hd : d.Storable) : d.tryDecode.Storable := by
  have hlen := hd.messageLen
  unfold tryDecode
  split
  · rename_i message hsys
    refine ⟨hd.messageLen, hd.kChunks, fun m hm ↦ ?_⟩
    cases hm
    obtain ⟨ps, -, rfl⟩ := Option.map_eq_some_iff.1 hsys
    rw [List.length_take]
    omega
  split
  · exact hd
  · refine ⟨hd.messageLen, hd.kChunks, fun m hm ↦ ?_⟩
    cases hm
    simp only [interpolated, List.length_take]
    omega

/-- Another chunk keeps a decoder storable: an index is held once, however often it arrives. -/
theorem addChunk_storable {d d' : Decoder B} (hd : d.Storable) {chunk : List B}
    (h : d.addChunk chunk = .ok d') : d'.Storable := by
  unfold addChunk at h
  split at h
  · cases h
    split
    · exact tryDecode_storable ⟨hd.messageLen, hd.kChunks, hd.decoded⟩
    · exact ⟨hd.messageLen, hd.kChunks, hd.decoded⟩
  · cases h

end Decoder

/-! ### Agents -/

/-- `EncapsSecret::encode`. -/
def EncapsSecret.encode (s : EncapsSecret B) : List B :=
  s.m.val ++ s.coins.val ++ s.k.val ++ s.rho.val ++ s.hek.val

section Readers

/-- `take_arr`. -/
def takeArr (n : ℕ) (data : List B) : Except PrimitiveError (Block B n × List B) :=
  Cursor.takeBlock PrimitiveError.invalidLength n data

/-- `take_vec`. -/
def takeVec (data : List B) : Except PrimitiveError (List B × List B) :=
  Cursor.takeVec PrimitiveError.invalidLength data

/-- `take_bool`. -/
def takeBool (data : List B) : Except PrimitiveError (Bool × List B) := do
  let (b, data) ← Cursor.takeTag PrimitiveError.invalidLength data
  return (b != 0, data)

/-- `take_enc`. -/
def takeEnc (data : List B) : Except PrimitiveError (Encoder B × List B) := do
  let (bs, data) ← takeVec data
  let e ← Encoder.decode bs
  return (e, data)

/-- `take_dec`. -/
def takeDec (data : List B) : Except PrimitiveError (Decoder B × List B) := do
  let (bs, data) ← takeVec data
  let d ← Decoder.decode bs
  return (d, data)

/-- `take_secret`: `EncapsSecret::decode`. -/
def takeSecret (data : List B) : Except PrimitiveError (EncapsSecret B × List B) := do
  let (m, data) ← takeArr 32 data
  let (coins, data) ← takeArr 32 data
  let (k, data) ← takeArr 32 data
  let (rho, data) ← takeArr 32 data
  let (hek, data) ← takeArr 32 data
  return ({ m, coins, k, rho, hek }, data)

omit [Alphabet B] in
@[simp] theorem takeArr_append {n : ℕ} (b : Block B n) (rest : List B) :
    takeArr n (b.val ++ rest) = .ok (b, rest) :=
  Cursor.takeBlock_append _ b rest

/-- A slice of fewer than `2^32` letters is read back. -/
theorem takeVec_append {l : List B} (h : l.length < 2 ^ 32) (rest : List B) :
    takeVec (Cursor.putVec l ++ rest) = .ok (l, rest) :=
  Cursor.takeVec_reads _ h rest

@[simp] theorem takeBool_cons (b : Bool) (rest : List B) :
    takeBool (ofNat b.toNat :: rest) = .ok (b, rest) := by
  cases b <;> simp [takeBool, bind, Except.bind, pure, Except.pure]

/-- An encoder that fits is read back from within an agent. -/
theorem takeEnc_append {e : Encoder B} (he : e.Fits) (rest : List B) :
    takeEnc (Cursor.putVec e.encode ++ rest) = .ok (e, rest) := by
  have hvec := Cursor.takeVec_reads PrimitiveError.invalidLength he.encoded rest
  simp only [takeEnc, takeVec, hvec, Encoder.decode_encode he, bind, Except.bind, pure, Except.pure]

/-- A decoder that fits is read back from within an agent. -/
theorem takeDec_append {d : Decoder B} (hd : d.Fits) (rest : List B) :
    takeDec (Cursor.putVec d.encode ++ rest) = .ok (d, rest) := by
  have hvec := Cursor.takeVec_reads PrimitiveError.invalidLength hd.encoded rest
  simp only [takeDec, takeVec, hvec, Decoder.decode_encode hd, bind, Except.bind, pure, Except.pure]

omit [Alphabet B] in
@[simp] theorem takeSecret_append (s : EncapsSecret B) (rest : List B) :
    takeSecret (s.encode ++ rest) = .ok (s, rest) := by
  simp only [takeSecret, EncapsSecret.encode, List.append_assoc, takeArr_append, bind, Except.bind,
    pure, Except.pure]

end Readers

namespace Agent

/-- `Agent::write`. -/
def write : Agent B → List B
  | keysUnsampled => [ofNat 0]
  | keysSampled dk ekVector headerEnc =>
    ofNat 1 :: dk.val ++ Cursor.putVec ekVector ++ Cursor.putVec headerEnc.encode
  | headerSent dk ekEnc ct1Dec =>
    ofNat 2 :: dk.val ++ Cursor.putVec ekEnc.encode ++ Cursor.putVec ct1Dec.encode
  | ct1Received dk ct1 ekEnc =>
    ofNat 3 :: dk.val ++ Cursor.putVec ct1 ++ Cursor.putVec ekEnc.encode
  | ekSentCt1Received dk ct1 ct2Dec =>
    ofNat 4 :: dk.val ++ Cursor.putVec ct1 ++ Cursor.putVec ct2Dec.encode
  | noHeaderReceived headerDec => ofNat 5 :: Cursor.putVec headerDec.encode
  | headerReceived ekSeed hek ekDec =>
    ofNat 6 :: ekSeed.val ++ hek.val ++ Cursor.putVec ekDec.encode
  | ct1Sampled secret ct1 ct1Enc ekDec ss emittedSs =>
    ofNat 7 :: secret.encode ++ ct1.val ++ Cursor.putVec ct1Enc.encode ++
      Cursor.putVec ekDec.encode ++ ss.val ++ [ofNat emittedSs.toNat]
  | ekReceivedCt1Sampled secret ct1 ekVector ct1Enc ss emittedSs =>
    ofNat 8 :: secret.encode ++ ct1.val ++ Cursor.putVec ekVector ++ Cursor.putVec ct1Enc.encode ++
      ss.val ++ [ofNat emittedSs.toNat]
  | ct1Acknowledged secret ct1 ekDec ss emittedSs =>
    ofNat 9 :: secret.encode ++ ct1.val ++ Cursor.putVec ekDec.encode ++ ss.val ++
      [ofNat emittedSs.toNat]
  | ct2Sampled ct2Enc ss emittedSs =>
    ofNat 10 :: Cursor.putVec ct2Enc.encode ++ ss.val ++ [ofNat emittedSs.toNat]

/-- `Agent::read`. -/
def read (data : List B) : Except PrimitiveError (Agent B × List B) := do
  let (tag, data) ← Cursor.takeTag PrimitiveError.invalidLength data
  match tag with
  | 0 => return (keysUnsampled, data)
  | 1 =>
    let (dk, data) ← takeArr 64 data
    let (ekVector, data) ← takeVec data
    let (headerEnc, data) ← takeEnc data
    return (keysSampled dk ekVector headerEnc, data)
  | 2 =>
    let (dk, data) ← takeArr 64 data
    let (ekEnc, data) ← takeEnc data
    let (ct1Dec, data) ← takeDec data
    return (headerSent dk ekEnc ct1Dec, data)
  | 3 =>
    let (dk, data) ← takeArr 64 data
    let (ct1, data) ← takeVec data
    let (ekEnc, data) ← takeEnc data
    return (ct1Received dk ct1 ekEnc, data)
  | 4 =>
    let (dk, data) ← takeArr 64 data
    let (ct1, data) ← takeVec data
    let (ct2Dec, data) ← takeDec data
    return (ekSentCt1Received dk ct1 ct2Dec, data)
  | 5 =>
    let (headerDec, data) ← takeDec data
    return (noHeaderReceived headerDec, data)
  | 6 =>
    let (ekSeed, data) ← takeArr 32 data
    let (hek, data) ← takeArr 32 data
    let (ekDec, data) ← takeDec data
    return (headerReceived ekSeed hek ekDec, data)
  | 7 =>
    let (secret, data) ← takeSecret data
    let (ct1, data) ← takeArr 960 data
    let (ct1Enc, data) ← takeEnc data
    let (ekDec, data) ← takeDec data
    let (ss, data) ← takeArr 32 data
    let (emittedSs, data) ← takeBool data
    return (ct1Sampled secret ct1 ct1Enc ekDec ss emittedSs, data)
  | 8 =>
    let (secret, data) ← takeSecret data
    let (ct1, data) ← takeArr 960 data
    let (ekVector, data) ← takeVec data
    let (ct1Enc, data) ← takeEnc data
    let (ss, data) ← takeArr 32 data
    let (emittedSs, data) ← takeBool data
    return (ekReceivedCt1Sampled secret ct1 ekVector ct1Enc ss emittedSs, data)
  | 9 =>
    let (secret, data) ← takeSecret data
    let (ct1, data) ← takeArr 960 data
    let (ekDec, data) ← takeDec data
    let (ss, data) ← takeArr 32 data
    let (emittedSs, data) ← takeBool data
    return (ct1Acknowledged secret ct1 ekDec ss emittedSs, data)
  | 10 =>
    let (ct2Enc, data) ← takeEnc data
    let (ss, data) ← takeArr 32 data
    let (emittedSs, data) ← takeBool data
    return (ct2Sampled ct2Enc ss emittedSs, data)
  | _ => throw .invalidLength

/-- Agents whose format loses nothing: every variable part fits behind its length. -/
def Fits : Agent B → Prop
  | keysUnsampled => True
  | keysSampled _ ekVector headerEnc => ekVector.length < 2 ^ 32 ∧ headerEnc.Fits
  | headerSent _ ekEnc ct1Dec => ekEnc.Fits ∧ ct1Dec.Fits
  | ct1Received _ ct1 ekEnc => ct1.length < 2 ^ 32 ∧ ekEnc.Fits
  | ekSentCt1Received _ ct1 ct2Dec => ct1.length < 2 ^ 32 ∧ ct2Dec.Fits
  | noHeaderReceived headerDec => headerDec.Fits
  | headerReceived _ _ ekDec => ekDec.Fits
  | ct1Sampled _ _ ct1Enc ekDec _ _ => ct1Enc.Fits ∧ ekDec.Fits
  | ekReceivedCt1Sampled _ _ ekVector ct1Enc _ _ => ekVector.length < 2 ^ 32 ∧ ct1Enc.Fits
  | ct1Acknowledged _ _ ekDec _ _ => ekDec.Fits
  | ct2Sampled ct2Enc _ _ => ct2Enc.Fits

/-- **Storable agents**: every variable part is short. -/
def Storable : Agent B → Prop
  | keysUnsampled => True
  | keysSampled _ ekVector headerEnc => ekVector.length ≤ 1152 ∧ headerEnc.Storable
  | headerSent _ ekEnc ct1Dec => ekEnc.Storable ∧ ct1Dec.Storable
  | ct1Received _ ct1 ekEnc => ct1.length ≤ 2000 ∧ ekEnc.Storable
  | ekSentCt1Received _ ct1 ct2Dec => ct1.length ≤ 2000 ∧ ct2Dec.Storable
  | noHeaderReceived headerDec => headerDec.Storable
  | headerReceived _ _ ekDec => ekDec.Storable
  | ct1Sampled _ _ ct1Enc ekDec _ _ => ct1Enc.Storable ∧ ekDec.Storable
  | ekReceivedCt1Sampled _ _ ekVector ct1Enc _ _ => ekVector.length ≤ 2000 ∧ ct1Enc.Storable
  | ct1Acknowledged _ _ ekDec _ _ => ekDec.Storable
  | ct2Sampled ct2Enc _ _ => ct2Enc.Storable

/-- **Storable agents lose nothing.** -/
theorem Storable.fits {a : Agent B} (ha : a.Storable) : a.Fits := by
  cases a with
  | keysUnsampled => trivial
  | keysSampled dk ekVector headerEnc => exact ⟨by have := ha.1; omega, ha.2.fits⟩
  | headerSent dk ekEnc ct1Dec => exact ⟨ha.1.fits, ha.2.fits⟩
  | ct1Received dk ct1 ekEnc => exact ⟨by have := ha.1; omega, ha.2.fits⟩
  | ekSentCt1Received dk ct1 ct2Dec => exact ⟨by have := ha.1; omega, ha.2.fits⟩
  | noHeaderReceived headerDec => exact Decoder.Storable.fits ha
  | headerReceived ekSeed hek ekDec => exact Decoder.Storable.fits ha
  | ct1Sampled secret ct1 ct1Enc ekDec ss emittedSs => exact ⟨ha.1.fits, ha.2.fits⟩
  | ekReceivedCt1Sampled secret ct1 ekVector ct1Enc ss emittedSs =>
    exact ⟨by have := ha.1; omega, ha.2.fits⟩
  | ct1Acknowledged secret ct1 ekDec ss emittedSs => exact Decoder.Storable.fits ha
  | ct2Sampled ct2Enc ss emittedSs => exact Encoder.Storable.fits ha

/-- **An agent is read back exactly**, in each of its eleven states: the tag that is written first
selects the reader of the state. -/
theorem read_reads {a : Agent B} (ha : a.Fits) : Cursor.Reads read (write a) a := by
  intro rest
  cases a with
  | keysUnsampled => simp [read, write, bind, Except.bind, pure, Except.pure]
  | keysSampled dk ekVector headerEnc =>
    simp [read, write, takeVec_append ha.1, takeEnc_append ha.2, bind, Except.bind, pure,
      Except.pure]
  | headerSent dk ekEnc ct1Dec =>
    simp [read, write, takeEnc_append ha.1, takeDec_append ha.2, bind, Except.bind, pure,
      Except.pure]
  | ct1Received dk ct1 ekEnc =>
    simp [read, write, takeVec_append ha.1, takeEnc_append ha.2, bind, Except.bind, pure,
      Except.pure]
  | ekSentCt1Received dk ct1 ct2Dec =>
    simp [read, write, takeVec_append ha.1, takeDec_append ha.2, bind, Except.bind, pure,
      Except.pure]
  | noHeaderReceived headerDec =>
    have hd : headerDec.Fits := ha
    simp [read, write, takeDec_append hd, bind, Except.bind, pure, Except.pure]
  | headerReceived ekSeed hek ekDec =>
    have hd : ekDec.Fits := ha
    simp [read, write, takeDec_append hd, bind, Except.bind, pure, Except.pure]
  | ct1Sampled secret ct1 ct1Enc ekDec ss emittedSs =>
    simp [read, write, takeEnc_append ha.1, takeDec_append ha.2, bind, Except.bind, pure,
      Except.pure]
  | ekReceivedCt1Sampled secret ct1 ekVector ct1Enc ss emittedSs =>
    simp [read, write, takeVec_append ha.1, takeEnc_append ha.2, bind, Except.bind, pure,
      Except.pure]
  | ct1Acknowledged secret ct1 ekDec ss emittedSs =>
    have hd : ekDec.Fits := ha
    simp [read, write, takeDec_append hd, bind, Except.bind, pure, Except.pure]
  | ct2Sampled ct2Enc ss emittedSs =>
    have he : ct2Enc.Fits := ha
    simp [read, write, takeEnc_append he, bind, Except.bind, pure, Except.pure]

/-- An agent in use is written in at most seven million letters. -/
theorem length_write_le {a : Agent B} (ha : a.Storable) : (write a).length ≤ 7000000 := by
  have henc : ∀ {e : Encoder B}, e.Storable → (Cursor.putVec e.encode).length ≤ 4014 := by
    intro e he
    have := he.data
    rw [Cursor.length_putVec, Encoder.length_encode]
    omega
  have hdec : ∀ {d : Decoder B}, d.Storable → (Cursor.putVec d.encode).length ≤ 3000004 := by
    intro d hd
    have := Decoder.length_encode_le hd
    rw [Cursor.length_putVec]
    omega
  have hsecret : ∀ s : EncapsSecret B, s.encode.length = 160 := by
    intro s
    simp [EncapsSecret.encode]
  cases a with
  | keysUnsampled => simp [write]
  | keysSampled dk ekVector headerEnc =>
    have h1 := ha.1
    have h2 := henc ha.2
    simp only [write, List.length_append, List.length_cons, Block.length_val, Cursor.length_putVec]
      at h2 ⊢
    omega
  | headerSent dk ekEnc ct1Dec =>
    have h1 := henc ha.1
    have h2 := hdec ha.2
    simp only [write, List.length_append, List.length_cons, Block.length_val]
    omega
  | ct1Received dk ct1 ekEnc =>
    have h1 := ha.1
    have h2 := henc ha.2
    simp only [write, List.length_append, List.length_cons, Block.length_val, Cursor.length_putVec]
      at h2 ⊢
    omega
  | ekSentCt1Received dk ct1 ct2Dec =>
    have h1 := ha.1
    have h2 := hdec ha.2
    simp only [write, List.length_append, List.length_cons, Block.length_val, Cursor.length_putVec]
      at h2 ⊢
    omega
  | noHeaderReceived headerDec =>
    have h1 := hdec (show headerDec.Storable from ha)
    simp only [write, List.length_cons]
    omega
  | headerReceived ekSeed hek ekDec =>
    have h1 := hdec (show ekDec.Storable from ha)
    simp only [write, List.length_append, List.length_cons, Block.length_val]
    omega
  | ct1Sampled secret ct1 ct1Enc ekDec ss emittedSs =>
    have h1 := henc ha.1
    have h2 := hdec ha.2
    simp only [write, List.length_append, List.length_cons, List.length_nil, Block.length_val,
      hsecret]
    omega
  | ekReceivedCt1Sampled secret ct1 ekVector ct1Enc ss emittedSs =>
    have h1 := ha.1
    have h2 := henc ha.2
    simp only [write, List.length_append, List.length_cons, List.length_nil, Block.length_val,
      hsecret, Cursor.length_putVec] at h2 ⊢
    omega
  | ct1Acknowledged secret ct1 ekDec ss emittedSs =>
    have h1 := hdec (show ekDec.Storable from ha)
    simp only [write, List.length_append, List.length_cons, List.length_nil, Block.length_val,
      hsecret]
    omega
  | ct2Sampled ct2Enc ss emittedSs =>
    have h1 := henc (show ct2Enc.Storable from ha)
    simp only [write, List.length_append, List.length_cons, List.length_nil, Block.length_val]
    omega

end Agent

/-! ### The whole state -/

namespace BraidScka

/-- `serialize`. -/
def serialize (s : BraidScka B) : List B :=
  ascii "VCBRAID3" ++ le 8 s.epoch.toNat ++ s.auth.rootKey.val ++ s.auth.macKey.val ++ s.agent.write

/-- `deserialize_v3`, behind the magic. -/
def deserializeV3 (data : List B) : Except PrimitiveError (BraidScka B) := do
  let (epoch, data) ← Cursor.takeLe PrimitiveError.invalidLength 8 data
  let (rootKey, data) ← takeArr 32 data
  let (macKey, data) ← takeArr 32 data
  let (agent, data) ← Agent.read data
  Cursor.finish PrimitiveError.invalidLength data
    { epoch := UInt64.ofNat epoch, auth := { rootKey, macKey }, agent }

/-- `deserialize_compact`, behind the magic: only the role of the party is known. -/
def deserializeCompact (data : List B) : Except PrimitiveError (BraidScka B) := do
  let (epoch, data) ← Cursor.takeLe PrimitiveError.invalidLength 8 data
  let (rootKey, data) ← takeArr 32 data
  let (macKey, data) ← takeArr 32 data
  let (bobLike, _) ← takeBool data
  return { epoch := UInt64.ofNat epoch, auth := { rootKey, macKey }
           agent := if bobLike then .noHeaderReceived (Decoder.new (64 + 32)) else .keysUnsampled }

/-- `deserialize`. -/
def deserialize (data : List B) : Except PrimitiveError (BraidScka B) :=
  if data.take 8 = ascii "VCBRAID3" then deserializeV3 (data.drop 8)
  else if data.take 8 = ascii "VCBRAID2" ∨ data.take 8 = ascii "VCBRAID1" then
    deserializeCompact (data.drop 8)
  else .error .invalidLength

/-- **The Braid state survives persistence** in the middle of an epoch. -/
theorem deserialize_serialize {s : BraidScka B} (hs : s.agent.Fits) :
    deserialize s.serialize = .ok s := by
  have hmagic : (ascii "VCBRAID3" : List B).length = 8 := rfl
  have hepoch : UInt64.ofNat (s.epoch.toNat % 256 ^ 8) = s.epoch := by
    rw [Nat.mod_eq_of_lt (by have := s.epoch.toNat_lt; omega), UInt64.ofNat_toNat]
  have hagent := Agent.read_reads hs []
  rw [List.append_nil] at hagent
  unfold deserialize serialize
  simp only [List.append_assoc]
  rw [if_pos (List.take_left' hmagic), List.drop_left' hmagic]
  simp only [deserializeV3, Cursor.takeLe_append, takeArr_append, hagent, hepoch, bind, Except.bind,
    Cursor.finish_nil]

/-- A whole state in use is written in at most eight million letters, far below `2^32`. -/
theorem length_serialize_le {s : BraidScka B} (hs : s.agent.Storable) :
    s.serialize.length ≤ 8000000 := by
  have hmagic : (ascii "VCBRAID3" : List B).length = 8 := rfl
  have := Agent.length_write_le hs
  simp only [serialize, List.length_append, length_le, Block.length_val, hmagic]
  omega

variable {P : Primitives B} {s s' : BraidScka B}

theorem encaps1IfNeeded_storable (m : Block B 32) (hs : s.agent.Storable) :
    (encaps1IfNeeded P m s).agent.Storable := by
  unfold encaps1IfNeeded
  split
  · rename_i ekSeed hek ekDec hagent
    rw [hagent] at hs
    exact ⟨Encoder.new_storable (by simp), hs⟩
  · exact hs

/-- **Sending keeps a state storable.** -/
theorem send_storable (seed : Block B 64) (m : Block B 32) (hs : s.agent.Storable) :
    (send P seed m s).2.agent.Storable := by
  have ht := encaps1IfNeeded_storable (P := P) m hs
  unfold send
  dsimp only
  split
  · -- a new key pair: its header with the MAC is 96 bytes, its vector 1152
    refine ⟨?_, Encoder.nextChunk_storable (Encoder.new_storable ?_)⟩
    · simp [headerFromEk]
    · simp [headerFromEk]
  all_goals rename_i hagent; rw [hagent] at ht
  · exact ⟨ht.1, Encoder.nextChunk_storable ht.2⟩
  · exact ⟨Encoder.nextChunk_storable ht.1, ht.2⟩
  · exact ⟨ht.1, Encoder.nextChunk_storable ht.2⟩
  · rw [hagent]; exact ht
  · rw [hagent]; exact ht
  · rw [hagent]; exact ht
  · rw [hagent]; exact ht
  · exact ⟨Encoder.nextChunk_storable ht.1, ht.2⟩
  · exact ⟨ht.1, Encoder.nextChunk_storable ht.2⟩
  · exact Encoder.nextChunk_storable ht

/-- **Receiving keeps a state storable**, in each of the eleven states. -/
theorem receive_storable {msg : BraidMessage B} {r : ℕ × Option (SckaOutput B)}
    (hs : s.agent.Storable) (h : receive P msg s = .ok (r, s')) : s'.agent.Storable := by
  obtain ⟨n, out⟩ := r
  cases receives_of_receive h with
  | stay => exact hs
  | firstCt1 hagent _ hadd =>
    rw [hagent] at hs
    exact ⟨Encoder.new_storable hs.1,
      Decoder.addChunk_storable (Decoder.new_storable (by omega)) hadd⟩
  | ct1 hagent _ hadd =>
    rw [hagent] at hs
    exact ⟨hs.1, Decoder.addChunk_storable hs.2 hadd⟩
  | ct1Done hagent _ hadd hdec =>
    rw [hagent] at hs
    exact ⟨(Decoder.addChunk_storable hs.2 hadd).decoded _ hdec, hs.1⟩
  | firstCt2 hagent _ hadd =>
    rw [hagent] at hs
    exact ⟨hs.1, Decoder.addChunk_storable (Decoder.new_storable (by omega)) hadd⟩
  | ct2 hagent _ hadd =>
    rw [hagent] at hs
    exact ⟨hs.1, Decoder.addChunk_storable hs.2 hadd⟩
  | ct2Done _ _ _ _ hdecaps =>
    obtain ⟨-, -, hagent⟩ := decapsulate_eq_ok hdecaps
    rw [hagent]
    exact Decoder.new_storable (by omega)
  | hdr hagent _ hadd =>
    rw [hagent] at hs
    exact Decoder.addChunk_storable hs hadd
  | hdrDone _ _ _ _ hacc =>
    obtain ⟨ekSeed, hek, rfl⟩ := acceptHeader_eq_ok hacc
    exact Decoder.new_storable (by omega)
  | ek hagent _ hadd =>
    rw [hagent] at hs
    exact ⟨hs.1, Decoder.addChunk_storable hs.2 hadd⟩
  | ekDone hagent _ hadd hdec =>
    rw [hagent] at hs
    exact ⟨(Decoder.addChunk_storable hs.2 hadd).decoded _ hdec, hs.1⟩
  | ekCt1Ack hagent _ hadd =>
    rw [hagent] at hs
    exact Decoder.addChunk_storable hs.2 hadd
  | acknowledged hagent _ hadd =>
    rw [hagent] at hs
    exact Decoder.addChunk_storable hs hadd
  | sampled _ hct2 =>
    obtain ⟨ct2, mac, rfl⟩ := sampleCt2_eq_ok hct2
    exact Encoder.new_storable (by simp)
  | complete => exact True.intro

end BraidScka

end VoiceChatCrypto
