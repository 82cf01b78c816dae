import Mathlib.Data.List.GetD
import VoiceChatCrypto.Braid.Scka
import VoiceChatCrypto.Data.Checked

/-!
# Braid in place

`send` and `receive` once more, as methods on a mutable object of a process that can die. Every index
into a buffer, every `copy_from_slice` and the sum `self.epoch + 1` is one that the machine checks
(`Data/Checked.lean`), and a failure leaves the object as far as it was changed: a chunk that has been
added stays added, and the authenticator that has been ratcheted stays ratcheted.

Unless they panic, the methods do what the functions of `Braid/Scka.lean` do (`sendAt_follows`,
`receiveAt_follows`). Collecting chunks never panics (`addChunkAt_eq`): the interpolation indexes
`k` points, and is tried when `k` chunks are there. An encoder does not panic if it is `Full`.
-/

open Alphabet Checked

namespace VoiceChatCrypto

variable {B ε : Type} [Alphabet B]

/-! ### Interpolation -/

/-- The inner loop of `lagrange_eval`; `none` is its early return. -/
def lagrangeFactorAt (xAt : ℕ → Checked ε UInt16) (x xi : UInt16) (i : ℕ) :
    List ℕ → UInt16 → Checked ε (Option UInt16)
  | [], li => .ok (some li)
  | j :: js, li =>
    if i = j then lagrangeFactorAt xAt x xi i js li
    else do
      let xj ← xAt j
      if xi ^^^ xj = 0 then return none
      else lagrangeFactorAt xAt x xi i js (gfMul li (gfMul (x ^^^ xj) (gfInv (xi ^^^ xj))))

/-- The outer loop of `lagrange_eval`. -/
def lagrangeLoopAt (k : ℕ) (xAt yAt : ℕ → Checked ε UInt16) (x : UInt16) :
    List ℕ → UInt16 → Checked ε UInt16
  | [], acc => .ok acc
  | i :: is, acc => do
    let xi ← xAt i
    match ← lagrangeFactorAt xAt x xi i (List.range k) 1 with
    | none => return 0
    | some li =>
      let yi ← yAt i
      lagrangeLoopAt k xAt yAt x is (acc ^^^ gfMul yi li)

/-- `lagrange_eval`, on points and values that are read from buffers. -/
def lagrangeEvalAt (k : ℕ) (xAt yAt : ℕ → Checked ε UInt16) (x : UInt16) : Checked ε UInt16 :=
  lagrangeLoopAt k xAt yAt x (List.range k) 0

section Interpolation

variable {k : ℕ} {xAt yAt : ℕ → Checked ε UInt16} {f g : ℕ → UInt16} {x : UInt16}

/-- With all points at hand, the inner loop reads without a fault and computes what the unchecked
one does. -/
theorem lagrangeFactorAt_eq_ok {i : ℕ} {js : List ℕ} (hx : ∀ j ∈ js, xAt j = .ok (f j))
    (li : UInt16) : lagrangeFactorAt xAt x (f i) i js li = .ok (js.foldlM (fun li j ↦
      if i = j then some li
      else if f i ^^^ f j = 0 then none
      else some (gfMul li (gfMul (x ^^^ f j) (gfInv (f i ^^^ f j))))) li) := by
  induction js generalizing li with
  | nil => rfl
  | cons j js ih =>
    have hjs : ∀ j ∈ js, xAt j = .ok (f j) := fun j hj ↦ hx j (List.mem_cons_of_mem _ hj)
    rw [lagrangeFactorAt, List.foldlM_cons, hx j List.mem_cons_self, ok_bind]
    by_cases hij : i = j
    · rw [if_pos hij, if_pos hij, ih hjs]
      rfl
    · rw [if_neg hij, if_neg hij]
      by_cases hden : f i ^^^ f j = 0
      · rw [if_pos hden, if_pos hden]
        rfl
      · rw [if_neg hden, if_neg hden, ih hjs]
        rfl

/-- With all points and values at hand, the outer loop reads without a fault and computes what the
unchecked one does. -/
theorem lagrangeLoopAt_eq_ok (hx : ∀ i < k, xAt i = .ok (f i)) (hy : ∀ i < k, yAt i = .ok (g i))
    {is : List ℕ} (his : ∀ i ∈ is, i < k) (acc : UInt16) :
    lagrangeLoopAt k xAt yAt x is acc = .ok ((is.foldlM (fun acc i ↦
      (lagrangeFactor k f x i).map fun li ↦ acc ^^^ gfMul (g i) li) acc).getD 0) := by
  induction is generalizing acc with
  | nil => rfl
  | cons i is ih =>
    have hi := his i List.mem_cons_self
    have hfactor : lagrangeFactorAt xAt x (f i) i (List.range k) 1 = .ok (lagrangeFactor k f x i) :=
      lagrangeFactorAt_eq_ok (fun j hj ↦ hx j (List.mem_range.1 hj)) 1
    rw [lagrangeLoopAt, List.foldlM_cons, hx i hi, ok_bind, hfactor, ok_bind]
    cases lagrangeFactor k f x i with
    | none => rfl
    | some li =>
      dsimp only
      rw [hy i hi, ok_bind, ih fun i hi ↦ his i (List.mem_cons_of_mem _ hi)]
      rfl

/-- **Interpolation reads its points and values**, and nothing else: with all of them at hand it
returns what the unchecked function does. -/
theorem lagrangeEvalAt_eq_ok (hx : ∀ i < k, xAt i = .ok (f i)) (hy : ∀ i < k, yAt i = .ok (g i)) :
    lagrangeEvalAt k xAt yAt x = .ok (lagrangeEval k f g x) :=
  lagrangeLoopAt_eq_ok hx hy (fun _ hi ↦ List.mem_range.1 hi) 0

end Interpolation

/-! ### Encoders -/

namespace Encoder

/-- `symbol_row`. -/
def symbolRowAt (e : Encoder B) (idx : UInt16) : Checked Empty (List B) :=
  if idx.toNat < e.kChunks then do
    let row ← each (fun j ↦ index e.data (idx.toNat * syms + j)) (List.range syms)
    return ofSymbols row
  else do
    let row ← each (fun col ↦ do
      let y ← lagrangeEvalAt e.kChunks (fun i ↦ .ok (evalPoint (UInt16.ofNat i)))
        (fun i ↦ do
          let s ← index e.data (i * syms + col)
          return symbolValue s) (evalPoint idx)
      return symbolOf y) (List.range syms)
    return ofSymbols row

/-- `next_chunk`. -/
def nextChunkAt (e : Encoder B) : Checked Empty (List B × Encoder B) := do
  let payload ← e.symbolRowAt e.next
  return (be 2 e.next.toNat ++ payload, { e with next := e.next + 1 })

/-- **Full encoders**: every row that `next_chunk` can ask for is there. An index has 16 bits, so
rows from 65536 on do not matter. -/
def Full (e : Encoder B) : Prop := syms * min e.kChunks 65536 ≤ e.data.length

omit [Alphabet B] in
/-- An encoder of whole chunks has data for every chunk it announces. -/
theorem Whole.full {e : Encoder B} (he : e.Whole) : e.Full := by
  have hdata : e.data.length = syms * e.kChunks := he
  unfold Full syms at *
  omega

/-- **A full encoder sends its rows.** -/
theorem symbolRowAt_of_full {e : Encoder B} (he : e.Full) (idx : UInt16) :
    e.symbolRowAt idx = .ok (e.symbolRow idx) := by
  have hidx := idx.toNat_lt
  have hfull : 16 * min e.kChunks 65536 ≤ e.data.length := he
  unfold symbolRowAt symbolRow
  split
  · rename_i hlt
    have hrow : ∀ j ∈ List.range syms, (index e.data (idx.toNat * syms + j) : Checked Empty (B × B)) =
        .ok (e.data.getD (idx.toNat * syms + j) (ofNat 0, ofNat 0)) := by
      intro j hj
      have hj := List.mem_range.1 hj
      unfold syms at hj ⊢
      exact index_of_lt (by omega) _
    have hpiece : (List.range syms).map (fun j ↦
        e.data.getD (idx.toNat * syms + j) (ofNat 0, ofNat 0)) =
        (e.data.drop (idx.toNat * syms)).take syms := by
      refine List.ext_getElem ?_ fun j hj hj' ↦ ?_
      · rw [List.length_map, List.length_range, List.length_take, List.length_drop]
        unfold syms
        omega
      · rw [List.length_map, List.length_range] at hj
        have hin : idx.toNat * syms + j < e.data.length := by
          unfold syms at hj ⊢
          omega
        rw [List.getElem_map, List.getElem_range, List.getElem_take, List.getElem_drop,
          List.getD_eq_getElem _ _ hin]
    rw [each_eq_ok hrow, ok_bind, hpiece]
    rfl
  · rename_i hge
    -- the index has 16 bits, so the message has fewer than 65536 rows, all of them in the buffer
    have hcol : ∀ col ∈ List.range syms, (do
        let y ← lagrangeEvalAt e.kChunks (fun i ↦ .ok (evalPoint (UInt16.ofNat i)))
          (fun i ↦ do
            let s ← index e.data (i * syms + col)
            return symbolValue s) (evalPoint idx)
        return symbolOf y : Checked Empty (B × B)) =
        .ok (symbolOf (lagrangeEval e.kChunks (fun i ↦ evalPoint (UInt16.ofNat i))
          (fun i ↦ symbolValue (e.data.getD (i * syms + col) (ofNat 0, ofNat 0)))
          (evalPoint idx))) := by
      intro col hcol
      have hcol := List.mem_range.1 hcol
      rw [lagrangeEvalAt_eq_ok (fun _ _ ↦ rfl) fun i hi ↦ ?_]
      · rfl
      · unfold syms at hcol ⊢
        rw [index_of_lt (by omega) (ofNat 0, ofNat 0)]
        rfl
    rw [each_eq_ok hcol, ok_bind]
    rfl

/-- A chunk leaves the message as it is. -/
theorem nextChunkAt_eq_ok {e e' : Encoder B} {chunk : List B} (h : e.nextChunkAt = .ok (chunk, e')) :
    e' = { e with next := e.next + 1 } := by
  unfold nextChunkAt at h
  cases hrow : e.symbolRowAt e.next with
  | ok row =>
    rw [hrow] at h
    cases h
    rfl
  | err e => exact e.elim
  | panic =>
    rw [hrow] at h
    cases h

theorem nextChunkAt_of_full {e : Encoder B} (he : e.Full) :
    e.nextChunkAt = .ok e.nextChunk := by
  rw [nextChunkAt, symbolRowAt_of_full he]
  rfl

/-- The first row that is missing. -/
theorem symbolRowAt_missing {e : Encoder B} {idx : UInt16} (hlt : idx.toNat < e.kChunks)
    (hmissing : e.data.length < syms * (idx.toNat + 1)) :
    e.symbolRowAt idx = .panic := by
  unfold syms at hmissing
  rw [symbolRowAt, if_pos hlt, each_eq_panic]
  · rfl
  · exact ⟨15, List.mem_range.2 (by decide), index_of_le (by unfold syms; omega)⟩

end Encoder

/-! ### Decoders -/

namespace Decoder

/-- The interpolation of `try_decode`. -/
def interpolatedAt (d : Decoder B) : Checked Empty (List B) := do
  let pts := d.got.entries.take d.kChunks
  let rows ← each (fun i ↦ do
    let row ← each (fun col ↦ do
      let y ← lagrangeEvalAt d.kChunks
        (fun t ↦ do
          let p ← index pts t
          return evalPoint p.1)
        (fun t ↦ do
          let p ← index pts t
          let hi ← index p.2.val (2 * col)
          let lo ← index p.2.val (2 * col + 1)
          return symbolValue (hi, lo)) (evalPoint (UInt16.ofNat i))
      return symbolOf y) (List.range syms)
    return ofSymbols row) (List.range d.kChunks)
  return (rows.flatMap id).take d.messageLen

/-- `try_decode`. The slices of `systematic` that it writes are cut from `k` whole chunks. -/
def tryDecodeAt (d : Decoder B) : Checked Empty (Decoder B) :=
  match d.systematic with
  | some message => .ok { d with decoded := some message }
  | none =>
    if d.got.size < d.kChunks then .ok d
    else do
      let message ← d.interpolatedAt
      return { d with decoded := some message }

/-- `add_chunk`. -/
def addChunkAt (d : Decoder B) (chunk : List B) : Checked PrimitiveError (Decoder B) := do
  ensure (chunk.length = chunkWire) .invalidLength
  let hi ← index chunk 0
  let lo ← index chunk 1
  let payload ← slice chunk 2 chunk.length
  let payload ← array 32 payload
  let d := { d with got := d.got.insert (UInt16.ofNat (fromBe [hi, lo])) payload }
  if d.got.size ≥ d.kChunks ∧ d.decoded.isNone then d.tryDecodeAt.lift else return d

/-- **Interpolation indexes the chunks that are there.** -/
theorem interpolatedAt_eq_ok {d : Decoder B} (h : d.kChunks ≤ d.got.size) :
    d.interpolatedAt = .ok d.interpolated := by
  have hpts : (d.got.entries.take d.kChunks).length = d.kChunks := by
    rw [List.length_take]
    exact min_eq_left h
  have hin : ∀ {t : ℕ}, t < d.kChunks → ∃ p, (d.got.entries.take d.kChunks)[t]? = some p := by
    intro t ht
    exact ⟨_, List.getElem?_eq_getElem (by omega)⟩
  have hcell : ∀ i, ∀ col ∈ List.range syms, (do
      let y ← lagrangeEvalAt d.kChunks
        (fun t ↦ do
          let p ← index (d.got.entries.take d.kChunks) t
          return evalPoint p.1)
        (fun t ↦ do
          let p ← index (d.got.entries.take d.kChunks) t
          let hi ← index p.2.val (2 * col)
          let lo ← index p.2.val (2 * col + 1)
          return symbolValue (hi, lo)) (evalPoint (UInt16.ofNat i))
      return symbolOf y : Checked Empty (B × B)) = .ok (symbolOf (lagrangeEval d.kChunks
        (fun t ↦ ((d.got.entries.take d.kChunks)[t]?.map fun p ↦ evalPoint p.1).getD 0)
        (fun t ↦ ((d.got.entries.take d.kChunks)[t]?.map fun p ↦ symbolValue
          (p.2.val.getD (2 * col) (ofNat 0), p.2.val.getD (2 * col + 1) (ofNat 0))).getD 0)
        (evalPoint (UInt16.ofNat i)))) := by
    intro i col hcol
    have hcol : col < 16 := List.mem_range.1 hcol
    rw [lagrangeEvalAt_eq_ok (fun t ht ↦ ?_) fun t ht ↦ ?_]
    · rfl
    · obtain ⟨p, hp⟩ := hin ht
      rw [index, hp]
      rfl
    · obtain ⟨p, hp⟩ := hin ht
      have hlen := p.2.length_val
      rw [index, hp]
      dsimp only
      rw [ok_bind, index_of_lt (by omega) (ofNat 0), ok_bind, index_of_lt (by omega) (ofNat 0)]
      rfl
  have hrow : ∀ i ∈ List.range d.kChunks, _ = (Checked.ok _ : Checked Empty (List B)) :=
    fun i _ ↦ congrArg (· >>= fun row ↦ pure (ofSymbols row)) (each_eq_ok (hcell i))
  unfold interpolatedAt
  dsimp only
  rw [each_eq_ok hrow, ok_bind]
  rfl

/-- A decoder with enough chunks finds all it looks up. -/
theorem tryDecodeAt_eq_ok {d : Decoder B} (h : d.kChunks ≤ d.got.size) :
    d.tryDecodeAt = .ok d.tryDecode := by
  unfold tryDecodeAt tryDecode
  cases d.systematic with
  | some message => rfl
  | none =>
    dsimp only
    rw [if_neg (by omega), if_neg (by omega), interpolatedAt_eq_ok h]
    rfl

/-- **Collecting a chunk never panics**, whatever the decoder holds: it is interpolated only from
chunks that are there. -/
theorem addChunkAt_eq (d : Decoder B) (chunk : List B) :
    d.addChunkAt chunk = ofExcept (d.addChunk chunk) := by
  unfold addChunkAt addChunk
  by_cases h : chunk.length = chunkWire
  · have hlen : chunk.length = 34 := h
    obtain ⟨hi, chunk, rfl⟩ := List.exists_cons_of_ne_nil (l := chunk) (by rintro rfl; cases hlen)
    rw [List.length_cons] at hlen
    obtain ⟨lo, chunk, rfl⟩ := List.exists_cons_of_ne_nil (l := chunk) (by rintro rfl; cases hlen)
    rw [List.length_cons] at hlen
    have hslice : (slice (hi :: lo :: chunk) 2 (hi :: lo :: chunk).length :
        Checked PrimitiveError (List B)) = .ok chunk := by
      rw [slice_of_le (by simp) (le_refl _)]
      simp
    have hlen : chunk.length = 32 := by omega
    rw [ensure_of_pos h, ok_bind, dif_pos h, index_of_lt (by simp) hi, ok_bind,
      index_of_lt (by simp) hi, ok_bind, hslice, ok_bind, array_of_length hlen]
    let d' : Decoder B := { d with got := d.got.insert (UInt16.ofNat (fromBe [hi, lo])) ⟨chunk, hlen⟩ }
    show (if d'.got.size ≥ d'.kChunks ∧ d'.decoded.isNone then d'.tryDecodeAt.lift else pure d') =
      ofExcept (.ok (if d'.got.size ≥ d'.kChunks ∧ d'.decoded.isNone then d'.tryDecode else d'))
    by_cases hfull : d'.got.size ≥ d'.kChunks ∧ d'.decoded.isNone
    · rw [if_pos hfull, if_pos hfull, tryDecodeAt_eq_ok hfull.1]
      rfl
    · rw [if_neg hfull, if_neg hfull]
      rfl
  · rw [ensure_of_neg h, err_bind, dif_neg h]
    rfl

end Decoder

/-! ### The methods -/

namespace Agent

/-- The agent with another encoder to send from. -/
def setEncoder (e : Encoder B) : Agent B → Agent B
  | keysSampled dk ekVector _ => keysSampled dk ekVector e
  | headerSent dk _ ct1Dec => headerSent dk e ct1Dec
  | ct1Received dk ct1 _ => ct1Received dk ct1 e
  | ct1Sampled secret ct1 _ ekDec ss emittedSs => ct1Sampled secret ct1 e ekDec ss emittedSs
  | ekReceivedCt1Sampled secret ct1 ekVector _ ss emittedSs =>
    ekReceivedCt1Sampled secret ct1 ekVector e ss emittedSs
  | ct2Sampled _ ss emittedSs => ct2Sampled e ss emittedSs
  | a => a

omit [Alphabet B] in
/-- An agent that had an encoder has the one it was given. -/
theorem encoder_setEncoder {a : Agent B} {e : Encoder B} (h : a.encoder = some e) (e' : Encoder B) :
    (a.setEncoder e').encoder = some e' := by
  cases a <;> first | rfl | cases h

end Agent

namespace BraidScka

variable (P : Primitives B)

/-- `send`. -/
def sendAt (seed : Block B 64) (m : Block B 32) (s : BraidScka B) :
    Checked (PrimitiveError × BraidScka B)
      ((BraidMessage B × ℕ × Option (SckaOutput B)) × BraidScka B) := do
  let s := encaps1IfNeeded P m s
  let sendingEpoch := s.epoch.toNat - 1
  match s.agent with
  | .keysUnsampled =>
    let (headerBytes, t) := headerFromEk P (P.kemPublic seed)
    let mac := s.auth.macHdr P s.epoch headerBytes
    let (chunk, headerEnc) ← (Encoder.new (headerBytes ++ mac.val)).nextChunkAt.lift
    return ((s.msg .hdr chunk, sendingEpoch, none), { s with agent := .keysSampled seed t headerEnc })
  | .keysSampled dk ekVector headerEnc =>
    let (chunk, headerEnc) ← headerEnc.nextChunkAt.lift
    return ((s.msg .hdr chunk, sendingEpoch, none),
      { s with agent := .keysSampled dk ekVector headerEnc })
  | .headerSent dk ekEnc ct1Dec =>
    let (chunk, ekEnc) ← ekEnc.nextChunkAt.lift
    return ((s.msg .ek chunk, sendingEpoch, none), { s with agent := .headerSent dk ekEnc ct1Dec })
  | .ct1Received dk ct1 ekEnc =>
    let (chunk, ekEnc) ← ekEnc.nextChunkAt.lift
    return ((s.msg .ekCt1Ack chunk, sendingEpoch, none),
      { s with agent := .ct1Received dk ct1 ekEnc })
  | .ekSentCt1Received .. | .noHeaderReceived .. | .headerReceived .. | .ct1Acknowledged .. =>
    return ((s.msg .none [], sendingEpoch, none), s)
  | .ct1Sampled secret ct1 ct1Enc ekDec ss emittedSs =>
    let (chunk, ct1Enc) ← ct1Enc.nextChunkAt.lift
    return ((s.msg .ct1 chunk, sendingEpoch, none),
      { s with agent := .ct1Sampled secret ct1 ct1Enc ekDec ss emittedSs })
  | .ekReceivedCt1Sampled secret ct1 ekVector ct1Enc ss emittedSs =>
    let (chunk, ct1Enc) ← ct1Enc.nextChunkAt.lift
    return ((s.msg .ct1 chunk, sendingEpoch, none),
      { s with agent := .ekReceivedCt1Sampled secret ct1 ekVector ct1Enc ss emittedSs })
  | .ct2Sampled ct2Enc ss emittedSs =>
    let (chunk, ct2Enc) ← ct2Enc.nextChunkAt.lift
    return ((s.msg .ct2 chunk, sendingEpoch, none),
      { s with agent := .ct2Sampled ct2Enc ss emittedSs })

/-- The `EkSentCt1Received` arm once `ct2` is complete. `s` has collected the chunk already, and its
authenticator is ratcheted **before** the MAC is verified. -/
def decapsulateAt (s : BraidScka B) (dk : Block B 64) (ct1 blob : List B) :
    Checked (PrimitiveError × BraidScka B) (SckaOutput B × BraidScka B) := do
  ensure (128 + 32 ≤ blob.length) (PrimitiveError.invalidLength, s)
  let ct2 ← slice blob 0 128
  let mac ← slice blob 128 (128 + 32)
  let ct1a ← array 960 ct1
  let ct2a ← array 128 ct2
  let joined := ct1a.val ++ ct2a.val
  let cto ← (ofExcept (kemCiphertextFromBytes joined)).leaving s
  let ss := kdfOk P (P.kemDecapsulate dk cto) s.epoch
  let s := { s with auth := s.auth.update P s.epoch ss }
  (ofExcept (s.auth.vfyCt P s.epoch joined mac)).leaving s
  ensure (s.epoch.toNat + 1 < 2 ^ 64) (PrimitiveError.limitExceeded, s)
  return ({ epoch := s.epoch, key := ss },
    { s with epoch := s.epoch + 1, agent := .noHeaderReceived (Decoder.new (64 + 32)) })

/-- The `NoHeaderReceived` arm once the header is complete. -/
def acceptHeaderAt (s : BraidScka B) (blob : List B) :
    Checked (PrimitiveError × BraidScka B) (BraidScka B) := do
  ensure (64 + 32 ≤ blob.length) (PrimitiveError.invalidLength, s)
  let header ← slice blob 0 64
  let mac ← slice blob 64 (64 + 32)
  (ofExcept (s.auth.vfyHdr P s.epoch header mac)).leaving s
  let ekSeed ← slice header 0 32
  let ekSeed ← array 32 ekSeed
  let hek ← slice header 32 64
  let hek ← array 32 hek
  return { s with agent := .headerReceived ekSeed hek (Decoder.new 1152) }

/-- The second half of an encapsulation, on an object that has collected the chunk already. The arrays
that it joins have their lengths by type. -/
def sampleCt2At (s : BraidScka B) (secret : EncapsSecret B) (ct1 : Block B 960) (ekVector : List B)
    (ss : Block B 32) (emittedSs : Bool) : Checked (PrimitiveError × BraidScka B) (BraidScka B) :=
  (ofExcept (sampleCt2 P s secret ct1 ekVector ss emittedSs)).leaving s

/-- `recv_ek_or_ack`. -/
def recvEkOrAckAt (s : BraidScka B) (msg : BraidMessage B) (secret : EncapsSecret B)
    (ct1 : Block B 960) (ct1Enc : Encoder B) (ekDec : Decoder B) (ss : Block B 32)
    (emittedSs : Bool) : Checked (PrimitiveError × BraidScka B) (BraidScka B) :=
  if msg.epoch ≠ s.epoch then .ok s
  else match msg.typ with
    | .ek => do
      let ekDec ← (ekDec.addChunkAt msg.data).leaving s
      match ekDec.decoded with
      | some t =>
        return { s with agent := .ekReceivedCt1Sampled secret ct1 t ct1Enc ss emittedSs }
      | none => return { s with agent := .ct1Sampled secret ct1 ct1Enc ekDec ss emittedSs }
    | .ekCt1Ack => do
      let ekDec ← (ekDec.addChunkAt msg.data).leaving s
      match ekDec.decoded with
      | some t =>
        sampleCt2At P { s with agent := .ct1Sampled secret ct1 ct1Enc ekDec ss emittedSs }
          secret ct1 t ss emittedSs
      | none => return { s with agent := .ct1Acknowledged secret ct1 ekDec ss emittedSs }
    | _ => .ok s

/-- `receive`. -/
def receiveAt (msg : BraidMessage B) (s : BraidScka B) :
    Checked (PrimitiveError × BraidScka B) ((ℕ × Option (SckaOutput B)) × BraidScka B) := do
  let receivingEpoch := s.epoch.toNat - 1
  let next ← add 64 s.epoch.toNat 1
  ensure (msg.epoch.toNat ≤ next) (PrimitiveError.invalidLength, s)
  match s.agent with
  | .keysUnsampled => return ((receivingEpoch, none), s)
  | .keysSampled dk ekVector _ =>
    if msg.epoch = s.epoch ∧ msg.typ = .ct1 then
      let ct1Dec ← ((Decoder.new 960).addChunkAt msg.data).leaving s
      return ((receivingEpoch, none),
        { s with agent := .headerSent dk (Encoder.new ekVector) ct1Dec })
    else return ((receivingEpoch, none), s)
  | .headerSent dk ekEnc ct1Dec =>
    if msg.epoch = s.epoch ∧ msg.typ = .ct1 then
      let ct1Dec ← (ct1Dec.addChunkAt msg.data).leaving s
      match ct1Dec.decoded with
      | some ct1 => return ((receivingEpoch, none), { s with agent := .ct1Received dk ct1 ekEnc })
      | none => return ((receivingEpoch, none), { s with agent := .headerSent dk ekEnc ct1Dec })
    else return ((receivingEpoch, none), s)
  | .ct1Received dk ct1 _ =>
    if msg.epoch = s.epoch ∧ msg.typ = .ct2 then
      -- `mem::replace` has taken the agent out when the chunk is added
      let ct2Dec ← ((Decoder.new (128 + 32)).addChunkAt msg.data).leaving
        { s with agent := .keysUnsampled }
      return ((receivingEpoch, none), { s with agent := .ekSentCt1Received dk ct1 ct2Dec })
    else return ((receivingEpoch, none), s)
  | .ekSentCt1Received dk ct1 ct2Dec =>
    if msg.epoch = s.epoch ∧ msg.typ = .ct2 then
      let ct2Dec ← (ct2Dec.addChunkAt msg.data).leaving s
      let s := { s with agent := .ekSentCt1Received dk ct1 ct2Dec }
      match ct2Dec.decoded with
      | some blob =>
        let (out, s) ← decapsulateAt P s dk ct1 blob
        return ((receivingEpoch, some out), s)
      | none => return ((receivingEpoch, none), s)
    else return ((receivingEpoch, none), s)
  | .noHeaderReceived headerDec =>
    if msg.epoch = s.epoch ∧ msg.typ = .hdr then
      let headerDec ← (headerDec.addChunkAt msg.data).leaving s
      let s := { s with agent := .noHeaderReceived headerDec }
      match headerDec.decoded with
      | some blob =>
        let s ← acceptHeaderAt P s blob
        return ((receivingEpoch, none), s)
      | none => return ((receivingEpoch, none), s)
    else return ((receivingEpoch, none), s)
  | .headerReceived .. => return ((receivingEpoch, none), s)
  | .ct1Sampled secret ct1 ct1Enc ekDec ss emittedSs =>
    let s ← recvEkOrAckAt P s msg secret ct1 ct1Enc ekDec ss emittedSs
    return ((receivingEpoch, none), s)
  | .ekReceivedCt1Sampled secret ct1 ekVector _ ss emittedSs =>
    if msg.epoch = s.epoch ∧ (msg.typ = .ekCt1Ack ∨ msg.typ = .ct1Ack) then
      let s ← sampleCt2At P s secret ct1 ekVector ss emittedSs
      return ((receivingEpoch, none), s)
    else if msg.epoch.toNat = next then
      let (out, s) := completeEncapsulator s ss msg.epoch
      return ((receivingEpoch, some out), s)
    else return ((receivingEpoch, none), s)
  | .ct1Acknowledged secret ct1 ekDec ss emittedSs =>
    if msg.epoch = s.epoch ∧ (msg.typ = .ek ∨ msg.typ = .ekCt1Ack) then
      let ekDec ← (ekDec.addChunkAt msg.data).leaving s
      let s := { s with agent := .ct1Acknowledged secret ct1 ekDec ss emittedSs }
      match ekDec.decoded with
      | some t =>
        let s ← sampleCt2At P s secret ct1 t ss emittedSs
        return ((receivingEpoch, none), s)
      | none => return ((receivingEpoch, none), s)
    else return ((receivingEpoch, none), s)
  | .ct2Sampled _ ss _ =>
    if msg.epoch.toNat = next then
      let (out, s) := completeEncapsulator s ss msg.epoch
      return ((receivingEpoch, some out), s)
    else return ((receivingEpoch, none), s)

/-! ### The methods and the functions -/

section Follows

variable {P} {s : BraidScka B} {msg : BraidMessage B} (seed : Block B 64) (m : Block B 32)

theorem encaps1IfNeeded_of_encoder {e : Encoder B} (h : s.agent.encoder = some e) :
    encaps1IfNeeded P m s = s := by
  unfold encaps1IfNeeded
  split
  · rename_i hagent
    rw [hagent] at h
    cases h
  · rfl

/-- **A send from an encoder** takes its next chunk and changes nothing else. -/
theorem sendAt_of_encoder {e : Encoder B} (h : s.agent.encoder = some e) :
    ∃ typ, sendAt P seed m s = e.nextChunkAt.lift >>= fun r ↦
      .ok ((s.msg typ r.1, s.epoch.toNat - 1, none), { s with agent := s.agent.setEncoder r.2 }) := by
  unfold sendAt
  rw [encaps1IfNeeded_of_encoder m h]
  obtain ⟨epoch, auth, agent⟩ := s
  cases agent with
  | keysUnsampled => cases h
  | keysSampled dk ekVector headerEnc =>
    cases h
    exact ⟨.hdr, rfl⟩
  | headerSent dk ekEnc ct1Dec =>
    cases h
    exact ⟨.ek, rfl⟩
  | ct1Received dk ct1 ekEnc =>
    cases h
    exact ⟨.ekCt1Ack, rfl⟩
  | ekSentCt1Received dk ct1 ct2Dec => cases h
  | noHeaderReceived headerDec => cases h
  | headerReceived ekSeed hek ekDec => cases h
  | ct1Sampled secret ct1 ct1Enc ekDec ss emittedSs =>
    cases h
    exact ⟨.ct1, rfl⟩
  | ekReceivedCt1Sampled secret ct1 ekVector ct1Enc ss emittedSs =>
    cases h
    exact ⟨.ct1, rfl⟩
  | ct1Acknowledged secret ct1 ekDec ss emittedSs => cases h
  | ct2Sampled ct2Enc ss emittedSs =>
    cases h
    exact ⟨.ct2, rfl⟩

/-- **Sending from a full encoder**, or from none, does what `send` does. Only an encoder that
announces more chunks than it has data for can panic. -/
theorem sendAt_eq_ok (h : ∀ e, (encaps1IfNeeded P m s).agent.encoder = some e → e.Full) :
    sendAt P seed m s = .ok (send P seed m s) := by
  unfold sendAt send
  generalize encaps1IfNeeded P m s = t at h ⊢
  obtain ⟨epoch, auth, agent⟩ := t
  cases agent with
  | keysUnsampled =>
    dsimp only
    rw [Encoder.nextChunkAt_of_full (Encoder.new_whole _).full]
    rfl
  | keysSampled dk ekVector headerEnc =>
    dsimp only
    rw [Encoder.nextChunkAt_of_full (h _ rfl)]
    rfl
  | headerSent dk ekEnc ct1Dec =>
    dsimp only
    rw [Encoder.nextChunkAt_of_full (h _ rfl)]
    rfl
  | ct1Received dk ct1 ekEnc =>
    dsimp only
    rw [Encoder.nextChunkAt_of_full (h _ rfl)]
    rfl
  | ekSentCt1Received dk ct1 ct2Dec => rfl
  | noHeaderReceived headerDec => rfl
  | headerReceived ekSeed hek ekDec => rfl
  | ct1Sampled secret ct1 ct1Enc ekDec ss emittedSs =>
    dsimp only
    rw [Encoder.nextChunkAt_of_full (h _ rfl)]
    rfl
  | ekReceivedCt1Sampled secret ct1 ekVector ct1Enc ss emittedSs =>
    dsimp only
    rw [Encoder.nextChunkAt_of_full (h _ rfl)]
    rfl
  | ct1Acknowledged secret ct1 ekDec ss emittedSs => rfl
  | ct2Sampled ct2Enc ss emittedSs =>
    dsimp only
    rw [Encoder.nextChunkAt_of_full (h _ rfl)]
    rfl

/-- Decapsulation in place ends as the pure one does, whatever the agent was replaced by meanwhile.
-/
theorem decapsulateAt_follows (dk : Block B 64) (ct1 blob : List B) (a : Agent B) :
    Follows (decapsulateAt P { s with agent := a } dk ct1 blob) (decapsulate P s dk ct1 blob) := by
  unfold decapsulateAt decapsulate
  dsimp only
  by_cases hlen : 128 + 32 ≤ blob.length
  · have hct2 : (blob.take 128).length = 128 := by
      rw [List.length_take]
      omega
    rw [ensure_of_pos hlen, if_neg (by omega), ok_bind, slice_zero (by omega), ok_bind,
      slice_of_le (by omega) hlen, ok_bind]
    by_cases hct1 : ct1.length = 960
    · rw [array_bind_of_length hct1, array_bind_of_length hct2]
      refine .bind (.leaving _ _) fun cto ↦ .bind (.leaving _ _) fun _ ↦ ?_
      split
      · rename_i hlt
        rw [ensure_of_pos hlt]
        rfl
      · rename_i hlt
        rw [ensure_of_neg hlt]
        rfl
    · rw [array, dif_neg hct1]
      trivial
  · rw [ensure_of_neg hlen, if_pos (by omega)]
    rfl

/-- A header that is long enough is cut without a panic. -/
theorem acceptHeaderAt_of_le {blob : List B} (hlen : 64 + 32 ≤ blob.length) :
    ∃ (hseed : (blob.take 32).length = 32) (hhek : ((blob.drop 32).take 32).length = 32),
      acceptHeaderAt P s blob =
        (ofExcept (s.auth.vfyHdr P s.epoch (blob.take 64) ((blob.drop 64).take 32))).leaving s >>=
          fun _ ↦ .ok { s with
            agent := .headerReceived ⟨_, hseed⟩ ⟨_, hhek⟩ (Decoder.new 1152) } := by
  have hheader : (blob.take 64).length = 64 := by
    rw [List.length_take]
    omega
  have hfirst : (blob.take 64).take 32 = blob.take 32 := by
    rw [List.take_take]
    rfl
  have hsecond : ((blob.take 64).drop 32).take (64 - 32) = (blob.drop 32).take 32 := by
    rw [List.drop_take, List.take_take]
    rfl
  have hseed : (blob.take 32).length = 32 := by
    rw [List.length_take]
    omega
  have hhek : ((blob.drop 32).take 32).length = 32 := length_slice (by omega)
  refine ⟨hseed, hhek, ?_⟩
  rw [acceptHeaderAt, ensure_of_pos hlen, ok_bind, slice_zero (by omega), ok_bind,
    slice_of_le (by omega) hlen, ok_bind, slice_zero (by omega), ok_bind, hfirst,
    array_bind_of_length hseed, slice_of_le (by omega) (by omega), ok_bind, hsecond,
    array_bind_of_length hhek]
  rfl

/-- The acceptance of a header in place ends as the pure one does. -/
theorem acceptHeaderAt_follows (blob : List B) (a : Agent B) :
    Follows (acceptHeaderAt P { s with agent := a } blob) (acceptHeader P s blob) := by
  by_cases hlen : 64 + 32 ≤ blob.length
  · obtain ⟨hseed, hhek, heq⟩ := acceptHeaderAt_of_le (P := P) (s := { s with agent := a }) hlen
    rw [heq]
    unfold acceptHeader
    dsimp only
    rw [if_neg (by omega)]
    refine .bind (.leaving _ _) fun _ ↦ ?_
    -- the function reads the same two halves off the front of the blob
    rw [Cursor.takeBlock, dif_neg (by omega)]
    show Follows (.ok _) (Cursor.takeBlock _ 32 (blob.drop 32) >>= _)
    rw [Cursor.takeBlock, dif_neg (by rw [List.length_drop]; omega)]
    rfl
  · rw [acceptHeaderAt, acceptHeader, ensure_of_neg hlen, if_pos (by omega)]
    rfl

/-- The reception of a key chunk in place ends as the pure one does. -/
theorem recvEkOrAckAt_follows (secret : EncapsSecret B) (ct1 : Block B 960) (ct1Enc : Encoder B)
    (ekDec : Decoder B) (ss : Block B 32) (emittedSs : Bool) :
    Follows (recvEkOrAckAt P s msg secret ct1 ct1Enc ekDec ss emittedSs)
      (recvEkOrAck P s msg secret ct1 ct1Enc ekDec ss emittedSs) := by
  unfold recvEkOrAckAt recvEkOrAck
  split
  · rfl
  cases msg.typ with
  | ek =>
    dsimp only
    rw [Decoder.addChunkAt_eq]
    refine .bind (.leaving _ _) fun d ↦ ?_
    cases d.decoded <;> rfl
  | ekCt1Ack =>
    dsimp only
    rw [Decoder.addChunkAt_eq]
    refine .bind (.leaving _ _) fun d ↦ ?_
    cases d.decoded with
    | none => rfl
    | some t => exact .leaving _ _
  | _ => rfl

/-- **Receiving does what `receive` does**, unless it panics. The agent is taken out of the state
and put back at the end, so what is left after an error is compared, too. -/
theorem receiveAt_follows : Follows (receiveAt P msg s) (receive P msg s) := by
  unfold receiveAt receive
  by_cases htop : s.epoch.toNat + 1 < 2 ^ 64
  swap
  · rw [add_of_le (by omega)]
    trivial
  rw [add_of_lt htop, ok_bind]
  by_cases hahead : msg.epoch.toNat ≤ s.epoch.toNat + 1
  swap
  · rw [ensure_of_neg hahead, if_pos (by omega)]
    rfl
  rw [ensure_of_pos hahead, ok_bind, if_neg (by omega)]
  obtain ⟨epoch, auth, agent⟩ := s
  cases agent with
  | keysUnsampled => rfl
  | keysSampled dk ekVector headerEnc =>
    dsimp only
    split
    · rw [Decoder.addChunkAt_eq]
      exact .bind (.leaving _ _) fun d ↦ rfl
    · rfl
  | headerSent dk ekEnc ct1Dec =>
    dsimp only
    split
    · rw [Decoder.addChunkAt_eq]
      refine .bind (.leaving _ _) fun d ↦ ?_
      cases d.decoded <;> rfl
    · rfl
  | ct1Received dk ct1 ekEnc =>
    dsimp only
    split
    · rw [Decoder.addChunkAt_eq]
      exact .bind (.leaving _ _) fun d ↦ rfl
    · rfl
  | ekSentCt1Received dk ct1 ct2Dec =>
    dsimp only
    split
    · rw [Decoder.addChunkAt_eq]
      refine .bind (.leaving _ _) fun d ↦ ?_
      cases d.decoded with
      | none => rfl
      | some blob =>
        exact .bind (decapsulateAt_follows (s := ⟨epoch, auth, _⟩) dk ct1 blob _) fun r ↦ rfl
    · rfl
  | noHeaderReceived headerDec =>
    dsimp only
    split
    · rw [Decoder.addChunkAt_eq]
      refine .bind (.leaving _ _) fun d ↦ ?_
      cases d.decoded with
      | none => rfl
      | some blob => exact .bind (acceptHeaderAt_follows (s := ⟨epoch, auth, _⟩) blob _) fun t ↦ rfl
    · rfl
  | headerReceived ekSeed hek ekDec => rfl
  | ct1Sampled secret ct1 ct1Enc ekDec ss emittedSs =>
    exact .bind (recvEkOrAckAt_follows secret ct1 ct1Enc ekDec ss emittedSs) fun t ↦ rfl
  | ekReceivedCt1Sampled secret ct1 ekVector ct1Enc ss emittedSs =>
    dsimp only
    split
    · exact .bind (.leaving _ _) fun t ↦ rfl
    · split <;> rfl
  | ct1Acknowledged secret ct1 ekDec ss emittedSs =>
    dsimp only
    split
    · rw [Decoder.addChunkAt_eq]
      refine .bind (.leaving _ _) fun d ↦ ?_
      cases d.decoded with
      | none => rfl
      | some t => exact .bind (.leaving _ _) fun t ↦ rfl
    · rfl
  | ct2Sampled ct2Enc ss emittedSs =>
    dsimp only
    split <;> rfl

end Follows

end BraidScka

end VoiceChatCrypto
