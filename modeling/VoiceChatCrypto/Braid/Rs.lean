import VoiceChatCrypto.Data.BTree
import VoiceChatCrypto.Data.Cursor
import VoiceChatCrypto.Primitives.Basic

/-!
# Reed–Solomon chunks

The systematic Reed–Solomon code over GF(2¹⁶) that carries the Braid payloads, as
`src/ratchet/braid/rs.rs` computes it. A message is cut into `k` chunks of 32 bytes; chunk `i < k` is
the `i`-th piece itself, and chunk `i ≥ k` is the value at `i + 1` of the polynomials through the
first `k`.

A 16-bit symbol is kept as the **pair of its big-endian letters**. Over bytes that is the same thing,
and over a larger alphabet it means that systematic chunks carry letters through unchanged; only the
field arithmetic goes through their numerical value.
-/

open Alphabet

namespace VoiceChatCrypto

/-- `CHUNK_DATA`. -/
def chunkData : ℕ := 32

/-- `CHUNK_WIRE`: an index of two bytes and the data. -/
def chunkWire : ℕ := 34

/-- `SYMS`. -/
def syms : ℕ := 16

/-! ### The field -/

/-- The loop of `gf_mul`; sixteen rounds empty `b`. -/
def gfMulLoop : ℕ → UInt32 → UInt32 → UInt16 → UInt32
  | 0, r, _, _ => r
  | fuel + 1, r, aa, b =>
    if b = 0 then r
    else
      let r := if b &&& 1 ≠ 0 then r ^^^ aa else r
      let hi := aa &&& 0x8000
      let aa := aa <<< 1
      let aa := if hi ≠ 0 then aa ^^^ 0x1100B else aa
      gfMulLoop fuel r aa (b >>> 1)

/-- `gf_mul`. -/
def gfMul (a b : UInt16) : UInt16 := (gfMulLoop 16 0 a.toUInt32 b &&& 0xFFFF).toUInt16

/-- The loop of `gf_inv`; sixteen rounds empty the exponent. -/
def gfInvLoop : ℕ → UInt32 → UInt16 → UInt16 → UInt16
  | 0, _, _, acc => acc
  | fuel + 1, exp, base, acc =>
    if exp = 0 then acc
    else
      let acc := if exp &&& 1 = 1 then gfMul acc base else acc
      gfInvLoop fuel (exp >>> 1) (gfMul base base) acc

/-- `gf_inv`. -/
def gfInv (a : UInt16) : UInt16 := gfInvLoop 16 0xFFFE a 1

/-- `eval_point`. -/
def evalPoint (idx : UInt16) : UInt16 := idx + 1

/-- The `i`-th Lagrange factor at `x`; `none` where the source returns early. -/
def lagrangeFactor (k : ℕ) (xAt : ℕ → UInt16) (x : UInt16) (i : ℕ) : Option UInt16 :=
  (List.range k).foldlM (fun li j ↦
    if i = j then some li
    else if xAt i ^^^ xAt j = 0 then none
    else some (gfMul li (gfMul (x ^^^ xAt j) (gfInv (xAt i ^^^ xAt j))))) 1

/-- `lagrange_eval`. -/
def lagrangeEval (k : ℕ) (xAt yAt : ℕ → UInt16) (x : UInt16) : UInt16 :=
  ((List.range k).foldlM (fun acc i ↦
    (lagrangeFactor k xAt x i).map fun li ↦ acc ^^^ gfMul (yAt i) li) 0).getD 0

/-! ### Symbols -/

section Symbols

variable {B : Type} [Alphabet B]

/-- The value of a symbol. -/
def symbolValue (s : B × B) : UInt16 := UInt16.ofNat (256 * toNat s.1 + toNat s.2)

/-- The symbol of a value. -/
def symbolOf (v : UInt16) : B × B := (ofNat (v.toNat / 256), ofNat v.toNat)

/-- A string cut into symbols. -/
def toSymbols : List B → List (B × B)
  | [] => []
  | [a] => [(a, ofNat 0)]
  | a :: b :: bs => (a, b) :: toSymbols bs

/-- The letters of a sequence of symbols. -/
def ofSymbols (ss : List (B × B)) : List B := ss.flatMap fun s ↦ [s.1, s.2]

omit [Alphabet B] in
@[simp] theorem length_ofSymbols (ss : List (B × B)) : (ofSymbols ss).length = 2 * ss.length := by
  induction ss with
  | nil => rfl
  | cons s ss ih =>
    simp only [ofSymbols, List.flatMap_cons, List.length_append, List.length_cons, List.length_nil,
      Nat.mul_add] at ih ⊢
    omega

/-- An even number of letters is read back from its symbols. -/
theorem ofSymbols_toSymbols {bs : List B} (h : bs.length % 2 = 0) :
    ofSymbols (toSymbols bs) = bs := by
  induction bs using toSymbols.induct with
  | case1 => rfl
  | case2 a => simp at h
  | case3 a b bs ih =>
    rw [toSymbols, ofSymbols, List.flatMap_cons]
    have := ih (by simp only [List.length_cons] at h; omega)
    rw [ofSymbols] at this
    rw [this]
    rfl

theorem length_toSymbols {b : List B} (h : b.length % 2 = 0) :
    2 * (toSymbols b).length = b.length := by
  rw [← length_ofSymbols, ofSymbols_toSymbols h]

/-- The chunk count of a message: `len.div_ceil(CHUNK_DATA).max(1)`. -/
def chunkCount (len : ℕ) : ℕ := max ((len + 31) / 32) 1

end Symbols

/-! ### Encoder -/

/-- Yields indexed codewords: first the chunks of the message itself, then values of the polynomials
through them. -/
structure Encoder (B : Type) where
  /-- The message symbols, sixteen to a chunk. -/
  data : List (B × B)
  /-- How many chunks the message itself fills. -/
  kChunks : ℕ
  /-- The index of the next chunk, which wraps after 65535. -/
  next : UInt16
  deriving DecidableEq

namespace Encoder

variable {B : Type} [Alphabet B]

/-- `Encoder::new`: the message, filled up with zeros to whole chunks. -/
def new (message : List B) : Encoder B :=
  let kChunks := chunkCount message.length
  { data := toSymbols (message ++ List.replicate (kChunks * chunkData - message.length) (ofNat 0))
    kChunks, next := 0 }

/-- `symbol_row`. -/
def symbolRow (e : Encoder B) (idx : UInt16) : List B :=
  if idx.toNat < e.kChunks then ofSymbols ((e.data.drop (idx.toNat * syms)).take syms)
  else ofSymbols <| (List.range syms).map fun col ↦
    symbolOf <| lagrangeEval e.kChunks (fun i ↦ evalPoint (UInt16.ofNat i))
      (fun i ↦ symbolValue (e.data.getD (i * syms + col) (ofNat 0, ofNat 0))) (evalPoint idx)

/-- `next_chunk`. -/
def nextChunk (e : Encoder B) : List B × Encoder B :=
  (be 2 e.next.toNat ++ e.symbolRow e.next, { e with next := e.next + 1 })

/-- The message fills whole chunks: every chunk that the encoder announces has its sixteen symbols.
-/
def Whole (e : Encoder B) : Prop := e.data.length = syms * e.kChunks

/-- **A new encoder is filled up to whole chunks.** -/
theorem new_whole (message : List B) : (new message).Whole := by
  have hge : message.length ≤ chunkCount message.length * chunkData := by
    unfold chunkCount chunkData
    omega
  have hpad : (message ++ List.replicate (chunkCount message.length * chunkData - message.length)
      (ofNat 0)).length = chunkCount message.length * chunkData := by
    rw [List.length_append, List.length_replicate]
    omega
  have heven : (chunkCount message.length * chunkData) % 2 = 0 := by
    unfold chunkData
    omega
  have hlen := length_toSymbols (b := message ++ List.replicate
    (chunkCount message.length * chunkData - message.length) (ofNat 0)) (by rw [hpad]; exact heven)
  rw [hpad] at hlen
  show (toSymbols _).length = syms * chunkCount message.length
  unfold chunkData at hlen
  unfold syms chunkData
  omega

/-- Chunks have the length of the wire. -/
theorem length_nextChunk {e : Encoder B} (he : e.Whole) : e.nextChunk.1.length = chunkWire := by
  have hrow : (e.symbolRow e.next).length = 32 := by
    unfold symbolRow
    split
    · rename_i hlt
      have htake : ((e.data.drop (e.next.toNat * syms)).take syms).length = 16 := by
        have hdata : e.data.length = 16 * e.kChunks := he
        rw [List.length_take, List.length_drop, hdata]
        unfold syms
        omega
      rw [length_ofSymbols, htake]
    · rw [length_ofSymbols, List.length_map, List.length_range]
      rfl
  rw [nextChunk, List.length_append, length_be, hrow]
  rfl

end Encoder

/-! ### Decoder -/

/-- Collects the chunks of one message of known length, and decodes it as soon as there are enough.
-/
structure Decoder (B : Type) where
  /-- The length of the message, agreed beforehand. -/
  messageLen : ℕ
  /-- How many chunks are enough. -/
  kChunks : ℕ
  /-- The chunks received, by index. -/
  got : BTree UInt16 (Block B 32)
  /-- The message, once there were enough. -/
  decoded : Option (List B)

namespace Decoder

variable {B : Type} [Alphabet B]

/-- `Decoder::new`. -/
def new (messageSize : ℕ) : Decoder B :=
  { messageLen := messageSize, kChunks := chunkCount messageSize, got := BTree.empty
    decoded := none }

/-- The message of a decoder that holds all systematic chunks. -/
def systematic (d : Decoder B) : Option (List B) :=
  ((List.range d.kChunks).mapM fun i ↦ d.got.get? (UInt16.ofNat i)).map fun ps ↦
    (ps.flatMap fun p ↦ p.val).take d.messageLen

/-- The message interpolated from the first `k` chunks in index order. -/
def interpolated (d : Decoder B) : List B :=
  let pts := d.got.entries.take d.kChunks
  let column (col t : ℕ) : UInt16 :=
    (pts[t]?.map fun p ↦ symbolValue (p.2.val.getD (2 * col) (ofNat 0),
      p.2.val.getD (2 * col + 1) (ofNat 0))).getD 0
  let point (t : ℕ) : UInt16 := (pts[t]?.map fun p ↦ evalPoint p.1).getD 0
  let rows := (List.range d.kChunks).map fun i ↦ ofSymbols <| (List.range syms).map fun col ↦
    symbolOf <| lagrangeEval d.kChunks point (column col) (evalPoint (UInt16.ofNat i))
  (rows.flatMap id).take d.messageLen

/-- `try_decode`. -/
def tryDecode (d : Decoder B) : Decoder B :=
  match d.systematic with
  | some message => { d with decoded := some message }
  | none =>
    if d.got.size < d.kChunks then d else { d with decoded := some d.interpolated }

/-- `add_chunk`. -/
def addChunk (d : Decoder B) (chunk : List B) : Except PrimitiveError (Decoder B) :=
  if h : chunk.length = chunkWire then
    let idx := UInt16.ofNat (fromBe (chunk.take 2))
    let payload : Block B 32 := ⟨chunk.drop 2, by rw [List.length_drop, h]; rfl⟩
    let d := { d with got := d.got.insert idx payload }
    .ok (if d.got.size ≥ d.kChunks ∧ d.decoded.isNone then d.tryDecode else d)
  else .error .invalidLength

/-- **A chunk goes in under its own index.** -/
theorem addChunk_be (d : Decoder B) (idx : UInt16) (payload : Block B 32) :
    d.addChunk (be 2 idx.toNat ++ payload.val) =
      .ok (let d := { d with got := d.got.insert idx payload }
        if d.got.size ≥ d.kChunks ∧ d.decoded.isNone then d.tryDecode else d) := by
  have hlen : (be 2 idx.toNat ++ payload.val).length = chunkWire := by
    rw [List.length_append, length_be, payload.length_val]
    rfl
  have hindex : UInt16.ofNat (fromBe ((be 2 idx.toNat ++ payload.val).take 2)) = idx := by
    rw [List.take_left' (length_be 2 _), fromBe_be, Nat.mod_eq_of_lt, UInt16.ofNat_toNat]
    exact idx.toNat_lt
  have hpayload : (be 2 idx.toNat ++ payload.val).drop 2 = payload.val :=
    List.drop_left' (length_be 2 _)
  unfold addChunk
  rw [dif_pos hlen]
  simp only [hindex, hpayload]
  rfl

end Decoder

end VoiceChatCrypto
