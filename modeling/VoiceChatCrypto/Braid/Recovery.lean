import VoiceChatCrypto.Braid.Chunks

/-!
# Recovery from any `k` chunks

The code and its decoder as a whole, for messages of any length: a decoder that is fed chunks of one
message, with any indices in any order and any of them again, has the message **from the moment** it has
seen `k` distinct indices, and not before (`recovers`).

`Chunks.lean` has the algebra, for messages of whole chunks. An encoder fills its message up with zeros,
so that its chunks are those of the padded message; a decoder cuts what it decodes to the length it was
made for. Index 65535 has the evaluation point 0, which no other index has.
-/

open Alphabet

namespace VoiceChatCrypto

variable {B : Type} [Alphabet B] {msg : List B}

/-! ### Padding -/

/-- The message filled up to whole chunks. -/
def padded (msg : List B) : List B :=
  msg ++ List.replicate (chunkCount msg.length * chunkData - msg.length) (ofNat 0)

/-- Filled up, a message is a whole number of chunks. -/
theorem length_padded (msg : List B) : (padded msg).length = 32 * chunkCount msg.length := by
  have hge : msg.length ≤ 32 * chunkCount msg.length := by
    unfold chunkCount
    omega
  rw [padded, List.length_append, List.length_replicate, chunkData]
  omega

/-- The longest message has `65536` chunks, one for each index. -/
theorem padded_chunked (h : msg.length ≤ 65536 * 32) :
    Chunked (chunkCount msg.length) (padded msg) := by
  refine ⟨length_padded msg, ?_, ?_⟩
  · exact lt_of_lt_of_le one_pos (le_max_right _ _)
  · unfold chunkCount
    omega

/-- The message is the beginning of what it was filled up to. -/
theorem take_padded (msg : List B) : (padded msg).take msg.length = msg := List.take_left

/-- Padding changes no chunk. -/
theorem row_padded (h : msg.length ≤ 65536 * 32) (idx : UInt16) : row (padded msg) idx = row msg idx := by
  rw [row, row, (padded_chunked h).encoder]
  rfl

/-! ### The chunks of an encoder -/

namespace Encoder

/-- The chunk that an encoder yields after `n` others. -/
def nthChunk (msg : List B) (n : ℕ) : List B :=
  ((fun e : Encoder B ↦ e.nextChunk.2)^[n] (new msg)).nextChunk.1

/-- After `n` chunks only the position has changed, and it wraps with the word. -/
theorem iterate_nextChunk (msg : List B) (n : ℕ) :
    (fun e : Encoder B ↦ e.nextChunk.2)^[n] (new msg) = { new msg with next := UInt16.ofNat n } := by
  induction n with
  | zero => rfl
  | succ n ih =>
    have hnext : UInt16.ofNat n + 1 = UInt16.ofNat (n + 1) := by
      apply UInt16.toNat_inj.1
      rw [UInt16.toNat_add, UInt16.toNat_ofNat', UInt16.toNat_ofNat', UInt16.toNat_one]
      omega
    rw [Function.iterate_succ_apply', ih]
    show ({ new msg with next := UInt16.ofNat n + 1 } : Encoder B) = _
    rw [hnext]

/-- It is the one with index `n`. -/
theorem nthChunk_eq (msg : List B) (idx : UInt16) : nthChunk msg idx.toNat = chunk msg idx := by
  rw [nthChunk, iterate_nextChunk, UInt16.ofNat_toNat]
  rfl

end Encoder

/-! ### The decoder -/

namespace Decoder

/-- `message`. -/
def message (d : Decoder B) : Option (List B) := d.decoded

/-- **What a decoder holds** that has been given the chunks with some indices: exactly these, and
the message as soon as there are enough of them. -/
structure Gathers (d : Decoder B) (msg : List B) (idxs : List UInt16) : Prop where
  /-- The decoder knows how long the message is. -/
  messageLen : d.messageLen = msg.length
  /-- It knows how many chunks are enough. -/
  kChunks : d.kChunks = chunkCount msg.length
  /-- Everything it holds is a row of the message, under the row's index. -/
  got : ∀ e ∈ d.got.entries, e.2.val = row msg e.1
  /-- It holds the given indices and no others. -/
  keys : ∀ i, i ∈ d.got.keys ↔ i ∈ idxs
  /-- It has decoded the message as soon as there are enough of them, and nothing before. -/
  decoded : d.decoded = if chunkCount msg.length ≤ idxs.toFinset.card then some msg else none

variable {d : Decoder B} {idxs : List UInt16}

omit [Alphabet B] in
theorem size_eq_card (h : ∀ i, i ∈ d.got.keys ↔ i ∈ idxs) : d.got.size = idxs.toFinset.card := by
  rw [← BTree.length_keys, ← List.toFinset_card_of_nodup d.got.nodup_keys]
  congr 1
  ext i
  rw [List.mem_toFinset, List.mem_toFinset, h]

/-- A decoder of the padded message with the same chunks. -/
def widen (d : Decoder B) : Decoder B := { d with messageLen := 32 * d.kChunks, decoded := none }

/-- What a decoder of a message holds would do for the filled up message too. -/
theorem widen_collects (hmsg : msg.length ≤ 65536 * 32) (hk : d.kChunks = chunkCount msg.length)
    (hgot : ∀ e ∈ d.got.entries, e.2.val = row msg e.1) : d.widen.Collects (padded msg) where
  messageLen := by
    rw [length_padded, ← hk]
    rfl
  kChunks := by
    rw [(padded_chunked hmsg).chunkCount]
    exact hk
  got e he := by
    rw [row_padded hmsg]
    exact hgot e he
  decoded := nofun

/-- Cutting to the length of the message comes last. -/
theorem take_messageLen {l : List B} (hlen : d.messageLen = msg.length)
    (hk : d.kChunks = chunkCount msg.length) (h : l.take d.widen.messageLen = padded msg) :
    l.take d.messageLen = msg := by
  have hle : d.messageLen ≤ d.widen.messageLen := by
    show d.messageLen ≤ 32 * d.kChunks
    rw [hlen, hk, ← length_padded, padded, List.length_append]
    omega
  have hcut : l.take d.messageLen = (l.take d.widen.messageLen).take d.messageLen := by
    rw [List.take_take, Nat.min_eq_left hle]
  rw [hcut, h, hlen, take_padded]

/-- **Enough chunks give the message**, whichever way it is decoded. -/
theorem tryDecode_decoded (hB : Bytes B) (hmsg : msg.length ≤ 65536 * 32)
    (hlen : d.messageLen = msg.length) (hk : d.kChunks = chunkCount msg.length)
    (hgot : ∀ e ∈ d.got.entries, e.2.val = row msg e.1) (hsize : d.kChunks ≤ d.got.size) :
    d.tryDecode.decoded = some msg := by
  have hwide := widen_collects hmsg hk hgot
  unfold Decoder.tryDecode
  split
  · rename_i m hm
    obtain ⟨ps, hps, rfl⟩ := Option.map_eq_some_iff.1 hm
    have hsystematic : d.widen.systematic =
        some ((ps.flatMap fun p ↦ p.val).take d.widen.messageLen) := by
      rw [systematic, Option.map_eq_some_iff]
      exact ⟨ps, hps, rfl⟩
    have hpadded := hwide.systematic (padded_chunked hmsg) hsystematic
    exact congrArg some (take_messageLen hlen hk hpadded)
  · rw [if_neg (by omega)]
    have hpadded := hwide.interpolated hB (padded_chunked hmsg) hsize
    exact congrArg some (take_messageLen hlen hk hpadded)

theorem tryDecode_got (d : Decoder B) : d.tryDecode.got = d.got := by
  unfold Decoder.tryDecode
  split
  · rfl
  · split <;> rfl

/-- Decoding leaves the announced lengths alone. -/
theorem tryDecode_messageLen (d : Decoder B) :
    d.tryDecode.messageLen = d.messageLen ∧ d.tryDecode.kChunks = d.kChunks := by
  unfold Decoder.tryDecode
  split
  · exact ⟨rfl, rfl⟩
  · split <;> exact ⟨rfl, rfl⟩

theorem new_gathers (msg : List B) : (new msg.length : Decoder B).Gathers msg [] where
  messageLen := rfl
  kChunks := rfl
  got := nofun
  keys _ := Iff.rfl
  decoded := by
    have hpos : ¬ chunkCount msg.length ≤ 0 := by
      unfold chunkCount
      omega
    exact (if_neg hpos).symm

/-- **One more chunk** is accepted, and completes the message when it is the `k`-th new index. -/
theorem Gathers.addChunk (hB : Bytes B) (hmsg : msg.length ≤ 65536 * 32) (h : d.Gathers msg idxs)
    (idx : UInt16) : ∃ d', d.addChunk (chunk msg idx) = .ok d' ∧ d'.Gathers msg (idxs ++ [idx]) := by
  let d₁ : Decoder B := { d with got := d.got.insert idx ⟨row msg idx, length_row msg idx⟩ }
  have hadd : d.addChunk (chunk msg idx) =
      .ok (if d₁.got.size ≥ d₁.kChunks ∧ d₁.decoded.isNone then d₁.tryDecode else d₁) :=
    addChunk_be d idx ⟨row msg idx, length_row msg idx⟩
  have hgot : ∀ e ∈ d₁.got.entries, e.2.val = row msg e.1 := by
    intro e he
    rcases BTree.mem_place he with rfl | he
    · rfl
    · exact h.got e he
  have hkeys : ∀ i, i ∈ d₁.got.keys ↔ i ∈ idxs ++ [idx] := by
    intro i
    refine (BTree.mem_keys_insert d.got idx i _).trans ?_
    rw [h.keys, List.mem_append, List.mem_singleton, or_comm]
  have hsize := size_eq_card hkeys
  have hmono : idxs.toFinset.card ≤ (idxs ++ [idx]).toFinset.card := by
    refine Finset.card_le_card fun i hi ↦ ?_
    rw [List.mem_toFinset] at hi ⊢
    exact List.mem_append_left _ hi
  have hk : d₁.kChunks = chunkCount msg.length := h.kChunks
  refine ⟨_, hadd, ?_⟩
  by_cases hfull : chunkCount msg.length ≤ (idxs ++ [idx]).toFinset.card
  · rcases Option.eq_none_or_eq_some d.decoded with hdecoded | ⟨m, hdecoded⟩
    · -- this chunk completes the message
      have hcond : d₁.got.size ≥ d₁.kChunks ∧ d₁.decoded.isNone := by
        refine ⟨by rw [hsize, hk]; exact hfull, ?_⟩
        show d.decoded.isNone
        rw [hdecoded]
        rfl
      rw [if_pos hcond]
      refine ⟨(tryDecode_messageLen d₁).1.trans h.messageLen,
        (tryDecode_messageLen d₁).2.trans h.kChunks, ?_, ?_, ?_⟩
      · rw [tryDecode_got]
        exact hgot
      · rw [tryDecode_got]
        exact hkeys
      · rw [if_pos hfull]
        exact tryDecode_decoded hB hmsg h.messageLen hk hgot hcond.1
    · -- the message is there already
      have hm : m = msg := by
        have hdec := h.decoded
        rw [hdecoded] at hdec
        split at hdec
        · exact Option.some.inj hdec
        · cases hdec
      have hcond : ¬ (d₁.got.size ≥ d₁.kChunks ∧ d₁.decoded.isNone) := by
        rintro ⟨-, hnone⟩
        have hd₁ : d₁.decoded = some m := hdecoded
        rw [hd₁] at hnone
        cases hnone
      rw [if_neg hcond]
      refine ⟨h.messageLen, h.kChunks, hgot, hkeys, ?_⟩
      rw [if_pos hfull, ← hm]
      exact hdecoded
  · have hcond : ¬ (d₁.got.size ≥ d₁.kChunks ∧ d₁.decoded.isNone) := by
      rintro ⟨hge, -⟩
      rw [hsize, hk] at hge
      exact hfull hge
    rw [if_neg hcond]
    refine ⟨h.messageLen, h.kChunks, hgot, hkeys, ?_⟩
    rw [if_neg hfull]
    show d.decoded = none
    rw [h.decoded, if_neg (by omega)]

/-- Any number of chunks. -/
theorem Gathers.foldlM (hB : Bytes B) (hmsg : msg.length ≤ 65536 * 32) (more : List UInt16)
    (h : d.Gathers msg idxs) :
    ∃ d', (more.map (chunk msg)).foldlM Decoder.addChunk d = .ok d' ∧ d'.Gathers msg (idxs ++ more) := by
  induction more generalizing d idxs with
  | nil => exact ⟨d, rfl, by rw [List.append_nil]; exact h⟩
  | cons idx more ih =>
    obtain ⟨d₁, hadd, h₁⟩ := h.addChunk hB hmsg idx
    obtain ⟨d₂, hmore, h₂⟩ := ih h₁
    refine ⟨d₂, ?_, ?_⟩
    · rw [List.map_cons, List.foldlM_cons, hadd]
      exact hmore
    · rw [List.append_assoc, List.singleton_append] at h₂
      exact h₂

end Decoder

/-- **Any `k` codewords recover the message.** For every message of at most `65536 * 32` bytes and every
sequence of indices, in any order and with repetitions: the decoder accepts the chunks with these
indices, and has a message afterwards exactly if `k = max(1, ⌈len / 32⌉)` of the indices are distinct.
It is then the message that was encoded. -/
theorem recovers (msg : List UInt8) (hmsg : msg.length ≤ 65536 * 32) (idxs : List UInt16) :
    ∃ d, (idxs.map fun idx ↦ Encoder.nthChunk msg idx.toNat).foldlM Decoder.addChunk
        (Decoder.new msg.length) = .ok d ∧
      d.message = if max ((msg.length + 31) / 32) 1 ≤ idxs.toFinset.card then some msg else none := by
  obtain ⟨d, hd, hgathers⟩ := (Decoder.new_gathers msg).foldlM bytes_uint8 hmsg idxs
  refine ⟨d, ?_, hgathers.decoded⟩
  simp only [Encoder.nthChunk_eq]
  exact hd

/-- A message of 33 bytes from its second chunk and the chunk with the last index. -/
theorem recovers_two :
    ∃ d, ([65535, 1, 65535].map fun idx : UInt16 ↦
        Encoder.nthChunk (List.replicate 33 (7 : UInt8)) idx.toNat).foldlM Decoder.addChunk
          (Decoder.new 33) = .ok d ∧
      d.message = some (List.replicate 33 7) :=
  recovers (List.replicate 33 7) (by decide) [65535, 1, 65535]

end VoiceChatCrypto
