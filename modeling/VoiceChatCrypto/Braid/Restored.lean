import VoiceChatCrypto.Braid.Agreement
import VoiceChatCrypto.Braid.InPlace
import VoiceChatCrypto.Ratchet.Triple

/-!
# Restored Braid states

What a process that has read a Braid state from its storage can do with it. `deserialize` checks that
every part ends where its length says, and not that the parts belong together: an encoder may claim
more chunks than it has symbols for, and a first half of a ciphertext may have any length.

`Intact` says which states are safe to go on with. Every state that the program builds itself is intact
(`intact_of_run`), and a restored state is intact exactly if no run from it panics, the sum
`self.epoch + 1` at the very last epoch apart. Both directions are about runs:

* an intact state stays intact under every call, whether it returns or fails (`after_intact`);
* from any other state some run of well-formed messages panics. A missing row is sent within 65536 calls
  (`crashes_of_not_full`); a ciphertext of the wrong length is copied into its array as soon as the
  second half is complete, which a peer can always bring about (`Decoder.exists_fills`).
-/

open Alphabet Checked

namespace VoiceChatCrypto

variable {B : Type} [Alphabet B]

/-! ### What a decoder arrives at -/

theorem length_of_mapM {α β : Type} {f : α → Option β} {l : List α} {bs : List β}
    (h : l.mapM f = some bs) : bs.length = l.length := by
  induction l generalizing bs with
  | nil =>
    cases h
    rfl
  | cons a l ih =>
    rw [List.mapM_cons] at h
    obtain ⟨b, -, h⟩ := Option.bind_eq_some_iff.1 h
    obtain ⟨bs', hbs, h⟩ := Option.bind_eq_some_iff.1 h
    cases h
    rw [List.length_cons, List.length_cons, ih hbs]

namespace Decoder

variable {d d' : Decoder B} {n : ℕ}

/-- The length of the message that a decoder has, or will have when enough chunks are there. There are
65536 indices, so a decoder that waits for more chunks than that waits forever. -/
def reach (d : Decoder B) : Option ℕ :=
  match d.decoded with
  | some m => some m.length
  | none => if d.kChunks ≤ 65536 then some (min d.messageLen (32 * d.kChunks)) else none

omit [Alphabet B] in
/-- What is decoded from the chunks alone is cut to the announced length. -/
theorem length_systematic {m : List B} (h : d.systematic = some m) :
    m.length = min d.messageLen (32 * d.kChunks) := by
  obtain ⟨ps, hps, rfl⟩ := Option.map_eq_some_iff.1 h
  have hlen := length_of_mapM hps
  rw [List.length_range] at hlen
  rw [List.length_take, Cursor.length_flatMap_eq fun p : Block B 32 ↦ p.length_val, hlen]

/-- What is interpolated is cut to the announced length as well. -/
theorem length_interpolated (d : Decoder B) :
    d.interpolated.length = min d.messageLen (32 * d.kChunks) := by
  unfold interpolated
  dsimp only
  rw [List.length_take, List.flatMap_map, Cursor.length_flatMap_eq (w := 32), List.length_range]
  intro i
  rw [id_eq, length_ofSymbols, List.length_map, List.length_range]
  rfl

/-- **A decoder that tries with enough chunks succeeds.** -/
theorem tryDecode_of_le (h : d.kChunks ≤ d.got.size) : ∃ m, d.tryDecode = { d with decoded := some m } ∧
    m.length = min d.messageLen (32 * d.kChunks) := by
  unfold tryDecode
  cases hsys : d.systematic with
  | some m => exact ⟨m, rfl, length_systematic hsys⟩
  | none =>
    dsimp only
    rw [if_neg (by omega)]
    exact ⟨_, rfl, d.length_interpolated⟩

/-- What `add_chunk` does: it collects the chunk, and decodes if that makes enough of them. -/
theorem addChunk_cases {chunk : List B} (h : d.addChunk chunk = .ok d') :
    ∃ idx payload, idx = UInt16.ofNat (fromBe (chunk.take 2)) ∧
      ((d' = { d with got := d.got.insert idx payload } ∧
          (d.decoded = none → (d.got.insert idx payload).size < d.kChunks)) ∨
        ∃ m, d.decoded = none ∧ d.kChunks ≤ (d.got.insert idx payload).size ∧
          d' = { d with got := d.got.insert idx payload, decoded := some m } ∧
          m.length = min d.messageLen (32 * d.kChunks)) := by
  unfold addChunk at h
  split at h
  · rename_i hlen
    refine ⟨_, ⟨chunk.drop 2, by rw [List.length_drop, hlen]; rfl⟩, rfl, ?_⟩
    cases h
    split
    · rename_i hfull
      obtain ⟨m, hm, hlen⟩ := tryDecode_of_le hfull.1
      exact .inr ⟨m, Option.isNone_iff_eq_none.1 hfull.2, hfull.1, hm, hlen⟩
    · rename_i hfull
      refine .inl ⟨rfl, fun hnone ↦ ?_⟩
      by_contra hge
      exact hfull ⟨not_lt.1 hge, Option.isNone_iff_eq_none.2 hnone⟩
  · cases h

/-- **Chunks do not change what a decoder arrives at.** What is stored of its lengths decides that,
whichever chunks are delivered. -/
theorem reach_addChunk {chunk : List B} (h : d.addChunk chunk = .ok d') : d'.reach = d.reach := by
  obtain ⟨idx, payload, -, ⟨rfl, -⟩ | ⟨m, hnone, hle, rfl, hlen⟩⟩ := addChunk_cases h
  · rfl
  · have hsize := size_got_le { d with got := d.got.insert idx payload }
    have hk : d.kChunks ≤ 65536 := hle.trans hsize
    rw [reach, reach, hnone]
    dsimp only
    rw [if_pos hk, hlen]

/-- Adding a chunk never faults, and does not change what can be decoded. -/
theorem addChunkAt_safe (d : Decoder B) (chunk : List B) :
    Safe (d.addChunkAt chunk) fun d' ↦ d'.reach = d.reach := by
  rw [addChunkAt_eq]
  cases h : d.addChunk chunk with
  | ok d' => exact reach_addChunk h
  | error e => trivial

omit [Alphabet B] in
/-- A decoder that has decoded a message will not decode another length. -/
theorem reach_of_decoded {m : List B} (h : d.decoded = some m) : d.reach = some m.length := by
  rw [reach, h]

theorem decoded_addChunk {chunk m : List B} (hm : d.decoded = some m) (h : d.addChunk chunk = .ok d') :
    d'.decoded = some m := by
  obtain ⟨idx, payload, -, ⟨rfl, -⟩ | ⟨m', hnone, -⟩⟩ := addChunk_cases h
  · exact hm
  · rw [hm] at hnone
    cases hnone

/-! ### A decoder can be completed -/

/-- Some chunks complete the message `m`, the last of them and none before it. -/
inductive Fills : Decoder B → List B → Prop
  | last {d d' : Decoder B} {chunk m : List B} :
      d.addChunk chunk = .ok d' → d'.decoded = some m → Fills d m
  | more {d d' : Decoder B} {chunk m : List B} :
      d.addChunk chunk = .ok d' → d'.decoded = none → Fills d' m → Fills d m

/-- A chunk of zeros. -/
def zeroChunk (idx : UInt16) : List B := be 2 idx.toNat ++ (Block.zero 32).val

theorem length_zeroChunk (idx : UInt16) : (zeroChunk idx : List B).length = chunkWire := by
  rw [zeroChunk, List.length_append, length_be, Block.length_val]
  rfl

theorem index_zeroChunk (idx : UInt16) :
    UInt16.ofNat (fromBe ((zeroChunk idx : List B).take 2)) = idx := by
  rw [zeroChunk, List.take_left' (length_be 2 idx.toNat), fromBe_be,
    Nat.mod_eq_of_lt (by have := idx.toNat_lt; omega), UInt16.ofNat_toNat]

theorem exists_addChunk (d : Decoder B) (idx : UInt16) :
    ∃ d', d.addChunk (zeroChunk idx) = .ok d' :=
  ⟨_, addChunk_be d idx (Block.zero 32)⟩

/-- Only chunks of the length of the wire are accepted. -/
theorem length_of_addChunk {chunk : List B} (h : d.addChunk chunk = .ok d') :
    chunk.length = chunkWire := by
  unfold addChunk at h
  split at h
  · assumption
  · cases h

omit [Alphabet B] in
/-- A decoder that does not hold all indices can be given another. -/
theorem exists_missing (h : d.got.size < 65536) : ∃ idx, idx ∉ d.got.keys := by
  have hcard : (d.got.keys.map UInt16.toNat).toFinset.card < (Finset.range 65536).card := by
    refine (List.toFinset_card_le _).trans_lt ?_
    rw [List.length_map, BTree.length_keys, Finset.card_range]
    exact h
  obtain ⟨n, hn, hmissing⟩ := Finset.exists_mem_notMem_of_card_lt_card hcard
  refine ⟨UInt16.ofNat n, fun hkey ↦ hmissing (List.mem_toFinset.2 ?_)⟩
  refine List.mem_map.2 ⟨_, hkey, ?_⟩
  rw [UInt16.toNat_ofNat', Nat.mod_eq_of_lt (Finset.mem_range.1 hn)]

/-- **A decoder that arrives anywhere can be brought there**, by one missing chunk after the other. -/
theorem exists_fills (h : d.reach = some n) : ∃ m, m.length = n ∧ d.Fills m := by
  -- induction on the number of missing chunks
  induction hmissing : 65536 - d.got.size using Nat.strong_induction_on generalizing d with
  | h missing ih =>
    subst hmissing
    cases hdec : d.decoded with
    | some m =>
      obtain ⟨d', hadd⟩ := exists_addChunk d 0
      rw [reach_of_decoded hdec] at h
      cases h
      exact ⟨m, rfl, .last hadd (decoded_addChunk hdec hadd)⟩
    | none =>
      have hk : d.kChunks ≤ 65536 := by
        by_contra hk
        rw [reach, hdec] at h
        dsimp only at h
        rw [if_neg hk] at h
        cases h
      obtain ⟨idx, hidx⟩ : ∃ idx, d.got.size < d.kChunks → idx ∉ d.got.keys := by
        by_cases hlt : d.got.size < d.kChunks
        · obtain ⟨idx, hidx⟩ := exists_missing (d := d) (by omega)
          exact ⟨idx, fun _ ↦ hidx⟩
        · exact ⟨0, fun h ↦ absurd h hlt⟩
      obtain ⟨d', hadd⟩ := exists_addChunk d idx
      have hreach := (reach_addChunk hadd).trans h
      obtain ⟨idx', payload, hidx', hcases⟩ := addChunk_cases hadd
      rw [index_zeroChunk] at hidx'
      subst hidx'
      rcases hcases with ⟨rfl, hlt⟩ | ⟨m, -, -, rfl, hlen⟩
      · have hlt := hlt hdec
        have hmono := d.got.size_le_size_insert idx' payload
        have hnew := BTree.size_insert_of_notMem (hidx (by omega)) payload
        obtain ⟨m, hlen, hfills⟩ := ih _ (by dsimp only; omega) hreach rfl
        exact ⟨m, hlen, .more hadd hdec hfills⟩
      · rw [reach_of_decoded rfl] at hreach
        cases hreach
        exact ⟨m, rfl, .last hadd rfl⟩

end Decoder

/-! ### Intact states -/

/-- The first half of the ciphertext has its length, or will have it, or is never used: it is copied
into an array of 960 bytes once a second half of full length is there. -/
def Agent.FitsCt1 : Agent B → Prop
  | headerSent _ _ ct1Dec => ∀ n, ct1Dec.reach = some n → n = 960
  | ct1Received _ ct1 _ => ct1.length = 960
  | ekSentCt1Received _ ct1 ct2Dec =>
    ct1.length = 960 ∨ ∀ n, ct2Dec.reach = some n → n < 128 + 32
  | keysUnsampled | keysSampled .. | noHeaderReceived .. | headerReceived .. | ct1Sampled ..
  | ekReceivedCt1Sampled .. | ct1Acknowledged .. | ct2Sampled .. => True

namespace BraidScka

/-- **Intact states**: the parts that are stored side by side belong together. At the last epoch nothing
is received any more, so the ciphertext does not matter. -/
structure Intact (s : BraidScka B) : Prop where
  /-- The agent's encoder has data for every chunk it announces. -/
  encoder : ∀ e, s.agent.encoder = some e → e.Full
  /-- The ciphertext's length is the one that decapsulation copies. -/
  ct1 : s.epoch.toNat + 1 < 2 ^ 64 → s.agent.FitsCt1

variable {P : Primitives B} {s : BraidScka B}

omit [Alphabet B] in
/-- An agent without a buffer of its own is as good as any. -/
theorem intact_of_none (henc : s.agent.encoder = none) (hct1 : s.agent.FitsCt1) : s.Intact where
  encoder e he := by
    rw [henc] at he
    cases he
  ct1 _ := hct1

omit [Alphabet B] in
/-- A state whose encoder is full is intact when its ciphertext fits. -/
theorem intact_of_full {e : Encoder B} (henc : s.agent.encoder = some e) (he : e.Full)
    (hct1 : s.epoch.toNat + 1 < 2 ^ 64 → s.agent.FitsCt1) : s.Intact where
  encoder e' he' := by
    rw [henc] at he'
    cases he'
    exact he
  ct1 := hct1

theorem encaps1IfNeeded_intact (hs : s.Intact) (m : Block B 32) :
    (encaps1IfNeeded P m s).Intact := by
  unfold encaps1IfNeeded
  split
  · exact intact_of_full rfl (Encoder.new_whole _).full fun _ ↦ trivial
  · exact hs

omit [Alphabet B] in
/-- Replacing the encoder by another full one keeps a state intact. -/
theorem setEncoder_intact {e e' : Encoder B} (hs : s.Intact) (he : s.agent.encoder = some e)
    (he' : e'.Full) : Intact { s with agent := s.agent.setEncoder e' } := by
  refine intact_of_full (Agent.encoder_setEncoder he e') he' fun htop ↦ ?_
  have hct1 := hs.ct1 htop
  obtain ⟨epoch, auth, agent⟩ := s
  cases agent <;> exact hct1

/-- **Sending from an intact state** returns, and leaves an intact state. -/
theorem sendAt_intact (hs : s.Intact) (seed : Block B 64) (m : Block B 32) :
    Ends (sendAt P seed m s) (fun r ↦ r.2.Intact) fun e ↦ e.2.Intact := by
  have ht := encaps1IfNeeded_intact (P := P) hs m
  rw [sendAt_eq_ok seed m ht.encoder]
  show (send P seed m s).2.Intact
  unfold send
  generalize encaps1IfNeeded P m s = t at ht ⊢
  obtain ⟨epoch, auth, agent⟩ := t
  cases agent with
  | keysUnsampled =>
    exact intact_of_full rfl (Encoder.new_whole _).full fun _ ↦ trivial
  | keysSampled dk ekVector headerEnc =>
    exact setEncoder_intact ht rfl (ht.encoder headerEnc rfl)
  | headerSent dk ekEnc ct1Dec => exact setEncoder_intact ht rfl (ht.encoder ekEnc rfl)
  | ct1Received dk ct1 ekEnc => exact setEncoder_intact ht rfl (ht.encoder ekEnc rfl)
  | ekSentCt1Received dk ct1 ct2Dec => exact ht
  | noHeaderReceived headerDec => exact ht
  | headerReceived ekSeed hek ekDec => exact ht
  | ct1Sampled secret ct1 ct1Enc ekDec ss emittedSs =>
    exact setEncoder_intact ht rfl (ht.encoder ct1Enc rfl)
  | ekReceivedCt1Sampled secret ct1 ekVector ct1Enc ss emittedSs =>
    exact setEncoder_intact ht rfl (ht.encoder ct1Enc rfl)
  | ct1Acknowledged secret ct1 ekDec ss emittedSs => exact ht
  | ct2Sampled ct2Enc ss emittedSs => exact setEncoder_intact ht rfl (ht.encoder ct2Enc rfl)

/-! ### Receiving -/

/-- Making the second ciphertext keeps a state intact, also when it fails. -/
theorem sampleCt2At_intact (hs : s.Intact) (secret : EncapsSecret B) (ct1 : Block B 960)
    (ekVector : List B) (ss : Block B 32) (emittedSs : Bool) :
    Ends (sampleCt2At P s secret ct1 ekVector ss emittedSs) (fun t ↦ t.Intact) fun e ↦ e.2.Intact := by
  refine .leaving ?_ fun _ ↦ hs
  unfold sampleCt2
  cases encaps2 P secret ekVector with
  | ok ct2 => exact intact_of_full rfl (Encoder.new_whole _).full fun _ ↦ trivial
  | error e => trivial

/-- **The copy into the array does not panic**: a blob that is long enough is one for which the first
half has its length. -/
theorem decapsulateAt_intact {dk : Block B 64} {ct1 blob : List B} {ct2Dec : Decoder B}
    (hs : s.Intact) (htop : s.epoch.toNat + 1 < 2 ^ 64)
    (hagent : s.agent = .ekSentCt1Received dk ct1 ct2Dec) (hblob : ct2Dec.decoded = some blob) :
    Ends (decapsulateAt P s dk ct1 blob) (fun r ↦ r.2.Intact) fun e ↦ e.2.Intact := by
  have hauth : ∀ auth, Intact { s with auth } := fun auth ↦ ⟨hs.encoder, hs.ct1⟩
  refine .bind (.ensure fun _ ↦ hs) fun _ hlen ↦ ?_
  have hct1 : ct1.length = 960 := by
    have hfits := hs.ct1 htop
    rw [hagent] at hfits
    refine hfits.resolve_right fun hshort ↦ ?_
    have := hshort _ (Decoder.reach_of_decoded hblob)
    omega
  have hct2 : (blob.take 128).length = 128 := by
    rw [List.length_take]
    omega
  rw [slice_zero (by omega), ok_bind, slice_of_le (by omega) hlen, ok_bind,
    array_bind_of_length hct1, array_bind_of_length hct2]
  refine .bind (.leaving (.ofExcept _) fun _ ↦ hs) fun cto _ ↦ ?_
  refine .bind (.leaving (.ofExcept _) fun _ ↦ hauth _) fun _ _ ↦ ?_
  refine .bind (.ensure fun _ ↦ hauth _) fun _ _ ↦ ?_
  exact intact_of_none rfl trivial

/-- Accepting a header keeps a state intact, also when it fails. -/
theorem acceptHeaderAt_intact {blob : List B} (hs : s.Intact) :
    Ends (acceptHeaderAt P s blob) (fun t ↦ t.Intact) fun e ↦ e.2.Intact := by
  by_cases hlen : 64 + 32 ≤ blob.length
  · obtain ⟨hseed, hhek, heq⟩ := acceptHeaderAt_of_le (P := P) (s := s) hlen
    rw [heq]
    refine .bind (.leaving (.ofExcept _) fun _ ↦ hs) fun _ _ ↦ ?_
    exact intact_of_none rfl trivial
  · rw [acceptHeaderAt, ensure_of_neg hlen]
    exact hs

/-- Receiving a key chunk keeps a state intact, also when it fails. -/
theorem recvEkOrAckAt_intact {msg : BraidMessage B} {secret : EncapsSecret B} {ct1 : Block B 960}
    {ct1Enc : Encoder B} {ekDec : Decoder B} {ss : Block B 32} {emittedSs : Bool} (hs : s.Intact)
    (hfull : ct1Enc.Full) : Ends (recvEkOrAckAt P s msg secret ct1 ct1Enc ekDec ss emittedSs)
      (fun t ↦ t.Intact) fun e ↦ e.2.Intact := by
  unfold recvEkOrAckAt
  split
  · exact hs
  cases msg.typ with
  | ek =>
    refine .bind (.leaving (Decoder.addChunkAt_safe _ _) fun _ ↦ hs) fun d _ ↦ ?_
    cases d.decoded with
    | none => exact intact_of_full rfl hfull fun _ ↦ trivial
    | some t => exact intact_of_full rfl hfull fun _ ↦ trivial
  | ekCt1Ack =>
    refine .bind (.leaving (Decoder.addChunkAt_safe _ _) fun _ ↦ hs) fun d _ ↦ ?_
    cases d.decoded with
    | none => exact intact_of_none rfl trivial
    | some t =>
      have ht : Intact { s with agent := .ct1Sampled secret ct1 ct1Enc d ss emittedSs } :=
        intact_of_full rfl hfull fun _ ↦ trivial
      exact sampleCt2At_intact ht ..
  | _ => exact hs

/-- **Receiving in an intact state**, below the last epoch, returns or fails and leaves an intact
state, in each of the eleven states. -/
theorem receiveAt_intact (hs : s.Intact) (htop : s.epoch.toNat + 1 < 2 ^ 64) (msg : BraidMessage B) :
    Ends (receiveAt P msg s) (fun r ↦ r.2.Intact) fun e ↦ e.2.Intact := by
  unfold receiveAt
  rw [add_of_lt htop, ok_bind]
  refine .bind (.ensure fun _ ↦ hs) fun _ _ ↦ ?_
  obtain ⟨epoch, auth, agent⟩ := s
  cases agent with
  | keysUnsampled => exact hs
  | keysSampled dk ekVector headerEnc =>
    dsimp only
    split
    · refine .bind (.leaving (Decoder.addChunkAt_safe _ _) fun _ ↦ hs) fun d hd ↦ ?_
      refine intact_of_full rfl (Encoder.new_whole _).full fun _ n hn ↦ ?_
      rw [hd] at hn
      cases hn
      rfl
    · exact hs
  | headerSent dk ekEnc ct1Dec =>
    dsimp only
    split
    · refine .bind (.leaving (Decoder.addChunkAt_safe _ _) fun _ ↦ hs) fun d hd ↦ ?_
      have hreach : ∀ n, d.reach = some n → n = 960 := by
        intro n hn
        exact hs.ct1 htop n (hd ▸ hn)
      cases hdec : d.decoded with
      | none => exact intact_of_full rfl (hs.encoder ekEnc rfl) fun _ ↦ hreach
      | some ct1 =>
        refine intact_of_full rfl (hs.encoder ekEnc rfl) fun _ ↦ ?_
        exact hreach _ (Decoder.reach_of_decoded hdec)
    · exact hs
  | ct1Received dk ct1 ekEnc =>
    dsimp only
    split
    · have hleft : Intact ⟨epoch, auth, (.keysUnsampled : Agent B)⟩ := intact_of_none rfl trivial
      refine .bind (.leaving (Decoder.addChunkAt_safe _ _) fun _ ↦ hleft) fun d _ ↦ ?_
      exact intact_of_none rfl (.inl (hs.ct1 htop))
    · exact hs
  | ekSentCt1Received dk ct1 ct2Dec =>
    dsimp only
    split
    · refine .bind (.leaving (Decoder.addChunkAt_safe _ _) fun _ ↦ hs) fun d hd ↦ ?_
      have ht : Intact ⟨epoch, auth, .ekSentCt1Received dk ct1 d⟩ := by
        refine intact_of_none rfl ((hs.ct1 htop).imp_right fun hshort n hn ↦ ?_)
        exact hshort n (hd ▸ hn)
      cases hdec : d.decoded with
      | none => exact ht
      | some blob => exact .bind (decapsulateAt_intact ht htop rfl hdec) fun _ hr ↦ hr
    · exact hs
  | noHeaderReceived headerDec =>
    dsimp only
    split
    · refine .bind (.leaving (Decoder.addChunkAt_safe _ _) fun _ ↦ hs) fun d _ ↦ ?_
      have ht : Intact ⟨epoch, auth, .noHeaderReceived d⟩ := intact_of_none rfl trivial
      cases d.decoded with
      | none => exact ht
      | some blob => exact .bind (acceptHeaderAt_intact ht) fun _ hr ↦ hr
    · exact hs
  | headerReceived ekSeed hek ekDec => exact hs
  | ct1Sampled secret ct1 ct1Enc ekDec ss emittedSs =>
    exact .bind (recvEkOrAckAt_intact hs (hs.encoder ct1Enc rfl)) fun _ hr ↦ hr
  | ekReceivedCt1Sampled secret ct1 ekVector ct1Enc ss emittedSs =>
    dsimp only
    split
    · exact .bind (sampleCt2At_intact hs ..) fun _ hr ↦ hr
    split
    · exact intact_of_none rfl trivial
    · exact hs
  | ct1Acknowledged secret ct1 ekDec ss emittedSs =>
    dsimp only
    split
    · refine .bind (.leaving (Decoder.addChunkAt_safe _ _) fun _ ↦ hs) fun d _ ↦ ?_
      have ht : Intact ⟨epoch, auth, .ct1Acknowledged secret ct1 d ss emittedSs⟩ :=
        intact_of_none rfl trivial
      cases d.decoded with
      | none => exact ht
      | some t => exact .bind (sampleCt2At_intact ht ..) fun _ hr ↦ hr
    · exact hs
  | ct2Sampled ct2Enc ss emittedSs =>
    dsimp only
    split
    · exact intact_of_none rfl trivial
    · exact hs

end BraidScka

/-! ### Runs -/

/-- A call of one of the two methods, with what it draws. -/
inductive BraidCall (B : Type)
  | send (seed : Block B 64) (m : Block B 32)
  | receive (msg : BraidMessage B)

namespace BraidCall

/-- Messages come from `BraidMessage::decode`. -/
def Decoded : BraidCall B → Prop
  | send .. => True
  | receive msg => ∃ data, BraidMessage.decode data = .ok msg

/-- A message is received at the last epoch there is, `u64::MAX`. -/
def AtTop (s : BraidScka B) : BraidCall B → Prop
  | send .. => False
  | receive _ => s.epoch.toNat + 1 = 2 ^ 64

/-- A message of one chunk is one that the wire format can hold. -/
theorem decoded_of_length {msg : BraidMessage B} (h : msg.data.length = chunkWire) :
    (receive msg).Decoded :=
  ⟨msg.encode, BraidMessage.decode_encode (.inr h)⟩

end BraidCall

namespace BraidScka

open BraidCall

variable (P : Primitives B)

/-- The object behind a call; `none` if the process is gone. -/
def after : BraidCall B → BraidScka B → Option (BraidScka B)
  | .send seed m, s => (sendAt P seed m s).state
  | .receive msg, s => (receiveAt P msg s).state

/-- The object behind a sequence of calls, failed ones included. -/
def run : List (BraidCall B) → BraidScka B → Option (BraidScka B)
  | [], s => some s
  | c :: cs, s => (after P c s).bind (run cs)

/-- Some message of the sequence is received at the last epoch. -/
def ReachesTop : List (BraidCall B) → BraidScka B → Prop
  | [], _ => False
  | c :: cs, s => c.AtTop s ∨ ∃ t, after P c s = some t ∧ ReachesTop cs t

section Safety

variable {P} {s : BraidScka B} {c : BraidCall B}

/-- **The sum at the last epoch overflows**, whatever is received. -/
theorem after_of_atTop (h : c.AtTop s) : after P c s = none := by
  cases c with
  | send seed m => exact h.elim
  | receive msg =>
    have htop : s.epoch.toNat + 1 = 2 ^ 64 := h
    rw [after, receiveAt, add_of_le (by omega)]
    rfl

/-- **One call keeps a state intact**, whether it returns or fails. -/
theorem after_intact (hs : s.Intact) (h : ¬ c.AtTop s) : ∃ t, after P c s = some t ∧ t.Intact := by
  cases c with
  | send seed m => exact (sendAt_intact hs seed m).state
  | receive msg =>
    have hne : s.epoch.toNat + 1 ≠ 2 ^ 64 := h
    have hlt := s.epoch.toNat_lt
    exact (receiveAt_intact hs (by omega) msg).state

/-- **A run from an intact state** panics exactly if it receives a message at the last epoch. -/
theorem run_intact (hs : s.Intact) (calls : List (BraidCall B)) :
    run P calls s = none ↔ ReachesTop P calls s := by
  induction calls generalizing s with
  | nil => exact iff_of_false (fun h ↦ by cases h) id
  | cons c calls ih =>
    by_cases htop : c.AtTop s
    · rw [run, after_of_atTop htop]
      exact iff_of_true rfl (.inl htop)
    · obtain ⟨t, hafter, ht⟩ := after_intact (P := P) hs htop
      rw [run, hafter, Option.bind_some, ih ht]
      refine ⟨fun h ↦ .inr ⟨t, hafter, h⟩, ?_⟩
      rintro (h | ⟨t', hafter', h⟩)
      · exact absurd h htop
      · rw [hafter] at hafter'
        cases hafter'
        exact h

theorem initAlice_intact (shared : Block B 32) : (initAlice P shared).Intact :=
  intact_of_none rfl trivial

/-- **What runs build is intact**, if they start from an intact state, such as `init_alice` and
`init_bob` make. -/
theorem intact_of_run (hs : s.Intact) {calls : List (BraidCall B)} {t : BraidScka B}
    (h : run P calls s = some t) : t.Intact := by
  induction calls generalizing s with
  | nil =>
    cases h
    exact hs
  | cons c calls ih =>
    obtain ⟨u, hafter, hrun⟩ := Option.bind_eq_some_iff.1 h
    have htop : ¬ c.AtTop s := by
      intro hat
      rw [after_of_atTop hat] at hafter
      cases hafter
    obtain ⟨u', hafter', hu⟩ := after_intact (P := P) hs htop
    rw [hafter] at hafter'
    cases hafter'
    exact ih hu hrun

end Safety

/-! ### Other states crash -/

/-- Some well-formed calls, none of them at the last epoch, end in a panic. -/
def Crashes (s : BraidScka B) : Prop :=
  ∃ calls : List (BraidCall B), (∀ c ∈ calls, c.Decoded) ∧ ¬ ReachesTop P calls s ∧ run P calls s = none

section Crashes

variable {P} {s t : BraidScka B} {c : BraidCall B}

theorem Crashes.now (hc : c.Decoded) (htop : ¬ c.AtTop s) (h : after P c s = none) :
    Crashes P s := by
  refine ⟨[c], fun c' hc' ↦ List.mem_singleton.1 hc' ▸ hc, ?_, ?_⟩
  · rintro (hat | ⟨t, -, ht⟩)
    · exact htop hat
    · exact ht
  · rw [run, h]
    rfl

/-- A state crashes when the call takes it to one that crashes. -/
theorem Crashes.later (hc : c.Decoded) (htop : ¬ c.AtTop s) (h : after P c s = some t)
    (ht : Crashes P t) : Crashes P s := by
  obtain ⟨calls, hdecoded, hbelow, hrun⟩ := ht
  refine ⟨c :: calls, List.forall_mem_cons.2 ⟨hc, hdecoded⟩, ?_, ?_⟩
  · rintro (hat | ⟨t', ht', hreach⟩)
    · exact htop hat
    · rw [h] at ht'
      cases ht'
      exact hbelow hreach
  · rw [run, h]
    exact hrun

/-- **A missing row is sent sooner or later**: every send moves the index on, and the index that has
no data comes up. -/
theorem crashes_of_not_full {e : Encoder B} (henc : s.agent.encoder = some e) (he : ¬ e.Full) :
    Crashes P s := by
  have hdata : e.data.length < 16 * min e.kChunks 65536 := not_le.1 he
  -- induction on the number of sends before the first missing row
  induction hdist : (e.data.length / 16 + 65536 - e.next.toNat) % 65536 generalizing s e with
  | zero =>
    have hnext := e.next.toNat_lt
    obtain ⟨typ, hsend⟩ := sendAt_of_encoder (P := P) (Block.zero 64) (Block.zero 32) henc
    refine .now (c := .send (Block.zero 64) (Block.zero 32)) trivial id ?_
    rw [after, hsend, Encoder.nextChunkAt, Encoder.symbolRowAt_missing]
    · rfl
    · omega
    · unfold syms
      omega
  | succ dist ih =>
    have hnext := e.next.toNat_lt
    obtain ⟨typ, hsend⟩ := sendAt_of_encoder (P := P) (Block.zero 64) (Block.zero 32) henc
    cases hchunk : e.nextChunkAt with
    | err e => exact e.elim
    | panic =>
      refine .now (c := .send (Block.zero 64) (Block.zero 32)) trivial id ?_
      rw [after, hsend, hchunk]
      rfl
    | ok r =>
      obtain ⟨chunk, e'⟩ := r
      have he' := Encoder.nextChunkAt_eq_ok hchunk
      refine .later (c := .send (Block.zero 64) (Block.zero 32)) trivial id
        (by rw [after, hsend, hchunk]; rfl) (ih (Agent.encoder_setEncoder henc e') ?_ ?_ ?_)
      · rw [he']
        exact he
      · rw [he']
        exact hdata
      · rw [he', UInt16.toNat_add]
        show (e.data.length / 16 + 65536 - (e.next.toNat + 1) % 65536) % 65536 = dist
        omega

variable {ct1 : List B}

/-- A chunk of the current epoch is a well-formed call. -/
theorem receive_msg {chunk : List B} {d d' : Decoder B} (hadd : d.addChunk chunk = .ok d')
    (hbelow : s.epoch.toNat + 1 < 2 ^ 64) (typ : BraidType) :
    (BraidCall.receive (s.msg typ chunk)).Decoded ∧ ¬ (BraidCall.receive (s.msg typ chunk)).AtTop s := by
  refine ⟨decoded_of_length (Decoder.length_of_addChunk hadd), fun h ↦ ?_⟩
  have htop : s.epoch.toNat + 1 = 2 ^ 64 := h
  omega

/-- The `EkSentCt1Received` arm on a chunk of `ct2`. -/
theorem receiveAt_ct2 (dk : Block B 64) {chunk : List B} {d d' : Decoder B} (hadd : d.addChunk chunk = .ok d')
    (hbelow : s.epoch.toNat + 1 < 2 ^ 64) :
    (d'.decoded = none → receiveAt P (s.msg .ct2 chunk)
      { s with agent := .ekSentCt1Received dk ct1 d } =
        .ok ((s.epoch.toNat - 1, none), { s with agent := .ekSentCt1Received dk ct1 d' })) ∧
    ∀ blob, d'.decoded = some blob → receiveAt P (s.msg .ct2 chunk)
      { s with agent := .ekSentCt1Received dk ct1 d } =
        decapsulateAt P { s with agent := .ekSentCt1Received dk ct1 d' } dk ct1 blob >>= fun r ↦
          .ok ((s.epoch.toNat - 1, some r.1), r.2) := by
  have hle : (s.msg .ct2 chunk).epoch.toNat ≤ s.epoch.toNat + 1 := Nat.le_succ _
  rw [receiveAt, add_of_lt hbelow, ok_bind, ensure_of_pos hle, ok_bind]
  constructor
  · intro hdec
    simp only [msg, and_self, if_true, Decoder.addChunkAt_eq, hadd, Checked.ofExcept, leaving_ok, ok_bind,
      hdec]
    rfl
  · intro blob hdec
    simp only [msg, and_self, if_true, Decoder.addChunkAt_eq, hadd, Checked.ofExcept, leaving_ok, ok_bind,
      hdec]
    rfl

/-- The copy into an array of another length. -/
theorem decapsulateAt_panics (dk : Block B 64) {blob : List B} (hlen : 128 + 32 ≤ blob.length)
    (hct1 : ct1.length ≠ 960) : decapsulateAt P s dk ct1 blob = .panic := by
  rw [decapsulateAt, ensure_of_pos hlen, ok_bind, slice_zero (by omega), ok_bind,
    slice_of_le (by omega) hlen, ok_bind, array, dif_neg hct1]
  rfl

/-- **A first half of the wrong length** is copied as soon as the second half is complete. -/
theorem crashes_of_fills (dk : Block B 64) {ct2Dec : Decoder B} {blob : List B} (hfills : ct2Dec.Fills blob)
    (hbelow : s.epoch.toNat + 1 < 2 ^ 64) (hlen : 128 + 32 ≤ blob.length) (hct1 : ct1.length ≠ 960) :
    Crashes P { s with agent := .ekSentCt1Received dk ct1 ct2Dec } := by
  induction hfills with
  | last hadd hdec =>
    obtain ⟨hdecoded, htop⟩ := receive_msg hadd hbelow .ct2
    refine .now hdecoded htop ?_
    rw [after, (receiveAt_ct2 dk hadd hbelow).2 _ hdec, decapsulateAt_panics dk hlen hct1]
    rfl
  | more hadd hdec _ ih =>
    obtain ⟨hdecoded, htop⟩ := receive_msg hadd hbelow .ct2
    refine .later hdecoded htop ?_ (ih hlen)
    rw [after, (receiveAt_ct2 dk hadd hbelow).1 hdec]
    rfl

/-- The second half of a fresh decoder can be completed. -/
theorem crashes_of_ct1Received (dk : Block B 64) (ekEnc : Encoder B)
    (hbelow : s.epoch.toNat + 1 < 2 ^ 64) (hct1 : ct1.length ≠ 960) :
    Crashes P { s with agent := .ct1Received dk ct1 ekEnc } := by
  obtain ⟨d, hadd⟩ := Decoder.exists_addChunk (Decoder.new (128 + 32) : Decoder B) 0
  obtain ⟨blob, hlen, hfills⟩ := Decoder.exists_fills (Decoder.reach_addChunk hadd)
  obtain ⟨hdecoded, htop⟩ := receive_msg hadd hbelow .ct2
  refine .later hdecoded htop ?_ (crashes_of_fills dk hfills hbelow hlen.ge hct1)
  have hle : (s.msg .ct2 (Decoder.zeroChunk 0)).epoch.toNat ≤ s.epoch.toNat + 1 := Nat.le_succ _
  rw [after, receiveAt, add_of_lt hbelow, ok_bind, ensure_of_pos hle, ok_bind]
  simp only [msg, and_self, if_true, Decoder.addChunkAt_eq, hadd, Checked.ofExcept, leaving_ok, ok_bind]
  rfl

/-- A first half that will have the wrong length can be completed. -/
theorem crashes_of_headerSent (dk : Block B 64) (ekEnc : Encoder B) {ct1Dec : Decoder B}
    (hfills : ct1Dec.Fills ct1) (hbelow : s.epoch.toNat + 1 < 2 ^ 64) (hct1 : ct1.length ≠ 960) :
    Crashes P { s with agent := .headerSent dk ekEnc ct1Dec } := by
  have hle : ∀ chunk, (s.msg .ct1 chunk).epoch.toNat ≤ s.epoch.toNat + 1 := fun _ ↦ Nat.le_succ _
  induction hfills with
  | last hadd hdec =>
    obtain ⟨hdecoded, htop⟩ := receive_msg hadd hbelow .ct1
    refine .later hdecoded htop ?_ (crashes_of_ct1Received dk ekEnc hbelow hct1)
    rw [after, receiveAt, add_of_lt hbelow, ok_bind, ensure_of_pos (hle _), ok_bind]
    simp only [msg, and_self, if_true, Decoder.addChunkAt_eq, hadd, Checked.ofExcept, leaving_ok, ok_bind,
      hdec]
    rfl
  | more hadd hdec _ ih =>
    obtain ⟨hdecoded, htop⟩ := receive_msg hadd hbelow .ct1
    refine .later hdecoded htop ?_ (ih hct1)
    rw [after, receiveAt, add_of_lt hbelow, ok_bind, ensure_of_pos (hle _), ok_bind]
    simp only [msg, and_self, if_true, Decoder.addChunkAt_eq, hadd, Checked.ofExcept, leaving_ok, ok_bind,
      hdec]
    rfl

/-- **A ciphertext that does not fit** ends in a panic, in each of the three states that have one. -/
theorem crashes_of_not_fitsCt1 (hbelow : s.epoch.toNat + 1 < 2 ^ 64) (h : ¬ s.agent.FitsCt1) :
    Crashes P s := by
  obtain ⟨epoch, auth, agent⟩ := s
  cases agent with
  | headerSent dk ekEnc ct1Dec =>
    have hwrong : ∃ n, ct1Dec.reach = some n ∧ n ≠ 960 := by
      by_contra hright
      exact h fun n hn ↦ by_contra fun hne ↦ hright ⟨n, hn, hne⟩
    obtain ⟨n, hn, hne⟩ := hwrong
    obtain ⟨ct1, rfl, hfills⟩ := Decoder.exists_fills hn
    exact crashes_of_headerSent (s := ⟨epoch, auth, _⟩) dk ekEnc hfills hbelow hne
  | ct1Received dk ct1 ekEnc => exact crashes_of_ct1Received (s := ⟨epoch, auth, _⟩) dk ekEnc hbelow h
  | ekSentCt1Received dk ct1 ct2Dec =>
    obtain ⟨hne, hlong⟩ := not_or.1 h
    have hlong : ∃ n, ct2Dec.reach = some n ∧ 128 + 32 ≤ n := by
      by_contra hshort
      exact hlong fun n hn ↦ not_le.1 fun hle ↦ hshort ⟨n, hn, hle⟩
    obtain ⟨n, hn, hle⟩ := hlong
    obtain ⟨blob, rfl, hfills⟩ := Decoder.exists_fills hn
    exact crashes_of_fills (s := ⟨epoch, auth, _⟩) dk hfills hbelow hle hne
  | _ => exact absurd trivial h

/-- **Every state that is not intact crashes**: by sending, when its encoder lacks data, and by
receiving, when its ciphertext is too short to be copied. -/
theorem crashes_of_not_intact (h : ¬ s.Intact) : Crashes P s := by
  by_cases henc : ∀ e, s.agent.encoder = some e → e.Full
  · have hct1 : ∃ _ : s.epoch.toNat + 1 < 2 ^ 64, ¬ s.agent.FitsCt1 := by
      by_contra hfits
      exact h ⟨henc, fun hbelow ↦ by_contra fun hne ↦ hfits ⟨hbelow, hne⟩⟩
    obtain ⟨hbelow, hct1⟩ := hct1
    exact crashes_of_not_fitsCt1 hbelow hct1
  · obtain ⟨e, he⟩ := not_forall.1 henc
    obtain ⟨he, hfull⟩ := Classical.not_imp.1 he
    exact crashes_of_not_full he hfull

end Crashes

/-! ### The theorem -/

/-- **Restored states.** The runs of a state read from storage panic only where the epoch overflows if,
and only if, the state is intact. -/
theorem restored_safe_iff_intact (x : List B) (s : BraidScka B) (_hs : deserialize x = .ok s) :
    (∀ calls : List (BraidCall B), (∀ c ∈ calls, c.Decoded) →
      (run P calls s = none ↔ ReachesTop P calls s)) ↔ s.Intact := by
  refine ⟨fun h ↦ ?_, fun hs calls _ ↦ run_intact hs calls⟩
  by_contra hintact
  obtain ⟨calls, hdecoded, hbelow, hrun⟩ := crashes_of_not_intact (P := P) hintact
  exact hbelow ((h calls hdecoded).1 hrun)

/-- A state that was stored in the middle of sending its key: whatever happens to it when it is read
again, it does not crash. -/
theorem restored_safe_first :
    Plain.first.2.agent.encoder.isSome = true ∧
    deserialize Plain.first.2.serialize = .ok Plain.first.2 ∧
    ∀ calls : List (BraidCall UInt8), (∀ c ∈ calls, c.Decoded) →
      (run Plain.primitives calls Plain.first.2 = none ↔
        ReachesTop Plain.primitives calls Plain.first.2) := by
  have hstorable := (BraidNet.system_coherent bytes_uint8 Plain.incrementalKem Plain.reachable_net).2
  have hread : deserialize Plain.first.2.serialize = .ok Plain.first.2 :=
    deserialize_serialize (hstorable .alice).fits
  have hrun : run Plain.primitives [.send (Block.zero 64) (Block.zero 32)]
      (initAlice Plain.primitives (Block.zero 32)) = some Plain.first.2 := by
    have henc := (initAlice_intact (P := Plain.primitives) (Block.zero 32)).encoder
    rw [run, after, sendAt_eq_ok _ _ henc]
    rfl
  exact ⟨rfl, hread, (restored_safe_iff_intact Plain.primitives _ _ hread).2
    (intact_of_run (initAlice_intact _) hrun)⟩

/-- A state in `Ct2Sampled` whose encoder announces one chunk and has no symbols. -/
def torn : BraidScka UInt8 where
  epoch := 1
  auth := ⟨Block.zero 32, Block.zero 32⟩
  agent := .ct2Sampled { data := [], kChunks := 1, next := 0 } (Block.zero 32) false

/-- A state in `EkSentCt1Received` with an empty first half and a decoded second half. -/
def cut : BraidScka UInt8 where
  epoch := 1
  auth := ⟨Block.zero 32, Block.zero 32⟩
  agent := .ekSentCt1Received (Block.zero 64) []
    { Decoder.new (128 + 32) with decoded := some (List.replicate (128 + 32) 0) }

/-- The bytes of the first. -/
example : torn.serialize = ascii "VCBRAID3" ++ [1, 0, 0, 0, 0, 0, 0, 0] ++ List.replicate 64 0 ++ [10] ++
    [10, 0, 0, 0, 1, 0, 0, 0, 0, 0, 0, 0, 0, 0] ++ List.replicate 32 0 ++ [0] := by decide

/-- **Corrupted storage is not caught at load.** Both states are read without an error. The next message
that is sent from the first indexes an empty buffer, and the next chunk that the second receives is
followed by a copy of nothing into 960 bytes. -/
theorem restored_panics :
    (deserialize torn.serialize = .ok torn ∧
      run Plain.primitives [.send (Block.zero 64) (Block.zero 32)] torn = none) ∧
    deserialize cut.serialize = .ok cut ∧
      (BraidCall.receive (cut.msg .ct2 (Decoder.zeroChunk 0))).Decoded ∧
      run Plain.primitives [.receive (cut.msg .ct2 (Decoder.zeroChunk 0))] cut = none := by
  have htorn : torn.agent.Fits := ⟨by decide, by decide⟩
  have hcut : cut.agent.Storable := by
    refine ⟨Nat.zero_le _, by decide, by decide, fun m hm ↦ ?_⟩
    cases hm
    rw [List.length_replicate]
    omega
  refine ⟨⟨deserialize_serialize htorn, rfl⟩, deserialize_serialize hcut.fits,
    decoded_of_length (Decoder.length_zeroChunk 0), ?_⟩
  obtain ⟨d, hadd⟩ := Decoder.exists_addChunk
    { Decoder.new (128 + 32) with decoded := some (List.replicate (128 + 32) (0 : UInt8)) } 0
  have hdec := Decoder.decoded_addChunk rfl hadd
  have hlen : 128 + 32 ≤ (List.replicate (128 + 32) (0 : UInt8)).length := by
    rw [List.length_replicate]
  have hreceive : receiveAt Plain.primitives (cut.msg .ct2 (Decoder.zeroChunk 0)) cut = .panic := by
    refine ((receiveAt_ct2 (s := cut) (Block.zero 64) hadd (by decide)).2 _ hdec).trans ?_
    rw [decapsulateAt_panics _ hlen (by decide)]
    rfl
  rw [run, after, hreceive]
  rfl

end BraidScka

end VoiceChatCrypto
