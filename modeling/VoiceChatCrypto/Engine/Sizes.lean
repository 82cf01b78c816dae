import VoiceChatCrypto.Engine.Slots

/-!
# Sizes

How long the messages are that the engine produces: a sealed message is its plaintext, a 16-byte tag
and a header of at most 94 bytes, in every profile, and an initiation packet adds a fixed number of
bytes. The other way round, what a message opens to is 16 bytes shorter than its ciphertext.
-/

open Alphabet

namespace VoiceChatCrypto

variable {B : Type} [Alphabet B] {P : Primitives B}

/-! ### Headers -/

/-- A codeword is an index and at most sixteen symbols. -/
theorem Encoder.length_nextChunk_le (e : Encoder B) : e.nextChunk.1.length ≤ 34 := by
  have hrow : (e.symbolRow e.next).length ≤ 32 := by
    unfold symbolRow
    split
    · rw [length_ofSymbols]
      have := List.length_take_le syms (e.data.drop (e.next.toNat * syms))
      have hsyms : syms = 16 := rfl
      omega
    · simp [syms]
  simp only [nextChunk, List.length_append, length_be]
  omega

theorem BraidScka.length_send_le (seed : Block B 64) (m : Block B 32) (s : BraidScka B) :
    (s.send P seed m).1.1.data.length ≤ 34 := by
  unfold send
  dsimp only
  split <;> first | exact Encoder.length_nextChunk_le _ | exact Nat.zero_le _

theorem TripleHeader.length_encode_le {h : TripleHeader B} {m : BraidMessage B}
    (hm : h.scka = some m) (hdata : m.data.length ≤ 34) : h.encode.length ≤ 94 := by
  simp only [TripleHeader.encode, hm, List.length_append, Header.length_encode, length_le,
    List.length_cons, BraidMessage.encode, length_be]
  omega

/-! ### Messages -/

/-- **A sealed message** has a short header and a ciphertext that is a tag longer. -/
theorem LiveRatchet.length_encrypt (hA : IdealAead P) {d : Draws B} {pt ad header ct : List B}
    {r r' : LiveRatchet B} (h : r.encrypt P d pt ad = .ok ((header, ct), r')) :
    header.length ≤ 94 ∧ ct.length = pt.length + 16 := by
  cases r with
  | classical r =>
    obtain ⟨⟨⟨hd, c⟩, t⟩, henc, hret⟩ := Except.bind_eq_ok.1 h
    cases hret
    obtain ⟨mk, -, hct⟩ := DoubleRatchetState.encrypt_eq_ok.1 (liftError_eq_ok.1 henc)
    refine ⟨?_, hA.length_seal hct⟩
    rw [Header.length_encode]
    decide
  | headerEncrypt r =>
    obtain ⟨⟨⟨hd, c⟩, t⟩, henc, hret⟩ := Except.bind_eq_ok.1 h
    cases hret
    obtain ⟨cks, dhs, hks, ns, -, -, -, -, hheader, hct, -⟩ :=
      HeaderEncryptState.encrypt_eq_ok (liftError_eq_ok.1 henc)
    refine ⟨?_, hA.length_seal hct⟩
    obtain ⟨c, hc, hret⟩ := Except.bind_eq_ok.1 hheader
    cases hret
    have hlen := hA.length_seal hc
    rw [Header.length_encode] at hlen
    rw [List.length_append, Block.length_val, hlen]
    decide
  | hybrid r =>
    obtain ⟨⟨⟨hd, c⟩, t⟩, henc, hret⟩ := Except.bind_eq_ok.1 h
    cases hret
    obtain ⟨ecHeader, ecMk, pqEpoch, pqN, pqMk, -, -, -, rfl, hct⟩ :=
      TripleRatchetState.encrypt_eq_ok (liftError_eq_ok.1 henc)
    exact ⟨TripleHeader.length_encode_le rfl (BraidScka.length_send_le _ _ _), hA.length_seal hct⟩

/-- **An opened message** is a tag shorter than its ciphertext. -/
theorem LiveRatchet.length_decrypt (hO : OpenLength P) {d : Draws B} {header ct ad pt : List B}
    {r r' : LiveRatchet B} (h : r.decrypt P d header ct ad = .ok (pt, r')) :
    ct.length = pt.length + 16 := by
  cases r with
  | classical r =>
    obtain ⟨hd, -, h⟩ := Except.bind_eq_ok.1 h
    rcases DoubleRatchetState.decrypt_cases P d.ratchet hd ct ad r with
      ⟨mk, trial, pt', -, hopen, heq⟩ | ⟨e, heq, -⟩
    · rw [heq] at h
      cases h
      exact hO.length_open hopen
    · rw [heq] at h
      cases h
  | headerEncrypt r =>
    unfold decrypt at h
    rcases HeaderEncryptState.decrypt_cases P d.order d.ratchet header ct ad r with
      ⟨mk, trial, pt', -, hopen, heq⟩ | ⟨e, heq⟩
    · simp only [heq] at h
      cases h
      exact hO.length_open hopen
    · simp only [heq] at h
      cases h
  | hybrid r =>
    obtain ⟨hd, -, h⟩ := Except.bind_eq_ok.1 h
    unfold TripleRatchetState.decrypt at h
    cases htry : TripleRatchetState.tryDecrypt P d.ratchet hd ct ad r with
    | error e =>
      rw [htry] at h
      cases h
    | ok a =>
      obtain ⟨pt', trial⟩ := a
      rw [htry] at h
      cases h
      obtain ⟨⟨braid, spqr, pending⟩, -, htry⟩ := Except.bind_eq_ok.1 htry
      obtain ⟨⟨ecMk, classical⟩, -, htry⟩ := Except.bind_eq_ok.1 htry
      obtain ⟨⟨pqMk, spqr'⟩, -, htry⟩ := Except.bind_eq_ok.1 htry
      obtain ⟨pt'', hopen, htry⟩ := Except.bind_eq_ok.1 htry
      -- a pending key moves SPQR on, and changes nothing about the plaintext
      cases pending with
      | none =>
        cases htry
        exact hO.length_open hopen
      | some k =>
        obtain ⟨⟨epoch, spqr''⟩, -, htry⟩ := Except.bind_eq_ok.1 htry
        cases htry
        exact hO.length_open hopen

/-- A sealed message is at most 142 letters longer than its plaintext. -/
theorem SealedMessage.length_encode_le {m : SealedMessage B} {n : ℕ} (hh : m.header.length ≤ 94)
    (hc : m.ciphertext.length = n + 16) : m.encode.length ≤ 142 + n := by
  rw [length_encode]
  omega

/-- The ciphertext of an initiation is one of the KEM. -/
theorem Engine.length_kemCiphertext {e : Engine B} {bundle : PublicPrekeyBundle B} {d : Draws B}
    {i : AliceInitiation B} {r : LiveRatchet B} (h : e.initiate P bundle d = .ok (i, r)) :
    i.kemCiphertext.length = 1088 := by
  obtain ⟨-, -, h⟩ := Except.bind_eq_ok.1 h
  obtain ⟨i', hinit, h⟩ := Except.bind_eq_ok.1 h
  obtain ⟨r', -, h⟩ := Except.bind_eq_ok.1 h
  cases h
  obtain ⟨-, -, hinit⟩ := Except.bind_eq_ok.1 (liftError_eq_ok.1 hinit)
  obtain ⟨pq, -, hinit⟩ := Except.bind_eq_ok.1 hinit
  obtain ⟨⟨ss, ct⟩, -, hinit⟩ := Except.bind_eq_ok.1 hinit
  cases hinit
  exact Block.length_val ct

/-- A packet is at most 1400 letters longer than its plaintext. -/
theorem InitiationPacket.length_encode_le {p : InitiationPacket B} {n : ℕ}
    (hk : p.kemCiphertext.length = 1088) (hf : p.firstMessage.encode.length ≤ 142 + n) :
    p.encode.length ≤ 1400 + n := by
  have hmagic : (ascii "VCINIT01" : List B).length = 8 := rfl
  simp only [encode, List.length_append, hmagic, Block.length_val, length_le, hk,
    Cursor.length_putVec]
  split <;> simp only [List.length_cons, List.length_nil, length_le] <;> omega

/-- A bundle has at most 1432 letters. -/
theorem PublicPrekeyBundle.length_encode_le {b : PublicPrekeyBundle B}
    (h : b.pqPrekeyPublic.length = 1184) : b.encode.length ≤ 1432 := by
  have hmagic : (ascii "VCBUNDL1" : List B).length = 8 := rfl
  simp only [encode, List.length_append, hmagic, Block.length_val, length_le, h, List.length_cons,
    List.length_nil]
  split <;> simp only [List.length_cons, List.length_nil, List.length_append, length_le,
    Block.length_val] <;> omega

end VoiceChatCrypto
