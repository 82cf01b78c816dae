import VoiceChatCrypto.Engine.Session
import VoiceChatCrypto.Engine.Pqxdh
import VoiceChatCrypto.Primitives.Symbolic

/-!
# What the associated data binds

Every message is authenticated together with the two identities and the KEM key of the handshake, the
conversation, the caller's associated data and its own header. Four layers of concatenation lead there.
They can be undone because every part but the last of each layer has a fixed length or carries its
length in front, and the lengths are not truncated as long as the parts are shorter than `2 ^ 32`.
-/

open Alphabet

namespace VoiceChatCrypto

variable {B : Type} [Alphabet B] {P : Primitives B}

/-! ### Fields -/

/-- Numbers that fit are told apart by their letters. -/
theorem le_inj {w m n : ℕ} (hm : m < 256 ^ w) (hn : n < 256 ^ w) (h : (le w m : List B) = le w n) :
    m = n := by
  have hval := congrArg fromLe h
  rwa [fromLe_le, fromLe_le, Nat.mod_eq_of_lt hm, Nat.mod_eq_of_lt hn] at hval

/-- A part behind its length can be told apart from what follows it. -/
theorem putVec_append_inj {x y rest rest' : List B} (hx : x.length < 2 ^ 32) (hy : y.length < 2 ^ 32)
    (h : Cursor.putVec x ++ rest = Cursor.putVec y ++ rest') : x = y ∧ rest = rest' := by
  unfold Cursor.putVec at h
  rw [List.append_assoc, List.append_assoc] at h
  obtain ⟨hlen, h⟩ := List.append_inj h (by simp)
  exact List.append_inj h (le_inj (by omega) (by omega) hlen)

/-- The same for the 64-bit length in front of the associated data of a ratchet. -/
theorem lengthPrefix_inj {x y rest rest' : List B} (hx : x.length < 2 ^ 64) (hy : y.length < 2 ^ 64)
    (h : le 8 x.length ++ x ++ rest = le 8 y.length ++ y ++ rest') : x = y ∧ rest = rest' := by
  rw [List.append_assoc, List.append_assoc] at h
  obtain ⟨hlen, h⟩ := List.append_inj h (by simp)
  exact List.append_inj h (le_inj (by omega) (by omega) hlen)

/-- Different X25519 keys are signed as different strings. -/
theorem encodeEc_inj {x y : Block B 32} (h : encodeEc x = encodeEc y) : x = y :=
  Subtype.ext (List.cons.inj h).2

/-- Different KEM keys are signed as different strings. -/
theorem encodeKem_inj {x y : Block B 1184} (h : encodeKem x = encodeKem y) : x = y :=
  Subtype.ext (List.cons.inj h).2

/-- The handshake data determines the identities and the KEM key. -/
theorem pqxdhAd_inj {a a' b b' : Block B 32} {pq pq' : Block B 1184}
    (h : pqxdhAd a b pq = pqxdhAd a' b' pq') : a = a' ∧ b = b' ∧ pq = pq' := by
  unfold pqxdhAd at h
  obtain ⟨hleft, hpq⟩ := List.append_inj h (by simp [encodeEc])
  obtain ⟨ha, hb⟩ := List.append_inj hleft (by simp [encodeEc])
  exact ⟨encodeEc_inj ha, encodeEc_inj hb, encodeKem_inj hpq⟩

/-! ### Headers -/

theorem BraidType.toNat_inj {s t : BraidType} (h : s.toNat = t.toNat) : s = t := by
  have hst := congrArg BraidType.fromNat h
  rw [BraidType.fromNat_toNat, BraidType.fromNat_toNat] at hst
  exact Except.ok.inj hst

theorem BraidMessage.encode_injective : Function.Injective (BraidMessage.encode (B := B)) := by
  intro m m' h
  unfold encode at h
  obtain ⟨hepoch, hrest⟩ := List.append_inj h (by simp)
  obtain ⟨htyp, hdata⟩ := List.cons.inj hrest
  have hepoch := congrArg fromBe hepoch
  rw [fromBe_be, fromBe_be, Nat.mod_eq_of_lt (by have := m.epoch.toNat_lt; omega),
    Nat.mod_eq_of_lt (by have := m'.epoch.toNat_lt; omega), UInt64.toNat_inj] at hepoch
  have hlt : ∀ t : BraidType, t.toNat % 256 = t.toNat := by
    intro t
    cases t <;> rfl
  have htyp := congrArg Alphabet.toNat htyp
  rw [toNat_ofNat, toNat_ofNat, hlt, hlt] at htyp
  cases m
  cases m'
  cases hepoch
  cases hdata
  cases BraidType.toNat_inj htyp
  rfl

/-- The optional Braid message is what is left after fixed-length fields. -/
theorem TripleHeader.encode_injective : Function.Injective (TripleHeader.encode (B := B)) := by
  intro h k heq
  unfold encode at heq
  obtain ⟨hleft, hscka⟩ := List.append_inj heq (by simp)
  obtain ⟨hleft, hn⟩ := List.append_inj hleft (by simp)
  obtain ⟨hclassical, hepoch⟩ := List.append_inj hleft (by simp)
  have hn := le_inj (by have := h.pqN.toNat_lt; omega) (by have := k.pqN.toNat_lt; omega) hn
  have hepoch := le_inj (by have := h.pqEpoch.toNat_lt; omega)
    (by have := k.pqEpoch.toNat_lt; omega) hepoch
  have hclassical := Header.encode_injective hclassical
  have htag : (ofNat 0 : B) ≠ ofNat 1 := by
    intro h01
    have hval := congrArg Alphabet.toNat h01
    rw [toNat_ofNat, toNat_ofNat] at hval
    exact absurd hval (by decide)
  obtain ⟨c, e, n, scka⟩ := h
  obtain ⟨c', e', n', scka'⟩ := k
  cases hclassical
  cases UInt32.toNat_inj.1 hn
  cases UInt32.toNat_inj.1 hepoch
  cases scka with
  | none =>
    cases scka' with
    | none => rfl
    | some m' => exact absurd (List.cons.inj hscka).1 htag
  | some m =>
    cases scka' with
    | none => exact absurd (List.cons.inj hscka).1.symm htag
    | some m' =>
      obtain ⟨-, hrest⟩ := List.cons.inj hscka
      obtain ⟨-, hm⟩ := List.append_inj hrest (by simp)
      cases BraidMessage.encode_injective hm
      rfl

/-! ### Contexts -/

/-- What a message is bound to beside its header: the parties and the KEM key of the handshake, the
conversation, and the data the caller passed. -/
structure Context (B : Type) where
  /-- The identity key of the party that opened the session. -/
  initiator : Block B 32
  /-- The identity key of the party that answered. -/
  responder : Block B 32
  /-- The KEM key that was used in the handshake. -/
  pqPrekey : Block B 1184
  /-- The conversation of the session. -/
  conversation : List B
  /-- The associated data of the message. -/
  ad : List B
  deriving DecidableEq

/-- A handshake of `initiator` and `responder` on the KEM key `pq`, run by either of them, ended with
these associated data. -/
inductive HandshakeAd (P : Primitives B) (initiator responder : Block B 32) (pq : Block B 1184) :
    List B → Prop
  | initiated {eka coins : Block B 32} {aliceIk : IdentityKeyPair B} {bundle : PublicPrekeyBundle B}
      {i : AliceInitiation B} (hrun : aliceInitiate P eka coins aliceIk bundle = .ok i)
      (hik : aliceIk.publicKey P = initiator) (hbob : bundle.identityKey = responder)
      (hpq : bundle.pqPrekeyPublic = pq.val) : HandshakeAd P initiator responder pq i.shared.ad
  | responded {identity : IdentityKeyPair B} {spk : SignedPrekey B}
      {oneTimeEc : Option (OneTimeEcPrekey B)} {pqSecret : Block B 64} {aliceEk : Block B 32}
      {kemCt : List B} {usedEcOpkId : Option UInt32} {shared : PqxdhSharedSecret B}
      (hrun : bobProcess P identity spk oneTimeEc pqSecret pq initiator aliceEk kemCt usedEcOpkId =
        .ok shared)
      (hik : identity.publicKey P = responder) : HandshakeAd P initiator responder pq shared.ad

/-- Both sides compute the same function of the identities and the KEM key. -/
theorem HandshakeAd.eq_pqxdhAd {ik ik' : Block B 32} {pq : Block B 1184} {ad : List B}
    (h : HandshakeAd P ik ik' pq ad) : ad = pqxdhAd ik ik' pq := by
  cases h with
  | @initiated eka coins aliceIk bundle i hrun hik hbob hpq =>
    obtain ⟨-, -, hrun⟩ := Except.bind_eq_ok.1 hrun
    obtain ⟨pq', hpq', hrun⟩ := Except.bind_eq_ok.1 hrun
    obtain ⟨⟨ss, ct⟩, -, hrun⟩ := Except.bind_eq_ok.1 hrun
    have hval : pq'.val = bundle.pqPrekeyPublic := by
      unfold kemPublicFromBytes at hpq'
      split at hpq'
      · split at hpq'
        · cases hpq'
          rfl
        · cases hpq'
      · cases hpq'
    have heq : pq' = pq := Subtype.ext (hval.trans hpq)
    cases hrun
    rw [heq, hik, hbob]
  | responded hrun hik =>
    obtain ⟨ct, -, hrun⟩ := Except.bind_eq_ok.1 hrun
    obtain ⟨dh4, -, hrun⟩ := Except.bind_eq_ok.1 hrun
    cases hrun
    rw [hik]

/-- A session that the handshake and the conversation of a context have set up. -/
structure Context.Of (P : Primitives B) (c : Context B) (s : LiveSession B) : Prop where
  /-- The session binds the two identities and the KEM key. -/
  handshake : HandshakeAd P c.initiator c.responder c.pqPrekey s.handshakeAd
  /-- The session binds the conversation. -/
  conversation : s.conversation = c.conversation

/-- The lengths that the 32-bit fields hold. -/
structure Context.Fits (c : Context B) : Prop where
  /-- The conversation's length fits into its prefix. -/
  conversation : c.conversation.length < 2 ^ 32
  /-- The length of the associated data fits into its prefix. -/
  ad : c.ad.length < 2 ^ 32

/-- The associated data of a handshake has a fixed length, so that its parts cannot be shifted. -/
theorem length_pqxdhAd (ik ik' : Block B 32) (pq : Block B 1184) :
    (pqxdhAd ik ik' pq).length = 1251 := by
  simp [pqxdhAd, encodeEc, encodeKem]

section

variable {c c' : Context B} {s s' : LiveSession B}

/-- What a session binds is the handshake, the conversation and the caller's data, the first two
with their lengths. -/
theorem Context.boundAd_eq (hs : c.Of P s) :
    s.boundAd c.ad = Cursor.putVec (pqxdhAd c.initiator c.responder c.pqPrekey) ++
      (Cursor.putVec c.conversation ++ c.ad) := by
  rw [LiveSession.boundAd, hs.handshake.eq_pqxdhAd, hs.conversation, List.append_assoc]

/-- What is bound is short enough for the length in the message's associated data. -/
theorem Context.length_boundAd_lt (hs : c.Of P s) (hc : c.Fits) : (s.boundAd c.ad).length < 2 ^ 64 := by
  have hconv := hc.conversation
  have had := hc.ad
  rw [Context.boundAd_eq hs, List.length_append, List.length_append, Cursor.length_putVec,
    Cursor.length_putVec, length_pqxdhAd]
  omega

/-- `bound_ad` determines the context. -/
theorem Context.boundAd_inj (hs : c.Of P s) (hs' : c'.Of P s') (hc : c.Fits) (hc' : c'.Fits)
    (h : s.boundAd c.ad = s'.boundAd c'.ad) : c = c' := by
  have hlen := length_pqxdhAd c.initiator c.responder c.pqPrekey
  have hlen' := length_pqxdhAd c'.initiator c'.responder c'.pqPrekey
  rw [Context.boundAd_eq hs, Context.boundAd_eq hs'] at h
  obtain ⟨hhandshake, hrest⟩ := putVec_append_inj (by omega) (by omega) h
  obtain ⟨hconv, had⟩ := putVec_append_inj hc.conversation hc'.conversation hrest
  obtain ⟨hik, hik', hpq⟩ := pqxdhAd_inj hhandshake
  cases c
  cases c'
  cases hik
  cases hik'
  cases hpq
  cases hconv
  cases had
  rfl

/-- The length of `bound_ad` in front of it keeps it apart from the header. -/
theorem Context.prefixed_inj {rest rest' : List B} (hs : c.Of P s) (hs' : c'.Of P s') (hc : c.Fits)
    (hc' : c'.Fits)
    (h : le 8 (s.boundAd c.ad).length ++ s.boundAd c.ad ++ rest =
      le 8 (s'.boundAd c'.ad).length ++ s'.boundAd c'.ad ++ rest') : c = c' ∧ rest = rest' := by
  obtain ⟨hbound, hrest⟩ := lengthPrefix_inj (Context.length_boundAd_lt hs hc)
    (Context.length_boundAd_lt hs' hc') h
  exact ⟨Context.boundAd_inj hs hs' hc hc' hbound, hrest⟩

/-- **The associated data binds the whole context.** In each of the three ratchets, the bytes that are
authenticated with a message determine its context and its header. -/
theorem associated_data_binds (hs : c.Of P s) (hs' : c'.Of P s') (hc : c.Fits) (hc' : c'.Fits) :
    (∀ h h' : Header B, concatAd (s.boundAd c.ad) h = concatAd (s'.boundAd c'.ad) h' →
      c = c' ∧ h = h') ∧
    (∀ h h' : List B, concatAdHe (s.boundAd c.ad) h = concatAdHe (s'.boundAd c'.ad) h' →
      c = c' ∧ h = h') ∧
    (∀ h h' : TripleHeader B, concatTripleAd (s.boundAd c.ad) h = concatTripleAd (s'.boundAd c'.ad) h' →
      c = c' ∧ h = h') := by
  refine ⟨?_, ?_, ?_⟩
  · intro h h' heq
    obtain ⟨hctx, hheader⟩ := Context.prefixed_inj hs hs' hc hc' heq
    exact ⟨hctx, Header.encode_injective hheader⟩
  · intro h h' heq
    exact Context.prefixed_inj hs hs' hc hc' heq
  · intro h h' heq
    obtain ⟨hctx, hheader⟩ := Context.prefixed_inj hs hs' hc hc' heq
    exact ⟨hctx, TripleHeader.encode_injective hheader⟩

end

namespace Symbolic

open VoiceChatCrypto.Sym

/-- The context of a handshake between the secrets 1 and 2, in a conversation. -/
def context (conv : List Sym) : Context Sym where
  initiator := symbolic.publicKey (block 31 (.lit 1))
  responder := symbolic.publicKey (block 31 (.lit 2))
  pqPrekey := symbolic.kemPublic (block 63 (.lit 3))
  conversation := conv
  ad := []

/-- The session of the responder. -/
def responder (conv : List Sym) : LiveSession Sym where
  ratchet := .classical (DoubleRatchetState.initBob (Block.zero 32) (block 31 (.lit 4)) 0)
  remoteIdentity := (context conv).initiator
  conversation := conv
  identityTracker := IdentityTracker.new
  handshakeAd := pqxdhAd (context conv).initiator (context conv).responder (context conv).pqPrekey

/-- The responder of the example has the context of the example. -/
theorem context_of_responder (conv : List Sym) : (context conv).Of symbolic (responder conv) := by
  have hct : kemCiphertextFromBytes (Block.zero 1088 : Block Sym 1088).val = .ok (Block.zero 1088) :=
    dif_pos (Block.length_val _)
  have hrun : ∃ sk, bobProcess symbolic ⟨block 31 (.lit 2)⟩ ⟨1, block 31 (.lit 4), Block.zero 64⟩ none
      (block 63 (.lit 3)) (context conv).pqPrekey (context conv).initiator (Block.zero 32)
      (Block.zero 1088).val none = .ok ⟨sk, (responder conv).handshakeAd⟩ := by
    unfold bobProcess
    rw [hct]
    exact ⟨_, rfl⟩
  obtain ⟨sk, hrun⟩ := hrun
  exact ⟨.responded hrun rfl, rfl⟩

end Symbolic

open Symbolic in
/-- Messages of two conversations are authenticated with different bytes, whatever their headers. -/
theorem associated_data_binds_conversations :
    (context []).Of symbolic (responder []) ∧
      (context [.lit 0]).Of symbolic (responder [.lit 0]) ∧
      ∀ h h' : Header Sym, concatAd ((responder []).boundAd []) h ≠
        concatAd ((responder [.lit 0]).boundAd []) h' := by
  refine ⟨context_of_responder [], context_of_responder [.lit 0], fun h h' heq ↦ ?_⟩
  have hbinds := (associated_data_binds (context_of_responder []) (context_of_responder [.lit 0])
    ⟨by decide, by decide⟩ ⟨by decide, by decide⟩).1 h h' heq
  cases congrArg Context.conversation hbinds.1

end VoiceChatCrypto
