import VoiceChatCrypto.Data.Party
import VoiceChatCrypto.Data.System
import VoiceChatCrypto.Primitives.Symbolic
import VoiceChatCrypto.Ratchet.HeaderLadder

/-!
# Header-encryption agreement under an arbitrary network

The setting of `Ratchet/Agreement.lean` for the header-encrypting ratchet: two parties initialised from
one secret and two header keys, and a network that may deliver anything to anyone. The order in which
a receiver tries its stored header keys is the network's choice as well.

A run is admissible when no header nonce is drawn twice and AEAD is **unforgeable**: a header that one
of the receiver's header keys opens was sealed under that key, and so was a body.

A header says nothing to the network, so what a party has accepted is recorded by position
(`Coherent.taken`): chain and message number. A sealed header identifies its message because its
nonce does.
-/

open Alphabet

namespace VoiceChatCrypto

variable {B : Type} [Alphabet B]

/-- A message that was sent, with the header and the nonce that were sealed into it. -/
structure HeaderMessage (B : Type) where
  /-- Who has sent it. -/
  sender : Party
  /-- Its header, before encryption. -/
  header : Header B
  /-- The nonce that was drawn for the header. -/
  nonce : Block B 12
  /-- The encrypted header. -/
  encHeader : List B
  /-- Its ciphertext. -/
  ct : List B
  /-- The associated data it was sealed with. -/
  ad : List B
  /-- Its plaintext. -/
  pt : List B

/-- Something handed to a party by the network. -/
structure HeaderDelivery (B : Type) where
  /-- Who gets it. -/
  receiver : Party
  /-- The encrypted header, as it arrives. -/
  encHeader : List B
  /-- The ciphertext, as it arrives. -/
  ct : List B
  /-- The associated data the receiver expects. -/
  ad : List B
  deriving DecidableEq

/-- The delivery is of this message, by the peer, with the associated data it was sealed with. -/
structure HeaderDelivery.Carries (d : HeaderDelivery B) (m : HeaderMessage B) : Prop where
  /-- It is of the receiver's peer. -/
  sender : m.sender = d.receiver.peer
  /-- The header has not been changed. -/
  encHeader : d.encHeader = m.encHeader
  /-- Nor has the ciphertext. -/
  ct : d.ct = m.ct
  /-- Both have used the same associated data. -/
  ad : d.ad = m.ad

/-- A conversation and its history. As headers are encrypted, a message does not name its chain: the
receiver finds it by trying its header keys. -/
structure HeaderNet (B : Type) [Alphabet B] where
  /-- The two ratchet states. -/
  state : Party → HeaderEncryptState B
  /-- The messages sent. -/
  sent : List (HeaderMessage B)
  /-- The AEAD seals made: key, nonce, ciphertext, associated data. -/
  sealed : List (Block B 32 × Block B 12 × List B × List B)
  /-- The deliveries made. -/
  delivered : List (HeaderDelivery B)
  /-- The deliveries that returned a plaintext. -/
  accepted : List (HeaderDelivery B)

namespace HeaderNet

open HeaderEncryptState

variable (P : Primitives B)

/-- The start of a conversation: `init_alice` and `init_bob` with the same keys, where `a` is the
ratchet secret drawn by the former and `b` the key pair of the latter. -/
def init (sk a b hka nhkb : Block B 32) (maxSkip : UInt32) : HeaderNet B where
  state
    | .alice => initAlice P a sk (P.publicKey b) hka nhkb maxSkip
    | .bob => initBob sk b hka nhkb maxSkip
  sent := []
  sealed := []
  delivered := []
  accepted := []

/-- The conversation after a message was sent: two seals were made. -/
def send (net : HeaderNet B) (m : HeaderMessage B) (hk msgKey : Block B 32)
    (s : HeaderEncryptState B) : HeaderNet B :=
  { net with
    state := Function.update net.state m.sender s
    sent := m :: net.sent
    sealed := (hk, m.nonce, m.encHeader.drop 12, []) ::
      (msgKey, deriveNonce msgKey, m.ct, concatAdHe m.ad m.encHeader) :: net.sealed }

/-- What a delivery returns, and the state it leaves the receiver in. -/
def receive (net : HeaderNet B) (σ : Enumeration) (fresh : Block B 32) (d : HeaderDelivery B) :
    Except PrimitiveError (List B) × HeaderEncryptState B :=
  decrypt P σ fresh d.encHeader d.ct d.ad (net.state d.receiver)

/-- The conversation after a delivery. -/
def deliver (net : HeaderNet B) (σ : Enumeration) (fresh : Block B 32) (d : HeaderDelivery B) :
    HeaderNet B :=
  { net with
    state := Function.update net.state d.receiver (net.receive P σ fresh d).2
    delivered := d :: net.delivered
    accepted := if (net.receive P σ fresh d).1.isOk then d :: net.accepted else net.accepted }

/-- The conversation after a delivery that was accepted. -/
def accepting (net : HeaderNet B) (d : HeaderDelivery B) (s : HeaderEncryptState B) : HeaderNet B :=
  { net with
    state := Function.update net.state d.receiver s
    delivered := d :: net.delivered
    accepted := d :: net.accepted }

/-- The conversation after a delivery that was refused. -/
def refusing (net : HeaderNet B) (d : HeaderDelivery B) : HeaderNet B :=
  { net with delivered := d :: net.delivered }

/-- **The AEAD queries a delivery makes succeed only on earlier seals.** -/
structure Unforged (net : HeaderNet B) (σ : Enumeration) (fresh : Block B 32)
    (d : HeaderDelivery B) : Prop where
  /-- A header that a key of the receiver opens was sealed under that key. -/
  header : ∀ hk nonce hct plain, (net.state d.receiver).Holds hk →
    d.encHeader = (nonce : Block B 12).val ++ hct → aeadOpen P hk nonce hct [] = .ok plain →
    (hk, nonce, hct, []) ∈ net.sealed
  /-- A body that the key for it opens was sealed under that key. -/
  body : ∀ msgKey trial pt,
    receiveKey P σ fresh d.encHeader (net.state d.receiver) = .ok (msgKey, trial) →
    aeadOpen P msgKey (deriveNonce msgKey) d.ct (concatAdHe d.ad d.encHeader) = .ok pt →
    (msgKey, deriveNonce msgKey, d.ct, concatAdHe d.ad d.encHeader) ∈ net.sealed

/-- One step of a conversation: a successful `encrypt` at either party, with a header nonce that was
not drawn before, or a delivery of anything to either party. -/
inductive Step : HeaderNet B → HeaderNet B → Prop
  | send {net : HeaderNet B} {m : HeaderMessage B} {cks dhs hks : Block B 32}
      {s : HeaderEncryptState B} (hnonce : m.nonce ∉ net.sent.map HeaderMessage.nonce)
      (hcks : (net.state m.sender).cks = some cks) (hdhs : (net.state m.sender).dhs = some dhs)
      (hhks : (net.state m.sender).hks = some hks)
      (hheader : m.header =
        { dh := P.publicKey dhs, pn := (net.state m.sender).pn, n := (net.state m.sender).ns })
      (henc : encrypt P m.nonce (net.state m.sender) m.pt m.ad = .ok ((m.encHeader, m.ct), s)) :
      Step net (net.send m hks (kdfCkHe P cks).2 s)
  | deliver {net : HeaderNet B} {σ : Enumeration} {fresh : Block B 32} {d : HeaderDelivery B}
      (hauth : net.Unforged P σ fresh d) : Step net (net.deliver P σ fresh d)

/-- The conversations of a pair of parties. -/
def conversation (sk b hka nhkb : Block B 32) (maxSkip : UInt32) : System (HeaderNet B) where
  start net := ∃ a, net = init P sk a b hka nhkb maxSkip
  step := Step P

/-! ### The invariant -/

/-- Message `m` sits on chain `i`, below its sender's rung: its header was sealed under the chain's
header key, and its body under the key of the position. -/
structure SitsOn (L : HeaderLadder B) (rung : Party → ℕ) (len : ℕ → ℕ) (m : HeaderMessage B)
    (i : ℕ) : Prop where
  /-- The chain is one of the sender's. -/
  parity : (i + 1) % 2 = m.sender.parity
  /-- The sender has come to the chain. -/
  rung : i + 1 ≤ rung m.sender
  /-- The header names the chain's ratchet key. -/
  dh : m.header.dh = L.pub P (i + 1)
  /-- It tells the length of the sender's chain before. -/
  pn : m.header.pn.toNat = sentBefore len (i + 1)
  /-- Its position has been used. -/
  n : m.header.n.toNat < len i
  /-- The header was sealed under the chain's header key. -/
  header : ∃ hct, m.encHeader = m.nonce.val ++ hct ∧
    aeadSeal P (L.headerKey P i) m.nonce m.header.encode [] = .ok hct
  /-- The ciphertext was sealed under the key of the position. -/
  sealed : aeadSeal P (L.keyHe P i m.header.n.toNat) (deriveNonce (L.keyHe P i m.header.n.toNat))
    m.pt (concatAdHe m.ad m.encHeader) = .ok m.ct

/-- What the invariant keeps of a run: the ladder, the rungs, the lengths of the chains, the chain of
each message by its nonce, and the positions accepted. -/
structure Ghost (B : Type) where
  /-- The secrets drawn so far, in the order of the rungs. -/
  ladder : HeaderLadder B
  /-- How far each party has climbed. -/
  rung : Party → ℕ
  /-- How many messages were sent on each chain. -/
  len : ℕ → ℕ
  /-- The chain of the message with a nonce. -/
  chain : Block B 12 → ℕ
  /-- The positions of each chain whose message a party has accepted. -/
  taken : Party → ℕ → ℕ → Prop

/-- **Coherence** of a conversation: both parties climb one ladder, in turn, every message sits on a
chain of it, and the chain of a message can be told from its nonce. -/
structure Coherent (net : HeaderNet B) (G : Ghost B) : Prop where
  /-- The keys at the foot of the ladder are none of its own. -/
  separate : G.ladder.Separate P
  /-- Each party stands on its rung. -/
  onRung : ∀ p, OnHeaderRung P G.ladder G.len (G.rung p) (G.taken p) (net.state p)
  /-- The parties climb in turn. -/
  parity : ∀ p, G.rung p % 2 = p.parity
  /-- Neither is more than one rung ahead. -/
  adjacent : ∀ p, G.rung p ≤ G.rung p.peer + 1
  /-- Nothing was sent on a chain above both parties. -/
  len_eq_zero : ∀ i, (∀ p, G.rung p ≤ i) → G.len i = 0
  /-- Every message sits on its chain. -/
  sent : ∀ m ∈ net.sent, SitsOn P G.ladder G.rung G.len m (G.chain m.nonce)
  /-- Every seal belongs to a message. -/
  sealed : ∀ e ∈ net.sealed, ∃ m ∈ net.sent,
    e = (G.ladder.headerKey P (G.chain m.nonce), m.nonce, m.encHeader.drop 12, []) ∨
    e = (G.ladder.keyHe P (G.chain m.nonce) m.header.n.toNat,
      deriveNonce (G.ladder.keyHe P (G.chain m.nonce) m.header.n.toNat), m.ct,
      concatAdHe m.ad m.encHeader)
  /-- No two messages share a nonce. -/
  nonce : ∀ m ∈ net.sent, ∀ m' ∈ net.sent, m.nonce = m'.nonce → m = m'
  /-- No two messages share a position. -/
  position : ∀ m ∈ net.sent, ∀ m' ∈ net.sent, G.chain m.nonce = G.chain m'.nonce →
    m.header.n = m'.header.n → m = m'
  /-- Only messages of the peer were accepted. -/
  accepted : ∀ d ∈ net.accepted, ∃ m ∈ net.sent, d.Carries m
  /-- A position is taken when its message was accepted. -/
  taken : ∀ m ∈ net.sent, G.taken m.sender.peer (G.chain m.nonce) m.header.n.toNat ↔
    ∃ d ∈ net.accepted, d.Carries m

variable {P} {net : HeaderNet B} {G : Ghost B}

/-- A new conversation is coherent when its keys are separate. -/
theorem coherent_init {sk a b hka nhkb : Block B 32} {maxSkip : UInt32}
    (hsep : SeparateKeys P sk hka nhkb) :
    (init P sk a b hka nhkb maxSkip).Coherent P
      { ladder := ⟨⟨sk, fun i ↦ if i = 0 then b else a⟩, hka, nhkb⟩
        rung := Party.parity
        len := fun _ ↦ 0
        chain := fun _ ↦ 0
        taken := fun _ _ _ ↦ False } where
  separate := hsep
  onRung p := by
    have hstore : ∀ (L : HeaderLadder B) (ℓ : ℕ), ℓ < 2 → Stores (L.headerKey P) (L.keyHe P)
        (fun _ ↦ 0) ℓ 0 (fun _ _ ↦ False) (∅ : Dict (Block B 32 × UInt32) (Block B 32)) := by
      intro L ℓ hℓ
      refine ⟨fun d n v ↦ ⟨nofun, ?_⟩, fun _ _ h ↦ h.elim⟩
      rintro ⟨i, hi, -⟩
      have := Stores.lt_of_passed hi
      omega
    cases p with
    | alice => exact ⟨rfl, rfl, rfl, rfl, rfl, rfl, rfl, rfl, rfl, rfl, le_refl 0, hstore _ 1 (by decide)⟩
    | bob => exact ⟨rfl, rfl, rfl, rfl, rfl, rfl, rfl, rfl, rfl, rfl, le_refl 0, hstore _ 0 (by decide)⟩
  parity p := by cases p <;> rfl
  adjacent p := by
    show p.parity ≤ p.peer.parity + 1
    cases p <;> decide
  len_eq_zero _ _ := rfl
  sent _ hm := by cases hm
  sealed _ he := by cases he
  nonce _ hm := by cases hm
  position _ hm := by cases hm
  accepted _ hd := by cases hd
  taken _ hm := by cases hm

/-! ### Messages -/

/-- Reading a message back along a longer ladder. -/
theorem SitsOn.climb {L : HeaderLadder B} {rung rung' : Party → ℕ} {len : ℕ → ℕ}
    {m : HeaderMessage B} {x : Block B 32} {i k : ℕ} (hm : SitsOn P L rung len m i)
    (hk : ∀ p, rung p < k) (hrung : ∀ p, rung p ≤ rung' p) :
    SitsOn P (L.climb k x) rung' len m i := by
  have hik : i + 1 < k := hm.rung.trans_lt (hk _)
  exact
    { parity := hm.parity
      rung := hm.rung.trans (hrung _)
      dh := by rw [hm.dh]; exact (Ladder.pub_extend hik).symm
      pn := hm.pn
      n := hm.n
      header := by
        rw [HeaderLadder.headerKey_climb (by omega)]
        exact hm.header
      sealed := by
        rw [HeaderLadder.keyHe_climb hik]
        exact hm.sealed }

section Message

variable {L : HeaderLadder B} {rung : Party → ℕ} {len : ℕ → ℕ} {m : HeaderMessage B} {i : ℕ}

/-- The sealed header of a message is its nonce and a seal. -/
theorem SitsOn.nonce_append (hm : SitsOn P L rung len m i) :
    m.nonce.val ++ m.encHeader.drop 12 = m.encHeader := by
  obtain ⟨hct, henc, -⟩ := hm.header
  rw [henc, List.drop_left' (Block.length_val _)]

/-- The header of a message opens under the header key of its chain. -/
theorem SitsOn.hdecrypt (hP : IdealDh P) (haead : IdealAead P) (hm : SitsOn P L rung len m i) :
    hdecrypt P (L.headerKey P i) m.encHeader = .ok m.header := by
  obtain ⟨hct, henc, hseal⟩ := hm.header
  rw [henc]
  refine hdecrypt_seal haead ?_ hseal
  rw [hm.dh]
  exact hP.publicKey_ne_zero _

theorem SitsOn.length_encHeader (haead : IdealAead P) (hm : SitsOn P L rung len m i) :
    m.encHeader.length = 68 := by
  obtain ⟨hct, henc, hseal⟩ := hm.header
  rw [henc, List.length_append, Block.length_val, haead.length_seal hseal, Header.length_encode]

/-- Sealed headers that agree have one nonce. -/
theorem SitsOn.nonce_eq {m' : HeaderMessage B} {j : ℕ} (hm : SitsOn P L rung len m i)
    (hm' : SitsOn P L rung len m' j) (h : m.encHeader = m'.encHeader) : m.nonce = m'.nonce := by
  rw [← hm.nonce_append, ← hm'.nonce_append] at h
  exact Subtype.ext (List.append_inj h (by rw [Block.length_val, Block.length_val])).1

end Message

namespace Coherent

variable (h : net.Coherent P G)

include h

/-- The message sent on chain `i + 2` counts all of chain `i`: that one has stopped growing. -/
theorem sitsOn_update {m : HeaderMessage B} {p : Party} {i j x : ℕ}
    (hm : SitsOn P G.ladder G.rung G.len m j) (hi : G.rung p = i + 1) (hx : G.len i ≤ x) :
    SitsOn P G.ladder G.rung (Function.update G.len i x) m j where
  parity := hm.parity
  rung := hm.rung
  dh := hm.dh
  pn := by
    rw [hm.pn]
    match j, hm with
    | 0, _ | 1, _ => rfl
    | j + 2, hm =>
      rw [sentBefore, sentBefore, Function.update_of_ne]
      rintro rfl
      have hmod := hm.parity
      have hp := h.parity p
      have hrung := hm.rung
      rcases Party.eq_or_eq_peer m.sender p with heq | heq
      · rw [heq] at hrung
        omega
      · have := Party.eq_peer_iff.1 heq
        omega
  n := by
    have hn := hm.n
    rw [Function.update_apply]
    split
    · subst ‹j = i›
      omega
    · exact hn
  header := hm.header
  sealed := hm.sealed

/-- Nothing was sent on the chain a party would climb to next. -/
theorem len_above (p : Party) : G.len (G.rung p + 1) = 0 := by
  refine h.len_eq_zero _ fun q ↦ ?_
  rcases Party.eq_or_eq_peer q p with rfl | rfl
  · omega
  · have := h.adjacent p.peer
    rwa [Party.peer_peer] at this

/-- The end of a chain lies behind nobody. -/
theorem not_passed_len {q : Party} {i n : ℕ} (hn : n = G.len i) :
    ¬ Passed G.len (G.rung q) (net.state q).nr.toNat i n := by
  have hnr := (h.onRung q).nr
  rintro ⟨hmod, ⟨hq, hlt⟩ | ⟨hq, hlt⟩⟩
  · rw [← hq, receivableOn] at hnr
    omega
  · omega

/-- **Sending keeps coherence**: the message takes the next position of its chain, under a nonce
that no message had. -/
theorem send {m : HeaderMessage B} {cks dhs hks : Block B 32} {s : HeaderEncryptState B}
    (hnonce : m.nonce ∉ net.sent.map HeaderMessage.nonce)
    (hcks : (net.state m.sender).cks = some cks) (hdhs : (net.state m.sender).dhs = some dhs)
    (hhks : (net.state m.sender).hks = some hks)
    (hheader : m.header =
      { dh := P.publicKey dhs, pn := (net.state m.sender).pn, n := (net.state m.sender).ns })
    (henc : encrypt P m.nonce (net.state m.sender) m.pt m.ad = .ok ((m.encHeader, m.ct), s)) :
    ∃ G', (net.send m hks (kdfCkHe P cks).2 s).Coherent P G' := by
  obtain ⟨cks', dhs', hks', ns, hcks', hdhs', hhks', hinc, hhenc, hbody, rfl⟩ := encrypt_eq_ok henc
  obtain ⟨hct, hsealed, henc'⟩ := hencrypt_eq_ok hhenc
  cases hcks.symm.trans hcks'
  cases hdhs.symm.trans hdhs'
  cases hhks.symm.trans hhks'
  obtain ⟨i, hi, hpub, rfl, hpn, hns, hkey, hon⟩ := (h.onRung m.sender).send hcks hdhs hhks hinc
  rw [← hheader] at hsealed
  have hn : m.header.n.toNat = G.len i := by rw [hheader, hns]
  have hother : ∀ m' ∈ net.sent, m'.nonce ≠ m.nonce := fun m' hm' heq ↦
    hnonce (heq ▸ List.mem_map_of_mem hm')
  have hnew : SitsOn P G.ladder G.rung (Function.update G.len i (G.len i + 1)) m i :=
    { parity := by rw [← hi, h.parity]
      rung := by rw [hi]
      dh := by rw [hheader, hpub]
      pn := by
        rw [hheader]
        dsimp only
        rw [hpn]
        match i with
        | 0 | 1 => rfl
        | i + 2 => rw [sentBefore, sentBefore, Function.update_of_ne (by omega)]
      n := by
        rw [Function.update_self]
        omega
      header := ⟨hct, henc', hsealed⟩
      sealed := by
        rw [hn, ← hkey]
        exact hbody }
  have hself : Function.update G.chain m.nonce i m.nonce = i := Function.update_self ..
  have hchain : ∀ m' ∈ net.sent, Function.update G.chain m.nonce i m'.nonce = G.chain m'.nonce :=
    fun m' hm' ↦ Function.update_of_ne (hother m' hm') ..
  -- the new message stands behind all earlier ones of its chain
  have hbehind : ∀ m' ∈ net.sent, G.chain m'.nonce = i → m'.header.n ≠ m.header.n := by
    rintro m' hm' rfl heq
    have hlt := (h.sent m' hm').n
    rw [heq] at hlt
    omega
  refine ⟨{ G with
    len := Function.update G.len i (G.len i + 1)
    chain := Function.update G.chain m.nonce i }, ?_⟩
  exact
    { separate := h.separate
      onRung := by
        intro q
        rcases Party.eq_or_eq_peer q m.sender with rfl | hpeer
        · simp only [HeaderNet.send, Function.update_self]
          exact hon
        · have hne := Party.eq_peer_iff.1 hpeer
          have hparity := h.parity q
          have hparity' := h.parity m.sender
          have hadj := h.adjacent q
          rw [hpeer, Party.peer_peer, ← hpeer] at hadj
          simp only [HeaderNet.send]
          rw [Function.update_of_ne (by rintro rfl; exact hne rfl)]
          exact (h.onRung q).grow (by omega) (by omega) (by omega)
      parity := h.parity
      adjacent := h.adjacent
      len_eq_zero := by
        intro j hj
        have hle : G.rung m.sender ≤ j := hj m.sender
        dsimp only
        rw [Function.update_of_ne (by omega), h.len_eq_zero j hj]
      sent := by
        intro m' hm'
        dsimp only
        rcases List.mem_cons.1 hm' with rfl | hm'
        · rw [hself]
          exact hnew
        · rw [hchain m' hm']
          exact h.sitsOn_update (h.sent m' hm') hi (by omega)
      sealed := by
        intro e he
        dsimp only
        rcases List.mem_cons.1 he with rfl | he
        · exact ⟨m, List.mem_cons_self, .inl (by rw [hself])⟩
        rcases List.mem_cons.1 he with rfl | he
        · exact ⟨m, List.mem_cons_self, .inr (by rw [hself, hn, hkey])⟩
        · obtain ⟨m', hm', hseal⟩ := h.sealed e he
          refine ⟨m', List.mem_cons_of_mem _ hm', ?_⟩
          rw [hchain m' hm']
          exact hseal
      nonce := by
        intro m₁ h₁ m₂ h₂ heq
        rcases List.mem_cons.1 h₁ with rfl | hm₁ <;> rcases List.mem_cons.1 h₂ with rfl | hm₂
        · rfl
        · exact absurd heq.symm (hother m₂ hm₂)
        · exact absurd heq (hother m₁ hm₁)
        · exact h.nonce m₁ hm₁ m₂ hm₂ heq
      position := by
        intro m₁ h₁ m₂ h₂ heq hn'
        dsimp only at heq
        rcases List.mem_cons.1 h₁ with rfl | hm₁ <;> rcases List.mem_cons.1 h₂ with rfl | hm₂
        · rfl
        · rw [hself, hchain m₂ hm₂] at heq
          exact absurd hn'.symm (hbehind m₂ hm₂ heq.symm)
        · rw [hself, hchain m₁ hm₁] at heq
          exact absurd hn' (hbehind m₁ hm₁ heq)
        · rw [hchain m₁ hm₁, hchain m₂ hm₂] at heq
          exact h.position m₁ hm₁ m₂ hm₂ heq hn'
      accepted := by
        intro d hd
        obtain ⟨m', hm', hcar⟩ := h.accepted d hd
        exact ⟨m', List.mem_cons_of_mem _ hm', hcar⟩
      taken := by
        intro m' hm'
        dsimp only
        rcases List.mem_cons.1 hm' with rfl | hm'
        · -- nobody has accepted the new message
          rw [hself]
          constructor
          · intro htaken
            exact absurd ((h.onRung _).store.passed _ _ htaken) (h.not_passed_len hn)
          · rintro ⟨d, hd, hcar⟩
            obtain ⟨m₀, hm₀, hcar₀⟩ := h.accepted d hd
            have heq := hnew.nonce_eq (h.sitsOn_update (h.sent m₀ hm₀) hi (by omega))
              (hcar.encHeader.symm.trans hcar₀.encHeader)
            exact absurd heq.symm (hother m₀ hm₀)
        · rw [hchain m' hm']
          exact h.taken m' hm' }

/-! ### What opens was sealed -/

section Open

variable {σ : Enumeration} {fresh : Block B 32} {d : HeaderDelivery B}

/-- **A header that opens is the header of a message**, under the header key of its chain. -/
theorem sent_of_header (hP : IdealDh P) (haead : IdealAead P) (hauth : net.Unforged P σ fresh d)
    {hk : Block B 32} {header : Header B} (hheld : (net.state d.receiver).Holds hk)
    (hopen : hdecrypt P hk d.encHeader = .ok header) :
    ∃ m ∈ net.sent, d.encHeader = m.encHeader ∧ hk = G.ladder.headerKey P (G.chain m.nonce) ∧
      header = m.header := by
  obtain ⟨nonce, hct, plain, henc, haopen, -⟩ := hdecrypt_eq_ok hopen
  obtain ⟨m, hm, hseal | hseal⟩ := h.sealed _ (hauth.header hk nonce hct plain hheld henc haopen)
  · simp only [Prod.mk.injEq, and_true] at hseal
    obtain ⟨rfl, rfl, rfl⟩ := hseal
    have hsits := h.sent m hm
    rw [hsits.nonce_append] at henc
    rw [henc, hsits.hdecrypt hP haead] at hopen
    cases hopen
    exact ⟨m, hm, henc, rfl, rfl⟩
  · -- the associated data of a body is never empty
    simp only [Prod.mk.injEq] at hseal
    exact absurd hseal.2.2.2.symm (concatAdHe_ne_nil _ _)

/-- The header of a message opens to nothing else. -/
theorem header_unique (hP : IdealDh P) (haead : IdealAead P) (hauth : net.Unforged P σ fresh d)
    {m : HeaderMessage B} (hm : m ∈ net.sent) (henc : d.encHeader = m.encHeader) {hk : Block B 32}
    {header : Header B} (hheld : (net.state d.receiver).Holds hk)
    (hopen : hdecrypt P hk d.encHeader = .ok header) :
    hk = G.ladder.headerKey P (G.chain m.nonce) ∧ header = m.header := by
  obtain ⟨m', hm', henc', hhk, hheader⟩ := h.sent_of_header hP haead hauth hheld hopen
  have hnonce := (h.sent m' hm').nonce_eq (h.sent m hm) (henc'.symm.trans henc)
  obtain rfl := h.nonce m' hm' m hm hnonce
  exact ⟨hhk, hheader⟩

/-- **A body that opens is the body of a message**, under the sealed header of that message. -/
theorem sent_of_body (hP : IdealDh P) (haead : IdealAead P) (hauth : net.Unforged P σ fresh d)
    {msgKey : Block B 32} {trial : HeaderEncryptState B} {pt : List B}
    (hkey : receiveKey P σ fresh d.encHeader (net.state d.receiver) = .ok (msgKey, trial))
    (hopen : aeadOpen P msgKey (deriveNonce msgKey) d.ct (concatAdHe d.ad d.encHeader) = .ok pt) :
    ∃ m ∈ net.sent, d.encHeader = m.encHeader ∧ d.ct = m.ct ∧ d.ad = m.ad ∧ pt = m.pt ∧
      msgKey = G.ladder.keyHe P (G.chain m.nonce) m.header.n.toNat := by
  obtain ⟨m₀, hm₀, henc⟩ : ∃ m₀ ∈ net.sent, d.encHeader = m₀.encHeader := by
    obtain ⟨hk, header, hheld, hdec⟩ := exists_holds_of_receiveKey hkey
    obtain ⟨m₀, hm₀, henc, -⟩ := h.sent_of_header hP haead hauth hheld hdec
    exact ⟨m₀, hm₀, henc⟩
  obtain ⟨m, hm, hseal | hseal⟩ := h.sealed _ (hauth.body msgKey trial pt hkey hopen)
  · simp only [Prod.mk.injEq] at hseal
    exact absurd hseal.2.2.2 (concatAdHe_ne_nil _ _)
  · simp only [Prod.mk.injEq] at hseal
    obtain ⟨rfl, -, hct, had⟩ := hseal
    obtain ⟨had, hencm⟩ := concatAdHe_inj (by rw [henc, (h.sent m₀ hm₀).length_encHeader haead,
      (h.sent m hm).length_encHeader haead]) had
    refine ⟨m, hm, hencm, hct, had, ?_, rfl⟩
    rw [hct, had, hencm, haead.open_seal (h.sent m hm).sealed] at hopen
    cases hopen
    rfl

end Open

/-! ### Acceptance -/

section Accept

variable {d : HeaderDelivery B} {m : HeaderMessage B} {s : HeaderEncryptState B}

/-- The positions taken once a message is accepted. -/
theorem taken_accepting (hm : m ∈ net.sent) (hcar : d.Carries m) {m' : HeaderMessage B}
    (hm' : m' ∈ net.sent) :
    Function.update G.taken d.receiver
        (Stores.take (G.taken d.receiver) (G.chain m.nonce) m.header.n.toNat) m'.sender.peer
        (G.chain m'.nonce) m'.header.n.toNat ↔
      ∃ d' ∈ d :: net.accepted, d'.Carries m' := by
  have hpeer : m.sender.peer = d.receiver := by rw [hcar.sender, Party.peer_peer]
  have hself : d.Carries m' ↔ m' = m := by
    constructor
    · intro hcar'
      have heq := hcar'.encHeader.symm.trans hcar.encHeader
      exact h.nonce m' hm' m hm ((h.sent m' hm').nonce_eq (h.sent m hm) heq)
    · rintro rfl
      exact hcar
  have hold := h.taken m' hm'
  simp only [List.mem_cons, exists_eq_or_imp, hself]
  rw [← hold, Function.update_apply]
  split
  · rename_i hrec
    rw [hrec, Stores.take, or_comm]
    refine or_congr_left ?_
    constructor
    · rintro ⟨hchain, hn⟩
      exact h.position m' hm' m hm hchain (UInt32.toNat_inj.1 hn)
    · rintro rfl
      exact ⟨rfl, rfl⟩
  · rename_i hrec
    refine ⟨.inr, ?_⟩
    rintro (rfl | htaken)
    · exact absurd hpeer hrec
    · exact htaken

/-- **Accepting a message on a chain already open.** -/
theorem accepting_stay (hm : m ∈ net.sent) (hcar : d.Carries m)
    (hon : OnHeaderRung P G.ladder G.len (G.rung d.receiver)
      (Stores.take (G.taken d.receiver) (G.chain m.nonce) m.header.n.toNat) s) :
    ∃ G', (net.accepting d s).Coherent P G' := by
  refine ⟨{ G with
    taken := Function.update G.taken d.receiver
      (Stores.take (G.taken d.receiver) (G.chain m.nonce) m.header.n.toNat) }, ?_⟩
  exact
    { separate := h.separate
      onRung := by
        intro q
        dsimp only [accepting]
        by_cases hq : q = d.receiver
        · subst hq
          rw [Function.update_self, Function.update_self]
          exact hon
        · rw [Function.update_of_ne hq, Function.update_of_ne hq]
          exact h.onRung q
      parity := h.parity
      adjacent := h.adjacent
      len_eq_zero := h.len_eq_zero
      sent := h.sent
      sealed := h.sealed
      nonce := h.nonce
      position := h.position
      accepted := by
        intro d' hd'
        rcases List.mem_cons.1 hd' with rfl | hd'
        · exact ⟨m, hm, hcar⟩
        · exact h.accepted d' hd'
      taken := fun _ hm' ↦ h.taken_accepting hm hcar hm' }

/-- **Accepting the first message of a new chain**: the receiver climbs two rungs. -/
theorem accepting_climb {fresh : Block B 32} (hm : m ∈ net.sent) (hcar : d.Carries m)
    (hpeer : G.rung d.receiver + 1 ≤ G.rung d.receiver.peer)
    (hon : OnHeaderRung P (G.ladder.climb (G.rung d.receiver + 2) fresh) G.len
      (G.rung d.receiver + 2)
      (Stores.take (G.taken d.receiver) (G.chain m.nonce) m.header.n.toNat) s) :
    ∃ G', (net.accepting d s).Coherent P G' := by
  have hadj := h.adjacent d.receiver.peer
  rw [Party.peer_peer] at hadj
  have hlt : ∀ q, G.rung q < G.rung d.receiver + 2 := fun q ↦ by
    have := Party.le_max G.rung d.receiver q
    omega
  have hle : ∀ q, G.rung q ≤ Function.update G.rung d.receiver (G.rung d.receiver + 2) q := by
    intro q
    rw [Function.update_apply]
    split
    · subst ‹q = d.receiver›
      omega
    · exact le_refl _
  have hkey : ∀ m' ∈ net.sent, G.chain m'.nonce + 1 < G.rung d.receiver + 2 :=
    fun m' hm' ↦ (h.sent m' hm').rung.trans_lt (hlt _)
  refine ⟨{ G with
    ladder := G.ladder.climb (G.rung d.receiver + 2) fresh
    rung := Function.update G.rung d.receiver (G.rung d.receiver + 2)
    taken := Function.update G.taken d.receiver
      (Stores.take (G.taken d.receiver) (G.chain m.nonce) m.header.n.toNat) }, ?_⟩
  exact
    { separate := HeaderLadder.Separate.climb h.separate
      onRung := by
        intro q
        dsimp only [accepting]
        by_cases hq : q = d.receiver
        · subst hq
          rw [Function.update_self, Function.update_self, Function.update_self]
          exact hon
        · rw [Function.update_of_ne hq, Function.update_of_ne hq, Function.update_of_ne hq]
          exact (h.onRung q).climb (hlt q)
      parity := by
        intro q
        have hq := h.parity q
        dsimp only
        rw [Function.update_apply]
        split
        · subst ‹q = d.receiver›
          omega
        · exact hq
      adjacent := by
        intro q
        have hne : d.receiver.peer ≠ d.receiver := by cases d.receiver <;> decide
        dsimp only
        rcases Party.eq_or_eq_peer q d.receiver with rfl | rfl
        · rw [Function.update_self, Function.update_of_ne hne]
          omega
        · rw [Party.peer_peer, Function.update_self, Function.update_of_ne hne]
          omega
      len_eq_zero := fun i hi ↦ h.len_eq_zero i fun q ↦ (hle q).trans (hi q)
      sent := fun m' hm' ↦ (h.sent m' hm').climb hlt hle
      sealed := by
        intro e he
        obtain ⟨m', hm', hseal⟩ := h.sealed e he
        refine ⟨m', hm', ?_⟩
        dsimp only
        rw [HeaderLadder.headerKey_climb (by have := hkey m' hm'; omega),
          HeaderLadder.keyHe_climb (hkey m' hm')]
        exact hseal
      nonce := h.nonce
      position := h.position
      accepted := by
        intro d' hd'
        rcases List.mem_cons.1 hd' with rfl | hd'
        · exact ⟨m, hm, hcar⟩
        · exact h.accepted d' hd'
      taken := fun _ hm' ↦ h.taken_accepting hm hcar hm' }

end Accept

/-- **Only a new message of the peer is accepted**, with its plaintext, and coherence is kept. -/
theorem accept (hkdf : IdealKdf P) (hdh : IdealDh P) (haead : IdealAead P) {σ : Enumeration}
    {fresh msgKey : Block B 32} {d : HeaderDelivery B} {trial : HeaderEncryptState B} {pt : List B}
    (hauth : net.Unforged P σ fresh d)
    (hkey : receiveKey P σ fresh d.encHeader (net.state d.receiver) = .ok (msgKey, trial))
    (hopen : aeadOpen P msgKey (deriveNonce msgKey) d.ct (concatAdHe d.ad d.encHeader) = .ok pt) :
    (∃ m ∈ net.sent, d.Carries m ∧ pt = m.pt) ∧ d ∉ net.accepted ∧
      ∃ G', (net.accepting d trial).Coherent P G' := by
  obtain ⟨m, hm, henc, hct, had, hpt, rfl⟩ := h.sent_of_body hdh haead hauth hkey hopen
  have hi := h.sent m hm
  obtain ⟨hmod, hnot, hon⟩ := (h.onRung d.receiver).receive hkdf hdh h.separate hi.dh hi.pn hi.n
    (fun _ ↦ h.len_above _)
    (fun hk header hheld hdec ↦ (h.header_unique hdh haead hauth hm henc hheld hdec).2) hkey
  have hpeer : m.sender = d.receiver.peer := by
    rw [Party.eq_peer_iff, ← hi.parity, ← h.parity]
    omega
  have hcar : d.Carries m := ⟨hpeer, henc, hct, had⟩
  refine ⟨⟨m, hm, hcar, hpt⟩, fun hacc ↦ hnot ?_, ?_⟩
  · have htaken := (h.taken m hm).2 ⟨d, hacc, hcar⟩
    rwa [hpeer, Party.peer_peer] at htaken
  · rcases hon with hon | ⟨hchain, hon⟩
    · exact h.accepting_stay hm hcar hon
    · refine h.accepting_climb hm hcar ?_ hon
      rw [← hchain, ← hpeer]
      exact hi.rung

theorem refusing (d : HeaderDelivery B) : (net.refusing d).Coherent P G :=
  { h with }

/-- **A message that was not accepted yet opens to its plaintext**, unless a limit is hit. -/
theorem open_of_carries (hkdf : IdealKdf P) (hdh : IdealDh P) (haead : IdealAead P) {σ : Enumeration}
    {fresh : Block B 32} {d : HeaderDelivery B} {m : HeaderMessage B}
    (hauth : net.Unforged P σ fresh d) (hm : m ∈ net.sent) (hcar : d.Carries m)
    (hacc : d ∉ net.accepted) :
    (net.receive P σ fresh d).1 = .ok m.pt ∨
      ∃ e, e.IsBound ∧ net.receive P σ fresh d = (.error e, net.state d.receiver) := by
  have hi := h.sent m hm
  have hparity := h.parity d.receiver
  have hne := Party.eq_peer_iff.1 hcar.sender
  have hadj := h.adjacent d.receiver.peer
  rw [Party.peer_peer] at hadj
  have hrung := hi.rung
  rw [hcar.sender] at hrung
  have hmod : G.chain m.nonce % 2 = G.rung d.receiver % 2 := by
    have := hi.parity
    omega
  have hnot : ¬ G.taken d.receiver (G.chain m.nonce) m.header.n.toNat := by
    intro htaken
    have hiff := h.taken m hm
    rw [hcar.sender, Party.peer_peer] at hiff
    obtain ⟨d', hd', hcar'⟩ := hiff.1 htaken
    obtain rfl : d' = d := by
      have hrec : d'.receiver = d.receiver := by
        rw [← Party.peer_peer d'.receiver, ← hcar'.sender, hcar.sender, Party.peer_peer]
      cases d'
      cases d
      simp only [HeaderDelivery.mk.injEq]
      exact ⟨hrec, hcar'.encHeader.trans hcar.encHeader.symm, hcar'.ct.trans hcar.ct.symm,
        hcar'.ad.trans hcar.ad.symm⟩
    exact hacc hd'
  have hdec := hi.hdecrypt hdh haead
  rw [← hcar.encHeader] at hdec
  have hfound := (h.onRung d.receiver).receive_genuine σ fresh hkdf hdh h.separate (by omega) hmod
    hi.dh hi.pn hi.n (h.len_above _) hnot hdec
    fun hk header hheld hopen ↦ h.header_unique hdh haead hauth hm hcar.encHeader hheld hopen
  unfold receive decrypt
  rcases hfound with ⟨e, hbound, hlimit⟩ | ⟨s', hkey⟩
  · rw [hlimit]
    exact .inr ⟨e, hbound, rfl⟩
  · rw [hkey]
    have hopen := haead.open_seal hi.sealed
    rw [← hcar.encHeader, ← hcar.ct, ← hcar.ad] at hopen
    dsimp only
    rw [hopen]
    exact .inl rfl

end Coherent

/-! ### Runs -/

/-- A delivery that returns a plaintext is accepted. -/
theorem deliver_of_ok {σ : Enumeration} {fresh : Block B 32} {d : HeaderDelivery B} {pt : List B}
    {s : HeaderEncryptState B} (h : net.receive P σ fresh d = (.ok pt, s)) :
    net.deliver P σ fresh d = net.accepting d s := by
  unfold deliver accepting
  rw [h]
  rfl

/-- A delivery that fails is refused, and leaves the receiver as it was. -/
theorem deliver_of_error {σ : Enumeration} {fresh : Block B 32} {d : HeaderDelivery B}
    {e : PrimitiveError} (h : net.receive P σ fresh d = (.error e, net.state d.receiver)) :
    net.deliver P σ fresh d = net.refusing d := by
  unfold deliver refusing
  rw [h, Function.update_eq_self]
  rfl

section

variable (hkdf : IdealKdf P) (hdh : IdealDh P) (haead : IdealAead P)

include hkdf hdh haead

/-- One step keeps both parties on one ladder. -/
theorem coherent_step {net' : HeaderNet B} (h : ∃ G, net.Coherent P G) (hstep : Step P net net') :
    ∃ G, net'.Coherent P G := by
  obtain ⟨G, h⟩ := h
  cases hstep with
  | send hnonce hcks hdhs hhks hheader henc => exact h.send hnonce hcks hdhs hhks hheader henc
  | @deliver σ fresh d hauth =>
    rcases decrypt_cases P σ fresh d.encHeader d.ct d.ad (net.state d.receiver) with
      ⟨msgKey, trial, pt, hkey, hopen, hres⟩ | ⟨e, hres⟩
    · obtain ⟨-, -, h'⟩ := h.accept hkdf hdh haead hauth hkey hopen
      rw [deliver_of_ok hres]
      exact h'
    · rw [deliver_of_error hres]
      exact ⟨G, h.refusing d⟩

/-- Both parties stand on one ladder in every reachable state. -/
theorem coherent_of_reachable {sk b hka nhkb : Block B 32} {maxSkip : UInt32}
    (hsep : SeparateKeys P sk hka nhkb)
    (hnet : (conversation P sk b hka nhkb maxSkip).Reachable net) : ∃ G, net.Coherent P G := by
  refine hnet.invariant (I := fun net ↦ ∃ G, net.Coherent P G) ?_
    fun _ _ _ ↦ coherent_step hkdf hdh haead
  rintro _ ⟨a, rfl⟩
  exact ⟨_, coherent_init hsep⟩

/-- **Agreement.** In every reachable state of a conversation, whatever is delivered next, in
whichever order the stored header keys are tried: a message of the peer that was not accepted yet
opens to its plaintext unless a skip or counter limit is hit, and then the receiver is unchanged; a
message that was accepted, and anything that is not a message of the peer, is refused and leaves the
receiver unchanged. -/
theorem header_agreement {sk b hka nhkb : Block B 32} {maxSkip : UInt32}
    (hsep : SeparateKeys P sk hka nhkb)
    (hnet : (conversation P sk b hka nhkb maxSkip).Reachable net) {σ : Enumeration}
    {fresh : Block B 32} {d : HeaderDelivery B} (hauth : net.Unforged P σ fresh d) :
    (∀ m ∈ net.sent, d.Carries m → d ∉ net.accepted →
      (net.receive P σ fresh d).1 = .ok m.pt ∨
        ∃ e, e.IsBound ∧ net.receive P σ fresh d = (.error e, net.state d.receiver)) ∧
    (d ∈ net.accepted → ∃ e, net.receive P σ fresh d = (.error e, net.state d.receiver)) ∧
    ((¬ ∃ m ∈ net.sent, d.Carries m) →
      ∃ e, net.receive P σ fresh d = (.error e, net.state d.receiver)) := by
  obtain ⟨G, h⟩ := coherent_of_reachable hkdf hdh haead hsep hnet
  refine ⟨fun m hm hcar hacc ↦ h.open_of_carries hkdf hdh haead hauth hm hcar hacc, ?_⟩
  rcases decrypt_cases P σ fresh d.encHeader d.ct d.ad (net.state d.receiver) with
    ⟨msgKey, trial, pt, hkey, hopen, -⟩ | ⟨e, hres⟩
  · obtain ⟨⟨m, hm, hcar, -⟩, hacc, -⟩ := h.accept hkdf hdh haead hauth hkey hopen
    exact ⟨fun hmem ↦ absurd hmem hacc, fun hforged ↦ absurd ⟨m, hm, hcar⟩ hforged⟩
  · exact ⟨fun _ ↦ ⟨e, hres⟩, fun _ ↦ ⟨e, hres⟩⟩

end

/-! ### Concrete runs -/

section Concrete

variable (P)

/-- What is left of `receive_key` when nothing is stored. -/
def receiveUnstored (fresh : Block B 32) (encHeader : List B) (s : HeaderEncryptState B) :
    Except PrimitiveError (Block B 32 × HeaderEncryptState B) :=
  match tryHeader P s.hkr encHeader with
  | some header => skipMessageKeys P s header.n >>= advanceReceiving P
  | none =>
    match tryHeader P s.nhkr encHeader with
    | some header => do
      let s ← skipMessageKeys P s header.pn
      let s ← dhRatchet P fresh header s
      let s ← skipMessageKeys P s header.n
      advanceReceiving P s
    | none => .error .aeadAuthFailed

/-- A delivery to a party that has nothing stored. -/
def decryptUnstored (net : HeaderNet B) (fresh : Block B 32) (d : HeaderDelivery B) :
    Except PrimitiveError (List B) × HeaderEncryptState B :=
  match receiveUnstored P fresh d.encHeader (net.state d.receiver) with
  | .error e => (.error e, net.state d.receiver)
  | .ok (msgKey, trial) =>
    match aeadOpen P msgKey (deriveNonce msgKey) d.ct (concatAdHe d.ad d.encHeader) with
    | .error e => (.error e, net.state d.receiver)
    | .ok plaintext => (.ok plaintext, trial)

/-- The conversation after it. -/
def deliverUnstored (net : HeaderNet B) (fresh : Block B 32) (d : HeaderDelivery B) : HeaderNet B :=
  { net with
    state := Function.update net.state d.receiver (net.decryptUnstored P fresh d).2
    delivered := d :: net.delivered
    accepted := if (net.decryptUnstored P fresh d).1.isOk then d :: net.accepted else net.accepted }

/-- A message and what goes with it: the two keys it is sealed with and the state after it. -/
def write (net : HeaderNet B) (sender : Party) (nonce : Block B 12) (pt ad : List B) :
    Option (HeaderMessage B × Block B 32 × Block B 32 × HeaderEncryptState B) := do
  let s := net.state sender
  let cks ← s.cks
  let dhs ← s.dhs
  let hks ← s.hks
  let ((encHeader, ct), s') ← (encrypt P nonce s pt ad).toOption
  return ({ sender, header := { dh := P.publicKey dhs, pn := s.pn, n := s.ns }, nonce, encHeader, ct,
            ad, pt }, hks, (kdfCkHe P cks).2, s')

/-- Sends a message; nothing happens when the sender cannot. -/
def sendOrStay (net : HeaderNet B) (sender : Party) (nonce : Block B 12) (pt ad : List B) :
    HeaderNet B :=
  ((net.write P sender nonce pt ad).map fun r ↦ net.send r.1 r.2.1 r.2.2.1 r.2.2.2).getD net

variable {P}

/-- Without skipped keys, the search among them can be left out. -/
theorem receive_of_empty {σ : Enumeration} {fresh : Block B 32} {d : HeaderDelivery B}
    (h : (net.state d.receiver).mkskipped = ∅) :
    net.receive P σ fresh d = net.decryptUnstored P fresh d := by
  have hkey : receiveKey P σ fresh d.encHeader (net.state d.receiver) =
      receiveUnstored P fresh d.encHeader (net.state d.receiver) := by
    rw [receiveKey, trySkipped_of_empty h]
    rfl
  rw [receive, decrypt, hkey]
  rfl

theorem deliver_of_empty {σ : Enumeration} {fresh : Block B 32} {d : HeaderDelivery B}
    (h : (net.state d.receiver).mkskipped = ∅) :
    net.deliver P σ fresh d = net.deliverUnstored P fresh d := by
  rw [deliver, receive_of_empty h]
  rfl

/-- Sending with a new nonce is a step when it succeeds. -/
theorem step_sendOrStay {sender : Party} {nonce : Block B 12} {pt ad : List B}
    (hnonce : nonce ∉ net.sent.map HeaderMessage.nonce)
    (h : (net.write P sender nonce pt ad).isSome) :
    Step P net (net.sendOrStay P sender nonce pt ad) := by
  obtain ⟨r, hr⟩ := Option.isSome_iff_exists.1 h
  rw [sendOrStay, hr]
  simp only [write, Option.bind_eq_bind, Option.bind_eq_some_iff] at hr
  obtain ⟨cks, hcks, dhs, hdhs, hks, hhks, ⟨⟨encHeader, ct⟩, s'⟩, henc, hr⟩ := hr
  cases hr
  refine .send hnonce hcks hdhs hhks rfl ?_
  cases hok : encrypt P nonce (net.state sender) pt ad with
  | error e => rw [hok] at henc; cases henc
  | ok r => rw [hok] at henc; cases henc; rfl

/-- The delivery of a message to its addressee. -/
def parcel (m : HeaderMessage B) : HeaderDelivery B :=
  { receiver := m.sender.peer, encHeader := m.encHeader, ct := m.ct, ad := m.ad }

omit [Alphabet B] in
theorem parcel_carries (m : HeaderMessage B) : (parcel m).Carries m :=
  ⟨(Party.peer_peer _).symm, rfl, rfl, rfl⟩

/-- **A message opens only under the keys it was sealed with**, when ciphertexts name their keys. -/
theorem unforged_of_sealed (hone : OneKey P) {σ : Enumeration} {fresh hk msgKey : Block B 32}
    {m : HeaderMessage B}
    (hheader : aeadSeal P hk m.nonce m.header.encode [] = .ok (m.encHeader.drop 12))
    (hnonce : m.encHeader.take 12 = m.nonce.val)
    (hbody : aeadSeal P msgKey (deriveNonce msgKey) m.pt (concatAdHe m.ad m.encHeader) = .ok m.ct)
    (hmem : (hk, m.nonce, m.encHeader.drop 12, []) ∈ net.sealed)
    (hmem' : (msgKey, deriveNonce msgKey, m.ct, concatAdHe m.ad m.encHeader) ∈ net.sealed) :
    net.Unforged P σ fresh (parcel m) where
  header hk' nonce hct plain _ henc hopen := by
    have hsplit : nonce.val ++ hct = m.nonce.val ++ m.encHeader.drop 12 := by
      rw [← hnonce, List.take_append_drop]
      exact henc.symm
    obtain ⟨hn, rfl⟩ := List.append_inj hsplit (by rw [Block.length_val, Block.length_val])
    obtain rfl : nonce = m.nonce := Subtype.ext hn
    obtain rfl := hone.key_eq hheader hopen
    exact hmem
  body msgKey' trial pt _ hopen := by
    obtain rfl := hone.key_eq hbody hopen
    exact hmem'

/-- A small secret. -/
def sampleSecret (n : ℕ) : Block Sym 32 := Sym.block 31 (.lit n)

/-- A small nonce. -/
def sampleNonce (n : ℕ) : Block Sym 12 := Sym.block 11 (.lit n)

theorem separate_sample : SeparateKeys symbolic (sampleSecret 0) (sampleSecret 8) (sampleSecret 9) where
  sk rk d h := by cases Sym.block_injective 31 h
  hka rk d h := by cases Sym.block_injective 31 h
  nhkb rk d h := by cases Sym.block_injective 31 h

/-- A conversation with no room for skipped keys. -/
def sampleStart : HeaderNet Sym :=
  init symbolic (sampleSecret 0) (sampleSecret 1) (sampleSecret 2) (sampleSecret 8) (sampleSecret 9) 0

/-- Alice has sent two messages. -/
def twoSent : HeaderNet Sym :=
  (sampleStart.sendOrStay symbolic .alice (sampleNonce 0) [.lit 7] []).sendOrStay symbolic .alice
    (sampleNonce 1) [.lit 8] []

/-- The conversations of the sample keys. -/
abbrev sample : System (HeaderNet Sym) :=
  conversation symbolic (sampleSecret 0) (sampleSecret 2) (sampleSecret 8) (sampleSecret 9) 0

/-- The example is a run in which two messages were sent. -/
theorem twoSent_reachable : sample.Reachable twoSent := by
  have hstart : sample.Reachable sampleStart := .of_start ⟨sampleSecret 1, rfl⟩
  exact (hstart.of_step (step_sendOrStay (by decide +kernel) (by decide +kernel))).of_step
    (step_sendOrStay (by decide +kernel) (by decide +kernel))

/-- The two messages, in the order they were sent. -/
def earlier : HeaderMessage Sym := twoSent.sent.get ⟨1, by decide +kernel⟩
@[inherit_doc earlier] def later : HeaderMessage Sym := twoSent.sent.get ⟨0, by decide +kernel⟩

/-- The key of the `j`-th seal. -/
def keyOf (j : ℕ) : Block Sym 32 := ((twoSent.sealed[j]?).map Prod.fst).getD (sampleSecret 0)

/-- The earlier message of the example is not forged. -/
theorem unforged_earlier {net : HeaderNet Sym} (h : net.sealed = twoSent.sealed) (σ : Enumeration)
    (fresh : Block Sym 32) : net.Unforged symbolic σ fresh (parcel earlier) := by
  have hheader : aeadSeal symbolic (keyOf 2) earlier.nonce earlier.header.encode [] =
      .ok (earlier.encHeader.drop 12) := by decide +kernel
  have hbody : aeadSeal symbolic (keyOf 3) (deriveNonce (keyOf 3)) earlier.pt
      (concatAdHe earlier.ad earlier.encHeader) = .ok earlier.ct := by decide +kernel
  exact unforged_of_sealed Symbolic.oneKey hheader (by decide +kernel) hbody
    (h ▸ by decide +kernel) (h ▸ by decide +kernel)

theorem unforged_later {net : HeaderNet Sym} (h : net.sealed = twoSent.sealed) (σ : Enumeration)
    (fresh : Block Sym 32) : net.Unforged symbolic σ fresh (parcel later) := by
  have hheader : aeadSeal symbolic (keyOf 0) later.nonce later.header.encode [] =
      .ok (later.encHeader.drop 12) := by decide +kernel
  have hbody : aeadSeal symbolic (keyOf 1) (deriveNonce (keyOf 1)) later.pt
      (concatAdHe later.ad later.encHeader) = .ok later.ct := by decide +kernel
  exact unforged_of_sealed Symbolic.oneKey hheader (by decide +kernel) hbody
    (h ▸ by decide +kernel) (h ▸ by decide +kernel)

/-- The later message overtakes the earlier one and is refused. -/
def overtaken : HeaderNet Sym := twoSent.deliverUnstored symbolic (sampleSecret 3) (parcel later)

/-- Then the earlier one arrives. -/
def overtakenThenBoth : HeaderNet Sym :=
  overtaken.deliverUnstored symbolic (sampleSecret 4) (parcel earlier)

/-- The example goes on with the messages out of order. -/
theorem overtakenThenBoth_reachable : sample.Reachable overtakenThenBoth := by
  have hfirst : Step symbolic twoSent overtaken := by
    have hstep := Step.deliver (unforged_later rfl Enumeration.arbitrary (sampleSecret 3))
    rwa [deliver_of_empty (by decide +kernel)] at hstep
  have hsecond : Step symbolic overtaken overtakenThenBoth := by
    have hsealed : overtaken.sealed = twoSent.sealed := rfl
    have hstep := Step.deliver (unforged_earlier hsealed Enumeration.arbitrary (sampleSecret 4))
    rwa [deliver_of_empty (by decide +kernel)] at hstep
  exact (twoSent_reachable.of_step hfirst).of_step hsecond

/-- **A refused message is not lost.** The later message was delivered before, that delivery hit the
skip limit, and its next delivery returns its plaintext. -/
theorem header_refused_then_accepted :
    (twoSent.receive symbolic Enumeration.arbitrary (sampleSecret 3) (parcel later)).1 =
      .error .invalidLength ∧
    sample.Reachable overtakenThenBoth ∧ later ∈ overtakenThenBoth.sent ∧
    (parcel later).Carries later ∧ parcel later ∈ overtakenThenBoth.delivered ∧
    overtakenThenBoth.Unforged symbolic Enumeration.arbitrary (sampleSecret 5) (parcel later) ∧
    (overtakenThenBoth.receive symbolic Enumeration.arbitrary (sampleSecret 5) (parcel later)).1 =
      .ok later.pt := by
  have hsealed : overtakenThenBoth.sealed = twoSent.sealed := rfl
  refine ⟨?_, overtakenThenBoth_reachable, List.getElem_mem _, parcel_carries _, ?_,
    unforged_later hsealed _ _, ?_⟩
  · rw [receive_of_empty (by decide +kernel)]
    decide +kernel
  · exact List.mem_cons_of_mem _ List.mem_cons_self
  · rw [receive_of_empty (by decide +kernel)]
    decide +kernel

/-- The next header key that the first root step of the sample keys yields. -/
def rootOutput : Block Sym 32 :=
  (kdfRkHe symbolic (sampleSecret 0) (symbolic.diffieHellman (sampleSecret 1)
    (symbolic.publicKey (sampleSecret 2)))).2.2

/-- Conversations whose first header key is that output. -/
abbrev entangled : System (HeaderNet Sym) :=
  conversation symbolic (sampleSecret 0) (sampleSecret 2) rootOutput (sampleSecret 9) 10

/-- Alice sends a message. -/
def ping : HeaderNet Sym :=
  (init symbolic (sampleSecret 0) (sampleSecret 1) (sampleSecret 2) rootOutput (sampleSecret 9)
    10).sendOrStay symbolic .alice (sampleNonce 0) [.lit 7] []

/-- The message sent last. -/
def newest (net : HeaderNet Sym) : HeaderMessage Sym :=
  net.sent.headD
    { sender := .alice, header := { dh := sampleSecret 0, pn := 0, n := 0 }, nonce := sampleNonce 0
      encHeader := [], ct := [], ad := [], pt := [] }

/-- Where something was sent, the newest message was. -/
theorem newest_mem {net : HeaderNet Sym} (h : 0 < net.sent.length) : net.newest ∈ net.sent := by
  unfold newest
  cases hsent : net.sent with
  | nil =>
    rw [hsent] at h
    exact absurd h (lt_irrefl 0)
  | cons m sent => exact List.mem_cons_self

/-- Bob receives it and answers. -/
def pong : HeaderNet Sym :=
  (ping.deliverUnstored symbolic (sampleSecret 3) (parcel ping.newest)).sendOrStay symbolic .bob
    (sampleNonce 1) [.lit 8] []

/-- Alice receives the answer and sends the first message of her next chain. -/
def pingAgain : HeaderNet Sym :=
  (pong.deliverUnstored symbolic (sampleSecret 4) (parcel pong.newest)).sendOrStay symbolic .alice
    (sampleNonce 2) [.lit 9] []


/-- The key of the `j`-th seal of a conversation. -/
def keyAt (net : HeaderNet Sym) (j : ℕ) : Block Sym 32 :=
  ((net.sealed[j]?).map Prod.fst).getD (sampleSecret 0)

/-- The two newest seals are those of the newest message. -/
def SealedLast (net : HeaderNet Sym) : Prop :=
  aeadSeal symbolic (keyAt net 0) net.newest.nonce net.newest.header.encode [] =
      .ok (net.newest.encHeader.drop 12) ∧
    net.newest.encHeader.take 12 = net.newest.nonce.val ∧
    aeadSeal symbolic (keyAt net 1) (deriveNonce (keyAt net 1)) net.newest.pt
      (concatAdHe net.newest.ad net.newest.encHeader) = .ok net.newest.ct ∧
    (keyAt net 0, net.newest.nonce, net.newest.encHeader.drop 12, []) ∈ net.sealed ∧
    (keyAt net 1, deriveNonce (keyAt net 1), net.newest.ct,
      concatAdHe net.newest.ad net.newest.encHeader) ∈ net.sealed

instance (net : HeaderNet Sym) : Decidable net.SealedLast := inferInstanceAs (Decidable (_ ∧ _))

/-- A delivery of the newest message is not forged when its seals are the last ones. -/
theorem SealedLast.unforged {net : HeaderNet Sym} (h : net.SealedLast) (σ : Enumeration)
    (fresh : Block Sym 32) : net.Unforged symbolic σ fresh (parcel net.newest) := by
  obtain ⟨hheader, hnonce, hbody, hmem, hmem'⟩ := h
  exact unforged_of_sealed Symbolic.oneKey hheader hnonce hbody hmem hmem'

theorem SealedLast.step {net : HeaderNet Sym} (h : net.SealedLast) (fresh : Block Sym 32)
    (hempty : (net.state (parcel net.newest).receiver).mkskipped = ∅) :
    Step symbolic net (net.deliverUnstored symbolic fresh (parcel net.newest)) := by
  have hstep := Step.deliver (h.unforged Enumeration.arbitrary fresh)
  rwa [deliver_of_empty hempty] at hstep

/-- The entangled keys of the counterexample lead to a run like any other. -/
theorem pingAgain_reachable : entangled.Reachable pingAgain := by
  have hping : entangled.Reachable ping :=
    .of_step (.of_start ⟨sampleSecret 1, rfl⟩) (step_sendOrStay (by decide +kernel) (by decide +kernel))
  have hpong : entangled.Reachable pong :=
    (hping.of_step (SealedLast.step (by decide +kernel) _ (by decide +kernel))).of_step
      (step_sendOrStay (by decide +kernel) (by decide +kernel))
  exact (hpong.of_step (SealedLast.step (by decide +kernel) _ (by decide +kernel))).of_step
    (step_sendOrStay (by decide +kernel) (by decide +kernel))

/-- **A header key from the root derivation misleads.** Alice's second chain is sealed under the key that
Bob still holds for her first, so he takes its first message for one of the first chain, derives another
message key and loses it. -/
theorem header_first_delivery_lost :
    entangled.Reachable pingAgain ∧ pingAgain.newest ∈ pingAgain.sent ∧
    (parcel pingAgain.newest).Carries pingAgain.newest ∧
    parcel pingAgain.newest ∉ pingAgain.delivered ∧
    pingAgain.Unforged symbolic Enumeration.arbitrary (sampleSecret 5) (parcel pingAgain.newest) ∧
    (pingAgain.receive symbolic Enumeration.arbitrary (sampleSecret 5) (parcel pingAgain.newest)).1 =
      .error .aeadDecryptionFailed := by
  refine ⟨pingAgain_reachable, newest_mem (by decide +kernel), parcel_carries _, by decide +kernel,
    SealedLast.unforged (by decide +kernel) _ _, ?_⟩
  rw [receive_of_empty (by decide +kernel)]
  decide +kernel

/-- **Where deliveries are not final.** A message that was delivered before may open when it is
delivered again; and the first delivery of a message may fail for another reason than a bound, when the
conversation starts from a key of the ratchet's own root derivation. -/
theorem header_deliveries_not_final :
    (¬ ∀ net, sample.Reachable net → ∀ m ∈ net.sent, parcel m ∈ net.delivered → ∀ fresh,
      net.Unforged symbolic Enumeration.arbitrary fresh (parcel m) →
        ∃ e, (net.receive symbolic Enumeration.arbitrary fresh (parcel m)).1 = .error e) ∧
    ¬ ∀ net, entangled.Reachable net → ∀ m ∈ net.sent, parcel m ∉ net.delivered → ∀ fresh,
      net.Unforged symbolic Enumeration.arbitrary fresh (parcel m) →
        (net.receive symbolic Enumeration.arbitrary fresh (parcel m)).1 = .ok m.pt ∨
          ∃ e, e.IsBound ∧
            (net.receive symbolic Enumeration.arbitrary fresh (parcel m)).1 = .error e := by
  constructor
  · obtain ⟨-, hreach, hsent, -, hdelivered, hauth, hres⟩ := header_refused_then_accepted
    intro h
    obtain ⟨e, he⟩ := h _ hreach _ hsent hdelivered _ hauth
    rw [hres] at he
    cases he
  · obtain ⟨hreach, hsent, -, hdelivered, hauth, hres⟩ := header_first_delivery_lost
    intro h
    rcases h _ hreach _ hsent hdelivered _ hauth with hok | ⟨e, hbound, he⟩
    · rw [hres] at hok
      cases hok
    · rw [hres] at he
      cases he
      rcases hbound with hbound | hbound <;> cases hbound

/-- The agreement theorem at a run: two messages sent, the first one delivered. -/
theorem header_agreement_twoSent :
    (twoSent.receive symbolic Enumeration.arbitrary (sampleSecret 3) (parcel earlier)).1 =
        .ok earlier.pt ∨
      ∃ e, e.IsBound ∧ twoSent.receive symbolic Enumeration.arbitrary (sampleSecret 3)
        (parcel earlier) = (.error e, twoSent.state .bob) :=
  (header_agreement Symbolic.idealKdf Symbolic.idealDh Symbolic.idealAead separate_sample
    twoSent_reachable (unforged_earlier rfl _ _)).1 earlier (List.getElem_mem _) (parcel_carries _)
    (by decide +kernel)

end Concrete

end HeaderNet

end VoiceChatCrypto
