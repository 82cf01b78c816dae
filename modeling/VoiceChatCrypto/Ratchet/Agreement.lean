import VoiceChatCrypto.Data.Party
import VoiceChatCrypto.Data.System
import VoiceChatCrypto.Primitives.Symbolic
import VoiceChatCrypto.Ratchet.Ladder

/-!
# Double Ratchet agreement under an arbitrary network

Two parties, initialised from one secret, and a network that may deliver anything to anyone: genuine
messages in any order, late, repeatedly or never, and forgeries. A `Net` is the two states together
with what the run has produced so far — messages, AEAD seals, deliveries, acceptances, and the
secrets drawn.

Two conditions make a run *admissible*. A secret drawn by a delivery is **fresh**: its public key is
not the public key of an earlier draw. And AEAD is **unforgeable**: the query a delivery makes
succeeds only on the exact key, nonce, ciphertext and associated data of an earlier seal. The second
is a condition on queries actually made, because no fixed function satisfies it for all queries.

The invariant is `Net.Coherent`: both parties stand on neighbouring rungs of one ladder, and every
message ever sent sits at its own position of a chain.
-/

open Alphabet

namespace VoiceChatCrypto

variable {B : Type} [Alphabet B]

/-- A message that was sent. -/
structure Message (B : Type) where
  /-- Who has sent it. -/
  sender : Party
  /-- Its header. -/
  header : Header B
  /-- Its ciphertext. -/
  ct : List B
  /-- The associated data it was sealed with. -/
  ad : List B
  /-- Its plaintext. -/
  pt : List B

/-- Something handed to a party by the network. -/
structure Delivery (B : Type) where
  /-- Who gets it. -/
  receiver : Party
  /-- The header, as it arrives. -/
  header : Header B
  /-- The ciphertext, as it arrives. -/
  ct : List B
  /-- The associated data the receiver expects. -/
  ad : List B
  deriving DecidableEq

/-- The delivery is of this message, by the peer, with the associated data it was sealed with. -/
structure Delivery.Carries (d : Delivery B) (m : Message B) : Prop where
  /-- It is of the receiver's peer. -/
  sender : m.sender = d.receiver.peer
  /-- The header has not been changed. -/
  header : d.header = m.header
  /-- Nor has the ciphertext. -/
  ct : d.ct = m.ct
  /-- Both have used the same associated data. -/
  ad : d.ad = m.ad

/-- A conversation and its history. The history is not read by either party; the statements about
deliveries are about it. -/
structure Net (B : Type) [Alphabet B] where
  /-- The two ratchet states. -/
  state : Party → DoubleRatchetState B
  /-- The messages sent. -/
  sent : List (Message B)
  /-- The AEAD seals made: key, nonce, ciphertext, associated data. -/
  sealed : List (Block B 32 × Block B 12 × List B × List B)
  /-- The deliveries made. -/
  delivered : List (Delivery B)
  /-- The deliveries that returned a plaintext. -/
  accepted : List (Delivery B)
  /-- The ratchet secrets drawn. -/
  drawn : List (Block B 32)

namespace Net

open DoubleRatchetState

variable (P : Primitives B)

/-- The start of a conversation: `init_alice(sk, pub(b), max_skip)` and `init_bob(sk, b, max_skip)`,
where `a` is the secret drawn by the former. -/
def init (sk a b : Block B 32) (maxSkip : UInt32) : Net B where
  state
    | .alice => initAlice P a sk (P.publicKey b) maxSkip
    | .bob => initBob sk b maxSkip
  sent := []
  sealed := []
  delivered := []
  accepted := []
  drawn := [a, b]

/-- The conversation after a message was sent. -/
def send (net : Net B) (m : Message B) (msgKey : Block B 32) (s : DoubleRatchetState B) : Net B :=
  { net with
    state := Function.update net.state m.sender s
    sent := m :: net.sent
    sealed := ((aeadFromMk P msgKey).1, (aeadFromMk P msgKey).2, m.ct, concatAd m.ad m.header) ::
      net.sealed }

/-- What a delivery returns, and the state it leaves the receiver in. -/
def receive (net : Net B) (fresh : Block B 32) (d : Delivery B) :
    Except PrimitiveError (List B) × DoubleRatchetState B :=
  decrypt P fresh d.header d.ct d.ad (net.state d.receiver)

/-- The conversation after a delivery. -/
def deliver (net : Net B) (fresh : Block B 32) (d : Delivery B) : Net B :=
  { net with
    state := Function.update net.state d.receiver (net.receive P fresh d).2
    delivered := d :: net.delivered
    accepted := if (net.receive P fresh d).1.isOk then d :: net.accepted else net.accepted
    drawn := fresh :: net.drawn }

/-- The conversation after a delivery that was accepted. -/
def accepting (net : Net B) (fresh : Block B 32) (d : Delivery B) (s : DoubleRatchetState B) :
    Net B :=
  { net with
    state := Function.update net.state d.receiver s
    delivered := d :: net.delivered
    accepted := d :: net.accepted
    drawn := fresh :: net.drawn }

/-- The conversation after a delivery that was refused. -/
def refusing (net : Net B) (fresh : Block B 32) (d : Delivery B) : Net B :=
  { net with delivered := d :: net.delivered, drawn := fresh :: net.drawn }

/-- The secret drawn by a delivery is a new one: no secret of the conversation so far has its public
key. -/
def Fresh (net : Net B) (fresh : Block B 32) : Prop :=
  P.publicKey fresh ∉ net.drawn.map P.publicKey

/-- The AEAD query made by a delivery succeeds only on an earlier seal. The network may deliver
anything else, and whatever it makes up is refused. -/
def Unforged (net : Net B) (fresh : Block B 32) (d : Delivery B) : Prop :=
  ∀ msgKey trial pt,
    ratchetReceiveKey P fresh d.header (net.state d.receiver) = .ok (msgKey, trial) →
    aeadOpen P (aeadFromMk P msgKey).1 (aeadFromMk P msgKey).2 d.ct (concatAd d.ad d.header) =
      .ok pt →
    ((aeadFromMk P msgKey).1, (aeadFromMk P msgKey).2, d.ct, concatAd d.ad d.header) ∈ net.sealed

/-- One step of a conversation: a successful `encrypt` at either party, or a delivery of anything to
either party. -/
inductive Step : Net B → Net B → Prop
  | send {net : Net B} {m : Message B} {msgKey : Block B 32} {s : DoubleRatchetState B}
      (hkey : sendMessageKey P (net.state m.sender) = .ok ((m.header, msgKey), s))
      (henc : encrypt P (net.state m.sender) m.pt m.ad = .ok ((m.header, m.ct), s)) :
      Step net (net.send P m msgKey s)
  | deliver {net : Net B} {fresh : Block B 32} {d : Delivery B} (hfresh : net.Fresh P fresh)
      (hauth : net.Unforged P fresh d) : Step net (net.deliver P fresh d)

/-- The conversations of a pair of parties. -/
def conversation (sk b : Block B 32) (maxSkip : UInt32) : System (Net B) where
  start net := ∃ a, P.publicKey a ≠ P.publicKey b ∧ net = init P sk a b maxSkip
  step := Step P

/-! ### The invariant -/

/-- The messages a party has accepted, by ratchet key and position. -/
def Taken (net : Net B) (p : Party) (d : Block B 32) (n : UInt32) : Prop :=
  ∃ a ∈ net.accepted, a.receiver = p ∧ a.header.dh = d ∧ a.header.n = n

/-- Message `m` sits on chain `i`, below its sender's rung: its header tells the chain and the
position, and it was sealed under the key of that position. -/
structure SitsOn (L : Ladder B) (rung : Party → ℕ) (len : ℕ → ℕ) (m : Message B) (i : ℕ) :
    Prop where
  /-- The chain is one of the sender's. -/
  parity : (i + 1) % 2 = m.sender.parity
  /-- The sender has come to the chain. -/
  rung : i + 1 ≤ rung m.sender
  /-- The header names the chain's ratchet key. -/
  dh : m.header.dh = L.pub P (i + 1)
  /-- It tells the length of the sender's chain before. -/
  pn : m.header.pn.toNat = sentBefore len (i + 1)
  /-- Its position has been used. -/
  n : m.header.n.toNat < len i
  /-- The ciphertext was sealed under the key of the position. -/
  sealed : aeadSeal P (aeadFromMk P (L.key P i m.header.n.toNat)).1
    (aeadFromMk P (L.key P i m.header.n.toNat)).2 m.pt (concatAd m.ad m.header) = .ok m.ct

/-- **Coherence** of a conversation with a ladder: both parties climb one ladder of ratchet secrets,
in turn, and every message sits on a chain of it. -/
structure Coherent (net : Net B) (L : Ladder B) (rung : Party → ℕ) (len : ℕ → ℕ) : Prop where
  /-- Each party stands on its rung. -/
  onRung : ∀ p, OnRung P L len (rung p) (net.Taken p) (net.state p)
  /-- The parties climb in turn: one on the even rungs, the other on the odd ones. -/
  parity : ∀ p, rung p % 2 = p.parity
  /-- Neither is more than one rung ahead. -/
  adjacent : ∀ p, rung p ≤ rung p.peer + 1
  /-- The secrets of the rungs below were drawn in the run. -/
  drawn : ∀ p i, i ≤ rung p → L.secret i ∈ net.drawn
  /-- The rungs have distinct public keys. -/
  inj : ∀ p, Set.InjOn (L.pub P) (Set.Iic (rung p))
  /-- Nothing was sent on a chain above both parties. -/
  len_eq_zero : ∀ i, (∀ p, rung p ≤ i) → len i = 0
  /-- Every message sits on a chain. -/
  sent : ∀ m ∈ net.sent, ∃ i, SitsOn P L rung len m i
  /-- Every seal belongs to a message. -/
  sealed : ∀ e ∈ net.sealed, ∃ m ∈ net.sent, ∃ i, SitsOn P L rung len m i ∧
    e = ((aeadFromMk P (L.key P i m.header.n.toNat)).1,
      (aeadFromMk P (L.key P i m.header.n.toNat)).2, m.ct, concatAd m.ad m.header)
  /-- No two messages share a ratchet key and a position. -/
  unique : ∀ m ∈ net.sent, ∀ m' ∈ net.sent, m.header.dh = m'.header.dh →
    m.header.n = m'.header.n → m = m'
  /-- Only messages of the peer were accepted. -/
  accepted : ∀ d ∈ net.accepted, ∃ m ∈ net.sent, d.Carries m

variable {P} {net : Net B} {L : Ladder B} {rung : Party → ℕ} {len : ℕ → ℕ}

/-- A new conversation is coherent, with both parties at the foot of the ladder. -/
theorem coherent_init {sk a b : Block B 32} {maxSkip : UInt32}
    (hab : P.publicKey a ≠ P.publicKey b) :
    (init P sk a b maxSkip).Coherent P ⟨sk, fun i ↦ if i = 0 then b else a⟩ Party.parity
      fun _ ↦ 0 where
  onRung p := by
    cases p with
    | alice =>
      refine ⟨rfl, rfl, rfl, rfl, rfl, rfl, rfl, le_refl 0, ?_, ?_⟩
      · intro d n msgKey
        refine ⟨nofun, ?_⟩
        rintro ⟨i, ⟨-, hi⟩, -⟩
        simp only [Party.parity] at hi
        omega
      · rintro d n ⟨a, ha, -⟩
        cases ha
    | bob =>
      refine ⟨rfl, rfl, rfl, rfl, rfl, rfl, rfl, le_refl 0, ?_, ?_⟩
      · intro d n msgKey
        refine ⟨nofun, ?_⟩
        rintro ⟨i, ⟨-, hi⟩, -⟩
        simp only [Party.parity] at hi
        omega
      · rintro d n ⟨a, ha, -⟩
        cases ha
  parity p := by cases p <;> rfl
  adjacent p := by cases p <;> decide
  drawn p i hi := by
    dsimp only [init]
    split <;> simp
  inj p := by
    intro i hi j hj hij
    simp only [Set.mem_Iic] at hi hj
    have hp : p.parity ≤ 1 := by cases p <;> decide
    dsimp only [Ladder.pub] at hij
    split at hij <;> split at hij
    · omega
    · exact absurd hij.symm hab
    · exact absurd hij hab
    · omega
  len_eq_zero _ _ := rfl
  sent := by
    intro m hm
    cases hm
  sealed := by
    intro e he
    cases he
  unique := by
    intro m hm
    cases hm
  accepted := by
    intro d hd
    cases hd

/-- Reading a message back along a longer ladder. -/
theorem SitsOn.extend {m : Message B} {rung' : Party → ℕ} {x : Block B 32} {i k : ℕ}
    (hm : SitsOn P L rung len m i) (hk : ∀ p, rung p < k) (hrung : ∀ p, rung p ≤ rung' p) :
    SitsOn P (L.extend k x) rung' len m i := by
  have hik : i + 1 < k := hm.rung.trans_lt (hk _)
  exact
    { parity := hm.parity
      rung := hm.rung.trans (hrung _)
      dh := by rw [Ladder.pub_extend hik, hm.dh]
      pn := hm.pn
      n := hm.n
      sealed := by
        rw [Ladder.key_extend hik]
        exact hm.sealed }

namespace Coherent

variable (h : net.Coherent P L rung len)

include h

/-- Public keys of rungs within anyone's reach are distinct. -/
theorem pub_inj {p q : Party} {i j : ℕ} (hi : i ≤ rung p) (hj : j ≤ rung q)
    (heq : L.pub P i = L.pub P j) : i = j := by
  rcases Nat.le_total (rung p) (rung q) with hpq | hpq
  · exact h.inj q (hi.trans hpq) hj heq
  · exact h.inj p hi (hj.trans hpq) heq

/-- The message sent on chain `i + 2` counts all of chain `i`: that one has stopped growing. -/
theorem sitsOn_update {m : Message B} {p : Party} {i j x : ℕ} (hm : SitsOn P L rung len m j)
    (hi : rung p = i + 1) (hx : len i ≤ x) :
    SitsOn P L rung (Function.update len i x) m j where
  parity := hm.parity
  rung := hm.rung
  dh := hm.dh
  pn := by
    rw [hm.pn]
    match j, hm with
    | 0, _ | 1, _ => rfl
    | j + 2, hm =>
      rw [sentBefore, sentBefore, Function.update_of_ne]
      rintro rfl
      have hmod := hm.parity
      have hp := h.parity p
      have hrung := hm.rung
      rcases Party.eq_or_eq_peer m.sender p with heq | heq
      · rw [heq] at hrung
        omega
      · have := Party.eq_peer_iff.1 heq
        omega
  n := by
    have hn := hm.n
    rw [Function.update_apply]
    split
    · subst ‹j = i›
      omega
    · exact hn
  sealed := hm.sealed

/-- **Sending keeps coherence**: the message takes the next position of the chain right below the
sender's rung, whose length grows by one. -/
theorem send {m : Message B} {msgKey : Block B 32} {s : DoubleRatchetState B}
    (hkey : sendMessageKey P (net.state m.sender) = .ok ((m.header, msgKey), s))
    (henc : encrypt P (net.state m.sender) m.pt m.ad = .ok ((m.header, m.ct), s)) :
    ∃ len', (net.send P m msgKey s).Coherent P L rung len' := by
  obtain ⟨i, hi, hdh, hpn, hn, rfl, hon⟩ := (h.onRung m.sender).send hkey
  obtain ⟨msgKey', hkey', hseal⟩ := encrypt_eq_ok.1 henc
  rw [hkey] at hkey'
  cases hkey'
  refine ⟨Function.update len i (len i + 1), ?_⟩
  have hold : ∀ m' ∈ net.sent, ∃ j, SitsOn P L rung (Function.update len i (len i + 1)) m' j := by
    intro m' hm'
    obtain ⟨j, hj⟩ := h.sent m' hm'
    exact ⟨j, h.sitsOn_update hj hi (by omega)⟩
  have hnew : SitsOn P L rung (Function.update len i (len i + 1)) m i :=
    { parity := by rw [← hi, h.parity]
      rung := by rw [hi]
      dh := hdh
      pn := by
        rw [hpn]
        match i with
        | 0 | 1 => rfl
        | i + 2 => rw [sentBefore, sentBefore, Function.update_of_ne (by omega)]
      n := by
        rw [Function.update_self]
        omega
      sealed := by
        rw [hn]
        exact hseal }
  -- the new message stands behind all earlier ones of its chain
  have hfar : ∀ m' ∈ net.sent, m'.header.dh = m.header.dh → m'.header.n ≠ m.header.n := by
    intro m' hm' heq hneq
    obtain ⟨j, hj⟩ := h.sent m' hm'
    have hji := h.pub_inj hj.rung hi.ge (by rw [← hj.dh, heq, hdh])
    have hlt := hj.n
    obtain rfl : j = i := by omega
    rw [hneq] at hlt
    omega
  exact
    { onRung := by
        intro q
        rcases Party.eq_or_eq_peer q m.sender with rfl | hpeer
        · simp only [Net.send, Function.update_self]
          exact hon
        · have hne := Party.eq_peer_iff.1 hpeer
          have hparity := h.parity q
          have hparity' := h.parity m.sender
          have hadj := h.adjacent q
          rw [hpeer, Party.peer_peer, ← hpeer] at hadj
          simp only [Net.send]
          rw [Function.update_of_ne (by rintro rfl; exact hne rfl)]
          exact (h.onRung q).grow (by omega) (by omega) (by omega)
      parity := h.parity
      adjacent := h.adjacent
      drawn := h.drawn
      inj := h.inj
      len_eq_zero := by
        intro j hj
        have := hj m.sender
        rw [Function.update_of_ne (by omega), h.len_eq_zero j hj]
      sent := by
        intro m' hm'
        rcases List.mem_cons.1 hm' with rfl | hm'
        · exact ⟨i, hnew⟩
        · exact hold m' hm'
      sealed := by
        intro e he
        rcases List.mem_cons.1 he with rfl | he
        · exact ⟨m, by simp [Net.send], i, hnew, by rw [hn]⟩
        · obtain ⟨m', hm', j, hj, rfl⟩ := h.sealed e he
          exact ⟨m', List.mem_cons_of_mem _ hm', j, h.sitsOn_update hj hi (by omega), rfl⟩
      unique := by
        intro m₁ h₁ m₂ h₂ hdh' hn'
        rcases List.mem_cons.1 h₁ with rfl | hm₁ <;> rcases List.mem_cons.1 h₂ with rfl | hm₂
        · rfl
        · exact absurd hn'.symm (hfar m₂ hm₂ hdh'.symm)
        · exact absurd hn' (hfar m₁ hm₁ hdh')
        · exact h.unique m₁ hm₁ m₂ hm₂ hdh' hn'
      accepted := by
        intro d hd
        obtain ⟨m', hm', hcar⟩ := h.accepted d hd
        exact ⟨m', List.mem_cons_of_mem _ hm', hcar⟩ }

/-- **What opens was sent**: keys of different positions differ, so the seal that made the
ciphertext is that of a message at this position. -/
theorem sent_of_open (hkdf : IdealKdf P) (haead : IdealAead P) {fresh msgKey : Block B 32}
    {d : Delivery B} {trial : DoubleRatchetState B} {pt : List B} (hauth : net.Unforged P fresh d)
    (hkey : ratchetReceiveKey P fresh d.header (net.state d.receiver) = .ok (msgKey, trial))
    (hopen : aeadOpen P (aeadFromMk P msgKey).1 (aeadFromMk P msgKey).2 d.ct
      (concatAd d.ad d.header) = .ok pt) :
    ∃ m ∈ net.sent, ∃ i, SitsOn P L rung len m i ∧ d.header = m.header ∧ d.ct = m.ct ∧
      d.ad = m.ad ∧ pt = m.pt ∧ msgKey = L.key P i d.header.n.toNat := by
  obtain ⟨m, hm, i, hi, heq⟩ := h.sealed _ (hauth msgKey trial pt hkey hopen)
  simp only [Prod.mk.injEq] at heq
  obtain ⟨hk, -, hct, had⟩ := heq
  obtain ⟨had, hheader⟩ := concatAd_inj had
  have hmk := aeadFromMk_fst_inj hkdf hk
  refine ⟨m, hm, i, hi, hheader, hct, had, ?_, by rw [hheader, hmk]⟩
  rw [hmk, hct, had, hheader, haead.open_seal hi.sealed] at hopen
  cases hopen
  rfl

/-- The rungs in reach of a delivery. -/
theorem injOn_max (p : Party) : Set.InjOn (L.pub P) (Set.Iic (max (rung p) (rung p.peer))) := by
  rcases Nat.le_total (rung p) (rung p.peer) with hle | hle
  · rw [Nat.max_eq_right hle]
    exact h.inj _
  · rw [Nat.max_eq_left hle]
    exact h.inj _

/-- A new secret has a public key that no rung so far has. -/
theorem pub_fresh {fresh : Block B 32} (hfresh : net.Fresh P fresh) {p : Party} {j : ℕ}
    (hj : j ≤ max (rung p) (rung p.peer)) : P.publicKey fresh ≠ L.pub P j := by
  intro heq
  have hmem : L.secret j ∈ net.drawn := by
    rcases le_max_iff.1 hj with hj | hj
    · exact h.drawn _ _ hj
    · exact h.drawn _ _ hj
  exact hfresh (heq ▸ List.mem_map_of_mem hmem)

/-- Nothing was sent on the chain a party would climb to next. -/
theorem len_above (p : Party) : len (rung p + 1) = 0 := by
  refine h.len_eq_zero _ fun q ↦ ?_
  rcases Party.eq_or_eq_peer q p with rfl | rfl
  · omega
  · have := h.adjacent p.peer
    rwa [Party.peer_peer] at this

end Coherent

/-- What is taken after one more message was accepted. -/
theorem taken_cons (net : Net B) {net' : Net B} {d : Delivery B} (h : net'.accepted = d :: net.accepted)
    (q : Party) : net'.Taken q =
      if q = d.receiver then OnRung.take (net.Taken q) d.header else net.Taken q := by
  funext x n
  have hiff : net'.Taken q x n ↔
      (d.receiver = q ∧ d.header.dh = x ∧ d.header.n = n) ∨ net.Taken q x n := by
    unfold Taken
    rw [h]
    simp only [List.mem_cons, exists_eq_or_imp]
  rw [eq_iff_iff, hiff]
  split
  · subst ‹q = d.receiver›
    rw [OnRung.take, or_comm, eq_comm (a := d.header.dh), eq_comm (a := d.header.n)]
    simp only [true_and]
  · simp only [show d.receiver ≠ q from fun heq ↦ ‹¬ q = d.receiver› heq.symm, false_and, false_or]

namespace Coherent

variable (h : net.Coherent P L rung len)

include h

/-- **Accepting a message on a chain already open.** -/
theorem accepting_stay {fresh : Block B 32} {d : Delivery B} {m : Message B}
    {s : DoubleRatchetState B} (hm : m ∈ net.sent) (hcar : d.Carries m)
    (hon : OnRung P L len (rung d.receiver) (OnRung.take (net.Taken d.receiver) d.header) s) :
    (net.accepting fresh d s).Coherent P L rung len where
  onRung q := by
    rw [taken_cons net rfl]
    by_cases hq : q = d.receiver
    · subst hq
      simp only [accepting, Function.update_self, if_true]
      exact hon
    · simp only [accepting, Function.update_of_ne hq, if_neg hq]
      exact h.onRung q
  parity := h.parity
  adjacent := h.adjacent
  drawn p i hi := List.mem_cons_of_mem _ (h.drawn p i hi)
  inj := h.inj
  len_eq_zero := h.len_eq_zero
  sent := h.sent
  sealed := h.sealed
  unique := h.unique
  accepted d' hd' := by
    rcases List.mem_cons.1 hd' with rfl | hd'
    · exact ⟨m, hm, hcar⟩
    · exact h.accepted d' hd'

/-- **Accepting the first message of a new chain**: the receiver climbs two rungs. -/
theorem accepting_climb {fresh : Block B 32} {d : Delivery B} {m : Message B}
    {s : DoubleRatchetState B} (hfresh : net.Fresh P fresh) (hm : m ∈ net.sent)
    (hcar : d.Carries m) (hpeer : rung d.receiver + 1 ≤ rung d.receiver.peer)
    (hon : OnRung P (L.extend (rung d.receiver + 2) fresh) len (rung d.receiver + 2)
      (OnRung.take (net.Taken d.receiver) d.header) s) :
    (net.accepting fresh d s).Coherent P (L.extend (rung d.receiver + 2) fresh)
      (Function.update rung d.receiver (rung d.receiver + 2)) len := by
  have hadj := h.adjacent d.receiver.peer
  rw [Party.peer_peer] at hadj
  have hmax : max (rung d.receiver) (rung d.receiver.peer) = rung d.receiver + 1 := by omega
  have hlt : ∀ q, rung q < rung d.receiver + 2 := fun q ↦ by
    have := Party.le_max rung d.receiver q
    omega
  have hle : ∀ q, rung q ≤ Function.update rung d.receiver (rung d.receiver + 2) q := by
    intro q
    rw [Function.update_apply]
    split
    · subst ‹q = d.receiver›
      omega
    · exact le_refl _
  have hinj := Ladder.injOn_extend (hmax ▸ h.injOn_max d.receiver) (x := fresh)
    fun j hj ↦ h.pub_fresh hfresh (hmax.symm ▸ hj)
  have htop : ∀ q, Function.update rung d.receiver (rung d.receiver + 2) q ≤
      rung d.receiver + 2 := by
    intro q
    rw [Function.update_apply]
    split
    · exact le_refl _
    · exact (hlt q).le
  exact
    { onRung := by
        intro q
        rw [taken_cons net rfl]
        by_cases hq : q = d.receiver
        · subst hq
          simp only [accepting, Function.update_self, if_true]
          exact hon
        · simp only [accepting, Function.update_of_ne hq, if_neg hq]
          exact (h.onRung q).extend (hlt q)
      parity := by
        intro q
        have hq := h.parity q
        rw [Function.update_apply]
        split
        · subst ‹q = d.receiver›
          omega
        · exact hq
      adjacent := by
        intro q
        rcases Party.eq_or_eq_peer q d.receiver with rfl | rfl
        · have hne : d.receiver.peer ≠ d.receiver := by cases d.receiver <;> decide
          rw [Function.update_self, Function.update_of_ne hne]
          omega
        · have hne : d.receiver.peer ≠ d.receiver := by cases d.receiver <;> decide
          rw [Party.peer_peer, Function.update_self, Function.update_of_ne hne]
          omega
      drawn := by
        intro q i hi
        have hi := hi.trans (htop q)
        rcases Nat.eq_or_lt_of_le hi with rfl | hi
        · rw [Ladder.secret_extend_self]
          exact List.mem_cons_self
        · rw [Ladder.secret_extend hi]
          exact List.mem_cons_of_mem _ (h.drawn d.receiver.peer i (by omega))
      inj := fun q ↦ hinj.mono (Set.Iic_subset_Iic.2 (htop q))
      len_eq_zero := fun i hi ↦ h.len_eq_zero i fun q ↦ (hle q).trans (hi q)
      sent := by
        intro m' hm'
        obtain ⟨i, hi⟩ := h.sent m' hm'
        exact ⟨i, hi.extend hlt hle⟩
      sealed := by
        intro e he
        obtain ⟨m', hm', i, hi, rfl⟩ := h.sealed e he
        refine ⟨m', hm', i, hi.extend hlt hle, ?_⟩
        rw [Ladder.key_extend (hi.rung.trans_lt (hlt _))]
      unique := h.unique
      accepted := by
        intro d' hd'
        rcases List.mem_cons.1 hd' with rfl | hd'
        · exact ⟨m, hm, hcar⟩
        · exact h.accepted d' hd' }

/-- **Only a new message of the peer is accepted**, with its plaintext, and coherence is kept. -/
theorem accept (hkdf : IdealKdf P) (hdh : IdealDh P) (haead : IdealAead P)
    {fresh msgKey : Block B 32} {d : Delivery B} {trial : DoubleRatchetState B} {pt : List B}
    (hfresh : net.Fresh P fresh) (hauth : net.Unforged P fresh d)
    (hkey : ratchetReceiveKey P fresh d.header (net.state d.receiver) = .ok (msgKey, trial))
    (hopen : aeadOpen P (aeadFromMk P msgKey).1 (aeadFromMk P msgKey).2 d.ct
      (concatAd d.ad d.header) = .ok pt) :
    (∃ m ∈ net.sent, d.Carries m ∧ pt = m.pt) ∧ d ∉ net.accepted ∧
      ∃ L' rung', (net.accepting fresh d trial).Coherent P L' rung' len := by
  obtain ⟨m, hm, i, hi, hheader, hct, had, hpt, rfl⟩ := h.sent_of_open hkdf haead hauth hkey hopen
  have hreach := Party.le_max rung d.receiver
  obtain ⟨hmod, hnot, hon⟩ := (h.onRung d.receiver).receive hkdf hdh (h.injOn_max d.receiver)
    (hreach d.receiver) (hi.rung.trans (hreach _)) (fun j hj ↦ h.pub_fresh hfresh hj)
    (by rw [hheader, hi.dh]) (by rw [hheader, hi.pn]) (by rw [hheader]; exact hi.n)
    (fun _ ↦ h.len_above _) hkey
  have hpeer : m.sender = d.receiver.peer := by
    rw [Party.eq_peer_iff, ← hi.parity, ← h.parity]
    omega
  have hcar : d.Carries m := ⟨hpeer, hheader, hct, had⟩
  refine ⟨⟨m, hm, hcar, hpt⟩, fun hacc ↦ hnot ⟨d, hacc, rfl, rfl, rfl⟩, ?_⟩
  rcases hon with hon | ⟨rfl, hon⟩
  · exact ⟨L, rung, h.accepting_stay hm hcar hon⟩
  · exact ⟨_, _, h.accepting_climb hfresh hm hcar (hpeer ▸ hi.rung) hon⟩

theorem refusing (fresh : Block B 32) (d : Delivery B) :
    (net.refusing fresh d).Coherent P L rung len where
  onRung := h.onRung
  parity := h.parity
  adjacent := h.adjacent
  drawn p i hi := List.mem_cons_of_mem _ (h.drawn p i hi)
  inj := h.inj
  len_eq_zero := h.len_eq_zero
  sent := h.sent
  sealed := h.sealed
  unique := h.unique
  accepted := h.accepted

/-- Where a message that was not accepted yet stands, seen from its receiver. -/
theorem sitsOn_of_carries {d : Delivery B} {m : Message B} (hm : m ∈ net.sent) (hcar : d.Carries m)
    (hacc : d ∉ net.accepted) :
    ∃ i, SitsOn P L rung len m i ∧ i ≤ rung d.receiver ∧ i % 2 = rung d.receiver % 2 ∧
      ¬ net.Taken d.receiver d.header.dh d.header.n := by
  obtain ⟨i, hi⟩ := h.sent m hm
  have hparity := h.parity d.receiver
  have hne := Party.eq_peer_iff.1 hcar.sender
  have hadj := h.adjacent d.receiver.peer
  rw [Party.peer_peer] at hadj
  have hrung := hi.rung
  rw [hcar.sender] at hrung
  have hmod : i % 2 = rung d.receiver % 2 := by
    have := hi.parity
    omega
  refine ⟨i, hi, by omega, hmod, ?_⟩
  -- two messages at one position are one message
  rintro ⟨a, ha, hrec, hadh, han⟩
  obtain ⟨m', hm', hcar'⟩ := h.accepted a ha
  obtain rfl := h.unique m' hm' m hm (by rw [← hcar'.header, hadh, hcar.header])
    (by rw [← hcar'.header, han, hcar.header])
  obtain rfl : a = d := by
    cases a
    cases d
    simp only [Delivery.mk.injEq]
    exact ⟨hrec, hcar'.header.trans hcar.header.symm, hcar'.ct.trans hcar.ct.symm,
      hcar'.ad.trans hcar.ad.symm⟩
  exact hacc ha

/-- **The key of a message that was not accepted yet** is found, or a limit is hit. -/
theorem key_of_carries (hdh : IdealDh P) {d : Delivery B} {m : Message B} (fresh : Block B 32)
    {i : ℕ} (hi : SitsOn P L rung len m i) (hcar : d.Carries m) (hle : i ≤ rung d.receiver)
    (hmod : i % 2 = rung d.receiver % 2)
    (hnot : ¬ net.Taken d.receiver d.header.dh d.header.n) :
    ratchetReceiveKey P fresh d.header (net.state d.receiver) = .error .limitExceeded ∨
      ∃ s', ratchetReceiveKey P fresh d.header (net.state d.receiver) =
        .ok (L.key P i d.header.n.toNat, s') := by
  have hreach := Party.le_max rung d.receiver
  exact (h.onRung d.receiver).receive_genuine fresh hdh
    (h.injOn_max d.receiver) (hreach d.receiver) (hi.rung.trans (hreach _)) hle hmod
    (by rw [hcar.header, hi.dh]) (by rw [hcar.header, hi.pn]) (by rw [hcar.header]; exact hi.n)
    (h.len_above _) hnot

omit h in
/-- With its key, a message opens to its plaintext. -/
theorem receive_of_key (haead : IdealAead P) {d : Delivery B} {m : Message B} {fresh : Block B 32}
    {i : ℕ} {s' : DoubleRatchetState B} (hi : SitsOn P L rung len m i) (hcar : d.Carries m)
    (hkey : ratchetReceiveKey P fresh d.header (net.state d.receiver) =
      .ok (L.key P i d.header.n.toNat, s')) :
    net.receive P fresh d = (.ok m.pt, s') := by
  have hopen := haead.open_seal hi.sealed
  rw [← hcar.header, ← hcar.ct, ← hcar.ad] at hopen
  unfold receive decrypt
  rw [hkey]
  dsimp only
  rw [hopen]

/-- **A message that was not accepted yet opens to its plaintext**, unless a limit is hit. -/
theorem open_of_carries (hdh : IdealDh P) (haead : IdealAead P) {d : Delivery B} {m : Message B}
    (fresh : Block B 32) (hm : m ∈ net.sent) (hcar : d.Carries m) (hacc : d ∉ net.accepted) :
    (net.receive P fresh d).1 = .ok m.pt ∨
      net.receive P fresh d = (.error .limitExceeded, net.state d.receiver) := by
  obtain ⟨i, hi, hle, hmod, hnot⟩ := h.sitsOn_of_carries hm hcar hacc
  rcases h.key_of_carries hdh fresh hi hcar hle hmod hnot with hlimit | ⟨s', hkey⟩
  · unfold receive decrypt
    rw [hlimit]
    exact .inr rfl
  · rw [receive_of_key haead hi hcar hkey]
    exact .inl rfl

end Coherent

/-! ### Runs -/

/-- A delivery that returns a plaintext is accepted. -/
theorem deliver_of_ok {fresh : Block B 32} {d : Delivery B} {pt : List B}
    {s : DoubleRatchetState B} (h : net.receive P fresh d = (.ok pt, s)) :
    net.deliver P fresh d = net.accepting fresh d s := by
  unfold deliver accepting
  rw [h]
  rfl

/-- A delivery that fails is refused, and leaves the receiver as it was. -/
theorem deliver_of_error {fresh : Block B 32} {d : Delivery B} {e : PrimitiveError}
    (h : net.receive P fresh d = (.error e, net.state d.receiver)) :
    net.deliver P fresh d = net.refusing fresh d := by
  unfold deliver refusing
  rw [h, Function.update_eq_self]
  rfl

section

variable (hkdf : IdealKdf P) (hdh : IdealDh P) (haead : IdealAead P)

include hkdf hdh haead

/-- One step keeps both parties on one ladder. -/
theorem coherent_step {net' : Net B} (h : ∃ L rung len, net.Coherent P L rung len)
    (hstep : Step P net net') : ∃ L rung len, net'.Coherent P L rung len := by
  obtain ⟨L, rung, len, h⟩ := h
  cases hstep with
  | send hkey henc =>
    obtain ⟨len', h'⟩ := h.send hkey henc
    exact ⟨L, rung, len', h'⟩
  | @deliver fresh d hfresh hauth =>
    rcases decrypt_cases P fresh d.header d.ct d.ad (net.state d.receiver) with
      ⟨msgKey, trial, pt, hkey, hopen, hres⟩ | ⟨e, hres, -⟩
    · obtain ⟨-, -, L', rung', h'⟩ := h.accept hkdf hdh haead hfresh hauth hkey hopen
      rw [deliver_of_ok hres]
      exact ⟨L', rung', len, h'⟩
    · rw [deliver_of_error hres]
      exact ⟨L, rung, len, h.refusing fresh d⟩

/-- Both parties stand on one ladder in every reachable state. -/
theorem coherent_of_reachable {sk b : Block B 32} {maxSkip : UInt32}
    (hnet : (conversation P sk b maxSkip).Reachable net) :
    ∃ L rung len, net.Coherent P L rung len := by
  refine hnet.invariant (I := fun net ↦ ∃ L rung len, net.Coherent P L rung len) ?_
    fun _ _ _ ↦ coherent_step hkdf hdh haead
  rintro _ ⟨a, hab, rfl⟩
  exact ⟨_, _, _, coherent_init hab⟩

/-- **Agreement.** In every reachable state of a conversation, whatever is delivered next:
a message of the peer that was not accepted yet opens to its plaintext unless a skip or counter limit
is hit, and then the receiver is unchanged; a message that was accepted, and anything that is not a
message of the peer, is refused and leaves the receiver unchanged. -/
theorem delivery_agreement {sk b : Block B 32} {maxSkip : UInt32}
    (hnet : (conversation P sk b maxSkip).Reachable net) {fresh : Block B 32} {d : Delivery B}
    (hfresh : net.Fresh P fresh) (hauth : net.Unforged P fresh d) :
    (∀ m ∈ net.sent, d.Carries m → d ∉ net.accepted →
      (net.receive P fresh d).1 = .ok m.pt ∨
        net.receive P fresh d = (.error .limitExceeded, net.state d.receiver)) ∧
    (d ∈ net.accepted → ∃ e, net.receive P fresh d = (.error e, net.state d.receiver)) ∧
    ((¬ ∃ m ∈ net.sent, d.Carries m) →
      ∃ e, net.receive P fresh d = (.error e, net.state d.receiver)) := by
  obtain ⟨L, rung, len, h⟩ := coherent_of_reachable hkdf hdh haead hnet
  refine ⟨fun m hm hcar hacc ↦ h.open_of_carries hdh haead fresh hm hcar hacc, ?_⟩
  rcases decrypt_cases P fresh d.header d.ct d.ad (net.state d.receiver) with
    ⟨msgKey, trial, pt, hkey, hopen, -⟩ | ⟨e, hres, -⟩
  · obtain ⟨⟨m, hm, hcar, -⟩, hacc, -⟩ := h.accept hkdf hdh haead hfresh hauth hkey hopen
    exact ⟨fun hmem ↦ absurd hmem hacc, fun hforged ↦ absurd ⟨m, hm, hcar⟩ hforged⟩
  · exact ⟨fun _ ↦ ⟨e, hres⟩, fun _ ↦ ⟨e, hres⟩⟩

end

/-! ### Concrete runs -/

section Concrete

variable (P)

/-- Sends a message, when the sender can. -/
def trySend (net : Net B) (sender : Party) (pt ad : List B) : Except PrimitiveError (Net B) := do
  let ((header, msgKey), s) ← sendMessageKey P (net.state sender)
  let ((_, ct), _) ← encrypt P (net.state sender) pt ad
  return net.send P { sender, header, ct, ad, pt } msgKey s

/-- Sends a message; nothing happens when the sender cannot. -/
def sendOrStay (net : Net B) (sender : Party) (pt ad : List B) : Net B :=
  ((net.trySend P sender pt ad).toOption).getD net

variable {P}

theorem step_sendOrStay {sender : Party} {pt ad : List B}
    (h : (net.trySend P sender pt ad).isOk) : Step P net (net.sendOrStay P sender pt ad) := by
  unfold sendOrStay
  cases hsend : net.trySend P sender pt ad with
  | error e => rw [hsend] at h; cases h
  | ok net' =>
    obtain ⟨⟨⟨header, msgKey⟩, s⟩, hkey, hsend⟩ := Except.bind_eq_ok.1 hsend
    obtain ⟨⟨⟨header', ct⟩, s'⟩, henc, hsend⟩ := Except.bind_eq_ok.1 hsend
    cases hsend
    obtain ⟨msgKey', hkey', hseal⟩ := encrypt_eq_ok.1 henc
    rw [hkey] at hkey'
    cases hkey'
    exact .send (m := { sender, header, ct, ad, pt }) hkey henc

instance (fresh : Block B 32) : Decidable (net.Fresh P fresh) :=
  inferInstanceAs (Decidable (P.publicKey fresh ∉ net.drawn.map P.publicKey))

instance (fresh : Block B 32) (d : Delivery B) : Decidable (net.Unforged P fresh d) :=
  match hkey : ratchetReceiveKey P fresh d.header (net.state d.receiver) with
  | .error e => .isTrue fun _ _ _ h ↦ by rw [hkey] at h; cases h
  | .ok (msgKey, trial) =>
    if hopen : (aeadOpen P (aeadFromMk P msgKey).1 (aeadFromMk P msgKey).2 d.ct
        (concatAd d.ad d.header)).isOk → ((aeadFromMk P msgKey).1, (aeadFromMk P msgKey).2, d.ct,
          concatAd d.ad d.header) ∈ net.sealed then
      .isTrue fun _ _ _ h ho ↦ by
        rw [hkey] at h
        cases h
        exact hopen (by rw [ho]; rfl)
    else .isFalse fun hun ↦ hopen fun hok ↦ by
      cases ho : aeadOpen P (aeadFromMk P msgKey).1 (aeadFromMk P msgKey).2 d.ct
        (concatAd d.ad d.header) with
      | error e => rw [ho] at hok; cases hok
      | ok pt => exact hun _ _ _ hkey ho

/-- The delivery of a message to its addressee. -/
def parcel (m : Message B) : Delivery B :=
  { receiver := m.sender.peer, header := m.header, ct := m.ct, ad := m.ad }

omit [Alphabet B] in
theorem parcel_carries (m : Message B) : (parcel m).Carries m :=
  ⟨(Party.peer_peer _).symm, rfl, rfl, rfl⟩

/-- A small secret. -/
def sampleSecret (n : ℕ) : Block Sym 32 := Sym.block 31 (.lit n)

/-- A conversation with no room for skipped keys, after Alice has sent two messages. -/
def twoSent : Net Sym :=
  ((init symbolic (sampleSecret 0) (sampleSecret 1) (sampleSecret 2) 0).sendOrStay symbolic .alice
    [.lit 7] []).sendOrStay symbolic .alice [.lit 8] []

/-- The example is a run in which two messages were sent. -/
theorem twoSent_reachable :
    (conversation symbolic (sampleSecret 0) (sampleSecret 2) 0).Reachable twoSent := by
  have hstart : (conversation symbolic (sampleSecret 0) (sampleSecret 2) 0).Reachable
      (init symbolic (sampleSecret 0) (sampleSecret 1) (sampleSecret 2) 0) :=
    .of_start ⟨sampleSecret 1, by decide +kernel, rfl⟩
  exact (hstart.of_step (step_sendOrStay (by decide +kernel))).of_step
    (step_sendOrStay (by decide +kernel))

/-- The two messages, in the order they were sent. -/
def earlier : Message Sym := twoSent.sent.get ⟨1, by decide +kernel⟩
@[inherit_doc earlier] def later : Message Sym := twoSent.sent.get ⟨0, by decide +kernel⟩

/-- The later message overtakes the earlier one and is refused; then the earlier one arrives. -/
def overtaken : Net Sym :=
  (twoSent.deliver symbolic (sampleSecret 3) (parcel later)).deliver symbolic (sampleSecret 4)
    (parcel earlier)

/-- **A refused message is not lost.** The later message was delivered before, that delivery hit the
skip limit, and its next delivery returns its plaintext. -/
theorem refused_then_accepted :
    (twoSent.receive symbolic (sampleSecret 3) (parcel later)).1 = .error .limitExceeded ∧
    (conversation symbolic (sampleSecret 0) (sampleSecret 2) 0).Reachable overtaken ∧
    later ∈ overtaken.sent ∧ (parcel later).Carries later ∧ parcel later ∈ overtaken.delivered ∧
    overtaken.Fresh symbolic (sampleSecret 5) ∧
    overtaken.Unforged symbolic (sampleSecret 5) (parcel later) ∧
    (overtaken.receive symbolic (sampleSecret 5) (parcel later)).1 = .ok later.pt := by
  refine ⟨by decide +kernel, ?_, List.getElem_mem _, parcel_carries _, ?_, by decide +kernel,
    by decide +kernel, by decide +kernel⟩
  · exact (twoSent_reachable.of_step (.deliver (by decide +kernel) (by decide +kernel))).of_step
      (.deliver (by decide +kernel) (by decide +kernel))
  · exact List.mem_cons_of_mem _ List.mem_cons_self

/-- The agreement theorem at a run: two messages sent, the first one delivered. -/
theorem delivery_agreement_twoSent :
    (twoSent.receive symbolic (sampleSecret 3) (parcel earlier)).1 = .ok earlier.pt ∨
      twoSent.receive symbolic (sampleSecret 3) (parcel earlier) =
        (.error .limitExceeded, twoSent.state .bob) :=
  (delivery_agreement Symbolic.idealKdf Symbolic.idealDh Symbolic.idealAead twoSent_reachable
    (by decide +kernel) (by decide +kernel)).1 earlier (List.getElem_mem _) (parcel_carries _)
    (by decide +kernel)

end Concrete

end Net

end VoiceChatCrypto
