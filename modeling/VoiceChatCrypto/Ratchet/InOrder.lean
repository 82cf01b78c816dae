import Mathlib.Data.List.Forall2
import VoiceChatCrypto.Data.Party
import VoiceChatCrypto.Ratchet.Ladder

/-!
# The Double Ratchet in order

What the keys of the Double Ratchet do when nothing is lost and nothing overtakes: each direction is a
queue. No key is ever stored, so a party is its rung and the position it has come to (`Tidy`), and the
messages on their way to it are exactly the positions between its own and its peer's: the rest of the
chain it is on, then the chain its peer has climbed to (`pending`).

Sending appends the next position (`InOrder.send`). The position at the head of a queue is always the
one its receiver is waiting for, so that the receiver finds the sender's key (`InOrder.receive`).
-/

open Alphabet

namespace VoiceChatCrypto

variable {B : Type} [Alphabet B] {P : Primitives B}

namespace DoubleRatchetState

variable {s : DoubleRatchetState B}

/-- Nothing is skipped on the way to the next position. -/
theorem skipMessageKeys_self (P : Primitives B) (s : DoubleRatchetState B) :
    s.skipMessageKeys P s.nr = .error .limitExceeded ∨ s.skipMessageKeys P s.nr = .ok s := by
  unfold skipMessageKeys
  split
  · exact .inl rfl
  · rw [if_neg (by omega)]
    cases hckr : s.ckr with
    | none => exact .inr rfl
    | some ckr =>
      rw [Nat.sub_self]
      refine .inr ?_
      show Except.ok { s with ckr := some ckr } = .ok s
      rw [← hckr]

/-- One step of the receiving chain, unless the counter is at its end. -/
theorem advanceReceiving_of_ckr {ckr : Block B 32} (hckr : s.ckr = some ckr) :
    s.advanceReceiving P = .error .limitExceeded ∨ ∃ nr, nr.toNat = s.nr.toNat + 1 ∧
      s.advanceReceiving P = .ok ((kdfCk P ckr).2, { s with ckr := some (kdfCk P ckr).1, nr }) := by
  unfold advanceReceiving
  cases hinc : checkedInc s.nr with
  | error e =>
    obtain rfl := checkedInc_eq_error hinc
    refine .inl ?_
    simp only [hckr, bind, Except.bind]
  | ok nr =>
    simp only [hckr, bind, Except.bind]
    exact .inr ⟨nr, checkedInc_eq_ok hinc, rfl⟩

end DoubleRatchetState

/-- **A party on a rung that has stored no key**, and has come to a position of its receiving chain. -/
structure Tidy (P : Primitives B) (L : Ladder B) (len : ℕ → ℕ) (ℓ nr : ℕ) (s : DoubleRatchetState B) :
    Prop where
  /-- Its ratchet secret is that of the rung. -/
  dhs : s.dhs = some (L.secret ℓ)
  /-- Its peer's key is that of the rung below. -/
  dhr : s.dhr = L.peerKey P ℓ
  /-- Its root key is that of the rung. -/
  rk : s.rk = L.rootKey P ℓ
  /-- Its sending chain is the one right below the rung. -/
  cks : s.cks = L.sendingKey P s.ns.toNat ℓ
  /-- Its receiving chain is the one before, `nr` steps on. -/
  ckr : s.ckr = L.receivingKey P nr ℓ
  /-- It has sent so many messages on its chain. -/
  ns : s.ns.toNat = sentOn len ℓ
  /-- And so many on the one before. -/
  pn : s.pn.toNat = sentBefore len ℓ
  /-- It has come to this position of its receiving chain. -/
  nr : s.nr.toNat = nr
  /-- It has put no key aside. -/
  skipped : s.mkskipped = ∅

/-- A header and its key are those of a position: the first component of `pos` is the chain, the
second the place in it. -/
structure SitsAt (P : Primitives B) (L : Ladder B) (len : ℕ → ℕ) (x : Header B × Block B 32)
    (pos : ℕ × ℕ) : Prop where
  /-- The header names the chain's ratchet key. -/
  dh : x.1.dh = L.pub P (pos.1 + 1)
  /-- It tells the length of the sender's chain before. -/
  pn : x.1.pn.toNat = sentBefore len (pos.1 + 1)
  /-- It names the position. -/
  n : x.1.n.toNat = pos.2
  /-- The key is that of the position. -/
  key : x.2 = L.key P pos.1 pos.2

namespace Tidy

variable {L : Ladder B} {len : ℕ → ℕ} {ℓ nr : ℕ} {s : DoubleRatchetState B}

/-- A party stays on its rung when the ladder grows above it. -/
theorem extend {k : ℕ} {x : Block B 32} (h : Tidy P L len ℓ nr s) (hk : ℓ < k) :
    Tidy P (L.extend k x) len ℓ nr s where
  dhs := by rw [h.dhs, Ladder.secret_extend hk]
  dhr := by rw [h.dhr, Ladder.peerKey_extend hk]
  rk := by rw [h.rk, Ladder.rootKey_extend hk]
  cks := by rw [h.cks, Ladder.sendingKey_extend hk]
  ckr := by rw [h.ckr, Ladder.receivingKey_extend hk]
  ns := h.ns
  pn := h.pn
  nr := h.nr
  skipped := h.skipped

/-- A chain that a party does not send on may grow. -/
theorem grow {j x : ℕ} (h : Tidy P L len ℓ nr s) (hsend : ℓ ≠ j + 1) (hbefore : ℓ ≠ j + 3) :
    Tidy P L (Function.update len j x) ℓ nr s where
  dhs := h.dhs
  dhr := h.dhr
  rk := h.rk
  cks := h.cks
  ckr := h.ckr
  ns := h.ns.trans (sentOn_update hsend).symm
  pn := h.pn.trans (sentBefore_update hbefore).symm
  nr := h.nr
  skipped := h.skipped

/-- **Sending** takes the next position of the chain below the sender's rung. -/
theorem send {s' : DoubleRatchetState B} {header : Header B} {msgKey : Block B 32}
    (h : Tidy P L len ℓ nr s)
    (hsend : DoubleRatchetState.sendMessageKey P s = .ok ((header, msgKey), s')) :
    ∃ i, ℓ = i + 1 ∧ SitsAt P L len (header, msgKey) (i, len i) ∧
      Tidy P L (Function.update len i (len i + 1)) ℓ nr s' := by
  obtain ⟨cks, dhs, ns, hcks, hdhs, hinc, rfl, rfl, rfl⟩ :=
    DoubleRatchetState.sendMessageKey_eq_ok hsend
  have hns := checkedInc_eq_ok hinc
  cases ℓ with
  | zero => rw [h.cks] at hcks; cases hcks
  | succ i =>
    have hlen : s.ns.toNat = len i := h.ns
    rw [h.cks, Ladder.sendingKey, Option.some_inj] at hcks
    rw [h.dhs, Option.some_inj] at hdhs
    subst hcks hdhs
    refine ⟨i, rfl, ⟨rfl, h.pn, hlen, by rw [hlen]; rfl⟩, ?_⟩
    exact
      { dhs := h.dhs
        dhr := h.dhr
        rk := h.rk
        cks := by
          rw [Ladder.sendingKey, hns]
          rfl
        ckr := h.ckr
        ns := by rw [hns, hlen, sentOn, Function.update_self]
        pn := h.pn.trans (sentBefore_update (by omega)).symm
        nr := h.nr
        skipped := h.skipped }

/-- One step of the current chain. -/
theorem advance {i : ℕ} {n : UInt32} (h : Tidy P L len (i + 2) nr s) (hn : n.toNat = nr) :
    (s.skipMessageKeys P n >>= DoubleRatchetState.advanceReceiving P) = .error .limitExceeded ∨
      ∃ s', (s.skipMessageKeys P n >>= DoubleRatchetState.advanceReceiving P) =
        .ok (L.key P i nr, s') ∧ Tidy P L len (i + 2) (nr + 1) s' := by
  obtain rfl : n = s.nr := UInt32.toNat_inj.1 (hn.trans h.nr.symm)
  rcases DoubleRatchetState.skipMessageKeys_self P s with hlimit | hskip
  · rw [hlimit]
    exact .inl rfl
  rw [hskip]
  rcases DoubleRatchetState.advanceReceiving_of_ckr (P := P) h.ckr with hlimit | ⟨nr', hnr, hadvance⟩
  · exact .inl hlimit
  · exact .inr ⟨_, hadvance,
      { dhs := h.dhs
        dhr := h.dhr
        rk := h.rk
        cks := h.cks
        ckr := rfl
        ns := h.ns
        pn := h.pn
        nr := by rw [hnr, h.nr]
        skipped := h.skipped }⟩

/-- **Receiving the next message of the current chain.** -/
theorem receive_current {i : ℕ} {x : Header B × Block B 32} (fresh : Block B 32)
    (h : Tidy P L len (i + 2) nr s) (hx : SitsAt P L len x (i, nr)) :
    s.ratchetReceiveKey P fresh x.1 = .error .limitExceeded ∨
      ∃ s', s.ratchetReceiveKey P fresh x.1 = .ok (x.2, s') ∧ Tidy P L len (i + 2) (nr + 1) s' := by
  have hdhr : s.dhr = some x.1.dh := by rw [h.dhr, hx.dh]; rfl
  have hreceive : s.ratchetReceiveKey P fresh x.1 =
      s.skipMessageKeys P x.1.n >>= DoubleRatchetState.advanceReceiving P := by
    unfold DoubleRatchetState.ratchetReceiveKey
    rw [h.skipped, Finmap.lookup_empty]
    simp only [hdhr, ne_eq, not_true, if_false]
    rfl
  rw [hreceive, hx.key]
  exact h.advance hx.n

/-- **Receiving the first message of the next chain**, when the current one is used up. -/
theorem receive_next {x : Header B × Block B 32} (hP : DhCommutes P) (fresh : Block B 32)
    (h : Tidy P L len ℓ nr s) (hx : SitsAt P L len x (ℓ, 0)) (hend : nr = receivableOn len ℓ)
    (hlen : len (ℓ + 1) = 0) (hne : s.dhr ≠ some (L.pub P (ℓ + 1))) :
    s.ratchetReceiveKey P fresh x.1 = .error .limitExceeded ∨
      ∃ s', s.ratchetReceiveKey P fresh x.1 = .ok (x.2, s') ∧
        Tidy P (L.extend (ℓ + 2) fresh) len (ℓ + 2) 1 s' := by
  have hpn : x.1.pn = s.nr := by
    refine UInt32.toNat_inj.1 ?_
    rw [hx.pn, h.nr, hend]
    exact OnRung.sentBefore_succ len ℓ
  have hdhr : s.dhr ≠ some x.1.dh := by rw [hx.dh]; exact hne
  -- the state after the DH ratchet step
  have hroot : (L.extend (ℓ + 2) fresh).rootKey P (ℓ + 1) = L.rootKey P (ℓ + 1) :=
    Ladder.rootKey_extend (by omega)
  have hpub : (L.extend (ℓ + 2) fresh).pub P (ℓ + 1) = L.pub P (ℓ + 1) :=
    Ladder.pub_extend (by omega)
  have hkdf : kdfRk P (L.rootKey P (ℓ + 1)) (P.diffieHellman fresh (L.pub P (ℓ + 1))) =
      ((L.extend (ℓ + 2) fresh).rootKey P (ℓ + 2), (L.extend (ℓ + 2) fresh).startKey P (ℓ + 1)) := by
    have hdh' : (L.extend (ℓ + 2) fresh).dh P (ℓ + 1) =
        P.diffieHellman fresh (L.pub P (ℓ + 1)) := by
      rw [Ladder.dh, Ladder.secret_extend_self, hpub]
    rw [← hdh', ← hroot]
    rfl
  have hratchet : s.dhRatchet P fresh x.1 = .ok { s with
      pn := s.ns, ns := 0, nr := 0, dhr := some (L.pub P (ℓ + 1))
      rk := (L.extend (ℓ + 2) fresh).rootKey P (ℓ + 2)
      ckr := some (L.startKey P ℓ)
      cks := some ((L.extend (ℓ + 2) fresh).startKey P (ℓ + 1)), dhs := some fresh } := by
    rw [DoubleRatchetState.dhRatchet_of_dhs h.dhs, h.rk, hx.dh, Ladder.kdfRk_eq_of_comm hP]
    dsimp only
    rw [hkdf]
  have hreceive : s.ratchetReceiveKey P fresh x.1 =
      s.skipMessageKeys P s.nr >>= fun s ↦ s.dhRatchet P fresh x.1 >>= fun s ↦
        s.skipMessageKeys P x.1.n >>= DoubleRatchetState.advanceReceiving P := by
    unfold DoubleRatchetState.ratchetReceiveKey
    rw [h.skipped, Finmap.lookup_empty, ← hpn]
    simp only [hdhr, ne_eq, not_false_iff, if_true]
  rw [hreceive]
  rcases DoubleRatchetState.skipMessageKeys_self P s with hlimit | hskip
  · rw [hlimit]
    exact .inl rfl
  rw [hskip]
  show (s.dhRatchet P fresh x.1 >>= _) = _ ∨ ∃ s', (s.dhRatchet P fresh x.1 >>= _) = _ ∧ _
  rw [hratchet, hx.key, ← Ladder.key_extend (k := ℓ + 2) (x := fresh) (by omega)]
  refine Tidy.advance ?_ hx.n
  exact
    { dhs := by rw [Ladder.secret_extend_self]
      dhr := by rw [Ladder.peerKey, hpub]
      rk := rfl
      cks := rfl
      ckr := by
        have hstart : (L.extend (ℓ + 2) fresh).startKey P ℓ = L.startKey P ℓ :=
          Ladder.startKey_extend (by omega)
        rw [Ladder.receivingKey, hstart]
        rfl
      ns := by
        rw [sentOn, hlen]
        rfl
      pn := by
        dsimp only
        rw [h.ns]
        cases ℓ with
        | zero => rfl
        | succ i => rfl
      nr := rfl
      skipped := h.skipped }

end Tidy

/-! ### Both directions -/

/-- Only from the third rung on is there something to receive on the current chain. -/
theorem exists_of_lt_receivableOn {len : ℕ → ℕ} {ℓ m : ℕ} (h : m < receivableOn len ℓ) :
    ∃ j, ℓ = j + 2 := by
  rcases ℓ with _ | _ | j
  · exact absurd h (Nat.not_lt_zero m)
  · exact absurd h (Nat.not_lt_zero m)
  · exact ⟨j, rfl⟩

/-- A message on one chain does not change what can be received on another. -/
theorem receivableOn_update {len : ℕ → ℕ} {ℓ i y : ℕ} (h : ℓ ≠ i + 2) :
    receivableOn (Function.update len i y) ℓ = receivableOn len ℓ := by
  rcases ℓ with _ | _ | j
  · rfl
  · rfl
  · rw [receivableOn, receivableOn, Function.update_of_ne (by omega)]

/-- The positions that a party on a rung still has to receive, in order. -/
def pending (len : ℕ → ℕ) (ℓ nr : ℕ) : List (ℕ × ℕ) :=
  (List.range' nr (receivableOn len ℓ - nr)).map (Prod.mk (ℓ - 2)) ++
    (List.range (len ℓ)).map (Prod.mk ℓ)

/-- **Both parties stand on one ladder**, and the queue to a party holds what it still has to
receive. -/
structure InOrder (P : Primitives B) (L : Ladder B) (rung nr : Party → ℕ) (len : ℕ → ℕ)
    (state : Party → DoubleRatchetState B) (queue : Party → List (Header B × Block B 32))
    (drawn : List (Block B 32)) : Prop where
  /-- Each party stands on its rung and has put no key aside. -/
  tidy : ∀ p, Tidy P L len (rung p) (nr p) (state p)
  /-- The parties climb in turn. -/
  parity : ∀ p, rung p % 2 = p.parity
  /-- Neither is more than one rung ahead. -/
  adjacent : ∀ p, rung p ≤ rung p.peer + 1
  /-- The secrets of the rungs below were drawn in the run. -/
  drawn : ∀ p i, i ≤ rung p → L.secret i ∈ drawn
  /-- The rungs have distinct public keys. -/
  inj : ∀ p, Set.InjOn (L.pub P) (Set.Iic (rung p))
  /-- Nothing was sent on a chain above both parties. -/
  len_eq_zero : ∀ i, (∀ p, rung p ≤ i) → len i = 0
  /-- Nobody has received more than was sent. -/
  nr_le : ∀ p, nr p ≤ receivableOn len (rung p)
  /-- What is on the way are the messages that were not received, in order. -/
  queue : ∀ p, List.Forall₂ (SitsAt P L len) (queue p) (pending len (rung p) (nr p))

/-- A position in a queue is below the length of its chain. -/
theorem lt_of_mem_pending {len : ℕ → ℕ} {ℓ nr i n : ℕ} (h : (i, n) ∈ pending len ℓ nr) :
    n < len i ∧ i ≤ ℓ ∧ i % 2 = ℓ % 2 := by
  rcases List.mem_append.1 h with h | h
  · obtain ⟨m, hm, heq⟩ := List.mem_map.1 h
    cases heq
    rw [List.mem_range'_1] at hm
    obtain ⟨j, rfl⟩ := exists_of_lt_receivableOn (show n < receivableOn len ℓ by omega)
    rw [receivableOn] at hm
    exact ⟨by rw [Nat.add_sub_cancel]; omega, by omega, by omega⟩
  · obtain ⟨m, hm, heq⟩ := List.mem_map.1 h
    cases heq
    exact ⟨List.mem_range.1 hm, le_refl _, rfl⟩

/-- A chain that grows does not change the header of a message on another one. -/
theorem SitsAt.grow {L : Ladder B} {len : ℕ → ℕ} {x : Header B × Block B 32} {pos : ℕ × ℕ}
    {i y : ℕ} (h : SitsAt P L len x pos) (hne : pos.1 ≠ i + 2) :
    SitsAt P L (Function.update len i y) x pos where
  dh := h.dh
  pn := by rw [h.pn, sentBefore_update (by omega)]
  n := h.n
  key := h.key

/-- A header stays at its position when the ladder grows above it. -/
theorem SitsAt.extend {L : Ladder B} {len : ℕ → ℕ} {x : Header B × Block B 32} {pos : ℕ × ℕ}
    {k : ℕ} (fresh : Block B 32) (h : SitsAt P L len x pos) (hk : pos.1 + 1 < k) :
    SitsAt P (L.extend k fresh) len x pos where
  dh := by rw [h.dh, Ladder.pub_extend hk]
  pn := h.pn
  n := h.n
  key := by rw [h.key, Ladder.key_extend hk]

/-- A relation along two lists may use that its right side is in the list. -/
theorem forall₂_imp_of_mem {α β : Type*} {R S : α → β → Prop} {l : List α} {u : List β}
    (h : List.Forall₂ R l u) (himp : ∀ a, ∀ b ∈ u, R a b → S a b) : List.Forall₂ S l u := by
  induction h with
  | nil => exact .nil
  | cons hab _ ih =>
    exact .cons (himp _ _ List.mem_cons_self hab)
      (ih fun a b hb ↦ himp a b (List.mem_cons_of_mem _ hb))

namespace InOrder

variable {L : Ladder B} {rung nr : Party → ℕ} {len : ℕ → ℕ} {state : Party → DoubleRatchetState B}
  {queue : Party → List (Header B × Block B 32)} {drawn : List (Block B 32)}

/-- **A conversation starts in order.** -/
theorem init {sk a b : Block B 32} (maxSkip : UInt32) (hab : P.publicKey a ≠ P.publicKey b)
    (halice : state .alice = .initAlice P a sk (P.publicKey b) maxSkip)
    (hbob : state .bob = .initBob sk b maxSkip) :
    InOrder P ⟨sk, fun i ↦ if i = 0 then b else a⟩ Party.parity (fun _ ↦ 0) (fun _ ↦ 0) state
      (fun _ ↦ []) [a, b] where
  tidy p := by
    cases p with
    | alice =>
      rw [halice]
      exact ⟨rfl, rfl, rfl, rfl, rfl, rfl, rfl, rfl, rfl⟩
    | bob =>
      rw [hbob]
      exact ⟨rfl, rfl, rfl, rfl, rfl, rfl, rfl, rfl, rfl⟩
  parity p := by cases p <;> rfl
  adjacent p := by cases p <;> decide
  drawn p i _ := by
    dsimp only
    split <;> simp
  inj p := by
    intro i hi j hj hij
    simp only [Set.mem_Iic] at hi hj
    have hp : p.parity ≤ 1 := by cases p <;> decide
    dsimp only [Ladder.pub] at hij
    split at hij <;> split at hij
    · omega
    · exact absurd hij.symm hab
    · exact absurd hij hab
    · omega
  len_eq_zero _ _ := rfl
  nr_le _ := Nat.zero_le _
  queue p := by
    cases p with
    | alice => exact .nil
    | bob => exact .nil

/-- The rung of a party and that of its peer. -/
theorem neighbours (h : InOrder P L rung nr len state queue drawn) (p : Party) :
    rung p.peer = rung p + 1 ∨ rung p.peer + 1 = rung p := by
  have h₁ := h.adjacent p
  have h₂ := h.adjacent p.peer
  rw [Party.peer_peer] at h₂
  have hne := Party.eq_peer_iff.1 (rfl : p.peer = p.peer)
  have hp := h.parity p
  have hq := h.parity p.peer
  omega

/-- Nothing was sent on the chain above the one a party would climb to. -/
theorem len_above (h : InOrder P L rung nr len state queue drawn) (p : Party) {i : ℕ}
    (hi : rung p + 1 ≤ i) : len i = 0 := by
  refine h.len_eq_zero i fun q ↦ ?_
  rcases Party.eq_or_eq_peer q p with rfl | rfl
  · omega
  · rcases h.neighbours p with hn | hn <;> omega

/-- What is pending for the peer once one more message is sent. -/
theorem pending_send (h : InOrder P L rung nr len state queue drawn) {p : Party} {i : ℕ}
    (hi : rung p = i + 1) :
    pending (Function.update len i (len i + 1)) (rung p.peer) (nr p.peer) =
      pending len (rung p.peer) (nr p.peer) ++ [(i, len i)] := by
  have hle := h.nr_le p.peer
  rcases h.neighbours p with hn | hn
  · -- the peer is above: the chain is the one it is on
    have hzero : len (i + 2) = 0 := h.len_above p (by omega)
    have hpeer : rung p.peer = i + 2 := by omega
    rw [hpeer, receivableOn] at hle
    rw [hpeer, pending, pending, receivableOn, receivableOn, Function.update_self,
      Function.update_of_ne (by omega), hzero, List.range_zero, List.map_nil, List.append_nil,
      List.append_nil, Nat.succ_sub hle, List.range'_1_concat, List.map_append,
      Nat.add_sub_cancel, Nat.add_sub_cancel' hle]
    rfl
  · -- the peer is below: the chain is the one it will climb to
    have hpeer : rung p.peer = i := by omega
    rw [hpeer, pending, pending, receivableOn_update (by omega), Function.update_self,
      List.range_succ, List.map_append, ← List.append_assoc]
    rfl

/-- A chain a party sends on is not one it receives on. -/
theorem pending_own {ℓ i y : ℕ} (hℓ : ℓ = i + 1) (n : ℕ) :
    pending (Function.update len i y) ℓ n = pending len ℓ n := by
  rw [pending, pending, receivableOn_update (by omega), Function.update_of_ne (by omega)]

/-- **Sending** puts the next position at the end of the peer's queue. -/
theorem send (h : InOrder P L rung nr len state queue drawn) {p : Party}
    {x : Header B × Block B 32} {s' : DoubleRatchetState B}
    (hsend : DoubleRatchetState.sendMessageKey P (state p) = .ok (x, s')) :
    ∃ len', InOrder P L rung nr len' (Function.update state p s')
      (Function.update queue p.peer (queue p.peer ++ [x])) drawn := by
  obtain ⟨i, hi, hx, htidy⟩ := (h.tidy p).send hsend
  have hzero : len (i + 2) = 0 := h.len_above p (by omega)
  -- no message on its way counts the chain that grows
  have hgrow : ∀ q, List.Forall₂ (SitsAt P L (Function.update len i (len i + 1))) (queue q)
      (pending len (rung q) (nr q)) := by
    intro q
    refine forall₂_imp_of_mem (h.queue q) fun x pos hpos hsits ↦ hsits.grow ?_
    intro heq
    have hlt := (lt_of_mem_pending hpos).1
    rw [heq, hzero] at hlt
    exact Nat.not_lt_zero _ hlt
  have hne : p.peer ≠ p := by cases p <;> decide
  refine ⟨Function.update len i (len i + 1), ?_⟩
  exact
    { tidy := by
        intro q
        rcases Party.eq_or_eq_peer q p with rfl | rfl
        · rw [Function.update_self]
          exact htidy
        · rw [Function.update_of_ne hne]
          have hn := h.neighbours p
          exact (h.tidy p.peer).grow (by omega) (by omega)
      parity := h.parity
      adjacent := h.adjacent
      drawn := h.drawn
      inj := h.inj
      len_eq_zero := by
        intro j hj
        have := hj p
        rw [Function.update_of_ne (by omega), h.len_eq_zero j hj]
      nr_le := fun q ↦ (h.nr_le q).trans (receivableOn_le_update len (rung q) i)
      queue := by
        intro q
        rcases Party.eq_or_eq_peer q p with rfl | rfl
        · rw [Function.update_of_ne hne.symm, pending_own hi]
          exact hgrow q
        · rw [Function.update_self, h.pending_send hi]
          refine List.rel_append (hgrow p.peer) (.cons ?_ .nil)
          exact hx.grow (by omega) }

/-- The head of what is pending: the next position of the current chain, or the first one of the
next chain when the current one is used up. -/
theorem pending_cons {ℓ n : ℕ} {pos : ℕ × ℕ} {rest : List (ℕ × ℕ)} (hle : n ≤ receivableOn len ℓ)
    (h : pending len ℓ n = pos :: rest) :
    (∃ i, ℓ = i + 2 ∧ n < len i ∧ pos = (i, n) ∧ rest = pending len ℓ (n + 1)) ∨
    n = receivableOn len ℓ ∧ 0 < len ℓ ∧ pos = (ℓ, 0) ∧
      rest = (List.range' 1 (len ℓ - 1)).map (Prod.mk ℓ) := by
  rcases Nat.lt_or_eq_of_le hle with hlt | rfl
  · obtain ⟨i, rfl⟩ := exists_of_lt_receivableOn hlt
    rw [receivableOn] at hlt
    obtain ⟨k, hk⟩ : ∃ k, len i - n = k + 1 := ⟨len i - n - 1, by omega⟩
    rw [pending, receivableOn, hk, List.range'_succ, List.map_cons, List.cons_append,
      List.cons.injEq] at h
    refine .inl ⟨i, rfl, hlt, h.1.symm, ?_⟩
    rw [← h.2, pending, receivableOn, show len i - (n + 1) = k by omega]
  · rw [pending, Nat.sub_self, List.range'_zero, List.map_nil, List.nil_append] at h
    cases hlen : len ℓ with
    | zero =>
      rw [hlen] at h
      cases h
    | succ k =>
      rw [hlen, List.range_eq_range', List.range'_succ, List.map_cons, List.cons.injEq] at h
      exact .inr ⟨rfl, Nat.succ_pos k, h.1.symm, h.2.symm⟩

/-- The conversation after the next message of the current chain was received. -/
theorem stay (h : InOrder P L rung nr len state queue drawn) {p : Party} {i : ℕ}
    {rest : List (Header B × Block B 32)} {s' : DoubleRatchetState B} (fresh : Block B 32)
    (hi : rung p = i + 2) (hlt : nr p < len i) (htidy' : Tidy P L len (rung p) (nr p + 1) s')
    (hrest : List.Forall₂ (SitsAt P L len) rest (pending len (rung p) (nr p + 1))) :
    InOrder P L rung (Function.update nr p (nr p + 1)) len (Function.update state p s')
      (Function.update queue p rest) (fresh :: drawn) := by
  exact
    { tidy := by
        intro q
        by_cases hqp : q = p
        · subst hqp
          rw [Function.update_self, Function.update_self]
          exact htidy'
        · rw [Function.update_of_ne hqp, Function.update_of_ne hqp]
          exact h.tidy q
      parity := h.parity
      adjacent := h.adjacent
      drawn := fun q j hj ↦ List.mem_cons_of_mem _ (h.drawn q j hj)
      inj := h.inj
      len_eq_zero := h.len_eq_zero
      nr_le := by
        intro q
        by_cases hqp : q = p
        · subst hqp
          rw [Function.update_self, hi, receivableOn]
          exact hlt
        · rw [Function.update_of_ne hqp]
          exact h.nr_le q
      queue := by
        intro q
        by_cases hqp : q = p
        · subst hqp
          rw [Function.update_self, Function.update_self]
          exact hrest
        · rw [Function.update_of_ne hqp, Function.update_of_ne hqp]
          exact h.queue q }

/-- The conversation after the receiver has climbed to the first message of the next chain. -/
theorem climb (h : InOrder P L rung nr len state queue drawn) {p : Party}
    {rest : List (Header B × Block B 32)} {s' : DoubleRatchetState B} {fresh : Block B 32}
    (hfresh : P.publicKey fresh ∉ drawn.map P.publicKey) (hpeer : rung p.peer = rung p + 1)
    (hpos : 0 < len (rung p))
    (htidy' : Tidy P (L.extend (rung p + 2) fresh) len (rung p + 2) 1 s')
    (hrest : List.Forall₂ (SitsAt P L len) rest
      ((List.range' 1 (len (rung p) - 1)).map (Prod.mk (rung p)))) :
    InOrder P (L.extend (rung p + 2) fresh) (Function.update rung p (rung p + 2))
      (Function.update nr p 1) len (Function.update state p s') (Function.update queue p rest)
      (fresh :: drawn) := by
  have hne : p.peer ≠ p := by cases p <;> decide
  have hq : ∀ q, q ≠ p → q = p.peer := fun q hq ↦ (Party.eq_or_eq_peer q p).resolve_left hq
  have hzero : len (rung p + 1) = 0 := h.len_above p le_rfl
  have hinj := Ladder.injOn_extend (hpeer ▸ h.inj p.peer) (x := fresh) fun j hj heq ↦
    hfresh (List.mem_map.2 ⟨L.secret j, h.drawn p.peer j (by omega), heq.symm⟩)
  exact
    { tidy := by
        intro q
        by_cases hqp : q = p
        · subst hqp
          rw [Function.update_self, Function.update_self, Function.update_self]
          exact htidy'
        · rw [Function.update_of_ne hqp, Function.update_of_ne hqp, Function.update_of_ne hqp]
          obtain rfl := hq q hqp
          exact (h.tidy p.peer).extend (by omega)
      parity := by
        intro q
        by_cases hqp : q = p
        · subst hqp
          rw [Function.update_self, Nat.add_mod_right]
          exact h.parity q
        · rw [Function.update_of_ne hqp]
          exact h.parity q
      adjacent := by
        intro q
        by_cases hqp : q = p
        · subst hqp
          rw [Function.update_self, Function.update_of_ne hne]
          omega
        · obtain rfl := hq q hqp
          rw [Function.update_of_ne hqp, Party.peer_peer, Function.update_self]
          omega
      drawn := by
        intro q j hj
        have hj : j ≤ rung p + 2 := by
          by_cases hqp : q = p
          · subst hqp
            rwa [Function.update_self] at hj
          · obtain rfl := hq q hqp
            rw [Function.update_of_ne hqp] at hj
            omega
        rcases Nat.eq_or_lt_of_le hj with rfl | hj
        · rw [Ladder.secret_extend_self]
          exact List.mem_cons_self
        · rw [Ladder.secret_extend hj]
          exact List.mem_cons_of_mem _ (h.drawn p.peer j (by omega))
      inj := by
        intro q
        refine hinj.mono (Set.Iic_subset_Iic.2 ?_)
        by_cases hqp : q = p
        · subst hqp
          rw [Function.update_self]
        · obtain rfl := hq q hqp
          rw [Function.update_of_ne hqp]
          omega
      len_eq_zero := by
        intro j hj
        have hj := hj p
        rw [Function.update_self] at hj
        exact h.len_above p (by omega)
      nr_le := by
        intro q
        by_cases hqp : q = p
        · subst hqp
          rw [Function.update_self, Function.update_self, receivableOn]
          exact hpos
        · rw [Function.update_of_ne hqp, Function.update_of_ne hqp]
          exact h.nr_le q
      queue := by
        intro q
        by_cases hqp : q = p
        · subst hqp
          rw [Function.update_self, Function.update_self, Function.update_self, pending,
            receivableOn, Nat.add_sub_cancel, h.len_above q (show rung q + 1 ≤ rung q + 2 by omega),
            List.range_zero, List.map_nil, List.append_nil]
          refine forall₂_imp_of_mem hrest fun y pos hpos hsits ↦ hsits.extend fresh ?_
          obtain ⟨m, -, rfl⟩ := List.mem_map.1 hpos
          exact Nat.lt_succ_self _
        · rw [Function.update_of_ne hqp, Function.update_of_ne hqp, Function.update_of_ne hqp]
          refine forall₂_imp_of_mem (h.queue q) fun y pos hpos hsits ↦ hsits.extend fresh ?_
          obtain ⟨hlt, hle, hmod⟩ := lt_of_mem_pending (i := pos.1) (n := pos.2) hpos
          obtain rfl := hq q hqp
          -- the chain the peer would receive on next has nothing on it
          have hne' : pos.1 ≠ rung p.peer := by
            intro heq
            rw [heq, hpeer, hzero] at hlt
            exact Nat.not_lt_zero _ hlt
          omega }

/-- **Receiving** what is at the head of a queue finds the sender's key, unless a limit is hit. -/
theorem receive (hP : DhCommutes P) (h : InOrder P L rung nr len state queue drawn) {p : Party}
    {x : Header B × Block B 32} {rest : List (Header B × Block B 32)} {fresh : Block B 32}
    (hqueue : queue p = x :: rest) (hfresh : P.publicKey fresh ∉ drawn.map P.publicKey) :
    (state p).ratchetReceiveKey P fresh x.1 = .error .limitExceeded ∨
      ∃ s' L' rung' nr', (state p).ratchetReceiveKey P fresh x.1 = .ok (x.2, s') ∧
        InOrder P L' rung' nr' len (Function.update state p s') (Function.update queue p rest)
          (fresh :: drawn) := by
  have hsits := h.queue p
  rw [hqueue] at hsits
  obtain ⟨pos, ps, hx, hrest, hpending⟩ := List.forall₂_cons_left_iff.1 hsits
  rcases pending_cons (h.nr_le p) hpending with ⟨i, hi, hlt, rfl, rfl⟩ | ⟨hend, hpos, rfl, rfl⟩
  · -- the chain goes on
    have htidy := h.tidy p
    rw [hi] at htidy
    rcases htidy.receive_current fresh hx with hlimit | ⟨s', hok, htidy'⟩
    · exact .inl hlimit
    refine .inr ⟨s', L, rung, Function.update nr p (nr p + 1), hok, ?_⟩
    exact h.stay fresh hi hlt (hi ▸ htidy') hrest
  · -- the receiver climbs
    have hpeer : rung p.peer = rung p + 1 := by
      rcases h.neighbours p with hn | hn
      · exact hn
      · have := h.len_eq_zero (rung p) fun q ↦ by
          rcases Party.eq_or_eq_peer q p with rfl | rfl <;> omega
        omega
    have hzero : len (rung p + 1) = 0 := h.len_above p le_rfl
    have hdhr : (state p).dhr ≠ some (L.pub P (rung p + 1)) := by
      rw [(h.tidy p).dhr]
      cases hr : rung p with
      | zero =>
        intro heq
        cases heq
      | succ j =>
        rw [Ladder.peerKey, ne_eq, Option.some_inj]
        intro heq
        have hinj := h.inj p.peer
        rw [hpeer, hr] at hinj
        have := hinj (by rw [Set.mem_Iic]; omega) (by rw [Set.mem_Iic]) heq
        omega
    rcases (h.tidy p).receive_next hP fresh hx hend hzero hdhr with hlimit | ⟨s', hok, htidy'⟩
    · exact .inl hlimit
    refine .inr ⟨s', L.extend (rung p + 2) fresh, Function.update rung p (rung p + 2),
      Function.update nr p 1, hok, ?_⟩
    exact h.climb hfresh hpeer hpos htidy' hrest

end InOrder

end VoiceChatCrypto
