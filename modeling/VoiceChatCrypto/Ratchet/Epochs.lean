import Mathlib.Data.List.Forall2
import VoiceChatCrypto.Data.Party
import VoiceChatCrypto.Ratchet.Triple

/-!
# SPQR in order

The chains of SPQR when each direction is a queue. Both parties derive an epoch from one root and one
key, so a party is its epoch with the positions of its two chains (`AtEpoch`).

A queue is described by where its two ends stand (`Inflow`). In one epoch it holds what its receiver
has not passed of the sender's chain. When the sender is an epoch ahead it holds the rest of the old
chain and then the new one. A receiver that is ahead has replaced its receiving chain and can read
nothing of the old epoch any more: unless the queue is empty, it is **blocked** by its first message.
-/

open Alphabet

namespace VoiceChatCrypto

variable {B : Type} [Alphabet B]

/-- What a message carries of SPQR: its epoch, its position and its key. -/
abbrev PqKey (B : Type) := UInt32 × UInt32 × Block B 32

section Chain

variable (P : Primitives B)

/-- The chain key `n` steps down a chain of SPQR. -/
def spqrChain (start : Block B 32) : ℕ → Block B 32
  | 0 => start
  | n + 1 => (SpqrState.kdfCkSpqr P (spqrChain start n)).1

/-- The message key at a position. -/
def spqrKey (start : Block B 32) (n : ℕ) : Block B 32 :=
  (SpqrState.kdfCkSpqr P (spqrChain P start n)).2

/-- The root of the next epoch. -/
def nextRoot (root key : Block B 32) : Block B 32 :=
  hkdf P (some root.val) key.val Labels.spqrEpoch 0

/-- The first chain key of the next epoch. -/
def nextStart (root key : Block B 32) : Block B 32 :=
  hkdf P (some root.val) key.val Labels.spqrEpoch 1

/-- A chain at a position. -/
structure ChainAt (start : Block B 32) (e n : ℕ) (c : EpochChain B) : Prop where
  /-- It is the chain of this epoch. -/
  epoch : c.epoch.toNat = e
  /-- Its key has gone `n` steps from the first one. -/
  chainKey : c.chainKey = spqrChain P start n
  /-- Its counter says so. -/
  n : c.n.toNat = n

/-- **A party in an epoch**, with the number of messages it has sent and received there. Both chains
start from one key, so that a position determines a message key. -/
structure AtEpoch (root start : Block B 32) (e ns nr : ℕ) (s : SpqrState B) : Prop where
  /-- The root for the next epoch. -/
  root : s.root = root
  /-- The number of the next epoch. -/
  nextEpoch : s.nextEpoch.toNat = e + 1
  /-- The sending chain of this epoch. -/
  sending : ∃ c, s.sending = some c ∧ ChainAt P start e ns c
  /-- The receiving chain of this epoch, which starts from the same key. -/
  receiving : ∃ c, s.receiving = some c ∧ ChainAt P start e nr c
  /-- No key has been put aside. -/
  skipped : ∀ k, s.skipped.lookup k = none

/-- What a message carries is at a position. -/
structure PqSits (start : Block B 32) (e : ℕ) (x : PqKey B) (i : ℕ) : Prop where
  /-- It is of this epoch. -/
  epoch : x.1.toNat = e
  /-- It names the position. -/
  n : x.2.1.toNat = i
  /-- It was sealed under the key of the position. -/
  key : x.2.2 = spqrKey P start i

end Chain

namespace AtEpoch

variable {P : Primitives B} {root start : Block B 32} {e ns nr : ℕ} {s : SpqrState B}

/-- **Advancing** opens the next epoch, unless the epochs are used up. -/
theorem advance (h : AtEpoch P root start e ns nr s) (key : Block B 32) :
    s.advanceEpoch P key = .error .limitExceeded ∨ ∃ n s', s.advanceEpoch P key = .ok (n, s') ∧
      AtEpoch P (nextRoot P root key) (nextStart P root key) (e + 1) 0 0 s' := by
  unfold SpqrState.advanceEpoch
  cases hinc : checkedInc s.nextEpoch with
  | error err =>
    obtain rfl := DoubleRatchetState.checkedInc_eq_error hinc
    exact .inl rfl
  | ok next =>
    refine .inr ⟨_, _, rfl, ?_⟩
    have hchain : ChainAt P (nextStart P root key) (e + 1) 0
        ⟨s.nextEpoch, hkdf P (some s.root.val) key.val Labels.spqrEpoch 1, 0⟩ :=
      ⟨h.nextEpoch, by rw [h.root]; rfl, rfl⟩
    exact
      { root := by
          dsimp only
          rw [h.root]
          rfl
        nextEpoch := by
          dsimp only
          rw [checkedInc_eq_ok hinc, h.nextEpoch]
        sending := ⟨_, rfl, hchain⟩
        receiving := ⟨_, rfl, hchain⟩
        skipped := by
          intro k
          dsimp only
          rw [Dict.lookup_filter, h.skipped, ite_self] }

/-- **Sending** takes the next position of the sending chain. -/
theorem send (h : AtEpoch P root start e ns nr s) {x : PqKey B} {s' : SpqrState B}
    (hsend : s.sendKey P = .ok (x, s')) :
    PqSits P start e x ns ∧ AtEpoch P root start e (ns + 1) nr s' := by
  obtain ⟨c, hc, hat⟩ := h.sending
  cases hinc : checkedInc c.n with
  | error err =>
    simp only [SpqrState.sendKey, hc, hinc, bind, Except.bind] at hsend
    cases hsend
  | ok n =>
    rw [SpqrState.sendKey_of_chain hc hinc] at hsend
    cases hsend
    refine ⟨⟨hat.epoch, hat.n, by rw [spqrKey, ← hat.chainKey]⟩, ?_⟩
    exact
      { root := h.root
        nextEpoch := h.nextEpoch
        sending := ⟨_, rfl, hat.epoch, by rw [spqrChain, ← hat.chainKey],
          by rw [checkedInc_eq_ok hinc, hat.n]⟩
        receiving := h.receiving
        skipped := h.skipped }

/-- **Receiving** the next position of the receiving chain, unless the counter is at its end. -/
theorem receive (h : AtEpoch P root start e ns nr s) {x : PqKey B} (hx : PqSits P start e x nr) :
    s.receiveKey P x.1 x.2.1 = .error .limitExceeded ∨
      ∃ s', s.receiveKey P x.1 x.2.1 = .ok (x.2.2, s') ∧ AtEpoch P root start e ns (nr + 1) s' := by
  obtain ⟨c, hc, hat⟩ := h.receiving
  obtain ⟨epoch, n, key⟩ := x
  obtain rfl : epoch = c.epoch := UInt32.toNat_inj.1 (hx.epoch.trans hat.epoch.symm)
  obtain rfl : n = c.n := UInt32.toNat_inj.1 (hx.n.trans hat.n.symm)
  cases hinc : checkedInc c.n with
  | error err =>
    obtain rfl := DoubleRatchetState.checkedInc_eq_error hinc
    refine .inl ?_
    unfold SpqrState.receiveKey
    simp only [h.skipped, hc, ne_eq, not_true, if_false, lt_irrefl, Nat.sub_self,
      SpqrState.skipLoop, hinc, bind, Except.bind]
    rfl
  | ok next =>
    rw [SpqrState.receiveKey_next hc (h.skipped _) hinc]
    have hkey : key = (SpqrState.kdfCkSpqr P c.chainKey).2 := by
      rw [hat.chainKey]
      exact hx.key
    rw [hkey]
    refine .inr ⟨_, rfl, ?_⟩
    exact
      { root := h.root
        nextEpoch := h.nextEpoch
        sending := h.sending
        receiving := ⟨_, rfl, hat.epoch, by rw [spqrChain, ← hat.chainKey],
          by rw [checkedInc_eq_ok hinc, hat.n]⟩
        skipped := h.skipped }

/-- The receiving epoch, as `decrypt` compares it. -/
theorem receivingEpoch_eq (h : AtEpoch P root start e ns nr s) (epoch : UInt32) :
    s.receivingEpoch = some epoch ↔ epoch.toNat = e := by
  obtain ⟨c, hc, hat⟩ := h.receiving
  rw [SpqrState.receivingEpoch, hc, Option.map_some, Option.some_inj, ← hat.epoch]
  exact ⟨fun h ↦ by rw [h], fun h ↦ UInt32.toNat_inj.1 h.symm⟩

/-- No key is derived but in the epoch. -/
theorem epoch_of_receiveKey (h : AtEpoch P root start e ns nr s) {epoch n : UInt32}
    {r : Block B 32 × SpqrState B} (hok : s.receiveKey P epoch n = .ok r) : epoch.toNat = e := by
  obtain ⟨c, hc, hat⟩ := h.receiving
  unfold SpqrState.receiveKey at hok
  simp only [h.skipped, hc] at hok
  by_contra hne
  have hepoch : c.epoch ≠ epoch := by
    rintro rfl
    exact hne hat.epoch
  simp only [ne_eq, hepoch, not_false_eq_true, if_true, bind, Except.bind] at hok
  cases hok

end AtEpoch

/-! ### The queue to a party -/

/-- One end of a queue: the first chain key of its epoch, the epoch, and the position it has come to. -/
structure ChainEnd (B : Type) where
  /-- The first chain key. -/
  start : Block B 32
  /-- The epoch. -/
  epoch : ℕ
  /-- How many messages have passed this end. -/
  n : ℕ

/-- **What is on its way** between a sending and a receiving end: the rest of the receiver's epoch,
and when the sender is one epoch ahead, the beginning of the next. -/
inductive Inflow (P : Primitives B) (sender receiver : ChainEnd B) : List (PqKey B) → Prop
  | blocked {x : PqKey B} {xs : List (PqKey B)} (h : x.1.toNat < receiver.epoch) :
      Inflow P sender receiver (x :: xs)
  | level {xs : List (PqKey B)} (hepoch : sender.epoch = receiver.epoch)
      (hstart : sender.start = receiver.start) (hle : receiver.n ≤ sender.n)
      (h : List.Forall₂ (PqSits P receiver.start receiver.epoch) xs
        (List.range' receiver.n (sender.n - receiver.n))) :
      Inflow P sender receiver xs
  | senderAhead {old new : List (PqKey B)} {len : ℕ} (hepoch : sender.epoch = receiver.epoch + 1)
      (hle : receiver.n ≤ len)
      (hold : List.Forall₂ (PqSits P receiver.start receiver.epoch) old
        (List.range' receiver.n (len - receiver.n)))
      (hnew : List.Forall₂ (PqSits P sender.start sender.epoch) new (List.range' 0 sender.n)) :
      Inflow P sender receiver (old ++ new)
  | receiverAhead (hepoch : receiver.epoch = sender.epoch + 1) (hn : receiver.n = 0) :
      Inflow P sender receiver []

namespace Inflow

variable {P : Primitives B} {sender receiver : ChainEnd B} {x : PqKey B} {xs : List (PqKey B)}

/-- Positions in order, one more at the end. -/
theorem sits_concat {start : Block B 32} {e a b : ℕ} (hle : a ≤ b)
    (h : List.Forall₂ (PqSits P start e) xs (List.range' a (b - a))) (hx : PqSits P start e x b) :
    List.Forall₂ (PqSits P start e) (xs ++ [x]) (List.range' a (b + 1 - a)) := by
  rw [Nat.succ_sub hle, List.range'_1_concat, Nat.add_sub_cancel' hle]
  exact List.rel_append h (.cons hx .nil)

/-- Positions in order, without the first. -/
theorem sits_cons {start : Block B 32} {e a b : ℕ}
    (h : List.Forall₂ (PqSits P start e) (x :: xs) (List.range' a (b - a))) :
    PqSits P start e x a ∧ a + 1 ≤ b ∧
      List.Forall₂ (PqSits P start e) xs (List.range' (a + 1) (b - (a + 1))) := by
  have hlen := h.length_eq
  rw [List.length_cons, List.length_range'] at hlen
  rw [show b - a = b - (a + 1) + 1 by omega, List.range'_succ] at h
  obtain ⟨hx, hxs⟩ := List.forall₂_cons.1 h
  exact ⟨hx, by omega, hxs⟩

/-- **Sending** puts the next position at the end; to a receiver that is ahead it blocks the queue. -/
theorem send (h : Inflow P sender receiver xs) (hx : PqSits P sender.start sender.epoch x sender.n) :
    Inflow P { sender with n := sender.n + 1 } receiver (xs ++ [x]) := by
  cases h with
  | blocked h => exact .blocked h
  | level hepoch hstart hle h =>
    rw [hepoch, hstart] at hx
    exact .level hepoch hstart (Nat.le_succ_of_le hle) (sits_concat hle h hx)
  | senderAhead hepoch hle hold hnew =>
    rw [List.append_assoc]
    refine .senderAhead hepoch hle hold ?_
    exact sits_concat (Nat.zero_le _) (by rwa [Nat.sub_zero]) hx
  | receiverAhead hepoch hn =>
    refine .blocked ?_
    rw [hx.epoch, hepoch]
    exact Nat.lt_succ_self _

/-- **The next message of a queue that is not blocked** is the next position of the current chain, or
the first one of the next chain when the current one is used up. -/
theorem head (h : Inflow P sender receiver (x :: xs)) (hx : receiver.epoch ≤ x.1.toNat) :
    (PqSits P receiver.start receiver.epoch x receiver.n ∧
      Inflow P sender { receiver with n := receiver.n + 1 } xs) ∨
    (sender.epoch = receiver.epoch + 1 ∧ PqSits P sender.start sender.epoch x 0 ∧
      Inflow P sender { sender with n := 1 } xs) := by
  generalize hqueue : x :: xs = ys at h
  cases h with
  | blocked h =>
    cases hqueue
    omega
  | level hepoch hstart hle h =>
    subst hqueue
    obtain ⟨hhead, hle', hrest⟩ := sits_cons h
    exact .inl ⟨hhead, .level hepoch hstart hle' hrest⟩
  | @senderAhead old new len hepoch hle hold hnew =>
    cases old with
    | cons y old =>
      cases hqueue
      obtain ⟨hhead, hle', hrest⟩ := sits_cons hold
      exact .inl ⟨hhead, .senderAhead hepoch hle' hrest hnew⟩
    | nil =>
      rw [List.nil_append] at hqueue
      subst hqueue
      obtain ⟨hhead, hle', hrest⟩ := sits_cons (b := sender.n) (by rwa [Nat.sub_zero])
      exact .inr ⟨hepoch, hhead, .level rfl rfl hle' hrest⟩
  | receiverAhead hepoch hn => cases hqueue

/-- A receiver that opens the next epoch before its peer has an empty queue, or is blocked. -/
theorem receiver_finishes (h : Inflow P sender receiver xs) (hepoch : sender.epoch = receiver.epoch)
    (start : Block B 32) :
    Inflow P sender { start, epoch := receiver.epoch + 1, n := 0 } xs := by
  cases h with
  | blocked h => exact .blocked (Nat.lt_succ_of_lt h)
  | level hepoch' hstart hle h =>
    cases xs with
    | nil => exact .receiverAhead (by rw [hepoch]) rfl
    | cons y ys =>
      obtain ⟨hhead, -⟩ := sits_cons h
      refine .blocked ?_
      rw [hhead.epoch]
      exact Nat.lt_succ_self _
  | senderAhead hepoch' => omega
  | receiverAhead hepoch' => omega

/-- The queue of a peer whose sender has opened the next epoch. -/
theorem sender_finishes (h : Inflow P sender receiver xs) (hepoch : sender.epoch = receiver.epoch)
    (start : Block B 32) :
    Inflow P { start, epoch := sender.epoch + 1, n := 0 } receiver xs := by
  cases h with
  | blocked h => exact .blocked h
  | level hepoch' hstart hle h =>
    have hqueue : Inflow P { start, epoch := sender.epoch + 1, n := 0 } receiver (xs ++ []) :=
      .senderAhead (by rw [← hepoch]) hle h .nil
    rwa [List.append_nil] at hqueue
  | senderAhead hepoch' => omega
  | receiverAhead hepoch' => omega

/-- The queue of a peer whose sender has followed it into the next epoch. -/
theorem sender_follows (h : Inflow P sender receiver xs)
    (hepoch : receiver.epoch = sender.epoch + 1) :
    Inflow P { receiver with n := 0 } receiver xs := by
  cases h with
  | blocked h => exact .blocked h
  | level hepoch' => omega
  | senderAhead hepoch' => omega
  | receiverAhead hepoch' hn =>
    refine .level rfl rfl (by rw [hn]) ?_
    rw [hn]
    exact .nil

end Inflow

end VoiceChatCrypto
