import VoiceChatCrypto.Primitives.Ideal
import VoiceChatCrypto.Ratchet.Double

/-!
# The key ladder

What the two parties of a Double Ratchet conversation compute together is one sequence of secrets
`s₀, s₁, s₂, …`, drawn alternately: `s₀` is the responder's prekey, `s₁` the initiator's first
ratchet secret, `s₂` the responder's next, and so on. It determines a ladder of root keys and
one **chain** per rung: chain `i` starts at the key derived from `s₀ … sᵢ₊₁`, is used for sending by
the owner of `sᵢ₊₁` and for receiving by the owner of `sᵢ`.

A party *stands on rung `ℓ`* (`OnRung`) when `s_ℓ` is its current ratchet secret. It then sends on
chain `ℓ - 1`, receives on chain `ℓ - 2`, and holds the stored keys of exactly those positions of
chains `ℓ - 2, ℓ - 4, …` that it has passed and not used. This is the whole invariant of one side;
everything about two parties and a network is in `Ratchet/Agreement.lean`.
-/

open Alphabet

namespace VoiceChatCrypto

variable {B : Type} [Alphabet B] {P : Primitives B}

/-! ### Key derivation is a tree -/

section Injectivity

variable (hP : IdealKdf P)

include hP

/-- The first key of a chain comes from one root key and one exchange. -/
theorem kdfRk_snd_inj {rk rk' d d' : Block B 32} (h : (kdfRk P rk d).2 = (kdfRk P rk' d').2) :
    rk = rk' ∧ d = d' := by
  obtain ⟨hrk, hd, -, -⟩ := hP.hkdf_inj (by simp) (by simp) h
  exact ⟨Subtype.ext hrk, Subtype.ext hd⟩

theorem kdfRk_snd_ne_kdfCk_fst (rk d ck : Block B 32) : (kdfRk P rk d).2 ≠ (kdfCk P ck).1 :=
  hP.hkdf_ne_hmac _ _ _ _ _ _

theorem kdfCk_fst_inj {ck ck' : Block B 32} (h : (kdfCk P ck).1 = (kdfCk P ck').1) : ck = ck' :=
  Subtype.ext (hP.hmac_inj (by simp) (by simp) h).1

theorem kdfCk_snd_inj {ck ck' : Block B 32} (h : (kdfCk P ck).2 = (kdfCk P ck').2) : ck = ck' :=
  Subtype.ext (hP.hmac_inj (by simp) (by simp) h).1

/-- The AEAD key alone determines the message key. -/
theorem aeadFromMk_fst_inj {mk mk' : Block B 32} (h : (aeadFromMk P mk).1 = (aeadFromMk P mk').1) :
    mk = mk' :=
  Subtype.ext (hP.hkdf_inj (by simp [noSalt]) (by simp [noSalt]) h).2.1

/-- Chains that start at a root derivation never meet, and no chain meets itself. -/
theorem chainKey_inj {rk rk' d d' : Block B 32} {m n : ℕ}
    (h : chainKey P (kdfRk P rk d).2 m = chainKey P (kdfRk P rk' d').2 n) :
    (kdfRk P rk d).2 = (kdfRk P rk' d').2 ∧ m = n := by
  induction m generalizing n with
  | zero =>
    cases n with
    | zero => exact ⟨h, rfl⟩
    | succ n => exact absurd h (kdfRk_snd_ne_kdfCk_fst hP _ _ _)
  | succ m ih =>
    cases n with
    | zero => exact absurd h.symm (kdfRk_snd_ne_kdfCk_fst hP _ _ _)
    | succ n =>
      obtain ⟨hck, hmn⟩ := ih (kdfCk_fst_inj hP h)
      exact ⟨hck, by rw [hmn]⟩

/-- **A message key determines its chain and its position**, as long as no first key of a chain is a
later key of another. -/
theorem messageKey_inj {rk rk' d d' : Block B 32} {m n : ℕ}
    (h : messageKey P (kdfRk P rk d).2 m = messageKey P (kdfRk P rk' d').2 n) :
    rk = rk' ∧ d = d' ∧ m = n := by
  obtain ⟨hck, hmn⟩ := chainKey_inj hP (kdfCk_snd_inj hP h)
  obtain ⟨hrk, hd⟩ := kdfRk_snd_inj hP hck
  exact ⟨hrk, hd, hmn⟩

end Injectivity

/-- The shared secret of a conversation and the ratchet secrets drawn in it, in order. -/
structure Ladder (B : Type) where
  /-- The secret both parties start from. -/
  sk : Block B 32
  /-- The ratchet secrets. -/
  secret : ℕ → Block B 32

namespace Ladder

variable (P) (L : Ladder B)

/-- The public key of a rung. -/
def pub (i : ℕ) : Block B 32 := P.publicKey (L.secret i)

/-- The shared secret of two neighbouring rungs. -/
def dh (i : ℕ) : Block B 32 := P.diffieHellman (L.secret (i + 1)) (L.pub P i)

/-- The root key of a rung. -/
def rootKey : ℕ → Block B 32
  | 0 => L.sk
  | i + 1 => (kdfRk P (rootKey i) (L.dh P i)).1

/-- The first key of chain `i`. -/
def startKey (i : ℕ) : Block B 32 := (kdfRk P (L.rootKey P i) (L.dh P i)).2

/-- The message key at position `n` of chain `i`. -/
def key (i n : ℕ) : Block B 32 := messageKey P (L.startKey P i) n

/-- The peer key of a party on a rung. -/
def peerKey : ℕ → Option (Block B 32)
  | 0 => none
  | i + 1 => some (L.pub P i)

/-- The sending chain key of a party on a rung that has sent `n` messages there. -/
def sendingKey (n : ℕ) : ℕ → Option (Block B 32)
  | 0 => none
  | i + 1 => some (chainKey P (L.startKey P i) n)

/-- The receiving chain key of a party on a rung that has passed `n` positions there. -/
def receivingKey (n : ℕ) : ℕ → Option (Block B 32)
  | i + 2 => some (chainKey P (L.startKey P i) n)
  | _ => none

/-- The ladder with one more secret. -/
def extend (k : ℕ) (x : Block B 32) : Ladder B := { L with secret := Function.update L.secret k x }

variable {P L} {k : ℕ} {x : Block B 32}

omit [Alphabet B] in
@[simp] theorem secret_extend_self : (L.extend k x).secret k = x := Function.update_self ..

omit [Alphabet B] in
theorem secret_extend {i : ℕ} (h : i < k) : (L.extend k x).secret i = L.secret i :=
  Function.update_of_ne (by omega) ..

omit [Alphabet B] in
/-- A further rung leaves the public keys below alone. -/
theorem pub_extend {i : ℕ} (h : i < k) : (L.extend k x).pub P i = L.pub P i := by
  rw [pub, pub, secret_extend h]

omit [Alphabet B] in
/-- A further rung leaves the exchanges below alone. -/
theorem dh_extend {i : ℕ} (h : i + 1 < k) : (L.extend k x).dh P i = L.dh P i := by
  rw [dh, dh, secret_extend h, pub_extend (by omega)]

/-- A further rung leaves the root keys below alone. -/
theorem rootKey_extend {i : ℕ} (h : i < k) : (L.extend k x).rootKey P i = L.rootKey P i := by
  induction i with
  | zero => rfl
  | succ i ih => rw [rootKey, rootKey, ih (by omega), dh_extend h]

theorem startKey_extend {i : ℕ} (h : i + 1 < k) :
    (L.extend k x).startKey P i = L.startKey P i := by
  rw [startKey, startKey, rootKey_extend (by omega), dh_extend h]

/-- A further rung leaves the message keys below alone. -/
theorem key_extend {i n : ℕ} (h : i + 1 < k) : (L.extend k x).key P i n = L.key P i n := by
  rw [key, key, startKey_extend h]

omit [Alphabet B] in
/-- A further rung leaves the peer's keys below alone. -/
theorem peerKey_extend {i : ℕ} (h : i < k) : (L.extend k x).peerKey P i = L.peerKey P i := by
  cases i with
  | zero => rfl
  | succ i => rw [peerKey, peerKey, pub_extend (by omega)]

/-- A further rung leaves the sending chains below alone. -/
theorem sendingKey_extend {i n : ℕ} (h : i < k) :
    (L.extend k x).sendingKey P n i = L.sendingKey P n i := by
  cases i with
  | zero => rfl
  | succ i => rw [sendingKey, sendingKey, startKey_extend h]

/-- A further rung leaves the receiving chains below alone. -/
theorem receivingKey_extend {i n : ℕ} (h : i < k) :
    (L.extend k x).receivingKey P n i = L.receivingKey P n i := by
  match i with
  | 0 => rfl
  | 1 => rfl
  | i + 2 => rw [receivingKey, receivingKey, startKey_extend (by omega)]

omit [Alphabet B] in
/-- A fresh secret keeps the public keys apart. -/
theorem injOn_extend (h : Set.InjOn (L.pub P) (Set.Iic k))
    (hx : ∀ j ≤ k, P.publicKey x ≠ L.pub P j) :
    Set.InjOn ((L.extend (k + 1) x).pub P) (Set.Iic (k + 1)) := by
  have hlast : (L.extend (k + 1) x).pub P (k + 1) = P.publicKey x := by
    rw [pub, secret_extend_self]
  intro i hi j hj heq
  rw [Set.mem_Iic] at hi hj
  rcases Nat.eq_or_lt_of_le hi with rfl | hi <;> rcases Nat.eq_or_lt_of_le hj with rfl | hj
  · rfl
  · rw [hlast, pub_extend hj] at heq
    exact absurd heq (hx j (by omega))
  · rw [hlast, pub_extend hi] at heq
    exact absurd heq.symm (hx i (by omega))
  · rw [pub_extend hi, pub_extend hj] at heq
    exact h (by rw [Set.mem_Iic]; omega) (by rw [Set.mem_Iic]; omega) heq

/-- **The receiver's key is the sender's**, on whichever side of the exchange it is computed. -/
theorem kdfRk_eq_of_comm (hdh : DhCommutes P) (i : ℕ) :
    kdfRk P (L.rootKey P i) (P.diffieHellman (L.secret i) (L.pub P (i + 1))) =
      (L.rootKey P (i + 1), L.startKey P i) := by
  rw [pub, hdh]
  rfl

/-- A key that a receiver derives for a rung's public key by a DH ratchet step is the key of that
rung's chain only if the receiver stands right below it. -/
theorem eq_of_ratchet_key (hkdf : IdealKdf P) (hdh : IdealDh P) {ℓ i m n : ℕ}
    (h : messageKey P (kdfRk P (L.rootKey P ℓ)
      (P.diffieHellman (L.secret ℓ) (L.pub P (i + 1)))).2 m = L.key P i n) :
    L.pub P ℓ = L.pub P i ∧ m = n := by
  obtain ⟨-, hd, hmn⟩ := messageKey_inj hkdf h
  rw [pub, hdh.comm] at hd
  exact ⟨hdh.inj hd, hmn⟩

end Ladder

/-! ### One side of the conversation -/

/-- The number of messages sent on a rung so far, from the lengths of the chains. -/
def sentOn (len : ℕ → ℕ) : ℕ → ℕ
  | 0 => 0
  | i + 1 => len i

/-- The length of the sending chain before the current one. -/
def sentBefore (len : ℕ → ℕ) : ℕ → ℕ
  | i + 3 => len i
  | _ => 0

/-- The number of messages a party on a rung may receive on its current chain. -/
def receivableOn (len : ℕ → ℕ) : ℕ → ℕ
  | i + 2 => len i
  | _ => 0

/-- A party sees the chain grow that it sends on, and no other. -/
theorem sentOn_update {len : ℕ → ℕ} {ℓ j x : ℕ} (h : ℓ ≠ j + 1) :
    sentOn (Function.update len j x) ℓ = sentOn len ℓ := by
  cases ℓ with
  | zero => rfl
  | succ i => rw [sentOn, sentOn, Function.update_of_ne (by omega)]

/-- A message on one chain does not change the length of another. -/
theorem sentBefore_update {len : ℕ → ℕ} {ℓ j x : ℕ} (h : ℓ ≠ j + 3) :
    sentBefore (Function.update len j x) ℓ = sentBefore len ℓ := by
  match ℓ with
  | 0 | 1 | 2 => rfl
  | i + 3 => rw [sentBefore, sentBefore, Function.update_of_ne (by omega)]

/-- More can be received when a chain grows. -/
theorem receivableOn_le_update (len : ℕ → ℕ) (ℓ j : ℕ) :
    receivableOn len ℓ ≤ receivableOn (Function.update len j (len j + 1)) ℓ := by
  match ℓ with
  | 0 | 1 => exact le_refl 0
  | i + 2 =>
    simp only [receivableOn, Function.update_apply]
    split
    · subst ‹i = j›
      exact Nat.le_succ _
    · exact le_refl _

/-- Position `n` of chain `i` lies behind a party on rung `ℓ` that has passed `nr` positions of its
receiving chain. -/
def Passed (len : ℕ → ℕ) (ℓ nr i n : ℕ) : Prop :=
  i % 2 = ℓ % 2 ∧ ((i + 2 = ℓ ∧ n < nr) ∨ (i + 2 < ℓ ∧ n < len i))

/-- A chain that is not closed yet may grow. -/
theorem passed_update_iff {len : ℕ → ℕ} {j x ℓ nr i n : ℕ} (h : j % 2 = ℓ % 2 → ℓ ≤ j + 2) :
    Passed len ℓ nr i n ↔ Passed (Function.update len j x) ℓ nr i n := by
  refine and_congr_right fun hmod ↦ or_congr_right (and_congr_right fun hlt ↦ ?_)
  rw [Function.update_of_ne]
  rintro rfl
  have := h hmod
  omega

/-- **A party on a rung.** `taken` says which messages it has accepted. It sends on the chain right
below its rung, receives on the one before, and has stored keys of positions it has passed. -/
structure OnRung (P : Primitives B) (L : Ladder B) (len : ℕ → ℕ) (ℓ : ℕ)
    (taken : Block B 32 → UInt32 → Prop) (s : DoubleRatchetState B) : Prop where
  /-- Its ratchet secret is that of the rung. -/
  dhs : s.dhs = some (L.secret ℓ)
  /-- Its peer's key is that of the rung below. -/
  dhr : s.dhr = L.peerKey P ℓ
  /-- Its root key is that of the rung. -/
  rk : s.rk = L.rootKey P ℓ
  /-- Its sending chain is the one right below the rung. -/
  cks : s.cks = L.sendingKey P s.ns.toNat ℓ
  /-- Its receiving chain is the one before. -/
  ckr : s.ckr = L.receivingKey P s.nr.toNat ℓ
  /-- It has sent so many messages on its chain. -/
  ns : s.ns.toNat = sentOn len ℓ
  /-- And so many on the one before. -/
  pn : s.pn.toNat = sentBefore len ℓ
  /-- It has not passed more positions than were used. -/
  nr : s.nr.toNat ≤ receivableOn len ℓ
  /-- The stored keys are those of the positions passed and not used. -/
  stored : ∀ d n msgKey, s.mkskipped.lookup (d, n) = some msgKey ↔
    ∃ i, Passed len ℓ s.nr.toNat i n.toNat ∧ d = L.pub P (i + 1) ∧ ¬ taken d n ∧
      msgKey = L.key P i n.toNat
  /-- Only positions that were passed have been used. -/
  passed : ∀ d n, taken d n → ∃ i, Passed len ℓ s.nr.toNat i n.toNat ∧ d = L.pub P (i + 1)

namespace OnRung

variable {L : Ladder B} {len : ℕ → ℕ} {ℓ : ℕ} {taken : Block B 32 → UInt32 → Prop}
  {s : DoubleRatchetState B}

theorem extend {k : ℕ} {x : Block B 32} (h : OnRung P L len ℓ taken s) (hk : ℓ < k) :
    OnRung P (L.extend k x) len ℓ taken s where
  dhs := by rw [h.dhs, Ladder.secret_extend hk]
  dhr := by rw [h.dhr, Ladder.peerKey_extend hk]
  rk := by rw [h.rk, Ladder.rootKey_extend hk]
  cks := by rw [h.cks, Ladder.sendingKey_extend hk]
  ckr := by rw [h.ckr, Ladder.receivingKey_extend hk]
  ns := h.ns
  pn := h.pn
  nr := h.nr
  stored := by
    intro d n msgKey
    rw [h.stored]
    refine exists_congr fun i ↦ and_congr_right fun hi ↦ ?_
    have hik : i + 1 < k := by
      rcases hi with ⟨-, hi | hi⟩ <;> omega
    rw [Ladder.pub_extend hik, Ladder.key_extend hik]
  passed := by
    intro d n htaken
    obtain ⟨i, hi, hd⟩ := h.passed d n htaken
    have hik : i + 1 < k := by
      rcases hi with ⟨-, hi | hi⟩ <;> omega
    exact ⟨i, hi, by rw [Ladder.pub_extend hik, hd]⟩

/-- A chain that a party neither has closed nor sends on may grow. -/
theorem grow {j : ℕ} (h : OnRung P L len ℓ taken s) (hsend : ℓ ≠ j + 1) (hbefore : ℓ ≠ j + 3)
    (hparity : j % 2 = ℓ % 2 → ℓ ≤ j + 2) :
    OnRung P L (Function.update len j (len j + 1)) ℓ taken s where
  dhs := h.dhs
  dhr := h.dhr
  rk := h.rk
  cks := h.cks
  ckr := h.ckr
  ns := h.ns.trans (sentOn_update hsend).symm
  pn := h.pn.trans (sentBefore_update hbefore).symm
  nr := h.nr.trans (receivableOn_le_update len ℓ j)
  stored := by
    intro d n msgKey
    rw [h.stored]
    refine exists_congr fun i ↦ and_congr_left fun _ ↦ ?_
    exact passed_update_iff hparity
  passed := by
    intro d n htaken
    obtain ⟨i, hi, hd⟩ := h.passed d n htaken
    exact ⟨i, (passed_update_iff hparity).1 hi, hd⟩

/-! ### One step of one side -/

/-- **Sending.** The message takes the next position of the chain below the sender's rung. -/
theorem send {s' : DoubleRatchetState B} {header : Header B} {msgKey : Block B 32}
    (h : OnRung P L len ℓ taken s)
    (hsend : DoubleRatchetState.sendMessageKey P s = .ok ((header, msgKey), s')) :
    ∃ i, ℓ = i + 1 ∧ header.dh = L.pub P (i + 1) ∧ header.pn.toNat = sentBefore len (i + 1) ∧
      header.n.toNat = len i ∧ msgKey = L.key P i (len i) ∧
      OnRung P L (Function.update len i (len i + 1)) ℓ taken s' := by
  obtain ⟨cks, dhs, ns, hcks, hdhs, hinc, rfl, rfl, rfl⟩ :=
    DoubleRatchetState.sendMessageKey_eq_ok hsend
  have hns := checkedInc_eq_ok hinc
  cases ℓ with
  | zero => rw [h.cks] at hcks; cases hcks
  | succ i =>
    have hlen : s.ns.toNat = len i := h.ns
    rw [h.cks, Ladder.sendingKey, Option.some_inj] at hcks
    rw [h.dhs, Option.some_inj] at hdhs
    subst hcks hdhs
    refine ⟨i, rfl, rfl, h.pn, hlen, by rw [hlen]; rfl, ?_⟩
    exact
      { dhs := h.dhs
        dhr := h.dhr
        rk := h.rk
        cks := by
          rw [Ladder.sendingKey, hns]
          rfl
        ckr := h.ckr
        ns := by
          rw [hns, hlen, sentOn, Function.update_self]
        pn := h.pn.trans (sentBefore_update (by omega)).symm
        nr := h.nr.trans (receivableOn_le_update len (i + 1) i)
        stored := by
          intro d n msgKey
          rw [h.stored]
          refine exists_congr fun j ↦ and_congr_left fun _ ↦ ?_
          exact passed_update_iff (by omega)
        passed := by
          intro d n htaken
          obtain ⟨j, hj, hd⟩ := h.passed d n htaken
          exact ⟨j, (passed_update_iff (by omega)).1 hj, hd⟩ }

/-- The messages taken once one more is. -/
def take (taken : Block B 32 → UInt32 → Prop) (header : Header B) : Block B 32 → UInt32 → Prop :=
  fun d n ↦ taken d n ∨ (d = header.dh ∧ n = header.n)

/-- **Using a stored key.** -/
theorem receive_stored {header : Header B} {msgKey : Block B 32} (h : OnRung P L len ℓ taken s)
    (hlook : s.mkskipped.lookup (header.dh, header.n) = some msgKey) :
    OnRung P L len ℓ (take taken header)
      { s with mkskipped := s.mkskipped.erase (header.dh, header.n) } where
  dhs := h.dhs
  dhr := h.dhr
  rk := h.rk
  cks := h.cks
  ckr := h.ckr
  ns := h.ns
  pn := h.pn
  nr := h.nr
  stored := by
    intro d n mk'
    by_cases hdn : d = header.dh ∧ n = header.n
    · obtain ⟨rfl, rfl⟩ := hdn
      rw [Finmap.lookup_erase]
      refine ⟨nofun, ?_⟩
      rintro ⟨i, -, -, hnot, -⟩
      exact absurd (.inr ⟨rfl, rfl⟩) hnot
    · rw [Finmap.lookup_erase_ne (by rintro ⟨⟩; exact hdn ⟨rfl, rfl⟩), h.stored]
      simp only [take, hdn, or_false]
  passed := by
    rintro d n (htaken | ⟨rfl, rfl⟩)
    · exact h.passed d n htaken
    · obtain ⟨i, hi, hd, -, -⟩ := (h.stored _ _ _).1 hlook
      exact ⟨i, hi, hd⟩

/-- The key found on the current receiving chain. -/
theorem receive_key {s' : DoubleRatchetState B} {n : UInt32} {msgKey : Block B 32} {i : ℕ}
    (h : OnRung P L len (i + 2) taken s)
    (hok : (DoubleRatchetState.skipMessageKeys P s n >>=
      DoubleRatchetState.advanceReceiving P) = .ok (msgKey, s')) :
    msgKey = L.key P i (max s.nr.toNat n.toNat) := by
  obtain ⟨hkey, -, -, -⟩ := DoubleRatchetState.receiveOnChain_eq_ok h.dhr h.ckr hok
  rw [hkey, ← messageKey_add, Ladder.key]
  congr 1
  omega

/-- **Receiving on the current chain**, at a position not passed before. -/
theorem receive_current {s' : DoubleRatchetState B} {header : Header B} {msgKey : Block B 32}
    {i : ℕ} (h : OnRung P L len (i + 2) taken s) (hinj : Set.InjOn (L.pub P) (Set.Iic (i + 2)))
    (hdh : header.dh = L.pub P (i + 1)) (hnr : s.nr.toNat ≤ header.n.toNat)
    (hlen : header.n.toNat < len i)
    (hok : (DoubleRatchetState.skipMessageKeys P s header.n >>=
      DoubleRatchetState.advanceReceiving P) = .ok (msgKey, s')) :
    OnRung P L len (i + 2) (take taken header) s' := by
  obtain ⟨-, hnr', hrest, hlook⟩ := DoubleRatchetState.receiveOnChain_eq_ok h.dhr h.ckr hok
  have hmax : max s.nr.toNat header.n.toNat = header.n.toNat := by omega
  rw [hmax] at hnr'
  rw [hrest]
  have hpub : ∀ {j m n : ℕ}, Passed len (i + 2) m j n → L.pub P (i + 1) = L.pub P (j + 1) →
      j = i := by
    rintro j m n ⟨-, hj⟩ heq
    have := hinj (by simp only [Set.mem_Iic]; omega) (by simp only [Set.mem_Iic]; omega) heq
    omega
  have hnew : ∀ {d n}, taken d n → d = header.dh → n.toNat < s.nr.toNat := by
    intro d n htaken hd
    obtain ⟨j, hj, hdj⟩ := h.passed d n htaken
    obtain rfl := hpub hj (by rw [← hdh, ← hd, hdj])
    rcases hj with ⟨-, hj | hj⟩
    · exact hj.2
    · omega
  exact
    { dhs := h.dhs
      dhr := h.dhr
      rk := h.rk
      cks := h.cks
      ckr := by
        have hsum : s.nr.toNat + (s'.nr.toNat - s.nr.toNat) = s'.nr.toNat := by omega
        dsimp only
        rw [Ladder.receivingKey, ← chainKey_add, hsum]
      ns := h.ns
      pn := h.pn
      nr := by
        show s'.nr.toNat ≤ len i
        omega
      stored := by
        intro d n mk'
        dsimp only
        rw [hlook, hnr']
        by_cases hin : d = L.pub P (i + 1) ∧ s.nr.toNat ≤ n.toNat ∧ n.toNat < header.n.toNat
        · -- a position skipped by this very step
          have hsum : s.nr.toNat + (n.toNat - s.nr.toNat) = n.toNat := by omega
          rw [if_pos hin, Option.some_inj, ← messageKey_add, hsum, eq_comm]
          constructor
          · rintro rfl
            refine ⟨i, ⟨by omega, .inl ⟨rfl, by omega⟩⟩, hin.1, ?_, rfl⟩
            rintro (htaken | ⟨-, rfl⟩)
            · have := hnew htaken (by rw [hin.1, hdh])
              omega
            · omega
          · rintro ⟨j, hj, hd, -, rfl⟩
            rw [hpub hj (by rw [← hin.1, hd])]
            rfl
        · rw [if_neg hin, h.stored]
          refine exists_congr fun j ↦ ?_
          constructor
          · rintro ⟨⟨hmod, hj⟩, hd, hnot, rfl⟩
            refine ⟨⟨hmod, hj.imp (fun hj ↦ ⟨hj.1, by omega⟩) id⟩, hd, ?_, rfl⟩
            rintro (htaken | ⟨rfl, rfl⟩)
            · exact hnot htaken
            · obtain rfl := hpub ⟨hmod, hj⟩ (by rw [← hdh, hd])
              omega
          · rintro ⟨⟨hmod, hj⟩, hd, hnot, rfl⟩
            refine ⟨⟨hmod, ?_⟩, hd, fun htaken ↦ hnot (.inl htaken), rfl⟩
            rcases hj with ⟨hji, hlt⟩ | hj
            · obtain rfl : j = i := by omega
              refine .inl ⟨hji, ?_⟩
              have hne : n.toNat ≠ header.n.toNat := fun heq ↦
                hnot (.inr ⟨hd.trans hdh.symm, UInt32.toNat_inj.1 heq⟩)
              have : ¬ (s.nr.toNat ≤ n.toNat ∧ n.toNat < header.n.toNat) := fun hlt ↦
                hin ⟨hd, hlt⟩
              omega
            · exact .inr hj
      passed := by
        rintro d n (htaken | ⟨rfl, rfl⟩)
        · obtain ⟨j, ⟨hmod, hj⟩, hd⟩ := h.passed d n htaken
          exact ⟨j, ⟨hmod, hj.imp (fun hj ↦ ⟨hj.1, by dsimp only; omega⟩) id⟩, hd⟩
        · exact ⟨i, ⟨by omega, .inl ⟨rfl, by dsimp only; omega⟩⟩, hdh⟩ }

/-- **Closing the receiving chain** at its full length stores all that is left of it. -/
theorem close {t : DoubleRatchetState B} {upTo : UInt32} (h : OnRung P L len ℓ taken s)
    (hupTo : upTo.toNat = receivableOn len ℓ) (hinj : Set.InjOn (L.pub P) (Set.Iic ℓ))
    (hskip : DoubleRatchetState.skipMessageKeys P s upTo = .ok t) :
    t.dhs = s.dhs ∧ t.rk = s.rk ∧ t.ns = s.ns ∧
      ∀ d n msgKey, t.mkskipped.lookup (d, n) = some msgKey ↔
        ∃ i, Passed len (ℓ + 2) 0 i n.toNat ∧ d = L.pub P (i + 1) ∧ ¬ taken d n ∧
          msgKey = L.key P i n.toNat := by
  match ℓ, h, hupTo, hinj with
  | 0, h, _, _ | 1, h, _, _ =>
    obtain rfl := DoubleRatchetState.skipMessageKeys_of_ckr_none h.ckr hskip
    refine ⟨rfl, rfl, rfl, fun d n msgKey ↦ ?_⟩
    rw [h.stored]
    refine exists_congr fun i ↦ and_congr_left fun _ ↦ ?_
    unfold Passed
    omega
  | k + 2, h, hupTo, hinj =>
    have hnr := h.nr
    rw [receivableOn] at hupTo hnr
    obtain ⟨-, hrest, hlook⟩ := DoubleRatchetState.skipMessageKeys_eq_ok h.dhr h.ckr hskip
    refine ⟨by rw [hrest], by rw [hrest], by rw [hrest], fun d n msgKey ↦ ?_⟩
    rw [hlook, hupTo]
    by_cases hin : d = L.pub P (k + 1) ∧ s.nr.toNat ≤ n.toNat ∧ n.toNat < len k
    · have hsum : s.nr.toNat + (n.toNat - s.nr.toNat) = n.toNat := by omega
      have hpub : ∀ {j m : ℕ}, Passed len (k + 4) m j n.toNat ∨ Passed len (k + 2) m j n.toNat →
          m ≤ n.toNat → d = L.pub P (j + 1) → j = k := by
        intro j m hj hm hd
        have hk : k + 1 ∈ Set.Iic (k + 2) := Nat.le_succ _
        have hj' : j + 1 ∈ Set.Iic (k + 2) := by
          unfold Passed at hj
          rw [Set.mem_Iic]
          omega
        have := hinj hk hj' (by rw [← hd, hin.1])
        omega
      rw [if_pos hin, Option.some_inj, ← messageKey_add, hsum, eq_comm]
      constructor
      · rintro rfl
        refine ⟨k, ⟨by omega, .inr ⟨by omega, hin.2.2⟩⟩, hin.1, fun htaken ↦ ?_, rfl⟩
        obtain ⟨j, hj, hd⟩ := h.passed d n htaken
        obtain rfl := hpub (.inr hj) hin.2.1 hd
        unfold Passed at hj
        omega
      · rintro ⟨j, hj, hd, -, rfl⟩
        rw [hpub (.inl hj) (by omega) hd]
        rfl
    · rw [if_neg hin, h.stored]
      refine exists_congr fun j ↦ and_congr_left ?_
      rintro ⟨hd, -, -⟩
      have hin' : j = k → ¬ (s.nr.toNat ≤ n.toNat ∧ n.toNat < len k) := by
        rintro rfl hlt
        exact hin ⟨hd, hlt⟩
      by_cases hjk : j = k
      · have := hin' hjk
        subst hjk
        unfold Passed
        omega
      · unfold Passed
        omega

/-- **A DH ratchet step** for the next rung's key leads two rungs up, where nothing has been sent or
received yet. -/
theorem ratchet {t s' : DoubleRatchetState B} {header : Header B} {fresh : Block B 32}
    (hP : IdealDh P) (h : OnRung P L len ℓ taken s) (hdh : header.dh = L.pub P (ℓ + 1))
    (hpn : header.pn.toNat = receivableOn len ℓ) (hlen : len (ℓ + 1) = 0)
    (hinj : Set.InjOn (L.pub P) (Set.Iic ℓ))
    (hskip : DoubleRatchetState.skipMessageKeys P s header.pn = .ok t)
    (hok : DoubleRatchetState.dhRatchet P fresh header t = .ok s') :
    OnRung P (L.extend (ℓ + 2) fresh) len (ℓ + 2) taken s' ∧ s'.nr = 0 := by
  obtain ⟨hdhs, hrk, hns, hstored⟩ := h.close hpn hinj hskip
  have hroot : (L.extend (ℓ + 2) fresh).rootKey P (ℓ + 1) = L.rootKey P (ℓ + 1) :=
    Ladder.rootKey_extend (by omega)
  have hpub : (L.extend (ℓ + 2) fresh).pub P (ℓ + 1) = L.pub P (ℓ + 1) :=
    Ladder.pub_extend (by omega)
  have hkdf : kdfRk P (L.rootKey P (ℓ + 1)) (P.diffieHellman fresh (L.pub P (ℓ + 1))) =
      ((L.extend (ℓ + 2) fresh).rootKey P (ℓ + 2), (L.extend (ℓ + 2) fresh).startKey P (ℓ + 1)) := by
    have hdh' : (L.extend (ℓ + 2) fresh).dh P (ℓ + 1) =
        P.diffieHellman fresh (L.pub P (ℓ + 1)) := by
      rw [Ladder.dh, Ladder.secret_extend_self, hpub]
    rw [← hdh', ← hroot]
    rfl
  rw [DoubleRatchetState.dhRatchet_of_dhs (hdhs.trans h.dhs), hrk, h.rk, hdh,
    Ladder.kdfRk_eq_of_comm hP.comm] at hok
  dsimp only at hok
  rw [hkdf, Except.ok.injEq] at hok
  subst hok
  refine ⟨?_, rfl⟩
  exact
    { dhs := by rw [Ladder.secret_extend_self]
      dhr := by rw [Ladder.peerKey, hpub]
      rk := rfl
      cks := rfl
      ckr := by
        have hstart : (L.extend (ℓ + 2) fresh).startKey P ℓ = L.startKey P ℓ :=
          Ladder.startKey_extend (by omega)
        rw [Ladder.receivingKey, hstart]
        rfl
      ns := by
        rw [sentOn, hlen]
        rfl
      pn := by
        dsimp only
        rw [hns, h.ns]
        cases ℓ with
        | zero => rfl
        | succ i => rfl
      nr := Nat.zero_le _
      stored := by
        intro d n msgKey
        dsimp only
        rw [hstored]
        refine exists_congr fun i ↦ and_congr_right fun hi ↦ ?_
        have hik : i + 1 < ℓ + 2 := by
          rcases hi with ⟨-, hi | hi⟩ <;> omega
        rw [Ladder.pub_extend hik, Ladder.key_extend hik]
      passed := by
        intro d n htaken
        obtain ⟨i, hi, hd⟩ := h.passed d n htaken
        have hnr := h.nr
        have hik : i + 1 < ℓ + 2 := by
          rcases hi with ⟨-, hi | hi⟩ <;> omega
        refine ⟨i, ?_, by rw [hd, Ladder.pub_extend hik]⟩
        rcases hi with ⟨hmod, ⟨rfl, hlt⟩ | hlt⟩
        · rw [receivableOn] at hnr
          exact ⟨by omega, .inr ⟨by omega, by omega⟩⟩
        · exact ⟨by omega, .inr ⟨by omega, by omega⟩⟩ }

/-! ### One delivery to one side -/

/-- What was sent before a rung is what its peer may still receive there. -/
theorem sentBefore_succ (len : ℕ → ℕ) (i : ℕ) : sentBefore len (i + 1) = receivableOn len i := by
  match i with
  | 0 | 1 | i + 2 => rfl

/-- A position behind a party is stored unless it was used. -/
theorem stored_of_passed {d : Block B 32} {n : UInt32} {i : ℕ} (h : OnRung P L len ℓ taken s)
    (hpass : Passed len ℓ s.nr.toNat i n.toNat) (hd : d = L.pub P (i + 1)) (hnot : ¬ taken d n) :
    s.mkskipped.lookup (d, n) = some (L.key P i n.toNat) :=
  (h.stored d n _).2 ⟨i, hpass, hd, hnot, rfl⟩

section Delivery

variable {header : Header B} {fresh : Block B 32} {i k : ℕ}

/-- A party whose peer key is the key of rung `i + 1` stands on rung `i + 2`. -/
theorem rung_of_dhr (h : OnRung P L len ℓ taken s) (hinj : Set.InjOn (L.pub P) (Set.Iic k))
    (hℓ : ℓ ≤ k) (hi : i + 1 ≤ k) (hdhr : s.dhr = some (L.pub P (i + 1))) : ℓ = i + 2 := by
  rw [h.dhr] at hdhr
  cases ℓ with
  | zero => cases hdhr
  | succ j =>
    rw [Ladder.peerKey, Option.some_inj] at hdhr
    have := hinj (by rw [Set.mem_Iic]; omega) (by rw [Set.mem_Iic]; omega) hdhr
    omega

/-- The stored key of a header is the key of its chain. -/
theorem lookup_eq_key {msgKey : Block B 32} (h : OnRung P L len ℓ taken s)
    (hinj : Set.InjOn (L.pub P) (Set.Iic k)) (hℓ : ℓ ≤ k) (hi : i + 1 ≤ k)
    (hdh : header.dh = L.pub P (i + 1))
    (hlook : s.mkskipped.lookup (header.dh, header.n) = some msgKey) :
    i % 2 = ℓ % 2 ∧ ¬ taken header.dh header.n ∧ msgKey = L.key P i header.n.toNat := by
  obtain ⟨j, ⟨hmod, hj⟩, hd, hnot, rfl⟩ := (h.stored _ _ _).1 hlook
  have hji : i + 1 = j + 1 :=
    hinj (by rw [Set.mem_Iic]; omega) (by rw [Set.mem_Iic]; omega) (hdh.symm.trans hd)
  obtain rfl : i = j := by omega
  exact ⟨hmod, hnot, rfl⟩

variable (fresh) in
/-- **A message that was not accepted yet** is found, whichever way it comes: the key is the right
one, or a limit was hit. -/
theorem receive_genuine (hP : IdealDh P) (h : OnRung P L len ℓ taken s)
    (hinj : Set.InjOn (L.pub P) (Set.Iic k)) (hℓ : ℓ ≤ k) (hi : i + 1 ≤ k) (hiℓ : i ≤ ℓ)
    (hmod : i % 2 = ℓ % 2) (hdh : header.dh = L.pub P (i + 1))
    (hpn : header.pn.toNat = sentBefore len (i + 1)) (hn : header.n.toNat < len i)
    (hlen : len (ℓ + 1) = 0) (hnot : ¬ taken header.dh header.n) :
    DoubleRatchetState.ratchetReceiveKey P fresh header s = .error .limitExceeded ∨
      ∃ s', DoubleRatchetState.ratchetReceiveKey P fresh header s =
        .ok (L.key P i header.n.toNat, s') := by
  rcases DoubleRatchetState.ratchetReceiveKey_cases P fresh header s with
    ⟨msgKey, hlook, hr⟩ | ⟨hlook, hdhr, hr⟩ | ⟨hlook, hdhr, hr⟩
  · obtain ⟨-, -, rfl⟩ := h.lookup_eq_key hinj hℓ hi hdh hlook
    exact .inr ⟨_, hr⟩
  · -- the current receiving chain
    obtain rfl := h.rung_of_dhr hinj hℓ hi (hdh ▸ hdhr)
    have hnr : s.nr.toNat ≤ header.n.toNat := by
      by_contra hlt
      have := h.stored_of_passed ⟨hmod, .inl ⟨rfl, by omega⟩⟩ hdh hnot
      rw [hlook] at this
      cases this
    rw [hr]
    cases hrec : DoubleRatchetState.skipMessageKeys P s header.n >>=
      DoubleRatchetState.advanceReceiving P with
    | error e =>
      rw [DoubleRatchetState.receiveOnChain_eq_error (by rw [h.dhr]; rfl) (by rw [h.ckr]; rfl) hrec]
      exact .inl rfl
    | ok r =>
      obtain ⟨msgKey, s'⟩ := r
      rw [h.receive_key hrec, Nat.max_eq_right hnr]
      exact .inr ⟨s', rfl⟩
  · -- a chain above the receiver: any other would be passed
    have hiℓ : i = ℓ := by
      by_contra hne
      have hlt : i + 2 ≤ ℓ := by omega
      rcases Nat.eq_or_lt_of_le hlt with rfl | hlt
      · exact hdhr (by rw [h.dhr, hdh]; rfl)
      · have := h.stored_of_passed ⟨hmod, .inr ⟨hlt, hn⟩⟩ hdh hnot
        rw [hlook] at this
        cases this
    subst hiℓ
    cases hskip : DoubleRatchetState.skipMessageKeys P s header.pn with
    | error e =>
      have hsome : s.ckr.isSome → s.dhr.isSome := by
        rw [h.ckr, h.dhr]
        cases i with
        | zero => exact nofun
        | succ j => exact fun _ ↦ rfl
      rw [hr, hskip, DoubleRatchetState.skipMessageKeys_eq_error hsome hskip]
      exact .inl rfl
    | ok t =>
      rw [sentBefore_succ] at hpn
      have hinj' : Set.InjOn (L.pub P) (Set.Iic i) := hinj.mono (Set.Iic_subset_Iic.2 (by omega))
      have hdhs : t.dhs = some (L.secret i) := by
        rw [(h.close hpn hinj' hskip).1, h.dhs]
      obtain ⟨u, hrat⟩ : ∃ u, DoubleRatchetState.dhRatchet P fresh header t = .ok u :=
        ⟨_, DoubleRatchetState.dhRatchet_of_dhs hdhs⟩
      obtain ⟨hon, hnr⟩ := h.ratchet hP hdh hpn hlen hinj' hskip hrat
      have hbind : DoubleRatchetState.ratchetReceiveKey P fresh header s =
          DoubleRatchetState.skipMessageKeys P u header.n >>=
            DoubleRatchetState.advanceReceiving P := by
        rw [hr, hskip]
        show DoubleRatchetState.dhRatchet P fresh header t >>= _ = _
        rw [hrat]
        rfl
      rw [hbind]
      cases hrec : DoubleRatchetState.skipMessageKeys P u header.n >>=
        DoubleRatchetState.advanceReceiving P with
      | error e =>
        rw [DoubleRatchetState.receiveOnChain_eq_error (by rw [hon.dhr]; rfl) (by rw [hon.ckr]; rfl)
          hrec]
        exact .inl rfl
      | ok r =>
        obtain ⟨msgKey, s'⟩ := r
        rw [hon.receive_key hrec, hnr, Ladder.key_extend (by omega)]
        exact .inr ⟨s', by simp only [UInt32.toNat_zero, Nat.zero_max]⟩

/-- Skipping changes neither the ratchet secret nor the root key. -/
theorem skip_frame {t : DoubleRatchetState B} {upTo : UInt32} (h : OnRung P L len ℓ taken s)
    (hskip : DoubleRatchetState.skipMessageKeys P s upTo = .ok t) :
    t.dhs = some (L.secret ℓ) ∧ t.rk = L.rootKey P ℓ := by
  match ℓ, h with
  | 0, h | 1, h =>
    obtain rfl := DoubleRatchetState.skipMessageKeys_of_ckr_none h.ckr hskip
    exact ⟨h.dhs, h.rk⟩
  | j + 2, h =>
    obtain ⟨-, hrest, -⟩ := DoubleRatchetState.skipMessageKeys_eq_ok h.dhr h.ckr hskip
    rw [hrest]
    exact ⟨h.dhs, h.rk⟩

/-- A DH ratchet step reaches the key of a message only from the rung right below it. -/
theorem rung_of_ratchet_key (hkdf : IdealKdf P) (hP : IdealDh P) {t u s' : DoubleRatchetState B}
    {upTo : UInt32} (h : OnRung P L len ℓ taken s) (hdh : header.dh = L.pub P (i + 1))
    (hskip : DoubleRatchetState.skipMessageKeys P s upTo = .ok t)
    (hrat : DoubleRatchetState.dhRatchet P fresh header t = .ok u)
    (hok : (DoubleRatchetState.skipMessageKeys P u header.n >>=
      DoubleRatchetState.advanceReceiving P) = .ok (L.key P i header.n.toNat, s')) :
    L.pub P ℓ = L.pub P i := by
  obtain ⟨hdhs, hrk⟩ := h.skip_frame hskip
  rw [DoubleRatchetState.dhRatchet_of_dhs hdhs, hrk, hdh] at hrat
  cases hrat
  obtain ⟨hkey, -, -, -⟩ := DoubleRatchetState.receiveOnChain_eq_ok rfl rfl hok
  exact (Ladder.eq_of_ratchet_key hkdf hP hkey.symm).1

/-- **A key that opens a message** is found only where the message stands: the message is the
peer's, it was not accepted before, and the receiver moves on past it. -/
theorem receive (hkdf : IdealKdf P) (hP : IdealDh P) {s' : DoubleRatchetState B}
    (h : OnRung P L len ℓ taken s) (hinj : Set.InjOn (L.pub P) (Set.Iic k)) (hℓ : ℓ ≤ k)
    (hi : i + 1 ≤ k) (hfresh : ∀ j ≤ k, P.publicKey fresh ≠ L.pub P j)
    (hdh : header.dh = L.pub P (i + 1)) (hpn : header.pn.toNat = sentBefore len (i + 1))
    (hn : header.n.toNat < len i) (hlen : i = ℓ → len (ℓ + 1) = 0)
    (hok : DoubleRatchetState.ratchetReceiveKey P fresh header s =
      .ok (L.key P i header.n.toNat, s')) :
    i % 2 = ℓ % 2 ∧ ¬ taken header.dh header.n ∧
      (OnRung P L len ℓ (take taken header) s' ∨
        (i = ℓ ∧ OnRung P (L.extend (ℓ + 2) fresh) len (ℓ + 2) (take taken header) s')) := by
  rcases DoubleRatchetState.ratchetReceiveKey_cases P fresh header s with
    ⟨msgKey, hlook, hr⟩ | ⟨hlook, hdhr, hr⟩ | ⟨hlook, hdhr, hr⟩
  · rw [hr] at hok
    cases hok
    obtain ⟨hmod, hnot, -⟩ := h.lookup_eq_key hinj hℓ hi hdh hlook
    exact ⟨hmod, hnot, .inl (h.receive_stored hlook)⟩
  · obtain rfl := h.rung_of_dhr hinj hℓ hi (hdh ▸ hdhr)
    rw [hr] at hok
    -- a position already passed would give the key of a later one
    have hnr : s.nr.toNat ≤ header.n.toNat := by
      obtain ⟨-, -, hmax⟩ := messageKey_inj hkdf (h.receive_key hok)
      omega
    have hinj' := hinj.mono (Set.Iic_subset_Iic.2 hℓ)
    refine ⟨by omega, fun htaken ↦ ?_, .inl (h.receive_current hinj' hdh hnr hn hok)⟩
    obtain ⟨j, hj, hd⟩ := h.passed _ _ htaken
    have hji : i + 1 = j + 1 := by
      refine hinj' ?_ ?_ (hdh.symm.trans hd)
      · rw [Set.mem_Iic]; omega
      · rw [Set.mem_Iic]; unfold Passed at hj; omega
    unfold Passed at hj
    omega
  · rw [hr] at hok
    obtain ⟨t, hskip, hok⟩ := Except.bind_eq_ok.1 hok
    obtain ⟨u, hrat, hok⟩ := Except.bind_eq_ok.1 hok
    obtain rfl : i = ℓ := (hinj (by rw [Set.mem_Iic]; omega) (by rw [Set.mem_Iic]; omega)
      (h.rung_of_ratchet_key hkdf hP hdh hskip hrat hok)).symm
    have hinj' : Set.InjOn (L.pub P) (Set.Iic i) := hinj.mono (Set.Iic_subset_Iic.2 hℓ)
    obtain ⟨hon, hnr⟩ := h.ratchet hP hdh (by rw [hpn, sentBefore_succ]) (hlen rfl) hinj' hskip hrat
    have hext := Ladder.injOn_extend (hinj.mono (Set.Iic_subset_Iic.2 hi))
      fun j hj ↦ hfresh j (by omega)
    refine ⟨rfl, fun htaken ↦ ?_, .inr ⟨rfl, hon.receive_current hext ?_ ?_ hn hok⟩⟩
    · obtain ⟨j, hj, hd⟩ := h.passed _ _ htaken
      unfold Passed at hj
      have hji : i + 1 = j + 1 :=
        hinj (by rw [Set.mem_Iic]; omega) (by rw [Set.mem_Iic]; omega) (hdh.symm.trans hd)
      omega
    · rw [hdh, Ladder.pub_extend (by omega)]
    · rw [hnr]
      exact Nat.zero_le _

end Delivery

end OnRung

end VoiceChatCrypto
