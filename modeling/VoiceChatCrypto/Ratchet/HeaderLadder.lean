import VoiceChatCrypto.Ratchet.HeaderChains
import VoiceChatCrypto.Ratchet.Ladder

/-!
# The key ladder with header keys

The header-encrypting ratchet climbs the ladder of `Ratchet/Ladder.lean`: the same root keys, the same
first chain keys. Each root derivation yields a third key, the header key of the chain after the next
one, so that chain `i + 2` has its header key before anyone sends on it; chains `0` and `1` use the
two shared header keys. Below its first key a chain is derived differently.

A party on rung `ℓ` seals headers with the key of chain `ℓ - 1`, expects those of chain `ℓ - 2`, and
takes a header of chain `ℓ` for the sign of a DH ratchet step. It can tell them apart because header
keys of one direction are distinct (`HeaderLadder.headerKey_inj`).
-/

open Alphabet

namespace VoiceChatCrypto

/-! ### Stored keys -/

section Stores

variable {κ V : Type} [DecidableEq κ]

/-- **A store of skipped keys**: those of the positions passed and not used. Chains are filed under
their names. -/
structure Stores (name : ℕ → κ) (key : ℕ → ℕ → V) (len : ℕ → ℕ) (ℓ nr : ℕ)
    (taken : ℕ → ℕ → Prop) (m : Dict (κ × UInt32) V) : Prop where
  /-- A stored key is that of a position which was passed and not used. -/
  stored : ∀ d n v, m.lookup (d, n) = some v ↔
    ∃ i, Passed len ℓ nr i n.toNat ∧ d = name i ∧ ¬ taken i n.toNat ∧ v = key i n.toNat
  /-- Only positions that were passed have been used. -/
  passed : ∀ i n, taken i n → Passed len ℓ nr i n

/-- Chains of one direction below a rung have different names, so that a store may file their keys
under them. -/
def Named (name : ℕ → κ) (ℓ : ℕ) : Prop :=
  ∀ i j, i + 2 ≤ ℓ → j + 2 ≤ ℓ → i % 2 = j % 2 → name i = name j → i = j

namespace Stores

variable {name name' : ℕ → κ} {key key' : ℕ → ℕ → V} {len : ℕ → ℕ} {ℓ nr : ℕ}
  {taken : ℕ → ℕ → Prop} {m m' : Dict (κ × UInt32) V}

/-- The positions taken once one more is. -/
def take (taken : ℕ → ℕ → Prop) (i n : ℕ) : ℕ → ℕ → Prop := fun j k ↦ taken j k ∨ (j = i ∧ k = n)

theorem lt_of_passed {i n : ℕ} (h : Passed len ℓ nr i n) : i + 2 ≤ ℓ := by
  rcases h with ⟨-, hi | hi⟩ <;> omega

omit [DecidableEq κ] in
/-- Chains below a rung are told apart by their names. -/
theorem eq_of_passed (hname : Named name ℓ) {i j n k : ℕ} (hi : Passed len ℓ nr i n)
    (hj : Passed len ℓ nr j k) (heq : name i = name j) : i = j :=
  hname i j (lt_of_passed hi) (lt_of_passed hj) (hi.1.trans hj.1.symm) heq

/-- A position behind a party is stored unless it was used. -/
theorem lookup (h : Stores name key len ℓ nr taken m) {i : ℕ} {n : UInt32}
    (hi : Passed len ℓ nr i n.toNat) (hnot : ¬ taken i n.toNat) :
    m.lookup (name i, n) = some (key i n.toNat) :=
  (h.stored _ _ _).2 ⟨i, hi, rfl, hnot, rfl⟩

/-- Names and keys matter only below the rung. -/
theorem congr (h : Stores name key len ℓ nr taken m) (hname : ∀ i, i + 2 ≤ ℓ → name' i = name i)
    (hkey : ∀ i n, i + 2 ≤ ℓ → key' i n = key i n) : Stores name' key' len ℓ nr taken m where
  stored d n v := by
    rw [h.stored]
    refine exists_congr fun i ↦ and_congr_right fun hi ↦ ?_
    rw [hname i (lt_of_passed hi), hkey i _ (lt_of_passed hi)]
  passed := h.passed

/-- A chain that is not closed may grow. -/
theorem grow (h : Stores name key len ℓ nr taken m) {j x : ℕ} (hj : j % 2 = ℓ % 2 → ℓ ≤ j + 2) :
    Stores name key (Function.update len j x) ℓ nr taken m where
  stored d n v := by
    rw [h.stored]
    exact exists_congr fun i ↦ and_congr_left fun _ ↦ passed_update_iff hj
  passed i n htaken := (passed_update_iff hj).1 (h.passed i n htaken)

/-- **Using a stored key.** -/
theorem use (h : Stores name key len ℓ nr taken m) (hname : Named name ℓ) {i : ℕ} {n : UInt32}
    (hi : Passed len ℓ nr i n.toNat) :
    Stores name key len ℓ nr (take taken i n.toNat) (m.erase (name i, n)) where
  stored d k v := by
    by_cases hdk : d = name i ∧ k = n
    · obtain ⟨rfl, rfl⟩ := hdk
      rw [Finmap.lookup_erase]
      refine ⟨nofun, ?_⟩
      rintro ⟨j, hj, heq, hnot, -⟩
      exact absurd (.inr ⟨(eq_of_passed hname hi hj heq).symm, rfl⟩) hnot
    · rw [Finmap.lookup_erase_ne (by rintro ⟨⟩; exact hdk ⟨rfl, rfl⟩), h.stored]
      refine exists_congr fun j ↦ and_congr_right fun _ ↦ and_congr_right fun hd ↦
        and_congr_left fun _ ↦ not_congr ⟨.inl, ?_⟩
      rintro (htaken | ⟨rfl, hk⟩)
      · exact htaken
      · exact absurd ⟨hd, UInt32.toNat_inj.1 hk⟩ hdk
  passed := by
    rintro j k (htaken | ⟨rfl, rfl⟩)
    · exact h.passed j k htaken
    · exact hi

/-- **Moving on** along the current chain to just behind position `n`, and using that one. -/
theorem advance {i : ℕ} {n : UInt32} (h : Stores name key len (i + 2) nr taken m)
    (hname : Named name (i + 2)) (hnr : nr ≤ n.toNat)
    (hlook : ∀ k : κ × UInt32, m'.lookup k =
      if k.1 = name i ∧ nr ≤ k.2.toNat ∧ k.2.toNat < n.toNat then some (key i k.2.toNat)
      else m.lookup k) :
    Stores name key len (i + 2) (n.toNat + 1) (take taken i n.toNat) m' where
  stored d k v := by
    rw [hlook]
    have hcur : ∀ {j x}, Passed len (i + 2) x j k.toNat → d = name i → d = name j → j = i := by
      intro j x hj hd hd'
      exact hname j i (lt_of_passed hj) le_rfl (by have := hj.1; omega) (hd'.symm.trans hd)
    by_cases hin : d = name i ∧ nr ≤ k.toNat ∧ k.toNat < n.toNat
    · -- a position skipped by this very step
      rw [if_pos hin, Option.some_inj, eq_comm]
      constructor
      · rintro rfl
        refine ⟨i, ⟨by omega, .inl ⟨rfl, by omega⟩⟩, hin.1, ?_, rfl⟩
        rintro (htaken | ⟨-, hk⟩)
        · have := h.passed _ _ htaken
          unfold Passed at this
          omega
        · omega
      · rintro ⟨j, hj, hd, -, rfl⟩
        rw [hcur hj hin.1 hd]
    · rw [if_neg hin, h.stored]
      refine exists_congr fun j ↦ ?_
      constructor
      · rintro ⟨⟨hmod, hj⟩, hd, hnot, rfl⟩
        refine ⟨⟨hmod, hj.imp (fun hj ↦ ⟨hj.1, by omega⟩) id⟩, hd, ?_, rfl⟩
        rintro (htaken | ⟨rfl, hk⟩)
        · exact hnot htaken
        · omega
      · rintro ⟨⟨hmod, hj⟩, hd, hnot, rfl⟩
        refine ⟨⟨hmod, ?_⟩, hd, fun htaken ↦ hnot (.inl htaken), rfl⟩
        rcases hj with ⟨hji, hlt⟩ | hj
        · obtain rfl : j = i := by omega
          have hne : k.toNat ≠ n.toNat := fun heq ↦ hnot (.inr ⟨rfl, heq⟩)
          have hout : ¬ (nr ≤ k.toNat ∧ k.toNat < n.toNat) := fun hlt ↦ hin ⟨hd, hlt⟩
          exact .inl ⟨hji, by omega⟩
        · exact .inr hj
  passed := by
    rintro j k (htaken | ⟨rfl, rfl⟩)
    · obtain ⟨hmod, hj⟩ := h.passed j k htaken
      exact ⟨hmod, hj.imp (fun hj ↦ ⟨hj.1, by omega⟩) id⟩
    · exact ⟨by omega, .inl ⟨rfl, by omega⟩⟩

/-- **Closing the current chain** at its full length. -/
theorem close {i : ℕ} (h : Stores name key len (i + 2) nr taken m) (hname : Named name (i + 2))
    (hnr : nr ≤ len i)
    (hlook : ∀ k : κ × UInt32, m'.lookup k =
      if k.1 = name i ∧ nr ≤ k.2.toNat ∧ k.2.toNat < len i then some (key i k.2.toNat)
      else m.lookup k) :
    Stores name key len (i + 4) 0 taken m' where
  stored d k v := by
    rw [hlook]
    have hcur : ∀ {j}, Passed len (i + 4) 0 j k.toNat → d = name i → d = name j → j = i := by
      intro j hj hd hd'
      unfold Passed at hj
      exact hname j i (by omega) le_rfl (by omega) (hd'.symm.trans hd)
    by_cases hin : d = name i ∧ nr ≤ k.toNat ∧ k.toNat < len i
    · rw [if_pos hin, Option.some_inj, eq_comm]
      constructor
      · rintro rfl
        refine ⟨i, ⟨by omega, .inr ⟨by omega, hin.2.2⟩⟩, hin.1, fun htaken ↦ ?_, rfl⟩
        have := h.passed _ _ htaken
        unfold Passed at this
        omega
      · rintro ⟨j, hj, hd, -, rfl⟩
        rw [hcur hj hin.1 hd]
    · rw [if_neg hin, h.stored]
      refine exists_congr fun j ↦ and_congr_left ?_
      rintro ⟨hd, -, -⟩
      have hout : j = i → ¬ (nr ≤ k.toNat ∧ k.toNat < len i) := by
        rintro rfl hlt
        exact hin ⟨hd, hlt⟩
      by_cases hji : j = i
      · have := hout hji
        subst hji
        unfold Passed
        omega
      · unfold Passed
        omega
  passed j k htaken := by
    have hj := h.passed j k htaken
    unfold Passed at hj ⊢
    rcases hj with ⟨hmod, ⟨hji, hlt⟩ | hlt⟩
    · obtain rfl : j = i := by omega
      exact ⟨by omega, .inr ⟨by omega, by omega⟩⟩
    · exact ⟨by omega, .inr ⟨by omega, by omega⟩⟩

/-- There is nothing to close on the first two rungs. -/
theorem close_first (h : Stores name key len ℓ nr taken m) (hℓ : ℓ < 2) :
    Stores name key len (ℓ + 2) 0 taken m where
  stored d n v := by
    rw [h.stored]
    refine exists_congr fun i ↦ and_congr_left fun _ ↦ ?_
    unfold Passed
    omega
  passed i n htaken := by
    have hi := h.passed i n htaken
    unfold Passed at hi ⊢
    omega

end Stores

end Stores

variable {B : Type} [Alphabet B] {P : Primitives B}

/-! ### Key derivation is a tree -/

section Injectivity

variable (hP : IdealKdf P)

include hP

/-- A root key comes from one root key and one exchange. -/
theorem kdfRk_fst_inj {rk rk' d d' : Block B 32} (h : (kdfRk P rk d).1 = (kdfRk P rk' d').1) :
    rk = rk' ∧ d = d' := by
  obtain ⟨hrk, hd, -, -⟩ := hP.hkdf_inj (by simp) (by simp) h
  exact ⟨Subtype.ext hrk, Subtype.ext hd⟩

theorem kdfRkHe_header_inj {rk rk' d d' : Block B 32}
    (h : (kdfRkHe P rk d).2.2 = (kdfRkHe P rk' d').2.2) : rk = rk' ∧ d = d' := by
  obtain ⟨hrk, hd, -, -⟩ := hP.hkdf_inj (by simp) (by simp) h
  exact ⟨Subtype.ext hrk, Subtype.ext hd⟩

/-- The first key of a chain is none of its later ones. -/
theorem kdfRk_snd_ne_kdfCkHe_fst (rk d ck : Block B 32) :
    (kdfRk P rk d).2 ≠ (kdfCkHe P ck).1 := by
  intro h
  obtain ⟨-, -, hinfo, -⟩ := hP.hkdf_inj (by simp) (by simp [noSalt]) h
  exact ascii_ne (by decide) hinfo

theorem kdfCkHe_fst_inj {ck ck' : Block B 32} (h : (kdfCkHe P ck).1 = (kdfCkHe P ck').1) :
    ck = ck' :=
  Subtype.ext (hP.hkdf_inj (by simp [noSalt]) (by simp [noSalt]) h).2.1

theorem kdfCkHe_snd_inj {ck ck' : Block B 32} (h : (kdfCkHe P ck).2 = (kdfCkHe P ck').2) :
    ck = ck' := by
  have hinner := Subtype.ext (hP.hkdf_inj (by simp [noSalt]) (by simp [noSalt]) h).2.1
  exact Subtype.ext (hP.hkdf_inj (by simp [noSalt]) (by simp [noSalt]) hinner).2.1

/-- Chains that start at a root derivation never meet, and no chain meets itself. -/
theorem chainKeyHe_inj {rk rk' d d' : Block B 32} {m n : ℕ}
    (h : chainKeyHe P (kdfRk P rk d).2 m = chainKeyHe P (kdfRk P rk' d').2 n) :
    (kdfRk P rk d).2 = (kdfRk P rk' d').2 ∧ m = n := by
  induction m generalizing n with
  | zero =>
    cases n with
    | zero => exact ⟨h, rfl⟩
    | succ n => exact absurd h (kdfRk_snd_ne_kdfCkHe_fst hP _ _ _)
  | succ m ih =>
    cases n with
    | zero => exact absurd h.symm (kdfRk_snd_ne_kdfCkHe_fst hP _ _ _)
    | succ n =>
      obtain ⟨hck, hmn⟩ := ih (kdfCkHe_fst_inj hP h)
      exact ⟨hck, by rw [hmn]⟩

/-- **A message key determines its chain and its position.** -/
theorem messageKeyHe_inj {rk rk' d d' : Block B 32} {m n : ℕ}
    (h : messageKeyHe P (kdfRk P rk d).2 m = messageKeyHe P (kdfRk P rk' d').2 n) :
    rk = rk' ∧ d = d' ∧ m = n := by
  obtain ⟨hck, hmn⟩ := chainKeyHe_inj hP (kdfCkHe_snd_inj hP h)
  obtain ⟨hrk, hd⟩ := kdfRk_snd_inj hP hck
  exact ⟨hrk, hd, hmn⟩

end Injectivity

/-! ### The ladder -/

/-- A ladder with the two header keys both parties start from. All other header keys come from its
root keys. -/
structure HeaderLadder (B : Type) extends Ladder B where
  /-- The header key of chain `0`. -/
  hka : Block B 32
  /-- The header key of chain `1`. -/
  nhkb : Block B 32

/-- **The keys a conversation starts from come from another derivation** than the ratchet's root
derivation: the handshake derives them under labels of their own. -/
structure SeparateKeys (P : Primitives B) (sk hka nhkb : Block B 32) : Prop where
  /-- The shared secret is no root key of the ratchet. -/
  sk : ∀ rk d, (kdfRkHe P rk d).1 ≠ sk
  /-- The first header key is none that the ratchet derives. -/
  hka : ∀ rk d, (kdfRkHe P rk d).2.2 ≠ hka
  /-- Nor is the second. -/
  nhkb : ∀ rk d, (kdfRkHe P rk d).2.2 ≠ nhkb

/-- The keys at the foot of the ladder are separate. -/
def HeaderLadder.Separate (P : Primitives B) (L : HeaderLadder B) : Prop :=
  SeparateKeys P L.sk L.hka L.nhkb

namespace HeaderLadder

variable (P) (L : HeaderLadder B)

/-- The header key of chain `i`. -/
def headerKey : ℕ → Block B 32
  | 0 => L.hka
  | 1 => L.nhkb
  | i + 2 => (kdfRkHe P (L.rootKey P i) (L.dh P i)).2.2

/-- The message key at position `n` of chain `i`. -/
def keyHe (i n : ℕ) : Block B 32 := messageKeyHe P (L.startKey P i) n

/-- The sending chain key of a party on a rung that has sent `n` messages there. -/
def sendingKeyHe (n : ℕ) : ℕ → Option (Block B 32)
  | 0 => none
  | i + 1 => some (chainKeyHe P (L.startKey P i) n)

/-- The receiving chain key of a party on a rung that has passed `n` positions there. -/
def receivingKeyHe (n : ℕ) : ℕ → Option (Block B 32)
  | i + 2 => some (chainKeyHe P (L.startKey P i) n)
  | _ => none

/-- The sending header key of a party on a rung. -/
def sendingHeaderKey : ℕ → Option (Block B 32)
  | 0 => none
  | i + 1 => some (L.headerKey P i)

/-- The receiving header key of a party on a rung. -/
def receivingHeaderKey : ℕ → Option (Block B 32)
  | i + 2 => some (L.headerKey P i)
  | _ => none

/-- The ladder with one more secret. -/
def climb (k : ℕ) (x : Block B 32) : HeaderLadder B := { L with toLadder := L.toLadder.extend k x }

variable {P L} {k : ℕ} {x : Block B 32}

theorem Separate.climb (h : L.Separate P) : (L.climb k x).Separate P := h

/-- A further rung leaves the header keys below alone. -/
theorem headerKey_climb {i : ℕ} (h : i < k + 1) :
    (L.climb k x).headerKey P i = L.headerKey P i := by
  match i with
  | 0 => rfl
  | 1 => rfl
  | i + 2 =>
    have hroot := Ladder.rootKey_extend (P := P) (L := L.toLadder) (x := x) (show i < k by omega)
    have hdh := Ladder.dh_extend (P := P) (L := L.toLadder) (x := x) (show i + 1 < k by omega)
    show (kdfRkHe P ((L.toLadder.extend k x).rootKey P i) ((L.toLadder.extend k x).dh P i)).2.2 = _
    rw [hroot, hdh]
    rfl

/-- A further rung leaves the message keys below alone. -/
theorem keyHe_climb {i n : ℕ} (h : i + 1 < k) : (L.climb k x).keyHe P i n = L.keyHe P i n :=
  congrArg (messageKeyHe P · n) (Ladder.startKey_extend h)

/-- A further rung leaves the sending chains below alone. -/
theorem sendingKeyHe_climb {i n : ℕ} (h : i < k) :
    (L.climb k x).sendingKeyHe P n i = L.sendingKeyHe P n i := by
  cases i with
  | zero => rfl
  | succ i =>
    exact congrArg (fun ck ↦ some (chainKeyHe P ck n)) (Ladder.startKey_extend h)

/-- A further rung leaves the receiving chains below alone. -/
theorem receivingKeyHe_climb {i n : ℕ} (h : i < k) :
    (L.climb k x).receivingKeyHe P n i = L.receivingKeyHe P n i := by
  match i with
  | 0 => rfl
  | 1 => rfl
  | i + 2 =>
    exact congrArg (fun ck ↦ some (chainKeyHe P ck n)) (Ladder.startKey_extend (by omega))

/-- A further rung leaves the sending header keys below alone. -/
theorem sendingHeaderKey_climb {i : ℕ} (h : i < k) :
    (L.climb k x).sendingHeaderKey P i = L.sendingHeaderKey P i := by
  cases i with
  | zero => rfl
  | succ i => exact congrArg some (headerKey_climb (by omega))

/-- A further rung leaves the receiving header keys below alone. -/
theorem receivingHeaderKey_climb {i : ℕ} (h : i < k) :
    (L.climb k x).receivingHeaderKey P i = L.receivingHeaderKey P i := by
  match i with
  | 0 => rfl
  | 1 => rfl
  | i + 2 => exact congrArg some (headerKey_climb (by omega))

section Separate

variable (hkdf : IdealKdf P) (hL : L.Separate P)

include hkdf hL

/-- The rungs have distinct root keys. -/
theorem rootKey_inj {i j : ℕ} (h : L.rootKey P i = L.rootKey P j) : i = j := by
  induction i generalizing j with
  | zero =>
    cases j with
    | zero => rfl
    | succ j => exact absurd h.symm (hL.sk _ _)
  | succ i ih =>
    cases j with
    | zero => exact absurd h (hL.sk _ _)
    | succ j => rw [ih (kdfRk_fst_inj hkdf h).1]

/-- A chain key that is derived on a rung is the start of no other chain. -/
theorem eq_of_ratchet_key {ℓ i m n : ℕ} {d : Block B 32}
    (h : messageKeyHe P (kdfRk P (L.rootKey P ℓ) d).2 m = L.keyHe P i n) : ℓ = i ∧ m = n := by
  obtain ⟨hrk, -, hmn⟩ := messageKeyHe_inj hkdf h
  exact ⟨rootKey_inj hkdf hL hrk, hmn⟩

/-- **Each message key belongs to one position of one chain**: it can be followed back to the
chain's first key and from there to its root key, provided no key at the foot is one of the ladder's
own. -/
theorem keyHe_inj {i j m n : ℕ} (h : L.keyHe P i m = L.keyHe P j n) : i = j ∧ m = n :=
  eq_of_ratchet_key hkdf hL h

/-- **Header keys of one direction are distinct.** -/
theorem headerKey_inj {i j : ℕ} (hmod : i % 2 = j % 2) (h : L.headerKey P i = L.headerKey P j) :
    i = j := by
  match i, j with
  | 0, 0 => rfl
  | 1, 1 => rfl
  | 0, 1 => cases hmod
  | 1, 0 => cases hmod
  | 0, j + 2 => exact absurd h.symm (hL.hka _ _)
  | i + 2, 0 => exact absurd h (hL.hka _ _)
  | 1, j + 2 => exact absurd h.symm (hL.nhkb _ _)
  | i + 2, 1 => exact absurd h (hL.nhkb _ _)
  | i + 2, j + 2 => rw [rootKey_inj hkdf hL (kdfRkHe_header_inj hkdf h).1]

theorem named_headerKey (ℓ : ℕ) : Named (L.headerKey P) ℓ :=
  fun _ _ _ _ hmod heq ↦ headerKey_inj hkdf hL hmod heq

end Separate

end HeaderLadder

/-! ### One side of the conversation -/

/-- The header keys a state may try: the current one, the next one, and those of its skipped keys.
-/
def HeaderEncryptState.Holds (s : HeaderEncryptState B) (hk : Block B 32) : Prop :=
  (∃ n msgKey, s.mkskipped.lookup (hk, n) = some msgKey) ∨ s.hkr = some hk ∨ s.nhkr = some hk

/-- A key is found only behind a header that one of the keys opens. -/
theorem HeaderEncryptState.exists_holds_of_receiveKey {σ : Enumeration} {fresh : Block B 32}
    {encHeader : List B} {s : HeaderEncryptState B} {r : Block B 32 × HeaderEncryptState B}
    (h : receiveKey P σ fresh encHeader s = .ok r) :
    ∃ hk header, s.Holds hk ∧ hdecrypt P hk encHeader = .ok header := by
  rcases receiveKey_cases P σ fresh encHeader s with ⟨hk, header, msgKey, hopen, hlook, -⟩ |
    ⟨-, ⟨hk, header, hhkr, hopen, -⟩ | ⟨-, ⟨hk, header, hnhkr, hopen, -⟩ | ⟨-, hr⟩⟩⟩
  · exact ⟨hk, header, .inl ⟨_, _, hlook⟩, hopen⟩
  · exact ⟨hk, header, .inr (.inl hhkr), hopen⟩
  · exact ⟨hk, header, .inr (.inr hnhkr), hopen⟩
  · rw [hr] at h
    cases h

/-- **A party on a rung.** `taken` says which positions it has accepted a message of. -/
structure OnHeaderRung (P : Primitives B) (L : HeaderLadder B) (len : ℕ → ℕ) (ℓ : ℕ)
    (taken : ℕ → ℕ → Prop) (s : HeaderEncryptState B) : Prop where
  /-- Its ratchet secret is that of the rung. -/
  dhs : s.dhs = some (L.secret ℓ)
  /-- Its root key is that of the rung. -/
  rk : s.rk = L.rootKey P ℓ
  /-- Its sending chain is the one right below the rung. -/
  cks : s.cks = L.sendingKeyHe P s.ns.toNat ℓ
  /-- Its receiving chain is the one before. -/
  ckr : s.ckr = L.receivingKeyHe P s.nr.toNat ℓ
  /-- Headers are sealed under the key of the sending chain. -/
  hks : s.hks = L.sendingHeaderKey P ℓ
  /-- They are opened under the key of the receiving chain. -/
  hkr : s.hkr = L.receivingHeaderKey P ℓ
  /-- The header key of its next sending chain is known already. -/
  nhks : s.nhks = some (L.headerKey P (ℓ + 1))
  /-- So is that of its next receiving chain. -/
  nhkr : s.nhkr = some (L.headerKey P ℓ)
  /-- It has sent so many messages on its chain. -/
  ns : s.ns.toNat = sentOn len ℓ
  /-- And so many on the one before. -/
  pn : s.pn.toNat = sentBefore len ℓ
  /-- It has not passed more positions than were used. -/
  nr : s.nr.toNat ≤ receivableOn len ℓ
  /-- It has stored the keys of the positions passed and not used. -/
  store : Stores (L.headerKey P) (L.keyHe P) len ℓ s.nr.toNat taken s.mkskipped

namespace OnHeaderRung

open HeaderEncryptState

variable {L : HeaderLadder B} {len : ℕ → ℕ} {ℓ : ℕ} {taken : ℕ → ℕ → Prop}
  {s s' : HeaderEncryptState B}

theorem climb {k : ℕ} {x : Block B 32} (h : OnHeaderRung P L len ℓ taken s) (hk : ℓ < k) :
    OnHeaderRung P (L.climb k x) len ℓ taken s where
  dhs := by rw [h.dhs]; exact congrArg some (Ladder.secret_extend hk).symm
  rk := by rw [h.rk]; exact (Ladder.rootKey_extend hk).symm
  cks := by rw [h.cks, HeaderLadder.sendingKeyHe_climb hk]
  ckr := by rw [h.ckr, HeaderLadder.receivingKeyHe_climb hk]
  hks := by rw [h.hks, HeaderLadder.sendingHeaderKey_climb hk]
  hkr := by rw [h.hkr, HeaderLadder.receivingHeaderKey_climb hk]
  nhks := by rw [h.nhks, HeaderLadder.headerKey_climb (by omega)]
  nhkr := by rw [h.nhkr, HeaderLadder.headerKey_climb (by omega)]
  ns := h.ns
  pn := h.pn
  nr := h.nr
  store := h.store.congr (fun _ hi ↦ HeaderLadder.headerKey_climb (by omega))
    fun _ _ hi ↦ HeaderLadder.keyHe_climb (by omega)

/-- A chain that a party neither has closed nor sends on may grow. -/
theorem grow {j : ℕ} (h : OnHeaderRung P L len ℓ taken s) (hsend : ℓ ≠ j + 1) (hbefore : ℓ ≠ j + 3)
    (hparity : j % 2 = ℓ % 2 → ℓ ≤ j + 2) :
    OnHeaderRung P L (Function.update len j (len j + 1)) ℓ taken s where
  dhs := h.dhs
  rk := h.rk
  cks := h.cks
  ckr := h.ckr
  hks := h.hks
  hkr := h.hkr
  nhks := h.nhks
  nhkr := h.nhkr
  ns := h.ns.trans (sentOn_update hsend).symm
  pn := h.pn.trans (sentBefore_update hbefore).symm
  nr := h.nr.trans (receivableOn_le_update len ℓ j)
  store := h.store.grow hparity

/-! ### One step of one side -/

/-- **Sending.** The message takes the next position of the chain below the sender's rung. -/
theorem send {cks dhs hks : Block B 32} {ns : UInt32} (h : OnHeaderRung P L len ℓ taken s)
    (hcks : s.cks = some cks) (hdhs : s.dhs = some dhs) (hhks : s.hks = some hks)
    (hinc : checkedInc s.ns = .ok ns) :
    ∃ i, ℓ = i + 1 ∧ P.publicKey dhs = L.pub P (i + 1) ∧ hks = L.headerKey P i ∧
      s.pn.toNat = sentBefore len (i + 1) ∧ s.ns.toNat = len i ∧
      (kdfCkHe P cks).2 = L.keyHe P i (len i) ∧
      OnHeaderRung P L (Function.update len i (len i + 1)) ℓ taken
        { s with cks := some (kdfCkHe P cks).1, ns } := by
  have hns := checkedInc_eq_ok hinc
  cases ℓ with
  | zero => rw [h.cks] at hcks; cases hcks
  | succ i =>
    have hlen : s.ns.toNat = len i := h.ns
    rw [h.cks, HeaderLadder.sendingKeyHe, Option.some_inj] at hcks
    rw [h.dhs, Option.some_inj] at hdhs
    rw [h.hks, HeaderLadder.sendingHeaderKey, Option.some_inj] at hhks
    subst hcks hdhs hhks
    refine ⟨i, rfl, rfl, rfl, h.pn, hlen, by rw [hlen]; rfl, ?_⟩
    exact
      { dhs := h.dhs
        rk := h.rk
        cks := by
          rw [HeaderLadder.sendingKeyHe, hns]
          rfl
        ckr := h.ckr
        hks := h.hks
        hkr := h.hkr
        nhks := h.nhks
        nhkr := h.nhkr
        ns := by
          rw [hns, hlen, sentOn, Function.update_self]
        pn := h.pn.trans (sentBefore_update (by omega)).symm
        nr := h.nr.trans (receivableOn_le_update len (i + 1) i)
        store := h.store.grow (by omega) }

/-- **Using a stored key.** -/
theorem receive_stored {hk msgKey : Block B 32} {n : UInt32} (hname : Named (L.headerKey P) ℓ)
    (h : OnHeaderRung P L len ℓ taken s) (hlook : s.mkskipped.lookup (hk, n) = some msgKey) :
    ∃ i, Passed len ℓ s.nr.toNat i n.toNat ∧ hk = L.headerKey P i ∧ ¬ taken i n.toNat ∧
      msgKey = L.keyHe P i n.toNat ∧
      OnHeaderRung P L len ℓ (Stores.take taken i n.toNat)
        { s with mkskipped := s.mkskipped.erase (hk, n) } := by
  obtain ⟨i, hi, rfl, hnot, rfl⟩ := (h.store.stored _ _ _).1 hlook
  exact ⟨i, hi, rfl, hnot, rfl, h.dhs, h.rk, h.cks, h.ckr, h.hks, h.hkr, h.nhks, h.nhkr, h.ns, h.pn,
    h.nr, h.store.use hname hi⟩

/-- The key found on the current receiving chain. -/
theorem receive_key {n : UInt32} {msgKey : Block B 32} {i : ℕ}
    (h : OnHeaderRung P L len (i + 2) taken s)
    (hok : (skipMessageKeys P s n >>= advanceReceiving P) = .ok (msgKey, s')) :
    msgKey = L.keyHe P i (max s.nr.toNat n.toNat) := by
  obtain ⟨hkey, -, -, -⟩ := receiveOnChain_eq_ok h.hkr h.ckr hok
  rw [hkey, ← messageKeyHe_add, HeaderLadder.keyHe]
  congr 1
  omega

/-- Reading a chain on from where it stands. -/
theorem messageKey_current {i nr n : ℕ} (hn : nr ≤ n) :
    messageKeyHe P (chainKeyHe P (L.startKey P i) nr) (n - nr) = L.keyHe P i n := by
  rw [← messageKeyHe_add, Nat.add_sub_cancel' hn]
  rfl

/-- **Receiving on the current chain**, at a position not passed before. -/
theorem receive_current {n : UInt32} {msgKey : Block B 32} {i : ℕ}
    (hname : Named (L.headerKey P) (i + 2)) (h : OnHeaderRung P L len (i + 2) taken s)
    (hnr : s.nr.toNat ≤ n.toNat) (hlen : n.toNat < len i)
    (hok : (skipMessageKeys P s n >>= advanceReceiving P) = .ok (msgKey, s')) :
    OnHeaderRung P L len (i + 2) (Stores.take taken i n.toNat) s' := by
  obtain ⟨-, hnr', hrest, hlook⟩ := receiveOnChain_eq_ok h.hkr h.ckr hok
  rw [Nat.max_eq_right hnr] at hnr'
  rw [hrest]
  exact
    { dhs := h.dhs
      rk := h.rk
      cks := h.cks
      ckr := by
        have hsum : s.nr.toNat + (s'.nr.toNat - s.nr.toNat) = s'.nr.toNat := by omega
        dsimp only
        rw [HeaderLadder.receivingKeyHe, ← chainKeyHe_add, hsum]
      hks := h.hks
      hkr := h.hkr
      nhks := h.nhks
      nhkr := h.nhkr
      ns := h.ns
      pn := h.pn
      nr := by
        show s'.nr.toNat ≤ len i
        omega
      store := by
        dsimp only
        rw [hnr']
        refine h.store.advance hname hnr fun k ↦ ?_
        rw [hlook]
        by_cases hin : k.1 = L.headerKey P i ∧ s.nr.toNat ≤ k.2.toNat ∧ k.2.toNat < n.toNat
        · rw [if_pos hin, if_pos hin, messageKey_current hin.2.1]
        · rw [if_neg hin, if_neg hin] }

/-- **Closing the receiving chain** at its full length stores all that is left of it. -/
theorem close {t : HeaderEncryptState B} {upTo : UInt32} (hname : Named (L.headerKey P) ℓ)
    (h : OnHeaderRung P L len ℓ taken s) (hupTo : upTo.toNat = receivableOn len ℓ)
    (hskip : skipMessageKeys P s upTo = .ok t) :
    t.dhs = s.dhs ∧ t.rk = s.rk ∧ t.ns = s.ns ∧ t.nhks = s.nhks ∧ t.nhkr = s.nhkr ∧
      Stores (L.headerKey P) (L.keyHe P) len (ℓ + 2) 0 taken t.mkskipped := by
  match ℓ, h, hupTo, hname with
  | 0, h, _, _ | 1, h, _, _ =>
    obtain rfl := skipMessageKeys_of_ckr_none h.ckr hskip
    exact ⟨rfl, rfl, rfl, rfl, rfl, h.store.close_first (by omega)⟩
  | i + 2, h, hupTo, hname =>
    have hnr := h.nr
    rw [receivableOn] at hupTo hnr
    obtain ⟨-, hrest, hlook⟩ := skipMessageKeys_eq_ok h.hkr h.ckr hskip
    refine ⟨by rw [hrest], by rw [hrest], by rw [hrest], by rw [hrest], by rw [hrest], ?_⟩
    refine h.store.close hname hnr fun k ↦ ?_
    rw [hlook, hupTo]
    by_cases hin : k.1 = L.headerKey P i ∧ s.nr.toNat ≤ k.2.toNat ∧ k.2.toNat < len i
    · rw [if_pos hin, if_pos hin, messageKey_current hin.2.1]
    · rw [if_neg hin, if_neg hin]

/-- **A DH ratchet step** for the next rung's key leads two rungs up, where nothing has been sent or
received yet, and shifts the header keys. -/
theorem ratchet {t : HeaderEncryptState B} {header : Header B} {fresh : Block B 32}
    (hP : IdealDh P) (hname : Named (L.headerKey P) ℓ) (h : OnHeaderRung P L len ℓ taken s)
    (hdh : header.dh = L.pub P (ℓ + 1)) (hpn : header.pn.toNat = receivableOn len ℓ)
    (hlen : len (ℓ + 1) = 0) (hskip : skipMessageKeys P s header.pn = .ok t)
    (hok : dhRatchet P fresh header t = .ok s') :
    OnHeaderRung P (L.climb (ℓ + 2) fresh) len (ℓ + 2) taken s' ∧ s'.nr = 0 := by
  obtain ⟨hdhs, hrk, hns, hnhks, hnhkr, hstore⟩ := h.close hname hpn hskip
  have hfirst : kdfRkHe P (L.rootKey P ℓ) (P.diffieHellman (L.secret ℓ) (L.pub P (ℓ + 1))) =
      (L.rootKey P (ℓ + 1), L.startKey P ℓ, L.headerKey P (ℓ + 2)) := by
    rw [Ladder.pub, hP.comm]
    rfl
  have hsecond : kdfRkHe P (L.rootKey P (ℓ + 1)) (P.diffieHellman fresh (L.pub P (ℓ + 1))) =
      ((L.climb (ℓ + 2) fresh).rootKey P (ℓ + 2), (L.climb (ℓ + 2) fresh).startKey P (ℓ + 1),
        (L.climb (ℓ + 2) fresh).headerKey P (ℓ + 3)) := by
    have hroot : (L.climb (ℓ + 2) fresh).rootKey P (ℓ + 1) = L.rootKey P (ℓ + 1) :=
      Ladder.rootKey_extend (by omega)
    have hpub : (L.climb (ℓ + 2) fresh).pub P (ℓ + 1) = L.pub P (ℓ + 1) :=
      Ladder.pub_extend (by omega)
    have hdh' : (L.climb (ℓ + 2) fresh).dh P (ℓ + 1) = P.diffieHellman fresh (L.pub P (ℓ + 1)) := by
      rw [Ladder.dh, hpub]
      exact congrArg (P.diffieHellman · _) Ladder.secret_extend_self
    rw [← hdh', ← hroot]
    rfl
  rw [dhRatchet_of_dhs (hdhs.trans h.dhs), hrk, h.rk, hdh, hfirst] at hok
  dsimp only at hok
  rw [hsecond, Except.ok.injEq] at hok
  subst hok
  refine ⟨?_, rfl⟩
  exact
    { dhs := congrArg some Ladder.secret_extend_self.symm
      rk := rfl
      cks := rfl
      ckr := congrArg some (Ladder.startKey_extend (by omega)).symm
      hks := by
        dsimp only
        rw [hnhks, h.nhks]
        exact congrArg some (HeaderLadder.headerKey_climb (by omega)).symm
      hkr := by
        dsimp only
        rw [hnhkr, h.nhkr]
        exact congrArg some (HeaderLadder.headerKey_climb (by omega)).symm
      nhks := rfl
      nhkr := congrArg some (HeaderLadder.headerKey_climb (by omega)).symm
      ns := by
        rw [sentOn, hlen]
        rfl
      pn := by
        dsimp only
        rw [hns, h.ns]
        cases ℓ with
        | zero => rfl
        | succ i => rfl
      nr := Nat.zero_le _
      store := hstore.congr (fun _ hi ↦ HeaderLadder.headerKey_climb (by omega))
        fun _ _ hi ↦ HeaderLadder.keyHe_climb (by omega) }

/-! ### One delivery to one side -/

section Delivery

variable {σ : Enumeration} {fresh : Block B 32} {encHeader : List B} {header : Header B} {i : ℕ}

/-- Skipping changes neither the ratchet secret, nor the root key, nor the next header key. -/
theorem skip_frame {t : HeaderEncryptState B} {upTo : UInt32} (h : OnHeaderRung P L len ℓ taken s)
    (hskip : skipMessageKeys P s upTo = .ok t) :
    t.dhs = some (L.secret ℓ) ∧ t.rk = L.rootKey P ℓ ∧ t.nhkr = some (L.headerKey P ℓ) := by
  match ℓ, h with
  | 0, h | 1, h =>
    obtain rfl := skipMessageKeys_of_ckr_none h.ckr hskip
    exact ⟨h.dhs, h.rk, h.nhkr⟩
  | j + 2, h =>
    obtain ⟨-, hrest, -⟩ := skipMessageKeys_eq_ok h.hkr h.ckr hskip
    rw [hrest]
    exact ⟨h.dhs, h.rk, h.nhkr⟩

/-- The receiving header key is the one of the chain two rungs down. -/
theorem exists_rung_of_hkr {hk : Block B 32} (h : OnHeaderRung P L len ℓ taken s)
    (hhkr : s.hkr = some hk) : ∃ j, ℓ = j + 2 ∧ hk = L.headerKey P j := by
  rw [h.hkr] at hhkr
  match ℓ, hhkr with
  | j + 2, hhkr =>
    cases hhkr
    exact ⟨j, rfl, rfl⟩

/-- A DH ratchet step reaches the key of a message only from the rung right below it. -/
theorem rung_of_ratchet_key (hkdf : IdealKdf P) (hL : L.Separate P) {t u : HeaderEncryptState B}
    {upTo n : UInt32} {k : ℕ} (h : OnHeaderRung P L len ℓ taken s)
    (hskip : skipMessageKeys P s upTo = .ok t) (hrat : dhRatchet P fresh header t = .ok u)
    (hok : (skipMessageKeys P u n >>= advanceReceiving P) = .ok (L.keyHe P i k, s')) : ℓ = i := by
  obtain ⟨hdhs, hrk, hnhkr⟩ := h.skip_frame hskip
  rw [dhRatchet_of_dhs hdhs, hrk] at hrat
  cases hrat
  obtain ⟨hkey, -, -, -⟩ := receiveOnChain_eq_ok hnhkr rfl hok
  exact (HeaderLadder.eq_of_ratchet_key hkdf hL hkey.symm).1

variable (σ fresh) in
/-- **A message that was not accepted yet** is found, whichever header key opens it: the key is the
right one, or a limit was hit. -/
theorem receive_genuine (hkdf : IdealKdf P) (hP : IdealDh P) (hL : L.Separate P)
    (h : OnHeaderRung P L len ℓ taken s) (hiℓ : i ≤ ℓ) (hmod : i % 2 = ℓ % 2)
    (hdh : header.dh = L.pub P (i + 1)) (hpn : header.pn.toNat = sentBefore len (i + 1))
    (hn : header.n.toNat < len i) (hlen : len (ℓ + 1) = 0) (hnot : ¬ taken i header.n.toNat)
    (hopen : hdecrypt P (L.headerKey P i) encHeader = .ok header)
    (honly : ∀ hk header', s.Holds hk → hdecrypt P hk encHeader = .ok header' →
      hk = L.headerKey P i ∧ header' = header) :
    (∃ e, e.IsBound ∧ receiveKey P σ fresh encHeader s = .error e) ∨
      ∃ s', receiveKey P σ fresh encHeader s = .ok (L.keyHe P i header.n.toNat, s') := by
  have hname := HeaderLadder.named_headerKey hkdf hL
  rcases receiveKey_cases P σ fresh encHeader s with ⟨hk, header', msgKey, hopen', hlook, hr⟩ |
    ⟨hnone, ⟨hk, header', hhkr, hopen', hr⟩ | ⟨hcur, ⟨hk, header', hnhkr, hopen', hr⟩ | ⟨hnext, -⟩⟩⟩
  · -- a stored key
    obtain ⟨rfl, rfl⟩ := honly hk header' (.inl ⟨_, _, hlook⟩) hopen'
    obtain ⟨j, hj, heq, -, rfl, -⟩ := h.receive_stored (hname ℓ) hlook
    obtain rfl := HeaderLadder.headerKey_inj hkdf hL (hmod.trans hj.1.symm) heq
    exact .inr ⟨_, hr⟩
  · -- the current receiving chain
    obtain ⟨rfl, rfl⟩ := honly hk header' (.inr (.inl hhkr)) hopen'
    obtain ⟨j, rfl, heq⟩ := h.exists_rung_of_hkr hhkr
    obtain rfl := HeaderLadder.headerKey_inj hkdf hL (by omega) heq
    have hnr : s.nr.toNat ≤ header'.n.toNat := by
      by_contra hlt
      have := h.store.lookup ⟨hmod, .inl ⟨rfl, by omega⟩⟩ hnot
      rw [hnone _ _ hopen] at this
      cases this
    rw [hr]
    cases hrec : skipMessageKeys P s header'.n >>= advanceReceiving P with
    | error e =>
      exact .inl ⟨e, receiveOnChain_eq_error (by rw [hhkr]; rfl) (by rw [h.ckr]; rfl) hrec, rfl⟩
    | ok r =>
      obtain ⟨msgKey, s'⟩ := r
      rw [h.receive_key hrec, Nat.max_eq_right hnr]
      exact .inr ⟨s', rfl⟩
  · -- the chain above the receiver
    obtain ⟨rfl, rfl⟩ := honly hk header' (.inr (.inr hnhkr)) hopen'
    rw [h.nhkr, Option.some_inj] at hnhkr
    obtain rfl := HeaderLadder.headerKey_inj hkdf hL hmod.symm hnhkr
    cases hskip : skipMessageKeys P s header'.pn with
    | error e =>
      rw [hr, hskip]
      exact .inl ⟨e, skipMessageKeys_eq_error hskip, rfl⟩
    | ok t =>
      rw [OnRung.sentBefore_succ] at hpn
      have hdhs : t.dhs = some (L.secret ℓ) := by
        rw [(h.close (hname ℓ) hpn hskip).1, h.dhs]
      obtain ⟨u, hrat⟩ : ∃ u, dhRatchet P fresh header' t = .ok u := ⟨_, dhRatchet_of_dhs hdhs⟩
      obtain ⟨hon, hnr⟩ := h.ratchet hP (hname ℓ) hdh hpn hlen hskip hrat
      have hbind : receiveKey P σ fresh encHeader s =
          skipMessageKeys P u header'.n >>= advanceReceiving P := by
        rw [hr, hskip]
        show dhRatchet P fresh header' t >>= _ = _
        rw [hrat]
        rfl
      rw [hbind]
      cases hrec : skipMessageKeys P u header'.n >>= advanceReceiving P with
      | error e =>
        exact .inl ⟨e, receiveOnChain_eq_error (by rw [hon.hkr]; rfl) (by rw [hon.ckr]; rfl) hrec,
          rfl⟩
      | ok r =>
        obtain ⟨msgKey, s'⟩ := r
        rw [hon.receive_key hrec, hnr, HeaderLadder.keyHe_climb (by omega)]
        exact .inr ⟨s', by simp only [UInt32.toNat_zero, Nat.zero_max]⟩
  · -- some key opens it: the chain is above, current, or passed
    exfalso
    rcases Nat.eq_or_lt_of_le hiℓ with rfl | hlt
    · exact hnext _ _ h.nhkr hopen
    rcases Nat.eq_or_lt_of_le (show i + 2 ≤ ℓ by omega) with rfl | hlt
    · exact hcur _ _ h.hkr hopen
    · have := h.store.lookup ⟨hmod, .inr ⟨hlt, hn⟩⟩ hnot
      rw [hnone _ _ hopen] at this
      cases this

/-- **A key that opens a message** is found only where the message stands: the message is the
peer's, it was not accepted before, and the receiver moves on past it. -/
theorem receive (hkdf : IdealKdf P) (hP : IdealDh P) (hL : L.Separate P)
    (h : OnHeaderRung P L len ℓ taken s) (hdh : header.dh = L.pub P (i + 1))
    (hpn : header.pn.toNat = sentBefore len (i + 1)) (hn : header.n.toNat < len i)
    (hlen : i = ℓ → len (ℓ + 1) = 0)
    (honly : ∀ hk header', s.Holds hk → hdecrypt P hk encHeader = .ok header' → header' = header)
    (hok : receiveKey P σ fresh encHeader s = .ok (L.keyHe P i header.n.toNat, s')) :
    i % 2 = ℓ % 2 ∧ ¬ taken i header.n.toNat ∧
      (OnHeaderRung P L len ℓ (Stores.take taken i header.n.toNat) s' ∨
        (i = ℓ ∧ OnHeaderRung P (L.climb (ℓ + 2) fresh) len (ℓ + 2)
          (Stores.take taken i header.n.toNat) s')) := by
  have hname := HeaderLadder.named_headerKey hkdf hL
  rcases receiveKey_cases P σ fresh encHeader s with ⟨hk, header', msgKey, hopen, hlook, hr⟩ |
    ⟨-, ⟨hk, header', hhkr, hopen, hr⟩ | ⟨-, ⟨hk, header', hnhkr, hopen, hr⟩ | ⟨-, hr⟩⟩⟩
  · obtain rfl := honly hk header' (.inl ⟨_, _, hlook⟩) hopen
    obtain ⟨j, hj, -, hnot, hkey, hon⟩ := h.receive_stored (hname ℓ) hlook
    rw [hr] at hok
    cases hok
    obtain ⟨rfl, -⟩ := HeaderLadder.keyHe_inj hkdf hL hkey
    exact ⟨hj.1, hnot, .inl hon⟩
  · obtain rfl := honly hk header' (.inr (.inl hhkr)) hopen
    obtain ⟨j, rfl, -⟩ := h.exists_rung_of_hkr hhkr
    rw [hr] at hok
    -- a position already passed would give the key of a later one
    obtain ⟨rfl, hmax⟩ := HeaderLadder.keyHe_inj hkdf hL (h.receive_key hok)
    have hnr : s.nr.toNat ≤ header'.n.toNat := by omega
    refine ⟨by omega, fun htaken ↦ ?_, .inl (h.receive_current (hname _) hnr hn hok)⟩
    have hpassed := h.store.passed _ _ htaken
    unfold Passed at hpassed
    omega
  · obtain rfl := honly hk header' (.inr (.inr hnhkr)) hopen
    rw [hr] at hok
    obtain ⟨t, hskip, hok⟩ := Except.bind_eq_ok.1 hok
    obtain ⟨u, hrat, hok⟩ := Except.bind_eq_ok.1 hok
    obtain rfl : ℓ = i := h.rung_of_ratchet_key hkdf hL hskip hrat hok
    obtain ⟨hon, hnr⟩ := h.ratchet hP (hname ℓ) hdh (by rw [hpn, OnRung.sentBefore_succ]) (hlen rfl)
      hskip hrat
    refine ⟨rfl, fun htaken ↦ ?_, .inr ⟨rfl, ?_⟩⟩
    · have := Stores.lt_of_passed (h.store.passed _ _ htaken)
      omega
    · refine hon.receive_current (HeaderLadder.named_headerKey hkdf hL.climb _) ?_ hn hok
      rw [hnr]
      exact Nat.zero_le _
  · rw [hr] at hok
    cases hok

end Delivery

end OnHeaderRung

end VoiceChatCrypto
