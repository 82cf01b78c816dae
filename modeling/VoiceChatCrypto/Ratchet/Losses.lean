import VoiceChatCrypto.Ratchet.Agreement
import VoiceChatCrypto.Ratchet.Bounded

/-!
# What lost messages cost

`max_skip` is documented as a limit per chain. It bounds the distance of one skip, and that is a
bound per chain; but it also bounds the number of keys in the store, which is one store for all
chains, and the key of a message that never arrives never leaves it. So what a session can still
receive depends on everything it has lost.

This module says exactly when a genuine message is received: when the store has room for all the
positions the message makes its receiver skip, in the old chain and in the new one together. In a
conversation the positions still to come are never in the store already, so a skip grows it by just
the number of positions passed (`skipLoop_size`), and the rest is arithmetic.
-/

open Alphabet

namespace VoiceChatCrypto

variable {B : Type} [Alphabet B] {P : Primitives B}

namespace DoubleRatchetState

variable {s s' : DoubleRatchetState B}

/-! ### Room in the store -/

/-- The positions of the old receiving chain that a message makes its receiver skip, and those of a
new one. A stored key skips none. -/
def skips (s : DoubleRatchetState B) (h : Header B) : ℕ × ℕ :=
  if s.mkskipped.lookup (h.dh, h.n) ≠ none then (0, 0)
  else if s.dhr = some h.dh then (h.n.toNat - s.nr.toNat, 0)
  else (h.pn.toNat - s.nr.toNat, h.n.toNat)

/-- Each chain is skipped by no more than the limit. The documentation states the limit in this way,
one chain at a time. -/
def SkipsWithinLimit (s : DoubleRatchetState B) (h : Header B) : Prop :=
  (s.skips h).1 ≤ s.maxSkip.toNat ∧ (s.skips h).2 ≤ s.maxSkip.toNat

/-- The store has room for all the positions to skip, if there are any, and the counter is not
within the limit of its top. -/
def HasRoom (s : DoubleRatchetState B) (h : Header B) : Prop :=
  s.mkskipped.lookup (h.dh, h.n) ≠ none ∨
    (s.nr.toNat + s.maxSkip.toNat < 2 ^ 32 ∧
      ((s.skips h).1 + (s.skips h).2 = 0 ∨
        s.mkskipped.size + ((s.skips h).1 + (s.skips h).2) ≤ s.maxSkip.toNat))

/-- No position still to come on the receiving chain is in the store, so that every key that is
skipped makes the store larger. -/
def Ahead (s : DoubleRatchetState B) : Prop :=
  ∀ d, s.dhr = some d → ∀ n : UInt32, s.nr.toNat ≤ n.toNat → s.mkskipped.lookup (d, n) = none

/-- The state after one round of the skip loop. -/
theorem Ahead.insert (hs : s.Ahead) {d : Block B 32} (hd : s.dhr = some d) (msgKey : Block B 32)
    {nr : UInt32} (hnr : nr.toNat = s.nr.toNat + 1) :
    ({ s with mkskipped := s.mkskipped.insert (d, s.nr) msgKey, nr } : DoubleRatchetState B).Ahead ∧
      Dict.size (s.mkskipped.insert (d, s.nr) msgKey) = s.mkskipped.size + 1 := by
  refine ⟨fun d' hd' n hn ↦ ?_, Dict.size_insert (hs d hd s.nr (le_refl _)) msgKey⟩
  dsimp only at hd' hn ⊢
  have hne : (d', n) ≠ (d, s.nr) := by
    intro heq
    cases heq
    omega
  rw [Finmap.lookup_insert_of_ne _ hne]
  exact hs d' hd' n (by omega)

/-- A skip loop that ends has stored one key for each round, below the limit. -/
theorem skipLoop_size {d : Block B 32} :
    ∀ {fuel : ℕ} {s : DoubleRatchetState B} {ckr ckr' : Block B 32}, s.dhr = some d → s.Ahead →
      s.mkskipped.size < 2 ^ 32 → skipLoop P fuel s ckr = .ok (s', ckr') →
      s'.mkskipped.size = s.mkskipped.size + fuel ∧
        (fuel = 0 ∨ s.mkskipped.size + fuel ≤ s.maxSkip.toNat)
  | 0, s, ckr, ckr', hd, hs, hsize, h => by
    cases h
    exact ⟨rfl, .inl rfl⟩
  | fuel + 1, s, ckr, ckr', hd, hs, hsize, h => by
    rw [skipLoop, hd] at h
    split at h
    · cases h
    rename_i hroom
    obtain ⟨nr, hinc, hrec⟩ := Except.bind_eq_ok.1 h
    rw [ge_iff_le, UInt32.le_iff_toNat_le, toNat_ofNat_u32 hsize, not_le] at hroom
    have hmax := s.maxSkip.toNat_lt
    obtain ⟨hs', hins⟩ := hs.insert hd (kdfCk P ckr).2 (checkedInc_eq_ok hinc)
    rw [← hd] at hrec
    obtain ⟨hsize', hlimit⟩ := skipLoop_size
      (s := { s with mkskipped := s.mkskipped.insert (d, s.nr) (kdfCk P ckr).2, nr })
      hd hs' (by dsimp only; omega) hrec
    dsimp only at hsize' hlimit
    omega

/-- A skip loop with room for its rounds ends. -/
theorem skipLoop_of_room {d : Block B 32} :
    ∀ (fuel : ℕ) {s : DoubleRatchetState B} (ckr : Block B 32), s.dhr = some d → s.Ahead →
      s.mkskipped.size + fuel ≤ s.maxSkip.toNat → s.nr.toNat + fuel < 2 ^ 32 →
      ∃ r, skipLoop P fuel s ckr = .ok r
  | 0, s, ckr, hd, hs, hroom, hnr => ⟨_, rfl⟩
  | fuel + 1, s, ckr, hd, hs, hroom, hnr => by
    have hmax := s.maxSkip.toNat_lt
    have hlimit : ¬ UInt32.ofNat s.mkskipped.size ≥ s.maxSkip := by
      rw [ge_iff_le, UInt32.le_iff_toNat_le, toNat_ofNat_u32 (by omega)]
      omega
    have hinc := checkedInc_of_lt (n := s.nr) (by omega)
    have hnext := checkedInc_eq_ok hinc
    obtain ⟨hs', hins⟩ := hs.insert hd (kdfCk P ckr).2 hnext
    obtain ⟨r, hrec⟩ := skipLoop_of_room fuel
      (s := { s with mkskipped := s.mkskipped.insert (d, s.nr) (kdfCk P ckr).2, nr := s.nr + 1 })
      (kdfCk P ckr).1 hd hs' (by dsimp only; omega) (by dsimp only; omega)
    refine ⟨r, ?_⟩
    rw [skipLoop, if_neg hlimit]
    simp only [hd, hinc, bind, Except.bind]
    rw [← hd]
    exact hrec

/-- **When a skip succeeds**: the counter is not within the limit of its top, and there is nothing
to skip, or the store has room for all of it. -/
theorem skipMessageKeys_isOk_iff {d ckr : Block B 32} {upTo : UInt32} (hd : s.dhr = some d)
    (hckr : s.ckr = some ckr) (hs : s.Ahead) (hsize : s.mkskipped.size < 2 ^ 32) :
    (∃ t, skipMessageKeys P s upTo = .ok t) ↔ s.nr.toNat + s.maxSkip.toNat < 2 ^ 32 ∧
      (upTo.toNat - s.nr.toNat = 0 ∨
        s.mkskipped.size + (upTo.toNat - s.nr.toNat) ≤ s.maxSkip.toNat) := by
  have hupTo := upTo.toNat_lt
  constructor
  · rintro ⟨t, h⟩
    unfold skipMessageKeys at h
    rw [hckr] at h
    split at h
    · cases h
    split at h
    · cases h
    obtain ⟨⟨u, ckr'⟩, hloop, -⟩ := Except.bind_eq_ok.1 h
    obtain ⟨-, hlimit⟩ := skipLoop_size hd hs hsize hloop
    omega
  · rintro ⟨hlt, hroom⟩
    have hloop : ∃ r, skipLoop P (upTo.toNat - s.nr.toNat) s ckr = .ok r := by
      rcases hroom with hzero | hroom
      · rw [hzero]
        exact ⟨_, rfl⟩
      · exact skipLoop_of_room _ _ hd hs hroom (by omega)
    obtain ⟨r, hloop⟩ := hloop
    unfold skipMessageKeys
    rw [if_neg (by omega), if_neg (by omega), hckr]
    exact ⟨_, Except.bind_eq_ok.2 ⟨r, hloop, rfl⟩⟩

/-- A skip that succeeds grows the store by the positions passed. -/
theorem size_of_skipMessageKeys {d ckr : Block B 32} {upTo : UInt32} (hd : s.dhr = some d)
    (hckr : s.ckr = some ckr) (hs : s.Ahead) (hsize : s.mkskipped.size < 2 ^ 32)
    (h : skipMessageKeys P s upTo = .ok s') :
    s'.mkskipped.size = s.mkskipped.size + (upTo.toNat - s.nr.toNat) := by
  unfold skipMessageKeys at h
  rw [hckr] at h
  split at h
  · cases h
  split at h
  · cases h
  obtain ⟨⟨u, ckr'⟩, hloop, hret⟩ := Except.bind_eq_ok.1 h
  cases hret
  exact (skipLoop_size hd hs hsize hloop).1

/-- **When a chain gives a key**: the skip succeeds, and the counter can be moved behind it. -/
theorem receiveOnChain_isOk_iff {d ckr : Block B 32} {n : UInt32} (hd : s.dhr = some d)
    (hckr : s.ckr = some ckr) (hs : s.Ahead) (hsize : s.mkskipped.size < 2 ^ 32)
    (hnr : s.nr.toNat ≤ n.toNat) (hn : n.toNat + 1 < 2 ^ 32) :
    (∃ r, (skipMessageKeys P s n >>= advanceReceiving P) = .ok r) ↔
      s.nr.toNat + s.maxSkip.toNat < 2 ^ 32 ∧
        (n.toNat - s.nr.toNat = 0 ∨
          s.mkskipped.size + (n.toNat - s.nr.toNat) ≤ s.maxSkip.toNat) := by
  rw [← skipMessageKeys_isOk_iff (P := P) hd hckr hs hsize]
  constructor
  · rintro ⟨r, h⟩
    obtain ⟨t, hskip, -⟩ := Except.bind_eq_ok.1 h
    exact ⟨t, hskip⟩
  · rintro ⟨t, hskip⟩
    obtain ⟨htnr, hrest, -⟩ := skipMessageKeys_eq_ok hd hckr hskip
    have htckr : t.ckr = some (chainKey P ckr (n.toNat - s.nr.toNat)) := by rw [hrest]
    have hinc := checkedInc_of_lt (n := t.nr) (by omega)
    have hadv : ∃ r, advanceReceiving P t = .ok r := by
      simp only [advanceReceiving, htckr, hinc, bind, Except.bind, pure, Except.pure]
      exact ⟨_, rfl⟩
    obtain ⟨r, hadv⟩ := hadv
    exact ⟨r, Except.bind_eq_ok.2 ⟨t, hskip, hadv⟩⟩

end DoubleRatchetState

/-! ### One side of a conversation -/

namespace OnRung

open DoubleRatchetState

variable {L : Ladder B} {len : ℕ → ℕ} {ℓ : ℕ} {taken : Block B 32 → UInt32 → Prop}
  {s : DoubleRatchetState B} {header : Header B} {i k : ℕ}

/-- On a rung, all that is stored has been passed. -/
theorem ahead (h : OnRung P L len ℓ taken s) (hinj : Set.InjOn (L.pub P) (Set.Iic ℓ)) :
    s.Ahead := by
  intro d hd n hn
  rw [h.dhr] at hd
  cases hlook : s.mkskipped.lookup (d, n) with
  | none => rfl
  | some msgKey =>
    obtain ⟨j, ⟨-, hpass⟩, hdj, -⟩ := (h.stored d n msgKey).1 hlook
    cases ℓ with
    | zero => cases hd
    | succ ℓ =>
      rw [Ladder.peerKey, Option.some_inj] at hd
      have hmem : ℓ ∈ Set.Iic (ℓ + 1) := Nat.le_succ ℓ
      have hmem' : j + 1 ∈ Set.Iic (ℓ + 1) := by
        rw [Set.mem_Iic]
        omega
      have hℓ := hinj hmem hmem' (hd.trans hdj)
      omega

/-- Before the first DH ratchet step there is no receiving chain. -/
theorem ckr_of_lt_two (h : OnRung P L len ℓ taken s) (hℓ : ℓ < 2) :
    s.ckr = none ∧ receivableOn len ℓ = 0 := by
  obtain rfl | rfl : ℓ = 0 ∨ ℓ = 1 := by omega
  · exact ⟨h.ckr, rfl⟩
  · exact ⟨h.ckr, rfl⟩

/-- **Closing the old chain** succeeds when what is left of it fits. -/
theorem close_isOk_iff (h : OnRung P L len ℓ taken s) {upTo : UInt32}
    (hupTo : upTo.toNat = receivableOn len ℓ) (hinj : Set.InjOn (L.pub P) (Set.Iic ℓ))
    (hsize : s.mkskipped.size < 2 ^ 32) :
    (∃ t, skipMessageKeys P s upTo = .ok t) ↔ s.nr.toNat + s.maxSkip.toNat < 2 ^ 32 ∧
      (upTo.toNat - s.nr.toNat = 0 ∨
        s.mkskipped.size + (upTo.toNat - s.nr.toNat) ≤ s.maxSkip.toNat) := by
  have hnr := h.nr
  rcases Nat.lt_or_ge ℓ 2 with hℓ | hℓ
  · -- nothing was received yet, and there is nothing left behind
    obtain ⟨hckr, hnone⟩ := h.ckr_of_lt_two hℓ
    rw [hnone] at hupTo hnr
    unfold skipMessageKeys
    constructor
    · rintro ⟨t, ht⟩
      split at ht
      · cases ht
      · omega
    · rintro ⟨hlt, -⟩
      rw [if_neg (by omega), if_neg (by omega), hckr]
      exact ⟨s, rfl⟩
  · obtain ⟨j, rfl⟩ := Nat.exists_eq_add_of_le' hℓ
    exact skipMessageKeys_isOk_iff h.dhr h.ckr (h.ahead hinj) hsize

/-- What the old chain leaves in the store. -/
theorem size_of_close (h : OnRung P L len ℓ taken s) {upTo : UInt32} {t : DoubleRatchetState B}
    (hupTo : upTo.toNat = receivableOn len ℓ) (hinj : Set.InjOn (L.pub P) (Set.Iic ℓ))
    (hsize : s.mkskipped.size < 2 ^ 32) (hskip : skipMessageKeys P s upTo = .ok t) :
    t.mkskipped.size = s.mkskipped.size + (upTo.toNat - s.nr.toNat) ∧ t.maxSkip = s.maxSkip := by
  rcases Nat.lt_or_ge ℓ 2 with hℓ | hℓ
  · obtain ⟨hckr, hnone⟩ := h.ckr_of_lt_two hℓ
    obtain rfl := skipMessageKeys_of_ckr_none hckr hskip
    exact ⟨by omega, rfl⟩
  · obtain ⟨j, rfl⟩ := Nat.exists_eq_add_of_le' hℓ
    obtain ⟨-, hrest, -⟩ := skipMessageKeys_eq_ok h.dhr h.ckr hskip
    exact ⟨size_of_skipMessageKeys h.dhr h.ckr (h.ahead hinj) hsize hskip, by rw [hrest]⟩

/-- **When the next message of the current chain gives a key.** -/
theorem current_isOk_iff (h : OnRung P L len (i + 2) taken s)
    (hinj : Set.InjOn (L.pub P) (Set.Iic (i + 2))) (hdh : header.dh = L.pub P (i + 1))
    (hn : header.n.toNat < len i) (hlen : len i < 2 ^ 32) (hsize : s.mkskipped.size < 2 ^ 32)
    (hnot : ¬ taken header.dh header.n)
    (hlook : s.mkskipped.lookup (header.dh, header.n) = none) :
    (∃ r, (skipMessageKeys P s header.n >>= advanceReceiving P) = .ok r) ↔ s.HasRoom header := by
  have hnr : s.nr.toNat ≤ header.n.toNat := by
    by_contra hlt
    have := h.stored_of_passed ⟨by omega, .inl ⟨rfl, by omega⟩⟩ hdh hnot
    rw [hlook] at this
    cases this
  have hdhr : s.dhr = some header.dh := by
    rw [h.dhr, hdh]
    rfl
  have hskips : s.skips header = (header.n.toNat - s.nr.toNat, 0) := by
    rw [skips, if_neg (not_not.2 hlook), if_pos hdhr]
  rw [receiveOnChain_isOk_iff hdhr h.ckr (h.ahead hinj) hsize hnr (by omega), HasRoom, hskips,
    hlook]
  simp only [ne_eq, not_true, false_or, Nat.add_zero]

/-- **When the first message received of a new chain gives a key**: what is left of the old chain and
what is skipped of the new one fit together. -/
theorem next_isOk_iff (fresh : Block B 32) (h : OnRung P L len ℓ taken s)
    (hinj : Set.InjOn (L.pub P) (Set.Iic (ℓ + 1))) (hdh : header.dh = L.pub P (ℓ + 1))
    (hpn : header.pn.toNat = receivableOn len ℓ) (hn : header.n.toNat < len ℓ)
    (hlen : len ℓ < 2 ^ 32) (hsize : s.mkskipped.size < 2 ^ 32) (hdhr : s.dhr ≠ some header.dh)
    (hlook : s.mkskipped.lookup (header.dh, header.n) = none) :
    (∃ r, (skipMessageKeys P s header.pn >>= fun t ↦ dhRatchet P fresh header t >>= fun u ↦
      skipMessageKeys P u header.n >>= advanceReceiving P) = .ok r) ↔ s.HasRoom header := by
  have hinj' : Set.InjOn (L.pub P) (Set.Iic ℓ) := hinj.mono (Set.Iic_subset_Iic.2 (by omega))
  have hskips : s.skips header = (header.pn.toNat - s.nr.toNat, header.n.toNat) := by
    rw [skips, if_neg (not_not.2 hlook), if_neg hdhr]
  have hmax := s.maxSkip.toNat_lt
  -- the state the new chain starts from, and when it gives a key
  have hnew : ∀ {t}, skipMessageKeys P s header.pn = .ok t →
      ((∃ r, (dhRatchet P fresh header t >>= fun u ↦
        skipMessageKeys P u header.n >>= advanceReceiving P) = .ok r) ↔
        header.n.toNat = 0 ∨ s.mkskipped.size + (header.pn.toNat - s.nr.toNat) + header.n.toNat ≤
          s.maxSkip.toNat) := by
    intro t hskip
    obtain ⟨htsize, htmax⟩ := h.size_of_close hpn hinj' hsize hskip
    obtain ⟨hdhs, -, -, hstored⟩ := h.close hpn hinj' hskip
    have hroom := (h.close_isOk_iff hpn hinj' hsize).1 ⟨t, hskip⟩
    rw [dhRatchet_of_dhs (hdhs.trans h.dhs)]
    refine Iff.trans (receiveOnChain_isOk_iff (P := P) rfl rfl ?_ ?_ (Nat.zero_le _) (by omega)) ?_
    · rintro d hd n -
      cases hd
      cases hcol : t.mkskipped.lookup (header.dh, n) with
      | none => rfl
      | some msgKey =>
        obtain ⟨j, ⟨-, hpass⟩, hdj, -⟩ := (hstored _ _ _).1 hcol
        have hmem : ℓ + 1 ∈ Set.Iic (ℓ + 1) := Set.mem_Iic.2 (le_refl _)
        have hmem' : j + 1 ∈ Set.Iic (ℓ + 1) := by
          rw [Set.mem_Iic]
          omega
        have hj := hinj hmem hmem' (hdh.symm.trans hdj)
        omega
    · dsimp only
      omega
    · dsimp only
      rw [htsize, htmax, UInt32.toNat_zero]
      omega
  rw [HasRoom, hskips, hlook]
  simp only [ne_eq, not_true, false_or]
  constructor
  · rintro ⟨r, hr⟩
    obtain ⟨t, hskip, hr⟩ := Except.bind_eq_ok.1 hr
    have hold := (h.close_isOk_iff hpn hinj' hsize).1 ⟨t, hskip⟩
    have hroom := (hnew hskip).1 ⟨r, hr⟩
    omega
  · rintro ⟨hlt, hroom⟩
    obtain ⟨t, hskip⟩ := (h.close_isOk_iff hpn hinj' hsize).2 ⟨hlt, by omega⟩
    obtain ⟨r, hr⟩ := (hnew hskip).2 (by omega)
    exact ⟨r, Except.bind_eq_ok.2 ⟨t, hskip, hr⟩⟩

/-- **When a message that was not accepted yet gives a key**: exactly when there is room. -/
theorem receive_isOk_iff (fresh : Block B 32) (h : OnRung P L len ℓ taken s)
    (hinj : Set.InjOn (L.pub P) (Set.Iic k)) (hℓ : ℓ ≤ k) (hi : i + 1 ≤ k) (hiℓ : i ≤ ℓ)
    (hmod : i % 2 = ℓ % 2) (hdh : header.dh = L.pub P (i + 1))
    (hpn : header.pn.toNat = sentBefore len (i + 1)) (hn : header.n.toNat < len i)
    (hlen : ℓ ≤ i + 2 → len i < 2 ^ 32) (hsize : s.mkskipped.size < 2 ^ 32)
    (hnot : ¬ taken header.dh header.n) :
    (∃ r, ratchetReceiveKey P fresh header s = .ok r) ↔ s.HasRoom header := by
  rcases ratchetReceiveKey_cases P fresh header s with
    ⟨msgKey, hlook, hr⟩ | ⟨hlook, hdhr, hr⟩ | ⟨hlook, hdhr, hr⟩
  · rw [hr]
    refine ⟨fun _ ↦ .inl ?_, fun _ ↦ ⟨_, rfl⟩⟩
    rw [hlook]
    exact Option.some_ne_none _
  · obtain rfl := h.rung_of_dhr hinj hℓ hi (hdh ▸ hdhr)
    rw [hr]
    exact h.current_isOk_iff (hinj.mono (Set.Iic_subset_Iic.2 hℓ)) hdh hn (hlen (le_refl _)) hsize
      hnot hlook
  · have hiℓ : i = ℓ := by
      by_contra hne
      have hlt : i + 2 ≤ ℓ := by omega
      rcases Nat.eq_or_lt_of_le hlt with rfl | hlt
      · exact hdhr (by rw [h.dhr, hdh]; rfl)
      · have := h.stored_of_passed ⟨hmod, .inr ⟨hlt, hn⟩⟩ hdh hnot
        rw [hlook] at this
        cases this
    subst hiℓ
    rw [hr]
    exact h.next_isOk_iff fresh (hinj.mono (Set.Iic_subset_Iic.2 hi)) hdh
      (by rw [hpn, sentBefore_succ]) hn (hlen (by omega)) hsize hdhr hlook

end OnRung

/-! ### Conversations -/

namespace Net

open DoubleRatchetState

variable {net : Net B} {sk b : Block B 32} {maxSkip : UInt32}

/-- Each side of a conversation is a ratchet driven by it. -/
theorem state_reachable (hnet : (conversation P sk b maxSkip).Reachable net) (p : Party) :
    (DoubleRatchetState.system P maxSkip).Reachable (net.state p) := by
  revert p
  refine hnet.invariant
    (I := fun net ↦ ∀ p, (DoubleRatchetState.system P maxSkip).Reachable (net.state p)) ?_ ?_
  · rintro net ⟨a, -, rfl⟩ p
    refine .of_start ?_
    cases p with
    | alice => exact .inl ⟨a, sk, P.publicKey b, rfl⟩
    | bob => exact .inr ⟨sk, b, rfl⟩
  · rintro net net' - hstate hstep p
    cases hstep with
    | send hkey henc =>
      rename_i m msgKey s
      by_cases hp : p = m.sender
      · subst hp
        simp only [Net.send, Function.update_self]
        exact (hstate m.sender).of_step (.inl (eq_afterEncrypt hkey))
      · simp only [Net.send, Function.update_of_ne hp]
        exact hstate p
    | deliver hfresh hauth =>
      rename_i fresh d
      by_cases hp : p = d.receiver
      · subst hp
        simp only [Net.deliver, Function.update_self]
        exact (hstate d.receiver).of_step (.inr (.inl ⟨fresh, d.header, d.ct, d.ad, rfl⟩))
      · simp only [Net.deliver, Function.update_of_ne hp]
        exact hstate p

/-- A chain its receiver has not left behind is as long as one of its sender's counters says. -/
theorem Coherent.len_lt {L : Ladder B} {rung : Party → ℕ} {len : ℕ → ℕ}
    (h : net.Coherent P L rung len) {m : Message B} {d : Delivery B} {i : ℕ}
    (hi : SitsOn P L rung len m i) (hcar : d.Carries m) (hle : rung d.receiver ≤ i + 2) :
    len i < 2 ^ 32 := by
  have hon := h.onRung m.sender
  have hrung := hi.rung
  have hparity := hi.parity
  have hsender := h.parity m.sender
  have hadj := h.adjacent m.sender
  rw [hcar.sender, Party.peer_peer, ← hcar.sender] at hadj
  obtain hsame | hnext : rung m.sender = i + 1 ∨ rung m.sender = i + 3 := by omega
  · have hns := hon.ns
    rw [hsame, sentOn] at hns
    rw [← hns]
    exact UInt32.toNat_lt _
  · have hpn := hon.pn
    rw [hnext, sentBefore] at hpn
    rw [← hpn]
    exact UInt32.toNat_lt _

/-- A message of the peer that was not accepted yet opens to its plaintext exactly when there is
room. -/
theorem opens_iff_hasRoom (hkdf : IdealKdf P) (hdh : IdealDh P) (haead : IdealAead P)
    (hnet : (conversation P sk b maxSkip).Reachable net) (fresh : Block B 32) {d : Delivery B}
    {m : Message B} (hm : m ∈ net.sent) (hcar : d.Carries m) (hacc : d ∉ net.accepted) :
    (net.receive P fresh d).1 = .ok m.pt ↔ (net.state d.receiver).HasRoom d.header := by
  obtain ⟨L, rung, len, h⟩ := coherent_of_reachable hkdf hdh haead hnet
  obtain ⟨i, hi, hle, hmod, hnot⟩ := h.sitsOn_of_carries hm hcar hacc
  have hreach := Party.le_max rung d.receiver
  have hsize : (net.state d.receiver).mkskipped.size < 2 ^ 32 :=
    (within_of_reachable (state_reachable hnet d.receiver)).skipped.trans_lt maxSkip.toNat_lt
  rw [← (h.onRung d.receiver).receive_isOk_iff fresh (h.injOn_max d.receiver) (hreach d.receiver)
    (hi.rung.trans (hreach _)) hle hmod (by rw [hcar.header, hi.dh]) (by rw [hcar.header, hi.pn])
    (by rw [hcar.header]; exact hi.n) (h.len_lt hi hcar) hsize hnot]
  rcases h.key_of_carries hdh fresh hi hcar hle hmod hnot with hlimit | ⟨s', hkey⟩
  · rw [hlimit]
    unfold receive decrypt
    rw [hlimit]
    exact ⟨nofun, nofun⟩
  · rw [Coherent.receive_of_key haead hi hcar hkey, hkey]
    exact ⟨fun _ ↦ ⟨_, rfl⟩, fun _ ↦ rfl⟩

/-- **What losses cost.** In every reachable state of a conversation, take a message of the peer that
was not accepted yet. That it is received whenever it skips no chain by more than the limit, is true
exactly when, doing so, it finds room: its key is stored, or the store has room for all it skips, and
the receiving counter is not within the limit of its top. -/
theorem received_iff_hasRoom (hkdf : IdealKdf P) (hdh : IdealDh P) (haead : IdealAead P)
    (hnet : (conversation P sk b maxSkip).Reachable net) (fresh : Block B 32) {d : Delivery B}
    {m : Message B} (hm : m ∈ net.sent) (hcar : d.Carries m) (hacc : d ∉ net.accepted) :
    ((net.state d.receiver).SkipsWithinLimit d.header → (net.receive P fresh d).1 = .ok m.pt) ↔
      ((net.state d.receiver).SkipsWithinLimit d.header →
        (net.state d.receiver).HasRoom d.header) :=
  imp_congr_right fun _ ↦ opens_iff_hasRoom hkdf hdh haead hnet fresh hm hcar hacc

/-! ### A run with two losses -/

/-- A conversation with room for one skipped key, after Alice has sent two messages. -/
def pairSent : Net Sym :=
  ((init symbolic (sampleSecret 0) (sampleSecret 1) (sampleSecret 2) 1).sendOrStay symbolic .alice
    [.lit 7] []).sendOrStay symbolic .alice [.lit 8] []

/-- The second of them. -/
def second : Message Sym := pairSent.sent.get ⟨0, by decide +kernel⟩

/-- The first message is lost. The second arrives, the key of the first takes the only place in the
store, and Bob answers. -/
def answered : Net Sym :=
  (pairSent.deliver symbolic (sampleSecret 3) (parcel second)).sendOrStay symbolic .bob [.lit 9] []

/-- The answer. -/
def answer : Message Sym := answered.sent.get ⟨0, by decide +kernel⟩

/-- The answer arrives, and Alice sends two messages on a new chain. -/
def turned : Net Sym :=
  ((answered.deliver symbolic (sampleSecret 4) (parcel answer)).sendOrStay symbolic .alice
    [.lit 10] []).sendOrStay symbolic .alice [.lit 11] []

/-- The second of these. It skips one position, that of the first, which is lost too. -/
def latest : Message Sym := turned.sent.get ⟨0, by decide +kernel⟩

/-- The example is a run in which both have sent, and a message was lost in each chain. -/
theorem turned_reachable :
    (conversation symbolic (sampleSecret 0) (sampleSecret 2) 1).Reachable turned := by
  have hstart : (conversation symbolic (sampleSecret 0) (sampleSecret 2) 1).Reachable
      (init symbolic (sampleSecret 0) (sampleSecret 1) (sampleSecret 2) 1) :=
    .of_start ⟨sampleSecret 1, by decide +kernel, rfl⟩
  have hpair : (conversation symbolic (sampleSecret 0) (sampleSecret 2) 1).Reachable pairSent :=
    (hstart.of_step (step_sendOrStay (by decide +kernel))).of_step
      (step_sendOrStay (by decide +kernel))
  have hanswered : (conversation symbolic (sampleSecret 0) (sampleSecret 2) 1).Reachable answered :=
    (hpair.of_step (.deliver (by decide +kernel) (by decide +kernel))).of_step
      (step_sendOrStay (by decide +kernel))
  exact ((hanswered.of_step (.deliver (by decide +kernel) (by decide +kernel))).of_step
    (step_sendOrStay (by decide +kernel))).of_step (step_sendOrStay (by decide +kernel))

/-- **A lost message locks the session.** With a limit of one, a message of the first chain was lost
and so was one of the second. The next message skips no position of the old chain and one of the new,
and is refused: the key of the message lost before takes its place. -/
theorem loss_locks_session :
    (conversation symbolic (sampleSecret 0) (sampleSecret 2) 1).Reachable turned ∧
    latest ∈ turned.sent ∧ (parcel latest).Carries latest ∧ parcel latest ∉ turned.accepted ∧
    (turned.state .bob).SkipsWithinLimit latest.header ∧
    (turned.receive symbolic (sampleSecret 5) (parcel latest)).1 = .error .limitExceeded :=
  ⟨turned_reachable, List.getElem_mem _, parcel_carries _, by decide +kernel,
    ⟨by decide +kernel, by decide +kernel⟩, by decide +kernel⟩

/-- The same message, by the general theorem. -/
theorem received_iff_hasRoom_latest :
    ((turned.state .bob).SkipsWithinLimit latest.header →
        (turned.receive symbolic (sampleSecret 5) (parcel latest)).1 = .ok latest.pt) ↔
      ((turned.state .bob).SkipsWithinLimit latest.header →
        (turned.state .bob).HasRoom latest.header) :=
  received_iff_hasRoom Symbolic.idealKdf Symbolic.idealDh Symbolic.idealAead turned_reachable
    (sampleSecret 5) (List.getElem_mem _) (parcel_carries latest) (by decide +kernel)

end Net

end VoiceChatCrypto
