import VoiceChatCrypto.Braid.Agreement
import VoiceChatCrypto.Data.System
import VoiceChatCrypto.Ratchet.TriplePersist

/-!
# Skipped keys are bounded

Whoever holds the keys of a session chooses `pn`, `n` and `pq_n` freely, and every position a header
jumps over costs the receiver a stored key. The three ratchets bound that in three ways: the plain and
the header-encrypting one measure the store before each insertion, against the limit they were
created with; SPQR measures it after each insertion, against a constant.

A store is `Within` a bound when its size is, and the limit the state carries is no larger. That is
what every operation keeps, from any state and whatever the header says, and it is all the invariant
there is: in particular the two skips of one DH ratchet step share it. As the bound fits into 32
bits, the size of the store survives the cast to `u32` in every round of every loop, and the checked
increments leave exactly the counters that unbounded arithmetic would.

`encrypt` works in place, so a call that fails may still have moved the sending chain: `afterEncrypt`
is the state it leaves, whatever it returns.
-/

open Alphabet

namespace VoiceChatCrypto

variable {B : Type} [Alphabet B]

/-! ### The plain ratchet -/

namespace DoubleRatchetState

/-- The state `encrypt` and `send_message_key` leave behind. The chain key steps first, then the
counter is checked; nothing that can fail after that changes the state. -/
def afterEncrypt (P : Primitives B) (s : DoubleRatchetState B) : DoubleRatchetState B :=
  match s.cks with
  | none => s
  | some cks => { s with cks := some (kdfCk P cks).1, ns := (checkedInc s.ns).toOption.getD s.ns }

variable {P : Primitives B} {s s' : DoubleRatchetState B} {cap : ℕ}

/-- Sealing has one possible outcome for the state, whatever is sealed. -/
theorem eq_afterEncrypt {r : Header B × Block B 32} (h : sendMessageKey P s = .ok (r, s')) :
    s' = afterEncrypt P s := by
  obtain ⟨header, msgKey⟩ := r
  obtain ⟨cks, dhs, ns, hcks, -, hinc, -, -, rfl⟩ := sendMessageKey_eq_ok h
  rw [afterEncrypt, hcks, hinc]
  rfl

/-- Sending touches the sending half only. -/
theorem afterEncrypt_eq (P : Primitives B) (s : DoubleRatchetState B) :
    ∃ cks ns, afterEncrypt P s = { s with cks, ns } := by
  unfold afterEncrypt
  split
  · exact ⟨s.cks, s.ns, rfl⟩
  · exact ⟨_, _, rfl⟩

/-- The store is within a bound, and the limit does not allow it to leave. -/
structure Within (cap : ℕ) (s : DoubleRatchetState B) : Prop where
  /-- The store holds at most `cap` keys. -/
  skipped : s.mkskipped.size ≤ cap
  /-- The check of the code lets no more in. -/
  limit : s.maxSkip.toNat ≤ cap

/-- The size of the store survives the cast to `u32`. -/
theorem Within.cast (hs : s.Within cap) (hcap : cap < 2 ^ 32) :
    (UInt32.ofNat s.mkskipped.size).toNat = s.mkskipped.size :=
  toNat_ofNat_u32 (hs.skipped.trans_lt hcap)

/-- Putting keys aside stays within the bound: each round checks it first. -/
theorem skipLoop_within (hcap : cap < 2 ^ 32) :
    ∀ {fuel : ℕ} {s : DoubleRatchetState B} {ckr ckr' : Block B 32}, s.Within cap →
      skipLoop P fuel s ckr = .ok (s', ckr') → s'.Within cap
  | 0, s, ckr, ckr', hs, h => by
    cases h
    exact hs
  | fuel + 1, s, ckr, ckr', hs, h => by
    unfold skipLoop at h
    split at h
    · cases h
    rename_i hroom
    split at h
    · cases h
    rename_i dhr _
    obtain ⟨nr, -, hrec⟩ := Except.bind_eq_ok.1 h
    -- the loop has room: the size is below the limit, and an insertion adds at most one
    rw [ge_iff_le, UInt32.le_iff_toNat_le, hs.cast hcap, not_le] at hroom
    have hins := Dict.size_insert_le s.mkskipped (dhr, s.nr) (kdfCk P ckr).2
    have hlimit := hs.limit
    exact skipLoop_within hcap
      (s := { s with mkskipped := s.mkskipped.insert (dhr, s.nr) (kdfCk P ckr).2, nr })
      ⟨by dsimp only; omega, hs.limit⟩ hrec

/-- Putting keys aside does not touch the sending counter. -/
theorem skipLoop_ns :
    ∀ {fuel : ℕ} {s : DoubleRatchetState B} {ckr ckr' : Block B 32},
      skipLoop P fuel s ckr = .ok (s', ckr') → s'.ns = s.ns
  | 0, s, ckr, ckr', h => by
    cases h
    rfl
  | fuel + 1, s, ckr, ckr', h => by
    unfold skipLoop at h
    split at h
    · cases h
    split at h
    · cases h
    obtain ⟨nr, -, hrec⟩ := Except.bind_eq_ok.1 h
    have hns := skipLoop_ns hrec
    exact hns

theorem skipMessageKeys_within (hcap : cap < 2 ^ 32) (hs : s.Within cap) {upTo : UInt32}
    (h : skipMessageKeys P s upTo = .ok s') : s'.Within cap := by
  unfold skipMessageKeys at h
  split at h
  · cases h
  split at h
  · cases h
  split at h
  · cases h
    exact hs
  · obtain ⟨⟨t, ckr⟩, hloop, hret⟩ := Except.bind_eq_ok.1 h
    have ht := skipLoop_within hcap hs hloop
    cases hret
    exact ⟨ht.skipped, ht.limit⟩

theorem dhRatchet_within (hs : s.Within cap) {fresh : Block B 32} {header : Header B}
    (h : dhRatchet P fresh header s = .ok s') : s'.Within cap := by
  unfold dhRatchet at h
  split at h
  · cases h
    exact ⟨hs.skipped, hs.limit⟩
  · cases h

/-- A step of the receiving chain leaves the store alone. -/
theorem advanceReceiving_within (hs : s.Within cap) {msgKey : Block B 32}
    (h : advanceReceiving P s = .ok (msgKey, s')) : s'.Within cap := by
  unfold advanceReceiving at h
  split at h
  · obtain ⟨nr, -, hret⟩ := Except.bind_eq_ok.1 h
    cases hret
    exact ⟨hs.skipped, hs.limit⟩
  · cases h

/-- **Finding a message key stays within the bound**, whatever the header. -/
theorem ratchetReceiveKey_within (hcap : cap < 2 ^ 32) (hs : s.Within cap)
    {fresh msgKey : Block B 32} {header : Header B}
    (h : ratchetReceiveKey P fresh header s = .ok (msgKey, s')) : s'.Within cap := by
  rcases ratchetReceiveKey_cases P fresh header s with ⟨mk', -, heq⟩ | ⟨-, -, heq⟩ | ⟨-, -, heq⟩
  · rw [heq] at h
    cases h
    exact ⟨(Dict.size_erase_le _ _).trans hs.skipped, hs.limit⟩
  · rw [heq] at h
    obtain ⟨t, hskip, hadv⟩ := Except.bind_eq_ok.1 h
    exact advanceReceiving_within (skipMessageKeys_within hcap hs hskip) hadv
  · rw [heq] at h
    obtain ⟨t, hskip, h⟩ := Except.bind_eq_ok.1 h
    obtain ⟨u, hdh, h⟩ := Except.bind_eq_ok.1 h
    obtain ⟨v, hskip', hadv⟩ := Except.bind_eq_ok.1 h
    have ht := skipMessageKeys_within hcap hs hskip
    have hu := dhRatchet_within ht hdh
    exact advanceReceiving_within (skipMessageKeys_within hcap hu hskip') hadv

/-- Only a trial that received a key is ever committed. -/
theorem decrypt_within (hcap : cap < 2 ^ 32) (hs : s.Within cap) (fresh : Block B 32)
    (header : Header B) (ct ad : List B) : (decrypt P fresh header ct ad s).2.Within cap := by
  rcases decrypt_cases P fresh header ct ad s with ⟨_, trial, _, hkey, -, heq⟩ | ⟨e, heq, -⟩
  · rw [heq]
    exact ratchetReceiveKey_within hcap hs hkey
  · rw [heq]
    exact hs

/-- What comes back from storage is what went in, under the limit it is read with. -/
theorem eq_of_deserialize_append (hs : s.mkskipped.size < 2 ^ 32) {σ : Enumeration}
    {maxSkip : UInt32} {rest : List B}
    (h : deserialize maxSkip (serialize σ s ++ rest) = .ok s') : s' = { s with maxSkip } := by
  have hskipped := takeSkipped_append σ hs rest
  simp only [deserialize, serialize, List.append_assoc, Cursor.takeOptionLoose_append,
    Cursor.takeBlock_append, Cursor.takeLe_append, hskipped, bind, Except.bind, pure, Except.pure,
    ofNat_toNat_mod] at h
  cases hdhr : checkPublic s.dhr with
  | error e => rw [hdhr] at h; cases h
  | ok dhr =>
    rw [hdhr] at h
    cases h
    rw [eq_of_checkPublic hdhr]

theorem eq_of_deserialize (hs : s.mkskipped.size < 2 ^ 32) {σ : Enumeration} {maxSkip : UInt32}
    (h : deserialize maxSkip (serialize σ s) = .ok s') : s' = { s with maxSkip } := by
  rw [← List.append_nil (serialize σ s)] at h
  exact eq_of_deserialize_append hs h

/-- A serialized state cannot be read from less than all of it. -/
theorem eq_nil_of_deserialize {σ : Enumeration} (hs : s.mkskipped.size < 2 ^ 32) {maxSkip : UInt32}
    {data more : List B} (heq : data ++ more = serialize σ s)
    (h : deserialize maxSkip data = .ok s') : more = [] := by
  obtain ⟨⟨dhs, d₁⟩, h₁, h⟩ := Except.bind_eq_ok.1 h
  obtain ⟨⟨dhr, d₂⟩, h₂, h⟩ := Except.bind_eq_ok.1 h
  obtain ⟨dhr', -, h⟩ := Except.bind_eq_ok.1 h
  obtain ⟨⟨rk, d₃⟩, h₃, h⟩ := Except.bind_eq_ok.1 h
  obtain ⟨⟨cks, d₄⟩, h₄, h⟩ := Except.bind_eq_ok.1 h
  obtain ⟨⟨ckr, d₅⟩, h₅, h⟩ := Except.bind_eq_ok.1 h
  obtain ⟨⟨ns, d₆⟩, h₆, h⟩ := Except.bind_eq_ok.1 h
  obtain ⟨⟨nr, d₇⟩, h₇, h⟩ := Except.bind_eq_ok.1 h
  obtain ⟨⟨pn, d₈⟩, h₈, h⟩ := Except.bind_eq_ok.1 h
  obtain ⟨⟨limit, d₉⟩, h₉, h⟩ := Except.bind_eq_ok.1 h
  obtain ⟨⟨mkskipped, rest⟩, h₁₀, -⟩ := Except.bind_eq_ok.1 h
  have loose := Cursor.takeOptionLoose_local (B := B) PrimitiveError.invalidLength 32
  have number := Cursor.takeLe_local (B := B) PrimitiveError.invalidLength 4
  -- each field that is read leaves the same part of the written state unread
  simp only [serialize, List.append_assoc] at heq
  have e₁ := loose.rest_append h₁ (Cursor.takeOptionLoose_append _ _) heq
  have e₂ := loose.rest_append h₂ (Cursor.takeOptionLoose_append _ _) e₁
  have e₃ := (Cursor.takeBlock_local _ _).rest_append h₃ (Cursor.takeBlock_append _ _) e₂
  have e₄ := loose.rest_append h₄ (Cursor.takeOptionLoose_append _ _) e₃
  have e₅ := loose.rest_append h₅ (Cursor.takeOptionLoose_append _ _) e₄
  have e₆ := number.rest_append h₆ (Cursor.takeLe_append _ _ _) e₅
  have e₇ := number.rest_append h₇ (Cursor.takeLe_append _ _ _) e₆
  have e₈ := number.rest_append h₈ (Cursor.takeLe_append _ _ _) e₇
  have e₉ := number.rest_append h₉ (Cursor.takeLe_append _ _ _) e₈
  rw [← List.append_nil (putSkipped σ s.mkskipped)] at e₉
  have e₁₀ := takeSkipped_local.rest_append h₁₀ (takeSkipped_append σ hs) e₉
  exact (List.append_eq_nil_iff.1 e₁₀).2

/-- The states whose store `ratchet_receive_key` measures on the way to a header: any number of
rounds down the old chain, or down the new one. -/
inductive Measured (P : Primitives B) (fresh : Block B 32) (header : Header B)
    (s : DoubleRatchetState B) : DoubleRatchetState B → Prop
  | old {fuel ckr ckr' v} (h : skipLoop P fuel s ckr = .ok (v, ckr')) : Measured P fresh header s v
  | new {t u fuel ckr ckr' v} (hskip : skipMessageKeys P s header.pn = .ok t)
      (hdh : dhRatchet P fresh header t = .ok u) (h : skipLoop P fuel u ckr = .ok (v, ckr')) :
      Measured P fresh header s v

/-- What a reception does to a state keeps it within the bound. -/
theorem Measured.within (hcap : cap < 2 ^ 32) (hs : s.Within cap) {fresh : Block B 32}
    {header : Header B} (h : Measured P fresh header s s') : s'.Within cap := by
  cases h with
  | old h => exact skipLoop_within hcap hs h
  | new hskip hdh h =>
    exact skipLoop_within hcap (dhRatchet_within (skipMessageKeys_within hcap hs hskip) hdh) h

/-- The counters after receiving on a header, computed in `ℕ`: a stored key moves none, the current
chain moves to just behind the header, a new chain starts at zero. -/
def Counted (header : Header B) (s s' : DoubleRatchetState B) : Prop :=
  (s.mkskipped.lookup (header.dh, header.n) ≠ none ∧ s'.nr = s.nr ∧ s'.ns = s.ns ∧ s'.pn = s.pn) ∨
  (s.dhr = some header.dh ∧ s'.nr.toNat = max s.nr.toNat header.n.toNat + 1 ∧ s'.ns = s.ns ∧
    s'.pn = s.pn) ∨
  (s.dhr ≠ some header.dh ∧ s'.nr.toNat = header.n.toNat + 1 ∧ s'.ns = 0 ∧ s'.pn = s.ns)

/-- Putting keys aside does not touch the sending counter. -/
theorem skipMessageKeys_ns {upTo : UInt32} (h : skipMessageKeys P s upTo = .ok s') :
    s'.ns = s.ns := by
  unfold skipMessageKeys at h
  split at h
  · cases h
  split at h
  · cases h
  split at h
  · cases h
    rfl
  · obtain ⟨⟨t, ckr⟩, hloop, hret⟩ := Except.bind_eq_ok.1 h
    cases hret
    have hns := skipLoop_ns hloop
    exact hns

/-- A message on the current chain needs a current chain. -/
theorem isSome_ckr_of_receiveOnChain {n : UInt32} {msgKey : Block B 32}
    (h : (skipMessageKeys P s n >>= advanceReceiving P) = .ok (msgKey, s')) :
    ∃ ckr, s.ckr = some ckr := by
  obtain ⟨t, hskip, hadv⟩ := Except.bind_eq_ok.1 h
  rcases Option.eq_none_or_eq_some s.ckr with hckr | hckr
  · rw [skipMessageKeys_of_ckr_none hckr hskip, advanceReceiving, hckr] at hadv
    cases hadv
  · exact hckr

/-- **Receiving counts exactly**: every counter that the code advances with machine arithmetic has
the value it would have without a word size. -/
theorem ratchetReceiveKey_counted {fresh msgKey : Block B 32} {header : Header B}
    (h : ratchetReceiveKey P fresh header s = .ok (msgKey, s')) : Counted header s s' := by
  rcases ratchetReceiveKey_cases P fresh header s with
    ⟨mk', hlook, heq⟩ | ⟨-, hdhr, heq⟩ | ⟨-, hdhr, heq⟩
  · rw [heq] at h
    cases h
    refine .inl ⟨?_, rfl, rfl, rfl⟩
    rw [hlook]
    exact Option.some_ne_none _
  · rw [heq] at h
    obtain ⟨ckr, hckr⟩ := isSome_ckr_of_receiveOnChain h
    obtain ⟨-, hnr, hrest, -⟩ := receiveOnChain_eq_ok hdhr hckr h
    refine .inr (.inl ⟨hdhr, hnr, ?_, ?_⟩) <;> rw [hrest]
  · rw [heq] at h
    obtain ⟨t, hskip, h⟩ := Except.bind_eq_ok.1 h
    obtain ⟨u, hdh, h⟩ := Except.bind_eq_ok.1 h
    unfold dhRatchet at hdh
    split at hdh
    · cases hdh
      obtain ⟨-, hnr, hrest, -⟩ := receiveOnChain_eq_ok rfl rfl h
      refine .inr (.inr ⟨hdhr, ?_, ?_, ?_⟩)
      · rw [hnr]
        exact congrArg (· + 1) (Nat.zero_max _)
      · rw [hrest]
      · rw [hrest]
        exact skipMessageKeys_ns hskip
    · cases hdh

/-- A ratchet with the limit `maxSkip`, driven in any order: messages sent, anything received, and
the state written out and read back in any order of iteration. -/
def system (P : Primitives B) (maxSkip : UInt32) : System (DoubleRatchetState B) where
  start s := (∃ dhs sk bobDhPublic, s = initAlice P dhs sk bobDhPublic maxSkip) ∨
    ∃ sk bobDhKeypair, s = initBob sk bobDhKeypair maxSkip
  step s t := t = afterEncrypt P s ∨
    (∃ fresh header ct ad, t = (decrypt P fresh header ct ad s).2) ∨
    ∃ σ, deserialize maxSkip (serialize σ s) = .ok t

/-- **In every run the store stays within the limit.** -/
theorem within_of_reachable {maxSkip : UInt32} (hs : (system P maxSkip).Reachable s) :
    s.Within maxSkip.toNat := by
  have hcap := maxSkip.toNat_lt
  refine hs.invariant ?_ ?_
  · rintro s (⟨dhs, sk, bobDhPublic, rfl⟩ | ⟨sk, bobDhKeypair, rfl⟩)
    · exact ⟨Nat.zero_le _, le_refl _⟩
    · exact ⟨Nat.zero_le _, le_refl _⟩
  · rintro s t - hs (rfl | ⟨fresh, header, ct, ad, rfl⟩ | ⟨σ, hload⟩)
    · obtain ⟨cks, ns, heq⟩ := afterEncrypt_eq P s
      rw [heq]
      exact ⟨hs.skipped, hs.limit⟩
    · exact decrypt_within hcap hs fresh header ct ad
    · rw [eq_of_deserialize (hs.skipped.trans_lt hcap) hload]
      exact ⟨hs.skipped, le_refl _⟩

end DoubleRatchetState

/-! ### The header-encrypting ratchet -/

namespace HeaderEncryptState

/-- The state `encrypt` leaves behind. -/
def afterEncrypt (P : Primitives B) (s : HeaderEncryptState B) : HeaderEncryptState B :=
  match s.cks with
  | none => s
  | some cks => { s with cks := some (kdfCkHe P cks).1, ns := (checkedInc s.ns).toOption.getD s.ns }

variable {P : Primitives B} {s s' : HeaderEncryptState B} {cap : ℕ}

/-- Sealing has one possible outcome for the state, whatever is sealed. -/
theorem eq_afterEncrypt {headerNonce : Block B 12} {pt ad : List B} {r : List B × List B}
    (h : encrypt P headerNonce s pt ad = .ok (r, s')) : s' = afterEncrypt P s := by
  obtain ⟨encHeader, ct⟩ := r
  obtain ⟨cks, dhs, hks, ns, hcks, -, -, hinc, -, -, rfl⟩ := encrypt_eq_ok h
  rw [afterEncrypt, hcks, hinc]
  rfl

/-- Sending touches the sending half only. -/
theorem afterEncrypt_eq (P : Primitives B) (s : HeaderEncryptState B) :
    ∃ cks ns, afterEncrypt P s = { s with cks, ns } := by
  unfold afterEncrypt
  split
  · exact ⟨s.cks, s.ns, rfl⟩
  · exact ⟨_, _, rfl⟩

/-- The store is within a bound, and the limit does not allow it to leave. -/
structure Within (cap : ℕ) (s : HeaderEncryptState B) : Prop where
  /-- The store holds at most `cap` keys. -/
  skipped : s.mkskipped.size ≤ cap
  /-- The check of the code lets no more in. -/
  limit : s.maxSkip.toNat ≤ cap

/-- The size of the store survives the cast to `u32`. -/
theorem Within.cast (hs : s.Within cap) (hcap : cap < 2 ^ 32) :
    (UInt32.ofNat s.mkskipped.size).toNat = s.mkskipped.size :=
  toNat_ofNat_u32 (hs.skipped.trans_lt hcap)

/-- Putting keys aside stays within the bound: each round checks it first. -/
theorem skipLoop_within (hcap : cap < 2 ^ 32) {hkr : Block B 32} :
    ∀ {fuel : ℕ} {s : HeaderEncryptState B} {ckr ckr' : Block B 32}, s.Within cap →
      skipLoop P hkr fuel s ckr = .ok (s', ckr') → s'.Within cap
  | 0, s, ckr, ckr', hs, h => by
    cases h
    exact hs
  | fuel + 1, s, ckr, ckr', hs, h => by
    unfold skipLoop at h
    split at h
    · cases h
    rename_i hroom
    obtain ⟨nr, -, hrec⟩ := Except.bind_eq_ok.1 h
    rw [ge_iff_le, UInt32.le_iff_toNat_le, hs.cast hcap, not_le] at hroom
    have hins := Dict.size_insert_le s.mkskipped (hkr, s.nr) (kdfCkHe P ckr).2
    have hlimit := hs.limit
    exact skipLoop_within hcap
      (s := { s with mkskipped := s.mkskipped.insert (hkr, s.nr) (kdfCkHe P ckr).2, nr })
      ⟨by dsimp only; omega, hs.limit⟩ hrec

theorem skipMessageKeys_within (hcap : cap < 2 ^ 32) (hs : s.Within cap) {upTo : UInt32}
    (h : skipMessageKeys P s upTo = .ok s') : s'.Within cap := by
  unfold skipMessageKeys at h
  split at h
  · cases h
  split at h
  · obtain ⟨⟨t, ckr⟩, hloop, hret⟩ := Except.bind_eq_ok.1 h
    have ht := skipLoop_within hcap hs hloop
    cases hret
    exact ⟨ht.skipped, ht.limit⟩
  · cases h
    exact hs

theorem dhRatchet_within (hs : s.Within cap) {fresh : Block B 32} {header : Header B}
    (h : dhRatchet P fresh header s = .ok s') : s'.Within cap := by
  unfold dhRatchet at h
  split at h
  · cases h
    exact ⟨hs.skipped, hs.limit⟩
  · cases h

/-- A step of the receiving chain leaves the store alone. -/
theorem advanceReceiving_within (hs : s.Within cap) {msgKey : Block B 32}
    (h : advanceReceiving P s = .ok (msgKey, s')) : s'.Within cap := by
  unfold advanceReceiving at h
  split at h
  · obtain ⟨nr, -, hret⟩ := Except.bind_eq_ok.1 h
    cases hret
    exact ⟨hs.skipped, hs.limit⟩
  · cases h

/-- A key that was found was stored earlier, or belongs to the current header key, or to the next
one. -/
theorem receiveKey_eq_ok {σ : Enumeration} {fresh msgKey : Block B 32} {encHeader : List B}
    (h : receiveKey P σ fresh encHeader s = .ok (msgKey, s')) :
    (∃ k, s.mkskipped.lookup k = some msgKey ∧ s' = { s with mkskipped := s.mkskipped.erase k }) ∨
    (∃ hk header, s.hkr = some hk ∧ hdecrypt P hk encHeader = .ok header ∧
      (skipMessageKeys P s header.n >>= advanceReceiving P) = .ok (msgKey, s')) ∨
    ∃ hk header t u, s.nhkr = some hk ∧ hdecrypt P hk encHeader = .ok header ∧
      skipMessageKeys P s header.pn = .ok t ∧ dhRatchet P fresh header t = .ok u ∧
      (skipMessageKeys P u header.n >>= advanceReceiving P) = .ok (msgKey, s') := by
  rcases receiveKey_cases P σ fresh encHeader s with ⟨hk, header, mk', -, hlook, heq⟩ |
    ⟨-, ⟨hk, header, hhkr, hopen, heq⟩ | ⟨-, ⟨hk, header, hnhkr, hopen, heq⟩ | ⟨-, heq⟩⟩⟩
  · rw [heq] at h
    cases h
    exact .inl ⟨(hk, header.n), hlook, rfl⟩
  · rw [heq] at h
    exact .inr (.inl ⟨hk, header, hhkr, hopen, h⟩)
  · rw [heq] at h
    obtain ⟨t, hskip, h⟩ := Except.bind_eq_ok.1 h
    obtain ⟨u, hdh, h⟩ := Except.bind_eq_ok.1 h
    exact .inr (.inr ⟨hk, header, t, u, hnhkr, hopen, hskip, hdh, h⟩)
  · rw [heq] at h
    cases h

/-- Finding a message key stays within the bound, whatever the header. -/
theorem receiveKey_within (hcap : cap < 2 ^ 32) (hs : s.Within cap) {σ : Enumeration}
    {fresh msgKey : Block B 32} {encHeader : List B}
    (h : receiveKey P σ fresh encHeader s = .ok (msgKey, s')) : s'.Within cap := by
  rcases receiveKey_eq_ok h with
    ⟨k, -, rfl⟩ | ⟨hk, header, -, -, h⟩ | ⟨hk, header, t, u, -, -, hskip, hdh, h⟩
  · exact ⟨(Dict.size_erase_le _ _).trans hs.skipped, hs.limit⟩
  · obtain ⟨t, hskip, hadv⟩ := Except.bind_eq_ok.1 h
    exact advanceReceiving_within (skipMessageKeys_within hcap hs hskip) hadv
  · obtain ⟨v, hskip', hadv⟩ := Except.bind_eq_ok.1 h
    have hu := dhRatchet_within (skipMessageKeys_within hcap hs hskip) hdh
    exact advanceReceiving_within (skipMessageKeys_within hcap hu hskip') hadv

theorem decrypt_within (hcap : cap < 2 ^ 32) (hs : s.Within cap) (σ : Enumeration)
    (fresh : Block B 32) (encHeader ct ad : List B) :
    (decrypt P σ fresh encHeader ct ad s).2.Within cap := by
  rcases decrypt_cases P σ fresh encHeader ct ad s with ⟨_, trial, _, hkey, -, heq⟩ | ⟨e, heq⟩
  · rw [heq]
    exact receiveKey_within hcap hs hkey
  · rw [heq]
    exact hs

/-- What comes back from storage is what went in, under the limit it is read with. -/
theorem eq_of_deserialize (hs : s.mkskipped.size < 2 ^ 32) {σ : Enumeration} {maxSkip : UInt32}
    (h : deserialize maxSkip (serialize σ s) = .ok s') : s' = { s with maxSkip } := by
  have hskipped := takeSkipped_append σ hs []
  rw [List.append_nil] at hskipped
  simp only [deserialize, serialize, List.append_assoc, Cursor.takeOption_append,
    Cursor.takeBlock_append, Cursor.takeLe_append, hskipped, bind, Except.bind, ofNat_toNat_mod,
    Cursor.finish_nil] at h
  cases hdhr : checkPublic s.dhr with
  | error e => rw [hdhr] at h; cases h
  | ok dhr =>
    rw [hdhr] at h
    cases h
    rw [eq_of_checkPublic hdhr]

/-- The states whose store `receive_key` measures on the way to a header: any number of rounds down
the old chain, or down the new one. -/
inductive Measured (P : Primitives B) (fresh : Block B 32) (s : HeaderEncryptState B) :
    HeaderEncryptState B → Prop
  | old {hkr fuel ckr ckr' v} (h : skipLoop P hkr fuel s ckr = .ok (v, ckr')) : Measured P fresh s v
  | new {header t u hkr fuel ckr ckr' v} (hskip : skipMessageKeys P s header.pn = .ok t)
      (hdh : dhRatchet P fresh header t = .ok u) (h : skipLoop P hkr fuel u ckr = .ok (v, ckr')) :
      Measured P fresh s v

/-- What a reception does to a state keeps it within the bound. -/
theorem Measured.within (hcap : cap < 2 ^ 32) (hs : s.Within cap) {fresh : Block B 32}
    (h : Measured P fresh s s') : s'.Within cap := by
  cases h with
  | old h => exact skipLoop_within hcap hs h
  | new hskip hdh h =>
    exact skipLoop_within hcap (dhRatchet_within (skipMessageKeys_within hcap hs hskip) hdh) h

/-- The counters after receiving a sealed header, computed in `ℕ`: a stored key moves none, the
current chain moves to just behind the header, a new chain starts at zero. -/
def Counted (P : Primitives B) (encHeader : List B) (s s' : HeaderEncryptState B) : Prop :=
  (∃ k, s.mkskipped.lookup k ≠ none ∧ s' = { s with mkskipped := s.mkskipped.erase k }) ∨
  (∃ hk header, s.hkr = some hk ∧ hdecrypt P hk encHeader = .ok header ∧
    s'.nr.toNat = max s.nr.toNat header.n.toNat + 1 ∧ s'.ns = s.ns ∧ s'.pn = s.pn) ∨
  ∃ hk header, s.nhkr = some hk ∧ hdecrypt P hk encHeader = .ok header ∧
    s'.nr.toNat = header.n.toNat + 1 ∧ s'.ns = 0 ∧ s'.pn = s.ns

/-- A message on the current chain needs a current chain. -/
theorem isSome_ckr_of_receiveOnChain {n : UInt32} {msgKey : Block B 32}
    (h : (skipMessageKeys P s n >>= advanceReceiving P) = .ok (msgKey, s')) :
    ∃ ckr, s.ckr = some ckr := by
  obtain ⟨t, hskip, hadv⟩ := Except.bind_eq_ok.1 h
  rcases Option.eq_none_or_eq_some s.ckr with hckr | hckr
  · rw [skipMessageKeys_of_ckr_none hckr hskip, advanceReceiving, hckr] at hadv
    cases hadv
  · exact hckr

/-- A skip leaves everything but the receiving chain and the store alone. -/
theorem skipMessageKeys_kept {upTo : UInt32} (h : skipMessageKeys P s upTo = .ok s') :
    s'.ns = s.ns ∧ s'.nhkr = s.nhkr := by
  unfold skipMessageKeys at h
  split at h
  · cases h
  split at h
  · obtain ⟨⟨t, ckr⟩, hloop, hret⟩ := Except.bind_eq_ok.1 h
    obtain ⟨-, -, hrest, -⟩ := skipLoop_eq_ok hloop
    cases hret
    constructor <;> rw [hrest]
  · cases h
    exact ⟨rfl, rfl⟩

/-- **Receiving counts exactly.** -/
theorem receiveKey_counted {σ : Enumeration} {fresh msgKey : Block B 32} {encHeader : List B}
    (h : receiveKey P σ fresh encHeader s = .ok (msgKey, s')) : Counted P encHeader s s' := by
  rcases receiveKey_eq_ok h with
    ⟨k, hlook, rfl⟩ | ⟨hk, header, hhkr, hopen, h⟩ | ⟨hk, header, t, u, hnhkr, hopen, hskip, hdh, h⟩
  · refine .inl ⟨k, ?_, rfl⟩
    rw [hlook]
    exact Option.some_ne_none _
  · obtain ⟨ckr, hckr⟩ := isSome_ckr_of_receiveOnChain h
    obtain ⟨-, hnr, hrest, -⟩ := receiveOnChain_eq_ok hhkr hckr h
    refine .inr (.inl ⟨hk, header, hhkr, hopen, hnr, ?_, ?_⟩) <;> rw [hrest]
  · obtain ⟨hns, hkept⟩ := skipMessageKeys_kept hskip
    unfold dhRatchet at hdh
    split at hdh
    · cases hdh
      obtain ⟨-, hnr, hrest, -⟩ := receiveOnChain_eq_ok (hkept.trans hnhkr) rfl h
      refine .inr (.inr ⟨hk, header, hnhkr, hopen, ?_, ?_, ?_⟩)
      · rw [hnr]
        exact congrArg (· + 1) (Nat.zero_max _)
      · rw [hrest]
      · rw [hrest]
        exact hns
    · cases hdh

/-- A ratchet with the limit `maxSkip`, driven in any order: messages sent, anything received, and
the state written out and read back in any order of iteration. -/
def system (P : Primitives B) (maxSkip : UInt32) : System (HeaderEncryptState B) where
  start s := (∃ dhs sk bobDhPublic hka nhkb, s = initAlice P dhs sk bobDhPublic hka nhkb maxSkip) ∨
    ∃ sk bobDhKeypair hka nhkb, s = initBob sk bobDhKeypair hka nhkb maxSkip
  step s t := t = afterEncrypt P s ∨
    (∃ σ fresh encHeader ct ad, t = (decrypt P σ fresh encHeader ct ad s).2) ∨
    ∃ σ, deserialize maxSkip (serialize σ s) = .ok t

/-- **In every run the store stays within the limit.** -/
theorem within_of_reachable {maxSkip : UInt32} (hs : (system P maxSkip).Reachable s) :
    s.Within maxSkip.toNat := by
  have hcap := maxSkip.toNat_lt
  refine hs.invariant ?_ ?_
  · rintro s (⟨dhs, sk, bobDhPublic, hka, nhkb, rfl⟩ | ⟨sk, bobDhKeypair, hka, nhkb, rfl⟩)
    · exact ⟨Nat.zero_le _, le_refl _⟩
    · exact ⟨Nat.zero_le _, le_refl _⟩
  · rintro s t - hs (rfl | ⟨σ, fresh, encHeader, ct, ad, rfl⟩ | ⟨σ, hload⟩)
    · obtain ⟨cks, ns, heq⟩ := afterEncrypt_eq P s
      rw [heq]
      exact ⟨hs.skipped, hs.limit⟩
    · exact decrypt_within hcap hs σ fresh encHeader ct ad
    · rw [eq_of_deserialize (hs.skipped.trans_lt hcap) hload]
      exact ⟨hs.skipped, le_refl _⟩

end HeaderEncryptState

/-! ### SPQR -/

namespace SpqrState

/-- The state `send_key` leaves behind: like the classical chain, it steps before its counter is
checked. -/
def afterSend (P : Primitives B) (s : SpqrState B) : SpqrState B :=
  match s.sending with
  | none => s
  | some c =>
    { s with sending := some { c with
        chainKey := (kdfCkSpqr P c.chainKey).1, n := (checkedInc c.n).toOption.getD c.n } }

variable {P : Primitives B} {s s' : SpqrState B}

/-- A post-quantum key has one possible outcome for the state. -/
theorem eq_afterSend {r : UInt32 × UInt32 × Block B 32} (h : sendKey P s = .ok (r, s')) :
    s' = afterSend P s := by
  unfold sendKey at h
  split at h
  · rename_i c hc
    obtain ⟨n, hinc, hret⟩ := Except.bind_eq_ok.1 h
    cases hret
    rw [afterSend, hc]
    dsimp only
    rw [hinc]
    rfl
  · cases h

/-- Sending steps the sending chain within its epoch, and touches nothing else. -/
theorem afterSend_eq (P : Primitives B) (s : SpqrState B) :
    ∃ sending, afterSend P s = { s with sending } ∧
      sending.map (fun c ↦ c.epoch) = s.sending.map fun c ↦ c.epoch := by
  unfold afterSend
  split
  · exact ⟨s.sending, rfl, rfl⟩
  · rename_i c hc
    refine ⟨_, rfl, ?_⟩
    rw [hc]
    rfl

/-- Nothing SPQR holds belongs to an epoch still to come: neither the receiving chain nor the keys
it has put aside. -/
structure Recent (s : SpqrState B) : Prop where
  /-- The receiving chain is of an epoch that has begun. -/
  receiving : ∀ c, s.receiving = some c → c.epoch.toNat < s.nextEpoch.toNat
  /-- So are the keys that were put aside. -/
  skipped : ∀ k mk, s.skipped.lookup k = some mk → k.1.toNat < s.nextEpoch.toNat
  /-- The number of epochs they are kept for is the usual one. -/
  maxSkipEpochs : s.maxSkipEpochs = spqrMaxSkipEpochs

omit [Alphabet B] in
/-- The sum `advance_epoch` compares with the new epoch fits, up to the last 32 epochs of all. -/
theorem Recent.sum_lt (hs : s.Recent) (hlate : s.nextEpoch.toNat + 32 ≤ 2 ^ 32)
    {k : UInt32 × UInt32} {mk : Block B 32} (hk : s.skipped.lookup k = some mk) :
    k.1.toNat + s.maxSkipEpochs.toNat < 2 ^ 32 := by
  have h := hs.skipped k mk hk
  have hepochs : spqrMaxSkipEpochs.toNat = 32 := rfl
  rw [hs.maxSkipEpochs, hepochs]
  omega

/-- The loop stays in its epoch, counts exactly, and stores keys of that epoch only. -/
theorem skipLoop_spec {chain' : EpochChain B} {skipped' : Dict (UInt32 × UInt32) (Block B 32)} :
    ∀ {fuel : ℕ} {chain : EpochChain B} {skipped : Dict (UInt32 × UInt32) (Block B 32)},
      skipLoop P fuel chain skipped = .ok (chain', skipped') →
      chain'.epoch = chain.epoch ∧ chain'.n.toNat = chain.n.toNat + fuel ∧
      ∀ k mk, skipped'.lookup k = some mk → k.1 = chain.epoch ∨ skipped.lookup k = some mk
  | 0, chain, skipped, h => by
    cases h
    exact ⟨rfl, rfl, fun k mk hk ↦ .inr hk⟩
  | fuel + 1, chain, skipped, h => by
    obtain ⟨n, hinc, h⟩ := Except.bind_eq_ok.1 h
    dsimp only at h
    split at h
    · cases h
    obtain ⟨hepoch, hn, hkeys⟩ := skipLoop_spec h
    have hinc := checkedInc_eq_ok hinc
    refine ⟨hepoch, by dsimp only at hn; omega, fun k mk hk ↦ ?_⟩
    rcases hkeys k mk hk with hk | hk
    · exact .inl hk
    · by_cases hnew : k = (chain.epoch, chain.n)
      · exact .inl (congrArg Prod.fst hnew)
      · rw [Finmap.lookup_insert_of_ne _ hnew] at hk
        exact .inr hk

/-- The receiving counter after `receive_key`, computed in `ℕ`: a stored key does not move it, and
the chain moves to just behind the position asked for. -/
def Counted (epoch n : UInt32) (s s' : SpqrState B) : Prop :=
  (s.skipped.lookup (epoch, n) ≠ none ∧ s'.receiving = s.receiving) ∨
  ∃ c c', s.receiving = some c ∧ s'.receiving = some c' ∧ c.epoch = epoch ∧ c'.epoch = epoch ∧
    c.n.toNat ≤ n.toNat ∧ c'.n.toNat = n.toNat + 1

/-- **What `receive_key` does**, besides deriving a key: it counts exactly, and moves nothing but the
receiving chain and the store. -/
theorem receiveKey_spec {epoch n : UInt32} {msgKey : Block B 32}
    (h : receiveKey P epoch n s = .ok (msgKey, s')) :
    Counted epoch n s s' ∧ s' = { s with receiving := s'.receiving, skipped := s'.skipped } ∧
      ∀ k mk, s'.skipped.lookup k = some mk → k.1 = epoch ∧ (∃ c, s.receiving = some c ∧
        c.epoch = epoch) ∨ s.skipped.lookup k = some mk := by
  unfold receiveKey at h
  split at h
  · rename_i mk' hlook
    cases h
    refine ⟨.inl ⟨?_, rfl⟩, rfl, fun k mk hk ↦ .inr ?_⟩
    · rw [hlook]
      exact Option.some_ne_none _
    · by_cases hkey : k = (epoch, n)
      · rw [hkey, Finmap.lookup_erase] at hk
        cases hk
      · rwa [Finmap.lookup_erase_ne hkey] at hk
  split at h
  · rename_i c hc
    dsimp only at h
    split at h
    · cases h
    rename_i hepoch
    split at h
    · cases h
    rename_i hbefore
    split at h
    · cases h
    obtain ⟨⟨chain, skipped⟩, hloop, h⟩ := Except.bind_eq_ok.1 h
    obtain ⟨next, hinc, h⟩ := Except.bind_eq_ok.1 h
    cases h
    obtain ⟨hchain, hn, hkeys⟩ := skipLoop_spec hloop
    have hinc := checkedInc_eq_ok hinc
    dsimp only at hinc
    have hepoch := not_not.1 hepoch
    refine ⟨.inr ⟨c, _, hc, rfl, hepoch, hchain.trans hepoch, not_lt.1 hbefore, ?_⟩, rfl,
      fun k mk hk ↦ ?_⟩
    · dsimp only
      omega
    · rcases hkeys k mk hk with hk | hk
      · exact .inl ⟨hk.trans hepoch, c, hc, hepoch⟩
      · exact .inr hk
  · cases h

/-- A post-quantum key is put aside for an epoch that has begun. -/
theorem receiveKey_recent (hs : s.Recent) {epoch n : UInt32} {msgKey : Block B 32}
    (h : receiveKey P epoch n s = .ok (msgKey, s')) : s'.Recent := by
  obtain ⟨hcount, hrest, hkeys⟩ := receiveKey_spec h
  have hnext : s'.nextEpoch = s.nextEpoch := by rw [hrest]
  refine ⟨fun c' hc' ↦ ?_, fun k mk hk ↦ ?_, ?_⟩
  · rw [hnext]
    rcases hcount with ⟨-, hsame⟩ | ⟨c, c₁, hc, hc₁, hepoch, hepoch₁, -, -⟩
    · exact hs.receiving c' (hsame ▸ hc')
    · rw [hc'] at hc₁
      cases hc₁
      rw [hepoch₁, ← hepoch]
      exact hs.receiving c hc
  · rw [hnext]
    rcases hkeys k mk hk with ⟨hk, c, hc, hepoch⟩ | hk
    · rw [hk, ← hepoch]
      exact hs.receiving c hc
    · exact hs.skipped k mk hk
  · rw [hrest]
    exact hs.maxSkipEpochs

/-- **What `advance_epoch` does**: both chains open in the epoch that was next, and stored keys are
only dropped. -/
theorem advanceEpoch_spec {scka : Block B 32} {epoch : UInt32}
    (h : advanceEpoch P scka s = .ok (epoch, s')) :
    epoch = s.nextEpoch ∧ s'.nextEpoch.toNat = s.nextEpoch.toNat + 1 ∧
    (∃ c, s'.sending = some c ∧ s'.receiving = some c ∧ c.epoch = s.nextEpoch ∧ c.n = 0) ∧
    s'.maxSkipEpochs = s.maxSkipEpochs ∧
    ∀ k mk, s'.skipped.lookup k = some mk → s.skipped.lookup k = some mk := by
  obtain ⟨next, hinc, hret⟩ := Except.bind_eq_ok.1 h
  cases hret
  refine ⟨rfl, checkedInc_eq_ok hinc, ⟨_, rfl, rfl, rfl, rfl⟩, rfl, fun k mk hk ↦ ?_⟩
  dsimp only at hk
  rw [Dict.lookup_filter] at hk
  split at hk
  · exact hk
  · cases hk

theorem advanceEpoch_recent (hs : s.Recent) {scka : Block B 32} {epoch : UInt32}
    (h : advanceEpoch P scka s = .ok (epoch, s')) : s'.Recent := by
  obtain ⟨-, hnext, ⟨c, -, hc, hepoch, -⟩, hmax, hkeys⟩ := advanceEpoch_spec h
  refine ⟨fun c' hc' ↦ ?_, fun k mk hk ↦ ?_, hmax.trans hs.maxSkipEpochs⟩
  · rw [hc] at hc'
    cases hc'
    rw [hepoch]
    omega
  · have := hs.skipped k mk (hkeys k mk hk)
    omega

end SpqrState

/-! ### The hybrid -/

namespace TripleRatchetState

/-- The state `encrypt` leaves behind. The Braid moves first, then the classical chain, and SPQR only
when the classical chain gave a key. -/
def afterEncrypt (P : Primitives B) (seed : Block B 64) (m : Block B 32) (s : TripleRatchetState B) :
    TripleRatchetState B where
  classical := s.classical.afterEncrypt P
  spqr := if (s.classical.sendMessageKey P).toOption.isSome then s.spqr.afterSend P else s.spqr
  braid := (s.braid.send P seed m).2

variable {P : Primitives B} {s s' : TripleRatchetState B} {cap : ℕ}

/-- Sealing has one possible outcome for the state, whatever is sealed. -/
theorem eq_afterEncrypt {seed : Block B 64} {m : Block B 32} {pt ad : List B}
    {r : TripleHeader B × List B} (h : encrypt P seed m s pt ad = .ok (r, s')) :
    s' = afterEncrypt P seed m s := by
  obtain ⟨header, ct⟩ := r
  obtain ⟨ecHeader, ecMk, pqEpoch, pqN, pqMk, hec, hpq, hbraid, -, -⟩ := encrypt_eq_ok h
  have hsent : (s.classical.sendMessageKey P).toOption.isSome = true := by
    rw [hec]
    rfl
  unfold afterEncrypt
  rw [if_pos hsent, ← DoubleRatchetState.eq_afterEncrypt hec, ← SpqrState.eq_afterSend hpq, ← hbraid]

/-- Sending keeps SPQR's receiving half and the epoch of its sending chain. -/
theorem afterEncrypt_spqr (P : Primitives B) (seed : Block B 64) (m : Block B 32)
    (s : TripleRatchetState B) :
    ∃ sending, (afterEncrypt P seed m s).spqr = { s.spqr with sending } ∧
      sending.map (fun c ↦ c.epoch) = s.spqr.sending.map fun c ↦ c.epoch := by
  unfold afterEncrypt
  dsimp only
  split
  · exact SpqrState.afterSend_eq P s.spqr
  · exact ⟨s.spqr.sending, rfl, rfl⟩

/-- Both stores are within their bounds, and the state can be written. -/
structure Within (cap : ℕ) (s : TripleRatchetState B) : Prop where
  /-- The classical store is within its bound. -/
  classical : s.classical.Within cap
  /-- The post-quantum store is within its own. -/
  spqr : s.spqr.skipped.size ≤ 256
  /-- Its keys are of epochs that have begun. -/
  recent : s.spqr.Recent
  /-- The Braid state is as small as it was at the start. -/
  braid : s.braid.agent.Storable

theorem afterEncrypt_within (hs : s.Within cap) (seed : Block B 64) (m : Block B 32) :
    (afterEncrypt P seed m s).Within cap := by
  obtain ⟨cks, ns, hclassical⟩ := DoubleRatchetState.afterEncrypt_eq P s.classical
  obtain ⟨sending, hspqr, -⟩ := afterEncrypt_spqr P seed m s
  refine ⟨?_, ?_, ?_, BraidScka.send_storable seed m hs.braid⟩
  · show (s.classical.afterEncrypt P).Within cap
    rw [hclassical]
    exact ⟨hs.classical.skipped, hs.classical.limit⟩
  · rw [hspqr]
    exact hs.spqr
  · rw [hspqr]
    exact ⟨hs.recent.receiving, hs.recent.skipped, hs.recent.maxSkipEpochs⟩

/-- Opening a hybrid message stays within both bounds. -/
theorem tryDecrypt_within (hcap : cap < 2 ^ 32) (hs : s.Within cap) {fresh : Block B 32}
    {header : TripleHeader B} {ct ad pt : List B}
    (h : tryDecrypt P fresh header ct ad s = .ok (pt, s')) : s'.Within cap := by
  obtain ⟨-, -, ecMk, -, -, -, hec, -, -⟩ := tryDecrypt_eq_ok h
  refine ⟨DoubleRatchetState.ratchetReceiveKey_within hcap hs.classical hec, ?_, ?_,
    tryDecrypt_braid hs.braid h⟩
  · exact tryDecrypt_spqr (I := fun t ↦ t.skipped.size ≤ 256) SpqrState.advanceEpoch_skipped_le
      SpqrState.receiveKey_skipped_le hs.spqr h
  · exact tryDecrypt_spqr (I := SpqrState.Recent) (fun ht ↦ SpqrState.advanceEpoch_recent ht)
      (fun ht ↦ SpqrState.receiveKey_recent ht) hs.recent h

/-- `decrypt` commits a successful trial or changes nothing. -/
theorem decrypt_snd (P : Primitives B) (fresh : Block B 32) (header : TripleHeader B)
    (ct ad : List B) (s : TripleRatchetState B) :
    (decrypt P fresh header ct ad s).2 = s ∨
      ∃ pt, tryDecrypt P fresh header ct ad s = .ok (pt, (decrypt P fresh header ct ad s).2) := by
  unfold decrypt
  cases htry : tryDecrypt P fresh header ct ad s with
  | error e => exact .inl rfl
  | ok r => exact .inr ⟨r.1, rfl⟩

/-- **What comes back from storage is what went in**, under the limit it is read with. The lengths
of the three parts are truncated to 32 bits; only the classical part can be longer than that, and
then it is not read back at all. -/
theorem eq_of_deserialize (hcap : cap < 2 ^ 32) (hs : s.Within cap) {σ : Enumeration}
    {maxSkip : UInt32} (h : deserialize maxSkip (serialize σ s) = .ok s') :
    s' = { s with classical := { s.classical with maxSkip } } := by
  have hsize : s.classical.mkskipped.size < 2 ^ 32 := hs.classical.skipped.trans_lt hcap
  have hskipped : s.spqr.skipped.size < 2 ^ 32 := by
    have := hs.spqr
    omega
  have hspqr : (s.spqr.serialize σ).length < 2 ^ 32 := by
    have := SpqrState.length_serialize_le hs.spqr σ
    omega
  have hbraid : s.braid.serialize.length < 2 ^ 32 := by
    have := BraidScka.length_serialize_le hs.braid
    omega
  have rp := Cursor.takeVec_reads PrimitiveError.invalidLength hspqr
  have rb := Cursor.takeVec_reads PrimitiveError.invalidLength hbraid []
  rw [List.append_nil] at rb
  unfold serialize at h
  rw [List.append_assoc] at h
  obtain ⟨⟨c, data⟩, hvec, hrest⟩ := Except.bind_eq_ok.1 h
  obtain ⟨classical, hclassical, hrest⟩ := Except.bind_eq_ok.1 hrest
  obtain ⟨more, happ, hdata⟩ := Cursor.takeVec_of_putVec hvec
  have hnil := DoubleRatchetState.eq_nil_of_deserialize hsize happ hclassical
  rw [hnil, List.append_nil] at happ
  rw [happ] at hclassical
  simp only [hdata hnil, rp _, rb, SpqrState.deserialize_serialize hskipped,
    BraidScka.deserialize_serialize hs.braid.fits, bind, Except.bind, Cursor.finish_nil] at hrest
  cases hrest
  rw [DoubleRatchetState.eq_of_deserialize hsize hclassical]

/-- A hybrid ratchet driven in any order: messages sent, anything received, and the state written
out and read back, under limits out of a given set. -/
def system (P : Primitives B) (limits : Set UInt32) : System (TripleRatchetState B) where
  start s := (∃ dhs sk bobDhPublic, initAlice P dhs sk bobDhPublic = .ok s) ∨
    ∃ sk bobDhKeypair, initBob P sk bobDhKeypair = .ok s
  step s t := (∃ seed m, t = afterEncrypt P seed m s) ∨
    (∃ fresh header ct ad, t = (decrypt P fresh header ct ad s).2) ∨
    ∃ σ, ∃ maxSkip ∈ limits, deserialize maxSkip (serialize σ s) = .ok t

theorem within_of_start {limits : Set UInt32} (hdefault : defaultMaxSkip.toNat ≤ cap)
    (hs : (system P limits).start s) : s.Within cap := by
  have hinit : ∀ skPq : Block B 32, (SpqrState.init skPq spqrMaxSkipEpochs).Recent := by
    refine fun skPq ↦ ⟨fun c hc ↦ ?_, fun k mk hk ↦ ?_, rfl⟩
    · cases hc
    · cases hk
  rcases hs with ⟨dhs, sk, bobDhPublic, h⟩ | ⟨sk, bobDhKeypair, h⟩
  · obtain ⟨⟨epoch, spqr⟩, hadv, hret⟩ := Except.bind_eq_ok.1 h
    cases hret
    exact ⟨⟨Nat.zero_le _, hdefault⟩,
      SpqrState.advanceEpoch_skipped_le (by simp [SpqrState.init]) hadv,
      SpqrState.advanceEpoch_recent (hinit _) hadv, True.intro⟩
  · obtain ⟨⟨epoch, spqr⟩, hadv, hret⟩ := Except.bind_eq_ok.1 h
    cases hret
    exact ⟨⟨Nat.zero_le _, hdefault⟩,
      SpqrState.advanceEpoch_skipped_le (by simp [SpqrState.init]) hadv,
      SpqrState.advanceEpoch_recent (hinit _) hadv, Decoder.new_storable (by omega)⟩

/-- **In every run both stores stay within their bounds.** -/
theorem within_of_reachable {limits : Set UInt32} (hcap : cap < 2 ^ 32)
    (hdefault : defaultMaxSkip.toNat ≤ cap) (hlimits : ∀ m ∈ limits, m.toNat ≤ cap)
    (hs : (system P limits).Reachable s) : s.Within cap := by
  refine hs.invariant (fun s ↦ within_of_start hdefault) ?_
  rintro s t - hs (⟨seed, m, rfl⟩ | ⟨fresh, header, ct, ad, rfl⟩ | ⟨σ, maxSkip, hmem, hload⟩)
  · exact afterEncrypt_within hs seed m
  · rcases decrypt_snd P fresh header ct ad s with heq | ⟨pt, htry⟩
    · rwa [heq]
    · exact tryDecrypt_within hcap hs htry
  · rw [eq_of_deserialize hcap hs hload]
    exact ⟨⟨hs.classical.skipped, hlimits maxSkip hmem⟩, hs.spqr, hs.recent, hs.braid⟩

end TripleRatchetState

/-! ### The three of them -/

/-- The arithmetic of receiving on the plain ratchet is exact: the store is measured as it is, and
the counters of what is committed are those of unbounded arithmetic. -/
def DoubleRatchetState.ExactOn (P : Primitives B) (s : DoubleRatchetState B) : Prop :=
  ∀ fresh header,
    (∀ t, Measured P fresh header s t →
      (UInt32.ofNat t.mkskipped.size).toNat = t.mkskipped.size) ∧
    ∀ msgKey t, s.ratchetReceiveKey P fresh header = .ok (msgKey, t) → Counted header s t

/-- The same for the header-encrypting ratchet. -/
def HeaderEncryptState.ExactOn (P : Primitives B) (s : HeaderEncryptState B) : Prop :=
  ∀ fresh,
    (∀ t, Measured P fresh s t → (UInt32.ofNat t.mkskipped.size).toNat = t.mkskipped.size) ∧
    ∀ σ encHeader msgKey t, s.receiveKey P σ fresh encHeader = .ok (msgKey, t) →
      Counted P encHeader s t

/-- The same for SPQR, in any state the hybrid derives a key from: the receiving counter is that of
unbounded arithmetic, and before and after the key is derived the sum in `advance_epoch` fits, up to
the last 32 epochs of all. -/
def SpqrState.ExactOn (P : Primitives B) (s : SpqrState B) : Prop :=
  (s.nextEpoch.toNat + 32 ≤ 2 ^ 32 → ∀ k mk, s.skipped.lookup k = some mk →
    k.1.toNat + s.maxSkipEpochs.toNat < 2 ^ 32) ∧
  ∀ epoch n msgKey t, s.receiveKey P epoch n = .ok (msgKey, t) → Counted epoch n s t ∧
    (t.nextEpoch.toNat + 32 ≤ 2 ^ 32 → ∀ k mk, t.skipped.lookup k = some mk →
      k.1.toNat + t.maxSkipEpochs.toNat < 2 ^ 32)

theorem DoubleRatchetState.Within.exactOn {s : DoubleRatchetState B} {cap : ℕ} (P : Primitives B)
    (hcap : cap < 2 ^ 32) (hs : s.Within cap) : s.ExactOn P :=
  fun _ _ ↦ ⟨fun _ ht ↦ (ht.within hcap hs).cast hcap, fun _ _ ↦ ratchetReceiveKey_counted⟩

/-- With recent keys only no counter of the code wraps. -/
theorem SpqrState.Recent.exactOn {s : SpqrState B} (P : Primitives B) (hs : s.Recent) :
    s.ExactOn P := by
  refine ⟨fun hlate k mk ↦ hs.sum_lt hlate, fun epoch n msgKey t h ↦ ?_⟩
  exact ⟨(receiveKey_spec h).1, fun hlate k mk ↦ (receiveKey_recent hs h).sum_lt hlate⟩

/-- The SPQR state a key is derived from. -/
theorem TripleRatchetState.receiveScka_recent {P : Primitives B} {s : TripleRatchetState B}
    (hs : s.spqr.Recent) {scka : Option (BraidMessage B)} {pqEpoch : UInt32} {braid : BraidScka B}
    {spqr : SpqrState B} {pending : Option (Block B 32)}
    (h : receiveScka P scka pqEpoch s = .ok (braid, spqr, pending)) : spqr.Recent := by
  rcases receiveScka_eq_ok h with ⟨-, rfl, -⟩ | ⟨msg, epoch, out, -, ⟨-, rfl, -⟩ |
    ⟨o, -, ⟨-, -, e, hopen⟩ | ⟨-, -, rfl⟩⟩⟩
  · exact hs
  · exact hs
  · exact SpqrState.advanceEpoch_recent hs hopen
  · exact hs

/-- **Skipped keys are bounded against any peer.** However a ratchet is driven, whatever headers it
is given and whatever authenticates, it never stores more keys than its limit, and no counter of the
skip and receive paths wraps. -/
theorem skipped_bounded (P : Primitives B) :
    (∀ maxSkip s, (DoubleRatchetState.system P maxSkip).Reachable s →
      s.mkskipped.size ≤ maxSkip.toNat ∧ s.ExactOn P) ∧
    (∀ maxSkip s, (HeaderEncryptState.system P maxSkip).Reachable s →
      s.mkskipped.size ≤ maxSkip.toNat ∧ s.ExactOn P) ∧
    ∀ s, (TripleRatchetState.system P {defaultMaxSkip}).Reachable s →
      s.classical.mkskipped.size ≤ defaultMaxSkip.toNat ∧ s.spqr.skipped.size ≤ 256 ∧
      s.classical.ExactOn P ∧
      ∀ scka pqEpoch braid spqr pending,
        s.receiveScka P scka pqEpoch = .ok (braid, spqr, pending) → spqr.ExactOn P := by
  refine ⟨fun maxSkip s hs ↦ ?_, fun maxSkip s hs ↦ ?_, fun s hs ↦ ?_⟩
  · have hw := DoubleRatchetState.within_of_reachable hs
    exact ⟨hw.skipped, hw.exactOn P maxSkip.toNat_lt⟩
  · have hw := HeaderEncryptState.within_of_reachable hs
    have hcap := maxSkip.toNat_lt
    refine ⟨hw.skipped, fun fresh ↦ ⟨fun t ht ↦ (ht.within hcap hw).cast hcap, ?_⟩⟩
    exact fun σ encHeader msgKey t ↦ HeaderEncryptState.receiveKey_counted
  · have hcap := defaultMaxSkip.toNat_lt
    have hw := TripleRatchetState.within_of_reachable hcap (le_refl _)
      (fun m hm ↦ (congrArg UInt32.toNat hm).le) hs
    refine ⟨hw.classical.skipped, hw.spqr, hw.classical.exactOn P hcap, ?_⟩
    intro scka pqEpoch braid spqr pending h
    exact (TripleRatchetState.receiveScka_recent hw.recent h).exactOn P

/-- **A run with a skipped key.** The second of two messages is received first, so that the key of the
other is stored: one of at most five. -/
theorem skipped_bounded_second :
    ∃ s, (DoubleRatchetState.system Plain.primitives 5).Reachable s ∧ s.mkskipped.size = 1 ∧
      s.mkskipped.size ≤ (5 : UInt32).toNat ∧ s.ExactOn Plain.primitives := by
  let a := DoubleRatchetState.initAlice Plain.primitives (Plain.pad 32 [1]) (Block.zero 32)
    (Plain.pad 32 [2]) 5
  let b := DoubleRatchetState.initBob (Block.zero 32) (Plain.pad 32 [2]) 5
  have hrun : (do
      let (_, a) ← a.encrypt Plain.primitives [1] []
      let (out, _) ← a.encrypt Plain.primitives [2] []
      let b := (b.decrypt Plain.primitives (Plain.pad 32 [3]) out.1 out.2 []).2
      return b.mkskipped.size) = (.ok 1 : Except PrimitiveError ℕ) := by
    decide +kernel
  obtain ⟨⟨out₁, a₁⟩, -, hrun⟩ := Except.bind_eq_ok.1 hrun
  obtain ⟨⟨out₂, a₂⟩, -, hsize⟩ := Except.bind_eq_ok.1 hrun
  have hstart : (DoubleRatchetState.system Plain.primitives 5).Reachable b :=
    .of_start (.inr ⟨_, _, rfl⟩)
  have hreach := hstart.of_step
    (.inr (.inl ⟨Plain.pad 32 [3], out₂.1, out₂.2, [], rfl⟩))
  exact ⟨_, hreach, Except.ok.inj hsize, (skipped_bounded Plain.primitives).1 5 _ hreach⟩

end VoiceChatCrypto
