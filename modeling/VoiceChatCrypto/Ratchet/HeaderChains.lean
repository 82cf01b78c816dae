import VoiceChatCrypto.Primitives.Ideal
import VoiceChatCrypto.Ratchet.HeaderEncrypt

/-!
# What the header-encrypting ratchet computes

The specification of `encrypt` and `receive_key`, stated once over `chainKeyHe` and `messageKeyHe` —
the chain key after `n` steps and the message key at position `n`. No later proof unfolds a loop.

`receive_key` finds a key in one of three ways (`receiveKey_cases`): a stored header key opens the
header and a message key is stored for its position; the current header key opens it; the next one
does, across a DH ratchet step. The order in which stored header keys are tried does not show.
-/

open Alphabet

namespace VoiceChatCrypto

variable {B : Type} [Alphabet B] {P : Primitives B}

section Chains

variable (P)

/-- The chain key `n` steps down a chain. -/
def chainKeyHe (ck : Block B 32) : ℕ → Block B 32
  | 0 => ck
  | n + 1 => (kdfCkHe P (chainKeyHe ck n)).1

/-- The message key at position `n` of a chain. -/
def messageKeyHe (ck : Block B 32) (n : ℕ) : Block B 32 := (kdfCkHe P (chainKeyHe P ck n)).2

theorem chainKeyHe_add (ck : Block B 32) (m n : ℕ) :
    chainKeyHe P ck (m + n) = chainKeyHe P (chainKeyHe P ck m) n := by
  induction n with
  | zero => rfl
  | succ n ih => rw [← Nat.add_assoc, chainKeyHe, chainKeyHe, ih]

theorem messageKeyHe_add (ck : Block B 32) (m n : ℕ) :
    messageKeyHe P ck (m + n) = messageKeyHe P (chainKeyHe P ck m) n := by
  rw [messageKeyHe, messageKeyHe, chainKeyHe_add]

end Chains

/-! ### Headers -/

/-- Opening a header opens a seal and parses what was in it. -/
theorem hdecrypt_eq_ok {hk : Block B 32} {encHeader : List B} {header : Header B}
    (h : hdecrypt P hk encHeader = .ok header) :
    ∃ nonce hct plain, encHeader = (nonce : Block B 12).val ++ hct ∧
      aeadOpen P hk nonce hct [] = .ok plain ∧ Header.decode plain = .ok header := by
  obtain ⟨⟨nonce, hct⟩, htake, h⟩ := Except.bind_eq_ok.1 h
  obtain ⟨plain, hopen, hdecode⟩ := Except.bind_eq_ok.1 h
  exact ⟨nonce, hct, plain, Cursor.takeBlock_eq_ok htake, hopen, hdecode⟩

omit [Alphabet B] in
/-- An encrypted header is a nonce and a sealed header. -/
theorem hencrypt_eq_ok {hk : Block B 32} {nonce : Block B 12} {bytes encHeader : List B}
    (h : hencrypt P hk nonce bytes = .ok encHeader) :
    ∃ hct, aeadSeal P hk nonce bytes [] = .ok hct ∧ encHeader = nonce.val ++ hct := by
  obtain ⟨hct, hseal, hret⟩ := Except.bind_eq_ok.1 h
  cases hret
  exact ⟨hct, hseal, rfl⟩

/-- **A sealed header opens under its key.** -/
theorem hdecrypt_seal (haead : IdealAead P) {hk : Block B 32} {nonce : Block B 12} {hct : List B}
    {header : Header B} (hdh : header.dh ≠ Block.zero 32)
    (hseal : aeadSeal P hk nonce header.encode [] = .ok hct) :
    hdecrypt P hk (nonce.val ++ hct) = .ok header := by
  simp only [hdecrypt, Cursor.takeBlock_append, haead.open_seal hseal, Header.decode_encode hdh, bind,
    Except.bind]

/-- Sealed headers have one length, so neither part of the associated data can borrow from the
other. -/
theorem concatAdHe_inj {ad ad' encHeader encHeader' : List B}
    (hlen : encHeader.length = encHeader'.length)
    (h : concatAdHe ad encHeader = concatAdHe ad' encHeader') :
    ad = ad' ∧ encHeader = encHeader' := by
  obtain ⟨hleft, hheader⟩ := List.append_inj' h hlen
  exact ⟨(List.append_inj hleft (by simp)).2, hheader⟩

/-- A body is never sealed under empty associated data, and a header always is. -/
theorem concatAdHe_ne_nil (ad encHeader : List B) : concatAdHe ad encHeader ≠ [] := by
  intro h
  have hlen := congrArg List.length h
  simp only [concatAdHe, List.length_append, length_le, List.length_nil] at hlen
  omega

/-- The errors of a skip limit or an exhausted counter. -/
def PrimitiveError.IsBound (e : PrimitiveError) : Prop := e = .invalidLength ∨ e = .limitExceeded

/-- A counter that is at its end is one of the limits. -/
theorem isBound_of_checkedInc {n : UInt32} {e : PrimitiveError} (h : checkedInc n = .error e) :
    e.IsBound :=
  .inr (DoubleRatchetState.checkedInc_eq_error h)

namespace HeaderEncryptState

variable {s s' : HeaderEncryptState B}

/-! ### Skipping -/

/-- **The skip loop.** It stores the message keys of the positions it passes, and changes nothing
else but the counter. -/
theorem skipLoop_eq_ok {hk ckr ckr' : Block B 32} {fuel : ℕ}
    (h : skipLoop P hk fuel s ckr = .ok (s', ckr')) :
    s'.nr.toNat = s.nr.toNat + fuel ∧ ckr' = chainKeyHe P ckr fuel ∧
    s' = { s with nr := s'.nr, mkskipped := s'.mkskipped } ∧
    ∀ k : Block B 32 × UInt32, s'.mkskipped.lookup k =
      if k.1 = hk ∧ s.nr.toNat ≤ k.2.toNat ∧ k.2.toNat < s.nr.toNat + fuel then
        some (messageKeyHe P ckr (k.2.toNat - s.nr.toNat))
      else s.mkskipped.lookup k := by
  induction fuel generalizing s ckr with
  | zero =>
    cases h
    refine ⟨rfl, rfl, rfl, fun k ↦ ?_⟩
    rw [if_neg (by omega)]
  | succ fuel ih =>
    rw [skipLoop] at h
    split at h
    · cases h
    obtain ⟨nr, hinc, h⟩ := Except.bind_eq_ok.1 h
    have hnr := checkedInc_eq_ok hinc
    obtain ⟨hlast, hchain, hrest, hlook⟩ := ih h
    dsimp only at hlast hlook
    refine ⟨by omega, ?_, by rw [hrest], fun k ↦ ?_⟩
    · rw [hchain, Nat.add_comm fuel 1, chainKeyHe_add]
      rfl
    rw [hlook k]
    by_cases hk' : k = (hk, s.nr)
    · -- the position stored by this very step
      subst hk'
      have hout : ¬ (nr.toNat ≤ s.nr.toNat) := by omega
      rw [if_neg (fun h ↦ hout h.2.1), Finmap.lookup_insert,
        if_pos ⟨rfl, le_refl _, by dsimp only; omega⟩, Nat.sub_self]
      rfl
    · rw [Finmap.lookup_insert_of_ne _ hk']
      by_cases hin : k.1 = hk ∧ nr.toNat ≤ k.2.toNat ∧ k.2.toNat < nr.toNat + fuel
      · have hsub : k.2.toNat - s.nr.toNat = 1 + (k.2.toNat - nr.toNat) := by omega
        rw [if_pos hin, if_pos ⟨hin.1, by omega, by omega⟩, hsub, messageKeyHe_add]
        rfl
      · have hout : ¬ (k.1 = hk ∧ s.nr.toNat ≤ k.2.toNat ∧
            k.2.toNat < s.nr.toNat + (fuel + 1)) := by
          rintro ⟨ha, hb, hc⟩
          refine hin ⟨ha, ?_, by omega⟩
          rcases Nat.lt_or_ge k.2.toNat nr.toNat with hlt | hge
          · refine absurd (Prod.ext ha (UInt32.toNat_inj.1 ?_)) hk'
            show k.2.toNat = s.nr.toNat
            omega
          · exact hge
        rw [if_neg hin, if_neg hout]

/-- Putting keys aside fails at one of the limits only. -/
theorem skipLoop_eq_error {hk ckr : Block B 32} {fuel : ℕ} {e : PrimitiveError}
    (h : skipLoop P hk fuel s ckr = .error e) : e.IsBound := by
  induction fuel generalizing s ckr with
  | zero => cases h
  | succ fuel ih =>
    rw [skipLoop] at h
    split at h
    · cases h
      exact .inl rfl
    rcases Except.bind_eq_error.1 h with hinc | ⟨nr, -, h⟩
    · exact isBound_of_checkedInc hinc
    · exact ih h

/-- **Skipping** moves the receiving chain to `upTo` unless it is there already, and stores the keys
in between. -/
theorem skipMessageKeys_eq_ok {hk ckr : Block B 32} {upTo : UInt32} (hhkr : s.hkr = some hk)
    (hckr : s.ckr = some ckr) (h : skipMessageKeys P s upTo = .ok s') :
    s'.nr.toNat = max s.nr.toNat upTo.toNat ∧
    s' = { s with
      nr := s'.nr, mkskipped := s'.mkskipped
      ckr := some (chainKeyHe P ckr (upTo.toNat - s.nr.toNat)) } ∧
    ∀ k : Block B 32 × UInt32, s'.mkskipped.lookup k =
      if k.1 = hk ∧ s.nr.toNat ≤ k.2.toNat ∧ k.2.toNat < upTo.toNat then
        some (messageKeyHe P ckr (k.2.toNat - s.nr.toNat))
      else s.mkskipped.lookup k := by
  unfold skipMessageKeys at h
  rw [hckr, hhkr] at h
  split at h
  · cases h
  obtain ⟨⟨t, ckr'⟩, hloop, hret⟩ := Except.bind_eq_ok.1 h
  obtain ⟨hnr, rfl, hrest, hlook⟩ := skipLoop_eq_ok hloop
  cases hret
  refine ⟨by dsimp only; omega, by rw [hrest], fun k ↦ ?_⟩
  dsimp only
  rw [hlook k]
  congr 1
  have hiff : s.nr.toNat ≤ k.2.toNat ∧ k.2.toNat < s.nr.toNat + (upTo.toNat - s.nr.toNat) ↔
      s.nr.toNat ≤ k.2.toNat ∧ k.2.toNat < upTo.toNat := by omega
  rw [hiff]

/-- Without a receiving chain there is nothing to skip. -/
theorem skipMessageKeys_of_ckr_none {upTo : UInt32} (hckr : s.ckr = none)
    (h : skipMessageKeys P s upTo = .ok s') : s' = s := by
  unfold skipMessageKeys at h
  rw [hckr] at h
  split at h
  · cases h
  · cases h
    rfl

theorem skipMessageKeys_eq_error {upTo : UInt32} {e : PrimitiveError}
    (h : skipMessageKeys P s upTo = .error e) : e.IsBound := by
  unfold skipMessageKeys at h
  split at h
  · cases h
    exact .inl rfl
  split at h
  · rcases Except.bind_eq_error.1 h with hloop | ⟨r, -, hret⟩
    · exact skipLoop_eq_error hloop
    · cases hret
  · cases h

/-- **Receiving on a chain.** The key is the one at the header's position, or at the first position
not yet passed if that is later; the chain stands just behind it. -/
theorem receiveOnChain_eq_ok {hk ckr msgKey : Block B 32} {n : UInt32} (hhkr : s.hkr = some hk)
    (hckr : s.ckr = some ckr)
    (h : (skipMessageKeys P s n >>= advanceReceiving P) = .ok (msgKey, s')) :
    msgKey = messageKeyHe P ckr (max s.nr.toNat n.toNat - s.nr.toNat) ∧
    s'.nr.toNat = max s.nr.toNat n.toNat + 1 ∧
    s' = { s with
      nr := s'.nr, mkskipped := s'.mkskipped
      ckr := some (chainKeyHe P ckr (s'.nr.toNat - s.nr.toNat)) } ∧
    ∀ k : Block B 32 × UInt32, s'.mkskipped.lookup k =
      if k.1 = hk ∧ s.nr.toNat ≤ k.2.toNat ∧ k.2.toNat < n.toNat then
        some (messageKeyHe P ckr (k.2.toNat - s.nr.toNat))
      else s.mkskipped.lookup k := by
  obtain ⟨t, hskip, hadv⟩ := Except.bind_eq_ok.1 h
  obtain ⟨hnr, hrest, hlook⟩ := skipMessageKeys_eq_ok hhkr hckr hskip
  have htckr : t.ckr = some (chainKeyHe P ckr (n.toNat - s.nr.toNat)) := by rw [hrest]
  unfold advanceReceiving at hadv
  rw [htckr] at hadv
  obtain ⟨nr, hinc, hret⟩ := Except.bind_eq_ok.1 hadv
  have hinc' := checkedInc_eq_ok hinc
  cases hret
  have hsub : max s.nr.toNat n.toNat - s.nr.toNat = n.toNat - s.nr.toNat := by omega
  refine ⟨by rw [hsub]; rfl, by dsimp only; omega, ?_, hlook⟩
  have hlen : nr.toNat - s.nr.toNat = n.toNat - s.nr.toNat + 1 := by omega
  rw [hrest]
  dsimp only
  rw [hlen]
  rfl

/-- A message on the current chain is refused at one of the limits only. -/
theorem receiveOnChain_eq_error {n : UInt32} {e : PrimitiveError} (hhkr : s.hkr.isSome)
    (hckr : s.ckr.isSome) (h : (skipMessageKeys P s n >>= advanceReceiving P) = .error e) :
    e.IsBound := by
  rcases Except.bind_eq_error.1 h with hskip | ⟨t, hskip, hadv⟩
  · exact skipMessageKeys_eq_error hskip
  · obtain ⟨hk, hhkr⟩ := Option.isSome_iff_exists.1 hhkr
    obtain ⟨ckr, hckr⟩ := Option.isSome_iff_exists.1 hckr
    obtain ⟨-, hrest, -⟩ := skipMessageKeys_eq_ok hhkr hckr hskip
    have htckr : t.ckr = some (chainKeyHe P ckr (n.toNat - s.nr.toNat)) := by rw [hrest]
    unfold advanceReceiving at hadv
    rw [htckr] at hadv
    rcases Except.bind_eq_error.1 hadv with hinc | ⟨nr, -, hret⟩
    · exact isBound_of_checkedInc hinc
    · cases hret

/-! ### Finding a key -/

section Find

variable {σ : Enumeration} {encHeader : List B}

/-- A stored key that is found has the header key and the position of the message. -/
theorem trySkippedLoop_eq_some {msgKey : Block B 32} :
    ∀ {hks : List (Block B 32)}, trySkippedLoop P encHeader s hks = some (msgKey, s') →
      ∃ hk ∈ hks, ∃ header, hdecrypt P hk encHeader = .ok header ∧
        s.mkskipped.lookup (hk, header.n) = some msgKey ∧
        s' = { s with mkskipped := s.mkskipped.erase (hk, header.n) }
  | [], h => by cases h
  | hk :: hks, h => by
    unfold trySkippedLoop at h
    split at h
    · obtain ⟨k, hk, hrest⟩ := trySkippedLoop_eq_some h
      exact ⟨k, List.mem_cons_of_mem _ hk, hrest⟩
    · rename_i header hdec
      split at h
      · cases h
        exact ⟨hk, List.mem_cons_self, header, hdec, ‹_›, rfl⟩
      · obtain ⟨k, hk, hrest⟩ := trySkippedLoop_eq_some h
        exact ⟨k, List.mem_cons_of_mem _ hk, hrest⟩

/-- Where none is found, no header key opens the header of a stored position. -/
theorem trySkippedLoop_eq_none {hks : List (Block B 32)} (h : trySkippedLoop P encHeader s hks = none) :
    ∀ hk ∈ hks, ∀ header, hdecrypt P hk encHeader = .ok header →
      s.mkskipped.lookup (hk, header.n) = none := by
  induction hks with
  | nil => exact fun _ hmem ↦ by cases hmem
  | cons hk hks ih =>
    rw [trySkippedLoop] at h
    intro hk' hmem header hopen
    split at h
    · rename_i e herr
      rcases List.mem_cons.1 hmem with rfl | hmem
      · rw [hopen] at herr
        cases herr
      · exact ih h hk' hmem header hopen
    · rename_i header' hopen'
      split at h
      · cases h
      · rename_i hlook
        rcases List.mem_cons.1 hmem with rfl | hmem
        · rw [hopen] at hopen'
          cases hopen'
          exact hlook
        · exact ih h hk' hmem header hopen

/-- A header key under which something is stored is among those that are tried. -/
theorem trySkipped_eq_none (h : trySkipped P σ encHeader s = none) {hk : Block B 32}
    {header : Header B} (hopen : hdecrypt P hk encHeader = .ok header) :
    s.mkskipped.lookup (hk, header.n) = none := by
  cases hlook : s.mkskipped.lookup (hk, header.n) with
  | none => rfl
  | some msgKey =>
    have hmem : hk ∈ (σ.list s.mkskipped).map fun e ↦ e.1.1 :=
      List.mem_map.2 ⟨((hk, header.n), msgKey), (σ.mem_list_iff).2 hlook, rfl⟩
    exact hlook.symm.trans (trySkippedLoop_eq_none h hk hmem header hopen)

/-- Nothing is found where nothing is stored. -/
theorem trySkipped_of_empty (h : s.mkskipped = ∅) : trySkipped P σ encHeader s = none := by
  cases hskipped : trySkipped P σ encHeader s with
  | none => rfl
  | some r =>
    obtain ⟨hk, -, header, -, hlook, -⟩ := trySkippedLoop_eq_some hskipped
    rw [h] at hlook
    cases hlook

/-- A header that opens under an optional key opens under that key. -/
theorem tryHeader_eq_some {hk : Option (Block B 32)} {header : Header B}
    (h : tryHeader P hk encHeader = some header) :
    ∃ k, hk = some k ∧ hdecrypt P k encHeader = .ok header := by
  cases hk with
  | none => cases h
  | some k =>
    refine ⟨k, rfl, ?_⟩
    cases hopen : hdecrypt P k encHeader with
    | error e => rw [tryHeader, Option.bind_some, hopen] at h; cases h
    | ok header' => rw [tryHeader, Option.bind_some, hopen] at h; cases h; rfl

/-- A header that does not open under an optional key opens under no such key. -/
theorem tryHeader_eq_none {hk : Option (Block B 32)} (h : tryHeader P hk encHeader = none)
    {k : Block B 32} (hk' : hk = some k) (header : Header B) :
    hdecrypt P k encHeader ≠ .ok header := by
  intro hopen
  rw [hk', tryHeader, Option.bind_some, hopen] at h
  cases h

/-- **The ways to find a message key**: stored earlier, on the current receiving chain, or across a DH
ratchet step; and none when no key opens the header. -/
theorem receiveKey_cases (P : Primitives B) (σ : Enumeration) (fresh : Block B 32)
    (encHeader : List B) (s : HeaderEncryptState B) :
    (∃ hk header msgKey, hdecrypt P hk encHeader = .ok header ∧
      s.mkskipped.lookup (hk, header.n) = some msgKey ∧
      receiveKey P σ fresh encHeader s =
        .ok (msgKey, { s with mkskipped := s.mkskipped.erase (hk, header.n) })) ∨
    ((∀ hk header, hdecrypt P hk encHeader = .ok header →
        s.mkskipped.lookup (hk, header.n) = none) ∧
      ((∃ hk header, s.hkr = some hk ∧ hdecrypt P hk encHeader = .ok header ∧
          receiveKey P σ fresh encHeader s = skipMessageKeys P s header.n >>= advanceReceiving P) ∨
        ((∀ hk header, s.hkr = some hk → hdecrypt P hk encHeader ≠ .ok header) ∧
          ((∃ hk header, s.nhkr = some hk ∧ hdecrypt P hk encHeader = .ok header ∧
              receiveKey P σ fresh encHeader s =
                skipMessageKeys P s header.pn >>= fun t ↦ dhRatchet P fresh header t >>= fun u ↦
                  skipMessageKeys P u header.n >>= advanceReceiving P) ∨
            ((∀ hk header, s.nhkr = some hk → hdecrypt P hk encHeader ≠ .ok header) ∧
              receiveKey P σ fresh encHeader s = .error .aeadAuthFailed))))) := by
  unfold receiveKey
  cases hskipped : trySkipped P σ encHeader s with
  | some r =>
    obtain ⟨msgKey, s'⟩ := r
    obtain ⟨hk, -, header, hopen, hlook, rfl⟩ := trySkippedLoop_eq_some hskipped
    exact .inl ⟨hk, header, msgKey, hopen, hlook, rfl⟩
  | none =>
    refine .inr ⟨fun hk header hopen ↦ trySkipped_eq_none hskipped hopen, ?_⟩
    cases hcur : tryHeader P s.hkr encHeader with
    | some header =>
      obtain ⟨hk, hhkr, hopen⟩ := tryHeader_eq_some hcur
      exact .inl ⟨hk, header, hhkr, hopen, rfl⟩
    | none =>
      refine .inr ⟨fun hk header hhkr ↦ tryHeader_eq_none hcur hhkr header, ?_⟩
      cases hnext : tryHeader P s.nhkr encHeader with
      | some header =>
        obtain ⟨hk, hnhkr, hopen⟩ := tryHeader_eq_some hnext
        exact .inl ⟨hk, header, hnhkr, hopen, rfl⟩
      | none => exact .inr ⟨fun hk header hnhkr ↦ tryHeader_eq_none hnext hnhkr header, rfl⟩

end Find

/-- A DH ratchet step from a state that has a sending key. -/
theorem dhRatchet_of_dhs {fresh dhs : Block B 32} {header : Header B} (hs : s.dhs = some dhs) :
    dhRatchet P fresh header s =
      let rk₁ := kdfRkHe P s.rk (P.diffieHellman dhs header.dh)
      let rk₂ := kdfRkHe P rk₁.1 (P.diffieHellman fresh header.dh)
      .ok { s with
        pn := s.ns, ns := 0, nr := 0, hks := s.nhks, hkr := s.nhkr, dhr := some header.dh
        rk := rk₂.1, ckr := some rk₁.2.1, nhkr := some rk₁.2.2, cks := some rk₂.2.1
        nhks := some rk₂.2.2, dhs := some fresh } := by
  unfold dhRatchet
  rw [hs]
  rfl

/-! ### Sending -/

/-- **What `encrypt` does**: one step of the sending chain. -/
theorem encrypt_eq_ok {headerNonce : Block B 12} {pt ad encHeader ct : List B}
    (h : encrypt P headerNonce s pt ad = .ok ((encHeader, ct), s')) :
    ∃ cks dhs hks ns, s.cks = some cks ∧ s.dhs = some dhs ∧ s.hks = some hks ∧
      checkedInc s.ns = .ok ns ∧
      hencrypt P hks headerNonce (Header.encode ⟨P.publicKey dhs, s.pn, s.ns⟩) = .ok encHeader ∧
      aeadSeal P (kdfCkHe P cks).2 (deriveNonce (kdfCkHe P cks).2) pt (concatAdHe ad encHeader) =
        .ok ct ∧
      s' = { s with cks := some (kdfCkHe P cks).1, ns } := by
  unfold encrypt at h
  split at h
  · rename_i cks hcks
    obtain ⟨ns, hinc, h⟩ := Except.bind_eq_ok.1 h
    split at h
    · rename_i dhs hdhs
      dsimp only at h
      split at h
      · rename_i hks hhks
        obtain ⟨enc, henc, h⟩ := Except.bind_eq_ok.1 h
        obtain ⟨ct', hct, h⟩ := Except.bind_eq_ok.1 h
        cases h
        exact ⟨cks, dhs, hks, ns, hcks, hdhs, hhks, hinc, henc, hct, rfl⟩
      · cases h
    · cases h
  · cases h

end HeaderEncryptState

end VoiceChatCrypto
