import VoiceChatCrypto.Primitives.Basic

/-!
# The classical Double Ratchet

`DoubleRatchetState` with `encrypt`, `decrypt` and the internal algorithms they are made of, as
`src/ratchet/mod.rs` computes them. Counters are `u32`; the map of skipped message keys is indexed by
the sender's ratchet public key and the message number.

The receiving half runs on a trial copy, and `decrypt` is written that way: it returns its result
*together with* the state it leaves behind, and only the last branch returns the trial. The methods
in between are `Except`-valued. On an error they return no state, which loses nothing: the copy they
worked on is dropped by every caller.

The specification of the receiving half is stated once, over `chainKey` and `messageKey` — the chain
key after `n` steps and the message key at position `n` — and no later proof unfolds the loop.
-/

open Alphabet

namespace VoiceChatCrypto

variable {B : Type} [Alphabet B]

/-- `DEFAULT_MAX_SKIP`. -/
def defaultMaxSkip : UInt32 := 1000

/-- A message header: the sender's ratchet key, the length of its previous chain, and the position in
the current one. -/
structure Header (B : Type) where
  /-- The sender's ratchet public key. -/
  dh : Block B 32
  /-- The length of the sender's previous chain. -/
  pn : UInt32
  /-- The position in the current one. -/
  n : UInt32
  deriving DecidableEq

namespace Header

/-- `Header::encode`. -/
def encode (h : Header B) : List B := h.dh.val ++ le 4 h.pn.toNat ++ le 4 h.n.toNat

/-- `Header::decode`. -/
def decode (data : List B) : Except PrimitiveError (Header B) := do
  if data.length ≠ 40 then throw .invalidLength
  let (pk, data) ← Cursor.takeBlock PrimitiveError.invalidLength 32 data
  let dh ← publicFromBytes pk
  let (pn, data) ← Cursor.takeLe PrimitiveError.invalidLength 4 data
  let (n, _) ← Cursor.takeLe PrimitiveError.invalidLength 4 data
  return { dh, pn := UInt32.ofNat pn, n := UInt32.ofNat n }

@[simp] theorem length_encode (h : Header B) : h.encode.length = 40 := by
  simp [encode]

/-- Headers with a usable ratchet key survive the wire. -/
theorem decode_encode {h : Header B} (hdh : h.dh ≠ Block.zero 32) : decode h.encode = .ok h := by
  have hlast := Cursor.takeLe_append (B := B) PrimitiveError.invalidLength 4 h.n.toNat []
  rw [List.append_nil] at hlast
  unfold decode
  rw [if_neg (by simp)]
  simp only [encode, List.append_assoc, Cursor.takeBlock_append, publicFromBytes_of_ne hdh,
    Cursor.takeLe_append, hlast, ofNat_toNat_mod, bind, Except.bind, pure, Except.pure]

/-- **A header has one encoding.** -/
theorem encode_of_decode (hB : Bytes B) {data : List B} {h : Header B} (hd : decode data = .ok h) :
    h.encode = data := by
  unfold decode at hd
  split at hd
  · cases hd
  rename_i hlen
  obtain ⟨⟨pk, data₁⟩, hpk, hd⟩ := Except.bind_eq_ok.1 hd
  obtain ⟨dh, hdh, hd⟩ := Except.bind_eq_ok.1 hd
  obtain ⟨⟨pn, data₂⟩, hpn, hd⟩ := Except.bind_eq_ok.1 hd
  obtain ⟨⟨n, data₃⟩, hn, hd⟩ := Except.bind_eq_ok.1 hd
  cases hd
  have hpk := Cursor.takeBlock_eq_ok hpk
  obtain ⟨-, rfl⟩ := publicFromBytes_eq_ok.1 hdh
  obtain ⟨hpn, hpnLt⟩ := Cursor.takeLe_eq_ok hB hpn
  obtain ⟨hn, hnLt⟩ := Cursor.takeLe_eq_ok hB hn
  -- forty letters leave none over
  have hnil : data₃ = [] := by
    rw [not_not, hpk, hpn, hn] at hlen
    simp only [List.length_append, Block.length_val, length_le] at hlen
    exact List.length_eq_zero_iff.1 (by omega)
  rw [hpk, hpn, hn, hnil, encode, toNat_ofNat_u32 hpnLt, toNat_ofNat_u32 hnLt, List.append_nil,
    List.append_assoc]

theorem encode_injective : Function.Injective (encode (B := B)) := by
  intro h k heq
  have hpn := fun x : Header B ↦ Nat.mod_eq_of_lt (a := x.pn.toNat) (b := 256 ^ 4)
    (by have := x.pn.toNat_lt; omega)
  have hn := fun x : Header B ↦ Nat.mod_eq_of_lt (a := x.n.toNat) (b := 256 ^ 4)
    (by have := x.n.toNat_lt; omega)
  unfold encode at heq
  obtain ⟨hleft, hnn⟩ := List.append_inj' heq (by simp)
  obtain ⟨hdh, hpnn⟩ := List.append_inj' hleft (by simp)
  have h1 := congrArg fromLe hpnn
  have h2 := congrArg fromLe hnn
  rw [fromLe_le, fromLe_le, hpn, hpn, UInt32.toNat_inj] at h1
  rw [fromLe_le, fromLe_le, hn, hn, UInt32.toNat_inj] at h2
  cases h
  cases k
  simp only [Header.mk.injEq]
  exact ⟨Subtype.ext hdh, h1, h2⟩

end Header

/-- The classical Double Ratchet state. -/
structure DoubleRatchetState (B : Type) [Alphabet B] where
  /-- The sending ratchet secret. -/
  dhs : Option (Block B 32)
  /-- The peer's ratchet public key. -/
  dhr : Option (Block B 32)
  /-- The root key. -/
  rk : Block B 32
  /-- The sending chain key. -/
  cks : Option (Block B 32)
  /-- The receiving chain key. -/
  ckr : Option (Block B 32)
  /-- Sending message number. -/
  ns : UInt32
  /-- Receiving message number. -/
  nr : UInt32
  /-- Length of the previous sending chain. -/
  pn : UInt32
  /-- Skipped message keys. -/
  mkskipped : Dict (Block B 32 × UInt32) (Block B 32)
  /-- The limit on skipped keys and on the distance of one skip. -/
  maxSkip : UInt32
  deriving DecidableEq

section Kdf

variable (P : Primitives B)

/-- `kdf_rk`: the next root key and a chain key. -/
def kdfRk (rk dhOut : Block B 32) : Block B 32 × Block B 32 :=
  (hkdf P (some rk.val) dhOut.val Labels.drRoot 0, hkdf P (some rk.val) dhOut.val Labels.drRoot 1)

/-- `kdf_ck`: the next chain key and the message key. -/
def kdfCk (ck : Block B 32) : Block B 32 × Block B 32 :=
  (P.hmacSha256 ck.val [ofNat 0x02], P.hmacSha256 ck.val [ofNat 0x01])

/-- `aead_from_mk`: the AEAD key and nonce of a message key. -/
def aeadFromMk (mk : Block B 32) : Block B 32 × Block B 12 :=
  (hkdf P (some noSalt) mk.val Labels.drMessage 0,
    (hkdf P (some noSalt) mk.val Labels.drMessage 1).initial 12 (by decide))

/-- The chain key `n` steps down a chain. -/
def chainKey (ck : Block B 32) : ℕ → Block B 32
  | 0 => ck
  | n + 1 => (kdfCk P (chainKey ck n)).1

/-- The message key at position `n` of a chain. -/
def messageKey (ck : Block B 32) (n : ℕ) : Block B 32 := (kdfCk P (chainKey P ck n)).2

theorem chainKey_add (ck : Block B 32) (m n : ℕ) :
    chainKey P ck (m + n) = chainKey P (chainKey P ck m) n := by
  induction n with
  | zero => rfl
  | succ n ih => rw [← Nat.add_assoc, chainKey, chainKey, ih]

theorem messageKey_add (ck : Block B 32) (m n : ℕ) :
    messageKey P ck (m + n) = messageKey P (chainKey P ck m) n := by
  rw [messageKey, messageKey, chainKey_add]

end Kdf

/-- `concat_ad`: length-prefixed caller data, then the header. -/
def concatAd (ad : List B) (h : Header B) : List B := le 8 ad.length ++ ad ++ h.encode

/-- The header sits at a fixed distance from the end, so neither part can borrow from the other. -/
theorem concatAd_inj {ad ad' : List B} {h h' : Header B} (heq : concatAd ad h = concatAd ad' h') :
    ad = ad' ∧ h = h' := by
  unfold concatAd at heq
  obtain ⟨hleft, hh⟩ := List.append_inj' heq (by simp)
  exact ⟨(List.append_inj hleft (by simp)).2, Header.encode_injective hh⟩

namespace DoubleRatchetState

variable (P : Primitives B)

/-- `init_alice`, with the ratchet secret it draws. -/
def initAlice (dhs sk bobDhPublic : Block B 32) (maxSkip : UInt32) : DoubleRatchetState B :=
  let (rk, cks) := kdfRk P sk (P.diffieHellman dhs bobDhPublic)
  { dhs := some dhs, dhr := some bobDhPublic, rk, cks := some cks, ckr := none
    ns := 0, nr := 0, pn := 0, mkskipped := ∅, maxSkip }

/-- `init_bob`. -/
def initBob (sk bobDhKeypair : Block B 32) (maxSkip : UInt32) : DoubleRatchetState B :=
  { dhs := some bobDhKeypair, dhr := none, rk := sk, cks := none, ckr := none
    ns := 0, nr := 0, pn := 0, mkskipped := ∅, maxSkip }

/-! ### Sending -/

/-- `ratchet_send_key`: the position and key of the next message. -/
def ratchetSendKey (s : DoubleRatchetState B) :
    Except PrimitiveError ((UInt32 × Block B 32) × DoubleRatchetState B) := do
  let some cks := s.cks | throw .internal
  let (newCks, msgKey) := kdfCk P cks
  let ns ← checkedInc s.ns
  return ((s.ns, msgKey), { s with cks := some newCks, ns })

/-- `send_message_key`: the header and key of the next message, without AEAD. -/
def sendMessageKey (s : DoubleRatchetState B) :
    Except PrimitiveError ((Header B × Block B 32) × DoubleRatchetState B) := do
  let ((ns, msgKey), s) ← ratchetSendKey P s
  let some dhs := s.dhs | throw .internal
  return (({ dh := P.publicKey dhs, pn := s.pn, n := ns }, msgKey), s)

/-- `encrypt`. -/
def encrypt (s : DoubleRatchetState B) (plaintext ad : List B) :
    Except PrimitiveError ((Header B × List B) × DoubleRatchetState B) := do
  let ((header, msgKey), s) ← sendMessageKey P s
  let (key, nonce) := aeadFromMk P msgKey
  let ct ← aeadSeal P key nonce plaintext (concatAd ad header)
  return ((header, ct), s)

/-! ### Receiving -/

/-- The loop of `skip_message_keys`, `fuel` positions long: stores the message key of each position
and moves on. -/
def skipLoop : ℕ → DoubleRatchetState B → Block B 32 →
    Except PrimitiveError (DoubleRatchetState B × Block B 32)
  | 0, s, ckr => .ok (s, ckr)
  | fuel + 1, s, ckr =>
    if UInt32.ofNat s.mkskipped.size ≥ s.maxSkip then .error .limitExceeded
    else match s.dhr with
      | none => .error .internal
      | some dhr => do
        let (newCkr, msgKey) := kdfCk P ckr
        let nr ← checkedInc s.nr
        skipLoop fuel { s with mkskipped := s.mkskipped.insert (dhr, s.nr) msgKey, nr } newCkr

/-- `skip_message_keys`: stores the keys of the receiving chain up to `upTo`. -/
def skipMessageKeys (s : DoubleRatchetState B) (upTo : UInt32) :
    Except PrimitiveError (DoubleRatchetState B) :=
  if s.nr.toNat + s.maxSkip.toNat ≥ 2 ^ 32 then .error .limitExceeded
  else if s.nr.toNat + s.maxSkip.toNat < upTo.toNat then .error .limitExceeded
  else match s.ckr with
    | none => .ok s
    | some ckr => do
      let (s, ckr) ← skipLoop P (upTo.toNat - s.nr.toNat) s ckr
      return { s with ckr := some ckr }

/-- `dh_ratchet`, with the sending secret it draws. -/
def dhRatchet (fresh : Block B 32) (header : Header B) (s : DoubleRatchetState B) :
    Except PrimitiveError (DoubleRatchetState B) := do
  let some dhs := s.dhs | throw .internal
  let (rk1, ckr) := kdfRk P s.rk (P.diffieHellman dhs header.dh)
  let (rk2, cks) := kdfRk P rk1 (P.diffieHellman fresh header.dh)
  return { s with
    pn := s.ns, ns := 0, nr := 0, dhr := some header.dh
    rk := rk2, ckr := some ckr, cks := some cks, dhs := some fresh }

/-- The last step of `ratchet_receive_key`: one step of the receiving chain. -/
def advanceReceiving (s : DoubleRatchetState B) :
    Except PrimitiveError (Block B 32 × DoubleRatchetState B) := do
  let some ckr := s.ckr | throw .internal
  let (newCkr, msgKey) := kdfCk P ckr
  let nr ← checkedInc s.nr
  return (msgKey, { s with ckr := some newCkr, nr })

/-- `ratchet_receive_key`: a stored key, or the key at the header's position after skipping to it,
across a DH ratchet step when the header carries a new ratchet key. -/
def ratchetReceiveKey (fresh : Block B 32) (header : Header B) (s : DoubleRatchetState B) :
    Except PrimitiveError (Block B 32 × DoubleRatchetState B) :=
  match s.mkskipped.lookup (header.dh, header.n) with
  | some msgKey => .ok (msgKey, { s with mkskipped := s.mkskipped.erase (header.dh, header.n) })
  | none => do
    let s ←
      if s.dhr ≠ some header.dh then do
        let s ← skipMessageKeys P s header.pn
        dhRatchet P fresh header s
      else pure s
    let s ← skipMessageKeys P s header.n
    advanceReceiving P s

/-- `decrypt`: the result, and the state left behind. Every step before the last works on the trial
copy. -/
def decrypt (fresh : Block B 32) (header : Header B) (ciphertext ad : List B)
    (s : DoubleRatchetState B) : Except PrimitiveError (List B) × DoubleRatchetState B :=
  match ratchetReceiveKey P fresh header s with
  | .error e => (.error e, s)
  | .ok (msgKey, trial) =>
    let (key, nonce) := aeadFromMk P msgKey
    match aeadOpen P key nonce ciphertext (concatAd ad header) with
    | .error e => (.error e, s)
    | .ok plaintext => (.ok plaintext, trial)

/-! ### What the receiving half computes -/

variable {P} {s s' : DoubleRatchetState B}

/-- **The skip loop.** It stores the message keys of the positions it passes, and changes nothing
else but the counter. -/
theorem skipLoop_eq_ok {d ckr ckr' : Block B 32} :
    ∀ {fuel : ℕ} {s : DoubleRatchetState B}, s.dhr = some d →
      skipLoop P fuel s ckr = .ok (s', ckr') →
      s'.nr.toNat = s.nr.toNat + fuel ∧ ckr' = chainKey P ckr fuel ∧
      s' = { s with nr := s'.nr, mkskipped := s'.mkskipped } ∧
      ∀ k : Block B 32 × UInt32, s'.mkskipped.lookup k =
        if k.1 = d ∧ s.nr.toNat ≤ k.2.toNat ∧ k.2.toNat < s.nr.toNat + fuel then
          some (messageKey P ckr (k.2.toNat - s.nr.toNat))
        else s.mkskipped.lookup k
  | 0, s, _, h => by
    cases h
    refine ⟨rfl, rfl, rfl, fun k ↦ ?_⟩
    rw [if_neg (by omega)]
  | fuel + 1, s, hd, h => by
    rw [skipLoop, hd] at h
    split at h
    · cases h
    simp only [bind, Except.bind] at h
    cases hinc : checkedInc s.nr with
    | error e => rw [hinc] at h; cases h
    | ok nr =>
      rw [hinc, ← hd] at h
      have hnr := checkedInc_eq_ok hinc
      have hrec : ∀ {ck : Block B 32}, ckr' = chainKey P ck fuel → ck = (kdfCk P ckr).1 →
          ckr' = chainKey P ckr (fuel + 1) := by
        rintro ck rfl rfl
        rw [Nat.add_comm fuel 1, chainKey_add]
        rfl
      obtain ⟨h1, h2, h3, h4⟩ := skipLoop_eq_ok
        (s := { s with mkskipped := s.mkskipped.insert (d, s.nr) (kdfCk P ckr).2, nr }) hd h
      dsimp only at h1 h4
      refine ⟨by omega, hrec h2 rfl, by rw [h3], fun k ↦ ?_⟩
      rw [h4 k]
      by_cases hk : k = (d, s.nr)
      · -- the position stored by this very step
        subst hk
        have hout : ¬ (nr.toNat ≤ s.nr.toNat) := by omega
        rw [if_neg (fun h ↦ hout h.2.1), Finmap.lookup_insert,
          if_pos ⟨rfl, le_refl _, by dsimp only; omega⟩, Nat.sub_self]
        rfl
      · rw [Finmap.lookup_insert_of_ne _ hk]
        by_cases hin : k.1 = d ∧ nr.toNat ≤ k.2.toNat ∧ k.2.toNat < nr.toNat + fuel
        · rw [if_pos hin, if_pos ⟨hin.1, by omega, by omega⟩]
          have hsub : k.2.toNat - s.nr.toNat = 1 + (k.2.toNat - nr.toNat) := by omega
          rw [hsub, messageKey_add]
          rfl
        · have hout : ¬ (k.1 = d ∧ s.nr.toNat ≤ k.2.toNat ∧
              k.2.toNat < s.nr.toNat + (fuel + 1)) := by
            rintro ⟨ha, hb, hc⟩
            refine hin ⟨ha, ?_, by omega⟩
            rcases Nat.lt_or_ge k.2.toNat nr.toNat with hlt | hge
            · refine absurd (Prod.ext ha (UInt32.toNat_inj.1 ?_)) hk
              show k.2.toNat = s.nr.toNat
              omega
            · exact hge
          rw [if_neg hin, if_neg hout]

/-- The only way the skip loop fails is a limit. -/
theorem skipLoop_eq_error {d : Block B 32} {e : PrimitiveError} :
    ∀ {fuel : ℕ} {s : DoubleRatchetState B} {ckr : Block B 32}, s.dhr = some d →
      skipLoop P fuel s ckr = .error e → e = .limitExceeded
  | 0, _, _, _, h => by cases h
  | fuel + 1, s, ckr, hd, h => by
    rw [skipLoop, hd] at h
    split at h
    · cases h; rfl
    simp only [bind, Except.bind] at h
    cases hinc : checkedInc s.nr with
    | error e' =>
      rw [hinc] at h
      cases h
      unfold checkedInc at hinc
      split at hinc
      · cases hinc
      · cases hinc; rfl
    | ok nr =>
      rw [hinc, ← hd] at h
      exact skipLoop_eq_error
        (s := { s with mkskipped := s.mkskipped.insert (d, s.nr) (kdfCk P ckr).2, nr }) hd h

/-- **Skipping** moves the receiving chain to `upTo` unless it is there already, and stores the keys
in between. -/
theorem skipMessageKeys_eq_ok {d ckr : Block B 32} {upTo : UInt32} (hd : s.dhr = some d)
    (hckr : s.ckr = some ckr) (h : skipMessageKeys P s upTo = .ok s') :
    s'.nr.toNat = max s.nr.toNat upTo.toNat ∧
    s' = { s with
      nr := s'.nr, mkskipped := s'.mkskipped
      ckr := some (chainKey P ckr (upTo.toNat - s.nr.toNat)) } ∧
    ∀ k : Block B 32 × UInt32, s'.mkskipped.lookup k =
      if k.1 = d ∧ s.nr.toNat ≤ k.2.toNat ∧ k.2.toNat < upTo.toNat then
        some (messageKey P ckr (k.2.toNat - s.nr.toNat))
      else s.mkskipped.lookup k := by
  unfold skipMessageKeys at h
  rw [hckr] at h
  split at h
  · cases h
  split at h
  · cases h
  obtain ⟨⟨t, ckr'⟩, hloop, hret⟩ := Except.bind_eq_ok.1 h
  obtain ⟨hnr, rfl, hrest, hlook⟩ := skipLoop_eq_ok hd hloop
  cases hret
  refine ⟨by dsimp only; omega, by rw [hrest], fun k ↦ ?_⟩
  dsimp only
  rw [hlook k]
  congr 1
  have hiff : s.nr.toNat ≤ k.2.toNat ∧ k.2.toNat < s.nr.toNat + (upTo.toNat - s.nr.toNat) ↔
      s.nr.toNat ≤ k.2.toNat ∧ k.2.toNat < upTo.toNat := by omega
  rw [hiff]

/-- Without a receiving chain there is nothing to skip. -/
theorem skipMessageKeys_of_ckr_none {upTo : UInt32} (hckr : s.ckr = none)
    (h : skipMessageKeys P s upTo = .ok s') : s' = s := by
  unfold skipMessageKeys at h
  rw [hckr] at h
  split at h
  · cases h
  split at h
  · cases h
  · cases h
    rfl

theorem skipMessageKeys_eq_error {upTo : UInt32} {e : PrimitiveError}
    (hd : s.ckr.isSome → s.dhr.isSome) (h : skipMessageKeys P s upTo = .error e) :
    e = .limitExceeded := by
  unfold skipMessageKeys at h
  split at h
  · cases h; rfl
  split at h
  · cases h; rfl
  cases hckr : s.ckr with
  | none => rw [hckr] at h; cases h
  | some ckr =>
    obtain ⟨d, hdhr⟩ := Option.isSome_iff_exists.1 (hd (by rw [hckr]; rfl))
    rw [hckr] at h
    rcases Except.bind_eq_error.1 h with hloop | ⟨a, -, hret⟩
    · exact skipLoop_eq_error hdhr hloop
    · cases hret

theorem checkedInc_eq_error {n : UInt32} {e : PrimitiveError} (h : checkedInc n = .error e) :
    e = .limitExceeded := by
  unfold checkedInc at h
  split at h
  · cases h
  · cases h; rfl

/-- **Receiving on a chain.** The key is the one at the header's position, or at the first position
not yet passed if that is later; the chain stands just behind it. -/
theorem receiveOnChain_eq_ok {d ckr msgKey : Block B 32} {n : UInt32} (hd : s.dhr = some d)
    (hckr : s.ckr = some ckr)
    (h : (skipMessageKeys P s n >>= advanceReceiving P) = .ok (msgKey, s')) :
    msgKey = messageKey P ckr (max s.nr.toNat n.toNat - s.nr.toNat) ∧
    s'.nr.toNat = max s.nr.toNat n.toNat + 1 ∧
    s' = { s with
      nr := s'.nr, mkskipped := s'.mkskipped
      ckr := some (chainKey P ckr (s'.nr.toNat - s.nr.toNat)) } ∧
    ∀ k : Block B 32 × UInt32, s'.mkskipped.lookup k =
      if k.1 = d ∧ s.nr.toNat ≤ k.2.toNat ∧ k.2.toNat < n.toNat then
        some (messageKey P ckr (k.2.toNat - s.nr.toNat))
      else s.mkskipped.lookup k := by
  obtain ⟨t, hskip, hadv⟩ := Except.bind_eq_ok.1 h
  obtain ⟨hnr, hrest, hlook⟩ := skipMessageKeys_eq_ok hd hckr hskip
  have htckr : t.ckr = some (chainKey P ckr (n.toNat - s.nr.toNat)) := by rw [hrest]
  unfold advanceReceiving at hadv
  rw [htckr] at hadv
  obtain ⟨nr, hinc, hret⟩ := Except.bind_eq_ok.1 hadv
  have hinc' := checkedInc_eq_ok hinc
  cases hret
  have hsub : max s.nr.toNat n.toNat - s.nr.toNat = n.toNat - s.nr.toNat := by omega
  refine ⟨by rw [hsub]; rfl, by dsimp only; omega, ?_, hlook⟩
  have hlen : nr.toNat - s.nr.toNat = n.toNat - s.nr.toNat + 1 := by omega
  rw [hrest]
  dsimp only
  rw [hlen]
  rfl

/-- A message on the current chain is refused for want of room only. -/
theorem receiveOnChain_eq_error {n : UInt32} {e : PrimitiveError} (hd : s.dhr.isSome)
    (hckr : s.ckr.isSome) (h : (skipMessageKeys P s n >>= advanceReceiving P) = .error e) :
    e = .limitExceeded := by
  rcases Except.bind_eq_error.1 h with hskip | ⟨t, hskip, hadv⟩
  · exact skipMessageKeys_eq_error (fun _ ↦ hd) hskip
  · obtain ⟨d, hd⟩ := Option.isSome_iff_exists.1 hd
    obtain ⟨ckr, hckr⟩ := Option.isSome_iff_exists.1 hckr
    obtain ⟨-, hrest, -⟩ := skipMessageKeys_eq_ok hd hckr hskip
    have htckr : t.ckr = some (chainKey P ckr (n.toNat - s.nr.toNat)) := by rw [hrest]
    unfold advanceReceiving at hadv
    rw [htckr] at hadv
    rcases Except.bind_eq_error.1 hadv with hinc | ⟨nr, -, hret⟩
    · exact checkedInc_eq_error hinc
    · cases hret

/-- **The three ways to find a message key**: stored earlier, on the current receiving chain, or
across a DH ratchet step. -/
theorem ratchetReceiveKey_cases (P : Primitives B) (fresh : Block B 32) (header : Header B)
    (s : DoubleRatchetState B) :
    (∃ msgKey, s.mkskipped.lookup (header.dh, header.n) = some msgKey ∧
      ratchetReceiveKey P fresh header s =
        .ok (msgKey, { s with mkskipped := s.mkskipped.erase (header.dh, header.n) })) ∨
    (s.mkskipped.lookup (header.dh, header.n) = none ∧ s.dhr = some header.dh ∧
      ratchetReceiveKey P fresh header s =
        skipMessageKeys P s header.n >>= advanceReceiving P) ∨
    (s.mkskipped.lookup (header.dh, header.n) = none ∧ s.dhr ≠ some header.dh ∧
      ratchetReceiveKey P fresh header s =
        skipMessageKeys P s header.pn >>= fun t ↦ dhRatchet P fresh header t >>= fun u ↦
          skipMessageKeys P u header.n >>= advanceReceiving P) := by
  unfold ratchetReceiveKey
  cases hlook : s.mkskipped.lookup (header.dh, header.n) with
  | some msgKey => exact .inl ⟨msgKey, rfl, rfl⟩
  | none =>
    by_cases hdhr : s.dhr = some header.dh
    · exact .inr (.inl ⟨rfl, hdhr, if_neg (by simpa using hdhr)⟩)
    · exact .inr (.inr ⟨rfl, hdhr, if_pos hdhr⟩)

/-- A DH ratchet step from a state that has a sending key. -/
theorem dhRatchet_of_dhs {fresh dhs : Block B 32} {header : Header B} (hs : s.dhs = some dhs) :
    dhRatchet P fresh header s =
      let rk₁ := kdfRk P s.rk (P.diffieHellman dhs header.dh)
      let rk₂ := kdfRk P rk₁.1 (P.diffieHellman fresh header.dh)
      .ok { s with
        pn := s.ns, ns := 0, nr := 0, dhr := some header.dh
        rk := rk₂.1, ckr := some rk₁.2, cks := some rk₂.2, dhs := some fresh } := by
  unfold dhRatchet
  rw [hs]
  rfl

/-- **`decrypt` commits or does nothing**: it works on a copy of the state, which replaces it only
when the ciphertext has opened. -/
theorem decrypt_cases (P : Primitives B) (fresh : Block B 32) (header : Header B) (ct ad : List B)
    (s : DoubleRatchetState B) :
    (∃ msgKey trial pt, ratchetReceiveKey P fresh header s = .ok (msgKey, trial) ∧
      aeadOpen P (aeadFromMk P msgKey).1 (aeadFromMk P msgKey).2 ct (concatAd ad header) = .ok pt ∧
      decrypt P fresh header ct ad s = (.ok pt, trial)) ∨
    (∃ e, decrypt P fresh header ct ad s = (.error e, s) ∧
      (ratchetReceiveKey P fresh header s = .error e ∨
        ∃ msgKey trial, ratchetReceiveKey P fresh header s = .ok (msgKey, trial) ∧
          aeadOpen P (aeadFromMk P msgKey).1 (aeadFromMk P msgKey).2 ct (concatAd ad header) =
            .error e)) := by
  unfold decrypt
  cases hkey : ratchetReceiveKey P fresh header s with
  | error e => exact .inr ⟨e, rfl, .inl rfl⟩
  | ok r =>
    obtain ⟨msgKey, trial⟩ := r
    cases hopen : aeadOpen P (aeadFromMk P msgKey).1 (aeadFromMk P msgKey).2 ct
      (concatAd ad header) with
    | error e => exact .inr ⟨e, by simp only [hopen], .inr ⟨msgKey, trial, rfl, hopen⟩⟩
    | ok pt => exact .inl ⟨msgKey, trial, pt, rfl, hopen, by simp only [hopen]⟩

/-! ### What the sending half computes -/

/-- What a message key for sending is, and what it leaves behind. -/
theorem sendMessageKey_eq_ok {header : Header B} {msgKey : Block B 32}
    (h : sendMessageKey P s = .ok ((header, msgKey), s')) :
    ∃ cks dhs ns, s.cks = some cks ∧ s.dhs = some dhs ∧ checkedInc s.ns = .ok ns ∧
      header = { dh := P.publicKey dhs, pn := s.pn, n := s.ns } ∧ msgKey = (kdfCk P cks).2 ∧
      s' = { s with cks := some (kdfCk P cks).1, ns } := by
  obtain ⟨⟨⟨n, mk'⟩, t⟩, hsend, hret⟩ := Except.bind_eq_ok.1 h
  unfold ratchetSendKey at hsend
  cases hcks : s.cks with
  | none => rw [hcks] at hsend; cases hsend
  | some cks =>
    rw [hcks] at hsend
    obtain ⟨ns, hinc, hret'⟩ := Except.bind_eq_ok.1 hsend
    cases hret'
    dsimp only at hret
    cases hdhs : s.dhs with
    | none => rw [hdhs] at hret; cases hret
    | some dhs =>
      rw [hdhs] at hret
      cases hret
      exact ⟨cks, dhs, ns, rfl, rfl, hinc, rfl, rfl, rfl⟩

/-- `encrypt` is `sendMessageKey` followed by one seal. -/
theorem encrypt_eq_ok {header : Header B} {pt ad ct : List B} :
    encrypt P s pt ad = .ok ((header, ct), s') ↔
      ∃ msgKey, sendMessageKey P s = .ok ((header, msgKey), s') ∧
        aeadSeal P (aeadFromMk P msgKey).1 (aeadFromMk P msgKey).2 pt (concatAd ad header) =
          .ok ct := by
  unfold encrypt
  rw [Except.bind_eq_ok]
  constructor
  · rintro ⟨⟨⟨header', msgKey⟩, t⟩, hsend, hrest⟩
    obtain ⟨ct', hseal, hret⟩ := Except.bind_eq_ok.1 hrest
    cases hret
    exact ⟨msgKey, hsend, hseal⟩
  · rintro ⟨msgKey, hsend, hseal⟩
    exact ⟨_, hsend, Except.bind_eq_ok.2 ⟨ct, hseal, rfl⟩⟩

end DoubleRatchetState

end VoiceChatCrypto

