import VoiceChatCrypto.Ratchet.KeyDeletion

/-!
# Recovery from a compromise

Somebody has read everything that a ratchet holds, and knows some of the outputs of Diffie–Hellman that
go into its root keys from then on. What they can **derive** are the stored keys, the keys down the two
chains, and the keys down every chain that root steps on *known* outputs open.

A root step on an output that they do not know shuts them out (`KeyRing.Stands.not_derives`): of the keys
that the ratchet reveals afterwards they can derive none, but for those of the chain that it was already
receiving on and those it had put aside. The argument is about places again. The root keys that lie above
the unknown step are reached by that step only, and what was read lies below it.

With every output known, what can be derived is what the state reveals.
-/

open Alphabet

namespace VoiceChatCrypto

variable {B : Type} [Alphabet B] {P : Primitives B}

/-! ### Root keys -/

/-- A root key that can be computed from `rk` on known outputs of Diffie–Hellman. -/
inductive RootKnowing (P : Primitives B) (known : Block B 32 → Prop) (rk : Block B 32) :
    Block B 32 → Prop
  | start : RootKnowing P known rk rk
  | step {r d : Block B 32} (h : RootKnowing P known rk r) (hd : known d) :
      RootKnowing P known rk (kdfRk P r d).1

variable {known : Block B 32 → Prop} {sk rk r r' y : Block B 32} {depth i j : ℕ}

/-- A root key is not met again. -/
theorem RootAt.ne_of_step (hP : IdealKdf P) (hsk : NotDerived P sk) (hrk : RootAt P sk depth rk)
    (hr : RootAt P rk j r) (d : Block B 32) : rk ≠ (kdfRk P r d).1 := by
  intro heq
  have hagain : RootAt P sk (depth + j + 1) rk := by
    have hstep := (hrk.trans hr).step d
    rwa [← heq] at hstep
  have hdepth := hrk.depth_unique hP hsk hagain
  omega

/-- **Beyond an unknown output** nothing can be computed: each key after it comes from a root step
whose input is unknown as well. -/
theorem RootKnowing.known_of_rootAt (hP : IdealKdf P) (hsk : NotDerived P sk)
    (hrk : RootAt P sk depth rk) (hr : RootAt P rk j r) (hr' : RootAt P (kdfRk P r y).1 i r')
    (h : RootKnowing P known rk r') : known y := by
  induction hr' with
  | start =>
    generalize hx : (kdfRk P r y).1 = x at h
    rcases h with - | ⟨h, hd⟩
    · exact absurd hx.symm (hrk.ne_of_step hP hsk hr y)
    · obtain ⟨-, rfl⟩ := kdfRk_fst_inj hP hx
      exact hd
  | @step i r' hr' d ih =>
    generalize hx : (kdfRk P r' d).1 = x at h
    rcases h with - | ⟨h, hd⟩
    · exact absurd hx.symm (hrk.ne_of_step hP hsk ((hr.step y).trans hr') d)
    · obtain ⟨rfl, -⟩ := kdfRk_fst_inj hP hx
      exact ih h

/-! ### Key rings -/

namespace KeyRing

variable {D : Descent B} {mk : Block B 32} {nr ns : ℕ} {F : ℕ ×ₗ ℕ} {s s' s'' : KeyRing B}

/-- **What can be derived** from the keys by somebody who knows some outputs of Diffie–Hellman. -/
inductive Derives (P : Primitives B) (D : Descent B) (known : Block B 32 → Prop) (s : KeyRing B) :
    Block B 32 → Prop
  | stored {mk : Block B 32} (k : Block B 32 × UInt32) (h : s.store k = some mk) : Derives P D known s mk
  | receiving {ck : Block B 32} (h : s.ckr = some ck) (n : ℕ) : Derives P D known s (D.key ck n)
  | sending {ck : Block B 32} (h : s.cks = some ck) (n : ℕ) : Derives P D known s (D.key ck n)
  | root {r d : Block B 32} (h : RootKnowing P known s.rk r) (hd : known d) (n : ℕ) :
      Derives P D known s (D.key (kdfRk P r d).2 n)

/-- The keys that a state can open messages with before its next root step. -/
inductive Awaits (D : Descent B) (s : KeyRing B) : Block B 32 → Prop
  | stored {mk : Block B 32} (k : Block B 32 × UInt32) (h : s.store k = some mk) : Awaits D s mk
  | receiving {ck : Block B 32} (h : s.ckr = some ck) (n : ℕ) : Awaits D s (D.key ck n)

/-- The other keys that it reveals: those it seals with, and those of chains to come. -/
inductive Ahead (P : Primitives B) (D : Descent B) (s : KeyRing B) : Block B 32 → Prop
  | sending {ck : Block B 32} (h : s.cks = some ck) (n : ℕ) : Ahead P D s (D.key ck n)
  | root {i : ℕ} {r : Block B 32} (h : RootAt P s.rk i r) (d : Block B 32) (n : ℕ) :
      Ahead P D s (D.key (kdfRk P r d).2 n)

/-- A key that is revealed is awaited on the receiving side, or ahead on the sending side. -/
theorem Reveals.awaits_or_ahead (h : s.Reveals P D mk) : s.Awaits D mk ∨ s.Ahead P D mk := by
  rcases h with ⟨k, hk⟩ | ⟨hck, n⟩ | ⟨hck, n⟩ | ⟨hr, d, n⟩
  · exact .inl (.stored k hk)
  · exact .inl (.receiving hck n)
  · exact .inr (.sending hck n)
  · exact .inr (.root hr d n)

/-- **A root step on an unknown output**, after others from the root key of `s`. It opens the chain that
the state sends on. -/
def Recovered (P : Primitives B) (known : Block B 32 → Prop) (s s' : KeyRing B) : Prop :=
  ∃ j r y, RootAt P s.rk j r ∧ ¬ known y ∧ s'.rk = (kdfRk P r y).1 ∧ s'.cks = some (kdfRk P r y).2

/-- Where the keys ahead come from after such a step. -/
theorem Recovered.exists_root (h : s.Recovered P known s') (hmk : s'.Ahead P D mk) :
    ∃ j r y, RootAt P s.rk j r ∧ ¬ known y ∧ ∃ i r' d n, RootAt P s.rk i r' ∧
      mk = D.key (kdfRk P r' d).2 n ∧ (r' = r ∧ d = y ∨ ∃ i', RootAt P (kdfRk P r y).1 i' r') := by
  obtain ⟨j, r, y, hr, hy, hrk, hcks⟩ := h
  refine ⟨j, r, y, hr, hy, ?_⟩
  rcases hmk with ⟨hck, n⟩ | ⟨hr', d, n⟩
  · rw [hcks] at hck
    obtain rfl := Option.some.inj hck
    exact ⟨j, r, y, n, hr, rfl, .inl ⟨rfl, rfl⟩⟩
  · rw [hrk] at hr'
    exact ⟨_, _, d, n, (hr.step y).trans hr', rfl, .inr ⟨_, hr'⟩⟩

/-- **Recovery**: what is revealed after the step, and not awaited, cannot be derived from what was
there before. -/
theorem Stands.not_derives (hP : IdealKdf P) (hD : D.Faithful P) (hsk : NotDerived P sk)
    (h : s.Stands P D sk depth F nr ns) (hrec : s.Recovered P known s') (hmk : s'.Ahead P D mk) :
    ¬ s.Derives P D known mk := by
  obtain ⟨j, r, y, hr, hy, i, r', d, n, hr', rfl, hpath⟩ := hrec.exists_root hmk
  have hkey : KeyAt P D.key sk (toLex (depth + i, n)) (D.key (kdfRk P r' d).2 n) :=
    ⟨r', d, h.root.trans hr', rfl⟩
  have hplace : ∀ {a}, KeyAt P D.key sk a (D.key (kdfRk P r' d).2 n) → a = toLex (depth + i, n) :=
    fun ha ↦ hD.place_unique hP hsk _ _ _ ha hkey
  intro hderives
  generalize heq : D.key (kdfRk P r' d).2 n = mk at hderives hplace
  rcases hderives with ⟨k, hk⟩ | ⟨hck, m⟩ | ⟨hck, m⟩ | ⟨hknow, hd, m⟩
  · -- what is stored lies behind the frontier
    obtain ⟨a, ha, hmk'⟩ := h.holds.behind hk
    rw [hplace hmk'] at ha
    have hdepth : depth ≤ depth + i + 1 := by omega
    exact absurd ha (h.frontier_le (a := toLex (depth + i, n)) hdepth).not_gt
  · rcases h.receiving with ⟨hnone, -⟩ | ⟨c, r₀, d₀, hc, hr₀, hck', -⟩
    · rw [hnone] at hck
      cases hck
    · obtain rfl := Option.some.inj (hck'.symm.trans hck)
      have hp := hplace (a := toLex (c, nr + m)) ⟨r₀, d₀, hr₀, (D.key_add _ _ _).symm⟩
      have hfst := congrArg (fun a ↦ (ofLex a).1) hp
      simp only [ofLex_toLex] at hfst
      omega
  · obtain ⟨c, r₀, d₀, hc, hr₀, rfl⟩ := h.sending hck
    have hp := hplace (a := toLex (c, ns + m)) ⟨r₀, d₀, hr₀, (D.key_add _ _ _).symm⟩
    have hfst := congrArg (fun a ↦ (ofLex a).1) hp
    simp only [ofLex_toLex] at hfst
    omega
  · -- the chain is opened by the unknown output, or above it
    obtain ⟨rfl, rfl, -⟩ := hD heq
    rcases hpath with ⟨-, rfl⟩ | ⟨i', hi'⟩
    · exact hy hd
    · exact hy (hknow.known_of_rootAt hP hsk h.root hr hi')

/-! ### Steps -/

/-- **What a message does to the root key**: nothing, or two root steps, the second of them on `y`. -/
def Turns (P : Primitives B) (y : Block B 32) (s s' : KeyRing B) : Prop :=
  (s'.rk = s.rk ∧ s'.cks = s.cks) ∨
    ∃ x, s'.rk = (kdfRk P (kdfRk P s.rk x).1 y).1 ∧ s'.cks = some (kdfRk P (kdfRk P s.rk x).1 y).2

/-- **Onward**: root steps, and nothing revealed or ahead that was not before. -/
structure Onward (P : Primitives B) (D : Descent B) (s s' : KeyRing B) : Prop where
  /-- The root key comes from the earlier one by root steps. -/
  root : ∃ j, RootAt P s.rk j s'.rk
  /-- Nothing is revealed that was not revealed before. -/
  within : s'.Within P D s
  /-- Nothing is ahead that was not ahead before. -/
  ahead : ∀ mk, s'.Ahead P D mk → s.Ahead P D mk

theorem Onward.refl (s : KeyRing B) : s.Onward P D s :=
  ⟨⟨0, .start⟩, fun _ h ↦ h, fun _ h ↦ h⟩

theorem Onward.trans (h : s.Onward P D s') (h' : s'.Onward P D s'') : s.Onward P D s'' := by
  obtain ⟨j, hj⟩ := h.root
  obtain ⟨j', hj'⟩ := h'.root
  exact ⟨⟨j + j', hj.trans hj'⟩, fun mk hmk ↦ h.within mk (h'.within mk hmk),
    fun mk hmk ↦ h.ahead mk (h'.ahead mk hmk)⟩

/-- A root step with a new exchange is onward when it reveals nothing new. -/
theorem Turns.onward (h : s.Turns P y s') (hwithin : s'.Within P D s) : s.Onward P D s' := by
  rcases h with ⟨hrk, hcks⟩ | ⟨x, hrk, hcks⟩
  · refine ⟨⟨0, hrk ▸ .start⟩, hwithin, fun mk hmk ↦ ?_⟩
    rcases hmk with ⟨hck, n⟩ | ⟨hr, d, n⟩
    · exact .sending (hcks ▸ hck) n
    · exact .root (hrk ▸ hr) d n
  · have htwo : RootAt P s.rk 2 s'.rk := hrk ▸ (RootAt.start.step x).step y
    refine ⟨⟨2, htwo⟩, hwithin, fun mk hmk ↦ ?_⟩
    rcases hmk with ⟨hck, n⟩ | ⟨hr, d, n⟩
    · rw [hcks] at hck
      obtain rfl := Option.some.inj hck
      exact .root (.step .start x) y n
    · exact .root (htwo.trans hr) d n

/-- A root step that was taken, on an unknown output. -/
theorem Turns.recovered (h : s'.Turns P y s'') (hs : ∃ j, RootAt P s.rk j s'.rk)
    (hne : s''.rk ≠ s'.rk) (hy : ¬ known y) : s.Recovered P known s'' := by
  obtain ⟨j, hj⟩ := hs
  rcases h with ⟨hrk, -⟩ | ⟨x, hrk, hcks⟩
  · exact absurd hrk hne
  · exact ⟨j + 1, _, y, hj.step x, hy, hrk, hcks⟩

/-- Sealing uses a key of the sending chain. -/
theorem onward_of_send {ck : Block B 32} (hck : s.cks = some ck)
    (hs' : s' = { s with cks := some (D.chain ck 1) }) (hwithin : s'.Within P D s) :
    s.Onward P D s' ∧ s.Ahead P D (D.key ck 0) := by
  subst hs'
  refine ⟨⟨⟨0, .start⟩, hwithin, fun mk hmk ↦ ?_⟩, .sending hck 0⟩
  rcases hmk with ⟨hck', n⟩ | ⟨hr, d, n⟩
  · obtain rfl := Option.some.inj hck'
    rw [← D.key_add]
    exact .sending hck _
  · exact .root (s := s) hr d n

end KeyRing

/-! ### The plain ratchet -/

namespace DoubleRatchetState

variable {s s' : DoubleRatchetState B} {mk fresh : Block B 32} {header : Header B}

/-- Skipping takes no root step. -/
theorem Sound.skip_turns (h : s.Sound P) {upTo : UInt32} (hskip : skipMessageKeys P s upTo = .ok s') :
    s'.rk = s.rk ∧ s'.cks = s.cks := by
  rcases hckr : s.ckr with - | ck
  · rw [skipMessageKeys_of_ckr_none hckr hskip]
    exact ⟨rfl, rfl⟩
  · obtain ⟨ck', d, hck, hd⟩ := h.exists_ckr (by rw [hckr]; rfl)
    obtain ⟨-, hrest, -⟩ := skipMessageKeys_eq_ok hd hckr hskip
    rw [hrest]
    exact ⟨rfl, rfl⟩

/-- Nor does the next key of the receiving chain. -/
theorem Sound.advance_turns (h : s.Sound P) (hckr : s.ckr.isSome) {n : UInt32}
    (hkey : (skipMessageKeys P s n >>= advanceReceiving P) = .ok (mk, s')) :
    s'.rk = s.rk ∧ s'.cks = s.cks := by
  obtain ⟨ck, d, hck, hd⟩ := h.exists_ckr hckr
  obtain ⟨-, -, hrest, -⟩ := receiveOnChain_eq_ok hd hck hkey
  rw [hrest]
  exact ⟨rfl, rfl⟩

/-- **Receiving** takes two root steps when the peer has a new key. -/
theorem Sound.receive_turns (hP : IdealKdf P) (h : s.Sound P)
    (hkey : ratchetReceiveKey P fresh header s = .ok (mk, s')) :
    s.keyRing.Turns P (P.diffieHellman fresh header.dh) s'.keyRing := by
  rcases ratchetReceiveKey_cases P fresh header s with
    ⟨mk', hlook, heq⟩ | ⟨-, hdhr, heq⟩ | ⟨-, -, heq⟩
  · rw [heq] at hkey
    obtain ⟨-, rfl⟩ := Prod.mk.inj (Except.ok.inj hkey)
    exact .inl ⟨rfl, rfl⟩
  · rw [heq] at hkey
    obtain ⟨ck, hck⟩ := isSome_ckr_of_receiveOnChain hkey
    exact .inl (h.advance_turns (by rw [hck]; rfl) hkey)
  · rw [heq] at hkey
    obtain ⟨t, hskip, hkey⟩ := Except.bind_eq_ok.1 hkey
    obtain ⟨u, hratchet, hkey⟩ := Except.bind_eq_ok.1 hkey
    obtain ⟨hrk, -⟩ := h.skip_turns hskip
    obtain ⟨ht, -⟩ := h.skip hP hskip
    obtain ⟨hckr, hu, -⟩ := ht.ratchet hratchet
    obtain ⟨hrk', hcks'⟩ := hu.advance_turns hckr hkey
    rcases hdhs : t.dhs with - | dhs
    · unfold dhRatchet at hratchet
      rw [hdhs] at hratchet
      cases hratchet
    · rw [dhRatchet_of_dhs hdhs] at hratchet
      obtain rfl := Except.ok.inj hratchet
      refine .inr ⟨P.diffieHellman dhs header.dh, ?_, ?_⟩
      · exact hrk'.trans (by rw [hrk]; rfl)
      · exact hcks'.trans (by rw [hrk]; rfl)

theorem Sound.receive_onward (hP : IdealKdf P) (h : s.Sound P)
    (hkey : ratchetReceiveKey P fresh header s = .ok (mk, s')) :
    s.keyRing.Onward P (doubleDescent P) s'.keyRing :=
  (h.receive_turns hP hkey).onward (h.receive hP hkey).2.within

theorem Sound.send_onward (hP : IdealKdf P) (h : s.Sound P)
    (hsend : sendMessageKey P s = .ok ((header, mk), s')) :
    s.keyRing.Onward P (doubleDescent P) s'.keyRing ∧ s.keyRing.Ahead P (doubleDescent P) mk := by
  have hwithin := (h.send hP hsend).2.within
  obtain ⟨cks, dhs, ns, hcks, -, hns, -, rfl, rfl⟩ := sendMessageKey_eq_ok hsend
  exact KeyRing.onward_of_send hcks rfl hwithin

end DoubleRatchetState

/-! ### The header-encrypting ratchet -/

namespace HeaderEncryptState

variable {s s' : HeaderEncryptState B} {mk fresh : Block B 32}

theorem Sound.skip_turns (h : s.Sound P) {upTo : UInt32} (hskip : skipMessageKeys P s upTo = .ok s') :
    s'.rk = s.rk ∧ s'.cks = s.cks := by
  rcases hckr : s.ckr with - | ck
  · rw [skipMessageKeys_of_ckr_none hckr hskip]
    exact ⟨rfl, rfl⟩
  · obtain ⟨ck', hk, hck, hhk⟩ := h.exists_ckr (by rw [hckr]; rfl)
    obtain ⟨-, hrest, -⟩ := skipMessageKeys_eq_ok hhk hckr hskip
    rw [hrest]
    exact ⟨rfl, rfl⟩

theorem Sound.advance_turns (h : s.Sound P) (hckr : s.ckr.isSome) {n : UInt32}
    (hkey : (skipMessageKeys P s n >>= advanceReceiving P) = .ok (mk, s')) :
    s'.rk = s.rk ∧ s'.cks = s.cks := by
  obtain ⟨ck, hk, hck, hhk⟩ := h.exists_ckr hckr
  obtain ⟨-, -, hrest, -⟩ := receiveOnChain_eq_ok hhk hck hkey
  rw [hrest]
  exact ⟨rfl, rfl⟩

/-- **Receiving** takes two root steps when the header was sealed for the next chain. -/
theorem Sound.receive_turns (hP : IdealKdf P) (h : s.Sound P) {σ : Enumeration} {encHeader : List B}
    (hkey : receiveKey P σ fresh encHeader s = .ok (mk, s')) :
    ∃ pk, s.keyRing.Turns P (P.diffieHellman fresh pk) s'.keyRing := by
  rcases receiveKey_cases P σ fresh encHeader s with
    ⟨hk, header, mk', -, hlook, heq⟩ | ⟨-, ⟨hk, header, -, -, heq⟩ |
      ⟨-, ⟨hk, header, -, -, heq⟩ | ⟨-, heq⟩⟩⟩
  · rw [heq] at hkey
    obtain ⟨-, rfl⟩ := Prod.mk.inj (Except.ok.inj hkey)
    exact ⟨header.dh, .inl ⟨rfl, rfl⟩⟩
  · rw [heq] at hkey
    obtain ⟨ck, hck⟩ := isSome_ckr_of_receiveOnChain hkey
    exact ⟨header.dh, .inl (h.advance_turns (by rw [hck]; rfl) hkey)⟩
  · rw [heq] at hkey
    obtain ⟨t, hskip, hkey⟩ := Except.bind_eq_ok.1 hkey
    obtain ⟨u, hratchet, hkey⟩ := Except.bind_eq_ok.1 hkey
    obtain ⟨hrk, -⟩ := h.skip_turns hskip
    obtain ⟨ht, -⟩ := h.skip hP hskip
    obtain ⟨hckr, hu, -⟩ := ht.ratchet hratchet
    obtain ⟨hrk', hcks'⟩ := hu.advance_turns hckr hkey
    rcases hdhs : t.dhs with - | dhs
    · unfold dhRatchet at hratchet
      rw [hdhs] at hratchet
      cases hratchet
    · rw [dhRatchet_of_dhs hdhs] at hratchet
      obtain rfl := Except.ok.inj hratchet
      refine ⟨header.dh, .inr ⟨P.diffieHellman dhs header.dh, ?_, ?_⟩⟩
      · exact hrk'.trans (by rw [hrk]; rfl)
      · exact hcks'.trans (by rw [hrk]; rfl)
  · rw [heq] at hkey
    cases hkey

theorem Sound.encrypt_onward (hP : IdealKdf P) (h : s.Sound P) {headerNonce : Block B 12}
    {pt ad encHeader ct : List B}
    (henc : HeaderEncryptState.encrypt P headerNonce s pt ad = .ok ((encHeader, ct), s')) :
    s.keyRing.Onward P (headerDescent P) s'.keyRing ∧
      ∃ mk, s.keyRing.Ahead P (headerDescent P) mk ∧
        aeadSeal P mk (deriveNonce mk) pt (concatAdHe ad encHeader) = .ok ct := by
  obtain ⟨-, mk, huses, hseal⟩ := h.encrypt hP henc
  obtain ⟨cks, dhs, hks, ns, hcks, -, -, hns, -, hct, rfl⟩ := encrypt_eq_ok henc
  obtain ⟨honward, hahead⟩ := KeyRing.onward_of_send (s := s.keyRing) hcks rfl huses.within
  exact ⟨honward, _, hahead, hct⟩

end HeaderEncryptState

end VoiceChatCrypto
