import VoiceChatCrypto.Engine.EndToEnd
import VoiceChatCrypto.Engine.Lineage
import VoiceChatCrypto.Ratchet.Recovery

/-!
# Recovery of a session

A session is **compromised** when somebody has read what the device holds of it, in memory or in storage:
the root key, the chain keys and the keys put aside. They may also know outputs of Diffie–Hellman, those
that they compute from the ratchet key they have read among them.

The session **recovers** with the first message of a new chain from the peer, if the second of the two
root steps that this message brings is on an output that they do not know. From then on they can open
nothing that the session seals, and nothing that it accepts but late messages of chains that were open by
then (`post_compromise_recovery`). All three profiles have this from the plain ratchet; what the
post-quantum one adds to a hybrid key is not counted as a secret. Failing calls, other sessions and
reloads from storage may come at any time.
-/

open Alphabet

namespace VoiceChatCrypto

variable {B : Type} [Alphabet B] {P : Primitives B}

/-! ### Profiles -/

/-- How a session goes down a chain. -/
def CryptoProfile.descent (P : Primitives B) : CryptoProfile → Descent B
  | .classicalV1 => doubleDescent P
  | .classicalHeV1 => headerDescent P
  | .hybridPqV1 => doubleDescent P

/-- The AEAD keys that come of a message key. -/
def CryptoProfile.Wraps (P : Primitives B) (profile : CryptoProfile) (mk key : Block B 32) : Prop :=
  match profile with
  | .classicalV1 => key = (aeadFromMk P mk).1
  | .classicalHeV1 => key = mk
  | .hybridPqV1 => ∃ pq, key = (aeadFromHybrid P (kdfHybrid P mk pq)).1

/-- Under ideal key derivation the keys of each profile descend without collisions. -/
theorem CryptoProfile.descent_faithful (hP : IdealKdf P) (profile : CryptoProfile) :
    (profile.descent P).Faithful P := by
  rcases profile with - | - | -
  · exact doubleDescent_faithful hP
  · exact headerDescent_faithful hP
  · exact doubleDescent_faithful hP

/-- **An AEAD key comes of one message key.** -/
theorem CryptoProfile.Wraps.inj (hP : IdealKdf P) {profile : CryptoProfile} {mk mk' key : Block B 32}
    (h : profile.Wraps P mk key) (h' : profile.Wraps P mk' key) : mk = mk' := by
  rcases profile with - | - | -
  · exact aeadFromMk_fst_inj hP (h.symm.trans h')
  · exact h.symm.trans h'
  · obtain ⟨pq, h⟩ := h
    obtain ⟨pq', h'⟩ := h'
    exact kdfHybrid_inj hP (aeadFromMk_fst_inj hP (h.symm.trans h'))

theorem DoubleRatchetState.rk_of_sendMessageKey {s s' : DoubleRatchetState B} {header : Header B}
    {mk : Block B 32} (h : sendMessageKey P s = .ok ((header, mk), s')) : s'.rk = s.rk := by
  obtain ⟨cks, dhs, ns, hcks, hdhs, hns, hheader, hmk, heq⟩ := sendMessageKey_eq_ok h
  rw [heq]

namespace LiveRatchet

variable {r r' r'' : LiveRatchet B} {d : Draws B} {header ct pt ad : List B} {mk key : Block B 32}
  {known : Block B 32 → Prop}

/-- The keys that a ratchet holds. -/
def keyRing : LiveRatchet B → KeyRing B
  | classical r => r.keyRing
  | headerEncrypt r => r.keyRing
  | hybrid r => r.classical.keyRing

/-- **The AEAD keys that can be derived** from what the ratchet holds and the outputs of Diffie–Hellman
that are known. -/
def Derives (P : Primitives B) (known : Block B 32 → Prop) (r : LiveRatchet B) (key : Block B 32) :
    Prop :=
  ∃ mk, r.keyRing.Derives P (r.profile.descent P) known mk ∧ r.profile.Wraps P mk key

/-- The AEAD keys of the chains that are open for receiving. -/
def Awaits (P : Primitives B) (r : LiveRatchet B) (key : Block B 32) : Prop :=
  ∃ mk, r.keyRing.Awaits (r.profile.descent P) mk ∧ r.profile.Wraps P mk key

/-- **Onward**: the same profile, root steps, and no new keys. -/
structure Onward (P : Primitives B) (r r' : LiveRatchet B) : Prop where
  /-- The ratchet is of the same profile. -/
  profile : r'.profile = r.profile
  /-- Its keys come from the earlier ones by root steps and chain steps. -/
  keys : r.keyRing.Onward P (r.profile.descent P) r'.keyRing

theorem Onward.refl (r : LiveRatchet B) : r.Onward P r := ⟨rfl, .refl _⟩

theorem Onward.trans (h : r.Onward P r') (h' : r'.Onward P r'') : r.Onward P r'' := by
  refine ⟨h'.profile.trans h.profile, h.keys.trans ?_⟩
  have hkeys := h'.keys
  rwa [h.profile] at hkeys

/-- The keys of a sound ratchet stand above a secret that no root step puts out. -/
theorem Sound.stands (h : r.Sound P) : ∃ sk depth F nr ns, NotDerived P sk ∧
    r.keyRing.Stands P (r.profile.descent P) sk depth F nr ns := by
  rcases r with r | r | r
  · obtain ⟨⟨sk, depth, F, hsk, hstands⟩, -⟩ := h
    exact ⟨sk, depth, F, _, _, hsk, hstands⟩
  · obtain ⟨⟨sk, depth, F, hsk, hstands⟩, -⟩ := h
    exact ⟨sk, depth, F, _, _, hsk, hstands⟩
  · obtain ⟨⟨sk, depth, F, hsk, hstands⟩, -⟩ := h
    exact ⟨sk, depth, F, _, _, hsk, hstands⟩

/-- **Opening** takes the ratchet onward, by two root steps or by none. -/
theorem decrypt_onward (hP : IdealKdf P) (hr : r.Sound P)
    (h : r.decrypt P d header ct ad = .ok (pt, r')) :
    (r.Onward P r' ∧ ∃ pk, r.keyRing.Turns P (P.diffieHellman d.ratchet pk) r'.keyRing) ∧
      ∃ mk key nonce ad', r.keyRing.Reveals P (r.profile.descent P) mk ∧ r.profile.Wraps P mk key ∧
        aeadOpen P key nonce ct ad' = .ok pt := by
  rcases r with r | r | r
  · obtain ⟨hd, -, h⟩ := Except.bind_eq_ok.1 h
    rcases DoubleRatchetState.decrypt_cases P d.ratchet hd ct ad r with
      ⟨mk, trial, pt', hkey, hopen, heq⟩ | ⟨e, heq, -⟩
    · rw [heq] at h
      obtain ⟨rfl, rfl⟩ := Prod.mk.inj (Except.ok.inj h)
      exact ⟨⟨⟨rfl, DoubleRatchetState.Sound.receive_onward hP hr hkey⟩, hd.dh,
        DoubleRatchetState.Sound.receive_turns hP hr hkey⟩, mk, _, _, _,
        (DoubleRatchetState.Sound.receive hP hr hkey).2.revealed, rfl, hopen⟩
    · rw [heq] at h
      cases h
  · rcases HeaderEncryptState.decrypt_cases P d.order d.ratchet header ct ad r with
      ⟨mk, trial, pt', hkey, hopen, heq⟩ | ⟨e, heq⟩
    · rw [decrypt, heq] at h
      obtain ⟨rfl, rfl⟩ := Prod.mk.inj (Except.ok.inj h)
      obtain ⟨pk, hturns⟩ := HeaderEncryptState.Sound.receive_turns hP hr hkey
      have huses := (HeaderEncryptState.Sound.receive hP hr hkey).2
      exact ⟨⟨⟨rfl, hturns.onward huses.within⟩, pk, hturns⟩, mk, _, _, _, huses.revealed, rfl, hopen⟩
    · rw [decrypt, heq] at h
      cases h
  · obtain ⟨hd, -, h⟩ := Except.bind_eq_ok.1 h
    unfold TripleRatchetState.decrypt at h
    rcases htry : r.tryDecrypt P d.ratchet hd ct ad with e | ⟨pt', trial⟩
    · rw [htry] at h
      cases h
    · rw [htry] at h
      obtain ⟨rfl, rfl⟩ := Prod.mk.inj (Except.ok.inj h)
      obtain ⟨ec, pq, hkey, hopen⟩ := TripleRatchetState.tryDecrypt_opens htry
      exact ⟨⟨⟨rfl, DoubleRatchetState.Sound.receive_onward hP hr hkey⟩, hd.classical.dh,
        DoubleRatchetState.Sound.receive_turns hP hr hkey⟩, ec, _, _, _,
        (DoubleRatchetState.Sound.receive hP hr hkey).2.revealed, ⟨pq, rfl⟩, hopen⟩

/-- **Sealing** takes the ratchet onward, and uses a key that was ahead. -/
theorem encrypt_onward (hP : IdealKdf P) (hr : r.Sound P)
    (h : r.encrypt P d pt ad = .ok ((header, ct), r')) :
    (r.Onward P r' ∧ r'.keyRing.rk = r.keyRing.rk) ∧
      ∃ mk key nonce ad', r.keyRing.Ahead P (r.profile.descent P) mk ∧ r.profile.Wraps P mk key ∧
        aeadSeal P key nonce pt ad' = .ok ct := by
  rcases r with r | r | r
  · obtain ⟨⟨⟨hd, c⟩, t⟩, henc, hret⟩ := Except.bind_eq_ok.1 h
    obtain ⟨⟨-, rfl⟩, rfl⟩ := Prod.mk.inj (Except.ok.inj hret) |>.imp_left Prod.mk.inj
    obtain ⟨mk, hsend, hseal⟩ := DoubleRatchetState.encrypt_eq_ok.1 (liftError_eq_ok.1 henc)
    obtain ⟨honward, hahead⟩ := DoubleRatchetState.Sound.send_onward hP hr hsend
    have hrk : t.rk = r.rk := DoubleRatchetState.rk_of_sendMessageKey hsend
    exact ⟨⟨⟨rfl, honward⟩, hrk⟩, mk, _, _, _, hahead, rfl, hseal⟩
  · obtain ⟨⟨⟨hd, c⟩, t⟩, henc, hret⟩ := Except.bind_eq_ok.1 h
    obtain ⟨⟨-, rfl⟩, rfl⟩ := Prod.mk.inj (Except.ok.inj hret) |>.imp_left Prod.mk.inj
    obtain ⟨honward, mk, hahead, hseal⟩ :=
      HeaderEncryptState.Sound.encrypt_onward hP hr (liftError_eq_ok.1 henc)
    have hrk : t.rk = r.rk := by
      obtain ⟨cks, dhs, hks, ns, hcks, hdhs, hhks, hns, henc', hct, heq⟩ :=
        HeaderEncryptState.encrypt_eq_ok (liftError_eq_ok.1 henc)
      rw [heq]
    exact ⟨⟨⟨rfl, honward⟩, hrk⟩, mk, _, _, _, hahead, rfl, hseal⟩
  · obtain ⟨⟨⟨hd, c⟩, t⟩, henc, hret⟩ := Except.bind_eq_ok.1 h
    obtain ⟨⟨-, rfl⟩, rfl⟩ := Prod.mk.inj (Except.ok.inj hret) |>.imp_left Prod.mk.inj
    obtain ⟨ecHeader, ecMk, pqEpoch, pqN, pqMk, hsend, -, -, -, hseal⟩ :=
      TripleRatchetState.encrypt_eq_ok (liftError_eq_ok.1 henc)
    obtain ⟨honward, hahead⟩ := DoubleRatchetState.Sound.send_onward hP hr hsend
    have hrk : t.classical.rk = r.classical.rk := DoubleRatchetState.rk_of_sendMessageKey hsend
    exact ⟨⟨⟨rfl, honward⟩, hrk⟩, ecMk, _, _, _, hahead, ⟨pqMk, rfl⟩, hseal⟩

/-- Something can be derived from any ratchet. -/
theorem exists_derives (r : LiveRatchet B) (h : ∃ d, known d) : ∃ key, r.Derives P known key := by
  obtain ⟨d, hd⟩ := h
  have hmk : r.keyRing.Derives P (r.profile.descent P) known _ := .root .start hd 0
  rcases r with r | r | r
  · exact ⟨_, _, hmk, rfl⟩
  · exact ⟨_, _, hmk, rfl⟩
  · exact ⟨_, _, hmk, Block.zero 32, rfl⟩

/-- **Recovery**, in each profile: from the keys that were read before, nobody derives a key that
comes after a root step with an exchange of two unknown secrets. -/
theorem Sound.not_derives (hP : IdealKdf P) (hr : r.Sound P)
    (hrec : r.keyRing.Recovered P known r'.keyRing)
    (hmk : r'.keyRing.Ahead P (r.profile.descent P) mk) (hwraps : r.profile.Wraps P mk key) :
    ¬ r.Derives P known key := by
  obtain ⟨sk, depth, F, nr, ns, hsk, hstands⟩ := hr.stands
  rintro ⟨mk', hderives, hwraps'⟩
  obtain rfl := hwraps.inj hP hwraps'
  exact hstands.not_derives hP (r.profile.descent_faithful hP) hsk hrec hmk hderives

end LiveRatchet

/-! ### Over a run -/

/-- The call took two root steps, the second of them on an output of Diffie–Hellman that is not known. -/
def Run.Recovers (P : Primitives B) (known : Block B 32 → Prop) (r : Run B) (d : Draws B) (c : Call B)
    (sid : SessionId B) : Prop :=
  ∃ s s' x pk, r.engine.sessions.lookup sid = some s ∧
    (r.extend P d c).engine.sessions.lookup sid = some s' ∧
    s'.ratchet.keyRing.rk =
      (kdfRk P (kdfRk P s.ratchet.keyRing.rk x).1 (P.diffieHellman d.ratchet pk)).1 ∧
    ¬ known (P.diffieHellman d.ratchet pk)

/-- Ratchets go onward whatever they seal and open. -/
theorem LiveRatchet.onward_kept (hP : IdealKdf P) : LiveRatchet.Kept P (LiveRatchet.Onward P) where
  refl := .refl
  sealed h hr henc := h.trans (LiveRatchet.encrypt_onward hP hr henc).1.1
  opened h hr hdec := h.trans (LiveRatchet.decrypt_onward hP hr hdec).1.1

section Ideal

variable (hP : IdealKdf P) (hO : OpensSealed P) (h1 : OneKey P)
include hP hO h1

/-- **The call that brings recovery** leaves a ratchet beyond what was there before. -/
theorem Run.Recovers.recovered {r : Run B} (hr : (device P FreshSessions).Reachable r)
    {sid : SessionId B} {start : LiveRatchet B} (h : r.Follows (LiveRatchet.Onward P) sid start)
    {c : Call B} {d : Draws B} (hc : FreshSessions r c d) {known : Block B 32 → Prop}
    (hrec : r.Recovers P known d c sid) :
    ∃ s', (r.extend P d c).engine.sessions.lookup sid = some s' ∧
      start.keyRing.Recovered P known s'.ratchet.keyRing := by
  obtain ⟨s, s', x, pk, hs, hs', hrk, hunknown⟩ := hrec
  refine ⟨s', hs', ?_⟩
  have hsound := (once hP hO h1 hr).sound sid s (.inl hs)
  -- the root key has changed
  have hne : s'.ratchet.keyRing.rk ≠ s.ratchet.keyRing.rk := by
    obtain ⟨sk, depth, F, nr, ns, hsk, hstands⟩ := hsound.stands
    rw [hrk]
    exact (hstands.root.ne_of_step hP hsk (RootAt.start.step x) _).symm
  rcases Run.ratchet_cases hP hO h1 hr hc hs hs' with
    heq | ⟨pt, ad, header, ct, henc⟩ | ⟨header, ct, ad, pt, hdec⟩
  · rw [heq] at hne
    exact absurd rfl hne
  · exact absurd (LiveRatchet.encrypt_onward hP hsound henc).1.2 hne
  · obtain ⟨⟨-, pk', hturns⟩, -⟩ := LiveRatchet.decrypt_onward hP hsound hdec
    refine hturns.recovered (h.related s (.inl hs)).keys.root hne ?_
    rcases hturns with ⟨heq, -⟩ | ⟨x', hrk', -⟩
    · exact absurd heq hne
    · obtain ⟨-, heq⟩ := kdfRk_fst_inj hP (hrk'.symm.trans hrk)
      rwa [heq]

/-- **Recovery from a compromise.** Somebody has all that a device holds of a session at one point of a
run, and knows some outputs of Diffie–Hellman. Later a message of a new chain brings two root steps, the
second of them on an output that they do not know. Whatever the device does from then on, no key that
they can derive opens a message that the session seals, or a message that it accepts and that it was not
yet awaiting on the chains that were open right after that call. -/
theorem post_compromise_recovery {r₁ r₂ r₃ : Run B} (h₁ : (device P FreshSessions).Reachable r₁)
    {sid : SessionId B} {s₁ : LiveSession B} (hs₁ : r₁.engine.Held sid s₁)
    (h₂ : Relation.ReflTransGen (device P FreshSessions).step r₁ r₂) {c : Call B} {d : Draws B}
    (hc : FreshSessions r₂ c d) {known : Block B 32 → Prop} (hrec : r₂.Recovers P known d c sid)
    (h₃ : Relation.ReflTransGen (device P FreshSessions).step (r₂.extend P d c) r₃)
    {later : List (Event B)} (hlog : r₃.log = (r₂.extend P d c).log ++ later) {ev : Event B}
    (hev : ev ∈ later) {header ct : List B} {key : Block B 32} (hkey : s₁.ratchet.Derives P known key)
    (nonce : Block B 12) (ad pt : List B) :
    (ev.Sends sid header ct → aeadOpen P key nonce ct ad ≠ .ok pt) ∧
    (ev.Accepts sid header ct → (∀ s k n a p, (r₂.extend P d c).engine.Held sid s →
      s.ratchet.Awaits P k → aeadOpen P k n ct a ≠ .ok p) → aeadOpen P key nonce ct ad ≠ .ok pt) := by
  have hkept := LiveRatchet.onward_kept (P := P) hP
  have hsound₁ := (once hP hO h1 h₁).sound sid s₁ hs₁
  obtain ⟨hr₂, hfollows₂⟩ :=
    (Run.follows_of_held hP hO h1 hkept h₁ hs₁).run hP hO h1 hkept h₁ h₂
  obtain ⟨s₂, hs₂, hrecovered⟩ := hrec.recovered hP hO h1 hr₂ hfollows₂ hc
  have hr₂' := reachable_extend hr₂ hc
  have hprofile₂ : s₂.ratchet.profile = s₁.ratchet.profile :=
    ((hfollows₂.extend hP hO h1 hkept hr₂ hc).related s₂ (.inl hs₂)).profile
  -- what is ahead after the call cannot be derived
  have hsafe : ∀ {mk k : Block B 32}, s₂.ratchet.keyRing.Ahead P (s₁.ratchet.profile.descent P) mk →
      s₁.ratchet.profile.Wraps P mk k → k ≠ key :=
    fun hahead hwraps heq ↦ hsound₁.not_derives hP hrecovered hahead hwraps (heq ▸ hkey)
  refine ⟨fun hsends hopen ↦ ?_, fun haccepts hawaits hopen ↦ ?_⟩
  · obtain ⟨t, d', pt', ad', t', honward, hsound, henc⟩ :=
      Run.exists_sealed_later hP hO h1 hkept hr₂' (.inl hs₂) h₃ hlog hev hsends
    obtain ⟨-, mk, k, n, a, hahead, hwraps, hseal⟩ := LiveRatchet.encrypt_onward hP hsound henc
    rw [honward.profile] at hahead hwraps
    have hahead₂ := honward.keys.ahead mk hahead
    rw [hprofile₂] at hahead₂ hwraps
    exact hsafe hahead₂ hwraps (h1.key_eq hseal hopen)
  · obtain ⟨t, d', ad', pt', t', honward, hsound, hdec⟩ :=
      Run.exists_opened_later hP hO h1 hkept hr₂' (.inl hs₂) h₃ hlog hev haccepts
    obtain ⟨-, mk, k, n, a, hreveals, hwraps, hopen'⟩ := LiveRatchet.decrypt_onward hP hsound hdec
    rw [honward.profile] at hreveals hwraps
    rcases (honward.keys.within mk hreveals).awaits_or_ahead with hawait | hahead
    · exact hawaits s₂ k n a pt' (.inl hs₂) ⟨mk, hawait, hwraps⟩ hopen'
    · rw [hprofile₂] at hahead hwraps
      exact hsafe hahead hwraps (hO.key_eq h1 hopen' hopen)

end Ideal

namespace Symbolic

/-- The answer of device 2 to the first message. -/
noncomputable def answer : SealedMessage Sym :=
  messageOf ((answered .classicalV1).engine.call symbolic (draws 4)
    (.encrypt (draws 3).sessionId [] [])).1

/-- Device 1 hears the answer. -/
noncomputable def heard : Run Sym :=
  established.extend symbolic (draws 2) (.decrypt (draws 1).sessionId answer [])

/-- The message of device 1 after that. -/
noncomputable def afterwards : SealedMessage Sym :=
  messageOf (heard.engine.call symbolic (draws 5) (.encrypt (draws 1).sessionId [] [])).1

/-- All outputs of Diffie–Hellman but the one that the answer brings. -/
def others (k : Block Sym 32) : Prop :=
  k ≠ symbolic.diffieHellman (draws 2).ratchet (symbolic.publicKey (draws 3).ratchet)

/-- The example begins with a session that was just opened. -/
theorem reachable_established : (device symbolic FreshSessions).Reachable established := by
  refine reachable_extend (reachable_newDevice symbolic FreshSessions ⟨[], .classicalV1⟩
    (deviceDraws 1)) (freshSessions_nil _ ?_ _)
  show ([] : List Sym).length < 2 ^ 32
  decide

/-- The answer of the peer takes it through a root step with a key that was drawn after the
compromise. -/
theorem recovers_answer : established.Recovers symbolic others (draws 2)
    (.decrypt (draws 1).sessionId answer []) (draws 1).sessionId := by
  have hroots : (heard.engine.sessions.lookup (draws 1).sessionId).map (fun s ↦ s.ratchet.keyRing.rk) =
      (established.engine.sessions.lookup (draws 1).sessionId).map fun s ↦
        (kdfRk symbolic (kdfRk symbolic s.ratchet.keyRing.rk
          (symbolic.diffieHellman (draws 1).ratchet (symbolic.publicKey (draws 3).ratchet))).1
            (symbolic.diffieHellman (draws 2).ratchet (symbolic.publicKey (draws 3).ratchet))).1 := by
    decide +kernel
  have hlive : (established.engine.sessions.lookup (draws 1).sessionId).isSome := by decide +kernel
  obtain ⟨s, hs⟩ := Option.isSome_iff_exists.1 hlive
  rw [hs, Option.map_some] at hroots
  obtain ⟨s', hs', hrk⟩ := Option.map_eq_some_iff.1 hroots
  exact ⟨s, s', _, _, hs, hs', hrk, fun h ↦ h rfl⟩

end Symbolic

open Symbolic in
/-- Somebody has read the session of device 1 when it was opened. Then comes an answer, and the next
message is out of their reach. -/
theorem post_compromise_recovery_answer : ∃ s : LiveSession Sym,
    established.engine.Held (Symbolic.draws 1).sessionId s ∧
    (∃ key, s.ratchet.Derives symbolic others key) ∧
    ∀ key, s.ratchet.Derives symbolic others key →
      ∀ nonce ad pt, aeadOpen symbolic key nonce afterwards.ciphertext ad ≠ .ok pt := by
  have hlive : (established.engine.sessions.lookup (Symbolic.draws 1).sessionId).isSome := by
    decide +kernel
  obtain ⟨s, hs⟩ := Option.isSome_iff_exists.1 hlive
  have hsealed : (heard.engine.call symbolic (Symbolic.draws 5)
      (.encrypt (Symbolic.draws 1).sessionId [] [])).1 = .ok (.sealed afterwards) := by
    decide +kernel
  have hhint : afterwards.sessionHint = (Symbolic.draws 1).sessionId := by decide +kernel
  have hheard : FreshSessions established (.decrypt (Symbolic.draws 1).sessionId answer [])
      (Symbolic.draws 2) :=
    (freshSessions_nil _ (show Call.Fits (.decrypt _ _ _) from trivial) _).extend (by decide +kernel)
  have hnext : FreshSessions heard (.encrypt (Symbolic.draws 1).sessionId [] []) (Symbolic.draws 5) :=
    ((freshSessions_nil _ (show Call.Fits (.encrypt _ _ _) from trivial) _).extend
      (by decide +kernel)).extend (by decide +kernel)
  have hknown : others (Block.zero 32) := by
    unfold others
    decide +kernel
  refine ⟨s, .inl hs, s.ratchet.exists_derives ⟨_, hknown⟩, fun key hkey nonce ad pt ↦ ?_⟩
  have hrun : Relation.ReflTransGen (device symbolic FreshSessions).step heard
      (heard.extend symbolic (Symbolic.draws 5) (.encrypt (Symbolic.draws 1).sessionId [] [])) :=
    .single ⟨_, _, hnext, rfl⟩
  have hsends := Event.sends_of_sealed hsealed
  rw [hhint] at hsends
  exact (post_compromise_recovery idealKdf opensSealed oneKey reachable_established (.inl hs) .refl
    hheard recovers_answer hrun (heard.log_extend _ _) (List.mem_singleton_self _) hkey nonce ad pt).1
    hsends

end VoiceChatCrypto
