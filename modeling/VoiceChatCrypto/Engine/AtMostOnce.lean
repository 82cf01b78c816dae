import VoiceChatCrypto.Engine.Genuine
import VoiceChatCrypto.Engine.Window

/-!
# Opened at most once

The replay cache remembers the last 4096 messages of a device. That a message is not opened again after
the cache has forgotten it is up to the ratchets, which drop a message key when they use it
(`decrypts_at_most_once`).

They can only do so if a ratchet has every key once, and a ratchet that was restored from storage has
whatever the blob says. In a conversation of `2 ^ 32` letters the blob is a part of the conversation
(`LiveSession.exists_forged`). The second half of this module runs a device with a ratchet that has the
keys of a chain twice, among its skipped keys and in the chain: it opens 4097 messages with the first
set, and then the first of them once more with the second (`opened_again_after_reload`).
-/

open Alphabet

namespace VoiceChatCrypto

variable {B : Type} [Alphabet B] {P : Primitives B}

/-! ### At most once -/

/-- The call opened the message. -/
def Event.Decrypts (ev : Event B) (sid : SessionId B) (m : SealedMessage B) (ad : List B) : Prop :=
  ev.call = .decrypt sid m ad ∧ ∃ pt, ev.outcome = .ok (.opened pt)

/-- Decrypting is one of the ways to accept a message. -/
theorem Event.Decrypts.accepts {ev : Event B} {sid : SessionId B} {m : SealedMessage B} {ad : List B}
    (h : ev.Decrypts sid m ad) : ev.Accepts sid m.header m.ciphertext := by
  obtain ⟨hcall, pt, hout⟩ := h
  exact .inl ⟨m, ad, pt, hcall, hout, rfl, rfl⟩

/-- A decryption that returns the plaintext is an event that opens the message. -/
theorem Run.decrypts_extend {r : Run B} {sid : SessionId B} {m : SealedMessage B} {ad pt : List B}
    {d : Draws B} (h : (r.engine.decrypt P sid m ad d).1 = .ok pt) :
    ∃ ev, (r.extend P d (.decrypt sid m ad)).log = r.log ++ [ev] ∧ ev.Decrypts sid m ad :=
  ⟨_, rfl, rfl, pt, congrArg (Except.map Output.opened) h⟩

section Ideal

variable (hK : IdealKdf P) (hA : IdealAead P) (hO : OpensSealed P) (h1 : OneKey P)
include hK hA hO h1

omit hA in
/-- What a session has opened it refuses ever after, whatever is bound to it. -/
theorem decrypt_refused {r : Run B} (hr : (device P (Fresh P)).Reachable r) {ev : Event B}
    (hev : ev ∈ r.log) {sid : SessionId B} {m m' : SealedMessage B} {ad : List B}
    (hopened : ev.Decrypts sid m ad) (hct : m'.ciphertext = m.ciphertext) (ad' : List B)
    (d : Draws B) : ∃ err, r.engine.decrypt P sid m' ad' d = (.error err, r.engine) := by
  have honce := once hK hO h1 (reachable_mono hr fun _ _ _ h ↦ h.toFreshSessions)
  rcases Engine.decrypt_cases (P := P) (device_idle hr) sid m' ad' d with
    herr | ⟨s, pt, t, hs, -, hdec, -⟩
  · exact herr
  · -- a ratchet that opens it would be held, but those cannot
    obtain ⟨-, hcan, -⟩ := LiveRatchet.decrypt_canOpen hK hO h1 (honce.sound sid s (.inl hs)) hdec
    rw [hct] at hcan
    exact absurd hcan (honce.closed ev hev sid m.ciphertext ⟨_, .inl hopened.accepts⟩ s (.inl hs))

/-- **Every message is opened at most once.** In every run of a device, of any length:

* no two calls of `decrypt` open one message of one session;
* what a session has opened it refuses in every later state, with any associated data and any draws,
  and the refusal changes nothing;
* a message of the session's peer that was not accepted before is never rejected as a replay. -/
theorem decrypts_at_most_once {r : Run B} (hr : (device P (Fresh P)).Reachable r) :
    (r.log.Pairwise fun ev ev' ↦ ∀ sid m m' ad, m'.header = m.header →
      m'.ciphertext = m.ciphertext → ev.Decrypts sid m ad → ¬ ev'.Decrypts sid m' ad) ∧
    (∀ ev ∈ r.log, ∀ sid m m' ad ad' d, m'.header = m.header → m'.ciphertext = m.ciphertext →
      ev.Decrypts sid m ad → ∃ err, r.engine.decrypt P sid m' ad' d = (.error err, r.engine)) ∧
    ∀ (r' : Run B) (sid sid' : SessionId B), (device P (Fresh P)).Reachable r' →
      r.Peers sid r' sid' → ∀ m : SealedMessage B,
      (∃ ev' ∈ r'.log, ev'.Sends sid' m.header m.ciphertext) →
      (∀ ev ∈ r.log, ¬ ev.Accepts sid m.header m.ciphertext) →
      ∀ ad d, (r.engine.decrypt P sid m ad d).1 ≠ .error .replay := by
  have honce := once hK hO h1 (reachable_mono hr fun _ _ _ h ↦ h.toFreshSessions)
  refine ⟨honce.once.imp ?_, ?_, ?_⟩
  · intro ev ev' honce sid m m' ad _ hct hopened hagain
    have haccepts := hagain.accepts
    rw [hct] at haccepts
    exact honce sid _ _ ⟨_, .inl hopened.accepts⟩ haccepts
  · intro ev hev sid m m' ad ad' d _ hct hopened
    exact decrypt_refused hK hO h1 hr hev hopened hct ad' d
  · intro r' sid sid' hr' hpeers m hsent hnot ad d
    exact decrypt_ne_replay hA hO hr hr' hpeers hsent hnot ad d

end Ideal

namespace Symbolic

/-- Device 2 has answered device 1 and opens its second message. -/
noncomputable def openedSecond : Run Sym :=
  (answered .classicalV1).extend symbolic (draws 4) (.decrypt (draws 3).sessionId second [])

/-- The run of the example is one that the theorem is about. -/
theorem reachable_openedSecond : (device symbolic (Fresh symbolic)).Reachable openedSecond := by
  have hfits : (Call.decrypt (draws 3).sessionId second [] : Call Sym).Fits := trivial
  have hnext := fresh_nil (P := symbolic) (engine 2 .classicalV1) hfits (draws 4)
  refine reachable_extend reachable_answered_fresh (hnext.extend ?_ ?_ ?_)
  · decide +kernel
  · decide +kernel
  · decide +kernel

end Symbolic

open Symbolic in
/-- The second message of device 1 is opened, and refused when it comes again. -/
theorem decrypts_at_most_once_second :
    (∃ ev ∈ openedSecond.log, ev.Decrypts (Symbolic.draws 3).sessionId second []) ∧
    ∃ err, openedSecond.engine.decrypt symbolic (Symbolic.draws 3).sessionId second []
      (Symbolic.draws 5) = (.error err, openedSecond.engine) := by
  have hok : ((answered .classicalV1).engine.decrypt symbolic (Symbolic.draws 3).sessionId second []
      (Symbolic.draws 4)).1 = .ok [] := by
    decide +kernel
  obtain ⟨ev, hlog, hopened⟩ := Run.decrypts_extend hok
  have hev : ev ∈ openedSecond.log := by
    rw [openedSecond, hlog]
    exact List.mem_append_right _ (List.mem_singleton_self ev)
  exact ⟨⟨ev, hev, hopened⟩, (decrypts_at_most_once idealKdf idealAead opensSealed oneKey
    reachable_openedSecond).2.1 ev hev _ _ _ [] [] (Symbolic.draws 5) rfl rfl hopened⟩

/-! ### A ratchet with two sets of keys -/

namespace DoubleRatchetState

/-- A ratchet that has the keys of the first `count` positions of its receiving chain twice: among its
skipped keys, and in the chain, of which it has received nothing. -/
def doubled (P : Primitives B) (dh ck : Block B 32) (count : ℕ) : DoubleRatchetState B :=
  { dhs := none, dhr := some dh, rk := ck, cks := none, ckr := some ck, ns := 0, nr := 0, pn := 0
    mkskipped := Dict.ofPairs
      ((List.range count).map fun k ↦ ((dh, UInt32.ofNat k), messageKey P ck k))
    maxSkip := defaultMaxSkip }

/-- What is left of it when the first `k` positions have been received. -/
structure Doubled (P : Primitives B) (dh ck : Block B 32) (count k : ℕ) (s : DoubleRatchetState B) :
    Prop where
  /-- The chain belongs to the ratchet key `dh`. -/
  dhr : s.dhr = some dh
  /-- The chain is where it was. -/
  ckr : s.ckr = some ck
  /-- Nothing of it was received. -/
  nr : s.nr = 0
  /-- The limit is the usual one. -/
  maxSkip : s.maxSkip = defaultMaxSkip
  /-- The skipped keys are those of the positions from `k` on. -/
  skipped : ∀ j < 2 ^ 32, s.mkskipped.lookup (dh, UInt32.ofNat j) =
    if k ≤ j ∧ j < count then some (messageKey P ck j) else none

/-- In the forged ratchet all positions are still to be received. -/
theorem doubled_doubled (dh ck : Block B 32) {count : ℕ} (hcount : count ≤ 2 ^ 32) :
    (doubled P dh ck count).Doubled P dh ck count 0 where
  dhr := rfl
  ckr := rfl
  nr := rfl
  maxSkip := rfl
  skipped j hj := by
    have hfst : (((List.range count).map fun k ↦
        ((dh, UInt32.ofNat k), messageKey P ck k)).map Prod.fst) =
        (List.range count).map fun k ↦ (dh, UInt32.ofNat k) := by
      rw [List.map_map]
      rfl
    show (Dict.ofPairs _).lookup _ = _
    by_cases h : j < count
    · rw [if_pos ⟨Nat.zero_le j, h⟩]
      refine Dict.lookup_foldl_insert_of_mem _ _ ?_ (List.mem_map.2 ⟨j, List.mem_range.2 h, rfl⟩)
      rw [hfst]
      refine List.Nodup.map_on (fun a ha b hb hab ↦ ?_) List.nodup_range
      rw [List.mem_range] at ha hb
      exact ofNat_u32_inj (by omega) (by omega) (Prod.mk.inj hab).2
    · rw [if_neg fun hj ↦ h hj.2, Dict.ofPairs, Dict.lookup_foldl_insert, Finmap.lookup_empty]
      rw [hfst]
      intro hmem
      obtain ⟨a, ha, hja⟩ := List.mem_map.1 hmem
      rw [List.mem_range] at ha
      rw [ofNat_u32_inj hj (by omega) (Prod.mk.inj hja).2.symm] at h
      exact h ha

/-- It fits into a conversation. -/
theorem length_doubled (dh ck : Block B 32) (count : ℕ) (σ : Enumeration) :
    ((doubled P dh ck count).serialize σ).length ≤ 2000 + 68 * count ∧
      (doubled P dh ck count).mkskipped.size ≤ count := by
  have hsize : (doubled P dh ck count).mkskipped.size ≤ count := by
    have h := Dict.size_ofPairs_le
      ((List.range count).map fun k ↦ ((dh, UInt32.ofNat k), messageKey P ck k))
    rwa [List.length_map, List.length_range] at h
  have hlen := length_serialize_le_size (doubled P dh ck count) σ
  exact ⟨by omega, hsize⟩

variable {s : DoubleRatchetState B} {dh ck : Block B 32} {count k : ℕ}

/-- The next position is received from among the skipped keys. -/
theorem Doubled.receive (h : s.Doubled P dh ck count k) (hk : k < count) (hcount : count ≤ 2 ^ 32)
    (fresh : Block B 32) :
    ∃ s', ratchetReceiveKey P fresh ⟨dh, 0, UInt32.ofNat k⟩ s = .ok (messageKey P ck k, s') ∧
      s'.Doubled P dh ck count (k + 1) := by
  have hlookup := h.skipped k (by omega)
  rw [if_pos ⟨le_rfl, hk⟩] at hlookup
  refine ⟨{ s with mkskipped := s.mkskipped.erase (dh, UInt32.ofNat k) }, ?_, h.dhr, h.ckr, h.nr,
    h.maxSkip, fun j hj ↦ ?_⟩
  · simp only [ratchetReceiveKey, hlookup]
  · show (s.mkskipped.erase (dh, UInt32.ofNat k)).lookup (dh, UInt32.ofNat j) = _
    by_cases hjk : j = k
    · subst hjk
      rw [Finmap.lookup_erase, if_neg (by omega)]
    · have hne : (dh, UInt32.ofNat j) ≠ (dh, UInt32.ofNat k) := fun heq ↦
        hjk (ofNat_u32_inj hj (by omega) (Prod.mk.inj heq).2)
      rw [Finmap.lookup_erase_ne hne, h.skipped j hj]
      exact if_congr (by omega) rfl rfl

/-- **The first position is received once more**, from the chain: its skipped key is gone, but the
chain has never moved, so it derives the key anew. -/
theorem Doubled.receive_again (h : s.Doubled P dh ck count k) (hk : 0 < k) (fresh : Block B 32) :
    ∃ s', ratchetReceiveKey P fresh ⟨dh, 0, UInt32.ofNat 0⟩ s = .ok (messageKey P ck 0, s') := by
  have hlookup := h.skipped 0 (by decide)
  rw [if_neg (by omega)] at hlookup
  have hskip : skipMessageKeys P s (UInt32.ofNat 0) = .ok { s with ckr := some ck } := by
    have hlimit : ¬ s.nr.toNat + s.maxSkip.toNat ≥ 2 ^ 32 := by
      rw [h.nr, h.maxSkip]
      decide
    have hloop : (UInt32.ofNat 0).toNat - s.nr.toNat = 0 := by rw [h.nr]; rfl
    rw [skipMessageKeys, if_neg hlimit, if_neg (by show ¬ _ < 0; omega), h.ckr]
    simp only [hloop, skipLoop, bind, Except.bind, pure, Except.pure]
  refine ⟨{ s with ckr := some (kdfCk P ck).1, nr := 1 }, ?_⟩
  have hinc : checkedInc s.nr = .ok 1 := by rw [h.nr]; rfl
  simp only [ratchetReceiveKey, hlookup, h.dhr, hskip, advanceReceiving, hinc, ne_eq, not_true,
    if_false, bind, Except.bind, pure, Except.pure]
  rfl

end DoubleRatchetState

/-! ### A device with such a ratchet -/

/-- The message at position `k` of a chain, empty and sealed under the associated data `ad`. -/
structure SealedMessage.At (P : Primitives B) (dh ck : Block B 32) (ad : List B) (k : ℕ)
    (m : SealedMessage B) : Prop where
  /-- The header names the position. -/
  header : m.header = Header.encode ⟨dh, 0, UInt32.ofNat k⟩
  /-- The ciphertext is under the key of the position. -/
  ciphertext : aeadSeal P (aeadFromMk P (messageKey P ck k)).1 (aeadFromMk P (messageKey P ck k)).2 []
    (concatAd ad ⟨dh, 0, UInt32.ofNat k⟩) = .ok m.ciphertext

/-- Messages at two positions have two keys in the replay cache. -/
theorem SealedMessage.At.replayKey_inj {dh ck : Block B 32} {ad dev : List B} {j k : ℕ}
    {m m' : SealedMessage B} {sid : SessionId B} (hm : m.At P dh ck ad j) (hm' : m'.At P dh ck ad k)
    (hj : j < 2 ^ 32) (hk : k < 2 ^ 32) (h : replayKey sid m [] dev = replayKey sid m' [] dev) :
    j = k := by
  have hstart := (start_eq_of_replayKey h).2
  rw [hm.header, hm'.header] at hstart
  have hheader := (List.append_inj hstart (by rw [Header.length_encode, Header.length_encode])).1
  exact ofNat_u32_inj hj hk (Header.mk.inj (Header.encode_injective hheader)).2.2

/-- A device that holds what is left of a doubled ratchet after `k` messages, and remembers the last
4096 of them. -/
structure Engine.Receives (P : Primitives B) (sid : SessionId B) (dh ck : Block B 32) (count : ℕ)
    (ad dev : List B) (m : ℕ → SealedMessage B) (k : ℕ) (e : Engine B) : Prop where
  /-- No transaction is open. -/
  idle : e.storage.staged = none
  /-- The device has the name that replay keys are made with. -/
  deviceId : e.deviceId = dev
  /-- The session has an empty conversation, and binds what the messages were sealed under. -/
  session : ∃ s t, e.sessions.lookup sid = some s ∧ s.ratchet = .classical t ∧
    t.Doubled P dh ck count k ∧ s.boundAd [] = ad ∧ s.conversation = []
  /-- The cache is one that its own operations have made. -/
  valid : e.replay.Valid
  /-- It has the capacity of the engine. -/
  capacity : e.replay.capacity = 4096
  /-- The cache is a window over the messages received. -/
  order : e.replay.order = ((List.range k).map fun j ↦ replayKey sid (m j) [] dev).rtake 4096

section Receives

variable {sid : SessionId B} {dh ck : Block B 32} {count k : ℕ} {ad dev : List B}
  {m : ℕ → SealedMessage B} {e : Engine B}

/-- A message that the ratchet has a key for is opened. -/
theorem LiveRatchet.decrypt_at (hA : IdealAead P) (hdh : dh ≠ Block.zero 32)
    {t t' : DoubleRatchetState B} {msg : SealedMessage B} (hm : msg.At P dh ck ad k) {d : Draws B}
    (h : t.ratchetReceiveKey P d.ratchet ⟨dh, 0, UInt32.ofNat k⟩ = .ok (messageKey P ck k, t')) :
    (LiveRatchet.classical t).decrypt P d msg.header msg.ciphertext ad =
      .ok ([], .classical t') := by
  have hdecode : Header.decode msg.header = .ok ⟨dh, 0, UInt32.ofNat k⟩ := by
    rw [hm.header]
    exact Header.decode_encode hdh
  have hopen := hA.open_seal hm.ciphertext
  have hdec : t.decrypt P d.ratchet ⟨dh, 0, UInt32.ofNat k⟩ msg.ciphertext ad = (.ok [], t') := by
    simp only [DoubleRatchetState.decrypt, h, hopen]
  simp only [LiveRatchet.decrypt, hdecode, liftError, hdec, bind, Except.bind, pure, Except.pure]

/-- The key of the next message is not in the cache. -/
theorem Engine.Receives.contains_next (hm : ∀ j < count, (m j).At P dh ck ad j)
    (hcount : count ≤ 2 ^ 32) (h : e.Receives P sid dh ck count ad dev m k) (hk : k < count) :
    e.replay.contains (replayKey sid (m k) [] dev) = false := by
  rw [← Bool.not_eq_true, h.valid.contains_iff, h.order]
  intro hmem
  obtain ⟨j, hj, hkey⟩ := List.mem_map.1 (List.mem_of_mem_drop hmem)
  rw [List.mem_range] at hj
  have heq := (hm j (by omega)).replayKey_inj (hm k hk) (by omega) (by omega) hkey
  omega

/-- **The next message is opened**, and the window slides. -/
theorem Engine.Receives.decrypt (hA : IdealAead P) (hdh : dh ≠ Block.zero 32)
    (hm : ∀ j < count, (m j).At P dh ck ad j) (hcount : count ≤ 2 ^ 32)
    (h : e.Receives P sid dh ck count ad dev m k) (hk : k < count) (d : Draws B) :
    (e.decrypt P sid (m k) [] d).1 = .ok [] ∧
      (e.decrypt P sid (m k) [] d).2.Receives P sid dh ck count ad dev m (k + 1) := by
  obtain ⟨s, t, hs, hratchet, ht, had, hconv⟩ := h.session
  obtain ⟨t', hkey, ht'⟩ := ht.receive hk hcount d.ratchet
  have hrep := h.contains_next hm hcount hk
  have hdec : s.ratchet.decrypt P d (m k).header (m k).ciphertext (s.boundAd []) =
      .ok ([], .classical t') := by
    rw [hratchet, had]
    exact LiveRatchet.decrypt_at hA hdh (hm k hk) hkey
  have hcall := Engine.decrypt_of_opens (P := P) h.idle hs (by rw [hconv, h.deviceId]; exact hrep) hdec
  have hcache := h.valid.checkAndInsert hrep
  have horder : (e.replay.checkAndInsert (replayKey sid (m k) [] dev)).2.order =
      ((List.range (k + 1)).map fun j ↦ replayKey sid (m j) [] dev).rtake 4096 := by
    have hevict := ReplayCache.evict_order _ (n := 4095) h.capacity h.order
    rw [List.range_succ, List.map_append, List.map_singleton, List.rtake_concat_succ, ← hevict,
      ReplayCache.checkAndInsert, hrep]
    rfl
  rw [hcall]
  refine ⟨rfl, (MemoryStorage.afterCommit_staged _ _).trans h.idle, h.deviceId,
    ⟨{ s with ratchet := .classical t' }, t', Engine.lookup_withRatchet sid s _ e, rfl, ht', had,
      hconv⟩, ?_, ?_, ?_⟩
  all_goals
    simp only [Engine.commitSession, Engine.committed, Engine.received, hconv, h.deviceId]
  · exact hcache.2.1
  · exact hcache.2.2.1.trans h.capacity
  · exact horder

/-- **After 4096 more messages the first is opened again**: its key has left the window, and the
ratchet derives its message key a second time. -/
theorem Engine.Receives.decrypt_again (hA : IdealAead P) (hdh : dh ≠ Block.zero 32)
    (hm : ∀ j < 4097, (m j).At P dh ck ad j)
    (h : e.Receives P sid dh ck 4097 ad dev m 4097) (d : Draws B) :
    (e.decrypt P sid (m 0) [] d).1 = .ok [] := by
  obtain ⟨s, t, hs, hratchet, ht, had, hconv⟩ := h.session
  obtain ⟨t', hkey⟩ := ht.receive_again (by decide) d.ratchet
  have hrep : e.replay.contains (replayKey sid (m 0) [] dev) = false := by
    rw [← Bool.not_eq_true, h.valid.contains_iff, h.order, List.rtake, List.length_map,
      List.length_range, List.range_succ_eq_map, List.map_cons]
    intro hmem
    obtain ⟨j, hj, hkey⟩ := List.mem_map.1 (show _ ∈ List.map _ _ from hmem)
    obtain ⟨i, hi, rfl⟩ := List.mem_map.1 hj
    rw [List.mem_range] at hi
    have heq := (hm _ (by omega)).replayKey_inj (hm 0 (by decide)) (by omega) (by omega) hkey
    omega
  have hdec : s.ratchet.decrypt P d (m 0).header (m 0).ciphertext (s.boundAd []) =
      .ok ([], .classical t') := by
    rw [hratchet, had]
    exact LiveRatchet.decrypt_at hA hdh (hm 0 (by decide)) hkey
  rw [Engine.decrypt_of_opens (P := P) h.idle hs (by rw [hconv, h.deviceId]; exact hrep) hdec]

end Receives

/-! ### Opened again -/

/-- The run after it has been given `k` messages, one after the other. -/
def Run.opening (P : Primitives B) (r : Run B) (sid : SessionId B) (m : ℕ → SealedMessage B)
    (d : ℕ → Draws B) : ℕ → Run B
  | 0 => r
  | k + 1 => (r.opening P sid m d k).extend P (d k) (.decrypt sid (m k) [])

/-- **The messages are opened one after the other.** -/
theorem Run.opening_receives (hA : IdealAead P) {sid : SessionId B} {dh ck : Block B 32}
    (hdh : dh ≠ Block.zero 32) {count : ℕ} {ad dev : List B} {m : ℕ → SealedMessage B}
    (hm : ∀ j < count, (m j).At P dh ck ad j) (hcount : count ≤ 2 ^ 32) {r : Run B}
    (h : r.engine.Receives P sid dh ck count ad dev m 0) (d : ℕ → Draws B) {k : ℕ}
    (hk : k ≤ count) :
    (r.opening P sid m d k).engine.Receives P sid dh ck count ad dev m k ∧
      ∀ j < k, ∃ ev ∈ (r.opening P sid m d k).log, ev.Decrypts sid (m j) [] := by
  induction k with
  | zero => exact ⟨h, fun j hj ↦ absurd hj (Nat.not_lt_zero j)⟩
  | succ k ih =>
    obtain ⟨hreceives, hopened⟩ := ih (by omega)
    obtain ⟨hok, hnext⟩ := hreceives.decrypt hA hdh hm hcount hk (d k)
    obtain ⟨ev, hlog, hev⟩ := Run.decrypts_extend hok
    refine ⟨hnext, fun j hj ↦ ?_⟩
    show ∃ ev ∈ (Run.extend P _ _ _).log, _
    rw [hlog]
    rcases Nat.lt_succ_iff_lt_or_eq.1 hj with hj | rfl
    · obtain ⟨ev', hmem, hev'⟩ := hopened j hj
      exact ⟨ev', List.mem_append_left _ hmem, hev'⟩
    · exact ⟨ev, List.mem_append_right _ (List.mem_singleton_self ev), hev⟩

/-- A device opens a session and crashes. -/
def Run.reopened (P : Primitives B) (e : Engine B) (bundle : PublicPrekeyBundle B) (conv : List B)
    (d : ℕ → Draws B) : Run B :=
  (Run.extend P ⟨e, []⟩ (d 0) (.establish bundle conv [] [])).extend P (d 1) .crashReload

/-- Then it is given a number of messages, and the first of them again. -/
def Run.forgetful (P : Primitives B) (e : Engine B) (bundle : PublicPrekeyBundle B) (conv : List B)
    (m : ℕ → SealedMessage B) (d : ℕ → Draws B) (count : ℕ) : Run B :=
  ((Run.reopened P e bundle conv d).opening P (d 0).sessionId m (fun k ↦ d (2 + k)) count).extend P
    (d (2 + count)) (.decrypt (d 0).sessionId (m 0) [])

/-- **A message is opened twice** when the conversation of its session does not fit its length: the
ratchet that comes back after a crash can be one that has the keys of its chain twice. -/
theorem exists_opened_twice (hA : IdealAead P) (hseal : SealTotal P) {e : Engine B} (he : e.Vacant)
    {bundle : PublicPrekeyBundle B} {d : ℕ → Draws B} {i : AliceInitiation B} {r : LiveRatchet B}
    (hi : e.initiate P bundle (d 0) = .ok (i, r)) :
    ∃ conv m earlier ev, (Run.forgetful P e bundle conv m d 4097).log = earlier ++ [ev] ∧
      (∃ ev' ∈ earlier, ev'.Decrypts (d 0).sessionId (m 0) []) ∧
      ev.Decrypts (d 0).sessionId (m 0) [] := by
  obtain ⟨hik, hspk, had, -⟩ := Engine.initiate_eq_ok hi
  obtain ⟨sent, after, hafter⟩ := DoubleRatchetState.initAlice_sendMessageKey (P := P) (d 0).ratchet
    i.shared.sk bundle.signedPrekey defaultMaxSkip
  have hstorable := DoubleRatchetState.sendMessageKey_storable
    (DoubleRatchetState.initAlice_storable P (d 0).ratchet i.shared.sk hspk) hafter
  -- the conversation ends in the blob of the doubled ratchet
  obtain ⟨hlength, hsize⟩ := DoubleRatchetState.length_doubled (P := P) bundle.signedPrekey
    (Block.zero 32) 4097 (d 0).order
  have hfits : (DoubleRatchetState.doubled P bundle.signedPrekey (Block.zero 32) 4097).Fits := by
    refine ⟨fun b hb ↦ ?_, by omega⟩
    cases hb
    exact hspk
  obtain ⟨conv, ad, hdec⟩ := LiveSession.exists_forged (d 0).order (d 0).sessionId
    (s := { e.outboundSession bundle [] i r with ratchet := .classical after }) hik
    (Engine.length_tail_outboundSession had hstorable) hfits rfl (by omega)
  obtain ⟨packet, e₁, e₂, s, h₁, hidle, h₂, hlookup, hcore, hdevice, hreplay⟩ :=
    he.establish_crashReload hseal hi hafter conv hdec (d 1)
  -- the messages
  choose ct hct using fun k : ℕ ↦ hseal.seal
    (aeadFromMk P (messageKey P (Block.zero 32) k)).1
    (aeadFromMk P (messageKey P (Block.zero 32) k)).2 []
    (concatAd (s.boundAd []) ⟨bundle.signedPrekey, 0, UInt32.ofNat k⟩)
  let m : ℕ → SealedMessage B := fun k ↦
    ⟨Header.encode ⟨bundle.signedPrekey, 0, UInt32.ofNat k⟩, ct k, (d 0).sessionId⟩
  have hm : ∀ j < 4097, (m j).At P bundle.signedPrekey (Block.zero 32) (s.boundAd []) j :=
    fun j _ ↦ ⟨rfl, hct j⟩
  have hengine : (Run.reopened P e bundle conv d).engine = e₂ := by
    show ((e.call P (d 0) _).2.call P (d 1) .crashReload).2 = e₂
    rw [h₁, h₂]
  have hreceives : (Run.reopened P e bundle conv d).engine.Receives P (d 0).sessionId
      bundle.signedPrekey (Block.zero 32) 4097 (s.boundAd []) e.deviceId m 0 := by
    have hidle₂ := (Engine.call_effect (P := P) hidle (d 1) .crashReload).idle hidle
    rw [h₂] at hidle₂
    have hvalid : (ReplayCache.new 4096 : ReplayCache B).Valid :=
      ReplayCache.new_valid (by decide) (by decide)
    rw [hengine]
    refine ⟨hidle₂, hdevice, ⟨s, _, hlookup, LiveSession.ratchet_eq_of_core_eq hcore,
      DoubleRatchetState.doubled_doubled _ _ (by decide), rfl,
      congrArg LiveSession.conversation hcore⟩, ?_, ?_, ?_⟩
    all_goals rw [hreplay, he.replay]
    · exact hvalid
    · rfl
    · rw [List.range_zero, List.map_nil, List.rtake_nil]
      rfl
  obtain ⟨hlast, hopened⟩ := Run.opening_receives hA hspk hm (by decide) hreceives
    (fun k ↦ d (2 + k)) le_rfl
  obtain ⟨ev, hlog, hev⟩ := Run.decrypts_extend
    (hlast.decrypt_again hA hspk hm (d (2 + 4097)))
  exact ⟨conv, m, _, ev, hlog, hopened 0 (by decide), hev⟩

/-- What is drawn is new. Nothing is asked of the conversation, whose length is what goes wrong
here. -/
structure NewDraws (P : Primitives B) (r : Run B) (c : Call B) (d : Draws B) : Prop where
  /-- No session of the run has this id. -/
  session : ¬ r.DrewSession d.sessionId
  /-- No ratchet key of the run has this public key. -/
  ratchet : NewRatchet P r c d
  /-- No header of the run was sealed with this nonce. -/
  nonce : ∀ ev ∈ r.log, ev.draws.headerNonce ≠ d.headerNonce

/-- The calls of the run have drawn from a sequence, each its own. -/
def Run.Numbered (d : ℕ → Draws B) (r : Run B) : Prop :=
  ∀ ev ∈ r.log, ∃ k < r.log.length, ev.draws = d k

/-- A numbered run stays numbered when the next call draws the next number. -/
theorem Run.Numbered.extend {d : ℕ → Draws B} {r : Run B} (h : r.Numbered d) (c : Call B) :
    (r.extend P (d r.log.length) c).Numbered d := by
  have hlen : (r.extend P (d r.log.length) c).log.length = r.log.length + 1 := by
    rw [Run.extend, List.length_append, List.length_singleton]
  intro ev hev
  rw [hlen]
  rcases List.mem_append.1 hev with hev | hev
  · obtain ⟨k, hk, hdraws⟩ := h ev hev
    exact ⟨k, by omega, hdraws⟩
  · rw [List.mem_singleton.1 hev]
    exact ⟨r.log.length, by omega, rfl⟩

namespace Symbolic

theorem secretOf_injective (w : ℕ) : Function.Injective (secretOf w) := fun _ _ h ↦
  Sym.lit.inj (Sym.block_injective w h)

theorem publicKey_secretOf_injective :
    Function.Injective fun n ↦ symbolic.publicKey (secretOf 31 n) := by
  intro j k h
  have hpair := Sym.block_injective 31 h
  have hexp := Sym.lit.inj (Sym.pair.inj hpair).2
  exact Nat.succ_injective hexp

/-- A numbered run goes on with new draws. -/
theorem newDraws_of_numbered {r : Run Sym} (h : r.Numbered fun k ↦ draws (k + 1)) (c : Call Sym) :
    NewDraws symbolic r c (draws (r.log.length + 1)) where
  session := by
    rintro ⟨ev, hev, hsid⟩
    obtain ⟨k, hk, hdraws⟩ := h ev hev
    rw [hdraws] at hsid
    have := secretOf_injective 15 hsid
    omega
  ratchet := by
    intro ev hev heq
    obtain ⟨k, hk, hdraws⟩ := h ev hev
    rw [hdraws] at heq
    have := publicKey_secretOf_injective heq
    omega
  nonce := by
    intro ev hev heq
    obtain ⟨k, hk, hdraws⟩ := h ev hev
    rw [hdraws] at heq
    have := secretOf_injective 11 heq
    omega

/-- A numbered run of `n` calls. -/
structure Counted (n : ℕ) (r : Run Sym) : Prop where
  /-- It is a run with new draws. -/
  reachable : (device symbolic (NewDraws symbolic)).Reachable r
  /-- Its calls draw one number after the other. -/
  numbered : r.Numbered fun k ↦ draws (k + 1)
  /-- It consists of `n` calls. -/
  length : r.log.length = n

/-- The next call of a numbered run draws something new. -/
theorem Counted.extend {n : ℕ} {r : Run Sym} (h : Counted n r) (c : Call Sym) :
    Counted (n + 1) (r.extend symbolic (draws (n + 1)) c) := by
  obtain ⟨hreachable, hnumbered, rfl⟩ := h
  exact ⟨reachable_extend hreachable (newDraws_of_numbered hnumbered c), hnumbered.extend c,
    by rw [Run.extend, List.length_append, List.length_singleton]⟩

theorem Counted.opening {n : ℕ} {r : Run Sym} (h : Counted n r) (sid : SessionId Sym)
    (m : ℕ → SealedMessage Sym) (k : ℕ) :
    Counted (n + k) (r.opening symbolic sid m (fun k ↦ draws (n + k + 1)) k) := by
  induction k with
  | zero => exact h
  | succ k ih => exact ih.extend _

/-- All calls of the counterexample draw something new. -/
theorem reachable_forgetful (bundle : PublicPrekeyBundle Sym) (conv : List Sym)
    (m : ℕ → SealedMessage Sym) (count : ℕ) : (device symbolic (NewDraws symbolic)).Reachable
      (Run.forgetful symbolic (engine 1 .classicalV1) bundle conv m (fun k ↦ draws (k + 1)) count) := by
  have hnew : Counted 0 ⟨engine 1 .classicalV1, []⟩ :=
    ⟨reachable_newDevice symbolic _ ⟨[], .classicalV1⟩ (deviceDraws 1),
      fun _ hev ↦ absurd hev List.not_mem_nil, rfl⟩
  have hreloaded : Counted 2 (Run.reopened symbolic (engine 1 .classicalV1) bundle conv
      fun k ↦ draws (k + 1)) := (hnew.extend _).extend _
  exact ((hreloaded.opening _ m count).extend _).reachable

end Symbolic

open Symbolic in
/-- **A message is opened twice.** Device 1 opens a session in a conversation that does not fit its
length and is reloaded; it opens a message, 4096 others, and the message again. All it draws is new. -/
theorem opened_again_after_reload :
    ∃ r : Run Sym, (device symbolic (NewDraws symbolic)).Reachable r ∧
      ∃ earlier ev sid m, r.log = earlier ++ [ev] ∧ (∃ ev' ∈ earlier, ev'.Decrypts sid m []) ∧
        ev.Decrypts sid m [] := by
  obtain ⟨i, r, hi⟩ := exists_initiate
  obtain ⟨conv, m, earlier, ev, hlog, hopened, hagain⟩ := exists_opened_twice idealAead
    Symbolic.sealTotal (Engine.newDevice_vacant symbolic [] (deviceDraws 1))
    (d := fun k ↦ Symbolic.draws (k + 1)) hi
  exact ⟨_, reachable_forgetful _ conv m 4097, earlier, ev, _, m 0, hlog, hopened, hagain⟩

end VoiceChatCrypto
