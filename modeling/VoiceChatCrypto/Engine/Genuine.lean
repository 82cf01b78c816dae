import VoiceChatCrypto.Engine.Once
import VoiceChatCrypto.Engine.Reload

/-!
# No genuine message is taken for a replay

The replay cache tells messages apart by the session, the header and the first 32 bytes of the
ciphertext. It holds the keys of messages that the device has accepted and of no others (`cached`), and
two messages that a device sends in one session never start alike (`sends_eq_of_start`): their headers
name their places in the ratchet, or start with the nonce they were sealed with. So a message that the
peer has sent and that was not accepted yet is not refused as a replay.
-/

open Alphabet

namespace VoiceChatCrypto

variable {B : Type} [Alphabet B] {P : Primitives B}

omit [Alphabet B] in
/-- What opens has the length of what was sealed. -/
theorem OpensSealed.openLength (hO : OpensSealed P) (hA : IdealAead P) : OpenLength P :=
  fun h ↦ hA.length_encrypt (hO h)

/-! ### Accepted headers -/

theorem TripleHeader.length_le_of_decode {data : List B} {h : TripleHeader B}
    (hd : decode data = .ok h) : data.length ≤ 51 + 256 ^ 2 := by
  unfold decode at hd
  split at hd
  · cases hd
  obtain ⟨classical, hc, hd⟩ := Except.bind_eq_ok.1 hd
  obtain ⟨⟨pqEpoch, data₁⟩, hepoch, hd⟩ := Except.bind_eq_ok.1 hd
  obtain ⟨⟨pqN, data₂⟩, hn, hd⟩ := Except.bind_eq_ok.1 hd
  have hepoch := (Cursor.takeLe_lt hepoch).2
  have hn := (Cursor.takeLe_lt hn).2
  rw [List.length_drop] at hepoch
  dsimp only at hd
  split at hd
  · rw [List.length_nil] at hn
    omega
  rw [List.length_cons] at hn
  split at hd
  · split at hd
    · cases hd
    omega
  split at hd
  · obtain ⟨⟨n, blob⟩, hblob, hd⟩ := Except.bind_eq_ok.1 hd
    obtain ⟨hlt, hblob⟩ := Cursor.takeLe_lt hblob
    dsimp only at hd
    split at hd
    · cases hd
    omega
  · cases hd

/-- An accepted header is short. -/
theorem LiveRatchet.length_header_le (hO : OpenLength P) {r r' : LiveRatchet B} {d : Draws B}
    {header ct ad pt : List B} (h : r.decrypt P d header ct ad = .ok (pt, r')) :
    header.length ≤ 51 + 256 ^ 2 := by
  obtain ⟨-, -, hclassical, hhe, -⟩ := decrypt_profile hO h
  cases r with
  | classical r =>
    have := hclassical rfl
    omega
  | headerEncrypt r =>
    have := hhe rfl
    omega
  | hybrid r =>
    obtain ⟨hd, hdec, -⟩ := Except.bind_eq_ok.1 h
    exact TripleHeader.length_le_of_decode (liftError_eq_ok.1 hdec)

/-- The key of an accepted message can be stored. -/
theorem keyFits_of_decrypt (hO : OpenLength P) {r r' : LiveRatchet B} {d : Draws B}
    {m : SealedMessage B} {ad pt conv dev : List B} {sid : SessionId B}
    (h : r.decrypt P d m.header m.ciphertext ad = .ok (pt, r')) (hconv : conv.length < 2 ^ 32)
    (hdev : dev.length < 2 ^ 32) : ReplayCache.KeyFits (replayKey sid m conv dev) := by
  refine ⟨hconv, hdev, ?_⟩
  have hlen := LiveRatchet.length_header_le hO h
  simp only [replayKey, List.length_append, length_le, Block.length_val, List.length_take]
  omega

/-! ### The cache -/

/-- Device ids that are read back are short. -/
theorem ReplayCache.length_senderDeviceId {data : List B} {c : ReplayCache B}
    (h : deserialize data = .ok c) : ∀ k ∈ c.present, k.senderDeviceId.length < 2 ^ 32 := by
  obtain ⟨data₁, -, h⟩ := Except.bind_eq_ok.1 h
  obtain ⟨⟨capacity, data₂⟩, -, h⟩ := Except.bind_eq_ok.1 h
  obtain ⟨⟨n, data₃⟩, -, h⟩ := Except.bind_eq_ok.1 h
  dsimp only at h
  split at h
  · cases h
  obtain ⟨⟨order, rest⟩, hmany, h⟩ := Except.bind_eq_ok.1 h
  obtain ⟨-, rfl⟩ := Cursor.finish_eq_ok h
  intro k hk
  obtain ⟨before, after, hread⟩ := (Cursor.takeMany_eq_ok hmany).2 k (List.mem_toFinset.1 hk)
  obtain ⟨⟨conv, d₁⟩, -, hread⟩ := Except.bind_eq_ok.1 hread
  obtain ⟨⟨dev, d₂⟩, hdev, hread⟩ := Except.bind_eq_ok.1 hread
  obtain ⟨⟨mid, d₃⟩, -, hread⟩ := Except.bind_eq_ok.1 hread
  cases hread
  obtain ⟨⟨len, d₄⟩, hlen, hdev⟩ := Except.bind_eq_ok.1 hdev
  have hlt := (Cursor.takeLe_lt hlen).1
  obtain ⟨-, rfl⟩ := Cursor.take_eq_ok hdev
  omega

/-- A key of the cache afterwards is the new one, or was there. -/
theorem ReplayCache.mem_present_checkAndInsert {c : ReplayCache B} {key k : ReplayKey B}
    (h : k ∈ (c.checkAndInsert key).2.present) : k = key ∨ k ∈ c.present := by
  unfold checkAndInsert at h
  split at h
  · exact .inr h
  · rcases Finset.mem_insert.1 h with rfl | h
    · exact .inl rfl
    · refine .inr ?_
      unfold evict at h
      split at h
      · split at h
        · exact Finset.mem_of_mem_erase h
        · exact h
      · exact h

namespace Engine

variable {e e' : Engine B} {d : Draws B} {c : Call B}

/-- No call changes the device id. -/
theorem Effect.deviceId {out : Except CryptoError (Output B)} (h : Effect P d e c out e') :
    e'.deviceId = e.deviceId := by
  cases h <;> rfl

/-- The stored replay cache is missing or current, and could be stored again. A reload then loses no
key. -/
structure ReplayMirror (e : Engine B) : Prop where
  /-- A reload finds the cache as it is, or none and keeps it. -/
  stored : e.storage.committed.lookup keyReplay = none ∨
    e.storage.committed.lookup keyReplay = some e.replay.serialize
  /-- The cache can be written and read back. -/
  sound : e.replay.Sound

/-- An engine with the same cache in memory and in storage is in the same position. -/
theorem ReplayMirror.of_eq (h : e.ReplayMirror) (hreplay : e'.replay = e.replay)
    (hstored : e'.storage.committed.lookup keyReplay = e.storage.committed.lookup keyReplay) :
    e'.ReplayMirror :=
  ⟨by rw [hstored, hreplay]; exact h.stored, hreplay ▸ h.sound⟩

/-- The cache that a reload leaves is the one in memory. -/
theorem ReplayMirror.reloadAux (h : e.ReplayMirror) : e.reloadAux.replay = e.replay := by
  unfold Engine.reloadAux
  rcases h.stored with hnone | hsome
  · rw [hnone]
  · rw [hsome]
    dsimp only
    rw [ReplayCache.deserialize_serialize h.sound.valid h.sound.fits]
    rfl

/-- **The stored cache stays current.** -/
theorem Effect.replayMirror (hO : OpenLength P) {out : Except CryptoError (Output B)}
    (h : Effect P d e c out e') (hc : c.Fits) (hlay : e.Layout) (hdev : e.deviceId.length < 2 ^ 32)
    (hm : e.ReplayMirror) : e'.ReplayMirror := by
  cases h with
  | refused c err => exact hm
  | replenishStopped n err prekeys h => exact hm.of_eq rfl rfl
  | replenished n prekeys h =>
    exact ⟨.inr (deviceBlobs_commitDevice ({ e with prekeys } : Engine B) d.order).2.2.1, hm.sound⟩
  | establishStopped bundle conv pt ad i r err hi henc => exact hm.of_eq rfl rfl
  | established bundle conv pt ad i r r' header ct hi henc =>
    exact ⟨.inr (deviceBlobs_commitSession _ d.order d.sessionId _).2.2.1, hm.sound⟩
  | processClosed m conv ad shared r err hans => exact hm.of_eq rfl rfl
  | processed m conv ad pt shared r r' hans hreplay hdec =>
    exact ⟨.inr (deviceBlobs_commitHandshake _ d.order d.sessionId _).2.2.1,
      hm.sound.checkAndInsert (keyFits_of_decrypt hO hdec hc hdev) hreplay⟩
  | sealed c sid pt ad s r header ct hc' hs henc =>
    exact ⟨.inr (deviceBlobs_commitSession _ d.order sid _).2.2.1, hm.sound⟩
  | opened sid m ad pt s r hs hreplay hdec =>
    exact ⟨.inr (deviceBlobs_commitSession _ d.order sid _).2.2.1, hm.sound.checkAndInsert
      (keyFits_of_decrypt hO hdec (hlay.live sid s hs).conversation hdev) hreplay⟩
  | acknowledged remote dev =>
    exact ⟨.inr (deviceBlobs_commitDevice _ d.order).2.2.1, hm.sound⟩
  | forgot sid => exact hm.of_eq rfl (Finmap.lookup_erase_ne (deviceKey_ne_sid sid (by simp)))
  | cleared => exact ⟨.inl rfl, hm.sound⟩
  | reloadStopped err identity prekeys hi hp => exact hm.of_eq rfl rfl
  | reloaded identity prekeys sessions hi hp hs =>
    have hm' : ({ e with identity, prekeys, sessions } : Engine B).ReplayMirror := hm.of_eq rfl rfl
    exact hm'.of_eq hm'.reloadAux rfl

/-- **Where the keys of the cache come from**: a key with the id of this device was there, or is that
of the message that the call has accepted. -/
theorem Effect.replay_origin {out : Except CryptoError (Output B)} (h : Effect P d e c out e')
    (hm : e.deviceId.length < 2 ^ 32 → e.ReplayMirror) {k : ReplayKey B}
    (hk : k ∈ e'.replay.present) (hdev : k.senderDeviceId = e.deviceId) :
    k ∈ e.replay.present ∨ ∃ sid m conv, Event.Accepts ⟨e, c, d, out⟩ sid m.header m.ciphertext ∧
      k = replayKey sid m conv e.deviceId := by
  cases h with
  | processed m conv ad pt shared r r' hans hreplay hdec =>
    rcases ReplayCache.mem_present_checkAndInsert hk with rfl | hk
    · exact .inr ⟨_, m.firstMessage, conv, .inr ⟨m, conv, ad, pt, rfl, rfl, rfl, rfl⟩, rfl⟩
    · exact .inl hk
  | opened sid m ad pt s r hs hreplay hdec =>
    rcases ReplayCache.mem_present_checkAndInsert hk with rfl | hk
    · exact .inr ⟨sid, m, s.conversation, .inl ⟨m, ad, pt, rfl, rfl, rfl, rfl⟩, rfl⟩
    · exact .inl hk
  | reloaded identity prekeys sessions hi hp hs =>
    refine .inl ?_
    by_cases hlt : e.deviceId.length < 2 ^ 32
    · have hm' : ({ e with identity, prekeys, sessions } : Engine B).ReplayMirror :=
        (hm hlt).of_eq rfl rfl
      rw [hm'.reloadAux] at hk
      exact hk
    · -- a cache that was read back has short device ids only
      unfold reloadAux at hk
      dsimp only at hk
      split at hk
      · exact hk
      · rename_i blob hblob
        cases hread : ReplayCache.deserialize blob with
        | error err =>
          rw [hread] at hk
          exact hk
        | ok cache =>
          rw [hread] at hk
          have hshort := ReplayCache.length_senderDeviceId hread k hk
          rw [hdev] at hshort
          exact absurd hshort hlt
  | _ => exact .inl hk

end Engine

/-- **The keys of the cache** are those of messages the run has accepted. It is therefore never for
another message that one is rejected as a replay. -/
structure Run.Cached (r : Run B) : Prop where
  /-- Storage has the cache, unless the device id is too long to be written. -/
  mirror : r.engine.deviceId.length < 2 ^ 32 → r.engine.ReplayMirror
  /-- Each key under the device's own name is that of a message the run has accepted. -/
  accepted : ∀ k ∈ r.engine.replay.present, k.senderDeviceId = r.engine.deviceId →
    ∃ ev ∈ r.log, ∃ sid m conv, ev.Accepts sid m.header m.ciphertext ∧
      k = replayKey sid m conv r.engine.deviceId

/-- Each call whose conversation fits keeps the invariant. -/
theorem Run.Cached.extend (hO : OpenLength P) {r : Run B} (h : r.Cached)
    (hidle : r.engine.storage.staged = none) (hlay : r.engine.Layout) {d : Draws B} {c : Call B}
    (hc : c.Fits) : (r.extend P d c).Cached := by
  have heffect := Engine.call_effect (P := P) hidle d c
  have hid : (r.extend P d c).engine.deviceId = r.engine.deviceId := heffect.deviceId
  refine ⟨fun hlt ↦ ?_, fun k hk hdev ↦ ?_⟩
  · rw [hid] at hlt
    exact heffect.replayMirror hO hc hlay hlt (h.mirror hlt)
  · rw [hid] at hdev ⊢
    rcases heffect.replay_origin h.mirror hk hdev with hold | ⟨sid, m, conv, hacc, hkey⟩
    · obtain ⟨ev, hev, sid, m, conv, hacc, hkey⟩ := h.accepted k hold hdev
      exact ⟨ev, List.mem_append_left _ hev, sid, m, conv, hacc, hkey⟩
    · exact ⟨_, List.mem_append_right _ (List.mem_singleton_self _), sid, m, conv, hacc, hkey⟩

/-- **Every run whose conversations fit keeps a cache of what it has accepted.** -/
theorem cached (hO : OpenLength P) {r : Run B} (hr : (device P fitting).Reachable r) : r.Cached := by
  refine System.Reachable.invariant (I := Run.Cached) ?_ ?_ hr
  · intro s hs
    obtain ⟨config, d, rfl⟩ := eq_newDevice_of_start hs
    have hsound : (ReplayCache.new 4096 : ReplayCache B).Sound :=
      ⟨ReplayCache.new_valid (by decide) (by decide), fun k hk ↦ absurd hk List.not_mem_nil⟩
    exact ⟨fun _ ↦ ⟨.inr (Engine.deviceBlobs_commitDevice (Engine.blank P config d) d.order).2.2.1,
      hsound⟩, fun k hk ↦ absurd hk (Finset.notMem_empty k)⟩
  · rintro s t hreach hs ⟨c, d, hc, rfl⟩
    exact hs.extend hO (device_idle hreach) (device_pure (P := P) hreach).layout hc

/-! ### Refusals -/

/-- No error of a primitive is reported as a replay. -/
theorem CryptoError.ofPrimitive_ne_replay (err : PrimitiveError) : ofPrimitive err ≠ replay := by
  cases err <;> exact CryptoError.noConfusion

theorem liftError_ne_replay {α : Type} (x : Except PrimitiveError α) :
    liftError x ≠ .error .replay := by
  cases x with
  | ok a =>
    intro h
    cases h
  | error err => exact fun h ↦ CryptoError.ofPrimitive_ne_replay err (Except.error.inj h)

/-- No error of a ratchet is a replay. -/
theorem LiveRatchet.decrypt_ne_replay (r : LiveRatchet B) (d : Draws B) (header ct ad : List B) :
    r.decrypt P d header ct ad ≠ .error .replay := by
  intro h
  cases r with
  | classical r =>
    rcases Except.bind_eq_error.1 h with hdec | ⟨hd, -, h⟩
    · exact liftError_ne_replay _ hdec
    · split at h
      · cases h
      · exact CryptoError.ofPrimitive_ne_replay _ (Except.error.inj h)
  | headerEncrypt r =>
    rw [decrypt] at h
    split at h
    · cases h
    · exact CryptoError.ofPrimitive_ne_replay _ (Except.error.inj h)
  | hybrid r =>
    rcases Except.bind_eq_error.1 h with hdec | ⟨hd, -, h⟩
    · exact liftError_ne_replay _ hdec
    · split at h
      · cases h
      · exact CryptoError.ofPrimitive_ne_replay _ (Except.error.inj h)

namespace Engine

variable {e : Engine B} {sid : SessionId B} {m : SealedMessage B} {ad : List B} {d : Draws B}

/-- **A replay is found in the cache**: no other part of `decrypt` reports this error. -/
theorem applyDecrypt_replay (h : (e.applyDecrypt P sid m ad d).1 = .error .replay) :
    ∃ conv, replayKey sid m conv e.deviceId ∈ e.replay.present := by
  cases hs : e.sessions.lookup sid with
  | none =>
    simp only [applyDecrypt, hs] at h
    cases h
  | some s =>
    refine ⟨s.conversation, ?_⟩
    cases hrep : e.replay.contains (replayKey sid m s.conversation e.deviceId) with
    | true => exact of_decide_eq_true hrep
    | false =>
      cases hdec : s.ratchet.decrypt P d m.header m.ciphertext (s.boundAd ad) with
      | error err =>
        simp only [applyDecrypt, hs, hrep, hdec, Bool.false_eq_true, if_false] at h
        cases h
        exact absurd hdec (s.ratchet.decrypt_ne_replay d _ _ _)
      | ok out =>
        rw [applyDecrypt_eq_ok hs hrep hdec] at h
        cases h

/-- **A replay is reported only when its key is in the cache.** -/
theorem decrypt_replay (hidle : e.storage.staged = none)
    (h : (e.decrypt P sid m ad d).1 = .error .replay) :
    ∃ conv, replayKey sid m conv e.deviceId ∈ e.replay.present := by
  rcases applyDecrypt_cases (P := P) e sid m ad d with ⟨err, heq⟩ | ⟨s, pt, r, hs, hrep, hdec, heq⟩
  · rw [decrypt, heq] at h
    cases h
    exact applyDecrypt_replay (congrArg Prod.fst heq)
  · have hpersist := persistSessionAux_of_idle (e := e.received sid s r m) hidle d.order
      (lookup_withRatchet sid s r e)
    simp only [decrypt, heq, hpersist] at h
    cases h

end Engine

/-! ### What tells messages apart -/

/-- A call seals one message at most. -/
theorem Event.Sends.unique {ev : Event B} {sid : SessionId B} {header header' ct ct' : List B}
    (h : ev.Sends sid header ct) (h' : ev.Sends sid header' ct') : header = header' ∧ ct = ct' := by
  rcases h with ⟨m, hm, -, rfl, rfl⟩ | ⟨m, hm, rfl, rfl⟩
  · rcases h' with ⟨m', hm', -, rfl, rfl⟩ | ⟨m', hm', rfl, rfl⟩
    · rw [hm] at hm'
      cases hm'
      exact ⟨rfl, rfl⟩
    · rw [hm] at hm'
      cases hm'
  · rcases h' with ⟨m', hm', -, rfl, rfl⟩ | ⟨m', hm', rfl, rfl⟩
    · rw [hm] at hm'
      cases hm'
    · rw [hm] at hm'
      cases hm'
      exact ⟨rfl, rfl⟩

/-- The message key comes with the position. -/
theorem DoubleRatchetState.chainPosition_of_send {s s' : DoubleRatchetState B} {hd : Header B}
    {mk : Block B 32} (h : s.sendMessageKey P = .ok ((hd, mk), s')) :
    LiveRatchet.chainPosition P s.dhs s.cks s.ns = some (hd.dh, hd.n) := by
  obtain ⟨cks, dhs, ns, hcks, hdhs, -, rfl, -, -⟩ := sendMessageKey_eq_ok h
  rw [hcks, hdhs]
  rfl

/-- **The mark of a header**: it starts with the position of its message, or, where it is sealed
itself, with the nonce. -/
theorem LiveRatchet.encrypt_marks {r r' : LiveRatchet B} {d : Draws B} {pt ad header ct : List B}
    (h : r.encrypt P d pt ad = .ok ((header, ct), r')) :
    (r.profile = .classicalHeV1 ∧ d.headerNonce.val <+: header) ∨
      (r.profile ≠ .classicalHeV1 ∧ ∃ hd : Header B, hd.encode <+: header ∧
        r.position P = some (hd.dh, hd.n)) := by
  cases r with
  | classical r =>
    obtain ⟨⟨⟨hd, c⟩, t⟩, henc, hret⟩ := Except.bind_eq_ok.1 h
    cases hret
    obtain ⟨mk, hsend, -⟩ := DoubleRatchetState.encrypt_eq_ok.1 (liftError_eq_ok.1 henc)
    exact .inr ⟨CryptoProfile.noConfusion, hd, List.prefix_refl _,
      DoubleRatchetState.chainPosition_of_send hsend⟩
  | headerEncrypt r =>
    obtain ⟨⟨⟨hd, c⟩, t⟩, henc, hret⟩ := Except.bind_eq_ok.1 h
    cases hret
    obtain ⟨cks, dhs, hks, ns, -, -, -, -, hheader, -, -⟩ :=
      HeaderEncryptState.encrypt_eq_ok (liftError_eq_ok.1 henc)
    obtain ⟨c, -, hret⟩ := Except.bind_eq_ok.1 hheader
    cases hret
    exact .inl ⟨rfl, List.prefix_append _ _⟩
  | hybrid r =>
    obtain ⟨⟨⟨hd, c⟩, t⟩, henc, hret⟩ := Except.bind_eq_ok.1 h
    cases hret
    obtain ⟨ecHeader, ecMk, pqEpoch, pqN, pqMk, hsend, -, -, rfl, -⟩ :=
      TripleRatchetState.encrypt_eq_ok (liftError_eq_ok.1 henc)
    refine .inr ⟨CryptoProfile.noConfusion, ecHeader, ?_,
      DoubleRatchetState.chainPosition_of_send hsend⟩
    simp only [TripleHeader.encode, List.append_assoc]
    exact List.prefix_append _ _

/-- What a sealed message of a run starts with, by the profile of the device. -/
def Event.Marked (P : Primitives B) (p : CryptoProfile) (ev : Event B) : Prop :=
  ∀ sid header ct, ev.Sends sid header ct →
    (p = .classicalHeV1 ∧ ev.draws.headerNonce.val <+: header) ∨
      (p ≠ .classicalHeV1 ∧ ∃ hd : Header B, hd.encode <+: header ∧ ev.SealedAt P sid (hd.dh, hd.n))

/-- What a call of a device in use seals or opens carries the mark of the device's profile. -/
theorem Engine.Effect.marked (hA : IdealAead P) (hO : OpenLength P) {e e' : Engine B} {d : Draws B}
    {c : Call B} {out : Except CryptoError (Output B)} (h : Effect P d e c out e')
    (hlive : ∀ sid s, e.sessions.lookup sid = some s → e.Bred P s) :
    Event.Marked P e.profile ⟨e, c, d, out⟩ := by
  rintro sid header ct (⟨m, hm, rfl, rfl, rfl⟩ | ⟨packet, hm, rfl, rfl⟩)
  · cases h with
    | sealed c sid pt ad s r header ct hc hs henc =>
      cases hm
      obtain ⟨sk, hg⟩ := hlive sid s hs
      rw [← (hg.spec hA hO).1]
      rcases LiveRatchet.encrypt_marks henc with hmark | ⟨hne, hd, hpre, hpos⟩
      · exact .inl hmark
      · exact .inr ⟨hne, hd, hpre, .inl ⟨pt, ad, _, s, hc, rfl, hs, hpos⟩⟩
    | _ => cases hm
  · cases h with
    | established bundle conv pt ad i r r' header ct hi henc =>
      cases hm
      obtain ⟨-, hspk, -, hinit⟩ := initiate_eq_ok hi
      rw [← ((LiveRatchet.Grown.alice hspk hinit).spec hA hO).1]
      rcases LiveRatchet.encrypt_marks henc with hmark | ⟨hne, hd, hpre, hpos⟩
      · exact .inl hmark
      · exact .inr ⟨hne, hd, hpre, .inr ⟨bundle, conv, pt, ad, _, i, r, rfl, rfl, hi, hpos⟩⟩
    | _ => cases hm

/-- **Every sealed message carries its mark**: its header starts with the nonce that the call drew,
or with a plain header that names the position it was sealed at. -/
theorem marked (hA : IdealAead P) (hO : OpenLength P) {r : Run B}
    (hr : (device P fitting).Reachable r) : ∀ ev ∈ r.log, ev.Marked P r.engine.profile := by
  refine System.Reachable.invariant (I := fun r ↦ ∀ ev ∈ r.log, ev.Marked P r.engine.profile) ?_ ?_ hr
  · rintro s ⟨hlog, -⟩ ev hev
    rw [hlog] at hev
    exact absurd hev List.not_mem_nil
  · rintro s t hreach hs ⟨c, d, -, rfl⟩ ev hev
    have heffect := Engine.call_effect (P := P) (device_idle hreach) d c
    have hprofile : (s.extend P d c).engine.profile = s.engine.profile := heffect.profile
    rw [hprofile]
    rcases List.mem_append.1 hev with hev | hev
    · exact hs ev hev
    · cases List.mem_singleton.1 hev
      exact heffect.marked hA hO (device_pure hreach).live

/-! ### Both ends -/

/-- What a run may assume of a call: the conversation fits its 32-bit length, and the drawn session id,
ratchet key and header nonce are new ones. -/
structure Fresh (P : Primitives B) (r : Run B) (c : Call B) (d : Draws B) : Prop
    extends FreshSessions r c d where
  /-- No ratchet key of the run has the public key of the drawn one. -/
  ratchet : NewRatchet P r c d
  /-- No header of the run was sealed with the drawn nonce. -/
  nonce : ∀ ev ∈ r.log, ev.draws.headerNonce ≠ d.headerNonce

/-- A run that may do less is a run. -/
theorem reachable_mono {allow allow' : Run B → Call B → Draws B → Prop} {r : Run B}
    (hr : (device P allow).Reachable r) (h : ∀ r c d, allow r c d → allow' r c d) :
    (device P allow').Reachable r := by
  obtain ⟨r₀, hstart, hrun⟩ := hr
  have hstep : (device P allow).step ≤ (device P allow').step := by
    rintro s t ⟨c, d, hc, rfl⟩
    exact ⟨c, d, h s c d hc, rfl⟩
  exact ⟨r₀, hstart, Relation.ReflTransGen.mono hstep r₀ r hrun⟩

/-- In a run with fresh draws no header nonce is drawn twice. -/
theorem nonces_distinct {r : Run B} (hr : (device P (Fresh P)).Reachable r) :
    r.log.Pairwise fun ev ev' ↦ ev.draws.headerNonce ≠ ev'.draws.headerNonce := by
  refine System.Reachable.invariant (I := fun r ↦ r.log.Pairwise fun ev ev' ↦
    ev.draws.headerNonce ≠ ev'.draws.headerNonce) ?_ ?_ hr
  · rintro s ⟨hlog, -⟩
    rw [hlog]
    exact .nil
  · rintro s t - hs ⟨c, d, hc, rfl⟩
    refine List.pairwise_append.2 ⟨hs, List.pairwise_singleton _ _, fun ev hev ev' hev' ↦ ?_⟩
    cases List.mem_singleton.1 hev'
    exact hc.nonce ev hev

omit [Alphabet B] in
/-- Prefixes of one length of strings that start alike. -/
theorem eq_of_start_eq {l l' s s' t t' : List B} (h : l <+: s) (h' : l' <+: s')
    (heq : s ++ t = s' ++ t') (hlen : l.length = l'.length) : l = l' := by
  have hs : l <+: s ++ t := h.trans (List.prefix_append s t)
  have hs' : l' <+: s ++ t := by
    rw [heq]
    exact h'.trans (List.prefix_append s' t')
  exact (List.prefix_of_prefix_length_le hs hs' hlen.le).eq_of_length hlen

/-- **A device sends no two messages of a session that start alike.** -/
theorem sends_eq_of_start (hA : IdealAead P) (hO : OpenLength P) {r : Run B}
    (hr : (device P (Fresh P)).Reachable r) {ev ev' : Event B} (hev : ev ∈ r.log)
    (hev' : ev' ∈ r.log) {sid : SessionId B} {header header' ct ct' : List B}
    (h : ev.Sends sid header ct) (h' : ev'.Sends sid header' ct')
    (hstart : header ++ ct.take 32 = header' ++ ct'.take 32) : header = header' ∧ ct = ct' := by
  have hmarked := marked hA hO (reachable_mono hr fun _ _ _ h ↦ h.fits)
  by_cases heq : ev = ev'
  · subst heq
    exact h.unique h'
  exfalso
  rcases hmarked ev hev sid header ct h, hmarked ev' hev' sid header' ct' h' with
    ⟨⟨hp, hpre⟩ | ⟨hp, hd, hpre, hpos⟩, ⟨hp', hpre'⟩ | ⟨hp', hd', hpre', hpos'⟩⟩
  · -- sealed headers start with their nonces
    have hsymm : Std.Symm fun ev ev' : Event B ↦ ev.draws.headerNonce ≠ ev'.draws.headerNonce :=
      ⟨fun _ _ h ↦ h.symm⟩
    refine (nonces_distinct hr).forall hev hev' heq (Subtype.ext ?_)
    exact eq_of_start_eq hpre hpre' hstart ((Block.length_val _).trans (Block.length_val _).symm)
  · exact hp' hp
  · exact hp hp'
  · -- the others with their positions
    have hahead := ahead (reachable_mono hr fun _ _ _ h ↦ ⟨h.fits, h.ratchet⟩)
    have hsymm : Std.Symm fun ev ev' : Event B ↦ ∀ sid pos pos', ev.SealedAt P sid pos →
        ev'.SealedAt P sid pos' → pos ≠ pos' :=
      ⟨fun _ _ h sid pos pos' hpos hpos' ↦ (h sid pos' pos hpos' hpos).symm⟩
    have hsame := Header.encode_injective (eq_of_start_eq hpre hpre' hstart
      (hd.length_encode.trans hd'.length_encode.symm))
    exact hahead.distinct.forall hev hev' heq sid _ _ hpos hpos' (by rw [hsame])

/-- The two sessions are **peers**: what the one accepts, the other has sent. This is what the AEAD is
for: nobody else seals under the keys of a session. -/
def Run.Peers (r : Run B) (sid : SessionId B) (r' : Run B) (sid' : SessionId B) : Prop :=
  ∀ ev ∈ r.log, ∀ header ct, ev.Accepts sid header ct → ∃ ev' ∈ r'.log, ev'.Sends sid' header ct

/-- Messages with one key in the cache start alike. -/
theorem start_eq_of_replayKey {sid sid' : SessionId B} {m m' : SealedMessage B}
    {conv conv' dev dev' : List B} (h : replayKey sid m conv dev = replayKey sid' m' conv' dev') :
    sid = sid' ∧ m.header ++ m.ciphertext.take 32 = m'.header ++ m'.ciphertext.take 32 := by
  have hmid := congrArg ReplayKey.messageId h
  simp only [replayKey, List.append_assoc] at hmid
  have hmid := (List.append_inj hmid rfl).2
  obtain ⟨hsid, hmid⟩ := List.append_inj hmid ((Block.length_val _).trans (Block.length_val _).symm)
  exact ⟨Subtype.ext hsid, hmid⟩

section Ideal

variable (hK : IdealKdf P) (hA : IdealAead P) (hO : OpensSealed P) (h1 : OneKey P)
include hK hA hO h1

omit hK h1 in
/-- **A message that the peer has sent** and that was not accepted yet is not refused as a replay. -/
theorem decrypt_ne_replay {r r' : Run B} (hr : (device P (Fresh P)).Reachable r)
    (hr' : (device P (Fresh P)).Reachable r') {sid sid' : SessionId B} (hpeers : r.Peers sid r' sid')
    {m : SealedMessage B} (hsent : ∃ ev' ∈ r'.log, ev'.Sends sid' m.header m.ciphertext)
    (hnot : ∀ ev ∈ r.log, ¬ ev.Accepts sid m.header m.ciphertext) (ad : List B) (d : Draws B) :
    (r.engine.decrypt P sid m ad d).1 ≠ .error .replay := by
  intro hreplay
  have hL : OpenLength P := hO.openLength hA
  obtain ⟨ev', hev', hsent⟩ := hsent
  obtain ⟨conv, hkey⟩ := Engine.decrypt_replay (device_idle hr) hreplay
  obtain ⟨ev, hev, sid₀, m₀, conv₀, hacc, heq⟩ :=
    (cached hL (reachable_mono hr fun _ _ _ h ↦ h.fits)).accepted _ hkey rfl
  obtain ⟨rfl, hstart⟩ := start_eq_of_replayKey heq
  -- the message in the cache came from the peer too, and starts like this one
  obtain ⟨ev₀, hev₀, hsent₀⟩ := hpeers ev hev _ _ hacc
  obtain ⟨hheader, hct⟩ := sends_eq_of_start hA hL hr' hev' hev₀ hsent hsent₀ hstart
  rw [← hheader, ← hct] at hacc
  exact hnot ev hev hacc

/-- **Messages are opened once, and no genuine one is taken for a replay.** In every run of a device
no session accepts a ciphertext twice, however many messages came in between; and a message that the
peer of a session has sent and the session has not accepted yet is not rejected as a replay. -/
theorem opened_once_and_no_false_replay {r : Run B} (hr : (device P (Fresh P)).Reachable r) :
    (r.log.Pairwise fun ev ev' ↦ ∀ sid header header' ct, ev.Accepts sid header ct →
      ¬ ev'.Accepts sid header' ct) ∧
    ∀ (r' : Run B) (sid sid' : SessionId B), (device P (Fresh P)).Reachable r' →
      r.Peers sid r' sid' → ∀ m : SealedMessage B,
      (∃ ev' ∈ r'.log, ev'.Sends sid' m.header m.ciphertext) →
      (∀ ev ∈ r.log, ¬ ev.Accepts sid m.header m.ciphertext) →
      ∀ (ad : List B) (d : Draws B), (r.engine.decrypt P sid m ad d).1 ≠ .error .replay := by
  have honce := once hK hO h1 (reachable_mono hr fun _ _ _ h ↦ h.toFreshSessions)
  refine ⟨honce.once.imp fun h sid header header' ct hacc ↦ h sid header' ct ⟨header, .inl hacc⟩, ?_⟩
  intro r' sid sid' hr' hpeers m hsent hnot ad d
  exact decrypt_ne_replay hA hO hr hr' hpeers hsent hnot ad d

end Ideal

/-! ### Two devices -/

theorem fresh_nil (e : Engine B) {c : Call B} (hc : c.Fits) (d : Draws B) : Fresh P ⟨e, []⟩ c d where
  toFreshSessions := freshSessions_nil e hc d
  ratchet := newRatchet_nil e c d
  nonce _ hev := absurd hev List.not_mem_nil

/-- Another draw of a value that differs is new as well. -/
theorem Fresh.extend {r : Run B} {c c' : Call B} {d d' : Draws B} (h : Fresh P r c d)
    (hsession : d'.sessionId ≠ d.sessionId) (hratchet : P.publicKey d'.ratchet ≠ P.publicKey d.ratchet)
    (hnonce : d'.headerNonce ≠ d.headerNonce) : Fresh P (r.extend P d' c') c d where
  fits := h.fits
  session := by
    rintro ⟨ev, hev, hsid⟩
    rcases List.mem_append.1 hev with hev | hev
    · exact h.session ⟨ev, hev, hsid⟩
    · cases List.mem_singleton.1 hev
      exact hsession hsid
  ratchet := h.ratchet.extend hratchet
  nonce ev hev := by
    rcases List.mem_append.1 hev with hev | hev
    · exact h.nonce ev hev
    · cases List.mem_singleton.1 hev
      exact hnonce

namespace Symbolic

/-- Device 1 opens a session with device 2, and seals another message. -/
noncomputable def sentTwo : Run Sym :=
  (Run.extend symbolic ⟨engine 1 .classicalV1, []⟩ (draws 1)
    (.establish (bundle (engine 2 .classicalV1)) [] [] [])).extend symbolic (draws 2)
      (.encrypt (draws 1).sessionId [] [])

theorem reachable_sentTwo : (device symbolic (Fresh symbolic)).Reachable sentTwo := by
  have hfits : (Call.encrypt (draws 1).sessionId [] [] : Call Sym).Fits := trivial
  have hnext := fresh_nil (P := symbolic) (engine 1 .classicalV1) hfits (draws 2)
  refine reachable_extend (reachable_extend (reachable_newDevice symbolic (Fresh symbolic)
    ⟨[], .classicalV1⟩ (deviceDraws 1)) (fresh_nil _ ?_ _)) (hnext.extend ?_ ?_ ?_)
  · show ([] : List Sym).length < 2 ^ 32
    decide
  · decide +kernel
  · decide +kernel
  · decide +kernel

/-- The answering device of the example draws new values. -/
theorem reachable_answered_fresh :
    (device symbolic (Fresh symbolic)).Reachable (answered .classicalV1) := by
  refine reachable_extend (reachable_newDevice symbolic (Fresh symbolic) ⟨[], .classicalV1⟩
    (deviceDraws 2)) (fresh_nil _ ?_ _)
  show ([] : List Sym).length < 2 ^ 32
  decide

/-- The message in a result, or an empty one. -/
def messageOf : Except CryptoError (Output Sym) → SealedMessage Sym
  | .ok (.sealed m) => m
  | _ => ⟨[], [], Block.zero 16⟩

/-- The second message of device 1. -/
noncomputable def second : SealedMessage Sym :=
  messageOf ((Run.extend symbolic ⟨engine 1 .classicalV1, []⟩ (draws 1)
    (.establish (bundle (engine 2 .classicalV1)) [] [] [])).engine.call symbolic (draws 2)
      (.encrypt (draws 1).sessionId [] [])).1

end Symbolic

/-- A successful `establish_outbound_session`, as a call. -/
theorem Engine.call_establish {e : Engine B} {bundle : PublicPrekeyBundle B} {conv pt ad : List B}
    {d : Draws B} {sid : SessionId B} {packet : InitiationPacket B}
    (h : (e.establishOutboundSession P bundle conv pt ad d).1 = .ok (sid, packet)) :
    (e.call P d (.establish bundle conv pt ad)).1 = .ok (.established sid packet) := by
  rw [call, report, h]
  rfl

theorem Run.sends_extend {r : Run B} {sid : SessionId B} {header ct : List B}
    (h : ∃ ev ∈ r.log, ev.Sends sid header ct) (d : Draws B) (c : Call B) :
    ∃ ev ∈ (r.extend P d c).log, ev.Sends sid header ct := by
  obtain ⟨ev, hev, hsends⟩ := h
  exact ⟨ev, List.mem_append_left _ hev, hsends⟩

theorem Run.sends_encrypt {r : Run B} {sid : SessionId B} {d : Draws B} {c : Call B}
    {m : SealedMessage B} (h : (r.engine.call P d c).1 = .ok (.sealed m)) (hsid : m.sessionHint = sid) :
    ∃ ev ∈ (r.extend P d c).log, ev.Sends sid m.header m.ciphertext :=
  ⟨_, List.mem_append_right _ (List.mem_singleton_self _), .inl ⟨m, h, hsid, rfl, rfl⟩⟩

theorem Run.sends_establish {r : Run B} {sid : SessionId B} {d : Draws B} {c : Call B}
    {packet : InitiationPacket B} (h : (r.engine.call P d c).1 = .ok (.established sid packet)) :
    ∃ ev ∈ (r.extend P d c).log, ev.Sends sid packet.firstMessage.header
      packet.firstMessage.ciphertext :=
  ⟨_, List.mem_append_right _ (List.mem_singleton_self _), .inr ⟨packet, h, rfl, rfl⟩⟩

namespace Symbolic

/-- The initiator of the example opens its session with the packet of the example. -/
theorem establish_packet : ((engine 1 .classicalV1).establishOutboundSession symbolic
    (bundle (engine 2 .classicalV1)) [] [] [] (draws 1)).1 =
      .ok ((draws 1).sessionId, packet .classicalV1) := by
  have hok : ((engine 1 .classicalV1).establishOutboundSession symbolic
      (bundle (engine 2 .classicalV1)) [] [] [] (draws 1)).1.map Prod.fst =
        .ok (draws 1).sessionId := by
    decide +kernel
  rw [packet]
  generalize ((engine 1 .classicalV1).establishOutboundSession symbolic
    (bundle (engine 2 .classicalV1)) [] [] [] (draws 1)).1 = out at hok ⊢
  cases out with
  | error err => cases hok
  | ok out =>
    rw [← Except.ok.inj hok]
    rfl

/-- What device 1 has sent. -/
theorem sentTwo_sends :
    (∃ ev ∈ sentTwo.log, ev.Sends (draws 1).sessionId (packet .classicalV1).firstMessage.header
      (packet .classicalV1).firstMessage.ciphertext) ∧
    ∃ ev ∈ sentTwo.log, ev.Sends (draws 1).sessionId second.header second.ciphertext := by
  have hsealed : ((Run.extend symbolic ⟨engine 1 .classicalV1, []⟩ (draws 1)
      (.establish (bundle (engine 2 .classicalV1)) [] [] [])).engine.call symbolic (draws 2)
        (.encrypt (draws 1).sessionId [] [])).1 = .ok (.sealed second) := by
    decide +kernel
  have hpacket : ((engine 1 .classicalV1).call symbolic (draws 1)
      (.establish (bundle (engine 2 .classicalV1)) [] [] [])).1 =
        .ok (.established (draws 1).sessionId (packet .classicalV1)) :=
    Engine.call_establish establish_packet
  have hhint : second.sessionHint = (draws 1).sessionId := by decide +kernel
  exact ⟨Run.sends_extend (Run.sends_establish (r := ⟨engine 1 .classicalV1, []⟩) hpacket) _ _,
    Run.sends_encrypt hsealed hhint⟩

end Symbolic

open Symbolic in
/-- Device 2 has accepted the first message of device 1, and does not take the second for it. -/
theorem no_false_replay_second :
    (∃ ev ∈ (answered .classicalV1).log, ev.Accepts (Symbolic.draws 3).sessionId
      (packet .classicalV1).firstMessage.header (packet .classicalV1).firstMessage.ciphertext) ∧
    ((answered .classicalV1).engine.decrypt symbolic (Symbolic.draws 3).sessionId second []
      (Symbolic.draws 4)).1 ≠ .error .replay := by
  have hother : second.header ≠ (packet .classicalV1).firstMessage.header := by decide +kernel
  have haccepted := (accepts_answered (Symbolic.draws 3).sessionId
    (packet .classicalV1).firstMessage.header
    (packet .classicalV1).firstMessage.ciphertext).2 ⟨rfl, rfl, rfl⟩
  refine ⟨haccepted, ?_⟩
  refine (opened_once_and_no_false_replay idealKdf idealAead opensSealed oneKey
    reachable_answered_fresh).2 sentTwo _ (Symbolic.draws 1).sessionId reachable_sentTwo ?_ second
    sentTwo_sends.2 ?_ [] (Symbolic.draws 4)
  · intro ev hev header ct hacc
    obtain ⟨-, hheader, hct⟩ := (accepts_answered _ _ _).1 ⟨ev, hev, hacc⟩
    rw [hheader, hct]
    exact sentTwo_sends.1
  · intro ev hev hacc
    exact hother ((accepts_answered _ _ _).1 ⟨ev, hev, hacc⟩).2.1

end VoiceChatCrypto
