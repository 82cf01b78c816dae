import VoiceChatCrypto.Engine.PrekeyUse
import VoiceChatCrypto.Engine.Slots

/-!
# Crash reload is invisible

In every engine that a run reaches, storage mirrors memory: a device blob is missing or current, and
each slot holds the same session in both places. A reload then puts back what was there. Identity
trackers and the trust store are not part of the mirror: the tracker of a session is rebuilt from
whatever trust store is stored.

Two calls would break the mirror and are excluded by what a run may assume. A replenish that stops in
the middle has changed the store without committing it. A handshake that fails after its session was
inserted restores the map only if the session id was new.
-/

open Alphabet

namespace VoiceChatCrypto

variable {B : Type} [Alphabet B] {P : Primitives B}

/-- What is stored of a session depends on its core only. -/
theorem LiveSession.encode_eq_of_core_eq {s t : LiveSession B} (h : s.core = t.core)
    (σ : Enumeration) (sid : SessionId B) : s.encode σ sid = t.encode σ sid := by
  show s.core.encode σ sid = t.core.encode σ sid
  rw [h]

namespace ReplayCache

/-- A cache that can be stored and read back: valid, with keys whose strings fit their lengths. -/
structure Sound (c : ReplayCache B) : Prop where
  /-- The set is the queue, and the queue fits. -/
  valid : c.Valid
  /-- Its keys fit their length prefixes. -/
  fits : ∀ k ∈ c.order, KeyFits k

/-- Inserting a key that fits keeps a cache storable. -/
theorem Sound.checkAndInsert {c : ReplayCache B} (hc : c.Sound) {key : ReplayKey B}
    (hkey : KeyFits key) (h : c.contains key = false) : (c.checkAndInsert key).2.Sound := by
  obtain ⟨-, hvalid, -, hmem⟩ := hc.valid.checkAndInsert h
  refine ⟨hvalid, fun k hk ↦ ?_⟩
  rcases hmem k hk with rfl | hold
  · exact hkey
  · exact hc.fits k hold

end ReplayCache

namespace Engine

variable {e e' : Engine B} {d : Draws B} {c : Call B}

/-! ### The mirror -/

/-- The device blobs are missing or current, and could be stored again. Missing ones are not read,
and the reload keeps what is in memory. -/
structure DeviceMirror (e : Engine B) : Prop where
  /-- The identity key is stored as it is, or not at all. -/
  identity : e.storage.committed.lookup keyIdentity = none ∨
    e.storage.committed.lookup keyIdentity = some e.identity.serialize
  /-- The prekeys are stored as they are, in some order, or not at all. -/
  prekeys : e.storage.committed.lookup keyPrekeys = none ∨
    ∃ σ, e.storage.committed.lookup keyPrekeys = some (e.prekeys.serialize σ)
  /-- The replay cache is stored as it is, or not at all. -/
  replay : e.storage.committed.lookup keyReplay = none ∨
    e.storage.committed.lookup keyReplay = some e.replay.serialize
  /-- The prekeys can be read back. -/
  valid : e.prekeys.Valid
  /-- The replay cache can be read back. -/
  sound : e.replay.Sound

/-- A slot holds the same session in both places, or none in either. The sessions are compared by
their cores, which leave the identity tracker out. -/
def SlotMirror (sid : SessionId B) (mem : Option (LiveSession B)) (blob : Option (List B)) : Prop :=
  (mem = none ∧ blob = none) ∨
    ∃ (σ : Enumeration) (s : LiveSession B), mem = some s ∧ blob = some (s.encode σ sid)

/-- **Storage mirrors memory**: reading everything back would change nothing but identity trackers.
-/
structure Mirror (e : Engine B) : Prop where
  /-- Each session is stored under its own id. -/
  layout : e.Layout
  /-- The device blobs are current. -/
  device : e.DeviceMirror
  /-- What is stored under each session id is the session in memory. -/
  slots : ∀ sid, SlotMirror sid (e.sessions.lookup sid) (e.blob sid)

/-- What a run may assume of a call: conversations and ids fit their 32-bit lengths, drawn session
ids are new, and replenishing succeeds. -/
structure Regular (P : Primitives B) (r : Run B) (c : Call B) (d : Draws B) : Prop where
  /-- The conversation fits its 32-bit length. -/
  fits : c.Fits
  /-- The name of the device fits its length prefix. -/
  deviceId : r.engine.deviceId.length < 2 ^ 32
  /-- The message id in the replay key of a packet fits its length prefix. -/
  inbound : ∀ m conv ad, c = .processInbound m conv ad →
    (replayKey d.sessionId m.firstMessage conv r.engine.deviceId).messageId.length < 2 ^ 32
  /-- So does that of a later message. -/
  message : ∀ sid m ad, c = .decrypt sid m ad →
    (replayKey sid m [] r.engine.deviceId).messageId.length < 2 ^ 32
  /-- The drawn session id is not in use. -/
  fresh : r.engine.sessions.lookup d.sessionId = none
  /-- There are ids left for all prekeys that a bundle asks for. -/
  replenish : ∀ n, c = .generateBundle n → ∃ out, (r.engine.call P d c).1 = .ok out

/-! ### Slots -/

/-- **A slot keeps its mirror**, if drawn ids are new and sealing does not fail. -/
theorem SlotStep.mirror (hseal : SealTotal P) {sid : SessionId B} {mem : Option (LiveSession B)}
    {blob' : Option (List B)} (h : SlotStep P d e c sid mem blob')
    (hfresh : e.sessions.lookup d.sessionId = none)
    (hold : SlotMirror sid (e.sessions.lookup sid) (e.blob sid)) : SlotMirror sid mem blob' := by
  cases h with
  | kept mem h =>
    rcases hold with ⟨hnone, hblob⟩ | ⟨σ, s, hsome, hblob⟩
    · rw [hnone, Option.map_none, Option.map_eq_none_iff] at h
      exact .inl ⟨h, hblob⟩
    · rw [hsome, Option.map_some] at h
      obtain ⟨s', rfl, hcore⟩ := Option.map_eq_some_iff.1 h
      exact .inr ⟨σ, s', rfl, by rw [hblob, LiveSession.encode_eq_of_core_eq hcore]⟩
  | written σ s hmade => exact .inr ⟨σ, s, rfl, rfl⟩
  | unsent bundle conv pt ad i r err hsid hc hi henc =>
    -- a fresh ratchet seals its first message
    obtain ⟨-, -, -, hratchet⟩ := initiate_eq_ok hi
    obtain ⟨out, r', hok⟩ := initAliceRatchet_encrypt hseal hratchet d pt
      ((e.outboundSession bundle conv i r).boundAd ad)
    rw [hok] at henc
    cases henc
  | closed hsid =>
    subst hsid
    rcases hold with ⟨-, hblob⟩ | ⟨σ, s, hsome, -⟩
    · exact .inl ⟨rfl, hblob⟩
    · rw [hfresh] at hsome
      cases hsome
  | erased => exact .inl ⟨rfl, rfl⟩
  | restored mem h =>
    rcases h with hnone | ⟨σ, s, s', rfl, hcore, -, hblob⟩
    · exact .inl hnone
    · exact .inr ⟨σ, s', rfl, by rw [hblob, LiveSession.encode_eq_of_core_eq hcore]⟩

/-! ### Device blobs -/

/-- An engine with the same device state in memory and in storage is in the same position. -/
theorem DeviceMirror.of_eq (h : e.DeviceMirror) (hidentity : e'.identity = e.identity)
    (hprekeys : e'.prekeys = e.prekeys) (hreplay : e'.replay = e.replay)
    (hstored : ∀ k ∈ [keyIdentity, keyPrekeys, keyReplay, keyTrust],
      e'.storage.committed.lookup k = e.storage.committed.lookup k) : e'.DeviceMirror where
  identity := by
    rw [hstored _ (by simp), hidentity]
    exact h.identity
  prekeys := by
    rw [hstored _ (by simp), hprekeys]
    exact h.prekeys
  replay := by
    rw [hstored _ (by simp), hreplay]
    exact h.replay
  valid := hprekeys ▸ h.valid
  sound := hreplay ▸ h.sound

/-- After a commit of the device the blobs are current. -/
theorem DeviceMirror.commitDevice (hvalid : e.prekeys.Valid) (hsound : e.replay.Sound)
    (σ : Enumeration) : (e.commitDevice σ).DeviceMirror := by
  obtain ⟨hidentity, hprekeys, hreplay, -⟩ := deviceBlobs_commitDevice e σ
  exact ⟨.inr hidentity, .inr ⟨σ, hprekeys⟩, .inr hreplay, hvalid, hsound⟩

theorem DeviceMirror.commitHandshake (hvalid : e.prekeys.Valid) (hsound : e.replay.Sound)
    (σ : Enumeration) (sid : SessionId B) (s : LiveSession B) :
    (e.commitHandshake σ sid s).DeviceMirror := by
  obtain ⟨hidentity, hprekeys, hreplay, -⟩ := deviceBlobs_commitHandshake e σ sid s
  exact ⟨.inr hidentity, .inr ⟨σ, hprekeys⟩, .inr hreplay, hvalid, hsound⟩

/-- A session transaction writes the replay cache; the rest of the device is as before. -/
theorem DeviceMirror.commitSession {f : Engine B} (h : e.DeviceMirror) (hidentity : f.identity = e.identity)
    (hprekeys : f.prekeys = e.prekeys) (hstorage : f.storage = e.storage)
    (hsound : f.replay.Sound) (σ : Enumeration) (sid : SessionId B) (s : LiveSession B) :
    (f.commitSession σ sid s).DeviceMirror := by
  obtain ⟨hid, hpre, hrep, -⟩ := deviceBlobs_commitSession f σ sid s
  rw [hstorage] at hid hpre
  refine ⟨?_, ?_, .inr hrep, ?_, hsound⟩
  · rw [hid]
    show _ ∨ _ = some f.identity.serialize
    rw [hidentity]
    exact h.identity
  · rw [hpre]
    show _ ∨ ∃ τ, _ = some (f.prekeys.serialize τ)
    rw [hprekeys]
    exact h.prekeys
  · show f.prekeys.Valid
    rw [hprekeys]
    exact h.valid

/-- What a reload puts in place of a mirrored value is the value. -/
theorem Reloaded.eq_old {α : Type} {key : List B} {decode : List B → Except PrimitiveError α}
    {old new : α} (h : e.Reloaded key decode old new)
    (hmirror : e.storage.committed.lookup key = none ∨
      ∃ v, e.storage.committed.lookup key = some v ∧ decode v = .ok old) : new = old := by
  rcases h with ⟨-, rfl⟩ | ⟨v, hv, hdec⟩
  · rfl
  · rcases hmirror with hnone | ⟨v', hv', hdec'⟩
    · rw [hnone] at hv
      cases hv
    · rw [hv] at hv'
      cases hv'
      rw [hdec] at hdec'
      exact Except.ok.inj hdec'

/-- The stored identity key decodes to the one in use. -/
theorem DeviceMirror.identity_decodes (h : e.DeviceMirror) :
    e.storage.committed.lookup keyIdentity = none ∨ ∃ v,
      e.storage.committed.lookup keyIdentity = some v ∧
        IdentityKeyPair.deserialize v = .ok e.identity :=
  h.identity.imp_right fun hv ↦ ⟨_, hv, IdentityKeyPair.deserialize_serialize _⟩

theorem DeviceMirror.prekeys_decodes (h : e.DeviceMirror) :
    e.storage.committed.lookup keyPrekeys = none ∨ ∃ v,
      e.storage.committed.lookup keyPrekeys = some v ∧
        PrekeyStore.deserialize v = .ok e.prekeys :=
  h.prekeys.imp_right fun ⟨σ, hv⟩ ↦ ⟨_, hv, PrekeyStore.deserialize_serialize h.valid σ⟩

/-- The replay cache that a reload finds is the one in memory. -/
theorem DeviceMirror.reloadAux_replay (h : e.DeviceMirror) : e.reloadAux.replay = e.replay := by
  unfold reloadAux
  rcases h.replay with hnone | hsome
  · rw [hnone]
  · rw [hsome]
    dsimp only
    rw [ReplayCache.deserialize_serialize h.sound.valid h.sound.fits]
    rfl

/-- A reload finds the identity and the prekeys that are in memory. -/
theorem DeviceMirror.reload (h : e.DeviceMirror) {identity : IdentityKeyPair B}
    {prekeys : PrekeyStore B}
    (hi : identity = e.identity ∨
      e.Reloaded keyIdentity IdentityKeyPair.deserialize e.identity identity)
    (hp : prekeys = e.prekeys ∨
      e.Reloaded keyPrekeys PrekeyStore.deserialize e.prekeys prekeys) :
    identity = e.identity ∧ prekeys = e.prekeys :=
  ⟨hi.elim id fun hi ↦ hi.eq_old h.identity_decodes,
    hp.elim id fun hp ↦ hp.eq_old h.prekeys_decodes⟩

/-! ### One call -/

theorem keyFits_replayKey {sid : SessionId B} {m : SealedMessage B} {conv dev : List B}
    (hconv : conv.length < 2 ^ 32) (hdev : dev.length < 2 ^ 32)
    (hid : (replayKey sid m conv dev).messageId.length < 2 ^ 32) :
    ReplayCache.KeyFits (replayKey sid m conv dev) :=
  ⟨hconv, hdev, hid⟩

/-- **The device blobs keep their mirror.** -/
theorem Effect.deviceMirror {r : Run B} (h : Effect P d r.engine c (r.engine.call P d c).1 e')
    (hreg : Regular P r c d) (hm : r.engine.Mirror) : e'.DeviceMirror := by
  have hdev := hm.device
  generalize hout : (r.engine.call P d c).1 = out at h
  generalize hengine : r.engine = e at h hm hdev
  have hdeviceId := hengine ▸ hreg.deviceId
  cases h with
  | refused c err => exact hdev
  | replenishStopped n err prekeys h =>
    obtain ⟨out, hok⟩ := hreg.replenish n rfl
    rw [hok] at hout
    cases hout
  | replenished n prekeys h =>
    have hgrows := PrekeyStore.replenish_grows P e.identity d.prekeys n n hdev.valid
    rw [h] at hgrows
    exact .commitDevice (e := { e with prekeys }) hgrows.1 hdev.sound _
  | establishStopped bundle conv pt ad i ratchet err hi henc =>
    exact hdev.of_eq rfl rfl rfl fun _ _ ↦ rfl
  | established bundle conv pt ad i ratchet r' header ct hi henc =>
    exact hdev.commitSession (f := (e.openSession d.sessionId ratchet bundle.identityKey conv
      i.shared.ad).withRatchet d.sessionId (e.outboundSession bundle conv i ratchet) r')
      rfl rfl rfl hdev.sound _ _ _
  | processClosed m conv ad shared ratchet err hans => exact hdev.of_eq rfl rfl rfl fun _ _ ↦ rfl
  | processed m conv ad pt shared ratchet r' hans hreplay hdec =>
    have hid := hreg.inbound m conv ad rfl
    rw [hengine] at hid
    have hkey := keyFits_replayKey hreg.fits hdeviceId hid
    exact .commitHandshake (e := e.answered m d.sessionId (e.inboundSession m conv shared ratchet) r')
      (consumedBy_extends hdev.valid m).1 (hdev.sound.checkAndInsert hkey hreplay) _ _ _
  | sealed c sid pt ad s ratchet header ct hc hs henc =>
    exact hdev.commitSession (f := e.withRatchet sid s ratchet) rfl rfl rfl hdev.sound _ _ _
  | opened sid m ad pt s ratchet hs hreplay hdec =>
    have hid := hreg.message sid m ad rfl
    rw [hengine] at hid
    have hkey := keyFits_replayKey (hm.layout.live sid s hs).conversation hdeviceId hid
    exact hdev.commitSession (f := e.received sid s ratchet m) rfl rfl rfl
      (hdev.sound.checkAndInsert hkey hreplay) _ _ _
  | acknowledged remote dev =>
    exact .commitDevice (e := e.acknowledged ⟨remote, dev⟩) hdev.valid hdev.sound _
  | forgot sid =>
    exact hdev.of_eq rfl rfl rfl fun k hk ↦ Finmap.lookup_erase_ne (deviceKey_ne_sid sid hk)
  | cleared => exact ⟨.inl rfl, .inl rfl, .inl rfl, hdev.valid, hdev.sound⟩
  | reloadStopped err identity prekeys hi hp =>
    obtain ⟨rfl, rfl⟩ := hdev.reload hi hp
    exact hdev
  | reloaded identity prekeys sessions hi hp hs =>
    obtain ⟨rfl, rfl⟩ := hdev.reload (.inr hi) (.inr hp)
    have hsessions : ({ e with sessions } : Engine B).DeviceMirror :=
      hdev.of_eq rfl rfl rfl fun _ _ ↦ rfl
    exact hsessions.of_eq rfl rfl hsessions.reloadAux_replay fun _ _ ↦ rfl

/-- **Storage mirrors memory in every state a run reaches.** -/
theorem mirror (hseal : SealTotal P) {r : Run B} (hr : (device P (Regular P)).Reachable r) :
    r.engine.Mirror := by
  refine System.Reachable.invariant (I := fun r ↦ r.engine.Mirror) ?_ ?_ hr
  · intro s hs
    obtain ⟨config, d, rfl⟩ := eq_newDevice_of_start hs
    have hvalid := PrekeyStore.new_valid P ⟨d.identity⟩ d.signedPrekey d.signedNonce d.lastResort
      d.lastResortNonce
    have hsound : (ReplayCache.new 4096 : ReplayCache B).Sound :=
      ⟨ReplayCache.new_valid (by decide) (by decide), fun k hk ↦ by cases hk⟩
    refine ⟨newDevice_layout P config d,
      .commitDevice (e := blank P config d) hvalid hsound d.order, fun sid ↦ .inl ⟨rfl, ?_⟩⟩
    exact blob_commitDevice sid
  · rintro s t hreach hm ⟨c, d, hreg, rfl⟩
    have heffect := call_effect (P := P) (device_idle hreach) d c
    exact ⟨heffect.layout hreg.fits hm.layout, heffect.deviceMirror hreg hm,
      fun sid ↦ (heffect.slot hm.layout sid).mirror hseal hreg.fresh (hm.slots sid)⟩

/-- A reload of a mirrored engine finds every part. -/
theorem Mirror.simulateCrashReload (h : e.Mirror) (d : Draws B) :
    ∃ sessions, e.simulateCrashReload d =
        (.ok (), ({ e with sessions } : Engine B).reloadAux) ∧
      ∀ sid, e.Restored sid (sessions.lookup sid) := by
  obtain ⟨sessions, hfold, hslots⟩ := h.layout.reload d.order
  exact ⟨sessions, simulateCrashReload_eq (h.device.identity_decodes.imp_left (⟨·, rfl⟩))
    (h.device.prekeys_decodes.imp_left (⟨·, rfl⟩)) hfold, hslots⟩

/-- **Crash reload is invisible.** In every reachable state a reload succeeds and leaves the identity,
the prekeys and the replay cache as they are, and every session with its ratchet, remote identity,
conversation and handshake data. -/
theorem crash_reload_invisible (hseal : SealTotal P) {r : Run B}
    (hr : (device P (Regular P)).Reachable r) (d : Draws B) :
    (r.engine.call P d .crashReload).1 = .ok .done ∧
    (r.engine.call P d .crashReload).2.identity = r.engine.identity ∧
    (r.engine.call P d .crashReload).2.prekeys = r.engine.prekeys ∧
    (r.engine.call P d .crashReload).2.replay = r.engine.replay ∧
    ∀ sid, ((r.engine.call P d .crashReload).2.sessions.lookup sid).map LiveSession.core =
      (r.engine.sessions.lookup sid).map LiveSession.core := by
  have hm := mirror hseal hr
  obtain ⟨sessions, heq, hslots⟩ := hm.simulateCrashReload d
  have hcall : r.engine.call P d .crashReload =
      (.ok .done, ({ r.engine with sessions } : Engine B).reloadAux) := by
    rw [call, heq]
    rfl
  have hdevice : ({ r.engine with sessions } : Engine B).DeviceMirror :=
    hm.device.of_eq rfl rfl rfl fun _ _ ↦ rfl
  rw [hcall]
  refine ⟨rfl, rfl, rfl, hdevice.reloadAux_replay, fun sid ↦ ?_⟩
  show ((sessions.mapValues _).lookup sid).map LiveSession.core = _
  rw [Dict.lookup_mapValues]
  -- both the restored and the live session are the stored one
  rcases hslots sid, hm.slots sid with
    ⟨⟨hnone, hblob⟩ | ⟨σ, s, s', hsome, hcore, hs, hblob⟩,
      ⟨hnone', hblob'⟩ | ⟨τ, t, hsome', hblob'⟩⟩
  · rw [hnone, hnone']
    rfl
  · rw [hblob] at hblob'
    cases hblob'
  · rw [hblob] at hblob'
    cases hblob'
  · rw [hblob] at hblob'
    have ht := hm.layout.live sid t hsome'
    rw [hsome, hsome', Option.map_some, Option.map_some, Option.map_some,
      ← LiveSession.core_eq_of_encode_eq hs ht (Option.some.inj hblob'), ← hcore]
    rfl

/-- Processing a packet is a regular call when the lengths fit and the session id is new. -/
theorem regular_processInbound {m : InitiationPacket B} {conv ad : List B}
    (hconv : conv.length < 2 ^ 32) (hdev : e.deviceId.length < 2 ^ 32)
    (hid : (replayKey d.sessionId m.firstMessage conv e.deviceId).messageId.length < 2 ^ 32)
    (hfresh : e.sessions.lookup d.sessionId = none) :
    Regular P ⟨e, []⟩ (.processInbound m conv ad) d where
  fits := hconv
  deviceId := hdev
  inbound m' conv' ad' heq := by
    cases heq
    exact hid
  message _ _ _ heq := by cases heq
  fresh := hfresh
  replenish _ heq := by cases heq

end Engine

/-- Device 2 after it has received the packet of device 1. -/
noncomputable def Symbolic.answered (profile : CryptoProfile) : Run Sym :=
  Run.extend symbolic ⟨Symbolic.engine 2 profile, []⟩ (Symbolic.draws 3)
    (.processInbound (Symbolic.packet profile) [] [])

theorem Symbolic.reachable_answered (profile : CryptoProfile) :
    (device symbolic (Engine.Regular symbolic)).Reachable (Symbolic.answered profile) := by
  have hid : (replayKey (Symbolic.draws 3).sessionId (Symbolic.packet profile).firstMessage []
      (Symbolic.engine 2 profile).deviceId).messageId.length < 2 ^ 32 := by
    cases profile <;> decide +kernel
  exact reachable_extend
    (reachable_newDevice symbolic (Engine.Regular symbolic) ⟨[], profile⟩ (Symbolic.deviceDraws 2))
    (Engine.regular_processInbound (by decide) (show 0 < 2 ^ 32 by decide) hid
      (Finmap.lookup_empty _))

namespace Engine

open Symbolic in
/-- A device that has accepted a packet reloads into what it was. -/
theorem crash_reload_invisible_packet :
    ((Symbolic.engine 2 .hybridPqV1).call symbolic (Symbolic.draws 3)
      (.processInbound (packet .hybridPqV1) [] [])).1 = .ok (.processed (secretOf 15 136) []) ∧
    ((Symbolic.answered .hybridPqV1).engine.call symbolic (Symbolic.draws 4) .crashReload).1 =
      .ok .done := by
  have hrun := Symbolic.reachable_answered .hybridPqV1
  exact ⟨by decide +kernel, (crash_reload_invisible Symbolic.sealTotal hrun (Symbolic.draws 4)).1⟩

end Engine

end VoiceChatCrypto
