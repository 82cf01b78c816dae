import VoiceChatCrypto.Session.Steps
import VoiceChatCrypto.Session.Sesame

/-!
# The sessions a call of Sesame may use

`send` and `receive_all` prepare a session before they encrypt, and decrypt in the ones they find. A
session they use is one that the manager had with the device before, or one made under the id that was
drawn for the device: `SessionManager.Within` says so of every step they take.
-/

open Alphabet

namespace VoiceChatCrypto

variable {B : Type} [Alphabet B]

/-! ### Device records -/

/-- The ids of the sessions of a device record, active and inactive. -/
def DeviceRecord.sessionIds (dev : DeviceRecord B) : List (Block B 16) :=
  (dev.active.toList ++ dev.inactive).map (·.id)

/-- The session ids of a device are those of its active and its inactive sessions. -/
theorem DeviceRecord.mem_sessionIds {dev : DeviceRecord B} {sid : Block B 16} :
    sid ∈ dev.sessionIds ↔
      (∃ a, dev.active = some a ∧ a.id = sid) ∨ ∃ s ∈ dev.inactive, s.id = sid := by
  simp only [sessionIds, List.map_append, List.mem_append, List.mem_map, Option.mem_toList]

/-- Making a session active makes no session. -/
theorem DeviceRecord.sessionIds_activate {dev dev' : DeviceRecord B} {sid : Block B 16}
    (h : dev.activate sid = .ok dev') : dev'.sessionIds ⊆ dev.sessionIds := by
  intro x hx
  unfold activate at h
  split at h
  · cases h
    exact hx
  · split at h
    · cases h
    · rename_i s hs
      cases h
      have hmem : s ∈ dev.inactive := List.mem_of_find?_eq_some hs
      rcases mem_sessionIds.1 hx with ⟨a, ha, rfl⟩ | ⟨s', hs', rfl⟩
      · cases ha
        exact mem_sessionIds.2 (.inr ⟨s, hmem, rfl⟩)
      · have hs' := List.mem_of_mem_take hs'
        split at hs'
        · rename_i old hold
          rcases List.mem_cons.1 hs' with rfl | hs'
          · exact mem_sessionIds.2 (.inl ⟨old, hold, rfl⟩)
          · exact mem_sessionIds.2 (.inr ⟨s', List.mem_of_mem_eraseIdx hs', rfl⟩)
        · exact mem_sessionIds.2 (.inr ⟨s', List.mem_of_mem_eraseIdx hs', rfl⟩)

/-- Nor does decrypting in one. -/
theorem DeviceRecord.sessionIds_pick {dev : DeviceRecord B} {sid : Block B 16} {s : SessionRecord B}
    {put : SessionRecord B → DeviceRecord B} (h : dev.pick sid = some (s, put))
    (ratchet : DoubleRatchetState B) : (put { s with ratchet }).sessionIds ⊆ dev.sessionIds := by
  have hactive {p : SessionRecord B × (SessionRecord B → DeviceRecord B)}
      (hp : (dev.active.map fun a ↦ (a, fun a ↦ { dev with active := some a })) = some p) :
      (p.2 { p.1 with ratchet }).sessionIds ⊆ dev.sessionIds := by
    obtain ⟨a, ha, rfl⟩ := Option.map_eq_some_iff.1 hp
    intro x hx
    rcases mem_sessionIds.1 hx with ⟨a', ha', rfl⟩ | hx
    · cases ha'
      exact mem_sessionIds.2 (.inl ⟨a, ha, rfl⟩)
    · exact mem_sessionIds.2 (.inr hx)
  unfold pick at h
  dsimp only at h
  split at h
  · exact hactive h
  · split at h
    · rename_i s' hs'
      cases h
      intro x hx
      rcases mem_sessionIds.1 hx with hx | ⟨s'', hs'', rfl⟩
      · exact mem_sessionIds.2 (.inl hx)
      · rcases List.mem_or_eq_of_mem_set hs'' with hs'' | rfl
        · exact mem_sessionIds.2 (.inr ⟨s'', hs'', rfl⟩)
        · exact mem_sessionIds.2 (.inr ⟨s, List.mem_of_find?_eq_some hs', rfl⟩)
    · exact hactive h

/-! ### The manager -/

namespace SessionManager

variable {m m' : SessionManager B} {user device : List B}
  {drawn : List ((List B × List B) × Block B 16)}

/-- The ids of the sessions with a device. -/
def sessionIds (user device : List B) (m : SessionManager B) : List (Block B 16) :=
  (m.device? user device).elim [] DeviceRecord.sessionIds

theorem mem_sessionIds {dev : DeviceRecord B} {a : SessionRecord B}
    (hdev : m.device? user device = some dev) (ha : dev.active = some a) :
    a.id ∈ m.sessionIds user device := by
  rw [sessionIds, hdev]
  exact DeviceRecord.mem_sessionIds.2 (.inl ⟨a, ha, rfl⟩)

/-- A session with a device that a call may use: one that the manager has, or one that is drawn. -/
def MayUse (drawn : List ((List B × List B) × Block B 16)) (m : SessionManager B)
    (user device : List B) (sid : Block B 16) : Prop :=
  sid ∈ m.sessionIds user device ∨ ((user, device), sid) ∈ drawn

/-- A manager has no sessions but those of another one and those that are drawn. -/
def Within (drawn : List ((List B × List B) × Block B 16)) (m m' : SessionManager B) : Prop :=
  ∀ user device sid, sid ∈ m'.sessionIds user device → m.MayUse drawn user device sid

theorem Within.refl (m : SessionManager B) : Within drawn m m := fun _ _ _ h ↦ .inl h

/-- What may be used afterwards could be used before. -/
theorem Within.mayUse (h : Within drawn m m') {sid : Block B 16}
    (hsid : m'.MayUse drawn user device sid) : m.MayUse drawn user device sid :=
  hsid.elim (h user device sid) .inr

/-- Sessions that come from draws in two stages come from draws. -/
theorem Within.trans {m'' : SessionManager B} (h : Within drawn m m') (h' : Within drawn m' m'') :
    Within drawn m m'' := by
  intro user device sid hsid
  exact h.mayUse (h' user device sid hsid)

theorem Opened.within (h : Opened m m') : Within drawn m m' := by
  intro user device sid hsid
  rcases h.device? user device with hsame | ⟨-, dev, hdev, hactive, hinactive⟩
  · rw [sessionIds, hsame] at hsid
    exact .inl hsid
  · rw [sessionIds, hdev, Option.elim_some, DeviceRecord.sessionIds, hactive, hinactive] at hsid
    cases hsid

/-- A rewritten record brings the sessions it had, and drawn ones. -/
theorem Rewrites.within {dev dev' : DeviceRecord B} (h : Rewrites user device dev dev' m m')
    (hids : ∀ sid ∈ dev'.sessionIds, sid ∈ dev.sessionIds ∨ ((user, device), sid) ∈ drawn) :
    Within drawn m m' := by
  intro user' device' sid hsid
  have hdev : m.device? user device = some dev := h.choose_spec.2.1
  rw [sessionIds, h.device?_eq] at hsid
  split at hsid
  · rename_i heq
    obtain ⟨rfl, rfl⟩ := heq
    rw [MayUse, sessionIds, hdev]
    exact hids sid hsid
  · exact .inl hsid

theorem Rewrites.mem_sessionIds {dev dev' : DeviceRecord B} {a : SessionRecord B}
    (h : Rewrites user device dev dev' m m') (ha : dev'.active = some a) :
    a.id ∈ m'.sessionIds user device :=
  SessionManager.mem_sessionIds (by rw [h.device?_eq, if_pos ⟨rfl, rfl⟩]) ha

/-- **`prepare_outbound` makes at most the session it draws an id for.** -/
theorem prepareOutbound_within (P : Primitives B) (m : SessionManager B) (user device : List B)
    (identity : IdentityMaterial B) (sk dh : Block B 32) (now : UInt64) (dhs : Block B 32)
    (id : Block B 16) (hdrawn : ((user, device), id) ∈ drawn) :
    Within drawn m (m.prepareOutbound P user device identity sk dh now dhs id).2 := by
  obtain ⟨hopened, hok⟩ := openGate_opened m user device identity
  unfold prepareOutbound
  generalize m.openGate user device identity = gate at hopened hok
  obtain ⟨res, m₁⟩ := gate
  cases res with
  | error err => exact hopened.within
  | ok out =>
    obtain ⟨u, dev⟩ := out
    obtain ⟨hu, hdev⟩ := hok u dev rfl
    dsimp only at hopened hu hdev ⊢
    split
    · exact hopened.within
    · split
      · exact hopened.within
      · refine hopened.within.trans (Rewrites.within ⟨u, hu, hdev, rfl⟩ fun sid hsid ↦ ?_)
        rcases DeviceRecord.mem_sessionIds.1 hsid with ⟨a, ha, rfl⟩ | ⟨s, hs, rfl⟩
        · cases ha
          exact .inr hdrawn
        · refine .inl (DeviceRecord.mem_sessionIds.2 (.inr ⟨s, ?_, rfl⟩))
          dsimp only at hs
          split at hs
          · exact List.mem_of_mem_dropLast hs
          · exact hs

/-- The session that `prepare_outbound` returns is one of the device. -/
theorem prepareOutbound_mem (P : Primitives B) (m : SessionManager B) (user device : List B)
    (identity : IdentityMaterial B) (sk dh : Block B 32) (now : UInt64) (dhs : Block B 32)
    (id sid : Block B 16)
    (h : (m.prepareOutbound P user device identity sk dh now dhs id).1 = .ok sid) :
    sid ∈ (m.prepareOutbound P user device identity sk dh now dhs id).2.sessionIds user device := by
  obtain ⟨hsome, hnone⟩ := prepareOutbound_cases P m user device identity sk dh now dhs id
  cases hstanding : m.standing keptOutbound user device identity with
  | some a =>
    rw [hsome a hstanding] at h ⊢
    cases h
    obtain ⟨u, dev, hu, hdev, -, hactive, -⟩ := standing_eq_some hstanding
    exact mem_sessionIds (device?_eq_some.2 ⟨u, hu, hdev⟩) hactive
  | none =>
    rcases hnone hstanding with ⟨⟨err, herr⟩, -⟩ | ⟨hid, -, record, rfl, -, hcreates⟩
    · rw [herr] at h
      cases h
    · rw [hid] at h
      cases h
      obtain ⟨m₁, dev, dev', -, -, hactive, -, hrewrites⟩ := hcreates.rewrites
      exact hrewrites.mem_sessionIds hactive

theorem encryptActive_within (P : Primitives B) (m : SessionManager B) (user device pt : List B) :
    Within drawn m (m.encryptActive P user device pt).2 := by
  unfold encryptActive
  cases hdev : m.findDevice user device with
  | error err => exact .refl m
  | ok out =>
    obtain ⟨u, dev⟩ := out
    dsimp only
    cases hactive : dev.active with
    | none => exact .refl m
    | some a =>
      refine (Rewrites.of_findDevice hdev rfl).within fun sid hsid ↦ .inl ?_
      rcases DeviceRecord.mem_sessionIds.1 hsid with ⟨a', ha', rfl⟩ | hs
      · cases ha'
        exact DeviceRecord.mem_sessionIds.2 (.inl ⟨a, hactive, rfl⟩)
      · exact DeviceRecord.mem_sessionIds.2 (.inr hs)

theorem tryDecrypt_within (P : Primitives B) (fresh : Block B 32) (m : SessionManager B)
    (user device : List B) (sid : Block B 16) (header : Header B) (ct : List B) :
    Within drawn m (m.tryDecrypt P fresh user device sid header ct).2 := by
  unfold tryDecrypt
  cases hdev : m.findDevice user device with
  | error err => exact .refl m
  | ok out =>
    obtain ⟨u, dev⟩ := out
    dsimp only
    cases hpick : dev.pick sid with
    | none => exact .refl m
    | some p =>
      refine (Rewrites.of_findDevice hdev rfl).within fun x hx ↦ .inl ?_
      exact DeviceRecord.sessionIds_pick hpick _ hx

theorem receiveOnSession_within (m : SessionManager B) (user device : List B) (sid : Block B 16) :
    Within drawn m (m.receiveOnSession user device sid).2 := by
  unfold receiveOnSession
  cases hdev : m.findDevice user device with
  | error err => exact .refl m
  | ok out =>
    obtain ⟨u, dev⟩ := out
    dsimp only
    split
    · cases hactivate : dev.activate sid with
      | error err => exact .refl m
      | ok dev' =>
        refine (Rewrites.of_findDevice hdev rfl).within fun x hx ↦ .inl ?_
        exact DeviceRecord.sessionIds_activate hactivate hx
    · exact .refl m

theorem confirmSession_within (m : SessionManager B) (user device : List B) (sid : Block B 16) :
    Within drawn m (m.confirmSession user device sid).2 := by
  rcases confirmSession_cases m user device sid with heq | ⟨-, dev, a, ha, -, hrewrites⟩
  · rw [heq]
    exact .refl m
  · refine hrewrites.within fun x hx ↦ .inl ?_
    rcases DeviceRecord.mem_sessionIds.1 hx with ⟨a', ha', rfl⟩ | hs
    · cases ha'
      exact DeviceRecord.mem_sessionIds.2 (.inl ⟨a, ha, rfl⟩)
    · exact DeviceRecord.mem_sessionIds.2 (.inr hs)

end SessionManager

end VoiceChatCrypto
