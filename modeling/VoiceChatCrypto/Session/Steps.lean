import VoiceChatCrypto.Data.Sums
import VoiceChatCrypto.Session.Identity

/-!
# What an operation does to the sessions

For each operation of the session manager the records it may leave, said once: which device record it
writes, and what it changes there. What a run does to the identities of its sessions and to their
number is read off these lemmas.

One fact about all runs is needed for that: no device record ever has an inactive session. Only
`activate` puts a session there, and it promotes one that is there already.
-/

open Alphabet

namespace VoiceChatCrypto

variable {B : Type} [Alphabet B]

/-! ### Device records -/

/-- The number of initiating sessions of a device. -/
def DeviceRecord.initiating (dev : DeviceRecord B) : ℕ :=
  (dev.active.toList ++ dev.inactive).countP fun s ↦ s.status = .initiating

/-- The number of initiating sessions with the devices of a user. -/
def UserRecord.initiating (u : UserRecord B) : ℕ := u.devices.sum DeviceRecord.initiating

/-- A device record as `ensure_user_device` makes it. -/
def DeviceRecord.Blank (dev : DeviceRecord B) : Prop := dev.active = none ∧ dev.inactive = []

theorem DeviceRecord.Blank.initiating {dev : DeviceRecord B} (h : dev.Blank) :
    dev.initiating = 0 := by
  rw [DeviceRecord.initiating, h.1, h.2]
  rfl

namespace SessionManager

variable {m m' : SessionManager B} {user device : List B}

/-- The number of initiating sessions over all users and devices. -/
def initiating (m : SessionManager B) : ℕ := m.users.sum UserRecord.initiating

/-- The record of a device. -/
def device? (user device : List B) (m : SessionManager B) : Option (DeviceRecord B) :=
  (m.users.lookup user).bind fun u ↦ u.devices.lookup device

theorem device?_eq_some {dev : DeviceRecord B} :
    m.device? user device = some dev ↔
      ∃ u, m.users.lookup user = some u ∧ u.devices.lookup device = some dev :=
  Option.bind_eq_some_iff

theorem device?_of_findDevice_error {err : PrimitiveError}
    (h : m.findDevice user device = .error err) : m.device? user device = none := by
  unfold findDevice at h
  rw [device?]
  split at h
  · rename_i hu
    rw [hu]
    rfl
  · rename_i u hu
    rw [hu, Option.bind_some]
    split at h
    · assumption
    · cases h

theorem device?_of_findDevice {u : UserRecord B} {dev : DeviceRecord B}
    (h : m.findDevice user device = .ok (u, dev)) : m.device? user device = some dev :=
  device?_eq_some.2 ⟨u, findDevice_eq_ok h⟩

/-- Writing a user record changes the devices of this user only. -/
theorem device?_insert (u : UserRecord B) (user' device' : List B)
    (hm' : m'.users = m.users.insert user u) :
    m'.device? user' device' =
      if user' = user then u.devices.lookup device' else m.device? user' device' := by
  rw [device?, hm']
  by_cases hne : user' = user
  · subst hne
    rw [Finmap.lookup_insert, Option.bind_some, if_pos rfl]
  · rw [Finmap.lookup_insert_of_ne _ hne, if_neg hne, device?]

/-- Writing a device record changes this record only. -/
theorem device?_putDevice {u : UserRecord B} (hu : m.users.lookup user = some u)
    (dev : DeviceRecord B) (user' device' : List B)
    (hm' : m'.users = (m.putDevice user u device dev).users) :
    m'.device? user' device' =
      if user' = user ∧ device' = device then some dev else m.device? user' device' := by
  rw [device?_insert _ user' device' hm']
  by_cases huser : user' = user
  · subst huser
    by_cases hdevice : device' = device
    · subst hdevice
      rw [if_pos rfl, if_pos ⟨rfl, rfl⟩, Finmap.lookup_insert]
    · rw [if_pos rfl, if_neg fun h ↦ hdevice h.2, Finmap.lookup_insert_of_ne _ hdevice, device?, hu,
        Option.bind_some]
  · rw [if_neg huser, if_neg fun h ↦ huser h.1]

/-- Writing a device record exchanges its initiating sessions. -/
theorem initiating_putDevice {u : UserRecord B} (hu : m.users.lookup user = some u)
    (dev : DeviceRecord B) (hm' : m'.users = (m.putDevice user u device dev).users) :
    m'.initiating + (m.device? user device).elim 0 DeviceRecord.initiating =
      m.initiating + dev.initiating := by
  have hdevices := Dict.sum_insert DeviceRecord.initiating u.devices device dev
  have husers := Dict.sum_insert UserRecord.initiating m.users user
    { u with devices := u.devices.insert device dev }
  rw [hu, Option.elim_some] at husers
  rw [device?, hu, Option.bind_some, initiating, initiating, hm', putDevice]
  unfold UserRecord.initiating at husers
  dsimp only at husers ⊢
  unfold UserRecord.initiating
  omega

/-! ### The gate -/

/-- What the gate may do to the records: add blank ones. It does so even when the call is refused
afterwards. -/
structure Opened (m m' : SessionManager B) : Prop where
  /-- The count of initiating sessions stays the same. -/
  count : m'.initiatingCount = m.initiatingCount
  /-- So does the number of initiating sessions. -/
  initiating : m'.initiating = m.initiating
  /-- Every record stays as it is, or is a new blank one. -/
  device? : ∀ user device, m'.device? user device = m.device? user device ∨
    m.device? user device = none ∧ ∃ dev, m'.device? user device = some dev ∧ dev.Blank

theorem Opened.refl (m : SessionManager B) : Opened m m := ⟨rfl, rfl, fun _ _ ↦ .inl rfl⟩

theorem Opened.trans {m'' : SessionManager B} (h : Opened m m') (h' : Opened m' m'') :
    Opened m m'' := by
  refine ⟨h'.count.trans h.count, h'.initiating.trans h.initiating, fun user device ↦ ?_⟩
  rcases h'.device? user device with heq' | ⟨hnone', hblank⟩
  · rw [heq']
    exact h.device? user device
  · rcases h.device? user device with heq | ⟨-, dev, hsome, -⟩
    · exact .inr ⟨heq ▸ hnone', hblank⟩
    · rw [hsome] at hnone'
      cases hnone'

/-- `ensure_user` adds a user without devices at most. -/
theorem ensureUser_opened (m : SessionManager B) (user : List B) : Opened m (m.ensureUser user).2 := by
  unfold ensureUser
  cases hu : m.users.lookup user with
  | some u => exact .refl m
  | none =>
    dsimp only
    split
    · exact .refl m
    · refine ⟨rfl, ?_, fun user' device' ↦ ?_⟩
      · have h := Dict.sum_insert UserRecord.initiating m.users user
          { userId := user, devices := ∅, identityTracker := IdentityTracker.new, stale := false
            staleTimestamp := none }
        rw [hu, Option.elim_none] at h
        exact h
      · rw [device?_insert _ user' device' rfl]
        split
        · rename_i heq
          subst heq
          rw [SessionManager.device?, hu]
          exact .inl rfl
        · exact .inl rfl

/-- `ensure_user_device` adds a blank record at most. -/
theorem ensureUserDevice_opened (m : SessionManager B) (user device : List B)
    (identity : IdentityMaterial B) : Opened m (m.ensureUserDevice user device identity).2 := by
  have hopened := ensureUser_opened m user
  have hlookup := (ensureUser_spec m user).2
  unfold ensureUserDevice
  generalize m.ensureUser user = r at hopened hlookup
  obtain ⟨res, m₁⟩ := r
  cases res with
  | error err => exact hopened
  | ok u =>
    dsimp only at hopened ⊢
    have hu : m₁.users.lookup user = some u := hlookup u rfl
    split
    · exact hopened
    · rename_i hnone
      have hdevice : m₁.device? user device = none := by rw [device?, hu, Option.bind_some, hnone]
      split
      · exact hopened
      · refine hopened.trans ⟨rfl, ?_, fun user' device' ↦ ?_⟩
        · let blank : DeviceRecord B :=
            { deviceId := device, identity := some identity, active := none, inactive := []
              stale := false, staleTimestamp := none }
          have h : (m₁.putDevice user u device blank).initiating + _ = _ :=
            initiating_putDevice hu blank rfl
          rw [hdevice] at h
          exact h
        · rw [device?_putDevice hu _ user' device' rfl]
          split
          · rename_i heq
            obtain ⟨rfl, rfl⟩ := heq
            exact .inr ⟨hdevice, _, rfl, rfl, rfl⟩
          · exact .inl rfl

/-- **What the gate leaves**, and the record it hands on. -/
theorem openGate_opened (m : SessionManager B) (user device : List B) (identity : IdentityMaterial B) :
    Opened m (m.openGate user device identity).2 ∧
      ∀ u dev, (m.openGate user device identity).1 = .ok (u, dev) →
        (m.openGate user device identity).2.users.lookup user = some u ∧
          (m.openGate user device identity).2.device? user device = some dev := by
  have hopened := ensureUserDevice_opened m user device identity
  unfold openGate
  generalize m.ensureUserDevice user device identity = r at hopened
  obtain ⟨res, m₁⟩ := r
  cases res with
  | error err => exact ⟨hopened, fun _ _ h ↦ by cases h⟩
  | ok _ =>
    dsimp only at hopened ⊢
    cases hu : m₁.users.lookup user with
    | none => exact ⟨hopened, fun _ _ h ↦ by cases h⟩
    | some u =>
      dsimp only
      split
      · exact ⟨hopened, fun _ _ h ↦ by cases h⟩
      · cases hdev : u.devices.lookup device with
        | none => exact ⟨hopened, fun _ _ h ↦ by cases h⟩
        | some dev =>
          refine ⟨hopened, fun u' dev' heq ↦ ?_⟩
          cases heq
          exact ⟨hu, device?_eq_some.2 ⟨u, hu, hdev⟩⟩

/-- The gate before a known device changes nothing. -/
theorem openGate_known {u : UserRecord B} {dev : DeviceRecord B} (hu : m.users.lookup user = some u)
    (hdev : u.devices.lookup device = some dev) (identity : IdentityMaterial B) :
    m.openGate user device identity =
      if (u.identityTracker.observe identity).isChanged then (.error .internal, m)
      else (.ok (u, dev), m) := by
  have hensure : m.ensureUserDevice user device identity = (.ok (), m) := by
    rw [ensureUserDevice, ensureUser, hu]
    dsimp only
    rw [hdev]
  rw [openGate, hensure]
  dsimp only
  rw [hu]
  dsimp only
  rw [hdev]

/-! ### Preparing a session -/

/-- The active session of a device that a call returns as it is: the device is known, the identity is
no change, and the session is of a kind that the call keeps. -/
def standing (kept : SessionRecord B → Bool) (user device : List B) (identity : IdentityMaterial B)
    (m : SessionManager B) : Option (SessionRecord B) :=
  match m.findDevice user device with
  | .error _ => none
  | .ok (u, dev) =>
    if (u.identityTracker.observe identity).isChanged then none else dev.active.filter kept

/-- The sessions that `prepare_outbound` keeps. -/
def keptOutbound (a : SessionRecord B) : Bool := a.status = .active ∨ a.status = .initiating

/-- The sessions that `prepare_inbound` keeps. -/
def keptInbound (_ : SessionRecord B) : Bool := true

/-- A session that stands is active, of the identity given, and one that may be kept. -/
theorem standing_eq_some {kept : SessionRecord B → Bool} {identity : IdentityMaterial B}
    {a : SessionRecord B} (h : m.standing kept user device identity = some a) :
    ∃ u dev, m.users.lookup user = some u ∧ u.devices.lookup device = some dev ∧
      (u.identityTracker.observe identity).isChanged = false ∧ dev.active = some a ∧ kept a = true := by
  unfold standing at h
  split at h
  · cases h
  · rename_i u dev hfind
    split at h
    · cases h
    · rename_i hchanged
      obtain ⟨hu, hdev⟩ := findDevice_eq_ok hfind
      obtain ⟨hactive, hkept⟩ := Option.filter_eq_some_iff.1 h
      exact ⟨u, dev, hu, hdev, by simpa using hchanged, hactive, hkept⟩

/-- A session that is found behind the gate was there before. -/
theorem standing_of_openGate {kept : SessionRecord B → Bool} {identity : IdentityMaterial B}
    {u : UserRecord B} {dev : DeviceRecord B} {a : SessionRecord B}
    (h : m.openGate user device identity = (.ok (u, dev), m'))
    (ha : dev.active.filter kept = some a) : m.standing kept user device identity = some a := by
  obtain ⟨hopened, hok⟩ := openGate_opened m user device identity
  rw [h] at hopened hok
  obtain ⟨-, hdev⟩ := hok u dev rfl
  rcases hopened.device? user device with hsame | ⟨-, dev₁, hdev₁, hblank⟩
  · rw [hdev] at hsame
    obtain ⟨u₀, hu₀, hdev₀⟩ := device?_eq_some.1 hsame.symm
    have hfind : m.findDevice user device = .ok (u₀, dev) := by
      simp only [findDevice, hu₀, hdev₀]
    rw [openGate_known hu₀ hdev₀] at h
    split at h
    · cases h
    · rename_i hchanged
      simp only [standing, hfind, if_neg hchanged, ha]
  · rw [hdev] at hdev₁
    cases hdev₁
    rw [hblank.1] at ha
    cases ha

/-- A new session takes the place of one that was not kept. -/
def Creates (kept : SessionRecord B → Bool) (user device : List B) (record : SessionRecord B)
    (m m' : SessionManager B) : Prop :=
  ∃ m₁ u dev dev', Opened m m₁ ∧ m₁.users.lookup user = some u ∧
    m₁.device? user device = some dev ∧ dev.active.filter kept = none ∧
    dev'.active = some record ∧ (dev.inactive = [] → dev'.inactive = []) ∧
    m'.users = (m₁.putDevice user u device dev').users

/-- **What `prepare_outbound` does**: it returns the standing session; or refuses, and adds blank
records at most; or creates a session, and counts it. -/
theorem prepareOutbound_cases (P : Primitives B) (m : SessionManager B) (user device : List B)
    (identity : IdentityMaterial B) (sk dh : Block B 32) (now : UInt64) (dhs : Block B 32)
    (id : Block B 16) :
    (∀ a, m.standing keptOutbound user device identity = some a →
      m.prepareOutbound P user device identity sk dh now dhs id = (.ok a.id, m)) ∧
    (m.standing keptOutbound user device identity = none →
      (∃ err, (m.prepareOutbound P user device identity sk dh now dhs id).1 = .error err) ∧
          Opened m (m.prepareOutbound P user device identity sk dh now dhs id).2 ∨
        (m.prepareOutbound P user device identity sk dh now dhs id).1 = .ok id ∧
          (m.prepareOutbound P user device identity sk dh now dhs id).2.initiatingCount =
            m.initiatingCount + 1 ∧
          ∃ record : SessionRecord B, record.id = id ∧ record.status = .initiating ∧
            Creates keptOutbound user device record m
              (m.prepareOutbound P user device identity sk dh now dhs id).2) := by
  constructor
  · intro a ha
    obtain ⟨u, dev, hu, hdev, hchanged, hactive, hkept⟩ := standing_eq_some ha
    have hgate := openGate_known hu hdev identity
    rw [hchanged] at hgate
    have hfilter : (dev.active.filter fun a ↦ a.status = .active ∨ a.status = .initiating) = some a :=
      Option.filter_eq_some_iff.2 ⟨hactive, hkept⟩
    rw [prepareOutbound, hgate]
    simp only [Bool.false_eq_true, if_false, hfilter]
  · intro hnone
    obtain ⟨hopened, hok⟩ := openGate_opened m user device identity
    unfold prepareOutbound
    cases hgate : m.openGate user device identity with
    | mk res m₁ =>
    rw [hgate] at hopened hok
    cases res with
    | error err => exact .inl ⟨⟨err, rfl⟩, hopened⟩
    | ok out =>
      obtain ⟨u, dev⟩ := out
      obtain ⟨hu, hdev⟩ := hok u dev rfl
      dsimp only at hopened hu hdev ⊢
      split
      · rename_i a hfilter
        have hstanding : m.standing keptOutbound user device identity = some a :=
          standing_of_openGate hgate hfilter
        rw [hstanding] at hnone
        cases hnone
      · rename_i hfilter
        split
        · exact .inl ⟨⟨_, rfl⟩, hopened⟩
        · refine .inr ⟨rfl, ?_, _, rfl, rfl, m₁, u, dev, _, hopened, hu, hdev, hfilter, rfl, ?_, rfl⟩
          · exact congrArg (· + 1) hopened.count
          · intro hempty
            dsimp only
            split
            · rw [hempty]
              rfl
            · exact hempty

/-- **What `prepare_inbound` does**: the same, without a limit, and it counts nothing. -/
theorem prepareInbound_cases (m : SessionManager B) (user device : List B)
    (identity : IdentityMaterial B) (sk dh : Block B 32) (now : UInt64) (id : Block B 16) :
    (∀ a, m.standing keptInbound user device identity = some a →
      m.prepareInbound user device identity sk dh now id = (.ok a.id, m)) ∧
    (m.standing keptInbound user device identity = none →
      (∃ err, (m.prepareInbound user device identity sk dh now id).1 = .error err) ∧
          Opened m (m.prepareInbound user device identity sk dh now id).2 ∨
        (m.prepareInbound user device identity sk dh now id).1 = .ok id ∧
          (m.prepareInbound user device identity sk dh now id).2.initiatingCount =
            m.initiatingCount ∧
          ∃ record : SessionRecord B, record.id = id ∧ record.status = .active ∧
            Creates keptInbound user device record m
              (m.prepareInbound user device identity sk dh now id).2) := by
  constructor
  · intro a ha
    obtain ⟨u, dev, hu, hdev, hchanged, hactive, -⟩ := standing_eq_some ha
    have hgate := openGate_known hu hdev identity
    rw [hchanged] at hgate
    rw [prepareInbound, hgate]
    simp only [Bool.false_eq_true, if_false, hactive]
  · intro hnone
    obtain ⟨hopened, hok⟩ := openGate_opened m user device identity
    unfold prepareInbound
    cases hgate : m.openGate user device identity with
    | mk res m₁ =>
    rw [hgate] at hopened hok
    cases res with
    | error err => exact .inl ⟨⟨err, rfl⟩, hopened⟩
    | ok out =>
      obtain ⟨u, dev⟩ := out
      obtain ⟨hu, hdev⟩ := hok u dev rfl
      dsimp only at hopened hu hdev ⊢
      cases hactive : dev.active with
      | some a =>
        have hfilter : dev.active.filter keptInbound = some a :=
          Option.filter_eq_some_iff.2 ⟨hactive, rfl⟩
        rw [standing_of_openGate hgate hfilter] at hnone
        cases hnone
      | none =>
        refine .inr ⟨rfl, hopened.count, _, rfl, rfl, m₁, u, dev, _, hopened, hu, hdev, ?_, rfl, ?_,
          rfl⟩
        · rw [hactive]
          rfl
        · exact fun hempty ↦ hempty

/-! ### The other operations -/

/-- One device record is replaced. -/
def Rewrites (user device : List B) (dev dev' : DeviceRecord B) (m m' : SessionManager B) : Prop :=
  ∃ u, m.users.lookup user = some u ∧ m.device? user device = some dev ∧
    m'.users = (m.putDevice user u device dev').users

/-- Putting back a record that was found rewrites it. -/
theorem Rewrites.of_findDevice {u : UserRecord B} {dev dev' : DeviceRecord B}
    (h : m.findDevice user device = .ok (u, dev))
    (hm' : m'.users = (m.putDevice user u device dev').users) : Rewrites user device dev dev' m m' :=
  ⟨u, (findDevice_eq_ok h).1, device?_of_findDevice h, hm'⟩

/-- `confirm_session` establishes the active session and counts it out, or does nothing. -/
theorem confirmSession_cases (m : SessionManager B) (user device : List B) (sid : Block B 16) :
    (m.confirmSession user device sid).2 = m ∨
      (m.confirmSession user device sid).2.initiatingCount = m.initiatingCount - 1 ∧
        ∃ dev a, dev.active = some a ∧ a.status = .initiating ∧
          Rewrites user device dev { dev with active := some { a with status := .active } } m
            (m.confirmSession user device sid).2 := by
  unfold confirmSession
  cases hdev : m.findDevice user device with
  | error err => exact .inl rfl
  | ok out =>
    obtain ⟨u, dev⟩ := out
    dsimp only
    cases hactive : dev.active with
    | none => exact .inl rfl
    | some a =>
      dsimp only
      split
      · rename_i hcond
        exact .inr ⟨rfl, dev, a, hactive, hcond.2, .of_findDevice hdev rfl⟩
      · exact .inl rfl

/-- `mark_device_stale` marks one record, or does nothing. -/
theorem markDeviceStale_cases (m : SessionManager B) (user device : List B) (now : UInt64) :
    (m.markDeviceStale user device now).2 = m ∨
      (m.markDeviceStale user device now).2.initiatingCount = m.initiatingCount ∧
        ∃ dev, Rewrites user device dev { dev with stale := true, staleTimestamp := some now } m
          (m.markDeviceStale user device now).2 := by
  unfold markDeviceStale
  cases hdev : m.findDevice user device with
  | error err => exact .inl rfl
  | ok out => exact .inr ⟨rfl, out.2, .of_findDevice hdev rfl⟩

/-- No device has an inactive session. No operation of the manager ever makes one, although its
records have a place for them. -/
def NoInactive (m : SessionManager B) : Prop :=
  ∀ user device dev, m.device? user device = some dev → dev.inactive = []

/-- Without inactive sessions there is nothing to activate. -/
theorem receiveOnSession_eq (hm : m.NoInactive) (user device : List B) (sid : Block B 16) :
    (m.receiveOnSession user device sid).2 = m := by
  unfold receiveOnSession
  cases hdev : m.findDevice user device with
  | error err => rfl
  | ok out =>
    obtain ⟨u, dev⟩ := out
    dsimp only
    rw [hm user device dev (device?_of_findDevice hdev)]
    rfl

/-- `mark_failed` changes the status of the active session with this id, or does nothing. -/
theorem markFailed_cases (hm : m.NoInactive) (user device : List B) (sid : Block B 16) :
    (m.markFailed user device sid).2 = m ∧
        (∀ dev a, m.device? user device = some dev → dev.active = some a → a.id ≠ sid) ∨
      (m.markFailed user device sid).2.initiatingCount = m.initiatingCount ∧
        ∃ dev a, dev.active = some a ∧ a.id = sid ∧
          Rewrites user device dev { dev with active := some { a with status := .failed } } m
            (m.markFailed user device sid).2 := by
  unfold markFailed
  cases hdev : m.findDevice user device with
  | error err =>
    refine .inl ⟨rfl, fun dev a h ↦ ?_⟩
    rw [device?_of_findDevice_error hdev] at h
    cases h
  | ok out =>
    obtain ⟨u, dev⟩ := out
    have hdevice := device?_of_findDevice hdev
    dsimp only
    cases hfilter : dev.active.filter fun a ↦ a.id = sid with
    | some a =>
      obtain ⟨hactive, hid⟩ := Option.filter_eq_some_iff.1 hfilter
      exact .inr ⟨rfl, dev, a, hactive, of_decide_eq_true hid, .of_findDevice hdev rfl⟩
    | none =>
      dsimp only
      rw [hm user device dev hdevice]
      refine .inl ⟨rfl, fun dev' a h hactive hid ↦ ?_⟩
      rw [hdevice] at h
      cases h
      rw [hactive, Option.filter_some, if_pos (decide_eq_true hid)] at hfilter
      cases hfilter

theorem acknowledgeIdentity_device? (m : SessionManager B) (user : List B) (x : IdentityMaterial B) :
    (m.acknowledgeIdentity user x).2.initiatingCount = m.initiatingCount ∧
      (m.acknowledgeIdentity user x).2.initiating = m.initiating ∧
      ∀ user' device, (m.acknowledgeIdentity user x).2.device? user' device = m.device? user' device := by
  unfold acknowledgeIdentity
  cases hu : m.users.lookup user with
  | none => exact ⟨rfl, rfl, fun _ _ ↦ rfl⟩
  | some u =>
    refine ⟨rfl, ?_, fun user' device ↦ ?_⟩
    · have h := Dict.sum_insert UserRecord.initiating m.users user
        { u with identityTracker := u.identityTracker.acknowledge x }
      rw [hu] at h
      exact Nat.add_right_cancel h
    · rw [device?_insert _ user' device rfl]
      split
      · rename_i heq
        rw [heq, device?, hu, Option.bind_some]
      · rfl

/-- What a sweep keeps of a user. -/
def sweptUser (now : UInt64) (u : UserRecord B) : Option (UserRecord B) :=
  if DeviceRecord.expired now u.stale u.staleTimestamp then none
  else
    let devices := u.devices.filterMapValues fun dev ↦
      if DeviceRecord.expired now dev.stale dev.staleTimestamp then none else some dev
    if devices.size = 0 then none else some { u with devices }

theorem users_sweepStale (m : SessionManager B) (now : UInt64) :
    (m.sweepStale now).users = m.users.filterMapValues (sweptUser now) := rfl

/-- A sweep leaves no record that was not there. -/
theorem device?_of_sweepStale {now : UInt64} {dev : DeviceRecord B}
    (h : (m.sweepStale now).device? user device = some dev) : m.device? user device = some dev := by
  obtain ⟨u', hu', hdev⟩ := device?_eq_some.1 h
  rw [users_sweepStale, Dict.lookup_filterMapValues] at hu'
  obtain ⟨u, hu, hswept⟩ := Option.bind_eq_some_iff.1 hu'
  refine device?_eq_some.2 ⟨u, hu, ?_⟩
  unfold sweptUser at hswept
  split at hswept
  · cases hswept
  · dsimp only at hswept
    split at hswept
    · cases hswept
    · cases hswept
      rw [Dict.lookup_filterMapValues] at hdev
      obtain ⟨dev', hdev', hkept⟩ := Option.bind_eq_some_iff.1 hdev
      split at hkept
      · cases hkept
      · cases hkept
        exact hdev'

/-! ### Inactive sessions -/

theorem Opened.noInactive (h : Opened m m') (hm : m.NoInactive) : m'.NoInactive := by
  intro user device dev hdev
  rcases h.device? user device with hsame | ⟨-, dev', hdev', hblank⟩
  · exact hm user device dev (hsame ▸ hdev)
  · rw [hdev] at hdev'
    cases hdev'
    exact hblank.2

/-- The record of every other device stays the same. -/
theorem Rewrites.device?_eq {dev dev' : DeviceRecord B} (h : Rewrites user device dev dev' m m')
    (user' device' : List B) :
    m'.device? user' device' =
      if user' = user ∧ device' = device then some dev' else m.device? user' device' := by
  obtain ⟨u, hu, -, hm'⟩ := h
  exact device?_putDevice hu dev' user' device' hm'

/-- A rewritten record with the same inactive sessions keeps the list empty. -/
theorem Rewrites.noInactive {dev dev' : DeviceRecord B} (h : Rewrites user device dev dev' m m')
    (hsame : dev'.inactive = dev.inactive) (hm : m.NoInactive) : m'.NoInactive := by
  intro user' device' dev₁ hdev₁
  rw [h.device?_eq] at hdev₁
  split at hdev₁
  · cases hdev₁
    rw [hsame]
    exact hm user device dev h.choose_spec.2.1
  · exact hm user' device' dev₁ hdev₁

/-- A creation adds blank records and writes one of a device. -/
theorem Creates.rewrites {kept : SessionRecord B → Bool} {record : SessionRecord B}
    (h : Creates kept user device record m m') :
    ∃ m₁ dev dev', Opened m m₁ ∧ dev.active.filter kept = none ∧ dev'.active = some record ∧
      (dev.inactive = [] → dev'.inactive = []) ∧ Rewrites user device dev dev' m₁ m' := by
  obtain ⟨m₁, u, dev, dev', hopened, hu, hdev, hkept, hactive, hinactive, hm'⟩ := h
  exact ⟨m₁, dev, dev', hopened, hkept, hactive, hinactive, u, hu, hdev, hm'⟩

theorem Creates.noInactive {kept : SessionRecord B → Bool} {record : SessionRecord B}
    (h : Creates kept user device record m m') (hm : m.NoInactive) : m'.NoInactive := by
  obtain ⟨m₁, dev, dev', hopened, -, -, hinactive, hrewrites⟩ := h.rewrites
  have hm₁ := hopened.noInactive hm
  have hdev := hm₁ user device dev hrewrites.choose_spec.2.1
  exact hrewrites.noInactive ((hinactive hdev).trans hdev.symm) hm₁

/-- **No operation makes a session inactive.** -/
theorem perform_noInactive (P : Primitives B) (op : ManagerOp B) (hm : m.NoInactive) :
    (m.perform P op).2.NoInactive := by
  cases op with
  | prepareOutbound user device identity sk dh now dhs id =>
    obtain ⟨hstanding, hnone⟩ := prepareOutbound_cases P m user device identity sk dh now dhs id
    cases h : m.standing keptOutbound user device identity with
    | some a =>
      dsimp only [perform]
      rw [hstanding a h]
      exact hm
    | none =>
      rcases hnone h with ⟨-, hopened⟩ | ⟨-, -, record, -, -, hcreates⟩
      · exact hopened.noInactive hm
      · exact hcreates.noInactive hm
  | prepareInbound user device identity sk dh now id =>
    obtain ⟨hstanding, hnone⟩ := prepareInbound_cases m user device identity sk dh now id
    cases h : m.standing keptInbound user device identity with
    | some a =>
      dsimp only [perform]
      rw [hstanding a h]
      exact hm
    | none =>
      rcases hnone h with ⟨-, hopened⟩ | ⟨-, -, record, -, -, hcreates⟩
      · exact hopened.noInactive hm
      · exact hcreates.noInactive hm
  | confirmSession user device sid =>
    dsimp only [perform]
    rcases confirmSession_cases m user device sid with heq | ⟨-, dev, a, -, -, hrewrites⟩
    · rwa [heq]
    · exact hrewrites.noInactive rfl hm
  | receiveOnSession user device sid =>
    dsimp only [perform]
    rwa [receiveOnSession_eq hm]
  | markFailed user device sid =>
    dsimp only [perform]
    rcases markFailed_cases hm user device sid with ⟨heq, -⟩ | ⟨-, dev, a, -, -, hrewrites⟩
    · rwa [heq]
    · exact hrewrites.noInactive rfl hm
  | markDeviceStale user device now =>
    dsimp only [perform]
    rcases markDeviceStale_cases m user device now with heq | ⟨-, dev, hrewrites⟩
    · rwa [heq]
    · exact hrewrites.noInactive rfl hm
  | sweepStale now => exact fun user device dev h ↦ hm user device dev (device?_of_sweepStale h)
  | acknowledgeIdentity user x =>
    intro user' device dev h
    dsimp only [perform] at h
    rw [(acknowledgeIdentity_device? m user x).2.2] at h
    exact hm user' device dev h

/-- The state after an operation, whether it succeeded or not. -/
def after (P : Primitives B) (op : ManagerOp B) (m : SessionManager B) : SessionManager B :=
  (m.perform P op).2

/-- **No run makes a session inactive.** -/
theorem last_noInactive (P : Primitives B) (hm : m.NoInactive) (ops : List (ManagerOp B)) :
    (Run.last (after P) m ops).NoInactive := by
  induction ops using List.reverseRecOn with
  | nil => exact hm
  | append_singleton ops op ih =>
    rw [Run.last_concat]
    exact perform_noInactive P op ih

theorem new_noInactive (user device : List B) (identity : IdentityMaterial B) :
    (new user device identity).NoInactive := by
  intro user' device' dev h
  cases h

end SessionManager

end VoiceChatCrypto
