import VoiceChatCrypto.Session.Steps

/-!
# What a refused call leaves behind

`prepare_outbound` and `prepare_inbound` may refuse: for the number of users or devices, for a changed
identity, and `prepare_outbound` for the number of initiating sessions. The first two are looked at
*before* a record is added. The other two come after it, so that a refused call for a device that had no
record leaves one behind, and a user record with it if there was none.

A refusal thus changes nothing **exactly if** one of three things holds before the call: the device has
a record, there is no room for one, or neither of the late reasons applies (`refused_unchanged_iff`).
-/

open Alphabet

namespace VoiceChatCrypto

variable {B : Type} [Alphabet B] {P : Primitives B}

namespace SessionManager

/-- There is no room for a device record: the user is new and there are too many users, or is known
and has too many devices. -/
def Full (user : List B) (m : SessionManager B) : Prop :=
  match m.users.lookup user with
  | none => maxUsers ≤ m.users.size
  | some u => maxDevicesPerUser ≤ u.devices.size

/-- Another identity than the given one was acknowledged for the user. -/
def changed (user : List B) (identity : IdentityMaterial B) (m : SessionManager B) : Bool :=
  (m.users.lookup user).any fun u ↦ (u.identityTracker.observe identity).isChanged

variable {m : SessionManager B} {user device : List B}

/-- Without room the gate refuses first. -/
theorem openGate_full (hdev : m.device? user device = none) (hfull : m.Full user)
    (identity : IdentityMaterial B) :
    m.openGate user device identity = (.error .invalidLength, m) := by
  unfold Full at hfull
  unfold device? at hdev
  have hensure : m.ensureUserDevice user device identity = (.error .invalidLength, m) := by
    unfold ensureUserDevice ensureUser
    cases hu : m.users.lookup user with
    | none =>
      rw [hu] at hfull
      dsimp only
      rw [if_pos hfull]
    | some u =>
      rw [hu] at hfull hdev
      rw [Option.bind_some] at hdev
      dsimp only
      rw [hdev]
      dsimp only
      rw [if_pos hfull]
  rw [openGate, hensure]

/-- With room a device without a record gets one, whatever the gate then says. -/
theorem openGate_new (hdev : m.device? user device = none) (hroom : ¬ m.Full user)
    (identity : IdentityMaterial B) :
    ∃ m' u dev, m'.initiatingCount = m.initiatingCount ∧ m'.device? user device = some dev ∧
      dev.Blank ∧ m.openGate user device identity =
        (if m.changed user identity then .error .internal else .ok (u, dev), m') := by
  unfold Full at hroom
  -- the user record that the device is added to
  obtain ⟨u, m₁, hensure, hlookup, hcount, hchanged, hnone, hsize⟩ :
      ∃ u m₁, m.ensureUser user = (.ok u, m₁) ∧ m₁.users.lookup user = some u ∧
        m₁.initiatingCount = m.initiatingCount ∧
        (u.identityTracker.observe identity).isChanged = m.changed user identity ∧
        u.devices.lookup device = none ∧ ¬ maxDevicesPerUser ≤ u.devices.size := by
    unfold ensureUser changed
    cases hu : m.users.lookup user with
    | none =>
      rw [hu] at hroom
      dsimp only
      rw [if_neg hroom]
      exact ⟨_, _, rfl, Finmap.lookup_insert _, rfl, rfl, Finmap.lookup_empty _, by
        show ¬ maxDevicesPerUser ≤ 0
        decide⟩
    | some u =>
      rw [device?, hu, Option.bind_some] at hdev
      rw [hu] at hroom
      exact ⟨u, m, rfl, hu, rfl, rfl, hdev, hroom⟩
  let dev : DeviceRecord B :=
    { deviceId := device, identity := some identity, active := none, inactive := []
      stale := false, staleTimestamp := none }
  have hdevice : m.ensureUserDevice user device identity = (.ok (), m₁.putDevice user u device dev) := by
    rw [ensureUserDevice, hensure]
    dsimp only
    rw [hnone]
    dsimp only
    rw [if_neg hsize]
  refine ⟨m₁.putDevice user u device dev, { u with devices := u.devices.insert device dev }, dev, hcount,
    ?_, ⟨rfl, rfl⟩, ?_⟩
  · rw [device?_putDevice hlookup dev user device rfl, if_pos ⟨rfl, rfl⟩]
  · rw [openGate, hdevice]
    dsimp only [putDevice]
    rw [Finmap.lookup_insert]
    dsimp only
    rw [hchanged, Finmap.lookup_insert]
    dsimp only
    split <;> rfl

/-- A manager with a record that another one lacks is another one. -/
theorem ne_of_device? {m' : SessionManager B} {dev : DeviceRecord B}
    (hdev : m.device? user device = none) (hdev' : m'.device? user device = some dev) : m' ≠ m := by
  rintro rfl
  rw [hdev] at hdev'
  cases hdev'

/-- **When a refused `prepare_outbound` changes nothing.** -/
theorem prepareOutbound_refused_iff (P : Primitives B) (m : SessionManager B) (user device : List B)
    (identity : IdentityMaterial B) (sk dh : Block B 32) (now : UInt64) (dhs : Block B 32)
    (id : Block B 16) :
    (∀ err, (m.prepareOutbound P user device identity sk dh now dhs id).1 = .error err →
      (m.prepareOutbound P user device identity sk dh now dhs id).2 = m) ↔
    ((m.device? user device).isSome ∨ m.Full user ∨
      m.changed user identity = false ∧ m.initiatingCount < maxInitiatingSessions) := by
  unfold prepareOutbound
  cases hdev : m.device? user device with
  | some dev =>
    -- a known device: nothing is added, and every refusal returns the manager it was given
    refine iff_of_true ?_ (.inl rfl)
    obtain ⟨u, hu, hlookup⟩ := device?_eq_some.1 hdev
    rw [openGate_known hu hlookup]
    cases (u.identityTracker.observe identity).isChanged with
    | true => exact fun _ _ ↦ rfl
    | false =>
      intro err
      simp only [Bool.false_eq_true, if_false]
      split
      · exact fun h ↦ by cases h
      · split
        · exact fun _ ↦ rfl
        · exact fun h ↦ by cases h
  | none =>
    by_cases hfull : m.Full user
    · refine iff_of_true ?_ (.inr (.inl hfull))
      rw [openGate_full hdev hfull]
      exact fun _ _ ↦ rfl
    · obtain ⟨m', u, dev, hcount, hdev', hblank, hgate⟩ := openGate_new hdev hfull identity
      rw [hgate]
      cases hchanged : m.changed user identity with
      | true =>
        refine iff_of_false (fun h ↦ ne_of_device? hdev hdev' (h _ rfl)) ?_
        simp [hfull]
      | false =>
        simp only [Bool.false_eq_true, if_false, hblank.1, Option.filter_none, hcount]
        split
        · rename_i hlimit
          refine iff_of_false (fun h ↦ ne_of_device? hdev hdev' (h _ rfl)) ?_
          simp [hfull, hlimit]
        · rename_i hlimit
          refine iff_of_true (fun _ h ↦ by cases h) ?_
          exact .inr (.inr ⟨trivial, by omega⟩)

/-- **When a refused `prepare_inbound` changes nothing.** -/
theorem prepareInbound_refused_iff (m : SessionManager B) (user device : List B)
    (identity : IdentityMaterial B) (sk dh : Block B 32) (now : UInt64) (id : Block B 16) :
    (∀ err, (m.prepareInbound user device identity sk dh now id).1 = .error err →
      (m.prepareInbound user device identity sk dh now id).2 = m) ↔
    ((m.device? user device).isSome ∨ m.Full user ∨ m.changed user identity = false) := by
  unfold prepareInbound
  cases hdev : m.device? user device with
  | some dev =>
    refine iff_of_true ?_ (.inl rfl)
    obtain ⟨u, hu, hlookup⟩ := device?_eq_some.1 hdev
    rw [openGate_known hu hlookup]
    cases (u.identityTracker.observe identity).isChanged with
    | true => exact fun _ _ ↦ rfl
    | false =>
      intro err
      simp only [Bool.false_eq_true, if_false]
      split
      · exact fun h ↦ by cases h
      · exact fun h ↦ by cases h
  | none =>
    by_cases hfull : m.Full user
    · refine iff_of_true ?_ (.inr (.inl hfull))
      rw [openGate_full hdev hfull]
      exact fun _ _ ↦ rfl
    · obtain ⟨m', u, dev, -, hdev', hblank, hgate⟩ := openGate_new hdev hfull identity
      rw [hgate]
      cases hchanged : m.changed user identity with
      | true =>
        refine iff_of_false (fun h ↦ ne_of_device? hdev hdev' (h _ rfl)) ?_
        simp [hfull]
      | false =>
        simp only [Bool.false_eq_true, if_false, hblank.1]
        exact iff_of_true (fun _ h ↦ by cases h) (.inr (.inr trivial))

end SessionManager

open SessionManager in
/-- **When a refusal changes nothing.** Whatever state a manager is in and whatever it is asked: a call
of `prepare_outbound` or `prepare_inbound` that fails leaves the manager as it was, if and only if the
device has a record, or there is no room for one, or the identity is no change for the user and, for
`prepare_outbound`, fewer than `MAX_INITIATING_SESSIONS` sessions are counted as initiating. -/
theorem refused_unchanged_iff (P : Primitives B) (m : SessionManager B) (user device : List B)
    (identity : IdentityMaterial B) (sk dh : Block B 32) (now : UInt64) (dhs : Block B 32)
    (id : Block B 16) :
    ((∀ err, (m.prepareOutbound P user device identity sk dh now dhs id).1 = .error err →
        (m.prepareOutbound P user device identity sk dh now dhs id).2 = m) ↔
      ((m.device? user device).isSome ∨ m.Full user ∨
        m.changed user identity = false ∧ m.initiatingCount < maxInitiatingSessions)) ∧
    ((∀ err, (m.prepareInbound user device identity sk dh now id).1 = .error err →
        (m.prepareInbound user device identity sk dh now id).2 = m) ↔
      ((m.device? user device).isSome ∨ m.Full user ∨ m.changed user identity = false)) :=
  ⟨prepareOutbound_refused_iff P m user device identity sk dh now dhs id,
    prepareInbound_refused_iff m user device identity sk dh now id⟩

namespace Symbolic

/-- A session with user 7 under identity 2, which is acknowledged. -/
def acknowledgedContact : List (ManagerOp Sym) :=
  [contactOp 2, .acknowledgeIdentity [.lit 7] (identityOf 2)]

/-- The manager after it. -/
def acknowledgedManager : SessionManager Sym :=
  Run.last (SessionManager.after symbolic) (SessionManager.new [.lit 1] [.lit 2] (identityOf 1))
    acknowledgedContact

end Symbolic

open Symbolic in
/-- **A refused call adds a record.** A message from another device of user 7 under another identity is
refused, and the device has a record afterwards. -/
theorem refused_call_adds_device :
    (acknowledgedManager.prepareInbound [.lit 7] [.lit 9] (identityOf 3) (Block.zero 32)
        (Block.zero 32) 0 (Block.zero 16)).1 = .error .internal ∧
      (acknowledgedManager.prepareInbound [.lit 7] [.lit 9] (identityOf 3) (Block.zero 32)
        (Block.zero 32) 0 (Block.zero 16)).2 ≠ acknowledgedManager := by
  have herr : (acknowledgedManager.prepareInbound [.lit 7] [.lit 9] (identityOf 3) (Block.zero 32)
      (Block.zero 32) 0 (Block.zero 16)).1 = .error .internal := by decide +kernel
  have hunknown : acknowledgedManager.device? [.lit 7] [.lit 9] = none :=
    Option.isNone_iff_eq_none.1 (by decide +kernel)
  have hknown : ((acknowledgedManager.prepareInbound [.lit 7] [.lit 9] (identityOf 3) (Block.zero 32)
      (Block.zero 32) 0 (Block.zero 16)).2.device? [.lit 7] [.lit 9]).isSome := by decide +kernel
  obtain ⟨dev, hdev⟩ := Option.isSome_iff_exists.1 hknown
  exact ⟨herr, SessionManager.ne_of_device? hunknown hdev⟩

end VoiceChatCrypto
