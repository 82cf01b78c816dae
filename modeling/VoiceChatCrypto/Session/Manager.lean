import VoiceChatCrypto.Data.System
import VoiceChatCrypto.Engine.Trust
import VoiceChatCrypto.Ratchet.Double

/-!
# The session manager

`SessionManager` of `src/session/mod.rs`: what one device remembers of the devices of remote users, in
the manner of Sesame. A user record holds a device record for each device, and one identity tracker
for the user; a device record holds one active session and some inactive ones.

As in the engine, an operation returns its result and the state it leaves, and random draws are
arguments. The application's clock is an argument in the source already.
-/

open Alphabet

namespace VoiceChatCrypto

variable {B : Type} [Alphabet B]

/-- `SessionStatus`. -/
inductive SessionStatus
  | initiating
  | active
  | inactive
  | failed
  deriving DecidableEq

/-- `SessionRecord`. -/
structure SessionRecord (B : Type) [Alphabet B] where
  /-- The id of the session. -/
  id : Block B 16
  /-- Whether it is initiating, established or failed. -/
  status : SessionStatus
  /-- Its ratchet. -/
  ratchet : DoubleRatchetState B
  /-- When it was created or last activated. -/
  timestamp : UInt64

/-- `DeviceRecord`. -/
structure DeviceRecord (B : Type) [Alphabet B] where
  /-- The name of the device. -/
  deviceId : List B
  /-- Its identity, once it is known. -/
  identity : Option (IdentityMaterial B)
  /-- The session that messages are sent in. -/
  active : Option (SessionRecord B)
  /-- Earlier sessions, from which messages may still arrive. -/
  inactive : List (SessionRecord B)
  /-- Whether the device is gone. -/
  stale : Bool
  /-- Since when. -/
  staleTimestamp : Option UInt64

/-- `UserRecord`. -/
structure UserRecord (B : Type) [Alphabet B] where
  /-- The name of the user. -/
  userId : List B
  /-- The devices of the user, by name. -/
  devices : Dict (List B) (DeviceRecord B)
  /-- The identity that was acknowledged for the user, on any device. -/
  identityTracker : IdentityTracker B
  /-- Whether the user is gone. -/
  stale : Bool
  /-- Since when. -/
  staleTimestamp : Option UInt64

/-- `SessionManager`. -/
structure SessionManager (B : Type) [Alphabet B] where
  /-- The user whose device this is. -/
  localUserId : List B
  /-- The device. -/
  localDeviceId : List B
  /-- Its identity. -/
  localIdentity : IdentityMaterial B
  /-- The users it has sessions with, by name. -/
  users : Dict (List B) (UserRecord B)
  /-- How many sessions are initiating, to limit them. -/
  initiatingCount : ℕ

/-- `MAX_DEVICES_PER_USER`. -/
def maxDevicesPerUser : ℕ := 10
/-- `MAX_SESSIONS_PER_DEVICE`. -/
def maxSessionsPerDevice : ℕ := 8
/-- `MAX_USERS`. -/
def maxUsers : ℕ := 10000
/-- `MAX_LATENCY_SECS`. -/
def maxLatencySecs : ℕ := 86400
/-- `MAX_INITIATING_SESSIONS`. -/
def maxInitiatingSessions : ℕ := 64

namespace DeviceRecord

/-- `session_count`. -/
def sessionCount (dev : DeviceRecord B) : ℕ := dev.inactive.length + if dev.active.isSome then 1 else 0

/-- `activate`: promotes an inactive session and demotes the active one. -/
def activate (sid : Block B 16) (dev : DeviceRecord B) : Except PrimitiveError (DeviceRecord B) :=
  if dev.active.any fun a ↦ a.id = sid then .ok dev
  else
    match dev.inactive.find? fun s ↦ s.id = sid with
    | none => .error .internal
    | some s =>
      let rest := dev.inactive.eraseIdx (dev.inactive.findIdx fun s ↦ s.id = sid)
      let inactive := match dev.active with
        | some old => { old with status := .inactive } :: rest
        | none => rest
      .ok { dev with
        inactive := inactive.take (maxSessionsPerDevice - 1)
        active := some { s with status := .active } }

/-- A stale record that may be deleted. -/
def expired (now : UInt64) (stale : Bool) (staleTimestamp : Option UInt64) : Bool :=
  stale && staleTimestamp.any fun ts ↦ maxLatencySecs < now.toNat - ts.toNat

/-- The effect of `mark_failed` on the inactive sessions: the first one with the id. -/
def failFirst (sid : Block B 16) : List (SessionRecord B) → Option (List (SessionRecord B))
  | [] => none
  | s :: rest =>
    if s.id = sid then some ({ s with status := .failed } :: rest)
    else (failFirst sid rest).map fun rest ↦ s :: rest

end DeviceRecord

namespace SessionManager

/-- `new`. -/
def new (userId deviceId : List B) (identity : IdentityMaterial B) : SessionManager B :=
  { localUserId := userId, localDeviceId := deviceId, localIdentity := identity, users := ∅
    initiatingCount := 0 }

/-- The manager with another device record. -/
def putDevice (user : List B) (u : UserRecord B) (device : List B) (dev : DeviceRecord B)
    (m : SessionManager B) : SessionManager B :=
  { m with users := m.users.insert user { u with devices := u.devices.insert device dev } }

/-- The device record that most operations start from. -/
def findDevice (user device : List B) (m : SessionManager B) :
    Except PrimitiveError (UserRecord B × DeviceRecord B) :=
  match m.users.lookup user with
  | none => .error .internal
  | some u =>
    match u.devices.lookup device with
    | none => .error .internal
    | some dev => .ok (u, dev)

/-- The first half of `ensure_user_device`: there is a user record. -/
def ensureUser (user : List B) (m : SessionManager B) :
    Except PrimitiveError (UserRecord B) × SessionManager B :=
  match m.users.lookup user with
  | some u => (.ok u, m)
  | none =>
    if maxUsers ≤ m.users.size then (.error .invalidLength, m)
    else
      let u : UserRecord B :=
        { userId := user, devices := ∅, identityTracker := IdentityTracker.new, stale := false
          staleTimestamp := none }
      (.ok u, { m with users := m.users.insert user u })

/-- `ensure_user_device`. -/
def ensureUserDevice (user device : List B) (identity : IdentityMaterial B) (m : SessionManager B) :
    Except PrimitiveError Unit × SessionManager B :=
  match m.ensureUser user with
  | (.error err, m) => (.error err, m)
  | (.ok u, m) =>
    match u.devices.lookup device with
    | some _ => (.ok (), m)
    | none =>
      if maxDevicesPerUser ≤ u.devices.size then (.error .invalidLength, m)
      else
        let dev : DeviceRecord B :=
          { deviceId := device, identity := some identity, active := none, inactive := []
            stale := false, staleTimestamp := none }
        (.ok (), m.putDevice user u device dev)

/-- The start of `prepare_outbound` and `prepare_inbound`: the records, and the identity gate. -/
def openGate (user device : List B) (identity : IdentityMaterial B) (m : SessionManager B) :
    Except PrimitiveError (UserRecord B × DeviceRecord B) × SessionManager B :=
  match m.ensureUserDevice user device identity with
  | (.error err, m) => (.error err, m)
  | (.ok (), m) =>
    match m.users.lookup user with
    | none => (.error .internal, m)
    | some u =>
      if (u.identityTracker.observe identity).isChanged then (.error .internal, m)
      else
        match u.devices.lookup device with
        | none => (.error .internal, m)
        | some dev => (.ok (u, dev), m)

variable (P : Primitives B)

/-- `prepare_outbound`, with the ratchet secret and the session id it draws. -/
def prepareOutbound (user device : List B) (identity : IdentityMaterial B)
    (sk remoteDhPublic : Block B 32) (now : UInt64) (dhs : Block B 32) (id : Block B 16)
    (m : SessionManager B) : Except PrimitiveError (Block B 16) × SessionManager B :=
  match m.openGate user device identity with
  | (.error err, m) => (.error err, m)
  | (.ok (u, dev), m) =>
    let usable := dev.active.filter fun a ↦ a.status = .active ∨ a.status = .initiating
    match usable with
    | some a => (.ok a.id, m)
    | none =>
      if maxInitiatingSessions ≤ m.initiatingCount then (.error .invalidLength, m)
      else
        -- the oldest inactive session makes room
        let inactive := if maxSessionsPerDevice ≤ dev.sessionCount then dev.inactive.dropLast
          else dev.inactive
        let record : SessionRecord B :=
          { id, status := .initiating, timestamp := now
            ratchet := DoubleRatchetState.initAlice P dhs sk remoteDhPublic defaultMaxSkip }
        let dev := { dev with active := some record, inactive }
        (.ok id, { m.putDevice user u device dev with initiatingCount := m.initiatingCount + 1 })

/-- `prepare_inbound`, with the session id it draws. -/
def prepareInbound (user device : List B) (identity : IdentityMaterial B) (sk localDh : Block B 32)
    (now : UInt64) (id : Block B 16) (m : SessionManager B) :
    Except PrimitiveError (Block B 16) × SessionManager B :=
  match m.openGate user device identity with
  | (.error err, m) => (.error err, m)
  | (.ok (u, dev), m) =>
    match dev.active with
    | some a => (.ok a.id, m)
    | none =>
      let record : SessionRecord B :=
        { id, status := .active, timestamp := now
          ratchet := DoubleRatchetState.initBob sk localDh defaultMaxSkip }
      (.ok id, m.putDevice user u device { dev with active := some record })

/-- `confirm_session`. -/
def confirmSession (user device : List B) (sid : Block B 16) (m : SessionManager B) :
    Except PrimitiveError Unit × SessionManager B :=
  match m.findDevice user device with
  | .error err => (.error err, m)
  | .ok (u, dev) =>
    match dev.active with
    | none => (.ok (), m)
    | some a =>
      if a.id = sid ∧ a.status = .initiating then
        let dev := { dev with active := some { a with status := .active } }
        (.ok (), { m.putDevice user u device dev with initiatingCount := m.initiatingCount - 1 })
      else (.ok (), m)

/-- `sweep_stale`. -/
def sweepStale (now : UInt64) (m : SessionManager B) : SessionManager B :=
  { m with users := m.users.filterMapValues fun u ↦
      if DeviceRecord.expired now u.stale u.staleTimestamp then none
      else
        let devices := u.devices.filterMapValues fun dev ↦
          if DeviceRecord.expired now dev.stale dev.staleTimestamp then none else some dev
        if devices.size = 0 then none else some { u with devices } }

/-- `mark_device_stale`. -/
def markDeviceStale (user device : List B) (now : UInt64) (m : SessionManager B) :
    Except PrimitiveError Unit × SessionManager B :=
  match m.findDevice user device with
  | .error err => (.error err, m)
  | .ok (u, dev) =>
    (.ok (), m.putDevice user u device { dev with stale := true, staleTimestamp := some now })

/-- `receive_on_session`. -/
def receiveOnSession (user device : List B) (sid : Block B 16) (m : SessionManager B) :
    Except PrimitiveError Unit × SessionManager B :=
  match m.findDevice user device with
  | .error err => (.error err, m)
  | .ok (u, dev) =>
    if dev.inactive.any fun s ↦ s.id = sid then
      match dev.activate sid with
      | .error err => (.error err, m)
      | .ok dev => (.ok (), m.putDevice user u device dev)
    else (.ok (), m)

/-- `mark_failed`. -/
def markFailed (user device : List B) (sid : Block B 16) (m : SessionManager B) :
    Except PrimitiveError Unit × SessionManager B :=
  match m.findDevice user device with
  | .error err => (.error err, m)
  | .ok (u, dev) =>
    match dev.active.filter fun a ↦ a.id = sid with
    | some a =>
      (.ok (), m.putDevice user u device { dev with active := some { a with status := .failed } })
    | none =>
      match DeviceRecord.failFirst sid dev.inactive with
      | none => (.error .internal, m)
      | some inactive => (.ok (), m.putDevice user u device { dev with inactive })

/-- `acknowledge_identity`. -/
def acknowledgeIdentity (user : List B) (identity : IdentityMaterial B) (m : SessionManager B) :
    Except PrimitiveError Unit × SessionManager B :=
  match m.users.lookup user with
  | none => (.error .internal, m)
  | some u =>
    let u := { u with identityTracker := u.identityTracker.acknowledge identity }
    (.ok (), { m with users := m.users.insert user u })

end SessionManager

end VoiceChatCrypto
