import VoiceChatCrypto.Session.Manager

/-!
# Sesame

`SesameNode` of `src/session/sesame.rs`: one device of a user, its session manager and the messages it
has sent and not seen acknowledged, together with the directory of `src/session/mailbox.rs` through
which it reaches other devices.

The directory is a trait in the source, which the transport implements, and a parameter here;
`MemoryDirectory` is the implementation the repository comes with. A call changes the node *and* the
directory, and an early exit keeps what was changed before it, so every operation is a function on
both (`Desk`) that returns a result next to the state it leaves.
-/

open Alphabet

namespace VoiceChatCrypto

variable {B : Type} [Alphabet B]

/-- `MAX_RESEND_ATTEMPTS`. -/
def maxResendAttempts : UInt32 := 5

/-! ### The mailbox -/

/-- `MailboxBody`. -/
inductive MailboxBody (B : Type)
  | encrypted (messageId sessionId : Block B 16) (header ciphertext : List B) (initiation : Bool)
  | retryRequest (messageId : Block B 16)
  | deliveryReceipt (messageId : Block B 16)

/-- `MailboxEnvelope`. -/
structure MailboxEnvelope (B : Type) where
  /-- The user who claims to have sent it. -/
  fromUser : List B
  /-- The device it claims to come from. -/
  fromDevice : List B
  /-- A message, a request to send one again, or a receipt. -/
  body : MailboxBody B

/-- `Directory`: the methods a node calls, over the states `σ` of a server. -/
structure Directory (B σ : Type) where
  /-- The devices of a user with their identity keys. -/
  queryDevices : List B → σ → Except PrimitiveError (List (List B × Block B 32))
  /-- Puts an envelope into the mailbox of a device. -/
  send : List B → List B → MailboxEnvelope B → σ → Except PrimitiveError Unit × σ
  /-- Takes everything out of the mailbox of a device. -/
  fetch : List B → List B → σ → List (MailboxEnvelope B) × σ

/-- `MemoryDirectory`. -/
structure MemoryDirectory (B : Type) where
  /-- The devices of each user, in the order of their registration. -/
  devices : Dict (List B) (List (List B × Block B 32))
  /-- The mailboxes of the devices. -/
  boxes : Dict (List B × List B) (List (MailboxEnvelope B))

namespace MemoryDirectory

/-- `default`. -/
def empty : MemoryDirectory B := { devices := ∅, boxes := ∅ }

/-- `register`. -/
def register (user device : List B) (identityPublic : Block B 32) (d : MemoryDirectory B) :
    MemoryDirectory B :=
  let list := (d.devices.lookup user).getD []
  { devices := d.devices.insert user
      (if list.any fun e ↦ e.1 = device then list else list ++ [(device, identityPublic)])
    boxes := d.boxes.insert (user, device) ((d.boxes.lookup (user, device)).getD []) }

/-- The methods of `MemoryDirectory` that a node calls. -/
def directory : Directory B (MemoryDirectory B) where
  queryDevices user d :=
    match d.devices.lookup user with
    | none => .error .internal
    | some list => .ok list
  send user device env d :=
    match d.boxes.lookup (user, device) with
    | none => (.error .internal, d)
    | some box => (.ok (), { d with boxes := d.boxes.insert (user, device) (box ++ [env]) })
  fetch user device d :=
    match d.boxes.lookup (user, device) with
    | none => ([], d)
    | some box => (box, { d with boxes := d.boxes.insert (user, device) [] })

end MemoryDirectory

/-! ### Ratchets of a device record -/

namespace DoubleRatchetState

variable (P : Primitives B)

/-- The ratchet that `encrypt` leaves, also on an error: the sending chain moves on before anything
can fail but its absence. -/
def sendingAdvanced (s : DoubleRatchetState B) : DoubleRatchetState B :=
  match s.cks with
  | none => s
  | some cks =>
    { s with
      cks := some (kdfCk P cks).1
      ns := match checkedInc s.ns with
        | .ok ns => ns
        | .error _ => s.ns }

/-- `encrypt` as a method: the result, and the ratchet left behind. -/
def encryptInPlace (s : DoubleRatchetState B) (plaintext ad : List B) :
    Except PrimitiveError (Header B × List B) × DoubleRatchetState B :=
  ((s.encrypt P plaintext ad).map Prod.fst, s.sendingAdvanced P)

variable {P} in
/-- On success this is the state that `encrypt` returns. -/
theorem encrypt_state {s s' : DoubleRatchetState B} {header : Header B} {pt ad ct : List B}
    (h : s.encrypt P pt ad = .ok ((header, ct), s')) : s' = s.sendingAdvanced P := by
  obtain ⟨msgKey, hsend, -⟩ := encrypt_eq_ok.1 h
  obtain ⟨cks, dhs, ns, hcks, -, hinc, -, -, rfl⟩ := sendMessageKey_eq_ok hsend
  rw [sendingAdvanced, hcks]
  dsimp only
  rw [hinc]

end DoubleRatchetState

/-- The associated data of every Sesame ciphertext. -/
def sesameAd : List B := ascii "sesame"

/-- The session `try_decrypt` picks, and the device record with another ratchet in its place: the
active session or an inactive one with the id, else the active one. -/
def DeviceRecord.pick (sid : Block B 16) (dev : DeviceRecord B) :
    Option (SessionRecord B × (SessionRecord B → DeviceRecord B)) :=
  let active := dev.active.map fun a ↦ (a, fun a ↦ { dev with active := some a })
  if dev.active.any fun a ↦ a.id = sid then active
  else
    match dev.inactive.find? fun s ↦ s.id = sid with
    | some s => some (s, fun s ↦
        { dev with inactive := dev.inactive.set (dev.inactive.findIdx fun s ↦ s.id = sid) s })
    | none => active

namespace SessionManager

variable (P : Primitives B)

/-- The encryption step of `send` and `handle_retry`: with the ratchet of the active session. -/
def encryptActive (user device plaintext : List B) (m : SessionManager B) :
    Except PrimitiveError (Header B × List B) × SessionManager B :=
  match m.findDevice user device with
  | .error err => (.error err, m)
  | .ok (u, dev) =>
    match dev.active with
    | none => (.error .internal, m)
    | some a =>
      let (res, ratchet) := a.ratchet.encryptInPlace P plaintext sesameAd
      (res, m.putDevice user u device { dev with active := some { a with ratchet } })

/-- `try_decrypt`, with the ratchet secret it may draw. -/
def tryDecrypt (fresh : Block B 32) (user device : List B) (sid : Block B 16) (header : Header B)
    (ct : List B) (m : SessionManager B) : Except PrimitiveError (List B) × SessionManager B :=
  match m.findDevice user device with
  | .error err => (.error err, m)
  | .ok (u, dev) =>
    match dev.pick sid with
    | none => (.error .internal, m)
    | some (s, put) =>
      let (res, ratchet) := s.ratchet.decrypt P fresh header ct sesameAd
      (res, m.putDevice user u device (put { s with ratchet }))

end SessionManager

/-! ### The node -/

/-- `MessageRecord`: a message that was sent and not seen acknowledged. -/
structure MessageRecord (B : Type) where
  /-- The id under which it was sent last. -/
  messageId : Block B 16
  /-- What to send again on request. -/
  plaintext : List B
  /-- The user it went to, who alone may ask for it. -/
  recipientUser : List B
  /-- The session it was sent in last. -/
  sessionId : Block B 16
  /-- How often it was sent, failed attempts included. -/
  attempts : UInt32

/-- `SesameNode`. -/
structure SesameNode (B : Type) [Alphabet B] where
  /-- The user whose device this is. -/
  user : List B
  /-- The device. -/
  device : List B
  /-- The sessions with other devices. -/
  mgr : SessionManager B
  /-- The messages sent and not seen acknowledged. -/
  records : List (MessageRecord B)

/-- A node at its directory. What a node does to the directory is part of its state, so that a run
of calls is a run of desks. -/
structure Desk (B σ : Type) [Alphabet B] where
  /-- The node. -/
  node : SesameNode B
  /-- The state of the server it reaches other devices through. -/
  dir : σ

/-- The random draws of one device of a `send`, or of one envelope of a `receive_all`. -/
structure SesameDraws (B : Type) where
  /-- The ratchet secret of a new session. -/
  dhs : Block B 32
  /-- The id of a new session. -/
  sessionId : Block B 16
  /-- The ratchet secret of a Diffie-Hellman step on receiving. -/
  fresh : Block B 32

/-- `msg_id`. -/
def msgId (sha256 : List B → Block B 32) (sid : Block B 16) (now n : UInt64) : Block B 16 :=
  (sha256 (sid.val ++ le 8 now.toNat ++ le 8 n.toNat)).initial 16 (by decide)

/-- The session key of a resent message, `[9u8; 32]`. -/
def retryKey : Block B 32 := List.Vector.replicate 32 (ofNat 9)

namespace SesameNode

/-- `new`. -/
def new (user device : List B) (mgr : SessionManager B) : SesameNode B :=
  { user, device, mgr, records := [] }

/-- The effect of `records.push` in `send`. -/
def pushRecord (r : MessageRecord B) (node : SesameNode B) : SesameNode B :=
  { node with records := node.records ++ [r] }

/-- `self.records[idx].attempts += 1`. -/
def countAttempt (idx : ℕ) (node : SesameNode B) : SesameNode B :=
  { node with records := node.records.modify idx fun r ↦ { r with attempts := r.attempts + 1 } }

/-- The assignments of a new id and session to `self.records[idx]`. -/
def renewRecord (idx : ℕ) (messageId sessionId : Block B 16) (node : SesameNode B) : SesameNode B :=
  { node with records := node.records.modify idx fun r ↦ { r with messageId, sessionId } }

/-- The effect of a delivery receipt. -/
def removeRecords (messageId : Block B 16) (node : SesameNode B) : SesameNode B :=
  { node with records := node.records.filter fun r ↦ r.messageId ≠ messageId }

end SesameNode

namespace Desk

variable {σ : Type} (D : Directory B σ) (P : Primitives B) (sha256 : List B → Block B 32)

/-- The desk with another session manager. -/
def setMgr (mgr : SessionManager B) (w : Desk B σ) : Desk B σ :=
  { w with node := { w.node with mgr } }

/-- An envelope from this node. -/
def envelope (body : MailboxBody B) (w : Desk B σ) : MailboxEnvelope B :=
  { fromUser := w.node.user, fromDevice := w.node.device, body }

/-- `dir.send` of an envelope from this node. -/
def post (user device : List B) (body : MailboxBody B) (w : Desk B σ) :
    Except PrimitiveError Unit × Desk B σ :=
  let (res, dir) := D.send user device (w.envelope body) w.dir
  (res, { w with dir })

/-! ### Sending -/

/-- The arguments of `send` that its loops pass on. -/
structure Outgoing (B : Type) where
  /-- What to send. -/
  plaintext : List B
  /-- The identity the caller has of every recipient. -/
  remoteIdentity : IdentityMaterial B
  /-- The secret for new sessions. -/
  sk : Block B 32
  /-- The ratchet key for new sessions. -/
  remoteDh : Block B 32
  /-- The clock of the caller. -/
  now : UInt64

/-- The body of the inner loop of `send`: one message to one device, the `sent`-th of its user. -/
def sendOne (a : Outgoing B) (user device : List B) (sent : ℕ) (draws : SesameDraws B)
    (w : Desk B σ) : Except PrimitiveError (Block B 16) × Desk B σ :=
  match w.node.mgr.prepareOutbound P user device a.remoteIdentity a.sk a.remoteDh a.now draws.dhs
    draws.sessionId with
  | (.error err, mgr) => (.error err, w.setMgr mgr)
  | (.ok sid, mgr) =>
    match mgr.encryptActive P user device a.plaintext with
    | (.error err, mgr) => (.error err, w.setMgr mgr)
    | (.ok (header, ct), mgr) =>
      let messageId := msgId sha256 sid a.now (UInt64.ofNat sent)
      match (w.setMgr mgr).post D user device (.encrypted messageId sid header.encode ct true) with
      | (.error err, w) => (.error err, w)
      | (.ok (), w) =>
        let record : MessageRecord B :=
          { messageId, plaintext := a.plaintext, recipientUser := user, sessionId := sid
            attempts := 1 }
        (.ok messageId, { w with node := w.node.pushRecord record })

/-- The inner loop of `send`, over the devices of one user. -/
def sendDevices (a : Outgoing B) (user : List B) :
    List ((List B × Block B 32) × SesameDraws B) → ℕ → List (Block B 16) → Desk B σ →
      Except PrimitiveError (List (Block B 16)) × Desk B σ
  | [], _, ids, w => (.ok ids, w)
  | ((device, _), draws) :: rest, sent, ids, w =>
    if user = w.node.user ∧ device = w.node.device then sendDevices a user rest sent ids w
    else
      match w.sendOne D P sha256 a user device sent draws with
      | (.error err, w) => (.error err, w)
      | (.ok id, w) => sendDevices a user rest (sent + 1) (ids ++ [id]) w

/-- The outer loop of `send`, over the recipients. -/
def sendUsers (a : Outgoing B) :
    List (List B × (ℕ → SesameDraws B)) → List (Block B 16) → Desk B σ →
      Except PrimitiveError (List (Block B 16)) × Desk B σ
  | [], ids, w => (.ok ids, w)
  | (user, draws) :: rest, ids, w =>
    match D.queryDevices user w.dir with
    | .error _ => sendUsers a rest ids w
    | .ok devices =>
      match w.sendDevices D P sha256 a user (devices.mapIdx fun j d ↦ (d, draws j)) 0 ids with
      | (.error err, w) => (.error err, w)
      | (.ok ids, w) => sendUsers a rest ids w

/-- `send`, with the draws for each device of each recipient. -/
def send (recipients : List (List B)) (a : Outgoing B) (draws : ℕ → ℕ → SesameDraws B)
    (w : Desk B σ) : Except PrimitiveError (List (Block B 16)) × Desk B σ :=
  w.sendUsers D P sha256 a (recipients.mapIdx fun i user ↦ (user, draws i)) []

/-! ### Receiving -/

/-- `handle_retry` from the second attempt on: the message at `idx` once more, in the session that is
active now. -/
def resend (fromUser fromDevice : List B) (idx : ℕ) (r : MessageRecord B)
    (remoteIdentity : IdentityMaterial B) (now : UInt64) (draws : SesameDraws B) (w : Desk B σ) :
    Except PrimitiveError Unit × Desk B σ :=
  let w := { w with node := w.node.countAttempt idx }
  match w.node.mgr.prepareOutbound P fromUser fromDevice remoteIdentity retryKey
    remoteIdentity.identityKey now draws.dhs draws.sessionId with
  | (.error err, mgr) => (.error err, w.setMgr mgr)
  | (.ok sid, mgr) =>
    match mgr.encryptActive P fromUser fromDevice r.plaintext with
    | (.error err, mgr) => (.error err, w.setMgr mgr)
    | (.ok (header, ct), mgr) =>
      let newId := msgId sha256 sid now (r.attempts + 1).toUInt64
      let w := w.setMgr mgr
      let w := { w with node := w.node.renewRecord idx newId sid }
      w.post D fromUser fromDevice (.encrypted newId sid header.encode ct true)

/-- `handle_retry`. -/
def handleRetry (fromUser fromDevice : List B) (messageId : Block B 16)
    (remoteIdentity : IdentityMaterial B) (now : UInt64) (draws : SesameDraws B) (w : Desk B σ) :
    Except PrimitiveError Unit × Desk B σ :=
  match w.node.records.find? fun r ↦ r.messageId = messageId with
  | none => (.error .internal, w)
  | some r =>
    if maxResendAttempts ≤ r.attempts then (.error .limitExceeded, w)
    else if r.recipientUser ≠ fromUser then (.ok (), w)
    else
      let idx := w.node.records.findIdx fun r ↦ r.messageId = messageId
      w.resend D P sha256 fromUser fromDevice idx r remoteIdentity now draws

/-- The body of the loop of `receive_all`: one envelope, and the plaintext it adds to the output. -/
def receiveOne (remoteIdentity : IdentityMaterial B) (now : UInt64)
    (turn : MailboxEnvelope B × SesameDraws B) (w : Desk B σ) :
    Except PrimitiveError (Option (List B)) × Desk B σ :=
  let (env, draws) := turn
  match env.body with
  | .encrypted messageId sid header ct _ =>
    match Header.decode header with
    | .error err => (.error err, w)
    | .ok hdr =>
      match w.node.mgr.tryDecrypt P draws.fresh env.fromUser env.fromDevice sid hdr ct with
      | (.ok p, mgr) =>
        let mgr := (mgr.receiveOnSession env.fromUser env.fromDevice sid).2
        let mgr := (mgr.confirmSession env.fromUser env.fromDevice sid).2
        let (res, w) :=
          (w.setMgr mgr).post D env.fromUser env.fromDevice (.deliveryReceipt messageId)
        (res.map fun _ ↦ some p, w)
      | (.error _, mgr) =>
        let (res, w) := (w.setMgr mgr).post D env.fromUser env.fromDevice (.retryRequest messageId)
        (res.map fun _ ↦ none, w)
  | .retryRequest messageId =>
    let (res, w) :=
      w.handleRetry D P sha256 env.fromUser env.fromDevice messageId remoteIdentity now draws
    (res.map fun _ ↦ none, w)
  | .deliveryReceipt messageId => (.ok none, { w with node := w.node.removeRecords messageId })

/-- The loop of `receive_all`. -/
def receiveLoop (remoteIdentity : IdentityMaterial B) (now : UInt64) :
    List (MailboxEnvelope B × SesameDraws B) → List (List B) → Desk B σ →
      Except PrimitiveError (List (List B)) × Desk B σ
  | [], out, w => (.ok out, w)
  | turn :: rest, out, w =>
    match w.receiveOne D P sha256 remoteIdentity now turn with
    | (.error err, w) => (.error err, w)
    | (.ok p, w) => receiveLoop remoteIdentity now rest (out ++ p.toList) w

/-- `receive_all`, with the draws for each envelope. The mailbox is emptied before the loop. -/
def receiveAll (remoteIdentity : IdentityMaterial B) (now : UInt64) (draws : ℕ → SesameDraws B)
    (w : Desk B σ) : Except PrimitiveError (List (List B)) × Desk B σ :=
  let (inbox, dir) := D.fetch w.node.user w.node.device w.dir
  { w with dir }.receiveLoop D P sha256 remoteIdentity now
    (inbox.mapIdx fun i env ↦ (env, draws i)) []

end Desk

end VoiceChatCrypto
