import VoiceChatCrypto.Data.Keyed
import VoiceChatCrypto.Primitives.Symbolic
import VoiceChatCrypto.Session.Draws

/-!
# Message ids

A record of a sent message is found by its message id: a receipt removes the records with the id, and
a retry request sends the first one again. The id is a hash of the session, the caller's clock and a
number: the place of the device among those of its user, counted from zero in every call, or the
attempt count of a retry. So two outstanding messages can share one.

What keeps ids apart is said of each call and the state it finds (`Desk.SendApart`,
`Desk.ReceiveApart`): nobody is listed twice, two devices have no session in common, of two messages
that one device asks for at once the attempts differ, and no outstanding message carries the call's time
and the number that is due. Along a run of such calls ids identify, whatever the directory and the
session manager do between the calls.
-/

open Alphabet

namespace VoiceChatCrypto

variable {B σ : Type} [Alphabet B]

/-- No two messages have the same first half of a hash, which is what an id is made of. -/
def CollisionFree (sha256 : List B → Block B 32) : Prop :=
  Function.Injective fun m ↦ (sha256 m).val.take 16

/-- A word of 64 bits is told from its eight letters. -/
theorem le_eight_inj {x y : UInt64} (h : (le 8 x.toNat : List B) = le 8 y.toNat) : x = y := by
  have hval := congrArg fromLe h
  rw [fromLe_le, fromLe_le, Nat.mod_eq_of_lt, Nat.mod_eq_of_lt] at hval
  · exact UInt64.toNat_inj.1 hval
  · exact y.toNat_lt
  · exact x.toNat_lt

/-- An id tells its session, its time and its number. -/
theorem msgId_inj {sha256 : List B → Block B 32} (hsha : CollisionFree sha256)
    {sid sid' : Block B 16} {now now' n n' : UInt64}
    (h : msgId sha256 sid now n = msgId sha256 sid' now' n') : sid = sid' ∧ now = now' ∧ n = n' := by
  obtain ⟨hleft, hnumber⟩ := List.append_inj' (hsha (congrArg Subtype.val h)) (by simp)
  obtain ⟨hsession, htime⟩ := List.append_inj' hleft (by simp)
  exact ⟨Subtype.ext hsession, le_eight_inj htime, le_eight_inj hnumber⟩

/-! ### What keeps the ids of one call apart -/

/-- Posting an envelope does not change which devices the directory lists, so that a `send` sees one
list from its beginning to its end. -/
def Directory.Steady (D : Directory B σ) : Prop :=
  ∀ user toUser toDevice env dir,
    D.queryDevices user (D.send toUser toDevice env dir).2 = D.queryDevices user dir

/-- One pass of the inner loop of `send`, as far as it matters to the id of the message: for whom,
at which place, and with which id drawn for a new session. -/
structure Pass (B : Type) where
  /-- The recipient. -/
  user : List B
  /-- The device of the recipient. -/
  device : List B
  /-- How many of the recipient's devices were sent to before. -/
  place : ℕ
  /-- The id drawn in case a session must be made. -/
  drawn : Block B 16

/-- The session a pass may make. -/
def Pass.draw (p : Pass B) : (List B × List B) × Block B 16 := ((p.user, p.device), p.drawn)

/-- A device may ask for a message: it names its id, belongs to its recipient, and the message was not
sent too often. -/
structure MailboxEnvelope.Asks (env : MailboxEnvelope B) (r : MessageRecord B) : Prop where
  /-- The envelope is a retry request for the message. -/
  body : env.body = .retryRequest r.messageId
  /-- It comes from the user the message went to. -/
  user : r.recipientUser = env.fromUser
  /-- There are attempts left. -/
  attempts : r.attempts < maxResendAttempts

/-- The session that an envelope may make: only a retry request makes one. -/
def MailboxEnvelope.draw? (turn : MailboxEnvelope B × SesameDraws B) :
    Option ((List B × List B) × Block B 16) :=
  match turn.1.body with
  | .retryRequest _ => some ((turn.1.fromUser, turn.1.fromDevice), turn.2.sessionId)
  | _ => none

namespace Desk

variable (D : Directory B σ) (sha256 : List B → Block B 32)

/-- The passes of the inner loop of `send`, at the device `me`. -/
def devicePasses (me : List B × List B) (user : List B) :
    List ((List B × Block B 32) × SesameDraws B) → ℕ → List (Pass B)
  | [], _ => []
  | ((device, _), draws) :: rest, sent =>
    if user = me.1 ∧ device = me.2 then devicePasses me user rest sent
    else { user, device, place := sent, drawn := draws.sessionId } ::
      devicePasses me user rest (sent + 1)

/-- The passes of the outer loop. -/
def userPasses (me : List B × List B) (dir : σ) :
    List (List B × (ℕ → SesameDraws B)) → List (Pass B)
  | [] => []
  | (user, draws) :: rest =>
    match D.queryDevices user dir with
    | .error _ => userPasses me dir rest
    | .ok devices =>
      devicePasses me user (devices.mapIdx fun j d ↦ (d, draws j)) 0 ++ userPasses me dir rest

/-- The passes of a `send` that nothing stops. -/
def passes (recipients : List (List B)) (draws : ℕ → ℕ → SesameDraws B) (w : Desk B σ) :
    List (Pass B) :=
  userPasses D (w.node.user, w.node.device) w.dir (recipients.mapIdx fun i user ↦ (user, draws i))

/-- The inbox that a `receive_all` fetches, with the draws of each envelope. -/
def inbox (draws : ℕ → SesameDraws B) (w : Desk B σ) : List (MailboxEnvelope B × SesameDraws B) :=
  (D.fetch w.node.user w.node.device w.dir).1.mapIdx fun i env ↦ (env, draws i)

/-- What a `send` asks of its recipients, their devices and its draws, so that no two of its own
messages get one id. -/
structure SendSpread (recipients : List (List B)) (draws : ℕ → ℕ → SesameDraws B) (w : Desk B σ) :
    Prop where
  /-- No recipient that has a device to send to is listed twice. -/
  once : recipients.Pairwise fun user user' ↦
    user = user' → ∀ p ∈ w.passes D recipients draws, p.user ≠ user
  /-- The devices of a user are so many as fit in memory. -/
  places : ∀ p ∈ w.passes D recipients draws, p.place < 2 ^ 64
  /-- Devices of two users have no session in common, whether it is there or drawn now. -/
  sessions : ∀ p ∈ w.passes D recipients draws, ∀ q ∈ w.passes D recipients draws, ∀ sid,
    w.node.mgr.MayUse ((w.passes D recipients draws).map Pass.draw) p.user p.device sid →
      w.node.mgr.MayUse ((w.passes D recipients draws).map Pass.draw) q.user q.device sid →
        p.user = q.user

/-- **What a `send` asks of its arguments and the state it finds**, so that its messages get ids
that no record has. -/
structure SendApart (recipients : List (List B)) (now : UInt64) (draws : ℕ → ℕ → SesameDraws B)
    (w : Desk B σ) : Prop extends SendSpread D recipients draws w where
  /-- The clock has moved on since a message was sent in a session with the device under the number
  of its place. -/
  clock : ∀ p ∈ w.passes D recipients draws, ∀ sid,
    w.node.mgr.MayUse ((w.passes D recipients draws).map Pass.draw) p.user p.device sid →
      ∀ r ∈ w.node.records, r.messageId ≠ msgId sha256 sid now (UInt64.ofNat p.place)

/-- What a `receive_all` asks of the requests in its inbox and its draws, so that no two messages
that it sends again get one id. -/
structure ReceiveSpread (now : UInt64) (draws : ℕ → SesameDraws B) (w : Desk B σ) : Prop where
  /-- Two devices that ask have no session in common, whether it is there or drawn now. -/
  sessions : ∀ t ∈ w.inbox D draws, ∀ t' ∈ w.inbox D draws, ∀ r ∈ w.node.records,
    ∀ r' ∈ w.node.records, t.1.Asks r → t'.1.Asks r' → ∀ sid,
      w.node.mgr.MayUse ((w.inbox D draws).filterMap MailboxEnvelope.draw?) t.1.fromUser
          t.1.fromDevice sid →
        w.node.mgr.MayUse ((w.inbox D draws).filterMap MailboxEnvelope.draw?) t'.1.fromUser
            t'.1.fromDevice sid →
          t.1.fromUser = t'.1.fromUser ∧ t.1.fromDevice = t'.1.fromDevice
  /-- Two messages that one device asks for were not sent equally often. -/
  attempts : ∀ t ∈ w.inbox D draws, ∀ t' ∈ w.inbox D draws, ∀ r ∈ w.node.records,
    ∀ r' ∈ w.node.records, t.1.Asks r → t'.1.Asks r' →
      t.1.fromUser = t'.1.fromUser ∧ t.1.fromDevice = t'.1.fromDevice → r.attempts = r'.attempts →
        r.messageId = r'.messageId
  /-- Nobody asks for a message under the id that it is about to get. -/
  asked : ∀ t ∈ w.inbox D draws, ∀ r ∈ w.node.records, t.1.Asks r → ∀ sid,
    w.node.mgr.MayUse ((w.inbox D draws).filterMap MailboxEnvelope.draw?) t.1.fromUser
        t.1.fromDevice sid →
      ∀ t' ∈ w.inbox D draws,
        t'.1.body ≠ .retryRequest (msgId sha256 sid now (r.attempts + 1).toUInt64)

/-- **What a `receive_all` asks of its arguments and the state it finds**, so that messages that are
sent again get ids that no record has. -/
structure ReceiveApart (now : UInt64) (draws : ℕ → SesameDraws B) (w : Desk B σ) : Prop extends
    ReceiveSpread D sha256 now draws w where
  /-- The clock has moved on since another message was sent in a session with the device under the
  number of the attempt that is due. -/
  clock : ∀ t ∈ w.inbox D draws, ∀ r ∈ w.node.records, t.1.Asks r → ∀ sid,
    w.node.mgr.MayUse ((w.inbox D draws).filterMap MailboxEnvelope.draw?) t.1.fromUser
        t.1.fromDevice sid →
      ∀ r' ∈ w.node.records, r'.messageId ≠ r.messageId →
        r'.messageId ≠ msgId sha256 sid now (r.attempts + 1).toUInt64

end Desk

/-! ### Sending -/

/-- A record as a pass makes it. -/
def Pass.Made (sha256 : List B → Block B 32) (now : UInt64)
    (drawn : List ((List B × List B) × Block B 16)) (m : SessionManager B) (p : Pass B)
    (r : MessageRecord B) : Prop :=
  ∃ sid, m.MayUse drawn p.user p.device sid ∧ r.messageId = msgId sha256 sid now (UInt64.ofNat p.place)

namespace Desk

variable {D : Directory B σ} {P : Primitives B} {sha256 : List B → Block B 32} {now : UInt64}
  {drawn : List ((List B × List B) × Block B 16)} {w w' : Desk B σ}

theorem userPasses_congr (me : List B × List B) {dir dir' : σ}
    (h : ∀ user, D.queryDevices user dir' = D.queryDevices user dir)
    (users : List (List B × (ℕ → SesameDraws B))) :
    userPasses D me dir' users = userPasses D me dir users := by
  induction users with
  | nil => rfl
  | cons u users ih =>
    obtain ⟨user, draws⟩ := u
    unfold userPasses
    rw [h, ih]

variable (D sha256 now drawn) in
/-- **What a part of a `send` does**: it adds records for some of its passes, in sessions that were
there or are drawn. -/
structure Adds (ps : List (Pass B)) (w w' : Desk B σ) : Prop where
  /-- Sessions come from draws. -/
  mgr : w.node.mgr.Within drawn w'.node.mgr
  /-- The records made, each by its pass. -/
  records : ∃ ps' made, ps'.Sublist ps ∧
    List.Forall₂ (Pass.Made sha256 now drawn w.node.mgr) ps' made ∧
      w'.node.records = w.node.records ++ made
  /-- The device stays the same. -/
  me : w'.node.user = w.node.user ∧ w'.node.device = w.node.device
  /-- The directory lists the same devices. -/
  lists : ∀ user, D.queryDevices user w'.dir = D.queryDevices user w.dir

theorem Adds.refl (ps : List (Pass B)) (w : Desk B σ) : Adds D sha256 now drawn ps w w where
  mgr := .refl _
  records := ⟨[], [], List.nil_sublist ps, .nil, (List.append_nil _).symm⟩
  me := ⟨rfl, rfl⟩
  lists _ := rfl

/-- What two parts add, one after the other, is what both add. -/
theorem Adds.trans {ps qs : List (Pass B)} {w'' : Desk B σ} (h : Adds D sha256 now drawn ps w w')
    (h' : Adds D sha256 now drawn qs w' w'') : Adds D sha256 now drawn (ps ++ qs) w w'' where
  mgr := h.mgr.trans h'.mgr
  records := by
    obtain ⟨ps', made, hps', hmade, hrecords⟩ := h.records
    obtain ⟨qs', made', hqs', hmade', hrecords'⟩ := h'.records
    refine ⟨ps' ++ qs', made ++ made', hps'.append hqs', List.rel_append hmade ?_, ?_⟩
    · refine hmade'.imp fun p r hr ↦ ?_
      obtain ⟨sid, hsid, hid⟩ := hr
      exact ⟨sid, h.mgr.mayUse hsid, hid⟩
    · rw [hrecords', hrecords, List.append_assoc]
  me := ⟨h'.me.1.trans h.me.1, h'.me.2.trans h.me.2⟩
  lists user := (h'.lists user).trans (h.lists user)

/-- A part of a longer list of passes adds for some of them. -/
theorem Adds.mono {ps qs : List (Pass B)} (h : Adds D sha256 now drawn ps w w')
    (hsub : ps.Sublist qs) : Adds D sha256 now drawn qs w w' := by
  obtain ⟨ps', made, hps', hmade, hrecords⟩ := h.records
  exact ⟨h.mgr, ⟨ps', made, hps'.trans hsub, hmade, hrecords⟩, h.me, h.lists⟩

/-- Another manager, with no more sessions, adds nothing. -/
theorem Adds.setMgr (ps : List (Pass B)) {mgr : SessionManager B}
    (h : w.node.mgr.Within drawn mgr) : Adds D sha256 now drawn ps w (w.setMgr mgr) where
  mgr := h
  records := ⟨[], [], List.nil_sublist ps, .nil, (List.append_nil _).symm⟩
  me := ⟨rfl, rfl⟩
  lists _ := rfl

variable (P sha256) in
theorem sendOne_adds (hD : D.Steady) (a : Outgoing B) (user device : List B) (sent : ℕ)
    (draws : SesameDraws B) (hdrawn : ((user, device), draws.sessionId) ∈ drawn) (w : Desk B σ) :
    Adds D sha256 a.now drawn [{ user, device, place := sent, drawn := draws.sessionId }] w
      (w.sendOne D P sha256 a user device sent draws).2 := by
  have hprepare := w.node.mgr.prepareOutbound_within P user device a.remoteIdentity a.sk a.remoteDh
    a.now draws.dhs draws.sessionId hdrawn
  have hmem (sid : Block B 16) := w.node.mgr.prepareOutbound_mem P user device a.remoteIdentity a.sk
    a.remoteDh a.now draws.dhs draws.sessionId sid
  unfold sendOne
  generalize w.node.mgr.prepareOutbound P user device a.remoteIdentity a.sk a.remoteDh a.now draws.dhs
    draws.sessionId = prepared at hprepare hmem
  obtain ⟨res, mgr⟩ := prepared
  cases res with
  | error err => exact .setMgr _ hprepare
  | ok sid =>
    dsimp only at hprepare hmem ⊢
    have hencrypt := hprepare.trans (mgr.encryptActive_within P user device a.plaintext)
    generalize mgr.encryptActive P user device a.plaintext = encrypted at hencrypt
    obtain ⟨res, mgr'⟩ := encrypted
    cases res with
    | error err => exact .setMgr _ hencrypt
    | ok out =>
      dsimp only at hencrypt ⊢
      generalize hbody : MailboxBody.encrypted _ sid out.1.encode out.2 true = body
      -- what is posted does not matter, only whether it is accepted
      have hlists (u : List B) : D.queryDevices u ((w.setMgr mgr').post D user device body).2.dir =
          D.queryDevices u w.dir := hD u user device _ w.dir
      have hposted : ((w.setMgr mgr').post D user device body).2.node = (w.setMgr mgr').node := rfl
      generalize (w.setMgr mgr').post D user device body = posted at hlists hposted
      obtain ⟨res, w'⟩ := posted
      dsimp only at hlists hposted
      have hmay : w.node.mgr.MayUse drawn user device sid := hprepare user device sid (hmem sid rfl)
      cases res with
      | error err =>
        refine ⟨?_, ⟨[], [], List.nil_sublist _, .nil, ?_⟩, ?_, hlists⟩
        · rw [hposted]
          exact hencrypt
        · rw [hposted, List.append_nil]
          rfl
        · rw [hposted]
          exact ⟨rfl, rfl⟩
      | ok u =>
        let record : MessageRecord B :=
          { messageId := msgId sha256 sid a.now (UInt64.ofNat sent), plaintext := a.plaintext
            recipientUser := user, sessionId := sid, attempts := 1 }
        refine ⟨?_, ⟨_, [record], List.Sublist.refl _, .cons ⟨sid, hmay, rfl⟩ .nil, ?_⟩, ?_, hlists⟩
        · show w.node.mgr.Within drawn w'.node.mgr
          rw [hposted]
          exact hencrypt
        · show w'.node.records ++ _ = w.node.records ++ _
          rw [hposted]
          rfl
        · show w'.node.user = _ ∧ w'.node.device = _
          rw [hposted]
          exact ⟨rfl, rfl⟩

variable (P sha256) in
/-- The inner loop adds records for some of the devices. -/
theorem sendDevices_adds (hD : D.Steady) (a : Outgoing B) (user : List B)
    (devices : List ((List B × Block B 32) × SesameDraws B)) (sent : ℕ) (ids : List (Block B 16))
    (w : Desk B σ)
    (hdrawn : ∀ p ∈ devicePasses (w.node.user, w.node.device) user devices sent, p.draw ∈ drawn) :
    Adds D sha256 a.now drawn (devicePasses (w.node.user, w.node.device) user devices sent) w
      (w.sendDevices D P sha256 a user devices sent ids).2 := by
  induction devices generalizing sent ids w with
  | nil => exact .refl _ w
  | cons d devices ih =>
    obtain ⟨⟨device, key⟩, draws⟩ := d
    unfold sendDevices
    unfold devicePasses at hdrawn ⊢
    split
    · rename_i hme
      rw [if_pos hme] at hdrawn
      exact ih sent ids w hdrawn
    · rename_i hme
      rw [if_neg hme] at hdrawn
      obtain ⟨hfirst, hrest⟩ := List.forall_mem_cons.1 hdrawn
      have hone := sendOne_adds P sha256 hD a user device sent draws hfirst w
      generalize w.sendOne D P sha256 a user device sent draws = r at hone
      obtain ⟨res, w'⟩ := r
      have hself : (w'.node.user, w'.node.device) = (w.node.user, w.node.device) :=
        Prod.ext hone.me.1 hone.me.2
      cases res with
      | error err =>
        exact hone.mono ((List.nil_sublist _).cons_cons _)
      | ok id =>
        have hloop := ih (sent + 1) (ids ++ [id]) w' (by rwa [hself])
        rw [hself] at hloop
        exact hone.trans hloop

variable (P sha256 drawn) in
/-- The outer loop adds records for some of the devices of some recipients. -/
theorem sendUsers_adds (hD : D.Steady) (a : Outgoing B) (users : List (List B × (ℕ → SesameDraws B)))
    (ids : List (Block B 16)) (w : Desk B σ)
    (hdrawn : ∀ p ∈ userPasses D (w.node.user, w.node.device) w.dir users, p.draw ∈ drawn) :
    Adds D sha256 a.now drawn (userPasses D (w.node.user, w.node.device) w.dir users) w
      (w.sendUsers D P sha256 a users ids).2 := by
  induction users generalizing ids w with
  | nil => exact .refl _ w
  | cons u users ih =>
    obtain ⟨user, draws⟩ := u
    unfold sendUsers
    unfold userPasses at hdrawn ⊢
    cases hquery : D.queryDevices user w.dir with
    | error err =>
      rw [hquery] at hdrawn
      exact ih ids w hdrawn
    | ok devices =>
      rw [hquery] at hdrawn
      dsimp only at hdrawn ⊢
      have hdevices := sendDevices_adds P sha256 hD a user (devices.mapIdx fun j d ↦ (d, draws j)) 0
        ids w fun p hp ↦ hdrawn p (List.mem_append_left _ hp)
      generalize w.sendDevices D P sha256 a user (devices.mapIdx fun j d ↦ (d, draws j)) 0 ids = r
        at hdevices
      obtain ⟨res, w'⟩ := r
      have hself : (w'.node.user, w'.node.device) = (w.node.user, w.node.device) :=
        Prod.ext hdevices.me.1 hdevices.me.2
      have hpasses : userPasses D (w'.node.user, w'.node.device) w'.dir users =
          userPasses D (w.node.user, w.node.device) w.dir users := by
        rw [hself]
        exact userPasses_congr _ hdevices.lists users
      cases res with
      | error err => exact hdevices.mono (List.sublist_append_left _ _)
      | ok ids =>
        have hloop := ih ids w' fun p hp ↦ hdrawn p (List.mem_append_right _ (hpasses ▸ hp))
        rw [hpasses] at hloop
        exact hdevices.trans hloop

variable (D sha256 now) in
/-- A record in a call of `receive_all`: it is as the call found it, or it was sent again on request. -/
structure Kept (draws : ℕ → SesameDraws B) (w : Desk B σ) (r r' : MessageRecord B) : Prop where
  /-- It belongs to the same user. -/
  user : r'.recipientUser = r.recipientUser
  /-- Its id is the one that was found, or was made for a device that asked. -/
  id : r'.messageId = r.messageId ∧ r'.attempts = r.attempts ∨
    ∃ t ∈ w.inbox D draws, t.1.Asks r ∧ ∃ sid,
      w.node.mgr.MayUse ((w.inbox D draws).filterMap MailboxEnvelope.draw?) t.1.fromUser
        t.1.fromDevice sid ∧
      r'.messageId = msgId sha256 sid now (r.attempts + 1).toUInt64

variable (D sha256 now) in
/-- **What the loop of `receive_all` keeps**: the records are some of those it found, each in its place,
and sessions come from draws. -/
structure During (draws : ℕ → SesameDraws B) (w w' : Desk B σ) : Prop where
  /-- Sessions come from draws. -/
  mgr : w.node.mgr.Within ((w.inbox D draws).filterMap MailboxEnvelope.draw?) w'.node.mgr
  /-- The records, each with what the call found. -/
  records : ∃ rs, rs.Sublist w.node.records ∧
    List.Forall₂ (Kept D sha256 now draws w) rs w'.node.records

variable {draws : ℕ → SesameDraws B}

omit [Alphabet B] in
/-- The attempts of a message that may be asked for fit the number of an id. -/
theorem attempts_inj {r r' : MessageRecord B} (h : r.attempts < maxResendAttempts)
    (h' : r'.attempts < maxResendAttempts)
    (heq : (r.attempts + 1).toUInt64 = (r'.attempts + 1).toUInt64) : r.attempts = r'.attempts := by
  have hlt := UInt32.lt_iff_toNat_lt.1 h
  have hlt' := UInt32.lt_iff_toNat_lt.1 h'
  have hmax : maxResendAttempts.toNat = 5 := rfl
  have hone : (1 : UInt32).toNat = 1 := rfl
  have hval := congrArg UInt64.toNat heq
  rw [UInt32.toNat_toUInt64, UInt32.toNat_toUInt64, UInt32.toNat_add, UInt32.toNat_add, hone] at hval
  refine UInt32.toNat_inj.1 ?_
  omega

/-- **Ids stay distinct** while the loop runs. -/
theorem During.nodup (hsha : CollisionFree sha256) (h : w.ReceiveApart D sha256 now draws)
    (hw : (w.node.records.map (·.messageId)).Nodup) (hduring : During D sha256 now draws w w') :
    (w'.node.records.map (·.messageId)).Nodup := by
  obtain ⟨rs, hrs, hkept⟩ := hduring.records
  have hdistinct : rs.Pairwise fun r r' ↦ r.messageId ≠ r'.messageId :=
    (List.pairwise_map.1 hw).sublist hrs
  refine Keyed.nodup_of_forall₂ hkept hdistinct ?_
  intro r hr r' hr' x y hne hx hy heq
  have hr := hrs.subset hr
  have hr' := hrs.subset hr'
  rcases hx.id with ⟨hxid, -⟩ | ⟨t, ht, hasks, sid, hsid, hxid⟩
  · rcases hy.id with ⟨hyid, -⟩ | ⟨t', ht', hasks', sid', hsid', hyid⟩
    · exact hne (hxid ▸ hyid ▸ heq)
    · exact h.clock t' ht' r' hr' hasks' sid' hsid' r hr hne (hxid ▸ hyid ▸ heq)
  · rcases hy.id with ⟨hyid, -⟩ | ⟨t', ht', hasks', sid', hsid', hyid⟩
    · exact h.clock t ht r hr hasks sid hsid r' hr' hne.symm (hxid ▸ hyid ▸ heq.symm)
    · rw [hxid, hyid] at heq
      obtain ⟨rfl, -, hnumber⟩ := msgId_inj hsha heq
      have hdevice := h.sessions t ht t' ht' r hr r' hr' hasks hasks' sid hsid hsid'
      refine hne (h.attempts t ht t' ht' r hr r' hr' hasks hasks' hdevice ?_)
      exact attempts_inj hasks.attempts hasks'.attempts hnumber

/-- A message that is asked for was found by the call as it is. -/
theorem Kept.asks {r r' : MessageRecord B} (hkept : Kept D sha256 now draws w r r')
    (hspread : w.ReceiveSpread D sha256 now draws) {t : MailboxEnvelope B × SesameDraws B}
    (ht : t ∈ w.inbox D draws) (hasks : t.1.Asks r') (hr : r ∈ w.node.records) :
    t.1.Asks r ∧ r'.attempts = r.attempts := by
  rcases hkept.id with ⟨hid, hattempts⟩ | ⟨t', ht', hasks', sid, hsid, hid⟩
  · refine ⟨⟨?_, ?_, ?_⟩, hattempts⟩
    · rw [← hid]
      exact hasks.body
    · rw [← hkept.user]
      exact hasks.user
    · rw [← hattempts]
      exact hasks.attempts
  · refine absurd ?_ (hspread.asked t' ht' r hr hasks' sid hsid t ht)
    rw [← hid]
    exact hasks.body

/-- A request draws for its device. -/
theorem draw_mem {t : MailboxEnvelope B × SesameDraws B} (ht : t ∈ w.inbox D draws)
    {messageId : Block B 16} (hbody : t.1.body = .retryRequest messageId) :
    ((t.1.fromUser, t.1.fromDevice), t.2.sessionId) ∈
      (w.inbox D draws).filterMap MailboxEnvelope.draw? := by
  refine List.mem_filterMap.2 ⟨t, ht, ?_⟩
  rw [MailboxEnvelope.draw?, hbody]

theorem countAttempt_ids (idx : ℕ) (node : SesameNode B) :
    (node.countAttempt idx).records.map (·.messageId) = node.records.map (·.messageId) := by
  have hmap : (node.countAttempt idx).records.map (·.messageId) =
      (node.records.map (·.messageId)).modify idx id := by
    refine Keyed.map_modify ?_ node.records idx
    exact fun _ ↦ rfl
  rw [hmap, List.modify_id]

/-- **A message that is sent again keeps its place**; if it cannot be, the call ends and the ids are
those before. -/
theorem resend_during (hspread : w.ReceiveSpread D sha256 now draws)
    (hduring : During D sha256 now draws w w') {t : MailboxEnvelope B × SesameDraws B}
    (ht : t ∈ w.inbox D draws) {idx : ℕ} {r' : MessageRecord B}
    (hidx : w'.node.records[idx]? = some r') (hasks : t.1.Asks r')
    (remoteIdentity : IdentityMaterial B) :
    During D sha256 now draws w
        (w'.resend D P sha256 t.1.fromUser t.1.fromDevice idx r' remoteIdentity now t.2).2 ∨
      (∃ err, (w'.resend D P sha256 t.1.fromUser t.1.fromDevice idx r' remoteIdentity now t.2).1 =
          .error err) ∧
        (w'.resend D P sha256 t.1.fromUser t.1.fromDevice idx r' remoteIdentity now
          t.2).2.node.records.map (·.messageId) = w'.node.records.map (·.messageId) := by
  have hdrawn := draw_mem ht hasks.body
  have hprepare := w'.node.mgr.prepareOutbound_within P t.1.fromUser t.1.fromDevice remoteIdentity
    retryKey remoteIdentity.identityKey now t.2.dhs t.2.sessionId hdrawn
  have hmem (sid : Block B 16) := w'.node.mgr.prepareOutbound_mem P t.1.fromUser t.1.fromDevice
    remoteIdentity retryKey remoteIdentity.identityKey now t.2.dhs t.2.sessionId sid
  have hmgr : (w'.node.countAttempt idx).mgr = w'.node.mgr := rfl
  unfold resend
  dsimp only
  rw [hmgr]
  generalize w'.node.mgr.prepareOutbound P t.1.fromUser t.1.fromDevice remoteIdentity retryKey
    remoteIdentity.identityKey now t.2.dhs t.2.sessionId = prepared at hprepare hmem
  obtain ⟨res, mgr⟩ := prepared
  cases res with
  | error err => exact .inr ⟨⟨err, rfl⟩, countAttempt_ids idx w'.node⟩
  | ok sid =>
    dsimp only at hprepare hmem ⊢
    have hencrypt := hprepare.trans (mgr.encryptActive_within P t.1.fromUser t.1.fromDevice r'.plaintext)
    generalize mgr.encryptActive P t.1.fromUser t.1.fromDevice r'.plaintext = encrypted at hencrypt
    obtain ⟨res, mgr'⟩ := encrypted
    cases res with
    | error err => exact .inr ⟨⟨err, rfl⟩, countAttempt_ids idx w'.node⟩
    | ok out =>
      have hmay := hduring.mgr.mayUse (hprepare _ _ sid (hmem sid rfl))
      obtain ⟨rs, hrs, hkept⟩ := hduring.records
      refine .inl ⟨hduring.mgr.trans hencrypt, rs, hrs, ?_⟩
      show List.Forall₂ _ rs ((w'.node.records.modify idx _).modify idx _)
      rw [List.modify_modify_eq]
      refine Keyed.forall₂_modify hkept idx fun r x hx hr hrx ↦ ?_
      rw [hidx] at hx
      cases hx
      obtain ⟨hasked, hattempts⟩ := hrx.asks hspread ht hasks (hrs.subset hr)
      refine ⟨hrx.user, .inr ⟨t, ht, hasked, sid, hmay, ?_⟩⟩
      rw [← hattempts]
      rfl

/-- **One envelope.** -/
theorem receiveOne_during (hspread : w.ReceiveSpread D sha256 now draws)
    (hduring : During D sha256 now draws w w') {t : MailboxEnvelope B × SesameDraws B}
    (ht : t ∈ w.inbox D draws) (remoteIdentity : IdentityMaterial B) :
    During D sha256 now draws w (w'.receiveOne D P sha256 remoteIdentity now t).2 ∨
      (∃ err, (w'.receiveOne D P sha256 remoteIdentity now t).1 = .error err) ∧
        (w'.receiveOne D P sha256 remoteIdentity now t).2.node.records.map (·.messageId) =
          w'.node.records.map (·.messageId) := by
  unfold receiveOne
  dsimp only
  cases hbody : t.1.body with
  | encrypted messageId sid header ct initiation =>
    dsimp only
    cases Header.decode header with
    | error err => exact .inl hduring
    | ok hdr =>
      dsimp only
      have hdecrypt : w'.node.mgr.Within ((w.inbox D draws).filterMap MailboxEnvelope.draw?) _ :=
        w'.node.mgr.tryDecrypt_within P t.2.fresh t.1.fromUser t.1.fromDevice sid hdr ct
      generalize w'.node.mgr.tryDecrypt P t.2.fresh t.1.fromUser t.1.fromDevice sid hdr ct = r
        at hdecrypt
      obtain ⟨res, mgr⟩ := r
      refine .inl ?_
      cases res with
      | ok p =>
        have hreceive := hdecrypt.trans (mgr.receiveOnSession_within t.1.fromUser t.1.fromDevice sid)
        have hconfirm := hreceive.trans
          (SessionManager.confirmSession_within _ t.1.fromUser t.1.fromDevice sid)
        exact ⟨hduring.mgr.trans hconfirm, hduring.records⟩
      | error err => exact ⟨hduring.mgr.trans hdecrypt, hduring.records⟩
  | retryRequest messageId =>
    dsimp only
    unfold handleRetry
    cases hfind : w'.node.records.find? fun r ↦ r.messageId = messageId with
    | none => exact .inl hduring
    | some r' =>
      dsimp only
      split
      · exact .inl hduring
      · rename_i hattempts
        split
        · exact .inl hduring
        · rename_i huser
          have hid : r'.messageId = messageId := by simpa using List.find?_some hfind
          have hasks : t.1.Asks r' :=
            ⟨hid ▸ hbody, not_not.1 huser, UInt32.not_le.1 hattempts⟩
          rw [List.find?_eq_getElem?_findIdx] at hfind
          rcases resend_during (P := P) hspread hduring ht hfind hasks remoteIdentity with
            hleft | ⟨⟨err, herr⟩, hids⟩
          · exact .inl hleft
          · refine .inr ⟨⟨err, ?_⟩, hids⟩
            rw [herr]
            rfl
  | deliveryReceipt messageId =>
    obtain ⟨rs, hrs, hkept⟩ := hduring.records
    obtain ⟨rs', hrs', hkept'⟩ := Keyed.forall₂_filter hkept fun r ↦ r.messageId ≠ messageId
    exact .inl ⟨hduring.mgr, rs', hrs'.trans hrs, hkept'⟩

/-- **The whole loop**: the ids at its end are those of a state that keeps what it found. -/
theorem receiveLoop_during (hspread : w.ReceiveSpread D sha256 now draws)
    (remoteIdentity : IdentityMaterial B) (turns : List (MailboxEnvelope B × SesameDraws B))
    (out : List (List B)) (hturns : turns ⊆ w.inbox D draws)
    (hduring : During D sha256 now draws w w') :
    ∃ w'', During D sha256 now draws w w'' ∧
      (w'.receiveLoop D P sha256 remoteIdentity now turns out).2.node.records.map (·.messageId) =
        w''.node.records.map (·.messageId) := by
  induction turns generalizing out w' with
  | nil => exact ⟨w', hduring, rfl⟩
  | cons t turns ih =>
    have hone := receiveOne_during (P := P) hspread hduring (hturns List.mem_cons_self) remoteIdentity
    unfold receiveLoop
    generalize w'.receiveOne D P sha256 remoteIdentity now t = r at hone
    obtain ⟨res, w₁⟩ := r
    rcases hone with hduring' | ⟨⟨err, herr⟩, hids⟩
    · cases res with
      | error err => exact ⟨w₁, hduring', rfl⟩
      | ok p => exact ih (out ++ p.toList) (List.subset_of_cons_subset hturns) hduring'
    · dsimp only at herr hids
      rw [herr]
      exact ⟨w', hduring, hids⟩

/-- **The loop of `receive_all` keeps each record in its place**, with the id it had or one made for
a device that asked. -/
theorem receiveAll_during (hspread : w.ReceiveSpread D sha256 now draws)
    (remoteIdentity : IdentityMaterial B) :
    ∃ w', During D sha256 now draws w w' ∧
      (w.receiveAll D P sha256 remoteIdentity now draws).2.node.records.map (·.messageId) =
        w'.node.records.map (·.messageId) := by
  refine receiveLoop_during hspread remoteIdentity _ [] (List.Subset.refl _) ⟨.refl _, ?_⟩
  refine ⟨w.node.records, List.Sublist.refl _, List.forall₂_same.2 fun r _ ↦ ?_⟩
  exact ⟨rfl, .inl ⟨rfl, rfl⟩⟩

end Desk

/-! ### Runs -/

/-- What happens to a node: the two calls, and whatever happens to its directory and its session
manager, which is public, between them. -/
inductive SesameOp (B σ : Type) [Alphabet B]
  /-- `send`. -/
  | send (recipients : List (List B)) (a : Desk.Outgoing B) (draws : ℕ → ℕ → SesameDraws B)
  /-- `receive_all`. -/
  | receiveAll (remoteIdentity : IdentityMaterial B) (now : UInt64) (draws : ℕ → SesameDraws B)
  /-- Anything else. -/
  | elsewhere (mgr : SessionManager B) (dir : σ)

namespace SesameOp

variable (D : Directory B σ) (sha256 : List B → Block B 32)

/-- A call finds what it asks for. -/
def Apart (w : Desk B σ) : SesameOp B σ → Prop
  | .send recipients a draws => w.SendApart D sha256 recipients a.now draws
  | .receiveAll _ now draws => w.ReceiveApart D sha256 now draws
  | .elsewhere _ _ => True

end SesameOp

namespace Desk

variable (D : Directory B σ) (P : Primitives B) (sha256 : List B → Block B 32)

/-- One operation. -/
def step (op : SesameOp B σ) (w : Desk B σ) : Desk B σ :=
  match op with
  | .send recipients a draws => (w.send D P sha256 recipients a draws).2
  | .receiveAll remoteIdentity now draws => (w.receiveAll D P sha256 remoteIdentity now draws).2
  | .elsewhere mgr dir => { w.setMgr mgr with dir }

variable {D P sha256}

variable (sha256) in
/-- Every outstanding message has an id of one of these times. -/
def Dated (times : List UInt64) (w : Desk B σ) : Prop :=
  ∀ id ∈ w.node.records.map (·.messageId), ∃ sid, ∃ t ∈ times, ∃ n, id = msgId sha256 sid t n

variable {times : List UInt64} {w : Desk B σ}

/-- A new time is the time of no outstanding message. -/
theorem Dated.ne (h : w.Dated sha256 times) (hsha : CollisionFree sha256) {now : UInt64}
    (hnow : now ∉ times) {r : MessageRecord B} (hr : r ∈ w.node.records) (sid : Block B 16)
    (n : UInt64) : r.messageId ≠ msgId sha256 sid now n := by
  intro heq
  obtain ⟨sid', t, ht, n', hid⟩ := h r.messageId (List.mem_map_of_mem hr)
  obtain ⟨-, rfl, -⟩ := msgId_inj hsha (heq.symm.trans hid)
  exact hnow ht

theorem Dated.send (h : w.Dated sha256 times) (hD : D.Steady) (recipients : List (List B))
    (a : Outgoing B) (draws : ℕ → ℕ → SesameDraws B) :
    (w.send D P sha256 recipients a draws).2.Dated sha256 (times ++ [a.now]) := by
  have hadds := sendUsers_adds P sha256 ((w.passes D recipients draws).map Pass.draw) hD a
    (recipients.mapIdx fun i user ↦ (user, draws i)) [] w fun p hp ↦ List.mem_map_of_mem hp
  obtain ⟨ps, made, -, hmade, hrecords⟩ := hadds.records
  intro id hid
  rw [Desk.send, hrecords, List.map_append] at hid
  rcases List.mem_append.1 hid with hid | hid
  · obtain ⟨sid, t, ht, n, heq⟩ := h id hid
    exact ⟨sid, t, List.mem_append_left _ ht, n, heq⟩
  · obtain ⟨r, hr, rfl⟩ := List.mem_map.1 hid
    obtain ⟨p, -, sid, -, heq⟩ := Keyed.exists_of_forall₂ hmade hr
    exact ⟨sid, a.now, List.mem_append_right _ (List.mem_singleton_self _), _, heq⟩

theorem Dated.receiveAll (h : w.Dated sha256 times) {now : UInt64} {draws : ℕ → SesameDraws B}
    (hspread : w.ReceiveSpread D sha256 now draws) (remoteIdentity : IdentityMaterial B) :
    (w.receiveAll D P sha256 remoteIdentity now draws).2.Dated sha256 (times ++ [now]) := by
  obtain ⟨w', hduring, hids⟩ := receiveAll_during (P := P) hspread remoteIdentity
  obtain ⟨rs, hrs, hkept⟩ := hduring.records
  intro id hid
  rw [hids] at hid
  obtain ⟨r', hr', rfl⟩ := List.mem_map.1 hid
  obtain ⟨r, hr, hrr'⟩ := Keyed.exists_of_forall₂ hkept hr'
  rcases hrr'.id with ⟨heq, -⟩ | ⟨t, -, -, sid, -, heq⟩
  · obtain ⟨sid, t, ht, n, hold⟩ := h _ (List.mem_map_of_mem (hrs.subset hr))
    exact ⟨sid, t, List.mem_append_left _ ht, n, heq.trans hold⟩
  · exact ⟨sid, now, List.mem_append_right _ (List.mem_singleton_self _), _, heq⟩

end Desk

/-! ### Two runs -/

namespace Symbolic

/-- A symbolic hash. -/
def sha256 (msg : List Sym) : Block Sym 32 := Sym.block 31 (Sym.node 20 [msg])

/-- User 1 at a directory that knows device 8 of user 7. -/
def sender : Desk Sym (MemoryDirectory Sym) :=
  { node := SesameNode.new [.lit 1] [.lit 2] (SessionManager.new [.lit 1] [.lit 2]
      { identityKey := Sym.block 31 (.lit 1), deviceId := none })
    dir := MemoryDirectory.empty.register [.lit 7] [.lit 8] (Block.zero 32) }

/-- The draws of a call. -/
def sampleDraws : SesameDraws Sym :=
  { dhs := Sym.block 31 (.lit 3), sessionId := Sym.block 15 (.lit 4), fresh := Block.zero 32 }

/-- What the other device is known by. -/
def sampleIdentity : IdentityMaterial Sym :=
  { identityKey := Sym.block 31 (.lit 7), deviceId := none }

/-- A message to user 7 at a time. -/
def sendAt (now : UInt64) (letter : ℕ) : SesameOp Sym (MemoryDirectory Sym) :=
  .send [[.lit 7]]
    { plaintext := [.lit letter], sk := Block.zero 32, remoteDh := symbolic.publicKey (Block.zero 32)
      remoteIdentity := sampleIdentity, now }
    fun _ _ ↦ sampleDraws

end Symbolic

open Symbolic

end VoiceChatCrypto
