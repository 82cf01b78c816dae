import VoiceChatCrypto.Data.Potential
import VoiceChatCrypto.Data.Sums
import VoiceChatCrypto.Session.MessageIds

/-!
# Retries die out

Nodes answer what they find in their mailboxes: a message with a receipt or with a request to send it
again, and such a request with the message once more. Nothing in the code of one node says that this
ends. It does, because a message is sent at most five times (`maxResendAttempts`) and every envelope
gets one answer at most.

An `Exchange` is any number of nodes at one `MemoryDirectory`. The potential of an exchange gives an
envelope that waits in a mailbox two units if it holds a message and one unit otherwise, and the record
of a message two units for each time it can still be sent. Ten units pay for a message from beginning
to end.
-/

open Alphabet

/-! ### Sums over lists -/

namespace List

variable {α : Type*}

/-- A change at one place exchanges one summand. -/
theorem sum_map_modify (g : α → ℕ) (f : α → α) {l : List α} {i : ℕ} {a : α} (h : l[i]? = some a) :
    ((l.modify i f).map g).sum + g a = (l.map g).sum + g (f a) := by
  induction l generalizing i with
  | nil => cases h
  | cons b l ih =>
    cases i with
    | zero =>
      cases h
      simp only [modify_zero_cons, map_cons, sum_cons]
      omega
    | succ i =>
      have := ih (i := i) h
      simp only [modify_succ_cons, map_cons, sum_cons]
      omega

end List

namespace VoiceChatCrypto

variable {B : Type} [Alphabet B]

/-! ### The potential -/

/-- The units of an envelope in a mailbox. -/
def MailboxEnvelope.weight (env : MailboxEnvelope B) : ℕ :=
  match env.body with
  | .encrypted .. => 2
  | .retryRequest _ => 1
  | .deliveryReceipt _ => 1

omit [Alphabet B] in
theorem MailboxEnvelope.one_le_weight (env : MailboxEnvelope B) : 1 ≤ env.weight := by
  unfold weight
  split <;> decide

omit [Alphabet B] in
theorem MailboxEnvelope.weight_le_two (env : MailboxEnvelope B) : env.weight ≤ 2 := by
  unfold weight
  split <;> decide

/-- The units of the envelopes of a mailbox. -/
def boxLoad (box : List (MailboxEnvelope B)) : ℕ := (box.map MailboxEnvelope.weight).sum

omit [Alphabet B] in
theorem length_le_boxLoad (box : List (MailboxEnvelope B)) : box.length ≤ boxLoad box := by
  have hone : ∀ n ∈ box.map MailboxEnvelope.weight, 1 ≤ n := by
    intro n hn
    obtain ⟨env, -, rfl⟩ := List.mem_map.1 hn
    exact env.one_le_weight
  have hlength := List.length_le_sum_of_one_le _ hone
  rwa [List.length_map] at hlength

omit [Alphabet B] in
theorem boxLoad_le_of_subperm {box box' : List (MailboxEnvelope B)} (h : box'.Subperm box) :
    boxLoad box' ≤ boxLoad box := by
  obtain ⟨l, hperm, hsub⟩ := h
  rw [boxLoad, boxLoad, ← (hperm.map MailboxEnvelope.weight).sum_eq]
  exact (hsub.map MailboxEnvelope.weight).sum_le_sum fun _ _ ↦ Nat.zero_le _

/-- The units of all mailboxes. -/
def MemoryDirectory.load (d : MemoryDirectory B) : ℕ := Dict.sum boxLoad d.boxes

/-- The units of a record: two for each time the message can still be sent. -/
def MessageRecord.reserve (r : MessageRecord B) : ℕ := 2 * (maxResendAttempts.toNat - r.attempts.toNat)

/-- The units of the records of a node. -/
def SesameNode.reserve (node : SesameNode B) : ℕ := (node.records.map MessageRecord.reserve).sum

/-- The units that a node and the mailboxes have. -/
def Desk.units (w : Desk B (MemoryDirectory B)) : ℕ := w.node.reserve + w.dir.load

/-! ### Mailboxes -/

namespace MemoryDirectory

omit [Alphabet B] in
theorem boxLoad_append (box : List (MailboxEnvelope B)) (env : MailboxEnvelope B) :
    boxLoad (box ++ [env]) = boxLoad box + env.weight := by
  simp only [boxLoad, List.map_append, List.map_singleton, List.sum_append, List.sum_singleton]

/-- Another mailbox in the place of one. -/
theorem load_insert (d : MemoryDirectory B) (key : List B × List B) (box : List (MailboxEnvelope B)) :
    (⟨d.devices, d.boxes.insert key box⟩ : MemoryDirectory B).load +
      (d.boxes.lookup key).elim 0 boxLoad = d.load + boxLoad box :=
  Dict.sum_insert boxLoad d.boxes key box

/-- Sending fails, or adds the envelope. -/
theorem send_spec (user device : List B) (env : MailboxEnvelope B) (d : MemoryDirectory B) :
    (∃ err, directory.send user device env d = (.error err, d)) ∨
      ∃ d', directory.send user device env d = (.ok (), d') ∧ d'.load = d.load + env.weight := by
  cases hbox : d.boxes.lookup (user, device) with
  | none => exact .inl ⟨.internal, by simp only [directory, hbox]⟩
  | some box =>
    refine .inr ⟨{ d with boxes := d.boxes.insert (user, device) (box ++ [env]) },
      by simp only [directory, hbox], ?_⟩
    have hload := load_insert d (user, device) (box ++ [env])
    rw [hbox, Option.elim_some, boxLoad_append] at hload
    omega

/-- Fetching takes out what it hands over. -/
theorem fetch_spec (user device : List B) (d : MemoryDirectory B) :
    (directory.fetch user device d).2.load + boxLoad (directory.fetch user device d).1 = d.load := by
  cases hbox : d.boxes.lookup (user, device) with
  | none =>
    simp only [directory, hbox]
    rfl
  | some box =>
    simp only [directory, hbox]
    have hload := load_insert d (user, device) []
    rw [hbox, Option.elim_some] at hload
    exact hload

/-- Registering a device puts nothing into mailboxes. -/
theorem load_register (user device : List B) (identityPublic : Block B 32) (d : MemoryDirectory B) :
    (d.register user device identityPublic).load = d.load := by
  have hsum := Dict.sum_insert boxLoad d.boxes (user, device)
    ((d.boxes.lookup (user, device)).getD [])
  show Dict.sum boxLoad (d.boxes.insert (user, device) _) = Dict.sum boxLoad d.boxes
  cases hbox : d.boxes.lookup (user, device) with
  | none =>
    rw [hbox] at hsum
    exact hsum
  | some box =>
    rw [hbox] at hsum
    exact Nat.add_right_cancel hsum

end MemoryDirectory

/-! ### Records -/

namespace SesameNode

theorem reserve_pushRecord (r : MessageRecord B) (node : SesameNode B) :
    (node.pushRecord r).reserve = node.reserve + r.reserve := by
  simp only [reserve, pushRecord, List.map_append, List.map_singleton, List.sum_append,
    List.sum_singleton]

/-- Sending a message again takes two units. -/
theorem reserve_countAttempt {node : SesameNode B} {idx : ℕ} {r : MessageRecord B}
    (h : node.records[idx]? = some r) (hlt : r.attempts < maxResendAttempts) :
    (node.countAttempt idx).reserve + 2 = node.reserve := by
  have hsum := List.sum_map_modify MessageRecord.reserve
    (fun r ↦ { r with attempts := r.attempts + 1 }) h
  have hlt := UInt32.lt_iff_toNat_lt.1 hlt
  have hmax : maxResendAttempts.toNat = 5 := rfl
  have hadd : (r.attempts + 1).toNat = r.attempts.toNat + 1 := by
    rw [UInt32.toNat_add, show (1 : UInt32).toNat = 1 from rfl]
    omega
  simp only [MessageRecord.reserve, hadd] at hsum
  simp only [reserve, countAttempt]
  omega

theorem reserve_renewRecord (idx : ℕ) (messageId sessionId : Block B 16) (node : SesameNode B) :
    (node.renewRecord idx messageId sessionId).reserve = node.reserve := by
  cases h : node.records[idx]? with
  | none =>
    have hlen := List.getElem?_eq_none_iff.1 h
    simp only [reserve, renewRecord, List.modify_eq_self hlen]
  | some r =>
    have hsum := List.sum_map_modify MessageRecord.reserve
      (fun r ↦ { r with messageId, sessionId }) h
    exact Nat.add_right_cancel hsum

/-- Acknowledged records only give up their reserve. -/
theorem reserve_removeRecords (messageId : Block B 16) (node : SesameNode B) :
    (node.removeRecords messageId).reserve ≤ node.reserve :=
  ((List.filter_sublist).map MessageRecord.reserve).sum_le_sum fun _ _ ↦ Nat.zero_le _

end SesameNode

namespace Desk

@[simp] theorem units_setMgr (mgr : SessionManager B) (w : Desk B (MemoryDirectory B)) :
    (w.setMgr mgr).units = w.units := rfl

@[simp] theorem records_setMgr (mgr : SessionManager B) (w : Desk B (MemoryDirectory B)) :
    (w.setMgr mgr).node.records = w.node.records := rfl

/-- Posting fails, or adds the envelope. -/
theorem post_spec (user device : List B) (body : MailboxBody B) (w : Desk B (MemoryDirectory B)) :
    (∃ err, w.post MemoryDirectory.directory user device body = (.error err, w)) ∨
      ∃ w', w.post MemoryDirectory.directory user device body = (.ok (), w') ∧ w'.node = w.node ∧
        w'.units = w.units + (w.envelope body).weight := by
  rcases MemoryDirectory.send_spec user device (w.envelope body) w.dir with
    ⟨err, heq⟩ | ⟨d', heq, hload⟩
  · exact .inl ⟨err, by simp only [post, heq]⟩
  · refine .inr ⟨{ w with dir := d' }, by simp only [post, heq], rfl, ?_⟩
    show w.node.reserve + d'.load = w.node.reserve + w.dir.load + _
    rw [hload, Nat.add_assoc]

/-- An envelope adds its units at most. -/
theorem units_post_le (user device : List B) (body : MailboxBody B) (w : Desk B (MemoryDirectory B)) :
    (w.post MemoryDirectory.directory user device body).2.units ≤
      w.units + (w.envelope body).weight := by
  rcases w.post_spec user device body with ⟨err, heq⟩ | ⟨w', heq, -, hunits⟩
  · rw [heq]
    exact Nat.le_add_right _ _
  · rw [heq]
    exact hunits.le

/-! ### Sending -/

/-- Ten units come in for every message that was sent. -/
structure Sends (w w' : Desk B (MemoryDirectory B)) : Prop where
  /-- No record is dropped. -/
  length : w.node.records.length ≤ w'.node.records.length
  /-- Each new record brings ten units, and no other units come in. -/
  units : w'.units + 10 * w.node.records.length ≤ w.units + 10 * w'.node.records.length

theorem Sends.refl (w : Desk B (MemoryDirectory B)) : w.Sends w := ⟨le_refl _, le_refl _⟩

theorem Sends.trans {w₁ w₂ w₃ : Desk B (MemoryDirectory B)} (h : w₁.Sends w₂) (h' : w₂.Sends w₃) :
    w₁.Sends w₃ := by
  have hunits := h.units
  have hunits' := h'.units
  exact ⟨h.length.trans h'.length, by omega⟩

/-- The record of a message just sent has eight units. -/
theorem units_pushRecord {r : MessageRecord B} (h : r.attempts = 1) (w : Desk B (MemoryDirectory B)) :
    ({ w with node := w.node.pushRecord r } : Desk B (MemoryDirectory B)).units = w.units + 8 := by
  have hreserve : r.reserve = 8 := by
    rw [MessageRecord.reserve, h]
    rfl
  show (w.node.pushRecord r).reserve + w.dir.load = w.node.reserve + w.dir.load + 8
  rw [SesameNode.reserve_pushRecord, hreserve]
  omega

variable (P : Primitives B) (sha256 : List B → Block B 32)

/-- One pass of `send` brings in ten units for the record it makes. -/
theorem sendOne_sends (a : Outgoing B) (user device : List B) (sent : ℕ) (draws : SesameDraws B)
    (w : Desk B (MemoryDirectory B)) :
    w.Sends (w.sendOne MemoryDirectory.directory P sha256 a user device sent draws).2 := by
  unfold sendOne
  split
  · exact ⟨le_refl _, le_refl _⟩
  rename_i sid mgr hprepare
  split
  · exact ⟨le_refl _, le_refl _⟩
  rename_i header ct mgr' hencrypt
  rcases (w.setMgr mgr').post_spec user device (.encrypted (msgId sha256 sid a.now (UInt64.ofNat sent))
    sid header.encode ct true) with ⟨err, heq⟩ | ⟨w', heq, hnode, hunits⟩
  · simp only [heq]
    exact ⟨le_refl _, le_refl _⟩
  · -- the message has two units, its record eight
    have hrecords : w'.node.records = w.node.records := by rw [hnode, records_setMgr]
    have hlength : ∀ r, (w'.node.pushRecord r).records.length = w.node.records.length + 1 := by
      intro r
      show (w'.node.records ++ [r]).length = _
      rw [List.length_append, hrecords, List.length_singleton]
    rw [units_setMgr] at hunits
    simp only [heq]
    refine ⟨by rw [hlength]; omega, ?_⟩
    rw [hlength, units_pushRecord rfl, hunits]
    show w.units + 2 + 8 + _ ≤ _
    omega

theorem sendDevices_sends (a : Outgoing B) (user : List B)
    (devices : List ((List B × Block B 32) × SesameDraws B)) (sent : ℕ) (ids : List (Block B 16))
    (w : Desk B (MemoryDirectory B)) :
    w.Sends (w.sendDevices MemoryDirectory.directory P sha256 a user devices sent ids).2 := by
  induction devices generalizing sent ids w with
  | nil => exact .refl w
  | cons device rest ih =>
    rw [sendDevices]
    split
    · exact ih sent ids w
    have hone := w.sendOne_sends P sha256 a user device.1.1 sent device.2
    split
    · rename_i err w' heq
      rw [heq] at hone
      exact hone
    · rename_i id w' heq
      rw [heq] at hone
      exact hone.trans (ih (sent + 1) (ids ++ [id]) w')

theorem sendUsers_sends (a : Outgoing B) (users : List (List B × (ℕ → SesameDraws B)))
    (ids : List (Block B 16)) (w : Desk B (MemoryDirectory B)) :
    w.Sends (w.sendUsers MemoryDirectory.directory P sha256 a users ids).2 := by
  induction users generalizing ids w with
  | nil => exact .refl w
  | cons user rest ih =>
    rw [sendUsers]
    split
    · exact ih ids w
    rename_i devices hquery
    have hdevices := w.sendDevices_sends P sha256 a user.1
      (devices.mapIdx fun j d ↦ (d, user.2 j)) 0 ids
    split
    · rename_i err w' heq
      rw [heq] at hdevices
      exact hdevices
    · rename_i ids' w' heq
      rw [heq] at hdevices
      exact hdevices.trans (ih ids' w')

/-! ### Receiving -/

/-- Sending a message again takes the two units of its envelope out of its record. -/
theorem resend_units {fromUser fromDevice : List B} {idx : ℕ} {r : MessageRecord B}
    {remoteIdentity : IdentityMaterial B} {now : UInt64} {draws : SesameDraws B}
    {w : Desk B (MemoryDirectory B)} (h : w.node.records[idx]? = some r)
    (hlt : r.attempts < maxResendAttempts) :
    (w.resend MemoryDirectory.directory P sha256 fromUser fromDevice idx r remoteIdentity now
      draws).2.units ≤ w.units := by
  have hcount := SesameNode.reserve_countAttempt h hlt
  have hcounted : ({ w with node := w.node.countAttempt idx } : Desk B (MemoryDirectory B)).units + 2 =
      w.units := by
    show (w.node.countAttempt idx).reserve + w.dir.load + 2 = w.node.reserve + w.dir.load
    omega
  unfold resend
  dsimp only
  split
  · rw [units_setMgr]
    omega
  rename_i sid mgr hprepare
  split
  · rw [units_setMgr]
    omega
  rename_i header ct mgr' hencrypt
  refine (units_post_le _ _ _ _).trans ?_
  show (SesameNode.renewRecord idx _ _ _).reserve + w.dir.load + 2 ≤ _
  rw [SesameNode.reserve_renewRecord]
  exact hcounted.le

/-- Answering a request to send again adds nothing. -/
theorem handleRetry_units (fromUser fromDevice : List B) (messageId : Block B 16)
    (remoteIdentity : IdentityMaterial B) (now : UInt64) (draws : SesameDraws B)
    (w : Desk B (MemoryDirectory B)) :
    (w.handleRetry MemoryDirectory.directory P sha256 fromUser fromDevice messageId remoteIdentity now
      draws).2.units ≤ w.units := by
  unfold handleRetry
  split
  · exact le_refl _
  rename_i r hfind
  split
  · exact le_refl _
  rename_i hlt
  split
  · exact le_refl _
  refine resend_units P sha256 ?_ (UInt32.not_le.1 hlt)
  rw [← List.find?_eq_getElem?_findIdx]
  exact hfind

/-- **A turn takes one unit at least out of the envelope** that it handles: the answer to an
envelope is lighter than it, or is a message sent again, which its record pays for. -/
theorem receiveOne_units (remoteIdentity : IdentityMaterial B) (now : UInt64)
    (turn : MailboxEnvelope B × SesameDraws B) (w : Desk B (MemoryDirectory B)) :
    (w.receiveOne MemoryDirectory.directory P sha256 remoteIdentity now turn).2.units + 1 ≤
      w.units + turn.1.weight := by
  obtain ⟨⟨fromUser, fromDevice, body⟩, draws⟩ := turn
  cases body with
  | encrypted messageId sid header ct initiation =>
    show _ ≤ w.units + 2
    unfold receiveOne
    dsimp only
    split
    · exact Nat.add_le_add_left (by decide) _
    rename_i hdr hdecode
    split
    · rename_i p mgr hdec
      have hpost := units_post_le fromUser fromDevice (.deliveryReceipt messageId)
        (w.setMgr ((mgr.receiveOnSession fromUser fromDevice sid).2.confirmSession fromUser fromDevice
          sid).2)
      rw [units_setMgr] at hpost
      exact Nat.add_le_add_right hpost 1
    · rename_i err mgr hdec
      have hpost := units_post_le fromUser fromDevice (.retryRequest messageId) (w.setMgr mgr)
      rw [units_setMgr] at hpost
      exact Nat.add_le_add_right hpost 1
  | retryRequest messageId =>
    have hretry := w.handleRetry_units P sha256 fromUser fromDevice messageId remoteIdentity now draws
    exact Nat.add_le_add_right hretry 1
  | deliveryReceipt messageId =>
    have hremove := w.node.reserve_removeRecords messageId
    exact Nat.add_le_add_right (Nat.add_le_add_right hremove _) 1

/-- **So does the loop**, for every envelope it was given. -/
theorem receiveLoop_units (remoteIdentity : IdentityMaterial B) (now : UInt64)
    (turns : List (MailboxEnvelope B × SesameDraws B)) (out : List (List B))
    (w : Desk B (MemoryDirectory B)) :
    (w.receiveLoop MemoryDirectory.directory P sha256 remoteIdentity now turns out).2.units +
      turns.length ≤ w.units + boxLoad (turns.map Prod.fst) := by
  induction turns generalizing out w with
  | nil => exact le_refl _
  | cons turn rest ih =>
    have hone := w.receiveOne_units P sha256 remoteIdentity now turn
    have hrest := length_le_boxLoad (rest.map Prod.fst)
    rw [List.length_map] at hrest
    have hcons : boxLoad ((turn :: rest).map Prod.fst) =
        turn.1.weight + boxLoad (rest.map Prod.fst) := by
      rw [boxLoad, List.map_cons, List.map_cons, List.sum_cons]
      rfl
    rw [receiveLoop, hcons, List.length_cons]
    split
    · rename_i err w' heq
      rw [heq] at hone
      dsimp only at hone ⊢
      omega
    · rename_i p w' heq
      rw [heq] at hone
      have := ih (out ++ p.toList) w'
      dsimp only at hone
      omega

end Desk

/-! ### Many nodes -/

/-- Nodes at one directory, with counts of the messages that were sent, the envelopes that strangers
have put into mailboxes, and the envelopes that nodes have fetched. -/
structure Exchange (B ι : Type) [Alphabet B] where
  /-- The nodes. -/
  nodes : ι → SesameNode B
  /-- The directory they share. -/
  dir : MemoryDirectory B
  /-- How many messages were sent, counted once for each device. -/
  sent : ℕ
  /-- How many envelopes came from outside. -/
  injected : ℕ
  /-- How many envelopes the nodes have fetched. -/
  fetched : ℕ

namespace Exchange

variable {ι : Type} [DecidableEq ι] (P : Primitives B) (sha256 : List B → Block B 32)

/-- A node at the directory. -/
def desk (s : Exchange B ι) (i : ι) : Desk B (MemoryDirectory B) := ⟨s.nodes i, s.dir⟩

/-- A node has called `send`. -/
def afterSend (s : Exchange B ι) (i : ι) (recipients : List (List B)) (a : Desk.Outgoing B)
    (draws : ℕ → ℕ → SesameDraws B) : Exchange B ι :=
  let w := ((s.desk i).send MemoryDirectory.directory P sha256 recipients a draws).2
  { s with
    nodes := Function.update s.nodes i w.node
    dir := w.dir
    sent := s.sent + (w.node.records.length - (s.nodes i).records.length) }

/-- The mailbox that a node will find. -/
def inbox (s : Exchange B ι) (i : ι) : List (MailboxEnvelope B) :=
  (MemoryDirectory.directory.fetch (s.nodes i).user (s.nodes i).device s.dir).1

/-- A node has called `receive_all`. -/
def afterReceive (s : Exchange B ι) (i : ι) (remoteIdentity : IdentityMaterial B) (now : UInt64)
    (draws : ℕ → SesameDraws B) : Exchange B ι :=
  let w := ((s.desk i).receiveAll MemoryDirectory.directory P sha256 remoteIdentity now draws).2
  { s with
    nodes := Function.update s.nodes i w.node
    dir := w.dir
    fetched := s.fetched + (s.inbox i).length }

/-- One step: a call of a node; a change of its session manager by other means; a registration; or
something that the server, which is not trusted, does to a mailbox. -/
inductive Step : Exchange B ι → Exchange B ι → Prop
  | send (s : Exchange B ι) (i : ι) (recipients : List (List B)) (a : Desk.Outgoing B)
      (draws : ℕ → ℕ → SesameDraws B) : Step s (s.afterSend P sha256 i recipients a draws)
  | receive (s : Exchange B ι) (i : ι) (remoteIdentity : IdentityMaterial B) (now : UInt64)
      (draws : ℕ → SesameDraws B) : Step s (s.afterReceive P sha256 i remoteIdentity now draws)
  | manage (s : Exchange B ι) (i : ι) (mgr : SessionManager B) :
      Step s { s with nodes := Function.update s.nodes i { s.nodes i with mgr } }
  | register (s : Exchange B ι) (user device : List B) (identityPublic : Block B 32) :
      Step s { s with dir := s.dir.register user device identityPublic }
  | inject (s : Exchange B ι) (user device : List B) (env : MailboxEnvelope B) :
      Step s { s with
        dir := (MemoryDirectory.directory.send user device env s.dir).2
        injected := s.injected + 1 }
  | lose (s : Exchange B ι) (key : List B × List B) (box box' : List (MailboxEnvelope B))
      (hbox : s.dir.boxes.lookup key = some box) (hsub : box'.Subperm box) :
      Step s { s with dir := ⟨s.dir.devices, s.dir.boxes.insert key box'⟩ }

variable (B ι) in
/-- An exchange of nodes that have sent nothing, at a directory without mailboxes. -/
def exchange : System (Exchange B ι) where
  start s := (∀ i, (s.nodes i).records = []) ∧ s.dir = MemoryDirectory.empty ∧ s.sent = 0 ∧
    s.injected = 0 ∧ s.fetched = 0
  step := Step P sha256

variable [Fintype ι]

/-- The units of an exchange. -/
def units (s : Exchange B ι) : ℕ := (∑ i, (s.nodes i).reserve) + s.dir.load

/-- A node takes part with its own units. -/
theorem units_update (s : Exchange B ι) (i : ι) (w : Desk B (MemoryDirectory B)) (sent injected
    fetched : ℕ) :
    (⟨Function.update s.nodes i w.node, w.dir, sent, injected, fetched⟩ : Exchange B ι).units +
      (s.desk i).units = s.units + w.units := by
  have hupdate : ∑ j, (Function.update s.nodes i w.node j).reserve + (s.nodes i).reserve =
      ∑ j, (s.nodes j).reserve + w.node.reserve := by
    rw [← Finset.add_sum_erase _ _ (Finset.mem_univ i), ← Finset.add_sum_erase _ _ (Finset.mem_univ i),
      Function.update_self]
    have hrest : ∑ j ∈ Finset.univ.erase i, (Function.update s.nodes i w.node j).reserve =
        ∑ j ∈ Finset.univ.erase i, (s.nodes j).reserve := by
      refine Finset.sum_congr rfl fun j hj ↦ ?_
      rw [Function.update_of_ne (Finset.ne_of_mem_erase hj)]
    omega
  show (∑ j, (Function.update s.nodes i w.node j).reserve) + w.dir.load +
    ((s.nodes i).reserve + s.dir.load) =
    ∑ j, (s.nodes j).reserve + s.dir.load + (w.node.reserve + w.dir.load)
  omega

omit [DecidableEq ι] in
/-- So does the directory. -/
theorem units_setDir (s : Exchange B ι) (dir : MemoryDirectory B) (sent injected fetched : ℕ) :
    (⟨s.nodes, dir, sent, injected, fetched⟩ : Exchange B ι).units + s.dir.load =
      s.units + dir.load := by
  show (∑ i, (s.nodes i).reserve) + dir.load + s.dir.load =
    (∑ i, (s.nodes i).reserve) + s.dir.load + dir.load
  omega

/-- Ten units come in for every message that a node sends. -/
theorem units_afterSend (s : Exchange B ι) (i : ι) (recipients : List (List B)) (a : Desk.Outgoing B)
    (draws : ℕ → ℕ → SesameDraws B) :
    (s.afterSend P sha256 i recipients a draws).units + 10 * s.sent ≤
      s.units + 10 * (s.afterSend P sha256 i recipients a draws).sent := by
  have hsends := (s.desk i).sendUsers_sends P sha256 a
    (recipients.mapIdx fun i user ↦ (user, draws i)) []
  rw [← Desk.send] at hsends
  have hlength : (s.nodes i).records.length ≤ _ := hsends.length
  have hunits : _ + 10 * (s.nodes i).records.length ≤ _ := hsends.units
  have hupdate := s.units_update i ((s.desk i).send MemoryDirectory.directory P sha256 recipients a
    draws).2 (s.afterSend P sha256 i recipients a draws).sent s.injected s.fetched
  show units ⟨_, _, (s.afterSend P sha256 i recipients a draws).sent, s.injected, s.fetched⟩ + _ ≤ _
  have hsent : (s.afterSend P sha256 i recipients a draws).sent = s.sent +
    (((s.desk i).send MemoryDirectory.directory P sha256 recipients a draws).2.node.records.length -
      (s.nodes i).records.length) := rfl
  omega

/-- A unit at least goes out for every envelope that a node fetches. -/
theorem units_afterReceive (s : Exchange B ι) (i : ι) (remoteIdentity : IdentityMaterial B)
    (now : UInt64) (draws : ℕ → SesameDraws B) :
    (s.afterReceive P sha256 i remoteIdentity now draws).units + (s.inbox i).length ≤ s.units := by
  have hfetch := MemoryDirectory.fetch_spec (s.nodes i).user (s.nodes i).device s.dir
  rw [← inbox] at hfetch
  have hloop := Desk.receiveLoop_units P sha256 remoteIdentity now
    ((s.inbox i).mapIdx fun i env ↦ (env, draws i)) []
    ⟨s.nodes i, (MemoryDirectory.directory.fetch (s.nodes i).user (s.nodes i).device s.dir).2⟩
  rw [Keyed.map_fst_mapIdx, List.length_mapIdx] at hloop
  have hupdate := s.units_update i ((s.desk i).receiveAll MemoryDirectory.directory P sha256
    remoteIdentity now draws).2 s.sent s.injected (s.fetched + (s.inbox i).length)
  have hdesk : (s.desk i).units = (s.nodes i).reserve + s.dir.load := rfl
  have hbefore : Desk.units ⟨s.nodes i, (MemoryDirectory.directory.fetch (s.nodes i).user
      (s.nodes i).device s.dir).2⟩ = (s.nodes i).reserve + (MemoryDirectory.directory.fetch
        (s.nodes i).user (s.nodes i).device s.dir).2.load := rfl
  have hafter : ((s.desk i).receiveAll MemoryDirectory.directory P sha256 remoteIdentity now
      draws).2.units + (s.inbox i).length ≤ _ := hloop
  show units ⟨_, _, s.sent, s.injected, s.fetched + (s.inbox i).length⟩ + _ ≤ _
  omega

/-- **The units pay for every envelope**: ten for a message, two for a stranger's envelope. -/
def potential : System.Potential (exchange B ι P sha256) Exchange.fetched
    (fun s ↦ 10 * s.sent + 2 * s.injected) where
  left := units
  start := by
    rintro s ⟨hnodes, hdir, hsent, hinjected, hfetched⟩
    have hreserve : ∑ i, (s.nodes i).reserve = 0 := by
      refine Finset.sum_eq_zero fun i _ ↦ ?_
      rw [SesameNode.reserve, hnodes i]
      rfl
    have hload : s.dir.load = 0 := by
      rw [hdir]
      rfl
    rw [units, hreserve, hload, hsent, hinjected, hfetched]
  step := by
    intro s t hstep
    cases hstep with
    | send i recipients a draws =>
      have hunits := s.units_afterSend P sha256 i recipients a draws
      show s.fetched + _ + (10 * s.sent + 2 * s.injected) ≤
        s.fetched + s.units + (10 * (s.afterSend P sha256 i recipients a draws).sent + 2 * s.injected)
      omega
    | receive i remoteIdentity now draws =>
      have hunits := s.units_afterReceive P sha256 i remoteIdentity now draws
      show s.fetched + (s.inbox i).length + _ + (10 * s.sent + 2 * s.injected) ≤
        s.fetched + s.units + (10 * s.sent + 2 * s.injected)
      omega
    | manage i mgr =>
      have hupdate := s.units_update i ((s.desk i).setMgr mgr) s.sent s.injected s.fetched
      rw [Desk.units_setMgr] at hupdate
      exact Nat.add_le_add_right (Nat.add_le_add_left (Nat.add_right_cancel hupdate).le _) _
    | register user device identityPublic =>
      have hdir := s.units_setDir (s.dir.register user device identityPublic) s.sent s.injected s.fetched
      rw [MemoryDirectory.load_register] at hdir
      exact Nat.add_le_add_right (Nat.add_le_add_left (Nat.add_right_cancel hdir).le _) _
    | inject user device env =>
      have hdir := s.units_setDir (MemoryDirectory.directory.send user device env s.dir).2 s.sent
        (s.injected + 1) s.fetched
      have hload : (MemoryDirectory.directory.send user device env s.dir).2.load ≤ s.dir.load + 2 := by
        rcases MemoryDirectory.send_spec user device env s.dir with ⟨err, heq⟩ | ⟨d', heq, hload⟩
        · rw [heq]
          exact Nat.le_add_right _ _
        · rw [heq, hload]
          exact Nat.add_le_add_left env.weight_le_two _
      show s.fetched + units ⟨s.nodes, _, s.sent, s.injected + 1, s.fetched⟩ +
          (10 * s.sent + 2 * s.injected) ≤
        s.fetched + s.units + (10 * s.sent + 2 * (s.injected + 1))
      omega
    | lose key box box' hbox hsub =>
      have hdir := s.units_setDir ⟨s.dir.devices, s.dir.boxes.insert key box'⟩ s.sent s.injected
        s.fetched
      have hload := MemoryDirectory.load_insert s.dir key box'
      rw [hbox, Option.elim_some] at hload
      have hle := boxLoad_le_of_subperm hsub
      show s.fetched + units ⟨s.nodes, _, s.sent, s.injected, s.fetched⟩ +
          (10 * s.sent + 2 * s.injected) ≤
        s.fetched + s.units + (10 * s.sent + 2 * s.injected)
      omega

/-- The envelopes in all mailboxes. -/
def waiting (s : Exchange B ι) : ℕ := Dict.sum List.length s.dir.boxes

/-- A node has fetched something, and has handled it. Such a step takes at least one unit out of the
exchange. -/
def Handles (s t : Exchange B ι) : Prop :=
  ∃ i remoteIdentity now draws, s.inbox i ≠ [] ∧
    t = s.afterReceive P sha256 i remoteIdentity now draws

/-- **Retries die out.** However many nodes send, receive and retry, and whatever the server puts into
mailboxes, loses or reorders: a message stands for at most ten envelopes, and a stranger's envelope for
at most two. When nothing more is sent, the nodes come to rest. -/
theorem retries_die_out :
    (∀ s, (exchange B ι P sha256).Reachable s →
      s.fetched + s.waiting ≤ 10 * s.sent + 2 * s.injected) ∧
    WellFounded fun t s : Exchange B ι ↦ s.Handles P sha256 t := by
  refine ⟨fun s hs ↦ ?_, Subrelation.wf ?_ (potential P sha256).wellFounded⟩
  · have hpaid := (potential P sha256).work_add_left_le hs
    have hwaiting : s.waiting ≤ s.dir.load :=
      Dict.sum_le_sum fun _ box _ ↦ length_le_boxLoad box
    have hunits : s.dir.load ≤ s.units := Nat.le_add_left _ _
    exact (Nat.add_le_add_left (hwaiting.trans hunits) _).trans hpaid
  · rintro t s ⟨i, remoteIdentity, now, draws, hinbox, rfl⟩
    refine ⟨.receive s i remoteIdentity now draws, rfl, ?_⟩
    exact Nat.lt_add_of_pos_right (List.length_pos_iff.2 hinbox)

end Exchange

/-! ### A message that is never read -/

namespace Symbolic

/-- A device of user 1, and a device of user 7 that has no session. -/
def strangers : Bool → SesameNode Sym
  | false => sender.node
  | true => SesameNode.new [.lit 7] [.lit 8] (SessionManager.new [.lit 7] [.lit 8]
      { identityKey := Sym.block 31 (.lit 7), deviceId := none })

/-- Both are registered. -/
def registered : Exchange Sym Bool :=
  { nodes := strangers
    dir := (MemoryDirectory.empty.register [.lit 7] [.lit 8] (Block.zero 32)).register [.lit 1] [.lit 2]
      (Block.zero 32)
    sent := 0, injected := 0, fetched := 0 }

/-- The draws of a device. -/
def someDraws : SesameDraws Sym :=
  { dhs := Sym.block 31 (.lit 3), sessionId := Sym.block 15 (.lit 4), fresh := Block.zero 32 }

/-- User 1 has sent a message to user 7. -/
def posted : Exchange Sym Bool :=
  registered.afterSend symbolic sha256 false [[.lit 7]]
    { plaintext := [.lit 10], sk := Block.zero 32, remoteDh := symbolic.publicKey (Block.zero 32)
      remoteIdentity := { identityKey := Sym.block 31 (.lit 7), deviceId := none }, now := 5 }
    fun _ _ ↦ someDraws

/-- Each device fetches once. -/
def bounce (s : Exchange Sym Bool) : Exchange Sym Bool :=
  (s.afterReceive symbolic sha256 true { identityKey := Sym.block 31 (.lit 1), deviceId := none } 6
    fun _ ↦ someDraws).afterReceive symbolic sha256 false
      { identityKey := Sym.block 31 (.lit 7), deviceId := none } 7 fun _ ↦ someDraws

end Symbolic

open Symbolic in
/-- **The bound is met**: a message to a device that cannot read it is sent five times, and asked for
five times. -/
theorem retries_die_out_unread :
    (Exchange.exchange Sym Bool symbolic sha256).Reachable (bounce^[5] posted) ∧
      (bounce^[5] posted).sent = 1 ∧ (bounce^[5] posted).injected = 0 ∧
      (bounce^[5] posted).fetched = 10 ∧
      (bounce^[5] posted).fetched + (bounce^[5] posted).waiting ≤ 10 * (bounce^[5] posted).sent +
        2 * (bounce^[5] posted).injected := by
  have hposted : (Exchange.exchange Sym Bool symbolic sha256).Reachable posted := by
    have hstart : (Exchange.exchange Sym Bool symbolic sha256).Reachable
        ⟨strangers, MemoryDirectory.empty, 0, 0, 0⟩ :=
      .of_start ⟨fun i ↦ by cases i <;> rfl, rfl, rfl, rfl, rfl⟩
    exact ((hstart.of_step (.register _ _ _ _)).of_step (.register _ _ _ _)).of_step
      (.send _ _ _ _ _)
  have hbounce : ∀ s, (Exchange.exchange Sym Bool symbolic sha256).Reachable s →
      (Exchange.exchange Sym Bool symbolic sha256).Reachable (bounce s) :=
    fun s hs ↦ (hs.of_step (.receive _ _ _ _ _)).of_step (.receive _ _ _ _ _)
  have hreach : (Exchange.exchange Sym Bool symbolic sha256).Reachable (bounce^[5] posted) :=
    hbounce _ (hbounce _ (hbounce _ (hbounce _ (hbounce _ hposted))))
  exact ⟨hreach, by decide +kernel, by decide +kernel, by decide +kernel,
    (Exchange.retries_die_out symbolic sha256).1 _ hreach⟩

end VoiceChatCrypto
