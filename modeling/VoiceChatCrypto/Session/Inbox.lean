import VoiceChatCrypto.Braid.Agreement
import VoiceChatCrypto.Session.Sesame

/-!
# What one fetch delivers

`receive_all` takes every envelope out of the mailbox and then works through them. An envelope that it
cannot *decrypt* is answered and passed over; some others end the call with an error, and with them go
the plaintexts already recovered and the envelopes not yet looked at. `stops` names those envelopes by
what the source checks.

The **turns** of a call pair each envelope with the node as it is when the loop would reach it,
carrying on after an envelope that stops the real loop. The call delivers everything its sessions can
decrypt exactly when none of its envelopes stops it or there is nothing to deliver.
-/

open Alphabet

namespace VoiceChatCrypto

variable {B σ : Type} [Alphabet B]

/-- In the states of `I` the directory accepts every envelope for the addresses of `A`. -/
def Directory.Accepts (D : Directory B σ) (A : List B → List B → Prop) (I : σ → Prop) : Prop :=
  ∀ user device env s, A user device → I s →
    (D.send user device env s).1 = .ok () ∧ I (D.send user device env s).2

/-- A registered device can be written to. -/
theorem MemoryDirectory.directory_accepts (A : List B → List B → Prop) :
    (directory (B := B)).Accepts A fun d ↦ ∀ user device, A user device → (user, device) ∈ d.boxes := by
  intro user device env d hA hI
  obtain ⟨box, hbox⟩ := Finmap.mem_iff.1 (hI user device hA)
  simp only [directory, hbox]
  refine ⟨trivial, fun user' device' hA' ↦ ?_⟩
  exact Finmap.mem_insert.2 (.inr (hI user' device' hA'))

namespace Desk

variable (D : Directory B σ) (P : Primitives B) (sha256 : List B → Block B 32)
  (remoteIdentity : IdentityMaterial B) (now : UInt64)

/-- The plaintext of an envelope, if its session can decrypt it at its turn. -/
def plaintextAt (v : Desk B σ × (MailboxEnvelope B × SesameDraws B)) : Option (List B) :=
  match v.2.1.body with
  | .encrypted _ sid header ct _ =>
    match Header.decode header with
    | .error _ => none
    | .ok hdr =>
      (v.1.node.mgr.tryDecrypt P v.2.2.fresh v.2.1.fromUser v.2.1.fromDevice sid hdr ct).1.toOption
  | _ => none

/-- No session can be prepared for a message to be sent again, or it cannot be encrypted. -/
def resendFails (env : MailboxEnvelope B) (draws : SesameDraws B) (r : MessageRecord B)
    (m : SessionManager B) : Bool :=
  match m.prepareOutbound P env.fromUser env.fromDevice remoteIdentity retryKey
    remoteIdentity.identityKey now draws.dhs draws.sessionId with
  | (.error _, _) => true
  | (.ok _, m) => !(m.encryptActive P env.fromUser env.fromDevice r.plaintext).1.isOk

/-- The envelopes that end the call with an error: a message whose header does not decode, and a retry
request for an unknown message, for one that was sent too often, or for one that cannot be sent
again. -/
def stops (v : Desk B σ × (MailboxEnvelope B × SesameDraws B)) : Bool :=
  match v.2.1.body with
  | .encrypted _ _ header _ _ => !(Header.decode header).isOk
  | .retryRequest messageId =>
    match v.1.node.records.find? fun r ↦ r.messageId = messageId with
    | none => true
    | some r => decide (maxResendAttempts ≤ r.attempts) ||
        decide (r.recipientUser = v.2.1.fromUser) &&
          resendFails P remoteIdentity now v.2.1 v.2.2 r v.1.node.mgr
  | .deliveryReceipt _ => false

/-- The envelopes of a call, each with the desk at its turn. -/
def turns (draws : ℕ → SesameDraws B) (w : Desk B σ) :
    List (Desk B σ × (MailboxEnvelope B × SesameDraws B)) :=
  Run.visits (fun turn w ↦ (w.receiveOne D P sha256 remoteIdentity now turn).2)
    { w with dir := (D.fetch w.node.user w.node.device w.dir).2 }
    ((D.fetch w.node.user w.node.device w.dir).1.mapIdx fun i env ↦ (env, draws i))

/-- The call returns the plaintext of every envelope that can be decrypted at its turn. -/
def DeliversAll (draws : ℕ → SesameDraws B) (w : Desk B σ) : Prop :=
  let plaintexts := (w.turns D P sha256 remoteIdentity now draws).filterMap (plaintextAt P)
  plaintexts = [] ∨
    ∃ out, (w.receiveAll D P sha256 remoteIdentity now draws).1 = .ok out ∧ plaintexts.Sublist out

/-! ### One turn -/

variable {D} {A : List B → List B → Prop} {I : σ → Prop}

/-- A server that accepts envelopes takes the answer of a node. -/
theorem post_accepted (hD : D.Accepts A I) {user device : List B} (hA : A user device)
    (body : MailboxBody B) {w : Desk B σ} (hI : I w.dir) :
    (w.post D user device body).1 = .ok () ∧ I (w.post D user device body).2.dir :=
  hD user device (w.envelope body) w.dir hA hI

/-- Sending a message again fails as `resendFails` says. -/
theorem resend_spec (hD : D.Accepts A I) {env : MailboxEnvelope B} (draws : SesameDraws B) (idx : ℕ)
    (r : MessageRecord B) {w : Desk B σ} (hA : A env.fromUser env.fromDevice) (hI : I w.dir) :
    (w.resend D P sha256 env.fromUser env.fromDevice idx r remoteIdentity now draws).1.isOk =
        !resendFails P remoteIdentity now env draws r w.node.mgr ∧
      I (w.resend D P sha256 env.fromUser env.fromDevice idx r remoteIdentity now draws).2.dir := by
  have hmgr : (w.node.countAttempt idx).mgr = w.node.mgr := rfl
  unfold resend resendFails
  simp only [hmgr]
  rcases w.node.mgr.prepareOutbound P env.fromUser env.fromDevice remoteIdentity retryKey
    remoteIdentity.identityKey now draws.dhs draws.sessionId with ⟨res, mgr⟩
  cases res with
  | error err => exact ⟨rfl, hI⟩
  | ok sid =>
    dsimp only
    rcases mgr.encryptActive P env.fromUser env.fromDevice r.plaintext with ⟨res, mgr'⟩
    cases res with
    | error err => exact ⟨rfl, hI⟩
    | ok out =>
      dsimp only
      refine ⟨?_, (post_accepted hD hA _ (by exact hI)).2⟩
      rw [(post_accepted hD hA _ (by exact hI)).1]
      rfl

/-- A retry request is answered or passed over, and never stops the loop, when the server accepts
envelopes. -/
theorem handleRetry_spec (hD : D.Accepts A I) {env : MailboxEnvelope B} (draws : SesameDraws B)
    (messageId : Block B 16) {w : Desk B σ} (hA : A env.fromUser env.fromDevice) (hI : I w.dir)
    (hbody : env.body = .retryRequest messageId) :
    (w.handleRetry D P sha256 env.fromUser env.fromDevice messageId remoteIdentity now draws).1.isOk =
        !stops P remoteIdentity now (w, env, draws) ∧
      I (w.handleRetry D P sha256 env.fromUser env.fromDevice messageId remoteIdentity now
          draws).2.dir := by
  simp only [handleRetry, stops, hbody]
  cases w.node.records.find? fun r ↦ r.messageId = messageId with
  | none => exact ⟨rfl, hI⟩
  | some r =>
    dsimp only
    by_cases hattempts : maxResendAttempts ≤ r.attempts
    · rw [if_pos hattempts, decide_eq_true hattempts]
      exact ⟨rfl, hI⟩
    · rw [if_neg hattempts, decide_eq_false hattempts, Bool.false_or]
      by_cases huser : r.recipientUser = env.fromUser
      · rw [if_neg (not_not.2 huser), decide_eq_true huser, Bool.true_and]
        exact resend_spec P sha256 remoteIdentity now hD draws _ r hA hI
      · rw [if_pos huser, decide_eq_false huser, Bool.false_and]
        exact ⟨rfl, hI⟩

/-- **One turn.** It ends the call exactly when `stops` says so, and otherwise adds what its session
decrypts. -/
theorem receiveOne_spec (hD : D.Accepts A I) {env : MailboxEnvelope B} (draws : SesameDraws B)
    {w : Desk B σ} (hA : A env.fromUser env.fromDevice) (hI : I w.dir) :
    (stops P remoteIdentity now (w, env, draws) = true →
        ∃ err, (w.receiveOne D P sha256 remoteIdentity now (env, draws)).1 = .error err) ∧
      (stops P remoteIdentity now (w, env, draws) = false →
        (w.receiveOne D P sha256 remoteIdentity now (env, draws)).1 =
          .ok (plaintextAt P (w, env, draws))) ∧
      I (w.receiveOne D P sha256 remoteIdentity now (env, draws)).2.dir := by
  cases hbody : env.body with
  | encrypted messageId sid header ct initiation =>
    simp only [receiveOne, stops, plaintextAt, hbody]
    cases Header.decode header with
    | error err => exact ⟨fun _ ↦ ⟨err, rfl⟩, fun h ↦ Bool.noConfusion h, hI⟩
    | ok hdr =>
      dsimp only
      rcases w.node.mgr.tryDecrypt P draws.fresh env.fromUser env.fromDevice sid hdr ct with ⟨res, mgr⟩
      -- a receipt or a retry request goes out, and the directory takes either
      cases res with
      | ok p =>
        dsimp only
        refine ⟨fun h ↦ Bool.noConfusion h, fun _ ↦ ?_, (post_accepted hD hA _ (by exact hI)).2⟩
        rw [(post_accepted hD hA _ (by exact hI)).1]
        rfl
      | error err =>
        dsimp only
        refine ⟨fun h ↦ Bool.noConfusion h, fun _ ↦ ?_, (post_accepted hD hA _ (by exact hI)).2⟩
        rw [(post_accepted hD hA _ (by exact hI)).1]
        rfl
  | retryRequest messageId =>
    obtain ⟨hres, hI'⟩ := handleRetry_spec P sha256 remoteIdentity now hD draws messageId hA hI hbody
    simp only [receiveOne, plaintextAt, hbody]
    rcases hretry : w.handleRetry D P sha256 env.fromUser env.fromDevice messageId remoteIdentity now
      draws with ⟨res, w'⟩
    rw [hretry] at hres hI'
    cases res with
    | error err =>
      refine ⟨fun _ ↦ ⟨err, rfl⟩, fun h ↦ ?_, hI'⟩
      rw [h] at hres
      cases hres
    | ok u =>
      refine ⟨fun h ↦ ?_, fun _ ↦ rfl, hI'⟩
      rw [h] at hres
      cases hres
  | deliveryReceipt messageId =>
    simp only [receiveOne, stops, plaintextAt, hbody]
    exact ⟨fun h ↦ Bool.noConfusion h, fun _ ↦ trivial, hI⟩

/-! ### A whole call -/

/-- **The loop.** With an envelope that stops it among the turns it ends in an error; without one it
returns the plaintexts of all turns, in order. -/
theorem receiveLoop_spec (hD : D.Accepts A I)
    (envs : List (MailboxEnvelope B × SesameDraws B)) (out : List (List B)) {w : Desk B σ}
    (hA : ∀ e ∈ envs, A e.1.fromUser e.1.fromDevice) (hI : I w.dir) :
    let vs := Run.visits (fun turn w ↦ (w.receiveOne D P sha256 remoteIdentity now turn).2) w envs
    ((∃ v ∈ vs, stops P remoteIdentity now v = true) →
        ∃ err, (w.receiveLoop D P sha256 remoteIdentity now envs out).1 = .error err) ∧
      ((∀ v ∈ vs, stops P remoteIdentity now v = false) →
        (w.receiveLoop D P sha256 remoteIdentity now envs out).1 =
          .ok (out ++ vs.filterMap (plaintextAt P))) := by
  induction envs generalizing out w with
  | nil =>
    refine ⟨?_, fun _ ↦ by simp [receiveLoop, Run.visits]⟩
    rintro ⟨v, hv, -⟩
    cases hv
  | cons e envs ih =>
    obtain ⟨env, draws⟩ := e
    obtain ⟨hstops, hgoes, hI'⟩ := receiveOne_spec P sha256 remoteIdentity now hD draws
      (hA (env, draws) List.mem_cons_self) hI
    simp only [Run.visits, List.mem_cons, receiveLoop]
    cases hstop : stops P remoteIdentity now (w, env, draws) with
    | true =>
      obtain ⟨err, herr⟩ := hstops hstop
      rcases hone : w.receiveOne D P sha256 remoteIdentity now (env, draws) with ⟨res, w'⟩
      rw [hone] at herr
      cases herr
      refine ⟨fun _ ↦ ⟨err, rfl⟩, fun h ↦ ?_⟩
      rw [h _ (.inl rfl)] at hstop
      cases hstop
    | false =>
      have hok := hgoes hstop
      rcases hone : w.receiveOne D P sha256 remoteIdentity now (env, draws) with ⟨res, w'⟩
      rw [hone] at hok hI'
      cases hok
      obtain ⟨ihstops, ihgoes⟩ := ih (out ++ (plaintextAt P (w, env, draws)).toList) (w := w')
        (fun e he ↦ hA e (List.mem_cons_of_mem _ he)) hI'
      refine ⟨?_, fun h ↦ ?_⟩
      · rintro ⟨v, rfl | hv, hvstops⟩
        · rw [hstop] at hvstops
          cases hvstops
        · exact ihstops ⟨v, hv, hvstops⟩
      · refine (ihgoes fun v hv ↦ h v (.inr hv)).trans ?_
        rw [List.append_assoc]
        cases hp : plaintextAt P (w, env, draws) with
        | none => rw [List.filterMap_cons_none hp]; rfl
        | some p => rw [List.filterMap_cons_some hp]; rfl

/-- **When a call delivers everything.** Exactly when no envelope stops it at its turn, or no envelope
can be decrypted at its turn. -/
theorem receiveAll_delivers_iff (hD : D.Accepts A I) (draws : ℕ → SesameDraws B) (w : Desk B σ)
    (hI : I (D.fetch w.node.user w.node.device w.dir).2)
    (hA : ∀ env ∈ (D.fetch w.node.user w.node.device w.dir).1, A env.fromUser env.fromDevice) :
    w.DeliversAll D P sha256 remoteIdentity now draws ↔
      (∀ v ∈ w.turns D P sha256 remoteIdentity now draws, stops P remoteIdentity now v = false) ∨
        ∀ v ∈ w.turns D P sha256 remoteIdentity now draws, plaintextAt P v = none := by
  have hA' : ∀ e ∈ (D.fetch w.node.user w.node.device w.dir).1.mapIdx fun i env ↦ (env, draws i),
      A e.1.fromUser e.1.fromDevice := by
    intro e he
    obtain ⟨i, hi, rfl⟩ := List.mem_mapIdx.1 he
    exact hA _ (List.getElem_mem hi)
  obtain ⟨hstops, hgoes⟩ := receiveLoop_spec P sha256 remoteIdentity now hD
    ((D.fetch w.node.user w.node.device w.dir).1.mapIdx fun i env ↦ (env, draws i)) []
    (w := { w with dir := (D.fetch w.node.user w.node.device w.dir).2 }) hA' hI
  unfold DeliversAll
  dsimp only
  rw [← List.filterMap_eq_nil_iff]
  constructor
  · rintro (hnil | ⟨out, hout, -⟩)
    · exact .inr hnil
    · refine .inl fun v hv ↦ Bool.eq_false_iff.2 fun hstop ↦ ?_
      obtain ⟨err, herr⟩ := hstops ⟨v, hv, hstop⟩
      rw [receiveAll, herr] at hout
      cases hout
  · rintro (hgo | hnil)
    · exact .inr ⟨_, hgoes hgo, List.Sublist.refl _⟩
    · exact .inl hnil

end Desk

/-! ### A run over bytes -/

namespace Plain

/-- The identity of a device. -/
def identityOf (seed : UInt8) : IdentityMaterial UInt8 :=
  { identityKey := pad 32 [seed], deviceId := some [seed] }

/-- The draws of every step. -/
def sesameDraws : SesameDraws UInt8 :=
  { dhs := pad 32 [11], sessionId := pad 16 [12], fresh := pad 32 [13] }

/-- A directory that knows device 1 of user 1 and device 2 of user 2. -/
def twoDevices : MemoryDirectory UInt8 :=
  (MemoryDirectory.empty.register [1] [1] (pad 32 [1])).register [2] [2] (pad 32 [2])

/-- Device 1 has sent one message to device 2. -/
def oneSent : MemoryDirectory UInt8 :=
  ((Desk.mk (SesameNode.new [1] [1] (SessionManager.new [1] [1] (identityOf 1))) twoDevices).send
    MemoryDirectory.directory primitives digest [[2]]
    { plaintext := [104, 105], remoteIdentity := identityOf 2, sk := pad 32 [9]
      remoteDh := pad 32 [21], now := 1 } fun _ _ ↦ sesameDraws).2.dir

/-- Device 2 expects device 1, and an envelope lies in its mailbox next to the message. -/
def receiver (body : MailboxBody UInt8) : Desk UInt8 (MemoryDirectory UInt8) :=
  { node := SesameNode.new [2] [2]
      ((SessionManager.new [2] [2] (identityOf 2)).prepareInbound [1] [1] (identityOf 1) (pad 32 [9])
        (pad 32 [21]) 2 (pad 16 [22])).2
    dir := (MemoryDirectory.directory.send [2] [2] { fromUser := [1], fromDevice := [1], body }
      oneSent).2 }

/-- A message with an empty header. -/
def malformed : MailboxBody UInt8 := .encrypted (pad 16 []) (pad 16 []) [] [] true

/-- The device that has written to device 2. -/
def peer (user device : List UInt8) : Prop := user = [1] ∧ device = [1]

/-- The mailbox of the peer is there. -/
theorem peer_known {d : MemoryDirectory UInt8} (h : (d.boxes.lookup ([1], [1])).isSome = true) :
    ∀ user device, peer user device → (user, device) ∈ d.boxes := by
  rintro user device ⟨rfl, rfl⟩
  exact Finmap.mem_iff.2 (Option.isSome_iff_exists.1 h)

end Plain

open Plain

/-- A message and a receipt: everything is delivered. -/
theorem receiveAll_delivers_receipt :
    (receiver (.deliveryReceipt (pad 16 []))).DeliversAll MemoryDirectory.directory primitives digest
      (identityOf 1) 3 fun _ ↦ sesameDraws := by
  refine (Desk.receiveAll_delivers_iff primitives digest (identityOf 1) 3
    (MemoryDirectory.directory_accepts peer) (fun _ ↦ sesameDraws) _ ?_ ?_).2 (.inl ?_)
  · exact peer_known (by decide +kernel)
  · exact (by decide +kernel : ∀ env ∈ (MemoryDirectory.directory.fetch [2] [2]
      (receiver (.deliveryReceipt (pad 16 []))).dir).1, env.fromUser = [1] ∧ env.fromDevice = [1])
  · decide +kernel

/-- **One malformed header loses the mailbox.** The message next to it can be decrypted at its turn,
but the call returns an error, and the next call finds nothing. -/
theorem malformed_header_loses_message :
    (¬ ∀ (A : List UInt8 → List UInt8 → Prop) (I : MemoryDirectory UInt8 → Prop),
      MemoryDirectory.directory.Accepts A I →
      I (MemoryDirectory.directory.fetch [2] [2] (receiver malformed).dir).2 →
      (∀ env ∈ (MemoryDirectory.directory.fetch [2] [2] (receiver malformed).dir).1,
        A env.fromUser env.fromDevice) →
      (receiver malformed).DeliversAll MemoryDirectory.directory primitives digest (identityOf 1) 3
        fun _ ↦ sesameDraws) ∧
    ((receiver malformed).receiveAll MemoryDirectory.directory primitives digest (identityOf 1) 3
      fun _ ↦ sesameDraws).1 = .error .invalidLength ∧
    (((receiver malformed).receiveAll MemoryDirectory.directory primitives digest (identityOf 1) 3
        fun _ ↦ sesameDraws).2.receiveAll MemoryDirectory.directory primitives digest (identityOf 1) 4
        fun _ ↦ sesameDraws).1 = .ok [] := by
  have herr : ((receiver malformed).receiveAll MemoryDirectory.directory primitives digest
      (identityOf 1) 3 fun _ ↦ sesameDraws).1 = .error .invalidLength := by decide +kernel
  refine ⟨fun h ↦ ?_, herr, by decide +kernel⟩
  have hall := h peer _ (MemoryDirectory.directory_accepts peer) (peer_known (by decide +kernel))
    (by decide +kernel : ∀ env ∈ (MemoryDirectory.directory.fetch [2] [2]
      (receiver malformed).dir).1, env.fromUser = [1] ∧ env.fromDevice = [1])
  rcases hall with hnil | ⟨out, hout, -⟩
  · revert hnil
    decide +kernel
  · rw [herr] at hout
    cases hout

end VoiceChatCrypto
