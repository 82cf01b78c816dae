import VoiceChatCrypto.Data.Simulation
import VoiceChatCrypto.Engine.Genuine
import VoiceChatCrypto.Engine.Lifecycle
import VoiceChatCrypto.Ratchet.Agreement

/-!
# Two devices

Two devices with one session between them, and a network that hands them anything. A `Line` says which
session of each device it is, and `connection` is the system whose steps are the calls of either
device. Three conditions make a call admissible (`Line.Allows`): what it draws is new to both devices;
it does not delete the session; and AEAD is unforgeable, so the query of a `decrypt` call opens nothing
that neither device has sealed.

The logs of the two devices are the history of a conversation of two ratchets (`Line.History`), and a
call adds one message to it that was sent, or one that was accepted, or nothing (`Line.Linked.step`).
-/

open Alphabet

namespace VoiceChatCrypto

variable {B : Type} [Alphabet B] {P : Primitives B}

/-- The two ends of a session, and what both were set up with. Nothing here changes in a run. -/
structure Line (B : Type) [Alphabet B] where
  /-- The id of the session at either end; each device draws its own. -/
  sid : Party → SessionId B
  /-- The conversation that both bind. -/
  conversation : List B
  /-- The associated data of the handshake, which both bind. -/
  handshakeAd : List B
  /-- The signed prekey that the session started from. -/
  signedPrekey : Block B 32

/-- What the associated data of a message is bound to. -/
def Line.boundAd (l : Line B) (ad : List B) : List B :=
  Cursor.putVec l.handshakeAd ++ Cursor.putVec l.conversation ++ ad

/-- Messages that bind the same were given the same associated data. -/
theorem Line.boundAd_inj {l : Line B} {ad ad' : List B} (h : l.boundAd ad = l.boundAd ad') : ad = ad' :=
  List.append_cancel_left h

/-- What an AEAD query names: the key, the nonce, the ciphertext and the associated data. -/
abbrev Query (B : Type) := Block B 32 × Block B 12 × List B × List B

/-- The query of a message key. -/
def Query.of (P : Primitives B) (msgKey : Block B 32) (header : Header B) (ct ad : List B) : Query B :=
  ((aeadFromMk P msgKey).1, (aeadFromMk P msgKey).2, ct, concatAd ad header)

/-- The query that seals the next message of a session. -/
def LiveSession.sealQuery (P : Primitives B) (ct ad : List B) (s : LiveSession B) : Option (Query B) :=
  match s.ratchet with
  | .classical r =>
    match r.sendMessageKey P with
    | .ok ((header, msgKey), _) => some (Query.of P msgKey header ct (s.boundAd ad))
    | .error _ => none
  | _ => none

/-- The query that a session opens a message with. -/
def LiveSession.openQuery (P : Primitives B) (d : Draws B) (m : SealedMessage B) (ad : List B)
    (s : LiveSession B) : Option (Query B) :=
  match s.ratchet with
  | .classical r =>
    match Header.decode m.header with
    | .ok header =>
      match r.ratchetReceiveKey P d.ratchet header with
      | .ok (msgKey, _) => some (Query.of P msgKey header m.ciphertext (s.boundAd ad))
      | .error _ => none
    | .error _ => none
  | _ => none

/-- The session that a call seals with: the one that is there, or the one that it opens. -/
inductive Event.Session (P : Primitives B) (ev : Event B) (sid : SessionId B) : LiveSession B → Prop
  | held {s : LiveSession B} {pt ad : List B}
      (hc : ev.call = .encrypt sid pt ad ∨ ev.call = .encryptVoicePayload sid pt ad)
      (hs : ev.before.sessions.lookup sid = some s) : Session P ev sid s
  | opened {bundle : PublicPrekeyBundle B} {conv pt ad : List B} {i : AliceInitiation B}
      {r : LiveRatchet B} (hc : ev.call = .establish bundle conv pt ad)
      (hi : ev.before.initiate P bundle ev.draws = .ok (i, r)) :
      Session P ev sid (ev.before.outboundSession bundle conv i r)

/-- The AEAD seal that a call of the session has made. -/
def Event.AeadSeals (P : Primitives B) (ev : Event B) (sid : SessionId B) (q : Query B) : Prop :=
  ∃ header ct ad pt s, ev.Seals sid header ct ad pt ∧ ev.Session P sid s ∧
    s.sealQuery P ct ad = some q

/-- The AEAD query of a call opens only what one of the two devices has sealed. -/
def Line.Unforged (P : Primitives B) (l : Line B) (w : Party → Run B) (p : Party) (m : SealedMessage B)
    (ad : List B) (d : Draws B) : Prop :=
  ∀ s q pt, (w p).engine.sessions.lookup (l.sid p) = some s → s.openQuery P d m ad = some q →
    aeadOpen P q.1 q.2.1 q.2.2.1 q.2.2.2 = .ok pt →
    ∃ p', ∃ ev ∈ (w p').log, ev.AeadSeals P (l.sid p') q

/-- **What a run of two devices may assume of a call.** What is drawn is new to both; neither deletes
the session; and what the network delivers is a string of bytes (a header is the encoding of what it
decodes to) that was not forged. -/
structure Line.Allows (P : Primitives B) (l : Line B) (w : Party → Run B) (p : Party) (c : Call B)
    (d : Draws B) : Prop where
  /-- The calls are regular, so that nothing of the device is lost in storage. -/
  regular : Engine.Regular P (w p) c d
  /-- What is drawn is new to the device itself. -/
  fresh : Fresh P (w p) c d
  /-- The ratchet key is new to both devices. -/
  ratchet : ∀ q, NewRatchet P (w q) c d
  /-- And it is not the signed prekey, which was the first ratchet key of the responder. -/
  signedPrekey : P.publicKey d.ratchet ≠ l.signedPrekey
  /-- The session is not deleted. -/
  keeps : ¬ c.Deletes (l.sid p)
  /-- Headers arrive in the form they are written in. -/
  bytes : ∀ m ad hd, c = .decrypt (l.sid p) m ad → Header.decode m.header = .ok hd →
    hd.encode = m.header
  /-- A message that opens was sealed by the peer, or is not of this session at all. -/
  unforged : ∀ m ad, c = .decrypt (l.sid p) m ad → l.Unforged P w p m ad d

/-- **How a session starts**: Bob's engine offers a bundle, Alice's engine opens a session with it, and
Bob's answers the packet. Anything may have happened on both devices before. -/
structure Line.Handshake (P : Primitives B) (l : Line B) (alice bob : Run B)
    (bundle : PublicPrekeyBundle B) (pt ad : List B) (d d' : Draws B) (i : AliceInitiation B)
    (r : LiveRatchet B) (packet : InitiationPacket B) : Prop where
  /-- What the initiator has drawn so far was new. -/
  alice_fresh : (device P (Fresh P)).Reachable alice
  /-- The initiator's calls so far were regular. -/
  alice_regular : (device P (Engine.Regular P)).Reachable alice
  /-- What the responder has drawn so far was new. -/
  bob_fresh : (device P (Fresh P)).Reachable bob
  /-- The responder's calls so far were regular. -/
  bob_regular : (device P (Engine.Regular P)).Reachable bob
  /-- The initiator opens classical sessions. -/
  alice_profile : alice.engine.profile = .classicalV1
  /-- The responder answers with classical sessions. -/
  bob_profile : bob.engine.profile = .classicalV1
  /-- The bundle is the responder's. -/
  offers : Offers P bob.engine.identity bob.engine.prekeys bundle
  /-- The handshake of the initiator, and the ratchet it leads to. -/
  initiates : alice.engine.initiate P bundle d = .ok (i, r)
  /-- The initiator's call succeeds with the packet. -/
  established : (alice.engine.call P d (.establish bundle l.conversation pt ad)).1 =
    .ok (.established d.sessionId packet)
  /-- It draws something new. -/
  establish_fresh : Fresh P alice (.establish bundle l.conversation pt ad) d
  /-- It is regular. -/
  establish_regular : Engine.Regular P alice (.establish bundle l.conversation pt ad) d
  /-- The responder's call draws something new. -/
  process_fresh : Fresh P bob (.processInbound packet l.conversation ad) d'
  /-- It is regular, and so the packet is not refused for want of room. -/
  process_regular : Engine.Regular P bob (.processInbound packet l.conversation ad) d'
  /-- The initiator's ratchet key is not the signed prekey. -/
  alice_ratchet : P.publicKey d.ratchet ≠ l.signedPrekey
  /-- The responder's next ratchet key is not the signed prekey. -/
  bob_ratchet : P.publicKey d'.ratchet ≠ l.signedPrekey
  /-- The two ratchet keys are different. -/
  ratchets : P.publicKey d.ratchet ≠ P.publicKey d'.ratchet
  /-- The session at the initiator is the one that was opened. -/
  sid_alice : l.sid .alice = d.sessionId
  /-- The session at the responder is the one that was answered. -/
  sid_bob : l.sid .bob = d'.sessionId
  /-- The line binds what the handshake yields. -/
  handshakeAd : l.handshakeAd = i.shared.ad
  /-- The line starts from the bundle's signed prekey. -/
  signedPrekey : l.signedPrekey = bundle.signedPrekey

/-- The devices of Alice and of Bob. -/
def devices (alice bob : Run B) : Party → Run B
  | .alice => alice
  | .bob => bob

/-- **Two devices and a network.** After a handshake each device makes any calls, in any order; what the
network hands to a device are the arguments of its `decrypt` calls. -/
def connection (P : Primitives B) (l : Line B) : System (Party → Run B) where
  start w := ∃ alice bob bundle pt ad d d' i r packet,
    l.Handshake P alice bob bundle pt ad d d' i r packet ∧
    w = devices (alice.extend P d (.establish bundle l.conversation pt ad))
      (bob.extend P d' (.processInbound packet l.conversation ad))
  step w w' := ∃ p c d, l.Allows P w p c d ∧ w' = Function.update w p ((w p).extend P d c)

/-! ### The history of a session -/

/-- **The logs of the devices are the history of a conversation.** Each direction is needed: what a
device has done was done in the conversation, and nothing else was. -/
structure Line.History (P : Primitives B) (l : Line B) (w : Party → Run B) (net : Net B) : Prop where
  /-- Whatever a device has sealed in the session was sent in the conversation. -/
  seals : ∀ p, ∀ ev ∈ (w p).log, ∀ header ct ad pt, ev.Seals (l.sid p) header ct ad pt →
    ∃ hd : Header B, header = hd.encode ∧ ⟨p, hd, ct, l.boundAd ad, pt⟩ ∈ net.sent
  /-- Whatever was sent in the conversation was sealed by a device. -/
  sent : ∀ m ∈ net.sent, ∃ ev ∈ (w m.sender).log, ∃ ad, m.ad = l.boundAd ad ∧
    ev.Seals (l.sid m.sender) m.header.encode m.ct ad m.pt
  /-- Whatever a device has opened in the session was accepted in the conversation. -/
  opens : ∀ p, ∀ ev ∈ (w p).log, ∀ header ct ad pt, ev.Opens (l.sid p) header ct ad pt →
    ∃ hd : Header B, header = hd.encode ∧ ⟨p, hd, ct, l.boundAd ad⟩ ∈ net.accepted
  /-- Whatever was accepted in the conversation was opened by a device. -/
  accepted : ∀ a ∈ net.accepted, ∃ ev ∈ (w a.receiver).log, ∃ ad pt, a.ad = l.boundAd ad ∧
    ev.Opens (l.sid a.receiver) a.header.encode a.ct ad pt
  /-- Whatever a device has given to the AEAD in the session was sealed in the conversation, also
  when the call failed later. -/
  sealed : ∀ p, ∀ ev ∈ (w p).log, ∀ q, ev.AeadSeals P (l.sid p) q → q ∈ net.sealed

/-- What one more event of a device adds to the history: the messages that it seals or opens in the
session, and nothing else. -/
structure Line.Grows (P : Primitives B) (l : Line B) (p : Party) (ev : Event B) (net net' : Net B) :
    Prop where
  /-- Nothing that was sent is forgotten. -/
  sent : net.sent ⊆ net'.sent
  /-- Nothing that was accepted is forgotten. -/
  accepted : net.accepted ⊆ net'.accepted
  /-- Nothing that was sealed is forgotten. -/
  sealed : net.sealed ⊆ net'.sealed
  /-- What the event seals has been sent. -/
  seals : ∀ header ct ad pt, ev.Seals (l.sid p) header ct ad pt →
    ∃ hd : Header B, header = hd.encode ∧ ⟨p, hd, ct, l.boundAd ad, pt⟩ ∈ net'.sent
  /-- Nothing else has been sent. -/
  new_sent : ∀ m ∈ net'.sent, m ∈ net.sent ∨ m.sender = p ∧ ∃ ad, m.ad = l.boundAd ad ∧
    ev.Seals (l.sid p) m.header.encode m.ct ad m.pt
  /-- What the event opens has been accepted. -/
  opens : ∀ header ct ad pt, ev.Opens (l.sid p) header ct ad pt →
    ∃ hd : Header B, header = hd.encode ∧ ⟨p, hd, ct, l.boundAd ad⟩ ∈ net'.accepted
  /-- Nothing else has been accepted. -/
  new_accepted : ∀ a ∈ net'.accepted, a ∈ net.accepted ∨ a.receiver = p ∧ ∃ ad pt,
    a.ad = l.boundAd ad ∧ ev.Opens (l.sid p) a.header.encode a.ct ad pt
  /-- What the event gives to the AEAD has been sealed. -/
  aeadSeals : ∀ q, ev.AeadSeals P (l.sid p) q → q ∈ net'.sealed

/-- The events of two devices after one more call. -/
theorem mem_log_update {w : Party → Run B} {p q : Party} {d : Draws B} {c : Call B} {ev : Event B} :
    ev ∈ (Function.update w p ((w p).extend P d c) q).log ↔
      ev ∈ (w q).log ∨ q = p ∧ ev = ⟨(w p).engine, c, d, ((w p).engine.call P d c).1⟩ := by
  rw [Function.update_apply]
  split
  · rename_i hq
    subst hq
    rw [Run.extend, List.mem_append, List.mem_singleton]
    simp only [true_and]
  · rename_i hq
    simp only [hq, false_and, or_false]

/-- **The history grows with the logs.** -/
theorem Line.History.extend {l : Line B} {w : Party → Run B} {net net' : Net B} {p : Party}
    {d : Draws B} {c : Call B} (h : l.History P w net)
    (hgrow : l.Grows P p ⟨(w p).engine, c, d, ((w p).engine.call P d c).1⟩ net net') :
    l.History P (Function.update w p ((w p).extend P d c)) net' where
  seals q ev hev header ct ad pt hseals := by
    rcases mem_log_update.1 hev with hev | ⟨rfl, rfl⟩
    · obtain ⟨hd, hheader, hm⟩ := h.seals q ev hev header ct ad pt hseals
      exact ⟨hd, hheader, hgrow.sent hm⟩
    · exact hgrow.seals header ct ad pt hseals
  sent m hm := by
    rcases hgrow.new_sent m hm with hm | ⟨hp, hev⟩
    · obtain ⟨ev, hev, hseals⟩ := h.sent m hm
      exact ⟨ev, mem_log_update.2 (.inl hev), hseals⟩
    · rw [hp]
      exact ⟨_, mem_log_update.2 (.inr ⟨rfl, rfl⟩), hev⟩
  opens q ev hev header ct ad pt hopens := by
    rcases mem_log_update.1 hev with hev | ⟨rfl, rfl⟩
    · obtain ⟨hd, hheader, ha⟩ := h.opens q ev hev header ct ad pt hopens
      exact ⟨hd, hheader, hgrow.accepted ha⟩
    · exact hgrow.opens header ct ad pt hopens
  accepted a ha := by
    rcases hgrow.new_accepted a ha with ha | ⟨hp, hev⟩
    · obtain ⟨ev, hev, hopens⟩ := h.accepted a ha
      exact ⟨ev, mem_log_update.2 (.inl hev), hopens⟩
    · rw [hp]
      exact ⟨_, mem_log_update.2 (.inr ⟨rfl, rfl⟩), hev⟩
  sealed q ev hev x hx := by
    rcases mem_log_update.1 hev with hev | ⟨rfl, rfl⟩
    · exact hgrow.sealed (h.sealed q ev hev x hx)
    · exact hgrow.aeadSeals x hx

/-! ### One call -/

section Call

variable {l : Line B} {p : Party} {ev : Event B} {net : Net B}

/-- A call that leaves the session alone adds nothing. -/
theorem Event.Leaves.grows (h : ev.Leaves (l.sid p)) : l.Grows P p ev net net where
  sent := List.Subset.refl _
  accepted := List.Subset.refl _
  sealed := List.Subset.refl _
  seals header ct ad pt hseals := absurd hseals (h header ct ad pt).1
  new_sent _ hm := .inl hm
  opens header ct ad pt hopens := absurd hopens (h header ct ad pt).2
  new_accepted _ ha := .inl ha
  aeadSeals := by
    rintro q ⟨header, ct, ad, pt, -, hseals, -⟩
    exact absurd hseals (h header ct ad pt).1

/-- The one message that a call of a session seals. -/
theorem Event.seals_iff_of_encrypt {sid : SessionId B} {pt ad header ct : List B}
    (hc : ev.call = .encrypt sid pt ad ∨ ev.call = .encryptVoicePayload sid pt ad)
    (hout : ev.outcome = .ok (.sealed ⟨header, ct, sid⟩)) (header' ct' ad' pt' : List B) :
    ev.Seals sid header' ct' ad' pt' ↔ header' = header ∧ ct' = ct ∧ ad' = ad ∧ pt' = pt := by
  constructor
  · rintro (⟨hc', hout'⟩ | ⟨bundle, conv, packet, -, hout', -⟩)
    · rw [hout] at hout'
      cases hout'
      rcases hc with hc | hc
      · rw [hc] at hc'
        rcases hc' with hc' | hc'
        · cases hc'
          exact ⟨rfl, rfl, rfl, rfl⟩
        · cases hc'
      · rw [hc] at hc'
        rcases hc' with hc' | hc'
        · cases hc'
        · cases hc'
          exact ⟨rfl, rfl, rfl, rfl⟩
    · rw [hout] at hout'
      cases hout'
  · rintro ⟨rfl, rfl, rfl, rfl⟩
    exact .inl ⟨hc, hout⟩

/-- The one message that opening a session seals. -/
theorem Event.seals_iff_of_establish {sid : SessionId B} {bundle : PublicPrekeyBundle B}
    {conv pt ad header ct : List B} {packet : InitiationPacket B}
    (hc : ev.call = .establish bundle conv pt ad) (hout : ev.outcome = .ok (.established sid packet))
    (hfirst : packet.firstMessage = ⟨header, ct, sid⟩) (header' ct' ad' pt' : List B) :
    ev.Seals sid header' ct' ad' pt' ↔ header' = header ∧ ct' = ct ∧ ad' = ad ∧ pt' = pt := by
  constructor
  · rintro (⟨-, hout'⟩ | ⟨bundle', conv', packet', hc', hout', hfirst'⟩)
    · rw [hout] at hout'
      cases hout'
    · rw [hc] at hc'
      rw [hout] at hout'
      cases hc'
      cases hout'
      rw [hfirst] at hfirst'
      cases hfirst'
      exact ⟨rfl, rfl, rfl, rfl⟩
  · rintro ⟨rfl, rfl, rfl, rfl⟩
    exact .inr ⟨bundle, conv, packet, hc, hout, hfirst⟩

/-- The one message that a `decrypt` call opens. -/
theorem Event.opens_iff_of_decrypt {sid : SessionId B} {m : SealedMessage B} {pt ad : List B}
    (hc : ev.call = .decrypt sid m ad) (hout : ev.outcome = .ok (.opened pt))
    (header' ct' ad' pt' : List B) : ev.Opens sid header' ct' ad' pt' ↔
      header' = m.header ∧ ct' = m.ciphertext ∧ ad' = ad ∧ pt' = pt := by
  constructor
  · rintro (⟨m', hc', hout', rfl, rfl⟩ | ⟨packet, conv, hc', -⟩)
    · rw [hc] at hc'
      rw [hout] at hout'
      cases hc'
      cases hout'
      exact ⟨rfl, rfl, rfl, rfl⟩
    · rw [hc] at hc'
      cases hc'
  · rintro ⟨rfl, rfl, rfl, rfl⟩
    exact .inl ⟨m, hc, hout, rfl, rfl⟩

/-- The one message that answering a packet opens. -/
theorem Event.opens_iff_of_process {sid : SessionId B} {packet : InitiationPacket B}
    {conv pt ad : List B} (hc : ev.call = .processInbound packet conv ad)
    (hout : ev.outcome = .ok (.processed sid pt)) (header' ct' ad' pt' : List B) :
    ev.Opens sid header' ct' ad' pt' ↔ header' = packet.firstMessage.header ∧
      ct' = packet.firstMessage.ciphertext ∧ ad' = ad ∧ pt' = pt := by
  constructor
  · rintro (⟨m', hc', -⟩ | ⟨packet', conv', hc', hout', rfl, rfl⟩)
    · rw [hc] at hc'
      cases hc'
    · rw [hc] at hc'
      rw [hout] at hout'
      cases hc'
      cases hout'
      exact ⟨rfl, rfl, rfl, rfl⟩
  · rintro ⟨rfl, rfl, rfl, rfl⟩
    exact .inr ⟨packet, conv, hc, hout, rfl, rfl⟩

/-- A call that seals a message opens none. -/
theorem Event.Seals.not_opens {sid : SessionId B} {header ct ad pt header' ct' ad' pt' : List B}
    (h : ev.Seals sid header ct ad pt) : ¬ ev.Opens sid header' ct' ad' pt' := by
  rintro (⟨m, -, hout, -⟩ | ⟨packet, conv, -, hout, -⟩)
  · rcases h with ⟨-, hout'⟩ | ⟨bundle, conv, packet, -, hout', -⟩
    · rw [hout] at hout'
      cases hout'
    · rw [hout] at hout'
      cases hout'
  · rcases h with ⟨-, hout'⟩ | ⟨bundle, conv', packet', -, hout', -⟩
    · rw [hout] at hout'
      cases hout'
    · rw [hout] at hout'
      cases hout'

/-- **A sealed message** is a message of the conversation. -/
theorem Line.grows_send {pt ad ct : List B} {hd : Header B} {msgKey : Block B 32}
    {t : DoubleRatchetState B}
    (hseals : ∀ header' ct' ad' pt', ev.Seals (l.sid p) header' ct' ad' pt' ↔
      header' = hd.encode ∧ ct' = ct ∧ ad' = ad ∧ pt' = pt)
    (hsession : ∀ s, ev.Session P (l.sid p) s →
      s.ratchet = .classical (net.state p) ∧ s.boundAd ad = l.boundAd ad)
    (hkey : (net.state p).sendMessageKey P = .ok ((hd, msgKey), t)) :
    l.Grows P p ev net (net.send P ⟨p, hd, ct, l.boundAd ad, pt⟩ msgKey t) where
  sent := List.subset_cons_self _ _
  accepted := List.Subset.refl _
  sealed := List.subset_cons_self _ _
  seals header' ct' ad' pt' hev := by
    obtain ⟨rfl, rfl, rfl, rfl⟩ := (hseals _ _ _ _).1 hev
    exact ⟨hd, rfl, List.mem_cons_self⟩
  new_sent m hm := by
    rcases List.mem_cons.1 hm with rfl | hm
    · exact .inr ⟨rfl, ad, rfl, (hseals _ _ _ _).2 ⟨rfl, rfl, rfl, rfl⟩⟩
    · exact .inl hm
  opens header' ct' ad' pt' hopens :=
    absurd hopens ((hseals _ _ _ _).2 ⟨rfl, rfl, rfl, rfl⟩).not_opens
  new_accepted _ ha := .inl ha
  aeadSeals := by
    rintro q ⟨header', ct', ad', pt', s, hev, hs, hq⟩
    obtain ⟨-, rfl, rfl, rfl⟩ := (hseals _ _ _ _).1 hev
    obtain ⟨hratchet, hbound⟩ := hsession s hs
    simp only [LiveSession.sealQuery, hratchet, hkey, hbound, Option.some.injEq] at hq
    exact hq ▸ List.mem_cons_self

/-- **An opened message** is a message that the conversation has accepted. -/
theorem Line.grows_accept {pt ad ct : List B} {hd : Header B} {fresh : Block B 32}
    {t : DoubleRatchetState B}
    (hopens : ∀ header' ct' ad' pt', ev.Opens (l.sid p) header' ct' ad' pt' ↔
      header' = hd.encode ∧ ct' = ct ∧ ad' = ad ∧ pt' = pt) :
    l.Grows P p ev net (net.accepting fresh ⟨p, hd, ct, l.boundAd ad⟩ t) := by
  have hev : ev.Opens (l.sid p) hd.encode ct ad pt := (hopens _ _ _ _).2 ⟨rfl, rfl, rfl, rfl⟩
  exact
    { sent := List.Subset.refl _
      accepted := List.subset_cons_self _ _
      sealed := List.Subset.refl _
      seals := fun header' ct' ad' pt' hseals ↦ absurd hev hseals.not_opens
      new_sent := fun m hm ↦ .inl hm
      opens := by
        intro header' ct' ad' pt' hev'
        obtain ⟨rfl, rfl, rfl, rfl⟩ := (hopens _ _ _ _).1 hev'
        exact ⟨hd, rfl, List.mem_cons_self⟩
      new_accepted := by
        intro a ha
        rcases List.mem_cons.1 ha with rfl | ha
        · exact .inr ⟨rfl, ad, pt, rfl, hev⟩
        · exact .inl ha
      aeadSeals := by
        rintro q ⟨header', ct', ad', pt', -, hseals, -⟩
        exact absurd hev hseals.not_opens }

end Call

/-! ### The refinement -/

/-- **The two sessions are those of a conversation of two ratchets.** This relation is what the
simulation of two devices by a conversation keeps. -/
structure Line.Linked (P : Primitives B) (l : Line B) (w : Party → Run B) (net : Net B) : Prop where
  /-- Both runs draw new values. -/
  fresh : ∀ p, (device P (Fresh P)).Reachable (w p)
  /-- Both runs are regular. -/
  regular : ∀ p, (device P (Engine.Regular P)).Reachable (w p)
  /-- Each device holds the session, with the ratchet that the conversation has on its side. -/
  session : ∀ p, ∃ s, (w p).engine.sessions.lookup (l.sid p) = some s ∧
    s.ratchet = .classical (net.state p) ∧ s.conversation = l.conversation ∧
    s.handshakeAd = l.handshakeAd
  /-- The logs tell the conversation. -/
  history : l.History P w net
  /-- The ratchet keys of the conversation are the signed prekey and what the devices have drawn. -/
  drawn : ∀ x ∈ net.drawn, P.publicKey x = l.signedPrekey ∨
    ∃ p, ∃ ev ∈ (w p).log, ev.draws.ratchet = x

namespace Line.Linked

variable {l : Line B} {w : Party → Run B} {net : Net B} {p : Party} {c : Call B} {d : Draws B}

/-- A session with the line's conversation and handshake binds what the line does. -/
theorem boundAd_eq {s : LiveSession B} (hconv : s.conversation = l.conversation)
    (had : s.handshakeAd = l.handshakeAd) (ad : List B) : s.boundAd ad = l.boundAd ad := by
  rw [LiveSession.boundAd, Line.boundAd, hconv, had]

/-- One more call, and what it adds to the conversation. -/
theorem extend {net' : Net B} (h : l.Linked P w net) (hallow : l.Allows P w p c d)
    (hgrow : l.Grows P p ⟨(w p).engine, c, d, ((w p).engine.call P d c).1⟩ net net')
    (hsession : ∃ s, ((w p).engine.call P d c).2.sessions.lookup (l.sid p) = some s ∧
      s.ratchet = .classical (net'.state p) ∧ s.conversation = l.conversation ∧
      s.handshakeAd = l.handshakeAd)
    (hothers : ∀ q, q ≠ p → net'.state q = net.state q)
    (hdrawn : ∀ x ∈ net'.drawn, x ∈ net.drawn ∨ d.ratchet = x) :
    l.Linked P (Function.update w p ((w p).extend P d c)) net' where
  fresh q := by
    rw [Function.update_apply]
    split
    · exact reachable_extend (h.fresh p) hallow.fresh
    · exact h.fresh q
  regular q := by
    rw [Function.update_apply]
    split
    · exact reachable_extend (h.regular p) hallow.regular
    · exact h.regular q
  session q := by
    by_cases hq : q = p
    · subst hq
      rw [Function.update_self]
      exact hsession
    · rw [Function.update_of_ne hq, hothers q hq]
      exact h.session q
  history := h.history.extend hgrow
  drawn x hx := by
    rcases hdrawn x hx with hx | hx
    · rcases h.drawn x hx with hx | ⟨q, ev, hev, hx⟩
      · exact .inl hx
      · exact .inr ⟨q, ev, mem_log_update.2 (.inl hev), hx⟩
    · exact .inr ⟨p, _, mem_log_update.2 (.inr ⟨rfl, rfl⟩), hx⟩

/-- What is drawn is new to the conversation. -/
theorem fresh_of_allows (h : l.Linked P w net) (hallow : l.Allows P w p c d) :
    net.Fresh P d.ratchet := by
  intro hmem
  obtain ⟨x, hx, heq⟩ := List.mem_map.1 hmem
  rcases h.drawn x hx with hx | ⟨q, ev, hev, rfl⟩
  · exact hallow.signedPrekey (heq.symm.trans hx)
  · exact hallow.ratchet q ev hev heq

/-- What the network hands over is not forged in the conversation. -/
theorem unforged_of_allows (h : l.Linked P w net) {m : SealedMessage B} {ad : List B}
    (hallow : l.Allows P w p (.decrypt (l.sid p) m ad) d) {hd : Header B}
    (hdec : Header.decode m.header = .ok hd) :
    net.Unforged P d.ratchet ⟨p, hd, m.ciphertext, l.boundAd ad⟩ := by
  intro msgKey trial pt hkey hopen
  obtain ⟨s, hs, hratchet, hconv, had⟩ := h.session p
  have hbound := boundAd_eq hconv had ad
  have hquery : s.openQuery P d m ad = some (Query.of P msgKey hd m.ciphertext (l.boundAd ad)) := by
    simp only [LiveSession.openQuery, hratchet, hdec, hkey, hbound]
  obtain ⟨q, ev, hev, hseals⟩ := hallow.unforged m ad rfl s _ pt hs hquery hopen
  exact h.history.sealed q ev hev _ hseals

/-- **One call of a device** is at most one step of the conversation: a send, a delivery, or nothing
when the call is about something else. -/
theorem step (hseal : SealTotal P) (h : l.Linked P w net) (hallow : l.Allows P w p c d) :
    ∃ net', Relation.ReflTransGen (Net.Step P) net net' ∧
      l.Linked P (Function.update w p ((w p).extend P d c)) net' := by
  obtain ⟨s, hs, hratchet, hconv, had⟩ := h.session p
  have hbound := boundAd_eq hconv had
  have hsid : l.sid p ≠ d.sessionId := by
    intro heq
    rw [heq, hallow.regular.fresh] at hs
    cases hs
  obtain ⟨s', hs', hstep⟩ := (Engine.call_effect (P := P) (device_idle (h.regular p)) d c).session
    (Engine.mirror hseal (h.regular p)) hs hsid hallow.keeps
  cases hstep with
  | left hev hcore =>
    refine ⟨net, .refl, h.extend hallow hev.grows ⟨s', hs', ?_⟩ (fun _ _ ↦ rfl) fun x hx ↦ .inl hx⟩
    obtain ⟨hratchet', -, hconv', -, had'⟩ := LiveSession.mk.inj hcore
    exact ⟨hratchet'.trans hratchet, hconv'.trans hconv, had'.trans had⟩
  | @sealed pt ad header ct r hc hout henc =>
    rw [hratchet] at henc
    obtain ⟨⟨⟨hd, ct'⟩, t⟩, hlift, hret⟩ := Except.bind_eq_ok.1 henc
    cases hret
    have henc := liftError_eq_ok.1 hlift
    rw [hbound] at henc
    obtain ⟨msgKey, hkey, -⟩ := DoubleRatchetState.encrypt_eq_ok.1 henc
    refine ⟨_, .single (.send (m := ⟨p, hd, ct, l.boundAd ad, pt⟩) hkey henc),
      h.extend hallow (Line.grows_send (Event.seals_iff_of_encrypt hc hout) ?_ hkey)
        ⟨_, hs', ?_, hconv, had⟩ ?_ fun x hx ↦ .inl hx⟩
    · intro s₁ hs₁
      cases hs₁ with
      | held _ hs₁ =>
        obtain rfl := Option.some.inj (hs₁.symm.trans hs)
        exact ⟨hratchet, hbound ad⟩
      | opened hc' =>
        rcases hc with hc | hc
        · rw [hc] at hc'
          cases hc'
        · rw [hc] at hc'
          cases hc'
    · show LiveRatchet.classical t = .classical (Function.update net.state p t p)
      rw [Function.update_self]
    · intro q hq
      exact Function.update_of_ne hq _ _
  | @opened m ad pt r hc hout hdec =>
    dsimp only at hc
    subst hc
    rw [hratchet] at hdec
    obtain ⟨hd, hheader, hdec⟩ := Except.bind_eq_ok.1 hdec
    have hheader := liftError_eq_ok.1 hheader
    rw [hbound] at hdec
    cases hres : (net.state p).decrypt P d.ratchet hd m.ciphertext (l.boundAd ad) with
    | mk res t =>
      rw [hres] at hdec
      cases res with
      | error err => cases hdec
      | ok pt' =>
        cases hdec
        have hdeliver : net.deliver P d.ratchet ⟨p, hd, m.ciphertext, l.boundAd ad⟩ =
          net.accepting d.ratchet ⟨p, hd, m.ciphertext, l.boundAd ad⟩ t := Net.deliver_of_ok hres
        have hnet : Net.Step P net (net.accepting d.ratchet ⟨p, hd, m.ciphertext, l.boundAd ad⟩ t) := by
          rw [← hdeliver]
          exact .deliver (h.fresh_of_allows hallow) (h.unforged_of_allows hallow hheader)
        have hopens := Event.opens_iff_of_decrypt rfl hout
        rw [← hallow.bytes m ad hd rfl hheader] at hopens
        refine ⟨_, .single hnet, h.extend hallow (Line.grows_accept hopens)
          ⟨_, hs', ?_, hconv, had⟩ ?_ ?_⟩
        · show LiveRatchet.classical t = .classical (Function.update net.state p t p)
          rw [Function.update_self]
        · intro q hq
          exact Function.update_of_ne hq _ _
        · intro x hx
          rcases List.mem_cons.1 hx with rfl | hx
          · exact .inr rfl
          · exact .inl hx

end Line.Linked

end VoiceChatCrypto
