import VoiceChatCrypto.Engine.Connection
import VoiceChatCrypto.Engine.Handshake

/-!
# End to end

A handshake leaves two devices with the two ends of a conversation of ratchets
(`Line.Handshake.linked`), and a call of either device is at most one step of that conversation. So the
devices simulate the conversations of two ratchets, and what holds there of ratchets and deliveries
holds here of engines and their `decrypt` calls, whatever else the engines do in between: other
sessions, failures, and reloads from storage.
-/

open Alphabet

namespace VoiceChatCrypto

variable {B : Type} [Alphabet B] {P : Primitives B}

/-! ### The handshake -/

/-- Conversations of any pair of ratchets. -/
def Net.conversations (P : Primitives B) : System (Net B) where
  start net := ∃ sk b maxSkip, (Net.conversation P sk b maxSkip).start net
  step := Net.Step P

/-- A message of a session belongs to a session that was drawn. -/
theorem Event.Seals.used {ev : Event B} {sid : SessionId B} {header ct ad pt : List B}
    (h : ev.Seals sid header ct ad pt) : ev.Used sid ct := by
  refine ⟨header, .inr ?_⟩
  rcases h with ⟨-, hout⟩ | ⟨bundle, conv, packet, -, hout, hfirst⟩
  · exact .inl ⟨_, hout, rfl, rfl, rfl⟩
  · exact .inr ⟨packet, hout, by rw [hfirst], by rw [hfirst]⟩

theorem Event.Opens.accepts {ev : Event B} {sid : SessionId B} {header ct ad pt : List B}
    (h : ev.Opens sid header ct ad pt) : ev.Accepts sid header ct := by
  rcases h with ⟨m, hc, hout, hheader, hct⟩ | ⟨packet, conv, hc, hout, hheader, hct⟩
  · exact .inl ⟨m, ad, pt, hc, hout, hheader, hct⟩
  · exact .inr ⟨packet, conv, ad, pt, hc, hout, hheader, hct⟩

section Ideal

variable (hK : IdealKdf P) (hA : IdealAead P) (hO : OpensSealed P) (h1 : OneKey P)
include hK hO h1

/-- A run has done nothing yet with a session whose id it has not drawn. -/
theorem not_used_of_fresh {r : Run B} (hr : (device P (Fresh P)).Reachable r) {sid : SessionId B}
    (hsid : ¬ r.DrewSession sid) {ev : Event B} (hev : ev ∈ r.log) {ct : List B} : ¬ ev.Used sid ct :=
  fun hused ↦ hsid
    ((once hK hO h1 (reachable_mono hr fun _ _ _ h ↦ h.toFreshSessions)).used_drawn ev hev sid ct hused)

include hA

/-- The replay cache knows nothing of a session whose id was not drawn. -/
theorem freshId_of_fresh {r : Run B} (hr : (device P (Fresh P)).Reachable r) {sid : SessionId B}
    (hsid : ¬ r.DrewSession sid) : r.engine.FreshId sid := by
  intro m conv
  refine decide_eq_false fun hmem ↦ ?_
  obtain ⟨ev, hev, sid₀, m₀, conv₀, hacc, heq⟩ :=
    (cached (hO.openLength hA) (reachable_mono hr fun _ _ _ h ↦ h.fits)).accepted _ hmem rfl
  obtain ⟨rfl, -⟩ := start_eq_of_replayKey heq
  exact not_used_of_fresh hK hO h1 hr hsid hev ⟨m₀.header, .inl hacc⟩

end Ideal

/-- The result of a call that opens a session. -/
theorem Engine.call_establish_eq_ok {e : Engine B} (h : e.storage.staged = none)
    {bundle : PublicPrekeyBundle B} {conv pt ad : List B} {d : Draws B} {sid : SessionId B}
    {packet : InitiationPacket B} {i : AliceInitiation B} {r : LiveRatchet B}
    (hi : e.initiate P bundle d = .ok (i, r))
    (hout : (e.call P d (.establish bundle conv pt ad)).1 = .ok (.established sid packet)) :
    ∃ header ct r', r.encrypt P d pt ((e.outboundSession bundle conv i r).boundAd ad) =
        .ok ((header, ct), r') ∧
      packet = e.initiationPacket P bundle i ⟨header, ct, d.sessionId⟩ ∧
      (e.call P d (.establish bundle conv pt ad)).2.sessions.lookup d.sessionId =
        some { e.outboundSession bundle conv i r with ratchet := r' } := by
  rcases establish_cases (P := P) h bundle conv pt ad d with
    ⟨err, herr, -⟩ | ⟨i', r₁, hi', ⟨err, -, heq⟩ | ⟨header, ct, r', henc, heq⟩⟩
  · rw [hi] at herr
    cases herr
  · rw [call, report, heq] at hout
    cases hout
  · rw [hi] at hi'
    cases hi'
    rw [call, report, heq] at hout ⊢
    cases hout
    exact ⟨header, ct, r', henc, rfl, Finmap.lookup_insert _⟩

/-- A conversation whose first message was sent and accepted. -/
theorem Net.reachable_first {sk a a' b msgKey : Block B 32} {maxSkip : UInt32} {hd : Header B}
    {ct ad pt : List B} {t t' : DoubleRatchetState B} (hab : P.publicKey a ≠ P.publicKey b)
    (haa' : P.publicKey a ≠ P.publicKey a') (ha'b : P.publicKey a' ≠ P.publicKey b)
    (hkey : (DoubleRatchetState.initAlice P a sk (P.publicKey b) maxSkip).sendMessageKey P =
      .ok ((hd, msgKey), t))
    (henc : (DoubleRatchetState.initAlice P a sk (P.publicKey b) maxSkip).encrypt P pt ad =
      .ok ((hd, ct), t))
    (hreceive : (DoubleRatchetState.initBob sk b maxSkip).ratchetReceiveKey P a' hd = .ok (msgKey, t'))
    (hdec : (DoubleRatchetState.initBob sk b maxSkip).decrypt P a' hd ct ad = (.ok pt, t')) :
    (conversations P).Reachable (((init P sk a b maxSkip).send P ⟨.alice, hd, ct, ad, pt⟩
      msgKey t).accepting a' ⟨.bob, hd, ct, ad⟩ t') := by
  have hsent : (conversations P).Reachable ((init P sk a b maxSkip).send P ⟨.alice, hd, ct, ad, pt⟩
      msgKey t) :=
    System.Reachable.of_step (.of_start ⟨sk, b, maxSkip, a, hab, rfl⟩) (.send hkey henc)
  have hreceived : ((init P sk a b maxSkip).send P ⟨.alice, hd, ct, ad, pt⟩ msgKey t).receive P a'
      ⟨.bob, hd, ct, ad⟩ = (.ok pt, t') := hdec
  rw [← deliver_of_ok hreceived]
  refine hsent.of_step (.deliver ?_ ?_)
  · intro hmem
    rcases List.mem_cons.1 hmem with heq | hmem
    · exact haa' heq.symm
    · exact ha'b (List.mem_singleton.1 hmem)
  · intro msgKey' trial pt' hkey' hopen
    cases hreceive.symm.trans hkey'
    exact List.mem_cons_self

namespace Line.Handshake

open DoubleRatchetState

variable {l : Line B} {alice bob : Run B} {bundle : PublicPrekeyBundle B} {pt ad : List B}
  {d d' : Draws B} {i : AliceInitiation B} {r : LiveRatchet B} {packet : InitiationPacket B}

/-- **Alice's side** of a handshake: her ratchet and what it sent first. -/
theorem alice_side (hD : IdealDh P) (hM : IdealKem P) (hS : SignatureCorrect P) (hseal : SealTotal P)
    (h : l.Handshake P alice bob bundle pt ad d d' i r packet) :
    ∃ hd ct msgKey t, hd = ⟨P.publicKey d.ratchet, 0, 0⟩ ∧
      r = .classical (initAlice P d.ratchet i.shared.sk bundle.signedPrekey defaultMaxSkip) ∧
      sendMessageKey P (initAlice P d.ratchet i.shared.sk bundle.signedPrekey defaultMaxSkip) =
        .ok ((hd, msgKey), t) ∧
      DoubleRatchetState.encrypt P (initAlice P d.ratchet i.shared.sk bundle.signedPrekey defaultMaxSkip)
        pt (l.boundAd ad) = .ok ((hd, ct), t) ∧
      packet = alice.engine.initiationPacket P bundle i ⟨hd.encode, ct, d.sessionId⟩ ∧
      ∃ s, (alice.engine.call P d (.establish bundle l.conversation pt ad)).2.sessions.lookup
          d.sessionId = some s ∧
        s.ratchet = .classical t ∧ s.conversation = l.conversation ∧ s.handshakeAd = l.handshakeAd := by
  obtain ⟨header, ct, r', henc, hpacket, hlookup⟩ := Engine.call_establish_eq_ok
    (device_idle h.alice_fresh) h.initiates h.established
  have hvalid := (Engine.mirror hseal h.bob_regular).device.valid
  obtain ⟨seed, hpk, -⟩ := Engine.peekPacketPq_of_offers hvalid h.offers
  obtain ⟨r₀, hr₀, hi⟩ := Engine.initiate_of_offers hD hM hS h.offers alice.engine d hpk
  rw [h.initiates] at hi
  cases hi
  rw [h.alice_profile] at hr₀
  cases hr₀
  have hbound : (alice.engine.outboundSession bundle l.conversation
      (initiation P d.ephemeral d.kemCoins alice.engine.identity bundle seed) (.classical
        (initAlice P d.ratchet (initiation P d.ephemeral d.kemCoins alice.engine.identity bundle
          seed).shared.sk bundle.signedPrekey defaultMaxSkip))).boundAd ad = l.boundAd ad := by
    rw [Line.boundAd, h.handshakeAd]
    rfl
  rw [hbound] at henc
  obtain ⟨⟨⟨hd, ct'⟩, t⟩, hlift, hret⟩ := Except.bind_eq_ok.1 henc
  cases hret
  have henc := liftError_eq_ok.1 hlift
  obtain ⟨msgKey, hkey, -⟩ := encrypt_eq_ok.1 henc
  obtain ⟨t', hkey'⟩ := send_first (P := P) d.ratchet (initiation P d.ephemeral d.kemCoins
    alice.engine.identity bundle seed).shared.sk bundle.signedPrekey defaultMaxSkip
  have hhd : hd = ⟨P.publicKey d.ratchet, 0, 0⟩ := by
    rw [hkey] at hkey'
    exact congrArg (fun out ↦ out.1.1) (Except.ok.inj hkey')
  exact ⟨hd, ct, msgKey, t, hhd, rfl, hkey, henc, hpacket, _, hlookup, rfl, rfl, h.handshakeAd.symm⟩

/-- **Bob's side**: his ratchet opens what hers has sent first. -/
theorem bob_side (hK : IdealKdf P) (hD : IdealDh P) (hM : IdealKem P) (hS : SignatureCorrect P)
    (hA : IdealAead P) (hO : OpensSealed P) (h1 : OneKey P) (hseal : SealTotal P)
    (h : l.Handshake P alice bob bundle pt ad d d' i r packet) {ct : List B} {msgKey : Block B 32}
    {t : DoubleRatchetState B}
    (hkey : sendMessageKey P (initAlice P d.ratchet i.shared.sk bundle.signedPrekey defaultMaxSkip) =
      .ok ((⟨P.publicKey d.ratchet, 0, 0⟩, msgKey), t))
    (henc : DoubleRatchetState.encrypt P
      (initAlice P d.ratchet i.shared.sk bundle.signedPrekey defaultMaxSkip) pt (l.boundAd ad) =
        .ok ((⟨P.publicKey d.ratchet, 0, 0⟩, ct), t))
    (hpacket : packet = alice.engine.initiationPacket P bundle i
      ⟨Header.encode ⟨P.publicKey d.ratchet, 0, 0⟩, ct, d.sessionId⟩) :
    ∃ t', ratchetReceiveKey P d'.ratchet ⟨P.publicKey d.ratchet, 0, 0⟩
        (initBob i.shared.sk bob.engine.prekeys.signed.secret defaultMaxSkip) = .ok (msgKey, t') ∧
      DoubleRatchetState.decrypt P d'.ratchet ⟨P.publicKey d.ratchet, 0, 0⟩ ct (l.boundAd ad)
        (initBob i.shared.sk bob.engine.prekeys.signed.secret defaultMaxSkip) = (.ok pt, t') ∧
      (bob.engine.call P d' (.processInbound packet l.conversation ad)).1 =
        .ok (.processed d'.sessionId pt) ∧
      ∃ s, (bob.engine.call P d' (.processInbound packet l.conversation ad)).2.sessions.lookup
          d'.sessionId = some s ∧
        s.ratchet = .classical t' ∧ s.conversation = l.conversation ∧ s.handshakeAd = l.handshakeAd := by
  have hvalid := (Engine.mirror hseal h.bob_regular).device.valid
  obtain ⟨seed, hpk, hpeek⟩ := Engine.peekPacketPq_of_offers hvalid h.offers
  obtain ⟨r₀, -, hi⟩ := Engine.initiate_of_offers hD hM hS h.offers alice.engine d hpk
  rw [h.initiates] at hi
  obtain rfl : i = initiation P d.ephemeral d.kemCoins alice.engine.identity bundle seed :=
    congrArg Prod.fst (Except.ok.inj hi)
  generalize hi' : initiation P d.ephemeral d.kemCoins alice.engine.identity bundle seed = i at *
  have hresp : bob.engine.respond P packet = .ok (alice.engine.identity.publicKey P, i.shared,
      .classical (initBob i.shared.sk bob.engine.prekeys.signed.secret defaultMaxSkip)) := by
    have hinit : initBobRatchet P bob.engine.profile i.shared.sk bob.engine.prekeys.signed.secret =
        .ok (.classical (initBob i.shared.sk bob.engine.prekeys.signed.secret defaultMaxSkip)) := by
      rw [h.bob_profile]
      rfl
    rw [hpacket]
    subst hi'
    exact Engine.respond_of_offers hD hM hvalid h.offers hpeek alice.engine d _ hinit
  -- Bob's ratchet derives Alice's key
  have hspk := h.offers.signedPrekey
  obtain ⟨t', hreceive⟩ := receive_first hD d'.ratchet d.ratchet i.shared.sk
    bob.engine.prekeys.signed.secret
  have hmk : msgKey = (kdfCk P (kdfRk P i.shared.sk (P.diffieHellman d.ratchet
      (P.publicKey bob.engine.prekeys.signed.secret))).2).2 := by
    obtain ⟨t'', hkey'⟩ := send_first (P := P) d.ratchet i.shared.sk bundle.signedPrekey defaultMaxSkip
    rw [hkey] at hkey'
    rw [← hspk]
    exact congrArg (fun out ↦ out.1.2) (Except.ok.inj hkey')
  rw [← hmk] at hreceive
  obtain ⟨msgKey', hkey', hsealed⟩ := encrypt_eq_ok.1 henc
  rw [hkey] at hkey'
  cases hkey'
  have hdec : DoubleRatchetState.decrypt P d'.ratchet ⟨P.publicKey d.ratchet, 0, 0⟩ ct (l.boundAd ad)
      (initBob i.shared.sk bob.engine.prekeys.signed.secret defaultMaxSkip) = (.ok pt, t') := by
    simp only [DoubleRatchetState.decrypt, hreceive, hA.open_seal hsealed]
  have hdecode := Header.decode_encode (h := (⟨P.publicKey d.ratchet, 0, 0⟩ : Header B))
    (hD.publicKey_ne_zero d.ratchet)
  have hbound : (bob.engine.inboundSession packet l.conversation i.shared (.classical
      (initBob i.shared.sk bob.engine.prekeys.signed.secret defaultMaxSkip))).boundAd ad =
        l.boundAd ad := by
    rw [Line.boundAd, h.handshakeAd]
    rfl
  have hopen : (LiveRatchet.classical (initBob i.shared.sk bob.engine.prekeys.signed.secret
      defaultMaxSkip)).decrypt P d' packet.firstMessage.header packet.firstMessage.ciphertext
        ((bob.engine.inboundSession packet l.conversation i.shared (.classical
          (initBob i.shared.sk bob.engine.prekeys.signed.secret defaultMaxSkip))).boundAd ad) =
      .ok (pt, .classical t') := by
    rw [hbound, hpacket]
    simp only [Engine.initiationPacket, LiveRatchet.decrypt, hdecode, hdec, liftError, bind,
      Except.bind, pure, Except.pure]
  have hprocess := Engine.process_eq_ok (device_idle h.bob_fresh) hresp
    (freshId_of_fresh hK hA hO h1 h.bob_fresh h.process_fresh.session _ _) hopen
  refine ⟨t', hreceive, hdec, ?_, ?_⟩
  · rw [Engine.call, Engine.report, hprocess]
    rfl
  · rw [Engine.call, Engine.report, hprocess]
    exact ⟨_, Finmap.lookup_insert _, rfl, rfl, h.handshakeAd.symm⟩

/-- **Before the handshake** no message of the session has been sent. -/
theorem history_init (hK : IdealKdf P) (hO : OpensSealed P) (h1 : OneKey P)
    (h : l.Handshake P alice bob bundle pt ad d d' i r packet) (sk a b : Block B 32) (maxSkip : UInt32) :
    l.History P (devices alice bob) (Net.init P sk a b maxSkip) := by
  have hnew : ∀ p, ∀ ev ∈ (devices alice bob p).log, ∀ ct, ¬ ev.Used (l.sid p) ct := by
    intro p ev hev ct
    cases p with
    | alice =>
      rw [h.sid_alice]
      exact not_used_of_fresh hK hO h1 h.alice_fresh h.establish_fresh.session hev
    | bob =>
      rw [h.sid_bob]
      exact not_used_of_fresh hK hO h1 h.bob_fresh h.process_fresh.session hev
  exact
    { seals := fun p ev hev header ct ad pt hseals ↦ absurd hseals.used (hnew p ev hev ct)
      sent := fun m hm ↦ absurd hm List.not_mem_nil
      opens := fun p ev hev header ct ad pt hopens ↦
        absurd ⟨header, .inl hopens.accepts⟩ (hnew p ev hev ct)
      accepted := fun a ha ↦ absurd ha List.not_mem_nil
      sealed := by
        rintro p ev hev q ⟨header, ct, ad, pt, -, hseals, -⟩
        exact absurd hseals.used (hnew p ev hev ct) }

/-- **A handshake starts a conversation of two ratchets**, with one message sent and accepted. -/
theorem linked (hK : IdealKdf P) (hD : IdealDh P) (hM : IdealKem P) (hS : SignatureCorrect P)
    (hA : IdealAead P) (hO : OpensSealed P) (h1 : OneKey P) (hseal : SealTotal P)
    (h : l.Handshake P alice bob bundle pt ad d d' i r packet) :
    ∃ net, (Net.conversations P).Reachable net ∧
      l.Linked P (devices (alice.extend P d (.establish bundle l.conversation pt ad))
        (bob.extend P d' (.processInbound packet l.conversation ad))) net := by
  obtain ⟨hd, ct, msgKey, t, rfl, rfl, hkey, henc, hpacket, s, hs, hratchet, hconv, had⟩ :=
    h.alice_side hD hM hS hseal
  obtain ⟨t', hreceive, hdec, hprocessed, s', hs', hratchet', hconv', had'⟩ :=
    h.bob_side hK hD hM hS hA hO h1 hseal hkey henc hpacket
  have hspk := h.offers.signedPrekey
  generalize bob.engine.prekeys.signed.secret = b at hreceive hdec hspk
  have hb : P.publicKey b = l.signedPrekey := by rw [h.signedPrekey, hspk]
  have hfirst : packet.firstMessage =
      ⟨Header.encode ⟨P.publicKey d.ratchet, 0, 0⟩, ct, d.sessionId⟩ := by
    rw [hpacket]
    rfl
  have hestablished := h.established
  rw [← h.sid_alice] at hestablished hs hfirst
  rw [← h.sid_bob] at hprocessed hs'
  rw [hspk] at hkey henc
  refine ⟨_, Net.reachable_first (by rw [hb]; exact h.alice_ratchet) h.ratchets
    (by rw [hb]; exact h.bob_ratchet) hkey henc hreceive hdec, ?_⟩
  -- Alice has sent the first message, and Bob has opened it
  have hsent : l.Grows P .alice ⟨alice.engine, .establish bundle l.conversation pt ad, d,
      (alice.engine.call P d (.establish bundle l.conversation pt ad)).1⟩
      (Net.init P i.shared.sk d.ratchet b defaultMaxSkip)
      ((Net.init P i.shared.sk d.ratchet b defaultMaxSkip).send P
        ⟨.alice, ⟨P.publicKey d.ratchet, 0, 0⟩, ct, l.boundAd ad, pt⟩ msgKey t) := by
    refine Line.grows_send (Event.seals_iff_of_establish rfl hestablished hfirst) ?_ hkey
    intro s₁ hs₁
    cases hs₁ with
    | held hc _ =>
      rcases hc with hc | hc
      · cases hc
      · cases hc
    | opened hc hi =>
      cases hc
      have hi := h.initiates.symm.trans hi
      cases hi
      refine ⟨?_, ?_⟩
      · show LiveRatchet.classical _ = _
        rw [hspk]
        rfl
      · rw [Line.boundAd, h.handshakeAd]
        rfl
  have haccepted : l.Grows P .bob ⟨bob.engine, .processInbound packet l.conversation ad, d',
      (bob.engine.call P d' (.processInbound packet l.conversation ad)).1⟩
      ((Net.init P i.shared.sk d.ratchet b defaultMaxSkip).send P
        ⟨.alice, ⟨P.publicKey d.ratchet, 0, 0⟩, ct, l.boundAd ad, pt⟩ msgKey t)
      (((Net.init P i.shared.sk d.ratchet b defaultMaxSkip).send P
        ⟨.alice, ⟨P.publicKey d.ratchet, 0, 0⟩, ct, l.boundAd ad, pt⟩ msgKey t).accepting d'.ratchet
          ⟨.bob, ⟨P.publicKey d.ratchet, 0, 0⟩, ct, l.boundAd ad⟩ t') := by
    have hout : Event.outcome ⟨bob.engine, .processInbound packet l.conversation ad, d',
        (bob.engine.call P d' (.processInbound packet l.conversation ad)).1⟩ =
          .ok (.processed (l.sid .bob) pt) := hprocessed
    have hopens := Event.opens_iff_of_process rfl hout
    rw [hfirst] at hopens
    exact Line.grows_accept hopens
  have hdevices : devices (alice.extend P d (.establish bundle l.conversation pt ad))
      (bob.extend P d' (.processInbound packet l.conversation ad)) =
      Function.update (Function.update (devices alice bob) .alice
        ((devices alice bob .alice).extend P d (.establish bundle l.conversation pt ad))) .bob
        ((Function.update (devices alice bob) .alice
          ((devices alice bob .alice).extend P d (.establish bundle l.conversation pt ad))
            .bob).extend P d' (.processInbound packet l.conversation ad)) := by
    funext p
    cases p <;> rfl
  refine ⟨?_, ?_, ?_, ?_, ?_⟩
  · intro p
    cases p with
    | alice => exact reachable_extend h.alice_fresh h.establish_fresh
    | bob => exact reachable_extend h.bob_fresh h.process_fresh
  · intro p
    cases p with
    | alice => exact reachable_extend h.alice_regular h.establish_regular
    | bob => exact reachable_extend h.bob_regular h.process_regular
  · intro p
    cases p with
    | alice => exact ⟨s, hs, hratchet, hconv, had⟩
    | bob => exact ⟨s', hs', hratchet', hconv', had'⟩
  · have hinit := h.history_init hK hO h1 i.shared.sk d.ratchet b defaultMaxSkip
    rw [hdevices]
    exact (hinit.extend hsent).extend haccepted
  · intro x hx
    rcases List.mem_cons.1 hx with rfl | hx
    · exact .inr ⟨.bob, _, List.mem_append_right _ (List.mem_singleton_self _), rfl⟩
    rcases List.mem_cons.1 hx with rfl | hx
    · exact .inr ⟨.alice, _, List.mem_append_right _ (List.mem_singleton_self _), rfl⟩
    · exact .inl (by rw [List.mem_singleton.1 hx, hb])

end Line.Handshake

/-! ### End to end -/

/-- An accepted message was opened, with some associated data. -/
theorem Event.Accepts.opens {ev : Event B} {sid : SessionId B} {header ct : List B}
    (h : ev.Accepts sid header ct) : ∃ ad pt, ev.Opens sid header ct ad pt := by
  rcases h with ⟨m, ad, pt, hc, hout, hheader, hct⟩ | ⟨packet, conv, ad, pt, hc, hout, hheader, hct⟩
  · exact ⟨ad, pt, .inl ⟨m, hc, hout, hheader, hct⟩⟩
  · exact ⟨ad, pt, .inr ⟨packet, conv, hc, hout, hheader, hct⟩⟩

/-- A sealed message was sent. -/
theorem Event.Seals.sends {ev : Event B} {sid : SessionId B} {header ct ad pt : List B}
    (h : ev.Seals sid header ct ad pt) : ev.Sends sid header ct := by
  rcases h with ⟨-, hout⟩ | ⟨bundle, conv, packet, -, hout, hfirst⟩
  · exact .inl ⟨_, hout, rfl, rfl, rfl⟩
  · exact .inr ⟨packet, hout, by rw [hfirst], by rw [hfirst]⟩

/-- What `decrypt` answers when the replay cache does not stop it. -/
theorem Engine.decrypt_of_ratchet {e : Engine B} (h : e.storage.staged = none) {sid : SessionId B}
    {m : SealedMessage B} {s : LiveSession B} (hs : e.sessions.lookup sid = some s)
    (hrep : e.replay.contains (replayKey sid m s.conversation e.deviceId) = false) (ad : List B)
    (d : Draws B) :
    (∀ pt r, s.ratchet.decrypt P d m.header m.ciphertext (s.boundAd ad) = .ok (pt, r) →
      (e.decrypt P sid m ad d).1 = .ok pt) ∧
    ∀ err, s.ratchet.decrypt P d m.header m.ciphertext (s.boundAd ad) = .error err →
      e.decrypt P sid m ad d = (.error err, e) := by
  refine ⟨fun pt r hdec ↦ ?_, fun err hdec ↦ ?_⟩
  · have hpersist := persistSessionAux_of_idle (e := e.received sid s r m) h d.order
      (lookup_withRatchet sid s r e)
    rw [decrypt, applyDecrypt_eq_ok hs hrep hdec]
    simp only [hpersist]
  · have happly : e.applyDecrypt P sid m ad d = (.error err, e) := by
      simp only [applyDecrypt, hs, hrep, hdec, Bool.false_eq_true, if_false]
    rw [decrypt, happly]

namespace Line.Linked

variable {l : Line B} {w : Party → Run B} {net : Net B} {L : Ladder B} {rung : Party → ℕ} {len : ℕ → ℕ}

/-- **The sessions of the two devices are peers** when the handshake is over: the ratchets are those
of a conversation in which one message was sent and accepted. -/
theorem peers (h : l.Linked P w net) (hcoherent : net.Coherent P L rung len) (p : Party) :
    (w p).Peers (l.sid p) (w p.peer) (l.sid p.peer) := by
  intro ev hev header ct hacc
  obtain ⟨ad, pt, hopens⟩ := hacc.opens
  obtain ⟨hd, rfl, hmem⟩ := h.history.opens p ev hev header ct ad pt hopens
  obtain ⟨m, hm, hcar⟩ := hcoherent.accepted _ hmem
  obtain ⟨ev', hev', ad', -, hseals⟩ := h.history.sent m hm
  have hheader : hd = m.header := hcar.header
  have hct : ct = m.ct := hcar.ct
  rw [hcar.sender, ← hheader, ← hct] at hseals
  rw [hcar.sender] at hev'
  exact ⟨ev', hev', hseals.sends⟩

/-- **A message that the peer has sealed** and that was not opened yet opens to its plaintext, unless a
limit is hit. -/
theorem decrypt_sealed (hA : IdealAead P) (hD : IdealDh P) (hO : OpensSealed P)
    (h : l.Linked P w net) (hcoherent : net.Coherent P L rung len) {p : Party} {m : SealedMessage B}
    {ad pt : List B} {ev : Event B} (hev : ev ∈ (w p.peer).log)
    (hseals : ev.Seals (l.sid p.peer) m.header m.ciphertext ad pt)
    (hnot : ∀ ev ∈ (w p).log, ∀ pt', ¬ ev.Opens (l.sid p) m.header m.ciphertext ad pt')
    (d : Draws B) :
    ((w p).engine.decrypt P (l.sid p) m ad d).1 = .ok pt ∨
      (w p).engine.decrypt P (l.sid p) m ad d =
        (.error (.ofPrimitive .limitExceeded), (w p).engine) := by
  obtain ⟨s, hs, hratchet, hconv, had⟩ := h.session p
  obtain ⟨hd, hheader, hm⟩ := h.history.seals p.peer ev hev _ _ _ _ hseals
  have hcar : Delivery.Carries ⟨p, hd, m.ciphertext, l.boundAd ad⟩
      ⟨p.peer, hd, m.ciphertext, l.boundAd ad, pt⟩ := ⟨rfl, rfl, rfl, rfl⟩
  -- accepted or not, it is told by the header: no two messages share a position
  have hfresh : ∀ ev ∈ (w p).log, ¬ ev.Accepts (l.sid p) m.header m.ciphertext := by
    intro ev' hev' hacc
    obtain ⟨ad', pt', hopens⟩ := hacc.opens
    obtain ⟨hd', hheader', hmem⟩ := h.history.opens p ev' hev' _ _ _ _ hopens
    obtain rfl := Header.encode_injective (hheader.symm.trans hheader')
    obtain ⟨m', hm', hcar'⟩ := hcoherent.accepted _ hmem
    have heq := hcoherent.unique m' hm' _ hm (by rw [← hcar'.header]) (by rw [← hcar'.header])
    have had' : l.boundAd ad' = l.boundAd ad := hcar'.ad.trans (congrArg Message.ad heq)
    rw [Line.boundAd_inj had'] at hopens
    exact hnot ev' hev' pt' hopens
  have hacc : (⟨p, hd, m.ciphertext, l.boundAd ad⟩ : Delivery B) ∉ net.accepted := by
    intro hmem
    obtain ⟨ev', hev', ad', pt', had', hopens⟩ := h.history.accepted _ hmem
    rw [← hheader, ← Line.boundAd_inj had'] at hopens
    exact hnot ev' hev' pt' hopens
  have hreplay := decrypt_ne_replay hA hO (h.fresh p) (h.fresh p.peer) (h.peers hcoherent p)
    ⟨ev, hev, hseals.sends⟩ hfresh ad d
  cases hrep : (w p).engine.replay.contains (replayKey (l.sid p) m s.conversation
      (w p).engine.deviceId) with
  | true =>
    refine absurd ?_ hreplay
    simp only [Engine.decrypt, Engine.applyDecrypt, hs, hrep, if_true]
  | false =>
    obtain ⟨hok, herror⟩ := Engine.decrypt_of_ratchet (P := P) (device_idle (h.fresh p)) hs hrep
      ad d
    obtain ⟨i, hi⟩ := hcoherent.sent _ hm
    have hdh : hd.dh ≠ Block.zero 32 := by
      rw [show hd.dh = L.pub P (i + 1) from hi.dh]
      exact hD.publicKey_ne_zero _
    have hdecode : Header.decode m.header = .ok hd := by
      rw [hheader]
      exact Header.decode_encode hdh
    rw [hratchet, boundAd_eq hconv had] at hok herror
    rcases hcoherent.open_of_carries hD hA d.ratchet hm hcar hacc with hopen | hlimit
    · left
      cases hres : (net.state p).decrypt P d.ratchet hd m.ciphertext (l.boundAd ad) with
      | mk out t =>
        have hout : out = .ok pt := (congrArg Prod.fst hres).symm.trans hopen
        subst hout
        refine hok pt (.classical t) ?_
        simp only [LiveRatchet.decrypt, hdecode, hres, liftError, bind, Except.bind, pure, Except.pure]
    · right
      have hres : (net.state p).decrypt P d.ratchet hd m.ciphertext (l.boundAd ad) =
        (.error .limitExceeded, net.state p) := hlimit
      refine herror _ ?_
      simp only [LiveRatchet.decrypt, hdecode, hres, liftError, bind, Except.bind]
      rfl

/-- **What opens** was sealed by the peer, and not opened before. -/
theorem sealed_of_decrypt (hK : IdealKdf P) (hA : IdealAead P) (hD : IdealDh P)
    (h : l.Linked P w net) (hcoherent : net.Coherent P L rung len) {p : Party} {m : SealedMessage B}
    {ad : List B} {d : Draws B} (hallow : l.Allows P w p (.decrypt (l.sid p) m ad) d) :
    (∃ err, (w p).engine.decrypt P (l.sid p) m ad d = (.error err, (w p).engine)) ∨
    (∃ ev ∈ (w p.peer).log, ∃ pt, ev.Seals (l.sid p.peer) m.header m.ciphertext ad pt) ∧
      ∀ ev ∈ (w p).log, ∀ pt, ¬ ev.Opens (l.sid p) m.header m.ciphertext ad pt := by
  obtain ⟨s, hs, hratchet, hconv, had⟩ := h.session p
  rcases Engine.decrypt_cases (P := P) (device_idle (h.fresh p)) (l.sid p) m ad d with
    herr | ⟨s', pt, r, hs', -, hdec, -⟩
  · exact .inl herr
  right
  obtain rfl := Option.some.inj (hs.symm.trans hs')
  rw [hratchet, boundAd_eq hconv had] at hdec
  obtain ⟨hd, hheader, hdec⟩ := Except.bind_eq_ok.1 hdec
  have hheader := liftError_eq_ok.1 hheader
  have hbytes := hallow.bytes m ad hd rfl hheader
  rcases DoubleRatchetState.decrypt_cases P d.ratchet hd m.ciphertext (l.boundAd ad) (net.state p) with
    ⟨msgKey, trial, pt', hkey, hopen, -⟩ | ⟨err, hres, -⟩
  · obtain ⟨⟨m', hm', hcar, -⟩, hnot, -⟩ := hcoherent.accept hK hD hA (h.fresh_of_allows hallow)
      (h.unforged_of_allows hallow hheader) hkey hopen
    refine ⟨?_, ?_⟩
    · obtain ⟨ev, hev, ad', had', hseals⟩ := h.history.sent m' hm'
      have hheader' : hd = m'.header := hcar.header
      have hct : m.ciphertext = m'.ct := hcar.ct
      have had : l.boundAd ad = m'.ad := hcar.ad
      rw [hcar.sender] at hev hseals
      rw [← hheader', hbytes, ← hct, ← Line.boundAd_inj (had.trans had')] at hseals
      exact ⟨ev, hev, m'.pt, hseals⟩
    · intro ev hev pt'' hopens
      obtain ⟨hd', hheader', hmem⟩ := h.history.opens p ev hev _ _ _ _ hopens
      obtain rfl := Header.encode_injective (hbytes.trans hheader')
      exact hnot hmem
  · rw [hres] at hdec
    cases hdec

end Line.Linked

section Ideal

variable (hK : IdealKdf P) (hD : IdealDh P) (hM : IdealKem P) (hS : SignatureCorrect P)
  (hA : IdealAead P) (hO : OpensSealed P) (h1 : OneKey P) (hseal : SealTotal P)
include hK hD hM hS hA hO h1 hseal

/-- **Two devices simulate a conversation of two ratchets.** Each starts where the handshake leaves
it, and goes on with any calls that the line allows. -/
theorem connection_simulation (l : Line B) :
    System.Simulation (connection P l) (Net.conversations P) (l.Linked P) where
  start := by
    rintro w ⟨alice, bob, bundle, pt, ad, d, d', i, r, packet, h, rfl⟩
    exact h.linked hK hD hM hS hA hO h1 hseal
  step := by
    rintro w w' net - - hlinked ⟨p, c, d, hallow, rfl⟩
    exact hlinked.step hseal hallow

/-- **End to end.** Two devices with a session between them make any calls in any order, reload from
storage at any time, and a network hands them anything. A message that the peer's device has sealed and
that was not opened yet opens to its plaintext, unless a limit on skipped messages or on counters is
hit; a message that was opened, and anything that the peer has not sealed, is refused. A refusal leaves
the device as it was. -/
theorem end_to_end {l : Line B} {w : Party → Run B} (hw : (connection P l).Reachable w) {p : Party}
    {m : SealedMessage B} {ad : List B} {d : Draws B}
    (hallow : l.Allows P w p (.decrypt (l.sid p) m ad) d) :
    (∀ pt, (∃ ev ∈ (w p.peer).log, ev.Seals (l.sid p.peer) m.header m.ciphertext ad pt) →
      (∀ ev ∈ (w p).log, ∀ pt', ¬ ev.Opens (l.sid p) m.header m.ciphertext ad pt') →
      ((w p).engine.decrypt P (l.sid p) m ad d).1 = .ok pt ∨
        (w p).engine.decrypt P (l.sid p) m ad d =
          (.error (.ofPrimitive .limitExceeded), (w p).engine)) ∧
    ((∃ ev ∈ (w p).log, ∃ pt, ev.Opens (l.sid p) m.header m.ciphertext ad pt) →
      ∃ err, (w p).engine.decrypt P (l.sid p) m ad d = (.error err, (w p).engine)) ∧
    ((¬ ∃ ev ∈ (w p.peer).log, ∃ pt, ev.Seals (l.sid p.peer) m.header m.ciphertext ad pt) →
      ∃ err, (w p).engine.decrypt P (l.sid p) m ad d = (.error err, (w p).engine)) := by
  obtain ⟨net, ⟨net₀, ⟨sk, b, maxSkip, hstart⟩, hrun⟩, hlinked⟩ :=
    (connection_simulation hK hD hM hS hA hO h1 hseal l).exists_reachable hw
  have hnet : (Net.conversation P sk b maxSkip).Reachable net := ⟨net₀, hstart, hrun⟩
  obtain ⟨L, rung, len, hcoherent⟩ := Net.coherent_of_reachable hK hD hA hnet
  refine ⟨?_, ?_, ?_⟩
  · rintro pt ⟨ev, hev, hseals⟩ hnot
    exact hlinked.decrypt_sealed hA hD hO hcoherent hev hseals hnot d
  · rintro ⟨ev, hev, pt, hopens⟩
    rcases hlinked.sealed_of_decrypt hK hA hD hcoherent hallow with herr | ⟨-, hnot⟩
    · exact herr
    · exact absurd hopens (hnot ev hev pt)
  · intro hforged
    rcases hlinked.sealed_of_decrypt hK hA hD hcoherent hallow with herr | ⟨hsealed, -⟩
    · exact herr
    · exact absurd hsealed hforged

end Ideal

/-! ### Two devices -/

/-- What a call that handles neither a message nor a packet needs to be regular. -/
theorem Engine.regular_of_session {r : Run B} {c : Call B} {d : Draws B} (hc : c.Fits)
    (hdev : r.engine.deviceId.length < 2 ^ 32) (hfresh : r.engine.sessions.lookup d.sessionId = none)
    (hinbound : ∀ m conv ad, c ≠ .processInbound m conv ad)
    (hmessage : ∀ sid m ad, c = .decrypt sid m ad →
      (replayKey sid m [] r.engine.deviceId).messageId.length < 2 ^ 32)
    (hbundle : ∀ n, c ≠ .generateBundle n) : Engine.Regular P r c d where
  fits := hc
  deviceId := hdev
  inbound m conv ad heq := absurd heq (hinbound m conv ad)
  message := hmessage
  fresh := hfresh
  replenish n heq := absurd heq (hbundle n)

/-- A call that has sealed a message. -/
theorem Run.seals_encrypt {r : Run B} {sid : SessionId B} {pt ad : List B} {d : Draws B}
    {m : SealedMessage B} (h : (r.engine.call P d (.encrypt sid pt ad)).1 = .ok (.sealed m))
    (hhint : m.sessionHint = sid) :
    ∃ ev ∈ (r.extend P d (.encrypt sid pt ad)).log, ev.before = r.engine ∧
      ev.call = .encrypt sid pt ad ∧ ev.Seals sid m.header m.ciphertext ad pt := by
  subst hhint
  exact ⟨_, List.mem_append_right _ (List.mem_singleton_self _), rfl, rfl, .inl ⟨.inl rfl, h⟩⟩

/-- A message is not forged if its query is that of a message sealed. -/
theorem Line.unforged_of_seals {l : Line B} {w : Party → Run B} {p p' : Party} {m : SealedMessage B}
    {ad : List B} {d : Draws B} {s : LiveSession B} {q : Query B} {ev : Event B}
    (hs : (w p).engine.sessions.lookup (l.sid p) = some s) (hq : s.openQuery P d m ad = some q)
    (hev : ev ∈ (w p').log) (hseals : ev.AeadSeals P (l.sid p') q) : l.Unforged P w p m ad d := by
  intro s₁ q₁ pt hs₁ hq₁ _
  obtain rfl := Option.some.inj (hs.symm.trans hs₁)
  obtain rfl := Option.some.inj (hq.symm.trans hq₁)
  exact ⟨p', ev, hev, hseals⟩

namespace Symbolic

/-- Device 1 has opened a session with device 2. -/
noncomputable def established : Run Sym :=
  Run.extend symbolic ⟨engine 1 .classicalV1, []⟩ (draws 1)
    (.establish (bundle (engine 2 .classicalV1)) [] [] [])

/-- What device 1 computes from the bundle of device 2. -/
noncomputable def opening : AliceInitiation Sym :=
  initiation symbolic (draws 1).ephemeral (draws 1).kemCoins (engine 1 .classicalV1).identity
    (bundle (engine 2 .classicalV1)) (engine 2 .classicalV1).prekeys.lastResortPq.secret

/-- The session of the two devices. -/
noncomputable def line : Line Sym where
  sid
    | .alice => (draws 1).sessionId
    | .bob => (draws 3).sessionId
  conversation := []
  handshakeAd := opening.shared.ad
  signedPrekey := (bundle (engine 2 .classicalV1)).signedPrekey

/-- The bundle of the example is offered by its device. -/
theorem offers_bundle : Offers symbolic (engine 2 .classicalV1).identity (engine 2 .classicalV1).prekeys
    (bundle (engine 2 .classicalV1)) where
  identityKey := rfl
  signedPrekeyId := rfl
  signedPrekey := rfl
  signedPrekeySig := ⟨secretOf 63 0, by decide +kernel⟩
  ec id pk h := by cases h
  pq := ⟨(engine 2 .classicalV1).prekeys.lastResortPq, rfl, rfl, ⟨secretOf 63 0, by decide +kernel⟩,
    fun h ↦ Bool.noConfusion h, fun _ ↦ rfl⟩

/-- The initiator of the example opens a session with it. -/
theorem initiate_opening : ∃ r, (engine 1 .classicalV1).initiate symbolic
    (bundle (engine 2 .classicalV1)) (draws 1) = .ok (opening, r) := by
  have hpk : (bundle (engine 2 .classicalV1)).pqPrekeyPublic =
    (symbolic.kemPublic (engine 2 .classicalV1).prekeys.lastResortPq.secret).val := rfl
  obtain ⟨r, -, hi⟩ := Engine.initiate_of_offers idealDh idealKem signatureCorrect offers_bundle
    (engine 1 .classicalV1) (draws 1) hpk
  exact ⟨r, hi⟩

/-- The two new devices of the example carry out a handshake. -/
theorem handshake_line : ∃ r, line.Handshake symbolic ⟨engine 1 .classicalV1, []⟩
    ⟨engine 2 .classicalV1, []⟩ (bundle (engine 2 .classicalV1)) [] [] (draws 1) (draws 3) opening r
    (packet .classicalV1) := by
  obtain ⟨r, hi⟩ := initiate_opening
  have hshort : ([] : List Sym).length < 2 ^ 32 := by decide
  have hopen : (Call.establish (bundle (engine 2 .classicalV1)) [] [] []).Fits := hshort
  have hanswer : (Call.processInbound (packet .classicalV1) [] []).Fits := hshort
  have hid : (replayKey (draws 3).sessionId (packet .classicalV1).firstMessage []
      (engine 2 .classicalV1).deviceId).messageId.length < 2 ^ 32 := by
    decide +kernel
  exact ⟨r,
    { alice_fresh := reachable_newDevice symbolic _ ⟨[], .classicalV1⟩ (deviceDraws 1)
      alice_regular := reachable_newDevice symbolic _ ⟨[], .classicalV1⟩ (deviceDraws 1)
      bob_fresh := reachable_newDevice symbolic _ ⟨[], .classicalV1⟩ (deviceDraws 2)
      bob_regular := reachable_newDevice symbolic _ ⟨[], .classicalV1⟩ (deviceDraws 2)
      alice_profile := rfl
      bob_profile := rfl
      offers := offers_bundle
      initiates := hi
      established := Engine.call_establish establish_packet
      establish_fresh := fresh_nil _ hopen _
      establish_regular := Engine.regular_of_session hopen hshort (Finmap.lookup_empty _) (by simp)
        (by simp) (by simp)
      process_fresh := fresh_nil _ hanswer _
      process_regular := Engine.regular_processInbound hshort hshort hid (Finmap.lookup_empty _)
      alice_ratchet := by decide +kernel
      bob_ratchet := by decide +kernel
      ratchets := by decide +kernel
      sid_alice := rfl
      sid_bob := rfl
      handshakeAd := rfl
      signedPrekey := rfl }⟩

/-- Device 1 has sealed two messages, and device 2 has opened the first one. -/
noncomputable def connected : Party → Run Sym
  | .alice => sentTwo
  | .bob => answered .classicalV1

theorem allows_second :
    line.Allows symbolic (devices established (answered .classicalV1)) .alice
      (.encrypt (draws 1).sessionId [] []) (draws 2) where
  regular := Engine.regular_of_session trivial (by decide +kernel) (by decide +kernel) (by simp)
    (by simp) (by simp)
  fresh := by
    refine (fresh_nil (engine 1 .classicalV1) ?_ (draws 2)).extend (by decide +kernel)
      (by decide +kernel) (by decide +kernel)
    exact trivial
  ratchet q := by
    cases q with
    | alice => exact (newRatchet_nil _ _ _).extend (by decide +kernel)
    | bob => exact (newRatchet_nil _ _ _).extend (by decide +kernel)
  signedPrekey := by decide +kernel
  keeps := by
    rintro (h | h)
    · cases h
    · cases h
  bytes := by simp
  unforged := by simp

/-- The example runs from the handshake to the second message. -/
theorem reachable_connected : (connection symbolic line).Reachable connected := by
  have hstart : (connection symbolic line).Reachable
      (devices established (answered .classicalV1)) := by
    obtain ⟨r, h⟩ := handshake_line
    exact .of_start ⟨_, _, _, _, _, _, _, _, r, _, h, rfl⟩
  refine hstart.of_step ⟨.alice, _, _, allows_second, ?_⟩
  funext p
  cases p with
  | alice => rfl
  | bob => rfl

/-- Both ends make the same query for the second message. -/
theorem query_second :
    ∃ s s' q, established.engine.sessions.lookup (draws 1).sessionId = some s ∧
      (answered .classicalV1).engine.sessions.lookup (draws 3).sessionId = some s' ∧
      s.sealQuery symbolic second.ciphertext [] = some q ∧
      s'.openQuery symbolic (draws 4) second [] = some q := by
  have hquery : ((established.engine.sessions.lookup (draws 1).sessionId).bind fun s ↦
      s.sealQuery symbolic second.ciphertext []).isSome := by
    decide +kernel
  have heq : ((answered .classicalV1).engine.sessions.lookup (draws 3).sessionId).bind (fun s ↦
      s.openQuery symbolic (draws 4) second []) =
        (established.engine.sessions.lookup (draws 1).sessionId).bind fun s ↦
          s.sealQuery symbolic second.ciphertext [] := by
    decide +kernel
  obtain ⟨q, hq⟩ := Option.isSome_iff_exists.1 hquery
  obtain ⟨s, hs, hseal⟩ := Option.bind_eq_some_iff.1 hq
  obtain ⟨s', hs', hopen⟩ := Option.bind_eq_some_iff.1 (heq.trans hq)
  exact ⟨s, s', q, hs, hs', hseal, hopen⟩

/-- Device 1 has sealed its second message. -/
theorem seals_second : ∃ ev ∈ (connected .alice).log, ev.before = established.engine ∧
    ev.call = .encrypt (draws 1).sessionId [] [] ∧
    ev.Seals (draws 1).sessionId second.header second.ciphertext [] [] := by
  have hsealed : (established.engine.call symbolic (draws 2) (.encrypt (draws 1).sessionId [] [])).1 =
      .ok (.sealed second) := by
    decide +kernel
  have hhint : second.sessionHint = (draws 1).sessionId := by decide +kernel
  exact Run.seals_encrypt hsealed hhint

theorem allows_delivery :
    line.Allows symbolic connected .bob (.decrypt (draws 3).sessionId second []) (draws 4) where
  regular := by
    refine Engine.regular_of_session trivial (by decide +kernel) (by decide +kernel) (by simp) ?_
      (by simp)
    intro sid m ad h
    cases h
    show (replayKey (draws 3).sessionId second []
      (answered .classicalV1).engine.deviceId).messageId.length < 2 ^ 32
    decide +kernel
  fresh := by
    refine (fresh_nil (engine 2 .classicalV1) ?_ (draws 4)).extend (by decide +kernel)
      (by decide +kernel) (by decide +kernel)
    exact trivial
  ratchet q := by
    cases q with
    | alice => exact ((newRatchet_nil _ _ _).extend (by decide +kernel)).extend (by decide +kernel)
    | bob => exact (newRatchet_nil _ _ _).extend (by decide +kernel)
  signedPrekey := by decide +kernel
  keeps := by
    rintro (h | h)
    · cases h
    · cases h
  bytes m ad hd h hdec := by
    have hsecond : (Header.decode second.header).map Header.encode = .ok second.header := by
      decide +kernel
    obtain ⟨-, rfl, rfl⟩ := Call.decrypt.inj h
    rw [hdec] at hsecond
    exact Except.ok.inj hsecond
  unforged m ad h := by
    obtain ⟨s, s', q, hs, hs', hseal, hopen⟩ := query_second
    obtain ⟨ev, hev, hbefore, hcall, hseals⟩ := seals_second
    obtain ⟨-, rfl, rfl⟩ := Call.decrypt.inj h
    refine Line.unforged_of_seals hs' hopen hev ⟨_, _, _, _, s, hseals, .held (.inl hcall) ?_, hseal⟩
    rw [hbefore]
    exact hs

end Symbolic

open Symbolic in
/-- Device 1 has sent a second message, device 2 has opened the first one only: now it opens the
second. -/
theorem end_to_end_second :
    ((answered .classicalV1).engine.decrypt symbolic (Symbolic.draws 3).sessionId second []
      (Symbolic.draws 4)).1 = .ok [] ∨
    (answered .classicalV1).engine.decrypt symbolic (Symbolic.draws 3).sessionId second []
      (Symbolic.draws 4) = (.error (.ofPrimitive .limitExceeded), (answered .classicalV1).engine) := by
  have hother : second.header ≠ (packet .classicalV1).firstMessage.header := by decide +kernel
  refine (end_to_end idealKdf idealDh idealKem signatureCorrect idealAead opensSealed oneKey sealTotal
    reachable_connected allows_delivery).1 [] ?_ ?_
  · obtain ⟨ev, hev, -, -, hseals⟩ := seals_second
    exact ⟨ev, hev, hseals⟩
  · intro ev hev pt' hopens
    exact hother ((accepts_answered _ _ _).1 ⟨ev, hev, hopens.accepts⟩).2.1

end VoiceChatCrypto
