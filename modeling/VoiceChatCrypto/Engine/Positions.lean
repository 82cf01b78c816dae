import VoiceChatCrypto.Engine.Slots

/-!
# Sealing positions

A message is sealed at a **position**: the public half of the sending ratchet secret, and the message
number on its chain. No position of a session is used twice, in whatever order an application calls
and crashes. Memory and storage may hold different states of one session, so the invariant is about
both: every state that either holds is *ahead* of everything sealed so far. A position on another
chain than any sealed message is ahead for free, and a new chain is always another one, because its
secret was drawn just now.
-/

open Alphabet

namespace VoiceChatCrypto

variable {B : Type} [Alphabet B] {P : Primitives B}

/-- The call sealed a message of the session `sid` at the position `pos`: with the ratchet that the
session had, or with the first ratchet of a new session. -/
def Event.SealedAt (P : Primitives B) (ev : Event B) (sid : SessionId B) (pos : Block B 32 × UInt32) :
    Prop :=
  (∃ pt ad m s, (ev.call = .encrypt sid pt ad ∨ ev.call = .encryptVoicePayload sid pt ad) ∧
    ev.outcome = .ok (.sealed m) ∧ ev.before.sessions.lookup sid = some s ∧
    s.ratchet.position P = some pos) ∨
  ∃ bundle conv pt ad packet i r, ev.call = .establish bundle conv pt ad ∧
    ev.outcome = .ok (.established sid packet) ∧ ev.before.initiate P bundle ev.draws = .ok (i, r) ∧
    r.position P = some pos

namespace Engine

variable {e e' : Engine B} {d : Draws B} {c : Call B} {sid : SessionId B}

/-- The session is held in memory or in storage. A crash loses the former and brings back the
latter, so an invariant has to speak of both. -/
def Held (e : Engine B) (sid : SessionId B) (s : LiveSession B) : Prop :=
  e.sessions.lookup sid = some s ∨
    ∃ σ : Enumeration, s.Storable ∧ e.blob sid = some (s.encode σ sid)

/-- A slot that has just been written holds one ratchet. -/
theorem ratchet_eq_of_written {s t : LiveSession B} {mem : Option (LiveSession B)}
    {blob' : Option (List B)} {σ : Enumeration} (hs : s.Storable) (hmem : mem = some s)
    (hblob : blob' = some (s.encode σ sid))
    (ht : mem = some t ∨ ∃ τ : Enumeration, t.Storable ∧ blob' = some (t.encode τ sid)) :
    t.ratchet = s.ratchet := by
  rcases ht with ht | ⟨τ, ht, hblob'⟩
  · rw [hmem] at ht
    cases ht
    rfl
  · rw [hblob] at hblob'
    have hcore := LiveSession.core_eq_of_encode_eq hs ht (Option.some.inj hblob')
    exact (LiveSession.ratchet_eq_of_core_eq hcore).symm

/-! ### Where positions come from -/

/-- The position that a state is at after a call: none yet, on the chain just drawn, or on the chain
of a state held before, not further back. -/
def Onward (P : Primitives B) (d : Draws B) (e : Engine B) (sid : SessionId B)
    (pos : Option (Block B 32 × UInt32)) : Prop :=
  pos = none ∨ (∃ n, pos = some (P.publicKey d.ratchet, n)) ∨
    ∃ s pk n n', e.Held sid s ∧ s.ratchet.position P = some (pk, n) ∧ pos = some (pk, n') ∧
      n.toNat ≤ n'.toNat

/-- A call that does nothing to a session leaves it where it was. -/
theorem Onward.of_held {s : LiveSession B} (h : e.Held sid s) :
    Onward P d e sid (s.ratchet.position P) := by
  cases hpos : s.ratchet.position P with
  | none => exact .inl rfl
  | some pos => exact .inr (.inr ⟨s, pos.1, pos.2, pos.2, h, hpos, rfl, le_refl _⟩)

/-- The position of a session that a call has made. -/
theorem Made.onward {s : LiveSession B} (h : Made P d e c sid s) (hlay : e.Layout) :
    Onward P d e sid (s.ratchet.position P) := by
  cases h with
  | outbound bundle conv pt ad i r r' header ct hc hi henc =>
    obtain ⟨-, hspk, -, hratchet⟩ := initiate_eq_ok hi
    obtain ⟨-, hpos⟩ := initAliceRatchet_eq_ok hspk hratchet
    obtain ⟨-, pk, n, n', hold, hnew, -⟩ := LiveRatchet.encrypt_eq_ok henc
    rw [hpos] at hold
    cases hold
    exact .inr (.inl ⟨n', hnew⟩)
  | inbound m conv ad pt shared r r' hc hans hdec =>
    obtain ⟨hr, hpos⟩ := initBobRatchet_eq_ok hans.ratchet
    rcases (LiveRatchet.decrypt_eq_ok hr hdec).2 with hsame | hnew
    · exact .inl (hsame.trans hpos)
    · exact .inr (.inl ⟨0, hnew⟩)
  | sealed sid pt ad s r header ct hc hs henc =>
    obtain ⟨-, pk, n, n', hold, hnew, hn⟩ := LiveRatchet.encrypt_eq_ok henc
    exact .inr (.inr ⟨s, pk, n, n', .inl hs, hold, hnew, by omega⟩)
  | opened sid m ad pt s r hc hs hdec =>
    rcases (LiveRatchet.decrypt_eq_ok (hlay.live sid s hs).ratchet hdec).2 with hsame | hnew
    · show Onward P d e sid (r.position P)
      rw [hsame]
      exact .of_held (.inl hs)
    · exact .inr (.inl ⟨0, hnew⟩)

/-- **Positions only move on**, whatever a call does to a slot: the state after it, in memory or in
storage, is one it was at, or further along its chain, or on a new chain. -/
theorem SlotStep.onward {mem : Option (LiveSession B)} {blob' : Option (List B)}
    (h : SlotStep P d e c sid mem blob') (hc : c.Fits) (hlay : e.Layout) {t : LiveSession B}
    (ht : mem = some t ∨ ∃ τ : Enumeration, t.Storable ∧ blob' = some (t.encode τ sid)) :
    Onward P d e sid (t.ratchet.position P) := by
  -- what storage holds and the call leaves alone was held before
  have hstored : (∃ τ : Enumeration, t.Storable ∧ e.blob sid = some (t.encode τ sid)) →
      Onward P d e sid (t.ratchet.position P) := fun h ↦ .of_held (.inr h)
  cases h with
  | kept mem h =>
    rcases ht with rfl | ht
    · obtain ⟨s, hs, hcore⟩ := Option.map_eq_some_iff.1 h.symm
      rw [← LiveSession.ratchet_eq_of_core_eq hcore]
      exact .of_held (.inl hs)
    · exact hstored ht
  | written σ s hmade =>
    rw [ratchet_eq_of_written (hmade.storable hc hlay.live) rfl rfl ht]
    exact hmade.onward hlay
  | unsent bundle conv pt ad i r err hsid hc' hi henc =>
    rcases ht with ht | ht
    · cases ht
      obtain ⟨-, hspk, -, hratchet⟩ := initiate_eq_ok hi
      exact .inr (.inl ⟨0, (initAliceRatchet_eq_ok hspk hratchet).2⟩)
    · exact hstored ht
  | closed hsid =>
    rcases ht with ht | ht
    · cases ht
    · exact hstored ht
  | erased =>
    rcases ht with ht | ⟨τ, -, ht⟩
    · cases ht
    · cases ht
  | restored mem h =>
    rcases ht with rfl | ht
    · rcases h with ⟨hnone, -⟩ | ⟨σ, s, s', hsome, hcore, hs, hblob⟩
      · cases hnone
      · cases hsome
        rw [LiveSession.ratchet_eq_of_core_eq hcore]
        exact .of_held (.inr ⟨σ, hs, hblob⟩)
    · exact hstored ht

/-- A sealed message was at the position of a held session, or first on a new chain; and every state
of the session is past it afterwards. -/
theorem Effect.sealedAt {out : Except CryptoError (Output B)} (h : Effect P d e c out e')
    (hc : c.Fits) (hlay : e.Layout) {pk : Block B 32} {n : UInt32}
    (hsealed : Event.SealedAt P ⟨e, c, d, out⟩ sid (pk, n)) :
    ((∃ s, e.Held sid s ∧ s.ratchet.position P = some (pk, n)) ∨ pk = P.publicKey d.ratchet) ∧
      ∀ t, e'.Held sid t → ∃ n', t.ratchet.position P = some (pk, n') ∧ n.toNat < n'.toNat := by
  have hlay' := h.layout hc hlay
  rcases hsealed with ⟨pt, ad, m, s, hcall, hout, hs, hpos⟩ |
    ⟨bundle, conv, pt, ad, packet, i, r, hcall, hout, hi, hpos⟩
  · dsimp only at hcall hout hs
    refine ⟨.inl ⟨s, .inl hs, hpos⟩, fun t ht ↦ ?_⟩
    cases h with
    | sealed c sid' pt' ad' s' r' header ct hc' hs' henc =>
      obtain rfl : sid' = sid := by
        rcases hcall with rfl | rfl <;> rcases hc' with hc' | hc' <;> cases hc' <;> rfl
      rw [hs] at hs'
      cases hs'
      obtain ⟨-, pk', k, k', hold, hnew, hk⟩ := LiveRatchet.encrypt_eq_ok henc
      rw [hpos] at hold
      cases hold
      have hmem : (((e.withRatchet sid' s r').commitSession d.order sid'
          { s with ratchet := r' }).sessions.lookup sid') = some { s with ratchet := r' } :=
        Finmap.lookup_insert _
      have hr := ratchet_eq_of_written (hlay'.live _ _ hmem) hmem blob_commitSession ht
      exact ⟨k', by rw [hr]; exact hnew, by omega⟩
    | _ => rcases hcall with hcall | hcall <;> cases hcall <;> cases hout
  · dsimp only at hcall hout hi
    obtain ⟨-, hspk, -, hratchet⟩ := initiate_eq_ok hi
    have hstart := (initAliceRatchet_eq_ok hspk hratchet).2
    rw [hpos] at hstart
    cases hstart
    refine ⟨.inr rfl, fun t ht ↦ ?_⟩
    cases h with
    | established bundle' conv' pt' ad' i' r₁ r₂ header ct hi' henc =>
      cases hcall
      cases hout
      rw [hi] at hi'
      cases hi'
      obtain ⟨-, pk', k, k', hold, hnew, hk⟩ := LiveRatchet.encrypt_eq_ok henc
      rw [hpos] at hold
      cases hold
      have hmem := Finmap.lookup_insert (a := d.sessionId)
        (b := ({ e.outboundSession bundle conv i r with ratchet := r₂ } : LiveSession B))
        (e.openSession d.sessionId r bundle.identityKey conv i.shared.ad).sessions
      have hr := ratchet_eq_of_written (hlay'.live _ _ hmem) hmem blob_commitSession ht
      exact ⟨k', by rw [hr]; exact hnew, by omega⟩
    | _ => cases hout

/-- A sealed message has a position. -/
theorem Effect.exists_sealedAt {out : Except CryptoError (Output B)} (h : Effect P d e c out e') :
    (∀ m, out = .ok (.sealed m) →
      ∃ pos, Event.SealedAt P ⟨e, c, d, out⟩ m.sessionHint pos) ∧
    ∀ sid packet, out = .ok (.established sid packet) →
      ∃ pos, Event.SealedAt P ⟨e, c, d, out⟩ sid pos := by
  refine ⟨fun m hm ↦ ?_, fun sid packet hm ↦ ?_⟩
  · cases h with
    | sealed c sid pt ad s r header ct hc hs henc =>
      cases hm
      obtain ⟨-, pk, n, -, hpos, -⟩ := LiveRatchet.encrypt_eq_ok henc
      exact ⟨(pk, n), .inl ⟨pt, ad, _, s, hc, rfl, hs, hpos⟩⟩
    | _ => cases hm
  · cases h with
    | established bundle conv pt ad i r r' header ct hi henc =>
      cases hm
      obtain ⟨-, pk, n, -, hpos, -⟩ := LiveRatchet.encrypt_eq_ok henc
      exact ⟨(pk, n), .inr ⟨bundle, conv, pt, ad, _, i, r, rfl, rfl, hi, hpos⟩⟩
    | _ => cases hm

end Engine

/-! ### Over a run -/

/-- The drawn ratchet key is a new one: no call of the run has drawn a secret with its public key.
-/
def NewRatchet (P : Primitives B) (r : Run B) (_ : Call B) (d : Draws B) : Prop :=
  ∀ ev ∈ r.log, P.publicKey ev.draws.ratchet ≠ P.publicKey d.ratchet

theorem newRatchet_nil (e : Engine B) (c : Call B) (d : Draws B) : NewRatchet P ⟨e, []⟩ c d :=
  fun _ hev ↦ absurd hev List.not_mem_nil

theorem NewRatchet.extend {r : Run B} {c c' : Call B} {d d' : Draws B} (h : NewRatchet P r c d)
    (hne : P.publicKey d'.ratchet ≠ P.publicKey d.ratchet) :
    NewRatchet P (r.extend P d' c') c d := by
  intro ev hev
  rcases List.mem_append.1 hev with hev | hev
  · exact h ev hev
  · rw [List.mem_singleton.1 hev]
    exact hne

/-- The drawn ratchet key is a new one, and the conversation fits its 32-bit length. -/
structure FreshRatchets (P : Primitives B) (r : Run B) (c : Call B) (d : Draws B) : Prop where
  /-- The conversation fits its 32-bit length. -/
  fits : c.Fits
  /-- No ratchet key of the run has the public key of the drawn one. -/
  fresh : NewRatchet P r c d

/-- The chain was opened by a call of the run. -/
def Run.Drawn (P : Primitives B) (r : Run B) (pk : Block B 32) : Prop :=
  ∃ ev ∈ r.log, P.publicKey ev.draws.ratchet = pk

/-- **The invariant of a run**: every state that memory or storage holds is ahead of everything that
was sealed, and everything is on chains that the run has drawn. -/
structure Run.Ahead (P : Primitives B) (r : Run B) : Prop where
  /-- Each session is stored under its own id. -/
  layout : r.engine.Layout
  /-- The sending chains that are held were drawn in the run. -/
  held_drawn : ∀ sid s pk n, r.engine.Held sid s → s.ratchet.position P = some (pk, n) →
    r.Drawn P pk
  /-- So were the chains that something was sealed on. -/
  sealed_drawn : ∀ ev ∈ r.log, ∀ sid pk n, ev.SealedAt P sid (pk, n) → r.Drawn P pk
  /-- Every state is further along its chain than anything that was sealed on it. -/
  ahead : ∀ sid s pk n, r.engine.Held sid s → s.ratchet.position P = some (pk, n) →
    ∀ ev ∈ r.log, ∀ n', ev.SealedAt P sid (pk, n') → n'.toNat < n.toNat
  /-- No position was sealed at twice. -/
  distinct : r.log.Pairwise fun ev ev' ↦ ∀ sid pos pos', ev.SealedAt P sid pos →
    ev'.SealedAt P sid pos' → pos ≠ pos'

theorem Run.Drawn.extend {r : Run B} {pk : Block B 32} (h : r.Drawn P pk) (d : Draws B)
    (c : Call B) : (r.extend P d c).Drawn P pk := by
  obtain ⟨ev, hev, hpk⟩ := h
  exact ⟨ev, List.mem_append_left _ hev, hpk⟩

/-- A call draws its key, whether it uses it or not. -/
theorem Run.drawn_extend (r : Run B) (d : Draws B) (c : Call B) :
    (r.extend P d c).Drawn P (P.publicKey d.ratchet) :=
  ⟨_, List.mem_append_right _ (List.mem_singleton_self _), rfl⟩

/-- **One more call keeps every state ahead.** -/
theorem Run.Ahead.extend {r : Run B} (h : r.Ahead P) (hidle : r.engine.storage.staged = none)
    {d : Draws B} {c : Call B} (hc : FreshRatchets P r c d) : (r.extend P d c).Ahead P := by
  have heffect := Engine.call_effect (P := P) hidle d c
  -- nothing sealed so far is on the chain just drawn
  have hfresh : ∀ ev ∈ r.log, ∀ sid n, ¬ ev.SealedAt P sid (P.publicKey d.ratchet, n) := by
    intro ev hev sid n hsealed
    obtain ⟨ev', hev', hpk⟩ := h.sealed_drawn ev hev sid _ n hsealed
    exact hc.fresh ev' hev' hpk
  have honward : ∀ sid t, (r.extend P d c).engine.Held sid t →
      Engine.Onward P d r.engine sid (t.ratchet.position P) := fun sid t ht ↦
    (heffect.slot h.layout sid).onward hc.fits h.layout ht
  have hnew := fun (sid : SessionId B) (pk : Block B 32) (n : UInt32)
    (hs : Event.SealedAt P ⟨r.engine, c, d, (r.engine.call P d c).1⟩ sid (pk, n)) ↦
      heffect.sealedAt hc.fits h.layout hs
  refine ⟨heffect.layout hc.fits h.layout, ?_, ?_, ?_, ?_⟩
  · intro sid t pk n ht hpos
    rcases honward sid t ht with hnone | ⟨k, hk⟩ | ⟨s, pk', k, k', hs, hold, hk', -⟩
    · rw [hpos] at hnone
      cases hnone
    · rw [hpos] at hk
      cases hk
      exact r.drawn_extend d c
    · rw [hpos] at hk'
      cases hk'
      exact (h.held_drawn sid s pk k hs hold).extend d c
  · intro ev hev sid pk n hsealed
    rcases List.mem_append.1 hev with hev | hev
    · exact (h.sealed_drawn ev hev sid pk n hsealed).extend d c
    · cases List.mem_singleton.1 hev
      rcases (hnew sid pk n hsealed).1 with ⟨s, hs, hpos⟩ | rfl
      · exact (h.held_drawn sid s pk n hs hpos).extend d c
      · exact r.drawn_extend d c
  · intro sid t pk n ht hpos ev hev n' hsealed
    rcases List.mem_append.1 hev with hev | hev
    · rcases honward sid t ht with hnone | ⟨k, hk⟩ | ⟨s, pk', k, k', hs, hold, hk', hle⟩
      · rw [hpos] at hnone
        cases hnone
      · rw [hpos] at hk
        cases hk
        exact absurd hsealed (hfresh ev hev sid n')
      · rw [hpos] at hk'
        cases hk'
        exact (h.ahead sid s pk k hs hold ev hev n' hsealed).trans_le hle
    · cases List.mem_singleton.1 hev
      obtain ⟨k, hk, hlt⟩ := (hnew sid pk n' hsealed).2 t ht
      rw [hpos] at hk
      cases hk
      exact hlt
  · refine List.pairwise_append.2 ⟨h.distinct, List.pairwise_singleton _ _, ?_⟩
    rintro ev hev ev' hev' sid ⟨pk, n⟩ pos' hsealed hsealed' rfl
    cases List.mem_singleton.1 hev'
    rcases (hnew sid pk n hsealed').1 with ⟨s, hs, hpos⟩ | rfl
    · exact lt_irrefl _ (h.ahead sid s pk n hs hpos ev hev n hsealed)
    · exact hfresh ev hev sid n hsealed

/-- Every reachable run is ahead. -/
theorem ahead {r : Run B} (hr : (device P (FreshRatchets P)).Reachable r) : r.Ahead P := by
  refine System.Reachable.invariant (I := fun r ↦ r.Ahead P) ?_ ?_ hr
  · intro s hs
    obtain ⟨config, d, rfl⟩ := eq_newDevice_of_start hs
    have hlay := Engine.newDevice_layout P config d
    have hnone : ∀ sid s, ¬ (Engine.newDevice P config d).Held sid s := by
      rintro sid s (hs | ⟨σ, -, hs⟩)
      · cases hs
      · rw [Engine.newDevice, Engine.blob_commitDevice] at hs
        cases hs
    exact ⟨hlay, fun sid s _ _ hs ↦ absurd hs (hnone sid s), by simp,
      fun sid s _ _ hs ↦ absurd hs (hnone sid s), .nil⟩
  · rintro s t hreach hs ⟨c, d, hc, rfl⟩
    exact hs.extend (device_idle hreach) hc

/-- Every sealed message has a position. -/
theorem exists_sealedAt {allow : Run B → Call B → Draws B → Prop} {r : Run B}
    (hr : (device P allow).Reachable r) :
    ∀ ev ∈ r.log, (∀ m, ev.outcome = .ok (.sealed m) →
        ∃ pos, ev.SealedAt P m.sessionHint pos) ∧
      ∀ sid packet, ev.outcome = .ok (.established sid packet) → ∃ pos, ev.SealedAt P sid pos := by
  refine System.Reachable.invariant (I := fun r ↦ ∀ ev ∈ r.log,
    (∀ m, ev.outcome = .ok (.sealed m) → ∃ pos, ev.SealedAt P m.sessionHint pos) ∧
      ∀ sid packet, ev.outcome = .ok (.established sid packet) → ∃ pos, ev.SealedAt P sid pos)
    ?_ ?_ hr
  · rintro s ⟨hlog, -⟩ ev hev
    rw [hlog] at hev
    cases hev
  · rintro s t hreach hs ⟨c, d, -, rfl⟩ ev hev
    rcases List.mem_append.1 hev with hev | hev
    · exact hs ev hev
    · cases List.mem_singleton.1 hev
      exact (Engine.call_effect (P := P) (device_idle hreach) d c).exists_sealedAt

/-! ### A session that comes back

A classical device that has nothing but itself in storage opens a session and is reloaded. What it goes
on with is what the blob of the session decodes to. -/

/-- A classical device with nothing but itself in storage, such as a new one. The counterexamples
start from any such device. -/
structure Engine.Vacant (e : Engine B) : Prop where
  /-- It opens classical sessions. -/
  profile : e.profile = .classicalV1
  /-- No transaction is open. -/
  idle : e.storage.staged = none
  /-- Whatever is stored under a session id is a session. -/
  keys : e.KeysApart
  /-- The identity is in storage. -/
  identity : e.storage.committed.lookup Engine.keyIdentity = some e.identity.serialize
  /-- The prekeys are in storage. -/
  prekeys : ∃ σ, e.storage.committed.lookup Engine.keyPrekeys = some (e.prekeys.serialize σ)
  /-- The prekeys come back when they are read. -/
  valid : e.prekeys.Valid
  /-- There are no sessions in storage. -/
  blobs : ∀ sid, e.blob sid = none
  /-- The replay cache is a new one. -/
  replay : e.replay = ReplayCache.new 4096

theorem Engine.newDevice_vacant (P : Primitives B) (deviceId : List B) (d : DeviceDraws B) :
    (Engine.newDevice P ⟨deviceId, .classicalV1⟩ d).Vacant := by
  have hdevice := deviceBlobs_commitDevice (blank P ⟨deviceId, .classicalV1⟩ d) d.order
  exact
    { profile := rfl
      idle := MemoryStorage.afterCommit_staged _ _
      keys := (newDevice_layout P ⟨deviceId, .classicalV1⟩ d).keys
      identity := hdevice.1
      prekeys := ⟨_, hdevice.2.1⟩
      valid := PrekeyStore.new_valid P _ _ _ _ _
      blobs := fun sid ↦ blob_commitDevice sid
      replay := rfl }

/-- A device whose only session blob decodes takes what it decodes to for the session. What it keeps
outside storage stays. -/
theorem Engine.simulateCrashReload_single {e : Engine B} {sid : SessionId B} {v : List B}
    {t : LiveSession B} (d : Draws B) (hkeys : e.KeysApart)
    (hidentity : e.storage.committed.lookup keyIdentity = some e.identity.serialize)
    (hprekeys : ∃ σ, e.storage.committed.lookup keyPrekeys = some (e.prekeys.serialize σ))
    (hvalid : e.prekeys.Valid) (hv : e.blob sid = some v) (hblob : isSessionBlob v = true)
    (hdec : LiveSession.decode v = .ok (sid, t)) (hothers : ∀ sid', sid' ≠ sid → e.blob sid' = none) :
    ∃ e' s, e.simulateCrashReload d = (.ok (), e') ∧ e'.sessions.lookup sid = some s ∧
      s.core = t.core ∧ e'.deviceId = e.deviceId ∧ e'.replay = e.reloadAux.replay := by
  have hl : ∀ k w, (k, w) ∈ d.order.list e.storage.committed →
      (∃ (sid : SessionId B) (s : LiveSession B),
        k = sid.val ∧ isSessionBlob w = true ∧ LiveSession.decode w = .ok (sid, s)) ∨
        isSessionBlob w = false ∧ ∀ sid : SessionId B, k ≠ sid.val := by
    intro k w hmem
    have hlookup := d.order.mem_list_iff.1 hmem
    by_cases hsid : ∃ sid' : SessionId B, k = sid'.val
    · obtain ⟨sid', rfl⟩ := hsid
      by_cases hne : sid' = sid
      · subst hne
        rw [blob, hlookup] at hv
        cases hv
        exact .inl ⟨sid', t, rfl, hblob, hdec⟩
      · have hnone := hothers sid' hne
        rw [blob, hlookup] at hnone
        cases hnone
    · exact .inr ⟨(hkeys k w hlookup).resolve_left hsid, fun sid' hk ↦ hsid ⟨sid', hk⟩⟩
  obtain ⟨m, hm, hslots⟩ := foldlM_restoreBlob _ (d.order.list_nodup _) hl ∅
  obtain ⟨σ, hprekeys⟩ := hprekeys
  have hslot := (hslots sid).1 v t (d.order.mem_list_iff.2 hv) hdec
  have hreload := simulateCrashReload_eq
    (.inr ⟨_, hidentity, IdentityKeyPair.deserialize_serialize _⟩)
    (.inr ⟨_, hprekeys, PrekeyStore.deserialize_serialize hvalid σ⟩) hm
  have hrestored : ∃ s, (({ e with sessions := m } : Engine B).reloadAux).sessions.lookup sid =
      some s ∧ s.core = t.core := by
    show ∃ s, (m.mapValues _).lookup sid = some s ∧ _
    rw [Dict.lookup_mapValues, hslot]
    exact ⟨_, rfl, rfl⟩
  obtain ⟨s, hs, hcore⟩ := hrestored
  exact ⟨_, s, hreload, hs, hcore, rfl, rfl⟩

/-- The sealing of a fresh classical ratchet moves it to the state after one message. -/
theorem LiveRatchet.encrypt_initAlice {dhs sk spk : Block B 32} {d : Draws B} {pt ad : List B}
    {out : List B × List B} {r' : LiveRatchet B} {hd : Header B} {mk : Block B 32}
    {s' : DoubleRatchetState B}
    (hsend : DoubleRatchetState.sendMessageKey P
      (DoubleRatchetState.initAlice P dhs sk spk defaultMaxSkip) = .ok ((hd, mk), s'))
    (h : (classical (DoubleRatchetState.initAlice P dhs sk spk defaultMaxSkip)).encrypt P d pt ad =
      .ok (out, r')) : r' = classical s' := by
  obtain ⟨⟨⟨hd', ct⟩, t⟩, henc, hret⟩ := Except.bind_eq_ok.1 h
  cases hret
  obtain ⟨mk', hsend', -⟩ := DoubleRatchetState.encrypt_eq_ok.1 (liftError_eq_ok.1 henc)
  rw [hsend] at hsend'
  cases hsend'
  rfl

/-- A device without sessions that stores one which decodes to another. -/
theorem Engine.Vacant.simulateCrashReload_commitSession {e : Engine B} (he : e.Vacant)
    {sid : SessionId B} {σ : Enumeration} {s t : LiveSession B} (d : Draws B)
    (hdec : LiveSession.decode (s.encode σ sid) = .ok (sid, t)) :
    ∃ e' s', (e.commitSession σ sid s).simulateCrashReload d = (.ok (), e') ∧
      e'.sessions.lookup sid = some s' ∧ s'.core = t.core ∧ e'.deviceId = e.deviceId ∧
      e'.replay = e.replay := by
  obtain ⟨hid, hpre, hcache, -⟩ := deviceBlobs_commitSession e σ sid s
  obtain ⟨τ, hτ⟩ := he.prekeys
  obtain ⟨e', s', hreload, hs', hcore, hdevice, hreplay⟩ :=
    simulateCrashReload_single d (he.keys.commitSession σ sid s) (hid.trans he.identity)
      ⟨τ, hpre.trans hτ⟩ he.valid blob_commitSession (isSessionBlob_encode s σ sid) hdec
      fun sid' hne ↦ (blob_commitSession_of_ne hne).trans (he.blobs sid')
  refine ⟨e', s', hreload, hs', hcore, hdevice, hreplay.trans ?_⟩
  have hread : ReplayCache.deserialize e.replay.serialize = .ok e.replay := by
    rw [he.replay]
    exact ReplayCache.deserialize_serialize (ReplayCache.new_valid (by decide) (by decide))
      fun k hk ↦ absurd hk List.not_mem_nil
  simp only [reloadAux, hcache, hread]
  rfl

/-- **A session is opened and reloaded**: the device goes on with what the stored blob decodes to. -/
theorem Engine.Vacant.establish_crashReload (hseal : SealTotal P) {e : Engine B} (he : e.Vacant)
    {bundle : PublicPrekeyBundle B} {d₁ : Draws B} {i : AliceInitiation B} {r : LiveRatchet B}
    (hi : e.initiate P bundle d₁ = .ok (i, r)) {sent : Header B × Block B 32}
    {after : DoubleRatchetState B}
    (hafter : DoubleRatchetState.sendMessageKey P (DoubleRatchetState.initAlice P d₁.ratchet
      i.shared.sk bundle.signedPrekey defaultMaxSkip) = .ok (sent, after))
    (conv : List B) {t : LiveSession B}
    (hdec : LiveSession.decode (({ e.outboundSession bundle conv i r with
      ratchet := .classical after } : LiveSession B).encode d₁.order d₁.sessionId) =
        .ok (d₁.sessionId, t))
    (d₂ : Draws B) :
    ∃ packet e₁ e₂ s,
      e.call P d₁ (.establish bundle conv [] []) = (.ok (.established d₁.sessionId packet), e₁) ∧
      e₁.storage.staged = none ∧ e₁.call P d₂ .crashReload = (.ok .done, e₂) ∧
      e₂.sessions.lookup d₁.sessionId = some s ∧ s.core = t.core ∧ e₂.deviceId = e.deviceId ∧
      e₂.replay = e.replay := by
  obtain ⟨-, -, -, hratchet⟩ := Engine.initiate_eq_ok hi
  have hr : r = .classical (DoubleRatchetState.initAlice P d₁.ratchet i.shared.sk
      bundle.signedPrekey defaultMaxSkip) := by
    rw [he.profile] at hratchet
    exact (Except.ok.inj hratchet).symm
  rcases Engine.establish_cases (P := P) he.idle bundle conv [] [] d₁ with
    ⟨err, herr, -⟩ | ⟨i', r₀, hi', hsealed⟩
  · rw [hi] at herr
    cases herr
  rw [hi] at hi'
  cases hi'
  rcases hsealed with ⟨err, herr, -⟩ | ⟨header, ct, r', henc, heq⟩
  · obtain ⟨out, r'', hok⟩ := initAliceRatchet_encrypt hseal hratchet d₁ []
      ((e.outboundSession bundle conv i r).boundAd [])
    rw [hok] at herr
    cases herr
  obtain rfl : r' = .classical after := by
    rw [hr] at henc
    exact LiveRatchet.encrypt_initAlice hafter henc
  -- what has been stored was stored by a device without sessions
  have hopened : ((e.openSession d₁.sessionId r bundle.identityKey conv i.shared.ad).withRatchet
      d₁.sessionId (e.outboundSession bundle conv i r) (.classical after)).Vacant :=
    { he with }
  obtain ⟨e₂, s₂, hreload, hs₂, hcore, hdevice, hreplay⟩ :=
    hopened.simulateCrashReload_commitSession d₂ hdec
  have hcall₁ := congrArg (Engine.report fun r ↦ Output.established r.1 r.2) heq
  have hcall₂ := congrArg (Engine.report fun _ ↦ Output.done) hreload
  exact ⟨_, _, e₂, s₂, hcall₁, (MemoryStorage.afterCommit_staged _ _).trans he.idle, hcall₂, hs₂, hcore,
    hdevice, hreplay⟩

/-- A fresh ratchet seals, and seals again. -/
theorem DoubleRatchetState.initAlice_sendMessageKey_twice (dhs sk bobPub : Block B 32)
    (maxSkip : UInt32) :
    ∃ r s r' s', sendMessageKey P (initAlice P dhs sk bobPub maxSkip) = .ok (r, s) ∧
      sendMessageKey P s = .ok (r', s') :=
  ⟨_, _, _, _, rfl, rfl⟩

/-- The run of a device that opens a session, crashes, and seals another message. -/
def Run.resumed (P : Primitives B) (e : Engine B) (bundle : PublicPrekeyBundle B) (conv : List B)
    (d₁ d₂ d₃ : Draws B) : Run B :=
  ((Run.extend P ⟨e, []⟩ d₁ (.establish bundle conv [] [])).extend P d₂ .crashReload).extend P d₃
    (.encrypt d₁.sessionId [] [])

/-- The third call seals at the position with which the session came back. -/
theorem Run.resumed_seals {e e₁ e₂ : Engine B} {bundle : PublicPrekeyBundle B} {conv : List B}
    {d₁ d₂ d₃ : Draws B} {packet : InitiationPacket B} {i : AliceInitiation B} {r : LiveRatchet B}
    {s : LiveSession B} {pos pos' : Block B 32 × UInt32}
    (hi : e.initiate P bundle d₁ = .ok (i, r)) (hpos : r.position P = some pos)
    (h₁ : e.call P d₁ (.establish bundle conv [] []) =
      (.ok (.established d₁.sessionId packet), e₁))
    (h₂ : e₁.call P d₂ .crashReload = (.ok .done, e₂)) (hidle : e₁.storage.staged = none)
    (hs : e₂.sessions.lookup d₁.sessionId = some s) (hpos' : s.ratchet.position P = some pos')
    (henc : ∀ ad, ∃ out r', s.ratchet.encrypt P d₃ [] ad = .ok (out, r')) :
    ∃ ev₁ ev₂ ev₃, (Run.resumed P e bundle conv d₁ d₂ d₃).log = [ev₁, ev₂, ev₃] ∧
      ev₁.SealedAt P d₁.sessionId pos ∧ ev₂.call = .crashReload ∧
      ev₃.SealedAt P d₁.sessionId pos' := by
  have he₁ : (e.call P d₁ (.establish bundle conv [] [])).2 = e₁ := by rw [h₁]
  have he₂ : ((e.call P d₁ (.establish bundle conv [] [])).2.call P d₂ .crashReload).2 = e₂ := by
    rw [he₁, h₂]
  refine ⟨_, _, _, rfl, .inr ⟨bundle, conv, [], [], packet, i, r, rfl, ?_, hi, hpos⟩, rfl, .inl ?_⟩
  · exact congrArg Prod.fst h₁
  · show ∃ pt ad m t, _ ∧ (((e.call P d₁ (.establish bundle conv [] [])).2.call P d₂
      .crashReload).2.call P d₃ (.encrypt d₁.sessionId [] [])).1 = _ ∧
      ((e.call P d₁ (.establish bundle conv [] [])).2.call P d₂ .crashReload).2.sessions.lookup
        d₁.sessionId = some t ∧ _
    have hidle₂ := (Engine.call_effect (P := P) hidle d₂ .crashReload).idle hidle
    rw [h₂] at hidle₂
    rw [he₂]
    rcases Engine.encrypt_cases (P := P) hidle₂ d₁.sessionId [] [] d₃ with
      ⟨err, -, hnone | ⟨t, ht, herr⟩⟩ | ⟨t, header, ct, r', ht, -, heq⟩
    · rw [hs] at hnone
      cases hnone
    · rw [hs] at ht
      cases ht
      obtain ⟨out, r', hok⟩ := henc (s.boundAd [])
      rw [hok] at herr
      cases herr
    · exact ⟨[], [], _, s, .inl rfl, congrArg (fun r ↦ r.1.map Output.sealed) heq, hs, hpos'⟩

/-- A session in a conversation that fits comes back as it was, and seals. -/
theorem exists_resumed (hseal : SealTotal P) {e : Engine B} (he : e.Vacant)
    {bundle : PublicPrekeyBundle B} {d₁ : Draws B} {i : AliceInitiation B} {r : LiveRatchet B}
    (hi : e.initiate P bundle d₁ = .ok (i, r)) {conv : List B} (hconv : conv.length < 2 ^ 32)
    (d₂ d₃ : Draws B) :
    ∃ ev₁ ev₂ ev₃ pos pos', (Run.resumed P e bundle conv d₁ d₂ d₃).log = [ev₁, ev₂, ev₃] ∧
      ev₁.SealedAt P d₁.sessionId pos ∧ ev₂.call = .crashReload ∧
      ev₃.SealedAt P d₁.sessionId pos' := by
  obtain ⟨hik, hspk, had, hratchet⟩ := Engine.initiate_eq_ok hi
  have hpos := (initAliceRatchet_eq_ok hspk hratchet).2
  obtain ⟨⟨hd, mk⟩, after, ⟨hd', mk'⟩, later, hafter, hlater⟩ :=
    DoubleRatchetState.initAlice_sendMessageKey_twice (P := P) d₁.ratchet i.shared.sk
      bundle.signedPrekey defaultMaxSkip
  have hstorable := DoubleRatchetState.sendMessageKey_storable
    (DoubleRatchetState.initAlice_storable P d₁.ratchet i.shared.sk hspk) hafter
  have hs : ({ e.outboundSession bundle conv i r with
      ratchet := .classical after } : LiveSession B).Storable :=
    ⟨hstorable, hik, hconv, by show i.shared.ad.length < 2 ^ 32; omega⟩
  obtain ⟨packet, e₁, e₂, s, h₁, hidle, h₂, hlookup, hcore, -, -⟩ :=
    he.establish_crashReload hseal hi hafter conv
      (LiveSession.decode_encode hs d₁.order d₁.sessionId) d₂
  have hsr : s.ratchet = .classical after := LiveSession.ratchet_eq_of_core_eq hcore
  have henc : ∀ ad, ∃ out r', s.ratchet.encrypt P d₃ [] ad = .ok (out, r') := by
    intro ad
    obtain ⟨ct, hct⟩ := hseal.seal (aeadFromMk P mk').1 (aeadFromMk P mk').2 [] (concatAd ad hd')
    rw [hsr]
    exact ⟨_, _, LiveRatchet.encrypt_classical
      (DoubleRatchetState.encrypt_eq_ok.2 ⟨mk', hlater, hct⟩)⟩
  obtain ⟨⟨header, ct⟩, r', hok⟩ := henc []
  obtain ⟨-, pk, n, -, hpos', -⟩ := LiveRatchet.encrypt_eq_ok hok
  obtain ⟨ev₁, ev₂, ev₃, hlog, h₁, h₂, h₃⟩ := Run.resumed_seals hi hpos h₁ h₂ hidle hlookup hpos' henc
  exact ⟨ev₁, ev₂, ev₃, _, _, hlog, h₁, h₂, h₃⟩

/-! ### The theorem -/

/-- **No position is used twice**, across any calls and crashes: every message that was sealed has a
position, and two messages of one session have different ones. -/
theorem sealed_positions_distinct {r : Run B} (hr : (device P (FreshRatchets P)).Reachable r) :
    (∀ ev ∈ r.log, (∀ m, ev.outcome = .ok (.sealed m) →
        ∃ pos, ev.SealedAt P m.sessionHint pos) ∧
      ∀ sid packet, ev.outcome = .ok (.established sid packet) →
        ∃ pos, ev.SealedAt P sid pos) ∧
    r.log.Pairwise fun ev ev' ↦ ∀ sid pos pos', ev.SealedAt P sid pos →
      ev'.SealedAt P sid pos' → pos ≠ pos' :=
  ⟨exists_sealedAt hr, (ahead hr).distinct⟩

namespace Symbolic

/-- Device 1 opens a session with device 2, crashes, and seals another message. -/
noncomputable def resumed (conv : List Sym) : Run Sym :=
  Run.resumed symbolic (engine 1 .classicalV1) (bundle (engine 2 .classicalV1)) conv (draws 1)
    (draws 2) (draws 3)

/-- The ratchet keys of that run are all new. -/
theorem reachable_resumed {allow : Run Sym → Call Sym → Draws Sym → Prop} {conv : List Sym}
    (h : ∀ r c d, NewRatchet symbolic r c d →
      (c = .establish (bundle (engine 2 .classicalV1)) conv [] [] ∨ c = .crashReload ∨
        c = .encrypt (draws 1).sessionId [] []) → allow r c d) :
    (device symbolic allow).Reachable (resumed conv) := by
  have h₁₂ : symbolic.publicKey (draws 1).ratchet ≠ symbolic.publicKey (draws 2).ratchet := by
    decide +kernel
  have h₁₃ : symbolic.publicKey (draws 1).ratchet ≠ symbolic.publicKey (draws 3).ratchet := by
    decide +kernel
  have h₂₃ : symbolic.publicKey (draws 2).ratchet ≠ symbolic.publicKey (draws 3).ratchet := by
    decide +kernel
  refine reachable_extend (reachable_extend (reachable_extend
    (reachable_newDevice symbolic allow ⟨[], .classicalV1⟩ (deviceDraws 1)) ?_) ?_) ?_
  · exact h _ _ _ (newRatchet_nil _ _ _) (.inl rfl)
  · exact h _ _ _ ((newRatchet_nil _ _ _).extend h₁₂) (.inr (.inl rfl))
  · exact h _ _ _ (((newRatchet_nil _ _ _).extend h₁₃).extend h₂₃) (.inr (.inr rfl))

/-- Device 1 can initiate a session with device 2. -/
theorem exists_initiate : ∃ i r, (engine 1 .classicalV1).initiate symbolic
    (bundle (engine 2 .classicalV1)) (draws 1) = .ok (i, r) := by
  have hinit : ((engine 1 .classicalV1).initiate symbolic (bundle (engine 2 .classicalV1))
      (draws 1)).isOk = true := by
    decide +kernel
  cases h : (engine 1 .classicalV1).initiate symbolic (bundle (engine 2 .classicalV1)) (draws 1) with
  | error err =>
    rw [h] at hinit
    cases hinit
  | ok out => exact ⟨out.1, out.2, rfl⟩

end Symbolic

open Symbolic in
/-- A session that was opened, reloaded and used again seals at two positions. -/
theorem sealed_positions_distinct_resumed :
    ∃ ev₁ ev₂ ev₃ sid pos pos', (resumed []).log = [ev₁, ev₂, ev₃] ∧
      ev₁.SealedAt symbolic sid pos ∧ ev₂.call = .crashReload ∧ ev₃.SealedAt symbolic sid pos' ∧
      pos ≠ pos' := by
  obtain ⟨i, r, hi⟩ := exists_initiate
  have hconv : ([] : List Sym).length < 2 ^ 32 := by decide
  obtain ⟨ev₁, ev₂, ev₃, pos, pos', hlog, h₁, h₂, h₃⟩ := exists_resumed Symbolic.sealTotal
    (Engine.newDevice_vacant symbolic [] (deviceDraws 1)) hi hconv (Symbolic.draws 2)
    (Symbolic.draws 3)
  have hreach : (device symbolic (FreshRatchets symbolic)).Reachable (resumed []) := by
    refine reachable_resumed ?_
    rintro r c d hnew (rfl | rfl | rfl)
    · exact ⟨by show ([] : List Sym).length < 2 ^ 32; decide, hnew⟩
    · exact ⟨trivial, hnew⟩
    · exact ⟨trivial, hnew⟩
  have hdistinct := (sealed_positions_distinct hreach).2
  rw [show (resumed []).log = [ev₁, ev₂, ev₃] from hlog] at hdistinct
  exact ⟨ev₁, ev₂, ev₃, _, pos, pos', hlog, h₁, h₂, h₃,
    (List.pairwise_cons.1 hdistinct).1 ev₃ (by simp) _ pos pos' h₁ h₃⟩

/-! ### A conversation that does not fit

`encode_session` writes the length of the conversation modulo `2 ^ 32`. A conversation of exactly that
length is read back as empty, and what follows is parsed from the conversation itself. -/

/-- A conversation of length `2 ^ 32` that is read back as handshake data, followed by the ratchet
blob `blob` and the `tail` letters that really follow. -/
def forgedConversation (blob : List B) (tail : ℕ) : List B :=
  Cursor.putVec (List.replicate (2 ^ 32 - 8 - blob.length) (ofNat 0)) ++
    (le 4 (blob.length + tail) ++ blob)

/-- The forged conversation is as long as the length field can count, and so its length is written
as zero. -/
theorem length_forgedConversation {blob : List B} (h : blob.length ≤ 2 ^ 32 - 8) (tail : ℕ) :
    (forgedConversation blob tail).length = 2 ^ 32 := by
  simp only [forgedConversation, List.length_append, Cursor.length_putVec, List.length_replicate,
    length_le]
  omega

/-- The letters behind the conversation of a stored session. -/
def LiveSession.tail (σ : Enumeration) (s : LiveSession B) : List B :=
  Cursor.putVec s.handshakeAd ++ Cursor.putVec (s.ratchet.persistBlob σ)

/-- **Written to storage, the forged conversation spills over**, and what follows the empty
conversation is read from it. -/
theorem LiveSession.encode_forged {s : LiveSession B} {blob : List B} (σ : Enumeration)
    (sid : SessionId B) (hblob : blob.length ≤ 2 ^ 32 - 8)
    (hconv : s.conversation = forgedConversation blob (s.tail σ).length) :
    s.encode σ sid = ascii "VCSESS01" ++ (sid.val ++ (s.remoteIdentity.val ++ (le 4 (2 ^ 32) ++
      (Cursor.putVec (List.replicate (2 ^ 32 - 8 - blob.length) (ofNat 0)) ++
        (le 4 (blob ++ s.tail σ).length ++ (blob ++ s.tail σ)))))) := by
  have hput : Cursor.putVec s.conversation =
      le 4 (2 ^ 32) ++ forgedConversation blob (s.tail σ).length := by
    rw [Cursor.putVec, hconv, length_forgedConversation hblob]
  rw [encode, hput]
  simp only [forgedConversation, tail, List.append_assoc, List.length_append]

/-- **The session that comes back is the forged one.** -/
theorem LiveSession.decode_encode_forged {s : LiveSession B} {blob : List B} {t : LiveRatchet B}
    (σ : Enumeration) (sid : SessionId B)
    (hconv : s.conversation = forgedConversation blob (s.tail σ).length)
    (hlength : (blob ++ s.tail σ).length < 2 ^ 32 - 8) (hid : s.remoteIdentity ≠ Block.zero 32)
    (hrestore : LiveRatchet.restore (blob ++ s.tail σ) = .ok t) :
    ∃ ad, decode (s.encode σ sid) =
      .ok (sid, ⟨t, s.remoteIdentity, [], IdentityTracker.new, ad⟩) := by
  have hblob : blob.length ≤ 2 ^ 32 - 8 := by
    rw [List.length_append] at hlength
    omega
  have hmagic : (ascii "VCSESS01" : List B).length = 8 := rfl
  have hempty : ∀ rest : List B, Cursor.takeVec CryptoError.storage (le 4 (2 ^ 32) ++ rest) =
      .ok ([], rest) := by
    intro rest
    have hmod : 2 ^ 32 % 256 ^ 4 = 0 := by decide
    simp only [Cursor.takeVec, Cursor.takeLe_append, hmod, bind, Except.bind]
    show Cursor.take CryptoError.storage 0 ([] ++ rest) = .ok ([], rest)
    exact Cursor.take_append rfl
  have hfill : ∀ rest : List B, Cursor.takeVec CryptoError.storage
      (Cursor.putVec (List.replicate (2 ^ 32 - 8 - blob.length) (ofNat 0)) ++ rest) =
        .ok (List.replicate (2 ^ 32 - 8 - blob.length) (ofNat 0), rest) :=
    Cursor.takeVec_reads CryptoError.storage (by rw [List.length_replicate]; omega)
  have hrlen : (blob ++ s.tail σ).length % 256 ^ 4 = (blob ++ s.tail σ).length :=
    Nat.mod_eq_of_lt (by omega)
  have hlen : ¬ (s.encode σ sid).length < 8 + 16 + 32 + 12 := by
    rw [encode_forged σ sid hblob hconv]
    simp only [List.length_append, hmagic, Block.length_val, Cursor.length_putVec, length_le]
    omega
  unfold decode
  rw [if_neg hlen, encode_forged σ sid hblob hconv]
  refine ⟨List.replicate (2 ^ 32 - 8 - blob.length) (ofNat 0), ?_⟩
  simp only [Cursor.expect_append, Cursor.takeBlock_append, hempty, hfill, Cursor.takeLe_append,
    hrlen, hrestore, publicFromBytes_of_ne hid, liftError, bind, Except.bind, pure, Except.pure,
    ne_eq, not_true, if_false]

/-- **Any classical ratchet can be what comes back**: whatever the session is, some conversation makes
its blob decode to a session with that ratchet. -/
theorem LiveSession.exists_forged (σ : Enumeration) (sid : SessionId B) {s : LiveSession B}
    (hid : s.remoteIdentity ≠ Block.zero 32) (htail : (s.tail σ).length < 2 ^ 31)
    {t : DoubleRatchetState B} (ht : t.Fits) (hskip : t.maxSkip = defaultMaxSkip)
    (hlength : (t.serialize σ).length < 2 ^ 30) :
    ∃ conv ad, decode (({ s with conversation := conv } : LiveSession B).encode σ sid) =
      .ok (sid, ⟨.classical t, s.remoteIdentity, [], IdentityTracker.new, ad⟩) := by
  have hrestore : LiveRatchet.restore ((LiveRatchet.classical t).persistBlob σ ++ s.tail σ) =
      .ok (.classical t) := by
    have hread := DoubleRatchetState.deserialize_append ht σ (s.tail σ)
    rw [hskip] at hread
    simp [LiveRatchet.restore, LiveRatchet.persistBlob, hread, liftError, bind, Except.bind, pure,
      Except.pure]
  have hblob : ((LiveRatchet.classical t).persistBlob σ ++ s.tail σ).length < 2 ^ 32 - 8 := by
    simp only [LiveRatchet.persistBlob, List.length_append, List.length_cons]
    omega
  obtain ⟨conv, hconv⟩ : ∃ conv, conv =
      forgedConversation ((LiveRatchet.classical t).persistBlob σ) (s.tail σ).length := ⟨_, rfl⟩
  obtain ⟨ad, hdec⟩ := decode_encode_forged (s := { s with conversation := conv }) σ sid hconv hblob
    hid hrestore
  exact ⟨conv, ad, hdec⟩

/-- What follows the conversation of an opened session is short. -/
theorem Engine.length_tail_outboundSession {e : Engine B} {bundle : PublicPrekeyBundle B}
    {i : AliceInitiation B} {r : LiveRatchet B} {after : DoubleRatchetState B} {σ : Enumeration}
    (had : i.shared.ad.length = 1251) (hafter : after.Storable) :
    (({ e.outboundSession bundle [] i r with ratchet := .classical after } : LiveSession B).tail
      σ).length < 2 ^ 31 := by
  have hlength := DoubleRatchetState.length_serialize_le hafter σ
  simp only [LiveSession.tail, outboundSession, LiveRatchet.persistBlob, List.length_append,
    List.length_cons, Cursor.length_putVec, had]
  omega

/-- **A device seals two messages at one position** when the conversation does not fit its length: in
a conversation of `2 ^ 32` letters, the session that comes back after a crash can be one that has not
sealed anything yet. -/
theorem exists_conversation_reused (hseal : SealTotal P) {e : Engine B} (he : e.Vacant)
    {bundle : PublicPrekeyBundle B} {d₁ : Draws B} {i : AliceInitiation B} {r : LiveRatchet B}
    (hi : e.initiate P bundle d₁ = .ok (i, r)) (d₂ d₃ : Draws B) :
    ∃ conv ev₁ ev₂ ev₃ pos,
      (Run.resumed P e bundle conv d₁ d₂ d₃).log = [ev₁, ev₂, ev₃] ∧
      ev₁.SealedAt P d₁.sessionId pos ∧ ev₂.call = .crashReload ∧
      ev₃.SealedAt P d₁.sessionId pos := by
  obtain ⟨hik, hspk, had, hratchet⟩ := Engine.initiate_eq_ok hi
  have hpos := (initAliceRatchet_eq_ok hspk hratchet).2
  have hsend := fun ad ↦ initAliceRatchet_encrypt hseal hratchet d₃ [] ad
  have hr : r = .classical (DoubleRatchetState.initAlice P d₁.ratchet i.shared.sk
      bundle.signedPrekey defaultMaxSkip) := by
    rw [he.profile] at hratchet
    exact (Except.ok.inj hratchet).symm
  have hstorable := DoubleRatchetState.initAlice_storable P d₁.ratchet i.shared.sk hspk
  obtain ⟨sent, after, hafter⟩ := DoubleRatchetState.initAlice_sendMessageKey (P := P) d₁.ratchet
    i.shared.sk bundle.signedPrekey defaultMaxSkip
  have hlength := DoubleRatchetState.length_serialize_le hstorable d₁.order
  -- the conversation ends in the blob of the fresh ratchet, and the reload finds it there
  obtain ⟨conv, ad, hdec⟩ := LiveSession.exists_forged d₁.order d₁.sessionId
    (s := { e.outboundSession bundle [] i r with ratchet := .classical after }) hik
    (Engine.length_tail_outboundSession had (DoubleRatchetState.sendMessageKey_storable hstorable hafter))
    hstorable.fits rfl (by omega)
  obtain ⟨packet, e₁, e₂, s, h₁, hidle, h₂, hlookup, hcore, -, -⟩ :=
    he.establish_crashReload hseal hi hafter conv hdec d₂
  have hsr : s.ratchet = r := (LiveSession.ratchet_eq_of_core_eq hcore).trans hr.symm
  obtain ⟨ev₁, ev₂, ev₃, hlog, h₁, h₂, h₃⟩ := Run.resumed_seals hi hpos h₁ h₂ hidle hlookup
    (hsr ▸ hpos) (hsr ▸ hsend)
  exact ⟨conv, ev₁, ev₂, ev₃, _, hlog, h₁, h₂, h₃⟩

open Symbolic in
/-- **A position is used twice.** Device 1 opens a session in a conversation that does not fit its
length, and after a crash seals its next message where it sealed the first. -/
theorem position_reused_after_reload :
    ∃ r : Run Sym, (device symbolic (NewRatchet symbolic)).Reachable r ∧
      ∃ ev₁ ev₂ ev₃ sid pos, r.log = [ev₁, ev₂, ev₃] ∧ ev₁.SealedAt symbolic sid pos ∧
        ev₂.call = .crashReload ∧ ev₃.SealedAt symbolic sid pos := by
  obtain ⟨i, r, hi⟩ := exists_initiate
  obtain ⟨conv, ev₁, ev₂, ev₃, pos, hlog, h₁, h₂, h₃⟩ := exists_conversation_reused
    Symbolic.sealTotal (Engine.newDevice_vacant symbolic [] (deviceDraws 1)) hi (Symbolic.draws 2)
    (Symbolic.draws 3)
  exact ⟨resumed conv, reachable_resumed fun _ _ _ hnew _ ↦ hnew, ev₁, ev₂, ev₃, _, pos, hlog, h₁,
    h₂, h₃⟩

end VoiceChatCrypto
