import VoiceChatCrypto.Engine.Stored

/-!
# Session slots

A session lives in two places: in the session map, and as a blob under its id. A **slot** is what the
two hold for one session id. Fourteen effects of a call come down to six ways a slot can change
(`SlotStep`), and every statement about sessions over whole runs is a case analysis on those six.

The reload loop is only understood on a storage that is laid out as the engine lays it out
(`Layout`): session ids hold encoded sessions that decode again, and nothing else looks like one. The
layout survives every call whose conversation fits its 32-bit length.
-/

open Alphabet

namespace VoiceChatCrypto

variable {B : Type} [Alphabet B] {P : Primitives B}

namespace LiveSession

/-- The session without its identity tracker, which is rebuilt and never stored. -/
def core (s : LiveSession B) : LiveSession B := { s with identityTracker := IdentityTracker.new }

/-- Whether a session can be stored depends on its core only. -/
theorem Storable.of_core_eq {s t : LiveSession B} (h : s.core = t.core) (ht : t.Storable) :
    s.Storable := by
  have hcore : t.core.Storable := ⟨ht.ratchet, ht.remoteIdentity, ht.conversation, ht.handshakeAd⟩
  rw [← h] at hcore
  exact ⟨hcore.ratchet, hcore.remoteIdentity, hcore.conversation, hcore.handshakeAd⟩

theorem ratchet_eq_of_core_eq {s t : LiveSession B} (h : s.core = t.core) :
    s.ratchet = t.ratchet :=
  (LiveSession.mk.inj h).1

/-- A stored blob determines the session. -/
theorem core_eq_of_encode_eq {s t : LiveSession B} (hs : s.Storable) (ht : t.Storable)
    {σ τ : Enumeration} {sid : SessionId B} (h : s.encode σ sid = t.encode τ sid) :
    s.core = t.core := by
  have hdec := decode_encode hs σ sid
  rw [h, decode_encode ht τ sid] at hdec
  exact (Prod.mk.inj (Except.ok.inj hdec)).2.symm

end LiveSession

/-- Conversations fit their 32-bit lengths. -/
def Call.Fits : Call B → Prop
  | .establish _ conv _ _ => conv.length < 2 ^ 32
  | .processInbound _ conv _ => conv.length < 2 ^ 32
  | _ => True

namespace Engine

variable {e e' : Engine B} {d : Draws B} {c : Call B} {sid : SessionId B}

/-! ### New sessions -/

/-- What has been checked when an initiation succeeds. -/
theorem initiate_eq_ok {bundle : PublicPrekeyBundle B} {i : AliceInitiation B} {r : LiveRatchet B}
    (h : e.initiate P bundle d = .ok (i, r)) :
    bundle.identityKey ≠ Block.zero 32 ∧ bundle.signedPrekey ≠ Block.zero 32 ∧
      i.shared.ad.length = 1251 ∧
      initAliceRatchet P e.profile d.ratchet i.shared.sk bundle.signedPrekey = .ok r := by
  obtain ⟨u, hvalidate, h⟩ := Except.bind_eq_ok.1 h
  obtain ⟨i', hinit, h⟩ := Except.bind_eq_ok.1 h
  obtain ⟨r', hratchet, h⟩ := Except.bind_eq_ok.1 h
  cases h
  obtain ⟨hik, hspk, -⟩ := PublicPrekeyBundle.validate_eq_ok.1 (liftError_eq_ok.1 hvalidate)
  refine ⟨hik, hspk, ?_, hratchet⟩
  obtain ⟨-, -, hinit⟩ := Except.bind_eq_ok.1 (liftError_eq_ok.1 hinit)
  obtain ⟨pq, -, hinit⟩ := Except.bind_eq_ok.1 hinit
  obtain ⟨⟨ss, ct⟩, -, hinit⟩ := Except.bind_eq_ok.1 hinit
  cases hinit
  exact length_pqxdhAd _ _ _

/-- The sessions that a call makes and commits. -/
inductive Made (P : Primitives B) (d : Draws B) (e : Engine B) (c : Call B) :
    SessionId B → LiveSession B → Prop
  | outbound (bundle : PublicPrekeyBundle B) (conv pt ad : List B) (i : AliceInitiation B)
      (r r' : LiveRatchet B) (header ct : List B) (hc : c = .establish bundle conv pt ad)
      (hi : e.initiate P bundle d = .ok (i, r))
      (henc : r.encrypt P d pt ((e.outboundSession bundle conv i r).boundAd ad) =
        .ok ((header, ct), r')) :
      Made P d e c d.sessionId { e.outboundSession bundle conv i r with ratchet := r' }
  | inbound (m : InitiationPacket B) (conv ad pt : List B) (shared : PqxdhSharedSecret B)
      (r r' : LiveRatchet B) (hc : c = .processInbound m conv ad) (hans : Answers P m e shared r)
      (hdec : r.decrypt P d m.firstMessage.header m.firstMessage.ciphertext
        ((e.inboundSession m conv shared r).boundAd ad) = .ok (pt, r')) :
      Made P d e c d.sessionId { e.inboundSession m conv shared r with ratchet := r' }
  | sealed (sid : SessionId B) (pt ad : List B) (s : LiveSession B) (r : LiveRatchet B)
      (header ct : List B) (hc : c = .encrypt sid pt ad ∨ c = .encryptVoicePayload sid pt ad)
      (hs : e.sessions.lookup sid = some s)
      (henc : s.ratchet.encrypt P d pt (s.boundAd ad) = .ok ((header, ct), r)) :
      Made P d e c sid { s with ratchet := r }
  | opened (sid : SessionId B) (m : SealedMessage B) (ad pt : List B) (s : LiveSession B)
      (r : LiveRatchet B) (hc : c = .decrypt sid m ad) (hs : e.sessions.lookup sid = some s)
      (hdec : s.ratchet.decrypt P d m.header m.ciphertext (s.boundAd ad) = .ok (pt, r)) :
      Made P d e c sid { s with ratchet := r }

/-- What a session is made of is storable, if the session it was made from is. -/
theorem Made.storable {s : LiveSession B} (h : Made P d e c sid s) (hc : c.Fits)
    (hlive : ∀ sid s, e.sessions.lookup sid = some s → s.Storable) : s.Storable := by
  cases h with
  | outbound bundle conv pt ad i r r' header ct hc' hi henc =>
    subst hc'
    obtain ⟨hik, hspk, had, hratchet⟩ := initiate_eq_ok hi
    have hr := (initAliceRatchet_eq_ok hspk hratchet).1
    refine ⟨(LiveRatchet.encrypt_eq_ok henc).1 hr, hik, hc, ?_⟩
    show i.shared.ad.length < 2 ^ 32
    rw [had]
    decide
  | inbound m conv ad pt shared r r' hc' hans hdec =>
    subst hc'
    have hr := (initBobRatchet_eq_ok hans.ratchet).1
    refine ⟨(LiveRatchet.decrypt_eq_ok hr hdec).1, hans.identity, hc, ?_⟩
    show shared.ad.length < 2 ^ 32
    rw [hans.ad]
    decide
  | sealed sid pt ad s r header ct hc' hs henc =>
    have h := hlive sid s hs
    exact ⟨(LiveRatchet.encrypt_eq_ok henc).1 h.ratchet, h.remoteIdentity, h.conversation,
      h.handshakeAd⟩
  | opened sid m ad pt s r hc' hs hdec =>
    have h := hlive sid s hs
    exact ⟨(LiveRatchet.decrypt_eq_ok h.ratchet hdec).1, h.remoteIdentity, h.conversation,
      h.handshakeAd⟩

/-! ### The layout of storage -/

/-- What does not lie under a session id does not look like a session, and so a reload does not take
it for one. -/
def KeysApart (e : Engine B) : Prop :=
  ∀ k v, e.storage.committed.lookup k = some v →
    (∃ sid : SessionId B, k = sid.val) ∨ isSessionBlob v = false

/-- **The layout of storage**: what lies under a session id is an encoded session, what lies anywhere
else does not look like one, and every session could be stored as it is. -/
structure Layout (e : Engine B) : Prop where
  /-- Only sessions look like sessions. -/
  keys : e.KeysApart
  /-- Under each session id there is an encoding of a storable session, or nothing. -/
  stored : ∀ sid v, e.blob sid = some v →
    ∃ (σ : Enumeration) (s : LiveSession B), v = s.encode σ sid ∧ s.Storable
  /-- Every live session could be stored. -/
  live : ∀ sid s, e.sessions.lookup sid = some s → s.Storable

theorem isSessionBlob_ascii_append {magic : String} (rest : List B)
    (hlen : (ascii magic : List B).length = 8)
    (h : magic.toList.map (fun c ↦ c.toNat % 256) ≠
      "VCSESS01".toList.map fun c ↦ c.toNat % 256) :
    isSessionBlob (ascii magic ++ rest) = false := by
  rw [isSessionBlob, decide_eq_false_iff_not, ← hlen, List.take_left]
  intro heq
  have hnat := congrArg (List.map Alphabet.toNat) heq
  simp only [ascii, List.map_map] at hnat
  apply h
  simpa [Function.comp_def] using hnat

theorem isSessionBlob_encode (s : LiveSession B) (σ : Enumeration) (sid : SessionId B) :
    isSessionBlob (s.encode σ sid) = true := by
  have hlen : (ascii "VCSESS01" : List B).length = 8 := rfl
  simp only [isSessionBlob, LiveSession.encode, List.append_assoc, decide_eq_true_iff]
  rw [← hlen, List.take_left]

/-- No device blob looks like a session. -/
theorem isSessionBlob_devicePairs {σ : Enumeration} {k v : List B}
    (h : (k, v) ∈ e.devicePairs σ) : isSessionBlob v = false := by
  simp only [devicePairs, List.mem_cons, Prod.mk.injEq, List.not_mem_nil, or_false] at h
  rcases h with ⟨-, rfl⟩ | ⟨-, rfl⟩ | ⟨-, rfl⟩ | ⟨-, rfl⟩
  · exact isSessionBlob_ascii_append _ rfl (by decide)
  · simp only [PrekeyStore.serialize, List.append_assoc]
    exact isSessionBlob_ascii_append _ rfl (by decide)
  · simp only [ReplayCache.serialize, List.append_assoc]
    exact isSessionBlob_ascii_append _ rfl (by decide)
  · simp only [TrustStore.serialize, List.append_assoc]
    exact isSessionBlob_ascii_append _ rfl (by decide)

/-- Commits of device blobs and sessions keep the keys apart. -/
theorem KeysApart.committed (h : e.KeysApart) (pairs : List (List B × List B)) (σ : Enumeration)
    (hnd : (pairs.map Prod.fst).Nodup) (hpairs : ∀ k v, (k, v) ∈ pairs →
      (∃ sid : SessionId B, k = sid.val) ∨ (k, v) ∈ e.devicePairs σ) :
    (e.committed pairs).KeysApart := by
  intro k v hk
  rcases lookup_committed_eq_some hnd hk with hmem | hold
  · exact (hpairs k v hmem).imp_right isSessionBlob_devicePairs
  · exact h k v hold

/-- A commit of the device writes nothing that looks like a session. -/
theorem KeysApart.commitDevice (h : e.KeysApart) (σ : Enumeration) :
    (e.commitDevice σ).KeysApart :=
  h.committed (e.devicePairs σ) σ deviceKeys_nodup fun _ _ hmem ↦ .inr hmem

theorem KeysApart.commitSession (h : e.KeysApart) (σ : Enumeration) (sid : SessionId B)
    (s : LiveSession B) : (e.commitSession σ sid s).KeysApart := by
  refine h.committed (e.sessionPairs σ sid s) σ (sessionKeys_nodup e σ sid s) fun k v hmem ↦ ?_
  rcases List.mem_cons.1 hmem with heq | hmem
  · exact .inl ⟨sid, (Prod.mk.inj heq).1⟩
  · exact .inr (List.mem_of_mem_drop (i := 2) hmem)

theorem KeysApart.commitHandshake (h : e.KeysApart) (σ : Enumeration) (sid : SessionId B)
    (s : LiveSession B) : (e.commitHandshake σ sid s).KeysApart := by
  refine h.committed (e.handshakePairs σ sid s) σ (keys_nodup sid) fun k v hmem ↦ ?_
  simp only [handshakePairs, List.mem_cons, List.not_mem_nil, or_false] at hmem
  simp only [devicePairs, List.mem_cons, List.not_mem_nil, or_false]
  rcases hmem with hmem | hmem | hmem | hmem | hmem
  · exact .inr (.inl hmem)
  · exact .inr (.inr (.inl hmem))
  · exact .inl ⟨sid, (Prod.mk.inj hmem).1⟩
  · exact .inr (.inr (.inr (.inl hmem)))
  · exact .inr (.inr (.inr (.inr hmem)))

/-! ### The reload loop -/

/-- A session that decodes is restored under its own id. -/
theorem restoreBlob_eq {v : List B} (hblob : isSessionBlob v = true) {sid : SessionId B}
    {s : LiveSession B} (hdec : LiveSession.decode v = .ok (sid, s)) (k : List B)
    (m : Dict (SessionId B) (LiveSession B)) : restoreBlob m (k, v) = .ok (m.insert sid s) := by
  simp only [restoreBlob, hblob, if_true, hdec, bind, Except.bind, pure, Except.pure]

/-- **The reload loop** succeeds when everything that looks like a session decodes to the session of
its key, and fills each slot with what is stored under its id. -/
theorem foldlM_restoreBlob (l : List (List B × List B)) (hnd : (l.map Prod.fst).Nodup)
    (hl : ∀ k v, (k, v) ∈ l →
      (∃ (sid : SessionId B) (s : LiveSession B),
        k = sid.val ∧ isSessionBlob v = true ∧ LiveSession.decode v = .ok (sid, s)) ∨
      isSessionBlob v = false ∧ ∀ sid : SessionId B, k ≠ sid.val)
    (m : Dict (SessionId B) (LiveSession B)) :
    ∃ m', l.foldlM restoreBlob m = .ok m' ∧ ∀ sid,
      (∀ v s, (sid.val, v) ∈ l → LiveSession.decode v = .ok (sid, s) → m'.lookup sid = some s) ∧
      (sid.val ∉ l.map Prod.fst → m'.lookup sid = m.lookup sid) := by
  induction l generalizing m with
  | nil => exact ⟨m, rfl, fun sid ↦ ⟨fun v s h ↦ absurd h (List.not_mem_nil), fun _ ↦ rfl⟩⟩
  | cons entry l ih =>
    obtain ⟨k, v⟩ := entry
    rw [List.map_cons, List.nodup_cons] at hnd
    have hl' := fun k v h ↦ hl k v (List.mem_cons_of_mem _ h)
    rw [List.foldlM_cons]
    rcases hl k v List.mem_cons_self with ⟨sid₀, s₀, rfl, hblob, hdec₀⟩ | ⟨hblob, hk⟩
    · obtain ⟨m', hm', hslots⟩ := ih hnd.2 hl' (m.insert sid₀ s₀)
      refine ⟨m', by rw [restoreBlob_eq hblob hdec₀]; exact hm', fun sid ↦ ⟨?_, ?_⟩⟩
      · intro w s hmem hdec
        rcases List.mem_cons.1 hmem with heq | hmem
        · -- this entry: its key does not come again
          obtain ⟨hsid, rfl⟩ := Prod.mk.inj heq
          obtain rfl : sid = sid₀ := Subtype.ext hsid
          rw [hdec] at hdec₀
          cases hdec₀
          rw [(hslots sid).2 hnd.1, Finmap.lookup_insert]
        · exact (hslots sid).1 w s hmem hdec
      · intro hnot
        rw [List.map_cons, List.mem_cons, not_or] at hnot
        have hne : sid ≠ sid₀ := fun heq ↦ hnot.1 (by rw [heq])
        rw [(hslots sid).2 hnot.2, Finmap.lookup_insert_of_ne _ hne]
    · obtain ⟨m', hm', hslots⟩ := ih hnd.2 hl' m
      have hskip : restoreBlob m (k, v) = .ok m := by
        simp only [restoreBlob, hblob, Bool.false_eq_true, if_false]
      refine ⟨m', by rw [hskip]; exact hm', fun sid ↦ ⟨?_, ?_⟩⟩
      · intro w s hmem hdec
        rcases List.mem_cons.1 hmem with heq | hmem
        · exact absurd (Prod.mk.inj heq).1.symm (hk sid)
        · exact (hslots sid).1 w s hmem hdec
      · intro hnot
        rw [List.map_cons, List.mem_cons, not_or] at hnot
        exact (hslots sid).2 hnot.2

/-- A reload succeeds when the device blobs are missing or decode and the loop does. -/
theorem simulateCrashReload_eq {identity : IdentityKeyPair B} {prekeys : PrekeyStore B}
    {sessions : Dict (SessionId B) (LiveSession B)}
    (hi : (e.storage.committed.lookup keyIdentity = none ∧ identity = e.identity) ∨
      ∃ v, e.storage.committed.lookup keyIdentity = some v ∧
        IdentityKeyPair.deserialize v = .ok identity)
    (hp : (e.storage.committed.lookup keyPrekeys = none ∧ prekeys = e.prekeys) ∨
      ∃ v, e.storage.committed.lookup keyPrekeys = some v ∧
        PrekeyStore.deserialize v = .ok prekeys)
    (hs : (d.order.list e.storage.committed).foldlM restoreBlob ∅ = .ok sessions) :
    e.simulateCrashReload d =
      (.ok (), ({ e with identity, prekeys, sessions } : Engine B).reloadAux) := by
  unfold simulateCrashReload
  rcases hi with ⟨hi, rfl⟩ | ⟨v, hi, hdec⟩ <;> rcases hp with ⟨hp, rfl⟩ | ⟨w, hp, hdec'⟩ <;>
    simp only [*]

/-- A session as it comes back from storage. -/
def Restored (e : Engine B) (sid : SessionId B) (mem : Option (LiveSession B)) : Prop :=
  (mem = none ∧ e.blob sid = none) ∨
    ∃ (σ : Enumeration) (s s' : LiveSession B), mem = some s' ∧ s'.core = s.core ∧ s.Storable ∧
      e.blob sid = some (s.encode σ sid)

/-- **A reload restores every stored session**, whatever the order of the entries. -/
theorem Layout.reload (h : e.Layout) (σ : Enumeration) :
    ∃ m, (σ.list e.storage.committed).foldlM restoreBlob ∅ = .ok m ∧
      ∀ sid, e.Restored sid (m.lookup sid) := by
  have hl : ∀ k v, (k, v) ∈ σ.list e.storage.committed →
      (∃ (sid : SessionId B) (s : LiveSession B),
        k = sid.val ∧ isSessionBlob v = true ∧ LiveSession.decode v = .ok (sid, s)) ∨
        isSessionBlob v = false ∧ ∀ sid : SessionId B, k ≠ sid.val := by
    intro k v hmem
    have hlookup := σ.mem_list_iff.1 hmem
    by_cases hsid : ∃ sid : SessionId B, k = sid.val
    · obtain ⟨sid, rfl⟩ := hsid
      obtain ⟨τ, s, rfl, hs⟩ := h.stored sid v hlookup
      exact .inl ⟨sid, s.core, rfl, isSessionBlob_encode s τ sid,
        LiveSession.decode_encode hs τ sid⟩
    · exact .inr ⟨(h.keys k v hlookup).resolve_left hsid, fun sid hk ↦ hsid ⟨sid, hk⟩⟩
  obtain ⟨m, hm, hslots⟩ := foldlM_restoreBlob _ (σ.list_nodup _) hl ∅
  refine ⟨m, hm, fun sid ↦ ?_⟩
  cases hblob : e.blob sid with
  | none =>
    left
    refine ⟨(hslots sid).2 fun hmem ↦ ?_, hblob⟩
    obtain ⟨⟨k, v⟩, hp, hk⟩ := List.mem_map.1 hmem
    have hlookup := σ.mem_list_iff.1 hp
    cases hk
    rw [blob, hlookup] at hblob
    cases hblob
  | some v =>
    right
    obtain ⟨τ, s, rfl, hs⟩ := h.stored sid v hblob
    have hrestored := (hslots sid).1 _ s.core (σ.mem_list_iff.2 hblob)
      (LiveSession.decode_encode hs τ sid)
    exact ⟨τ, s, s.core, hrestored, rfl, hs, hblob⟩

/-! ### What a call does to a slot -/

/-- **The six ways a slot can change**: the new entry of the session map, and the new blob. -/
inductive SlotStep (P : Primitives B) (d : Draws B) (e : Engine B) (c : Call B)
    (sid : SessionId B) : Option (LiveSession B) → Option (List B) → Prop
  /-- Nothing happens, or only the identity tracker changes. -/
  | kept (mem : Option (LiveSession B))
      (h : mem.map LiveSession.core = (e.sessions.lookup sid).map LiveSession.core) :
      SlotStep P d e c sid mem (e.blob sid)
  /-- A session is made and committed. -/
  | written (σ : Enumeration) (s : LiveSession B) (h : Made P d e c sid s) :
      SlotStep P d e c sid (some s) (some (s.encode σ sid))
  /-- A new session could not seal its first message. -/
  | unsent (bundle : PublicPrekeyBundle B) (conv pt ad : List B) (i : AliceInitiation B)
      (r : LiveRatchet B) (err : CryptoError) (hsid : sid = d.sessionId)
      (hc : c = .establish bundle conv pt ad) (hi : e.initiate P bundle d = .ok (i, r))
      (henc : r.encrypt P d pt ((e.outboundSession bundle conv i r).boundAd ad) = .error err) :
      SlotStep P d e c sid (some (e.outboundSession bundle conv i r)) (e.blob sid)
  /-- A new session could not open its first message. -/
  | closed (hsid : sid = d.sessionId) : SlotStep P d e c sid none (e.blob sid)
  /-- The session is deleted. -/
  | erased : SlotStep P d e c sid none none
  /-- The session comes back from storage. -/
  | restored (mem : Option (LiveSession B)) (h : e.Restored sid mem) :
      SlotStep P d e c sid mem (e.blob sid)

/-- The slot that a commit writes, and the others. -/
theorem slotStep_write {s' : LiveSession B} {σ : Enumeration} {sid₀ : SessionId B}
    (hs : Made P d e c sid₀ s')
    (hmem : e'.sessions.lookup sid₀ = some s')
    (hmem' : ∀ sid, sid ≠ sid₀ → e'.sessions.lookup sid = e.sessions.lookup sid)
    (hblob : e'.blob sid₀ = some (s'.encode σ sid₀))
    (hblob' : ∀ sid, sid ≠ sid₀ → e'.blob sid = e.blob sid) :
    SlotStep P d e c sid (e'.sessions.lookup sid) (e'.blob sid) := by
  by_cases hsid : sid = sid₀
  · subst hsid
    rw [hmem, hblob]
    exact .written σ s' hs
  · rw [hmem' sid hsid, hblob' sid hsid]
    exact .kept _ rfl

/-- **A call changes every slot in one of those ways.** A slot is what memory and storage hold under
one session id. -/
theorem Effect.slot {out : Except CryptoError (Output B)} (h : Effect P d e c out e')
    (hlay : e.Layout) (sid : SessionId B) :
    SlotStep P d e c sid (e'.sessions.lookup sid) (e'.blob sid) := by
  cases h with
  | refused c err => exact .kept _ rfl
  | replenishStopped n err prekeys h => exact .kept _ rfl
  | replenished n prekeys h =>
    rw [blob_commitDevice]
    exact .kept _ rfl
  | establishStopped bundle conv pt ad i r err hi henc =>
    show SlotStep P d e _ sid ((e.sessions.insert d.sessionId _).lookup sid) (e.blob sid)
    by_cases hsid : sid = d.sessionId
    · subst hsid
      rw [Finmap.lookup_insert]
      exact .unsent bundle conv pt ad i r err rfl rfl hi henc
    · rw [Finmap.lookup_insert_of_ne _ hsid]
      exact .kept _ rfl
  | established bundle conv pt ad i r r' header ct hi henc =>
    refine slotStep_write (.outbound bundle conv pt ad i r r' header ct rfl hi henc)
      (Finmap.lookup_insert _) (fun sid' h ↦ ?_) blob_commitSession
      (fun sid' h ↦ blob_commitSession_of_ne h)
    exact (Finmap.lookup_insert_of_ne _ h).trans (Finmap.lookup_insert_of_ne _ h)
  | processClosed m conv ad shared r err hans =>
    show SlotStep P d e _ sid (((e.sessions.insert d.sessionId _).erase d.sessionId).lookup sid)
      (e.blob sid)
    by_cases hsid : sid = d.sessionId
    · rw [hsid, Finmap.lookup_erase]
      exact .closed rfl
    · rw [Finmap.lookup_erase_ne hsid, Finmap.lookup_insert_of_ne _ hsid]
      exact .kept _ rfl
  | processed m conv ad pt shared r r' hans hreplay hdec =>
    refine slotStep_write (.inbound m conv ad pt shared r r' rfl hans hdec)
      (Finmap.lookup_insert _) (fun sid' h ↦ ?_) blob_commitHandshake
      (fun sid' h ↦ blob_commitHandshake_of_ne h)
    exact (Finmap.lookup_insert_of_ne _ h).trans (Finmap.lookup_insert_of_ne _ h)
  | sealed c sid₀ pt ad s r header ct hc hs henc =>
    exact slotStep_write (.sealed sid₀ pt ad s r header ct hc hs henc) (Finmap.lookup_insert _)
      (fun sid' h ↦ Finmap.lookup_insert_of_ne _ h) blob_commitSession
      (fun sid' h ↦ blob_commitSession_of_ne h)
  | opened sid₀ m ad pt s r hs hreplay hdec =>
    exact slotStep_write (.opened sid₀ m ad pt s r rfl hs hdec) (Finmap.lookup_insert _)
      (fun sid' h ↦ Finmap.lookup_insert_of_ne _ h) blob_commitSession
      (fun sid' h ↦ blob_commitSession_of_ne h)
  | acknowledged remote dev =>
    rw [blob_commitDevice]
    refine .kept _ ?_
    show ((e.sessions.mapValues _).lookup sid).map _ = _
    rw [Dict.lookup_mapValues, Option.map_map]
    congr 1
    funext s
    show LiveSession.core (if _ then _ else _) = s.core
    split <;> rfl
  | forgot sid₀ =>
    show SlotStep P d e _ sid ((e.sessions.erase sid₀).lookup sid)
      ((e.storage.committed.erase sid₀.val).lookup sid.val)
    by_cases hsid : sid = sid₀
    · rw [hsid, Finmap.lookup_erase, Finmap.lookup_erase]
      exact .erased
    · have hval : sid.val ≠ sid₀.val := fun heq ↦ hsid (Subtype.ext heq)
      rw [Finmap.lookup_erase_ne hsid, Finmap.lookup_erase_ne hval]
      exact .kept _ rfl
  | cleared => exact .erased
  | reloadStopped err identity prekeys hi hp => exact .kept _ rfl
  | reloaded identity prekeys sessions hi hp hs =>
    obtain ⟨m, hm, hslots⟩ := hlay.reload d.order
    rw [hs] at hm
    cases hm
    refine .restored _ ?_
    show e.Restored sid ((sessions.mapValues _).lookup sid)
    rw [Dict.lookup_mapValues]
    rcases hslots sid with ⟨hnone, hblob⟩ | ⟨σ, s, s', hsome, hcore, hs, hblob⟩
    · rw [hnone]
      exact .inl ⟨rfl, hblob⟩
    · rw [hsome]
      exact .inr ⟨σ, s, _, rfl, hcore, hs, hblob⟩

/-- A slot of a laid-out engine holds storable sessions afterwards. -/
theorem SlotStep.storable {mem : Option (LiveSession B)} {blob' : Option (List B)}
    (h : SlotStep P d e c sid mem blob') (hc : c.Fits) (hlay : e.Layout) :
    (∀ s, mem = some s → s.Storable) ∧
      ∀ v, blob' = some v → ∃ (σ : Enumeration) (s : LiveSession B), v = s.encode σ sid ∧
        s.Storable := by
  cases h with
  | kept mem h =>
    refine ⟨fun s hs ↦ ?_, hlay.stored sid⟩
    rw [hs, Option.map_some] at h
    obtain ⟨s₀, hs₀, hcore⟩ := Option.map_eq_some_iff.1 h.symm
    exact .of_core_eq hcore.symm (hlay.live sid s₀ hs₀)
  | written σ s hmade =>
    have hs := hmade.storable hc hlay.live
    refine ⟨fun s' hs' ↦ ?_, fun v hv ↦ ?_⟩
    · cases hs'
      exact hs
    · cases hv
      exact ⟨σ, s, rfl, hs⟩
  | unsent bundle conv pt ad i r err hsid hc' hi henc =>
    subst hc'
    refine ⟨fun s hs ↦ ?_, hlay.stored sid⟩
    cases hs
    obtain ⟨hik, hspk, had, hratchet⟩ := initiate_eq_ok hi
    refine ⟨(initAliceRatchet_eq_ok hspk hratchet).1, hik, hc, ?_⟩
    show i.shared.ad.length < 2 ^ 32
    rw [had]
    decide
  | closed hsid => exact ⟨by simp, hlay.stored sid⟩
  | erased => exact ⟨by simp, by simp⟩
  | restored mem h =>
    refine ⟨fun s hs ↦ ?_, hlay.stored sid⟩
    rcases h with ⟨hnone, -⟩ | ⟨σ, s₀, s', hsome, hcore, hs₀, -⟩
    · rw [hs] at hnone
      cases hnone
    · rw [hs] at hsome
      cases hsome
      exact .of_core_eq hcore hs₀

/-- **The layout survives every call.** -/
theorem Effect.layout {out : Except CryptoError (Output B)} (h : Effect P d e c out e')
    (hc : c.Fits) (hlay : e.Layout) : e'.Layout := by
  refine ⟨?_, fun sid ↦ ((h.slot hlay sid).storable hc hlay).2,
    fun sid ↦ ((h.slot hlay sid).storable hc hlay).1⟩
  -- slots are settled; what is left are the keys of storage
  cases h with
  | refused c err => exact hlay.keys
  | replenishStopped n err prekeys h => exact hlay.keys
  | replenished n prekeys h => exact KeysApart.commitDevice (e := { e with prekeys }) hlay.keys _
  | establishStopped bundle conv pt ad i r err hi henc => exact hlay.keys
  | established bundle conv pt ad i r r' header ct hi henc =>
    exact KeysApart.commitSession (e := (e.openSession d.sessionId r bundle.identityKey conv
      i.shared.ad).withRatchet d.sessionId (e.outboundSession bundle conv i r) r') hlay.keys _ _ _
  | processClosed m conv ad shared r err hans => exact hlay.keys
  | processed m conv ad pt shared r r' hans hreplay hdec =>
    exact KeysApart.commitHandshake (e := e.answered m d.sessionId
      (e.inboundSession m conv shared r) r') hlay.keys _ _ _
  | sealed c sid pt ad s r header ct hc hs henc =>
    exact KeysApart.commitSession (e := e.withRatchet sid s r) hlay.keys _ _ _
  | opened sid m ad pt s r hs hreplay hdec =>
    exact KeysApart.commitSession (e := e.received sid s r m) hlay.keys _ _ _
  | acknowledged remote dev =>
    exact KeysApart.commitDevice (e := e.acknowledged ⟨remote, dev⟩) hlay.keys _
  | forgot sid => exact fun k v hk ↦ hlay.keys k v (PrekeyStore.lookup_of_lookup_erase hk).2
  | cleared =>
    intro k v hk
    cases hk
  | reloadStopped err identity prekeys hi hp => exact hlay.keys
  | reloaded identity prekeys sessions hi hp hs => exact hlay.keys

theorem newDevice_layout (P : Primitives B) (config : DeviceConfig B) (d : DeviceDraws B) :
    (newDevice P config d).Layout where
  keys := by
    refine KeysApart.commitDevice (e := blank P config d) ?_ _
    intro k v hk
    cases hk
  stored sid v hv := by
    rw [newDevice, blob_commitDevice] at hv
    cases hv
  live sid s hs := by cases hs

end Engine

end VoiceChatCrypto
