import VoiceChatCrypto.Engine.Positions
import VoiceChatCrypto.Engine.Profiles
import VoiceChatCrypto.Engine.Reload

/-!
# The life of a session

What can happen to one session while a device goes about its business. A call leaves a session alone,
or moves its ratchet on by exactly one message, or deletes it (`Effect.session`); handshakes, other
sessions, bundles, acknowledgements and reloads are among the calls that leave it alone. So a session
comes through any run that does not use it (`session_isolated`), and once it is deleted nothing brings
it back (`deleted_for_good`).
-/

open Alphabet

namespace VoiceChatCrypto

variable {B : Type} [Alphabet B] {P : Primitives B}

/-! ### Messages of a session -/

/-- The call sealed this message of the session. -/
def Event.Seals (ev : Event B) (sid : SessionId B) (header ct ad pt : List B) : Prop :=
  ((ev.call = .encrypt sid pt ad ∨ ev.call = .encryptVoicePayload sid pt ad) ∧
    ev.outcome = .ok (.sealed ⟨header, ct, sid⟩)) ∨
  ∃ bundle conv packet, ev.call = .establish bundle conv pt ad ∧
    ev.outcome = .ok (.established sid packet) ∧ packet.firstMessage = ⟨header, ct, sid⟩

/-- The call opened this message of the session. -/
def Event.Opens (ev : Event B) (sid : SessionId B) (header ct ad pt : List B) : Prop :=
  (∃ m, ev.call = .decrypt sid m ad ∧ ev.outcome = .ok (.opened pt) ∧ m.header = header ∧
    m.ciphertext = ct) ∨
  ∃ packet conv, ev.call = .processInbound packet conv ad ∧ ev.outcome = .ok (.processed sid pt) ∧
    packet.firstMessage.header = header ∧ packet.firstMessage.ciphertext = ct

/-- The call neither sealed nor opened a message of the session. -/
def Event.Leaves (ev : Event B) (sid : SessionId B) : Prop :=
  ∀ header ct ad pt, ¬ ev.Seals sid header ct ad pt ∧ ¬ ev.Opens sid header ct ad pt

/-- The call deletes the session, or every session. -/
def Call.Deletes (c : Call B) (sid : SessionId B) : Prop :=
  c = .deleteSession sid ∨ c = .deleteAllSessions

/-- **What a call does to a session** that it does not delete: it leaves it alone, seals with it, or
opens with it. -/
inductive SessionStep (P : Primitives B) (ev : Event B) (sid : SessionId B) (s : LiveSession B) :
    LiveSession B → Prop
  | left {s' : LiveSession B} (hev : ev.Leaves sid) (hcore : s'.core = s.core) :
      SessionStep P ev sid s s'
  | sealed {pt ad header ct : List B} {r : LiveRatchet B}
      (hc : ev.call = .encrypt sid pt ad ∨ ev.call = .encryptVoicePayload sid pt ad)
      (hout : ev.outcome = .ok (.sealed ⟨header, ct, sid⟩))
      (henc : s.ratchet.encrypt P ev.draws pt (s.boundAd ad) = .ok ((header, ct), r)) :
      SessionStep P ev sid s { s with ratchet := r }
  | opened {m : SealedMessage B} {ad pt : List B} {r : LiveRatchet B} (hc : ev.call = .decrypt sid m ad)
      (hout : ev.outcome = .ok (.opened pt))
      (hdec : s.ratchet.decrypt P ev.draws m.header m.ciphertext (s.boundAd ad) = .ok (pt, r)) :
      SessionStep P ev sid s { s with ratchet := r }

namespace Engine

variable {e e' : Engine B} {d : Draws B} {c : Call B} {sid : SessionId B} {s : LiveSession B}
  {out : Except CryptoError (Output B)}

/-- A call that fails leaves every session alone. -/
theorem leaves_of_error {err : CryptoError} : Event.Leaves ⟨e, c, d, .error err⟩ sid := by
  intro header ct ad pt
  refine ⟨?_, ?_⟩
  · rintro (⟨-, hout⟩ | ⟨bundle, conv, packet, -, hout, -⟩)
    · cases hout
    · cases hout
  · rintro (⟨m, -, hout, -⟩ | ⟨packet, conv, -, hout, -⟩)
    · cases hout
    · cases hout

/-- So does a call that is not about messages. -/
theorem leaves_of_ok {o : Output B} (hsealed : ∀ m, o ≠ .sealed m) (hopened : ∀ pt, o ≠ .opened pt)
    (hestablished : ∀ packet, o ≠ .established sid packet) (hprocessed : ∀ pt, o ≠ .processed sid pt) :
    Event.Leaves ⟨e, c, d, .ok o⟩ sid := by
  intro header ct ad pt
  refine ⟨?_, ?_⟩
  · rintro (⟨-, hout⟩ | ⟨bundle, conv, packet, -, hout, -⟩)
    · exact hsealed _ (Except.ok.inj hout)
    · exact hestablished _ (Except.ok.inj hout)
  · rintro (⟨m, -, hout, -⟩ | ⟨packet, conv, -, hout, -⟩)
    · exact hopened _ (Except.ok.inj hout)
    · exact hprocessed _ (Except.ok.inj hout)

/-- A call that returns nothing leaves no session behind. -/
theorem leaves_of_done : Event.Leaves ⟨e, c, d, .ok .done⟩ sid :=
  leaves_of_ok (by simp) (by simp) (by simp) (by simp)

/-- The session that a mirrored engine finds in storage is the one in memory. -/
theorem Mirror.restored_core (hm : e.Mirror) (hs : e.sessions.lookup sid = some s)
    {mem : Option (LiveSession B)} (h : e.Restored sid mem) :
    ∃ s', mem = some s' ∧ s'.core = s.core := by
  rcases hm.slots sid with ⟨hnone, -⟩ | ⟨τ, t, hsome, hblob'⟩
  · rw [hnone] at hs
    cases hs
  rw [hsome] at hs
  cases hs
  rcases h with ⟨-, hblob⟩ | ⟨σ, t', s', rfl, hcore, ht', hblob⟩
  · rw [hblob] at hblob'
    cases hblob'
  · rw [hblob] at hblob'
    refine ⟨s', rfl, hcore.trans ?_⟩
    exact LiveSession.core_eq_of_encode_eq ht' (hm.layout.live sid s hsome) (Option.some.inj hblob')

theorem Mirror.call_crashReload (hm : e.Mirror) (d : Draws B) :
    (e.call P d .crashReload).1 = .ok .done := by
  obtain ⟨sessions, heq, -⟩ := hm.simulateCrashReload d
  rw [call, heq]
  rfl

/-- **A session that is there** is left alone, or moves on by one message. -/
theorem Effect.session (h : Effect P d e c out e') (hm : e.Mirror) (hs : e.sessions.lookup sid = some s)
    (hsid : sid ≠ d.sessionId) (hkeep : ¬ c.Deletes sid) :
    ∃ s', e'.sessions.lookup sid = some s' ∧ SessionStep P ⟨e, c, d, out⟩ sid s s' := by
  cases h with
  | refused c err => exact ⟨s, hs, .left leaves_of_error rfl⟩
  | replenishStopped n err prekeys h => exact ⟨s, hs, .left leaves_of_error rfl⟩
  | replenished n prekeys h =>
    exact ⟨s, hs, .left (leaves_of_ok (by simp) (by simp) (by simp) (by simp)) rfl⟩
  | establishStopped bundle conv pt ad i r err hi henc =>
    exact ⟨s, (Finmap.lookup_insert_of_ne _ hsid).trans hs, .left leaves_of_error rfl⟩
  | established bundle conv pt ad i r r' header ct hi henc =>
    refine ⟨s, ?_, .left (leaves_of_ok (by simp) (by simp) ?_ (by simp)) rfl⟩
    · exact (Finmap.lookup_insert_of_ne _ hsid).trans ((Finmap.lookup_insert_of_ne _ hsid).trans hs)
    · intro packet h
      exact hsid (Output.established.inj h).1.symm
  | processClosed m conv ad shared r err hans =>
    refine ⟨s, ?_, .left leaves_of_error rfl⟩
    exact (Finmap.lookup_erase_ne hsid).trans ((Finmap.lookup_insert_of_ne _ hsid).trans hs)
  | processed m conv ad pt shared r r' hans hreplay hdec =>
    refine ⟨s, ?_, .left (leaves_of_ok (by simp) (by simp) (by simp) ?_) rfl⟩
    · exact (Finmap.lookup_insert_of_ne _ hsid).trans ((Finmap.lookup_insert_of_ne _ hsid).trans hs)
    · intro pt' h
      exact hsid (Output.processed.inj h).1.symm
  | sealed c sid₀ pt ad s₀ r header ct hc hs₀ henc =>
    by_cases hsame : sid = sid₀
    · subst hsame
      rw [hs] at hs₀
      cases hs₀
      exact ⟨_, Finmap.lookup_insert _, .sealed hc rfl henc⟩
    · refine ⟨s, (Finmap.lookup_insert_of_ne _ hsame).trans hs, .left ?_ rfl⟩
      intro header' ct' ad' pt'
      refine ⟨?_, ?_⟩
      · rintro (⟨-, hout⟩ | ⟨bundle, conv, packet, -, hout, -⟩)
        · cases hout
          exact hsame rfl
        · cases hout
      · rintro (⟨m, -, hout, -⟩ | ⟨packet, conv, -, hout, -⟩)
        · cases hout
        · cases hout
  | opened sid₀ m ad pt s₀ r hs₀ hreplay hdec =>
    by_cases hsame : sid = sid₀
    · subst hsame
      rw [hs] at hs₀
      cases hs₀
      exact ⟨_, Finmap.lookup_insert _, .opened rfl rfl hdec⟩
    · refine ⟨s, (Finmap.lookup_insert_of_ne _ hsame).trans hs, .left ?_ rfl⟩
      intro header' ct' ad' pt'
      refine ⟨?_, ?_⟩
      · rintro (⟨-, hout⟩ | ⟨bundle, conv, packet, -, hout, -⟩)
        · cases hout
        · cases hout
      · rintro (⟨m', hc', -⟩ | ⟨packet, conv, -, hout, -⟩)
        · cases hc'
          exact hsame rfl
        · cases hout
  | acknowledged remote dev =>
    obtain ⟨s', hs', hcore⟩ : ∃ s', (e.acknowledged ⟨remote, dev⟩).sessions.lookup sid = some s' ∧
        s'.core = s.core := by
      refine ⟨_, (Dict.lookup_mapValues _ _ _).trans (by rw [hs, Option.map_some]), ?_⟩
      show LiveSession.core (if _ then _ else _) = s.core
      split <;> rfl
    exact ⟨s', hs', .left leaves_of_done hcore⟩
  | forgot sid₀ =>
    have hne : sid ≠ sid₀ := fun heq ↦ hkeep (.inl (by rw [heq]))
    exact ⟨s, (Finmap.lookup_erase_ne hne).trans hs, .left leaves_of_done rfl⟩
  | cleared => exact absurd (.inr rfl) hkeep
  | reloadStopped err identity prekeys hi hp => exact ⟨s, hs, .left leaves_of_error rfl⟩
  | reloaded identity prekeys sessions hi hp hsessions =>
    obtain ⟨m, hfold, hslots⟩ := hm.layout.reload d.order
    rw [hsessions] at hfold
    cases hfold
    obtain ⟨s₁, hs₁, hcore₁⟩ := hm.restored_core hs (hslots sid)
    refine ⟨_, (Dict.lookup_mapValues _ _ _).trans (by rw [hs₁, Option.map_some]),
      .left leaves_of_done ?_⟩
    exact hcore₁

/-- A session is not held out of nothing: it was there, or its id was drawn. -/
theorem SlotStep.held {mem : Option (LiveSession B)} {blob' : Option (List B)}
    (h : SlotStep P d e c sid mem blob') {t : LiveSession B}
    (ht : mem = some t ∨ ∃ σ : Enumeration, t.Storable ∧ blob' = some (t.encode σ sid)) :
    (∃ s, e.Held sid s) ∨ sid = d.sessionId := by
  -- the blob was there before
  have hstored : (∃ σ : Enumeration, t.Storable ∧ e.blob sid = some (t.encode σ sid)) →
      ∃ s, e.Held sid s := fun h ↦ ⟨t, .inr h⟩
  cases h with
  | kept mem h =>
    rcases ht with rfl | ht
    · obtain ⟨s, hs, -⟩ := Option.map_eq_some_iff.1 h.symm
      exact .inl ⟨s, .inl hs⟩
    · exact .inl (hstored ht)
  | written σ s hmade =>
    cases hmade with
    | outbound bundle conv pt ad i r r' header ct hc hi henc => exact .inr rfl
    | inbound m conv ad pt shared r r' hc hans hdec => exact .inr rfl
    | sealed sid pt ad s r header ct hc hs henc => exact .inl ⟨s, .inl hs⟩
    | opened sid m ad pt s r hc hs hdec => exact .inl ⟨s, .inl hs⟩
  | unsent bundle conv pt ad i r err hsid hc hi henc => exact .inr hsid
  | closed hsid => exact .inr hsid
  | erased =>
    rcases ht with ht | ⟨σ, -, ht⟩
    · cases ht
    · cases ht
  | restored mem h =>
    rcases ht with rfl | ht
    · rcases h with ⟨hnone, -⟩ | ⟨σ, s, s', -, -, hs, hblob⟩
      · cases hnone
      · exact .inl ⟨s, .inr ⟨σ, hs, hblob⟩⟩
    · exact .inl (hstored ht)

/-- Nothing is left of a session that was deleted. -/
theorem not_held_of_deletes (hidle : e.storage.staged = none) (hdel : c.Deletes sid)
    (hok : (e.call P d c).1 = .ok .done) (s : LiveSession B) : ¬ (e.call P d c).2.Held sid s := by
  have hempty : ∀ {f : Engine B}, f.sessions.lookup sid = none → f.blob sid = none → ¬ f.Held sid s := by
    rintro f hmem hblob (hs | ⟨σ, -, hs⟩)
    · rw [hmem] at hs
      cases hs
    · rw [hblob] at hs
      cases hs
  rcases hdel with rfl | rfl
  · rcases deleteSession_cases hidle sid d with ⟨err, heq⟩ | heq
    · rw [call, heq] at hok
      cases hok
    · rw [call, heq]
      exact hempty (f := e.forgot sid) (Finmap.lookup_erase _ _) (Finmap.lookup_erase _ _)
  · exact hempty (Finmap.lookup_empty _) (Finmap.lookup_empty _)

end Engine

/-! ### Runs -/

/-- A call of a run that does not use the session: it seals and opens no message of it and does not
delete it. Calls that name the session and fail are among them. -/
def Bypasses (P : Primitives B) (sid : SessionId B) (r r' : Run B) : Prop :=
  ∃ c d, Engine.Regular P r c d ∧ ¬ c.Deletes sid ∧
    Event.Leaves ⟨r.engine, c, d, (r.engine.call P d c).1⟩ sid ∧ r' = r.extend P d c

/-- What a session seals depends on the session alone. -/
theorem Engine.encrypt_eq_of_core {e e' : Engine B} (he : e.storage.staged = none)
    (he' : e'.storage.staged = none) {sid : SessionId B} {s s' : LiveSession B}
    (hs : e.sessions.lookup sid = some s) (hs' : e'.sessions.lookup sid = some s')
    (hcore : s'.core = s.core) (pt ad : List B) (d : Draws B) :
    (e'.encrypt P sid pt ad d).1 = (e.encrypt P sid pt ad d).1 := by
  have hratchet : s'.ratchet = s.ratchet := LiveSession.ratchet_eq_of_core_eq hcore
  have hbound : s'.boundAd ad = s.boundAd ad := by
    show s'.core.boundAd ad = s.core.boundAd ad
    rw [hcore]
  rcases encrypt_cases (P := P) he sid pt ad d with ⟨err, heq, hnone | ⟨t, ht, henc⟩⟩ |
    ⟨t, header, ct, r, ht, henc, heq⟩
  · rw [hnone] at hs
    cases hs
  · rw [hs] at ht
    cases ht
    rcases encrypt_cases (P := P) he' sid pt ad d with ⟨err', heq', hnone | ⟨t, ht, henc'⟩⟩ |
      ⟨t, header, ct, r, ht, henc', heq'⟩
    · rw [hnone] at hs'
      cases hs'
    · rw [hs'] at ht
      cases ht
      rw [hratchet, hbound, henc] at henc'
      cases henc'
      rw [heq, heq']
    · rw [hs'] at ht
      cases ht
      rw [hratchet, hbound, henc] at henc'
      cases henc'
  · rw [hs] at ht
    cases ht
    rcases encrypt_cases (P := P) he' sid pt ad d with ⟨err', heq', hnone | ⟨t, ht, henc'⟩⟩ |
      ⟨t, header', ct', r', ht, henc', heq'⟩
    · rw [hnone] at hs'
      cases hs'
    · rw [hs'] at ht
      cases ht
      rw [hratchet, hbound, henc] at henc'
      cases henc'
    · rw [hs'] at ht
      cases ht
      rw [hratchet, hbound, henc] at henc'
      cases henc'
      rw [heq, heq']

/-- **Sessions are isolated.** A session comes unchanged through any number of calls that do not use it
— handshakes, messages of other sessions, failures, deletions of other sessions, reloads from storage —
in memory and in storage, and what it seals next is what it would have sealed before. -/
theorem session_isolated (hseal : SealTotal P) {r r' : Run B} {sid : SessionId B} {s : LiveSession B}
    (hr : (device P (Engine.Regular P)).Reachable r) (hs : r.engine.sessions.lookup sid = some s)
    (hrun : Relation.ReflTransGen (Bypasses P sid) r r') :
    (∃ s', r'.engine.sessions.lookup sid = some s' ∧ s'.core = s.core ∧
      ∃ σ, r'.engine.blob sid = some (s.encode σ sid)) ∧
    ∀ pt ad d, (r'.engine.encrypt P sid pt ad d).1 = (r.engine.encrypt P sid pt ad d).1 := by
  obtain ⟨hr', s', hs', hcore⟩ : (device P (Engine.Regular P)).Reachable r' ∧
      ∃ s', r'.engine.sessions.lookup sid = some s' ∧ s'.core = s.core := by
    induction hrun with
    | refl => exact ⟨hr, s, hs, rfl⟩
    | tail hrun hstep ih =>
      obtain ⟨hr₁, s₁, hs₁, hcore₁⟩ := ih
      obtain ⟨c, d, hreg, hkeep, hleaves, rfl⟩ := hstep
      have hsid : sid ≠ d.sessionId := by
        rintro rfl
        rw [hreg.fresh] at hs₁
        cases hs₁
      obtain ⟨s₂, hs₂, hstep⟩ := (Engine.call_effect (P := P) (device_idle hr₁) d c).session
        (Engine.mirror hseal hr₁) hs₁ hsid hkeep
      refine ⟨reachable_extend hr₁ hreg, s₂, hs₂, ?_⟩
      cases hstep with
      | left hev hcore₂ => exact hcore₂.trans hcore₁
      | sealed hc hout henc => exact absurd (.inl ⟨hc, hout⟩) (hleaves _ _ _ _).1
      | opened hc hout hdec => exact absurd (.inl ⟨_, hc, hout, rfl, rfl⟩) (hleaves _ _ _ _).2
  refine ⟨⟨s', hs', hcore, ?_⟩,
    Engine.encrypt_eq_of_core (device_idle hr) (device_idle hr') hs hs' hcore⟩
  rcases (Engine.mirror hseal hr').slots sid with ⟨hnone, -⟩ | ⟨σ, t, ht, hblob⟩
  · rw [hnone] at hs'
    cases hs'
  · rw [ht] at hs'
    cases hs'
    exact ⟨σ, by rw [hblob, LiveSession.encode_eq_of_core_eq hcore]⟩

open Symbolic in
/-- Device 2 has answered a packet and reloads: the session is the one it was. -/
theorem session_isolated_reload :
    ∃ s, (answered .classicalV1).engine.sessions.lookup (Symbolic.draws 3).sessionId = some s ∧
      ∃ s', ((answered .classicalV1).extend symbolic (Symbolic.draws 4)
        .crashReload).engine.sessions.lookup (Symbolic.draws 3).sessionId = some s' ∧
        s'.core = s.core := by
  have hlive : ((answered .classicalV1).engine.sessions.lookup (Symbolic.draws 3).sessionId).isSome := by
    decide +kernel
  obtain ⟨s, hs⟩ := Option.isSome_iff_exists.1 hlive
  have hreg : Engine.Regular symbolic (answered .classicalV1) .crashReload (Symbolic.draws 4) :=
    { fits := trivial
      deviceId := by decide +kernel
      inbound := by
        intro m conv ad h
        cases h
      message := by
        intro sid m ad h
        cases h
      fresh := by decide +kernel
      replenish := by
        intro n h
        cases h }
  have hleaves : Event.Leaves ⟨(answered .classicalV1).engine, .crashReload, Symbolic.draws 4,
      ((answered .classicalV1).engine.call symbolic (Symbolic.draws 4) .crashReload).1⟩
        (Symbolic.draws 3).sessionId := by
    rw [(Engine.mirror Symbolic.sealTotal (Symbolic.reachable_answered .classicalV1)).call_crashReload]
    exact Engine.leaves_of_done
  have hkeep : ¬ (Call.crashReload : Call Sym).Deletes (Symbolic.draws 3).sessionId := by
    rintro (h | h)
    · cases h
    · cases h
  obtain ⟨⟨s', hs', hcore, -⟩, -⟩ := session_isolated Symbolic.sealTotal
    (Symbolic.reachable_answered .classicalV1) hs (.single ⟨_, _, hreg, hkeep, hleaves, rfl⟩)
  exact ⟨s, hs, s', hs', hcore⟩

/-- **What is deleted stays deleted.** Once a deletion of a session has returned, neither memory nor
storage holds it again, whatever is called and reloaded, until its id is drawn anew, and it seals and
opens nothing. -/
theorem deleted_for_good {r : Run B} (hr : (device P fitting).Reachable r)
    {before since : List (Event B)} {ev : Event B} {sid : SessionId B}
    (hlog : r.log = before ++ ev :: since) (hdel : ev.call.Deletes sid) (hok : ev.outcome = .ok .done)
    (hsince : ∀ ev' ∈ since, ev'.draws.sessionId ≠ sid) :
    (∀ s, ¬ r.engine.Held sid s) ∧
      (∀ pt ad d, (r.engine.encrypt P sid pt ad d).1 = .error .noSession) ∧
      ∀ m ad d, (r.engine.decrypt P sid m ad d).1 = .error .noSession := by
  have hheld : ∀ s, ¬ r.engine.Held sid s := by
    refine System.Reachable.invariant (I := fun r ↦ ∀ before since ev, r.log = before ++ ev :: since →
      ev.call.Deletes sid → ev.outcome = .ok .done → (∀ ev' ∈ since, ev'.draws.sessionId ≠ sid) →
      ∀ s, ¬ r.engine.Held sid s) ?_ ?_ hr before since ev hlog hdel hok hsince
    · rintro s ⟨hnil, -⟩ before since ev hlog
      rw [hnil] at hlog
      exact absurd hlog.symm (by simp)
    · rintro t t' ht ih ⟨c, d, hfits, rfl⟩ before since ev hlog hdel hok hsince s
      rcases List.eq_nil_or_concat since with rfl | ⟨since, last, rfl⟩
      · -- this call has deleted it
        obtain ⟨-, hlast⟩ := List.append_inj' hlog rfl
        cases hlast
        exact Engine.not_held_of_deletes (device_idle ht) hdel hok s
      · rw [List.concat_eq_append, ← List.cons_append, ← List.append_assoc] at hlog
        obtain ⟨hold, hlast⟩ := List.append_inj' hlog rfl
        obtain rfl := List.singleton_inj.1 hlast
        intro hs
        have heffect := Engine.call_effect (P := P) (device_idle ht) d c
        rcases (heffect.slot (device_pure (P := P) ht).layout sid).held hs with ⟨s₀, hs₀⟩ | hsid
        · exact ih before since ev hold hdel hok
            (fun ev' hev' ↦ hsince ev' (by simp [hev'])) s₀ hs₀
        · exact hsince ⟨t.engine, c, d, (t.engine.call P d c).1⟩ (by simp) hsid.symm
  have hnone : r.engine.sessions.lookup sid = none := by
    cases hs : r.engine.sessions.lookup sid with
    | none => rfl
    | some s => exact absurd (.inl hs) (hheld s)
  refine ⟨hheld, ?_, ?_⟩
  · intro pt ad d
    simp only [Engine.encrypt, hnone]
  · intro m ad d
    simp only [Engine.decrypt, Engine.applyDecrypt, hnone]

theorem Run.log_extend_extend (r : Run B) (d d' : Draws B) (c c' : Call B) :
    ((r.extend P d c).extend P d' c').log = r.log ++ ⟨r.engine, c, d, (r.engine.call P d c).1⟩ ::
      [⟨(r.extend P d c).engine, c', d', ((r.extend P d c).engine.call P d' c').1⟩] :=
  List.append_assoc _ _ _

open Symbolic in
/-- Device 2 has answered a packet, deletes the session and reloads. -/
theorem deleted_for_good_reload :
    ((((answered .classicalV1).extend symbolic (Symbolic.draws 4)
      (.deleteSession (Symbolic.draws 3).sessionId)).extend symbolic (Symbolic.draws 5)
        .crashReload).engine.encrypt symbolic (Symbolic.draws 3).sessionId [] []
          (Symbolic.draws 6)).1 = .error .noSession := by
  have hanswered : (device symbolic fitting).Reachable (answered .classicalV1) := by
    refine reachable_extend (reachable_newDevice symbolic fitting ⟨[], .classicalV1⟩ (deviceDraws 2)) ?_
    show ([] : List Sym).length < 2 ^ 32
    decide
  have hdeleted : ((answered .classicalV1).engine.call symbolic (Symbolic.draws 4)
      (.deleteSession (Symbolic.draws 3).sessionId)).1 = .ok .done := by
    decide +kernel
  have hother : (Symbolic.draws 5).sessionId ≠ (Symbolic.draws 3).sessionId := by decide +kernel
  generalize answered .classicalV1 = r at hanswered hdeleted ⊢
  generalize (Symbolic.draws 3).sessionId = sid at hdeleted hother ⊢
  have hrun : (device symbolic fitting).Reachable ((r.extend symbolic (Symbolic.draws 4)
      (.deleteSession sid)).extend symbolic (Symbolic.draws 5) .crashReload) := by
    refine reachable_extend (reachable_extend hanswered ?_) ?_
    · exact trivial
    · exact trivial
  refine (deleted_for_good hrun (Run.log_extend_extend r _ _ _ _) (.inl rfl) hdeleted ?_).2.1 [] []
    (Symbolic.draws 6)
  intro ev hev
  rw [List.mem_singleton.1 hev]
  exact hother

end VoiceChatCrypto
