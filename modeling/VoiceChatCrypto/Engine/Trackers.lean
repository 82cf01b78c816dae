import VoiceChatCrypto.Engine.Contacts

/-!
# Identity trackers

Each session carries a copy of what the trust store says about its contact. The copy is taken when the
session is opened and again at every reload, and an acknowledgement updates the store and the copies
together.

The update goes too far. It selects the sessions of the acknowledged contact, and also every session
whose tracker sees the acknowledged identity as a change. That is the case for each session of another
contact that was verified earlier: its tracker is overwritten with the identity of a stranger.
-/

open Alphabet

namespace VoiceChatCrypto

variable {B : Type} [Alphabet B] {P : Primitives B}

namespace Engine

variable {e e' : Engine B} {d : Draws B} {c : Call B}

/-- **Trackers agree with the trust store**: each live session reports of its contact what the store
does. -/
def Aligned (e : Engine B) : Prop :=
  ∀ sid s, e.sessions.lookup sid = some s → s.identityTracker = e.trust.trackerFor s.remoteIdentity

/-- No live session of another contact is verified. An acknowledgement then touches the sessions of
its own contact only. -/
def Sole (k : Block B 32) (e : Engine B) : Prop :=
  ∀ sid s, e.sessions.lookup sid = some s → s.remoteIdentity ≠ k →
    s.identityTracker.acknowledged = none

/-- Every acknowledgement is made when no live session of another contact is verified. -/
def soleAcknowledged : Run B → Call B → Draws B → Prop :=
  fun r c _ ↦ ∀ k dev, c = .acknowledge k dev → k ≠ Block.zero 32 → r.engine.Sole k

/-- An engine with fewer sessions, or with others that agree with the store. -/
theorem Aligned.of_lookup (h : e.Aligned)
    (htrust : ∀ k, e'.trust.trackerFor k = e.trust.trackerFor k)
    (hsessions : ∀ sid s, e'.sessions.lookup sid = some s →
      e.sessions.lookup sid = some s ∨
        s.identityTracker = e.trust.trackerFor s.remoteIdentity) : e'.Aligned := by
  intro sid s hs
  rw [htrust]
  rcases hsessions sid s hs with hold | hnew
  · exact h sid s hold
  · exact hnew

/-- A session that is inserted under some id is new, and the others are as before. -/
theorem lookup_insert_cases {sessions : Dict (SessionId B) (LiveSession B)} {sid sid' : SessionId B}
    {s s' : LiveSession B} (h : (sessions.insert sid s).lookup sid' = some s') :
    s' = s ∨ sessions.lookup sid' = some s' := by
  by_cases hsid : sid' = sid
  · subst hsid
    rw [Finmap.lookup_insert] at h
    exact .inl (Option.some.inj h).symm
  · rw [Finmap.lookup_insert_of_ne _ hsid] at h
    exact .inr h

/-- Erasing a session leaves the others as they are. -/
theorem lookup_of_lookup_erase {sessions : Dict (SessionId B) (LiveSession B)}
    {sid sid' : SessionId B} {s : LiveSession B} (h : (sessions.erase sid).lookup sid' = some s) :
    sessions.lookup sid' = some s := by
  by_cases hsid : sid' = sid
  · subst hsid
    rw [Finmap.lookup_erase] at h
    cases h
  · rwa [Finmap.lookup_erase_ne hsid] at h

/-- Moving a ratchet on keeps the trackers. -/
theorem Aligned.withRatchet (h : e.Aligned) {sid : SessionId B} {s : LiveSession B}
    (hs : e.sessions.lookup sid = some s) (r : LiveRatchet B)
    (htrust : e'.trust = e.trust) (hsessions : e'.sessions = (e.withRatchet sid s r).sessions) :
    e'.Aligned := by
  refine h.of_lookup (fun k ↦ by rw [htrust]) fun sid' s' hs' ↦ ?_
  rw [hsessions] at hs'
  rcases lookup_insert_cases hs' with rfl | hold
  · exact .inr (h sid s hs)
  · exact .inl hold

/-- Opening a session takes the tracker from the store. -/
theorem Aligned.openSession (h : e.Aligned) (sid : SessionId B) (r : LiveRatchet B)
    (remote : Block B 32) (conv ad : List B) : (e.openSession sid r remote conv ad).Aligned := by
  refine h.of_lookup (fun k ↦ TrustStore.trackerFor_recordSeen) fun sid' s' hs' ↦ ?_
  rcases lookup_insert_cases hs' with rfl | hold
  · exact .inr TrustStore.trackerFor_recordSeen
  · exact .inl hold

/-- **Acknowledging the only verified contact** updates its sessions and leaves the others alone. -/
theorem Sole.lookup_acknowledged {k : Block B 32} (h : e.Sole k) (dev : Option (List B))
    {sid : SessionId B} {s : LiveSession B} (hs : e.sessions.lookup sid = some s) :
    (e.acknowledged ⟨k, dev⟩).sessions.lookup sid = some (if s.remoteIdentity = k
      then { s with identityTracker := { acknowledged := some ⟨k, dev⟩ } } else s) := by
  rw [acknowledged, Dict.lookup_mapValues, hs, Option.map_some]
  congr 1
  by_cases hk : s.remoteIdentity = k
  · rw [if_pos (.inl hk), if_pos hk]
    rfl
  · have hnone := h sid s hs hk
    have hunchanged : ¬ (s.identityTracker.observe ⟨k, dev⟩).isChanged = true := by
      unfold IdentityTracker.observe
      rw [hnone]
      simp [IdentityState.isChanged]
    rw [if_neg (not_or.2 ⟨hk, hunchanged⟩), if_neg hk]

/-- **An acknowledgement keeps trackers aligned** when the sessions with the contact hold nothing of
another one. -/
theorem Aligned.acknowledged (h : e.Aligned) {k : Block B 32} (hsole : e.Sole k)
    (dev : Option (List B)) : (e.acknowledged ⟨k, dev⟩).Aligned := by
  intro sid s' hs'
  have hlive : ∃ s, e.sessions.lookup sid = some s := by
    rw [Engine.acknowledged, Dict.lookup_mapValues] at hs'
    obtain ⟨s, hs, -⟩ := Option.map_eq_some_iff.1 hs'
    exact ⟨s, hs⟩
  obtain ⟨s, hs⟩ := hlive
  rw [hsole.lookup_acknowledged dev hs] at hs'
  cases hs'
  by_cases hk : s.remoteIdentity = k
  · subst hk
    rw [if_pos rfl]
    exact (TrustStore.trackerFor_acknowledge_self (m := ⟨s.remoteIdentity, dev⟩)).symm
  · rw [if_neg hk]
    exact (h sid s hs).trans
      (TrustStore.trackerFor_acknowledge_of_ne (m := ⟨k, dev⟩) hk).symm

/-- **One call keeps the trackers aligned.** -/
theorem Effect.aligned {out : Except CryptoError (Output B)} (h : Effect P d e c out e')
    (hsole : ∀ k dev, c = .acknowledge k dev → out = .ok .done → e.Sole k) (ha : e.Aligned) :
    e'.Aligned := by
  cases h with
  | refused c err => exact ha
  | replenishStopped n err prekeys h => exact ha
  | replenished n prekeys h => exact ha
  | establishStopped bundle conv pt ad i r err hi henc => exact ha.openSession _ _ _ _ _
  | established bundle conv pt ad i r r' header ct hi henc =>
    exact (ha.openSession d.sessionId r bundle.identityKey conv i.shared.ad).withRatchet
      (s := e.outboundSession bundle conv i r) (Finmap.lookup_insert _) r' rfl rfl
  | processClosed m conv ad shared r err hans =>
    have hopen := ha.openSession d.sessionId r m.senderIdentityPublic conv shared.ad
    exact hopen.of_lookup (fun _ ↦ rfl) fun _ _ hs' ↦ .inl (lookup_of_lookup_erase hs')
  | processed m conv ad pt shared r r' hans hreplay hdec =>
    exact (ha.openSession d.sessionId r m.senderIdentityPublic conv shared.ad).withRatchet
      (s := e.inboundSession m conv shared r) (Finmap.lookup_insert _) r' rfl rfl
  | sealed c sid pt ad s r header ct hc hs henc => exact ha.withRatchet hs r rfl rfl
  | opened sid m ad pt s r hs hreplay hdec => exact ha.withRatchet hs r rfl rfl
  | acknowledged remote dev => exact ha.acknowledged (hsole remote dev rfl rfl) dev
  | forgot sid =>
    exact ha.of_lookup (fun _ ↦ rfl) fun _ _ hs' ↦ .inl (lookup_of_lookup_erase hs')
  | cleared => exact fun sid s hs ↦ by cases hs
  | reloadStopped err identity prekeys hi hp => exact ha
  | reloaded identity prekeys sessions hi hp hs =>
    intro sid s hs'
    rw [reloadAux, Dict.lookup_mapValues] at hs'
    obtain ⟨s', -, rfl⟩ := Option.map_eq_some_iff.1 hs'
    rfl

/-- An acknowledgement is written to every session with its contact. -/
theorem lookup_acknowledged_of_remote {k : Block B 32} {sid : SessionId B} {s : LiveSession B}
    (hs : e.sessions.lookup sid = some s) (hk : s.remoteIdentity = k) (dev : Option (List B)) :
    (e.acknowledged ⟨k, dev⟩).sessions.lookup sid =
      some { s with identityTracker := { acknowledged := some ⟨k, dev⟩ } } := by
  rw [acknowledged, Dict.lookup_mapValues, hs, Option.map_some, if_pos (.inl hk)]
  rfl

/-- **Acknowledging overwrites a verified session of another contact**: the loop also takes every
session whose tracker sees the new identity as a change, and a verified one always does. -/
theorem lookup_acknowledged_of_verified {k : Block B 32} {m : IdentityMaterial B}
    {sid : SessionId B} {s : LiveSession B} (hs : e.sessions.lookup sid = some s)
    (hm : s.identityTracker.acknowledged = some m) (hk : m.identityKey ≠ k) (dev : Option (List B)) :
    (e.acknowledged ⟨k, dev⟩).sessions.lookup sid =
      some { s with identityTracker := { acknowledged := some ⟨k, dev⟩ } } := by
  have hchanged : (s.identityTracker.observe ⟨k, dev⟩).isChanged = true :=
    IdentityTracker.isChanged_observe hm fun heq ↦ hk (congrArg IdentityMaterial.identityKey heq)
  rw [acknowledged, Dict.lookup_mapValues, hs, Option.map_some, if_pos (.inr hchanged)]
  rfl

end Engine

/-- **Acknowledging one contact does not touch another.** In every run that acknowledges a contact only
when no live session of another is verified, the tracker of each session is what the trust store says
about its contact, and an acknowledgement leaves the sessions of other contacts alone. -/
theorem trackers_aligned {r : Run B} (hr : (device P Engine.soleAcknowledged).Reachable r) :
    r.engine.Aligned ∧ ∀ k dev d, Engine.soleAcknowledged r (.acknowledge k dev) d →
      ∀ sid s, r.engine.sessions.lookup sid = some s → s.remoteIdentity ≠ k →
        (r.engine.call P d (.acknowledge k dev)).2.sessions.lookup sid = some s := by
  refine ⟨?_, ?_⟩
  · refine System.Reachable.invariant (I := fun r ↦ r.engine.Aligned) ?_ ?_ hr
    · intro s hs
      obtain ⟨config, d, rfl⟩ := eq_newDevice_of_start hs
      exact fun sid s hs ↦ by cases hs
    · rintro s t hs ha ⟨c, d, hallow, rfl⟩
      refine (Engine.call_effect (P := P) (device_idle hs) d c).aligned ?_ ha
      intro k dev hc hout
      refine hallow k dev hc fun hzero ↦ ?_
      rw [hc, hzero, Engine.acknowledge_zero] at hout
      cases hout
  · intro k dev d hallow sid s hs hk
    by_cases hzero : k = Block.zero 32
    · rw [hzero, Engine.acknowledge_zero]
      exact hs
    · rw [Engine.acknowledge_of_ne (device_idle hr) hzero]
      show (r.engine.acknowledged ⟨k, dev⟩).sessions.lookup sid = some s
      rw [(hallow k dev rfl hzero).lookup_acknowledged dev hs, if_neg hk]

namespace Symbolic

/-- Device 2 after it has received the packet of device 1 and the user has acknowledged device 1. -/
noncomputable def verified : Run Sym :=
  (Symbolic.answered .classicalV1).extend symbolic (Symbolic.draws 4)
    (.acknowledge (packet .classicalV1).senderIdentityPublic none)

/-- The same after the user has acknowledged another contact. -/
noncomputable def overwritten : Run Sym :=
  verified.extend symbolic (Symbolic.draws 5) (.acknowledge contact none)

/-- The answering device of the example has acknowledged nobody. -/
theorem session_answered : ∃ s, (Symbolic.answered .classicalV1).engine.sessions.lookup
      (secretOf 15 136) = some s ∧
    s.remoteIdentity = (packet .classicalV1).senderIdentityPublic ∧
    s.identityTracker.acknowledged = none := by
  have hsession : ((Symbolic.answered .classicalV1).engine.sessions.lookup (secretOf 15 136)).map
      (fun s ↦ (s.remoteIdentity, s.identityTracker.acknowledged)) =
        some ((packet .classicalV1).senderIdentityPublic, none) := by
    decide +kernel
  obtain ⟨s, hs, heq⟩ := Option.map_eq_some_iff.1 hsession
  obtain ⟨hremote, htracker⟩ := Prod.mk.inj heq
  exact ⟨s, hs, hremote, htracker⟩

end Symbolic

open Symbolic in
/-- Device 2 acknowledges a contact while its session with device 1 is not verified. -/
theorem trackers_aligned_answered : ∃ s,
    (Symbolic.answered .classicalV1).engine.sessions.lookup (secretOf 15 136) = some s ∧
      s.remoteIdentity ≠ contact ∧
      ((Symbolic.answered .classicalV1).engine.call symbolic (Symbolic.draws 4)
        (.acknowledge contact none)).2.sessions.lookup (secretOf 15 136) = some s := by
  have hreach : (device symbolic Engine.soleAcknowledged).Reachable
      (Symbolic.answered .classicalV1) :=
    reachable_extend (reachable_newDevice symbolic _ ⟨[], .classicalV1⟩ (deviceDraws 2)) nofun
  have hfollows : (device symbolic storableIds).Reachable (Symbolic.answered .classicalV1) :=
    reachable_extend (reachable_newDevice symbolic _ ⟨[], .classicalV1⟩ (deviceDraws 2)) nofun
  have hsole : ∀ k, (Symbolic.answered .classicalV1).engine.Sole k := by
    intro k sid s hs _
    rw [(trackers_aligned hreach).1 sid s hs, (device_follows hfollows).memory.acknowledged]
    rfl
  have hne : (packet .classicalV1).senderIdentityPublic ≠ contact := by decide +kernel
  obtain ⟨s, hs, hremote, -⟩ := session_answered
  rw [← hremote] at hne
  exact ⟨s, hs, hne, (trackers_aligned hreach).2 contact none (Symbolic.draws 4)
    (fun k _ _ _ ↦ hsole k) (secretOf 15 136) s hs hne⟩

open Symbolic in
/-- **A second acknowledgement overwrites the first.** Device 2 has a session with device 1, which the
user has verified. When the user acknowledges another contact, the tracker of that session is replaced
by the other contact's identity. -/
theorem tracker_overwritten :
    (device symbolic anyCall).Reachable overwritten ∧
      ∃ s s', verified.engine.sessions.lookup (secretOf 15 136) = some s ∧
        overwritten.engine.sessions.lookup (secretOf 15 136) = some s' ∧
        s.remoteIdentity ≠ contact ∧ s'.identityTracker ≠ s.identityTracker ∧
        s'.identityTracker ≠ overwritten.engine.trust.trackerFor s'.remoteIdentity := by
  have hanswered : (device symbolic anyCall).Reachable (Symbolic.answered .classicalV1) :=
    reachable_extend (reachable_newDevice symbolic _ ⟨[], .classicalV1⟩ (deviceDraws 2)) trivial
  have hverified : (device symbolic anyCall).Reachable verified := reachable_extend hanswered trivial
  have hne : (packet .classicalV1).senderIdentityPublic ≠ contact := by decide +kernel
  have hzero : (packet .classicalV1).senderIdentityPublic ≠ Block.zero 32 := by decide +kernel
  obtain ⟨s, hs, hremote, -⟩ := session_answered
  have hfirst : verified.engine = _ := Engine.engine_extend_acknowledge (P := symbolic)
    (device_idle hanswered) hzero none (Symbolic.draws 4)
  have hsecond : overwritten.engine = _ := Engine.engine_extend_acknowledge (P := symbolic)
    (device_idle hverified) contact_ne_zero none (Symbolic.draws 5)
  generalize (packet .classicalV1).senderIdentityPublic = k at hne hzero hremote hfirst
  have hs₁ : verified.engine.sessions.lookup (secretOf 15 136) =
      some { s with identityTracker := { acknowledged := some ⟨k, none⟩ } } := by
    rw [hfirst]
    exact Engine.lookup_acknowledged_of_remote hs hremote none
  have hs₂ : overwritten.engine.sessions.lookup (secretOf 15 136) =
      some { s with identityTracker := { acknowledged := some ⟨contact, none⟩ } } := by
    rw [hsecond]
    exact Engine.lookup_acknowledged_of_verified hs₁ rfl hne none
  have htrust : overwritten.engine.trust.trackerFor k = { acknowledged := some ⟨k, none⟩ } := by
    rw [hsecond]
    refine (TrustStore.trackerFor_acknowledge_of_ne (m := ⟨contact, none⟩) hne).trans ?_
    rw [hfirst]
    exact TrustStore.trackerFor_acknowledge_self (m := ⟨k, none⟩)
  have hdiff : (⟨some ⟨contact, none⟩⟩ : IdentityTracker Sym) ≠ ⟨some ⟨k, none⟩⟩ := by
    intro heq
    simp only [IdentityTracker.mk.injEq, Option.some.injEq, IdentityMaterial.mk.injEq] at heq
    exact hne heq.1.symm
  refine ⟨reachable_extend hverified trivial, _, _, hs₁, hs₂, ?_, hdiff, ?_⟩
  · show s.remoteIdentity ≠ contact
    rw [hremote]
    exact hne
  · show _ ≠ overwritten.engine.trust.trackerFor s.remoteIdentity
    rw [hremote, htrust]
    exact hdiff

end VoiceChatCrypto
