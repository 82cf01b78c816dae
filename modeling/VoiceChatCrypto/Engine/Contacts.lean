import VoiceChatCrypto.Engine.Reload

/-!
# Contacts

What a device remembers of the identities it has met. A contact enters the trust store when a session
with it is opened and becomes verified when the user acknowledges it; both survive a restart through
the blob of the store. `TrustStep` lists what a call can do to the store and to the blob, and `TrustKept`
is the shape of every invariant about them: something that holds of the store in memory and of the
store that the blob was written from.
-/

open Alphabet

namespace VoiceChatCrypto

variable {B : Type} [Alphabet B] {P : Primitives B}

/-! ### Trackers -/

namespace IdentityTracker

/-- **Verified** means acknowledged, key and device id. -/
theorem observe_eq_verified {t : IdentityTracker B} {m : IdentityMaterial B} :
    t.observe m = .verified ↔ t.acknowledged = some m := by
  obtain ⟨a⟩ := t
  cases a with
  | none => simp [observe]
  | some prev =>
    obtain ⟨k, dev⟩ := prev
    obtain ⟨k', dev'⟩ := m
    by_cases hk : k = k' <;> by_cases hdev : dev = dev' <;> simp [observe, hk, hdev]

end IdentityTracker

namespace TrustStore

variable {t : TrustStore B} {k : Block B 32} {m : IdentityMaterial B}

/-- Meeting a contact verifies nobody, and forgets nothing that was verified. -/
theorem trackerFor_recordSeen : (t.recordSeen m).trackerFor k = t.trackerFor k := by
  unfold recordSeen
  cases hm : t.byKey.lookup m.identityKey with
  | some r => rfl
  | none =>
    by_cases hk : k = m.identityKey
    · subst hk
      simp only [trackerFor, Finmap.lookup_insert, hm]
      rfl
    · simp only [trackerFor, Finmap.lookup_insert_of_ne _ hk]

/-- An acknowledgement clears a change, and is remembered. -/
theorem trackerFor_acknowledge_self {unix : UInt64} {method : VerificationMethod} :
    (t.acknowledge m unix method).trackerFor m.identityKey = { acknowledged := some m } := by
  simp only [trackerFor, acknowledge, Finmap.lookup_insert, if_true]

theorem trackerFor_acknowledge_of_ne {unix : UInt64} {method : VerificationMethod}
    (hk : k ≠ m.identityKey) : (t.acknowledge m unix method).trackerFor k = t.trackerFor k := by
  simp only [trackerFor, acknowledge, Finmap.lookup_insert_of_ne _ hk]

/-- What `record_seen` adds. -/
theorem lookup_recordSeen {r : TrustRecord B} (h : (t.recordSeen m).byKey.lookup k = some r) :
    t.byKey.lookup k = some r ∨ k = m.identityKey ∧ r.identity = m := by
  unfold recordSeen at h
  cases hm : t.byKey.lookup m.identityKey with
  | some r' =>
    rw [hm] at h
    exact .inl h
  | none =>
    rw [hm] at h
    dsimp only at h
    by_cases hk : k = m.identityKey
    · subst hk
      rw [Finmap.lookup_insert] at h
      cases h
      exact .inr ⟨rfl, rfl⟩
    · rw [Finmap.lookup_insert_of_ne _ hk] at h
      exact .inl h

theorem recordSeen_of_lookup {r : TrustRecord B} (h : t.byKey.lookup m.identityKey = some r) :
    t.recordSeen m = t := by
  rw [recordSeen, h]

/-- What `acknowledge` adds. -/
theorem lookup_acknowledge {unix : UInt64} {method : VerificationMethod} {r : TrustRecord B}
    (h : (t.acknowledge m unix method).byKey.lookup k = some r) :
    t.byKey.lookup k = some r ∨ k = m.identityKey ∧ r.identity = m := by
  by_cases hk : k = m.identityKey
  · subst hk
    rw [acknowledge, Finmap.lookup_insert] at h
    cases h
    exact .inr ⟨rfl, rfl⟩
  · rw [acknowledge, Finmap.lookup_insert_of_ne _ hk] at h
    exact .inl h

/-- A sound store stays sound with one more record that is. -/
theorem Sound.of_lookup {t' : TrustStore B} (ht : t.Sound) (hne : m.identityKey ≠ Block.zero 32)
    (hdev : (m.deviceId.getD []).length < 2 ^ 16)
    (h : ∀ k r, t'.byKey.lookup k = some r →
      t.byKey.lookup k = some r ∨ k = m.identityKey ∧ r.identity = m) : t'.Sound where
  key k r hr := by
    rcases h k r hr with hold | ⟨rfl, hm⟩
    · exact ht.key k r hold
    · rw [hm]
  valid k r hr := by
    rcases h k r hr with hold | ⟨rfl, -⟩
    · exact ht.valid k r hold
    · exact hne
  deviceId k r hr := by
    rcases h k r hr with hold | ⟨-, hm⟩
    · exact ht.deviceId k r hold
    · rw [hm]
      exact hdev

theorem sound_new : (TrustStore.new : TrustStore B).Sound := by
  constructor <;> intro k r h <;> cases h

/-- Reading a store back keeps it sound. -/
theorem Sound.reload {t' : TrustStore B} (ht : t.Sound)
    (h : t'.byKey = t.byKey.mapValues collapse) : t'.Sound := by
  have hold : ∀ k r, t'.byKey.lookup k = some r →
      ∃ r', t.byKey.lookup k = some r' ∧ collapse r' = r := by
    intro k r hr
    rw [h, Dict.lookup_mapValues] at hr
    exact Option.map_eq_some_iff.1 hr
  constructor
  · intro k r hr
    obtain ⟨r', hr', rfl⟩ := hold k r hr
    exact ht.key k r' hr'
  · intro k r hr
    obtain ⟨r', hr', -⟩ := hold k r hr
    exact ht.valid k r' hr'
  · intro k r hr
    obtain ⟨r', hr', rfl⟩ := hold k r hr
    have hdev := ht.deviceId k r' hr'
    unfold collapse
    dsimp only
    split
    · exact (by decide : 0 < 2 ^ 16)
    · exact hdev

end TrustStore

/-! ### What a call does to the store -/

/-- The contact that a call opens a session with. -/
inductive Call.Meets : Call B → Block B 32 → Prop
  | establish (bundle : PublicPrekeyBundle B) (conv pt ad : List B) :
      Meets (.establish bundle conv pt ad) bundle.identityKey
  | processInbound (m : InitiationPacket B) (conv ad : List B) :
      Meets (.processInbound m conv ad) m.senderIdentityPublic

/-- Any call but a successful acknowledgement: it leaves unchanged what was acknowledged for whom.
-/
def Call.Quiet (c : Call B) (out : Except CryptoError (Output B)) : Prop :=
  ∀ k dev, c = .acknowledge k dev → ∀ o, out ≠ .ok o

omit [Alphabet B] in
theorem Call.Quiet.of_error (c : Call B) (err : CryptoError) : c.Quiet (.error err) := by
  intro k dev _ o h
  cases h

omit [Alphabet B] in
/-- A call that meets a contact acknowledges nobody. -/
theorem Call.Meets.quiet {c : Call B} {k : Block B 32} (h : c.Meets k)
    (out : Except CryptoError (Output B)) : c.Quiet out := by
  intro k' dev hc
  subst hc
  cases h

namespace Engine

variable {e e' : Engine B} {d : Draws B} {c : Call B} {out : Except CryptoError (Output B)}

/-- The blob of the trust store. -/
def trustBlob (e : Engine B) : Option (List B) := e.storage.committed.lookup keyTrust

/-- **What a call can do** to the trust store and to its blob. Everything about contacts is derived
from this list. -/
inductive TrustStep (P : Primitives B) (d : Draws B) (e : Engine B) :
    Call B → Except CryptoError (Output B) → TrustStore B → Option (List B) → Prop
  /-- Neither is touched. -/
  | kept (c : Call B) (out : Except CryptoError (Output B)) (hquiet : c.Quiet out) :
      TrustStep P d e c out e.trust e.trustBlob
  /-- The store is committed as it is. -/
  | saved (c : Call B) (out : Except CryptoError (Output B)) (σ : Enumeration)
      (hquiet : c.Quiet out) :
      TrustStep P d e c out e.trust (some (e.trust.serialize σ))
  /-- A session was opened. -/
  | met (c : Call B) (o : Output B) (k : Block B 32) (σ : Enumeration) (hk : c.Meets k)
      (hne : k ≠ Block.zero 32) :
      TrustStep P d e c (.ok o) (e.trust.recordSeen ⟨k, none⟩)
        (some ((e.trust.recordSeen ⟨k, none⟩).serialize σ))
  /-- The first message of a new session could not be sealed: the contact is not committed. -/
  | unsent (bundle : PublicPrekeyBundle B) (conv pt ad : List B) (i : AliceInitiation B)
      (r : LiveRatchet B) (err : CryptoError) (hi : e.initiate P bundle d = .ok (i, r))
      (henc : r.encrypt P d pt ((e.outboundSession bundle conv i r).boundAd ad) = .error err) :
      TrustStep P d e (.establish bundle conv pt ad) (.error err)
        (e.trust.recordSeen ⟨bundle.identityKey, none⟩) e.trustBlob
  /-- The first message of a packet could not be opened: the contact is not committed. -/
  | unopened (m : InitiationPacket B) (conv ad : List B) (shared : PqxdhSharedSecret B)
      (r : LiveRatchet B) (err : CryptoError) (hans : Answers P m e shared r) :
      TrustStep P d e (.processInbound m conv ad) (.error err)
        (e.trust.recordSeen ⟨m.senderIdentityPublic, none⟩) e.trustBlob
  /-- A contact was acknowledged. -/
  | acknowledged (k : Block B 32) (dev : Option (List B)) (σ : Enumeration)
      (hne : k ≠ Block.zero 32) :
      TrustStep P d e (.acknowledge k dev) (.ok .done) (e.trust.acknowledge ⟨k, dev⟩ 0 .safetyNumber)
        (some ((e.trust.acknowledge ⟨k, dev⟩ 0 .safetyNumber).serialize σ))
  /-- The blob was deleted. -/
  | cleared : TrustStep P d e .deleteAllSessions (.ok .done) e.trust none
  /-- The store was read back. -/
  | reloaded (t : TrustStore B) (v : List B) (hv : e.trustBlob = some v)
      (ht : TrustStore.deserialize v = .ok t) :
      TrustStep P d e .crashReload (.ok .done) t e.trustBlob

/-- The identity that is acknowledged is a valid public key. -/
theorem acknowledge_zero (dev : Option (List B)) (d : Draws B) :
    e.call P d (.acknowledge (Block.zero 32) dev) = (.error .invalidArgument, e) := by
  simp only [call, report, acknowledgeIdentityChange, publicFromBytes, if_true]
  rfl

/-- Acknowledging any key but zero succeeds, and commits. -/
theorem acknowledge_of_ne (h : e.storage.staged = none) {k : Block B 32} (hne : k ≠ Block.zero 32)
    (dev : Option (List B)) (d : Draws B) : e.call P d (.acknowledge k dev) =
      (.ok .done, (e.acknowledged ⟨k, dev⟩).commitDevice d.order) := by
  have hack : e.acknowledgeIdentityChange k dev d =
      (e.acknowledged ⟨k, dev⟩).persistDeviceState d.order := by
    rw [acknowledgeIdentityChange, publicFromBytes_of_ne hne]
    rfl
  rw [call, hack, persistDeviceState_of_idle (e := e.acknowledged ⟨k, dev⟩) h]
  rfl

theorem engine_extend_acknowledge {r : Run B} (h : r.engine.storage.staged = none) {k : Block B 32}
    (hne : k ≠ Block.zero 32) (dev : Option (List B)) (d : Draws B) :
    (r.extend P d (.acknowledge k dev)).engine =
      (r.engine.acknowledged ⟨k, dev⟩).commitDevice d.order := by
  rw [Run.extend, acknowledge_of_ne h hne]

theorem trustBlob_commitDevice (σ : Enumeration) :
    (e.commitDevice σ).trustBlob = some (e.trust.serialize σ) :=
  (deviceBlobs_commitDevice e σ).2.2.2

theorem trustBlob_commitSession (σ : Enumeration) (sid : SessionId B) (s : LiveSession B) :
    (e.commitSession σ sid s).trustBlob = some (e.trust.serialize σ) :=
  (deviceBlobs_commitSession e σ sid s).2.2.2

theorem trustBlob_commitHandshake (σ : Enumeration) (sid : SessionId B) (s : LiveSession B) :
    (e.commitHandshake σ sid s).trustBlob = some (e.trust.serialize σ) :=
  (deviceBlobs_commitHandshake e σ sid s).2.2.2

/-- **What a call does to the trust store and its blob** is one of the steps above. -/
theorem call_trustStep (h : e.storage.staged = none) (d : Draws B) (c : Call B) :
    TrustStep P d e c (e.call P d c).1 (e.call P d c).2.trust (e.call P d c).2.trustBlob := by
  have heffect := call_effect (P := P) h d c
  generalize hr : e.call P d c = r at heffect ⊢
  obtain ⟨out, e'⟩ := r
  dsimp only at heffect ⊢
  cases heffect with
  | refused c err => exact .kept _ _ (.of_error c err)
  | replenishStopped n err prekeys h => exact .kept _ _ (.of_error _ _)
  | replenished n prekeys h =>
    rw [trustBlob_commitDevice]
    exact .saved _ _ _ nofun
  | establishStopped bundle conv pt ad i r err hi henc =>
    exact .unsent bundle conv pt ad i r err hi henc
  | established bundle conv pt ad i r r' header ct hi henc =>
    rw [trustBlob_commitSession]
    exact .met _ _ _ _ (.establish bundle conv pt ad) (initiate_eq_ok hi).1
  | processClosed m conv ad shared r err hans => exact .unopened m conv ad shared r err hans
  | processed m conv ad pt shared r r' hans hreplay hdec =>
    rw [trustBlob_commitHandshake]
    exact .met _ _ _ _ (.processInbound m conv ad) hans.identity
  | sealed c sid pt ad s r header ct hc hs henc =>
    rw [trustBlob_commitSession]
    refine .saved _ _ _ ?_
    intro k dev hack
    rcases hc with rfl | rfl <;> cases hack
  | opened sid m ad pt s r hs hreplay hdec =>
    rw [trustBlob_commitSession]
    exact .saved _ _ _ nofun
  | acknowledged remote dev =>
    rw [trustBlob_commitDevice]
    refine .acknowledged remote dev _ fun hzero ↦ ?_
    rw [hzero, acknowledge_zero] at hr
    cases hr
  | forgot sid =>
    have hblob : (e.forgot sid).trustBlob = e.trustBlob :=
      Finmap.lookup_erase_ne (deviceKey_ne_sid sid (by simp))
    rw [hblob]
    exact .kept _ _ nofun
  | cleared => exact .cleared
  | reloadStopped err identity prekeys hi hp => exact .kept _ _ (.of_error _ _)
  | reloaded identity prekeys sessions hi hp hs =>
    cases hblob : e.storage.committed.lookup keyTrust with
    | none =>
      have htrust : (reloadAux { e with identity, prekeys, sessions }).trust = e.trust := by
        simp only [reloadAux, hblob]
      rw [htrust]
      exact .kept _ _ nofun
    | some v =>
      cases ht : TrustStore.deserialize v with
      | error err =>
        have htrust : (reloadAux { e with identity, prekeys, sessions }).trust = e.trust := by
          simp only [reloadAux, hblob, ht]
          rfl
        rw [htrust]
        exact .kept _ _ nofun
      | ok t =>
        have htrust : (reloadAux { e with identity, prekeys, sessions }).trust = t := by
          simp only [reloadAux, hblob, ht]
          rfl
        rw [htrust]
        exact .reloaded t v hblob ht

/-! ### Invariants of the store -/

/-- Something that holds of the store in memory and of the store that the blob was written from. -/
structure TrustKept (Q : TrustStore B → Prop) (trust : TrustStore B) (blob : Option (List B)) : Prop where
  /-- The store in memory satisfies it. -/
  memory : Q trust
  /-- So does the store that the blob was written from, whatever the order of writing. -/
  stored : ∀ v, blob = some v → ∃ (σ : Enumeration) (t : TrustStore B), v = t.serialize σ ∧ Q t

/-- **An invariant of the store** survives a call if each change to the store brings it about, and if
it survives the calls that make no change and reading back. -/
theorem TrustStep.trustKept {Q Q' : TrustStore B → Prop} {trust : TrustStore B} {blob : Option (List B)}
    (h : TrustStep P d e c out trust blob) (hQ : TrustKept Q e.trust e.trustBlob)
    (hkeep : c.Quiet out → ∀ t, Q t → Q' t)
    (hmet : ∀ k, c.Meets k → k ≠ Block.zero 32 → trust = e.trust.recordSeen ⟨k, none⟩ → Q' trust)
    (hack : ∀ k dev, c = .acknowledge k dev → out = .ok .done → k ≠ Block.zero 32 →
      Q' (e.trust.acknowledge ⟨k, dev⟩ 0 .safetyNumber))
    (hload : ∀ σ t t', Q t → TrustStore.deserialize (t.serialize σ) = .ok t' → Q t') :
    TrustKept Q' trust blob := by
  have hstored : c.Quiet out → ∀ v, e.trustBlob = some v →
      ∃ (σ : Enumeration) (t : TrustStore B), v = t.serialize σ ∧ Q' t := by
    intro hquiet v hv
    obtain ⟨σ, t, rfl, ht⟩ := hQ.stored v hv
    exact ⟨σ, t, rfl, hkeep hquiet t ht⟩
  have hsaved : ∀ {t : TrustStore B} (σ : Enumeration), Q' t → TrustKept Q' t (some (t.serialize σ)) := by
    intro t σ ht
    refine ⟨ht, fun v hv ↦ ?_⟩
    cases hv
    exact ⟨σ, t, rfl, ht⟩
  cases h with
  | kept c out hquiet => exact ⟨hkeep hquiet _ hQ.memory, hstored hquiet⟩
  | saved c out σ hquiet => exact hsaved σ (hkeep hquiet _ hQ.memory)
  | met c o k σ hk hne => exact hsaved σ (hmet k hk hne rfl)
  | unsent bundle conv pt ad i r err hi henc =>
    exact ⟨hmet _ (.establish bundle conv pt ad) (initiate_eq_ok hi).1 rfl,
      hstored (.of_error _ _)⟩
  | unopened m conv ad shared r err hans =>
    exact ⟨hmet _ (.processInbound m conv ad) hans.identity rfl, hstored (.of_error _ _)⟩
  | acknowledged k dev σ hne => exact hsaved σ (hack k dev rfl rfl hne)
  | cleared => exact ⟨hkeep nofun _ hQ.memory, nofun⟩
  | reloaded t v hv ht =>
    obtain ⟨σ, t', rfl, ht'⟩ := hQ.stored v hv
    exact ⟨hkeep nofun _ (hload σ t' _ ht' ht), hstored nofun⟩

end Engine

/-! ### Verified contacts -/

/-- The device id that a call of a run has acknowledged a key with. -/
def Event.acknowledges (ev : Event B) (k : Block B 32) : Option (Option (List B)) :=
  match ev.call, ev.outcome with
  | .acknowledge k' dev, .ok _ => if k' = k then some dev else none
  | _, _ => none

/-- The device id of the last acknowledgement of a key. -/
def lastAcknowledged (log : List (Event B)) (k : Block B 32) : Option (Option (List B)) :=
  log.reverse.findSome? fun ev ↦ ev.acknowledges k

/-- The last acknowledgement of a longer log is the new one, or the one before. -/
theorem lastAcknowledged_append (log : List (Event B)) (ev : Event B) (k : Block B 32) :
    lastAcknowledged (log ++ [ev]) k = (ev.acknowledges k).or (lastAcknowledged log k) := by
  unfold lastAcknowledged
  rw [List.reverse_append, List.reverse_singleton, List.singleton_append, List.findSome?_cons]
  cases ev.acknowledges k <;> rfl

theorem Event.acknowledges_of_quiet {ev : Event B} (h : ev.call.Quiet ev.outcome) (k : Block B 32) :
    ev.acknowledges k = none := by
  unfold Event.acknowledges
  split
  · rename_i k' dev o hcall hout
    exact absurd hout (h k' dev hcall o)
  · rfl

/-- Every acknowledgement is made with a device id that can be stored. -/
def storableIds : Run B → Call B → Draws B → Prop :=
  fun _ c _ ↦ ∀ k dev, c = .acknowledge k dev → StorableId dev

/-- A store that agrees with a log about what was acknowledged. The same holds of the stored blob,
so that a reload keeps it. -/
structure TrustStore.Follows (log : List (Event B)) (t : TrustStore B) : Prop where
  /-- The store is one that its own operations have made. -/
  sound : t.Sound
  /-- Its device ids survive being written. -/
  ids : ∀ k r, t.byKey.lookup k = some r → StorableId r.identity.deviceId
  /-- What is acknowledged for a key is what was acknowledged last in the log. -/
  acknowledged : ∀ k, (t.trackerFor k).acknowledged =
    (lastAcknowledged log k).map fun dev ↦ ⟨k, dev⟩

namespace TrustStore

variable {t : TrustStore B} {log : List (Event B)}

/-- Nothing is lost by reading such a store back. -/
theorem Follows.reload (ht : t.Follows log) {σ : Enumeration} {t' : TrustStore B}
    (h : deserialize (t.serialize σ) = .ok t') : t'.Follows log := by
  have hmap := byKey_of_deserialize ht.sound h
  have hsame : t' = t := by
    have hbyKey : t'.byKey = t.byKey := by
      apply Finmap.ext_lookup
      intro k
      rw [hmap, Dict.lookup_mapValues]
      cases hr : t.byKey.lookup k with
      | none => rfl
      | some r =>
        have hid : r.identity.deviceId ≠ some [] := fun hempty ↦ (ht.ids k r hr [] hempty).1 rfl
        have hcollapse : collapse r = r := by
          unfold collapse
          rw [if_neg hid]
        rw [Option.map_some, hcollapse]
    cases t
    cases t'
    cases hbyKey
    rfl
  rw [hsame]
  exact ht

/-- A quiet call leaves a store in agreement with the log. -/
theorem Follows.append (ht : t.Follows log) (ev : Event B) (h : ev.call.Quiet ev.outcome) :
    t.Follows (log ++ [ev]) where
  sound := ht.sound
  ids := ht.ids
  acknowledged k := by
    rw [lastAcknowledged_append, Event.acknowledges_of_quiet h, Option.none_or]
    exact ht.acknowledged k

theorem Follows.recordSeen (ht : t.Follows log) {k : Block B 32} (hne : k ≠ Block.zero 32) :
    (t.recordSeen ⟨k, none⟩).Follows log where
  sound := ht.sound.of_lookup (m := ⟨k, none⟩) hne (by simp) fun _ _ ↦ lookup_recordSeen
  ids k' r hr := by
    rcases lookup_recordSeen hr with hold | ⟨-, hm⟩
    · exact ht.ids k' r hold
    · rw [hm]
      exact nofun
  acknowledged k' := by
    rw [trackerFor_recordSeen]
    exact ht.acknowledged k'

theorem Follows.acknowledge (ht : t.Follows log) {k : Block B 32} {dev : Option (List B)}
    (ev : Event B) (hcall : ev.call = .acknowledge k dev) (hout : ev.outcome = .ok .done)
    (hne : k ≠ Block.zero 32) (hdev : StorableId dev) :
    (t.acknowledge ⟨k, dev⟩ 0 .safetyNumber).Follows (log ++ [ev]) where
  sound := ht.sound.of_lookup (m := ⟨k, dev⟩) hne hdev.length_getD fun _ _ ↦ lookup_acknowledge
  ids k' r hr := by
    rcases lookup_acknowledge hr with hold | ⟨-, hm⟩
    · exact ht.ids k' r hold
    · rw [hm]
      exact hdev
  acknowledged k' := by
    have hev : ev.acknowledges k' = if k = k' then some dev else none := by
      simp only [Event.acknowledges, hcall, hout]
    rw [lastAcknowledged_append, hev]
    by_cases hk : k = k'
    · subst hk
      rw [if_pos rfl, trackerFor_acknowledge_self (m := ⟨k, dev⟩)]
      rfl
    · rw [if_neg hk, trackerFor_acknowledge_of_ne (m := ⟨k, dev⟩) (Ne.symm hk), Option.none_or]
      exact ht.acknowledged k'

end TrustStore

/-- In every run whose device ids can be stored, the trust store follows the log, on disk too. -/
theorem device_follows {r : Run B} (hr : (device P storableIds).Reachable r) :
    Engine.TrustKept (TrustStore.Follows r.log) r.engine.trust r.engine.trustBlob := by
  refine System.Reachable.invariant
    (I := fun r ↦ Engine.TrustKept (TrustStore.Follows r.log) r.engine.trust r.engine.trustBlob) ?_ ?_ hr
  · intro s hs
    obtain ⟨config, d, rfl⟩ := eq_newDevice_of_start hs
    have hnew : (TrustStore.new : TrustStore B).Follows [] :=
      ⟨TrustStore.sound_new, nofun, fun _ ↦ rfl⟩
    refine ⟨hnew, fun v hv ↦ ⟨d.order, TrustStore.new, ?_, hnew⟩⟩
    have hblob := Engine.trustBlob_commitDevice (e := Engine.blank P config d) d.order
    exact (Option.some.inj (hblob.symm.trans hv)).symm
  · rintro s t hs hfollows ⟨c, d, hallow, rfl⟩
    have hstep := Engine.call_trustStep (P := P) (device_idle hs) d c
    refine hstep.trustKept hfollows ?_ ?_ ?_ ?_
    · intro hquiet t ht
      exact ht.append ⟨s.engine, c, d, (s.engine.call P d c).1⟩ hquiet
    · intro k hk hne htrust
      rw [htrust]
      exact (hfollows.memory.recordSeen hne).append
        ⟨s.engine, c, d, (s.engine.call P d c).1⟩ (hk.quiet _)
    · intro k dev hc hout hne
      exact hfollows.memory.acknowledge ⟨s.engine, c, d, (s.engine.call P d c).1⟩ hc hout hne
        (hallow k dev hc)
    · intro σ t t' ht hload
      exact ht.reload hload

/-- **Trust is never silent.** In every run whose device ids can be stored, a contact is verified with
a device id exactly if the last acknowledgement of its key was made with it. -/
theorem verified_iff_acknowledged {r : Run B} (hr : (device P storableIds).Reachable r)
    (k : Block B 32) (dev : Option (List B)) :
    r.engine.remoteIdentityState k dev = .ok .verified ↔ lastAcknowledged r.log k = some dev := by
  have hfollows := (device_follows hr).memory
  have hack := hfollows.acknowledged k
  by_cases hzero : k = Block.zero 32
  · have hnone : r.engine.trust.byKey.lookup k = none := by
      cases hlookup : r.engine.trust.byKey.lookup k with
      | none => rfl
      | some rec => exact absurd hzero (hfollows.sound.valid k rec hlookup)
    have hlast : lastAcknowledged r.log k = none := by
      rw [TrustStore.trackerFor, hnone] at hack
      exact Option.map_eq_none_iff.1 hack.symm
    rw [hlast, Engine.remoteIdentityState, publicFromBytes, if_pos hzero]
    exact ⟨nofun, nofun⟩
  · have hstate : r.engine.remoteIdentityState k dev =
        .ok ((r.engine.trust.trackerFor k).observe ⟨k, dev⟩) := by
      rw [Engine.remoteIdentityState, publicFromBytes_of_ne hzero]
      rfl
    rw [hstate, Except.ok.injEq, IdentityTracker.observe_eq_verified, hack, Option.map_eq_some_iff]
    constructor
    · rintro ⟨dev', hlast, heq⟩
      cases heq
      exact hlast
    · intro hlast
      exact ⟨dev, hlast, rfl⟩

namespace Engine

/-- Acknowledgements are regular calls when the ids fit. -/
theorem regular_acknowledge {e : Engine B} {log : List (Event B)} {k : Block B 32}
    {dev : Option (List B)} {d : Draws B} (hdev : e.deviceId.length < 2 ^ 32)
    (hfresh : e.sessions.lookup d.sessionId = none) :
    Regular P ⟨e, log⟩ (.acknowledge k dev) d where
  fits := trivial
  deviceId := hdev
  inbound _ _ _ heq := by cases heq
  message _ _ _ heq := by cases heq
  fresh := hfresh
  replenish _ heq := by cases heq

end Engine

namespace Symbolic

/-- The identity key of device 2. -/
noncomputable def contact : Block Sym 32 := (Symbolic.engine 2 .classicalV1).identity.publicKey symbolic

/-- Device 1 after the user has acknowledged device 2 under a device id. -/
noncomputable def trusting (dev : Option (List Sym)) : Run Sym :=
  Run.extend symbolic ⟨Symbolic.engine 1 .classicalV1, []⟩ (Symbolic.draws 1)
    (.acknowledge contact dev)

/-- The same after a restart. -/
noncomputable def restarted (dev : Option (List Sym)) : Run Sym :=
  (trusting dev).extend symbolic (Symbolic.draws 2) .crashReload

theorem contact_ne_zero : contact ≠ Block.zero 32 := idealDh.publicKey_ne_zero _

/-- The engine of the example has acknowledged its contact and committed. -/
theorem engine_trusting (dev : Option (List Sym)) : (trusting dev).engine =
    ((Symbolic.engine 1 .classicalV1).acknowledged ⟨contact, dev⟩).commitDevice .arbitrary :=
  Engine.engine_extend_acknowledge rfl contact_ne_zero dev (Symbolic.draws 1)

/-- The log of the example ends with that acknowledgement. -/
theorem lastAcknowledged_restarted (dev : Option (List Sym)) :
    lastAcknowledged (restarted dev).log contact = some dev := by
  have hcall := Engine.acknowledge_of_ne (P := symbolic) (e := Symbolic.engine 1 .classicalV1) rfl
    contact_ne_zero dev (Symbolic.draws 1)
  simp [restarted, trusting, Run.extend, lastAcknowledged, Event.acknowledges, hcall]

/-- A restart reads the trust store back. -/
theorem trust_restarted (dev : Option (List Sym)) (hdev : (dev.getD []).length < 2 ^ 16) :
    (restarted dev).engine.trust.trackerFor contact =
      { acknowledged := some ⟨contact, if dev = some [] then none else dev⟩ } := by
  have hreach : (device symbolic (Engine.Regular symbolic)).Reachable (trusting dev) :=
    reachable_extend (reachable_newDevice symbolic _ ⟨[], .classicalV1⟩ (deviceDraws 1))
      (Engine.regular_acknowledge (by decide) (Finmap.lookup_empty _))
  obtain ⟨sessions, hreload, -⟩ :=
    (Engine.mirror sealTotal hreach).simulateCrashReload (Symbolic.draws 2)
  have hsound : (TrustStore.new.acknowledge ⟨contact, dev⟩ 0 .safetyNumber).Sound :=
    TrustStore.sound_new.of_lookup contact_ne_zero hdev fun _ _ ↦ TrustStore.lookup_acknowledge
  have hsize : (TrustStore.new.acknowledge ⟨contact, dev⟩ 0 .safetyNumber).byKey.size < 2 ^ 32 :=
    lt_of_le_of_lt (Dict.size_insert_le _ _ _) (by decide)
  have hblob : (trusting dev).engine.storage.committed.lookup Engine.keyTrust =
      some ((TrustStore.new.acknowledge ⟨contact, dev⟩ 0 .safetyNumber).serialize .arbitrary) := by
    rw [engine_trusting]
    exact Engine.trustBlob_commitDevice .arbitrary
  have htrust : (restarted dev).engine.trust =
      ⟨(TrustStore.new.acknowledge ⟨contact, dev⟩ 0 .safetyNumber).byKey.mapValues
        TrustStore.collapse⟩ := by
    show ((trusting dev).engine.simulateCrashReload (Symbolic.draws 2)).2.trust = _
    rw [hreload]
    simp only [Engine.reloadAux, hblob, TrustStore.deserialize_serialize hsound, if_pos hsize]
    rfl
  rw [htrust]
  simp only [TrustStore.trackerFor, Dict.lookup_mapValues, TrustStore.acknowledge,
    Finmap.lookup_insert, Option.map_some]
  rfl

/-- What the restarted device reports is what its tracker observes. -/
theorem remoteIdentityState_restarted (dev dev' : Option (List Sym))
    (hdev : (dev.getD []).length < 2 ^ 16) :
    (restarted dev).engine.remoteIdentityState contact dev' =
      .ok (IdentityTracker.observe { acknowledged := some ⟨contact, if dev = some [] then none
        else dev⟩ } ⟨contact, dev'⟩) := by
  rw [Engine.remoteIdentityState, publicFromBytes_of_ne contact_ne_zero, ← trust_restarted dev hdev]
  rfl

end Symbolic

open Symbolic in
/-- A contact that was acknowledged under a device id is verified under it after a restart. -/
theorem verified_iff_acknowledged_restarted :
    (device symbolic storableIds).Reachable (restarted (some [.lit 7])) ∧
      (restarted (some [.lit 7])).engine.remoteIdentityState contact (some [.lit 7]) =
        .ok .verified := by
  have hid : StorableId (some [Sym.lit 7]) := by
    rintro id heq
    cases heq
    exact ⟨by simp, by decide⟩
  have hfirst : (device symbolic storableIds).Reachable (trusting (some [.lit 7])) := by
    refine reachable_extend
      (reachable_newDevice symbolic storableIds ⟨[], .classicalV1⟩ (deviceDraws 1)) ?_
    intro k dev heq
    cases heq
    exact hid
  have hreach := reachable_extend hfirst (c := .crashReload) (d := Symbolic.draws 2) nofun
  exact ⟨hreach, (verified_iff_acknowledged hreach contact (some [.lit 7])).2
    (lastAcknowledged_restarted _)⟩

open Symbolic in
/-- **An empty device id is forgotten.** The user acknowledges a contact under the empty device id;
after a restart the contact is verified without a device id, and no longer under the one that was
acknowledged. -/
theorem empty_device_id_forgotten :
    (device symbolic anyCall).Reachable (restarted (some [])) ∧
      lastAcknowledged (restarted (some [])).log contact = some (some []) ∧
      (restarted (some [])).engine.remoteIdentityState contact none = .ok .verified ∧
      (restarted (some [])).engine.remoteIdentityState contact (some []) ≠ .ok .verified := by
  have hreach : (device symbolic anyCall).Reachable (restarted (some [])) :=
    reachable_extend (reachable_extend
      (reachable_newDevice symbolic anyCall ⟨[], .classicalV1⟩ (deviceDraws 1)) trivial) trivial
  refine ⟨hreach, lastAcknowledged_restarted _, ?_, ?_⟩
  · rw [remoteIdentityState_restarted _ _ (by decide), Except.ok.injEq,
      IdentityTracker.observe_eq_verified]
    rfl
  · rw [remoteIdentityState_restarted _ _ (by decide), ne_eq, Except.ok.injEq,
      IdentityTracker.observe_eq_verified]
    simp

/-! ### Introduced contacts -/

/-- A contact that a run has met: a session with it was opened, or it was acknowledged. -/
def Introduced (log : List (Event B)) (k : Block B 32) : Prop :=
  ∃ ev ∈ log, (ev.call.Meets k ∧ ∃ o, ev.outcome = .ok o) ∨ ∃ dev, ev.call = .acknowledge k dev

theorem Introduced.append {log : List (Event B)} {k : Block B 32} (h : Introduced log k)
    (ev : Event B) : Introduced (log ++ [ev]) k := by
  obtain ⟨ev', hmem, hev⟩ := h
  exact ⟨ev', List.mem_append_left _ hmem, hev⟩

namespace Engine

variable {e : Engine B} {d : Draws B}

/-- A contact that is in the trust store, whether acknowledged or only seen. -/
def Knows (e : Engine B) (k : Block B 32) : Prop := ∃ rec, e.trust.byKey.lookup k = some rec

/-- The first message of a packet opens on the session that the packet sets up. -/
def Opens (P : Primitives B) (d : Draws B) (m : InitiationPacket B) (conv ad : List B)
    (e : Engine B) : Prop :=
  ∃ ik shared r pt r', e.respond P m = .ok (ik, shared, r) ∧
    e.replay.contains (replayKey d.sessionId m.firstMessage conv e.deviceId) = false ∧
    r.decrypt P d m.firstMessage.header m.firstMessage.ciphertext
      ((e.inboundSession m conv shared r).boundAd ad) = .ok (pt, r')

/-- A packet that fails the checks of the handshake, comes from a known sender, or opens. -/
def Harmless (P : Primitives B) (d : Draws B) (m : InitiationPacket B) (conv ad : List B)
    (e : Engine B) : Prop :=
  ∀ x, e.respond P m = .ok x → e.Knows m.senderIdentityPublic ∨ e.Opens P d m conv ad

theorem recordSeen_of_knows {k : Block B 32} {dev : Option (List B)} (h : e.Knows k) :
    e.trust.recordSeen ⟨k, dev⟩ = e.trust := by
  obtain ⟨rec, hrec⟩ := h
  exact TrustStore.recordSeen_of_lookup (m := ⟨k, dev⟩) hrec

theorem knows_recordSeen (k : Block B 32) (dev : Option (List B)) :
    ∃ rec, (e.trust.recordSeen ⟨k, dev⟩).byKey.lookup k = some rec := by
  unfold TrustStore.recordSeen
  cases hk : e.trust.byKey.lookup k with
  | some rec => exact ⟨rec, by simp only [hk]⟩
  | none => exact ⟨_, Finmap.lookup_insert _⟩

/-- A packet that passes the checks and does not open leaves its sender in the trust store. -/
theorem process_trust_of_not_opens {m : InitiationPacket B} {conv ad : List B}
    {x : Block B 32 × PqxdhSharedSecret B × LiveRatchet B} (hresp : e.respond P m = .ok x)
    (hopens : ¬ e.Opens P d m conv ad) :
    ∃ err, (e.processInboundSession P m conv ad d).1 = .error err ∧
      (e.processInboundSession P m conv ad d).2.trust =
        e.trust.recordSeen ⟨m.senderIdentityPublic, none⟩ := by
  obtain ⟨ik, shared, r⟩ := x
  obtain ⟨rfl, -⟩ := respond_eq_ok hresp
  let opened := e.openSession d.sessionId r m.senderIdentityPublic conv shared.ad
  have hs : opened.sessions.lookup d.sessionId = some (e.inboundSession m conv shared r) :=
    Finmap.lookup_insert _
  rcases applyDecrypt_cases (P := P) opened d.sessionId m.firstMessage ad d with
    ⟨err, heq⟩ | ⟨s, pt, r', hs', hrep, hdec, -⟩
  · have hclosed : e.processInboundSession P m conv ad d =
        (.error err, { opened with sessions := opened.sessions.erase d.sessionId }) := by
      unfold processInboundSession
      rw [hresp]
      dsimp only
      rw [heq]
    exact ⟨err, by rw [hclosed], by rw [hclosed]; rfl⟩
  · rw [hs] at hs'
    cases hs'
    exact absurd ⟨_, shared, r, pt, r', hresp, hrep, hdec⟩ hopens

/-- **A failed packet leaves the trust store unchanged** exactly if it is harmless. -/
theorem process_error_unchanged_iff (h : e.storage.staged = none) {m : InitiationPacket B}
    {conv ad : List B} :
    (∀ err, (e.call P d (.processInbound m conv ad)).1 = .error err →
      (e.call P d (.processInbound m conv ad)).2.trust = e.trust) ↔ e.Harmless P d m conv ad := by
  have hfst : ∀ err, (e.call P d (.processInbound m conv ad)).1 = .error err ↔
      (e.processInboundSession P m conv ad d).1 = .error err := by
    intro err
    rw [call, report]
    cases (e.processInboundSession P m conv ad d).1 <;> simp [Except.map]
  simp only [hfst, show (e.call P d (.processInbound m conv ad)).2 =
    (e.processInboundSession P m conv ad d).2 from rfl]
  constructor
  · intro hunchanged x hresp
    by_contra hnot
    rw [not_or] at hnot
    obtain ⟨err, herr, htrust⟩ := process_trust_of_not_opens hresp hnot.2
    apply hnot.1
    obtain ⟨rec, hrec⟩ := knows_recordSeen (e := e) m.senderIdentityPublic none
    rw [← htrust, hunchanged err herr] at hrec
    exact ⟨rec, hrec⟩
  · intro hharmless err herr
    cases hresp : e.respond P m with
    | error err' => simp only [processInboundSession, hresp]
    | ok x =>
      rcases hharmless x hresp with hknows | ⟨ik, shared, r, pt, r', hresp', hrep, hdec⟩
      · by_cases hopens : e.Opens P d m conv ad
        · obtain ⟨ik, shared, r, pt, r', hresp', hrep, hdec⟩ := hopens
          rw [process_eq_ok h hresp' hrep hdec] at herr
          cases herr
        · obtain ⟨err', -, htrust⟩ := process_trust_of_not_opens hresp hopens
          rw [htrust, recordSeen_of_knows hknows]
      · rw [process_eq_ok h hresp' hrep hdec] at herr
        cases herr

/-- The same for a bundle, if the first message can be sealed. -/
theorem establish_error_unchanged (h : e.storage.staged = none) {bundle : PublicPrekeyBundle B}
    {conv pt ad : List B} {err : CryptoError}
    (hseals : ∀ i r, e.initiate P bundle d = .ok (i, r) → e.Knows bundle.identityKey ∨
      ∃ out, r.encrypt P d pt ((e.outboundSession bundle conv i r).boundAd ad) = .ok out)
    (herr : (e.call P d (.establish bundle conv pt ad)).1 = .error err) :
    (e.call P d (.establish bundle conv pt ad)).2.trust = e.trust := by
  dsimp only [call, report] at herr ⊢
  rcases establish_cases (P := P) h bundle conv pt ad d with
    ⟨err', -, heq⟩ | ⟨i, r, hi, ⟨err', henc, heq⟩ | ⟨header, ct, r', -, heq⟩⟩
  · rw [heq]
  · rcases hseals i r hi with hknows | ⟨out, hout⟩
    · rw [heq]
      exact recordSeen_of_knows hknows
    · rw [henc] at hout
      cases hout
  · rw [heq] at herr
    cases herr

/-- What a run may assume of a call: packets are harmless, first messages can be sealed, and the device
ids of acknowledgements fit their 16-bit length. -/
structure Authentic (P : Primitives B) (r : Run B) (c : Call B) (d : Draws B) : Prop where
  /-- A packet that is processed either opens or introduces nobody. -/
  inbound : ∀ m conv ad, c = .processInbound m conv ad → r.engine.Harmless P d m conv ad
  /-- Whom a session is opened with is known, or the first message can be sealed. -/
  outbound : ∀ bundle conv pt ad, c = .establish bundle conv pt ad → ∀ i ratchet,
    r.engine.initiate P bundle d = .ok (i, ratchet) → r.engine.Knows bundle.identityKey ∨
      ∃ out, ratchet.encrypt P d pt ((r.engine.outboundSession bundle conv i ratchet).boundAd ad) =
        .ok out
  /-- An acknowledged device id fits its length prefix. -/
  deviceId : ∀ k dev, c = .acknowledge k dev → (dev.getD []).length < 2 ^ 16

/-- Processing a harmless packet is an authentic call. -/
theorem Harmless.authentic {m : InitiationPacket B} {conv ad : List B} {log : List (Event B)}
    (h : e.Harmless P d m conv ad) : Authentic P ⟨e, log⟩ (.processInbound m conv ad) d where
  inbound _ _ _ heq := by
    cases heq
    exact h
  outbound _ _ _ _ heq := by cases heq
  deviceId _ _ heq := by cases heq

/-- A failed handshake of such a run leaves the trust store unchanged. -/
theorem Authentic.unchanged {r : Run B} {c : Call B} {k : Block B 32} {err : CryptoError}
    (h : Authentic P r c d) (hidle : r.engine.storage.staged = none) (hk : c.Meets k)
    (herr : (r.engine.call P d c).1 = .error err) :
    (r.engine.call P d c).2.trust = r.engine.trust := by
  cases hk with
  | establish bundle conv pt ad =>
    exact establish_error_unchanged hidle (h.outbound bundle conv pt ad rfl) herr
  | processInbound m conv ad =>
    exact (process_error_unchanged_iff hidle).2 (h.inbound m conv ad rfl) err herr

end Engine

/-- A sound store with introduced contacts only: those with whom a session was opened, whose packet
was accepted, or who were acknowledged. -/
structure TrustStore.Genuine (log : List (Event B)) (t : TrustStore B) : Prop where
  /-- The store is one that its own operations have made. -/
  sound : t.Sound
  /-- Its contacts have introduced themselves in the log. -/
  introduced : ∀ k rec, t.byKey.lookup k = some rec → Introduced log k

theorem TrustStore.Genuine.append {t : TrustStore B} {log : List (Event B)} (ht : t.Genuine log)
    (ev : Event B) : t.Genuine (log ++ [ev]) :=
  ⟨ht.sound, fun k rec hrec ↦ (ht.introduced k rec hrec).append ev⟩

/-- In every run with authentic calls, the trust store holds introduced contacts only, on disk too. -/
theorem device_genuine {r : Run B} (hr : (device P (Engine.Authentic P)).Reachable r) :
    Engine.TrustKept (TrustStore.Genuine r.log) r.engine.trust r.engine.trustBlob := by
  refine System.Reachable.invariant
    (I := fun r ↦ Engine.TrustKept (TrustStore.Genuine r.log) r.engine.trust r.engine.trustBlob) ?_ ?_ hr
  · intro s hs
    obtain ⟨config, d, rfl⟩ := eq_newDevice_of_start hs
    have hnew : (TrustStore.new : TrustStore B).Genuine [] := ⟨TrustStore.sound_new, nofun⟩
    refine ⟨hnew, fun v hv ↦ ⟨d.order, TrustStore.new, ?_, hnew⟩⟩
    have hblob := Engine.trustBlob_commitDevice (e := Engine.blank P config d) d.order
    exact (Option.some.inj (hblob.symm.trans hv)).symm
  · rintro s t hs hgenuine ⟨c, d, hauth, rfl⟩
    let ev : Event B := ⟨s.engine, c, d, (s.engine.call P d c).1⟩
    have hstep := Engine.call_trustStep (P := P) (device_idle hs) d c
    have hlast : ev ∈ s.log ++ [ev] := by simp
    refine hstep.trustKept hgenuine ?_ ?_ ?_ ?_
    · intro _ t ht
      exact ht.append ev
    · intro k hk hne htrust
      cases hout : (s.engine.call P d c).1 with
      | error err =>
        rw [hauth.unchanged (device_idle hs) hk hout]
        exact hgenuine.memory.append ev
      | ok o =>
        rw [htrust]
        refine ⟨hgenuine.memory.sound.of_lookup (m := ⟨k, none⟩) hne (by simp)
          fun _ _ ↦ TrustStore.lookup_recordSeen, fun k' rec hrec ↦ ?_⟩
        rcases TrustStore.lookup_recordSeen hrec with hold | ⟨rfl, -⟩
        · exact (hgenuine.memory.introduced k' rec hold).append ev
        · exact ⟨ev, hlast, .inl ⟨hk, o, hout⟩⟩
    · intro k dev hc _ hne
      refine ⟨hgenuine.memory.sound.of_lookup (m := ⟨k, dev⟩) hne (hauth.deviceId k dev hc)
        fun _ _ ↦ TrustStore.lookup_acknowledge, fun k' rec hrec ↦ ?_⟩
      rcases TrustStore.lookup_acknowledge hrec with hold | ⟨rfl, -⟩
      · exact (hgenuine.memory.introduced k' rec hold).append ev
      · exact ⟨ev, hlast, .inr ⟨dev, hc⟩⟩
    · intro σ t t' ht hload
      have hmap := TrustStore.byKey_of_deserialize ht.sound hload
      refine ⟨ht.sound.reload hmap, fun k rec hrec ↦ ?_⟩
      rw [hmap, Dict.lookup_mapValues] at hrec
      obtain ⟨rec', hrec', -⟩ := Option.map_eq_some_iff.1 hrec
      exact ht.introduced k rec' hrec'

/-- **Only introduced contacts are in the trust store.** In every run with authentic calls, each key in
the store is that of a contact with which a session was opened, or was acknowledged; and in every state
of it a packet that fails leaves the store unchanged exactly if it is harmless. -/
theorem trust_store_introduced {r : Run B} (hr : (device P (Engine.Authentic P)).Reachable r) :
    (∀ k, r.engine.Knows k → Introduced r.log k) ∧
      ∀ m conv ad d, (∀ err, (r.engine.call P d (.processInbound m conv ad)).1 = .error err →
        (r.engine.call P d (.processInbound m conv ad)).2.trust = r.engine.trust) ↔
          r.engine.Harmless P d m conv ad :=
  ⟨fun k ⟨rec, hrec⟩ ↦ (device_genuine hr).memory.introduced k rec hrec,
    fun _ _ _ _ ↦ Engine.process_error_unchanged_iff (device_idle hr)⟩

open Symbolic in
/-- A device that has accepted a packet knows its sender. -/
theorem trust_store_introduced_packet :
    (Symbolic.answered .classicalV1).engine.Knows (packet .classicalV1).senderIdentityPublic ∧
      Introduced (Symbolic.answered .classicalV1).log (packet .classicalV1).senderIdentityPublic := by
  have hok : ((Symbolic.engine 2 .classicalV1).call symbolic (Symbolic.draws 3)
      (.processInbound (packet .classicalV1) [] [])).1 = .ok (.processed (secretOf 15 136) []) := by
    decide +kernel
  have hharmless : (Symbolic.engine 2 .classicalV1).Harmless symbolic (Symbolic.draws 3)
      (packet .classicalV1) [] [] := by
    refine (Engine.process_error_unchanged_iff rfl).1 fun err herr ↦ ?_
    rw [hok] at herr
    cases herr
  have hreach : (device symbolic (Engine.Authentic symbolic)).Reachable
      (Symbolic.answered .classicalV1) :=
    reachable_extend (reachable_newDevice symbolic _ ⟨[], .classicalV1⟩ (deviceDraws 2))
      hharmless.authentic
  have hknows : (Symbolic.answered .classicalV1).engine.Knows
      (packet .classicalV1).senderIdentityPublic :=
    Option.isSome_iff_exists.1 (by decide +kernel)
  exact ⟨hknows, (trust_store_introduced hreach).1 _ hknows⟩

open Symbolic in
/-- **A tampered packet enters the trust store.** The packet fails to open; its sender is in the trust
store all the same, although no call of the run has introduced it. -/
theorem tampered_packet_recorded :
    (device symbolic anyCall).Reachable (Run.extend symbolic ⟨Symbolic.engine 2 .classicalV1, []⟩
      (Symbolic.draws 3) (.processInbound (tampered .classicalV1) [] [])) ∧
    ((Symbolic.engine 2 .classicalV1).call symbolic (Symbolic.draws 3)
      (.processInbound (tampered .classicalV1) [] [])).1 = .error .cryptoFailure ∧
    ¬ (Symbolic.engine 2 .classicalV1).Knows (tampered .classicalV1).senderIdentityPublic ∧
    (Run.extend symbolic ⟨Symbolic.engine 2 .classicalV1, []⟩ (Symbolic.draws 3)
      (.processInbound (tampered .classicalV1) [] [])).engine.Knows
        (tampered .classicalV1).senderIdentityPublic ∧
    ¬ Introduced (Run.extend symbolic ⟨Symbolic.engine 2 .classicalV1, []⟩ (Symbolic.draws 3)
      (.processInbound (tampered .classicalV1) [] [])).log
        (tampered .classicalV1).senderIdentityPublic := by
  have herr : ((Symbolic.engine 2 .classicalV1).call symbolic (Symbolic.draws 3)
      (.processInbound (tampered .classicalV1) [] [])).1 = .error .cryptoFailure := by
    decide +kernel
  refine ⟨reachable_extend (reachable_newDevice symbolic anyCall ⟨[], .classicalV1⟩ (deviceDraws 2))
    trivial, herr, nofun, Option.isSome_iff_exists.1 (by decide +kernel), ?_⟩
  generalize tampered .classicalV1 = m at herr ⊢
  rintro ⟨ev, hev, h⟩
  have hev := List.mem_singleton.1 hev
  rcases h with ⟨-, o, ho⟩ | ⟨dev, hdev⟩
  · rw [hev, herr] at ho
    cases ho
  · rw [hev] at hdev
    cases hdev

end VoiceChatCrypto
