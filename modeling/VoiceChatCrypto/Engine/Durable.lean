import VoiceChatCrypto.Engine.Reload

/-!
# Committed storage

What storage is good for: it holds everything that a restart needs, and its epoch tells a current copy
from an old one. Both depend on every operation that changes storage, and on the same two deletions.
`delete_all_sessions` clears the whole key space, the device blobs included; and neither it nor
`delete_session` moves the epoch, which is advanced by `commit_pairs` only.
-/

open Alphabet

namespace VoiceChatCrypto

variable {B : Type} [Alphabet B] {P : Primitives B}

namespace Engine

variable {e e' : Engine B} {d : Draws B} {c : Call B} {out : Except CryptoError (Output B)}

/-! ### The device blobs -/

/-- **Storage restores the device**: all four device blobs are there, and those of the identity and of
the prekeys decode to what is in memory. -/
structure Restorable (e : Engine B) : Prop where
  /-- The stored identity key decodes to the one in use. -/
  identity : ∃ v, e.storage.committed.lookup keyIdentity = some v ∧
    IdentityKeyPair.deserialize v = .ok e.identity
  /-- The stored prekeys decode to the ones in use. -/
  prekeys : ∃ v, e.storage.committed.lookup keyPrekeys = some v ∧
    PrekeyStore.deserialize v = .ok e.prekeys
  /-- There is a stored replay cache; `load` takes an undecodable one for empty. -/
  replay : ∃ v, e.storage.committed.lookup keyReplay = some v
  /-- There is a stored trust store. -/
  trust : ∃ v, e.storage.committed.lookup keyTrust = some v

/-- The same, with the blobs as they are written. -/
structure Durable (e : Engine B) : Prop where
  /-- The identity key is stored as it is. -/
  identity : e.storage.committed.lookup keyIdentity = some e.identity.serialize
  /-- The prekeys are stored as they are, in some order. -/
  prekeys : ∃ σ, e.storage.committed.lookup keyPrekeys = some (e.prekeys.serialize σ)
  /-- There is a stored replay cache. -/
  replay : ∃ v, e.storage.committed.lookup keyReplay = some v
  /-- There is a stored trust store. -/
  trust : ∃ v, e.storage.committed.lookup keyTrust = some v
  /-- The prekeys can be read back. -/
  valid : e.prekeys.Valid

theorem Durable.restorable (h : e.Durable) : e.Restorable where
  identity := ⟨_, h.identity, IdentityKeyPair.deserialize_serialize _⟩
  prekeys := by
    obtain ⟨σ, hσ⟩ := h.prekeys
    exact ⟨_, hσ, PrekeyStore.deserialize_serialize h.valid σ⟩
  replay := h.replay
  trust := h.trust

/-- An engine with the same identity, prekeys and device blobs. -/
theorem Durable.of_eq (h : e.Durable) (hidentity : e'.identity = e.identity)
    (hprekeys : e'.prekeys = e.prekeys)
    (hstored : ∀ k ∈ [keyIdentity, keyPrekeys, keyReplay, keyTrust],
      e'.storage.committed.lookup k = e.storage.committed.lookup k) : e'.Durable where
  identity := by
    rw [hstored _ (by simp), hidentity]
    exact h.identity
  prekeys := by
    rw [hstored _ (by simp), hprekeys]
    exact h.prekeys
  replay := by
    rw [hstored _ (by simp)]
    exact h.replay
  trust := by
    rw [hstored _ (by simp)]
    exact h.trust
  valid := hprekeys ▸ h.valid

theorem Durable.commitDevice (hvalid : e.prekeys.Valid) (σ : Enumeration) :
    (e.commitDevice σ).Durable := by
  obtain ⟨hidentity, hprekeys, hreplay, htrust⟩ := deviceBlobs_commitDevice e σ
  exact ⟨hidentity, ⟨σ, hprekeys⟩, ⟨_, hreplay⟩, ⟨_, htrust⟩, hvalid⟩

theorem Durable.commitHandshake (hvalid : e.prekeys.Valid) (σ : Enumeration) (sid : SessionId B)
    (s : LiveSession B) : (e.commitHandshake σ sid s).Durable := by
  obtain ⟨hidentity, hprekeys, hreplay, htrust⟩ := deviceBlobs_commitHandshake e σ sid s
  exact ⟨hidentity, ⟨σ, hprekeys⟩, ⟨_, hreplay⟩, ⟨_, htrust⟩, hvalid⟩

/-- A session transaction writes neither the identity nor the prekeys. -/
theorem Durable.commitSession {f : Engine B} (h : e.Durable) (hidentity : f.identity = e.identity)
    (hprekeys : f.prekeys = e.prekeys) (hstorage : f.storage = e.storage) (σ : Enumeration)
    (sid : SessionId B) (s : LiveSession B) : (f.commitSession σ sid s).Durable := by
  obtain ⟨hid, hpre, hrep, htrust⟩ := deviceBlobs_commitSession f σ sid s
  rw [hstorage] at hid hpre
  refine ⟨?_, ?_, ⟨_, hrep⟩, ⟨_, htrust⟩, ?_⟩
  · show _ = some f.identity.serialize
    rw [hid, hidentity]
    exact h.identity
  · show ∃ τ, _ = some (f.prekeys.serialize τ)
    rw [hpre, hprekeys]
    exact h.prekeys
  · show f.prekeys.Valid
    rw [hprekeys]
    exact h.valid

/-- What a reload puts in place of a stored value is the value. -/
theorem Durable.reload (h : e.Durable) {identity : IdentityKeyPair B} {prekeys : PrekeyStore B}
    (hi : identity = e.identity ∨
      e.Reloaded keyIdentity IdentityKeyPair.deserialize e.identity identity)
    (hp : prekeys = e.prekeys ∨
      e.Reloaded keyPrekeys PrekeyStore.deserialize e.prekeys prekeys) :
    identity = e.identity ∧ prekeys = e.prekeys :=
  ⟨hi.elim id fun hi ↦ hi.eq_old (.inr h.restorable.identity),
    hp.elim id fun hp ↦ hp.eq_old (.inr h.restorable.prekeys)⟩

/-- What a run may assume of a call: not everything is deleted, and replenishing does not run out of
ids halfway. -/
structure Sparing (r : Run B) (c : Call B) (_ : Draws B) : Prop where
  /-- `delete_all_sessions` is not called. -/
  keeps : c ≠ .deleteAllSessions
  /-- There are ids left for all prekeys that a bundle asks for. -/
  room : ∀ n, c = .generateBundle n → r.engine.prekeys.Room n

/-- **One call keeps storage sufficient**: each kind of commit writes the blobs it changes, and
deleting one session touches no device blob. -/
theorem Effect.durable (h : Effect P d e c out e') (hkeeps : c ≠ .deleteAllSessions)
    (hroom : ∀ n, c = .generateBundle n → e.prekeys.Room n) (hd : e.Durable) : e'.Durable := by
  cases h with
  | refused c err => exact hd
  | replenishStopped n err prekeys h =>
    have hsame := (PrekeyStore.replenish_changed_iff P e.identity d.prekeys n hd.valid).2
      (hroom n rfl) err prekeys h
    exact hd.of_eq rfl hsame fun _ _ ↦ rfl
  | replenished n prekeys h =>
    have hgrows := PrekeyStore.replenish_grows P e.identity d.prekeys n n hd.valid
    rw [h] at hgrows
    exact .commitDevice (e := { e with prekeys }) hgrows.1 _
  | establishStopped bundle conv pt ad i r err hi henc => exact hd.of_eq rfl rfl fun _ _ ↦ rfl
  | established bundle conv pt ad i r r' header ct hi henc =>
    exact hd.commitSession (f := (e.openSession d.sessionId r bundle.identityKey conv
      i.shared.ad).withRatchet d.sessionId (e.outboundSession bundle conv i r) r') rfl rfl rfl _ _ _
  | processClosed m conv ad shared r err hans => exact hd.of_eq rfl rfl fun _ _ ↦ rfl
  | processed m conv ad pt shared r r' hans hreplay hdec =>
    exact .commitHandshake (e := e.answered m d.sessionId (e.inboundSession m conv shared r) r')
      (consumedBy_extends hd.valid m).1 _ _ _
  | sealed c sid pt ad s r header ct hc hs henc =>
    exact hd.commitSession (f := e.withRatchet sid s r) rfl rfl rfl _ _ _
  | opened sid m ad pt s r hs hreplay hdec =>
    exact hd.commitSession (f := e.received sid s r m) rfl rfl rfl _ _ _
  | acknowledged remote dev => exact .commitDevice (e := e.acknowledged ⟨remote, dev⟩) hd.valid _
  | forgot sid =>
    exact hd.of_eq rfl rfl fun k hk ↦ Finmap.lookup_erase_ne (deviceKey_ne_sid sid hk)
  | cleared => exact absurd rfl hkeeps
  | reloadStopped err identity prekeys hi hp =>
    obtain ⟨rfl, rfl⟩ := hd.reload hi hp
    exact hd
  | reloaded identity prekeys sessions hi hp hs =>
    obtain ⟨rfl, rfl⟩ := hd.reload (.inr hi) (.inr hp)
    exact hd.of_eq rfl rfl fun _ _ ↦ rfl

/-- Deleting a session removes its blob only. -/
theorem lookup_deleteSession (h : e.storage.staged = none) {sid : SessionId B} {k : List B}
    (hk : k ≠ sid.val) : (e.call P d (.deleteSession sid)).2.storage.committed.lookup k =
      e.storage.committed.lookup k := by
  rcases deleteSession_cases h sid d with ⟨err, heq⟩ | heq
  · rw [call, heq]
    rfl
  · rw [call, heq]
    exact Finmap.lookup_erase_ne hk

end Engine

/-- **Committed storage restores the device.** In every run that does not delete everything and does not
run out of prekey ids in the middle of a call, storage restores the device in every state, and deleting
a session removes no other entry. -/
theorem storage_restores {r : Run B} (hr : (device P Engine.Sparing).Reachable r) :
    r.engine.Restorable ∧ ∀ sid d k, k ≠ sid.val →
      (r.engine.call P d (.deleteSession sid)).2.storage.committed.lookup k =
        r.engine.storage.committed.lookup k := by
  refine ⟨Engine.Durable.restorable ?_, fun sid d k hk ↦
    Engine.lookup_deleteSession (device_idle hr) hk⟩
  refine System.Reachable.invariant (I := fun r ↦ r.engine.Durable) ?_ ?_ hr
  · intro s hs
    obtain ⟨config, d, rfl⟩ := eq_newDevice_of_start hs
    exact .commitDevice (e := Engine.blank P config d) (PrekeyStore.new_valid P _ _ _ _ _) d.order
  · rintro s t hs hd ⟨c, d, hsparing, rfl⟩
    exact (Engine.call_effect (P := P) (device_idle hs) d c).durable hsparing.keeps hsparing.room hd

open Symbolic in
/-- Device 2 opens a session and deletes it again. -/
theorem storage_restores_deleted :
    (device symbolic Engine.Sparing).Reachable ((Symbolic.answered .classicalV1).extend symbolic
      (Symbolic.draws 4) (.deleteSession (secretOf 15 136))) ∧
    ((Symbolic.answered .classicalV1).extend symbolic (Symbolic.draws 4)
      (.deleteSession (secretOf 15 136))).engine.Restorable := by
  have hanswered : (device symbolic Engine.Sparing).Reachable (Symbolic.answered .classicalV1) :=
    reachable_extend (reachable_newDevice symbolic _ ⟨[], .classicalV1⟩ (deviceDraws 2))
      ⟨nofun, nofun⟩
  have hdeleted := reachable_extend hanswered (c := .deleteSession (secretOf 15 136))
    (d := Symbolic.draws 4) ⟨nofun, nofun⟩
  exact ⟨hdeleted, (storage_restores hdeleted).1⟩

open Symbolic in
/-- **Deleting all sessions deletes the device.** A new device without sessions loses its identity. -/
theorem device_deleted :
    (device symbolic anyCall).Reachable (Run.extend symbolic ⟨Symbolic.engine 1 .classicalV1, []⟩
      (Symbolic.draws 1) .deleteAllSessions) ∧
    (∃ v, (Symbolic.engine 1 .classicalV1).storage.committed.lookup Engine.keyIdentity = some v) ∧
    ¬ (Run.extend symbolic ⟨Symbolic.engine 1 .classicalV1, []⟩ (Symbolic.draws 1)
      .deleteAllSessions).engine.Restorable := by
  refine ⟨reachable_extend (reachable_newDevice symbolic anyCall ⟨[], .classicalV1⟩ (deviceDraws 1))
    trivial, ⟨_, (Engine.deviceBlobs_commitDevice _ _).1⟩, fun hrestorable ↦ ?_⟩
  obtain ⟨v, hv, -⟩ := hrestorable.identity
  cases hv

/-! ### The epoch -/

namespace Engine

variable {e e' : Engine B} {d : Draws B} {c : Call B} {out : Except CryptoError (Output B)}

/-- **What a call can do to storage**: nothing, one transaction, or one of the two deletions. -/
theorem Effect.storage (h : Effect P d e c out e') :
    e'.storage = e.storage ∨ (∃ pairs, e'.storage = e.storage.afterCommit pairs) ∨
      (∃ sid, c = .deleteSession sid ∧ out = .ok .done ∧ e' = e.forgot sid) ∨
      (c = .deleteAllSessions ∧ e'.storage = e.storage.clear) := by
  cases h with
  | refused c err => exact .inl rfl
  | replenishStopped n err prekeys h => exact .inl rfl
  | replenished n prekeys h => exact .inr (.inl ⟨_, rfl⟩)
  | establishStopped bundle conv pt ad i r err hi henc => exact .inl rfl
  | established bundle conv pt ad i r r' header ct hi henc => exact .inr (.inl ⟨_, rfl⟩)
  | processClosed m conv ad shared r err hans => exact .inl rfl
  | processed m conv ad pt shared r r' hans hreplay hdec => exact .inr (.inl ⟨_, rfl⟩)
  | sealed c sid pt ad s r header ct hc hs henc => exact .inr (.inl ⟨_, rfl⟩)
  | opened sid m ad pt s r hs hreplay hdec => exact .inr (.inl ⟨_, rfl⟩)
  | acknowledged remote dev => exact .inr (.inl ⟨_, rfl⟩)
  | forgot sid => exact .inr (.inr (.inl ⟨sid, rfl, rfl, rfl⟩))
  | cleared => exact .inr (.inr (.inr ⟨rfl, rfl⟩))
  | reloadStopped err identity prekeys hi hp => exact .inl rfl
  | reloaded identity prekeys sessions hi hp hs => exact .inl rfl

/-- The epoch never goes back. -/
theorem Effect.epoch_le (h : Effect P d e c out e') :
    e.storage.epoch ≤ e'.storage.epoch := by
  rcases h.storage with heq | ⟨pairs, heq⟩ | ⟨sid, -, -, rfl⟩ | ⟨-, heq⟩
  · rw [heq]
    exact UInt64.le_refl _
  · rw [heq, UInt64.le_iff_toNat_le, MemoryStorage.epoch_afterCommit]
    split <;> omega
  · exact UInt64.le_refl _
  · rw [heq]
    exact UInt64.le_refl _

/-- The deletions that remove something from storage: of a live session that is stored, and of
everything when there is something. -/
def Deletes (c : Call B) (e : Engine B) : Prop :=
  (∃ sid, c = .deleteSession sid ∧ (∃ s, e.sessions.lookup sid = some s) ∧
    ∃ v, e.blob sid = some v) ∨
  (c = .deleteAllSessions ∧ e.storage.committed ≠ ∅)

/-- Only a live session can be deleted. -/
theorem deleteSession_of_none {sid : SessionId B} (h : e.sessions.lookup sid = none) :
    e.call P d (.deleteSession sid) = (.error .noSession, e) := by
  simp only [call, report, deleteSession, h]
  rfl

/-- A deletion that removes something changes storage and leaves the epoch as it is. -/
theorem Deletes.silent (h : e.storage.staged = none) (hdel : e.Deletes c) :
    (e.call P d c).2.storage.committed ≠ e.storage.committed ∧
      (e.call P d c).2.storage.epoch = e.storage.epoch := by
  rcases hdel with ⟨sid, rfl, ⟨s, hs⟩, v, hv⟩ | ⟨rfl, hne⟩
  · rw [call, deleteSession_of_live h hs]
    refine ⟨fun heq ↦ ?_, rfl⟩
    have hlookup : (e.storage.committed.erase sid.val).lookup sid.val = some v := by
      rw [show e.storage.committed.erase sid.val = e.storage.committed from heq]
      exact hv
    rw [Finmap.lookup_erase] at hlookup
    cases hlookup
  · exact ⟨fun heq ↦ hne heq.symm, rfl⟩

/-- Every other call that changes storage moves the epoch. -/
theorem epoch_lt_of_not_deletes (h : e.storage.staged = none)
    (hlimit : e.storage.epoch.toNat + 1 < 2 ^ 64) (hdel : ¬ e.Deletes c)
    (hchange : (e.call P d c).2.storage.committed ≠ e.storage.committed) :
    e.storage.epoch < (e.call P d c).2.storage.epoch := by
  rcases (call_effect (P := P) h d c).storage with
    heq | ⟨pairs, heq⟩ | ⟨sid, rfl, hout, heq⟩ | ⟨rfl, heq⟩
  · rw [heq] at hchange
    exact absurd rfl hchange
  · rw [heq, UInt64.lt_iff_toNat_lt, MemoryStorage.epoch_afterCommit, if_pos hlimit]
    omega
  · cases hs : e.sessions.lookup sid with
    | none =>
      rw [deleteSession_of_none hs] at hout
      cases hout
    | some s =>
      -- the session is live, so it is not stored, and nothing is erased
      have hblob : sid.val ∉ e.storage.committed := by
        rw [← Finmap.lookup_eq_none]
        cases hv : e.storage.committed.lookup sid.val with
        | none => rfl
        | some v => exact absurd (.inl ⟨sid, rfl, ⟨s, hs⟩, v, hv⟩) hdel
      rw [heq] at hchange
      refine absurd ?_ hchange
      apply Finmap.ext_lookup
      intro k
      show (e.storage.committed.erase sid.val).lookup k = _
      by_cases hk : k = sid.val
      · rw [hk, Finmap.lookup_erase, Finmap.lookup_eq_none.2 hblob]
      · rw [Finmap.lookup_erase_ne hk]
  · have hempty : e.storage.committed = ∅ := by
      by_contra hne
      exact hdel (.inr ⟨rfl, hne⟩)
    rw [heq] at hchange
    exact absurd hempty.symm hchange

/-- The change that a call makes to storage shows: the epoch is greater than before, and a guard that
has accepted it refuses every state of the run before the call. -/
def Shows (P : Primitives B) (r : Run B) (c : Call B) (d : Draws B) : Prop :=
  (r.engine.call P d c).2.storage.committed ≠ r.engine.storage.committed →
    r.engine.storage.epoch < (r.engine.call P d c).2.storage.epoch ∧
    ∀ (g : RollbackGuard) (old : Engine B),
      (old = r.engine ∨ ∃ ev ∈ r.log, old = ev.before) →
      (g.observe (r.engine.call P d c).2.storage.epoch).1 = .ok () →
      ((g.observe (r.engine.call P d c).2.storage.epoch).2.observe old.storage.epoch).1 =
        .error .internal

end Engine

/-- No earlier state of a run has a later epoch. -/
theorem epoch_le_of_mem_log {allow : Run B → Call B → Draws B → Prop} {r : Run B}
    (hr : (device P allow).Reachable r) :
    ∀ ev ∈ r.log, ev.before.storage.epoch ≤ r.engine.storage.epoch := by
  refine System.Reachable.invariant
    (I := fun r ↦ ∀ ev ∈ r.log, ev.before.storage.epoch ≤ r.engine.storage.epoch) ?_ ?_ hr
  · intro s hs ev hev
    rw [hs.1] at hev
    cases hev
  · rintro s t hs hle ⟨c, d, -, rfl⟩ ev hev
    have hstep := (Engine.call_effect (P := P) (device_idle hs) d c).epoch_le
    rcases List.mem_append.1 hev with hold | hnew
    · exact UInt64.le_trans (hle ev hold) hstep
    · rw [List.mem_singleton.1 hnew]
      exact hstep

/-- **Every committed change moves the rollback epoch**, exactly if it is not a deletion. In every
reachable state whose epoch is below its limit, the change of a call shows if and only if the call does
not delete stored sessions. -/
theorem change_shows_iff {allow : Run B → Call B → Draws B → Prop} {r : Run B}
    (hr : (device P allow).Reachable r) (hlimit : r.engine.storage.epoch.toNat + 1 < 2 ^ 64)
    (c : Call B) (d : Draws B) : Engine.Shows P r c d ↔ ¬ r.engine.Deletes c := by
  constructor
  · intro hshows hdel
    obtain ⟨hchange, hepoch⟩ := hdel.silent (P := P) (d := d) (device_idle hr)
    have hlt := (hshows hchange).1
    rw [hepoch] at hlt
    exact UInt64.lt_irrefl _ hlt
  · intro hdel hchange
    have hlt := Engine.epoch_lt_of_not_deletes (device_idle hr) hlimit hdel hchange
    refine ⟨hlt, fun g old hold hnew ↦ RollbackGuard.observe_older ?_ hnew⟩
    rcases hold with rfl | ⟨ev, hev, rfl⟩
    · exact hlt
    · exact UInt64.lt_of_le_of_lt (epoch_le_of_mem_log hr ev hev) hlt

open Symbolic in
/-- A new device publishes a bundle. -/
theorem change_shows_iff_bundle :
    Engine.Shows symbolic ⟨Symbolic.engine 1 .classicalV1, []⟩ (.generateBundle 1)
      (Symbolic.draws 1) := by
  refine (change_shows_iff (reachable_newDevice symbolic anyCall ⟨[], .classicalV1⟩ (deviceDraws 1))
    (by decide +kernel) (.generateBundle 1) (Symbolic.draws 1)).2 ?_
  rintro (⟨sid, heq, -⟩ | ⟨heq, -⟩) <;> cases heq

open Symbolic in
/-- **A deleted session can be restored unnoticed.** Device 2 deletes its session with device 1: storage
changes, and the epoch stays the same. -/
theorem deletion_not_shown :
    (device symbolic anyCall).Reachable (Symbolic.answered .classicalV1) ∧
      ¬ Engine.Shows symbolic (Symbolic.answered .classicalV1) (.deleteSession (secretOf 15 136))
        (Symbolic.draws 4) := by
  have hanswered : (device symbolic anyCall).Reachable (Symbolic.answered .classicalV1) :=
    reachable_extend (reachable_newDevice symbolic _ ⟨[], .classicalV1⟩ (deviceDraws 2)) trivial
  refine ⟨hanswered, fun hshows ↦ ?_⟩
  have hdel : (Symbolic.answered .classicalV1).engine.Deletes (.deleteSession (secretOf 15 136)) := by
    obtain ⟨s, hs⟩ : ∃ s, (Symbolic.answered .classicalV1).engine.sessions.lookup
        (secretOf 15 136) = some s := Option.isSome_iff_exists.1 (by decide +kernel)
    rcases (Engine.mirror sealTotal (reachable_answered .classicalV1)).slots (secretOf 15 136) with
      ⟨hnone, -⟩ | ⟨σ, s', -, hblob⟩
    · rw [hs] at hnone
      cases hnone
    · exact .inl ⟨_, rfl, ⟨s, hs⟩, _, hblob⟩
  obtain ⟨hchange, hepoch⟩ := hdel.silent (P := symbolic) (d := Symbolic.draws 4)
    (device_idle hanswered)
  have hlt := (hshows hchange).1
  rw [hepoch] at hlt
  exact UInt64.lt_irrefl _ hlt

end VoiceChatCrypto
