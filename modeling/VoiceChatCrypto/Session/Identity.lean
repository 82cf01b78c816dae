import VoiceChatCrypto.Session.Manager
import VoiceChatCrypto.Primitives.Symbolic

/-!
# Identity changes in the session manager

The baseline of a remote user, the identity that was acknowledged last, is kept in the user record. No
operation but `acknowledge_identity` changes it, and the gate of `prepare_outbound` and
`prepare_inbound` refuses every other identity.

`sweep_stale` deletes user records, however, and with a record its baseline: the next contact starts
without one, whatever its identity.
-/

open Alphabet

namespace VoiceChatCrypto

variable {B : Type} [Alphabet B] {P : Primitives B}

/-- The operations of the session manager, with what they draw. -/
inductive ManagerOp (B : Type)
  | prepareOutbound (user device : List B) (identity : IdentityMaterial B)
      (sk remoteDhPublic : Block B 32) (now : UInt64) (dhs : Block B 32) (id : Block B 16)
  | prepareInbound (user device : List B) (identity : IdentityMaterial B) (sk localDh : Block B 32)
      (now : UInt64) (id : Block B 16)
  | confirmSession (user device : List B) (sid : Block B 16)
  | receiveOnSession (user device : List B) (sid : Block B 16)
  | markFailed (user device : List B) (sid : Block B 16)
  | markDeviceStale (user device : List B) (now : UInt64)
  | sweepStale (now : UInt64)
  | acknowledgeIdentity (user : List B) (identity : IdentityMaterial B)

namespace SessionManager

variable {m m' : SessionManager B} {user device : List B}

/-- One operation: whether it succeeds, and the state it leaves. -/
def perform (P : Primitives B) (op : ManagerOp B) (m : SessionManager B) :
    Except PrimitiveError Unit × SessionManager B :=
  match op with
  | .prepareOutbound user device identity sk dh now dhs id =>
    let r := m.prepareOutbound P user device identity sk dh now dhs id
    (r.1.map fun _ ↦ (), r.2)
  | .prepareInbound user device identity sk dh now id =>
    let r := m.prepareInbound user device identity sk dh now id
    (r.1.map fun _ ↦ (), r.2)
  | .confirmSession user device sid => m.confirmSession user device sid
  | .receiveOnSession user device sid => m.receiveOnSession user device sid
  | .markFailed user device sid => m.markFailed user device sid
  | .markDeviceStale user device now => m.markDeviceStale user device now
  | .sweepStale now => (.ok (), m.sweepStale now)
  | .acknowledgeIdentity user identity => m.acknowledgeIdentity user identity

/-! ### Baselines -/

/-- The identity of a user that was acknowledged last. -/
def baseline (user : List B) (m : SessionManager B) : Option (IdentityMaterial B) :=
  (m.users.lookup user).bind fun u ↦ u.identityTracker.acknowledged

/-- No baseline is changed or lost. The baseline of a user is the identity that was acknowledged
last. -/
def Keeps (m m' : SessionManager B) : Prop := ∀ user x, m.baseline user = some x → m'.baseline user = some x

theorem Keeps.refl (m : SessionManager B) : Keeps m m := fun _ _ h ↦ h

/-- Nothing is lost in two stages when it is not lost in either. -/
theorem Keeps.trans {m'' : SessionManager B} (h : Keeps m m') (h' : Keeps m' m'') : Keeps m m'' :=
  fun user x hx ↦ h' user x (h user x hx)

/-- Writing a user record keeps the baselines, if its tracker is the one that was there. -/
theorem Keeps.insert {u u' : UserRecord B} (hu : m.users.lookup user = some u)
    (htracker : u'.identityTracker = u.identityTracker)
    (hm' : m'.users = m.users.insert user u') : Keeps m m' := by
  intro user' x hx
  unfold baseline at hx ⊢
  rw [hm']
  by_cases hne : user' = user
  · subst hne
    rw [hu] at hx
    rw [Finmap.lookup_insert, Option.bind_some, htracker]
    exact hx
  · rwa [Finmap.lookup_insert_of_ne _ hne]

/-- A device that is found is in the record of its user. -/
theorem findDevice_eq_ok {u : UserRecord B} {dev : DeviceRecord B}
    (h : m.findDevice user device = .ok (u, dev)) :
    m.users.lookup user = some u ∧ u.devices.lookup device = some dev := by
  unfold findDevice at h
  split at h
  · cases h
  · rename_i u' hu
    split at h
    · cases h
    · rename_i dev' hdev
      cases h
      exact ⟨hu, hdev⟩

/-- **An operation on a device record keeps the baselines.** -/
theorem keeps_of_findDevice {u : UserRecord B} {dev dev' : DeviceRecord B}
    (h : m.findDevice user device = .ok (u, dev))
    (hm' : m'.users = (m.putDevice user u device dev').users) : Keeps m m' := by
  refine Keeps.insert (findDevice_eq_ok h).1 ?_ hm'
  rfl

/-! ### The gate -/

/-- `ensure_user` finds the user or adds it, and loses nothing. -/
theorem ensureUser_spec (m : SessionManager B) (user : List B) :
    Keeps m (m.ensureUser user).2 ∧
      ∀ u, (m.ensureUser user).1 = .ok u → (m.ensureUser user).2.users.lookup user = some u := by
  unfold ensureUser
  cases hu : m.users.lookup user with
  | some u =>
    refine ⟨.refl m, fun u' hu' ↦ ?_⟩
    cases hu'
    exact hu
  | none =>
    dsimp only
    split
    · exact ⟨.refl m, nofun⟩
    · refine ⟨?_, fun u' hu' ↦ ?_⟩
      · intro user' x hx
        unfold baseline at hx ⊢
        by_cases hne : user' = user
        · subst hne
          rw [hu] at hx
          cases hx
        · rwa [Finmap.lookup_insert_of_ne _ hne]
      · cases hu'
        exact Finmap.lookup_insert _

theorem ensureUserDevice_keeps (m : SessionManager B) (user device : List B)
    (identity : IdentityMaterial B) : Keeps m (m.ensureUserDevice user device identity).2 := by
  obtain ⟨hkeeps, hlookup⟩ := ensureUser_spec m user
  unfold ensureUserDevice
  generalize m.ensureUser user = r at hkeeps hlookup
  obtain ⟨res, m₁⟩ := r
  cases res with
  | error err => exact hkeeps
  | ok u =>
    dsimp only
    split
    · exact hkeeps
    · split
      · exact hkeeps
      · refine hkeeps.trans (.insert (hlookup u rfl) ?_ rfl)
        rfl

/-- **The gate** keeps the baselines, and lets an identity through only if it is not a change. -/
theorem openGate_spec (m : SessionManager B) (user device : List B) (identity : IdentityMaterial B) :
    Keeps m (m.openGate user device identity).2 ∧
      ∀ u dev, (m.openGate user device identity).1 = .ok (u, dev) →
        (m.openGate user device identity).2.users.lookup user = some u ∧
          ∀ x, m.baseline user = some x → x = identity := by
  have hkeeps := ensureUserDevice_keeps m user device identity
  unfold openGate
  generalize m.ensureUserDevice user device identity = r at hkeeps
  obtain ⟨res, m₁⟩ := r
  cases res with
  | error err => exact ⟨hkeeps, fun _ _ h ↦ by cases h⟩
  | ok _ =>
    dsimp only at hkeeps ⊢
    cases hu : m₁.users.lookup user with
    | none => exact ⟨hkeeps, fun _ _ h ↦ by cases h⟩
    | some u =>
      dsimp only
      split
      · exact ⟨hkeeps, fun _ _ h ↦ by cases h⟩
      · rename_i hchanged
        cases hdev : u.devices.lookup device with
        | none => exact ⟨hkeeps, fun _ _ h ↦ by cases h⟩
        | some dev =>
          refine ⟨hkeeps, fun u' dev' heq ↦ ?_⟩
          cases heq
          refine ⟨hu, fun x hx ↦ ?_⟩
          -- an acknowledged identity that is not a change is the acknowledged one
          have hack : u.identityTracker.acknowledged = some x := by
            have hbase := hkeeps user x hx
            rwa [baseline, hu, Option.bind_some] at hbase
          by_contra hne
          exact hchanged (IdentityTracker.isChanged_observe hack hne)

/-- `prepare_outbound` loses no acknowledgement, and succeeds only for an identity that agrees with
it. -/
theorem prepareOutbound_spec (P : Primitives B) (m : SessionManager B) (user device : List B)
    (identity : IdentityMaterial B) (sk dh : Block B 32) (now : UInt64) (dhs : Block B 32)
    (id : Block B 16) :
    Keeps m (m.prepareOutbound P user device identity sk dh now dhs id).2 ∧
      ∀ sid, (m.prepareOutbound P user device identity sk dh now dhs id).1 = .ok sid →
        ∀ x, m.baseline user = some x → x = identity := by
  obtain ⟨hkeeps, hgate⟩ := openGate_spec m user device identity
  unfold prepareOutbound
  generalize m.openGate user device identity = r at hkeeps hgate
  obtain ⟨res, m₁⟩ := r
  cases res with
  | error err => exact ⟨hkeeps, fun _ h ↦ by cases h⟩
  | ok out =>
    obtain ⟨u, dev⟩ := out
    obtain ⟨hu, hx⟩ := hgate u dev rfl
    refine ⟨?_, fun _ _ ↦ hx⟩
    dsimp only
    split
    · exact hkeeps
    · split
      · exact hkeeps
      · refine hkeeps.trans (.insert hu ?_ rfl)
        rfl

theorem prepareInbound_spec (m : SessionManager B) (user device : List B)
    (identity : IdentityMaterial B) (sk dh : Block B 32) (now : UInt64) (id : Block B 16) :
    Keeps m (m.prepareInbound user device identity sk dh now id).2 ∧
      ∀ sid, (m.prepareInbound user device identity sk dh now id).1 = .ok sid →
        ∀ x, m.baseline user = some x → x = identity := by
  obtain ⟨hkeeps, hgate⟩ := openGate_spec m user device identity
  unfold prepareInbound
  generalize m.openGate user device identity = r at hkeeps hgate
  obtain ⟨res, m₁⟩ := r
  cases res with
  | error err => exact ⟨hkeeps, fun _ h ↦ by cases h⟩
  | ok out =>
    obtain ⟨u, dev⟩ := out
    obtain ⟨hu, hx⟩ := hgate u dev rfl
    refine ⟨?_, fun _ _ ↦ hx⟩
    dsimp only
    split
    · exact hkeeps
    · refine hkeeps.trans (.insert hu ?_ rfl)
      rfl

/-! ### The other operations -/

theorem confirmSession_keeps (m : SessionManager B) (user device : List B) (sid : Block B 16) :
    Keeps m (m.confirmSession user device sid).2 := by
  unfold confirmSession
  cases hdev : m.findDevice user device with
  | error err => exact .refl m
  | ok out =>
    dsimp only
    split
    · exact .refl m
    · split
      · exact keeps_of_findDevice hdev rfl
      · exact .refl m

theorem markDeviceStale_keeps (m : SessionManager B) (user device : List B) (now : UInt64) :
    Keeps m (m.markDeviceStale user device now).2 := by
  unfold markDeviceStale
  cases hdev : m.findDevice user device with
  | error err => exact .refl m
  | ok out => exact keeps_of_findDevice hdev rfl

theorem receiveOnSession_keeps (m : SessionManager B) (user device : List B) (sid : Block B 16) :
    Keeps m (m.receiveOnSession user device sid).2 := by
  unfold receiveOnSession
  cases hdev : m.findDevice user device with
  | error err => exact .refl m
  | ok out =>
    dsimp only
    split
    · split
      · exact .refl m
      · exact keeps_of_findDevice hdev rfl
    · exact .refl m

theorem markFailed_keeps (m : SessionManager B) (user device : List B) (sid : Block B 16) :
    Keeps m (m.markFailed user device sid).2 := by
  unfold markFailed
  cases hdev : m.findDevice user device with
  | error err => exact .refl m
  | ok out =>
    dsimp only
    split
    · exact keeps_of_findDevice hdev rfl
    · split
      · exact .refl m
      · exact keeps_of_findDevice hdev rfl

/-- A sweep that deletes no user with a baseline: the record has not expired, nor has every device. -/
def Spares (now : UInt64) (m : SessionManager B) : Prop :=
  ∀ user u x, m.users.lookup user = some u → u.identityTracker.acknowledged = some x →
    DeviceRecord.expired now u.stale u.staleTimestamp = false ∧
      ∃ device dev, u.devices.lookup device = some dev ∧
        DeviceRecord.expired now dev.stale dev.staleTimestamp = false

/-- A sweep that spares every user with an acknowledged identity loses none. -/
theorem sweepStale_keeps {now : UInt64} (h : m.Spares now) : Keeps m (m.sweepStale now) := by
  intro user x hx
  obtain ⟨u, hu, hack⟩ := Option.bind_eq_some_iff.1 hx
  obtain ⟨huser, device, dev, hdev, hfresh⟩ := h user u x hu hack
  let devices := u.devices.filterMapValues fun dev ↦
    if DeviceRecord.expired now dev.stale dev.staleTimestamp then none else some dev
  have hsize : devices.size ≠ 0 := by
    have hlookup : devices.lookup device = some dev := by
      rw [Dict.lookup_filterMapValues, hdev, Option.bind_some, hfresh]
      rfl
    have hmem : device ∈ devices.keys :=
      Finmap.mem_keys.2 (Finmap.mem_of_lookup_eq_some hlookup)
    exact Finset.card_ne_zero_of_mem hmem
  have hswept : (m.sweepStale now).users.lookup user = some { u with devices } := by
    unfold sweepStale
    rw [Dict.lookup_filterMapValues, hu, Option.bind_some, huser]
    exact if_neg hsize
  rw [baseline, hswept]
  exact hack

/-- Acknowledging sets the baseline of a known user, and no other. -/
theorem acknowledgeIdentity_spec (m : SessionManager B) (user : List B) (x : IdentityMaterial B) :
    (m.acknowledgeIdentity user x).1 = .ok () ∧
        (m.acknowledgeIdentity user x).2.baseline user = some x ∧
        (∀ user', user' ≠ user → (m.acknowledgeIdentity user x).2.baseline user' = m.baseline user') ∨
      m.users.lookup user = none ∧ m.acknowledgeIdentity user x = (.error .internal, m) := by
  unfold acknowledgeIdentity
  cases hu : m.users.lookup user with
  | none => exact .inr ⟨rfl, rfl⟩
  | some u =>
    refine .inl ⟨rfl, ?_, fun user' hne ↦ ?_⟩
    · rw [baseline, Finmap.lookup_insert]
      rfl
    · rw [baseline, baseline, Finmap.lookup_insert_of_ne _ hne]

end SessionManager

/-! ### Runs -/

/-- A run of the session manager so far, with its operations and whether they succeeded. -/
structure ManagerRun (B : Type) [Alphabet B] where
  /-- The manager now. -/
  manager : SessionManager B
  /-- The operations so far, the oldest first, each with its result. -/
  log : List (ManagerOp B × Except PrimitiveError Unit)

namespace ManagerRun

/-- The run after one more operation. -/
def extend (P : Primitives B) (r : ManagerRun B) (op : ManagerOp B) : ManagerRun B :=
  { manager := (r.manager.perform P op).2, log := r.log ++ [(op, (r.manager.perform P op).1)] }

/-- The identity that an operation has acknowledged for a user. -/
def acknowledges (user : List B) : ManagerOp B × Except PrimitiveError Unit → Option (IdentityMaterial B)
  | (.acknowledgeIdentity user' x, .ok _) => if user' = user then some x else none
  | _ => none

/-- The identity of a user that was acknowledged last. -/
def lastAcknowledged (log : List (ManagerOp B × Except PrimitiveError Unit)) (user : List B) :
    Option (IdentityMaterial B) :=
  log.reverse.findSome? (acknowledges user)

/-- The last acknowledgement of a longer log is the new one, or the one before. -/
theorem lastAcknowledged_append (log : List (ManagerOp B × Except PrimitiveError Unit))
    (ev : ManagerOp B × Except PrimitiveError Unit) (user : List B) :
    lastAcknowledged (log ++ [ev]) user = (acknowledges user ev).or (lastAcknowledged log user) := by
  unfold lastAcknowledged
  rw [List.reverse_append, List.reverse_singleton, List.singleton_append, List.findSome?_cons]
  cases acknowledges user ev <;> rfl

end ManagerRun

/-- The runs of a session manager: any operations for which `allow` holds. -/
def manager (P : Primitives B) (allow : ManagerRun B → ManagerOp B → Prop) : System (ManagerRun B) where
  start r := r.log = [] ∧ ∃ user device identity, r.manager = SessionManager.new user device identity
  step r r' := ∃ op, allow r op ∧ r' = r.extend P op

/-- Every sweep spares the users with a baseline. -/
def sparingSweeps : ManagerRun B → ManagerOp B → Prop :=
  fun r op ↦ ∀ now, op = .sweepStale now → r.manager.Spares now

namespace SessionManager

/-- **One operation** keeps every baseline, except that an acknowledgement sets one. -/
theorem perform_spec {m : SessionManager B} (op : ManagerOp B)
    (hsweep : ∀ now, op = .sweepStale now → m.Spares now) {user : List B} {x : IdentityMaterial B}
    (h : (ManagerRun.acknowledges user (op, (m.perform P op).1)).or (m.baseline user) = some x) :
    (m.perform P op).2.baseline user = some x := by
  cases op with
  | prepareOutbound user' device identity sk dh now dhs id =>
    exact (prepareOutbound_spec P m user' device identity sk dh now dhs id).1 user x h
  | prepareInbound user' device identity sk dh now id =>
    exact (prepareInbound_spec m user' device identity sk dh now id).1 user x h
  | confirmSession user' device sid => exact confirmSession_keeps m user' device sid user x h
  | receiveOnSession user' device sid => exact receiveOnSession_keeps m user' device sid user x h
  | markFailed user' device sid => exact markFailed_keeps m user' device sid user x h
  | markDeviceStale user' device now => exact markDeviceStale_keeps m user' device now user x h
  | sweepStale now => exact sweepStale_keeps (hsweep now rfl) user x h
  | acknowledgeIdentity user' y =>
    dsimp only [perform] at h ⊢
    rcases acknowledgeIdentity_spec m user' y with ⟨hok, hself, hother⟩ | ⟨-, herr⟩
    · rw [hok] at h
      by_cases hne : user = user'
      · subst hne
        rw [ManagerRun.acknowledges, if_pos rfl] at h
        rw [hself]
        exact h
      · rw [ManagerRun.acknowledges, if_neg (Ne.symm hne)] at h
        rw [hother user hne]
        exact h
    · rw [herr] at h ⊢
      exact h

end SessionManager

/-- **An identity change is cleared only by acknowledgement.** In every run whose sweeps spare the users
with a baseline, `prepare_outbound` and `prepare_inbound` refuse every identity of a user but the one
that was acknowledged last. -/
theorem change_refused {r : ManagerRun B} (hr : (manager P sparingSweeps).Reachable r) {user : List B}
    {x y : IdentityMaterial B} (hlast : ManagerRun.lastAcknowledged r.log user = some x) (hy : y ≠ x) :
    (∀ device sk dh now dhs id, ∃ err,
      (r.manager.prepareOutbound P user device y sk dh now dhs id).1 = .error err) ∧
    ∀ device sk dh now id, ∃ err,
      (r.manager.prepareInbound user device y sk dh now id).1 = .error err := by
  have hbase : ∀ user x, ManagerRun.lastAcknowledged r.log user = some x →
      r.manager.baseline user = some x := by
    refine System.Reachable.invariant (I := fun r : ManagerRun B ↦ ∀ user x,
      ManagerRun.lastAcknowledged r.log user = some x → r.manager.baseline user = some x) ?_ ?_ hr
    · intro s hs user x h
      rw [hs.1] at h
      cases h
    · rintro s t - hold ⟨op, hallow, rfl⟩ user x h
      refine SessionManager.perform_spec op hallow ?_
      rw [ManagerRun.extend, ManagerRun.lastAcknowledged_append] at h
      cases hack : ManagerRun.acknowledges user (op, (s.manager.perform P op).1) with
      | some y =>
        rw [hack] at h
        exact h
      | none =>
        rw [hack, Option.none_or] at h
        exact hold user x h
  have hx := hbase user x hlast
  refine ⟨fun device sk dh now dhs id ↦ ?_, fun device sk dh now id ↦ ?_⟩
  · cases hout : (r.manager.prepareOutbound P user device y sk dh now dhs id).1 with
    | error err => exact ⟨err, rfl⟩
    | ok sid =>
      have hspec := SessionManager.prepareOutbound_spec P r.manager user device y sk dh now dhs id
      exact absurd (hspec.2 sid hout x hx).symm hy
  · cases hout : (r.manager.prepareInbound user device y sk dh now id).1 with
    | error err => exact ⟨err, rfl⟩
    | ok sid =>
      have hspec := SessionManager.prepareInbound_spec r.manager user device y sk dh now id
      exact absurd (hspec.2 sid hout x hx).symm hy

namespace Symbolic

open VoiceChatCrypto.Sym

/-- The identity named by a number. -/
def identityOf (n : ℕ) : IdentityMaterial Sym := ⟨symbolic.publicKey (block 31 (.lit n)), none⟩

/-- A first session with a device of user 7. -/
def contactOp (n : ℕ) : ManagerOp Sym :=
  .prepareOutbound [.lit 7] [.lit 8] (identityOf n) (Block.zero 32) (block 31 (.lit 1)) 0
    (block 31 (.lit 1)) (block 15 (.lit 1))

/-- A manager that has contacted user 7 under an identity and has acknowledged it. -/
def acquainted : ManagerRun Sym :=
  ((ManagerRun.mk (SessionManager.new [.lit 1] [.lit 2] (identityOf 1)) []).extend symbolic
    (contactOp 2)).extend symbolic (.acknowledgeIdentity [.lit 7] (identityOf 2))

/-- The same after the only device of the user has become stale and was swept. -/
def swept : ManagerRun Sym :=
  (acquainted.extend symbolic (.markDeviceStale [.lit 7] [.lit 8] 0)).extend symbolic
    (.sweepStale 86401)

/-- The example is a run under every assumption on sweeps. -/
theorem reachable_acquainted {allow : ManagerRun Sym → ManagerOp Sym → Prop}
    (h : ∀ r op, (∀ now, op ≠ .sweepStale now) → allow r op) :
    (manager symbolic allow).Reachable acquainted := by
  have hstart : (manager symbolic allow).Reachable
      (ManagerRun.mk (SessionManager.new [.lit 1] [.lit 2] (identityOf 1)) []) :=
    .of_start ⟨rfl, _, _, _, rfl⟩
  have hop : ∀ r : ManagerRun Sym, allow r (contactOp 2) := fun r ↦ h r _ (by simp [contactOp])
  have hack : ∀ r : ManagerRun Sym, allow r (.acknowledgeIdentity [.lit 7] (identityOf 2)) :=
    fun r ↦ h r _ (by simp)
  exact (hstart.of_step ⟨_, hop _, rfl⟩).of_step ⟨_, hack _, rfl⟩

end Symbolic

open Symbolic in
/-- A contact under another identity is refused. -/
theorem change_refused_acquainted :
    ManagerRun.lastAcknowledged acquainted.log [.lit 7] = some (identityOf 2) ∧
      ∃ err, (acquainted.manager.prepareOutbound symbolic [.lit 7] [.lit 8] (identityOf 3)
        (Block.zero 32) (Block.zero 32) 0 (Block.zero 32) (Block.zero 16)).1 = .error err := by
  have hlast : ManagerRun.lastAcknowledged acquainted.log [.lit 7] = some (identityOf 2) := by
    decide +kernel
  have hreach : (manager symbolic sparingSweeps).Reachable acquainted :=
    reachable_acquainted fun r op hop now heq ↦ absurd heq (hop now)
  exact ⟨hlast, (change_refused hreach hlast (by decide)).1 _ _ _ _ _ _⟩

open Symbolic in
/-- **A sweep clears an identity change.** After the record of user 7 was swept, a contact under another
identity than the acknowledged one succeeds. -/
theorem change_cleared_by_sweep :
    (manager symbolic fun _ _ ↦ True).Reachable swept ∧
      ManagerRun.lastAcknowledged swept.log [.lit 7] = some (identityOf 2) ∧
      (swept.manager.prepareOutbound symbolic [.lit 7] [.lit 8] (identityOf 3) (Block.zero 32)
        (Block.zero 32) 0 (Block.zero 32) (Block.zero 16)).1 = .ok (Block.zero 16) := by
  refine ⟨?_, by decide +kernel, by decide +kernel⟩
  have hreach : (manager symbolic fun _ _ ↦ True).Reachable acquainted :=
    reachable_acquainted fun _ _ _ ↦ trivial
  exact (hreach.of_step ⟨.markDeviceStale [.lit 7] [.lit 8] 0, trivial, rfl⟩).of_step
    ⟨.sweepStale 86401, trivial, rfl⟩

end VoiceChatCrypto
