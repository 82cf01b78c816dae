import VoiceChatCrypto.Session.Steps

/-!
# The count of initiating sessions

`initiating_count` goes up when `prepare_outbound` creates a session and down when `confirm_session`
confirms one. A session may cease to be initiating in two more ways, and neither is counted:
`mark_failed` fails it, and `sweep_stale` deletes its record.

The count never falls behind the sessions, so what was missed once stays: a run keeps the count exact
exactly when no operation of it fails or deletes an initiating session.
-/

open Alphabet

namespace VoiceChatCrypto

variable {B : Type} [Alphabet B] {P : Primitives B}

theorem DeviceRecord.initiating_of_none {dev : DeviceRecord B} (h : dev.inactive = [])
    (hactive : dev.active = none) : dev.initiating = 0 := by
  rw [DeviceRecord.initiating, h, hactive]
  rfl

/-- A device with an active session counts for one when it is initiating. -/
theorem DeviceRecord.initiating_of_some {dev : DeviceRecord B} (h : dev.inactive = [])
    {a : SessionRecord B} (hactive : dev.active = some a) :
    dev.initiating = if a.status = .initiating then 1 else 0 := by
  rw [DeviceRecord.initiating, h, hactive]
  simp [List.countP_cons]

/-- The device with another status of its active session. -/
theorem DeviceRecord.initiating_withStatus {dev : DeviceRecord B} (h : dev.inactive = [])
    (a : SessionRecord B) {status : SessionStatus} (hstatus : status ≠ .initiating) :
    DeviceRecord.initiating { dev with active := some { a with status } } = 0 := by
  rw [DeviceRecord.initiating, h]
  simp [hstatus]

namespace SessionManager

variable {m m' : SessionManager B} {user device : List B}

/-- The sum over all devices changes with the rewritten record. -/
theorem Rewrites.initiating {dev dev' : DeviceRecord B} (h : Rewrites user device dev dev' m m') :
    m'.initiating + dev.initiating = m.initiating + dev'.initiating := by
  obtain ⟨u, hu, hdev, hm'⟩ := h
  have hsum := initiating_putDevice hu dev' hm'
  rwa [hdev, Option.elim_some] at hsum

/-- Where no device has inactive sessions, the rewritten one has none. -/
theorem Rewrites.inactive {dev dev' : DeviceRecord B} (h : Rewrites user device dev dev' m m')
    (hm : m.NoInactive) : dev.inactive = [] :=
  hm user device dev h.choose_spec.2.1

/-- A creation adds one, if the session is initiating and the one in its place was not. -/
theorem Creates.initiating {kept : SessionRecord B → Bool} {record : SessionRecord B}
    (h : Creates kept user device record m m') (hm : m.NoInactive)
    (hkept : ∀ a : SessionRecord B, a.status = .initiating → kept a = true) :
    m'.initiating = m.initiating + if record.status = .initiating then 1 else 0 := by
  obtain ⟨m₁, dev, dev', hopened, hfilter, hactive, hinactive, hrewrites⟩ := h.rewrites
  have hdev := hrewrites.inactive (hopened.noInactive hm)
  have hsum := hrewrites.initiating
  have hold : dev.initiating = 0 := by
    cases ha : dev.active with
    | none => exact DeviceRecord.initiating_of_none hdev ha
    | some a =>
      rw [DeviceRecord.initiating_of_some hdev ha, if_neg]
      intro hstatus
      rw [ha, Option.filter_some, if_pos (hkept a hstatus)] at hfilter
      cases hfilter
  rwa [DeviceRecord.initiating_of_some (hinactive hdev) hactive, hold, hopened.initiating,
    Nat.add_zero] at hsum

/-- An operation that spares the initiating sessions: it does not fail one, nor delete a record with
one. -/
def SparesInitiating : SessionManager B × ManagerOp B → Prop
  | (m, .markFailed user device sid) =>
    ∀ dev a, m.device? user device = some dev → dev.active = some a → a.id = sid →
      a.status ≠ .initiating
  | (m, .sweepStale now) =>
    ∀ user u device dev, m.users.lookup user = some u → u.devices.lookup device = some dev →
      0 < dev.initiating → DeviceRecord.expired now u.stale u.staleTimestamp = false ∧
        DeviceRecord.expired now dev.stale dev.staleTimestamp = false
  | _ => True

/-- The initiating sessions with a user that a sweep keeps. -/
def keptInitiating (now : UInt64) (u : UserRecord B) : ℕ :=
  if DeviceRecord.expired now u.stale u.staleTimestamp then 0
  else u.devices.sum fun dev ↦
    if DeviceRecord.expired now dev.stale dev.staleTimestamp then 0 else dev.initiating

/-- A user of whom a sweep keeps no device has no initiating session left. -/
theorem initiating_sweptUser (now : UInt64) (u : UserRecord B) :
    (sweptUser now u).elim 0 UserRecord.initiating = keptInitiating now u := by
  unfold sweptUser keptInitiating
  split
  · rfl
  · have hsum : (u.devices.filterMapValues fun dev ↦
        if DeviceRecord.expired now dev.stale dev.staleTimestamp then none else some dev).sum
          DeviceRecord.initiating =
        u.devices.sum fun dev ↦
          if DeviceRecord.expired now dev.stale dev.staleTimestamp then 0 else dev.initiating := by
      rw [Dict.sum_filterMapValues]
      congr 1
      funext dev
      split <;> rfl
    dsimp only
    split
    · rename_i hsize
      rw [← hsum, Option.elim_none, eq_comm, Dict.sum_eq_zero_iff]
      intro device dev hdev
      have hmem := Finmap.mem_keys.2 (Finmap.mem_of_lookup_eq_some hdev)
      exact absurd hsize (Finset.card_ne_zero_of_mem hmem)
    · exact hsum

theorem initiating_sweepStale (m : SessionManager B) (now : UInt64) :
    (m.sweepStale now).initiating = m.users.sum (keptInitiating now) := by
  rw [initiating, users_sweepStale, Dict.sum_filterMapValues]
  congr 1
  funext u
  exact initiating_sweptUser now u

/-- What a sweep keeps of the sessions with one user. -/
theorem keptInitiating_le (now : UInt64) (u : UserRecord B) : keptInitiating now u ≤ u.initiating := by
  unfold keptInitiating
  split
  · exact Nat.zero_le _
  · refine Dict.sum_le_sum fun device dev _ ↦ ?_
    split
    · exact Nat.zero_le _
    · exact le_rfl

/-- A sweep keeps all initiating sessions of a user exactly when none of their devices has expired.
-/
theorem keptInitiating_eq_iff (now : UInt64) (u : UserRecord B) :
    keptInitiating now u = u.initiating ↔
      ∀ device dev, u.devices.lookup device = some dev → 0 < dev.initiating →
        DeviceRecord.expired now u.stale u.staleTimestamp = false ∧
          DeviceRecord.expired now dev.stale dev.staleTimestamp = false := by
  unfold keptInitiating
  split
  · rename_i hexpired
    rw [eq_comm, UserRecord.initiating, Dict.sum_eq_zero_iff]
    refine forall₃_congr fun device dev _ ↦ ?_
    simp only [hexpired, Bool.true_eq_false, false_and, imp_false, Nat.pos_iff_ne_zero, not_not]
  · rename_i hfresh
    rw [UserRecord.initiating, Dict.sum_eq_sum_iff]
    · refine forall₃_congr fun device dev _ ↦ ?_
      rw [Bool.not_eq_true] at hfresh
      split
      · rename_i hexpired
        rw [eq_comm]
        simp only [hexpired, Bool.true_eq_false, and_false, imp_false, Nat.pos_iff_ne_zero, not_not]
      · rename_i hlive
        rw [Bool.not_eq_true] at hlive
        simp only [hfresh, hlive, and_self, implies_true]
    · intro device dev _
      split
      · exact Nat.zero_le _
      · exact le_rfl

/-- **A sweep keeps the number of initiating sessions exactly when it deletes none.** -/
theorem initiating_sweepStale_eq_iff (m : SessionManager B) (now : UInt64) :
    (m.sweepStale now).initiating = m.initiating ↔ SparesInitiating (m, .sweepStale now) := by
  rw [initiating_sweepStale, initiating, Dict.sum_eq_sum_iff fun _ u _ ↦ keptInitiating_le now u]
  constructor
  · intro h user u device dev hu hdev
    exact (keptInitiating_eq_iff now u).1 (h user u hu) device dev hdev
  · intro h user u hu
    exact (keptInitiating_eq_iff now u).2 fun device dev hdev ↦ h user u device dev hu hdev

/-! ### The count -/

/-- The count is the number of initiating sessions, over all users and devices. -/
def CountExact (m : SessionManager B) : Prop := m.initiatingCount = m.initiating

/-- An initiating session is one that `prepare_outbound` returns as it is. -/
theorem keptOutbound_of_initiating {a : SessionRecord B} (h : a.status = .initiating) :
    keptOutbound a = true :=
  decide_eq_true (.inr h)

/-- **One operation** keeps the count exact if and only if it spares the initiating sessions. -/
theorem countExact_after (hm : m.NoInactive) (hexact : m.CountExact) (op : ManagerOp B) :
    (m.after P op).CountExact ↔ SparesInitiating (m, op) := by
  unfold CountExact at hexact ⊢
  cases op with
  | prepareOutbound user device identity sk dh now dhs id =>
    refine iff_of_true ?_ trivial
    obtain ⟨hstanding, hnone⟩ := prepareOutbound_cases P m user device identity sk dh now dhs id
    dsimp only [after, perform]
    cases h : m.standing keptOutbound user device identity with
    | some a => rwa [hstanding a h]
    | none =>
      rcases hnone h with ⟨-, hopened⟩ | ⟨-, hcount, record, -, hstatus, hcreates⟩
      · rw [hopened.count, hopened.initiating, hexact]
      · have hsum := hcreates.initiating hm fun a ↦ keptOutbound_of_initiating
        rw [if_pos hstatus] at hsum
        rw [hcount, hsum, hexact]
  | prepareInbound user device identity sk dh now id =>
    refine iff_of_true ?_ trivial
    obtain ⟨hstanding, hnone⟩ := prepareInbound_cases m user device identity sk dh now id
    dsimp only [after, perform]
    cases h : m.standing keptInbound user device identity with
    | some a => rwa [hstanding a h]
    | none =>
      rcases hnone h with ⟨-, hopened⟩ | ⟨-, hcount, record, -, hstatus, hcreates⟩
      · rw [hopened.count, hopened.initiating, hexact]
      · have hsum := hcreates.initiating hm fun a _ ↦ rfl
        rw [if_neg (by rw [hstatus]; decide)] at hsum
        rw [hcount, hsum, hexact]
        rfl
  | confirmSession user device sid =>
    refine iff_of_true ?_ trivial
    dsimp only [after, perform]
    rcases confirmSession_cases m user device sid with heq | ⟨hcount, dev, a, ha, hstatus, hrw⟩
    · rwa [heq]
    · have hinactive := hrw.inactive hm
      have hold := DeviceRecord.initiating_of_some hinactive ha
      have hnew := DeviceRecord.initiating_withStatus hinactive a
        (show SessionStatus.active ≠ .initiating by decide)
      have hsum := hrw.initiating
      rw [if_pos hstatus] at hold
      rw [hcount, hexact]
      omega
  | receiveOnSession user device sid =>
    refine iff_of_true ?_ trivial
    dsimp only [after, perform]
    rwa [receiveOnSession_eq hm]
  | markFailed user device sid =>
    dsimp only [after, perform]
    rcases markFailed_cases hm user device sid with ⟨heq, hother⟩ | ⟨hcount, dev, a, ha, hid, hrw⟩
    · rw [heq]
      exact iff_of_true hexact fun dev a hdev ha hid ↦ absurd hid (hother dev a hdev ha)
    · have hinactive := hrw.inactive hm
      have hold := DeviceRecord.initiating_of_some hinactive ha
      have hnew := DeviceRecord.initiating_withStatus hinactive a
        (show SessionStatus.failed ≠ .initiating by decide)
      have hsum := hrw.initiating
      rw [hcount, hexact]
      constructor
      · rintro heq dev' a' hdev' ha' -
        obtain ⟨-, -, hdev, -⟩ := hrw
        rw [hdev] at hdev'
        cases hdev'
        rw [ha] at ha'
        cases ha'
        intro hstatus
        rw [if_pos hstatus] at hold
        omega
      · intro hspares
        obtain ⟨-, -, hdev, -⟩ := hrw
        rw [if_neg (hspares dev a hdev ha hid)] at hold
        omega
  | markDeviceStale user device now =>
    refine iff_of_true ?_ trivial
    dsimp only [after, perform]
    rcases markDeviceStale_cases m user device now with heq | ⟨hcount, dev, hrw⟩
    · rwa [heq]
    · rw [hcount, hexact]
      exact (Nat.add_right_cancel hrw.initiating).symm
  | sweepStale now =>
    rw [← initiating_sweepStale_eq_iff, eq_comm]
    dsimp only [after, perform]
    rw [show (m.sweepStale now).initiatingCount = m.initiatingCount from rfl, hexact]
  | acknowledgeIdentity user x =>
    refine iff_of_true ?_ trivial
    obtain ⟨hcount, hsum, -⟩ := acknowledgeIdentity_device? m user x
    dsimp only [after, perform]
    rw [hcount, hsum, hexact]

/-- `prepare_outbound` refuses behind the gate only when that many sessions are initiating. -/
def LimitReal (P : Primitives B) (m : SessionManager B) : Prop :=
  ∀ user device identity sk dh now dhs id r err, (m.openGate user device identity).1 = .ok r →
    (m.prepareOutbound P user device identity sk dh now dhs id).1 = .error err →
    maxInitiatingSessions ≤ m.initiating

/-- An exact count makes the limit a limit on sessions. -/
theorem CountExact.limitReal (hexact : m.CountExact) : m.LimitReal P := by
  intro user device identity sk dh now dhs id r err hgate herr
  have hcount := (openGate_opened m user device identity).1.count
  unfold prepareOutbound at herr
  cases hout : m.openGate user device identity with
  | mk res m₁ =>
  rw [hout] at herr hgate hcount
  cases hgate
  obtain ⟨u, dev⟩ := r
  dsimp only at herr hcount
  split at herr
  · cases herr
  · split at herr
    · rename_i hlimit
      rw [hcount] at hlimit
      exact hexact ▸ hlimit
    · cases herr

end SessionManager

open SessionManager in
/-- **When the count of initiating sessions is exact.** In a run of any operations the count is the
number of initiating sessions in every state, and `prepare_outbound` refuses for the limit only when so
many are initiating, if and only if no operation of the run fails an initiating session or deletes a
record with one. -/
theorem initiating_count_exact_iff (P : Primitives B) (user device : List B)
    (identity : IdentityMaterial B) (ops : List (ManagerOp B)) :
    (∀ past rest, ops = past ++ rest →
      (Run.last (after P) (new user device identity) past).CountExact ∧
        (Run.last (after P) (new user device identity) past).LimitReal P) ↔
      Run.Throughout (fun _ v ↦ SparesInitiating v)
        (Run.visits (after P) (new user device identity) ops) := by
  refine (Run.forall_last_iff (Q := fun m : SessionManager B ↦ m.CountExact ∧ m.LimitReal P) ops).trans ?_
  have hstart : (new user device identity : SessionManager B).CountExact := rfl
  rw [and_iff_right ⟨hstart, hstart.limitReal⟩]
  refine Run.throughout_congr (fun ops op hexact _ ↦ ?_) ops
  have hm : (Run.last (after P) (new user device identity) ops).NoInactive :=
    last_noInactive P (new_noInactive _ _ _) ops
  have hlast := (Run.forall_last_iff (Q := fun m : SessionManager B ↦ m.CountExact ∧ m.LimitReal P) ops).2
    ⟨⟨hstart, hstart.limitReal⟩, hexact⟩ ops [] (List.append_nil ops).symm
  rw [← countExact_after hm hlast.1]
  exact ⟨fun h ↦ h.1, fun h ↦ ⟨h, h.limitReal⟩⟩

namespace Symbolic

/-- A session with user 7 that fails before it is confirmed. -/
def failedContact : List (ManagerOp Sym) :=
  [contactOp 2, .markFailed [.lit 7] [.lit 8] (Sym.block 15 (.lit 1))]

end Symbolic

open Symbolic in
/-- **A failed session stays counted.** -/
theorem failed_session_counted :
    (Run.last (SessionManager.after symbolic)
        (SessionManager.new [.lit 1] [.lit 2] (identityOf 1)) failedContact).initiatingCount = 1 ∧
      (Run.last (SessionManager.after symbolic)
        (SessionManager.new [.lit 1] [.lit 2] (identityOf 1)) failedContact).initiating = 0 := by
  decide +kernel

end VoiceChatCrypto
