import VoiceChatCrypto.Session.Steps

/-!
# The identity a session was created for

`prepare_outbound` and `prepare_inbound` are given the identity of the remote device, and compare it
with the identity that was acknowledged for the *user*. With the identity their standing session was
created for they do not compare it: the session record does not have it, and the identity in the
device record is written once and never read.

A session therefore stays bound to its identity exactly in those runs in which the callers see to it
themselves: a call that finds a standing session gives the identity of the call before it.
-/

open Alphabet

namespace VoiceChatCrypto

variable {B : Type} [Alphabet B] {P : Primitives B}

/-- What `prepare_outbound` and `prepare_inbound` have in common: whom they are for, and which
sessions they return as they are. -/
structure PrepareCall (B : Type) [Alphabet B] where
  /-- The user the session is with. -/
  user : List B
  /-- The device the session is with. -/
  device : List B
  /-- The identity that the caller has of the device. -/
  identity : IdentityMaterial B
  /-- Whether an active session is returned as it is. -/
  kept : SessionRecord B → Bool

namespace SessionManager

/-- The operations that prepare a session. -/
def call? : ManagerOp B → Option (PrepareCall B)
  | .prepareOutbound user device identity _ _ _ _ _ => some ⟨user, device, identity, keptOutbound⟩
  | .prepareInbound user device identity _ _ _ _ => some ⟨user, device, identity, keptInbound⟩
  | _ => none

/-- The session that a call finds and returns. -/
def standingFor (c : PrepareCall B) (m : SessionManager B) : Option (SessionRecord B) :=
  m.standing c.kept c.user c.device c.identity

/-- The session id that an operation returns. -/
def returned (P : Primitives B) (m : SessionManager B) : ManagerOp B → Option (Block B 16)
  | .prepareOutbound user device identity sk dh now dhs id =>
    (m.prepareOutbound P user device identity sk dh now dhs id).1.toOption
  | .prepareInbound user device identity sk dh now id =>
    (m.prepareInbound user device identity sk dh now id).1.toOption
  | _ => none

variable {m : SessionManager B} {op : ManagerOp B} {c : PrepareCall B}

/-- **What a call does**, in either direction: it returns the session that stands and changes
nothing, or fails after the gate, or makes a new session the active one. -/
theorem call_cases (hcall : call? op = some c) :
    (∀ a, m.standingFor c = some a → m.returned P op = some a.id ∧ m.after P op = m) ∧
    (m.standingFor c = none → m.returned P op = none ∧ Opened m (m.after P op) ∨
      ∃ record, m.returned P op = some record.id ∧
        Creates c.kept c.user c.device record m (m.after P op)) := by
  cases op with
  | prepareOutbound user device identity sk dh now dhs id =>
    cases hcall
    obtain ⟨hstanding, hnone⟩ := prepareOutbound_cases P m user device identity sk dh now dhs id
    refine ⟨fun a ha ↦ ?_, fun h ↦ ?_⟩
    · rw [returned, after, perform, hstanding a ha]
      exact ⟨rfl, rfl⟩
    · rcases hnone h with ⟨⟨err, herr⟩, hopened⟩ | ⟨hok, -, record, rfl, -, hcreates⟩
      · exact .inl ⟨by rw [returned, herr]; rfl, hopened⟩
      · exact .inr ⟨record, by rw [returned, hok]; rfl, hcreates⟩
  | prepareInbound user device identity sk dh now id =>
    cases hcall
    obtain ⟨hstanding, hnone⟩ := prepareInbound_cases m user device identity sk dh now id
    refine ⟨fun a ha ↦ ?_, fun h ↦ ?_⟩
    · rw [returned, after, perform, hstanding a ha]
      exact ⟨rfl, rfl⟩
    · rcases hnone h with ⟨⟨err, herr⟩, hopened⟩ | ⟨hok, -, record, rfl, -, hcreates⟩
      · exact .inl ⟨by rw [returned, herr]; rfl, hopened⟩
      · exact .inr ⟨record, by rw [returned, hok]; rfl, hcreates⟩
  | _ => cases hcall

/-- The active session of a device. -/
def activeSession (user device : List B) (m : SessionManager B) : Option (SessionRecord B) :=
  (m.device? user device).bind DeviceRecord.active

theorem Opened.activeSession {m' : SessionManager B} (h : Opened m m') (user device : List B) :
    m'.activeSession user device = m.activeSession user device := by
  rcases h.device? user device with hsame | ⟨hnone, dev, hdev, hblank⟩
  · rw [SessionManager.activeSession, SessionManager.activeSession, hsame]
  · rw [SessionManager.activeSession, SessionManager.activeSession, hnone, hdev, Option.bind_some,
      hblank.1, Option.bind_none]

/-- A rewritten record changes the active session of its own device only. -/
theorem Rewrites.activeSession {m' : SessionManager B} {user device : List B}
    {dev dev' : DeviceRecord B} (h : Rewrites user device dev dev' m m') (user' device' : List B) :
    m'.activeSession user' device' =
      if user' = user ∧ device' = device then dev'.active else m.activeSession user' device' := by
  rw [SessionManager.activeSession, h.device?_eq]
  split
  · rfl
  · rfl

/-- A new session becomes the active one of its device. -/
theorem Creates.activeSession {m' : SessionManager B} {kept : SessionRecord B → Bool}
    {user device : List B} {record : SessionRecord B} (h : Creates kept user device record m m')
    (user' device' : List B) :
    m'.activeSession user' device' =
      if user' = user ∧ device' = device then some record else m.activeSession user' device' := by
  obtain ⟨m₁, dev, dev', hopened, -, hactive, -, hrewrites⟩ := h.rewrites
  rw [hrewrites.activeSession, hactive, hopened.activeSession]

/-- An operation that prepares nothing leaves the active sessions, but for their status, or drops
them. -/
theorem activeSession_of_after (hm : m.NoInactive) (hcall : call? op = none) {user device : List B}
    {a' : SessionRecord B} (h : (m.after P op).activeSession user device = some a') :
    ∃ a, m.activeSession user device = some a ∧ a.id = a'.id := by
  -- a record that is rewritten has a session of the same id
  have hrewrites : ∀ {m' : SessionManager B} {user₁ device₁ : List B} {dev dev' : DeviceRecord B},
      Rewrites user₁ device₁ dev dev' m m' →
      (∀ b', dev'.active = some b' → ∃ b, dev.active = some b ∧ b.id = b'.id) →
      m'.activeSession user device = some a' →
      ∃ a, m.activeSession user device = some a ∧ a.id = a'.id := by
    intro m' user₁ device₁ dev dev' hrw hid hactive
    rw [hrw.activeSession] at hactive
    split at hactive
    · rename_i heq
      obtain ⟨rfl, rfl⟩ := heq
      obtain ⟨b, hb, hbid⟩ := hid a' hactive
      obtain ⟨-, -, hdev, -⟩ := hrw
      exact ⟨b, by rw [activeSession, hdev, Option.bind_some, hb], hbid⟩
    · exact ⟨a', hactive, rfl⟩
  cases op with
  | prepareOutbound user device identity sk dh now dhs id => cases hcall
  | prepareInbound user device identity sk dh now id => cases hcall
  | confirmSession user₁ device₁ sid =>
    dsimp only [after, perform] at h
    rcases confirmSession_cases m user₁ device₁ sid with heq | ⟨-, dev, a, ha, -, hrw⟩
    · rw [heq] at h
      exact ⟨a', h, rfl⟩
    · refine hrewrites hrw (fun b' hb' ↦ ?_) h
      cases hb'
      exact ⟨a, ha, rfl⟩
  | receiveOnSession user₁ device₁ sid =>
    dsimp only [after, perform] at h
    rw [receiveOnSession_eq hm] at h
    exact ⟨a', h, rfl⟩
  | markFailed user₁ device₁ sid =>
    dsimp only [after, perform] at h
    rcases markFailed_cases hm user₁ device₁ sid with ⟨heq, -⟩ | ⟨-, dev, a, ha, -, hrw⟩
    · rw [heq] at h
      exact ⟨a', h, rfl⟩
    · refine hrewrites hrw (fun b' hb' ↦ ?_) h
      cases hb'
      exact ⟨a, ha, rfl⟩
  | markDeviceStale user₁ device₁ now =>
    dsimp only [after, perform] at h
    rcases markDeviceStale_cases m user₁ device₁ now with heq | ⟨-, dev, hrw⟩
    · rw [heq] at h
      exact ⟨a', h, rfl⟩
    · exact hrewrites hrw (fun b' hb' ↦ ⟨b', hb', rfl⟩) h
  | sweepStale now =>
    obtain ⟨dev, hdev, ha⟩ := Option.bind_eq_some_iff.1 h
    refine ⟨a', ?_, rfl⟩
    rw [activeSession, device?_of_sweepStale hdev, Option.bind_some, ha]
  | acknowledgeIdentity user₁ x =>
    dsimp only [after, perform] at h
    rw [activeSession, (acknowledgeIdentity_device? m user₁ x).2.2] at h
    exact ⟨a', h, rfl⟩

end SessionManager

/-! ### Histories -/

/-- An operation with the state it starts from. -/
abbrev Visit (B : Type) [Alphabet B] := SessionManager B × ManagerOp B

namespace Visit

open SessionManager

/-- A successful call for a device: its identity, and the session it returned. -/
def prepared (P : Primitives B) (user device : List B) (v : Visit B) :
    Option (IdentityMaterial B × Block B 16) :=
  (call? v.2).bind fun c ↦
    if c.user = user ∧ c.device = device then
      (v.1.returned P v.2).map fun sid ↦ (c.identity, sid)
    else none

/-- A successful call for a device that created the session it returned. -/
def created (P : Primitives B) (user device : List B) (v : Visit B) :
    Option (IdentityMaterial B × Block B 16) :=
  (call? v.2).bind fun c ↦ if (v.1.standingFor c).isSome then none else v.prepared P user device

/-- The last successful call for a device. -/
def lastPrepared (P : Primitives B) (user device : List B) (vs : List (Visit B)) :
    Option (IdentityMaterial B × Block B 16) :=
  vs.reverse.findSome? (prepared P user device)

/-- The call that created the last session of a device. -/
def lastCreated (P : Primitives B) (user device : List B) (vs : List (Visit B)) :
    Option (IdentityMaterial B × Block B 16) :=
  vs.reverse.findSome? (created P user device)

/-- **A session is bound to its identity.** What a call returns is the active session of the device,
and was created by a call for this device that was given the same identity. -/
def Bound (P : Primitives B) (past : List (Visit B)) (v : Visit B) : Prop :=
  ∀ user device x sid, v.prepared P user device = some (x, sid) →
    (∃ a, (v.1.after P v.2).activeSession user device = some a ∧ a.id = sid) ∧
      lastCreated P user device (past ++ [v]) = some (x, sid)

/-- A call that finds a standing session gives the identity of the last successful call for the
device. -/
def Steady (P : Primitives B) (past : List (Visit B)) (v : Visit B) : Prop :=
  ∀ c a y sid, call? v.2 = some c → v.1.standingFor c = some a →
    lastPrepared P c.user c.device past = some (y, sid) → c.identity = y

variable {vs : List (Visit B)} {v : Visit B} {user device : List B}

/-- The last session that was prepared is that of the last call, or the one before. -/
theorem lastPrepared_concat (P : Primitives B) (user device : List B) (vs : List (Visit B))
    (v : Visit B) : lastPrepared P user device (vs ++ [v]) =
      (v.prepared P user device).or (lastPrepared P user device vs) := by
  rw [lastPrepared, List.reverse_append, List.reverse_singleton, List.singleton_append,
    List.findSome?_cons]
  cases v.prepared P user device <;> rfl

/-- The last session that was created is that of the last call, or the one before. -/
theorem lastCreated_concat (P : Primitives B) (user device : List B) (vs : List (Visit B))
    (v : Visit B) : lastCreated P user device (vs ++ [v]) =
      (v.created P user device).or (lastCreated P user device vs) := by
  rw [lastCreated, List.reverse_append, List.reverse_singleton, List.singleton_append,
    List.findSome?_cons]
  cases v.created P user device <;> rfl

/-- A creation is a successful call. -/
theorem prepared_of_created {r : IdentityMaterial B × Block B 16}
    (h : v.created P user device = some r) : v.prepared P user device = some r := by
  obtain ⟨c, -, h⟩ := Option.bind_eq_some_iff.1 h
  split at h
  · cases h
  · exact h

theorem lastPrepared_isSome_of_lastCreated {r : IdentityMaterial B × Block B 16}
    (h : lastCreated P user device vs = some r) : ∃ r', lastPrepared P user device vs = some r' := by
  obtain ⟨w, hw, hr⟩ := List.exists_of_findSome?_eq_some h
  have hsome : (lastPrepared P user device vs).isSome :=
    List.findSome?_isSome_iff.2 ⟨w, hw, by rw [prepared_of_created hr]; rfl⟩
  exact Option.isSome_iff_exists.1 hsome

/-- As long as sessions are bound, the last successful call has the identity of the last creation. -/
theorem lastCreated_of_lastPrepared (hbound : Run.Throughout (Bound P) vs)
    {r : IdentityMaterial B × Block B 16} (h : lastPrepared P user device vs = some r) :
    lastCreated P user device vs = some r := by
  induction vs using List.reverseRecOn with
  | nil => cases h
  | append_singleton vs v ih =>
    obtain ⟨hvs, hv⟩ := Run.throughout_concat.1 hbound
    rw [lastPrepared_concat] at h
    cases hprep : v.prepared P user device with
    | some r' =>
      rw [hprep] at h
      cases h
      exact (hv user device r.1 r.2 hprep).2
    | none =>
      have hcreated : v.created P user device = none := by
        by_contra hne
        obtain ⟨r', hr'⟩ := Option.ne_none_iff_exists'.1 hne
        rw [prepared_of_created hr'] at hprep
        cases hprep
      rw [hprep, Option.none_or] at h
      rw [lastCreated_concat, hcreated, Option.none_or]
      exact ih hvs h

/-- The active session of a device is the one that was created last. -/
def Recorded (P : Primitives B) (vs : List (Visit B)) (m : SessionManager B) : Prop :=
  ∀ user device a, m.activeSession user device = some a →
    ∃ x, lastCreated P user device vs = some (x, a.id)

theorem created_of_call_none (h : call? v.2 = none) : v.created P user device = none := by
  rw [created, h, Option.bind_none]

/-- A successful call prepares a session for its own device, under the identity it was given. -/
theorem prepared_of_call {c : PrepareCall B} (h : call? v.2 = some c) (user device : List B) :
    v.prepared P user device =
      if c.user = user ∧ c.device = device then
        (v.1.returned P v.2).map fun sid ↦ (c.identity, sid)
      else none := by
  rw [prepared, h, Option.bind_some]

/-- A call that finds a session standing creates none. -/
theorem created_of_standing {c : PrepareCall B} {a : SessionRecord B} (h : call? v.2 = some c)
    (ha : v.1.standingFor c = some a) : v.created P user device = none := by
  rw [created, h, Option.bind_some, ha]
  rfl

theorem created_of_not_standing {c : PrepareCall B} (h : call? v.2 = some c)
    (hnone : v.1.standingFor c = none) :
    v.created P user device = v.prepared P user device := by
  rw [created, h, Option.bind_some, hnone]
  rfl

/-- **One operation keeps the record of creations.** -/
theorem Recorded.after (hm : v.1.NoInactive) (h : Recorded P vs v.1) :
    Recorded P (vs ++ [v]) (v.1.after P v.2) := by
  intro user device a' ha'
  rw [lastCreated_concat]
  cases hcall : call? v.2 with
  | none =>
    obtain ⟨a, ha, hid⟩ := activeSession_of_after hm hcall ha'
    obtain ⟨x, hx⟩ := h user device a ha
    rw [created_of_call_none hcall, Option.none_or, ← hid]
    exact ⟨x, hx⟩
  | some c =>
    obtain ⟨hstanding, hnone⟩ := call_cases (P := P) (m := v.1) hcall
    cases hfound : v.1.standingFor c with
    | some a =>
      rw [(hstanding a hfound).2] at ha'
      rw [created_of_standing hcall hfound, Option.none_or]
      exact h user device a' ha'
    | none =>
      rw [created_of_not_standing hcall hfound, prepared_of_call hcall]
      rcases hnone hfound with ⟨hret, hopened⟩ | ⟨record, hret, hcreates⟩
      · rw [hopened.activeSession] at ha'
        rw [hret, Option.map_none, ite_self, Option.none_or]
        exact h user device a' ha'
      · rw [hcreates.activeSession] at ha'
        rw [hret, Option.map_some]
        split at ha'
        · rename_i heq
          cases ha'
          rw [if_pos ⟨heq.1.symm, heq.2.symm⟩]
          exact ⟨c.identity, rfl⟩
        · rename_i hne
          rw [if_neg fun heq ↦ hne ⟨heq.1.symm, heq.2.symm⟩, Option.none_or]
          exact h user device a' ha'

/-- The record of creations, in every run. -/
theorem last_recorded (P : Primitives B) {m : SessionManager B} (hm : m.NoInactive)
    (hnone : ∀ user device, m.activeSession user device = none) (ops : List (ManagerOp B)) :
    Recorded P (Run.visits (SessionManager.after P) m ops)
      (Run.last (SessionManager.after P) m ops) := by
  induction ops using List.reverseRecOn with
  | nil =>
    intro user device a ha
    rw [Run.last, List.foldl_nil, hnone user device] at ha
    cases ha
  | append_singleton ops op ih =>
    rw [Run.visits_concat, Run.last_concat]
    exact ih.after (last_noInactive P hm ops)

/-- **One operation**: as long as every session was bound to its identity, the next one is if and only
if the call is steady. -/
theorem bound_iff_steady (hrecorded : Recorded P vs v.1) (hbound : Run.Throughout (Bound P) vs) :
    Bound P vs v ↔ Steady P vs v := by
  cases hcall : call? v.2 with
  | none =>
    have hprepared : ∀ user device, v.prepared P user device = none := by
      intro user device
      rw [prepared, hcall, Option.bind_none]
    constructor
    · rintro - c a y sid hc
      rw [hcall] at hc
      cases hc
    · rintro - user device x sid h
      rw [hprepared] at h
      cases h
  | some c =>
    obtain ⟨hstanding, hnone⟩ := call_cases (P := P) (m := v.1) hcall
    cases hfound : v.1.standingFor c with
    | some a =>
      -- the session is older than the call: its creation is the last one of the device
      obtain ⟨hret, hafter⟩ := hstanding a hfound
      have hactive : v.1.activeSession c.user c.device = some a := by
        obtain ⟨u, dev, hu, hdev, -, ha, -⟩ := standing_eq_some hfound
        rw [activeSession, device?_eq_some.2 ⟨u, hu, hdev⟩, Option.bind_some, ha]
      obtain ⟨x₀, hx₀⟩ := hrecorded c.user c.device a hactive
      obtain ⟨r, hr⟩ := lastPrepared_isSome_of_lastCreated hx₀
      have hr₀ := lastCreated_of_lastPrepared hbound hr
      rw [hx₀] at hr₀
      cases hr₀
      have hprepared : v.prepared P c.user c.device = some (c.identity, a.id) := by
        rw [prepared_of_call hcall, if_pos ⟨rfl, rfl⟩, hret, Option.map_some]
      constructor
      · intro h c' a' y sid hc' ha' hy
        rw [hcall] at hc'
        cases hc'
        rw [hr] at hy
        cases hy
        have hlast := (h c.user c.device c.identity a.id hprepared).2
        rw [lastCreated_concat, created_of_standing hcall hfound, Option.none_or, hx₀] at hlast
        cases hlast
        rfl
      · intro h user device x sid hprep
        have hidentity := h c a x₀ a.id hcall hfound hr
        rw [prepared_of_call hcall] at hprep
        split at hprep
        · rename_i heq
          obtain ⟨rfl, rfl⟩ := heq
          rw [hret, Option.map_some] at hprep
          cases hprep
          refine ⟨⟨a, by rw [hafter, hactive], rfl⟩, ?_⟩
          rw [lastCreated_concat, created_of_standing hcall hfound, Option.none_or, hx₀, hidentity]
        · cases hprep
    | none =>
      -- nothing is reused: both sides hold
      constructor
      · rintro - c' a y sid hc' ha
        rw [hcall] at hc'
        cases hc'
        rw [hfound] at ha
        cases ha
      · rintro - user device x sid hprep
        rw [lastCreated_concat, created_of_not_standing hcall hfound, hprep]
        refine ⟨?_, rfl⟩
        rw [prepared_of_call hcall] at hprep
        split at hprep
        · rename_i heq
          obtain ⟨rfl, rfl⟩ := heq
          rcases hnone hfound with ⟨hret, -⟩ | ⟨record, hret, hcreates⟩
          · rw [hret] at hprep
            cases hprep
          · rw [hret, Option.map_some] at hprep
            cases hprep
            exact ⟨record, by rw [hcreates.activeSession, if_pos ⟨rfl, rfl⟩], rfl⟩
        · cases hprep

end Visit

/-- **When sessions are bound to the identity they were created for.** In a run of any operations,
every call that succeeds returns the active session of its device, created by a call for this device
with the same identity, if and only if every call that finds a standing session gives the identity of
the last successful call for the device. -/
theorem sessions_bound_iff (P : Primitives B) (user device : List B) (identity : IdentityMaterial B)
    (ops : List (ManagerOp B)) :
    Run.Throughout (Visit.Bound P)
        (Run.visits (SessionManager.after P) (SessionManager.new user device identity) ops) ↔
      Run.Throughout (Visit.Steady P)
        (Run.visits (SessionManager.after P) (SessionManager.new user device identity) ops) := by
  refine Run.throughout_congr (fun ops op hbound _ ↦ Visit.bound_iff_steady ?_ hbound) ops
  exact Visit.last_recorded P (SessionManager.new_noInactive _ _ _) (fun _ _ ↦ rfl) ops

namespace Symbolic

/-- A session with user 7 under identity 2, which is acknowledged and then changes to identity 3. -/
def changedIdentity : List (ManagerOp Sym) :=
  [contactOp 2, .acknowledgeIdentity [.lit 7] (identityOf 2),
    .acknowledgeIdentity [.lit 7] (identityOf 3), contactOp 3]

end Symbolic

open Symbolic in
/-- **A session outlives its identity.** After the change to identity 3 was acknowledged, a contact under
identity 3 returns the session that was created for identity 2. -/
theorem session_outlives_identity :
    ¬ Run.Throughout (Visit.Bound symbolic)
      (Run.visits (SessionManager.after symbolic)
        (SessionManager.new [.lit 1] [.lit 2] (identityOf 1)) changedIdentity) := by
  intro h
  have hbound := h
    (Run.visits (SessionManager.after symbolic)
      (SessionManager.new [.lit 1] [.lit 2] (identityOf 1)) (changedIdentity.take 3))
    (Run.last (SessionManager.after symbolic)
      (SessionManager.new [.lit 1] [.lit 2] (identityOf 1)) (changedIdentity.take 3), contactOp 3)
    [] rfl
  have hlast := (hbound [.lit 7] [.lit 8] (identityOf 3) (Sym.block 15 (.lit 1))
    (by decide +kernel)).2
  revert hlast
  decide +kernel

end VoiceChatCrypto
