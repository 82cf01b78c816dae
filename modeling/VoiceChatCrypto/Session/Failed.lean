import VoiceChatCrypto.Session.Bound

/-!
# Failed sessions

`Failed` is documented as "permanently unusable". No operation takes the status back: only `activate`
would, and no session is ever inactive (`NoInactive`). `prepare_outbound` passes a failed session over.
`prepare_inbound`, however, returns the active session of a device whatever its status is.

A failed session therefore stays dead exactly in those runs in which no `prepare_inbound` finds one
(`failed_stays_dead_iff`). Session ids are random; that no two draws of a run coincide is the one
assumption, since a session created under the id of a failed one could not be told from it.
-/

open Alphabet

namespace VoiceChatCrypto

variable {B : Type} [Alphabet B] {P : Primitives B}

namespace SessionManager

/-- The id that a call draws for a new session. -/
def drawn? : ManagerOp B → Option (Block B 16)
  | .prepareOutbound _ _ _ _ _ _ _ id => some id
  | .prepareInbound _ _ _ _ _ _ id => some id
  | _ => none

/-- The sessions of a device. -/
def sessions (user device : List B) (m : SessionManager B) : List (SessionRecord B) :=
  (m.device? user device).elim [] fun dev ↦ dev.active.toList ++ dev.inactive

variable {m m' : SessionManager B} {user device : List B}

/-- Without inactive sessions, the sessions of a device are its active one. -/
theorem mem_sessions (hm : m.NoInactive) {s : SessionRecord B} :
    s ∈ m.sessions user device ↔ m.activeSession user device = some s := by
  unfold sessions activeSession
  cases hdev : m.device? user device with
  | none => simp
  | some dev => simp [hm user device dev hdev]

/-- The active session of one device is replaced. -/
def Puts (user device : List B) (s : SessionRecord B) (m m' : SessionManager B) : Prop :=
  ∀ user' device', m'.activeSession user' device' =
    if user' = user ∧ device' = device then some s else m.activeSession user' device'

/-- **What `mark_failed` does**: it fails the active session if that has the id, and refuses
otherwise. -/
theorem markFailed_active (hm : m.NoInactive) (user device : List B) (sid : Block B 16) :
    m.markFailed user device sid = (.error .internal, m) ∨
      (m.markFailed user device sid).1 = .ok () ∧
        ∃ a, m.activeSession user device = some a ∧ a.id = sid ∧
          Puts user device { a with status := .failed } m (m.markFailed user device sid).2 := by
  unfold markFailed
  cases hdev : m.findDevice user device with
  | error err =>
    refine .inl ?_
    unfold findDevice at hdev
    split at hdev
    · cases hdev
      rfl
    · split at hdev
      · cases hdev
        rfl
      · cases hdev
  | ok out =>
    obtain ⟨u, dev⟩ := out
    have hdevice := device?_of_findDevice hdev
    dsimp only
    cases hfilter : dev.active.filter fun a ↦ a.id = sid with
    | some a =>
      obtain ⟨hactive, hid⟩ := Option.filter_eq_some_iff.1 hfilter
      refine .inr ⟨rfl, a, ?_, of_decide_eq_true hid, fun user' device' ↦ ?_⟩
      · rw [activeSession, hdevice, Option.bind_some, hactive]
      · rw [(Rewrites.of_findDevice hdev rfl).activeSession]
    | none =>
      refine .inl ?_
      dsimp only
      rw [hm user device dev hdevice]
      rfl

/-- **What an operation does to the active sessions**: it drops some, or creates one that has not
failed under the id it drew, or confirms one that has not failed, or marks one failed. -/
theorem after_active (hm : m.NoInactive) (op : ManagerOp B) :
    (∀ user device a, (m.after P op).activeSession user device = some a →
      m.activeSession user device = some a) ∧ ((m.perform P op).1 = .ok () → ∀ user device sid,
        op ≠ .markFailed user device sid) ∨
    (∃ user device s, drawn? op = some s.id ∧ s.status ≠ .failed ∧ Puts user device s m (m.after P op)) ∨
    (∃ user device a s, m.activeSession user device = some a ∧ s.id = a.id ∧ a.status ≠ .failed ∧
      s.status ≠ .failed ∧ Puts user device s m (m.after P op) ∧
        ∀ user device sid, op ≠ .markFailed user device sid) ∨
    (∃ user device a, op = .markFailed user device a.id ∧ (m.perform P op).1 = .ok () ∧
      m.activeSession user device = some a ∧
      Puts user device { a with status := .failed } m (m.after P op)) := by
  cases op with
  | prepareOutbound user device identity sk dh now dhs id =>
    obtain ⟨hstanding, hnone⟩ := prepareOutbound_cases P m user device identity sk dh now dhs id
    cases h : m.standing keptOutbound user device identity with
    | some a =>
      refine .inl ⟨fun user device a ha ↦ ?_, fun _ _ _ _ h ↦ by cases h⟩
      rwa [after, perform, hstanding _ h] at ha
    | none =>
      rcases hnone h with ⟨-, hopened⟩ | ⟨-, -, record, hid, hstatus, hcreates⟩
      · refine .inl ⟨fun user device a ha ↦ ?_, fun _ _ _ _ h ↦ by cases h⟩
        rwa [after, perform, hopened.activeSession] at ha
      · refine .inr (.inl ⟨user, device, record, by rw [hid]; rfl, ?_, hcreates.activeSession⟩)
        rw [hstatus]
        exact fun h ↦ by cases h
  | prepareInbound user device identity sk dh now id =>
    obtain ⟨hstanding, hnone⟩ := prepareInbound_cases m user device identity sk dh now id
    cases h : m.standing keptInbound user device identity with
    | some a =>
      refine .inl ⟨fun user device a ha ↦ ?_, fun _ _ _ _ h ↦ by cases h⟩
      rwa [after, perform, hstanding _ h] at ha
    | none =>
      rcases hnone h with ⟨-, hopened⟩ | ⟨-, -, record, hid, hstatus, hcreates⟩
      · refine .inl ⟨fun user device a ha ↦ ?_, fun _ _ _ _ h ↦ by cases h⟩
        rwa [after, perform, hopened.activeSession] at ha
      · refine .inr (.inl ⟨user, device, record, by rw [hid]; rfl, ?_, hcreates.activeSession⟩)
        rw [hstatus]
        exact fun h ↦ by cases h
  | confirmSession user device sid =>
    rcases confirmSession_cases m user device sid with heq | ⟨-, dev, a, ha, hstatus, hrw⟩
    · refine .inl ⟨fun user device a ha ↦ ?_, fun _ _ _ _ h ↦ by cases h⟩
      rwa [after, perform, heq] at ha
    · refine .inr (.inr (.inl ⟨user, device, a, { a with status := .active }, ?_, rfl, ?_, ?_,
        hrw.activeSession, fun _ _ _ h ↦ by cases h⟩))
      · rw [activeSession, hrw.choose_spec.2.1, Option.bind_some, ha]
      · rw [hstatus]
        exact fun h ↦ by cases h
      · exact fun h ↦ by cases h
  | receiveOnSession user device sid =>
    refine .inl ⟨fun user device a ha ↦ ?_, fun _ _ _ _ h ↦ by cases h⟩
    rwa [after, perform, receiveOnSession_eq hm] at ha
  | markFailed user device sid =>
    rcases markFailed_active hm user device sid with heq | ⟨hok, a, ha, rfl, hputs⟩
    · refine .inl ⟨fun user device a ha ↦ ?_, fun h ↦ ?_⟩
      · rwa [after, perform, heq] at ha
      · rw [perform, heq] at h
        cases h
    · exact .inr (.inr (.inr ⟨user, device, a, rfl, hok, ha, hputs⟩))
  | markDeviceStale user device now =>
    refine .inl ⟨fun user' device' a ha ↦ ?_, fun _ _ _ _ h ↦ by cases h⟩
    rcases markDeviceStale_cases m user device now with heq | ⟨-, dev, hrw⟩
    · rwa [after, perform, heq] at ha
    · rw [after, perform, hrw.activeSession] at ha
      split at ha
      · rename_i heq
        rw [heq.1, heq.2, activeSession, hrw.choose_spec.2.1]
        exact ha
      · exact ha
  | sweepStale now =>
    refine .inl ⟨fun user device a ha ↦ ?_, fun _ _ _ _ h ↦ by cases h⟩
    obtain ⟨dev, hdev, hactive⟩ := Option.bind_eq_some_iff.1 ha
    rw [activeSession, device?_of_sweepStale hdev, Option.bind_some, hactive]
  | acknowledgeIdentity user x =>
    refine .inl ⟨fun user' device a ha ↦ ?_, fun _ _ _ _ h ↦ by cases h⟩
    rwa [after, perform, activeSession, (acknowledgeIdentity_device? m user x).2.2] at ha

end SessionManager

namespace Visit

open SessionManager

/-- A successful `mark_failed`. -/
def Marks (P : Primitives B) (sid : Block B 16) (v : Visit B) : Prop :=
  ∃ user device, v.2 = .markFailed user device sid ∧ (v.1.perform P v.2).1 = .ok ()

/-- The session was marked failed. -/
def Marked (P : Primitives B) (vs : List (Visit B)) (sid : Block B 16) : Prop := ∃ w ∈ vs, w.Marks P sid

/-- **A failed session stays dead**: no call returns a session that was marked failed, and no operation
leaves a record with its id that has another status. -/
def Dead (P : Primitives B) (past : List (Visit B)) (v : Visit B) : Prop :=
  ∀ sid, Marked P past sid → v.1.returned P v.2 ≠ some sid ∧
    ∀ user device, ∀ s ∈ (v.1.after P v.2).sessions user device, s.id = sid → s.status = .failed

/-- A `prepare_inbound` does not find a failed session: the device has none that is active, or the
identity is refused. -/
def FindsNoFailed (v : Visit B) : Prop :=
  ∀ user device identity sk dh now id, v.2 = .prepareInbound user device identity sk dh now id →
    ∀ a, v.1.standing keptInbound user device identity = some a → a.status ≠ .failed

/-- The ids drawn in a run. -/
def drawnIds (vs : List (Visit B)) : List (Block B 16) := vs.filterMap fun v ↦ drawn? v.2

/-- **The records after a run**, whose sessions have distinct ids of its own: a session was marked
as failed exactly if its record has that status. -/
structure Buried (P : Primitives B) (vs : List (Visit B)) (m : SessionManager B) : Prop where
  /-- Every active session was drawn in the run. -/
  active_drawn : ∀ user device a, m.activeSession user device = some a → a.id ∈ drawnIds vs
  /-- So was every session that was marked as failed. -/
  marked_drawn : ∀ sid, Marked P vs sid → sid ∈ drawnIds vs
  /-- A marked session that is still active has the status. -/
  marked_failed : ∀ user device a, m.activeSession user device = some a → Marked P vs a.id →
    a.status = .failed
  /-- No session has the status without having been marked. -/
  failed_marked : ∀ user device a, m.activeSession user device = some a → a.status = .failed →
    Marked P vs a.id
  /-- An id belongs to one device. -/
  unique : ∀ user device user' device' a a', m.activeSession user device = some a →
    m.activeSession user' device' = some a' → a.id = a'.id → user = user' ∧ device = device'

variable {vs : List (Visit B)} {v : Visit B} {sid : Block B 16}

/-- A session is marked by the last operation, or was before. -/
theorem marked_concat : Marked P (vs ++ [v]) sid ↔ Marked P vs sid ∨ v.Marks P sid := by
  constructor
  · rintro ⟨w, hw, hmarks⟩
    rcases List.mem_append.1 hw with hw | hw
    · exact .inl ⟨w, hw, hmarks⟩
    · exact .inr (List.mem_singleton.1 hw ▸ hmarks)
  · rintro (⟨w, hw, hmarks⟩ | hmarks)
    · exact ⟨w, List.mem_append_left _ hw, hmarks⟩
    · exact ⟨v, List.mem_append_right _ (List.mem_singleton.2 rfl), hmarks⟩

theorem drawnIds_concat : drawnIds (vs ++ [v]) = drawnIds vs ++ (drawn? v.2).toList := by
  rw [drawnIds, List.filterMap_append, drawnIds]
  cases h : drawn? v.2 <;> simp [h]

/-- An operation that fails nothing marks nothing. -/
theorem marked_concat_of_not (h : ∀ sid, ¬ v.Marks P sid) :
    Marked P (vs ++ [v]) sid ↔ Marked P vs sid := by
  rw [marked_concat]
  exact or_iff_left (h sid)

variable {m' : SessionManager B}

/-- Sessions that are dropped, or confirmed before they fail, change nothing. -/
theorem Buried.of_subset (h : Buried P vs v.1) (hmarks : ∀ sid, ¬ v.Marks P sid)
    (hsub : ∀ user device a', m'.activeSession user device = some a' →
      ∃ a, v.1.activeSession user device = some a ∧ a'.id = a.id ∧
        (a'.status = .failed ↔ a.status = .failed)) : Buried P (vs ++ [v]) m' := by
  have hmem (sid : Block B 16) (hsid : sid ∈ drawnIds vs) : sid ∈ drawnIds (vs ++ [v]) := by
    rw [drawnIds_concat]
    exact List.mem_append_left _ hsid
  constructor
  · intro user device a' ha'
    obtain ⟨a, ha, hid, -⟩ := hsub user device a' ha'
    exact hid ▸ hmem _ (h.active_drawn user device a ha)
  · intro sid hsid
    rw [marked_concat_of_not hmarks] at hsid
    exact hmem _ (h.marked_drawn sid hsid)
  · intro user device a' ha' hmarked
    obtain ⟨a, ha, hid, hiff⟩ := hsub user device a' ha'
    rw [marked_concat_of_not hmarks, hid] at hmarked
    exact hiff.2 (h.marked_failed user device a ha hmarked)
  · intro user device a' ha' hfailed
    obtain ⟨a, ha, hid, hiff⟩ := hsub user device a' ha'
    rw [marked_concat_of_not hmarks, hid]
    exact h.failed_marked user device a ha (hiff.1 hfailed)
  · intro user device user' device' a b ha hb heq
    obtain ⟨a₀, ha₀, hida, -⟩ := hsub user device a ha
    obtain ⟨b₀, hb₀, hidb, -⟩ := hsub user' device' b hb
    exact h.unique user device user' device' a₀ b₀ ha₀ hb₀ (by rw [← hida, ← hidb, heq])

/-- A session is created under an id that was not drawn before. -/
theorem Buried.of_created (h : Buried P vs v.1) (hmarks : ∀ sid, ¬ v.Marks P sid) {user device : List B}
    {s : SessionRecord B} (hdrawn : drawn? v.2 = some s.id) (hfresh : s.id ∉ drawnIds vs)
    (hstatus : s.status ≠ .failed) (hputs : Puts user device s v.1 m') : Buried P (vs ++ [v]) m' := by
  have hids : drawnIds (vs ++ [v]) = drawnIds vs ++ [s.id] := by
    rw [drawnIds_concat, hdrawn]
    rfl
  constructor
  · intro user' device' a ha
    rw [hids]
    rw [hputs] at ha
    split at ha
    · cases ha
      exact List.mem_append_right _ (List.mem_singleton.2 rfl)
    · exact List.mem_append_left _ (h.active_drawn user' device' a ha)
  · intro sid hsid
    rw [marked_concat_of_not hmarks] at hsid
    rw [hids]
    exact List.mem_append_left _ (h.marked_drawn sid hsid)
  · intro user' device' a ha hmarked
    rw [marked_concat_of_not hmarks] at hmarked
    rw [hputs] at ha
    split at ha
    · cases ha
      exact absurd (h.marked_drawn _ hmarked) hfresh
    · exact h.marked_failed user' device' a ha hmarked
  · intro user' device' a ha hfailed
    rw [marked_concat_of_not hmarks]
    rw [hputs] at ha
    split at ha
    · cases ha
      exact absurd hfailed hstatus
    · exact h.failed_marked user' device' a ha hfailed
  · intro user₁ device₁ user₂ device₂ a b ha hb heq
    rw [hputs] at ha hb
    split at ha
    · cases ha
      split at hb
      · rename_i h₁ h₂
        exact ⟨h₁.1.trans h₂.1.symm, h₁.2.trans h₂.2.symm⟩
      · exact absurd (heq ▸ h.active_drawn user₂ device₂ b hb) hfresh
    · split at hb
      · cases hb
        exact absurd (heq ▸ h.active_drawn user₁ device₁ a ha) hfresh
      · exact h.unique user₁ device₁ user₂ device₂ a b ha hb heq

/-- A session is marked failed; no other one has its id. -/
theorem Buried.of_marked (h : Buried P vs v.1) {user device : List B} {a : SessionRecord B}
    (hop : v.2 = .markFailed user device a.id) (hok : (v.1.perform P v.2).1 = .ok ())
    (ha : v.1.activeSession user device = some a)
    (hputs : Puts user device { a with status := .failed } v.1 m') : Buried P (vs ++ [v]) m' := by
  have hids : drawnIds (vs ++ [v]) = drawnIds vs := by
    rw [drawnIds_concat, hop]
    exact List.append_nil _
  have hmarks (sid : Block B 16) : v.Marks P sid ↔ sid = a.id := by
    constructor
    · rintro ⟨user', device', hop', -⟩
      rw [hop] at hop'
      cases hop'
      rfl
    · rintro rfl
      exact ⟨user, device, hop, hok⟩
  constructor
  · intro user' device' b hb
    rw [hids]
    rw [hputs] at hb
    split at hb
    · cases hb
      exact h.active_drawn user device a ha
    · exact h.active_drawn user' device' b hb
  · intro sid hsid
    rw [hids]
    rcases marked_concat.1 hsid with hsid | hsid
    · exact h.marked_drawn sid hsid
    · rw [(hmarks sid).1 hsid]
      exact h.active_drawn user device a ha
  · intro user' device' b hb hmarked
    rw [hputs] at hb
    split at hb
    · cases hb
      rfl
    · rename_i hother
      rcases marked_concat.1 hmarked with hmarked | hmarked
      · exact h.marked_failed user' device' b hb hmarked
      · exact absurd (h.unique user' device' user device b a hb ha ((hmarks _).1 hmarked)) hother
  · intro user' device' b hb hfailed
    rw [marked_concat]
    rw [hputs] at hb
    split at hb
    · cases hb
      exact .inr ((hmarks _).2 rfl)
    · exact .inl (h.failed_marked user' device' b hb hfailed)
  · intro user₁ device₁ user₂ device₂ b c hb hc heq
    rw [hputs] at hb hc
    split at hb
    · rename_i h₁
      cases hb
      split at hc
      · rename_i h₂
        exact ⟨h₁.1.trans h₂.1.symm, h₁.2.trans h₂.2.symm⟩
      · rw [h₁.1, h₁.2]
        exact h.unique user device user₂ device₂ a c ha hc heq
    · split at hc
      · rename_i h₂
        cases hc
        rw [h₂.1, h₂.2]
        exact h.unique user₁ device₁ user device b a hb ha heq
      · exact h.unique user₁ device₁ user₂ device₂ b c hb hc heq

/-- **One operation** keeps the records. -/
theorem Buried.after (h : Buried P vs v.1) (hm : v.1.NoInactive)
    (hfresh : ∀ id, drawn? v.2 = some id → id ∉ drawnIds vs) :
    Buried P (vs ++ [v]) (v.1.after P v.2) := by
  rcases after_active (P := P) hm v.2 with
    ⟨hsub, hnot⟩ | ⟨user, device, s, hdrawn, hstatus, hputs⟩ |
    ⟨user, device, a, s, ha, hid, hstatus, hstatus', hputs, hnot⟩ |
    ⟨user, device, a, hop, hok, ha, hputs⟩
  · refine h.of_subset ?_ fun user device a ha ↦ ⟨a, hsub user device a ha, rfl, Iff.rfl⟩
    rintro sid ⟨user, device, hop, hok⟩
    exact hnot hok user device sid hop
  · refine h.of_created ?_ hdrawn (hfresh _ hdrawn) hstatus hputs
    rintro sid ⟨user, device, hop, -⟩
    rw [hop] at hdrawn
    cases hdrawn
  · refine h.of_subset (fun sid ⟨user, device, hop, _⟩ ↦ hnot user device sid hop) ?_
    intro user' device' a' ha'
    rw [hputs] at ha'
    split at ha'
    · rename_i heq
      cases ha'
      rw [heq.1, heq.2]
      exact ⟨a, ha, hid, iff_of_false hstatus' hstatus⟩
    · exact ⟨a', ha', rfl, Iff.rfl⟩
  · exact h.of_marked hop hok ha hputs

/-- What a call returns is a standing session, or a new one under the id it drew. -/
theorem returned_cases (m : SessionManager B) {op : ManagerOp B} (h : m.returned P op = some sid) :
    drawn? op = some sid ∨
    (∃ user device a, m.activeSession user device = some a ∧ a.id = sid ∧
      (a.status ≠ .failed ∨ ∃ identity sk dh now id,
        op = .prepareInbound user device identity sk dh now id ∧
          m.standing keptInbound user device identity = some a)) := by
  have hactive {kept : SessionRecord B → Bool} {user device : List B} {identity : IdentityMaterial B}
      {a : SessionRecord B} (ha : m.standing kept user device identity = some a) :
      m.activeSession user device = some a ∧ kept a = true := by
    obtain ⟨u, dev, hu, hdev, -, hdevactive, hkept⟩ := standing_eq_some ha
    refine ⟨?_, hkept⟩
    rw [activeSession, device?_eq_some.2 ⟨u, hu, hdev⟩, Option.bind_some, hdevactive]
  cases op with
  | prepareOutbound user device identity sk dh now dhs id =>
    obtain ⟨hstanding, hnone⟩ := prepareOutbound_cases P m user device identity sk dh now dhs id
    cases hs : m.standing keptOutbound user device identity with
    | some a =>
      rw [returned, hstanding a hs] at h
      cases h
      obtain ⟨ha, hkept⟩ := hactive hs
      refine .inr ⟨user, device, a, ha, rfl, .inl fun hfailed ↦ ?_⟩
      rw [keptOutbound, hfailed] at hkept
      cases hkept
    | none =>
      rcases hnone hs with ⟨⟨err, herr⟩, -⟩ | ⟨hok, -⟩
      · rw [returned, herr] at h
        cases h
      · rw [returned, hok] at h
        exact .inl h
  | prepareInbound user device identity sk dh now id =>
    obtain ⟨hstanding, hnone⟩ := prepareInbound_cases m user device identity sk dh now id
    cases hs : m.standing keptInbound user device identity with
    | some a =>
      rw [returned, hstanding a hs] at h
      cases h
      exact .inr ⟨user, device, a, (hactive hs).1, rfl, .inr ⟨identity, sk, dh, now, id, rfl, hs⟩⟩
    | none =>
      rcases hnone hs with ⟨⟨err, herr⟩, -⟩ | ⟨hok, -⟩
      · rw [returned, herr] at h
        cases h
      · rw [returned, hok] at h
        exact .inl h
  | _ => cases h

/-- **One operation**: marked sessions stay dead exactly if it finds none. -/
theorem dead_iff (h : Buried P vs v.1) (hm : v.1.NoInactive)
    (hfresh : ∀ id, drawn? v.2 = some id → id ∉ drawnIds vs) : Dead P vs v ↔ v.FindsNoFailed := by
  constructor
  · intro hdead user device identity sk dh now id hop a ha hfailed
    obtain ⟨u, dev, hu, hdev, -, hactive, -⟩ := standing_eq_some ha
    have hsession : v.1.activeSession user device = some a := by
      rw [activeSession, device?_eq_some.2 ⟨u, hu, hdev⟩, Option.bind_some, hactive]
    refine (hdead a.id (h.failed_marked user device a hsession hfailed)).1 ?_
    rw [hop, returned, (prepareInbound_cases v.1 user device identity sk dh now id).1 a ha]
    rfl
  · intro hfinds sid hmarked
    constructor
    · intro hret
      rcases returned_cases v.1 hret with hdrawn | ⟨user, device, a, ha, rfl, hstatus⟩
      · exact hfresh sid hdrawn (h.marked_drawn sid hmarked)
      · have hfailed := h.marked_failed user device a ha hmarked
        rcases hstatus with hstatus | ⟨identity, sk, dh, now, id, hop, hstanding⟩
        · exact hstatus hfailed
        · exact hfinds user device identity sk dh now id hop a hstanding hfailed
    · rintro user device s hs rfl
      have hactive := (mem_sessions (perform_noInactive P v.2 hm)).1 hs
      exact (h.after hm hfresh).marked_failed user device s hactive (marked_concat.2 (.inl hmarked))

/-- The ids drawn in a run are those of its operations. -/
theorem drawnIds_visits (m : SessionManager B) (ops : List (ManagerOp B)) :
    drawnIds (Run.visits (SessionManager.after P) m ops) = ops.filterMap drawn? := by
  induction ops using List.reverseRecOn with
  | nil => rfl
  | append_singleton ops op ih =>
    rw [Run.visits_concat, drawnIds_concat, ih, List.filterMap_append]
    cases h : drawn? op <;> simp [h]

/-- An id that is drawn next was not drawn before, if a run draws none twice. -/
theorem fresh_of_nodup {m : SessionManager B} {ops : List (ManagerOp B)} {op : ManagerOp B}
    (h : ((ops ++ [op]).filterMap drawn?).Nodup) :
    ∀ id, drawn? op = some id → id ∉ drawnIds (Run.visits (SessionManager.after P) m ops) := by
  intro id hid hmem
  rw [drawnIds_visits] at hmem
  rw [List.filterMap_append, List.filterMap_cons_some hid] at h
  exact (List.nodup_append.1 h).2.2 id hmem id (List.mem_singleton.2 rfl) rfl

/-- The records, in every run. -/
theorem last_buried {m : SessionManager B} (hm : m.NoInactive)
    (hnone : ∀ user device, m.activeSession user device = none) (ops : List (ManagerOp B))
    (hdraws : (ops.filterMap drawn?).Nodup) :
    Buried P (Run.visits (SessionManager.after P) m ops) (Run.last (SessionManager.after P) m ops) := by
  induction ops using List.reverseRecOn with
  | nil =>
    have hempty (user device : List B) (a : SessionRecord B) : m.activeSession user device ≠ some a := by
      rw [hnone]
      exact fun h ↦ by cases h
    refine ⟨?_, ?_, ?_, ?_, ?_⟩
    · exact fun user device a ha ↦ absurd ha (hempty user device a)
    · rintro sid ⟨w, hw, -⟩
      cases hw
    · exact fun user device a ha ↦ absurd ha (hempty user device a)
    · exact fun user device a ha ↦ absurd ha (hempty user device a)
    · exact fun user device _ _ a _ ha ↦ absurd ha (hempty user device a)
  | append_singleton ops op ih =>
    rw [Run.visits_concat, Run.last_concat]
    have hprefix : (ops.filterMap drawn?).Nodup := by
      rw [List.filterMap_append] at hdraws
      exact (List.nodup_append.1 hdraws).1
    exact (ih hprefix).after (last_noInactive P hm ops) (fresh_of_nodup hdraws)

end Visit

open SessionManager in
/-- **When a failed session stays dead.** In a run of any operations that draws no session id twice:
after a `mark_failed` has succeeded, no call returns the session and no operation gives its record
another status, if and only if no `prepare_inbound` of the run finds a failed session active under an
identity that passes the gate. -/
theorem failed_stays_dead_iff (P : Primitives B) (user device : List B) (identity : IdentityMaterial B)
    (ops : List (ManagerOp B)) (hdraws : (ops.filterMap drawn?).Nodup) :
    Run.Throughout (Visit.Dead P) (Run.visits (after P) (new user device identity) ops) ↔
      Run.Throughout (fun _ v ↦ Visit.FindsNoFailed v)
        (Run.visits (after P) (new user device identity) ops) := by
  induction ops using List.reverseRecOn with
  | nil => exact iff_of_true Run.throughout_nil Run.throughout_nil
  | append_singleton ops op ih =>
    have hprefix : (ops.filterMap drawn?).Nodup := by
      rw [List.filterMap_append] at hdraws
      exact (List.nodup_append.1 hdraws).1
    rw [Run.visits_concat, Run.throughout_concat, Run.throughout_concat, ih hprefix]
    refine and_congr_right fun _ ↦ ?_
    have hburied := Visit.last_buried (P := P) (new_noInactive user device identity) (fun _ _ ↦ rfl) ops
      hprefix
    refine Visit.dead_iff (v := (Run.last (after P) (new user device identity) ops, op)) hburied ?_ ?_
    · exact last_noInactive P (new_noInactive _ _ _) ops
    · exact Visit.fresh_of_nodup hdraws

namespace Symbolic

/-- A session with user 7 that fails, and then a message from the same device. -/
def failedThenInbound : List (ManagerOp Sym) :=
  [contactOp 2, .markFailed [.lit 7] [.lit 8] (Sym.block 15 (.lit 1)),
    .prepareInbound [.lit 7] [.lit 8] (identityOf 2) (Block.zero 32) (Block.zero 32) 0
      (Sym.block 15 (.lit 2))]

/-- A session with user 7 that fails, and then another attempt to contact the device. -/
def failedThenOutbound : List (ManagerOp Sym) :=
  [contactOp 2, .markFailed [.lit 7] [.lit 8] (Sym.block 15 (.lit 1)),
    .prepareOutbound [.lit 7] [.lit 8] (identityOf 2) (Block.zero 32) (Sym.block 31 (.lit 1)) 0
      (Sym.block 31 (.lit 1)) (Sym.block 15 (.lit 2))]

end Symbolic

open Symbolic in
/-- A run without inbound calls keeps its failed session dead. -/
theorem failed_stays_dead_outbound :
    Run.Throughout (Visit.Dead symbolic)
      (Run.visits (SessionManager.after symbolic)
        (SessionManager.new [.lit 1] [.lit 2] (identityOf 1)) failedThenOutbound) := by
  refine (failed_stays_dead_iff symbolic [.lit 1] [.lit 2] (identityOf 1) failedThenOutbound
    (by decide +kernel)).2 ?_
  intro past v rest hvs user device identity sk dh now id hop
  have hmem : v.2 ∈ (Run.visits (SessionManager.after symbolic)
      (SessionManager.new [.lit 1] [.lit 2] (identityOf 1)) failedThenOutbound).map Prod.snd := by
    rw [hvs]
    exact List.mem_map_of_mem (List.mem_append_right _ List.mem_cons_self)
  rw [hop] at hmem
  simp [failedThenOutbound, Run.visits, contactOp] at hmem

open Symbolic in
/-- **A failed session comes back**: the message after it is told to use it. -/
theorem failed_session_returned :
    ¬ Run.Throughout (Visit.Dead symbolic)
      (Run.visits (SessionManager.after symbolic)
        (SessionManager.new [.lit 1] [.lit 2] (identityOf 1)) failedThenInbound) := by
  intro h
  have hdead := h
    (Run.visits (SessionManager.after symbolic)
      (SessionManager.new [.lit 1] [.lit 2] (identityOf 1)) (failedThenInbound.take 2))
    (Run.last (SessionManager.after symbolic)
      (SessionManager.new [.lit 1] [.lit 2] (identityOf 1)) (failedThenInbound.take 2),
      .prepareInbound [.lit 7] [.lit 8] (identityOf 2) (Block.zero 32) (Block.zero 32) 0
        (Sym.block 15 (.lit 2))) [] rfl
  refine (hdead (Sym.block 15 (.lit 1)) ?_).1 (by decide +kernel)
  refine ⟨(Run.last (SessionManager.after symbolic)
    (SessionManager.new [.lit 1] [.lit 2] (identityOf 1)) (failedThenInbound.take 1),
    .markFailed [.lit 7] [.lit 8] (Sym.block 15 (.lit 1))), ?_, [.lit 7], [.lit 8], rfl, ?_⟩
  · exact List.mem_cons_of_mem _ List.mem_cons_self
  · decide +kernel

end VoiceChatCrypto
