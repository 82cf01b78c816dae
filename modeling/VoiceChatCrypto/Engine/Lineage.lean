import VoiceChatCrypto.Engine.Once

/-!
# The ratchets of a session

What a session holds over a run is one ratchet (`singleRatchet`), in memory and in storage, and this
ratchet only ever goes on: it seals, or it opens, or it stays. A relation between ratchets that sealing
and opening keep (`LiveRatchet.Kept`) therefore relates what the device held of the session once to
everything that it holds later, whatever was called and reloaded in between (`Run.Follows.run`), and to
the ratchet that any later message of the session is sealed or opened with
(`Run.exists_sealed_later`, `Run.exists_opened_later`). In the same way a property of new ratchets that
sealing and opening keep is one of every ratchet that is held (`held_of_begun`).
-/

open Alphabet

namespace VoiceChatCrypto

variable {B : Type} [Alphabet B] {P : Primitives B}

/-! ### One ratchet -/

namespace Engine

variable {e : Engine B} {d : Draws B} {c : Call B} {sid : SessionId B}

/-- **What a device holds of a session is one ratchet**, in memory and in storage. -/
def SingleRatchet (e : Engine B) : Prop :=
  ∀ sid s t, e.Held sid s → e.Held sid t → s.ratchet = t.ratchet

/-- A slot keeps to one ratchet, if drawn ids are new. -/
theorem SlotStep.single (hsingle : e.SingleRatchet) (hlay : e.Layout) (hc : c.Fits)
    (hfresh : ∀ s, ¬ e.Held d.sessionId s) {mem : Option (LiveSession B)} {blob' : Option (List B)}
    (h : SlotStep P d e c sid mem blob') : ∃ r, ∀ t : LiveSession B,
      (mem = some t ∨ ∃ σ : Enumeration, t.Storable ∧ blob' = some (t.encode σ sid)) →
        t.ratchet = r := by
  -- a slot that holds no more than the engine did
  have hold : (∀ t : LiveSession B,
      (mem = some t ∨ ∃ σ : Enumeration, t.Storable ∧ blob' = some (t.encode σ sid)) →
        ∃ s, e.Held sid s ∧ s.ratchet = t.ratchet) → ∃ r, ∀ t : LiveSession B,
      (mem = some t ∨ ∃ σ : Enumeration, t.Storable ∧ blob' = some (t.encode σ sid)) →
        t.ratchet = r := by
    intro hall
    by_cases hsome : ∃ s, e.Held sid s
    · obtain ⟨s, hs⟩ := hsome
      refine ⟨s.ratchet, fun t ht ↦ ?_⟩
      obtain ⟨s', hs', hratchet⟩ := hall t ht
      rw [← hratchet]
      exact hsingle sid _ _ hs' hs
    · refine ⟨.classical (DoubleRatchetState.initBob (Block.zero 32) (Block.zero 32) 0), fun t ht ↦ ?_⟩
      obtain ⟨s', hs', -⟩ := hall t ht
      exact absurd ⟨s', hs'⟩ hsome
  cases h with
  | kept mem h =>
    refine hold fun t ht ↦ ?_
    rcases ht with rfl | ht
    · obtain ⟨s, hs, hcore⟩ := Option.map_eq_some_iff.1 h.symm
      exact ⟨s, .inl hs, LiveSession.ratchet_eq_of_core_eq hcore⟩
    · exact ⟨t, .inr ht, rfl⟩
  | written σ s hmade =>
    exact ⟨s.ratchet, fun t ht ↦ ratchet_eq_of_written (hmade.storable hc hlay.live) rfl rfl ht⟩
  | unsent bundle conv pt ad i r err hsid hc' hi henc =>
    refine ⟨r, fun t ht ↦ ?_⟩
    rcases ht with ht | ht
    · obtain rfl := Option.some.inj ht
      rfl
    · exact absurd (.inr (hsid ▸ ht)) (hfresh t)
  | closed hsid =>
    refine hold fun t ht ↦ ?_
    rcases ht with ht | ht
    · cases ht
    · exact ⟨t, .inr ht, rfl⟩
  | erased =>
    refine hold fun t ht ↦ ?_
    rcases ht with ht | ⟨σ, -, ht⟩
    · cases ht
    · cases ht
  | restored mem h =>
    refine hold fun t ht ↦ ?_
    rcases ht with rfl | ht
    · rcases h with ⟨hnone, -⟩ | ⟨σ, s, s', hsome, hcore, hs, hblob⟩
      · cases hnone
      · obtain rfl := Option.some.inj hsome
        exact ⟨s, .inr ⟨σ, hs, hblob⟩, (LiveSession.ratchet_eq_of_core_eq hcore).symm⟩
    · exact ⟨t, .inr ht, rfl⟩

/-- **What a call seals** in a session that is not new. -/
theorem exists_encrypt_of_sends {header ct : List B} (hidle : e.storage.staged = none)
    (hsid : sid ≠ d.sessionId) (h : Event.Sends ⟨e, c, d, (e.call P d c).1⟩ sid header ct) :
    ∃ s pt ad r, e.sessions.lookup sid = some s ∧
      s.ratchet.encrypt P d pt ad = .ok ((header, ct), r) := by
  have heffect := call_effect (P := P) hidle d c
  generalize (e.call P d c).2 = e' at heffect
  rcases h with ⟨m, hout, rfl, rfl, rfl⟩ | ⟨packet, hout, rfl, rfl⟩
  · dsimp only at hout
    rw [hout] at heffect
    cases heffect with
    | sealed c sid pt ad s r header ct hc' hs henc => exact ⟨s, pt, _, r, hs, henc⟩
  · dsimp only at hout
    rw [hout] at heffect
    cases heffect with
    | established bundle conv pt ad i r r' header ct hi henc => exact absurd rfl hsid

/-- **What a call accepts** in a session that is not new. -/
theorem exists_decrypt_of_accepts {header ct : List B} (hidle : e.storage.staged = none)
    (hsid : sid ≠ d.sessionId) (h : Event.Accepts ⟨e, c, d, (e.call P d c).1⟩ sid header ct) :
    ∃ s pt ad r, e.sessions.lookup sid = some s ∧
      s.ratchet.decrypt P d header ct ad = .ok (pt, r) := by
  have heffect := call_effect (P := P) hidle d c
  generalize (e.call P d c).2 = e' at heffect
  rcases h with ⟨m, ad, pt, hcall, hout, rfl, rfl⟩ | ⟨m, conv, ad, pt, hcall, hout, rfl, rfl⟩
  · dsimp only at hcall hout
    subst hcall
    rw [hout] at heffect
    cases heffect with
    | opened sid m ad pt s r hs hreplay hdec => exact ⟨s, pt, _, r, hs, hdec⟩
  · dsimp only at hcall hout
    subst hcall
    rw [hout] at heffect
    cases heffect with
    | processed m conv ad pt shared r r' hans hreplay hdec => exact absurd rfl hsid

end Engine

/-! ### Relations that are kept -/

/-- **A relation that sealing and opening keep**, from any ratchet to those that come of it. -/
structure LiveRatchet.Kept (P : Primitives B) (R : LiveRatchet B → LiveRatchet B → Prop) : Prop where
  /-- Every ratchet is related to itself. -/
  refl : ∀ r, R r r
  /-- Sealing with a sound ratchet keeps the relation. -/
  sealed : ∀ {r₀ r r' : LiveRatchet B} {d : Draws B} {pt ad header ct : List B}, R r₀ r → r.Sound P →
    r.encrypt P d pt ad = .ok ((header, ct), r') → R r₀ r'
  /-- So does opening. -/
  opened : ∀ {r₀ r r' : LiveRatchet B} {d : Draws B} {header ct ad pt : List B}, R r₀ r → r.Sound P →
    r.decrypt P d header ct ad = .ok (pt, r') → R r₀ r'

/-- Whatever the device holds of the session is related to a ratchet. -/
structure Run.Follows (R : LiveRatchet B → LiveRatchet B → Prop) (sid : SessionId B)
    (start : LiveRatchet B) (r : Run B) : Prop where
  /-- The session has been opened or answered in the run. -/
  drawn : r.DrewSession sid
  /-- In memory and in storage there are related ratchets only. -/
  related : ∀ s, r.engine.Held sid s → R start s.ratchet

/-! ### Later calls -/

/-- The draws of one more call are new as long as no call has drawn its session id. -/
theorem FreshSessions.extend {r : Run B} {c c' : Call B} {d d' : Draws B} (h : FreshSessions r c d)
    (hsession : d'.sessionId ≠ d.sessionId) : FreshSessions (r.extend P d' c') c d where
  fits := h.fits
  session := by
    rintro ⟨ev, hev, hsid⟩
    rcases List.mem_append.1 hev with hev | hev
    · exact h.session ⟨ev, hev, hsid⟩
    · obtain rfl := List.mem_singleton.1 hev
      exact hsession hsid

theorem Event.sends_of_sealed {e : Engine B} {c : Call B} {d : Draws B} {m : SealedMessage B}
    (h : (e.call P d c).1 = .ok (.sealed m)) :
    Event.Sends ⟨e, c, d, (e.call P d c).1⟩ m.sessionHint m.header m.ciphertext :=
  .inl ⟨m, h, rfl, rfl, rfl⟩

theorem Run.log_extend (r : Run B) (d : Draws B) (c : Call B) :
    (r.extend P d c).log = r.log ++ [⟨r.engine, c, d, (r.engine.call P d c).1⟩] :=
  rfl

theorem exists_log_of_run {allow : Run B → Call B → Draws B → Prop} {r r' : Run B}
    (hrun : Relation.ReflTransGen (device P allow).step r r') : ∃ l, r'.log = r.log ++ l := by
  induction hrun with
  | refl => exact ⟨[], (List.append_nil _).symm⟩
  | tail _ hstep ih =>
    obtain ⟨l, hl⟩ := ih
    obtain ⟨c, d, -, rfl⟩ := hstep
    exact ⟨l ++ [_], by rw [Run.log_extend, hl, List.append_assoc]⟩

/-- The calls that a run made from some point on. -/
theorem exists_of_mem_later {allow : Run B → Call B → Draws B → Prop} {r r' : Run B}
    (hrun : Relation.ReflTransGen (device P allow).step r r') {later : List (Event B)}
    (hlog : r'.log = r.log ++ later) {ev : Event B} (hev : ev ∈ later) :
    ∃ t c d, Relation.ReflTransGen (device P allow).step r t ∧ allow t c d ∧
      ev = ⟨t.engine, c, d, (t.engine.call P d c).1⟩ := by
  induction hrun generalizing later with
  | refl =>
    obtain rfl := List.append_right_eq_self.1 hlog.symm
    cases hev
  | @tail t t' hrun hstep ih =>
    obtain ⟨c, d, hallow, rfl⟩ := hstep
    obtain ⟨l, hl⟩ := exists_log_of_run hrun
    have hlater : later = l ++ [⟨t.engine, c, d, (t.engine.call P d c).1⟩] := by
      have happend : r.log ++ later = r.log ++ (l ++ [⟨t.engine, c, d, (t.engine.call P d c).1⟩]) := by
        rw [← hlog, Run.log_extend, hl, List.append_assoc]
      exact List.append_cancel_left happend
    rw [hlater] at hev
    rcases List.mem_append.1 hev with hev | hev
    · exact ih hl hev
    · exact ⟨t, c, d, hrun, hallow, List.mem_singleton.1 hev⟩

section Ideal

variable (hP : IdealKdf P) (hO : OpensSealed P) (h1 : OneKey P)
include hP hO h1

/-- **What holds of new ratchets, and is kept, holds of every ratchet** that a device ever holds, in
memory or in storage. -/
theorem held_of_begun {Q : LiveRatchet B → Prop}
    (hbegun : ∀ {d : Draws B} {r : LiveRatchet B}, r.Begun P d → Q r)
    (hsealed : ∀ {r r' : LiveRatchet B} {d : Draws B} {pt ad header ct : List B}, Q r →
      r.encrypt P d pt ad = .ok ((header, ct), r') → Q r')
    (hopened : ∀ {r r' : LiveRatchet B} {d : Draws B} {header ct ad pt : List B}, Q r →
      r.decrypt P d header ct ad = .ok (pt, r') → Q r') {r : Run B}
    (hr : (device P FreshSessions).Reachable r) {sid : SessionId B} {s : LiveSession B}
    (hs : r.engine.Held sid s) : Q s.ratchet := by
  refine System.Reachable.invariant (I := fun r ↦ ∀ sid s, r.engine.Held sid s → Q s.ratchet)
    ?_ ?_ hr sid s hs
  · intro s hs sid t ht
    obtain ⟨ev, hev, -⟩ := (once hP hO h1 (.of_start hs)).drawn sid t ht
    rw [hs.1] at hev
    cases hev
  · rintro r - hreach hall ⟨c, d, hc, rfl⟩ sid t ht
    have honce := once hP hO h1 hreach
    cases Engine.call_origin hP hO h1 (device_idle hreach) honce.layout hc.fits ht with
    | held hs hratchet => exact hratchet ▸ hall sid _ hs
    | fresh hsid hr => exact hbegun hr
    | sealed hs henc => exact hsealed (hall sid _ (.inl hs)) henc
    | opened hs hdec => exact hopened (hall sid _ (.inl hs)) hdec

/-- **In every run a session is one ratchet**: all its states come from the one that the handshake
began. -/
theorem singleRatchet {r : Run B} (hr : (device P FreshSessions).Reachable r) :
    r.engine.SingleRatchet := by
  refine System.Reachable.invariant (I := fun r ↦ r.engine.SingleRatchet) ?_ ?_ hr
  · intro s hs sid t t' ht
    obtain ⟨ev, hev, -⟩ := (once hP hO h1 (.of_start hs)).drawn sid t ht
    rw [hs.1] at hev
    cases hev
  · rintro r - hreach hsingle ⟨c, d, hc, rfl⟩
    have honce := once hP hO h1 hreach
    have hfresh : ∀ s, ¬ r.engine.Held d.sessionId s :=
      fun s hs ↦ hc.session (honce.drawn _ s hs)
    intro sid s t hs ht
    obtain ⟨ratchet, hall⟩ := ((Engine.call_effect (P := P) (device_idle hreach) d c).slot
      honce.layout sid).single hsingle honce.layout hc.fits hfresh
    exact (hall s hs).trans (hall t ht).symm

section Follows

variable {R : LiveRatchet B → LiveRatchet B → Prop} (hR : LiveRatchet.Kept P R) {r r' : Run B}
  {sid : SessionId B} {start : LiveRatchet B} {c : Call B} {d : Draws B}
include hR

/-- **One more call** keeps the relation. -/
theorem Run.Follows.extend (hr : (device P FreshSessions).Reachable r) (h : r.Follows R sid start)
    (hc : FreshSessions r c d) : (r.extend P d c).Follows R sid start := by
  have honce := once hP hO h1 hr
  refine ⟨h.drawn.extend d c, fun t ht ↦ ?_⟩
  cases Engine.call_origin hP hO h1 (device_idle hr) honce.layout hc.fits ht with
  | held hs hratchet => exact hratchet ▸ h.related _ hs
  | fresh hsid _ => exact absurd (hsid ▸ h.drawn) hc.session
  | sealed hs henc => exact hR.sealed (h.related _ (.inl hs)) (honce.sound sid _ (.inl hs)) henc
  | opened hs hdec => exact hR.opened (h.related _ (.inl hs)) (honce.sound sid _ (.inl hs)) hdec

/-- A session that is held follows its ratchet. -/
theorem Run.follows_of_held (hr : (device P FreshSessions).Reachable r) {s : LiveSession B}
    (hs : r.engine.Held sid s) : r.Follows R sid s.ratchet where
  drawn := (once hP hO h1 hr).drawn sid s hs
  related t ht := singleRatchet hP hO h1 hr sid s t hs ht ▸ hR.refl _

/-- **A whole run** keeps the relation. -/
theorem Run.Follows.run (hr : (device P FreshSessions).Reachable r)
    (hrun : Relation.ReflTransGen (device P FreshSessions).step r r') (h : r.Follows R sid start) :
    (device P FreshSessions).Reachable r' ∧ r'.Follows R sid start := by
  induction hrun with
  | refl => exact ⟨hr, h⟩
  | tail _ hstep ih =>
    obtain ⟨hreach, hfollows⟩ := ih
    obtain ⟨c, d, hc, rfl⟩ := hstep
    exact ⟨reachable_extend hreach hc, hfollows.extend hP hO h1 hR hreach hc⟩

/-- **What a session seals later** is sealed by a related ratchet. -/
theorem Run.exists_sealed_later (hr : (device P FreshSessions).Reachable r) {s : LiveSession B}
    (hs : r.engine.Held sid s) (hrun : Relation.ReflTransGen (device P FreshSessions).step r r')
    {later : List (Event B)} (hlog : r'.log = r.log ++ later) {ev : Event B} (hev : ev ∈ later)
    {header ct : List B} (hsends : ev.Sends sid header ct) :
    ∃ (t : LiveRatchet B) (d : Draws B) (pt ad : List B) (t' : LiveRatchet B), R s.ratchet t ∧
      t.Sound P ∧ t.encrypt P d pt ad = .ok ((header, ct), t') := by
  obtain ⟨u, c', d', hrun', hc', rfl⟩ := exists_of_mem_later hrun hlog hev
  obtain ⟨hu, hfollows⟩ := (Run.follows_of_held hP hO h1 hR hr hs).run hP hO h1 hR hr hrun'
  have hsid : sid ≠ d'.sessionId := fun heq ↦ hc'.session (heq ▸ hfollows.drawn)
  obtain ⟨t, pt, ad, t', ht, henc⟩ := Engine.exists_encrypt_of_sends (device_idle hu) hsid hsends
  exact ⟨t.ratchet, d', pt, ad, t', hfollows.related t (.inl ht),
    (once hP hO h1 hu).sound sid t (.inl ht), henc⟩

/-- **What a session opens later** is opened by a related ratchet. -/
theorem Run.exists_opened_later (hr : (device P FreshSessions).Reachable r) {s : LiveSession B}
    (hs : r.engine.Held sid s) (hrun : Relation.ReflTransGen (device P FreshSessions).step r r')
    {later : List (Event B)} (hlog : r'.log = r.log ++ later) {ev : Event B} (hev : ev ∈ later)
    {header ct : List B} (haccepts : ev.Accepts sid header ct) :
    ∃ (t : LiveRatchet B) (d : Draws B) (ad pt : List B) (t' : LiveRatchet B), R s.ratchet t ∧
      t.Sound P ∧ t.decrypt P d header ct ad = .ok (pt, t') := by
  obtain ⟨u, c', d', hrun', hc', rfl⟩ := exists_of_mem_later hrun hlog hev
  obtain ⟨hu, hfollows⟩ := (Run.follows_of_held hP hO h1 hR hr hs).run hP hO h1 hR hr hrun'
  have hsid : sid ≠ d'.sessionId := fun heq ↦ hc'.session (heq ▸ hfollows.drawn)
  obtain ⟨t, pt, ad, t', ht, hdec⟩ := Engine.exists_decrypt_of_accepts (device_idle hu) hsid haccepts
  exact ⟨t.ratchet, d', ad, pt, t', hfollows.related t (.inl ht),
    (once hP hO h1 hu).sound sid t (.inl ht), hdec⟩

end Follows

/-- **What one call does** to the ratchet of a session that is there: nothing, or it seals, or it opens. -/
theorem Run.ratchet_cases {r : Run B} (hr : (device P FreshSessions).Reachable r) {sid : SessionId B}
    {c : Call B} {d : Draws B} (hc : FreshSessions r c d) {s s' : LiveSession B}
    (hs : r.engine.sessions.lookup sid = some s)
    (hs' : (r.extend P d c).engine.sessions.lookup sid = some s') :
    s'.ratchet = s.ratchet ∨
    (∃ pt ad header ct, s.ratchet.encrypt P d pt ad = .ok ((header, ct), s'.ratchet)) ∨
    ∃ header ct ad pt, s.ratchet.decrypt P d header ct ad = .ok (pt, s'.ratchet) := by
  have honce := once hP hO h1 hr
  cases Engine.call_origin hP hO h1 (device_idle hr) honce.layout hc.fits (.inl hs') with
  | held ht hratchet =>
    exact .inl (hratchet.trans (singleRatchet hP hO h1 hr sid _ _ ht (.inl hs)))
  | fresh hsid _ => exact absurd (hsid ▸ honce.drawn sid s (.inl hs)) hc.session
  | @sealed t _ pt ad header ct ht henc =>
    obtain rfl := Option.some.inj (ht.symm.trans hs)
    exact .inr (.inl ⟨pt, ad, header, ct, henc⟩)
  | @opened t _ header ct ad pt ht hdec =>
    obtain rfl := Option.some.inj (ht.symm.trans hs)
    exact .inr (.inr ⟨header, ct, ad, pt, hdec⟩)

end Ideal

end VoiceChatCrypto
