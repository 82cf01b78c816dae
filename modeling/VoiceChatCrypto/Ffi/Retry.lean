import VoiceChatCrypto.Engine.Handshake
import VoiceChatCrypto.Ffi.Calls

/-!
# Retrying a failed call

A caller of the C interface who gets an error is told to try again, if need be with the buffer length
that was reported. That works when the failed call has left the engine alone. The first check of the
buffer comes before the engine runs and is harmless; the second comes after the engine has committed,
and fails when the result is longer than the bound of the first check promised. For the packets and
messages that the engine *makes*, the bound is generous and the second check never fails. For what it
*opens* the bound is a constant, and a plaintext longer than the buffer is lost.
-/

open Alphabet

namespace VoiceChatCrypto.Ffi

variable {B : Type} [Alphabet B] {P : Primitives B}

/-- One of the five calls, with its arguments. -/
inductive FfiCall (B : Type)
  | generateBundle (oneTimeCount : ℕ) (out : OutBuffer)
  | establishOutbound (bundle conversation firstPt ad : InBuffer B) (outSession : Bool)
      (out : OutBuffer)
  | processInbound (packet conversation ad : InBuffer B) (outSession : Bool) (out : OutBuffer)
  | encrypt (sid : Option (SessionId B)) (plaintext ad : InBuffer B) (out : OutBuffer)
  | decrypt (sid : Option (SessionId B)) (blob ad : InBuffer B) (out : OutBuffer)

/-- Runs a call on the engine behind a handle. -/
def FfiCall.run (P : Primitives B) (reg : Registry B) (h : UInt64) (d : Draws B) :
    FfiCall B → Reply B × Registry B
  | .generateBundle n out => vcGenerateBundle P reg h n out d
  | .establishOutbound bundle conv pt ad outSession out =>
    vcEstablishOutbound P reg h bundle conv pt ad outSession out d
  | .processInbound packet conv ad outSession out =>
    vcProcessInbound P reg h packet conv ad outSession out d
  | .encrypt sid pt ad out => vcEncrypt P reg h sid pt ad out d
  | .decrypt sid blob ad out => vcDecrypt P reg h sid blob ad out d

/-- The same handles, with engines that have the same sessions, prekeys, replay cache and committed
storage. -/
def Registry.Unchanged (reg reg' : Registry B) : Prop :=
  ∀ h, Option.Rel Engine.Unchanged (reg.lookup h) (reg'.lookup h)

theorem Registry.Unchanged.refl (reg : Registry B) : reg.Unchanged reg := by
  intro h
  cases reg.lookup h with
  | none => exact .none
  | some e => exact .some (Engine.Unchanged.refl e)

/-- Putting an engine back leaves the registry unchanged when the engine is. -/
theorem Registry.unchanged_insert {reg : Registry B} {h : UInt64} {e e' : Engine B}
    (he : reg.lookup h = some e) : reg.Unchanged (reg.insert h e') ↔ Engine.Unchanged e e' := by
  constructor
  · intro hreg
    have hh := hreg h
    rw [he, Finmap.lookup_insert] at hh
    cases hh with
    | some hee => exact hee
  · intro hee k
    by_cases hk : k = h
    · subst hk
      rw [he, Finmap.lookup_insert]
      exact .some hee
    · rw [Finmap.lookup_insert_of_ne _ hk]
      exact Registry.Unchanged.refl reg k

/-! ### Buffers -/

omit [Alphabet B] in
/-- A buffer passes when it is there and large enough. -/
theorem needBuffer_eq_ok {out : OutBuffer} {bound cap : ℕ} :
    (needBuffer out bound : Except (Reply B) ℕ) = .ok cap ↔
      out.present = true ∧ out.len = some cap ∧ bound ≤ cap := by
  unfold needBuffer
  cases hlen : out.len with
  | none => simp
  | some n =>
    dsimp only
    split
    · rename_i hbad
      simp only [reduceCtorEq, Option.some.injEq, false_iff, not_and]
      rintro hpresent rfl hle
      rcases hbad with hbad | hbad
      · exact hbad hpresent
      · omega
    · rename_i hgood
      push Not at hgood
      simp only [Except.ok.injEq, Option.some.injEq]
      constructor
      · rintro rfl
        exact ⟨hgood.1, rfl, hgood.2⟩
      · rintro ⟨-, rfl, -⟩
        rfl

omit [Alphabet B] in
theorem needBuffer_code {out : OutBuffer} {bound : ℕ} {reply : Reply B}
    (h : needBuffer out bound = .error reply) : reply.code ≠ .ok := by
  unfold needBuffer at h
  split at h
  · cases h
    exact nofun
  · split at h
    · cases h
      exact nofun
    · cases h

omit [Alphabet B] in
/-- After the argument checks, copying out fails exactly when the output is longer than the
capacity. -/
theorem copyOut_code {src : List B} {out : OutBuffer} {cap : ℕ} (hpresent : out.present = true)
    (hlen : out.len = some cap) : (copyOut src out).code ≠ .ok ↔ cap < src.length := by
  unfold copyOut
  rw [hlen]
  dsimp only
  rw [hpresent]
  split
  · rename_i h
    simpa [Reply.needs] using h
  · rename_i h
    simpa using h

omit [Alphabet B] in
theorem copyWithSession_code {src : List B} {sid : SessionId B} {cap : ℕ} :
    (copyWithSession src sid cap).code ≠ .ok ↔ cap < src.length := by
  unfold copyWithSession
  split
  · rename_i h
    simpa [Reply.needs] using h
  · rename_i h
    simpa using h

omit [Alphabet B] in
theorem orFail_eq_ok {α : Type} {out : OutBuffer} {x : Except VcError α} {a : α} :
    (orFail out x : Except (Reply B) α) = .ok a ↔ x = .ok a := by
  cases x <;> simp [orFail]

theorem checkedAdd_eq_ok {a b n : ℕ} (h : checkedAdd a b = .ok n) : n = a + b := by
  unfold checkedAdd at h
  split at h
  · cases h
    rfl
  · cases h

/-- The buffer of `vc_establish_outbound` is longer than the plaintext by a constant. -/
theorem le_of_establishArgs {bundle conv pt ad : InBuffer B} {outSession : Bool} {out : OutBuffer}
    {parsed : PublicPrekeyBundle B} {conv' pt' ad' : List B} {cap : ℕ}
    (h : establishArgs P bundle conv pt ad outSession out = .ok (parsed, conv', pt', ad', cap)) :
    8192 + pt'.length ≤ cap := by
  unfold establishArgs at h
  split at h
  · cases h
  obtain ⟨bundleBytes, -, h⟩ := Except.bind_eq_ok.1 h
  obtain ⟨_, -, h⟩ := Except.bind_eq_ok.1 h
  obtain ⟨_, -, h⟩ := Except.bind_eq_ok.1 h
  obtain ⟨_, -, h⟩ := Except.bind_eq_ok.1 h
  obtain ⟨bound, hbound, h⟩ := Except.bind_eq_ok.1 h
  obtain ⟨n, hbuf, h⟩ := Except.bind_eq_ok.1 h
  split at h
  · cases h
  · cases h
    rw [← checkedAdd_eq_ok (orFail_eq_ok.1 hbound)]
    exact (needBuffer_eq_ok.1 hbuf).2.2

omit [Alphabet B] in
/-- So is that of `vc_encrypt`. -/
theorem le_of_encryptArgs {sid : Option (SessionId B)} {pt ad : InBuffer B} {out : OutBuffer}
    {sid' : SessionId B} {pt' ad' : List B} {cap : ℕ}
    (h : encryptArgs sid pt ad out = .ok (sid', pt', ad', cap)) :
    out.present = true ∧ out.len = some cap ∧ 4096 + pt'.length ≤ cap := by
  unfold encryptArgs at h
  split at h
  · cases h
  obtain ⟨_, -, h⟩ := Except.bind_eq_ok.1 h
  obtain ⟨_, -, h⟩ := Except.bind_eq_ok.1 h
  obtain ⟨bound, hbound, h⟩ := Except.bind_eq_ok.1 h
  obtain ⟨n, hbuf, h⟩ := Except.bind_eq_ok.1 h
  cases h
  obtain ⟨hpresent, hlen, hle⟩ := needBuffer_eq_ok.1 hbuf
  rw [checkedAdd_eq_ok (orFail_eq_ok.1 hbound)] at hle
  exact ⟨hpresent, hlen, hle⟩

/-- That of `vc_decrypt` is only known to be there. -/
theorem out_of_decryptArgs {sid : Option (SessionId B)} {blob ad : InBuffer B} {out : OutBuffer}
    {sid' : SessionId B} {m : SealedMessage B} {ad' : List B} {cap : ℕ}
    (h : decryptArgs sid blob ad out = .ok (sid', m, ad', cap)) :
    out.present = true ∧ out.len = some cap := by
  unfold decryptArgs at h
  split at h
  · cases h
  obtain ⟨_, -, h⟩ := Except.bind_eq_ok.1 h
  obtain ⟨_, -, h⟩ := Except.bind_eq_ok.1 h
  obtain ⟨n, hbuf, h⟩ := Except.bind_eq_ok.1 h
  split at h
  · cases h
  · cases h
    obtain ⟨hpresent, hlen, -⟩ := needBuffer_eq_ok.1 hbuf
    exact ⟨hpresent, hlen⟩

/-! ### The engine behind the handle -/

/-- A failure is harmless if the engine has not changed: the caller may try again with a larger
buffer and loses nothing. -/
def Retries (r : Reply B × Registry B) (reg : Registry B) : Prop :=
  r.1.code ≠ .ok → reg.Unchanged r.2

/-- A call that has changed nothing can be tried again. -/
theorem retries_self (reply : Reply B) (reg : Registry B) : Retries (reply, reg) reg :=
  fun _ ↦ Registry.Unchanged.refl reg

/-- **When a failure is harmless**: an error of the engine has not changed it, and a result that could
not be copied out has not either. -/
theorem retries_withEngine {α : Type} {reg : Registry B} {h : UInt64} {out : OutBuffer}
    {run : Engine B → Except CryptoError α × Engine B} {answer : α → Reply B} :
    Retries (withEngine reg h out run answer) reg ↔
      ∀ e, reg.lookup h = some e →
        (∀ err, (run e).1 = .error err → Engine.Unchanged e (run e).2) ∧
        ∀ a, (run e).1 = .ok a → (answer a).code ≠ .ok → Engine.Unchanged e (run e).2 := by
  unfold withEngine
  cases he : reg.lookup h with
  | none =>
    exact ⟨fun _ e he' ↦ (by cases he'), fun _ ↦ retries_self _ reg⟩
  | some e =>
    have hcode : ∀ err, VcError.ofCrypto err ≠ .ok := by
      intro err
      cases err <;> exact nofun
    cases hrun : run e with
    | mk r e' =>
      cases r with
      | error err =>
        simp only [hrun, Option.some.injEq, forall_eq', reduceCtorEq, false_implies, implies_true,
          and_true, Except.error.injEq]
        unfold Retries
        rw [Registry.unchanged_insert he]
        exact ⟨fun hr ↦ hr (hcode err), fun hu _ ↦ hu⟩
      | ok a =>
        simp only [hrun, Option.some.injEq, forall_eq', reduceCtorEq, false_implies, implies_true,
          true_and, Except.ok.injEq]
        unfold Retries
        rw [Registry.unchanged_insert he]

/-! ### The five calls -/

/-- **What a call has to meet so that a failure of it is harmless.** Sealing and establishing are always
fine. A message that the engine accepts must fit the buffer that passed the first check; a bundle must
find the ids it asks for, or none at all. -/
def FfiCall.Safe (P : Primitives B) (reg : Registry B) (h : UInt64) (d : Draws B) : FfiCall B → Prop
  | .generateBundle n out => ∀ e cap, reg.lookup h = some e →
    (needBuffer out bundleBound : Except (Reply B) ℕ) = .ok cap → e.prekeys.Room n
  | .establishOutbound .. => True
  | .processInbound packet conv ad outSession out => ∀ m conv' ad' cap e,
    processArgs packet conv ad outSession out = .ok (m, conv', ad', cap) → reg.lookup h = some e →
    (e.processInboundSession P m conv' ad' d).1.isOk = true →
    m.firstMessage.ciphertext.length ≤ cap + 16
  | .encrypt .. => True
  | .decrypt sid blob ad out => ∀ sid' m ad' cap e,
    decryptArgs sid blob ad out = .ok (sid', m, ad', cap) → reg.lookup h = some e →
    (e.decrypt P sid' m ad' d).1.isOk = true → m.ciphertext.length ≤ cap + 16

omit [Alphabet B] in
/-- What a call returns, from what the engine method returns. -/
theorem isOk_iff {α : Type} {x : Except CryptoError α} : x.isOk = true ↔ ∃ a, x = .ok a := by
  cases x with
  | error e => simp [Except.isOk, Except.toBool]
  | ok a => simp [Except.isOk, Except.toBool]

section Calls

variable {reg : Registry B} {h : UInt64} {d : Draws B}

/-- `vc_generate_bundle` can be tried again exactly when its condition holds. -/
theorem retries_generateBundle
    (hidle : ∀ e, reg.lookup h = some e → e.storage.staged = none ∧ e.prekeys.Valid) (n : ℕ)
    (out : OutBuffer) :
    Retries (vcGenerateBundle P reg h n out d) reg ↔
      (FfiCall.generateBundle n out).Safe P reg h d := by
  unfold vcGenerateBundle FfiCall.Safe
  cases he : reg.lookup h with
  | none => exact ⟨fun _ e cap he' ↦ (by cases he'), fun _ ↦ retries_self _ reg⟩
  | some e =>
    obtain ⟨hidle, hvalid⟩ := hidle e he
    dsimp only
    cases hbuf : (needBuffer out bundleBound : Except (Reply B) ℕ) with
    | error reply =>
      exact ⟨fun _ e cap _ hbuf' ↦ (by cases hbuf'), fun _ ↦ retries_self _ reg⟩
    | ok cap =>
      obtain ⟨hpresent, hlen, hbound⟩ := needBuffer_eq_ok.1 hbuf
      dsimp only
      rw [retries_withEngine]
      simp only [he, Option.some.injEq, forall_eq', Except.ok.injEq]
      have hroom : (∀ e' cap', e = e' → cap = cap' → e'.prekeys.Room n) ↔ e.prekeys.Room n :=
        ⟨fun hr ↦ hr e cap rfl rfl, fun hr _ _ he' _ ↦ he' ▸ hr⟩
      rw [hroom, ← PrekeyStore.replenish_changed_iff P e.identity d.prekeys n hvalid]
      rcases Engine.generate_cases (P := P) hidle n d with
        ⟨err, prekeys, hrep, heq⟩ | ⟨prekeys, hrep, heq⟩
      · -- replenishing stopped: the store is the only thing that can have changed
        rw [heq, hrep]
        constructor
        · rintro ⟨hun, -⟩ err' s' hs'
          cases hs'
          exact (hun _ rfl).prekeys
        · intro hsame
          refine ⟨fun err' _ ↦ ⟨rfl, hsame err prekeys rfl, rfl, rfl⟩, fun a ha ↦ by cases ha⟩
      · rw [heq, hrep]
        refine ⟨fun _ err' s' hs' ↦ (by cases hs'), fun _ ↦ ⟨fun err' herr ↦ (by cases herr), ?_⟩⟩
        -- the bundle fits the bound
        intro b hb hcode
        cases hb
        rw [copyOut_code hpresent hlen] at hcode
        have hsize := PublicPrekeyBundle.length_encode_le
          (b := prekeys.publicBundle P d.order e.identity) (Block.length_val _)
        unfold bundleBound at hbound
        omega

/-- The result of a method with an error, as a call. -/
theorem unchanged_of_report {α : Type} (hseal : SealTotal P) {e : Engine B}
    (hidle : e.storage.staged = none) (hfresh : e.sessions.lookup d.sessionId = none) {c : Call B}
    (hc : c.Transactional) {f : α → Output B} {r : Except CryptoError α × Engine B}
    (hcall : e.call P d c = Engine.report f r) {err : CryptoError} (herr : r.1 = .error err) :
    Engine.Unchanged e r.2 := by
  have hfail : (e.call P d c).1 = .error err := by
    rw [hcall, Engine.report, herr]
    rfl
  have hun := Engine.unchanged_of_error hseal hidle hc hfresh hfail
  rw [hcall] at hun
  exact hun

/-- `vc_establish_outbound` can be tried again exactly when its condition holds. -/
theorem retries_establishOutbound (hA : IdealAead P) (hseal : SealTotal P)
    (hidle : ∀ e, reg.lookup h = some e → e.storage.staged = none)
    (hfresh : ∀ e, reg.lookup h = some e → e.sessions.lookup d.sessionId = none)
    (bundle conv pt ad : InBuffer B) (outSession : Bool) (out : OutBuffer) :
    Retries (vcEstablishOutbound P reg h bundle conv pt ad outSession out d) reg := by
  unfold vcEstablishOutbound
  cases hargs : establishArgs P bundle conv pt ad outSession out with
  | error reply => exact retries_self _ reg
  | ok args =>
    obtain ⟨parsed, conv, pt', ad, cap⟩ := args
    refine retries_withEngine.2 fun e he ↦ ⟨fun err herr ↦ ?_, fun a ha hcode ↦ ?_⟩
    · exact unchanged_of_report hseal (hidle e he) (hfresh e he)
        (c := .establish parsed conv pt' ad) trivial rfl herr
    · -- the packet fits the bound
      have hbound := le_of_establishArgs hargs
      rcases Engine.establish_cases (P := P) (hidle e he) parsed conv pt' ad d with
        ⟨err, -, heq⟩ | ⟨i, r, hi, ⟨err, -, heq⟩ | ⟨header, ct, r', henc, heq⟩⟩
      · rw [heq] at ha
        cases ha
      · rw [heq] at ha
        cases ha
      · rw [heq] at ha
        cases ha
        obtain ⟨hheader, hct⟩ := LiveRatchet.length_encrypt hA henc
        have hsize := InitiationPacket.length_encode_le
          (p := e.initiationPacket P parsed i ⟨header, ct, d.sessionId⟩)
          (Engine.length_kemCiphertext hi) (SealedMessage.length_encode_le hheader hct)
        rw [copyWithSession_code] at hcode
        dsimp only at hcode
        omega

/-- `vc_encrypt` can be tried again exactly when its condition holds. -/
theorem retries_encrypt (hA : IdealAead P) (hseal : SealTotal P)
    (hidle : ∀ e, reg.lookup h = some e → e.storage.staged = none)
    (hfresh : ∀ e, reg.lookup h = some e → e.sessions.lookup d.sessionId = none)
    (sid : Option (SessionId B)) (pt ad : InBuffer B) (out : OutBuffer) :
    Retries (vcEncrypt P reg h sid pt ad out d) reg := by
  unfold vcEncrypt
  cases hargs : encryptArgs sid pt ad out with
  | error reply => exact retries_self _ reg
  | ok args =>
    obtain ⟨sid', pt', ad', cap⟩ := args
    refine retries_withEngine.2 fun e he ↦ ⟨fun err herr ↦ ?_, fun a ha hcode ↦ ?_⟩
    · exact unchanged_of_report hseal (hidle e he) (hfresh e he) (c := .encrypt sid' pt' ad') trivial
        rfl herr
    · -- the message fits the bound
      obtain ⟨hpresent, hlen, hbound⟩ := le_of_encryptArgs hargs
      rcases Engine.encrypt_cases (P := P) (hidle e he) sid' pt' ad' d with
        ⟨err, heq, -⟩ | ⟨s, header, ct, r, -, henc, heq⟩
      · rw [heq] at ha
        cases ha
      · rw [heq] at ha
        cases ha
        obtain ⟨hheader, hct⟩ := LiveRatchet.length_encrypt hA henc
        have hsize := SealedMessage.length_encode_le (m := ⟨header, ct, sid'⟩) hheader hct
        rw [copyOut_code hpresent hlen] at hcode
        omega

/-- `vc_process_inbound` can be tried again exactly when its condition holds. -/
theorem retries_processInbound (hO : OpenLength P) (hseal : SealTotal P)
    (hidle : ∀ e, reg.lookup h = some e → e.storage.staged = none)
    (hfresh : ∀ e, reg.lookup h = some e → e.sessions.lookup d.sessionId = none)
    (packet conv ad : InBuffer B) (outSession : Bool) (out : OutBuffer) :
    Retries (vcProcessInbound P reg h packet conv ad outSession out d) reg ↔
      (FfiCall.processInbound packet conv ad outSession out).Safe P reg h d := by
  unfold vcProcessInbound FfiCall.Safe
  cases hargs : processArgs packet conv ad outSession out with
  | error reply =>
    exact ⟨fun _ m conv' ad' cap e hargs' ↦ (by cases hargs.symm.trans hargs'),
      fun _ ↦ retries_self _ reg⟩
  | ok args =>
    obtain ⟨m, conv', ad', cap⟩ := args
    dsimp only
    rw [retries_withEngine]
    constructor
    · rintro hretry m₁ conv₁ ad₁ cap₁ e hargs₁ he hok
      cases hargs.symm.trans hargs₁
      obtain ⟨a, ha⟩ := isOk_iff.1 hok
      by_contra hlong
      have hun := (hretry e he).2 a ha
      rcases Engine.process_cases (P := P) (hidle e he) m conv' ad' d with
        ⟨err, heq⟩ | ⟨shared, r, -, ⟨err, heq⟩ | ⟨pt, r', -, hdec, heq⟩⟩
      · rw [heq] at ha
        cases ha
      · rw [heq] at ha
        cases ha
      · -- the session is there afterwards
        rw [heq] at ha hun
        cases ha
        have hlen := LiveRatchet.length_decrypt hO hdec
        have hsessions := (hun (copyWithSession_code.2 (by dsimp only; omega))).sessions
        have hnew := congrArg (Finmap.lookup d.sessionId) hsessions
        rw [hfresh e he] at hnew
        exact absurd (hnew.symm.trans (Engine.lookup_withRatchet d.sessionId _ r' _)) nofun
    · intro hsafe e he
      refine ⟨fun err herr ↦ ?_, fun a ha hcode ↦ ?_⟩
      · exact unchanged_of_report hseal (hidle e he) (hfresh e he)
          (c := .processInbound m conv' ad') trivial rfl herr
      · have hshort := hsafe m conv' ad' cap e hargs he (isOk_iff.2 ⟨a, ha⟩)
        rcases Engine.process_cases (P := P) (hidle e he) m conv' ad' d with
          ⟨err, heq⟩ | ⟨shared, r, -, ⟨err, heq⟩ | ⟨pt, r', -, hdec, heq⟩⟩
        · rw [heq] at ha
          cases ha
        · rw [heq] at ha
          cases ha
        · rw [heq] at ha
          cases ha
          have hlen := LiveRatchet.length_decrypt hO hdec
          rw [copyWithSession_code] at hcode
          dsimp only at hcode
          omega

/-- `vc_decrypt` can be tried again exactly when its condition holds. -/
theorem retries_decrypt (hO : OpenLength P) (hseal : SealTotal P)
    (hidle : ∀ e, reg.lookup h = some e → e.storage.staged = none)
    (hfresh : ∀ e, reg.lookup h = some e → e.sessions.lookup d.sessionId = none)
    (sid : Option (SessionId B)) (blob ad : InBuffer B) (out : OutBuffer) :
    Retries (vcDecrypt P reg h sid blob ad out d) reg ↔
      (FfiCall.decrypt sid blob ad out).Safe P reg h d := by
  unfold vcDecrypt FfiCall.Safe
  cases hargs : decryptArgs sid blob ad out with
  | error reply =>
    exact ⟨fun _ sid' m ad' cap e hargs' ↦ (by cases hargs.symm.trans hargs'),
      fun _ ↦ retries_self _ reg⟩
  | ok args =>
    obtain ⟨sid', m, ad', cap⟩ := args
    obtain ⟨hpresent, hlen⟩ := out_of_decryptArgs hargs
    dsimp only
    rw [retries_withEngine]
    constructor
    · rintro hretry sid₁ m₁ ad₁ cap₁ e hargs₁ he hok
      cases hargs.symm.trans hargs₁
      obtain ⟨a, ha⟩ := isOk_iff.1 hok
      by_contra hlong
      have hun := (hretry e he).2 a ha
      rcases Engine.decrypt_cases (P := P) (hidle e he) sid' m ad' d with
        ⟨err, heq⟩ | ⟨s, pt, r, -, hrep, hdec, heq⟩
      · rw [heq] at ha
        cases ha
      · -- the message is recorded afterwards
        rw [heq] at ha hun
        cases ha
        have hpt := LiveRatchet.length_decrypt hO hdec
        have hreplay := (hun ((copyOut_code hpresent hlen).2 (by omega))).replay
        have hmem : (e.replay.checkAndInsert
            (replayKey sid' m s.conversation e.deviceId)).2.contains
              (replayKey sid' m s.conversation e.deviceId) = true := by
          rw [ReplayCache.checkAndInsert, if_neg (by rw [hrep]; exact Bool.false_ne_true)]
          exact decide_eq_true (Finset.mem_insert_self _ _)
        have hsame : (e.replay.checkAndInsert
            (replayKey sid' m s.conversation e.deviceId)).2 = e.replay := hreplay
        rw [hsame, hrep] at hmem
        cases hmem
    · intro hsafe e he
      refine ⟨fun err herr ↦ ?_, fun a ha hcode ↦ ?_⟩
      · exact unchanged_of_report hseal (hidle e he) (hfresh e he) (c := .decrypt sid' m ad') trivial
          rfl herr
      · have hshort := hsafe sid' m ad' cap e hargs he (isOk_iff.2 ⟨a, ha⟩)
        rcases Engine.decrypt_cases (P := P) (hidle e he) sid' m ad' d with
          ⟨err, heq⟩ | ⟨s, pt, r, -, -, hdec, heq⟩
        · rw [heq] at ha
          cases ha
        · rw [heq] at ha
          cases ha
          have hpt := LiveRatchet.length_decrypt hO hdec
          rw [copyOut_code hpresent hlen] at hcode
          omega

end Calls

/-- **A failed call leaves every engine as it was exactly if the call is safe**, for each of the five
calls and any buffer. -/
theorem failed_call_unchanged_iff (hA : IdealAead P) (hO : OpenLength P) (hseal : SealTotal P)
    {reg : Registry B}
    (hreg : ∀ k e, reg.lookup k = some e → ∃ r, (device P anyCall).Reachable r ∧ r.engine = e)
    (h : UInt64) (c : FfiCall B) (d : Draws B)
    (hfresh : ∀ e, reg.lookup h = some e → e.sessions.lookup d.sessionId = none) :
    ((c.run P reg h d).1.code ≠ .ok → reg.Unchanged (c.run P reg h d).2) ↔ c.Safe P reg h d := by
  have hidle : ∀ e, reg.lookup h = some e → e.storage.staged = none := by
    intro e he
    obtain ⟨r, hr, rfl⟩ := hreg h e he
    exact device_idle hr
  have hvalid : ∀ e, reg.lookup h = some e → e.storage.staged = none ∧ e.prekeys.Valid := by
    intro e he
    obtain ⟨r, hr, rfl⟩ := hreg h e he
    obtain ⟨S, hS⟩ := exists_settled hr
    exact ⟨device_idle hr, hS.backed.valid⟩
  cases c with
  | generateBundle n out => exact retries_generateBundle hvalid n out
  | establishOutbound bundle conv pt ad outSession out =>
    have hretry := retries_establishOutbound hA hseal hidle hfresh bundle conv pt ad outSession out
    exact ⟨fun _ ↦ trivial, fun _ ↦ hretry⟩
  | processInbound packet conv ad outSession out =>
    exact retries_processInbound hO hseal hidle hfresh packet conv ad outSession out
  | encrypt sid pt ad out =>
    exact ⟨fun _ ↦ trivial, fun _ ↦ retries_encrypt hA hseal hidle hfresh sid pt ad out⟩
  | decrypt sid blob ad out => exact retries_decrypt hO hseal hidle hfresh sid blob ad out

/-! ### A symbolic registry -/

namespace Symbolic

open VoiceChatCrypto.Symbolic

/-- Device 2 behind handle 1, after it has published a bundle. -/
noncomputable def registry : Registry Sym :=
  Finmap.singleton 1 (issued .classicalV1).engine

theorem registry_reachable {k : UInt64} {e : Engine Sym} (h : registry.lookup k = some e) :
    ∃ r, (device symbolic anyCall).Reachable r ∧ r.engine = e := by
  by_cases hk : k = 1
  · subst hk
    rw [registry, Finmap.lookup_singleton_eq] at h
    cases h
    exact ⟨_, reachable_issued .classicalV1, rfl⟩
  · have hmem : k ∉ registry := by
      rw [registry, Finmap.mem_singleton]
      exact hk
    rw [Finmap.lookup_eq_none.2 hmem] at h
    cases h

/-- Device 2 has no sessions yet. -/
theorem registry_fresh (sid : SessionId Sym) {e : Engine Sym} (h : registry.lookup 1 = some e) :
    e.sessions.lookup sid = none := by
  obtain ⟨-, -, -, -, -, hsessions, -⟩ := issued_spec .classicalV1
  rw [registry, Finmap.lookup_singleton_eq] at h
  cases h
  rw [hsessions]
  exact Finmap.lookup_empty _

/-- A buffer of 4096 letters. -/
def page : OutBuffer := ⟨true, some 4096⟩

/-- A first message of any length that fits its field: device 1 seals it, the arguments pass the first
checks, and device 2 accepts it. -/
theorem exists_packet {n : ℕ} (hn : n < 2 ^ 32 - 100) :
    ∃ b packet, ((engine 1 .classicalV1).establishOutboundSession symbolic b []
        (List.replicate n (.lit 0)) [] (draws 1)).1 = .ok ((draws 1).sessionId, packet) ∧
      processArgs (.bytes packet.encode) (.bytes []) (.bytes []) true page =
        .ok (packet, [], [], 4096) ∧
      ((issued .classicalV1).engine.processInboundSession symbolic packet [] [] (draws 3)).1.isOk =
        true ∧
      packet.firstMessage.ciphertext.length = n + 16 := by
  obtain ⟨ev, b, hlog, hb, hprofile, -, hfresh⟩ := issued_spec .classicalV1
  have hbob := reachable_issued .classicalV1
  obtain ⟨S, hS⟩ := exists_settled hbob
  have hoffers := (hS.offered [] ev [] b hlog hb (by simp)).grow hS.backed.grows
  have halice := reachable_newDevice symbolic anyCall ⟨[], .classicalV1⟩ (deviceDraws 1)
  obtain ⟨i, r, packet, r', -, hestablish, -, hprocess, hkem, hct, hlen⟩ :=
    Engine.handshake_of_offers idealDh idealKem signatureCorrect idealAead
      sealTotal (device_idle halice) (device_idle hbob) hprofile.symm hS.backed.valid hoffers
      (hfresh (draws 3).sessionId) [] (List.replicate n (.lit 0)) [] (draws 1)
  rw [List.length_replicate] at hct hlen
  rw [hprofile] at hlen
  have hheader : CryptoProfile.firstHeaderLength .classicalV1 = 40 := rfl
  have hdecode := InitiationPacket.decode_encode (p := packet) (by omega) (by omega)
  refine ⟨b, packet, hestablish, ?_, isOk_iff.2 ⟨_, hprocess⟩, hct⟩
  have hbuf : (needBuffer page 4096 : Except (Reply Sym) ℕ) = .ok 4096 := rfl
  simp only [processArgs, InBuffer.read, orFail, hbuf, hdecode, bind, Except.bind, pure, Except.pure,
    not_true, if_false]

end Symbolic

open VoiceChatCrypto.Symbolic in
/-- A first message that fills the buffer is accepted, and the call is safe. -/
theorem failed_call_unchanged_page :
    ∃ b packet, ((Symbolic.engine 1 .classicalV1).establishOutboundSession symbolic b []
        (List.replicate 4096 (.lit 0)) [] (Symbolic.draws 1)).1 =
          .ok ((Symbolic.draws 1).sessionId, packet) ∧
      ((issued .classicalV1).engine.processInboundSession symbolic packet [] []
        (Symbolic.draws 3)).1.isOk = true ∧
      (((FfiCall.processInbound (.bytes packet.encode) (.bytes []) (.bytes []) true Symbolic.page).run
        symbolic Symbolic.registry 1 (Symbolic.draws 3)).1.code ≠ .ok →
        Symbolic.registry.Unchanged ((FfiCall.processInbound (.bytes packet.encode) (.bytes [])
          (.bytes []) true Symbolic.page).run symbolic Symbolic.registry 1 (Symbolic.draws 3)).2) := by
  obtain ⟨b, packet, hestablish, hargs, hok, hct⟩ := Symbolic.exists_packet (n := 4096) (by decide)
  refine ⟨b, packet, hestablish, hok, (failed_call_unchanged_iff idealAead openLength sealTotal
    (fun _ _ ↦ Symbolic.registry_reachable) 1 _ (Symbolic.draws 3)
    fun _ ↦ Symbolic.registry_fresh _).2 ?_⟩
  intro m conv ad cap e hargs' _ _
  cases hargs.symm.trans hargs'
  exact hct.le

open VoiceChatCrypto.Symbolic in
/-- **A long plaintext is lost**: the first message of a packet has 4097 letters, the buffer passes the
first check with 4096, and the call fails after the session was opened and the prekeys were used up. -/
theorem long_plaintext_lost :
    ∃ b packet, ((Symbolic.engine 1 .classicalV1).establishOutboundSession symbolic b []
        (List.replicate 4097 (.lit 0)) [] (Symbolic.draws 1)).1 =
          .ok ((Symbolic.draws 1).sessionId, packet) ∧
      ((FfiCall.processInbound (.bytes packet.encode) (.bytes []) (.bytes []) true Symbolic.page).run
        symbolic Symbolic.registry 1 (Symbolic.draws 3)).1.code ≠ .ok ∧
      ¬ Symbolic.registry.Unchanged ((FfiCall.processInbound (.bytes packet.encode) (.bytes [])
        (.bytes []) true Symbolic.page).run symbolic Symbolic.registry 1 (Symbolic.draws 3)).2 := by
  obtain ⟨b, packet, hestablish, hargs, hok, hct⟩ := Symbolic.exists_packet (n := 4097) (by decide)
  have hretry : ¬ Retries ((FfiCall.processInbound (.bytes packet.encode) (.bytes []) (.bytes []) true
      Symbolic.page).run symbolic Symbolic.registry 1 (Symbolic.draws 3)) Symbolic.registry := by
    intro hretry
    have hsafe := (retries_processInbound openLength sealTotal (fun e he ↦ by
      obtain ⟨r, hr, rfl⟩ := Symbolic.registry_reachable he
      exact device_idle hr) (fun _ ↦ Symbolic.registry_fresh _) _ _ _ _ _).1 hretry packet [] [] 4096
      _ hargs Finmap.lookup_singleton_eq hok
    omega
  exact ⟨b, packet, hestablish, Classical.not_imp.1 hretry⟩

end VoiceChatCrypto.Ffi
