import VoiceChatCrypto.Ffi.Retry

/-!
# Handles

Foreign code knows an engine by a number. The registry of `src/ffi/mod.rs` gives out the numbers in
order and never gives one out again, so a handle is one device for as long as it lives and nothing after
that: the engine behind it is at the end of a run of that device, made of the calls that came in through
this handle and of no others. Every theorem about the runs of a device is thereby a theorem about what
foreign code can do.

A `Service` is the registry with a record of what was created, destroyed and called.
-/

open Alphabet

namespace VoiceChatCrypto

variable {B : Type} [Alphabet B] {P : Primitives B}

/-- `CryptoProfile::from_u8`, with every profile compiled in. -/
def CryptoProfile.fromU8 (v : UInt8) : Except PrimitiveError CryptoProfile :=
  match v.toNat with
  | 1 => .ok .classicalV1
  | 2 => .ok .classicalHeV1
  | 3 => .ok .hybridPqV1
  | _ => .error .invalidLength

namespace Ffi

/-! ### The registry -/

/-- `Registry`: the next handle, and the engines. -/
structure HandleTable (B : Type) [Alphabet B] where
  /-- The handle that is given out next, from 1. -/
  next : UInt64
  /-- The engines that have not been destroyed, by handle. -/
  engines : Registry B

namespace HandleTable

/-- `new`. -/
def new : HandleTable B := { next := 1, engines := ∅ }

/-- `alloc`. -/
def alloc (t : HandleTable B) : Except VcError (UInt64 × HandleTable B) :=
  if t.next.toNat + 1 < 2 ^ 64 then .ok (t.next, { t with next := t.next + 1 })
  else .error .limitExceeded

end HandleTable

/-- What `vc_engine_create` leaves behind. -/
structure CreateReply (B : Type) where
  /-- The code returned. -/
  code : VcError
  /-- What is written through the handle pointer. -/
  handle : Option UInt64
  /-- What is written through the pointer to the identity key. -/
  identity : Option (Block B 32)

/-- An error before anything was written. -/
def CreateReply.fail (code : VcError) : CreateReply B := { code, handle := none, identity := none }

/-- `vc_engine_create`, and `vc_create_device_identity`, which calls it with profile 1. The public key
is written before the handle is drawn. -/
def vcEngineCreate (P : Primitives B) (t : HandleTable B) (deviceId : InBuffer B) (profile : UInt8)
    (outHandle outPublic : Bool) (d : DeviceDraws B) : CreateReply B × HandleTable B :=
  if ¬ outHandle then (.fail .invalidArgument, t)
  else
    match CryptoProfile.fromU8 profile with
    | .error _ => (.fail .invalidArgument, t)
    | .ok profile =>
      match deviceId.read with
      | .error err => (.fail err, t)
      | .ok deviceId =>
        match Engine.initializeDevice P { deviceId, profile } d with
        | .error err => (.fail (.ofCrypto err), t)
        | .ok e =>
          let identity := if outPublic then some (e.identity.publicKey P) else none
          match t.alloc with
          | .error code => ({ code, handle := none, identity }, t)
          | .ok (h, t) =>
            ({ code := .ok, handle := some h, identity }, { t with engines := t.engines.insert h e })

/-- `vc_engine_destroy` and `vc_delete_identity`. -/
def vcEngineDestroy (t : HandleTable B) (h : UInt64) : VcError × HandleTable B :=
  match t.engines.lookup h with
  | some _ => (.ok, { t with engines := t.engines.erase h })
  | none => (.notFound, t)

/-- `vc_engine_public_identity`. -/
def vcEnginePublicIdentity (P : Primitives B) (t : HandleTable B) (h : UInt64) (outPublic : Bool) :
    VcError × Option (Block B 32) :=
  if ¬ outPublic then (.invalidArgument, none)
  else
    match t.engines.lookup h with
    | none => (.notFound, none)
    | some e => (.ok, some (e.identity.publicKey P))

/-- `vc_delete_session`. -/
def vcDeleteSession (t : HandleTable B) (h : UInt64) (sid : Option (SessionId B)) (d : Draws B) :
    VcError × HandleTable B :=
  match sid with
  | none => (.invalidArgument, t)
  | some sid =>
    match t.engines.lookup h with
    | none => (.notFound, t)
    | some e =>
      match e.deleteSession sid d with
      | (.ok (), e) => (.ok, { t with engines := t.engines.insert h e })
      | (.error err, e) => (.ofCrypto err, { t with engines := t.engines.insert h e })

/-- **`vc_engine_create`** fails and leaves the registry alone, or puts a new device under the next
handle. -/
theorem vcEngineCreate_cases (P : Primitives B) (t : HandleTable B) (deviceId : InBuffer B)
    (profile : UInt8) (outHandle outPublic : Bool) (d : DeviceDraws B) :
    (∃ reply, reply.handle = none ∧
      vcEngineCreate P t deviceId profile outHandle outPublic d = (reply, t)) ∨
    ∃ config identity, t.next.toNat + 1 < 2 ^ 64 ∧
      vcEngineCreate P t deviceId profile outHandle outPublic d =
        ({ code := .ok, handle := some t.next, identity },
          ⟨t.next + 1, t.engines.insert t.next (Engine.newDevice P config d)⟩) := by
  unfold vcEngineCreate
  split
  · exact .inl ⟨_, rfl, rfl⟩
  split
  · exact .inl ⟨_, rfl, rfl⟩
  rename_i profile _
  split
  · exact .inl ⟨_, rfl, rfl⟩
  rename_i deviceId _
  rw [initializeDevice_eq]
  dsimp only
  by_cases hnext : t.next.toNat + 1 < 2 ^ 64
  · rw [HandleTable.alloc, if_pos hnext]
    exact .inr ⟨_, _, hnext, rfl⟩
  · rw [HandleTable.alloc, if_neg hnext]
    exact .inl ⟨_, rfl, rfl⟩

/-! ### Calls through a handle -/

/-- A call of foreign code. -/
inductive AbiCall (B : Type)
  | engineCreate (deviceId : InBuffer B) (profile : UInt8) (outHandle outPublic : Bool)
      (draws : DeviceDraws B)
  | engineDestroy (engine : UInt64)
  | publicIdentity (engine : UInt64) (outPublic : Bool)
  | deleteSession (engine : UInt64) (sid : Option (SessionId B)) (draws : Draws B)
  | run (engine : UInt64) (call : FfiCall B) (draws : Draws B)

/-- The handle that a call goes through. -/
def AbiCall.handle : AbiCall B → Option UInt64
  | .engineCreate .. => none
  | .engineDestroy h => some h
  | .publicIdentity h _ => some h
  | .deleteSession h _ _ => some h
  | .run h _ _ => some h

/-- The code of a call, and the registry after it. -/
def AbiCall.serve (P : Primitives B) (t : HandleTable B) : AbiCall B → VcError × HandleTable B
  | .engineCreate deviceId profile outHandle outPublic d =>
    let (reply, t) := vcEngineCreate P t deviceId profile outHandle outPublic d
    (reply.code, t)
  | .engineDestroy h => vcEngineDestroy t h
  | .publicIdentity h outPublic => ((vcEnginePublicIdentity P t h outPublic).1, t)
  | .deleteSession h sid d => vcDeleteSession t h sid d
  | .run h c d =>
    let (reply, engines) := c.run P t.engines h d
    (reply.code, { t with engines })

/-- What a call asks of the engine behind its handle, if its arguments pass. -/
def FfiCall.engineCall (P : Primitives B) : FfiCall B → Option (Call B)
  | .generateBundle n out =>
    match (needBuffer out bundleBound : Except (Reply B) ℕ) with
    | .error _ => none
    | .ok _ => some (.generateBundle n)
  | .establishOutbound bundle conv pt ad outSession out =>
    match establishArgs P bundle conv pt ad outSession out with
    | .error _ => none
    | .ok (parsed, conv, pt, aad, _) => some (.establish parsed conv pt aad)
  | .processInbound packet conv ad outSession out =>
    match processArgs packet conv ad outSession out with
    | .error _ => none
    | .ok (parsed, conv, aad, _) => some (.processInbound parsed conv aad)
  | .encrypt sid pt ad out =>
    match encryptArgs sid pt ad out with
    | .error _ => none
    | .ok (sid, pt, aad, _) => some (.encrypt sid pt aad)
  | .decrypt sid blob ad out =>
    match decryptArgs sid blob ad out with
    | .error _ => none
    | .ok (sid, parsed, aad, _) => some (.decrypt sid parsed aad)

/-- The handle, the engine call and its draws. -/
def AbiCall.engineCall (P : Primitives B) : AbiCall B → Option (UInt64 × Call B × Draws B)
  | .deleteSession h sid d => sid.map fun sid ↦ (h, .deleteSession sid, d)
  | .run h c d => (c.engineCall P).map fun c ↦ (h, c, d)
  | _ => none

/-- The registry after an engine call. -/
def HandleTable.ran (P : Primitives B) (t : HandleTable B) (h : UInt64) (c : Call B) (d : Draws B) :
    HandleTable B :=
  match t.engines.lookup h with
  | none => t
  | some e => { t with engines := t.engines.insert h (e.call P d c).2 }

/-! ### Refusals -/

/-- A check that fails tells the caller so. -/
def Refuses {α : Type} (x : Except (Reply B) α) : Prop := ∀ reply, x = .error reply → reply.code ≠ .ok

section Refusals

variable {α β : Type} {out : OutBuffer}

omit [Alphabet B] in
theorem refuses_pure (a : α) : Refuses (pure a : Except (Reply B) α) :=
  fun _ h ↦ by cases h

omit [Alphabet B] in
theorem refuses_throw {code : VcError} (h : code ≠ .ok) :
    Refuses (throw (.fail code out) : Except (Reply B) α) := by
  rintro _ ⟨⟩
  exact h

omit [Alphabet B] in
/-- Argument checks in a row fail without success when each of them does. -/
theorem refuses_bind {x : Except (Reply B) α} {f : α → Except (Reply B) β} (hx : Refuses x)
    (hf : ∀ a, Refuses (f a)) : Refuses (x >>= f) := by
  intro reply h
  rcases x with err | a
  · obtain rfl := Except.error.inj h
    exact hx _ rfl
  · exact hf a reply h

omit [Alphabet B] in
theorem refuses_needBuffer (bound : ℕ) : Refuses (needBuffer out bound : Except (Reply B) ℕ) :=
  fun _ ↦ needBuffer_code

omit [Alphabet B] in
theorem refuses_read (b : InBuffer B) : Refuses (orFail out b.read : Except (Reply B) (List B)) := by
  rcases b with (- | n) | data
  · exact refuses_pure _
  · exact refuses_throw (by decide)
  · exact refuses_pure _

omit [Alphabet B] in
theorem refuses_checkedAdd (a b : ℕ) : Refuses (orFail out (checkedAdd a b) : Except (Reply B) ℕ) := by
  unfold checkedAdd
  split
  · exact refuses_pure _
  · exact refuses_throw (by decide)

theorem ofCrypto_ne_ok (err : CryptoError) : VcError.ofCrypto err ≠ .ok := by
  cases err <;> decide

/-- The argument checks of `vc_establish_outbound` report what they refuse. -/
theorem refuses_establishArgs (bundle conv pt ad : InBuffer B) (outSession : Bool) :
    Refuses (establishArgs P bundle conv pt ad outSession out) := by
  unfold establishArgs
  split
  · exact refuses_throw (by decide)
  refine refuses_bind (refuses_read _) fun bundleBytes ↦ refuses_bind (refuses_read _) fun _ ↦
    refuses_bind (refuses_read _) fun _ ↦ refuses_bind (refuses_read _) fun _ ↦
    refuses_bind (refuses_checkedAdd _ _) fun _ ↦ refuses_bind (refuses_needBuffer _) fun _ ↦ ?_
  split
  · exact refuses_throw (by decide)
  · exact refuses_pure _

/-- The argument checks of `vc_process_inbound` report what they refuse. -/
theorem refuses_processArgs (packet conv ad : InBuffer B) (outSession : Bool) :
    Refuses (processArgs packet conv ad outSession out) := by
  unfold processArgs
  split
  · exact refuses_throw (by decide)
  refine refuses_bind (refuses_read _) fun _ ↦ refuses_bind (refuses_read _) fun _ ↦
    refuses_bind (refuses_read _) fun _ ↦ refuses_bind (refuses_needBuffer _) fun _ ↦ ?_
  split
  · exact refuses_throw (ofCrypto_ne_ok _)
  · exact refuses_pure _

omit [Alphabet B] in
/-- The argument checks of `vc_encrypt` report what they refuse. -/
theorem refuses_encryptArgs (sid : Option (SessionId B)) (pt ad : InBuffer B) :
    Refuses (encryptArgs sid pt ad out) := by
  unfold encryptArgs
  split
  · exact refuses_throw (by decide)
  exact refuses_bind (refuses_read _) fun _ ↦ refuses_bind (refuses_read _) fun _ ↦
    refuses_bind (refuses_checkedAdd _ _) fun _ ↦ refuses_bind (refuses_needBuffer _) fun _ ↦
    refuses_pure _

/-- The argument checks of `vc_decrypt` report what they refuse. -/
theorem refuses_decryptArgs (sid : Option (SessionId B)) (blob ad : InBuffer B) :
    Refuses (decryptArgs sid blob ad out) := by
  unfold decryptArgs
  split
  · exact refuses_throw (by decide)
  refine refuses_bind (refuses_read _) fun _ ↦ refuses_bind (refuses_read _) fun _ ↦
    refuses_bind (refuses_needBuffer _) fun _ ↦ ?_
  split
  · exact refuses_throw (ofCrypto_ne_ok _)
  · exact refuses_pure _

end Refusals

/-! ### Running the engine -/

/-- What a call through `h` does that amounts to the engine call `c`, or to none: it runs the engine, and
without one it fails. -/
structure Runs (P : Primitives B) (t : HandleTable B) (h : UInt64) (d : Draws B) (c : Option (Call B))
    (code : VcError) (engines : Registry B) : Prop where
  /-- The engine behind the handle has run the call, and no other engine has changed. -/
  engines : engines = (c.elim t fun c ↦ t.ran P h c d).engines
  /-- A handle without an engine is reported. -/
  code : t.engines.lookup h = none → code ≠ .ok

section Calls

variable {t : HandleTable B} {h : UInt64} {d : Draws B}

/-- A call that is refused for its arguments runs no engine. -/
theorem runs_of_refused {reply : Reply B} (hcode : reply.code ≠ .ok) :
    Runs P t h d none reply.code t.engines :=
  ⟨rfl, fun _ ↦ hcode⟩

/-- A call that passes its argument checks runs the engine behind its handle, and no other. -/
theorem runs_withEngine {α : Type} {out : OutBuffer}
    {run : Engine B → Except CryptoError α × Engine B} {answer : α → Reply B} {c : Call B}
    (hrun : ∀ e, (run e).2 = (e.call P d c).2) :
    Runs P t h d (some c) (withEngine t.engines h out run answer).1.code
      (withEngine t.engines h out run answer).2 := by
  unfold withEngine
  rcases he : t.engines.lookup h with - | e
  · refine ⟨?_, fun _ ↦ nofun⟩
    simp only [Option.elim_some, HandleTable.ran, he]
  · refine ⟨?_, fun hnone ↦ by cases he.symm.trans hnone⟩
    simp only [Option.elim_some, HandleTable.ran, he]
    rw [← hrun e]
    split <;> rename_i heq <;> rw [heq]

/-- **Each of the five calls** runs the engine once, or not at all. -/
theorem FfiCall.runs (c : FfiCall B) : Runs P t h d (c.engineCall P) (c.run P t.engines h d).1.code
    (c.run P t.engines h d).2 := by
  cases c with
  | generateBundle n out =>
    unfold run vcGenerateBundle engineCall
    dsimp only
    rcases hbuf : (needBuffer out bundleBound : Except (Reply B) ℕ) with reply | cap <;>
      rcases he : t.engines.lookup h with - | e
    · exact ⟨rfl, fun _ ↦ nofun⟩
    · exact runs_of_refused (needBuffer_code hbuf)
    · refine ⟨?_, fun _ ↦ nofun⟩
      show t.engines = (t.ran P h (.generateBundle n) d).engines
      simp only [HandleTable.ran, he]
    · exact runs_withEngine fun _ ↦ rfl
  | establishOutbound bundle conv pt ad outSession out =>
    unfold run vcEstablishOutbound engineCall
    dsimp only
    rcases hargs : establishArgs P bundle conv pt ad outSession out with reply | args
    · exact runs_of_refused (refuses_establishArgs _ _ _ _ _ _ hargs)
    · exact runs_withEngine fun _ ↦ rfl
  | processInbound packet conv ad outSession out =>
    unfold run vcProcessInbound engineCall
    dsimp only
    rcases hargs : processArgs packet conv ad outSession out with reply | args
    · exact runs_of_refused (refuses_processArgs _ _ _ _ _ hargs)
    · exact runs_withEngine fun _ ↦ rfl
  | encrypt sid pt ad out =>
    unfold run vcEncrypt engineCall
    dsimp only
    rcases hargs : encryptArgs sid pt ad out with reply | args
    · exact runs_of_refused (refuses_encryptArgs _ _ _ _ hargs)
    · exact runs_withEngine fun _ ↦ rfl
  | decrypt sid blob ad out =>
    unfold run vcDecrypt engineCall
    dsimp only
    rcases hargs : decryptArgs sid blob ad out with reply | args
    · exact runs_of_refused (refuses_decryptArgs _ _ _ _ hargs)
    · exact runs_withEngine fun _ ↦ rfl

/-- `vc_delete_session` runs the engine, too. -/
theorem runs_deleteSession (sid : Option (SessionId B)) :
    (vcDeleteSession t h sid d).2.next = t.next ∧
      Runs P t h d (sid.map Call.deleteSession) (vcDeleteSession t h sid d).1
        (vcDeleteSession t h sid d).2.engines := by
  unfold vcDeleteSession
  rcases sid with - | sid
  · exact ⟨rfl, rfl, fun _ ↦ nofun⟩
  rcases he : t.engines.lookup h with - | e
  · refine ⟨rfl, ?_, fun _ ↦ nofun⟩
    simp only [Option.map_some, Option.elim_some, HandleTable.ran, he]
  have hcall : (e.call P d (.deleteSession sid)).2 = (e.deleteSession sid d).2 := rfl
  dsimp only
  split <;> rename_i heq <;> rw [heq] at hcall <;> refine ⟨rfl, ?_, fun hnone ↦ ?_⟩
  · simp only [Option.map_some, Option.elim_some, HandleTable.ran, he, hcall]
  · cases he.symm.trans hnone
  · simp only [Option.map_some, Option.elim_some, HandleTable.ran, he, hcall]
  · cases he.symm.trans hnone

end Calls

/-! ### The service -/

/-- The registry, with the devices that were created, the handles that were destroyed, and the calls
that engines have run so far. -/
structure Service (B : Type) [Alphabet B] where
  /-- The registry of the library. -/
  table : HandleTable B
  /-- The devices as they were created, with their handles, in that order. -/
  created : List (UInt64 × Engine B)
  /-- The handles that were destroyed. -/
  destroyed : List UInt64
  /-- The engine calls of all handles, in order. -/
  log : List (UInt64 × Event B)

/-- The device that a call creates. -/
def AbiCall.creation (P : Primitives B) (t : HandleTable B) : AbiCall B → List (UInt64 × Engine B)
  | .engineCreate deviceId profile outHandle outPublic d =>
    let (reply, t) := vcEngineCreate P t deviceId profile outHandle outPublic d
    (reply.handle.bind fun h ↦ (t.engines.lookup h).map fun e ↦ (h, e)).toList
  | _ => []

/-- The handle that a call destroys. -/
def AbiCall.destruction (t : HandleTable B) : AbiCall B → List UInt64
  | .engineDestroy h => if (vcEngineDestroy t h).1 = .ok then [h] else []
  | _ => []

/-- What a call makes an engine run. -/
def AbiCall.record (P : Primitives B) (t : HandleTable B) (c : AbiCall B) : List (UInt64 × Event B) :=
  match c.engineCall P with
  | none => []
  | some (h, call, d) =>
    match t.engines.lookup h with
    | none => []
    | some e => [(h, ⟨e, call, d, (e.call P d call).1⟩)]

namespace Service

/-- No devices yet. -/
def new : Service B := { table := .new, created := [], destroyed := [], log := [] }

/-- The service after a call. -/
def after (P : Primitives B) (s : Service B) (c : AbiCall B) : Service B :=
  { table := (c.serve P s.table).2
    created := s.created ++ c.creation P s.table
    destroyed := s.destroyed ++ c.destruction s.table
    log := s.log ++ c.record P s.table }

/-- What the engine behind a handle has run. -/
def eventsOf (s : Service B) (h : UInt64) : List (Event B) :=
  (s.log.filter fun x ↦ x.1 = h).map Prod.snd

/-- The engine behind a handle. -/
def engine? (s : Service B) (h : UInt64) : Option (Engine B) := s.table.engines.lookup h

/-- **What a call can do**: create a device under the next handle, destroy one, run an engine once, or
nothing; and without an engine behind its handle it fails. -/
inductive Served (P : Primitives B) (s : Service B) : AbiCall B → VcError → Service B → Prop
  | created (c : AbiCall B) (config : DeviceConfig B) (d : DeviceDraws B) (hhandle : c.handle = none)
      (hnext : s.table.next.toNat + 1 < 2 ^ 64) :
      Served P s c .ok
        { s with
          table := ⟨s.table.next + 1,
            s.table.engines.insert s.table.next (Engine.newDevice P config d)⟩
          created := s.created ++ [(s.table.next, Engine.newDevice P config d)] }
  | destroyed (h : UInt64) (e : Engine B) (he : s.engine? h = some e) :
      Served P s (.engineDestroy h) .ok
        { s with
          table := { s.table with engines := s.table.engines.erase h }
          destroyed := s.destroyed ++ [h] }
  | ran (c : AbiCall B) (code : VcError) (h : UInt64) (e : Engine B) (call : Call B) (d : Draws B)
      (hhandle : c.handle = some h) (he : s.engine? h = some e) :
      Served P s c code
        { s with
          table := { s.table with engines := s.table.engines.insert h (e.call P d call).2 }
          log := s.log ++ [(h, ⟨e, call, d, (e.call P d call).1⟩)] }
  | nothing (c : AbiCall B) (code : VcError)
      (hcode : ∀ h, c.handle = some h → s.engine? h = none → code ≠ .ok) : Served P s c code s

variable {s t : Service B}

/-- A call that creates, destroys and runs nothing. -/
theorem after_eq_self {c : AbiCall B} (htable : (c.serve P s.table).2 = s.table)
    (hcreation : c.creation P s.table = []) (hdestruction : c.destruction s.table = [])
    (hrecord : c.record P s.table = []) : s.after P c = s := by
  rw [after, htable, hcreation, hdestruction, hrecord]
  simp only [List.append_nil]

/-- Creating a device serves a new handle, or nothing when its arguments are refused. -/
theorem served_engineCreate (deviceId : InBuffer B) (profile : UInt8) (outHandle outPublic : Bool)
    (d : DeviceDraws B) :
    Served P s (.engineCreate deviceId profile outHandle outPublic d)
      ((AbiCall.engineCreate deviceId profile outHandle outPublic d).serve P s.table).1
      (s.after P (.engineCreate deviceId profile outHandle outPublic d)) := by
  rcases vcEngineCreate_cases P s.table deviceId profile outHandle outPublic d with
    ⟨reply, hhandle, heq⟩ | ⟨config, identity, hnext, heq⟩
  · rw [after_eq_self (by simp only [AbiCall.serve, heq])
      (by simp only [AbiCall.creation, heq, hhandle, Option.bind_none, Option.toList_none]) rfl rfl]
    exact .nothing _ _ fun h hh ↦ by cases hh
  · have hafter : s.after P (.engineCreate deviceId profile outHandle outPublic d) =
        { s with
          table := ⟨s.table.next + 1,
            s.table.engines.insert s.table.next (Engine.newDevice P config d)⟩
          created := s.created ++ [(s.table.next, Engine.newDevice P config d)] } := by
      simp only [after, AbiCall.serve, AbiCall.creation, AbiCall.destruction, AbiCall.record,
        AbiCall.engineCall, heq, List.append_nil, Option.bind_some, Finmap.lookup_insert,
        Option.map_some, Option.toList_some]
    rw [hafter]
    simp only [AbiCall.serve, heq]
    exact .created _ config d rfl hnext

/-- A call that runs the engine behind its handle, or fails for want of one. -/
theorem served_of_runs {c : AbiCall B} {code : VcError} {h : UInt64} {d : Draws B}
    {call : Option (Call B)} {table : HandleTable B} (hhandle : c.handle = some h)
    (hcall : c.engineCall P = call.map fun call ↦ (h, call, d)) (hcreation : c.creation P s.table = [])
    (hdestruction : c.destruction s.table = []) (hserve : c.serve P s.table = (code, table))
    (hnext : table.next = s.table.next) (hruns : Runs P s.table h d call code table.engines) :
    Served P s c (c.serve P s.table).1 (s.after P c) := by
  have htable : table = call.elim s.table fun call ↦ s.table.ran P h call d := by
    have hengines := hruns.engines
    rcases call with - | call
    · cases table
      cases hnext
      cases hengines
      rfl
    · cases table
      cases hnext
      cases hengines
      simp only [Option.elim_some, HandleTable.ran]
      split <;> rfl
  have hdead : ∀ k, c.handle = some k → s.engine? k = none → code ≠ .ok := by
    intro k hk hnone
    obtain rfl := Option.some.inj (hhandle.symm.trans hk)
    exact hruns.code hnone
  rw [hserve]
  rcases call with - | call
  · rw [after_eq_self (by rw [hserve, htable]; rfl) hcreation hdestruction
      (by simp only [AbiCall.record, hcall, Option.map_none])]
    exact .nothing _ _ hdead
  · rcases he : s.table.engines.lookup h with - | e
    · rw [after_eq_self (by simp only [hserve, htable, Option.elim_some, HandleTable.ran, he])
        hcreation hdestruction (by simp only [AbiCall.record, hcall, Option.map_some, he])]
      exact .nothing _ _ hdead
    · have hafter : s.after P c =
          { s with
            table := { s.table with engines := s.table.engines.insert h (e.call P d call).2 }
            log := s.log ++ [(h, ⟨e, call, d, (e.call P d call).1⟩)] } := by
        simp only [after, hserve, htable, hcreation, hdestruction, AbiCall.record, hcall,
          Option.map_some, Option.elim_some, HandleTable.ran, he, List.append_nil]
      rw [hafter]
      exact .ran c code h e call d hhandle he

/-- **The list is complete**: whatever foreign code calls, the service moves in one of these ways.
-/
theorem served (P : Primitives B) (s : Service B) (c : AbiCall B) :
    Served P s c (c.serve P s.table).1 (s.after P c) := by
  cases c with
  | engineCreate deviceId profile outHandle outPublic d =>
    exact served_engineCreate deviceId profile outHandle outPublic d
  | engineDestroy h =>
    rcases he : s.table.engines.lookup h with - | e
    · rw [after_eq_self (by simp only [AbiCall.serve, vcEngineDestroy, he]) rfl
        (by simp only [AbiCall.destruction, vcEngineDestroy, he, reduceCtorEq, if_false]) rfl]
      refine .nothing _ _ fun _ _ _ ↦ ?_
      simp only [AbiCall.serve, vcEngineDestroy, he, ne_eq, reduceCtorEq, not_false_eq_true]
    · have hafter : s.after P (.engineDestroy h) =
          { s with
            table := { s.table with engines := s.table.engines.erase h }
            destroyed := s.destroyed ++ [h] } := by
        simp only [after, AbiCall.serve, AbiCall.creation, AbiCall.destruction, AbiCall.record,
          AbiCall.engineCall, vcEngineDestroy, he, List.append_nil, if_true]
      rw [hafter]
      simp only [AbiCall.serve, vcEngineDestroy, he]
      exact .destroyed h e he
  | publicIdentity h outPublic =>
    rw [after_eq_self rfl rfl rfl rfl]
    refine .nothing _ _ fun k hk hnone ↦ ?_
    obtain rfl := Option.some.inj hk
    rw [engine?] at hnone
    simp only [AbiCall.serve, vcEnginePublicIdentity, hnone]
    split <;> exact nofun
  | deleteSession h sid d =>
    obtain ⟨hnext, hruns⟩ := runs_deleteSession (P := P) (t := s.table) (h := h) (d := d) sid
    exact served_of_runs rfl (by cases sid <;> rfl) rfl rfl rfl hnext hruns
  | run h c d =>
    exact served_of_runs rfl rfl rfl rfl rfl rfl c.runs

/-! ### Runs of the service -/

variable (P) in
/-- The runs of the service: any calls in any order. -/
def system : System (Service B) where
  start s := s = new
  step s s' := ∃ c, s' = s.after P c

/-- The handles that were given out. -/
def handles (s : Service B) : List UInt64 := s.created.map Prod.fst

/-- **The invariant of the service**: handles are given out in order, the live ones are those that were
not destroyed, and behind each is the device that was created with it, after the calls that came in
through it. -/
structure Sound (P : Primitives B) (s : Service B) : Prop where
  /-- The next handle is the number of handles so far, and one. -/
  next : s.table.next.toNat = s.handles.length + 1
  /-- Handles are numbered from 1, without gaps. -/
  numbered : s.handles.map UInt64.toNat = List.range' 1 s.handles.length
  /-- An engine is found under the handles that were given out and not destroyed. -/
  live : ∀ h, s.engine? h ≠ none ↔ h ∈ s.handles ∧ h ∉ s.destroyed
  /-- Only handles that were given out have been destroyed. -/
  destroyed : ∀ h ∈ s.destroyed, h ∈ s.handles
  /-- Calls came in through handles that were given out. -/
  log : ∀ x ∈ s.log, x.1 ∈ s.handles
  /-- Behind a live handle is a device that was created with it, after a run of its own calls. -/
  device : ∀ h e, s.engine? h = some e → ∃ config d, (h, Engine.newDevice P config d) ∈ s.created ∧
    Relation.ReflTransGen (device P anyCall).step ⟨Engine.newDevice P config d, []⟩ ⟨e, s.eventsOf h⟩

/-- The next handle is a new one. -/
theorem Sound.next_not_mem (h : s.Sound P) : s.table.next ∉ s.handles := by
  intro hmem
  have hrange : s.table.next.toNat ∈ List.range' 1 s.handles.length :=
    h.numbered ▸ List.mem_map_of_mem hmem
  have hlt := (List.mem_range'_1.1 hrange).2
  rw [h.next] at hlt
  omega

theorem eventsOf_of_not_mem {h : UInt64} (hlog : ∀ x ∈ s.log, x.1 ∈ s.handles)
    (hnot : h ∉ s.handles) : s.eventsOf h = [] := by
  have hfilter : s.log.filter (fun x ↦ x.1 = h) = [] := by
    refine List.filter_eq_nil_iff.2 fun x hx heq ↦ hnot ?_
    rw [← of_decide_eq_true heq]
    exact hlog x hx
  rw [eventsOf, hfilter, List.map_nil]

/-- **Creating a device keeps the invariant**: the new handle is none that was ever given out. -/
theorem Sound.created (h : s.Sound P) (config : DeviceConfig B) (d : DeviceDraws B)
    (hnext : s.table.next.toNat + 1 < 2 ^ 64) :
    Sound P { s with
      table := ⟨s.table.next + 1, s.table.engines.insert s.table.next (Engine.newDevice P config d)⟩
      created := s.created ++ [(s.table.next, Engine.newDevice P config d)] } := by
  have hhandles : (s.created ++ [(s.table.next, Engine.newDevice P config d)]).map Prod.fst =
      s.handles ++ [s.table.next] := List.map_append
  have hnew := h.next_not_mem
  refine ⟨?_, ?_, fun k ↦ ?_, fun k hk ↦ ?_, fun x hx ↦ ?_, fun k e hk ↦ ?_⟩
  · show (s.table.next + 1).toNat = (List.map Prod.fst _).length + 1
    have hone : (1 : UInt64).toNat = 1 := rfl
    rw [hhandles, List.length_append, List.length_singleton, UInt64.toNat_add, hone, ← h.next,
      Nat.mod_eq_of_lt hnext]
  · show (List.map Prod.fst _).map UInt64.toNat = List.range' 1 (List.map Prod.fst _).length
    rw [hhandles, List.map_append, h.numbered, List.length_append, List.length_singleton,
      List.range'_1_concat, List.map_singleton, h.next, Nat.add_comm 1]
  · show (s.table.engines.insert _ _).lookup k ≠ none ↔ k ∈ List.map Prod.fst _ ∧ k ∉ s.destroyed
    rw [hhandles, List.mem_append, List.mem_singleton]
    by_cases hk : k = s.table.next
    · subst hk
      rw [Finmap.lookup_insert]
      exact ⟨fun _ ↦ ⟨.inr rfl, fun hd ↦ hnew (h.destroyed _ hd)⟩, fun _ ↦ nofun⟩
    · rw [Finmap.lookup_insert_of_ne _ hk, or_iff_left hk]
      exact h.live k
  · show k ∈ List.map Prod.fst _
    rw [hhandles]
    exact List.mem_append_left _ (h.destroyed k hk)
  · show x.1 ∈ List.map Prod.fst _
    rw [hhandles]
    exact List.mem_append_left _ (h.log x hx)
  · replace hk : (s.table.engines.insert _ _).lookup k = some e := hk
    by_cases hkn : k = s.table.next
    · subst hkn
      rw [Finmap.lookup_insert] at hk
      obtain rfl := Option.some.inj hk
      refine ⟨config, d, List.mem_append_right _ (List.mem_singleton_self _), ?_⟩
      show Relation.ReflTransGen _ _ (⟨Engine.newDevice P config d, s.eventsOf s.table.next⟩ : Run B)
      rw [eventsOf_of_not_mem h.log hnew]
    · rw [Finmap.lookup_insert_of_ne _ hkn] at hk
      obtain ⟨config', d', hmem, hrun⟩ := h.device k e hk
      exact ⟨config', d', List.mem_append_left _ hmem, hrun⟩

theorem Sound.destroy (h : s.Sound P) {k : UInt64} {e : Engine B} (he : s.engine? k = some e) :
    Sound P { s with
      table := { s.table with engines := s.table.engines.erase k }
      destroyed := s.destroyed ++ [k] } := by
  have hne : s.engine? k ≠ none := by rw [he]; exact nofun
  refine ⟨h.next, h.numbered, fun k' ↦ ?_, fun k' hk' ↦ ?_, h.log, fun k' e' he' ↦ ?_⟩
  · show (s.table.engines.erase k).lookup k' ≠ none ↔ k' ∈ s.handles ∧ k' ∉ s.destroyed ++ [k]
    rw [List.mem_append, List.mem_singleton, not_or, ← and_assoc]
    by_cases hk : k' = k
    · subst hk
      rw [Finmap.lookup_erase]
      exact ⟨fun hnone ↦ absurd rfl hnone, fun hnot ↦ absurd rfl hnot.2⟩
    · rw [Finmap.lookup_erase_ne hk, and_iff_left hk]
      exact h.live k'
  · rcases List.mem_append.1 hk' with hk' | hk'
    · exact h.destroyed k' hk'
    · obtain rfl := List.mem_singleton.1 hk'
      exact ((h.live k').1 hne).1
  · replace he' : (s.table.engines.erase k).lookup k' = some e' := he'
    by_cases hk : k' = k
    · subst hk
      cases (Finmap.lookup_erase _ _).symm.trans he'
    · exact h.device k' e' ((Finmap.lookup_erase_ne hk).symm.trans he')

/-- A call is added to the events of its own handle only. -/
theorem eventsOf_append (s : Service B) (t : HandleTable B) (k h : UInt64) (ev : Event B) :
    (⟨t, s.created, s.destroyed, s.log ++ [(k, ev)]⟩ : Service B).eventsOf h =
      s.eventsOf h ++ if k = h then [ev] else [] := by
  show ((s.log ++ [(k, ev)]).filter _).map Prod.snd = _
  rw [List.filter_append, List.map_append]
  by_cases hk : k = h <;> simp [hk, eventsOf]

/-- **A call keeps the invariant**: the device behind its handle goes on with its run. -/
theorem Sound.ran (h : s.Sound P) {k : UInt64} {e : Engine B} (call : Call B) (d : Draws B)
    (he : s.engine? k = some e) :
    Sound P { s with
      table := { s.table with engines := s.table.engines.insert k (e.call P d call).2 }
      log := s.log ++ [(k, ⟨e, call, d, (e.call P d call).1⟩)] } := by
  have hne : s.engine? k ≠ none := by rw [he]; exact nofun
  refine ⟨h.next, h.numbered, fun k' ↦ ?_, h.destroyed, fun x hx ↦ ?_, fun k' e' he' ↦ ?_⟩
  · show (s.table.engines.insert k _).lookup k' ≠ none ↔ _
    by_cases hk : k' = k
    · subst hk
      rw [Finmap.lookup_insert]
      exact ⟨fun _ ↦ (h.live k').1 hne, fun _ ↦ nofun⟩
    · rw [Finmap.lookup_insert_of_ne _ hk]
      exact h.live k'
  · rcases List.mem_append.1 hx with hx | hx
    · exact h.log x hx
    · rw [List.mem_singleton.1 hx]
      exact ((h.live k).1 hne).1
  · replace he' : (s.table.engines.insert k _).lookup k' = some e' := he'
    rw [eventsOf_append]
    by_cases hk : k' = k
    · subst hk
      rw [Finmap.lookup_insert] at he'
      obtain rfl := Option.some.inj he'
      obtain ⟨config, d', hmem, hrun⟩ := h.device k' e he
      rw [if_pos rfl]
      exact ⟨config, d', hmem, hrun.tail ⟨call, d, trivial, rfl⟩⟩
    · rw [Finmap.lookup_insert_of_ne _ hk] at he'
      rw [if_neg (Ne.symm hk), List.append_nil]
      exact h.device k' e' he'

/-- **Every call keeps the invariant**: creating takes the next handle, destroying drops one, and
each of the others runs one engine at most. -/
theorem Sound.after (h : s.Sound P) (c : AbiCall B) : (s.after P c).Sound P := by
  have hserved := served P s c
  generalize s.after P c = s' at hserved ⊢
  generalize (c.serve P s.table).1 = code at hserved
  cases hserved with
  | created c config d hhandle hnext => exact h.created config d hnext
  | destroyed k e he => exact h.destroy he
  | ran c code k e call d hhandle he => exact h.ran call d he
  | nothing c code hcode => exact h

/-- The invariant holds in every run of the service. -/
theorem sound (hs : (system P).Reachable s) : s.Sound P := by
  refine hs.invariant (I := Sound P) ?_ ?_
  · rintro s rfl
    have hnone : ∀ h, (new : Service B).engine? h = none := fun h ↦ Finmap.lookup_empty h
    refine ⟨rfl, rfl, fun h ↦ ⟨fun hne ↦ absurd (hnone h) hne, fun hmem ↦ ?_⟩, fun h hmem ↦ ?_,
      fun x hmem ↦ ?_, fun h e he ↦ by cases (hnone h).symm.trans he⟩
    · exact absurd hmem.1 List.not_mem_nil
    · exact absurd hmem List.not_mem_nil
    · exact absurd hmem List.not_mem_nil
  · rintro s t - hs ⟨c, rfl⟩
    exact hs.after c

/-- What was destroyed stays destroyed. -/
theorem destroyed_subset (hrun : Relation.ReflTransGen (system P).step s t) :
    s.destroyed ⊆ t.destroyed := by
  induction hrun with
  | refl => exact List.Subset.refl _
  | tail hrun hstep ih =>
    obtain ⟨c, rfl⟩ := hstep
    exact fun h hmem ↦ List.mem_append_left _ (ih hmem)

/-- A call through a handle without an engine fails and does nothing. -/
theorem serve_dead {c : AbiCall B} {h : UInt64} (hhandle : c.handle = some h)
    (hnone : s.engine? h = none) :
    (c.serve P s.table).1 ≠ .ok ∧ s.after P c = s := by
  have hserved := served P s c
  generalize s.after P c = s' at hserved ⊢
  generalize (c.serve P s.table).1 = code at hserved ⊢
  cases hserved with
  | created c config d hc hnext => cases hhandle.symm.trans hc
  | destroyed k e he =>
    obtain rfl := Option.some.inj hhandle
    cases hnone.symm.trans he
  | ran c code k e call d hc he =>
    obtain rfl := Option.some.inj (hhandle.symm.trans hc)
    cases hnone.symm.trans he
  | nothing c code hcode => exact ⟨hcode h hhandle hnone, rfl⟩

/-- A call leaves alone what is behind the other handles. -/
theorem after_other (hs : s.Sound P) {c : AbiCall B} {h : UInt64} (hmem : h ∈ s.handles)
    (hhandle : c.handle ≠ some h) :
    (s.after P c).engine? h = s.engine? h ∧ (s.after P c).eventsOf h = s.eventsOf h := by
  have hserved := served P s c
  generalize s.after P c = s' at hserved ⊢
  generalize (c.serve P s.table).1 = code at hserved
  cases hserved with
  | created c config d hc hnext =>
    have hne : h ≠ s.table.next := fun heq ↦ hs.next_not_mem (heq ▸ hmem)
    exact ⟨Finmap.lookup_insert_of_ne _ hne, rfl⟩
  | destroyed k e he =>
    have hne : h ≠ k := fun heq ↦ hhandle (congrArg some heq.symm)
    exact ⟨Finmap.lookup_erase_ne hne, rfl⟩
  | ran c code k e call d hc he =>
    have hne : h ≠ k := fun heq ↦ hhandle (hc.trans (congrArg some heq.symm))
    refine ⟨Finmap.lookup_insert_of_ne _ hne, ?_⟩
    rw [eventsOf_append, if_neg (Ne.symm hne), List.append_nil]
  | nothing c code hcode => exact ⟨rfl, rfl⟩

end Service

open Service in
/-- **A handle is a device.** In every run of the service, the engine behind a live handle is at the end
of a run of the device that was created with it, made of the engine calls that came in through this
handle, in order. Handles are numbered from 1 and never given out again: once one is destroyed, every
call through it fails and does nothing, whatever has been created since. And no call has an effect on
what is behind another handle. -/
theorem handle_is_device {s t : Service B} (hs : (system P).Reachable s)
    (hst : Relation.ReflTransGen (system P).step s t) :
    (∀ h e, t.engine? h = some e → ∃ config d, (h, Engine.newDevice P config d) ∈ t.created ∧
      Relation.ReflTransGen (device P anyCall).step ⟨Engine.newDevice P config d, []⟩
        ⟨e, t.eventsOf h⟩) ∧
    t.handles.map UInt64.toNat = List.range' 1 t.handles.length ∧
    (∀ h, t.engine? h ≠ none ↔ h ∈ t.handles ∧ h ∉ t.destroyed) ∧
    (∀ h ∈ s.destroyed, ∀ c : AbiCall B, c.handle = some h →
      (c.serve P t.table).1 ≠ .ok ∧ t.after P c = t) ∧
    ∀ h ∈ t.handles, ∀ c : AbiCall B, c.handle ≠ some h →
      (t.after P c).engine? h = t.engine? h ∧ (t.after P c).eventsOf h = t.eventsOf h := by
  have ht : (system P).Reachable t := by
    obtain ⟨s₀, hstart, hrun⟩ := hs
    exact ⟨s₀, hstart, hrun.trans hst⟩
  have hsound := sound ht
  refine ⟨hsound.device, hsound.numbered, hsound.live, fun h hd c hc ↦ ?_, fun h hmem c hc ↦
    after_other hsound hmem hc⟩
  have hnone : t.engine? h = none := by
    by_contra hne
    exact ((hsound.live h).1 hne).2 (destroyed_subset hst hd)
  exact serve_dead hc hnone

/-! ### Two devices -/

namespace Symbolic

open VoiceChatCrypto.Symbolic Service

/-- A call that creates a device. -/
noncomputable def create (n : ℕ) : AbiCall Sym := .engineCreate (.bytes []) 1 true true (deviceDraws n)

/-- Two devices are created, and the first one is destroyed. -/
noncomputable def oneLeft : Service Sym :=
  ((Service.new.after symbolic (create 1)).after symbolic (create 2)).after symbolic (.engineDestroy 1)

/-- Then the second one publishes a bundle. -/
noncomputable def published : Service Sym :=
  oneLeft.after symbolic (.run 2 (.generateBundle 1 page) (VoiceChatCrypto.Symbolic.draws 2))

/-- The example is reached by creating two devices and destroying one. -/
theorem reachable_oneLeft : (system symbolic).Reachable oneLeft :=
  ((System.Reachable.of_start (S := system symbolic) rfl).of_step ⟨create 1, rfl⟩).of_step
    ⟨create 2, rfl⟩ |>.of_step ⟨_, rfl⟩

end Symbolic

open VoiceChatCrypto.Symbolic Service Symbolic in
/-- The handle of the first device is dead, and behind that of the second one is a device that has run
one call. -/
theorem handle_is_device_published :
    published.handles = [1, 2] ∧ published.destroyed = [1] ∧ (published.eventsOf 2).length = 1 ∧
    (∀ c : AbiCall Sym, c.handle = some 1 →
      (c.serve symbolic published.table).1 ≠ .ok ∧ published.after symbolic c = published) ∧
    ∃ e, published.engine? 2 = some e ∧
      (device symbolic anyCall).Reachable ⟨e, published.eventsOf 2⟩ := by
  have hhandles : published.handles = [1, 2] := by decide +kernel
  have hdestroyed : published.destroyed = [1] := by decide +kernel
  obtain ⟨hdevice, -, hlive, hdead, -⟩ := handle_is_device reachable_oneLeft
    (.single ⟨.run 2 (.generateBundle 1 page) (VoiceChatCrypto.Symbolic.draws 2), rfl⟩ :
      Relation.ReflTransGen (system symbolic).step oneLeft published)
  refine ⟨hhandles, hdestroyed, by decide +kernel, hdead 1 (by decide +kernel), ?_⟩
  have hne : published.engine? 2 ≠ none := by
    rw [hlive, hhandles, hdestroyed]
    decide
  obtain ⟨e, he⟩ := Option.ne_none_iff_exists'.1 hne
  obtain ⟨config, d, -, hrun⟩ := hdevice 2 e he
  exact ⟨e, he, _, ⟨rfl, config, d, initializeDevice_eq symbolic config d⟩, hrun⟩

end Ffi
end VoiceChatCrypto
