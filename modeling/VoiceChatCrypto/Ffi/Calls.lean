import VoiceChatCrypto.Engine.Runs

/-!
# The C interface

The five calls of `src/ffi/mod.rs` that run the engine: `vc_generate_bundle`, `vc_establish_outbound`,
`vc_process_inbound`, `vc_encrypt` and `vc_decrypt`. An input pointer with its length is an `InBuffer`, an
output pointer with the place of its length an `OutBuffer`, and the registry of engines a finite map from
handles. The lock of the registry is not modelled: it fails only after a panic.

A call checks its arguments and its output buffer against a bound that does not depend on the result,
then runs the engine, then copies the result out. The second check of the buffer comes after the engine
has committed.
-/

open Alphabet

namespace VoiceChatCrypto.Ffi

variable {B : Type} [Alphabet B]

/-- `VcError`. -/
inductive VcError
  | ok
  | invalidArgument
  | cryptoFailure
  | stateError
  | notFound
  | identityChanged
  | limitExceeded
  | internal
  deriving DecidableEq, Repr

/-- `From<CryptoError> for VcError`. -/
def VcError.ofCrypto : CryptoError → VcError
  | .invalidArgument => .invalidArgument
  | .cryptoFailure => .cryptoFailure
  | .noSession | .replay => .stateError
  | .identityChanged => .identityChanged
  | .limitExceeded => .limitExceeded
  | .voiceProfileForbidden => .invalidArgument
  | .storage | .internal => .internal

/-- The engines behind the handles: `Registry`. -/
abbrev Registry (B : Type) [Alphabet B] := Dict UInt64 (Engine B)

/-! ### Buffers -/

/-- An input pointer with its length. -/
inductive InBuffer (B : Type)
  | null (len : ℕ)
  | bytes (data : List B)

/-- `read_bytes`. -/
def InBuffer.read : InBuffer B → Except VcError (List B)
  | .null 0 => .ok []
  | .null (_ + 1) => .error .invalidArgument
  | .bytes data => .ok data

/-- An output pointer: whether it is there, and the length its length pointer points to, if that is
there. -/
structure OutBuffer where
  /-- Whether the pointer to the letters is not null. -/
  present : Bool
  /-- The capacity, unless the pointer to it is null. -/
  len : Option ℕ

/-- What a call leaves behind for its caller: the code, the length written back, and the letters. -/
structure Reply (B : Type) where
  /-- The code returned. -/
  code : VcError
  /-- What is written through the length pointer: the length of the output, or the one needed. -/
  len : Option ℕ
  /-- What is written through the output pointer. -/
  data : Option (List B)
  /-- What is written through the pointer to the session id. -/
  session : Option (SessionId B)

/-- An error that leaves the length alone. -/
def Reply.fail (e : VcError) (out : OutBuffer) : Reply B :=
  { code := e, len := out.len, data := none, session := none }

/-- An answer that only says how long the buffer has to be. -/
def Reply.needs (e : VcError) (n : ℕ) : Reply B :=
  { code := e, len := some n, data := none, session := none }

/-- `need_buffer`: the capacity, or a refusal that writes the bound. -/
def needBuffer (out : OutBuffer) (bound : ℕ) : Except (Reply B) ℕ :=
  match out.len with
  | none => .error (.fail .invalidArgument out)
  | some cap =>
    if ¬ out.present ∨ cap < bound then .error (.needs .invalidArgument bound) else .ok cap

/-- `copy_out`. -/
def copyOut (src : List B) (out : OutBuffer) : Reply B :=
  match out.len with
  | none => .fail .invalidArgument out
  | some cap =>
    if ¬ out.present ∨ cap < src.length then .needs .invalidArgument src.length
    else { code := .ok, len := some src.length, data := some src, session := none }

/-- The copy at the end of `vc_establish_outbound` and `vc_process_inbound`, which also writes the
session id. -/
def copyWithSession (src : List B) (sid : SessionId B) (cap : ℕ) : Reply B :=
  if cap < src.length then .needs .internal src.length
  else { code := .ok, len := some src.length, data := some src, session := some sid }

/-- `BUNDLE_BOUND`. -/
def bundleBound : ℕ := 4096

/-- `usize::checked_add`, for the bounds. -/
def checkedAdd (a b : ℕ) : Except VcError ℕ :=
  if a + b < 2 ^ 64 then .ok (a + b) else .error .limitExceeded

/-- `packet_bound`. -/
def packetBound (ptLen : ℕ) : Except VcError ℕ := checkedAdd 8192 ptLen

/-- `sealed_bound`. -/
def sealedBound (ptLen : ℕ) : Except VcError ℕ := checkedAdd 4096 ptLen

/-- An error on the way to the engine. -/
def orFail {α : Type} (out : OutBuffer) : Except VcError α → Except (Reply B) α
  | .ok a => .ok a
  | .error e => .error (.fail e out)

/-! ### Calls -/

variable (P : Primitives B)

/-- The engine behind a handle, run and put back. -/
def withEngine {α : Type} (reg : Registry B) (h : UInt64) (out : OutBuffer)
    (run : Engine B → Except CryptoError α × Engine B) (answer : α → Reply B) :
    Reply B × Registry B :=
  match reg.lookup h with
  | none => (.fail .notFound out, reg)
  | some e =>
    match run e with
    | (.error err, e) => (.fail (.ofCrypto err) out, reg.insert h e)
    | (.ok a, e) => (answer a, reg.insert h e)

/-- `vc_generate_bundle`. The handle is looked up before the buffer is checked. -/
def vcGenerateBundle (reg : Registry B) (h : UInt64) (oneTimeCount : ℕ) (out : OutBuffer)
    (d : Draws B) : Reply B × Registry B :=
  match reg.lookup h with
  | none => (.fail .notFound out, reg)
  | some _ =>
    match needBuffer out bundleBound with
    | .error reply => (reply, reg)
    | .ok _ =>
      withEngine reg h out (fun e ↦ e.generatePublicPrekeyBundle P oneTimeCount d) fun b ↦
        copyOut b.encode out

/-- The arguments of `vc_establish_outbound`, checked. -/
def establishArgs (bundle conversation firstPt ad : InBuffer B) (outSession : Bool) (out : OutBuffer) :
    Except (Reply B) (PublicPrekeyBundle B × List B × List B × List B × ℕ) := do
  if ¬ outSession then throw (.fail .invalidArgument out)
  let bundleBytes ← orFail out bundle.read
  let conv ← orFail out conversation.read
  let pt ← orFail out firstPt.read
  let aad ← orFail out ad.read
  let bound ← orFail out (packetBound pt.length)
  let cap ← needBuffer out bound
  match PublicPrekeyBundle.decode P bundleBytes with
  | .error _ => throw (.fail .cryptoFailure out)
  | .ok parsed => return (parsed, conv, pt, aad, cap)

/-- `vc_establish_outbound`. -/
def vcEstablishOutbound (reg : Registry B) (h : UInt64) (bundle conversation firstPt ad : InBuffer B)
    (outSession : Bool) (out : OutBuffer) (d : Draws B) : Reply B × Registry B :=
  match establishArgs P bundle conversation firstPt ad outSession out with
  | .error reply => (reply, reg)
  | .ok (parsed, conv, pt, aad, cap) =>
    withEngine reg h out (fun e ↦ e.establishOutboundSession P parsed conv pt aad d) fun r ↦
      copyWithSession r.2.encode r.1 cap

/-- The arguments of `vc_process_inbound`, checked. -/
def processArgs (packet conversation ad : InBuffer B) (outSession : Bool) (out : OutBuffer) :
    Except (Reply B) (InitiationPacket B × List B × List B × ℕ) := do
  if ¬ outSession then throw (.fail .invalidArgument out)
  let pktBytes ← orFail out packet.read
  let conv ← orFail out conversation.read
  let aad ← orFail out ad.read
  let cap ← needBuffer out 4096
  match InitiationPacket.decode pktBytes with
  | .error e => throw (.fail (.ofCrypto e) out)
  | .ok parsed => return (parsed, conv, aad, cap)

/-- `vc_process_inbound`. -/
def vcProcessInbound (reg : Registry B) (h : UInt64) (packet conversation ad : InBuffer B)
    (outSession : Bool) (out : OutBuffer) (d : Draws B) : Reply B × Registry B :=
  match processArgs packet conversation ad outSession out with
  | .error reply => (reply, reg)
  | .ok (parsed, conv, aad, cap) =>
    withEngine reg h out (fun e ↦ e.processInboundSession P parsed conv aad d) fun r ↦
      copyWithSession r.2 r.1 cap

/-- The arguments of `vc_encrypt`, checked. -/
def encryptArgs (sid : Option (SessionId B)) (plaintext ad : InBuffer B) (out : OutBuffer) :
    Except (Reply B) (SessionId B × List B × List B × ℕ) := do
  match sid with
  | none => throw (.fail .invalidArgument out)
  | some sid =>
    let pt ← orFail out plaintext.read
    let aad ← orFail out ad.read
    let bound ← orFail out (sealedBound pt.length)
    let cap ← needBuffer out bound
    return (sid, pt, aad, cap)

/-- `vc_encrypt`. -/
def vcEncrypt (reg : Registry B) (h : UInt64) (sid : Option (SessionId B)) (plaintext ad : InBuffer B)
    (out : OutBuffer) (d : Draws B) : Reply B × Registry B :=
  match encryptArgs sid plaintext ad out with
  | .error reply => (reply, reg)
  | .ok (sid, pt, aad, _) =>
    withEngine reg h out (fun e ↦ e.encrypt P sid pt aad d) fun m ↦ copyOut m.encode out

/-- The arguments of `vc_decrypt`, checked. -/
def decryptArgs (sid : Option (SessionId B)) (blob ad : InBuffer B) (out : OutBuffer) :
    Except (Reply B) (SessionId B × SealedMessage B × List B × ℕ) := do
  match sid with
  | none => throw (.fail .invalidArgument out)
  | some sid =>
    let blob ← orFail out blob.read
    let aad ← orFail out ad.read
    let cap ← needBuffer out 4096
    match SealedMessage.decode blob with
    | .error e => throw (.fail (.ofCrypto e) out)
    | .ok parsed => return (sid, parsed, aad, cap)

/-- `vc_decrypt`. -/
def vcDecrypt (reg : Registry B) (h : UInt64) (sid : Option (SessionId B)) (blob ad : InBuffer B)
    (out : OutBuffer) (d : Draws B) : Reply B × Registry B :=
  match decryptArgs sid blob ad out with
  | .error reply => (reply, reg)
  | .ok (sid, parsed, aad, _) =>
    withEngine reg h out (fun e ↦ e.decrypt P sid parsed aad d) fun pt ↦ copyOut pt out

end VoiceChatCrypto.Ffi
