import VoiceChatCrypto.Primitives.Ideal

/-!
# Prekeys

The identity key, the prekey store and the public bundles of `src/prekeys/mod.rs`. One-time prekeys
are taken from a counter that only grows and are removed when they are used; the signed prekey and
the last-resort PQ prekey carry the fixed id 1, below the counters' start.

`replenish` is a loop that can stop in the middle, at the top of the `u32` id range. It then returns
an error **and** a store that has already grown, so it returns both.
-/

open Alphabet

namespace VoiceChatCrypto

variable {B : Type} [Alphabet B]

/-! ### Keys -/

/-- `IdentityKeyPair`. -/
structure IdentityKeyPair (B : Type) where
  /-- The X25519 secret, which also signs. -/
  secret : Block B 32
  deriving DecidableEq

/-- `SignedPrekey`. -/
structure SignedPrekey (B : Type) where
  /-- Its id, always 1. -/
  id : UInt32
  /-- Its X25519 secret. -/
  secret : Block B 32
  /-- The signature of the identity key. -/
  signature : Block B 64
  deriving DecidableEq

/-- `OneTimeEcPrekey`. -/
structure OneTimeEcPrekey (B : Type) where
  /-- Its id, from 2. -/
  id : UInt32
  /-- Its X25519 secret; one-time EC prekeys are not signed. -/
  secret : Block B 32
  deriving DecidableEq

/-- A PQ prekey with its seed: `LastResortPqPrekey` and `OneTimePqPrekey`, which have the same
fields. -/
structure PqPrekey (B : Type) where
  /-- Its id: 1 for the last-resort key, from 2 otherwise. -/
  id : UInt32
  /-- The seed of its ML-KEM key pair. -/
  secret : Block B 64
  /-- The signature of the identity key. -/
  signature : Block B 64
  deriving DecidableEq

namespace IdentityKeyPair

variable (P : Primitives B)

/-- `public`. -/
def publicKey (k : IdentityKeyPair B) : Block B 32 := P.publicKey k.secret

/-- `sign`, with the nonce it draws. -/
def sign (k : IdentityKeyPair B) (nonce : Block B 64) (message : List B) : Block B 64 :=
  P.xeddsaSign k.secret message nonce

/-- `serialize`. -/
def serialize (k : IdentityKeyPair B) : List B := ascii "VCIDENT1" ++ k.secret.val

/-- `deserialize`. -/
def deserialize (data : List B) : Except PrimitiveError (IdentityKeyPair B) := do
  if data.length ≠ 8 + 32 then throw .invalidLength
  let data ← Cursor.expect PrimitiveError.invalidLength (ascii "VCIDENT1") data
  let (secret, _) ← Cursor.takeBlock PrimitiveError.invalidLength 32 data
  return { secret }

theorem deserialize_serialize (k : IdentityKeyPair B) : deserialize k.serialize = .ok k := by
  have hlen : (serialize k).length = 8 + 32 := by
    rw [serialize, List.length_append, Block.length_val]
    rfl
  have htake := Cursor.takeBlock_append PrimitiveError.invalidLength k.secret []
  rw [List.append_nil] at htake
  unfold deserialize
  rw [if_neg (by simpa using hlen)]
  simp only [serialize, Cursor.expect_append, htake, bind, Except.bind, pure, Except.pure]

end IdentityKeyPair

/-- `SignedPrekey::generate`, with its draws. -/
def SignedPrekey.generate (P : Primitives B) (identity : IdentityKeyPair B) (id : UInt32)
    (secret : Block B 32) (nonce : Block B 64) : SignedPrekey B :=
  { id, secret, signature := identity.sign P nonce (encodeEc (P.publicKey secret)) }

/-- `LastResortPqPrekey::generate` and `OneTimePqPrekey::generate`, with their draws. -/
def PqPrekey.generate (P : Primitives B) (identity : IdentityKeyPair B) (id : UInt32)
    (seed nonce : Block B 64) : PqPrekey B :=
  { id, secret := seed, signature := identity.sign P nonce (encodeKem (P.kemPublic seed)) }

/-! ### Bundles -/

/-- `PublicPrekeyBundle`. -/
structure PublicPrekeyBundle (B : Type) where
  /-- The identity key of the device. -/
  identityKey : Block B 32
  /-- The id of the signed prekey. -/
  signedPrekeyId : UInt32
  /-- The signed prekey. -/
  signedPrekey : Block B 32
  /-- Its signature. -/
  signedPrekeySig : Block B 64
  /-- A one-time EC prekey with its id, if one was left. -/
  oneTimeEc : Option (UInt32 × Block B 32)
  /-- The id of the KEM key. -/
  pqPrekeyId : UInt32
  /-- The KEM key, not yet checked for its length. -/
  pqPrekeyPublic : List B
  /-- Its signature. -/
  pqPrekeySig : Block B 64
  /-- Whether the KEM key is a one-time key or the last-resort one. -/
  isPqOneTime : Bool
  deriving DecidableEq

namespace PublicPrekeyBundle

variable (P : Primitives B)

/-- `validate`. -/
def validate (b : PublicPrekeyBundle B) : Except PrimitiveError Unit := do
  if b.identityKey = Block.zero 32 then throw .invalidPublicKey
  if b.signedPrekey = Block.zero 32 then throw .invalidPublicKey
  xeddsaVerify P b.identityKey (encodeEc b.signedPrekey) b.signedPrekeySig
  let pq ← kemPublicFromBytes P b.pqPrekeyPublic
  xeddsaVerify P b.identityKey (encodeKem pq) b.pqPrekeySig
  match b.oneTimeEc with
  | some (_, opk) => if opk = Block.zero 32 then throw .invalidPublicKey
  | none => return ()

variable {P} in
/-- What `validate` checks. -/
theorem validate_eq_ok {b : PublicPrekeyBundle B} : b.validate P = .ok () ↔
    b.identityKey ≠ Block.zero 32 ∧ b.signedPrekey ≠ Block.zero 32 ∧
      xeddsaVerify P b.identityKey (encodeEc b.signedPrekey) b.signedPrekeySig = .ok () ∧
      ∃ pq, kemPublicFromBytes P b.pqPrekeyPublic = .ok pq ∧
        xeddsaVerify P b.identityKey (encodeKem pq) b.pqPrekeySig = .ok () ∧
        ∀ id opk, b.oneTimeEc = some (id, opk) → opk ≠ Block.zero 32 := by
  unfold validate
  by_cases hik : b.identityKey = Block.zero 32
  · simp [hik, throw, throwThe, MonadExceptOf.throw, bind, Except.bind]
  by_cases hspk : b.signedPrekey = Block.zero 32
  · simp [hik, hspk, throw, throwThe, MonadExceptOf.throw, bind, Except.bind]
  simp only [hik, hspk, if_false, Except.bind_eq_ok, ne_eq, not_false_eq_true, true_and]
  have hopk : (match b.oneTimeEc with
      | some (_, opk) => if opk = Block.zero 32 then throw PrimitiveError.invalidPublicKey
          else pure ()
      | none => pure () : Except PrimitiveError Unit) = .ok () ↔
      ∀ id opk, b.oneTimeEc = some (id, opk) → opk ≠ Block.zero 32 := by
    cases b.oneTimeEc with
    | none => simp [pure, Except.pure]
    | some e =>
      obtain ⟨id, opk⟩ := e
      by_cases h : opk = Block.zero 32
      · simp [h, throw, throwThe, MonadExceptOf.throw]
      · simp [h, pure, Except.pure]
  rw [← hopk]
  constructor
  · rintro ⟨⟨⟩, hsig, pq, hpq, ⟨⟩, hpqSig, h⟩
    exact ⟨hsig, pq, hpq, hpqSig, h⟩
  · rintro ⟨hsig, pq, hpq, hpqSig, h⟩
    exact ⟨(), hsig, pq, hpq, (), hpqSig, h⟩

/-- `encode`. -/
def encode (b : PublicPrekeyBundle B) : List B :=
  ascii "VCBUNDL1" ++ b.identityKey.val ++ le 4 b.signedPrekeyId.toNat ++ b.signedPrekey.val ++
    b.signedPrekeySig.val ++
    (match b.oneTimeEc with
    | none => [ofNat 0]
    | some (id, pk) => ofNat 1 :: le 4 id.toNat ++ pk.val) ++
    le 4 b.pqPrekeyId.toNat ++ le 2 b.pqPrekeyPublic.length ++ b.pqPrekeyPublic ++
    b.pqPrekeySig.val ++ [ofNat (if b.isPqOneTime then 1 else 0)]

/-- The one-time EC field of a bundle. -/
def takeOneTimeEc (data : List B) :
    Except PrimitiveError (Option (UInt32 × Block B 32) × List B) := do
  let (tag, data) ← Cursor.takeTag PrimitiveError.invalidLength data
  match tag with
  | 0 => return (none, data)
  | 1 =>
    let (id, data) ← Cursor.takeLe PrimitiveError.invalidLength 4 data
    let (pk, data) ← Cursor.takeBlock PrimitiveError.invalidLength 32 data
    let pk ← publicFromBytes pk
    return (some (UInt32.ofNat id, pk), data)
  | _ => throw .invalidLength

/-- `decode`: parses and validates. -/
def decode (data : List B) : Except PrimitiveError (PublicPrekeyBundle B) := do
  if data.length < 8 + 32 + 4 + 32 + 64 + 1 + 4 + 2 + 64 + 1 then throw .invalidLength
  let data ← Cursor.expect PrimitiveError.invalidLength (ascii "VCBUNDL1") data
  let (ik, data) ← Cursor.takeBlock PrimitiveError.invalidLength 32 data
  let (spkId, data) ← Cursor.takeLe PrimitiveError.invalidLength 4 data
  let (spk, data) ← Cursor.takeBlock PrimitiveError.invalidLength 32 data
  let (spkSig, data) ← Cursor.takeBlock PrimitiveError.invalidLength 64 data
  let (oneTimeEc, data) ← takeOneTimeEc data
  let (pqId, data) ← Cursor.takeLe PrimitiveError.invalidLength 4 data
  let (pqLen, data) ← Cursor.takeLe PrimitiveError.invalidLength 2 data
  let (pq, data) ← Cursor.take PrimitiveError.invalidLength pqLen data
  let (pqSig, data) ← Cursor.takeBlock PrimitiveError.invalidLength 64 data
  let (isOne, data) ← Cursor.takeTag PrimitiveError.invalidLength data
  if data.length ≠ 0 then throw .invalidLength
  let identityKey ← publicFromBytes ik
  let signedPrekey ← publicFromBytes spk
  let bundle : PublicPrekeyBundle B :=
    { identityKey, signedPrekeyId := UInt32.ofNat spkId, signedPrekey, signedPrekeySig := spkSig
      oneTimeEc, pqPrekeyId := UInt32.ofNat pqId, pqPrekeyPublic := pq, pqPrekeySig := pqSig
      isPqOneTime := isOne = 1 }
  bundle.validate P
  return bundle

variable {P}

/-- An optional one-time prekey is read back, unless it is zero. -/
theorem takeOneTimeEc_append (otk : Option (UInt32 × Block B 32)) (rest : List B)
    (h : ∀ id pk, otk = some (id, pk) → pk ≠ Block.zero 32) :
    takeOneTimeEc ((match otk with
      | none => [ofNat 0]
      | some (id, pk) => ofNat 1 :: le 4 id.toNat ++ pk.val) ++ rest) = .ok (otk, rest) := by
  cases otk with
  | none => simp [takeOneTimeEc, bind, Except.bind, pure, Except.pure]
  | some e =>
    obtain ⟨id, pk⟩ := e
    have hpk := h id pk rfl
    simp [takeOneTimeEc, bind, Except.bind, pure, Except.pure, hpk]

theorem takeOneTimeEc_eq_ok (hB : Bytes B) {data rest : List B} {otk : Option (UInt32 × Block B 32)} :
    takeOneTimeEc data = .ok (otk, rest) → data = (match otk with
      | none => [ofNat 0]
      | some (id, pk) => ofNat 1 :: le 4 id.toNat ++ pk.val) ++ rest := by
  intro hok
  obtain ⟨⟨tag, data₁⟩, htag, h⟩ := Except.bind_eq_ok.1 hok
  rw [(Cursor.takeTag_eq_ok hB htag).1]
  dsimp only at h
  split at h
  · cases h
    rfl
  · obtain ⟨⟨n, data₂⟩, hn, h⟩ := Except.bind_eq_ok.1 h
    obtain ⟨⟨pk, data₃⟩, hpk, h⟩ := Except.bind_eq_ok.1 h
    obtain ⟨pk', hpub, h⟩ := Except.bind_eq_ok.1 h
    obtain ⟨hdata, hlt⟩ := Cursor.takeLe_eq_ok hB hn
    have hrest : data₂ = pk.val ++ data₃ := Cursor.takeBlock_eq_ok hpk
    have hpk' : pk' = pk := (publicFromBytes_eq_ok.1 hpub).2
    cases h
    show ofNat 1 :: data₁ = ofNat 1 :: le 4 (UInt32.ofNat n).toNat ++ pk'.val ++ data₃
    rw [hpk', hdata, hrest, toNat_ofNat_u32 hlt, List.cons_append, List.cons_append,
      List.append_assoc]
  · cases h

/-- The last byte of a bundle tells whether its KEM key is a one-time key. -/
theorem encode_eq (b : PublicPrekeyBundle B) :
    b.encode = b.encode.dropLast ++ [ofNat (if b.isPqOneTime then 1 else 0)] := by
  unfold encode
  rw [List.dropLast_concat]

/-- **Decoding** a valid bundle under any last byte: it is a flag, and only 1 is recognised. -/
theorem decode_flag {b : PublicPrekeyBundle B} (h : b.validate P = .ok ()) {flag : ℕ}
    (hflag : flag < 256) : decode P (b.encode.dropLast ++ [ofNat flag]) =
      .ok { b with isPqOneTime := decide (flag = 1) } := by
  obtain ⟨hik, hspk, -, pq, hpq, -, hopk⟩ := validate_eq_ok.1 h
  have hmagic : (ascii "VCBUNDL1" : List B).length = 8 := rfl
  have hkem : b.pqPrekeyPublic.length = 1184 := by
    unfold kemPublicFromBytes at hpq
    split at hpq
    · assumption
    · cases hpq
  have hmod : b.pqPrekeyPublic.length % 256 ^ 2 = b.pqPrekeyPublic.length := by rw [hkem]; rfl
  have hlen : ¬ (b.encode.dropLast ++ [ofNat flag]).length <
      8 + 32 + 4 + 32 + 64 + 1 + 4 + 2 + 64 + 1 := by
    rw [encode, List.dropLast_concat]
    simp only [List.length_append, hmagic, Block.length_val, length_le, hkem,
      List.length_singleton]
    omega
  have hvalid : validate P { b with isPqOneTime := decide (flag = 1) } = .ok () := h
  unfold decode
  rw [if_neg hlen, encode, List.dropLast_concat]
  simp only [List.append_assoc, Cursor.expect_append, Cursor.takeBlock_append,
    Cursor.takeLe_append, hmod, Cursor.take_append, takeOneTimeEc_append _ _ hopk,
    Cursor.takeTag_cons, publicFromBytes_of_ne hik, publicFromBytes_of_ne hspk, ofNat_toNat_mod,
    bind, Except.bind, pure, Except.pure, List.length_nil, ne_eq, not_true, if_false,
    Nat.mod_eq_of_lt hflag, hvalid]

/-- **A bundle that validates survives the wire.** -/
theorem decode_encode {b : PublicPrekeyBundle B} (h : b.validate P = .ok ()) :
    decode P b.encode = .ok b := by
  have hflag : decide ((if b.isPqOneTime then 1 else 0) = 1) = b.isPqOneTime := by
    cases b.isPqOneTime <;> rfl
  rw [encode_eq, decode_flag h (by split <;> omega), hflag]

/-- **The encoding of a decoded bundle** is what was decoded, up to the last byte: it is a flag that
is written as 0 or 1, and of which only 1 is recognised. -/
theorem encode_of_decode (hB : Bytes B) {data : List B} {b : PublicPrekeyBundle B}
    (h : decode P data = .ok b) : ∃ flag, flag < 256 ∧ data = b.encode.dropLast ++ [ofNat flag] ∧
      b.isPqOneTime = decide (flag = 1) := by
  unfold decode at h
  split at h
  · cases h
  obtain ⟨data₁, hmagic, h⟩ := Except.bind_eq_ok.1 h
  obtain ⟨⟨ik, data₂⟩, hik, h⟩ := Except.bind_eq_ok.1 h
  obtain ⟨⟨spkId, data₃⟩, hspkId, h⟩ := Except.bind_eq_ok.1 h
  obtain ⟨⟨spk, data₄⟩, hspk, h⟩ := Except.bind_eq_ok.1 h
  obtain ⟨⟨spkSig, data₅⟩, hspkSig, h⟩ := Except.bind_eq_ok.1 h
  obtain ⟨⟨opk, data₆⟩, hopk, h⟩ := Except.bind_eq_ok.1 h
  obtain ⟨⟨pqId, data₇⟩, hpqId, h⟩ := Except.bind_eq_ok.1 h
  obtain ⟨⟨pqLen, data₈⟩, hpqLen, h⟩ := Except.bind_eq_ok.1 h
  obtain ⟨⟨pq, data₉⟩, hpq, h⟩ := Except.bind_eq_ok.1 h
  obtain ⟨⟨pqSig, data₁₀⟩, hpqSig, h⟩ := Except.bind_eq_ok.1 h
  obtain ⟨⟨flag, data₁₁⟩, hflag, h⟩ := Except.bind_eq_ok.1 h
  dsimp only at h
  split at h
  · cases h
  rename_i hrest
  obtain ⟨ik', hik', h⟩ := Except.bind_eq_ok.1 h
  obtain ⟨spk', hspk', h⟩ := Except.bind_eq_ok.1 h
  obtain ⟨_, -, h⟩ := Except.bind_eq_ok.1 h
  cases h
  have hnil : data₁₁ = [] := List.length_eq_zero_iff.1 (not_not.1 hrest)
  obtain ⟨-, rfl⟩ := publicFromBytes_eq_ok.1 hik'
  obtain ⟨-, rfl⟩ := publicFromBytes_eq_ok.1 hspk'
  obtain ⟨hspkId, hspkLt⟩ := Cursor.takeLe_eq_ok hB hspkId
  obtain ⟨hpqId, hpqLt⟩ := Cursor.takeLe_eq_ok hB hpqId
  obtain ⟨hpq, hlen⟩ := Cursor.take_eq_ok hpq
  obtain ⟨hflag, hflagLt⟩ := Cursor.takeTag_eq_ok hB hflag
  refine ⟨flag, hflagLt, ?_, rfl⟩
  rw [Cursor.expect_eq_ok hmagic, Cursor.takeBlock_eq_ok hik, hspkId, Cursor.takeBlock_eq_ok hspk,
    Cursor.takeBlock_eq_ok hspkSig, takeOneTimeEc_eq_ok hB hopk, hpqId,
    (Cursor.takeLe_eq_ok hB hpqLen).1, hpq, Cursor.takeBlock_eq_ok hpqSig, hflag, hnil]
  dsimp only [encode]
  rw [List.dropLast_concat, toNat_ofNat_u32 hspkLt, toNat_ofNat_u32 hpqLt, hlen]
  simp only [List.append_assoc]

end PublicPrekeyBundle

/-! ### The store -/

/-- `PrekeyStore`. -/
structure PrekeyStore (B : Type) where
  /-- The signed prekey. -/
  signed : SignedPrekey B
  /-- The last-resort KEM key, which is never used up. -/
  lastResortPq : PqPrekey B
  /-- The one-time EC prekeys that are left, by id. -/
  oneTimeEc : Dict UInt32 (OneTimeEcPrekey B)
  /-- The one-time KEM keys that are left, by id. -/
  oneTimePq : Dict UInt32 (PqPrekey B)
  /-- The id of the next one-time EC prekey. -/
  nextEc : UInt32
  /-- The id of the next one-time KEM key. -/
  nextPq : UInt32

/-- What a store draws: secrets, seeds and signature nonces, one for each new prekey. -/
structure PrekeyDraws (B : Type) where
  /-- X25519 secrets of one-time EC prekeys. -/
  ec : ℕ → Block B 32
  /-- Seeds of one-time PQ prekeys. -/
  pq : ℕ → Block B 64
  /-- Nonces of their signatures. -/
  nonce : ℕ → Block B 64

namespace PrekeyStore

variable (P : Primitives B)

/-- `new`, with its draws. -/
def new (identity : IdentityKeyPair B) (spk : Block B 32) (spkNonce lastResort lrNonce : Block B 64) :
    PrekeyStore B :=
  { signed := SignedPrekey.generate P identity 1 spk spkNonce
    lastResortPq := PqPrekey.generate P identity 1 lastResort lrNonce
    oneTimeEc := ∅, oneTimePq := ∅, nextEc := 2, nextPq := 2 }

/-- The EC loop of `replenish`. The counter bounds the number of rounds, so the fuel the loop is
started with (`2 ^ 32 - next_ec`) is never used up. -/
def replenishEc (draw : ℕ → Block B 32) (count : ℕ) :
    ℕ → ℕ → PrekeyStore B → Except PrimitiveError Unit × PrekeyStore B
  | 0, _, s => (.error .limitExceeded, s)
  | fuel + 1, k, s =>
    if s.oneTimeEc.size < count then
      match checkedInc s.nextEc with
      | .error e => (.error e, s)
      | .ok next =>
        if next < 2 then (.error .limitExceeded, { s with nextEc := next })
        else replenishEc draw count fuel (k + 1)
          { s with
            nextEc := next
            oneTimeEc := s.oneTimeEc.insert s.nextEc { id := s.nextEc, secret := draw k } }
    else (.ok (), s)

/-- The PQ loop of `replenish`. -/
def replenishPq (identity : IdentityKeyPair B) (seed nonce : ℕ → Block B 64) (count : ℕ) :
    ℕ → ℕ → PrekeyStore B → Except PrimitiveError Unit × PrekeyStore B
  | 0, _, s => (.error .limitExceeded, s)
  | fuel + 1, k, s =>
    if s.oneTimePq.size < count then
      match checkedInc s.nextPq with
      | .error e => (.error e, s)
      | .ok next =>
        if next < 2 then (.error .limitExceeded, { s with nextPq := next })
        else replenishPq identity seed nonce count fuel (k + 1)
          { s with
            nextPq := next
            oneTimePq := s.oneTimePq.insert s.nextPq
              (PqPrekey.generate P identity s.nextPq (seed k) (nonce k)) }
    else (.ok (), s)

/-- `replenish`. -/
def replenish (identity : IdentityKeyPair B) (draws : PrekeyDraws B) (ecCount pqCount : ℕ)
    (s : PrekeyStore B) : Except PrimitiveError Unit × PrekeyStore B :=
  match replenishEc draws.ec ecCount (2 ^ 32 - s.nextEc.toNat) 0 s with
  | (.error e, s) => (.error e, s)
  | (.ok (), s) =>
    replenishPq P identity draws.pq draws.nonce pqCount (2 ^ 32 - s.nextPq.toNat) 0 s

/-- `public_bundle`: any one-time EC prekey, and any one-time PQ prekey or else the last resort. -/
def publicBundle (σ : Enumeration) (identity : IdentityKeyPair B) (s : PrekeyStore B) :
    PublicPrekeyBundle B :=
  let oneTimeEc := (σ.first? s.oneTimeEc).map fun e ↦ (e.2.id, P.publicKey e.2.secret)
  let pq := ((σ.first? s.oneTimePq).map fun e ↦ (e.2, true)).getD (s.lastResortPq, false)
  { identityKey := identity.publicKey P
    signedPrekeyId := s.signed.id
    signedPrekey := P.publicKey s.signed.secret
    signedPrekeySig := s.signed.signature
    oneTimeEc
    pqPrekeyId := pq.1.id
    pqPrekeyPublic := (P.kemPublic pq.1.secret).val
    pqPrekeySig := pq.1.signature
    isPqOneTime := pq.2 }

/-- `peek_ec`. -/
def peekEc (s : PrekeyStore B) (id : UInt32) : Except PrimitiveError (OneTimeEcPrekey B) :=
  match s.oneTimeEc.lookup id with
  | some k => .ok k
  | none => .error .invalidSecretKey

/-- `peek_pq`. -/
def peekPq (s : PrekeyStore B) (id : UInt32) : Except PrimitiveError (PqPrekey B) :=
  match s.oneTimePq.lookup id with
  | some k => .ok k
  | none => .error .invalidSecretKey

/-- `consume_ec`. -/
def consumeEc (s : PrekeyStore B) (id : UInt32) : Except PrimitiveError (PrekeyStore B) := do
  let _ ← s.peekEc id
  return { s with oneTimeEc := s.oneTimeEc.erase id }

/-- `consume_pq`. -/
def consumePq (s : PrekeyStore B) (id : UInt32) : Except PrimitiveError (PrekeyStore B) := do
  let _ ← s.peekPq id
  return { s with oneTimePq := s.oneTimePq.erase id }

/-! ### Persistence -/

/-- One entry of the EC map. -/
def writeEc (e : UInt32 × OneTimeEcPrekey B) : List B := le 4 e.1.toNat ++ e.2.secret.val

/-- One entry of the PQ map. -/
def writePq (e : UInt32 × PqPrekey B) : List B :=
  le 4 e.1.toNat ++ e.2.secret.val ++ e.2.signature.val

/-- `serialize`. -/
def serialize (σ : Enumeration) (s : PrekeyStore B) : List B :=
  ascii "VCPREK01" ++ le 4 s.signed.id.toNat ++ s.signed.secret.val ++ s.signed.signature.val ++
    le 4 s.lastResortPq.id.toNat ++ s.lastResortPq.secret.val ++ s.lastResortPq.signature.val ++
    le 4 s.nextEc.toNat ++ le 4 s.nextPq.toNat ++ le 4 s.oneTimeEc.size ++
    (σ.list s.oneTimeEc).flatMap writeEc ++ le 4 s.oneTimePq.size ++
    (σ.list s.oneTimePq).flatMap writePq

/-- Reads an entry of the EC map. -/
def readEc (data : List B) :
    Except PrimitiveError ((UInt32 × OneTimeEcPrekey B) × List B) := do
  let (id, data) ← Cursor.takeLe PrimitiveError.invalidLength 4 data
  let (secret, data) ← Cursor.takeBlock PrimitiveError.invalidLength 32 data
  return ((UInt32.ofNat id, { id := UInt32.ofNat id, secret }), data)

/-- Reads an entry of the PQ map. -/
def readPq (data : List B) : Except PrimitiveError ((UInt32 × PqPrekey B) × List B) := do
  let (id, data) ← Cursor.takeLe PrimitiveError.invalidLength 4 data
  let (secret, data) ← Cursor.takeBlock PrimitiveError.invalidLength 64 data
  let (signature, data) ← Cursor.takeBlock PrimitiveError.invalidLength 64 data
  return ((UInt32.ofNat id, { id := UInt32.ofNat id, secret, signature }), data)

/-- `deserialize`. -/
def deserialize (data : List B) : Except PrimitiveError (PrekeyStore B) := do
  if data.length < 8 + 4 + 32 + 64 + 4 + 64 + 64 + 8 + 8 then throw .invalidLength
  let data ← Cursor.expect PrimitiveError.invalidLength (ascii "VCPREK01") data
  let (signedId, data) ← Cursor.takeLe PrimitiveError.invalidLength 4 data
  let (signedSec, data) ← Cursor.takeBlock PrimitiveError.invalidLength 32 data
  let (signedSig, data) ← Cursor.takeBlock PrimitiveError.invalidLength 64 data
  let (lrId, data) ← Cursor.takeLe PrimitiveError.invalidLength 4 data
  let (lrSeed, data) ← Cursor.takeBlock PrimitiveError.invalidLength 64 data
  let (lrSig, data) ← Cursor.takeBlock PrimitiveError.invalidLength 64 data
  let (nextEc, data) ← Cursor.takeLe PrimitiveError.invalidLength 4 data
  let (nextPq, data) ← Cursor.takeLe PrimitiveError.invalidLength 4 data
  let (ecN, data) ← Cursor.takeLe PrimitiveError.invalidLength 4 data
  let (ec, data) ← Cursor.takeMany readEc ecN data
  let (pqN, data) ← Cursor.takeLe PrimitiveError.invalidLength 4 data
  let (pq, data) ← Cursor.takeMany readPq pqN data
  Cursor.finish PrimitiveError.invalidLength data
    { signed := { id := UInt32.ofNat signedId, secret := signedSec, signature := signedSig }
      lastResortPq := { id := UInt32.ofNat lrId, secret := lrSeed, signature := lrSig }
      oneTimeEc := Dict.ofPairs ec, oneTimePq := Dict.ofPairs pq
      nextEc := UInt32.ofNat nextEc, nextPq := UInt32.ofNat nextPq }

/-! ### The invariant -/

/-- **The store invariant**: the long-lived prekeys have id 1, and one-time prekeys are filed under
their own id, between 2 and the counter. -/
structure Valid (s : PrekeyStore B) : Prop where
  /-- The signed prekey has id 1. -/
  signed_id : s.signed.id = 1
  /-- So has the last-resort KEM key. -/
  lastResort_id : s.lastResortPq.id = 1
  /-- The counter of one-time EC prekeys starts at 2. -/
  two_le_nextEc : 2 ≤ s.nextEc.toNat
  /-- So does that of one-time KEM keys, and none of them can be taken for the last-resort key. -/
  two_le_nextPq : 2 ≤ s.nextPq.toNat
  /-- One-time EC prekeys are filed under their own id, below the counter. -/
  ec : ∀ id k, s.oneTimeEc.lookup id = some k →
    k.id = id ∧ 2 ≤ id.toNat ∧ id.toNat < s.nextEc.toNat
  /-- So are one-time KEM keys. -/
  pq : ∀ id k, s.oneTimePq.lookup id = some k →
    k.id = id ∧ 2 ≤ id.toNat ∧ id.toNat < s.nextPq.toNat

/-- `t` comes after `s`: the counters have not moved back, the long-lived prekeys are the same, and
an id issued before `s` still names the same prekey, if any. -/
structure Extends (s t : PrekeyStore B) : Prop where
  /-- The signed prekey is the same. -/
  signed : t.signed = s.signed
  /-- The last-resort KEM key is the same. -/
  lastResort : t.lastResortPq = s.lastResortPq
  /-- The counter of one-time EC prekeys has not moved back. -/
  nextEc : s.nextEc.toNat ≤ t.nextEc.toNat
  /-- Nor has that of one-time KEM keys. -/
  nextPq : s.nextPq.toNat ≤ t.nextPq.toNat
  /-- An id that was issued before names the same one-time EC prekey, or nothing. -/
  ec : ∀ id k, id.toNat < s.nextEc.toNat → t.oneTimeEc.lookup id = some k →
    s.oneTimeEc.lookup id = some k
  /-- The same for one-time KEM keys. -/
  pq : ∀ id k, id.toNat < s.nextPq.toNat → t.oneTimePq.lookup id = some k →
    s.oneTimePq.lookup id = some k

/-- `t` extends `s` and has used up nothing: it may have issued more. -/
structure Grows (s t : PrekeyStore B) : Prop extends Extends s t where
  /-- No one-time EC prekey is lost. -/
  ec_kept : ∀ id k, s.oneTimeEc.lookup id = some k → t.oneTimeEc.lookup id = some k
  /-- And no one-time KEM key. -/
  pq_kept : ∀ id k, s.oneTimePq.lookup id = some k → t.oneTimePq.lookup id = some k

variable {P}

omit [Alphabet B] in
theorem Extends.refl (s : PrekeyStore B) : Extends s s :=
  ⟨rfl, rfl, le_refl _, le_refl _, fun _ _ _ h ↦ h, fun _ _ _ h ↦ h⟩

omit [Alphabet B] in
/-- Coming after is transitive: an id that was issued before the first store was issued before the
second. -/
theorem Extends.trans {s t u : PrekeyStore B} (h : Extends s t) (h' : Extends t u) :
    Extends s u where
  signed := h'.signed.trans h.signed
  lastResort := h'.lastResort.trans h.lastResort
  nextEc := h.nextEc.trans h'.nextEc
  nextPq := h.nextPq.trans h'.nextPq
  ec id k hid hk := h.ec id k hid (h'.ec id k (hid.trans_le h.nextEc) hk)
  pq id k hid hk := h.pq id k hid (h'.pq id k (hid.trans_le h.nextPq) hk)

omit [Alphabet B] in
theorem Grows.refl (s : PrekeyStore B) : Grows s s :=
  ⟨Extends.refl s, fun _ _ h ↦ h, fun _ _ h ↦ h⟩

omit [Alphabet B] in
theorem Grows.trans {s t u : PrekeyStore B} (h : Grows s t) (h' : Grows t u) : Grows s u :=
  ⟨h.toExtends.trans h'.toExtends, fun id k hk ↦ h'.ec_kept id k (h.ec_kept id k hk),
    fun id k hk ↦ h'.pq_kept id k (h.pq_kept id k hk)⟩

theorem new_valid (P : Primitives B) (identity : IdentityKeyPair B) (spk : Block B 32)
    (n₁ lr n₂ : Block B 64) : (new P identity spk n₁ lr n₂).Valid where
  signed_id := rfl
  lastResort_id := rfl
  two_le_nextEc := le_refl 2
  two_le_nextPq := le_refl 2
  ec _ _ h := by
    rw [new, Finmap.lookup_empty] at h
    cases h
  pq _ _ h := by
    rw [new, Finmap.lookup_empty] at h
    cases h

omit [Alphabet B] in
/-- One round of the EC loop: a prekey under the next id. -/
theorem issueEc {s : PrekeyStore B} (hs : s.Valid) {next : UInt32}
    (hnext : next.toNat = s.nextEc.toNat + 1) (secret : Block B 32) :
    ({ s with nextEc := next, oneTimeEc := s.oneTimeEc.insert s.nextEc { id := s.nextEc, secret } } :
      PrekeyStore B).Valid ∧
    Grows s { s with
      nextEc := next, oneTimeEc := s.oneTimeEc.insert s.nextEc { id := s.nextEc, secret } } := by
  have hne : ∀ {id : UInt32}, id.toNat < s.nextEc.toNat → id ≠ s.nextEc := by
    rintro id hlt rfl
    exact lt_irrefl _ hlt
  have htwo := hs.two_le_nextEc
  refine ⟨⟨hs.signed_id, hs.lastResort_id, by dsimp only; omega, hs.two_le_nextPq, ?_, hs.pq⟩,
    ⟨⟨rfl, rfl, by dsimp only; omega, le_refl _, ?_, fun _ _ _ h ↦ h⟩, ?_, fun _ _ h ↦ h⟩⟩
  · intro id k hk
    dsimp only at hk ⊢
    by_cases hid : id = s.nextEc
    · subst hid
      rw [Finmap.lookup_insert] at hk
      cases hk
      exact ⟨rfl, by omega, by omega⟩
    · rw [Finmap.lookup_insert_of_ne _ hid] at hk
      obtain ⟨h1, h2, h3⟩ := hs.ec id k hk
      exact ⟨h1, h2, by omega⟩
  · intro id k hid hk
    rwa [Finmap.lookup_insert_of_ne _ (hne hid)] at hk
  · intro id k hk
    rwa [Finmap.lookup_insert_of_ne _ (hne (hs.ec id k hk).2.2)]

omit [Alphabet B] in
/-- One round of the PQ loop. -/
theorem issuePq {s : PrekeyStore B} (hs : s.Valid) {next : UInt32}
    (hnext : next.toNat = s.nextPq.toNat + 1) (key : PqPrekey B) (hkey : key.id = s.nextPq) :
    ({ s with nextPq := next, oneTimePq := s.oneTimePq.insert s.nextPq key } :
      PrekeyStore B).Valid ∧
    Grows s { s with nextPq := next, oneTimePq := s.oneTimePq.insert s.nextPq key } := by
  have hne : ∀ {id : UInt32}, id.toNat < s.nextPq.toNat → id ≠ s.nextPq := by
    rintro id hlt rfl
    exact lt_irrefl _ hlt
  have htwo := hs.two_le_nextPq
  refine ⟨⟨hs.signed_id, hs.lastResort_id, hs.two_le_nextEc, by dsimp only; omega, hs.ec, ?_⟩,
    ⟨⟨rfl, rfl, le_refl _, by dsimp only; omega, fun _ _ _ h ↦ h, ?_⟩, fun _ _ h ↦ h, ?_⟩⟩
  · intro id k hk
    dsimp only at hk ⊢
    by_cases hid : id = s.nextPq
    · subst hid
      rw [Finmap.lookup_insert] at hk
      cases hk
      exact ⟨hkey, by omega, by omega⟩
    · rw [Finmap.lookup_insert_of_ne _ hid] at hk
      obtain ⟨h1, h2, h3⟩ := hs.pq id k hk
      exact ⟨h1, h2, by omega⟩
  · intro id k hid hk
    rwa [Finmap.lookup_insert_of_ne _ (hne hid)] at hk
  · intro id k hk
    rwa [Finmap.lookup_insert_of_ne _ (hne (hs.pq id k hk).2.2)]

omit [Alphabet B] in
/-- The EC loop keeps the invariant and uses nothing up, whether it finishes or not. -/
theorem replenishEc_grows (draw : ℕ → Block B 32) (count : ℕ) :
    ∀ (fuel k : ℕ) {s : PrekeyStore B}, s.Valid →
      (replenishEc draw count fuel k s).2.Valid ∧ Grows s (replenishEc draw count fuel k s).2
  | 0, _, s, hs => ⟨hs, Grows.refl s⟩
  | fuel + 1, k, s, hs => by
    unfold replenishEc
    split
    · cases hinc : checkedInc s.nextEc with
      | error e => exact ⟨hs, Grows.refl s⟩
      | ok next =>
        have hnext := checkedInc_eq_ok hinc
        have htwo := hs.two_le_nextEc
        have hge : ¬ next < 2 := by
          rw [UInt32.lt_iff_toNat_lt]
          show ¬ next.toNat < 2
          omega
        dsimp only
        rw [if_neg hge]
        obtain ⟨hv, hg⟩ := issueEc hs hnext (draw k)
        obtain ⟨hv', hg'⟩ := replenishEc_grows draw count fuel (k + 1) hv
        exact ⟨hv', hg.trans hg'⟩
    · exact ⟨hs, Grows.refl s⟩

/-- The PQ loop, likewise. -/
theorem replenishPq_grows (P : Primitives B) (identity : IdentityKeyPair B)
    (seed nonce : ℕ → Block B 64) (count : ℕ) :
    ∀ (fuel k : ℕ) {s : PrekeyStore B}, s.Valid →
      (replenishPq P identity seed nonce count fuel k s).2.Valid ∧
        Grows s (replenishPq P identity seed nonce count fuel k s).2
  | 0, _, s, hs => ⟨hs, Grows.refl s⟩
  | fuel + 1, k, s, hs => by
    unfold replenishPq
    split
    · cases hinc : checkedInc s.nextPq with
      | error e => exact ⟨hs, Grows.refl s⟩
      | ok next =>
        have hnext := checkedInc_eq_ok hinc
        have htwo := hs.two_le_nextPq
        have hge : ¬ next < 2 := by
          rw [UInt32.lt_iff_toNat_lt]
          show ¬ next.toNat < 2
          omega
        dsimp only
        rw [if_neg hge]
        obtain ⟨hv, hg⟩ := issuePq hs hnext
          (PqPrekey.generate P identity s.nextPq (seed k) (nonce k)) rfl
        obtain ⟨hv', hg'⟩ := replenishPq_grows P identity seed nonce count fuel (k + 1) hv
        exact ⟨hv', hg.trans hg'⟩
    · exact ⟨hs, Grows.refl s⟩

/-- **Replenishing** keeps the invariant and uses nothing up, also when it fails midway. -/
theorem replenish_grows (P : Primitives B) (identity : IdentityKeyPair B) (draws : PrekeyDraws B)
    (ecCount pqCount : ℕ) {s : PrekeyStore B} (hs : s.Valid) :
    (replenish P identity draws ecCount pqCount s).2.Valid ∧
      Grows s (replenish P identity draws ecCount pqCount s).2 := by
  unfold replenish
  have hec := replenishEc_grows draws.ec ecCount (2 ^ 32 - s.nextEc.toNat) 0 hs
  split
  · rw [‹replenishEc _ _ _ _ _ = _›] at hec
    exact hec
  · rw [‹replenishEc _ _ _ _ _ = _›] at hec
    obtain ⟨hv, hg⟩ := hec
    obtain ⟨hv', hg'⟩ := replenishPq_grows P identity draws.pq draws.nonce pqCount
      (2 ^ 32 - _) 0 hv
    exact ⟨hv', hg.trans hg'⟩

/-! ### Signatures -/

/-- **A certified store**: a valid one whose prekeys carry signatures of the identity key. -/
structure Certified (P : Primitives B) (identity : IdentityKeyPair B) (s : PrekeyStore B) : Prop
    extends Valid s where
  /-- The identity key has signed the signed prekey. -/
  signed_sig : ∃ nonce, s.signed.signature =
    identity.sign P nonce (encodeEc (P.publicKey s.signed.secret))
  /-- It has signed the last-resort KEM key. -/
  lastResort_sig : ∃ nonce, s.lastResortPq.signature =
    identity.sign P nonce (encodeKem (P.kemPublic s.lastResortPq.secret))
  /-- And every one-time KEM key. -/
  pq_sig : ∀ id k, s.oneTimePq.lookup id = some k →
    ∃ nonce, k.signature = identity.sign P nonce (encodeKem (P.kemPublic k.secret))

theorem new_certified (P : Primitives B) (identity : IdentityKeyPair B) (spk : Block B 32)
    (spkNonce lastResort lrNonce : Block B 64) :
    (new P identity spk spkNonce lastResort lrNonce).Certified P identity where
  toValid := new_valid P identity spk spkNonce lastResort lrNonce
  signed_sig := ⟨spkNonce, rfl⟩
  lastResort_sig := ⟨lrNonce, rfl⟩
  pq_sig _ _ h := by
    rw [new, Finmap.lookup_empty] at h
    cases h

/-- A store that has the same long-lived prekeys, and no PQ prekey that was not there before. -/
theorem Certified.of_sub {P : Primitives B} {identity : IdentityKeyPair B} {s t : PrekeyStore B}
    (hs : s.Certified P identity) (ht : t.Valid) (hsigned : t.signed = s.signed)
    (hlast : t.lastResortPq = s.lastResortPq)
    (hpq : ∀ id k, t.oneTimePq.lookup id = some k → s.oneTimePq.lookup id = some k) :
    t.Certified P identity where
  toValid := ht
  signed_sig := hsigned ▸ hs.signed_sig
  lastResort_sig := hlast ▸ hs.lastResort_sig
  pq_sig id k hk := hs.pq_sig id k (hpq id k hk)

omit [Alphabet B] in
/-- The EC loop does not look at the PQ prekeys. -/
theorem replenishEc_oneTimePq (draw : ℕ → Block B 32) (count : ℕ) :
    ∀ (fuel k : ℕ) (s : PrekeyStore B),
      (replenishEc draw count fuel k s).2.oneTimePq = s.oneTimePq
  | 0, _, _ => rfl
  | fuel + 1, k, s => by
    unfold replenishEc
    split
    · split
      · rfl
      · split
        · rfl
        · exact replenishEc_oneTimePq draw count fuel (k + 1) _
    · rfl

/-- The PQ loop signs what it issues. -/
theorem replenishPq_sig (P : Primitives B) (identity : IdentityKeyPair B)
    (seed nonce : ℕ → Block B 64) (count : ℕ) :
    ∀ (fuel k : ℕ) (s : PrekeyStore B),
      (∀ id key, s.oneTimePq.lookup id = some key →
        ∃ nonce, key.signature = identity.sign P nonce (encodeKem (P.kemPublic key.secret))) →
      ∀ id key, (replenishPq P identity seed nonce count fuel k s).2.oneTimePq.lookup id = some key →
        ∃ nonce, key.signature = identity.sign P nonce (encodeKem (P.kemPublic key.secret))
  | 0, _, _, hs => hs
  | fuel + 1, k, s, hs => by
    unfold replenishPq
    split
    · split
      · exact hs
      · split
        · exact hs
        · refine replenishPq_sig P identity seed nonce count fuel (k + 1) _ fun id key hkey ↦ ?_
          dsimp only at hkey
          by_cases hid : id = s.nextPq
          · subst hid
            rw [Finmap.lookup_insert] at hkey
            cases hkey
            exact ⟨nonce k, rfl⟩
          · rw [Finmap.lookup_insert_of_ne _ hid] at hkey
            exact hs id key hkey
    · exact hs

/-- Replenishing keeps a store certified. -/
theorem replenish_certified (P : Primitives B) (identity : IdentityKeyPair B)
    (draws : PrekeyDraws B) (ecCount pqCount : ℕ) {s : PrekeyStore B}
    (hs : s.Certified P identity) :
    (replenish P identity draws ecCount pqCount s).2.Certified P identity := by
  obtain ⟨hvalid, hgrows⟩ := replenish_grows P identity draws ecCount pqCount hs.toValid
  refine ⟨hvalid, hgrows.signed ▸ hs.signed_sig, hgrows.lastResort ▸ hs.lastResort_sig, ?_⟩
  have hec := replenishEc_oneTimePq draws.ec ecCount (2 ^ 32 - s.nextEc.toNat) 0 s
  unfold replenish
  split
  · rw [‹replenishEc _ _ _ _ _ = _›] at hec
    dsimp only at hec ⊢
    rw [hec]
    exact hs.pq_sig
  · rw [‹replenishEc _ _ _ _ _ = _›] at hec
    apply replenishPq_sig
    dsimp only at hec
    rw [hec]
    exact hs.pq_sig

/-! ### Running out of ids -/

/-- One-time EC prekeys still to be issued. -/
def missingEc (count : ℕ) (s : PrekeyStore B) : ℕ := count - s.oneTimeEc.size
/-- One-time PQ prekeys still to be issued. -/
def missingPq (count : ℕ) (s : PrekeyStore B) : ℕ := count - s.oneTimePq.size
/-- EC ids left. The last value of `u32` is never issued. -/
def freeEc (s : PrekeyStore B) : ℕ := 2 ^ 32 - 1 - s.nextEc.toNat
/-- PQ ids left. -/
def freePq (s : PrekeyStore B) : ℕ := 2 ^ 32 - 1 - s.nextPq.toNat

omit [Alphabet B] in
/-- **What the EC loop does**: it issues what is missing, or runs out of ids. -/
theorem replenishEc_spec (draw : ℕ → Block B 32) (count : ℕ) :
    ∀ (fuel k : ℕ) {s : PrekeyStore B}, s.Valid → s.freeEc < fuel →
      (s.missingEc count ≤ s.freeEc → ∃ s', replenishEc draw count fuel k s = (.ok (), s') ∧
        s'.Valid ∧ s'.nextPq = s.nextPq ∧ s'.oneTimePq = s.oneTimePq ∧
        s'.nextEc.toNat = s.nextEc.toNat + s.missingEc count ∧ (s.missingEc count = 0 → s' = s)) ∧
      (s.freeEc < s.missingEc count → ∃ err s', replenishEc draw count fuel k s = (.error err, s') ∧
        s'.nextEc.toNat = 2 ^ 32 - 1 ∧ (s.freeEc = 0 → s' = s))
  | 0, _, s, _, hfuel => absurd hfuel (Nat.not_lt_zero _)
  | fuel + 1, k, s, hs, hfuel => by
    have hmax := s.nextEc.toNat_lt
    have htwo := hs.two_le_nextEc
    unfold replenishEc
    by_cases hsize : s.oneTimeEc.size < count
    · rw [if_pos hsize]
      by_cases hfree : s.nextEc.toNat + 1 < 2 ^ 32
      · have hnext := checkedInc_eq_ok (checkedInc_of_lt hfree)
        have hge : ¬ s.nextEc + 1 < 2 := by
          rw [UInt32.lt_iff_toNat_lt]
          show ¬ (s.nextEc + 1).toNat < 2
          omega
        rw [checkedInc_of_lt hfree]
        dsimp only
        rw [if_neg hge]
        have hnone : s.oneTimeEc.lookup s.nextEc = none := by
          cases hlookup : s.oneTimeEc.lookup s.nextEc with
          | none => rfl
          | some e =>
            have hlt := (hs.ec _ e hlookup).2.2
            omega
        obtain ⟨hv, -⟩ := issueEc hs hnext (draw k)
        -- one id fewer is free, and one prekey fewer is missing
        have hsize' := Dict.size_insert hnone (⟨s.nextEc, draw k⟩ : OneTimeEcPrekey B)
        have ih := replenishEc_spec draw count fuel (k + 1) hv (by
          simp only [freeEc, hnext] at hfuel ⊢
          omega)
        simp only [missingEc, freeEc, hnext, hsize'] at ih hfuel ⊢
        obtain ⟨ihok, iherr⟩ := ih
        refine ⟨fun hle ↦ ?_, fun hlt ↦ ?_⟩
        · have hle' : count - (s.oneTimeEc.size + 1) ≤ 2 ^ 32 - 1 - (s.nextEc.toNat + 1) := by
            clear ihok iherr
            omega
          obtain ⟨s', heq, hv', hpq, hpq', hec, -⟩ := ihok hle'
          clear ihok iherr
          exact ⟨s', heq, hv', hpq, hpq', by omega, fun hzero ↦ by omega⟩
        · have hlt' : 2 ^ 32 - 1 - (s.nextEc.toNat + 1) < count - (s.oneTimeEc.size + 1) := by
            clear ihok iherr
            omega
          obtain ⟨err, s', heq, hec, -⟩ := iherr hlt'
          clear ihok iherr
          exact ⟨err, s', heq, hec, fun hzero ↦ by omega⟩
      · have hinc : checkedInc s.nextEc = .error .limitExceeded := if_neg hfree
        rw [hinc]
        simp only [missingEc, freeEc]
        refine ⟨fun hle ↦ by omega, fun _ ↦ ⟨_, s, rfl, by omega, fun _ ↦ rfl⟩⟩
    · rw [if_neg hsize]
      have hzero : s.missingEc count = 0 := by
        unfold missingEc
        omega
      rw [hzero]
      exact ⟨fun _ ↦ ⟨s, rfl, hs, rfl, rfl, rfl, fun _ ↦ rfl⟩,
        fun hlt ↦ absurd hlt (Nat.not_lt_zero _)⟩

/-- **What the PQ loop does**, likewise. -/
theorem replenishPq_spec (P : Primitives B) (identity : IdentityKeyPair B)
    (seed nonce : ℕ → Block B 64) (count : ℕ) :
    ∀ (fuel k : ℕ) {s : PrekeyStore B}, s.Valid → s.freePq < fuel →
      (s.missingPq count ≤ s.freePq →
        ∃ s', replenishPq P identity seed nonce count fuel k s = (.ok (), s')) ∧
      (s.freePq < s.missingPq count →
        ∃ err s', replenishPq P identity seed nonce count fuel k s = (.error err, s') ∧
          s'.nextEc = s.nextEc ∧ s'.nextPq.toNat = 2 ^ 32 - 1 ∧ (s.freePq = 0 → s' = s))
  | 0, _, s, _, hfuel => absurd hfuel (Nat.not_lt_zero _)
  | fuel + 1, k, s, hs, hfuel => by
    have hmax := s.nextPq.toNat_lt
    have htwo := hs.two_le_nextPq
    unfold replenishPq
    by_cases hsize : s.oneTimePq.size < count
    · rw [if_pos hsize]
      by_cases hfree : s.nextPq.toNat + 1 < 2 ^ 32
      · have hnext := checkedInc_eq_ok (checkedInc_of_lt hfree)
        have hge : ¬ s.nextPq + 1 < 2 := by
          rw [UInt32.lt_iff_toNat_lt]
          show ¬ (s.nextPq + 1).toNat < 2
          omega
        rw [checkedInc_of_lt hfree]
        dsimp only
        rw [if_neg hge]
        have hnone : s.oneTimePq.lookup s.nextPq = none := by
          cases hlookup : s.oneTimePq.lookup s.nextPq with
          | none => rfl
          | some e =>
            have hlt := (hs.pq _ e hlookup).2.2
            omega
        obtain ⟨hv, -⟩ := issuePq hs hnext
          (PqPrekey.generate P identity s.nextPq (seed k) (nonce k)) rfl
        have hsize' := Dict.size_insert hnone
          (PqPrekey.generate P identity s.nextPq (seed k) (nonce k))
        have ih := replenishPq_spec P identity seed nonce count fuel (k + 1) hv (by
          simp only [freePq, hnext] at hfuel ⊢
          omega)
        simp only [missingPq, freePq, hnext, hsize'] at ih hfuel ⊢
        obtain ⟨ihok, iherr⟩ := ih
        refine ⟨fun hle ↦ ihok ?_, fun hlt ↦ ?_⟩
        · clear ihok iherr
          omega
        · have hlt' : 2 ^ 32 - 1 - (s.nextPq.toNat + 1) < count - (s.oneTimePq.size + 1) := by
            clear ihok iherr
            omega
          obtain ⟨err, s', heq, hec, hpq, -⟩ := iherr hlt'
          clear ihok iherr
          exact ⟨err, s', heq, hec, hpq, fun hzero ↦ by omega⟩
      · have hinc : checkedInc s.nextPq = .error .limitExceeded := if_neg hfree
        rw [hinc]
        simp only [missingPq, freePq]
        refine ⟨fun hle ↦ by omega, fun _ ↦ ⟨_, s, rfl, rfl, by omega, fun _ ↦ rfl⟩⟩
    · rw [if_neg hsize]
      have hzero : s.missingPq count = 0 := by
        unfold missingPq
        omega
      rw [hzero]
      exact ⟨fun _ ↦ ⟨s, rfl⟩, fun hlt ↦ absurd hlt (Nat.not_lt_zero _)⟩

/-- There are enough ids for what is missing, or none is issued before they run out. -/
def Room (count : ℕ) (s : PrekeyStore B) : Prop :=
  (s.missingEc count ≤ s.freeEc ∧ s.missingPq count ≤ s.freePq) ∨
    (0 < s.missingEc count ∧ s.freeEc = 0) ∨ (s.missingEc count = 0 ∧ s.freePq = 0)

/-- **When replenishing fails halfway**: exactly if it runs out of ids after it has issued
something, which is then in the store although the call reports an error. -/
theorem replenish_changed_iff (P : Primitives B) (identity : IdentityKeyPair B)
    (draws : PrekeyDraws B) (count : ℕ) {s : PrekeyStore B} (hs : s.Valid) :
    (∀ err s', replenish P identity draws count count s = (.error err, s') → s' = s) ↔
      s.Room count := by
  have hmaxEc := s.nextEc.toNat_lt
  have hmaxPq := s.nextPq.toNat_lt
  have hec := replenishEc_spec draws.ec count (2 ^ 32 - s.nextEc.toNat) 0 hs (by
    unfold freeEc
    omega)
  unfold replenish Room
  by_cases hroomEc : s.missingEc count ≤ s.freeEc
  · obtain ⟨s₁, heq₁, hv, hnextPq, hpq, hnextEc, hsame⟩ := hec.1 hroomEc
    rw [heq₁]
    dsimp only
    have hfree : s₁.freePq = s.freePq := by rw [freePq, freePq, hnextPq]
    have hmissing : s₁.missingPq count = s.missingPq count := by rw [missingPq, missingPq, hpq]
    have hloop := replenishPq_spec P identity draws.pq draws.nonce count
      (2 ^ 32 - s₁.nextPq.toNat) 0 hv (by rw [freePq, hnextPq]; omega)
    rw [hfree, hmissing] at hloop
    by_cases hroomPq : s.missingPq count ≤ s.freePq
    · obtain ⟨s₂, heq₂⟩ := hloop.1 hroomPq
      rw [heq₂]
      exact ⟨fun _ ↦ .inl ⟨hroomEc, hroomPq⟩, fun _ err s' h ↦ by cases h⟩
    · obtain ⟨err, s₂, heq₂, hnextEc₂, hnextPq₂, hsame₂⟩ := hloop.2 (by omega)
      rw [heq₂]
      refine ⟨fun h ↦ ?_, fun h err' s' heq ↦ ?_⟩
      · obtain rfl := h err s₂ rfl
        rw [← hnextEc₂] at hnextEc
        refine .inr (.inr ⟨by omega, ?_⟩)
        unfold freePq
        omega
      · cases heq
        rcases h with h | ⟨hpos, hzero⟩ | ⟨hzero, hfreePq⟩
        · omega
        · omega
        · rw [hsame₂ hfreePq, hsame hzero]
  · obtain ⟨err, s₁, heq₁, hnextEc, hsame⟩ := hec.2 (by omega)
    rw [heq₁]
    refine ⟨fun h ↦ ?_, fun h err' s' heq ↦ ?_⟩
    · obtain rfl := h err s₁ rfl
      refine .inr (.inl ⟨by omega, ?_⟩)
      unfold freeEc
      omega
    · cases heq
      apply hsame
      omega

omit [Alphabet B] in
theorem peekEc_eq_ok {s : PrekeyStore B} {id : UInt32} {k : OneTimeEcPrekey B} :
    s.peekEc id = .ok k ↔ s.oneTimeEc.lookup id = some k := by
  unfold peekEc
  split <;> simp_all

omit [Alphabet B] in
theorem peekPq_eq_ok {s : PrekeyStore B} {id : UInt32} {k : PqPrekey B} :
    s.peekPq id = .ok k ↔ s.oneTimePq.lookup id = some k := by
  unfold peekPq
  split <;> simp_all

omit [Alphabet B] in
/-- A map that has lost an entry has no new ones. -/
theorem lookup_of_lookup_erase {K V : Type} [DecidableEq K] {m : Dict K V} {a k : K} {v : V}
    (h : (m.erase a).lookup k = some v) : k ≠ a ∧ m.lookup k = some v := by
  have hka : k ≠ a := by
    rintro rfl
    rw [Finmap.lookup_erase] at h
    cases h
  rw [Finmap.lookup_erase_ne hka] at h
  exact ⟨hka, h⟩

omit [Alphabet B] in
/-- Using up an EC prekey. -/
theorem eraseEc {s : PrekeyStore B} (hs : s.Valid) (id : UInt32) :
    ({ s with oneTimeEc := s.oneTimeEc.erase id } : PrekeyStore B).Valid ∧
      Extends s { s with oneTimeEc := s.oneTimeEc.erase id } :=
  ⟨⟨hs.signed_id, hs.lastResort_id, hs.two_le_nextEc, hs.two_le_nextPq,
    fun i k h ↦ hs.ec i k (lookup_of_lookup_erase h).2, hs.pq⟩,
    ⟨rfl, rfl, le_refl _, le_refl _, fun _ _ _ h ↦ (lookup_of_lookup_erase h).2,
      fun _ _ _ h ↦ h⟩⟩

omit [Alphabet B] in
/-- Using up a PQ prekey. -/
theorem erasePq {s : PrekeyStore B} (hs : s.Valid) (id : UInt32) :
    ({ s with oneTimePq := s.oneTimePq.erase id } : PrekeyStore B).Valid ∧
      Extends s { s with oneTimePq := s.oneTimePq.erase id } :=
  ⟨⟨hs.signed_id, hs.lastResort_id, hs.two_le_nextEc, hs.two_le_nextPq, hs.ec,
    fun i k h ↦ hs.pq i k (lookup_of_lookup_erase h).2⟩,
    ⟨rfl, rfl, le_refl _, le_refl _, fun _ _ _ h ↦ h,
      fun _ _ _ h ↦ (lookup_of_lookup_erase h).2⟩⟩

/-! ### Round trip -/

/-- A one-time EC prekey that is filed under its own id is read back. -/
theorem readEc_reads {e : UInt32 × OneTimeEcPrekey B} (h : e.2.id = e.1) :
    Cursor.Reads readEc (writeEc e) e := by
  intro rest
  simp only [readEc, writeEc, List.append_assoc, Cursor.takeLe_append, Cursor.takeBlock_append, bind,
    Except.bind, pure, Except.pure, ofNat_toNat_mod]
  obtain ⟨id, id', secret⟩ := e
  cases h
  rfl

theorem readPq_reads {e : UInt32 × PqPrekey B} (h : e.2.id = e.1) :
    Cursor.Reads readPq (writePq e) e := by
  intro rest
  simp only [readPq, writePq, List.append_assoc, Cursor.takeLe_append, Cursor.takeBlock_append, bind,
    Except.bind, pure, Except.pure, ofNat_toNat_mod]
  obtain ⟨id, id', secret, signature⟩ := e
  cases h
  rfl

/-- **The store survives persistence**, whatever order its maps are written in. -/
theorem deserialize_serialize {s : PrekeyStore B} (hs : s.Valid) (σ : Enumeration) :
    deserialize (serialize σ s) = .ok s := by
  have hinj : Function.Injective UInt32.toNat := fun _ _ h ↦ UInt32.toNat_inj.1 h
  have hecSize : s.oneTimeEc.size % 256 ^ 4 = s.oneTimeEc.size := by
    have := s.oneTimeEc.size_le_of_lt _ hinj fun id k h ↦ (hs.ec id k h).2.2
    have := s.nextEc.toNat_lt
    exact Nat.mod_eq_of_lt (by omega)
  have hpqSize : s.oneTimePq.size % 256 ^ 4 = s.oneTimePq.size := by
    have := s.oneTimePq.size_le_of_lt _ hinj fun id k h ↦ (hs.pq id k h).2.2
    have := s.nextPq.toNat_lt
    exact Nat.mod_eq_of_lt (by omega)
  have hec := Cursor.takeMany_append (σ.length_list s.oneTimeEc) fun e he ↦
    readEc_reads (hs.ec e.1 e.2 (σ.mem_list_iff.1 he)).1
  have hpq := Cursor.takeMany_append (σ.length_list s.oneTimePq) fun e he ↦
    readPq_reads (hs.pq e.1 e.2 (σ.mem_list_iff.1 he)).1
  have hpqLast := hpq []
  rw [List.append_nil] at hpqLast
  have hlen : ¬ (serialize σ s).length < 8 + 4 + 32 + 64 + 4 + 64 + 64 + 8 + 8 := by
    have hmagic : (ascii "VCPREK01" : List B).length = 8 := rfl
    simp only [serialize, List.length_append, length_le, Block.length_val, hmagic]
    omega
  unfold deserialize
  rw [if_neg hlen]
  simp only [serialize, List.append_assoc, Cursor.expect_append, Cursor.takeLe_append,
    Cursor.takeBlock_append, hecSize, hpqSize, hec, hpqLast, bind, Except.bind, ofNat_toNat_mod,
    Enumeration.ofPairs_list, Cursor.finish_nil]

end PrekeyStore

end VoiceChatCrypto
