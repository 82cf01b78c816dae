import VoiceChatCrypto.Engine.Prekeys

/-!
# PQXDH

The two sides of the handshake, from `src/pqxdh/mod.rs`: Alice against a published bundle, Bob with
the private halves of the prekeys she named. Both hash the same concatenation of three or four
Diffie–Hellman values and the KEM secret, and both bind the two identities and the KEM key into the
associated data.
-/

open Alphabet

namespace VoiceChatCrypto

variable {B : Type} [Alphabet B]

/-- `PqxdhSharedSecret`. -/
structure PqxdhSharedSecret (B : Type) where
  /-- The secret that the ratchet starts from. -/
  sk : Block B 32
  /-- Both identity keys and the KEM key, which every message binds. -/
  ad : List B
  deriving DecidableEq

/-- `AliceInitiation`. -/
structure AliceInitiation (B : Type) where
  /-- The public half of the ephemeral key. -/
  ephemeralPublic : Block B 32
  /-- What the handshake yields. -/
  shared : PqxdhSharedSecret B
  /-- The ciphertext for the KEM key of the bundle. -/
  kemCiphertext : List B
  /-- The one-time prekey of the bundle, if there was one. -/
  usedEcOpkId : Option UInt32
  /-- The KEM key of the bundle. -/
  usedPqPrekeyId : UInt32
  deriving DecidableEq

variable (P : Primitives B)

/-- The associated data both sides bind: the two identities and the KEM key. -/
def pqxdhAd (aliceIk bobIk : Block B 32) (pq : Block B 1184) : List B :=
  encodeEc aliceIk ++ encodeEc bobIk ++ encodeKem pq

/-- `alice_initiate`, with the ephemeral secret and the KEM coins it draws. -/
def aliceInitiate (eka coins : Block B 32) (aliceIk : IdentityKeyPair B)
    (bundle : PublicPrekeyBundle B) : Except PrimitiveError (AliceInitiation B) := do
  bundle.validate P
  let pq ← kemPublicFromBytes P bundle.pqPrekeyPublic
  let (ss, kemCt) ← kemEncapsulate P pq coins
  let dh1 := P.diffieHellman aliceIk.secret bundle.signedPrekey
  let dh2 := P.diffieHellman eka bundle.identityKey
  let dh3 := P.diffieHellman eka bundle.signedPrekey
  let dh4 := match bundle.oneTimeEc with
    | some (_, opk) => (P.diffieHellman eka opk).val
    | none => []
  let sk := pqxdhKdf P (dh1.val ++ dh2.val ++ dh3.val ++ dh4 ++ ss.val)
  return {
    ephemeralPublic := P.publicKey eka
    shared := { sk, ad := pqxdhAd (aliceIk.publicKey P) bundle.identityKey pq }
    kemCiphertext := kemCt.val
    usedEcOpkId := bundle.oneTimeEc.map fun e ↦ e.1
    usedPqPrekeyId := bundle.pqPrekeyId }

/-- The fourth Diffie–Hellman term on Bob's side, when the packet names a one-time prekey. -/
def bobOneTimeTerm (aliceEk : Block B 32) (oneTimeEc : Option (OneTimeEcPrekey B))
    (usedEcOpkId : Option UInt32) : Except PrimitiveError (List B) :=
  match usedEcOpkId with
  | none => .ok []
  | some id =>
    match oneTimeEc with
    | none => .error .invalidSecretKey
    | some opk =>
      if opk.id ≠ id then .error .invalidSecretKey
      else .ok (P.diffieHellman opk.secret aliceEk).val

/-- `bob_process`, with the fields of `BobPrivateMaterial` as arguments. -/
def bobProcess (identity : IdentityKeyPair B) (signedPrekey : SignedPrekey B)
    (oneTimeEc : Option (OneTimeEcPrekey B)) (pqSecret : Block B 64) (pqPublic : Block B 1184)
    (aliceIk aliceEk : Block B 32) (kemCt : List B) (usedEcOpkId : Option UInt32) :
    Except PrimitiveError (PqxdhSharedSecret B) := do
  let ct ← kemCiphertextFromBytes kemCt
  let ss := P.kemDecapsulate pqSecret ct
  let dh1 := P.diffieHellman signedPrekey.secret aliceIk
  let dh2 := P.diffieHellman identity.secret aliceEk
  let dh3 := P.diffieHellman signedPrekey.secret aliceEk
  let dh4 ← bobOneTimeTerm P aliceEk oneTimeEc usedEcOpkId
  let sk := pqxdhKdf P (dh1.val ++ dh2.val ++ dh3.val ++ dh4 ++ ss.val)
  return { sk, ad := pqxdhAd aliceIk (identity.publicKey P) pqPublic }

end VoiceChatCrypto
