import VoiceChatCrypto.Primitives.Basic

/-!
# Identity trust

The identity tracker of a session and the trust store of a device, from `src/fingerprint/mod.rs`. A
remote identity is recorded when it is first seen and becomes trusted only by an explicit
acknowledgement. The store is written record by record in the iteration order of a hash map; the
length of a device id is truncated to 16 bits, and an empty device id is read back as none.
-/

open Alphabet

namespace VoiceChatCrypto

variable {B : Type} [Alphabet B]

/-- `IdentityMaterial`. -/
structure IdentityMaterial (B : Type) where
  /-- The identity key. -/
  identityKey : Block B 32
  /-- The device, if it is to be part of the identity. -/
  deviceId : Option (List B)
  deriving DecidableEq

/-- `IdentityChangeReason`. -/
inductive IdentityChangeReason
  | identityKeyChanged
  | deviceIdChanged
  | both
  deriving DecidableEq

/-- `IdentityState`. -/
inductive IdentityState (B : Type)
  | unknown
  | verified
  | identityChanged (previous current : IdentityMaterial B) (reason : IdentityChangeReason)
  deriving DecidableEq

/-- `IdentityTracker`: the last acknowledged identity. -/
structure IdentityTracker (B : Type) where
  /-- The identity that was acknowledged last. -/
  acknowledged : Option (IdentityMaterial B)
  deriving DecidableEq

namespace IdentityTracker

/-- `new`. -/
def new : IdentityTracker B := { acknowledged := none }

/-- `observe`. -/
def observe (t : IdentityTracker B) (current : IdentityMaterial B) : IdentityState B :=
  match t.acknowledged with
  | none => .unknown
  | some prev =>
    match decide (prev.identityKey ≠ current.identityKey), decide (prev.deviceId ≠ current.deviceId)
      with
    | false, false => .verified
    | true, true => .identityChanged prev current .both
    | true, false => .identityChanged prev current .identityKeyChanged
    | false, true => .identityChanged prev current .deviceIdChanged

/-- `acknowledge`. -/
def acknowledge (_ : IdentityTracker B) (current : IdentityMaterial B) : IdentityTracker B :=
  { acknowledged := some current }

end IdentityTracker

/-- `IdentityState::IdentityChanged { .. }`. -/
def IdentityState.isChanged : IdentityState B → Bool
  | .identityChanged .. => true
  | _ => false

/-- **Every identity but the acknowledged one is a change**, whether the key or the device id
differs. -/
theorem IdentityTracker.isChanged_observe {t : IdentityTracker B} {x y : IdentityMaterial B}
    (h : t.acknowledged = some x) (hne : x ≠ y) : (t.observe y).isChanged = true := by
  obtain ⟨k, dev⟩ := x
  obtain ⟨k', dev'⟩ := y
  unfold observe
  rw [h]
  by_cases hk : k = k' <;> by_cases hdev : dev = dev'
  · exact absurd (by rw [hk, hdev]) hne
  all_goals simp [hk, hdev, IdentityState.isChanged]

/-- `VerificationMethod`. -/
inductive VerificationMethod
  | none
  | safetyNumber
  deriving DecidableEq

/-- The wire value of a verification method. -/
def VerificationMethod.toNat : VerificationMethod → ℕ
  | none => 0
  | safetyNumber => 1

/-- The verification method of a wire value. -/
def VerificationMethod.fromNat : ℕ → Except PrimitiveError VerificationMethod
  | 0 => .ok none
  | 1 => .ok safetyNumber
  | _ => .error .invalidLength

/-- `TrustRecord`. -/
structure TrustRecord (B : Type) where
  /-- Who the record is about. -/
  identity : IdentityMaterial B
  /-- Whether the identity was acknowledged. -/
  acknowledged : Bool
  /-- When it was. -/
  acknowledgedUnix : UInt64
  /-- How it was verified. -/
  method : VerificationMethod
  deriving DecidableEq

/-- A device id that can be stored: none, or one that is not empty and fits the 16-bit length. -/
def StorableId (dev : Option (List B)) : Prop := ∀ id, dev = some id → id ≠ [] ∧ id.length < 2 ^ 16

omit [Alphabet B] in
theorem StorableId.length_getD {dev : Option (List B)} (h : StorableId dev) :
    (dev.getD []).length < 2 ^ 16 := by
  cases dev with
  | none => exact (by decide : 0 < 2 ^ 16)
  | some id => exact (h id rfl).2

/-- `TrustStore`. -/
structure TrustStore (B : Type) where
  /-- The records, by identity key. -/
  byKey : Dict (Block B 32) (TrustRecord B)

namespace TrustStore

/-- `new`. -/
def new : TrustStore B := { byKey := ∅ }

/-- `record_seen`: an identity that is already known keeps its record. -/
def recordSeen (t : TrustStore B) (identity : IdentityMaterial B) : TrustStore B :=
  match t.byKey.lookup identity.identityKey with
  | some _ => t
  | none =>
    let record : TrustRecord B :=
      { identity, acknowledged := false, acknowledgedUnix := 0, method := .none }
    { byKey := t.byKey.insert identity.identityKey record }

/-- `acknowledge`. -/
def acknowledge (t : TrustStore B) (identity : IdentityMaterial B) (nowUnix : UInt64)
    (method : VerificationMethod) : TrustStore B :=
  let record : TrustRecord B := { identity, acknowledged := true, acknowledgedUnix := nowUnix, method }
  { byKey := t.byKey.insert identity.identityKey record }

/-- `tracker_for`. -/
def trackerFor (t : TrustStore B) (identityKey : Block B 32) : IdentityTracker B :=
  match t.byKey.lookup identityKey with
  | some r => if r.acknowledged then { acknowledged := some r.identity } else IdentityTracker.new
  | none => IdentityTracker.new

/-- One record. -/
def writeRecord (r : TrustRecord B) : List B :=
  let dev := r.identity.deviceId.getD []
  r.identity.identityKey.val ++ le 2 dev.length ++ dev ++ ofNat r.acknowledged.toNat ::
    (le 8 r.acknowledgedUnix.toNat ++ [ofNat r.method.toNat])

/-- Reads one record. The key is checked after everything else. -/
def readRecord (data : List B) : Except PrimitiveError ((Block B 32 × TrustRecord B) × List B) := do
  let (ik, data) ← Cursor.takeBlock PrimitiveError.invalidLength 32 data
  let (n, data) ← Cursor.takeLe PrimitiveError.invalidLength 2 data
  if data.length < n + 1 + 8 + 1 then throw .invalidLength
  let (dev, data) ← Cursor.take PrimitiveError.invalidLength n data
  let (acknowledged, data) ← Cursor.takeTag PrimitiveError.invalidLength data
  let (unix, data) ← Cursor.takeLe PrimitiveError.invalidLength 8 data
  let (method, data) ← Cursor.takeTag PrimitiveError.invalidLength data
  let method ← VerificationMethod.fromNat method
  let identityKey ← publicFromBytes ik
  return ((ik, {
    identity := { identityKey, deviceId := if n = 0 then none else some dev }
    acknowledged := acknowledged != 0, acknowledgedUnix := UInt64.ofNat unix, method }), data)

/-- `serialize`. -/
def serialize (σ : Enumeration) (t : TrustStore B) : List B :=
  ascii "VCTRUST1" ++ le 4 t.byKey.size ++ (σ.list t.byKey).flatMap fun e ↦ writeRecord e.2

/-- `deserialize`. -/
def deserialize (data : List B) : Except PrimitiveError (TrustStore B) := do
  let data ← Cursor.expect PrimitiveError.invalidLength (ascii "VCTRUST1") data
  let (n, data) ← Cursor.takeLe PrimitiveError.invalidLength 4 data
  let (records, data) ← Cursor.takeMany readRecord n data
  Cursor.finish PrimitiveError.invalidLength data { byKey := Dict.ofPairs records }

/-! ### Round trip -/

/-- A record as it is read back: an empty device id is none. -/
def collapse (r : TrustRecord B) : TrustRecord B :=
  { r with identity := { r.identity with
    deviceId := if r.identity.deviceId = some [] then none else r.identity.deviceId } }

/-- A store whose records can be read back: each is filed under its own key, which is a valid public
key, and its device id fits the 16-bit length. -/
structure Sound (t : TrustStore B) : Prop where
  /-- Records are filed under their own key. -/
  key : ∀ k r, t.byKey.lookup k = some r → r.identity.identityKey = k
  /-- No record is filed under zero. -/
  valid : ∀ k r, t.byKey.lookup k = some r → k ≠ Block.zero 32
  /-- Device ids fit their length prefix. -/
  deviceId : ∀ k r, t.byKey.lookup k = some r → (r.identity.deviceId.getD []).length < 2 ^ 16

/-- A record is written as its collapsed form: an empty id as none. -/
theorem writeRecord_collapse (r : TrustRecord B) : writeRecord (collapse r) = writeRecord r := by
  have hdev : (collapse r).identity.deviceId.getD [] = r.identity.deviceId.getD [] := by
    unfold collapse
    dsimp only
    split
    · rename_i hempty
      rw [hempty]
      rfl
    · rfl
  unfold writeRecord
  rw [hdev]
  rfl

theorem writeRecord_ne_nil (r : TrustRecord B) : writeRecord r ≠ [] := by
  simp [writeRecord]

theorem readRecord_reads {r : TrustRecord B} (hne : r.identity.identityKey ≠ Block.zero 32)
    (hdev : (r.identity.deviceId.getD []).length < 2 ^ 16) :
    Cursor.Reads readRecord (writeRecord r) (r.identity.identityKey, collapse r) := by
  intro rest
  have hlen : (r.identity.deviceId.getD []).length % 256 ^ 2 = (r.identity.deviceId.getD []).length :=
    Nat.mod_eq_of_lt (by omega)
  have hunix : r.acknowledgedUnix.toNat % 256 ^ 8 = r.acknowledgedUnix.toNat :=
    Nat.mod_eq_of_lt (by have := r.acknowledgedUnix.toNat_lt; omega)
  have hack : (r.acknowledged.toNat % 256 != 0) = r.acknowledged := by
    cases r.acknowledged <;> rfl
  have hmethod : VerificationMethod.fromNat (r.method.toNat % 256) = .ok r.method := by
    cases r.method <;> rfl
  have hcollapse : (if (r.identity.deviceId.getD []).length = 0 then none
      else some (r.identity.deviceId.getD [])) = (collapse r).identity.deviceId := by
    unfold collapse
    cases r.identity.deviceId with
    | none => rfl
    | some dev =>
      cases dev with
      | nil => rfl
      | cons b dev => simp
  have htail : ¬ ((r.identity.deviceId.getD []) ++ ofNat r.acknowledged.toNat ::
      (le 8 r.acknowledgedUnix.toNat ++ [ofNat r.method.toNat] ++ rest)).length <
        (r.identity.deviceId.getD []).length + 1 + 8 + 1 := by
    simp only [List.length_append, List.length_cons, length_le, List.length_nil]
    omega
  simp only [List.append_assoc, List.cons_append, List.nil_append] at htail
  simp only [readRecord, writeRecord, List.append_assoc, List.cons_append, List.nil_append,
    Cursor.takeBlock_append, Cursor.takeLe_append, hlen, htail, if_false, Cursor.take_append rfl,
    Cursor.takeTag_cons, hunix, hmethod, publicFromBytes_of_ne hne, hcollapse, hack, bind,
    Except.bind, pure, Except.pure, UInt64.ofNat_toNat]
  rfl

/-- **What is read back** is the store with empty device ids dropped. A store with `2 ^ 32` records or
more is refused: the count is truncated, and the records left over do not parse. -/
theorem deserialize_serialize {t : TrustStore B} (ht : t.Sound) (σ : Enumeration) :
    deserialize (t.serialize σ) = if t.byKey.size < 2 ^ 32
      then .ok { byKey := t.byKey.mapValues collapse } else .error .invalidLength := by
  let l := (σ.list t.byKey).map fun e ↦ (e.1, collapse e.2)
  let n := t.byKey.size % 256 ^ 4
  have hl : l.length = t.byKey.size := by rw [List.length_map, σ.length_list]
  have hflat : (σ.list t.byKey).flatMap (fun e ↦ writeRecord e.2) =
      l.flatMap fun e ↦ writeRecord e.2 := by
    rw [List.flatMap_map]
    simp only [writeRecord_collapse]
  have hreads : ∀ e ∈ l, Cursor.Reads readRecord (writeRecord e.2) e := by
    intro e he
    obtain ⟨⟨k, r⟩, hmem, rfl⟩ := List.mem_map.1 he
    have hlookup := σ.mem_list_iff.1 hmem
    have hread := readRecord_reads (r := r)
      (by rw [ht.key k r hlookup]; exact ht.valid k r hlookup) (ht.deviceId k r hlookup)
    rw [ht.key k r hlookup] at hread
    intro rest
    dsimp only
    rw [writeRecord_collapse]
    exact hread rest
  have hn : n ≤ l.length := hl ▸ Nat.mod_le _ _
  have hsplit : l.flatMap (fun e ↦ writeRecord e.2) =
      (l.take n).flatMap (fun e ↦ writeRecord e.2) ++ (l.drop n).flatMap fun e ↦ writeRecord e.2 := by
    rw [← List.flatMap_append, List.take_append_drop]
  have hmany := Cursor.takeMany_append (by rw [List.length_take, Nat.min_eq_left hn])
    (fun e he ↦ hreads e (List.mem_of_mem_take he)) ((l.drop n).flatMap fun e ↦ writeRecord e.2)
  rw [← hsplit] at hmany
  have hparse : deserialize (t.serialize σ) = Cursor.finish PrimitiveError.invalidLength
      ((l.drop n).flatMap fun e ↦ writeRecord e.2) { byKey := Dict.ofPairs (l.take n) } := by
    simp only [deserialize, serialize, List.append_assoc, Cursor.expect_append, Cursor.takeLe_append,
      hflat, bind, Except.bind]
    rw [hmany]
  rw [hparse]
  split
  · rename_i hsize
    have hlen : n = l.length := hl ▸ Nat.mod_eq_of_lt (by omega)
    rw [hlen, List.drop_length, List.take_length, ← σ.ofPairs_map_list collapse t.byKey]
    rfl
  · -- records are left over
    rename_i hsize
    have hlt : n < l.length := hl ▸ lt_of_lt_of_le (Nat.mod_lt _ (by decide)) (by omega)
    rw [List.drop_eq_getElem_cons hlt, List.flatMap_cons]
    cases hwrite : writeRecord l[n].2 with
    | nil => exact absurd hwrite (writeRecord_ne_nil _)
    | cons b bs => rfl

/-- What is read back of a store are its collapsed records. -/
theorem byKey_of_deserialize {t t' : TrustStore B} (ht : t.Sound) {σ : Enumeration}
    (h : deserialize (t.serialize σ) = .ok t') : t'.byKey = t.byKey.mapValues collapse := by
  rw [deserialize_serialize ht] at h
  split at h
  · cases h
    rfl
  · cases h

end TrustStore

end VoiceChatCrypto
