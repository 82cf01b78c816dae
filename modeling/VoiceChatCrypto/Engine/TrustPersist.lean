import VoiceChatCrypto.Engine.Trust

/-!
# Persistence of the trust store

A trust store is filled by `record_seen` and `acknowledge`, in any order and with any identities, and is
written to storage and read back. It comes back as it was **exactly if** each of its records can be
told from what is written: its device id is absent, or is neither empty nor longer than its 16-bit
length can say, and the number of records fits 32 bits (`persists_iff`).

That this is enough is `TrustStore.deserialize_serialize`. That it is necessary needs no look at what a
wrong length does to the records behind it: whatever bytes `deserialize` is given, the store it returns
has storable records only (`deserialize_storable`).
-/

open Alphabet

namespace VoiceChatCrypto

variable {B : Type} [Alphabet B]

/-- Identity material whose key `X25519Public` can hold: the all-zero key is not one. -/
structure ValidIdentity (B : Type) [Alphabet B] extends IdentityMaterial B where
  /-- The key is not zero. -/
  valid : identityKey ≠ Block.zero 32

namespace TrustStore

/-- What can happen to a trust store. -/
inductive Call (B : Type) [Alphabet B]
  | recordSeen (identity : ValidIdentity B)
  | acknowledge (identity : ValidIdentity B) (nowUnix : UInt64) (method : VerificationMethod)

/-- One call. -/
def perform (t : TrustStore B) : Call B → TrustStore B
  | .recordSeen identity => t.recordSeen identity.toIdentityMaterial
  | .acknowledge identity nowUnix method => t.acknowledge identity.toIdentityMaterial nowUnix method

/-- The store after a sequence of calls. -/
def run (calls : List (Call B)) : TrustStore B := calls.foldl perform new

/-- Every record is filed under its own key, which is a valid one. -/
structure Filed (t : TrustStore B) : Prop where
  /-- Records are filed under their own key. -/
  key : ∀ k r, t.byKey.lookup k = some r → r.identity.identityKey = k
  /-- No record is filed under zero. -/
  valid : ∀ k r, t.byKey.lookup k = some r → k ≠ Block.zero 32

/-- A store that can be told from what is written of it. -/
structure Storable (t : TrustStore B) : Prop where
  /-- No device id is empty or too long. -/
  deviceId : ∀ k r, t.byKey.lookup k = some r → StorableId r.identity.deviceId
  /-- The number of records fits into its field. -/
  size : t.byKey.size < 2 ^ 32

variable {t : TrustStore B}

theorem Filed.insert (ht : t.Filed) {r : TrustRecord B}
    (hvalid : r.identity.identityKey ≠ Block.zero 32) :
    Filed { byKey := t.byKey.insert r.identity.identityKey r } := by
  constructor
  all_goals
    intro k r' h
    dsimp only at h
    by_cases hk : k = r.identity.identityKey
    · subst hk
      rw [Finmap.lookup_insert] at h
      cases h
      first | rfl | exact hvalid
    · rw [Finmap.lookup_insert_of_ne _ hk] at h
      first | exact ht.key k r' h | exact ht.valid k r' h

theorem Filed.perform (ht : t.Filed) (call : Call B) : (t.perform call).Filed := by
  cases call with
  | recordSeen identity =>
    show (t.recordSeen identity.toIdentityMaterial).Filed
    unfold recordSeen
    split
    · exact ht
    · exact ht.insert (r := ⟨identity.toIdentityMaterial, false, 0, .none⟩) identity.valid
  | acknowledge identity nowUnix method =>
    exact ht.insert (r := ⟨identity.toIdentityMaterial, true, nowUnix, method⟩) identity.valid

theorem run_filed (calls : List (Call B)) : (run calls).Filed := by
  induction calls using List.reverseRecOn with
  | nil =>
    constructor
    all_goals
      intro k r h
      cases h
  | append_singleton calls call ih =>
    rw [run, List.foldl_append, List.foldl_cons, List.foldl_nil]
    exact ih.perform call

/-- A storable record is read back as it was. -/
theorem collapse_of_storable {r : TrustRecord B} (h : StorableId r.identity.deviceId) :
    collapse r = r := by
  have hne : ¬ r.identity.deviceId = some [] := fun hempty ↦ (h [] hempty).1 rfl
  unfold collapse
  rw [if_neg hne]

/-- **A storable store is read back as it was**, whatever the order of writing. -/
theorem deserialize_of_storable (hfiled : t.Filed) (ht : t.Storable) (σ : Enumeration) :
    deserialize (t.serialize σ) = .ok t := by
  have hsound : t.Sound :=
    ⟨hfiled.key, hfiled.valid, fun k r h ↦ (ht.deviceId k r h).length_getD⟩
  rw [deserialize_serialize hsound, if_pos ht.size]
  have hmap : t.byKey.mapValues collapse = t.byKey := by
    apply Finmap.ext_lookup
    intro k
    rw [Dict.lookup_mapValues]
    cases hk : t.byKey.lookup k with
    | none => rfl
    | some r => exact congrArg some (collapse_of_storable (ht.deviceId k r hk))
  rw [hmap]

/-- A record that is read has a storable device id, whatever it is read from. -/
theorem readRecord_storable {data rest : List B} {e : Block B 32 × TrustRecord B}
    (h : readRecord data = .ok (e, rest)) : StorableId e.2.identity.deviceId := by
  obtain ⟨⟨ik, d₁⟩, -, h⟩ := Except.bind_eq_ok.1 h
  obtain ⟨⟨n, d₂⟩, hn, h⟩ := Except.bind_eq_ok.1 h
  dsimp only at h
  split at h
  · cases h
  obtain ⟨⟨dev, d₃⟩, hdev, h⟩ := Except.bind_eq_ok.1 h
  obtain ⟨⟨ack, d₄⟩, -, h⟩ := Except.bind_eq_ok.1 h
  obtain ⟨⟨unix, d₅⟩, -, h⟩ := Except.bind_eq_ok.1 h
  obtain ⟨⟨tag, d₆⟩, -, h⟩ := Except.bind_eq_ok.1 h
  obtain ⟨method, -, h⟩ := Except.bind_eq_ok.1 h
  obtain ⟨ikey, -, h⟩ := Except.bind_eq_ok.1 h
  cases h
  have hlt := Cursor.takeLe_lt hn
  have hlen : dev.length = n := (Cursor.take_eq_ok hdev).2
  intro id hid
  dsimp only at hid
  split at hid
  · cases hid
  · rename_i hn0
    cases hid
    refine ⟨fun hnil ↦ hn0 ?_, ?_⟩
    · rw [← hlen, hnil, List.length_nil]
    · rw [hlen]
      omega

/-- **What is read is storable**, whatever it is read from: an empty device id is read as none, and
lengths come from fields of their size. -/
theorem deserialize_storable {data : List B} (h : deserialize data = .ok t) : t.Storable := by
  obtain ⟨d₁, -, h⟩ := Except.bind_eq_ok.1 h
  obtain ⟨⟨n, d₂⟩, hn, h⟩ := Except.bind_eq_ok.1 h
  obtain ⟨⟨records, d₃⟩, hrecords, h⟩ := Except.bind_eq_ok.1 h
  obtain ⟨hlen, hread⟩ := Cursor.takeMany_eq_ok hrecords
  obtain ⟨-, rfl⟩ := Cursor.finish_eq_ok h
  constructor
  · intro k r hr
    obtain ⟨before, after, hmem⟩ := hread (k, r) (Dict.mem_of_lookup_ofPairs hr)
    exact readRecord_storable hmem
  · have hsize := Dict.size_ofPairs_le records
    have hlt := Cursor.takeLe_lt hn
    dsimp only
    omega

/-- **When the trust store survives persistence.** After any calls, in any iteration order of the map:
the store read back is the store written exactly if every recorded device id is absent or has between 1
and 65535 bytes, and there are fewer than `2 ^ 32` records. -/
theorem persists_iff (calls : List (Call B)) (σ : Enumeration) :
    deserialize ((run calls).serialize σ) = .ok (run calls) ↔
      (∀ k r, (run calls).byKey.lookup k = some r → ∀ id, r.identity.deviceId = some id →
        1 ≤ id.length ∧ id.length ≤ 65535) ∧ (run calls).byKey.size < 2 ^ 32 := by
  have hid (id : List B) : id ≠ [] ∧ id.length < 2 ^ 16 ↔ 1 ≤ id.length ∧ id.length ≤ 65535 := by
    rw [← List.length_pos_iff]
    omega
  constructor
  · intro h
    obtain ⟨hdev, hsize⟩ := deserialize_storable h
    exact ⟨fun k r hr id hdevid ↦ (hid id).1 (hdev k r hr id hdevid), hsize⟩
  · rintro ⟨hdev, hsize⟩
    refine deserialize_of_storable (run_filed calls) ⟨?_, hsize⟩ σ
    exact fun k r hr id hdevid ↦ (hid id).2 (hdev k r hr id hdevid)

/-- A contact whose device id is the empty string. -/
def emptyIdContact : ValidIdentity UInt8 where
  identityKey := ⟨List.replicate 32 1, rfl⟩
  deviceId := some []
  valid h := absurd (congrArg Subtype.val h) (by decide)

/-- **An empty device id does not survive**: a contact is seen with one, and the store that is read
back is another one. -/
theorem empty_id_lost : ¬ ∃ σ : Enumeration,
    deserialize ((run [.recordSeen emptyIdContact]).serialize σ) =
      .ok (run [.recordSeen emptyIdContact]) := by
  rintro ⟨σ, h⟩
  have hlookup : (run [.recordSeen emptyIdContact]).byKey.lookup emptyIdContact.identityKey =
      some ⟨emptyIdContact.toIdentityMaterial, false, 0, .none⟩ := Finmap.lookup_insert _
  exact ((deserialize_storable h).deviceId _ _ hlookup [] rfl).1 rfl

end TrustStore

end VoiceChatCrypto
