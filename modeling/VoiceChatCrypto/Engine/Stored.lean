import VoiceChatCrypto.Engine.Atomic

/-!
# What storage holds

The engine writes five kinds of blobs under distinct keys: four device blobs under names, and one blob
for each session under its id. This module says where a commit writes and what it leaves alone, for
the three transactions the engine makes.
-/

open Alphabet

namespace VoiceChatCrypto

variable {B : Type} [Alphabet B]

namespace Engine

/-! ### Keys -/

theorem length_keyIdentity : (keyIdentity : List B).length = 8 := rfl
theorem length_keyPrekeys : (keyPrekeys : List B).length = 7 := rfl
theorem length_keyReplay : (keyReplay : List B).length = 6 := rfl
theorem length_keyTrust : (keyTrust : List B).length = 5 := rfl

/-- The keys of a handshake transaction are distinct: their lengths are. -/
theorem keys_nodup (sid : SessionId B) :
    [keyIdentity, keyPrekeys, sid.val, keyReplay, keyTrust].Nodup := by
  apply List.Nodup.of_map List.length
  simp only [List.map_cons, List.map_nil, length_keyIdentity, length_keyPrekeys, length_keyReplay,
    length_keyTrust, Block.length_val]
  decide

theorem deviceKeys_nodup : ([keyIdentity, keyPrekeys, keyReplay, keyTrust] : List (List B)).Nodup := by
  apply List.Nodup.of_map List.length
  simp only [List.map_cons, List.map_nil, length_keyIdentity, length_keyPrekeys, length_keyReplay,
    length_keyTrust]
  decide

/-- No device blob is stored under a session id. -/
theorem deviceKey_ne_sid (sid : SessionId B) {k : List B}
    (hk : k ∈ [keyIdentity, keyPrekeys, keyReplay, keyTrust]) : k ≠ sid.val := by
  rintro rfl
  have hlen : sid.val.length ∈ [8, 7, 6, 5] := List.mem_map_of_mem hk
  rw [Block.length_val] at hlen
  exact absurd hlen (by decide)

/-! ### Lookups after a commit -/

variable {e : Engine B} {σ : Enumeration} {sid : SessionId B} {s : LiveSession B}

theorem lookup_committed_of_notMem {pairs : List (List B × List B)} {k : List B}
    (h : k ∉ pairs.map Prod.fst) :
    (e.committed pairs).storage.committed.lookup k = e.storage.committed.lookup k := by
  rw [committed, MemoryStorage.afterCommit_committed, Dict.lookup_foldl_insert _ _ _ h]

theorem lookup_committed_of_mem {pairs : List (List B × List B)} {k v : List B}
    (hnd : (pairs.map Prod.fst).Nodup) (h : (k, v) ∈ pairs) :
    (e.committed pairs).storage.committed.lookup k = some v := by
  rw [committed, MemoryStorage.afterCommit_committed, Dict.lookup_foldl_insert_of_mem _ _ hnd h]

/-- Everything in storage after a commit was written by it or was there before. -/
theorem lookup_committed_eq_some {pairs : List (List B × List B)} {k v : List B}
    (hnd : (pairs.map Prod.fst).Nodup)
    (h : (e.committed pairs).storage.committed.lookup k = some v) :
    (k, v) ∈ pairs ∨ e.storage.committed.lookup k = some v := by
  by_cases hk : k ∈ pairs.map Prod.fst
  · obtain ⟨⟨k', v'⟩, hmem, rfl⟩ := List.mem_map.1 hk
    rw [lookup_committed_of_mem hnd hmem] at h
    cases h
    exact .inl hmem
  · rw [lookup_committed_of_notMem hk] at h
    exact .inr h

/-! ### Device blobs after a commit -/

variable (e σ sid s)

theorem deviceBlobs_commitDevice :
    (e.commitDevice σ).storage.committed.lookup keyIdentity = some e.identity.serialize ∧
    (e.commitDevice σ).storage.committed.lookup keyPrekeys = some (e.prekeys.serialize σ) ∧
    (e.commitDevice σ).storage.committed.lookup keyReplay = some e.replay.serialize ∧
    (e.commitDevice σ).storage.committed.lookup keyTrust = some (e.trust.serialize σ) := by
  have hnd : ((e.devicePairs σ).map Prod.fst).Nodup := deviceKeys_nodup
  refine ⟨?_, ?_, ?_, ?_⟩ <;> exact lookup_committed_of_mem hnd (by simp [devicePairs])

theorem deviceBlobs_commitHandshake :
    (e.commitHandshake σ sid s).storage.committed.lookup keyIdentity =
      some e.identity.serialize ∧
    (e.commitHandshake σ sid s).storage.committed.lookup keyPrekeys =
      some (e.prekeys.serialize σ) ∧
    (e.commitHandshake σ sid s).storage.committed.lookup keyReplay = some e.replay.serialize ∧
    (e.commitHandshake σ sid s).storage.committed.lookup keyTrust =
      some (e.trust.serialize σ) := by
  have hnd : ((e.handshakePairs σ sid s).map Prod.fst).Nodup := keys_nodup sid
  refine ⟨?_, ?_, ?_, ?_⟩ <;> exact lookup_committed_of_mem hnd (by simp [handshakePairs])

theorem sessionKeys_nodup : ((e.sessionPairs σ sid s).map Prod.fst).Nodup :=
  (List.drop_sublist 2 _).nodup (keys_nodup sid)

/-- A session transaction leaves the identity and the prekeys alone. -/
theorem deviceBlobs_commitSession :
    (e.commitSession σ sid s).storage.committed.lookup keyIdentity =
      e.storage.committed.lookup keyIdentity ∧
    (e.commitSession σ sid s).storage.committed.lookup keyPrekeys =
      e.storage.committed.lookup keyPrekeys ∧
    (e.commitSession σ sid s).storage.committed.lookup keyReplay = some e.replay.serialize ∧
    (e.commitSession σ sid s).storage.committed.lookup keyTrust = some (e.trust.serialize σ) := by
  have hnd := keys_nodup sid
  have hpairs := sessionKeys_nodup e σ sid s
  simp only [List.nodup_cons, List.mem_cons, List.not_mem_nil, or_false, not_or] at hnd
  refine ⟨lookup_committed_of_notMem ?_, lookup_committed_of_notMem ?_,
    lookup_committed_of_mem hpairs (by simp [sessionPairs]),
    lookup_committed_of_mem hpairs (by simp [sessionPairs])⟩
  · simp [sessionPairs, hnd.1]
  · simp [sessionPairs, hnd.2.1]

/-! ### Session blobs after a commit -/

variable {e σ sid s}

/-- The blob stored under a session id. -/
def blob (e : Engine B) (sid : SessionId B) : Option (List B) :=
  e.storage.committed.lookup sid.val

theorem blob_commitDevice (sid : SessionId B) : (e.commitDevice σ).blob sid = e.blob sid := by
  refine lookup_committed_of_notMem fun hmem ↦ ?_
  exact deviceKey_ne_sid sid hmem rfl

theorem blob_commitSession :
    (e.commitSession σ sid s).blob sid = some (s.encode σ sid) :=
  lookup_committed_of_mem (sessionKeys_nodup e σ sid s) (by simp [sessionPairs])

theorem blob_commitHandshake :
    (e.commitHandshake σ sid s).blob sid = some (s.encode σ sid) :=
  lookup_committed_of_mem (keys_nodup sid) (by simp [handshakePairs])

/-- A session is stored under its own id only. -/
theorem blob_commitSession_of_ne {sid' : SessionId B} (h : sid' ≠ sid) :
    (e.commitSession σ sid s).blob sid' = e.blob sid' := by
  have hval : sid'.val ≠ sid.val := fun heq ↦ h (Subtype.ext heq)
  refine lookup_committed_of_notMem fun hmem ↦ ?_
  rcases List.mem_cons.1 hmem with heq | hdev
  · exact hval heq
  · exact deviceKey_ne_sid sid' (List.mem_of_mem_drop (i := 2) hdev) rfl

theorem blob_commitHandshake_of_ne {sid' : SessionId B} (h : sid' ≠ sid) :
    (e.commitHandshake σ sid s).blob sid' = e.blob sid' := by
  have hval : sid'.val ≠ sid.val := fun heq ↦ h (Subtype.ext heq)
  refine lookup_committed_of_notMem fun hmem ↦ ?_
  have hdev : sid'.val = sid.val ∨ sid'.val ∈ [keyIdentity, keyPrekeys, keyReplay, keyTrust] := by
    simp only [handshakePairs, List.map_cons, List.map_nil, List.mem_cons] at hmem ⊢
    tauto
  rcases hdev with heq | hdev
  · exact hval heq
  · exact deviceKey_ne_sid sid' hdev rfl

end Engine

end VoiceChatCrypto
