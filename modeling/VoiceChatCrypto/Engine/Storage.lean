import VoiceChatCrypto.Primitives.Basic

/-!
# Transactional storage

`MemoryStorage` of `src/storage/mod.rs`: committed blobs, at most one open transaction with staged
writes, and a monotonic epoch. Staged writes are applied in the iteration order of a hash map.

The engine uses it in one pattern, `commit_pairs`: begin, put each pair, commit, advance the epoch.
On a storage without an open transaction that pattern cannot fail, and its effect is the insertion of
the pairs one after the other (`commitPairs_of_idle`), whatever the iteration order.
-/

open Alphabet

namespace VoiceChatCrypto

variable {B : Type} [Alphabet B]

/-- `MemoryStorage`. -/
structure MemoryStorage (B : Type) where
  /-- What was committed. -/
  committed : Dict (List B) (List B)
  /-- The open transaction: its id and its staged writes, `none` for a deletion. -/
  staged : Option (UInt64 × Dict (List B) (Option (List B)))
  /-- The id of the next transaction. -/
  nextTx : UInt64
  /-- How often the state has advanced. -/
  epoch : UInt64

namespace MemoryStorage

/-- `default`. -/
def empty : MemoryStorage B := { committed := ∅, staged := none, nextTx := 0, epoch := 0 }

/-- `begin`. -/
def begin_ (s : MemoryStorage B) : Except PrimitiveError UInt64 × MemoryStorage B :=
  match s.staged with
  | some _ => (.error .internal, s)
  | none => (.ok s.nextTx, { s with nextTx := s.nextTx + 1, staged := some (s.nextTx, ∅) })

/-- `put`, and `delete` when there is no value. -/
def stage (tx : UInt64) (key : List B) (value : Option (List B)) (s : MemoryStorage B) :
    Except PrimitiveError Unit × MemoryStorage B :=
  match s.staged with
  | none => (.error .internal, s)
  | some (id, writes) =>
    if id ≠ tx then (.error .internal, s)
    else (.ok (), { s with staged := some (id, writes.insert key value) })

/-- The effect of one staged write. -/
def applyWrite (m : Dict (List B) (List B)) (e : List B × Option (List B)) :
    Dict (List B) (List B) :=
  match e.2 with
  | some v => m.insert e.1 v
  | none => m.erase e.1

/-- `commit`. -/
def commit (σ : Enumeration) (tx : UInt64) (s : MemoryStorage B) :
    Except PrimitiveError Unit × MemoryStorage B :=
  match s.staged with
  | none => (.error .internal, s)
  | some (id, writes) =>
    if id ≠ tx then (.error .internal, s)
    else (.ok (), { s with
      staged := none, committed := (σ.list writes).foldl applyWrite s.committed })

/-- `abort`. -/
def abort (tx : UInt64) (s : MemoryStorage B) : Except PrimitiveError Unit × MemoryStorage B :=
  match s.staged with
  | some (id, _) => if id = tx then (.ok (), { s with staged := none }) else (.error .internal, s)
  | none => (.error .internal, s)

/-- `advance_epoch`. -/
def advanceEpoch (s : MemoryStorage B) : Except PrimitiveError UInt64 × MemoryStorage B :=
  if s.epoch.toNat + 1 < 2 ^ 64 then (.ok (s.epoch + 1), { s with epoch := s.epoch + 1 })
  else (.error .limitExceeded, s)

/-- `clear`. -/
def clear (s : MemoryStorage B) : MemoryStorage B := { s with committed := ∅, staged := none }

/-- The loop of `commit_pairs`: puts every pair, and aborts on the first failure. -/
def putAll (tx : UInt64) : List (List B × List B) → MemoryStorage B →
    Except PrimitiveError Unit × MemoryStorage B
  | [], s => (.ok (), s)
  | (k, v) :: pairs, s =>
    match s.stage tx k (some v) with
    | (.error e, s) => (.error e, (s.abort tx).2)
    | (.ok (), s) => putAll tx pairs s

/-- The storage half of the engine's `commit_pairs`. The result of `advance_epoch` is dropped. -/
def commitPairs (σ : Enumeration) (pairs : List (List B × List B)) (s : MemoryStorage B) :
    Except PrimitiveError Unit × MemoryStorage B :=
  match s.begin_ with
  | (.error e, s) => (.error e, s)
  | (.ok tx, s) =>
    match s.putAll tx pairs with
    | (.error e, s) => (.error e, s)
    | (.ok (), s) =>
      match s.commit σ tx with
      | (.error e, s) => (.error e, s)
      | (.ok (), s) => (.ok (), s.advanceEpoch.2)

/-! ### The effect of a commit -/

theorem lookup_foldl_applyWrite {k : List B} (l : List (List B × Option (List B)))
    (m : Dict (List B) (List B)) (h : k ∉ l.map Prod.fst) :
    (l.foldl applyWrite m).lookup k = m.lookup k := by
  induction l generalizing m with
  | nil => rfl
  | cons e l ih =>
    simp only [List.map_cons, List.mem_cons, not_or] at h
    rw [List.foldl_cons, ih _ h.2, applyWrite]
    split
    · rw [Finmap.lookup_insert_of_ne _ h.1]
    · rw [Finmap.lookup_erase_ne h.1]

/-- A write to a key is what is found there, when there is one write to it. -/
theorem lookup_foldl_applyWrite_of_mem {k : List B} {v : Option (List B)}
    (l : List (List B × Option (List B))) (m : Dict (List B) (List B))
    (hnd : (l.map Prod.fst).Nodup) (h : (k, v) ∈ l) : (l.foldl applyWrite m).lookup k = v := by
  induction l generalizing m with
  | nil => cases h
  | cons e l ih =>
    rw [List.map_cons, List.nodup_cons] at hnd
    rcases List.mem_cons.1 h with rfl | hmem
    · rw [List.foldl_cons, lookup_foldl_applyWrite _ _ hnd.1, applyWrite]
      cases v with
      | some v => exact Finmap.lookup_insert _
      | none => exact Finmap.lookup_erase _ _
    · exact ih _ hnd.2 hmem

/-- What a key holds after a commit: its staged write, or else what it held before. -/
theorem lookup_applyWrites (σ : Enumeration) (m : Dict (List B) (List B))
    (writes : Dict (List B) (Option (List B))) (k : List B) :
    ((σ.list writes).foldl applyWrite m).lookup k = (writes.lookup k).getD (m.lookup k) := by
  cases h : writes.lookup k with
  | some v => exact lookup_foldl_applyWrite_of_mem _ _ (σ.list_nodup writes) (σ.mem_list_iff.2 h)
  | none =>
    refine lookup_foldl_applyWrite _ _ fun hmem ↦ ?_
    obtain ⟨⟨k', v⟩, hp, rfl⟩ := List.mem_map.1 hmem
    rw [σ.mem_list_iff.1 hp] at h
    cases h

/-- One more staged write is one more insertion. -/
theorem applyWrites_insert (σ : Enumeration) (m : Dict (List B) (List B))
    (writes : Dict (List B) (Option (List B))) (k v : List B) :
    (σ.list (writes.insert k (some v))).foldl applyWrite m =
      ((σ.list writes).foldl applyWrite m).insert k v := by
  apply Finmap.ext_lookup
  intro k'
  rw [lookup_applyWrites]
  by_cases hk : k' = k
  · subst hk
    rw [Finmap.lookup_insert, Finmap.lookup_insert]
    rfl
  · rw [Finmap.lookup_insert_of_ne _ hk, Finmap.lookup_insert_of_ne _ hk, lookup_applyWrites]

theorem applyWrites_empty (σ : Enumeration) (m : Dict (List B) (List B)) :
    (σ.list (∅ : Dict (List B) (Option (List B)))).foldl applyWrite m = m := by
  apply Finmap.ext_lookup
  intro k
  rw [lookup_applyWrites, Finmap.lookup_empty]
  rfl

/-- A transaction that only deletes a key removes it. -/
theorem applyWrites_delete (σ : Enumeration) (m : Dict (List B) (List B)) (k : List B) :
    (σ.list ((∅ : Dict (List B) (Option (List B))).insert k none)).foldl applyWrite m =
      m.erase k := by
  apply Finmap.ext_lookup
  intro k'
  rw [lookup_applyWrites]
  by_cases hk : k' = k
  · subst hk
    rw [Finmap.lookup_insert, Finmap.lookup_erase]
    rfl
  · rw [Finmap.lookup_insert_of_ne _ hk, Finmap.lookup_erase_ne hk, Finmap.lookup_empty]
    rfl

/-- Within its transaction every put succeeds. -/
theorem putAll_eq (tx : UInt64) (pairs : List (List B × List B)) {s : MemoryStorage B}
    {w : Dict (List B) (Option (List B))} (h : s.staged = some (tx, w)) :
    s.putAll tx pairs = (.ok (), { s with
      staged := some (tx, pairs.foldl (fun m p ↦ m.insert p.1 (some p.2)) w) }) := by
  induction pairs generalizing s w with
  | nil =>
    rw [putAll, List.foldl_nil, ← h]
  | cons p pairs ih =>
    have hstage : s.stage tx p.1 (some p.2) =
        (.ok (), { s with staged := some (tx, w.insert p.1 (some p.2)) }) := by
      rw [stage, h]
      exact if_neg (by simp)
    rw [putAll, hstage]
    dsimp only
    rw [ih (s := { s with staged := some (tx, w.insert p.1 (some p.2)) }) rfl, List.foldl_cons]

/-- Staged writes are applied as if each had been made at once. -/
theorem applyWrites_foldl (σ : Enumeration) (m : Dict (List B) (List B))
    (pairs : List (List B × List B)) (writes : Dict (List B) (Option (List B))) :
    (σ.list (pairs.foldl (fun m p ↦ m.insert p.1 (some p.2)) writes)).foldl applyWrite m =
      pairs.foldl (fun m p ↦ m.insert p.1 p.2) ((σ.list writes).foldl applyWrite m) := by
  induction pairs generalizing writes with
  | nil => rfl
  | cons p pairs ih =>
    rw [List.foldl_cons, ih, applyWrites_insert, List.foldl_cons]

/-- The storage after a successful `commit_pairs`. -/
def afterCommit (pairs : List (List B × List B)) (s : MemoryStorage B) : MemoryStorage B :=
  ({ s with
    nextTx := s.nextTx + 1
    committed := pairs.foldl (fun m p ↦ m.insert p.1 p.2) s.committed } : MemoryStorage B).advanceEpoch.2

/-- **An idle storage commits** all pairs at once: begin, stage and commit succeed one after the
other. -/
theorem commitPairs_of_idle (σ : Enumeration) (pairs : List (List B × List B))
    {s : MemoryStorage B} (h : s.staged = none) :
    s.commitPairs σ pairs = (.ok (), s.afterCommit pairs) := by
  have hbegin : s.begin_ =
      (.ok s.nextTx, { s with nextTx := s.nextTx + 1, staged := some (s.nextTx, ∅) }) := by
    rw [begin_, h]
  rw [commitPairs, hbegin]
  dsimp only
  rw [putAll_eq s.nextTx pairs (w := ∅) rfl]
  dsimp only [commit]
  rw [if_neg (by simp)]
  dsimp only
  rw [applyWrites_foldl, applyWrites_empty, afterCommit, ← h]

omit [Alphabet B] in
@[simp] theorem advanceEpoch_committed (s : MemoryStorage B) :
    s.advanceEpoch.2.committed = s.committed := by
  unfold advanceEpoch
  split <;> rfl

omit [Alphabet B] in
@[simp] theorem advanceEpoch_staged (s : MemoryStorage B) :
    s.advanceEpoch.2.staged = s.staged := by
  unfold advanceEpoch
  split <;> rfl

@[simp] theorem afterCommit_committed (pairs : List (List B × List B)) (s : MemoryStorage B) :
    (s.afterCommit pairs).committed = pairs.foldl (fun m p ↦ m.insert p.1 p.2) s.committed := by
  rw [afterCommit, advanceEpoch_committed]

@[simp] theorem afterCommit_staged (pairs : List (List B × List B)) (s : MemoryStorage B) :
    (s.afterCommit pairs).staged = s.staged := by
  rw [afterCommit, advanceEpoch_staged]

/-! ### The epoch -/

/-- A commit moves the epoch on, unless it has reached its limit. -/
theorem epoch_afterCommit (pairs : List (List B × List B)) (s : MemoryStorage B) :
    (s.afterCommit pairs).epoch.toNat =
      if s.epoch.toNat + 1 < 2 ^ 64 then s.epoch.toNat + 1 else s.epoch.toNat := by
  unfold afterCommit advanceEpoch
  dsimp only
  split
  · rename_i hlt
    dsimp only
    rw [UInt64.toNat_add, UInt64.toNat_one, Nat.mod_eq_of_lt hlt]
  · rfl

end MemoryStorage

/-- `RollbackGuard`: the last epoch that was seen. -/
structure RollbackGuard where
  /-- An epoch below it is a rollback. -/
  lastSeen : UInt64

/-- `observe`. -/
def RollbackGuard.observe (epoch : UInt64) (g : RollbackGuard) :
    Except PrimitiveError Unit × RollbackGuard :=
  if epoch < g.lastSeen then (.error .internal, g) else (.ok (), { lastSeen := epoch })

/-- A guard refuses what is older than what it has accepted. -/
theorem RollbackGuard.observe_older {g : RollbackGuard} {old new : UInt64} (h : old < new)
    (hnew : (g.observe new).1 = .ok ()) :
    ((g.observe new).2.observe old).1 = .error .internal := by
  unfold observe at hnew ⊢
  split at hnew
  · cases hnew
  · rename_i hge
    rw [if_neg hge, if_pos h]

end VoiceChatCrypto
