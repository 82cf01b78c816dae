import Mathlib.Algebra.Order.BigOperators.Group.Finset
import VoiceChatCrypto.Data.Enumeration

/-!
# Sums over finite maps

A quantity of the values of a map, added up over its entries, and what the operations on maps do to
it: an insertion exchanges one summand, and dropping or replacing values is a change of the quantity.
-/

namespace Dict

variable {K V W : Type} [DecidableEq K]

/-- A quantity added up over the entries. -/
def sum (f : V → ℕ) (m : Dict K V) : ℕ := ∑ k ∈ m.keys, (m.lookup k).elim 0 f

@[simp] theorem sum_empty (f : V → ℕ) : sum f (∅ : Dict K V) = 0 := rfl

/-- The keys may be taken from a larger set. -/
theorem sum_eq_sum_of_subset (f : V → ℕ) {m : Dict K V} {s : Finset K} (h : m.keys ⊆ s) :
    sum f m = ∑ k ∈ s, (m.lookup k).elim 0 f := by
  refine Finset.sum_subset h fun k _ hk ↦ ?_
  rw [Finmap.mem_keys, ← Finmap.lookup_eq_none] at hk
  rw [hk]
  rfl

/-- **An insertion exchanges one summand.** -/
theorem sum_insert (f : V → ℕ) (m : Dict K V) (k : K) (v : V) :
    sum f (m.insert k v) + (m.lookup k).elim 0 f = sum f m + f v := by
  have hsub : m.keys ⊆ insert k m.keys := Finset.subset_insert k m.keys
  have hkeys : (m.insert k v).keys ⊆ insert k m.keys := by
    intro a ha
    rw [Finmap.mem_keys, Finmap.mem_insert] at ha
    rwa [Finset.mem_insert, Finmap.mem_keys]
  have hk : k ∈ insert k m.keys := Finset.mem_insert_self k m.keys
  rw [sum_eq_sum_of_subset f hsub, sum_eq_sum_of_subset f hkeys,
    ← Finset.add_sum_erase _ _ hk, ← Finset.add_sum_erase _ _ hk, Finmap.lookup_insert]
  have hrest : ∑ a ∈ (insert k m.keys).erase k, ((m.insert k v).lookup a).elim 0 f =
      ∑ a ∈ (insert k m.keys).erase k, (m.lookup a).elim 0 f := by
    refine Finset.sum_congr rfl fun a ha ↦ ?_
    rw [Finmap.lookup_insert_of_ne _ (Finset.ne_of_mem_erase ha)]
  rw [hrest, Option.elim_some]
  omega

/-- **Dropping and replacing values** is a change of the quantity. -/
theorem sum_filterMapValues (f : W → ℕ) (g : V → Option W) (m : Dict K V) :
    sum f (m.filterMapValues g) = sum (fun v ↦ (g v).elim 0 f) m := by
  have hkeys : (m.filterMapValues g).keys ⊆ m.keys := by
    intro k hk
    rw [Finmap.mem_keys, ← Finmap.lookup_isSome, lookup_filterMapValues] at hk
    rw [Finmap.mem_keys, ← Finmap.lookup_isSome]
    exact Option.isSome_of_isSome_bind hk
  rw [sum_eq_sum_of_subset f hkeys, sum]
  refine Finset.sum_congr rfl fun k _ ↦ ?_
  rw [lookup_filterMapValues]
  cases m.lookup k <;> rfl

/-- A quantity that is nowhere larger. -/
theorem sum_le_sum {f g : V → ℕ} {m : Dict K V} (h : ∀ k v, m.lookup k = some v → f v ≤ g v) :
    sum f m ≤ sum g m := by
  refine Finset.sum_le_sum fun k _ ↦ ?_
  cases hk : m.lookup k with
  | none => rfl
  | some v => exact h k v hk

/-- **Of two quantities, one nowhere larger, the sums agree exactly when every summand does.** -/
theorem sum_eq_sum_iff {f g : V → ℕ} {m : Dict K V} (h : ∀ k v, m.lookup k = some v → f v ≤ g v) :
    sum f m = sum g m ↔ ∀ k v, m.lookup k = some v → f v = g v := by
  have hle : ∀ k ∈ m.keys, (m.lookup k).elim 0 f ≤ (m.lookup k).elim 0 g := by
    intro k _
    cases hk : m.lookup k with
    | none => rfl
    | some v => exact h k v hk
  rw [sum, sum, Finset.sum_eq_sum_iff_of_le hle]
  constructor
  · intro heq k v hk
    have hkey := heq k (Finmap.mem_keys.2 (Finmap.mem_of_lookup_eq_some hk))
    rwa [hk] at hkey
  · intro heq k _
    cases hk : m.lookup k with
    | none => rfl
    | some v => exact heq k v hk

/-- A sum of natural numbers is zero when all of them are. -/
theorem sum_eq_zero_iff {f : V → ℕ} {m : Dict K V} :
    sum f m = 0 ↔ ∀ k v, m.lookup k = some v → f v = 0 := by
  have hzero : sum (fun _ : V ↦ 0) m = 0 := by
    refine Finset.sum_eq_zero fun k _ ↦ ?_
    cases m.lookup k <;> rfl
  have h := sum_eq_sum_iff (f := fun _ : V ↦ 0) (g := f) (m := m) fun _ _ _ ↦ Nat.zero_le _
  rw [hzero, eq_comm] at h
  rw [h]
  exact forall₃_congr fun _ _ _ ↦ eq_comm

end Dict
