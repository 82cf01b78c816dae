import Mathlib.Data.Finmap

/-!
# Finite maps and their enumerations

A hash map is a finite map (`Finmap`): two maps with the same entries are equal, whatever order they
were filled in. What the order of iteration does decide is what a *loop* over the map sees, and that
order is not part of the map: it is given from outside, as an `Enumeration`, an arbitrary listing of
every finite map that loses and repeats nothing.

Rebuilding a map from any listing of it gives the map back (`ofPairs_list`). That one fact is what
makes a serialized map independent of the order in which it was written.
-/

/-- Finite maps with a constant value type. -/
abbrev Dict (K V : Type) := Finmap fun _ : K ↦ V

namespace Dict

variable {K V : Type} [DecidableEq K]

/-- The number of entries. -/
def size (m : Dict K V) : ℕ := m.keys.card

/-- The map filled by a sequence of insertions. Later entries win. -/
def ofPairs (l : List (K × V)) : Dict K V :=
  l.foldl (fun m p ↦ m.insert p.1 p.2) ∅

/-- The value a listing gives to a key, read off as insertions do: the last one wins. -/
theorem lookup_foldl_insert (k : K) (l : List (K × V)) (m : Dict K V) (h : k ∉ l.map Prod.fst) :
    (l.foldl (fun m p ↦ m.insert p.1 p.2) m).lookup k = m.lookup k := by
  induction l generalizing m with
  | nil => rfl
  | cons p l ih =>
    simp only [List.map_cons, List.mem_cons, not_or] at h
    rw [List.foldl_cons, ih _ h.2, Finmap.lookup_insert_of_ne _ h.1]

/-- Inserting a list without repeated keys makes every entry of it available. -/
theorem lookup_foldl_insert_of_mem {k : K} {v : V} (l : List (K × V)) (m : Dict K V)
    (hnd : (l.map Prod.fst).Nodup) (h : (k, v) ∈ l) :
    (l.foldl (fun m p ↦ m.insert p.1 p.2) m).lookup k = some v := by
  induction l generalizing m with
  | nil => cases h
  | cons p l ih =>
    rw [List.map_cons, List.nodup_cons] at hnd
    rcases List.mem_cons.1 h with rfl | hmem
    · rw [List.foldl_cons, lookup_foldl_insert _ _ _ hnd.1, Finmap.lookup_insert]
    · exact ih _ hnd.2 hmem

/-- Erasing a key that was new takes back its insertion. -/
theorem erase_insert {m : Dict K V} {k : K} (h : m.lookup k = none) (v : V) :
    (m.insert k v).erase k = m := by
  apply Finmap.ext_lookup
  intro a
  by_cases ha : a = k
  · subst ha
    rw [Finmap.lookup_erase, h]
  · rw [Finmap.lookup_erase_ne ha, Finmap.lookup_insert_of_ne _ ha]

theorem size_insert_le (m : Dict K V) (k : K) (v : V) : size (m.insert k v) ≤ size m + 1 := by
  have h : (m.insert k v).keys ⊆ insert k m.keys := by
    intro a ha
    rw [Finmap.mem_keys, Finmap.mem_insert] at ha
    rw [Finset.mem_insert, Finmap.mem_keys]
    exact ha
  exact (Finset.card_le_card h).trans (Finset.card_insert_le _ _)

theorem size_insert {m : Dict K V} {k : K} (h : m.lookup k = none) (v : V) :
    size (m.insert k v) = size m + 1 := by
  have hk : k ∉ m.keys := by rwa [Finmap.mem_keys, ← Finmap.lookup_eq_none]
  have hkeys : (m.insert k v).keys = insert k m.keys := by
    ext a
    rw [Finmap.mem_keys, Finmap.mem_insert, Finset.mem_insert, Finmap.mem_keys]
  rw [size, hkeys, Finset.card_insert_of_notMem hk, size]

/-- The keys of a map that is filled one entry after another. -/
theorem keys_foldl_insert (l : List (K × V)) (m : Dict K V) :
    (l.foldl (fun m p ↦ m.insert p.1 p.2) m).keys = m.keys ∪ (l.map Prod.fst).toFinset := by
  induction l generalizing m with
  | nil => simp
  | cons p l ih =>
    rw [List.foldl_cons, ih]
    ext k
    simp only [Finset.mem_union, Finmap.mem_keys, Finmap.mem_insert, List.map_cons,
      List.toFinset_cons, Finset.mem_insert]
    tauto

/-- A map has as many entries as its list has different keys. -/
theorem size_ofPairs (l : List (K × V)) : size (ofPairs l) = (l.map Prod.fst).toFinset.card := by
  rw [size, ofPairs, keys_foldl_insert, Finmap.keys_empty, Finset.empty_union]

theorem size_ofPairs_le (l : List (K × V)) : size (ofPairs l) ≤ l.length := by
  have h := List.toFinset_card_le (l.map Prod.fst)
  rwa [List.length_map, ← size_ofPairs] at h

/-- What a filled map holds was put in. -/
theorem mem_of_lookup_ofPairs {k : K} {v : V} {l : List (K × V)} (h : (ofPairs l).lookup k = some v) :
    (k, v) ∈ l := by
  induction l using List.reverseRecOn with
  | nil => cases h
  | append_singleton l p ih =>
    rw [ofPairs, List.foldl_append, List.foldl_cons, List.foldl_nil, ← ofPairs] at h
    by_cases hk : k = p.1
    · subst hk
      rw [Finmap.lookup_insert] at h
      cases h
      exact List.mem_append_right _ (List.mem_singleton.2 rfl)
    · rw [Finmap.lookup_insert_of_ne _ hk] at h
      exact List.mem_append_left _ (ih h)

theorem size_erase_le (m : Dict K V) (k : K) : size (m.erase k) ≤ size m := by
  refine Finset.card_le_card fun a ha ↦ ?_
  rw [Finmap.mem_keys, Finmap.mem_erase] at ha
  exact Finmap.mem_keys.2 ha.2

omit [DecidableEq K] in
@[simp] theorem size_empty : size (∅ : Dict K V) = 0 := rfl

/-- A map whose keys have distinct numbers below a bound is at most that large. -/
theorem size_le_of_lt (m : Dict K V) (f : K → ℕ) (hf : Function.Injective f) {n : ℕ}
    (h : ∀ k v, m.lookup k = some v → f k < n) : size m ≤ n := by
  have hsub : m.keys.image f ⊆ Finset.range n := by
    intro x hx
    obtain ⟨k, hk, rfl⟩ := Finset.mem_image.1 hx
    obtain ⟨v, hv⟩ := Finmap.mem_iff.1 (Finmap.mem_keys.1 hk)
    exact Finset.mem_range.2 (h k v hv)
  have hcard := Finset.card_le_card hsub
  rwa [Finset.card_image_of_injective _ hf, Finset.card_range] at hcard

/-- The entries whose key satisfies a predicate: `retain`. -/
def filter (p : K → Prop) [DecidablePred p] (m : Dict K V) : Dict K V :=
  Finmap.keysLookupEquiv.symm ⟨(m.keys.filter p, fun k ↦ if p k then m.lookup k else none), by
    intro k
    dsimp only
    split <;> simp_all [Finmap.lookup_isSome, Finmap.mem_keys]⟩

@[simp] theorem lookup_filter (p : K → Prop) [DecidablePred p] (m : Dict K V) (k : K) :
    (m.filter p).lookup k = if p k then m.lookup k else none :=
  Finmap.keysLookupEquiv_symm_apply_lookup _ k

theorem size_filter_le (p : K → Prop) [DecidablePred p] (m : Dict K V) :
    size (m.filter p) ≤ size m := by
  unfold size filter
  rw [Finmap.keysLookupEquiv_symm_apply_keys]
  exact Finset.card_filter_le _ _

/-- The map with every value replaced: a loop over `values_mut`. -/
def mapValues {W : Type} (f : V → W) (m : Dict K V) : Dict K W :=
  Finmap.keysLookupEquiv.symm ⟨(m.keys, fun k ↦ (m.lookup k).map f), by
    intro k
    dsimp only
    rw [Option.isSome_map, Finmap.lookup_isSome, Finmap.mem_keys]⟩

@[simp] theorem lookup_mapValues {W : Type} (f : V → W) (m : Dict K V) (k : K) :
    (m.mapValues f).lookup k = (m.lookup k).map f :=
  Finmap.keysLookupEquiv_symm_apply_lookup _ k

/-- The map with every value replaced or dropped: `retain` with a closure that changes the values. -/
def filterMapValues {W : Type} (f : V → Option W) (m : Dict K V) : Dict K W :=
  Finmap.keysLookupEquiv.symm
    ⟨(m.keys.filter fun k ↦ ((m.lookup k).bind f).isSome, fun k ↦ (m.lookup k).bind f), by
      intro k
      dsimp only
      rw [Finset.mem_filter, Finmap.mem_keys, ← Finmap.lookup_isSome]
      cases m.lookup k <;> simp⟩

@[simp] theorem lookup_filterMapValues {W : Type} (f : V → Option W) (m : Dict K V) (k : K) :
    (m.filterMapValues f).lookup k = (m.lookup k).bind f :=
  Finmap.keysLookupEquiv_symm_apply_lookup _ k

end Dict

/-- An order of iteration for every finite map: a listing of its entries, each once. -/
structure Enumeration where
  /-- The listing. -/
  iter : ∀ {K V : Type} [DecidableEq K], Dict K V → AList fun _ : K ↦ V
  /-- It lists exactly the map. -/
  toFinmap_iter : ∀ {K V : Type} [DecidableEq K] (m : Dict K V), (iter m).toFinmap = m

namespace Enumeration

/-- There is an order of iteration. -/
theorem exists_iter {K V : Type} [DecidableEq K] (m : Dict K V) :
    ∃ a : AList fun _ : K ↦ V, a.toFinmap = m :=
  Finmap.induction_on m fun a ↦ ⟨a, rfl⟩

/-- Some order of iteration. -/
noncomputable def arbitrary : Enumeration where
  iter m := (exists_iter m).choose
  toFinmap_iter m := (exists_iter m).choose_spec

variable (σ : Enumeration) {K V : Type} [DecidableEq K]

/-- The entries in iteration order. -/
def list (m : Dict K V) : List (K × V) := (σ.iter m).entries.map fun s ↦ (s.1, s.2)

/-- The entries a loop starts with, as `values().next()` sees them. -/
def first? (m : Dict K V) : Option (K × V) := (σ.list m).head?

/-- A listing names no key twice, whatever its order. -/
theorem list_nodup (m : Dict K V) : ((σ.list m).map Prod.fst).Nodup := by
  have h := (σ.iter m).nodupKeys
  rw [list, List.map_map]
  exact h

/-- A listing contains what the map contains, whatever its order. -/
theorem mem_list_iff {m : Dict K V} {k : K} {v : V} :
    (k, v) ∈ σ.list m ↔ m.lookup k = some v := by
  have hlookup : m.lookup k = (σ.iter m).lookup k := by
    conv_lhs => rw [← σ.toFinmap_iter m]
    exact Finmap.lookup_toFinmap k _
  rw [hlookup, ← Option.mem_def, AList.mem_lookup_iff, list, List.mem_map]
  constructor
  · rintro ⟨⟨a, b⟩, hmem, heq⟩
    cases heq
    exact hmem
  · intro h
    exact ⟨⟨k, v⟩, h, rfl⟩

/-- **Rebuilding a map from a listing of it gives the map back.** -/
theorem ofPairs_list (m : Dict K V) : Dict.ofPairs (σ.list m) = m := by
  apply Finmap.ext_lookup
  intro k
  cases h : m.lookup k with
  | some v =>
    exact Dict.lookup_foldl_insert_of_mem _ _ (σ.list_nodup m) (σ.mem_list_iff.2 h)
  | none =>
    have hk : k ∉ (σ.list m).map Prod.fst := by
      intro hmem
      obtain ⟨⟨k', v⟩, hp, rfl⟩ := List.mem_map.1 hmem
      rw [σ.mem_list_iff.1 hp] at h
      cases h
    rw [Dict.ofPairs, Dict.lookup_foldl_insert _ _ _ hk, Finmap.lookup_empty]

/-- The same with every value replaced. -/
theorem ofPairs_map_list {W : Type} (f : V → W) (m : Dict K V) :
    Dict.ofPairs ((σ.list m).map fun e ↦ (e.1, f e.2)) = m.mapValues f := by
  have hfst : ((σ.list m).map fun e ↦ (e.1, f e.2)).map Prod.fst = (σ.list m).map Prod.fst := by
    rw [List.map_map]
    rfl
  apply Finmap.ext_lookup
  intro k
  rw [Dict.lookup_mapValues]
  cases h : m.lookup k with
  | some v =>
    refine Dict.lookup_foldl_insert_of_mem _ _ (hfst ▸ σ.list_nodup m) ?_
    exact List.mem_map.2 ⟨(k, v), σ.mem_list_iff.2 h, rfl⟩
  | none =>
    have hk : k ∉ ((σ.list m).map fun e ↦ (e.1, f e.2)).map Prod.fst := by
      rw [hfst]
      intro hmem
      obtain ⟨⟨k', v⟩, hp, rfl⟩ := List.mem_map.1 hmem
      rw [σ.mem_list_iff.1 hp] at h
      cases h
    rw [Dict.ofPairs, Dict.lookup_foldl_insert _ _ _ hk, Finmap.lookup_empty]
    rfl

@[simp] theorem length_list (m : Dict K V) : (σ.list m).length = m.size := by
  have hkeys : (m.keys).val = ((σ.iter m).keys : Multiset K) := by
    conv_lhs => rw [← σ.toFinmap_iter m]
    exact Finmap.keys_val _
  rw [list, List.length_map, Dict.size, Finset.card_def, hkeys, Multiset.coe_card, AList.keys,
    List.keys, List.length_map]

/-- The first entry of a listing is an entry of the map. -/
theorem lookup_of_first? {m : Dict K V} {k : K} {v : V} (h : σ.first? m = some (k, v)) :
    m.lookup k = some v :=
  σ.mem_list_iff.1 (List.mem_of_mem_head? h)

end Enumeration
