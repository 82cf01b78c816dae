import Mathlib.Data.Finset.Card
import Mathlib.Data.List.Sort
import Mathlib.Order.Lattice

/-!
# Ordered maps

A map that is iterated in the order of its keys, as a strictly sorted list of entries. The order is
part of the type, so two ordered maps with the same entries are equal, and refilling one from its own
listing gives it back (`ofPairs_entries`).
-/

/-- An ordered map. It is given by its entries in key order, as a B-tree lists them; no result
depends on the shape of the tree. -/
structure BTree (K V : Type) [LinearOrder K] where
  /-- The entries, in key order. -/
  entries : List (K × V)
  /-- Keys are strictly increasing. -/
  sorted : entries.Pairwise fun a b ↦ a.1 < b.1

namespace BTree

variable {K V : Type} [LinearOrder K]

@[ext] theorem ext {s t : BTree K V} (h : s.entries = t.entries) : s = t := by
  cases s
  cases t
  cases h
  rfl

instance [DecidableEq V] : DecidableEq (BTree K V) := fun s t ↦
  decidable_of_iff (s.entries = t.entries) ⟨BTree.ext, fun h ↦ h ▸ rfl⟩

/-- The empty map. -/
def empty : BTree K V := ⟨[], List.Pairwise.nil⟩

/-- The number of entries. -/
def size (t : BTree K V) : ℕ := t.entries.length

/-- The value of a key in a listing. -/
def find (k : K) : List (K × V) → Option V
  | [] => none
  | e :: es => if e.1 = k then some e.2 else find k es

/-- The value of a key. -/
def get? (t : BTree K V) (k : K) : Option V := find k t.entries

/-- Puts an entry in its place in a listing, replacing an entry with the same key. -/
def place (k : K) (v : V) : List (K × V) → List (K × V)
  | [] => [(k, v)]
  | e :: es =>
    if k < e.1 then (k, v) :: e :: es
    else if k = e.1 then (k, v) :: es
    else e :: place k v es

theorem mem_place {k : K} {v : V} {es : List (K × V)} {a : K × V} (h : a ∈ place k v es) :
    a = (k, v) ∨ a ∈ es := by
  induction es with
  | nil => exact .inl (List.mem_singleton.1 h)
  | cons e es ih =>
    unfold place at h
    split at h
    · exact (List.mem_cons.1 h).imp_right id
    split at h
    · exact (List.mem_cons.1 h).imp_right (List.mem_cons_of_mem _)
    · rcases List.mem_cons.1 h with rfl | h
      · exact .inr List.mem_cons_self
      · exact (ih h).imp_right (List.mem_cons_of_mem _)

theorem place_sorted {k : K} {v : V} {es : List (K × V)}
    (h : es.Pairwise fun a b ↦ a.1 < b.1) : (place k v es).Pairwise fun a b ↦ a.1 < b.1 := by
  induction es with
  | nil => exact List.pairwise_singleton _ _
  | cons e es ih =>
    obtain ⟨hlt, hes⟩ := List.pairwise_cons.1 h
    unfold place
    split
    · refine List.pairwise_cons.2 ⟨fun a ha ↦ ?_, h⟩
      rcases List.mem_cons.1 ha with rfl | ha
      · assumption
      · exact lt_trans ‹k < e.1› (hlt a ha)
    split
    · subst ‹k = e.1›
      exact List.pairwise_cons.2 ⟨hlt, hes⟩
    · refine List.pairwise_cons.2 ⟨fun a ha ↦ ?_, ih hes⟩
      rcases mem_place ha with rfl | ha
      · exact lt_of_le_of_ne (not_lt.1 ‹_›) (Ne.symm ‹_›)
      · exact hlt a ha

/-- Inserts an entry. -/
def insert (t : BTree K V) (k : K) (v : V) : BTree K V := ⟨place k v t.entries, place_sorted t.sorted⟩

/-- The map filled by a sequence of insertions. -/
def ofPairs (es : List (K × V)) : BTree K V := es.foldl (fun t e ↦ t.insert e.1 e.2) empty

/-- An entry behind all others is put at the end. -/
theorem place_last {k : K} {v : V} {es : List (K × V)} (h : ∀ a ∈ es, a.1 < k) :
    place k v es = es ++ [(k, v)] := by
  induction es with
  | nil => rfl
  | cons e es ih =>
    have he := h e List.mem_cons_self
    rw [place, if_neg (not_lt.2 he.le), if_neg he.ne',
      ih fun a ha ↦ h a (List.mem_cons_of_mem _ ha), List.cons_append]

/-- Entries that come in key order are appended one after the other, so that a listing of a map is
read back to it. -/
theorem foldl_insert_entries (es : List (K × V)) (t : BTree K V)
    (h : (t.entries ++ es).Pairwise fun a b ↦ a.1 < b.1) :
    (es.foldl (fun t e ↦ t.insert e.1 e.2) t).entries = t.entries ++ es := by
  induction es generalizing t with
  | nil => rw [List.append_nil]; rfl
  | cons e es ih =>
    have hlast : (t.insert e.1 e.2).entries = t.entries ++ [e] := by
      refine place_last fun a ha ↦ ?_
      exact (List.pairwise_append.1 h).2.2 a ha e List.mem_cons_self
    rw [List.foldl_cons, ih _ (by rw [hlast, List.append_assoc]; exact h), hlast,
      List.append_assoc, List.singleton_append]

/-- **Refilling a map from its own listing gives it back.** -/
theorem ofPairs_entries (t : BTree K V) : ofPairs t.entries = t :=
  BTree.ext (foldl_insert_entries t.entries empty t.sorted)

/-- A search finds the new entry under its key, and under every other key what was there before. -/
theorem find_place (k k' : K) (v : V) (es : List (K × V)) :
    find k' (place k v es) = if k = k' then some v else find k' es := by
  induction es with
  | nil => rfl
  | cons e es ih =>
    unfold place
    split
    · rfl
    split
    · subst ‹k = e.1›
      simp only [find]
      split
      · rfl
      · rfl
    · simp only [find, ih]
      split
      · subst ‹e.1 = k'›
        rw [if_neg ‹¬ k = e.1›]
      · rfl

/-- The keys, in order. -/
def keys (t : BTree K V) : List K := t.entries.map Prod.fst

theorem nodup_keys (t : BTree K V) : t.keys.Nodup := by
  refine List.pairwise_map.2 (t.sorted.imp fun h ↦ ?_)
  exact h.ne

@[simp] theorem length_keys (t : BTree K V) : t.keys.length = t.size := List.length_map _

theorem mem_map_fst_place (k k' : K) (v : V) (es : List (K × V)) :
    k' ∈ (place k v es).map Prod.fst ↔ k' = k ∨ k' ∈ es.map Prod.fst := by
  induction es with
  | nil => simp [place]
  | cons e es ih =>
    unfold place
    split
    · rw [List.map_cons, List.mem_cons]
    split
    · rename_i heq
      rw [List.map_cons, List.map_cons, List.mem_cons, List.mem_cons, ← heq]
      tauto
    · rw [List.map_cons, List.map_cons, List.mem_cons, List.mem_cons, ih]
      tauto

/-- The keys after an insertion are the new one and the old ones. -/
theorem mem_keys_insert (t : BTree K V) (k k' : K) (v : V) :
    k' ∈ (t.insert k v).keys ↔ k' = k ∨ k' ∈ t.keys :=
  mem_map_fst_place k k' v t.entries

theorem toFinset_keys_insert (t : BTree K V) (k : K) (v : V) :
    (t.insert k v).keys.toFinset = Insert.insert k t.keys.toFinset := by
  ext k'
  rw [List.mem_toFinset, mem_keys_insert, Finset.mem_insert, List.mem_toFinset]

theorem card_keys (t : BTree K V) : t.keys.toFinset.card = t.size := by
  rw [List.toFinset_card_of_nodup t.nodup_keys, length_keys]

theorem size_le_size_insert (t : BTree K V) (k : K) (v : V) : t.size ≤ (t.insert k v).size := by
  rw [← card_keys, ← card_keys, toFinset_keys_insert]
  exact Finset.card_le_card (Finset.subset_insert _ _)

/-- **A new key makes a map larger by one.** -/
theorem size_insert_of_notMem {t : BTree K V} {k : K} (h : k ∉ t.keys) (v : V) :
    (t.insert k v).size = t.size + 1 := by
  rw [← card_keys, ← card_keys, toFinset_keys_insert,
    Finset.card_insert_of_notMem (fun hk ↦ h (List.mem_toFinset.1 hk))]

@[simp] theorem get?_insert (t : BTree K V) (k k' : K) (v : V) :
    (t.insert k v).get? k' = if k = k' then some v else t.get? k' :=
  find_place k k' v t.entries

end BTree

/-- Machine integers are ordered by value. -/
instance UInt16.linearOrder : LinearOrder UInt16 :=
  LinearOrder.lift' UInt16.toNat fun _ _ h ↦ UInt16.toNat_inj.1 h
