import Mathlib.Order.Basic
import Mathlib.Order.Lattice

/-!
# Values that are used once

A source of values, each at one position of a linear order. It yields them in order and can put aside
those it passes: what lies behind its **frontier** is in the store or gone, what lies ahead is still to
come. What the source can still **yield** only becomes less (`Fill`), and a use takes its value away
for good (`Use`).
-/

namespace Stock

variable {α κ V : Type*} [LinearOrder α] {At : α → V → Prop} {F F' F'' : α} {m m' m'' : κ → Option V}
  {v w : V}

/-- What is in the store lies behind the frontier, under one name. The frontier is where the source
of the values has come to. -/
structure Holds (At : α → V → Prop) (F : α) (m : κ → Option V) : Prop where
  /-- Every value in the store is one that the frontier has passed. -/
  behind : ∀ {k v}, m k = some v → ∃ a < F, At a v
  /-- No value is stored under two names. -/
  distinct : ∀ {k k' v}, m k = some v → m k' = some v → k = k'

/-- **What the source can still give**: what is in the store, and what lies ahead. -/
def Yields (At : α → V → Prop) (F : α) (m : κ → Option V) (v : V) : Prop :=
  (∃ k, m k = some v) ∨ ∃ a, F ≤ a ∧ At a v

/-- The frontier moves on, and some of the values it passes are put aside. Values that are passed
and not put aside are gone. -/
structure Fill (At : α → V → Prop) (F : α) (m : κ → Option V) (F' : α) (m' : κ → Option V) :
    Prop where
  /-- After the move the store is still behind the frontier. -/
  holds : Holds At F' m'
  /-- Nothing can be got now that could not be got before. -/
  yields : ∀ {v}, Yields At F' m' v → Yields At F m v

/-- **One use** of the source: a value that it could give, and cannot give again. -/
structure Use (At : α → V → Prop) (F : α) (m : κ → Option V) (v : V) (F' : α) (m' : κ → Option V) :
    Prop extends Fill At F m F' m' where
  /-- The value could be got before. -/
  source : Yields At F m v
  /-- It cannot be got any more. -/
  gone : ¬ Yields At F' m' v

theorem Holds.empty (At : α → V → Prop) (F : α) : Holds At F fun _ : κ ↦ none where
  behind := by
    intro k v h
    cases h
  distinct := by
    intro k k' v h
    cases h

/-- The frontier moves on, and nothing is put aside. -/
theorem Holds.fill_of_le (h : Holds At F m) (hle : F ≤ F') : Fill At F m F' m where
  holds :=
    { behind := by
        intro k v hk
        obtain ⟨a, ha, hv⟩ := h.behind hk
        exact ⟨a, ha.trans_le hle, hv⟩
      distinct := h.distinct }
  yields := by
    rintro v (hk | ⟨a, ha, hv⟩)
    · exact .inl hk
    · exact .inr ⟨a, hle.trans ha, hv⟩

section Functional

variable (hAt : ∀ a b v, At a v → At b v → a = b)
include hAt

/-- What is in the store does not lie ahead. -/
theorem Holds.not_ahead (h : Holds At F m) {k : κ} (hk : m k = some v) {a : α} (ha : F ≤ a) :
    ¬ At a v := by
  intro hv
  obtain ⟨b, hb, hv'⟩ := h.behind hk
  exact absurd (hAt _ _ _ hv hv' ▸ ha) hb.not_ge

/-- A value out of the store. -/
theorem Holds.use_stored [DecidableEq κ] (h : Holds At F m) {k : κ} (hk : m k = some v)
    (hm' : ∀ j, m' j = if j = k then none else m j) : Use At F m v F m' := by
  have hsub : ∀ {j w}, m' j = some w → j ≠ k ∧ m j = some w := by
    intro j w hj
    rw [hm'] at hj
    split at hj
    · cases hj
    · exact ⟨‹_›, hj⟩
  refine ⟨⟨⟨fun hj ↦ h.behind (hsub hj).2, fun hj hj' ↦ h.distinct (hsub hj).2 (hsub hj').2⟩, ?_⟩,
    .inl ⟨k, hk⟩, ?_⟩
  · rintro w (⟨j, hj⟩ | hahead)
    · exact .inl ⟨j, (hsub hj).2⟩
    · exact .inr hahead
  · rintro (⟨j, hj⟩ | ⟨a, ha, hv⟩)
    · exact (hsub hj).1 (h.distinct (hsub hj).2 hk)
    · exact h.not_ahead hAt hk ha hv

/-- Values from ahead are put aside, each under a name of its position. -/
theorem Holds.fill (h : Holds At F m) (hle : F ≤ F') (name : α → κ)
    (hm' : ∀ {k v}, m' k = some v → m k = some v ∨ ∃ a, F ≤ a ∧ a < F' ∧ At a v ∧ name a = k) :
    Fill At F m F' m' where
  holds :=
    { behind := by
        intro k v hk
        rcases hm' hk with hold | ⟨a, -, ha, hv, -⟩
        · obtain ⟨a, ha, hv⟩ := h.behind hold
          exact ⟨a, ha.trans_le hle, hv⟩
        · exact ⟨a, ha, hv⟩
      distinct := by
        intro k k' v hk hk'
        rcases hm' hk with hold | ⟨a, ha, -, hv, hname⟩
        · rcases hm' hk' with hold' | ⟨b, hb, -, hv', -⟩
          · exact h.distinct hold hold'
          · exact absurd hv' (h.not_ahead hAt hold hb)
        · rcases hm' hk' with hold' | ⟨b, hb, -, hv', hname'⟩
          · exact absurd hv (h.not_ahead hAt hold' ha)
          · rw [← hname, ← hname', hAt _ _ _ hv hv'] }
  yields := by
    rintro v (⟨k, hk⟩ | ⟨a, ha, hv⟩)
    · rcases hm' hk with hold | ⟨a, ha, -, hv, -⟩
      · exact .inl ⟨k, hold⟩
      · exact .inr ⟨a, ha, hv⟩
    · exact .inr ⟨a, hle.trans ha, hv⟩

/-- The value at the frontier. -/
theorem Holds.use_next (h : Holds At F m) (hv : At F v) (hlt : F < F') : Use At F m v F' m := by
  refine ⟨h.fill_of_le hlt.le, .inr ⟨F, le_rfl, hv⟩, ?_⟩
  rintro (⟨k, hk⟩ | ⟨a, ha, hv'⟩)
  · exact h.not_ahead hAt hk le_rfl hv
  · exact absurd (hAt _ _ _ hv hv' ▸ ha) hlt.not_ge

end Functional

end Stock
