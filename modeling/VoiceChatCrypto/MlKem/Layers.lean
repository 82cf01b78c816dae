import Mathlib.Algebra.BigOperators.Ring.Finset
import Mathlib.Tactic.LinearCombination
import Mathlib.Tactic.Ring

/-!
# Butterfly layers

A fast transform over a commutative ring is a sequence of layers. A layer cuts the entries into blocks
of `2 * len` and combines the two halves of block `b` with a factor `z b`; the next layer does the same
to the halves. The factors are numbered as the nodes of a heap: the children of block `k` are `2 * k`
and `2 * k + 1`.

Two facts are all that is used of it.

* A block holds a residue of the input: if it is the residue modulo `X ^ (2 * len) - z ^ 2`, its halves
  after the layer are the residues modulo `X ^ len - z` and `X ^ len + z` (`Residues.layer`). After all
  layers the blocks have two entries and hold the residues modulo `X ^ 2 - r` (`residues_forward`).
* A layer is undone, up to a factor of two, by the layer with the inverse factors. When the factors
  stand in the opposite order of their inverses, the same table serves both ways (`backward_forward`,
  `forward_backward`).
-/

namespace Butterfly

variable {R : Type*} [CommRing R]

/-- One layer: sum and difference of the two halves of each block. -/
def layer (z : ℕ → R) (len : ℕ) (f : ℕ → R) (i : ℕ) : R :=
  if i % (2 * len) < len then f i + z (i / (2 * len)) * f (i + len)
  else f (i - len) - z (i / (2 * len)) * f i

/-- The layer that undoes one, up to a factor of two. -/
def unlayer (w : ℕ → R) (len : ℕ) (f : ℕ → R) (i : ℕ) : R :=
  if i % (2 * len) < len then f i + f (i + len)
  else w (i / (2 * len)) * (f i - f (i - len))

section Positions

variable {len b j : ℕ}

theorem div_lower (hj : j < len) : (2 * len * b + j) / (2 * len) = b := by
  rw [Nat.mul_add_div (by omega), Nat.div_eq_of_lt (by omega), Nat.add_zero]

theorem div_upper (hj : j < len) : (2 * len * b + (j + len)) / (2 * len) = b := by
  rw [Nat.mul_add_div (by omega), Nat.div_eq_of_lt (by omega), Nat.add_zero]

theorem mod_lower (hj : j < len) : (2 * len * b + j) % (2 * len) = j := by
  rw [Nat.mul_add_mod, Nat.mod_eq_of_lt (by omega)]

theorem mod_upper (hj : j < len) : (2 * len * b + (j + len)) % (2 * len) = j + len := by
  rw [Nat.mul_add_mod, Nat.mod_eq_of_lt (by omega)]

/-- Every position is in the lower or the upper half of its block. -/
theorem position_cases {i M : ℕ} (hi : i < 2 * len * M) :
    ∃ b < M, ∃ j < len, i = 2 * len * b + j ∨ i = 2 * len * b + (j + len) := by
  have hlen : 0 < 2 * len := Nat.pos_of_ne_zero fun h ↦ by simp [h] at hi
  have hb : i / (2 * len) < M := Nat.div_lt_of_lt_mul hi
  have hmod := Nat.mod_lt i hlen
  have hdiv := Nat.div_add_mod i (2 * len)
  by_cases h : i % (2 * len) < len
  · exact ⟨i / (2 * len), hb, i % (2 * len), h, .inl hdiv.symm⟩
  · exact ⟨i / (2 * len), hb, i % (2 * len) - len, by omega, .inr (by omega)⟩

end Positions

section Values

variable {len b j : ℕ} (f : ℕ → R)

theorem layer_lower (z : ℕ → R) (hj : j < len) :
    layer z len f (2 * len * b + j) =
      f (2 * len * b + j) + z b * f (2 * len * b + (j + len)) := by
  rw [layer, mod_lower hj, if_pos hj, div_lower hj, Nat.add_assoc]

theorem layer_upper (z : ℕ → R) (hj : j < len) :
    layer z len f (2 * len * b + (j + len)) =
      f (2 * len * b + j) - z b * f (2 * len * b + (j + len)) := by
  rw [layer, mod_upper hj, if_neg (by omega), div_upper hj,
    show 2 * len * b + (j + len) - len = 2 * len * b + j by omega]

/-- The lower half of a block after an inverse layer. -/
theorem unlayer_lower (w : ℕ → R) (hj : j < len) :
    unlayer w len f (2 * len * b + j) =
      f (2 * len * b + j) + f (2 * len * b + (j + len)) := by
  rw [unlayer, mod_lower hj, if_pos hj, Nat.add_assoc]

/-- The upper half of a block after an inverse layer. -/
theorem unlayer_upper (w : ℕ → R) (hj : j < len) :
    unlayer w len f (2 * len * b + (j + len)) =
      w b * (f (2 * len * b + (j + len)) - f (2 * len * b + j)) := by
  rw [unlayer, mod_upper hj, if_neg (by omega), div_upper hj,
    show 2 * len * b + (j + len) - len = 2 * len * b + j by omega]

end Values

variable {z w : ℕ → R} {len M : ℕ} {f g : ℕ → R}

/-- **Undoing a layer** doubles: the sum and the difference of a pair give back twice its members.
The factors are collected and divided out at the end. -/
theorem unlayer_layer (h : ∀ b < M, w b * z b = -1) {i : ℕ} (hi : i < 2 * len * M) :
    unlayer w len (layer z len f) i = 2 * f i := by
  obtain ⟨b, hb, j, hj, rfl | rfl⟩ := position_cases hi
  · rw [unlayer_lower _ _ hj, layer_lower _ _ hj, layer_upper _ _ hj]
    ring
  · rw [unlayer_upper _ _ hj, layer_lower _ _ hj, layer_upper _ _ hj]
    linear_combination -2 * f (2 * len * b + (j + len)) * h b hb

/-- **Redoing a layer** doubles. -/
theorem layer_unlayer (h : ∀ b < M, w b * z b = -1) {i : ℕ} (hi : i < 2 * len * M) :
    layer z len (unlayer w len f) i = 2 * f i := by
  obtain ⟨b, hb, j, hj, rfl | rfl⟩ := position_cases hi
  · rw [layer_lower _ _ hj, unlayer_lower _ _ hj, unlayer_upper _ _ hj]
    linear_combination (f (2 * len * b + (j + len)) - f (2 * len * b + j)) * h b hb
  · rw [layer_upper _ _ hj, unlayer_lower _ _ hj, unlayer_upper _ _ hj]
    linear_combination -(f (2 * len * b + (j + len)) - f (2 * len * b + j)) * h b hb

/-- The upper half of a block stays within the array. -/
theorem block_lt {b j : ℕ} (hb : b < M) (hj : j < len) : 2 * len * b + (j + len) < 2 * len * M := by
  have h : 2 * len * (b + 1) ≤ 2 * len * M := Nat.mul_le_mul_left _ hb
  rw [Nat.mul_add, Nat.mul_one] at h
  omega

/-- A layer reads no entry behind the last block, and multiples go through it. -/
theorem layer_congr (c : R) (h : ∀ i < 2 * len * M, f i = c * g i) {i : ℕ} (hi : i < 2 * len * M) :
    layer z len f i = c * layer z len g i := by
  obtain ⟨b, hb, j, hj, rfl | rfl⟩ := position_cases hi
  all_goals
    have hupper := h _ (block_lt hb hj)
    have hlower := h (2 * len * b + j) (by have := block_lt hb hj; omega)
  · rw [layer_lower _ _ hj, layer_lower _ _ hj, hlower, hupper]
    ring
  · rw [layer_upper _ _ hj, layer_upper _ _ hj, hlower, hupper]
    ring

/-- A constant factor passes through an inverse layer. -/
theorem unlayer_congr (c : R) (h : ∀ i < 2 * len * M, f i = c * g i) {i : ℕ}
    (hi : i < 2 * len * M) : unlayer w len f i = c * unlayer w len g i := by
  obtain ⟨b, hb, j, hj, rfl | rfl⟩ := position_cases hi
  all_goals
    have hupper := h _ (block_lt hb hj)
    have hlower := h (2 * len * b + j) (by have := block_lt hb hj; omega)
  · rw [unlayer_lower _ _ hj, unlayer_lower _ _ hj, hlower, hupper]
    ring
  · rw [unlayer_upper _ _ hj, unlayer_upper _ _ hj, hlower, hupper]
    ring

/-! ### Residues -/

/-- A sum over the first `2 * m` indices, the even and the odd ones apart. -/
theorem sum_range_two_mul (m : ℕ) (u : ℕ → R) :
    ∑ s ∈ Finset.range (2 * m), u s =
      ∑ t ∈ Finset.range m, u (2 * t) + ∑ t ∈ Finset.range m, u (2 * t + 1) := by
  induction m with
  | zero => simp
  | succ m ih =>
    rw [Nat.mul_succ, Finset.sum_range_succ, Finset.sum_range_succ, ih, Finset.sum_range_succ,
      Finset.sum_range_succ]
    ring

/-- Block `b` of `g` is `f` modulo `X ^ n - r b`: there are `M` blocks of `n` entries, and `f` has
`n * M`. -/
def Residues (f : ℕ → R) (r : ℕ → R) (M n : ℕ) (g : ℕ → R) : Prop :=
  ∀ b < M, ∀ j < n, g (n * b + j) = ∑ t ∈ Finset.range M, f (j + n * t) * r b ^ t

/-- The input is its own residue. -/
theorem residues_self (f : ℕ → R) (r : ℕ → R) (n : ℕ) : Residues f r 1 n f := by
  intro b hb j _
  obtain rfl : b = 0 := by omega
  simp

/-- **A layer splits every residue in two**: modulo `X^(2 len) - c²` a polynomial is given by its
residues modulo `X^len - c` and `X^len + c`. -/
theorem Residues.layer {r r' : ℕ → R} (h : Residues f r M (2 * len) g)
    (hz : ∀ b < M, z b ^ 2 = r b) (heven : ∀ b < M, r' (2 * b) = z b)
    (hodd : ∀ b < M, r' (2 * b + 1) = -z b) :
    Residues f r' (2 * M) len (Butterfly.layer z len g) := by
  intro b' hb' j hj
  have hb : b' / 2 < M := by omega
  -- the two halves of a block, with the even and the odd powers of the new root
  have hsum : ∀ s : R, s ^ 2 = r (b' / 2) →
      ∑ t ∈ Finset.range (2 * M), f (j + len * t) * s ^ t =
        g (2 * len * (b' / 2) + j) + s * g (2 * len * (b' / 2) + (j + len)) := by
    intro s hs
    rw [h _ hb j (by omega), h _ hb (j + len) (by omega), sum_range_two_mul, Finset.mul_sum]
    congr 1
    · refine Finset.sum_congr rfl fun t _ ↦ ?_
      rw [pow_mul, hs, ← Nat.mul_assoc, Nat.mul_comm len 2]
    · refine Finset.sum_congr rfl fun t _ ↦ ?_
      rw [pow_succ, pow_mul, hs, show j + len * (2 * t + 1) = j + len + 2 * len * t by ring]
      ring
  rcases Nat.mod_two_eq_zero_or_one b' with heq | heq
  · have hb' : b' = 2 * (b' / 2) := by omega
    have hr : r' b' = z (b' / 2) := by rw [hb', heven _ hb, ← hb']
    rw [hr, hsum _ (hz _ hb), show len * b' + j = 2 * len * (b' / 2) + j by
      conv_lhs => rw [hb']
      ring, layer_lower _ _ hj]
  · have hb' : b' = 2 * (b' / 2) + 1 := by omega
    have hr : r' b' = -z (b' / 2) := by rw [hb', hodd _ hb, ← hb']
    rw [hr, hsum _ (by rw [neg_sq, hz _ hb]),
      show len * b' + j = 2 * len * (b' / 2) + (j + len) by
        conv_lhs => rw [hb']
        ring, layer_upper _ _ hj]
    ring

/-! ### All layers -/

/-- The root at a node of the heap of factors: the factor of its parent, or minus it. -/
def node (z : ℕ → R) (k : ℕ) : R := if k % 2 = 0 then z (k / 2) else -z (k / 2)

/-- `c` layers, from `M` blocks on. -/
def forward (z : ℕ → R) : ℕ → ℕ → (ℕ → R) → ℕ → R
  | 0, _, f => f
  | c + 1, M, f => forward z c (2 * M) (layer (fun b ↦ z (M + b)) (2 ^ (c + 1)) f)

/-- The same layers undone, the last one first, with the factors in the opposite order. -/
def backward (z : ℕ → R) : ℕ → ℕ → (ℕ → R) → ℕ → R
  | 0, _, f => f
  | c + 1, M, f => unlayer (fun b ↦ z (2 * M - 1 - b)) (2 ^ (c + 1)) (backward z c (2 * M) f)

/-- **The transform evaluates.** If every factor is a root of its node, the blocks of two that the last
layer leaves are the residues at the nodes of the last level. -/
theorem residues_forward {c : ℕ} (hz : ∀ k, M ≤ k → k < 2 ^ c * M → z k ^ 2 = node z k)
    (h : Residues f (fun b ↦ node z (M + b)) M (2 * 2 ^ c) g) :
    Residues f (fun b ↦ node z (2 ^ c * M + b)) (2 ^ c * M) 2 (forward z c M g) := by
  induction c generalizing M g with
  | zero => simpa [forward] using h
  | succ c ih =>
    have hpow : 2 ^ (c + 1) * M = 2 ^ c * (2 * M) := by ring
    have hle : 2 * M ≤ 2 ^ c * (2 * M) := Nat.le_mul_of_pos_left _ (Nat.two_pow_pos c)
    have hstep : Residues f (fun b ↦ node z (2 * M + b)) (2 * M) (2 * 2 ^ c)
        (layer (fun b ↦ z (M + b)) (2 ^ (c + 1)) g) := by
      rw [← Nat.pow_succ']
      refine Residues.layer h (fun b hb ↦ hz (M + b) (by omega) (by omega)) ?_ ?_
      · intro b _
        show node z (2 * M + 2 * b) = z (M + b)
        rw [node, if_pos (by omega), show (2 * M + 2 * b) / 2 = M + b by omega]
      · intro b _
        show node z (2 * M + (2 * b + 1)) = -z (M + b)
        rw [node, if_neg (by omega), show (2 * M + (2 * b + 1)) / 2 = M + b by omega]
    rw [hpow] at hz ⊢
    exact ih (fun k hk hk' ↦ hz k (by omega) hk') hstep

section Inverse

/-- The factors of each level, taken backwards, are minus the inverses of the factors. -/
def Mirrored (z : ℕ → R) (c M : ℕ) : Prop :=
  ∀ l < c, ∀ b < 2 ^ l * M, z (2 * (2 ^ l * M) - 1 - b) * z (2 ^ l * M + b) = -1

/-- In each layer the inverse takes its roots in reverse order. -/
theorem Mirrored.first {c : ℕ} (h : Mirrored z (c + 1) M) :
    ∀ b < M, z (2 * M - 1 - b) * z (M + b) = -1 := by
  intro b hb
  simpa using h 0 (by omega) b (by simpa using hb)

/-- The layers after the first are mirrored among themselves. -/
theorem Mirrored.rest {c : ℕ} (h : Mirrored z (c + 1) M) : Mirrored z c (2 * M) := by
  intro l hl b hb
  have hpow : 2 ^ l * (2 * M) = 2 ^ (l + 1) * M := by ring
  rw [hpow] at hb ⊢
  exact h (l + 1) (by omega) b hb

/-- One layer less has twice as many blocks of half the size. -/
theorem size_succ (c M : ℕ) : 2 * 2 ^ (c + 1) * M = 2 * 2 ^ c * (2 * M) := by ring

/-- The transform reads no entry behind the last block, and multiples go through it. -/
theorem forward_congr {c : ℕ} (a : R) (h : ∀ i < 2 * 2 ^ c * M, f i = a * g i) {i : ℕ}
    (hi : i < 2 * 2 ^ c * M) : forward z c M f i = a * forward z c M g i := by
  induction c generalizing M f g i with
  | zero => exact h i hi
  | succ c ih =>
    rw [size_succ] at hi
    refine ih (fun i hi ↦ ?_) hi
    rw [← size_succ] at hi
    exact layer_congr a h hi

/-- A constant factor passes through all inverse layers. -/
theorem backward_congr {c : ℕ} (a : R) (h : ∀ i < 2 * 2 ^ c * M, f i = a * g i) {i : ℕ}
    (hi : i < 2 * 2 ^ c * M) : backward z c M f i = a * backward z c M g i := by
  induction c generalizing M i with
  | zero => exact h i hi
  | succ c ih =>
    refine unlayer_congr a (fun i hi ↦ ?_) hi
    rw [size_succ] at h hi
    exact ih h hi

/-- **The backward transform undoes the forward one**, up to a power of two. -/
theorem backward_forward {c : ℕ} (h : Mirrored z c M) {i : ℕ} (hi : i < 2 * 2 ^ c * M) :
    backward z c M (forward z c M f) i = 2 ^ c * f i := by
  induction c generalizing M f i with
  | zero => simp [backward, forward]
  | succ c ih =>
    have hrest := unlayer_congr (w := fun b ↦ z (2 * M - 1 - b)) (2 ^ c)
      (fun i hi ↦ ih (f := layer (fun b ↦ z (M + b)) (2 ^ (c + 1)) f) h.rest
        (by rwa [size_succ] at hi)) hi
    rw [backward, forward, hrest, unlayer_layer h.first hi, pow_succ]
    ring

/-- **And the other way round.** -/
theorem forward_backward {c : ℕ} (h : Mirrored z c M) {i : ℕ} (hi : i < 2 * 2 ^ c * M) :
    forward z c M (backward z c M f) i = 2 ^ c * f i := by
  induction c generalizing M f i with
  | zero => simp [backward, forward]
  | succ c ih =>
    have hlayer : ∀ i < 2 * 2 ^ (c + 1) * M,
        layer (fun b ↦ z (M + b)) (2 ^ (c + 1)) (backward z (c + 1) M f) i =
          2 * backward z c (2 * M) f i :=
      fun i hi ↦ layer_unlayer h.first hi
    rw [size_succ] at hi hlayer
    rw [forward, forward_congr 2 hlayer hi, ih h.rest hi, pow_succ]
    ring

end Inverse

end Butterfly
