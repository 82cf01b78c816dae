import VoiceChatCrypto.MlKem.Fips

/-!
# The transforms of the code

`ntt`, `ntt_inv` and `multiply_ntts` against the homomorphism `NTT`, its inverse and the product of the
standard. Both loops run through the layers of `Butterfly.forward` and `Butterfly.backward`, with the
powers of 17 in bit-reversed order as factors; the three facts about these factors that the transforms
rest on are finite and are evaluated.
-/

namespace VoiceChatCrypto

namespace MlKem

open Fips203 (Zq)

/-! ### Arithmetic -/

variable {a b : ℕ}

theorem fqAdd_lt (ha : a < q) (hb : b < q) : fqAdd a b < q := by
  unfold fqAdd
  unfold q at *
  dsimp only
  split <;> omega

theorem fqSub_lt (ha : a < q) (hb : b < q) : fqSub a b < q := by
  unfold fqSub
  unfold q at *
  split <;> omega

theorem fqMul_lt (a b : ℕ) : fqMul a b < q := Nat.mod_lt _ (by decide)

theorem cast_fqAdd (ha : a < q) (hb : b < q) : (fqAdd a b : Zq) = a + b := by
  have h : fqAdd a b = (a + b) % 3329 := by
    unfold fqAdd
    unfold q at *
    dsimp only
    split <;> omega
  rw [h, ZMod.natCast_mod, Nat.cast_add]

theorem cast_fqSub (ha : a < q) (hb : b < q) : (fqSub a b : Zq) = a - b := by
  have h : (fqSub a b + b) % 3329 = a % 3329 := by
    unfold fqSub
    unfold q at *
    split <;> omega
  have hcast := congrArg (Nat.cast : ℕ → Zq) h
  rw [ZMod.natCast_mod, ZMod.natCast_mod, Nat.cast_add] at hcast
  exact eq_sub_of_add_eq hcast

theorem cast_fqMul (a b : ℕ) : (fqMul a b : Zq) = a * b := by
  rw [fqMul, barrett, q, ZMod.natCast_mod, Nat.cast_mul]

/-- All coefficients are reduced, as the functions of the code expect of their arguments and promise
of their results. -/
def Reduced (f : Coeffs) : Prop := ∀ i < 256, f i < q

/-- The coefficients as residues. -/
def vals (f : Coeffs) (i : ℕ) : Zq := (f i : ℕ)

/-! ### Layers -/

/-- A layer, coefficient by coefficient: `lo` and `up` combine the halves of a block. -/
def combineLayer (lo up : ℕ → ℕ → ℕ → ℕ) (z : ℕ → ℕ) (len : ℕ) (f : Coeffs) (i : ℕ) : ℕ :=
  if i % (2 * len) < len then lo (z (i / (2 * len))) (f i) (f (i + len))
  else up (z (i / (2 * len))) (f (i - len)) (f i)

/-- A step of an inner loop: two entries are replaced. -/
def combine (lo up : ℕ → ℕ → ℕ) (len : ℕ) (f : Coeffs) (j : ℕ) : Coeffs :=
  Function.update (Function.update f (j + len) (up (f j) (f (j + len)))) j (lo (f j) (f (j + len)))

variable {len M : ℕ} {f g : Coeffs} {z : ℕ → ℕ}

/-- The inner loop on one block. -/
theorem foldl_combine (lo up : ℕ → ℕ → ℕ) (start : ℕ) (f : Coeffs) {n : ℕ} (hn : n ≤ len) (i : ℕ) :
    (List.range' start n).foldl (combine lo up len) f i =
      if start ≤ i ∧ i < start + n then lo (f i) (f (i + len))
      else if start + len ≤ i ∧ i < start + len + n then up (f (i - len)) (f i)
      else f i := by
  induction n generalizing i with
  | zero =>
    rw [if_neg (by omega), if_neg (by omega)]
    rfl
  | succ n ih =>
    have ih := fun i ↦ ih (by omega) i
    rw [List.range'_1_concat, List.foldl_append, List.foldl_cons, List.foldl_nil, combine]
    -- the step reads two entries that were not written before
    have hj : (List.range' start n).foldl (combine lo up len) f (start + n) = f (start + n) := by
      rw [ih, if_neg (by omega), if_neg (by omega)]
    have hjlen : (List.range' start n).foldl (combine lo up len) f (start + n + len) =
        f (start + n + len) := by
      rw [ih, if_neg (by omega), if_neg (by omega)]
    rw [hj, hjlen]
    by_cases h₁ : i = start + n
    · subst h₁
      rw [Function.update_self, if_pos (by omega)]
    by_cases h₂ : i = start + n + len
    · subst h₂
      rw [Function.update_of_ne h₁, Function.update_self, if_neg (by omega), if_pos (by omega),
        show start + n + len - len = start + n by omega]
    · rw [Function.update_of_ne h₁, Function.update_of_ne h₂, ih]
      split
      · rw [if_pos (by omega)]
      · split
        · rw [if_neg (by omega), if_pos (by omega)]
        · rw [if_neg (by omega), if_neg (by omega)]

/-- The same as a part of the layer. -/
theorem foldl_combine_block (lo up : ℕ → ℕ → ℕ → ℕ) (zeta b : ℕ) (f : Coeffs) (i : ℕ) :
    (List.range' (2 * len * b) len).foldl (combine (lo zeta) (up zeta) len) f i =
      if 2 * len * b ≤ i ∧ i < 2 * len * b + 2 * len then combineLayer lo up (fun _ ↦ zeta) len f i
      else f i := by
  rw [foldl_combine _ _ _ _ le_rfl]
  by_cases h₁ : 2 * len * b ≤ i ∧ i < 2 * len * b + len
  · obtain ⟨j, rfl⟩ := Nat.exists_eq_add_of_le h₁.1
    rw [if_pos h₁, if_pos (by omega), combineLayer, Butterfly.mod_lower (by omega),
      if_pos (by omega)]
  by_cases h₂ : 2 * len * b + len ≤ i ∧ i < 2 * len * b + len + len
  · obtain ⟨j, rfl⟩ : ∃ j, i = 2 * len * b + (j + len) := ⟨i - 2 * len * b - len, by omega⟩
    rw [if_neg h₁, if_pos h₂, if_pos (by omega), combineLayer, Butterfly.mod_upper (by omega),
      if_neg (by omega)]
  · rw [if_neg h₁, if_neg h₂, if_neg (by omega)]

/-- **The loop over the blocks** is a layer, from the block it starts with on. -/
theorem blockLoop_eq {step : ℕ → ℕ → Coeffs → ℕ → Coeffs} {lo up : ℕ → ℕ → ℕ → ℕ}
    (hstep : ∀ zeta f j, step zeta len f j = combine (lo zeta) (up zeta) len f j) (next : ℕ → ℕ)
    (hM : 2 * len * M = 256) {b : ℕ} (hb : b ≤ M) (k : ℕ) (f : Coeffs) :
    (blockLoop step next len k (2 * len * b) f).1 = next^[M - b] k ∧
      ∀ i < 256, (blockLoop step next len k (2 * len * b) f).2 i =
        if i < 2 * len * b then f i
        else combineLayer lo up (fun b' ↦ zetaPowBitrev (next^[b' - b] k)) len f i := by
  have hlen : 0 < len := Nat.pos_of_ne_zero fun h ↦ by simp [h] at hM
  induction hc : M - b generalizing b k f with
  | zero =>
    obtain rfl : b = M := by omega
    rw [blockLoop, if_neg (by omega)]
    exact ⟨rfl, fun i hi ↦ by rw [if_pos (by omega)]⟩
  | succ c ih =>
    have hlt : 2 * len * b < 256 := by
      rw [← hM]
      exact Nat.mul_lt_mul_of_pos_left (by omega) (by omega)
    have hfold : (List.range' (2 * len * b) len).foldl (step (zetaPowBitrev k) len) f =
        (List.range' (2 * len * b) len).foldl
          (combine (lo (zetaPowBitrev k)) (up (zetaPowBitrev k)) len) f := by
      congr 1
      funext f j
      exact hstep _ f j
    rw [blockLoop, if_pos ⟨hlt, hlen⟩, hfold, show 2 * len * b + 2 * len = 2 * len * (b + 1) by ring]
    obtain ⟨hk, hg⟩ := ih (show b + 1 ≤ M by omega) (next k)
      ((List.range' (2 * len * b) len).foldl
        (combine (lo (zetaPowBitrev k)) (up (zetaPowBitrev k)) len) f) (by omega)
    refine ⟨hk, fun i hi ↦ ?_⟩
    rw [hg i hi]
    have hf : ∀ i, i < 2 * len * b ∨ 2 * len * b + 2 * len ≤ i →
        (List.range' (2 * len * b) len).foldl
          (combine (lo (zetaPowBitrev k)) (up (zetaPowBitrev k)) len) f i = f i := by
      intro i hi
      rw [foldl_combine_block, if_neg (by omega)]
    by_cases hbelow : i < 2 * len * b
    · rw [if_pos (by rw [Nat.mul_succ]; omega), if_pos hbelow, hf i (.inl hbelow)]
    rw [if_neg hbelow]
    by_cases hblock : i < 2 * len * (b + 1)
    · have hdiv : i / (2 * len) = b := by
        rw [Nat.div_eq_iff (by omega)]
        rw [Nat.mul_succ] at hblock
        exact ⟨by rw [Nat.mul_comm]; omega, by rw [Nat.mul_comm b]; omega⟩
      rw [if_pos hblock, foldl_combine_block, if_pos (by rw [Nat.mul_succ] at hblock; omega),
        combineLayer, combineLayer, hdiv, Nat.sub_self, Function.iterate_zero_apply]
    · have hdiv : b + 1 ≤ i / (2 * len) := by
        rw [Nat.le_div_iff_mul_le (by omega), Nat.mul_comm]
        exact not_lt.1 hblock
      rw [Nat.mul_succ] at hblock
      have hlower : ∀ i', 2 * len * b + 2 * len ≤ i' → _ := fun i' h ↦ hf i' (.inr h)
      rw [if_neg (by rw [Nat.mul_succ]; omega), combineLayer, combineLayer,
        show i / (2 * len) - b = i / (2 * len) - (b + 1) + 1 by omega,
        Function.iterate_succ_apply, hlower i (by omega), hlower (i + len) (by omega)]
      split
      · rfl
      · rename_i hmod
        rw [hlower]
        -- the upper half of a block starts `len` entries after the block
        have hpos := Nat.div_add_mod i (2 * len)
        have hle : 2 * len * (b + 1) ≤ 2 * len * (i / (2 * len)) := Nat.mul_le_mul_left _ hdiv
        rw [Nat.mul_succ] at hle
        omega

/-- The two halves of a block in `ntt`. -/
def nttLo (zeta x y : ℕ) : ℕ := fqAdd x (fqMul zeta y)

@[inherit_doc nttLo]
def nttUp (zeta x y : ℕ) : ℕ := fqSub x (fqMul zeta y)

/-- The two halves of a block in `ntt_inv`. -/
def nttInvLo (_zeta x y : ℕ) : ℕ := fqAdd x y

@[inherit_doc nttInvLo]
def nttInvUp (zeta x y : ℕ) : ℕ := fqMul zeta (fqSub y x)

/-- A butterfly combines two places and leaves the others. -/
theorem butterfly_eq (hlen : 0 < len) (zeta : ℕ) (f : Coeffs) (j : ℕ) :
    butterfly zeta len f j = combine (nttLo zeta) (nttUp zeta) len f j := by
  unfold butterfly
  dsimp only
  rw [Function.update_of_ne (show j ≠ j + len by omega)]
  rfl

theorem butterflyInv_eq (hlen : 0 < len) (zeta : ℕ) (f : Coeffs) (j : ℕ) :
    butterflyInv zeta len f j = combine (nttInvLo zeta) (nttInvUp zeta) len f j := by
  unfold butterflyInv
  dsimp only
  rw [Function.update_of_ne (show j + len ≠ j by omega), Function.update_comm (by omega)]
  rfl

/-- The upper half of a block stays within the array. -/
theorem lower_add_lt (hM : 2 * len * M = 256) {i : ℕ} (hi : i < 256) (hmod : i % (2 * len) < len) :
    i + len < 256 := by
  obtain ⟨b, hb, j, hj, h⟩ := Butterfly.position_cases (hM ▸ hi)
  have hlt := Butterfly.block_lt hb hj
  rcases h with rfl | rfl
  · omega
  · rw [Butterfly.mod_upper hj] at hmod
    omega

/-- **A layer of `ntt`** on residues. -/
theorem nttLayer_spec (hf : Reduced f) :
    Reduced (combineLayer nttLo nttUp z len f) ∧ ∀ i < 256,
      vals (combineLayer nttLo nttUp z len f) i = Butterfly.layer (vals z) len (vals f) i := by
  refine ⟨fun i hi ↦ ?_, fun i hi ↦ ?_⟩
  · unfold combineLayer
    split
    · exact fqAdd_lt (hf i hi) (fqMul_lt _ _)
    · exact fqSub_lt (hf _ (by omega)) (fqMul_lt _ _)
  · unfold vals combineLayer Butterfly.layer
    split
    · rw [nttLo, cast_fqAdd (hf i hi) (fqMul_lt _ _), cast_fqMul]
    · rw [nttUp, cast_fqSub (hf _ (by omega)) (fqMul_lt _ _), cast_fqMul]

/-- **A layer of `ntt_inv`** on residues. -/
theorem nttInvLayer_spec (hM : 2 * len * M = 256) (hf : Reduced f) :
    Reduced (combineLayer nttInvLo nttInvUp z len f) ∧ ∀ i < 256,
      vals (combineLayer nttInvLo nttInvUp z len f) i =
        Butterfly.unlayer (vals z) len (vals f) i := by
  refine ⟨fun i hi ↦ ?_, fun i hi ↦ ?_⟩
  · unfold combineLayer
    split
    · rename_i hmod
      exact fqAdd_lt (hf i hi) (hf _ (lower_add_lt hM hi hmod))
    · exact fqMul_lt _ _
  · unfold vals combineLayer Butterfly.unlayer
    split
    · rename_i hmod
      rw [nttInvLo, cast_fqAdd (hf i hi) (hf _ (lower_add_lt hM hi hmod))]
    · rw [nttInvUp, cast_fqMul, cast_fqSub (hf i hi) (hf _ (by omega))]

/-- Whether an array is reduced depends on its 256 places. -/
theorem Reduced.congr (hg : Reduced g) (h : ∀ i < 256, f i = g i) : Reduced f := by
  intro i hi
  rw [h i hi]
  exact hg i hi

theorem iterate_succ_eq (n k : ℕ) : (fun k ↦ k + 1)^[n] k = k + n := by
  induction n generalizing k with
  | zero => rfl
  | succ n ih =>
    rw [Function.iterate_succ_apply, ih]
    omega

theorem iterate_pred_eq (n k : ℕ) : (fun k ↦ k - 1)^[n] k = k - n := by
  induction n generalizing k with
  | zero => rfl
  | succ n ih =>
    rw [Function.iterate_succ_apply, ih]
    omega

/-- The factors of the transforms, as residues. -/
def zeta (k : ℕ) : Zq := (zetaPowBitrev k : ℕ)

/-- One layer of the loop is a layer of the transform, and keeps the array reduced. -/
theorem nttBlocks_spec (hM : 2 * len * M = 256) (hf : Reduced f) :
    (nttBlocks len M 0 f).1 = 2 * M ∧ Reduced (nttBlocks len M 0 f).2 ∧ ∀ i < 256,
      vals (nttBlocks len M 0 f).2 i =
        Butterfly.layer (fun b ↦ zeta (M + b)) len (vals f) i := by
  have hlen : 0 < len := Nat.pos_of_ne_zero fun h ↦ by simp [h] at hM
  obtain ⟨hk, hg⟩ := blockLoop_eq (butterfly_eq hlen) (fun k ↦ k + 1) hM (Nat.zero_le M) M f
  simp only [iterate_succ_eq, Nat.mul_zero, Nat.sub_zero, not_lt_zero, if_false] at hk hg
  obtain ⟨hreduced, hvals⟩ :
      Reduced (combineLayer nttLo nttUp (fun b ↦ zetaPowBitrev (M + b)) len f) ∧ _ :=
    nttLayer_spec hf
  refine ⟨by rw [nttBlocks, hk]; omega, hreduced.congr hg, fun i hi ↦ ?_⟩
  rw [vals, nttBlocks, hg i hi]
  exact hvals i hi

/-- One layer of the inverse loop is an inverse layer. -/
theorem nttInvBlocks_spec (hM : 2 * len * M = 256) (hf : Reduced f) :
    (nttInvBlocks len (2 * M - 1) 0 f).1 = M - 1 ∧ Reduced (nttInvBlocks len (2 * M - 1) 0 f).2 ∧
      ∀ i < 256, vals (nttInvBlocks len (2 * M - 1) 0 f).2 i =
        Butterfly.unlayer (fun b ↦ zeta (2 * M - 1 - b)) len (vals f) i := by
  have hlen : 0 < len := Nat.pos_of_ne_zero fun h ↦ by simp [h] at hM
  obtain ⟨hk, hg⟩ := blockLoop_eq (butterflyInv_eq hlen) (fun k ↦ k - 1) hM (Nat.zero_le M)
    (2 * M - 1) f
  simp only [iterate_pred_eq, Nat.mul_zero, Nat.sub_zero, not_lt_zero, if_false] at hk hg
  obtain ⟨hreduced, hvals⟩ :=
    nttInvLayer_spec (z := fun b ↦ zetaPowBitrev (2 * M - 1 - b)) hM hf
  refine ⟨by rw [nttInvBlocks, hk]; omega, hreduced.congr hg, fun i hi ↦ ?_⟩
  rw [vals, nttInvBlocks, hg i hi]
  exact hvals i hi

/-- **The loop of `ntt`** runs through the layers of the forward transform. -/
theorem nttLayers_spec {c : ℕ} (hM : 2 * 2 ^ c * M = 256) (hf : Reduced f) :
    Reduced (nttLayers (2 ^ c) M f) ∧ ∀ i < 256,
      vals (nttLayers (2 ^ c) M f) i = Butterfly.forward zeta c M (vals f) i := by
  induction c generalizing M f with
  | zero =>
    rw [nttLayers, if_neg (by decide)]
    exact ⟨hf, fun _ _ ↦ rfl⟩
  | succ c ih =>
    have hpow : 2 ≤ 2 ^ (c + 1) := by
      rw [pow_succ]
      have := Nat.two_pow_pos c
      omega
    have hhalf : 2 ^ (c + 1) / 2 = 2 ^ c := by
      rw [pow_succ, Nat.mul_div_cancel _ (by decide)]
    obtain ⟨hk, hreduced, hvals⟩ := nttBlocks_spec hM hf
    have hM' : 2 * 2 ^ c * (2 * M) = 256 := by rw [← hM, Butterfly.size_succ]
    obtain ⟨hreduced', hvals'⟩ := ih hM' hreduced
    have hrec : nttLayers (2 ^ (c + 1)) M f =
        nttLayers (2 ^ c) (2 * M) (nttBlocks (2 ^ (c + 1)) M 0 f).2 := by
      rw [nttLayers, if_pos hpow, hhalf, ← hk]
    rw [hrec]
    refine ⟨hreduced', fun i hi ↦ ?_⟩
    rw [hvals' i hi, Butterfly.forward]
    have hcongr := Butterfly.forward_congr (z := zeta) (c := c) (M := 2 * M)
      (f := vals (nttBlocks (2 ^ (c + 1)) M 0 f).2)
      (g := Butterfly.layer (fun b ↦ zeta (M + b)) (2 ^ (c + 1)) (vals f)) 1
      (fun i hi ↦ by rw [one_mul, hvals i (hM' ▸ hi)]) (hM' ▸ hi)
    rwa [one_mul] at hcongr

/-- **The loop of `ntt_inv`** runs through the layers of the backward transform. Before it comes to the
layer with `2 ^ c` blocks, it has undone the ones below. -/
theorem nttInvLayers_spec {c : ℕ} (hc : c ≤ 7) {h : ℕ → Zq} (hg : Reduced g)
    (hvals : ∀ i < 256, vals g i = Butterfly.backward zeta (7 - c) (2 ^ c) h i) :
    Reduced (nttInvLayers (2 ^ (8 - c)) (2 ^ c - 1) g) ∧ ∀ i < 256,
      vals (nttInvLayers (2 ^ (8 - c)) (2 ^ c - 1) g) i = Butterfly.backward zeta 7 1 h i := by
  induction c generalizing g with
  | zero =>
    rw [nttInvLayers, if_neg (by decide)]
    exact ⟨hg, hvals⟩
  | succ c ih =>
    have hle : 2 ^ (8 - (c + 1)) ≤ 128 := by
      rw [show 128 = 2 ^ 7 by rfl]
      exact Nat.pow_le_pow_right (by decide) (by omega)
    have hM : 2 * 2 ^ (8 - (c + 1)) * 2 ^ c = 256 := by
      rw [← pow_succ', ← pow_add, show 8 - (c + 1) + 1 + c = 8 by omega]
      rfl
    obtain ⟨hk, hreduced, hlayer⟩ := nttInvBlocks_spec hM hg
    rw [← pow_succ'] at hk hreduced hlayer
    have hrec : nttInvLayers (2 ^ (8 - (c + 1))) (2 ^ (c + 1) - 1) g =
        nttInvLayers (2 ^ (8 - c)) (2 ^ c - 1)
          (nttInvBlocks (2 ^ (8 - (c + 1))) (2 ^ (c + 1) - 1) 0 g).2 := by
      rw [nttInvLayers, if_pos ⟨hle, Nat.two_pow_pos _⟩, ← pow_succ', ← hk,
        show 8 - (c + 1) + 1 = 8 - c by omega]
    rw [hrec]
    refine ih (by omega) hreduced fun i hi ↦ ?_
    rw [hlayer i hi, show 7 - c = 7 - (c + 1) + 1 by omega, Butterfly.backward,
      show 7 - (c + 1) + 1 = 8 - (c + 1) by omega, ← pow_succ']
    have hcongr := Butterfly.unlayer_congr (w := fun b ↦ zeta (2 ^ (c + 1) - 1 - b))
      (f := vals g) (g := Butterfly.backward zeta (7 - (c + 1)) (2 ^ (c + 1)) h) 1
      (fun i hi ↦ by rw [one_mul, hvals i (hM ▸ hi)]) (hM ▸ hi)
    rwa [one_mul] at hcongr

/-! ### The factors -/

theorem cast_zetaPow (n : ℕ) : (zetaPow n : Zq) = 17 ^ n := by
  induction n with
  | zero => rfl
  | succ n ih =>
    rw [zetaPow, Function.iterate_succ_apply', ← zetaPow, q, ZMod.natCast_mod, Nat.cast_mul, ih,
      pow_succ]
    rfl

/-- The roots of the inverse layers are those of the layers, in reverse. -/
theorem zetaPowBitrev_mirrored : ∀ l < 7, ∀ b < 2 ^ l,
    zetaPowBitrev (2 * 2 ^ l - 1 - b) * zetaPowBitrev (2 ^ l + b) % 3329 = 3328 := by
  decide +kernel

/-- The roots of a layer are square roots of those of the layer before. -/
theorem zetaPowBitrev_root : ∀ k < 128, 1 ≤ k →
    (zetaPowBitrev k ^ 2 + if k % 2 = 0 then 3329 - zetaPowBitrev (k / 2)
      else zetaPowBitrev (k / 2)) % 3329 = 0 := by
  decide +kernel

/-- The numbers `γ` are the roots of the last layer, with both signs. -/
theorem gammaTable_node : ∀ i < 128,
    (gammaTable i + if i % 2 = 0 then 3329 - zetaPowBitrev (64 + i / 2)
      else zetaPowBitrev (64 + i / 2)) % 3329 = 0 := by
  decide +kernel

theorem zetaPowBitrev_lt : ∀ k < 128, zetaPowBitrev k < 3329 := by
  decide +kernel

/-- The bit reversal of the code is that of the standard. -/
theorem bitrev7_eq : ∀ i < 128, bitrev7 i = Fips203.bitRev7 i := by
  decide +kernel

/-- A table of factors against one of values, as both were evaluated. -/
theorem cast_eq_node {x k : ℕ} (hk : k / 2 < 128)
    (h : (x + if k % 2 = 0 then 3329 - zetaPowBitrev (k / 2) else zetaPowBitrev (k / 2)) % 3329 = 0) :
    (x : Zq) = Butterfly.node zeta k := by
  have hcast := congrArg (Nat.cast : ℕ → Zq) h
  have hlt := zetaPowBitrev_lt (k / 2) hk
  rw [ZMod.natCast_mod, Nat.cast_add, Nat.cast_zero] at hcast
  unfold Butterfly.node zeta
  split
  · rename_i heven
    rw [if_pos heven, Nat.cast_sub hlt.le, show ((3329 : ℕ) : Zq) = 0 by rfl] at hcast
    linear_combination hcast
  · rename_i hodd
    rw [if_neg hodd] at hcast
    linear_combination hcast

/-- **Every factor is a root of its node.** -/
theorem zeta_root {k : ℕ} (h1 : 1 ≤ k) (hk : k < 128) : zeta k ^ 2 = Butterfly.node zeta k := by
  have h := cast_eq_node (by omega) (zetaPowBitrev_root k hk h1)
  rwa [Nat.cast_pow] at h

/-- **The factors of a level, backwards, are minus the inverses**: that is why `ntt_inv` may go
through the same table in reverse and exchange the difference. -/
theorem zeta_mirrored : Butterfly.Mirrored zeta 7 1 := by
  intro l hl b hb
  rw [Nat.mul_one] at hb ⊢
  have h := congrArg (Nat.cast : ℕ → Zq) (zetaPowBitrev_mirrored l hl b hb)
  rw [ZMod.natCast_mod, Nat.cast_mul] at h
  exact h

/-- The moduli of the standard are the nodes of the last level. -/
theorem gamma_eq_node (i : Fin 128) : Fips203.gamma i = Butterfly.node zeta (128 + i) := by
  have hnode : ((gammaTable i : ℕ) : Zq) = Butterfly.node zeta (128 + i) := by
    refine cast_eq_node (by omega) ?_
    rw [show (128 + (i : ℕ)) % 2 = i % 2 by omega, show (128 + (i : ℕ)) / 2 = 64 + i / 2 by omega]
    exact gammaTable_node i i.2
  rw [← hnode, gammaTable, cast_zetaPow, bitrev7_eq i i.2, Fips203.gamma]

/-- The table holds the numbers `γ` of the standard. -/
theorem gammaTable_cast (i : Fin 128) : ((gammaTable i : ℕ) : Zq) = Fips203.gamma i := by
  rw [gammaTable, cast_zetaPow, bitrev7_eq i i.2, Fips203.gamma]

/-! ### The standard -/

/-- **The forward transform is `NTT`.** -/
theorem ntt_toRq (f : ℕ → Zq) :
    Fips203.ntt (Fips203.toRq f) = Fips203.toTq (Butterfly.forward zeta 7 1 f) := by
  refine Residue.splitHom_ofCoeffs _ _ fun i j hj ↦ ?_
  have h := Butterfly.residues_forward (z := zeta) (f := f) (c := 7) (M := 1)
    (fun k h1 hk ↦ zeta_root h1 (by simpa using hk)) (Butterfly.residues_self f _ _)
  have hi := h i (by simp) j hj
  rw [hi, gamma_eq_node]
  rfl

/-- **The scaled inverse transform is undone by the transform**: seven layers double seven times,
and 3303 is the inverse of 128. -/
theorem forward_scaled (g : ℕ → Zq) {i : ℕ} (hi : i < 256) :
    Butterfly.forward zeta 7 1 (fun i ↦ 3303 * Butterfly.backward zeta 7 1 g i) i = g i := by
  have h := Butterfly.forward_congr (z := zeta) (c := 7) (M := 1)
    (f := fun i ↦ 3303 * Butterfly.backward zeta 7 1 g i) (g := Butterfly.backward zeta 7 1 g) 3303
    (fun _ _ ↦ rfl) hi
  rw [h, Butterfly.forward_backward zeta_mirrored hi, ← mul_assoc]
  have hinv : (3303 : Zq) * 2 ^ 7 = 1 := by decide +kernel
  rw [hinv, one_mul]

/-- **`NTT` is injective.** -/
theorem ntt_injective : Function.Injective Fips203.ntt := by
  intro u v huv
  have hn : (Polynomial.X ^ 256 + 1 : Polynomial Zq).natDegree = 256 := Residue.natDegree_add_one 256
  have hu : Fips203.toRq (Fips203.coeffs u) = u := Residue.ofCoeffs_coeffs _ hn u
  have hv : Fips203.toRq (Fips203.coeffs v) = v := Residue.ofCoeffs_coeffs _ hn v
  rw [← hu, ← hv, ntt_toRq, ntt_toRq] at huv
  have hforward := Residue.pairs_injective huv
  rw [← hu, ← hv]
  refine Residue.ofCoeffs_congr fun i hi ↦ ?_
  -- both are the backward transform of one value, up to the factor
  have hback := Butterfly.backward_congr (z := zeta) (c := 7) (M := 1)
    (f := Butterfly.forward zeta 7 1 (Fips203.coeffs u))
    (g := Butterfly.forward zeta 7 1 (Fips203.coeffs v)) 1
    (fun i hi ↦ by rw [one_mul, hforward i hi]) hi
  rw [one_mul, Butterfly.backward_forward zeta_mirrored hi,
    Butterfly.backward_forward zeta_mirrored hi] at hback
  have hinv : (3303 : Zq) * 2 ^ 7 = 1 := by decide +kernel
  linear_combination 3303 * hback - (Fips203.coeffs u i - Fips203.coeffs v i) * hinv

/-- **The backward transform is `NTT⁻¹`.** -/
theorem nttInv_toTq (g : ℕ → Zq) :
    Fips203.nttInv (Fips203.toTq g) =
      Fips203.toRq fun i ↦ 3303 * Butterfly.backward zeta 7 1 g i := by
  have h : Fips203.toTq g =
      Fips203.ntt (Fips203.toRq fun i ↦ 3303 * Butterfly.backward zeta 7 1 g i) := by
    rw [ntt_toRq]
    exact Residue.pairs_congr fun i hi ↦ (forward_scaled g hi).symm
  rw [h]
  exact Function.leftInverse_invFun ntt_injective _

/-- **`ntt` is `NTT`.** -/
theorem ntt_spec (hf : Reduced f) :
    Reduced (ntt f) ∧ Fips203.toTq (vals (ntt f)) = Fips203.ntt (Fips203.toRq (vals f)) := by
  obtain ⟨hreduced, hvals⟩ := nttLayers_spec (c := 7) (M := 1) rfl hf
  exact ⟨hreduced, by rw [ntt_toRq]; exact Residue.pairs_congr hvals⟩

/-- **`ntt_inv` is `NTT⁻¹`.** -/
theorem nttInv_spec (hf : Reduced f) :
    Reduced (nttInv f) ∧
      Fips203.toRq (vals (nttInv f)) = Fips203.nttInv (Fips203.toTq (vals f)) := by
  obtain ⟨-, hvals⟩ := nttInvLayers_spec (c := 7) (h := vals f) le_rfl hf fun i _ ↦ rfl
  refine ⟨fun i _ ↦ fqMul_lt _ _, ?_⟩
  rw [nttInv_toTq]
  refine Residue.ofCoeffs_congr fun i hi ↦ ?_
  rw [← hvals i hi, vals, nttInv, cast_fqMul, mul_comm]
  rfl

/-! ### Products -/

/-- The loop of `multiply_ntts`. -/
theorem multiplyNtts_foldl (a b : Coeffs) {n i : ℕ} (hi : i < n) (out : Coeffs)
    (hout : out = (List.range n).foldl (fun (out : Coeffs) i ↦
      let (c0, c1) := baseMul (a (2 * i)) (a (2 * i + 1)) (b (2 * i)) (b (2 * i + 1)) (gammaTable i)
      Function.update (Function.update out (2 * i) c0) (2 * i + 1) c1) fun _ ↦ 0) :
    (out (2 * i), out (2 * i + 1)) =
      baseMul (a (2 * i)) (a (2 * i + 1)) (b (2 * i)) (b (2 * i + 1)) (gammaTable i) := by
  subst hout
  induction n with
  | zero => cases hi
  | succ n ih =>
    rw [List.range_succ, List.foldl_append, List.foldl_cons, List.foldl_nil]
    dsimp only
    by_cases h : i = n
    · subst h
      rw [Function.update_of_ne (show 2 * i ≠ 2 * i + 1 by omega), Function.update_self,
        Function.update_self]
    · rw [Function.update_of_ne (show 2 * i ≠ 2 * n + 1 by omega),
        Function.update_of_ne (show 2 * i ≠ 2 * n by omega),
        Function.update_of_ne (show 2 * i + 1 ≠ 2 * n + 1 by omega),
        Function.update_of_ne (show 2 * i + 1 ≠ 2 * n by omega)]
      exact ih (by omega)

/-- **`multiply_ntts` is the product of `T_q`.** -/
theorem multiplyNtts_spec (a b : Coeffs) :
    Reduced (multiplyNtts a b) ∧
      Fips203.toTq (vals (multiplyNtts a b)) =
        Fips203.toTq (vals a) * Fips203.toTq (vals b) := by
  have hloop : ∀ i < 128,
      multiplyNtts a b (2 * i) = fqAdd (fqMul (a (2 * i)) (b (2 * i)))
        (fqMul (fqMul (a (2 * i + 1)) (b (2 * i + 1))) (gammaTable i)) ∧
      multiplyNtts a b (2 * i + 1) =
        fqAdd (fqMul (a (2 * i)) (b (2 * i + 1))) (fqMul (a (2 * i + 1)) (b (2 * i))) :=
    fun i hi ↦ Prod.mk.inj (multiplyNtts_foldl a b hi _ rfl)
  constructor
  · intro i hi
    obtain ⟨heven, hodd⟩ := hloop (i / 2) (by omega)
    rcases Nat.mod_two_eq_zero_or_one i with h | h
    · rw [show i = 2 * (i / 2) by omega, heven]
      exact fqAdd_lt (fqMul_lt _ _) (fqMul_lt _ _)
    · rw [show i = 2 * (i / 2) + 1 by omega, hodd]
      exact fqAdd_lt (fqMul_lt _ _) (fqMul_lt _ _)
  · refine (Residue.pairs_mul _ _ _ (fun i ↦ ?_) fun i ↦ ?_).symm
    · rw [vals, (hloop i i.2).1, cast_fqAdd (fqMul_lt _ _) (fqMul_lt _ _), cast_fqMul, cast_fqMul,
        cast_fqMul, gammaTable_cast]
      rfl
    · rw [vals, (hloop i i.2).2, cast_fqAdd (fqMul_lt _ _) (fqMul_lt _ _), cast_fqMul, cast_fqMul]
      rfl

/-- **Adding up coefficients** is adding up in `R_q` and in `T_q`. -/
theorem addNtts_spec {f g : Coeffs} (hf : Reduced f) (hg : Reduced g) :
    Reduced (addNtts f g) ∧
      Fips203.toRq (vals (addNtts f g)) = Fips203.toRq (vals f) + Fips203.toRq (vals g) ∧
      Fips203.toTq (vals (addNtts f g)) = Fips203.toTq (vals f) + Fips203.toTq (vals g) := by
  have hvals : ∀ i < 256, vals (addNtts f g) i = vals f i + vals g i :=
    fun i hi ↦ cast_fqAdd (hf i hi) (hg i hi)
  refine ⟨fun i hi ↦ fqAdd_lt (hf i hi) (hg i hi), ?_, ?_⟩
  · exact (Residue.ofCoeffs_congr hvals).trans (Residue.ofCoeffs_add _ _).symm
  · exact (Residue.pairs_congr hvals).trans (Residue.pairs_add _ _).symm

end MlKem

end VoiceChatCrypto
