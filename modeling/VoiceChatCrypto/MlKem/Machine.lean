import VoiceChatCrypto.Data.Checked
import VoiceChatCrypto.MlKem.Transform

/-!
# The transforms on machine words

`ntt`, `ntt_inv` and `multiply_ntts` once more, now with the checks that the machine makes: an index
that is out of range and a sum, difference or product that leaves its word **panic**.

A store into an array of coefficients panics also on a value that is not reduced. The source has no
such check; with it, a transform that returns has written reduced entries only, at every step.

Every run on reduced coefficients returns what the functions of `MlKem.Code` compute. The product of
two transforms, transformed back, is therefore the product in `ℤ_q[X] / (X²⁵⁶ + 1)`.
-/

namespace VoiceChatCrypto

namespace MlKem

namespace Machine

open Checked
open Fips203 (Zq)

/-! ### Arithmetic -/

/-- `barrett`. -/
def barrett (x : ℕ) : ℕ := x % q % 2 ^ 16

/-- `fq_add`. -/
def fqAdd (a b : ℕ) : Checked Empty ℕ := do
  let s ← add 32 a b
  if q ≤ s then do
    let s ← sub s q
    return s % 2 ^ 16
  else return s % 2 ^ 16

/-- `fq_sub`. -/
def fqSub (a b : ℕ) : Checked Empty ℕ :=
  if b ≤ a then sub a b
  else do
    let s ← add 32 a q
    let s ← sub s b
    return s % 2 ^ 16

/-- `fq_mul`. -/
def fqMul (a b : ℕ) : Checked Empty ℕ := do
  let p ← mul 32 a b
  return barrett p

variable {a b : ℕ}

theorem barrett_eq (x : ℕ) : barrett x = MlKem.barrett x := by
  have hlt : x % q < 2 ^ 16 := (Nat.mod_lt x (by decide)).trans (by decide)
  exact Nat.mod_eq_of_lt hlt

theorem fqAdd_eq (ha : a < q) (hb : b < q) : fqAdd a b = ok (MlKem.fqAdd a b) := by
  unfold q at ha hb
  rw [fqAdd, add_of_lt (by omega), ok_bind, MlKem.fqAdd]
  split
  · rename_i hle
    rw [sub_of_le hle]
    rfl
  · rfl

theorem fqSub_eq (ha : a < q) (hb : b < q) : fqSub a b = ok (MlKem.fqSub a b) := by
  rw [fqSub, MlKem.fqSub]
  unfold q at *
  split
  · rename_i hle
    exact sub_of_le hle
  · rw [add_of_lt (by omega), ok_bind, sub_of_le (by omega)]
    rfl

theorem fqMul_eq (ha : a < q) (hb : b < q) : fqMul a b = ok (MlKem.fqMul a b) := by
  have hlt : a * b < 2 ^ 32 := by
    have h := Nat.mul_le_mul ha.le hb.le
    unfold q at h
    omega
  rw [fqMul, mul_of_lt hlt, ok_bind, barrett_eq]
  rfl

/-! ### Tables -/

/-- The powers of 17 that the two tables start from. -/
def powers (n : ℕ) : Checked Empty (List ℕ × ℕ) :=
  (List.range n).foldlM (fun (pow, curr) _ ↦ do
    let next ← mul 32 curr 17
    return (pow ++ [curr % 2 ^ 16], next % q)) ([], 1)

/-- `zeta_pow_bitrev`. -/
def zetaPowBitrev : Checked Empty (List ℕ) := do
  let (pow, _) ← powers 128
  each (fun i ↦ index pow (bitrev7 i)) (List.range 128)

/-- `gamma_table`. -/
def gammaTable : Checked Empty (List ℕ) := do
  let (zpow, _) ← powers 256
  each (fun i ↦ index zpow (2 * bitrev7 i + 1)) (List.range 128)

theorem zetaPow_lt (n : ℕ) : zetaPow n < q := by
  cases n with
  | zero => decide
  | succ n =>
    rw [zetaPow, Function.iterate_succ_apply']
    exact Nat.mod_lt _ (by decide)

/-- The loop that fills the table computes it without overflow. -/
theorem powers_eq (n : ℕ) : powers n = ok ((List.range n).map zetaPow, zetaPow n) := by
  induction n with
  | zero => rfl
  | succ n ih =>
    have hlt := zetaPow_lt n
    have hnext : zetaPow (n + 1) = zetaPow n * 17 % q := Function.iterate_succ_apply' _ _ _
    unfold powers at ih ⊢
    rw [List.range_succ, List.foldlM_append, ih, ok_bind, List.foldlM_cons, List.map_append]
    dsimp only
    rw [mul_of_lt (by unfold q at hlt; omega), ok_bind, hnext,
      Nat.mod_eq_of_lt (show zetaPow n < 2 ^ 16 by unfold q at hlt; omega)]
    rfl

/-- A table that reads the powers at computed places. -/
theorem table_eq {n : ℕ} {at' : ℕ → ℕ} (h : ∀ i < 128, at' i < n) :
    each (fun i ↦ (index ((List.range n).map zetaPow) (at' i) : Checked Empty ℕ)) (List.range 128) =
      ok ((List.range 128).map fun i ↦ zetaPow (at' i)) := by
  refine each_eq_ok fun i hi ↦ ?_
  have hlt := h i (List.mem_range.1 hi)
  rw [index_of_lt (by simpa using hlt) 0, List.getD_eq_getElem _ _ (by simpa using hlt),
    List.getElem_map, List.getElem_range]

theorem bitrev7_lt : ∀ i < 128, bitrev7 i < 128 := by decide +kernel

theorem zetaPowBitrev_eq : zetaPowBitrev = ok ((List.range 128).map MlKem.zetaPowBitrev) := by
  rw [zetaPowBitrev, powers_eq, ok_bind]
  exact table_eq bitrev7_lt

theorem gammaTable_eq : gammaTable = ok ((List.range 128).map MlKem.gammaTable) := by
  rw [gammaTable, powers_eq, ok_bind]
  refine table_eq fun i hi ↦ ?_
  have := bitrev7_lt i hi
  omega

/-- Reading a table of 128 entries. -/
theorem index_table (t : ℕ → ℕ) {k : ℕ} (hk : k < 128) :
    (index ((List.range 128).map t) k : Checked Empty ℕ) = ok (t k) := by
  rw [index_of_lt (by simpa using hk) 0, List.getD_eq_getElem _ _ (by simpa using hk),
    List.getElem_map, List.getElem_range]

/-! ### Transforms -/

/-- `f[i]`. -/
def get (f : Coeffs) (i : ℕ) : Checked Empty ℕ := if i < 256 then ok (f i) else panic

/-- `f[i] = v`, of a reduced value. -/
def set (f : Coeffs) (i v : ℕ) : Checked Empty Coeffs :=
  if i < 256 ∧ v < q then ok (Function.update f i v) else panic

/-- The loop over the blocks of a layer. -/
def blockLoop (z : List ℕ) (step : ℕ → ℕ → Coeffs → ℕ → Checked Empty Coeffs) (next : ℕ → ℕ)
    (len k start : ℕ) (f : Coeffs) : Checked Empty (ℕ × Coeffs) :=
  if start < 256 ∧ 0 < len then do
    let zeta ← index z k
    let f ← (List.range' start len).foldlM (step zeta len) f
    blockLoop z step next len (next k) (start + 2 * len) f
  else return (k, f)
termination_by 256 - start

/-- One step of the inner loop of `ntt`. -/
def butterfly (zeta len : ℕ) (f : Coeffs) (j : ℕ) : Checked Empty Coeffs := do
  let t ← fqMul zeta (← get f (j + len))
  let f ← set f (j + len) (← fqSub (← get f j) t)
  set f j (← fqAdd (← get f j) t)

/-- The loop of `ntt` over the layers. -/
def nttLayers (z : List ℕ) (len k : ℕ) (f : Coeffs) : Checked Empty Coeffs :=
  if 2 ≤ len then do
    let (k, f) ← blockLoop z butterfly (fun k ↦ k + 1) len k 0 f
    nttLayers z (len / 2) k f
  else return f
termination_by len

/-- `ntt`. -/
def ntt (f : Coeffs) : Checked Empty Coeffs := do
  let z ← zetaPowBitrev
  nttLayers z 128 1 f

/-- One step of the inner loop of `ntt_inv`. -/
def butterflyInv (zeta len : ℕ) (f : Coeffs) (j : ℕ) : Checked Empty Coeffs := do
  let t ← get f j
  let f ← set f j (← fqAdd t (← get f (j + len)))
  set f (j + len) (← fqMul zeta (← fqSub (← get f (j + len)) t))

/-- The loop of `ntt_inv` over the layers. -/
def nttInvLayers (z : List ℕ) (len k : ℕ) (f : Coeffs) : Checked Empty Coeffs :=
  if len ≤ 128 ∧ 0 < len then do
    let (k, f) ← blockLoop z butterflyInv (fun k ↦ k - 1) len k 0 f
    nttInvLayers z (2 * len) k f
  else return f
termination_by 129 - len

/-- `ntt_inv`. -/
def nttInv (f : Coeffs) : Checked Empty Coeffs := do
  let z ← zetaPowBitrev
  let f ← nttInvLayers z 2 127 f
  (List.range 256).foldlM (fun f i ↦ do set f i (← fqMul (← get f i) 3303)) f

/-- `base_mul`. -/
def baseMul (a0 a1 b0 b1 gamma : ℕ) : Checked Empty (ℕ × ℕ) := do
  let c0 ← fqAdd (← fqMul a0 b0) (← fqMul (← fqMul a1 b1) gamma)
  let c1 ← fqAdd (← fqMul a0 b1) (← fqMul a1 b0)
  return (c0, c1)

/-- `multiply_ntts`. -/
def multiplyNtts (a b : Coeffs) : Checked Empty Coeffs := do
  let g ← gammaTable
  (List.range 128).foldlM (fun out i ↦ do
    let (c0, c1) ← baseMul (← get a (2 * i)) (← get a (2 * i + 1)) (← get b (2 * i))
      (← get b (2 * i + 1)) (← index g i)
    let out ← set out (2 * i) c0
    set out (2 * i + 1) c1) fun _ ↦ 0

/-! ### The transforms return -/

variable {f g : Coeffs} {len M : ℕ}

theorem get_of_lt {i : ℕ} (hi : i < 256) : get f i = ok (f i) := if_pos hi

theorem set_of_lt {i v : ℕ} (hi : i < 256) (hv : v < q) : set f i v = ok (Function.update f i v) :=
  if_pos ⟨hi, hv⟩

/-- A reduced number in one place keeps an array reduced. -/
theorem reduced_update (hf : Reduced f) {v : ℕ} (hv : v < q) (i : ℕ) :
    Reduced (Function.update f i v) := by
  intro j hj
  by_cases h : j = i
  · rw [h, Function.update_self]
    exact hv
  · rw [Function.update_of_ne h]
    exact hf j hj

/-- What a step of an inner loop has to do for the loop over the blocks. -/
def StepReturns (step : ℕ → ℕ → Coeffs → ℕ → Checked Empty Coeffs)
    (model : ℕ → ℕ → Coeffs → ℕ → Coeffs) : Prop :=
  ∀ {zeta len j f}, zeta < q → 0 < len → j + len < 256 → Reduced f →
    step zeta len f j = ok (model zeta len f j) ∧ Reduced (model zeta len f j)

/-- A butterfly neither overflows nor leaves the array. -/
theorem butterfly_returns : StepReturns butterfly MlKem.butterfly := by
  intro zeta len j f hzeta hlen hj hf
  have hup := fqSub_lt (hf j (by omega)) (fqMul_lt zeta (f (j + len)))
  have hlo := fqAdd_lt (hf j (by omega)) (fqMul_lt zeta (f (j + len)))
  have hj' : Function.update f (j + len) (MlKem.fqSub (f j) (MlKem.fqMul zeta (f (j + len)))) j =
      f j :=
    Function.update_of_ne (by omega) _ _
  unfold butterfly MlKem.butterfly
  dsimp only
  rw [get_of_lt hj, ok_bind, fqMul_eq hzeta (hf _ hj), ok_bind, get_of_lt (by omega), ok_bind,
    fqSub_eq (hf j (by omega)) (fqMul_lt _ _), ok_bind, set_of_lt hj hup, ok_bind,
    get_of_lt (by omega), ok_bind, hj', fqAdd_eq (hf j (by omega)) (fqMul_lt _ _), ok_bind,
    set_of_lt (by omega) hlo]
  exact ⟨rfl, reduced_update (reduced_update hf hup _) hlo _⟩

theorem butterflyInv_returns : StepReturns butterflyInv MlKem.butterflyInv := by
  intro zeta len j f hzeta hlen hj hf
  have hlo := fqAdd_lt (hf j (by omega)) (hf _ hj)
  have hdiff := fqSub_lt (hf _ hj) (hf j (by omega))
  have hj' : Function.update f j (MlKem.fqAdd (f j) (f (j + len))) (j + len) = f (j + len) :=
    Function.update_of_ne (by omega) _ _
  unfold butterflyInv MlKem.butterflyInv
  dsimp only
  rw [get_of_lt (by omega), ok_bind, get_of_lt hj, ok_bind, fqAdd_eq (hf j (by omega)) (hf _ hj),
    ok_bind, set_of_lt (by omega) hlo, ok_bind, get_of_lt hj, ok_bind, hj',
    fqSub_eq (hf _ hj) (hf j (by omega)), ok_bind, fqMul_eq hzeta hdiff, ok_bind,
    set_of_lt hj (fqMul_lt _ _)]
  exact ⟨rfl, reduced_update (reduced_update hf hlo _) (fqMul_lt _ _) _⟩

/-- The table of factors. -/
def zetas : List ℕ := (List.range 128).map MlKem.zetaPowBitrev

/-- **The loop over the blocks returns**, if its factors are in the table. -/
theorem blockLoop_returns {step : ℕ → ℕ → Coeffs → ℕ → Checked Empty Coeffs}
    {model : ℕ → ℕ → Coeffs → ℕ → Coeffs} (hstep : StepReturns step model) {next : ℕ → ℕ}
    (hM : 2 * len * M = 256) {b k : ℕ} (hb : b ≤ M) (hk : ∀ i < M - b, next^[i] k < 128)
    (hf : Reduced f) :
    blockLoop zetas step next len k (2 * len * b) f =
        ok (MlKem.blockLoop model next len k (2 * len * b) f) ∧
      Reduced (MlKem.blockLoop model next len k (2 * len * b) f).2 := by
  have hlen : 0 < len := Nat.pos_of_ne_zero fun h ↦ by simp [h] at hM
  induction hc : M - b generalizing b k f with
  | zero =>
    obtain rfl : b = M := by omega
    rw [blockLoop, if_neg (by omega), MlKem.blockLoop, if_neg (by omega)]
    exact ⟨rfl, hf⟩
  | succ c ih =>
    have hend : 2 * len * b + 2 * len ≤ 256 := by
      rw [← hM, ← Nat.mul_succ]
      exact Nat.mul_le_mul_left _ (by omega)
    have hk0 : k < 128 := hk 0 (by omega)
    -- the inner loop stays inside the array and keeps it reduced
    have hround : ∀ g, Reduced g → ∀ j ∈ List.range' (2 * len * b) len,
        step (MlKem.zetaPowBitrev k) len g j = ok (model (MlKem.zetaPowBitrev k) len g j) ∧
          Reduced (model (MlKem.zetaPowBitrev k) len g j) := by
      intro g hg j hj
      have hj := (List.mem_range'_1.1 hj).2
      exact hstep (zetaPowBitrev_lt k hk0) hlen (by omega) hg
    obtain ⟨hloop, hreduced⟩ := foldlM_eq_ok hround hf
    rw [blockLoop, if_pos ⟨by omega, hlen⟩, zetas, index_table _ hk0, ok_bind, hloop, ok_bind,
      MlKem.blockLoop, if_pos ⟨by omega, hlen⟩,
      show 2 * len * b + 2 * len = 2 * len * (b + 1) by ring]
    refine ih (by omega) (fun i hi ↦ ?_) hreduced (by omega)
    have hnext := hk (i + 1) (by omega)
    rwa [Function.iterate_succ_apply] at hnext

/-- **The loop of `ntt` over the layers returns**: block by block the factor is in the table, both
places are in the array, and sums stay below `2 ^ 32`. -/
theorem nttLayers_returns {c : ℕ} (hM : 2 * 2 ^ c * M = 256) (hf : Reduced f) :
    nttLayers zetas (2 ^ c) M f = ok (MlKem.nttLayers (2 ^ c) M f) := by
  induction c generalizing M f with
  | zero =>
    rw [nttLayers, if_neg (by decide), MlKem.nttLayers, if_neg (by decide)]
    rfl
  | succ c ih =>
    have hpow := Nat.two_pow_pos c
    have htwo : 2 ^ (c + 1) = 2 * 2 ^ c := pow_succ' 2 c
    have hM' : 2 * 2 ^ c * (2 * M) = 256 := by rw [← hM, Butterfly.size_succ]
    have hle : 2 * M ≤ 128 := by
      have : 2 * (2 * M) ≤ 2 * 2 ^ c * (2 * M) := Nat.mul_le_mul_right _ (by omega)
      omega
    obtain ⟨hblocks, hreduced⟩ := blockLoop_returns butterfly_returns (k := M) hM (Nat.zero_le M)
      (fun i hi ↦ by rw [iterate_succ_eq]; omega) hf
    rw [Nat.mul_zero] at hblocks hreduced
    have hk := (nttBlocks_spec hM hf).1
    rw [nttBlocks] at hk
    rw [nttLayers, if_pos (by omega), hblocks, ok_bind, MlKem.nttLayers, if_pos (by omega), nttBlocks,
      show 2 ^ (c + 1) / 2 = 2 ^ c by omega]
    dsimp only
    rw [hk]
    exact ih hM' hreduced

/-- **The loop of `ntt_inv` over the layers returns.** -/
theorem nttInvLayers_returns {c : ℕ} (hc : c ≤ 7) (hf : Reduced f) :
    nttInvLayers zetas (2 ^ (8 - c)) (2 ^ c - 1) f =
        ok (MlKem.nttInvLayers (2 ^ (8 - c)) (2 ^ c - 1) f) ∧
      Reduced (MlKem.nttInvLayers (2 ^ (8 - c)) (2 ^ c - 1) f) := by
  induction c generalizing f with
  | zero =>
    rw [nttInvLayers, if_neg (by decide), MlKem.nttInvLayers, if_neg (by decide)]
    exact ⟨rfl, hf⟩
  | succ c ih =>
    have hle : 2 ^ (8 - (c + 1)) ≤ 128 := 
      Nat.pow_le_pow_right (j := 7) (by decide) (by omega)
    have hM : 2 * 2 ^ (8 - (c + 1)) * 2 ^ c = 256 := by
      rw [← pow_succ', ← pow_add, show 8 - (c + 1) + 1 + c = 8 by omega]
      rfl
    have htable : 2 ^ (c + 1) ≤ 128 := Nat.pow_le_pow_right (j := 7) (by decide) hc
    obtain ⟨hblocks, hreduced⟩ := blockLoop_returns butterflyInv_returns
      (k := 2 ^ (c + 1) - 1) hM (Nat.zero_le _) (fun i hi ↦ by rw [iterate_pred_eq]; omega) hf
    rw [Nat.mul_zero] at hblocks hreduced
    have hk := (nttInvBlocks_spec hM hf).1
    rw [← pow_succ', nttInvBlocks] at hk
    rw [nttInvLayers, if_pos ⟨hle, Nat.two_pow_pos _⟩, hblocks, ok_bind, MlKem.nttInvLayers,
      if_pos ⟨hle, Nat.two_pow_pos _⟩, nttInvBlocks, ← pow_succ', show 8 - (c + 1) + 1 = 8 - c by omega]
    dsimp only
    rw [hk]
    exact ih (by omega) hreduced

/-- **`ntt` returns.** -/
theorem ntt_returns (hf : Reduced f) : ntt f = ok (MlKem.ntt f) := by
  rw [ntt, zetaPowBitrev_eq, ok_bind]
  exact nttLayers_returns (c := 7) rfl hf

/-- The last loop of `ntt_inv`. -/
theorem scale_returns (hf : Reduced f) {n : ℕ} (hn : n ≤ 256) : ∃ g,
    (List.range n).foldlM (fun f i ↦ do set f i (← fqMul (← get f i) 3303)) f = ok g ∧ Reduced g ∧
      ∀ i, g i = if i < n then MlKem.fqMul (f i) 3303 else f i := by
  induction n with
  | zero => exact ⟨f, rfl, hf, fun i ↦ (if_neg (by omega)).symm⟩
  | succ n ih =>
    obtain ⟨g, hloop, hg, hentry⟩ := ih (by omega)
    have hn' : g n = f n := by rw [hentry, if_neg (by omega)]
    refine ⟨Function.update g n (MlKem.fqMul (f n) 3303), ?_, reduced_update hg (fqMul_lt _ _) _, ?_⟩
    · rw [List.range_succ, List.foldlM_append, hloop, ok_bind, List.foldlM_cons, get_of_lt (by omega),
        ok_bind, hn', fqMul_eq (hf n (by omega)) (by decide), ok_bind,
        set_of_lt (by omega) (fqMul_lt _ _)]
      rfl
    · intro i
      by_cases hi : i = n
      · rw [hi, Function.update_self, if_pos (by omega)]
      · rw [Function.update_of_ne hi, hentry]
        simp only [show i < n + 1 ↔ i < n by omega]

/-- **`ntt_inv` returns.** -/
theorem nttInv_returns (hf : Reduced f) : ∃ g, nttInv f = ok g ∧ Reduced g ∧
    ∀ i < 256, g i = MlKem.nttInv f i := by
  obtain ⟨hlayers, hreduced⟩ := nttInvLayers_returns (c := 7) le_rfl hf
  obtain ⟨g, hscale, hg, hentry⟩ := scale_returns hreduced le_rfl
  refine ⟨g, ?_, hg, fun i hi ↦ ?_⟩
  · rw [nttInv, zetaPowBitrev_eq, ok_bind]
    show (nttInvLayers zetas (2 ^ (8 - 7)) (2 ^ 7 - 1) f >>= _) = _
    rw [hlayers, ok_bind]
    exact hscale
  · rw [hentry, if_pos hi]
    rfl

/-- The product of two linear polynomials does not overflow. -/
theorem baseMul_returns {a0 a1 b0 b1 gamma : ℕ} (ha0 : a0 < q) (ha1 : a1 < q) (hb0 : b0 < q)
    (hb1 : b1 < q) (hgamma : gamma < q) :
    baseMul a0 a1 b0 b1 gamma = ok (MlKem.baseMul a0 a1 b0 b1 gamma) := by
  rw [baseMul, fqMul_eq ha0 hb0, ok_bind, fqMul_eq ha1 hb1, ok_bind, fqMul_eq (fqMul_lt _ _) hgamma,
    ok_bind, fqAdd_eq (fqMul_lt _ _) (fqMul_lt _ _), ok_bind, fqMul_eq ha0 hb1, ok_bind,
    fqMul_eq ha1 hb0, ok_bind, fqAdd_eq (fqMul_lt _ _) (fqMul_lt _ _)]
  rfl

/-- **`multiply_ntts` returns.** -/
theorem multiplyNtts_returns (hf : Reduced f) (hg : Reduced g) :
    multiplyNtts f g = ok (MlKem.multiplyNtts f g) := by
  rw [multiplyNtts, gammaTable_eq, ok_bind]
  refine (foldlM_eq_ok (I := fun _ ↦ True) (fun out _ i hi ↦ ⟨?_, trivial⟩) trivial).1
  have hi := List.mem_range.1 hi
  have hgamma : MlKem.gammaTable i < q := zetaPow_lt _
  rw [get_of_lt (by omega), ok_bind, get_of_lt (by omega), ok_bind, get_of_lt (by omega), ok_bind,
    get_of_lt (by omega), ok_bind, index_table _ hi, ok_bind,
    baseMul_returns (hf _ (by omega)) (hf _ (by omega)) (hg _ (by omega)) (hg _ (by omega)) hgamma,
    ok_bind]
  unfold MlKem.baseMul
  dsimp only
  rw [set_of_lt (by omega) (fqAdd_lt (fqMul_lt _ _) (fqMul_lt _ _)), ok_bind,
    set_of_lt (by omega) (fqAdd_lt (fqMul_lt _ _) (fqMul_lt _ _))]

/-! ### Products -/

/-- Reduced coefficients are determined by the element of the ring. -/
theorem eq_of_toRq_eq (hf : Reduced f) (hg : Reduced g)
    (h : Fips203.toRq (vals f) = Fips203.toRq (vals g)) : ∀ i < 256, f i = g i := by
  intro i hi
  have hn : (Polynomial.X ^ 256 + 1 : Polynomial Zq).natDegree = 256 := Residue.natDegree_add_one 256
  have hcoeff := congrArg (fun u ↦ Residue.coeffs Fips203.monic_modulus u i) h
  dsimp only [Fips203.toRq] at hcoeff
  rw [Residue.coeffs_ofCoeffs _ hn _ hi, Residue.coeffs_ofCoeffs _ hn _ hi] at hcoeff
  have hval := congrArg ZMod.val hcoeff
  rwa [vals, vals, ZMod.val_natCast_of_lt (show f i < 3329 from hf i hi),
    ZMod.val_natCast_of_lt (show g i < 3329 from hg i hi)] at hval

/-- A polynomial depends on its 256 coefficients only. -/
theorem toRq_congr (h : ∀ i < 256, f i = g i) : Fips203.toRq (vals f) = Fips203.toRq (vals g) :=
  Residue.ofCoeffs_congr fun i hi ↦ by rw [vals, vals, h i hi]

/-- What `ntt_inv` makes of a transform. -/
theorem toRq_nttInv_of_ntt (hf : Reduced f) {u : Fips203.Rq}
    (hu : Fips203.toTq (vals f) = Fips203.ntt u) : ∃ p, nttInv f = ok p ∧ Reduced p ∧
      Fips203.toRq (vals p) = u := by
  obtain ⟨p, hrun, hp, hentry⟩ := nttInv_returns hf
  refine ⟨p, hrun, hp, ?_⟩
  rw [toRq_congr hentry, (nttInv_spec hf).2, hu]
  exact Function.leftInverse_invFun ntt_injective u

/-- **Multiplication of transforms is multiplication in `ℤ_q[X] / (X²⁵⁶ + 1)`**: on reduced
coefficients `ntt`, `multiply_ntts` and `ntt_inv` return, with the coefficients of the product, and
`ntt_inv` undoes `ntt`. No sum, product or index leaves its range, and every entry that is written on
the way is reduced. -/
theorem ntt_multiplication (hf : Reduced f) (hg : Reduced g) :
    (∃ p, (do
        let fHat ← ntt f
        let gHat ← ntt g
        let h ← multiplyNtts fHat gHat
        nttInv h) = ok p ∧ Reduced p ∧
      Fips203.toRq (vals p) = Fips203.toRq (vals f) * Fips203.toRq (vals g)) ∧
    ∃ p, (do
        let fHat ← ntt f
        nttInv fHat) = ok p ∧ ∀ i < 256, p i = f i := by
  obtain ⟨hfHat, hfSpec⟩ := ntt_spec hf
  obtain ⟨hgHat, hgSpec⟩ := ntt_spec hg
  obtain ⟨hprod, hprodSpec⟩ := multiplyNtts_spec (MlKem.ntt f) (MlKem.ntt g)
  constructor
  · rw [ntt_returns hf, ok_bind, ntt_returns hg, ok_bind, multiplyNtts_returns hfHat hgHat, ok_bind]
    refine toRq_nttInv_of_ntt hprod ?_
    rw [hprodSpec, hfSpec, hgSpec, map_mul]
  · rw [ntt_returns hf, ok_bind]
    obtain ⟨p, hrun, hp, hback⟩ := toRq_nttInv_of_ntt hfHat hfSpec
    exact ⟨p, hrun, eq_of_toRq_eq hp hf hback⟩

/-- The product of two reduced arrays, one of them with 3328 everywhere, the largest reduced number.
-/
theorem ntt_multiplication_example :
    Reduced (fun i ↦ i) ∧ Reduced (fun _ ↦ 3328) ∧
      ∃ p, (do
        let fHat ← ntt fun i ↦ i
        let gHat ← ntt fun _ ↦ 3328
        let h ← multiplyNtts fHat gHat
        nttInv h) = ok p ∧ Reduced p := by
  have hf : Reduced fun i ↦ i := by
    intro i hi
    show i < 3329
    omega
  have hg : Reduced fun _ ↦ 3328 := fun _ _ ↦ show 3328 < 3329 by decide
  obtain ⟨p, hrun, hp, -⟩ := (ntt_multiplication hf hg).1
  exact ⟨hf, hg, p, hrun, hp⟩

end Machine

end MlKem

end VoiceChatCrypto
