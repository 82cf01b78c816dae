import Mathlib.RingTheory.AdjoinRoot
import VoiceChatCrypto.MlKem.Layers

/-!
# Residues by their coefficients

The ring `R[X] / (g)` for a monic `g`, with its elements written as lists of coefficients, and its
special cases `R[X] / (X ^ (2 * n) + 1)` and `R[X] / (X ^ 2 - γ)`.

If `γ ^ n = -1`, the second is a quotient of the first: `splitHom` takes a residue modulo
`X ^ (2 * n) + 1` to its residues modulo `X ^ 2 - γ i` for all `i` at once, as a homomorphism of rings.
In coefficients it is a sum of powers (`splitHom_ofCoeffs`), and the product on its side is a product of
linear polynomials (`pairs_mul`).
-/

open Polynomial

namespace Residue

variable {R : Type*} [CommRing R]

/-- The polynomial with these coefficients. -/
noncomputable def polyOf (n : ℕ) (c : ℕ → R) : R[X] := ∑ i ∈ Finset.range n, C (c i) * X ^ i

theorem coeff_polyOf (n : ℕ) (c : ℕ → R) (i : ℕ) :
    (polyOf n c).coeff i = if i < n then c i else 0 := by
  simp only [polyOf, finsetSum_coeff, coeff_C_mul_X_pow, Finset.sum_ite_eq, Finset.mem_range]

/-- A polynomial of `n` coefficients has a degree below `n`. -/
theorem degree_polyOf_lt (n : ℕ) (c : ℕ → R) : (polyOf n c).degree < n := by
  rw [degree_lt_iff_coeff_zero]
  intro i hi
  rw [coeff_polyOf, if_neg (not_lt.2 hi)]

/-- A polynomial is given by its coefficients. -/
theorem polyOf_coeff {n : ℕ} {p : R[X]} (hp : p.degree < n) : polyOf n p.coeff = p := by
  ext i
  rw [coeff_polyOf]
  split
  · rfl
  · rename_i hi
    exact ((degree_lt_iff_coeff_zero p n).1 hp i (not_lt.1 hi)).symm

section Monic

variable [Nontrivial R] {g : R[X]} {n : ℕ}

/-- The residue with these coefficients. -/
noncomputable def ofCoeffs (g : R[X]) (n : ℕ) (c : ℕ → R) : AdjoinRoot g :=
  AdjoinRoot.mk g (polyOf n c)

/-- The coefficients of a residue. -/
noncomputable def coeffs (hg : g.Monic) (u : AdjoinRoot g) (i : ℕ) : R :=
  (AdjoinRoot.modByMonicHom hg u).coeff i

/-- A remainder has a smaller degree than the modulus. -/
theorem degree_modByMonicHom_lt (hg : g.Monic) (hn : g.natDegree = n) (u : AdjoinRoot g) :
    (AdjoinRoot.modByMonicHom hg u).degree < n := by
  obtain ⟨p, rfl⟩ := AdjoinRoot.mk_surjective u
  rw [AdjoinRoot.modByMonicHom_mk, ← hn, ← degree_eq_natDegree hg.ne_zero]
  exact degree_modByMonic_lt p hg

/-- **Every residue is given by its coefficients**, namely those of its remainder. -/
theorem ofCoeffs_coeffs (hg : g.Monic) (hn : g.natDegree = n) (u : AdjoinRoot g) :
    ofCoeffs g n (coeffs hg u) = u := by
  have hpoly : polyOf n (coeffs hg u) = AdjoinRoot.modByMonicHom hg u :=
    polyOf_coeff (degree_modByMonicHom_lt hg hn u)
  rw [ofCoeffs, hpoly, AdjoinRoot.mk_leftInverse hg u]

/-- **The coefficients of a residue are the ones it was given by.** -/
theorem coeffs_ofCoeffs (hg : g.Monic) (hn : g.natDegree = n) (c : ℕ → R) {i : ℕ} (hi : i < n) :
    coeffs hg (ofCoeffs g n c) i = c i := by
  have hdeg : (polyOf n c).degree < g.degree := by
    rw [degree_eq_natDegree hg.ne_zero, hn]
    exact degree_polyOf_lt n c
  rw [coeffs, ofCoeffs, AdjoinRoot.modByMonicHom_mk, (modByMonic_eq_self_iff hg).2 hdeg,
    coeff_polyOf, if_pos hi]

omit [Nontrivial R] in
/-- A residue depends on its first `n` coefficients only. -/
theorem ofCoeffs_congr {c d : ℕ → R} (h : ∀ i < n, c i = d i) : ofCoeffs g n c = ofCoeffs g n d := by
  rw [ofCoeffs, ofCoeffs, polyOf, polyOf]
  congr 1
  refine Finset.sum_congr rfl fun i hi ↦ ?_
  rw [h i (Finset.mem_range.1 hi)]

omit [Nontrivial R] in
theorem ofCoeffs_add (c d : ℕ → R) :
    ofCoeffs g n c + ofCoeffs g n d = ofCoeffs g n fun i ↦ c i + d i := by
  rw [ofCoeffs, ofCoeffs, ofCoeffs, ← map_add]
  congr 1
  rw [polyOf, polyOf, polyOf, ← Finset.sum_add_distrib]
  refine Finset.sum_congr rfl fun i _ ↦ ?_
  rw [C_add, add_mul]

end Monic

/-! ### Linear residues -/

/-- The residue `a + b X` modulo `X ^ 2 - γ`. -/
noncomputable def linear (γ a b : R) : AdjoinRoot (X ^ 2 - C γ) :=
  AdjoinRoot.of _ a + AdjoinRoot.of _ b * AdjoinRoot.root _

theorem root_sq (γ : R) :
    AdjoinRoot.root (X ^ 2 - C γ) ^ 2 = AdjoinRoot.of (X ^ 2 - C γ) γ := by
  have h := AdjoinRoot.eval₂_root (X ^ 2 - C γ)
  rwa [eval₂_sub, eval₂_X_pow, eval₂_C, sub_eq_zero] at h

/-- The product of two linear polynomials modulo `X² - γ`. -/
theorem linear_mul (γ a b c d : R) :
    linear γ a b * linear γ c d = linear γ (a * c + b * d * γ) (a * d + b * c) := by
  have hsq := root_sq γ
  simp only [linear, map_add, map_mul]
  linear_combination AdjoinRoot.of (X ^ 2 - C γ) b * AdjoinRoot.of (X ^ 2 - C γ) d * hsq

theorem linear_add (γ a b c d : R) :
    linear γ a b + linear γ c d = linear γ (a + c) (b + d) := by
  simp only [linear, map_add]
  ring

/-- A linear polynomial is given by two coefficients. -/
theorem linear_eq_ofCoeffs (γ a b : R) :
    linear γ a b = ofCoeffs (X ^ 2 - C γ) 2 fun i ↦ if i = 0 then a else b := by
  rw [ofCoeffs, polyOf, Finset.sum_range_succ, Finset.sum_range_one, linear]
  simp [AdjoinRoot.mk_X, AdjoinRoot.mk_C]

section Nontrivial

variable [Nontrivial R]

omit [Nontrivial R] in
theorem monic_sub (γ : R) : (X ^ 2 - C γ : R[X]).Monic := monic_X_pow_sub_C γ two_ne_zero

/-- Modulo `X² - γ` the two coefficients are determined. -/
theorem linear_injective {γ a b c d : R} (h : linear γ a b = linear γ c d) : a = c ∧ b = d := by
  have hn : (X ^ 2 - C γ : R[X]).natDegree = 2 := natDegree_X_pow_sub_C
  rw [linear_eq_ofCoeffs, linear_eq_ofCoeffs] at h
  have h0 := congrArg (fun u ↦ coeffs (monic_sub γ) u 0) h
  have h1 := congrArg (fun u ↦ coeffs (monic_sub γ) u 1) h
  simp only [coeffs_ofCoeffs (monic_sub γ) hn _ (show 0 < 2 by decide),
    coeffs_ofCoeffs (monic_sub γ) hn _ (show 1 < 2 by decide)] at h0 h1
  exact ⟨h0, h1⟩

theorem exists_linear {γ : R} (u : AdjoinRoot (X ^ 2 - C γ)) : ∃ a b, u = linear γ a b := by
  have hn : (X ^ 2 - C γ : R[X]).natDegree = 2 := natDegree_X_pow_sub_C
  refine ⟨coeffs (monic_sub γ) u 0, coeffs (monic_sub γ) u 1, ?_⟩
  rw [linear_eq_ofCoeffs]
  refine (ofCoeffs_coeffs (monic_sub γ) hn u).symm.trans (ofCoeffs_congr fun i hi ↦ ?_)
  interval_cases i <;> rfl

end Nontrivial

/-! ### Splitting -/

theorem monic_add_one {n : ℕ} (hn : n ≠ 0) : (X ^ n + 1 : R[X]).Monic := by
  have h := monic_X_pow_add_C (1 : R) hn
  rwa [C_1] at h

theorem natDegree_add_one [Nontrivial R] (n : ℕ) : (X ^ n + 1 : R[X]).natDegree = n := by
  have h := natDegree_X_pow_add_C (n := n) (r := (1 : R))
  rwa [C_1] at h

variable {n : ℕ} {γ : Fin n → R}

/-- Where `c^n = -1`, a root of `X² - c` is a root of `X^(2n) + 1`. -/
theorem eval₂_root_eq_zero {N : ℕ} (hN : N = 2 * n) {c : R} (h : c ^ n = -1) :
    eval₂ (AdjoinRoot.of (X ^ 2 - C c)) (AdjoinRoot.root (X ^ 2 - C c)) (X ^ N + 1) = 0 := by
  rw [eval₂_add, eval₂_X_pow, eval₂_one, hN, pow_mul, root_sq, ← map_pow, h, map_neg, map_one,
    neg_add_cancel]

/-- The residues modulo `X ^ 2 - γ i` of a residue modulo `X ^ N + 1` for `N = 2 * n`. -/
noncomputable def splitHom {N : ℕ} (hN : N = 2 * n) (h : ∀ i, γ i ^ n = -1) :
    AdjoinRoot (X ^ N + 1 : R[X]) →+* ∀ i, AdjoinRoot (X ^ 2 - C (γ i)) :=
  RingHom.pi fun i ↦
    AdjoinRoot.lift (AdjoinRoot.of _) (AdjoinRoot.root _) (eval₂_root_eq_zero hN (h i))

/-- The family of linear residues with these coefficients, two by two. -/
noncomputable def pairs (γ : Fin n → R) (c : ℕ → R) (i : Fin n) : AdjoinRoot (X ^ 2 - C (γ i)) :=
  linear (γ i) (c (2 * i)) (c (2 * i + 1))

theorem pairs_add (c d : ℕ → R) : pairs γ c + pairs γ d = pairs γ fun i ↦ c i + d i := by
  funext i
  exact linear_add _ _ _ _ _

/-- The coefficients of a product of linear residues. -/
theorem pairs_mul (c d e : ℕ → R)
    (heven : ∀ i : Fin n, e (2 * i) = c (2 * i) * d (2 * i) + c (2 * i + 1) * d (2 * i + 1) * γ i)
    (hodd : ∀ i : Fin n, e (2 * i + 1) = c (2 * i) * d (2 * i + 1) + c (2 * i + 1) * d (2 * i)) :
    pairs γ c * pairs γ d = pairs γ e := by
  funext i
  rw [pairs, heven, hodd]
  exact linear_mul _ _ _ _ _

theorem pairs_congr {c d : ℕ → R} (h : ∀ i < 2 * n, c i = d i) : pairs γ c = pairs γ d := by
  funext i
  rw [pairs, pairs, h _ (by omega), h _ (by omega)]

theorem pairs_injective [Nontrivial R] {c d : ℕ → R} (h : pairs γ c = pairs γ d) :
    ∀ i < 2 * n, c i = d i := by
  intro i hi
  obtain ⟨heven, hodd⟩ := linear_injective (congrFun h ⟨i / 2, by omega⟩)
  dsimp only at heven hodd
  rcases Nat.mod_two_eq_zero_or_one i with hmod | hmod
  · rwa [show 2 * (i / 2) = i by omega] at heven
  · rwa [show 2 * (i / 2) + 1 = i by omega] at hodd

/-- **Splitting, in coefficients.** -/
theorem splitHom_ofCoeffs {N : ℕ} (hN : N = 2 * n) (h : ∀ i, γ i ^ n = -1) {f g : ℕ → R}
    (hg : ∀ (i : Fin n), ∀ j < 2, g (2 * i + j) =
      ∑ t ∈ Finset.range n, f (j + 2 * t) * γ i ^ t) :
    splitHom hN h (ofCoeffs _ N f) = pairs γ g := by
  funext i
  have heven := hg i 0 (by decide)
  have hodd := hg i 1 (by decide)
  rw [Nat.add_zero] at heven
  show AdjoinRoot.lift _ _ (eval₂_root_eq_zero hN (h i))
    (AdjoinRoot.mk (X ^ N + 1) (polyOf N f)) = _
  rw [AdjoinRoot.lift_mk, polyOf, hN, eval₂_finsetSum, Butterfly.sum_range_two_mul, pairs, linear, heven,
    hodd, map_sum, map_sum, Finset.sum_mul]
  congr 1
  · refine Finset.sum_congr rfl fun t _ ↦ ?_
    rw [eval₂_mul, eval₂_C, eval₂_X_pow, pow_mul, root_sq, Nat.zero_add, map_mul, map_pow]
  · refine Finset.sum_congr rfl fun t _ ↦ ?_
    have hpow : AdjoinRoot.root (X ^ 2 - C (γ i)) ^ (2 * t + 1) =
        AdjoinRoot.of (X ^ 2 - C (γ i)) (γ i) ^ t * AdjoinRoot.root (X ^ 2 - C (γ i)) := by
      rw [pow_add, pow_one, pow_mul, root_sq]
    rw [eval₂_mul, eval₂_C, eval₂_X_pow, hpow, Nat.add_comm 1, map_mul, map_pow, mul_assoc]

end Residue
