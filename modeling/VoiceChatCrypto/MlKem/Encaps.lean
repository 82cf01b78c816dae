import Mathlib.Order.Filter.AtTopBot.Basic
import VoiceChatCrypto.MlKem.Sampling

/-!
# Incremental encapsulation

`encaps1_with_m` and `encaps2` against `K-PKE.Encrypt`. Each array of the code stands for an element of
`R_q` or `T_q`, and the specifications of the functions are chained along the code: the noise, its
transform, the sums of products, the inverse transform, and the two parts of the ciphertext. Neither
part needs what the other reads, which is why the halves can be computed apart: `encaps1_with_m`
knows the seed of the matrix and the hash of the key, and `encaps2` the vector.
-/

namespace VoiceChatCrypto

namespace MlKem

open Fips203 (Zq Rq Tq)

/-! ### Noise -/

section Noise

variable (H : Sha3) (coins : Block UInt8 32)

/-- The noise of the code is that of the standard, and reduced. -/
theorem sampleVecCbd_spec (start i : ℕ) :
    Reduced (sampleVecCbd H coins start i) ∧
      Fips203.toRq (vals (sampleVecCbd H coins start i)) =
        Fips203.samplePolyCbd (Fips203.prf H coins.val (start + i)) := by
  rw [← prfEta2_eq]
  exact sampleCbd2_spec _

/-- `r_hat`. -/
theorem rHat_spec (i : ℕ) :
    Reduced (ntt (sampleVecCbd H coins 0 i)) ∧
      Fips203.toTq (vals (ntt (sampleVecCbd H coins 0 i))) =
        Fips203.ntt (Fips203.samplePolyCbd (Fips203.prf H coins.val i)) := by
  obtain ⟨hreduced, hvals⟩ := sampleVecCbd_spec H coins 0 i
  obtain ⟨hreduced', hvals'⟩ := ntt_spec hreduced
  rw [Nat.zero_add] at hvals
  exact ⟨hreduced', by rw [hvals', hvals]⟩

end Noise

/-! ### Sums of products -/

/-- The accumulator loop over the columns. -/
def dotProduct (a b : ℕ → Coeffs) (n : ℕ) : Coeffs :=
  (List.range n).foldl (fun acc j ↦ addNtts acc (multiplyNtts (a j) (b j))) fun _ ↦ 0

theorem dotProduct_succ (a b : ℕ → Coeffs) (n : ℕ) :
    dotProduct a b (n + 1) = addNtts (dotProduct a b n) (multiplyNtts (a n) (b n)) := by
  rw [dotProduct, List.range_succ, List.foldl_append]
  rfl

theorem toTq_zero : Fips203.toTq (vals fun _ ↦ 0) = 0 := by
  have h := Residue.pairs_add (γ := Fips203.gamma) (vals fun _ ↦ 0) (vals fun _ ↦ 0)
  have hsum : (fun i ↦ vals (fun _ ↦ 0) i + vals (fun _ ↦ 0) i) = vals fun _ ↦ 0 := by
    funext i
    simp [vals]
  rw [hsum] at h
  exact add_eq_left.mp h

/-- **The accumulator is the sum of products in `T_q`.** -/
theorem dotProduct_spec (a b : ℕ → Coeffs) (n : ℕ) :
    Reduced (dotProduct a b n) ∧
      Fips203.toTq (vals (dotProduct a b n)) =
        ∑ j ∈ Finset.range n, Fips203.toTq (vals (a j)) * Fips203.toTq (vals (b j)) := by
  induction n with
  | zero => exact ⟨fun _ _ ↦ show 0 < q by decide, by rw [Finset.sum_range_zero]; exact toTq_zero⟩
  | succ n ih =>
    obtain ⟨hreduced, hmul⟩ := multiplyNtts_spec (a n) (b n)
    obtain ⟨hreduced', -, hadd⟩ := addNtts_spec ih.1 hreduced
    rw [dotProduct_succ, Finset.sum_range_succ, hadd, ih.2, hmul]
    exact ⟨hreduced', rfl⟩

/-- Where the samples are found, a row of the matrix is multiplied as a vector is. -/
theorem rowProduct_eq {H : Sha3} {fuel : ℕ} {rho : Block UInt8 32} {a : ℕ → Coeffs}
    (rHat : ℕ → Coeffs) {i n : ℕ} (h : ∀ j < n, sampleNtt H fuel rho i j = some (a j)) :
    rowProduct H fuel rho rHat i n = some (dotProduct a rHat n) := by
  induction n with
  | zero => rfl
  | succ n ih =>
    rw [rowProduct, ih fun j hj ↦ h j (Nat.lt_succ_of_lt hj), h n (Nat.lt_succ_self n),
      dotProduct_succ]
    rfl

/-! ### Ciphertexts -/

/-- **A polynomial of the ciphertext**, compressed and packed. -/
theorem pack_spec {f : Coeffs} (hf : Reduced f) {d : ℕ} (hd : d ≤ 10) :
    byteEncodeD (fun t ↦ compress (f t) d) 256 d = Fips203.pack d (Fips203.toRq (vals f)) := by
  rw [byteEncodeD_eq, Fips203.pack]
  refine byteEncode_congr fun i hi ↦ ?_
  have hcoeff : Fips203.coeffs (Fips203.toRq (vals f)) i = vals f i :=
    Residue.coeffs_ofCoeffs _ (Residue.natDegree_add_one 256) _ hi
  rw [hcoeff]
  exact compress_eq (hf i hi) hd

/-- A polynomial of `u`. -/
theorem packU_spec {acc e1 : Coeffs} (hacc : Reduced acc) (he1 : Reduced e1) :
    packU acc e1 =
      Fips203.pack 10 (Fips203.nttInv (Fips203.toTq (vals acc)) + Fips203.toRq (vals e1)) := by
  obtain ⟨hinv, hvals⟩ := nttInv_spec hacc
  obtain ⟨hreduced, hadd, -⟩ := addNtts_spec hinv he1
  rw [packU, pack_spec hreduced le_rfl, hadd, hvals]

/-- The polynomial of the message. -/
theorem mu_spec (m : List UInt8) :
    Reduced (fun i ↦ decompress ((byteAt m (i / 8) >>> (i % 8)) &&& 1) 1) ∧
      Fips203.toRq (vals fun i ↦ decompress ((byteAt m (i / 8) >>> (i % 8)) &&& 1) 1) =
        Fips203.toRq fun i ↦ Fips203.decompress 1 (Fips203.byteDecode 1 m i) := by
  have h := fun i ↦ decompress_bit (bytesToBits_le m i)
  refine ⟨fun i _ ↦ ?_, Residue.ofCoeffs_congr fun i _ ↦ ?_⟩
  · dsimp only
    rw [byteAt_bit]
    exact (h i).1
  · rw [vals, byteAt_bit, byteDecode_one]
    exact (h i).2

/-! ### The key -/

/-- A bit of a slice. -/
theorem bytesToBits_slice (data : List UInt8) (k : ℕ) {n p : ℕ} (hp : p < 8 * n) :
    Fips203.bytesToBits ((data.drop k).take n) p = Fips203.bytesToBits data (8 * k + p) := by
  rw [Fips203.bytesToBits, Fips203.bytesToBits, List.getD_eq_getElem?_getD,
    List.getElem?_take_of_lt (by omega), List.getElem?_drop, Nat.mul_add_div (by decide),
    Nat.mul_add_mod, List.getD_eq_getElem?_getD]

/-- The coefficients of a valid key are reduced. -/
theorem byteDecodeD_lt {ek : List UInt8} (h : Fips203.Valid ek) {i j : ℕ} (hi : i < 3)
    (hj : j < 256) : byteDecodeD ((ek.drop (i * 384)).take 384) 12 j < q := by
  have hbits : byteDecodeD ((ek.drop (i * 384)).take 384) 12 j =
      ∑ b ∈ Finset.range 12, Fips203.bytesToBits ek ((256 * i + j) * 12 + b) * 2 ^ b := by
    rw [byteDecodeD_eq]
    refine Finset.sum_congr rfl fun b hb ↦ ?_
    have hb := Finset.mem_range.mp hb
    rw [bytesToBits_slice _ _ (by omega)]
    congr 2
    omega
  rw [hbits]
  exact h _ (by omega)

/-- The vector of the key, before the seed. -/
theorem slice_append (t : Block UInt8 1152) (rho : Block UInt8 32) {i : ℕ} (hi : i < 3) :
    ((t.val ++ rho.val).drop (384 * i)).take 384 = (t.val.drop (i * 384)).take 384 := by
  have hlen := Block.length_val t
  rw [Nat.mul_comm, List.drop_append_of_le_length (by omega),
    List.take_append_of_le_length (by rw [List.length_drop]; omega)]

theorem vector_lt {t : Block UInt8 1152} {rho : Block UInt8 32}
    (h : Fips203.Valid (t.val ++ rho.val)) :
    ∀ i < 3, ∀ j < 256, byteDecodeD ((t.val.drop (i * 384)).take 384) 12 j < q := by
  intro i hi j hj
  rw [← slice_append t rho hi, Nat.mul_comm]
  exact byteDecodeD_lt h hi hj

/-! ### Encapsulation -/

section Encaps

variable {H : Sha3} {rho : Block UInt8 32}

/-- **All nine polynomials of the matrix are sampled**, with enough fuel, when every stream has
enough candidates below the modulus. -/
theorem exists_matrix
    (h : ∀ i < 3, ∀ j < 3, Fips203.Samples H (rho.val ++ [UInt8.ofNat i, UInt8.ofNat j])) :
    ∃ n, ∀ fuel ≥ n, ∀ i ∈ Finset.range 3, ∀ j ∈ Finset.range 3,
      ∃ a, sampleNtt H fuel rho i j = some a ∧ Fips203.toTq (vals a) =
        Fips203.sampleNtt H (rho.val ++ [UInt8.ofNat i, UInt8.ofNat j]) := by
  rw [← Filter.eventually_atTop]
  simp only [Filter.eventually_all_finset]
  intro i hi j hj
  rw [Filter.eventually_atTop]
  exact sampleNtt_spec H rho i j (h i (Finset.mem_range.mp hi) j (Finset.mem_range.mp hj))

/-- The `i`-th polynomial of `u`, as the standard has it. -/
noncomputable def uPoly (H : Sha3) (rho coins : Block UInt8 32) (i : ℕ) : Rq :=
  Fips203.nttInv (∑ j ∈ Finset.range 3,
    Fips203.sampleNtt H (rho.val ++ [UInt8.ofNat i, UInt8.ofNat j]) *
      Fips203.ntt (Fips203.samplePolyCbd (Fips203.prf H coins.val j))) +
    Fips203.samplePolyCbd (Fips203.prf H coins.val (3 + i))

/-- A row of `pke_encrypt_ct1`. -/
theorem row_spec (coins : Block UInt8 32) {fuel i : ℕ}
    (h : ∀ j ∈ Finset.range 3, ∃ a, sampleNtt H fuel rho i j = some a ∧ Fips203.toTq (vals a) =
      Fips203.sampleNtt H (rho.val ++ [UInt8.ofNat i, UInt8.ofNat j])) :
    ∃ acc, rowProduct H fuel rho (fun j ↦ ntt (sampleVecCbd H coins 0 j)) i 3 = some acc ∧
      packU acc (sampleVecCbd H coins 3 i) = Fips203.pack 10 (uPoly H rho coins i) := by
  choose! a ha hvals using h
  have hsample : ∀ j < 3, sampleNtt H fuel rho i j = some (a j) :=
    fun j hj ↦ ha j (Finset.mem_range.mpr hj)
  obtain ⟨hreduced, hsum⟩ := dotProduct_spec a (fun j ↦ ntt (sampleVecCbd H coins 0 j)) 3
  obtain ⟨he1, hnoise⟩ := sampleVecCbd_spec H coins 3 i
  refine ⟨_, rowProduct_eq _ hsample, ?_⟩
  rw [packU_spec hreduced he1, hsum, hnoise, uPoly]
  have hterm : ∀ j ∈ Finset.range 3,
      Fips203.toTq (vals (a j)) * Fips203.toTq (vals (ntt (sampleVecCbd H coins 0 j))) =
        Fips203.sampleNtt H (rho.val ++ [UInt8.ofNat i, UInt8.ofNat j]) *
          Fips203.ntt (Fips203.samplePolyCbd (Fips203.prf H coins.val j)) := by
    intro j hj
    rw [hvals j hj, (rHat_spec H coins j).2]
  rw [Finset.sum_congr rfl hterm]

/-- **`pke_encrypt_ct1`** packs the polynomials of `u`. -/
theorem pkeEncryptCt1_spec {fuel : ℕ} (coins m : Block UInt8 32)
    (h : ∀ i ∈ Finset.range 3, ∀ j ∈ Finset.range 3, ∃ a, sampleNtt H fuel rho i j = some a ∧
      Fips203.toTq (vals a) =
        Fips203.sampleNtt H (rho.val ++ [UInt8.ofNat i, UInt8.ofNat j])) :
    ∃ ct1, pkeEncryptCt1 H fuel rho coins m = some (.ok ct1) ∧
      ct1.val = Fips203.pack 10 (uPoly H rho coins 0) ++ Fips203.pack 10 (uPoly H rho coins 1) ++
        Fips203.pack 10 (uPoly H rho coins 2) := by
  obtain ⟨acc0, hacc0, hpack0⟩ := row_spec coins (h 0 (by decide))
  obtain ⟨acc1, hacc1, hpack1⟩ := row_spec coins (h 1 (by decide))
  obtain ⟨acc2, hacc2, hpack2⟩ := row_spec coins (h 2 (by decide))
  unfold pkeEncryptCt1
  dsimp only
  rw [hacc0, hacc1, hacc2, ← hpack0, ← hpack1, ← hpack2]
  exact ⟨_, rfl, rfl⟩

/-- The polynomial `v`, as the standard has it. -/
noncomputable def vPoly (H : Sha3) (t : List UInt8) (coins m : Block UInt8 32) : Rq :=
  Fips203.nttInv (∑ j ∈ Finset.range 3,
    Fips203.toTq (fun i ↦ (Fips203.byteDecode 12 ((t.drop (j * 384)).take 384) i : ℕ)) *
      Fips203.ntt (Fips203.samplePolyCbd (Fips203.prf H coins.val j))) +
    Fips203.samplePolyCbd (Fips203.prf H coins.val 6) +
    Fips203.toRq fun i ↦ Fips203.decompress 1 (Fips203.byteDecode 1 m.val i)

/-- **`pke_encrypt_ct2`** packs `v`, where the coefficients of the vector are reduced. -/
theorem pkeEncryptCt2_spec {t : List UInt8} (coins m : Block UInt8 32)
    (h : ∀ i < 3, ∀ j < 256, byteDecodeD ((t.drop (i * 384)).take 384) 12 j < q) :
    ∃ ct2, pkeEncryptCt2 H t coins m = .ok ct2 ∧ ct2.val = Fips203.pack 4 (vPoly H t coins m) := by
  refine ⟨_, rfl, ?_⟩
  obtain ⟨hdot, hsum⟩ := dotProduct_spec (fun i ↦ byteDecodeD ((t.drop (i * 384)).take 384) 12)
    (fun j ↦ ntt (sampleVecCbd H coins 0 j)) 3
  obtain ⟨hinv, hinvVals⟩ := nttInv_spec hdot
  obtain ⟨he2, hnoise⟩ := sampleCbd2_spec (prfEta2 H coins 6)
  obtain ⟨hmu, hmessage⟩ := mu_spec m.val
  obtain ⟨hadd, haddVals, -⟩ := addNtts_spec hinv he2
  obtain ⟨hv, hvVals, -⟩ := addNtts_spec hadd hmu
  have hterm : ∀ j ∈ Finset.range 3,
      Fips203.toTq (vals (byteDecodeD ((t.drop (j * 384)).take 384) 12)) *
          Fips203.toTq (vals (ntt (sampleVecCbd H coins 0 j))) =
        Fips203.toTq (fun i ↦ (Fips203.byteDecode 12 ((t.drop (j * 384)).take 384) i : ℕ)) *
          Fips203.ntt (Fips203.samplePolyCbd (Fips203.prf H coins.val j)) := by
    intro j hj
    have hdecode : Fips203.toTq (vals (byteDecodeD ((t.drop (j * 384)).take 384) 12)) =
        Fips203.toTq fun i ↦ (Fips203.byteDecode 12 ((t.drop (j * 384)).take 384) i : ℕ) :=
      Residue.pairs_congr fun i hi ↦ by
        rw [vals, byteDecodeD_twelve (h j (Finset.mem_range.mp hj) i hi)]
    rw [(rHat_spec H coins j).2, hdecode]
  rw [vPoly, ← Finset.sum_congr rfl hterm, ← hsum, ← hinvVals, ← prfEta2_eq, ← hnoise, ← haddVals,
    ← hmessage, ← hvVals]
  exact pack_spec hv (by decide)

end Encaps

/-- The standard's ciphertext in its two parts. -/
theorem encrypt_eq (H : Sha3) (t : Block UInt8 1152) (rho coins m : Block UInt8 32) :
    Fips203.encrypt H (t.val ++ rho.val) m.val coins.val =
      Fips203.pack 10 (uPoly H rho coins 0) ++ Fips203.pack 10 (uPoly H rho coins 1) ++
        Fips203.pack 10 (uPoly H rho coins 2) ++ Fips203.pack 4 (vPoly H t.val coins m) := by
  have hrho : (t.val ++ rho.val).drop (384 * 3) = rho.val := List.drop_left' (Block.length_val t)
  have hslice : ∀ j ∈ Finset.range 3,
      Fips203.toTq (fun i ↦ (Fips203.byteDecode 12
          (((t.val ++ rho.val).drop (384 * j)).take 384) i : ℕ)) *
          Fips203.ntt (Fips203.samplePolyCbd (Fips203.prf H coins.val j)) =
        Fips203.toTq (fun i ↦ (Fips203.byteDecode 12 ((t.val.drop (j * 384)).take 384) i : ℕ)) *
          Fips203.ntt (Fips203.samplePolyCbd (Fips203.prf H coins.val j)) :=
    fun j hj ↦ by rw [slice_append t rho (Finset.mem_range.mp hj)]
  unfold Fips203.encrypt
  dsimp only
  rw [hrho, Finset.sum_congr rfl hslice]
  rfl

/-- What `encaps1_with_m` returns with the first part of the ciphertext. -/
theorem encaps1WithM_eq {H : Sha3} {fuel : ℕ} {rho hek m : Block UInt8 32} {ct1 : Block UInt8 960}
    (h : pkeEncryptCt1 H fuel rho (gHash H m hek).2 m = some (.ok ct1)) :
    encaps1WithM H fuel rho hek m =
      some (.ok (⟨m, (gHash H m hek).2, (gHash H m hek).1, rho, hek⟩, ct1, (gHash H m hek).1)) := by
  unfold encaps1WithM
  dsimp only
  rw [h]
  rfl

/-- **Incremental encapsulation is encapsulation**: for a valid key and every message, both halves
return, the two parts of the ciphertext are `K-PKE.Encrypt` of the message under the derived
randomness, and the shared secret is the derived one. -/
theorem encaps_eq_encrypt (H : Sha3) (t : Block UInt8 1152) (rho m : Block UInt8 32)
    (hvalid : Fips203.Valid (t.val ++ rho.val))
    (hsamples : ∀ i < 3, ∀ j < 3,
      Fips203.Samples H (rho.val ++ [UInt8.ofNat i, UInt8.ofNat j])) :
    ∃ n, ∀ fuel ≥ n, ∃ secret ct1 k ct2,
      encaps1WithM H fuel rho (H.sha3_256 (t.val ++ rho.val)) m = some (.ok (secret, ct1, k)) ∧
      encaps2 H secret t.val = .ok ct2 ∧
      joinCt ct1 ct2 = Fips203.encrypt H (t.val ++ rho.val) m.val
        ((H.sha3_512 (m.val ++ (H.sha3_256 (t.val ++ rho.val)).val)).val.drop 32) ∧
      k.val = (H.sha3_512 (m.val ++ (H.sha3_256 (t.val ++ rho.val)).val)).val.take 32 := by
  obtain ⟨n, hmatrix⟩ := exists_matrix hsamples
  refine ⟨n, fun fuel hfuel ↦ ?_⟩
  obtain ⟨ct1, hct1, hu⟩ := pkeEncryptCt1_spec
    (gHash H m (H.sha3_256 (t.val ++ rho.val))).2 m (hmatrix fuel hfuel)
  obtain ⟨ct2, hct2, hv⟩ := pkeEncryptCt2_spec (H := H)
    (gHash H m (H.sha3_256 (t.val ++ rho.val))).2 m (vector_lt hvalid)
  refine ⟨⟨m, (gHash H m (H.sha3_256 (t.val ++ rho.val))).2,
    (gHash H m (H.sha3_256 (t.val ++ rho.val))).1, rho, H.sha3_256 (t.val ++ rho.val)⟩,
    ct1, (gHash H m (H.sha3_256 (t.val ++ rho.val))).1, ct2, ?_, ?_, ?_, rfl⟩
  · exact encaps1WithM_eq hct1
  · rw [encaps2, if_neg (not_not.mpr (Block.length_val t)), if_neg (not_not.mpr rfl)]
    exact hct2
  · rw [joinCt, hu, hv]
    exact (encrypt_eq H t rho (gHash H m (H.sha3_256 (t.val ++ rho.val))).2 m).symm

/-! ### The encapsulation of the braid -/

/-- The primitives the braid runs on are the functions above, for the seed of a matrix. -/
structure Implements (H : Sha3) (rho : Block UInt8 32) (P : Primitives UInt8) : Prop where
  /-- The hash is SHA3-256. -/
  sha3_eq : P.sha3 = H.sha3_256
  /-- The split hash is SHA3-512. -/
  gHash_eq : P.gHash = gHash H
  /-- The first ciphertext is what the code computes, given enough fuel to sample the matrix. -/
  ct1_eq : ∀ coins m, ∃ n, ∀ fuel ≥ n,
    pkeEncryptCt1 H fuel rho coins m = some (.ok (P.pkeEncryptCt1 rho coins m))
  /-- The second ciphertext is what the code computes; nothing is sampled that could be rejected. -/
  ct2_eq : ∀ t coins m, pkeEncryptCt2 H t coins m = .ok (P.pkeEncryptCt2 t coins m)

/-- **The braid encapsulates as ML-KEM does**: its two steps on a valid key are `K-PKE.Encrypt`. -/
theorem Implements.encaps {H : Sha3} {t : Block UInt8 1152} {rho : Block UInt8 32}
    {P : Primitives UInt8} (hP : Implements H rho P) (m : Block UInt8 32)
    (hvalid : Fips203.Valid (t.val ++ rho.val))
    (hsamples : ∀ i < 3, ∀ j < 3,
      Fips203.Samples H (rho.val ++ [UInt8.ofNat i, UInt8.ofNat j])) :
    ∃ ct2, VoiceChatCrypto.encaps2 P
        (VoiceChatCrypto.encaps1 P rho (P.sha3 (t.val ++ rho.val)) m).1 t.val = .ok ct2 ∧
      (VoiceChatCrypto.encaps1 P rho (P.sha3 (t.val ++ rho.val)) m).2.1.val ++ ct2.val =
        Fips203.encrypt H (t.val ++ rho.val) m.val
          (gHash H m (H.sha3_256 (t.val ++ rho.val))).2.val := by
  obtain ⟨n, hmatrix⟩ := exists_matrix hsamples
  obtain ⟨n', hct1⟩ := hP.ct1_eq (gHash H m (H.sha3_256 (t.val ++ rho.val))).2 m
  obtain ⟨ct1, hct1', hu⟩ := pkeEncryptCt1_spec
    (gHash H m (H.sha3_256 (t.val ++ rho.val))).2 m
    (hmatrix (max n n') (le_max_left n n'))
  obtain ⟨ct2, hct2, hv⟩ := pkeEncryptCt2_spec (H := H)
    (gHash H m (H.sha3_256 (t.val ++ rho.val))).2 m (vector_lt hvalid)
  rw [hct1 _ (le_max_right n n')] at hct1'
  cases hct1'
  rw [hP.ct2_eq] at hct2
  cases hct2
  refine ⟨P.pkeEncryptCt2 t.val (gHash H m (H.sha3_256 (t.val ++ rho.val))).2 m, ?_, ?_⟩
  · simp only [VoiceChatCrypto.encaps1, VoiceChatCrypto.encaps2, hP.sha3_eq, hP.gHash_eq]
    rw [if_neg (not_not.mpr (Block.length_val t)), if_neg (not_not.mpr rfl)]
  · simp only [VoiceChatCrypto.encaps1, hP.sha3_eq, hP.gHash_eq]
    rw [hu, hv]
    exact (encrypt_eq H t rho _ m).symm

/-- Primitives run on these functions wherever the matrix can be sampled. -/
theorem exists_implements {H : Sha3} {rho : Block UInt8 32} (P : Primitives UInt8)
    (hsamples : ∀ i < 3, ∀ j < 3,
      Fips203.Samples H (rho.val ++ [UInt8.ofNat i, UInt8.ofNat j])) :
    ∃ P', Implements H rho P' := by
  obtain ⟨n, hmatrix⟩ := exists_matrix hsamples
  choose ct1 hct1 hu using fun coins m ↦
    pkeEncryptCt1_spec coins m (hmatrix n le_rfl)
  refine ⟨{ P with
    sha3 := H.sha3_256
    gHash := gHash H
    pkeEncryptCt1 := fun _ coins m ↦ ct1 coins m
    pkeEncryptCt2 := fun t coins m ↦ (pkeEncryptCt2 H t coins m).toOption.getD (Block.zero 128) },
    rfl, rfl, fun coins m ↦ ⟨n, fun fuel hfuel ↦ ?_⟩, fun t coins m ↦ rfl⟩
  -- the ciphertext does not depend on the fuel it was found with
  obtain ⟨c, hc, hval⟩ := pkeEncryptCt1_spec coins m (hmatrix fuel hfuel)
  rw [hc, Subtype.ext (hval.trans (hu coins m).symm)]

/-- Hash functions to compute with: the streams are the squares, shifted by the input. -/
def squares : Sha3 where
  sha3_256 data := List.Vector.replicate 32 (UInt8.ofNat data.length)
  sha3_512 data := List.Vector.replicate 64 (UInt8.ofNat data.length)
  shake128 data n := UInt8.ofNat (n * n + data.foldl (fun s b ↦ s + b.toNat) 0)
  shake256 data n := UInt8.ofNat (n * n + data.foldl (fun s b ↦ s + b.toNat) 0)

/-- Bits of one byte, read in a row, make at most the byte. -/
theorem sum_bits_le (data : List UInt8) {q c n : ℕ} (h : c + n ≤ 8) (s : ℕ) :
    ∑ j ∈ Finset.range n, Fips203.bytesToBits data (8 * q + (c + j)) * 2 ^ (s + j) ≤
      (data.getD q 0).toNat * 2 ^ s := by
  have hsum : ∑ j ∈ Finset.range n, Fips203.bytesToBits data (8 * q + (c + j)) * 2 ^ (s + j) =
      (data.getD q 0).toNat / 2 ^ c % 2 ^ n * 2 ^ s := by
    induction n with
    | zero => rw [Finset.sum_range_zero, pow_zero, Nat.mod_one, Nat.zero_mul]
    | succ n ih =>
      rw [Finset.sum_range_succ, ih (by omega), Fips203.bytesToBits,
        show (8 * q + (c + n)) / 8 = q by omega, show (8 * q + (c + n)) % 8 = c + n by omega,
        Nat.mod_pow_succ, Nat.div_div_eq_div_mul, ← pow_add, pow_add 2 s n]
      ring
  rw [hsum]
  exact Nat.mul_le_mul_right _ ((Nat.mod_le _ _).trans (Nat.div_le_self _ _))

/-- **Small bytes make a valid key**: the two bytes of a coefficient give at most `12 * 256 + 12`. -/
theorem valid_of_small {ek : List UInt8} (h : ∀ k, (ek.getD k 0).toNat < 13) : Fips203.Valid ek := by
  intro i _
  rcases Nat.even_or_odd' i with ⟨k, rfl | rfl⟩
  · -- a byte, and half of the next
    have h0 := sum_bits_le ek (q := 3 * k) (c := 0) (n := 8) (by omega) 0
    have h1 := sum_bits_le ek (q := 3 * k + 1) (c := 0) (n := 4) (by omega) 8
    have hlow := h (3 * k)
    have hhigh := h (3 * k + 1)
    rw [show 2 * k * 12 = 8 * (3 * k) by ring, show (12 : ℕ) = 8 + 4 from rfl, Finset.sum_range_add]
    simp only [show 8 * (3 * k + 1) = 8 * (3 * k) + 8 by ring, Nat.zero_add, Nat.add_assoc] at h0 h1
    omega
  · -- the other half, and a byte
    have h0 := sum_bits_le ek (q := 3 * k + 1) (c := 4) (n := 4) (by omega) 0
    have h1 := sum_bits_le ek (q := 3 * k + 2) (c := 0) (n := 8) (by omega) 4
    have hlow := h (3 * k + 1)
    have hhigh := h (3 * k + 2)
    rw [show (2 * k + 1) * 12 = 8 * (3 * k + 1) + 4 by ring, show (12 : ℕ) = 4 + 8 from rfl,
      Finset.sum_range_add]
    simp only [show 8 * (3 * k + 2) = 8 * (3 * k + 1) + (4 + 4) by ring, Nat.zero_add,
      Nat.add_assoc] at h0 h1 ⊢
    omega

/-- A key vector that counts to thirteen again and again. -/
def ramp : Block UInt8 1152 :=
  ⟨(List.range 1152).map fun k ↦ UInt8.ofNat (k % 13), by rw [List.length_map, List.length_range]⟩

/-- The key of the example passes the check of the standard. -/
theorem valid_ramp : Fips203.Valid (ramp.val ++ List.replicate 32 (0 : UInt8)) := by
  refine valid_of_small fun k ↦ ?_
  have hmem : ∀ b ∈ ramp.val ++ List.replicate 32 (0 : UInt8), b.toNat < 13 := by
    intro b hb
    rcases List.mem_append.1 hb with hb | hb
    · simp only [ramp, List.mem_map] at hb
      obtain ⟨k, -, rfl⟩ := hb
      rw [UInt8.toNat_ofNat_of_lt' ((Nat.mod_lt k (by decide)).trans (by decide : 13 < UInt8.size))]
      exact Nat.mod_lt k (by decide)
    · rw [List.eq_of_mem_replicate hb]
      decide
  rw [List.getD_eq_getElem?_getD]
  cases hk : (ramp.val ++ List.replicate 32 (0 : UInt8))[k]? with
  | none => decide
  | some b => exact hmem b (List.mem_of_getElem? hk)

/-- The stream of the example yields enough coefficients below the modulus. -/
theorem samples_squares {i j : ℕ} (hi : i < 3) (hj : j < 3) :
    Fips203.Samples squares (List.replicate 32 0 ++ [UInt8.ofNat i, UInt8.ofNat j]) := by
  refine ⟨400, ?_⟩
  interval_cases i <;> interval_cases j <;> decide +kernel

/-- A key whose coefficients are 0, 1, 2 and so on, over a hash whose streams are easy to compute:
both halves return, and together they are the encryption. -/
theorem encaps_eq_encrypt_ramp :
    ∃ n, ∀ fuel ≥ n, ∃ secret ct1 k ct2,
      encaps1WithM squares fuel (List.Vector.replicate 32 0)
        (squares.sha3_256 (ramp.val ++ List.replicate 32 0))
        (List.Vector.replicate 32 7) = some (.ok (secret, ct1, k)) ∧
      encaps2 squares secret ramp.val = .ok ct2 ∧
      joinCt ct1 ct2 = Fips203.encrypt squares (ramp.val ++ List.replicate 32 0)
        (List.replicate 32 7) ((squares.sha3_512 (List.replicate 32 7 ++
          (squares.sha3_256 (ramp.val ++ List.replicate 32 0)).val)).val.drop 32) ∧
      k.val = (squares.sha3_512 (List.replicate 32 7 ++
        (squares.sha3_256 (ramp.val ++ List.replicate 32 0)).val)).val.take 32 :=
  encaps_eq_encrypt squares ramp (List.Vector.replicate 32 0)
    (List.Vector.replicate 32 7) valid_ramp fun _ hi _ hj ↦ samples_squares hi hj

end MlKem

end VoiceChatCrypto
