import VoiceChatCrypto.Data.Checked
import VoiceChatCrypto.MlKem.Encoding

/-!
# Packing, both ways

`byte_encode_d` and `byte_decode_d` on lists of any length, with the checks of the machine: an index
that is out of range and a shift by the width of its word **panic**. Both return what the functions of
`MlKem.Code` compute, and these are inverse to each other.

Both directions are about bits: bit `p` of the packed bytes is bit `p % d` of coefficient `p / d`. A
number below `2 ^ m` is the sum of its bits (`sum_bits_of_div`), and the bits of such a sum are the
ones it was made of (`sum_bits_div`).
-/

namespace VoiceChatCrypto

namespace MlKem

/-! ### Numbers and their bits -/

/-- The bits of a sum of bits. -/
theorem sum_bits_div {bits : ℕ → ℕ} (hbits : ∀ t, bits t ≤ 1) {j m : ℕ} (hj : j < m) :
    (∑ t ∈ Finset.range m, bits t * 2 ^ t) / 2 ^ j % 2 = bits j := by
  induction j generalizing m bits with
  | zero =>
    obtain ⟨m, rfl⟩ : ∃ k, m = k + 1 := ⟨m - 1, by omega⟩
    have heven : 2 ∣ ∑ t ∈ Finset.range m, bits (t + 1) * 2 ^ (t + 1) :=
      Finset.dvd_sum fun t _ ↦ ⟨bits (t + 1) * 2 ^ t, by rw [pow_succ]; ring⟩
    have h0 := hbits 0
    rw [Finset.sum_range_succ']
    simp only [pow_zero, Nat.mul_one, Nat.div_one]
    omega
  | succ j ih =>
    obtain ⟨m, rfl⟩ : ∃ k, m = k + 1 := ⟨m - 1, by omega⟩
    have hrest : (∑ t ∈ Finset.range m, bits (t + 1) * 2 ^ t) / 2 ^ j % 2 = bits (j + 1) :=
      ih (fun _ ↦ hbits _) (by omega)
    have hsplit : ∑ t ∈ Finset.range (m + 1), bits t * 2 ^ t =
        2 * (∑ t ∈ Finset.range m, bits (t + 1) * 2 ^ t) + bits 0 := by
      rw [Finset.sum_range_succ', Finset.mul_sum, pow_zero, Nat.mul_one]
      congr 1
      refine Finset.sum_congr rfl fun t _ ↦ ?_
      rw [pow_succ]
      ring
    have h0 := hbits 0
    rw [hsplit, pow_succ', ← Nat.div_div_eq_div_mul, show ∀ n : ℕ, (2 * n + bits 0) / 2 = n by omega]
    exact hrest

/-- A number is the sum of its bits. -/
theorem sum_bits_of_div (a m : ℕ) : ∑ t ∈ Finset.range m, a / 2 ^ t % 2 * 2 ^ t = a % 2 ^ m := by
  induction m with
  | zero => rw [Finset.sum_range_zero, pow_zero, Nat.mod_one]
  | succ m ih => rw [Finset.sum_range_succ, ih, Nat.mod_pow_succ, Nat.mul_comm (2 ^ m)]

/-! ### Round trips -/

variable {coeffs : Coeffs} {data : List UInt8} {d n : ℕ}

theorem bitsOf_le (coeffs : Coeffs) (d p : ℕ) : bitsOf coeffs d p ≤ 1 :=
  Nat.lt_succ_iff.mp (Nat.mod_lt _ Nat.two_pos)

/-- The bits of coefficient `i` are at the positions from `i d` on. -/
theorem bitsOf_add (coeffs : Coeffs) (i : ℕ) {b : ℕ} (hb : b < d) :
    bitsOf coeffs d (i * d + b) = coeffs i / 2 ^ b % 2 := by
  rw [bitsOf, Nat.mul_comm, Nat.mul_add_div (by omega), Nat.mul_add_mod, Nat.div_eq_of_lt hb,
    Nat.mod_eq_of_lt hb, Nat.add_zero]

theorem packed_lt {bits : ℕ → ℕ} (hbits : ∀ p, bits p ≤ 1) (P k : ℕ) : packed bits P k < 2 ^ 8 :=
  (sum_bits_lt (fun _ ↦ hbits _) _).trans_le (Nat.pow_le_pow_right Nat.two_pos (Nat.min_le_left _ _))

/-- **The bits of the packed bytes** are those of the coefficients. -/
theorem bytesToBits_byteEncodeD {p : ℕ} (hp : p < n * d) :
    Fips203.bytesToBits (byteEncodeD coeffs n d) p = bitsOf coeffs d p := by
  have hk : p / 8 < (n * d + 7) / 8 := by omega
  have hbyte : (byteEncodeD coeffs n d).getD (p / 8) 0 =
      UInt8.ofNat (packed (bitsOf coeffs d) (n * d) (p / 8)) := by
    rw [byteEncodeD, List.getD_eq_getElem _ _ (by simpa using hk), List.getElem_map,
      List.getElem_range, packBits_eq]
  rw [Fips203.bytesToBits, hbyte, UInt8.toNat_ofNat_of_lt' (packed_lt (bitsOf_le coeffs d) _ _),
    packed, sum_bits_div (fun _ ↦ bitsOf_le coeffs d _) (by omega), Nat.div_add_mod]

/-- **Unpacking what was packed** gives coefficients back that fit their width, because the bits are
the same and in the same order. -/
theorem byteDecodeD_byteEncodeD {i : ℕ} (hi : i < n) (hc : coeffs i < 2 ^ d) :
    byteDecodeD (byteEncodeD coeffs n d) d i = coeffs i := by
  have hpos : ∀ j < d, i * d + j < n * d := by
    intro j hj
    have h : (i + 1) * d ≤ n * d := Nat.mul_le_mul_right d hi
    rw [Nat.succ_mul] at h
    omega
  calc byteDecodeD (byteEncodeD coeffs n d) d i
      = ∑ j ∈ Finset.range d, coeffs i / 2 ^ j % 2 * 2 ^ j := by
        rw [byteDecodeD_eq]
        refine Finset.sum_congr rfl fun j hj ↦ ?_
        have hj := Finset.mem_range.mp hj
        rw [bytesToBits_byteEncodeD (hpos j hj), bitsOf_add coeffs i hj]
    _ = coeffs i := by rw [sum_bits_of_div, Nat.mod_eq_of_lt hc]

/-- The bits of unpacked coefficients. -/
theorem bitsOf_byteDecodeD (hd : 0 < d) (p : ℕ) :
    bitsOf (byteDecodeD data d) d p = Fips203.bytesToBits data p := by
  rw [bitsOf, byteDecodeD_eq, sum_bits_div (fun _ ↦ bytesToBits_le data _) (Nat.mod_lt p hd),
    Nat.div_add_mod' p d]

theorem byteDecodeD_lt_two_pow (data : List UInt8) (d i : ℕ) : byteDecodeD data d i < 2 ^ d := by
  rw [byteDecodeD_eq]
  exact sum_bits_lt (fun _ ↦ bytesToBits_le data _) d

/-- **Packing what was unpacked** gives whole bytes back, because no bit is left over. -/
theorem byteEncodeD_byteDecodeD (hd : 0 < d) (h : 8 * data.length = n * d) :
    byteEncodeD (byteDecodeD data d) n d = data := by
  refine List.ext_getElem ?_ fun k hk hk' ↦ ?_
  · rw [length_byteEncodeD]
    omega
  · have hbit : ∀ t < 8, Fips203.bytesToBits data (8 * k + t) = data[k].toNat / 2 ^ t % 2 := by
      intro t ht
      rw [Fips203.bytesToBits, show (8 * k + t) / 8 = k by omega, show (8 * k + t) % 8 = t by omega,
        List.getD_eq_getElem _ _ hk']
    simp only [byteEncodeD, List.getElem_map, List.getElem_range, packBits_eq]
    rw [packed, show min 8 (n * d - 8 * k) = 8 by omega]
    calc UInt8.ofNat (∑ t ∈ Finset.range 8, bitsOf (byteDecodeD data d) d (8 * k + t) * 2 ^ t)
        = UInt8.ofNat (∑ t ∈ Finset.range 8, data[k].toNat / 2 ^ t % 2 * 2 ^ t) := by
          congr 1
          refine Finset.sum_congr rfl fun t ht ↦ ?_
          rw [bitsOf_byteDecodeD hd, hbit t (Finset.mem_range.mp ht)]
      _ = data[k] := by
          rw [sum_bits_of_div, Nat.mod_eq_of_lt data[k].toNat_lt, UInt8.ofNat_toNat]

/-- `byte_encode_d` reads `n` coefficients. -/
theorem byteEncodeD_congr {coeffs' : Coeffs} (h : ∀ i < n, coeffs i = coeffs' i) :
    byteEncodeD coeffs n d = byteEncodeD coeffs' n d := by
  refine List.map_congr_left fun k _ ↦ congrArg UInt8.ofNat ?_
  rw [packBits_eq, packBits_eq, packed, packed]
  refine Finset.sum_congr rfl fun t ht ↦ ?_
  have ht := Finset.mem_range.1 ht
  have hcoeff : (8 * k + t) / d < n := Nat.div_lt_of_lt_mul (by rw [Nat.mul_comm d n]; omega)
  rw [bitsOf, bitsOf, h _ hcoeff]

/-! ### On the machine -/

namespace Machine

open Checked

/-- The body of the loops of `byte_encode_d`: bit `b` of coefficient `i`. -/
def packBit (d i c : ℕ) (out : List UInt8) (b : ℕ) : Checked Empty (List UInt8) := do
  let bit := ((← shr 16 c b) &&& 1) % 2 ^ 8
  let pos := i * d + b
  let byte ← index out (pos / 8)
  let bit ← shl 8 bit (pos % 8)
  write out (pos / 8) (byte ||| UInt8.ofNat bit)

/-- `byte_encode_d`. -/
def byteEncodeD (coeffs : List ℕ) (d : ℕ) : Checked Empty (List UInt8) :=
  let bits := coeffs.length * d
  let out := List.replicate ((bits + 7) / 8) 0
  coeffs.zipIdx.foldlM (fun out (c, i) ↦ (List.range d).foldlM (packBit d i c) out) out

/-- The body of the loops of `byte_decode_d`. -/
def unpackBit (data : List UInt8) (d i c b : ℕ) : Checked Empty ℕ := do
  let pos := i * d + b
  let byte ← index data (pos / 8)
  let bit := (← shr 8 byte.toNat (pos % 8)) &&& 1
  let bit ← shl 16 bit b
  return c ||| bit

/-- `byte_decode_d`. -/
def byteDecodeD (data : List UInt8) (d n : ℕ) : Checked Empty (List ℕ) :=
  each (fun i ↦ (List.range d).foldlM (unpackBit data d i) 0) (List.range n)

/-- The bytes that `byte_encode_d` has written after `P` bits. -/
def packedBytes (bits : ℕ → ℕ) (len P : ℕ) : List UInt8 :=
  (List.range len).map fun k ↦ UInt8.ofNat (packed bits P k)

/-- A bit that is shifted within the word is not lost. -/
theorem shl_bit {bit n : ℕ} (hbit : bit ≤ 1) {w : ℕ} (hn : n < w) :
    (shl w bit n : Checked Empty ℕ) = ok (bit <<< n) := by
  have hlt : bit <<< n < 2 ^ w := by
    rw [Nat.shiftLeft_eq]
    calc bit * 2 ^ n ≤ 1 * 2 ^ n := Nat.mul_le_mul_right _ hbit
      _ < 2 ^ w := by
        rw [Nat.one_mul]
        exact Nat.pow_lt_pow_right Nat.one_lt_two hn
  rw [shl_of_lt hn, Nat.mod_eq_of_lt hlt]

/-- **One bit of `byte_encode_d`.** -/
theorem packBit_eq {bits : ℕ → ℕ} (hbits : ∀ p, bits p ≤ 1) {len i c b : ℕ} (hb : b < 16)
    (hpos : i * d + b < 8 * len) (hbit : bits (i * d + b) = c / 2 ^ b % 2) :
    packBit d i c (packedBytes bits len (i * d + b)) b =
      ok (packedBytes bits len (i * d + b + 1)) := by
  have hlen : (packedBytes bits len (i * d + b)).length = len := by
    rw [packedBytes, List.length_map, List.length_range]
  have hk : (i * d + b) / 8 < (packedBytes bits len (i * d + b)).length := by
    rw [hlen]
    omega
  have hbyte : (packedBytes bits len (i * d + b)).getD ((i * d + b) / 8) 0 =
      UInt8.ofNat (packed bits (i * d + b) ((i * d + b) / 8)) := by
    rw [List.getD_eq_getElem _ _ hk]
    simp only [packedBytes, List.getElem_map, List.getElem_range]
  have hword : ((c >>> b) &&& 1) % 2 ^ 8 = bits (i * d + b) := by
    rw [and_one, ← hbit]
    have := hbits (i * d + b)
    omega
  unfold packBit
  dsimp only
  rw [shr_of_lt hb, ok_bind, index_of_lt hk 0, ok_bind, hword, shl_bit (hbits _) (by omega), ok_bind,
    write_of_lt hk, hbyte, ← UInt8.ofNat_or]
  congr 1
  refine List.ext_getElem (by rw [List.length_set, hlen, packedBytes, List.length_map,
    List.length_range]) fun k hk' hk'' ↦ ?_
  -- the new bytes are the step of the model, entry by entry
  rw [List.getElem_set]
  simp only [packedBytes, List.getElem_map, List.getElem_range]
  rw [← packed_succ hbits]
  split
  · rename_i heq
    rw [heq, Function.update_self]
  · rename_i hne
    rw [Function.update_of_ne (Ne.symm hne)]

/-- **One coefficient of `byte_encode_d`.** -/
theorem packCoeff_eq {bits : ℕ → ℕ} (hbits : ∀ p, bits p ≤ 1) {len i c m : ℕ} (hm : m ≤ 16)
    (hpos : i * d + m ≤ 8 * len) (hbit : ∀ b < m, bits (i * d + b) = c / 2 ^ b % 2) :
    (List.range m).foldlM (packBit d i c) (packedBytes bits len (i * d)) =
      ok (packedBytes bits len (i * d + m)) := by
  induction m with
  | zero => rfl
  | succ m ih =>
    rw [List.range_succ, List.foldlM_append, ih (by omega) (by omega) fun b hb ↦ hbit b (by omega),
      ok_bind, List.foldlM_cons, packBit_eq hbits (by omega) (by omega) (hbit m (by omega))]
    rfl

/-- **The loop of `byte_encode_d`**, over a part of the coefficients. -/
theorem packCoeffs_eq {len : ℕ} (hd : d ≤ 16) (cs : List ℕ)
    (hcs : ∀ i < cs.length, cs.getD i 0 = coeffs i) (hlen : cs.length * d ≤ 8 * len) :
    cs.zipIdx.foldlM (fun out (c, i) ↦ (List.range d).foldlM (packBit d i c) out)
        (packedBytes (bitsOf coeffs d) len 0) =
      ok (packedBytes (bitsOf coeffs d) len (cs.length * d)) := by
  induction cs using List.reverseRecOn with
  | nil => rw [List.length_nil, Nat.zero_mul]; rfl
  | append_singleton cs c ih =>
    rw [List.length_append, List.length_singleton, Nat.succ_mul] at hlen
    have hprefix : ∀ i < cs.length, cs.getD i 0 = coeffs i := by
      intro i hi
      rw [← hcs i (by rw [List.length_append]; omega), List.getD_append _ _ _ _ hi]
    have hlast : coeffs cs.length = c := by
      rw [← hcs cs.length (by rw [List.length_append, List.length_singleton]; omega),
        List.getD_append_right _ _ _ _ le_rfl, Nat.sub_self]
      rfl
    rw [List.zipIdx_append, List.foldlM_append, ih hprefix (by omega), ok_bind, List.length_append,
      List.length_singleton, Nat.succ_mul, Nat.zero_add]
    show ((List.range d).foldlM (packBit d cs.length c) _ >>= pure) = _
    rw [packCoeff_eq (bitsOf_le coeffs d) hd hlen fun b hb ↦ by rw [bitsOf_add coeffs _ hb, hlast]]
    rfl

/-- **`byte_encode_d` returns.** -/
theorem byteEncodeD_returns (hd : d ≤ 16) (cs : List ℕ) :
    byteEncodeD cs d = ok (MlKem.byteEncodeD (fun i ↦ cs.getD i 0) cs.length d) := by
  have hzero : List.replicate ((cs.length * d + 7) / 8) (0 : UInt8) =
      packedBytes (bitsOf (fun i ↦ cs.getD i 0) d) ((cs.length * d + 7) / 8) 0 := by
    refine List.ext_getElem (by simp [packedBytes]) fun k hk hk' ↦ ?_
    simp only [packedBytes, packed, List.getElem_map, List.getElem_replicate, Nat.zero_sub,
      Nat.min_zero, Finset.sum_range_zero]
    rfl
  rw [byteEncodeD]
  dsimp only
  rw [hzero, packCoeffs_eq hd cs (fun _ _ ↦ rfl) (by omega), MlKem.byteEncodeD, packBits_eq]
  rfl

/-- **`byte_decode_d` returns** if there are enough bytes. -/
theorem byteDecodeD_returns (hd : d ≤ 16) (h : n * d ≤ 8 * data.length) :
    byteDecodeD data d n = ok ((List.range n).map (MlKem.byteDecodeD data d)) := by
  refine each_eq_ok fun i hi ↦ ?_
  have hi : (i + 1) * d ≤ n * d := Nat.mul_le_mul_right d (List.mem_range.1 hi)
  rw [Nat.succ_mul] at hi
  refine (foldlM_eq_ok (I := fun _ ↦ True) (fun c _ b hb ↦ ⟨?_, trivial⟩) trivial).1
  have hb := List.mem_range.1 hb
  unfold unpackBit
  dsimp only
  rw [index_of_lt (by omega) 0, ok_bind, shr_of_lt (by omega), ok_bind,
    show (data.getD ((i * d + b) / 8) 0).toNat = byteAt data ((i * d + b) / 8) from rfl, byteAt_bit,
    shl_bit (bytesToBits_le data _) (by omega)]
  rfl

/-- **Packing is inverse both ways**, for every width of 1 to 16 bits and every number of coefficients
that fill whole bytes; no index is out of range. -/
theorem byte_codec_inverse (hd1 : 1 ≤ d) (hd : d ≤ 16) (hn : 8 ∣ n * d) :
    (∀ cs : List ℕ, cs.length = n → (∀ c ∈ cs, c < 2 ^ d) → ∃ bytes,
      byteEncodeD cs d = ok bytes ∧ bytes.length = n * d / 8 ∧ byteDecodeD bytes d n = ok cs) ∧
    ∀ bytes : List UInt8, bytes.length = n * d / 8 → ∃ cs,
      byteDecodeD bytes d n = ok cs ∧ cs.length = n ∧ (∀ c ∈ cs, c < 2 ^ d) ∧
        byteEncodeD cs d = ok bytes := by
  constructor
  · intro cs hcs hlt
    subst hcs
    have hlength : (MlKem.byteEncodeD (fun i ↦ cs.getD i 0) cs.length d).length = cs.length * d / 8 := by
      rw [length_byteEncodeD]
      omega
    refine ⟨_, byteEncodeD_returns hd cs, hlength, ?_⟩
    rw [byteDecodeD_returns hd (by omega)]
    congr 1
    refine List.ext_getElem (by simp) fun i hi hi' ↦ ?_
    have hentry : cs.getD i 0 = cs[i] := List.getD_eq_getElem _ _ hi'
    have hback : MlKem.byteDecodeD (MlKem.byteEncodeD (fun i ↦ cs.getD i 0) cs.length d) d i =
        cs.getD i 0 :=
      byteDecodeD_byteEncodeD hi' (by rw [hentry]; exact hlt _ (List.getElem_mem hi'))
    rw [List.getElem_map, List.getElem_range, hback, hentry]
  · intro bytes hbytes
    have hlength : 8 * bytes.length = n * d := by omega
    refine ⟨_, byteDecodeD_returns hd hlength.ge, by simp, ?_, ?_⟩
    · intro c hc
      obtain ⟨i, -, rfl⟩ := List.mem_map.1 hc
      exact byteDecodeD_lt_two_pow bytes d i
    · rw [byteEncodeD_returns hd, List.length_map, List.length_range]
      congr 1
      refine Eq.trans ?_ (byteEncodeD_byteDecodeD hd1 hlength)
      exact byteEncodeD_congr fun i hi ↦ by
        rw [List.getD_eq_getElem _ _ (by simpa using hi), List.getElem_map, List.getElem_range]

/-- Two coefficients of twelve bits, in three bytes. -/
theorem byte_codec_inverse_twelve : ∃ bytes, byteEncodeD [3328, 17] 12 = ok bytes ∧
    bytes.length = 3 ∧ byteDecodeD bytes 12 2 = ok [3328, 17] :=
  (byte_codec_inverse (d := 12) (n := 2) (by decide) (by decide) (by decide)).1 [3328, 17] rfl
    (by decide)

end Machine

end MlKem

end VoiceChatCrypto
