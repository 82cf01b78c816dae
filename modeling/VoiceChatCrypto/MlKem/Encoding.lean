import VoiceChatCrypto.MlKem.Transform

/-!
# Packing and compression

`byte_encode_d`, `byte_decode_d`, `compress` and `decompress` against `ByteEncode`, `ByteDecode`,
`Compress` and `Decompress` of the standard. The loops set one bit after the other with an
exclusive position each, so that every prefix of a loop holds the sum of the bits it has seen. The
compression multiplies by a rounded reciprocal of 3329 in place of the division; over the reduced
coefficients and the two widths in use, it rounds as the division does.
-/

namespace VoiceChatCrypto

namespace MlKem

open Fips203 (Zq)

/-! ### Numbers from their bits -/

section Bits

variable {bits : ℕ → ℕ}

theorem sum_bits_lt (hbits : ∀ t, bits t ≤ 1) (m : ℕ) :
    ∑ t ∈ Finset.range m, bits t * 2 ^ t < 2 ^ m := by
  induction m with
  | zero => exact Nat.one_pos
  | succ m ih =>
    rw [Finset.sum_range_succ, pow_succ]
    have hbit : bits m * 2 ^ m ≤ 2 ^ m := by
      simpa using Nat.mul_le_mul_right (2 ^ m) (hbits m)
    omega

/-- Setting the next bit. -/
theorem sum_bits_or (hbits : ∀ t, bits t ≤ 1) (m : ℕ) :
    (∑ t ∈ Finset.range m, bits t * 2 ^ t) ||| (bits m <<< m) =
      ∑ t ∈ Finset.range (m + 1), bits t * 2 ^ t := by
  rw [Nat.or_comm, ← Nat.shiftLeft_add_eq_or_of_lt (sum_bits_lt hbits m), Finset.sum_range_succ,
    Nat.shiftLeft_eq, Nat.add_comm]

/-- A loop that sets bit after bit. -/
theorem foldl_or_bits (hbits : ∀ t, bits t ≤ 1) (m : ℕ) :
    (List.range m).foldl (fun c b ↦ c ||| (bits b <<< b)) 0 =
      ∑ t ∈ Finset.range m, bits t * 2 ^ t := by
  induction m with
  | zero => rfl
  | succ m ih =>
    rw [List.range_succ, List.foldl_append, List.foldl_cons, List.foldl_nil, ih, sum_bits_or hbits]

end Bits

theorem and_one (a k : ℕ) : (a >>> k) &&& 1 = a / 2 ^ k % 2 := by
  rw [Nat.and_one_is_mod, Nat.shiftRight_eq_div_pow]

theorem bytesToBits_le (data : List UInt8) (p : ℕ) : Fips203.bytesToBits data p ≤ 1 :=
  Nat.lt_succ_iff.mp (Nat.mod_lt _ Nat.two_pos)

/-- A bit of a slice, as the loops of the code read it. -/
theorem byteAt_bit (data : List UInt8) (p : ℕ) :
    (byteAt data (p / 8) >>> (p % 8)) &&& 1 = Fips203.bytesToBits data p :=
  and_one _ _

/-! ### `byte_encode_d` -/

/-- What the loop of `byte_encode_d` has written in byte `k` after `P` bits. -/
def packed (bits : ℕ → ℕ) (P k : ℕ) : ℕ :=
  ∑ t ∈ Finset.range (min 8 (P - 8 * k)), bits (8 * k + t) * 2 ^ t

/-- One step of the loop. -/
theorem packed_succ {bits : ℕ → ℕ} (hbits : ∀ p, bits p ≤ 1) (P : ℕ) :
    Function.update (packed bits P) (P / 8) (packed bits P (P / 8) ||| (bits P <<< (P % 8))) =
      packed bits (P + 1) := by
  funext k
  by_cases hk : k = P / 8
  · subst hk
    rw [Function.update_self, packed, packed, show min 8 (P - 8 * (P / 8)) = P % 8 by omega,
      show min 8 (P + 1 - 8 * (P / 8)) = P % 8 + 1 by omega]
    have hP : bits P = bits (8 * (P / 8) + P % 8) := by rw [Nat.div_add_mod]
    rw [hP]
    exact sum_bits_or (fun t ↦ hbits _) _
  · rw [Function.update_of_ne hk, packed, packed,
      show min 8 (P + 1 - 8 * k) = min 8 (P - 8 * k) by omega]

/-- The bits of the coefficients, one after the other. -/
def bitsOf (coeffs : Coeffs) (d p : ℕ) : ℕ := coeffs (p / d) / 2 ^ (p % d) % 2

/-- The inner loop: one coefficient. -/
theorem packBits_coeff (coeffs : Coeffs) (i : ℕ) {d m : ℕ} (hm : m ≤ d) :
    (List.range m).foldl (fun out b ↦
      let bit := (coeffs i >>> b) &&& 1
      let pos := i * d + b
      Function.update out (pos / 8) (out (pos / 8) ||| (bit <<< (pos % 8))))
        (packed (bitsOf coeffs d) (i * d)) =
      packed (bitsOf coeffs d) (i * d + m) := by
  induction m with
  | zero => rfl
  | succ m ih =>
    rw [List.range_succ, List.foldl_append, List.foldl_cons, List.foldl_nil, ih (by omega)]
    have hbit : (coeffs i >>> m) &&& 1 = bitsOf coeffs d (i * d + m) := by
      rw [and_one, bitsOf, Nat.mul_comm, Nat.mul_add_div (by omega), Nat.mul_add_mod,
        Nat.div_eq_of_lt (show m < d by omega), Nat.mod_eq_of_lt (show m < d by omega), Nat.add_zero]
    dsimp only
    rw [hbit]
    exact packed_succ (fun p ↦ Nat.lt_succ_iff.mp (Nat.mod_lt _ Nat.two_pos)) _

/-- Packing writes the bits of the coefficients one after the other. -/
theorem packBits_eq (coeffs : Coeffs) (n d : ℕ) :
    packBits coeffs n d = packed (bitsOf coeffs d) (n * d) := by
  unfold packBits
  induction n with
  | zero =>
    funext k
    simp [packed]
  | succ n ih =>
    rw [List.range_succ, List.foldl_append, List.foldl_cons, List.foldl_nil, ih,
      packBits_coeff coeffs n le_rfl, Nat.succ_mul]

/-- **`byte_encode_d` is `ByteEncode_d`.** -/
theorem byteEncodeD_eq (coeffs : Coeffs) (d : ℕ) :
    byteEncodeD coeffs 256 d = Fips203.byteEncode d coeffs := by
  rw [byteEncodeD, Fips203.byteEncode, Fips203.bitsToBytes, packBits_eq,
    show (256 * d + 7) / 8 = 32 * d by omega]
  refine List.map_congr_left fun k hk ↦ ?_
  have hk := List.mem_range.mp hk
  rw [packed, show min 8 (256 * d - 8 * k) = 8 by omega]
  rfl

/-- `ByteEncode_d` reads the 256 coefficients. -/
theorem byteEncode_congr {d : ℕ} {f g : ℕ → ℕ} (h : ∀ i < 256, f i = g i) :
    Fips203.byteEncode d f = Fips203.byteEncode d g := by
  refine List.map_congr_left fun k hk ↦ congrArg UInt8.ofNat (Finset.sum_congr rfl fun t ht ↦ ?_)
  have hk := List.mem_range.mp hk
  have ht := Finset.mem_range.mp ht
  dsimp only
  rw [h _ (Nat.div_lt_of_lt_mul (by omega))]

/-! ### `byte_decode_d` -/

theorem byteDecodeD_eq (data : List UInt8) (d i : ℕ) :
    byteDecodeD data d i =
      ∑ j ∈ Finset.range d, Fips203.bytesToBits data (i * d + j) * 2 ^ j := by
  rw [byteDecodeD, ← foldl_or_bits fun t ↦ bytesToBits_le data (i * d + t)]
  simp only [byteAt_bit]

/-- **`byte_decode_d` is `ByteDecode_12`** on reduced coefficients. -/
theorem byteDecodeD_twelve {data : List UInt8} {i : ℕ} (h : byteDecodeD data 12 i < q) :
    Fips203.byteDecode 12 data i = byteDecodeD data 12 i := by
  rw [Fips203.byteDecode, ← byteDecodeD_eq, if_pos rfl]
  exact Nat.mod_eq_of_lt h

/-- The bits of the message are `ByteDecode_1`. -/
theorem byteDecode_one (data : List UInt8) (i : ℕ) :
    Fips203.byteDecode 1 data i = Fips203.bytesToBits data i := by
  rw [Fips203.byteDecode, Finset.sum_range_one, Nat.mul_one, Nat.add_zero, pow_zero, Nat.mul_one,
    if_neg (by decide)]
  exact Nat.mod_eq_of_lt (Nat.lt_succ_of_le (bytesToBits_le data i))

/-! ### Compression -/

/-- The multiplication by the reciprocal, with its rounding constant. -/
theorem reciprocal_eq {y : ℕ} (hy : y < 2477 * 3329) :
    ((y + 1) * 5160669) >>> 34 = y / 3329 := by
  rw [Nat.shiftRight_eq_div_pow]
  omega

/-- Rounding a quotient of natural numbers to the nearest, halves up. -/
theorem round_div (a b : ℕ) (hb : 0 < b) :
    round ((a : ℚ) / b) = ((2 * a + b) / (2 * b) : ℕ) := by
  have hb' : (b : ℚ) ≠ 0 := by positivity
  have hsum : (a : ℚ) / b + 1 / 2 = ((2 * a + b : ℕ) : ℚ) / (2 * b : ℕ) := by
    push_cast
    field_simp
  rw [round_eq, hsum, Rat.floor_natCast_div_natCast, Int.natCast_div]

/-- **`compress` is `Compress_d`**, for the widths in use. -/
theorem compress_eq {x d : ℕ} (hx : x < q) (hd : d ≤ 10) :
    compress x d = Fips203.compress d x := by
  have hpow : 2 ^ d ≤ 2 ^ 10 := Nat.pow_le_pow_right Nat.two_pos hd
  have hval : (x : Zq).val = x := ZMod.val_natCast_of_lt hx
  have hmul : x * 2 ^ d ≤ 3328 * 1024 := Nat.mul_le_mul (Nat.lt_succ_iff.mp hx) hpow
  have hround : (2 ^ d / 3329 : ℚ) * (x : ℕ) = ((x * 2 ^ d : ℕ) : ℚ) / (3329 : ℕ) := by
    push_cast
    ring
  have hy : (((x <<< d) + (q + 1) >>> 1) * (2 ^ 34 / q)) >>> 34 = (x * 2 ^ d + 1664) / 3329 := by
    rw [Nat.shiftLeft_eq]
    exact reciprocal_eq (y := x * 2 ^ d + 1664) (by omega)
  rw [compress, Fips203.compress, hval, hround, round_div _ _ (by decide), Int.toNat_natCast,
    hy, Nat.shiftLeft_eq, Nat.one_mul, Nat.and_two_pow_sub_one_eq_mod,
    show (2 * (x * 2 ^ d) + 3329) / (2 * 3329) = (x * 2 ^ d + 1664) / 3329 by omega,
    Nat.mod_eq_of_lt (show (x * 2 ^ d + 1664) / 3329 < 2 ^ 16 by omega)]

/-- **`decompress` of one bit is `Decompress_1`.** -/
theorem decompress_bit {y : ℕ} (hy : y ≤ 1) :
    decompress y 1 < q ∧ (decompress y 1 : Zq) = Fips203.decompress 1 y := by
  have hround : (3329 / 2 ^ 1 : ℚ) * (y : ℕ) = ((y * 3329 : ℕ) : ℚ) / (2 : ℕ) := by
    push_cast
    ring
  rw [Fips203.decompress, hround, round_div _ _ (by decide), Int.cast_natCast]
  interval_cases y
  · exact ⟨by decide, rfl⟩
  · exact ⟨by decide, rfl⟩

end MlKem

end VoiceChatCrypto
