import Mathlib.Algebra.Field.IsField
import Mathlib.Tactic.IntervalCases
import Mathlib.Tactic.Ring
import VoiceChatCrypto.Braid.Rs

/-!
# The field of the chunks

`gf_mul` and `gf_inv` of `src/ratchet/braid/rs.rs` make the 16-bit words a field, with exclusive or as
its addition.

Everything is **linear over the bits** of a word: a product is the sum of the multiples `xⁱ · a` over
the bits `i` of the other factor (`bitSum`), and two linear maps that agree on the sixteen powers of
two are equal. What is left to compute is therefore small: the products of powers of two, their
`2¹⁶`-th powers, and one linear map that shows that `0` and `1` are the only idempotents.
-/

namespace VoiceChatCrypto

/-! ### Sums over bits -/

/-- A map that respects exclusive or: a linear map over the field of two elements. -/
def XorLinear (f : UInt16 → UInt16) : Prop := ∀ a b, f (a ^^^ b) = f a ^^^ f b

/-- The sum of `t i` over the bits `i` of a word. -/
def bitSum : ℕ → (ℕ → UInt16) → UInt16 → UInt16
  | 0, _, _ => 0
  | n + 1, t, b => (if b &&& 1 = 0 then 0 else t 0) ^^^ bitSum n (fun i ↦ t (i + 1)) (b >>> 1)

theorem xor_left_comm (a b c : UInt16) : a ^^^ (b ^^^ c) = b ^^^ (a ^^^ c) := by
  rw [← UInt16.xor_assoc, UInt16.xor_comm a b, UInt16.xor_assoc]

theorem xor_xor_xor_comm (a b c d : UInt16) : (a ^^^ b) ^^^ (c ^^^ d) = (a ^^^ c) ^^^ (b ^^^ d) := by
  rw [UInt16.xor_assoc, xor_left_comm b, ← UInt16.xor_assoc]

/-- The low bit of a sum. -/
theorem low_xor (t a b : UInt16) : (if (a ^^^ b) &&& 1 = 0 then 0 else t) =
    (if a &&& 1 = 0 then 0 else t) ^^^ (if b &&& 1 = 0 then 0 else t) := by
  have hbit : ∀ c : UInt16, c &&& 1 = 0 ↔ c.toNat % 2 = 0 := by
    intro c
    rw [← UInt16.toNat_inj, UInt16.toNat_and]
    exact Eq.congr (Nat.and_one_is_mod _) rfl
  have hxor := Nat.xor_mod_two_eq_one (a := a.toNat) (b := b.toNat)
  rw [← UInt16.toNat_xor] at hxor
  simp only [hbit]
  have hcase : ∀ n : ℕ, n % 2 = 0 ∨ n % 2 = 1 := fun n ↦ by omega
  rcases hcase a.toNat with ha | ha <;> rcases hcase b.toNat with hb | hb <;>
    simp_all

theorem shiftRight_xor (a b : UInt16) : (a ^^^ b) >>> 1 = a >>> 1 ^^^ b >>> 1 := by
  apply UInt16.toBitVec_inj.1
  simp [BitVec.ushiftRight_xor_distrib]

/-- **A bit sum is linear** in the word, because each of its terms depends on one bit only. -/
theorem bitSum_linear (n : ℕ) (t : ℕ → UInt16) : XorLinear (bitSum n t) := by
  induction n generalizing t with
  | zero => exact fun _ _ ↦ UInt16.xor_self.symm
  | succ n ih =>
    intro a b
    rw [bitSum, bitSum, bitSum, low_xor, shiftRight_xor, ih, xor_xor_xor_comm]

/-- It commutes with linear maps, in the summands. -/
theorem bitSum_map {f : UInt16 → UInt16} (hf : XorLinear f) (n : ℕ) (t : ℕ → UInt16) (b : UInt16) :
    f (bitSum n t b) = bitSum n (fun i ↦ f (t i)) b := by
  have hzero : f 0 = 0 := by
    have h := hf 0 0
    rwa [UInt16.xor_self, UInt16.xor_self] at h
  induction n generalizing t b with
  | zero => exact hzero
  | succ n ih =>
    rw [bitSum, bitSum, hf, ih]
    split
    · rw [hzero]
    · rfl

/-- A sum over the bits of a word is linear in its terms. -/
theorem bitSum_xor (n : ℕ) (t t' : ℕ → UInt16) (b : UInt16) :
    bitSum n (fun i ↦ t i ^^^ t' i) b = bitSum n t b ^^^ bitSum n t' b := by
  induction n generalizing t t' b with
  | zero => exact UInt16.xor_self.symm
  | succ n ih =>
    rw [bitSum, bitSum, bitSum, ih (fun i ↦ t (i + 1)), xor_xor_xor_comm]
    split
    · rw [UInt16.xor_self]
    · rfl

/-- **Linear maps are determined by the powers of two**, since every word is the exclusive or of its
bits. -/
theorem XorLinear.ext {f g : UInt16 → UInt16} (hf : XorLinear f) (hg : XorLinear g)
    (h : ∀ i < 16, f (UInt16.ofNat (2 ^ i)) = g (UInt16.ofNat (2 ^ i))) : f = g := by
  have hzero : ∀ {k : UInt16 → UInt16}, XorLinear k → k 0 = 0 := by
    intro k hk
    have h := hk 0 0
    rwa [UInt16.xor_self, UInt16.xor_self] at h
  -- by induction on the number of bits
  have hbits : ∀ n ≤ 16, ∀ m < 2 ^ n, f (UInt16.ofNat m) = g (UInt16.ofNat m) := by
    intro n
    induction n with
    | zero =>
      intro _ m hm
      obtain rfl : m = 0 := by omega
      exact (hzero hf).trans (hzero hg).symm
    | succ n ih =>
      intro hn m hm
      by_cases hlt : m < 2 ^ n
      · exact ih (by omega) m hlt
      · have hrest : m - 2 ^ n < 2 ^ n := by
          rw [Nat.pow_succ] at hm
          omega
        have hsplit : m = 2 ^ n ^^^ (m - 2 ^ n) := by
          apply Nat.eq_of_testBit_eq
          intro i
          have hm' : m = 2 ^ n + (m - 2 ^ n) := by omega
          rw [Nat.testBit_xor, Nat.testBit_two_pow]
          conv_lhs => rw [hm']
          by_cases hi : n = i
          · subst hi
            rw [Nat.testBit_two_pow_add_eq, Nat.testBit_lt_two_pow hrest]
            simp
          · simp only [hi, decide_false, Bool.false_bne]
            rcases Nat.lt_or_gt_of_ne hi with hlt' | hgt
            · have hm2 : m < 2 ^ i := lt_of_lt_of_le hm (Nat.pow_le_pow_right (by omega) hlt')
              rw [← hm', Nat.testBit_lt_two_pow hm2, Nat.testBit_lt_two_pow (by omega)]
            · exact Nat.testBit_two_pow_add_gt hgt _
        rw [hsplit, UInt16.ofNat_xor, hf, hg, h n (by omega), ih (by omega) _ hrest]
  funext a
  have ha := hbits 16 (le_refl _) a.toNat a.toNat_lt
  rwa [UInt16.ofNat_toNat] at ha

/-! ### Multiplication -/

/-- Multiplication by `x`, as one round of `gf_mul` does it. -/
def xtime (a : UInt16) : UInt16 := a <<< 1 ^^^ (if a &&& 0x8000 = 0 then 0 else 0x100B)

theorem top_eq_zero (c : UInt16) : c &&& 0x8000 = 0 ↔ c.toBitVec.getLsbD 15 = false := by
  rw [← UInt16.toBitVec_inj, UInt16.toBitVec_and]
  constructor
  · intro h
    have h15 := congrArg (fun v ↦ v.getLsbD 15) h
    simpa using h15
  · intro h
    ext i hi
    by_cases h15 : i = 15
    · subst h15
      simpa using h
    · have hmask : ∀ i (hi : i < 16), i ≠ 15 → (32768#16)[i] = false := by decide
      simp [hmask i hi h15]

theorem top_xor (t a b : UInt16) : (if (a ^^^ b) &&& 0x8000 = 0 then 0 else t) =
    (if a &&& 0x8000 = 0 then 0 else t) ^^^ (if b &&& 0x8000 = 0 then 0 else t) := by
  simp only [top_eq_zero, UInt16.toBitVec_xor, BitVec.getLsbD_xor]
  cases a.toBitVec.getLsbD 15 <;> cases b.toBitVec.getLsbD 15 <;> simp

theorem xtime_linear : XorLinear xtime := by
  intro a b
  have hshift : (a ^^^ b) <<< 1 = a <<< 1 ^^^ b <<< 1 := by
    apply UInt16.toBitVec_inj.1
    simp [BitVec.shiftLeft_xor_distrib]
  rw [xtime, xtime, xtime, hshift, top_xor, xor_xor_xor_comm]

/-- Without the highest bit a shift does not leave the word. -/
theorem shiftLeft_setWidth {v : BitVec 16} (h : v.getLsbD 15 = false) :
    v.setWidth 32 <<< 1 = (v <<< 1 ^^^ 0#16).setWidth 32 := by
  have h15 : v[15] = false := h
  ext i hi
  interval_cases i <;> simp [h15]

/-- With the highest bit the reduction brings it back into the word. -/
theorem shiftLeft_setWidth_xor {v : BitVec 16} (h : v.getLsbD 15 = true) :
    v.setWidth 32 <<< 1 ^^^ 0x1100B#32 = (v <<< 1 ^^^ 0x100B#16).setWidth 32 := by
  have h15 : v[15] = true := h
  ext i hi
  interval_cases i <;> simp [h15]

/-- One round of `gf_mul` stays within 16 bits. -/
theorem toUInt32_xtime (a : UInt16) :
    (if a.toUInt32 &&& 0x8000 ≠ 0 then a.toUInt32 <<< 1 ^^^ 0x1100B else a.toUInt32 <<< 1) =
      (xtime a).toUInt32 := by
  have htop : a.toUInt32 &&& 0x8000 = 0 ↔ a &&& 0x8000 = 0 := by
    have hand : a.toUInt32 &&& 0x8000 = (a &&& 0x8000).toUInt32 := rfl
    rw [hand, ← UInt32.toNat_inj, ← UInt16.toNat_inj]
    rfl
  unfold xtime
  simp only [ne_eq, htop, ite_not, top_eq_zero]
  apply UInt32.toBitVec_inj.1
  cases h15 : a.toBitVec.getLsbD 15 with
  | false => exact shiftLeft_setWidth h15
  | true => exact shiftLeft_setWidth_xor h15

/-- A word without bits selects no term. -/
theorem bitSum_zero (n : ℕ) (t : ℕ → UInt16) : bitSum n t 0 = 0 := by
  induction n generalizing t with
  | zero => rfl
  | succ n ih =>
    rw [bitSum, if_pos (by decide), UInt16.zero_xor]
    exact ih _

/-- **`gf_mul` as a sum over bits.** -/
theorem gfMulLoop_eq (n : ℕ) (r a b : UInt16) : gfMulLoop n r.toUInt32 a.toUInt32 b =
    (r ^^^ bitSum n (fun i ↦ xtime^[i] a) b).toUInt32 := by
  induction n generalizing r a b with
  | zero => rw [gfMulLoop, bitSum, UInt16.xor_zero]
  | succ n ih =>
    rw [gfMulLoop]
    by_cases hb : b = 0
    · rw [if_pos hb, hb, bitSum_zero, UInt16.xor_zero]
    · rw [if_neg hb, bitSum]
      dsimp only
      rw [toUInt32_xtime]
      by_cases hlow : b &&& 1 = 0
      · rw [if_neg (not_not.2 hlow), if_pos hlow, UInt16.zero_xor]
        exact ih r (xtime a) (b >>> 1)
      · rw [if_pos hlow, if_neg hlow, ← UInt16.xor_assoc, ← UInt16.toUInt32_xor]
        exact ih (r ^^^ a) (xtime a) (b >>> 1)

/-- **The loop of `gf_mul` is a sum over the bits of its second factor.** -/
theorem gfMul_eq (a b : UInt16) : gfMul a b = bitSum 16 (fun i ↦ xtime^[i] a) b := by
  have hloop := gfMulLoop_eq 16 0 a b
  rw [UInt16.zero_xor] at hloop
  rw [gfMul, show (0 : UInt32) = UInt16.toUInt32 0 from rfl, hloop, UInt32.toUInt16_and,
    UInt16.toUInt16_toUInt32]
  exact UInt16.and_neg_one

theorem gfMul_right_linear (a : UInt16) : XorLinear (gfMul a) := by
  intro b c
  rw [gfMul_eq, gfMul_eq, gfMul_eq, bitSum_linear]

/-- Multiplication by a power of `x` is linear, as a repetition of linear steps. -/
theorem iterate_xtime_xor (i : ℕ) (a b : UInt16) :
    xtime^[i] (a ^^^ b) = xtime^[i] a ^^^ xtime^[i] b := by
  induction i generalizing a b with
  | zero => rfl
  | succ i ih => rw [Function.iterate_succ_apply, Function.iterate_succ_apply,
      Function.iterate_succ_apply, xtime_linear, ih]

theorem gfMul_xor_left (a b c : UInt16) : gfMul (a ^^^ b) c = gfMul a c ^^^ gfMul b c := by
  simp only [gfMul_eq, iterate_xtime_xor, bitSum_xor]

theorem gfMul_left_linear (b : UInt16) : XorLinear fun a ↦ gfMul a b :=
  fun a c ↦ gfMul_xor_left a c b

/-- A power of two has one bit. -/
theorem bitSum_two_pow {n j : ℕ} (hj : j < n) (hn : n ≤ 16) (t : ℕ → UInt16) :
    bitSum n t (UInt16.ofNat (2 ^ j)) = t j := by
  have hodd : UInt16.ofNat (2 ^ 0) &&& 1 ≠ 0 ∧ UInt16.ofNat (2 ^ 0) >>> 1 = 0 := by decide
  have heven : ∀ j < 15, UInt16.ofNat (2 ^ (j + 1)) &&& 1 = 0 ∧
      UInt16.ofNat (2 ^ (j + 1)) >>> 1 = UInt16.ofNat (2 ^ j) := by decide
  induction n generalizing j t with
  | zero => omega
  | succ n ih =>
    cases j with
    | zero => rw [bitSum, if_neg hodd.1, hodd.2, bitSum_zero, UInt16.xor_zero]
    | succ j =>
      obtain ⟨hlow, hshift⟩ := heven j (by omega)
      rw [bitSum, if_pos hlow, hshift, UInt16.zero_xor]
      exact ih (by omega) (by omega) _

/-- The first sixteen powers of `x` are single bits. -/
theorem iterate_xtime_one : ∀ i < 16, xtime^[i] 1 = UInt16.ofNat (2 ^ i) := by decide +kernel

/-- Products of powers of two commute, and so do all. -/
theorem gfMul_comm (a b : UInt16) : gfMul a b = gfMul b a := by
  have hpow : ∀ i < 16, ∀ j < 16, gfMul (UInt16.ofNat (2 ^ i)) (UInt16.ofNat (2 ^ j)) =
      xtime^[j + i] 1 := by
    intro i hi j hj
    rw [gfMul_eq, bitSum_two_pow hj (le_refl _), ← iterate_xtime_one i hi, Function.iterate_add_apply]
  have hbasis : ∀ i < 16, ∀ j < 16, gfMul (UInt16.ofNat (2 ^ i)) (UInt16.ofNat (2 ^ j)) =
      gfMul (UInt16.ofNat (2 ^ j)) (UInt16.ofNat (2 ^ i)) := by
    intro i hi j hj
    rw [hpow i hi j hj, hpow j hj i hi, Nat.add_comm]
  have hleft : ∀ i < 16, ∀ b, gfMul (UInt16.ofNat (2 ^ i)) b = gfMul b (UInt16.ofNat (2 ^ i)) :=
    fun i hi ↦ congrFun (XorLinear.ext (gfMul_right_linear _) (gfMul_left_linear _) (hbasis i hi))
  exact congrFun (XorLinear.ext (gfMul_left_linear b) (gfMul_right_linear b) fun i hi ↦ hleft i hi b) a

/-- Multiplication by `x` can be moved from the product into a factor. -/
theorem xtime_gfMul (a b : UInt16) : xtime (gfMul a b) = gfMul a (xtime b) := by
  rw [gfMul_comm a b, gfMul_comm a (xtime b), gfMul_eq, gfMul_eq, bitSum_map xtime_linear]
  congr 1
  funext i
  exact (Function.iterate_succ_apply' xtime i b).symm

/-- Associativity needs to be checked on powers of `x` only. -/
theorem gfMul_assoc (a b c : UInt16) : gfMul (gfMul a b) c = gfMul a (gfMul b c) := by
  rw [gfMul_eq, gfMul_eq b c, bitSum_map (gfMul_right_linear a)]
  congr 1
  funext i
  induction i generalizing b with
  | zero => rfl
  | succ i ih => rw [Function.iterate_succ_apply, Function.iterate_succ_apply, xtime_gfMul, ih]

/-- One is neutral, on the right; on the left it follows from commutativity. -/
theorem gfMul_one (a : UInt16) : gfMul a 1 = a := by
  rw [gfMul_eq]
  exact bitSum_two_pow (j := 0) (by omega) (le_refl _) _

/-! ### Inverses -/

theorem square_xor (a b : UInt16) : gfMul (a ^^^ b) (a ^^^ b) = gfMul a a ^^^ gfMul b b := by
  rw [gfMul_right_linear, gfMul_xor_left, gfMul_xor_left, gfMul_comm b a, UInt16.xor_assoc,
    ← UInt16.xor_assoc (gfMul a b), UInt16.xor_self, UInt16.zero_xor]

/-- `e ↦ e² + e` undone, up to the lowest bit. -/
def artinSchreier : List UInt16 :=
  [350, 42420, 42422, 7412, 42418, 10272, 7420, 1328, 42402, 38610, 10240, 5068, 7356, 0, 1456, 21936]

/-- **There are no idempotents but `0` and `1`**: an idempotent is a root of `a² + a`, which is
linear in characteristic two, and sixteen words undo this map up to the lowest bit. -/
theorem idempotent {e : UInt16} (h : gfMul e e = e) : e = 0 ∨ e = 1 := by
  have hlinear : XorLinear fun a ↦ bitSum 16 (fun i ↦ artinSchreier.getD i 0) (gfMul a a ^^^ a) := by
    intro a b
    show bitSum 16 _ (gfMul (a ^^^ b) (a ^^^ b) ^^^ (a ^^^ b)) = _
    rw [square_xor, xor_xor_xor_comm, bitSum_linear]
  have hclear : XorLinear fun a ↦ a ^^^ (if a &&& 1 = 0 then 0 else 1) := by
    intro a b
    show a ^^^ b ^^^ _ = _
    rw [low_xor, xor_xor_xor_comm]
  have hbasis : ∀ i < 16, bitSum 16 (fun i ↦ artinSchreier.getD i 0)
      (gfMul (UInt16.ofNat (2 ^ i)) (UInt16.ofNat (2 ^ i)) ^^^ UInt16.ofNat (2 ^ i)) =
        UInt16.ofNat (2 ^ i) ^^^ (if UInt16.ofNat (2 ^ i) &&& 1 = 0 then 0 else 1) := by
    decide +kernel
  have heq := congrFun (XorLinear.ext hlinear hclear hbasis) e
  simp only [h, UInt16.xor_self, bitSum_zero] at heq
  have he := UInt16.xor_eq_zero_iff.1 heq.symm
  split at he
  · exact .inl he
  · exact .inr he

/-- The words as elements of a field. -/
def Gf : Type := UInt16

namespace Gf

/-- A word as a field element. -/
def of (a : UInt16) : Gf := a

instance instZero : Zero Gf := ⟨of 0⟩

instance instOne : One Gf := ⟨of 1⟩

instance instAdd : Add Gf := ⟨fun (a b : UInt16) ↦ of (a ^^^ b)⟩

instance instNeg : Neg Gf := ⟨fun a ↦ a⟩

instance instMul : Mul Gf := ⟨fun (a b : UInt16) ↦ of (gfMul a b)⟩

instance instCommRing : CommRing Gf where
  add_assoc := UInt16.xor_assoc
  zero_add _ := UInt16.zero_xor
  add_zero _ := UInt16.xor_zero
  nsmul := nsmulRec
  zsmul := zsmulRec
  neg_add_cancel _ := UInt16.xor_self
  add_comm := UInt16.xor_comm
  left_distrib := gfMul_right_linear
  right_distrib := gfMul_xor_left
  zero_mul a := by
    have h := gfMul_xor_left 0 0 a
    rwa [UInt16.xor_self, UInt16.xor_self] at h
  mul_zero a := by
    have h := gfMul_right_linear a 0 0
    rwa [UInt16.xor_self, UInt16.xor_self] at h
  mul_assoc := gfMul_assoc
  one_mul a := (gfMul_comm 1 a).trans (gfMul_one a)
  mul_one := gfMul_one
  mul_comm := gfMul_comm

/-- The powers `x ^ 2ⁱ`. -/
def conjugates : List UInt16 :=
  [2, 4, 16, 256, 4107, 7166, 23588, 58951, 2863, 5790, 2680, 6016, 6951, 3429, 22093, 61638, 2]

/-- Each entry of the table is the square of the one before. -/
theorem conjugates_spec : ∀ i < 16, gfMul (conjugates.getD i 0) (conjugates.getD i 0) =
    conjugates.getD (i + 1) 0 := by
  decide +kernel

theorem two_pow_two_pow {n : ℕ} (hn : n ≤ 16) : of 2 ^ 2 ^ n = of (conjugates.getD n 0) := by
  induction n with
  | zero => exact pow_one _
  | succ n ih =>
    rw [Nat.pow_succ, pow_mul, ih (by omega), pow_two, ← conjugates_spec n (by omega)]
    rfl

theorem of_two_pow {i : ℕ} (hi : i < 16) : of (UInt16.ofNat (2 ^ i)) = of 2 ^ i := by
  have hstep : ∀ i < 15, gfMul (UInt16.ofNat (2 ^ i)) 2 = UInt16.ofNat (2 ^ (i + 1)) := by
    decide +kernel
  induction i with
  | zero => rfl
  | succ i ih =>
    rw [← hstep i (by omega), pow_succ (of 2), ← ih (by omega)]
    rfl

/-- **Every element is its own `2¹⁶`-th power**: `x` is, and with it its powers and their sums. -/
theorem pow_card (a : Gf) : a ^ 2 ^ 16 = a := by
  have hx : of 2 ^ 2 ^ 16 = of 2 := two_pow_two_pow (le_refl _)
  have hadd : ∀ n, ∀ a b : Gf, (a + b) ^ 2 ^ n = a ^ 2 ^ n + b ^ 2 ^ n := by
    intro n
    induction n with
    | zero => simp
    | succ n ih =>
      intro a b
      have hsq : ∀ a b : Gf, (a + b) ^ 2 = a ^ 2 + b ^ 2 := by
        intro a b
        rw [pow_two, pow_two, pow_two]
        exact square_xor a b
      rw [Nat.pow_succ, pow_mul, pow_mul, pow_mul, ih, hsq]
  have hbasis : ∀ i < 16, of (UInt16.ofNat (2 ^ i)) ^ 2 ^ 16 = of (UInt16.ofNat (2 ^ i)) := by
    intro i hi
    rw [of_two_pow hi, ← pow_mul, Nat.mul_comm, pow_mul, hx]
  have hid : XorLinear id := fun _ _ ↦ rfl
  have hlinear : XorLinear fun a ↦ of a ^ 2 ^ 16 := hadd 16
  exact congrFun (XorLinear.ext hlinear hid hbasis) a

/-- **`gf_inv` is a power**, by repeated squaring: the loop multiplies the squares up as it goes. -/
theorem gfInvLoop_eq (n : ℕ) (e : UInt32) (base acc : UInt16) (h : e.toNat < 2 ^ n) :
    of (gfInvLoop n e base acc) = of acc * of base ^ e.toNat := by
  induction n generalizing e base acc with
  | zero =>
    have he : e.toNat = 0 := by omega
    rw [gfInvLoop, he, pow_zero, mul_one]
  | succ n ih =>
    have hshift : (e >>> 1).toNat = e.toNat / 2 := by
      rw [UInt32.toNat_shiftRight]
      exact Nat.shiftRight_eq_div_pow _ 1
    have hlow : e &&& 1 = 1 ↔ e.toNat % 2 = 1 := by
      rw [← UInt32.toNat_inj, UInt32.toNat_and]
      exact Eq.congr (Nat.and_one_is_mod _) rfl
    rw [gfInvLoop]
    split
    · rename_i he
      rw [he]
      exact (mul_one _).symm
    · rw [ih _ _ _ (by rw [hshift]; omega), hshift]
      have hsq : of (gfMul base base) = of base ^ 2 := (pow_two (of base)).symm
      rw [hsq, ← pow_mul]
      split
      · rename_i hone
        have hodd := hlow.1 hone
        have hacc : of (gfMul acc base) = of acc * of base := rfl
        rw [hacc, mul_assoc, ← pow_succ']
        congr 2
        omega
      · rename_i hone
        have heven : ¬ e.toNat % 2 = 1 := fun h ↦ hone (hlow.2 h)
        congr 2
        omega

/-- **The loop of `gf_inv` raises to the power `2^16 - 2`.** -/
theorem gfInv_eq_pow (a : UInt16) : of (gfInv a) = of a ^ 65534 := by
  have hexp : (0xFFFE : UInt32).toNat = 65534 := rfl
  have hone : of 1 = 1 := rfl
  rw [gfInv, gfInvLoop_eq 16 0xFFFE a 1 (by decide), hexp, hone, one_mul]

/-- Where `a ^ (n + 1)` is neutral for `a`, it is idempotent. -/
theorem pow_idempotent {a : Gf} {n : ℕ} (h : a ^ (n + 2) = a) :
    a ^ (n + 1) * a ^ (n + 1) = a ^ (n + 1) := by
  calc a ^ (n + 1) * a ^ (n + 1) = a ^ (n + 2) * a ^ n := by ring
    _ = a ^ (n + 1) := by rw [h, ← pow_succ']

/-- **`gf_inv` inverts.** The power `a ^ 65535` is idempotent, and is `0` only when `a` is. -/
theorem mul_gfInv {a : UInt16} (ha : a ≠ 0) : of a * of (gfInv a) = 1 := by
  obtain ⟨n, hn⟩ : ∃ n, n = 65534 := ⟨_, rfl⟩
  have hcard : of a ^ (n + 2) = of a := by
    have h := pow_card (of a)
    rwa [show 2 ^ 16 = n + 2 by omega] at h
  have hpow : of a * of (gfInv a) = of a ^ (n + 1) := by rw [gfInv_eq_pow, ← hn, ← pow_succ']
  rw [hpow]
  rcases idempotent (pow_idempotent hcard) with hzero | hone
  · exfalso
    apply ha
    calc of a = of a ^ (n + 1) * of a := by rw [← pow_succ, hcard]
      _ = 0 := by rw [show of a ^ (n + 1) = 0 from hzero, zero_mul]
  · exact hone

/-- **The words of sixteen bits are a field under the operations of the source.** -/
theorem isField : IsField Gf where
  exists_pair_ne := ⟨of 0, of 1, fun h ↦ absurd (show (0 : UInt16) = 1 from h) (by decide)⟩
  mul_comm := mul_comm
  mul_inv_cancel {a} ha := ⟨of (gfInv a), mul_gfInv ha⟩

noncomputable instance instField : Field Gf := isField.toField

theorem of_gfInv {a : UInt16} (ha : a ≠ 0) : of (gfInv a) = (of a)⁻¹ :=
  eq_inv_of_mul_eq_one_right (mul_gfInv ha)

theorem of_xor (a b : UInt16) : of (a ^^^ b) = of a + of b := rfl

theorem of_gfMul (a b : UInt16) : of (gfMul a b) = of a * of b := rfl

/-- Subtraction is addition. -/
theorem sub_eq_add (a b : Gf) : a - b = a + b := by
  rw [sub_eq_iff_eq_add, add_assoc]
  have hself : b + b = 0 := UInt16.xor_self
  rw [hself, add_zero]

/-- **More rounds of `gf_mul` change nothing** once `b` is empty, and sixteen shifts empty it; the
loop of the source stops there. -/
theorem gfMulLoop_add (n k : ℕ) (r aa : UInt32) {b : UInt16} (h : b.toNat < 2 ^ n) :
    gfMulLoop (n + k) r aa b = gfMulLoop n r aa b := by
  induction n generalizing r aa b with
  | zero =>
    have hb : b = 0 := UInt16.toNat_inj.1 (by simpa using h)
    subst hb
    cases k with
    | zero => rfl
    | succ k =>
      show (if (0 : UInt16) = 0 then r else _) = r
      rw [if_pos rfl]
  | succ n ih =>
    have hshift : (b >>> 1).toNat < 2 ^ n := by
      have htoNat : (b >>> 1).toNat = b.toNat / 2 := by
        rw [UInt16.toNat_shiftRight]
        exact Nat.shiftRight_eq_div_pow _ 1
      rw [htoNat]
      rw [Nat.pow_succ] at h
      omega
    rw [Nat.add_right_comm, gfMulLoop, gfMulLoop]
    split
    · rfl
    · exact ih _ _ hshift

/-- **`gf_mul` and exclusive or make the words a field**, with `gf_inv` as the inverse; the rounds that
the loops of the two run through are the ones that the source runs through. -/
theorem gf_field_laws (a b c : UInt16) :
    gfMul a b = gfMul b a ∧
    gfMul (gfMul a b) c = gfMul a (gfMul b c) ∧
    gfMul a (b ^^^ c) = gfMul a b ^^^ gfMul a c ∧
    gfMul (a ^^^ b) c = gfMul a c ^^^ gfMul b c ∧
    gfMul a 1 = a ∧ gfMul 1 a = a ∧
    (gfMul a b = 0 ↔ a = 0 ∨ b = 0) ∧
    (a ≠ 0 → gfMul a (gfInv a) = 1) ∧
    (∀ k, gfMulLoop (16 + k) 0 a.toUInt32 b = gfMulLoop 16 0 a.toUInt32 b) ∧
    ∀ k, gfInvLoop (16 + k) 0xFFFE a 1 = gfInv a := by
  refine ⟨gfMul_comm a b, gfMul_assoc a b c, gfMul_right_linear a b c, gfMul_xor_left a b c,
    gfMul_one a, (gfMul_comm 1 a).trans (gfMul_one a), ?_, fun ha ↦ mul_gfInv ha, ?_, ?_⟩
  · exact mul_eq_zero (a := of a) (b := of b)
  · intro k
    exact gfMulLoop_add 16 k 0 a.toUInt32 b.toNat_lt
  · intro k
    have hmore := gfInvLoop_eq (16 + k) 0xFFFE a 1
      (lt_of_lt_of_le (by decide : (0xFFFE : UInt32).toNat < 2 ^ 16)
        (Nat.pow_le_pow_right Nat.two_pos (Nat.le_add_right 16 k)))
    exact hmore.trans (gfInvLoop_eq 16 0xFFFE a 1 (by decide)).symm

end Gf

end VoiceChatCrypto
