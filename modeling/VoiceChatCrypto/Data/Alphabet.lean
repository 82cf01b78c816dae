import Mathlib.Data.Vector.Basic
import Mathlib.Data.Nat.Bits
import Mathlib.Tactic.Ring

/-!
# Byte strings over an alphabet

Every format in this development is a list of letters. An **alphabet** is a type of letters in which
the 256 byte values can be written (`Alphabet.ofNat`) and read back (`Alphabet.toNat`); nothing says
that there are no other letters.

The code's own alphabet is `UInt8`, and every definition can be read at that instance. The generality
is not for its own sake: the assumptions of symbolic cryptography — a key derivation that is injective
and has disjoint ranges — have **no** model over 256 letters, because no map from 64 to 32 bytes is
injective. Over an unbounded alphabet they do, so a theorem about an arbitrary alphabet has
satisfiable hypotheses and still speaks about bytes.

Integers are written little-endian (`le`) or big-endian (`be`) in a fixed number of letters, and read
back modulo the width, exactly as `to_le_bytes` and `from_le_bytes` do.
-/

/-- Letters in which byte values can be written and read back. -/
class Alphabet (B : Type) where
  /-- Letters can be compared. -/
  decEq : DecidableEq B
  /-- The letter of a byte value, taken modulo 256. -/
  ofNat : ℕ → B
  /-- The byte value of a letter. -/
  toNat : B → ℕ
  /-- Byte values are below 256. -/
  toNat_lt : ∀ b, toNat b < 256
  /-- Writing a value and reading it back reduces it modulo 256. -/
  toNat_ofNat : ∀ n, toNat (ofNat n) = n % 256

namespace Alphabet

instance instDecidableEq {B : Type} [Alphabet B] : DecidableEq B := Alphabet.decEq

/-- The alphabet of the code. -/
instance : Alphabet UInt8 where
  decEq := inferInstance
  ofNat := UInt8.ofNat
  toNat := UInt8.toNat
  toNat_lt := UInt8.toNat_lt
  toNat_ofNat := fun _ ↦ UInt8.toNat_ofNat

variable {B : Type} [Alphabet B]

attribute [simp] toNat_ofNat

/-! ### Fixed-width integers -/

/-- The `w` little-endian letters of `n`. -/
def le : ℕ → ℕ → List B
  | 0, _ => []
  | w + 1, n => ofNat n :: le w (n / 256)

/-- The value of a little-endian string. -/
def fromLe : List B → ℕ
  | [] => 0
  | b :: bs => toNat b + 256 * fromLe bs

/-- The `w` big-endian letters of `n`. -/
def be (w n : ℕ) : List B := (le w n).reverse

/-- The value of a big-endian string. -/
def fromBe (bs : List B) : ℕ := fromLe bs.reverse

@[simp] theorem length_le (w n : ℕ) : (le w n : List B).length = w := by
  induction w generalizing n with
  | zero => rfl
  | succ w ih => simp [le, ih]

@[simp] theorem length_be (w n : ℕ) : (be w n : List B).length = w := by
  simp [be]

/-- **Reading back** what `le` wrote reduces modulo the width. -/
@[simp] theorem fromLe_le (w n : ℕ) : fromLe (le w n : List B) = n % 256 ^ w := by
  induction w generalizing n with
  | zero => simp [le, fromLe, Nat.mod_one]
  | succ w ih =>
    rw [le, fromLe, ih, toNat_ofNat, pow_succ, Nat.mul_comm (256 ^ w) 256, Nat.mod_mul]

/-- A number is read back from its `w` letters, highest first, modulo what they can hold. -/
@[simp] theorem fromBe_be (w n : ℕ) : fromBe (be w n : List B) = n % 256 ^ w := by
  simp [fromBe, be]

theorem fromLe_lt (bs : List B) : fromLe bs < 256 ^ bs.length := by
  induction bs with
  | nil => simp [fromLe]
  | cons b bs ih =>
    have hb := toNat_lt b
    rw [fromLe, List.length_cons, pow_succ]
    omega

/-- Letters further on count for more: a number written lowest first splits with its letters. -/
theorem fromLe_append (xs ys : List B) : fromLe (xs ++ ys) = fromLe xs + 256 ^ xs.length * fromLe ys := by
  induction xs with
  | nil => simp [fromLe]
  | cons x xs ih =>
    rw [List.cons_append, fromLe, fromLe, ih, List.length_cons, pow_succ]
    ring

/-- Letters are determined by their values, so that there are none but the 256. -/
def Bytes (B : Type) [Alphabet B] : Prop := ∀ b : B, ofNat (toNat b) = b

/-- Bytes are letters that hold nothing but their value. -/
theorem bytes_uint8 : Bytes UInt8 := fun _ ↦ UInt8.ofNat_toNat

/-- A letter of an alphabet is determined by its value modulo 256. -/
theorem ofNat_add_mul (hB : Bytes B) (b : B) (k : ℕ) : ofNat (toNat b + 256 * k) = b := by
  have h : toNat (ofNat (toNat b + 256 * k) : B) = toNat b := by
    rw [toNat_ofNat, Nat.add_mul_mod_self_left, Nat.mod_eq_of_lt (toNat_lt b)]
  rw [← hB (ofNat (toNat b + 256 * k)), h, hB]

/-- **Writing back** what `fromLe` read. -/
theorem le_fromLe (hB : Bytes B) (bs : List B) : le bs.length (fromLe bs) = bs := by
  induction bs with
  | nil => rfl
  | cons b bs ih =>
    have hdiv : (toNat b + 256 * fromLe bs) / 256 = fromLe bs := by
      have := toNat_lt b
      omega
    rw [fromLe, List.length_cons, le, hdiv, ih, ofNat_add_mul hB]

/-- Where letters are bytes, a string is the notation of the number it is read as. -/
theorem be_fromBe (hB : Bytes B) (bs : List B) : be bs.length (fromBe bs) = bs := by
  have h := le_fromLe hB bs.reverse
  rw [List.length_reverse] at h
  rw [be, fromBe, h, List.reverse_reverse]

theorem fromBe_lt (bs : List B) : fromBe bs < 256 ^ bs.length := by
  have h := fromLe_lt bs.reverse
  rwa [List.length_reverse] at h

/-- The letters of an ASCII string: magic numbers and key-derivation labels. -/
def ascii (s : String) : List B := s.toList.map fun c ↦ ofNat c.toNat

end Alphabet

/-! ### Fixed-size arrays -/

/-- A byte array of fixed length: `[u8; n]`. -/
abbrev Block (B : Type) (n : ℕ) := List.Vector B n

namespace Block

variable {B : Type} {n : ℕ}

@[simp] theorem length_val (b : Block B n) : b.val.length = n := b.2

variable [Alphabet B]

/-- The all-zero array `[0u8; n]`. -/
def zero (n : ℕ) : Block B n := List.Vector.replicate n (Alphabet.ofNat 0)

/-- The first `m` letters of an array that has at least as many. -/
def initial (m : ℕ) (b : Block B n) (h : m ≤ n) : Block B m :=
  ⟨b.val.take m, by rw [List.length_take, b.2]; omega⟩

end Block
