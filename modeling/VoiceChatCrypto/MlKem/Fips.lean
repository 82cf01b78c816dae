import Mathlib.Algebra.Order.Round
import Mathlib.Data.Nat.Nth
import Mathlib.Data.Rat.Floor
import Mathlib.Data.ZMod.Basic
import VoiceChatCrypto.MlKem.Code
import VoiceChatCrypto.MlKem.Residue

/-!
# K-PKE.Encrypt of FIPS 203

The standard's own definition for ML-KEM-768, over the rings it is stated in: `R_q` is
`ℤ_q[X] / (X²⁵⁶ + 1)`, and `T_q` the product of the rings `ℤ_q[X] / (X² - ζ^(2 BitRev₇(i) + 1))`. The
number-theoretic transform is the homomorphism from the one to the other, and its inverse is the
inverse function. Nothing here is computed; what computes it is the code.

Of the code only the record of hash functions is used. Numbers of sections and algorithms are those of
the standard.
-/

open Polynomial

namespace VoiceChatCrypto

namespace Fips203

open MlKem (Sha3)

/-- `ℤ_q`. -/
abbrev Zq := ZMod 3329

/-- `BitRev₇` (§4.3): the seven bits in the opposite order. -/
def bitRev7 (i : ℕ) : ℕ := ∑ j ∈ Finset.range 7, i / 2 ^ j % 2 * 2 ^ (6 - j)

/-- `ζ^(2 BitRev₇(i) + 1)` with `ζ = 17`. -/
def gamma (i : Fin 128) : Zq := 17 ^ (2 * bitRev7 i + 1)

theorem gamma_pow (i : Fin 128) : gamma i ^ 128 = -1 := by
  have h : (17 : Zq) ^ 128 = -1 := by decide +kernel
  rw [gamma, ← pow_mul, Nat.mul_comm, pow_mul, h, pow_succ, pow_mul, neg_one_sq, one_pow, one_mul]

/-- `R_q` (§2.4.4). -/
abbrev Rq := AdjoinRoot (X ^ 256 + 1 : Zq[X])

/-- `T_q` (§4.3). -/
abbrev Tq := ∀ i : Fin 128, AdjoinRoot (X ^ 2 - C (gamma i))

instance fact_one_lt : Fact (1 < 3329) := ⟨by decide⟩

/-- The modulus is monic, so that the quotient ring has a basis of powers. -/
theorem monic_modulus : (X ^ 256 + 1 : Zq[X]).Monic := Residue.monic_add_one (by decide)

/-- The element of `R_q` with these coefficients. -/
noncomputable def toRq (c : ℕ → Zq) : Rq := Residue.ofCoeffs _ 256 c

/-- The coefficients of an element of `R_q`. -/
noncomputable def coeffs (u : Rq) (i : ℕ) : Zq := Residue.coeffs monic_modulus u i

/-- The element of `T_q` with these coefficients. -/
noncomputable def toTq (c : ℕ → Zq) : Tq := Residue.pairs gamma c

/-- `NTT` (§4.3). -/
noncomputable def ntt : Rq →+* Tq := Residue.splitHom (by decide) gamma_pow

/-- `NTT⁻¹`. -/
noncomputable def nttInv : Tq → Rq := Function.invFun ntt

/-! ### Bytes and bits -/

/-- `BytesToBits` (Algorithm 4). -/
def bytesToBits (data : List UInt8) (p : ℕ) : ℕ := (data.getD (p / 8) 0).toNat / 2 ^ (p % 8) % 2

/-- `BitsToBytes` (Algorithm 3), `n` bytes of it. -/
def bitsToBytes (bits : ℕ → ℕ) (n : ℕ) : List UInt8 :=
  (List.range n).map fun k ↦ UInt8.ofNat (∑ t ∈ Finset.range 8, bits (8 * k + t) * 2 ^ t)

/-- `ByteEncode_d` (Algorithm 5). -/
def byteEncode (d : ℕ) (f : ℕ → ℕ) : List UInt8 :=
  bitsToBytes (fun p ↦ f (p / d) / 2 ^ (p % d) % 2) (32 * d)

/-- `ByteDecode_d` (Algorithm 6): integers modulo `2^d`, and modulo `q` for `d = 12`. -/
def byteDecode (d : ℕ) (data : List UInt8) (i : ℕ) : ℕ :=
  (∑ j ∈ Finset.range d, bytesToBits data (i * d + j) * 2 ^ j) %
    if d = 12 then 3329 else 2 ^ d

/-- The integers that the vector of an encapsulation key encodes are below `q`: the check of §7.2. -/
def Valid (ek : List UInt8) : Prop :=
  ∀ i < 768, ∑ j ∈ Finset.range 12, bytesToBits ek (i * 12 + j) * 2 ^ j < 3329

/-- `Compress_d` (§4.2.1). -/
def compress (d : ℕ) (x : Zq) : ℕ := (round ((2 ^ d / 3329 : ℚ) * x.val)).toNat % 2 ^ d

/-- `Decompress_d` (§4.2.1). -/
def decompress (d y : ℕ) : Zq := (round ((3329 / 2 ^ d : ℚ) * y) : ℤ)

/-! ### Sampling -/

/-- The candidates that `SampleNTT` (Algorithm 7) finds in the output of the XOF, two in three bytes. -/
def candidate (stream : ℕ → UInt8) (t : ℕ) : ℕ :=
  if t % 2 = 0 then (stream (3 * (t / 2))).toNat + 256 * ((stream (3 * (t / 2) + 1)).toNat % 16)
  else (stream (3 * (t / 2) + 1)).toNat / 16 + 16 * (stream (3 * (t / 2) + 2)).toNat

/-- `SampleNTT` (Algorithm 7): the first 256 candidates below `q`. -/
noncomputable def sampleNtt (H : Sha3) (data : List UInt8) : Tq :=
  let stream := H.shake128 data
  toTq fun j ↦ (candidate stream (Nat.nth (fun t ↦ candidate stream t < 3329) j) : ℕ)

/-- There are 256 candidates below `q` somewhere in the stream. This is what the loop of the
standard, which has no bound, needs to end. -/
def Samples (H : Sha3) (data : List UInt8) : Prop :=
  ∃ n, 256 ≤ Nat.count (fun t ↦ candidate (H.shake128 data) t < 3329) n

/-- `SamplePolyCBD_2` (Algorithm 8). -/
noncomputable def samplePolyCbd (data : List UInt8) : Rq :=
  toRq fun i ↦ (bytesToBits data (4 * i) + bytesToBits data (4 * i + 1) : ℕ) -
    (bytesToBits data (4 * i + 2) + bytesToBits data (4 * i + 3) : ℕ)

/-- `PRF_2` (§4.1): the first 128 bytes of SHAKE256. -/
def prf (H : Sha3) (s : List UInt8) (b : ℕ) : List UInt8 :=
  (List.range 128).map (H.shake256 (s ++ [UInt8.ofNat b]))

/-! ### Encryption -/

/-- A polynomial of the ciphertext: its coefficients, compressed to `d` bits and packed. -/
noncomputable def pack (d : ℕ) (u : Rq) : List UInt8 := byteEncode d fun i ↦ compress d (coeffs u i)

/-- `K-PKE.Encrypt` (Algorithm 14) with the parameters of ML-KEM-768: `k = 3`, `η₁ = η₂ = 2`,
`d_u = 10` and `d_v = 4`. -/
noncomputable def encrypt (H : Sha3) (ek m r : List UInt8) : List UInt8 :=
  let t (i : ℕ) : Tq := toTq fun j ↦ (byteDecode 12 ((ek.drop (384 * i)).take 384) j : ℕ)
  let rho := ek.drop (384 * 3)
  let a (i j : ℕ) : Tq := sampleNtt H (rho ++ [UInt8.ofNat j, UInt8.ofNat i])
  let y (i : ℕ) : Rq := samplePolyCbd (prf H r i)
  let e₁ (i : ℕ) : Rq := samplePolyCbd (prf H r (3 + i))
  let e₂ : Rq := samplePolyCbd (prf H r 6)
  let u (i : ℕ) : Rq := nttInv (∑ j ∈ Finset.range 3, a j i * ntt (y j)) + e₁ i
  let μ : Rq := toRq fun i ↦ decompress 1 (byteDecode 1 m i)
  let v : Rq := nttInv (∑ j ∈ Finset.range 3, t j * ntt (y j)) + e₂ + μ
  pack 10 (u 0) ++ pack 10 (u 1) ++ pack 10 (u 2) ++ pack 4 v

end Fips203

end VoiceChatCrypto
