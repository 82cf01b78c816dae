import VoiceChatCrypto.Braid.Scka

/-!
# Incremental ML-KEM-768

The functions of `src/primitives/mlkem_inc.rs`, from the arithmetic modulo 3329 up to `encaps1_with_m`,
`encaps2` and `join_ct`. An array of 256 coefficients is a function of the index, of which the first
256 values are used; a `u16` is a natural number, with the reduction written out where a value is cast.

The hash functions belong to the `sha3` crate and are parameters. The loop of `sample_ntt` ends when it
has found 256 coefficients in the output of SHAKE128, which may not happen: it runs on fuel, and is
`none` when that is used up.
-/

open Alphabet

namespace VoiceChatCrypto

namespace MlKem

/-- The hash functions of the `sha3` crate. An extendable-output function is its stream of bytes. -/
structure Sha3 where
  /-- SHA3-256. -/
  sha3_256 : List UInt8 → Block UInt8 32
  /-- SHA3-512. -/
  sha3_512 : List UInt8 → Block UInt8 64
  /-- SHAKE128, from which the matrix is sampled. -/
  shake128 : List UInt8 → ℕ → UInt8
  /-- SHAKE256, from which the noise is sampled. -/
  shake256 : List UInt8 → ℕ → UInt8

/-- `[u16; N]`. -/
abbrev Coeffs := ℕ → ℕ

/-- `Q`. -/
def q : ℕ := 3329

/-- A byte of a slice. -/
def byteAt (data : List UInt8) (i : ℕ) : ℕ := (data.getD i 0).toNat

/-! ### Arithmetic modulo `q` -/

/-- `barrett`. -/
def barrett (x : ℕ) : ℕ := x % q

/-- `fq_add`. -/
def fqAdd (a b : ℕ) : ℕ :=
  let s := a + b
  if q ≤ s then (s - q) % 2 ^ 16 else s % 2 ^ 16

/-- `fq_sub`. -/
def fqSub (a b : ℕ) : ℕ := if b ≤ a then a - b else (a + q - b) % 2 ^ 16

/-- `fq_mul`. -/
def fqMul (a b : ℕ) : ℕ := barrett (a * b)

/-- `bitrev7`. -/
def bitrev7 (x : ℕ) : ℕ :=
  ((x >>> 6) &&& 1) ||| (((x >>> 5) &&& 1) <<< 1) ||| (((x >>> 4) &&& 1) <<< 2) |||
    (((x >>> 3) &&& 1) <<< 3) ||| (((x >>> 2) &&& 1) <<< 4) ||| (((x >>> 1) &&& 1) <<< 5) |||
    ((x &&& 1) <<< 6)

/-- The powers of 17, as the two tables fill them in. -/
def zetaPow (i : ℕ) : ℕ := (fun curr ↦ curr * 17 % q)^[i] 1

/-- `zeta_pow_bitrev`. -/
def zetaPowBitrev (i : ℕ) : ℕ := zetaPow (bitrev7 i)

/-- `gamma_table`. -/
def gammaTable (i : ℕ) : ℕ := zetaPow (2 * bitrev7 i + 1)

/-! ### Transforms -/

/-- The loop over the blocks of a layer, in `ntt` and in `ntt_inv`: the inner loop with its step, and
the index of the next factor. -/
def blockLoop (step : ℕ → ℕ → Coeffs → ℕ → Coeffs) (next : ℕ → ℕ) (len k start : ℕ) (f : Coeffs) :
    ℕ × Coeffs :=
  if start < 256 ∧ 0 < len then
    let f := (List.range' start len).foldl (step (zetaPowBitrev k) len) f
    blockLoop step next len (next k) (start + 2 * len) f
  else (k, f)
termination_by 256 - start

/-- One step of the inner loop of `ntt`. -/
def butterfly (zeta len : ℕ) (f : Coeffs) (j : ℕ) : Coeffs :=
  let t := fqMul zeta (f (j + len))
  let f := Function.update f (j + len) (fqSub (f j) t)
  Function.update f j (fqAdd (f j) t)

/-- The loop of `ntt` over the blocks of a layer. -/
def nttBlocks (len k start : ℕ) (f : Coeffs) : ℕ × Coeffs :=
  blockLoop butterfly (fun k ↦ k + 1) len k start f

/-- The loop of `ntt` over the layers. -/
def nttLayers (len k : ℕ) (f : Coeffs) : Coeffs :=
  if 2 ≤ len then
    let (k, f) := nttBlocks len k 0 f
    nttLayers (len / 2) k f
  else f
termination_by len

/-- `ntt`. -/
def ntt (f : Coeffs) : Coeffs := nttLayers 128 1 f

/-- One step of the inner loop of `ntt_inv`. -/
def butterflyInv (zeta len : ℕ) (f : Coeffs) (j : ℕ) : Coeffs :=
  let t := f j
  let f := Function.update f j (fqAdd t (f (j + len)))
  Function.update f (j + len) (fqMul zeta (fqSub (f (j + len)) t))

/-- The loop of `ntt_inv` over the blocks of a layer. -/
def nttInvBlocks (len k start : ℕ) (f : Coeffs) : ℕ × Coeffs :=
  blockLoop butterflyInv (fun k ↦ k - 1) len k start f

/-- The loop of `ntt_inv` over the layers. -/
def nttInvLayers (len k : ℕ) (f : Coeffs) : Coeffs :=
  if len ≤ 128 ∧ 0 < len then
    let (k, f) := nttInvBlocks len k 0 f
    nttInvLayers (2 * len) k f
  else f
termination_by 129 - len

/-- `ntt_inv`. -/
def nttInv (f : Coeffs) : Coeffs :=
  let f := nttInvLayers 2 127 f
  fun i ↦ fqMul (f i) 3303

/-- `base_mul`. -/
def baseMul (a0 a1 b0 b1 gamma : ℕ) : ℕ × ℕ :=
  let c0 := fqAdd (fqMul a0 b0) (fqMul (fqMul a1 b1) gamma)
  let c1 := fqAdd (fqMul a0 b1) (fqMul a1 b0)
  (c0, c1)

/-- `multiply_ntts`. -/
def multiplyNtts (a b : Coeffs) : Coeffs :=
  (List.range 128).foldl (fun out i ↦
    let (c0, c1) := baseMul (a (2 * i)) (a (2 * i + 1)) (b (2 * i)) (b (2 * i + 1)) (gammaTable i)
    Function.update (Function.update out (2 * i) c0) (2 * i + 1) c1) fun _ ↦ 0

/-! ### Sampling -/

/-- The next bytes of a stream: `XofReader::read`. -/
def readStream (stream : ℕ → UInt8) (pos n : ℕ) : List UInt8 :=
  (List.range n).map fun i ↦ stream (pos + i)

/-- The loop of `sample_ntt`: the position of the reader, its last 96 bytes, how many of them are used
up, and the coefficients found so far. -/
def sampleLoop (stream : ℕ → UInt8) :
    ℕ → (pos : ℕ) → (buf : List UInt8) → (start n : ℕ) → Coeffs → Option Coeffs
  | 0, _, _, _, _, _ => none
  | fuel + 1, pos, buf, start, n, out =>
    if n < 256 then
      let (pos, buf, start) :=
        if start = buf.length then (pos + 96, readStream stream pos 96, 0) else (pos, buf, start)
      let b0 := byteAt buf start
      let b1 := byteAt buf (start + 1)
      let b2 := byteAt buf (start + 2)
      let start := start + 3
      let d1 := b0 + ((b1 &&& 0xf) <<< 8)
      let d2 := (b1 >>> 4) + (b2 <<< 4)
      let (out, n) := if d1 < q then (Function.update out n d1, n + 1) else (out, n)
      if d1 < q ∧ n = 256 then some out
      else
        let (out, n) := if d2 < q then (Function.update out n d2, n + 1) else (out, n)
        sampleLoop stream fuel pos buf start n out
    else some out

/-- `sample_ntt`. -/
def sampleNtt (H : Sha3) (fuel : ℕ) (rho : Block UInt8 32) (i j : ℕ) : Option Coeffs :=
  let stream := H.shake128 (rho.val ++ [UInt8.ofNat i, UInt8.ofNat j])
  sampleLoop stream fuel 96 (readStream stream 0 96) 0 0 fun _ ↦ 0

/-- `prf_eta2`. -/
def prfEta2 (H : Sha3) (s : Block UInt8 32) (b : ℕ) : List UInt8 :=
  readStream (H.shake256 (s.val ++ [UInt8.ofNat b])) 0 128

/-- `sample_cbd2`. -/
def sampleCbd2 (buf : List UInt8) : Coeffs := fun i ↦
  let bitOff := 4 * i
  let byte := byteAt buf (bitOff / 8)
  let shift := bitOff % 8
  let bits :=
    if shift ≤ 4 then (byte >>> shift) &&& 0x0f
    else ((byte >>> shift) ||| (byteAt buf (bitOff / 8 + 1) <<< (8 - shift) % 2 ^ 8)) &&& 0x0f
  let x := (bits &&& 1) + ((bits >>> 1) &&& 1)
  let y := ((bits >>> 2) &&& 1) + ((bits >>> 3) &&& 1)
  fqSub x y

/-- `sample_vec_cbd`. -/
def sampleVecCbd (H : Sha3) (coins : Block UInt8 32) (startN : ℕ) : ℕ → Coeffs := fun i ↦
  sampleCbd2 (prfEta2 H coins (startN + i))

/-! ### Compression and packing -/

/-- `compress`. -/
def compress (x d : ℕ) : ℕ :=
  let divMul := 2 ^ 34 / q
  let qHalf := (q + 1) >>> 1
  let y := (((x <<< d) + qHalf) * divMul) >>> 34
  (y % 2 ^ 16) &&& ((1 <<< d) - 1)

/-- `decompress`. -/
def decompress (y d : ℕ) : ℕ := ((y * q + (1 <<< (d - 1))) >>> d) % 2 ^ 16

/-- The packed bits of the first `n` coefficients, byte by byte. -/
def packBits (coeffs : Coeffs) (n d : ℕ) : ℕ → ℕ :=
  (List.range n).foldl (fun out i ↦
    (List.range d).foldl (fun out b ↦
      let bit := (coeffs i >>> b) &&& 1
      let pos := i * d + b
      Function.update out (pos / 8) (out (pos / 8) ||| (bit <<< (pos % 8)))) out) fun _ ↦ 0

/-- `byte_encode_d`, of the first `n` coefficients. -/
def byteEncodeD (coeffs : Coeffs) (n d : ℕ) : List UInt8 :=
  (List.range ((n * d + 7) / 8)).map fun k ↦ UInt8.ofNat (packBits coeffs n d k)

/-- `byte_decode_d`. -/
def byteDecodeD (data : List UInt8) (d : ℕ) : Coeffs := fun i ↦
  (List.range d).foldl (fun c b ↦
    let pos := i * d + b
    let bit := (byteAt data (pos / 8) >>> (pos % 8)) &&& 1
    c ||| (bit <<< b)) 0

/-- `d` bits for each coefficient, filled up to whole bytes. -/
theorem length_byteEncodeD (coeffs : Coeffs) (n d : ℕ) :
    (byteEncodeD coeffs n d).length = (n * d + 7) / 8 := by
  rw [byteEncodeD, List.length_map, List.length_range]

/-! ### Encryption -/

/-- The sum of products of an accumulator loop, coefficient by coefficient. -/
def addNtts (acc prod : Coeffs) : Coeffs := fun t ↦ fqAdd (acc t) (prod t)

/-- The row of the matrix that is multiplied with `r̂`, over the columns below `j`. -/
def rowProduct (H : Sha3) (fuel : ℕ) (rho : Block UInt8 32) (rHat : ℕ → Coeffs) (i : ℕ) :
    ℕ → Option Coeffs
  | 0 => some fun _ ↦ 0
  | j + 1 => do
    let acc ← rowProduct H fuel rho rHat i j
    let a ← sampleNtt H fuel rho i j
    return addNtts acc (multiplyNtts a (rHat j))

/-- One polynomial of `u`, packed. -/
def packU (acc e1 : Coeffs) : List UInt8 :=
  let u := addNtts (nttInv acc) e1
  byteEncodeD (fun t ↦ compress (u t) 10) 256 10

/-- `pke_encrypt_ct1`. -/
def pkeEncryptCt1 (H : Sha3) (fuel : ℕ) (rho coins _m : Block UInt8 32) :
    Option (Except PrimitiveError (Block UInt8 960)) := do
  let r := sampleVecCbd H coins 0
  let e1 := sampleVecCbd H coins 3
  let rHat := fun i ↦ ntt (r i)
  let acc0 ← rowProduct H fuel rho rHat 0 3
  let acc1 ← rowProduct H fuel rho rHat 1 3
  let acc2 ← rowProduct H fuel rho rHat 2 3
  return .ok ⟨packU acc0 (e1 0) ++ packU acc1 (e1 1) ++ packU acc2 (e1 2), by
    simp only [packU, List.length_append, length_byteEncodeD]⟩

/-- `pke_encrypt_ct2`. -/
def pkeEncryptCt2 (H : Sha3) (tBytes : List UInt8) (coins m : Block UInt8 32) :
    Except PrimitiveError (Block UInt8 128) :=
  let r := sampleVecCbd H coins 0
  let e2 := sampleCbd2 (prfEta2 H coins 6)
  let rHat := fun i ↦ ntt (r i)
  let tHat := fun i ↦ byteDecodeD ((tBytes.drop (i * 384)).take 384) 12
  let acc := (List.range 3).foldl (fun acc j ↦ addNtts acc (multiplyNtts (tHat j) (rHat j)))
    fun _ ↦ 0
  let acc := nttInv acc
  let mu := fun i ↦ decompress ((byteAt m.val (i / 8) >>> (i % 8)) &&& 1) 1
  let v := fun t ↦ compress (fqAdd (fqAdd (acc t) (e2 t)) (mu t)) 4
  .ok ⟨byteEncodeD v 256 4, length_byteEncodeD v 256 4⟩

/-- `g_hash`. -/
def gHash (H : Sha3) (m hek : Block UInt8 32) : Block UInt8 32 × Block UInt8 32 :=
  let out := H.sha3_512 (m.val ++ hek.val)
  (⟨out.val.take 32, by simp⟩, ⟨out.val.drop 32, by simp⟩)

/-- `encaps1_with_m`. -/
def encaps1WithM (H : Sha3) (fuel : ℕ) (rho hek m : Block UInt8 32) :
    Option (Except PrimitiveError (EncapsSecret UInt8 × Block UInt8 960 × Block UInt8 32)) := do
  let (k, coins) := gHash H m hek
  let ct1 ← pkeEncryptCt1 H fuel rho coins m
  return do
    let ct1 ← ct1
    return ({ m, coins, k, rho, hek }, ct1, k)

/-- `encaps2`. -/
def encaps2 (H : Sha3) (secret : EncapsSecret UInt8) (ekVector : List UInt8) :
    Except PrimitiveError (Block UInt8 128) :=
  if ekVector.length ≠ 1152 then .error .invalidLength
  else if H.sha3_256 (ekVector ++ secret.rho.val) ≠ secret.hek then .error .invalidPublicKey
  else pkeEncryptCt2 H ekVector secret.coins secret.m

/-- `join_ct`. -/
def joinCt (ct1 : Block UInt8 960) (ct2 : Block UInt8 128) : List UInt8 := ct1.val ++ ct2.val

end MlKem

end VoiceChatCrypto
