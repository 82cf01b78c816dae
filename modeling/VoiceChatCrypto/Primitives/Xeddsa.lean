import Mathlib.Data.List.GetD
import Mathlib.Data.ZMod.Basic
import Mathlib.GroupTheory.OrderOfElement
import VoiceChatCrypto.Primitives.Ideal

/-!
# XEd25519 signatures

`sign_with_nonce` and `verify` of `src/primitives/xeddsa.rs`. The signer works with the Edwards point of
its secret scalar and negates the scalar if the point has the sign 1; the verifier works with the point
of sign 0 that has the public key as its Montgomery coordinate. The two are the same point, and the
range checks of the verifier pass for what the signer wrote.

The curve belongs to `curve25519-dalek`. It is a parameter: a group of points with a base point and the
conversions that the two functions call (`Dalek`), and what these are documented to do
(`Dalek.Lawful`). Scalars are integers modulo the order of the base point.
-/

open Alphabet

namespace VoiceChatCrypto

namespace Xeddsa

/-- The order of the base point. -/
def order : ℕ := 2 ^ 252 + 27742317777372353535851937790883648493

/-- `p = 2^255 - 19`. -/
def fieldOrder : ℕ := 2 ^ 255 - 19

instance neZero_order : NeZero order := ⟨by decide⟩

/-- `Scalar`. -/
abbrev Scalar := ZMod order

/-- `Scalar::from_bytes_mod_order` and `Scalar::from_bytes_mod_order_wide`. -/
def scalarOfBytes (bytes : List UInt8) : Scalar := (fromLe bytes : ℕ)

/-- `Scalar::to_bytes`. -/
def Scalar.toBytes (s : Scalar) : Block UInt8 32 := ⟨le 32 s.val, length_le 32 _⟩

/-- The points of `curve25519-dalek` and their conversions. -/
structure Dalek where
  /-- `EdwardsPoint`. -/
  Point : Type
  /-- Addition of points. -/
  group : AddCommGroup Point
  /-- The base point. -/
  base : Point
  /-- `EdwardsPoint::compress`. -/
  compress : Point → Block UInt8 32
  /-- `CompressedEdwardsY::decompress`. -/
  decompress : Block UInt8 32 → Option Point
  /-- `EdwardsPoint::to_montgomery`. -/
  toMontgomery : Point → Block UInt8 32
  /-- `MontgomeryPoint::to_edwards`. -/
  toEdwards : Block UInt8 32 → UInt8 → Option Point

/-- Byte 31 of an encoding. -/
def lastByte (bytes : Block UInt8 32) : UInt8 := bytes.val.getD 31 0

/-- The sign bit of a compressed point. -/
def signBit (bytes : Block UInt8 32) : UInt8 := (lastByte bytes >>> 7) &&& 1

/-- `bytes[31] &= 0x7F`. -/
def clearSign (bytes : Block UInt8 32) : Block UInt8 32 :=
  ⟨bytes.val.set 31 (lastByte bytes &&& 0x7F), by simp⟩

namespace Dalek

variable (D : Dalek)

instance instAddCommGroup : AddCommGroup D.Point := D.group

/-- `EdwardsPoint::mul_base`. -/
def mulBase (k : Scalar) : D.Point := k.val • D.base

/-- A scalar times a point. -/
def mul (k : Scalar) (P : D.Point) : D.Point := k.val • P

/-- What the crate documents of its points. The curve equation does not enter: signing and verifying
use these laws only. -/
structure Lawful : Prop where
  /-- The base point has prime order. -/
  addOrderOf_base : addOrderOf D.base = order
  /-- Compression can be undone. -/
  decompress_compress : ∀ P, D.decompress (D.compress P) = some P
  /-- A point and its negative have the same `y`. -/
  clearSign_neg : ∀ P, clearSign (D.compress (-P)) = clearSign (D.compress P)
  /-- The negative of a point with the sign 1 has the sign 0. -/
  signBit_neg : ∀ P, signBit (D.compress P) = 1 → signBit (D.compress (-P)) = 0
  /-- Montgomery coordinates are reduced. -/
  toMontgomery_lt : ∀ P, fromLe (D.toMontgomery P).val < fieldOrder
  /-- A point and its negative have the same Montgomery coordinate, and no other points have. -/
  toMontgomery_neg : ∀ P, D.toMontgomery (-P) = D.toMontgomery P
  /-- No other points share a Montgomery coordinate. -/
  eq_or_eq_neg : ∀ P Q, P ≠ 0 → Q ≠ 0 → D.toMontgomery P = D.toMontgomery Q → Q = P ∨ Q = -P
  /-- `to_edwards(0)` finds the point of sign 0. -/
  toEdwards_zero : ∀ P, P ≠ 0 → ∃ Q, D.toEdwards (D.toMontgomery P) 0 = some Q ∧ Q ≠ 0 ∧
    D.toMontgomery Q = D.toMontgomery P ∧ signBit (D.compress Q) = 0

end Dalek

/-! ### Signing -/

section Code

variable (D : Dalek) (sha512 : List UInt8 → Block UInt8 64)

/-- `hash_i`. -/
def hashI (i : UInt8) (data : List UInt8) : Block UInt8 64 :=
  sha512 ((0xFF - i) :: List.replicate 31 0xFF ++ data)

/-- `hash_plain`. -/
def hashPlain (data : List UInt8) : Block UInt8 64 := sha512 data

/-- `clamp_montgomery`. -/
def clampMontgomery (s : Block UInt8 32) : Block UInt8 32 :=
  let s0 := s.val.set 0 (s.val.getD 0 0 &&& 248)
  let s31 := s0.set 31 (s0.getD 31 0 &&& 127)
  ⟨s31.set 31 (s31.getD 31 0 ||| 64), by simp [s31, s0]⟩

/-- `X25519Secret::public_key`: the Montgomery coordinate of the clamped scalar times the base point. -/
def publicKey (secret : Block UInt8 32) : Block UInt8 32 :=
  D.toMontgomery (fromLe (clampMontgomery secret).val • D.base)

/-- `calculate_key_pair`. -/
def calculateKeyPair (k : Scalar) : Block UInt8 32 × Scalar :=
  let compressed := D.compress (D.mulBase k)
  let sign := signBit compressed
  let a := if sign = 1 then -k else k
  (clearSign compressed, a)

/-- `convert_mont`. -/
def convertMont (u : Block UInt8 32) : Except PrimitiveError D.Point :=
  match D.toEdwards u 0 with
  | some P => .ok P
  | none => .error .invalidPublicKey

/-- `P_LE`. -/
def pLe : List UInt8 := 0xED :: List.replicate 30 0xFF ++ [0x7F]

/-- The loop of `le_int_ge_p`, from the last byte on. -/
def geLoop : List UInt8 → List UInt8 → Bool
  | b :: bs, c :: cs => if c < b then true else if b < c then false else geLoop bs cs
  | _, _ => true

/-- `le_int_ge_p`. -/
def leIntGeP (bytes : Block UInt8 32) : Bool :=
  if lastByte bytes &&& 0x80 ≠ 0 then true else geLoop bytes.val.reverse pLe.reverse

/-- `sign_with_nonce`. -/
def signWithNonce (secret : Block UInt8 32) (message : List UInt8) (z : Block UInt8 64) :
    Block UInt8 64 :=
  let k := scalarOfBytes (clampMontgomery secret).val
  let (aComp, a) := calculateKeyPair D k
  let r := scalarOfBytes (hashI sha512 1 (a.toBytes.val ++ message ++ z.val)).val
  let rBytes := D.compress (D.mulBase r)
  let h := scalarOfBytes (hashPlain sha512 (rBytes.val ++ aComp.val ++ message)).val
  let s := r + h * a
  ⟨rBytes.val ++ s.toBytes.val, by simp⟩

/-- `verify`, from the two halves of the signature on. -/
def verifyHalves (u : Block UInt8 32) (message : List UInt8) (rBytes sBytes : Block UInt8 32) :
    Except PrimitiveError Unit :=
  if lastByte sBytes &&& 0b11100000 ≠ 0 then .error .signatureInvalid
  else do
    let aPoint ← convertMont D u
    let _rOnCurve ← (D.decompress rBytes).elim (.error .signatureInvalid) .ok
    let s := scalarOfBytes sBytes.val
    let aBytes := clearSign (D.compress aPoint)
    let h := scalarOfBytes (hashPlain sha512 (rBytes.val ++ aBytes.val ++ message)).val
    let rCheck := D.mulBase s - D.mul h aPoint
    if rBytes ≠ D.compress rCheck then .error .signatureInvalid else .ok ()

theorem length_take_signature (signature : Block UInt8 64) : (signature.val.take 32).length = 32 := by
  simp

theorem length_drop_signature (signature : Block UInt8 64) : (signature.val.drop 32).length = 32 := by
  simp

/-- `verify`. -/
def verify (pk : Block UInt8 32) (message : List UInt8) (signature : Block UInt8 64) :
    Except PrimitiveError Unit :=
  if leIntGeP pk then .error .signatureInvalid
  else
    verifyHalves D sha512 pk message ⟨signature.val.take 32, length_take_signature signature⟩
      ⟨signature.val.drop 32, length_drop_signature signature⟩

end Code

/-! ### Bytes -/

/-- The last byte of a block, apart. -/
theorem exists_append_last (b : Block UInt8 32) :
    ∃ xs, xs.length = 31 ∧ b.val = xs ++ [lastByte b] := by
  have hlen := Block.length_val b
  refine ⟨b.val.take 31, by rw [List.length_take]; omega, ?_⟩
  have hget : lastByte b = b.val[31] := List.getD_eq_getElem _ _ (by omega)
  have hdrop : b.val.drop 31 = [b.val[31]] := by
    rw [List.drop_eq_getElem_cons (by omega), List.drop_of_length_le (by omega)]
  rw [hget, ← hdrop, List.take_append_drop]

/-- The value of an encoding by its last byte. -/
theorem fromLe_last (b : Block UInt8 32) : ∃ n < 256 ^ 31,
    fromLe b.val = n + 256 ^ 31 * (lastByte b).toNat := by
  obtain ⟨xs, hlen, hb⟩ := exists_append_last b
  have hlt := fromLe_lt xs
  rw [hlen] at hlt
  refine ⟨fromLe xs, hlt, ?_⟩
  rw [hb, fromLe_append, hlen]
  rfl

theorem and_eq_zero_of_lt {b : UInt8} {m : ℕ} (h : b.toNat < 2 ^ m) :
    ∀ c : UInt8, c.toNat % 2 ^ m = 0 → b &&& c = 0 := by
  intro c hc
  rw [← UInt8.toNat_inj, UInt8.toNat_and]
  apply Nat.eq_of_testBit_eq
  intro i
  rw [Nat.testBit_and, show UInt8.toNat 0 = 0 from rfl, Nat.zero_testBit]
  by_cases hi : i < m
  · have hbit : (c.toNat % 2 ^ m).testBit i = c.toNat.testBit i := by
      rw [Nat.testBit_mod_two_pow, decide_eq_true hi, Bool.true_and]
    rw [← hbit, hc, Nat.zero_testBit, Bool.and_false]
  · rw [Nat.testBit_lt_two_pow (h.trans_le (Nat.pow_le_pow_right Nat.two_pos (by omega))),
      Bool.false_and]

theorem clearSign_val {b : Block UInt8 32} {xs : List UInt8} (hlen : xs.length = 31)
    (hb : b.val = xs ++ [lastByte b]) : (clearSign b).val = xs ++ [lastByte b &&& 0x7F] := by
  show b.val.set 31 (lastByte b &&& 0x7F) = _
  conv_lhs => rw [hb]
  rw [List.set_append_right _ _ hlen.le, hlen]
  rfl

/-- **A compressed point is its cleared encoding and its sign.** -/
theorem eq_of_clearSign {b c : Block UInt8 32} (hclear : clearSign b = clearSign c)
    (hsign : signBit b = signBit c) : b = c := by
  obtain ⟨xs, hxs, hb⟩ := exists_append_last b
  obtain ⟨ys, hys, hc⟩ := exists_append_last c
  have hval := congrArg Subtype.val hclear
  rw [clearSign_val hxs hb, clearSign_val hys hc] at hval
  obtain ⟨hinit, hlast⟩ := List.append_inj hval (by rw [hxs, hys])
  have hbyte : ∀ m < 256, ∀ n < 256, m &&& 0x7F = n &&& 0x7F → (m >>> 7) &&& 1 = (n >>> 7) &&& 1 →
      m = n := by
    intro m hm n hn hlow hhigh
    rw [show 0x7F = 2 ^ 7 - 1 by rfl, Nat.and_two_pow_sub_one_eq_mod,
      Nat.and_two_pow_sub_one_eq_mod] at hlow
    rw [Nat.and_one_is_mod, Nat.and_one_is_mod, Nat.shiftRight_eq_div_pow,
      Nat.shiftRight_eq_div_pow] at hhigh
    omega
  have hlow := congrArg UInt8.toNat (List.singleton_inj.1 hlast)
  have hhigh := congrArg UInt8.toNat hsign
  have hsame : lastByte b = lastByte c := by
    rw [← UInt8.toNat_inj]
    refine hbyte _ (UInt8.toNat_lt _) _ (UInt8.toNat_lt _) ?_ ?_
    · rwa [UInt8.toNat_and, UInt8.toNat_and] at hlow
    · rwa [signBit, signBit, UInt8.toNat_and, UInt8.toNat_and, UInt8.toNat_shiftRight,
        UInt8.toNat_shiftRight] at hhigh
  apply Subtype.ext
  rw [hb, hc, hinit, hsame]

theorem signBit_eq_zero_or_one (b : Block UInt8 32) : signBit b = 0 ∨ signBit b = 1 := by
  have hnat : (signBit b).toNat = 0 ∨ (signBit b).toNat = 1 := by
    rw [signBit, UInt8.toNat_and, show UInt8.toNat 1 = 1 from rfl, Nat.and_one_is_mod]
    omega
  rcases hnat with h | h
  · exact .inl (UInt8.toNat_inj.1 h)
  · exact .inr (UInt8.toNat_inj.1 h)

/-! ### Comparison with `p` -/

theorem fromBe_cons (b : UInt8) (bs : List UInt8) :
    fromBe (b :: bs) = fromBe bs + 256 ^ bs.length * b.toNat := by
  rw [fromBe, fromBe, List.reverse_cons, fromLe_append, List.length_reverse]
  rfl

/-- **The loop of `le_int_ge_p`** tells smaller numbers. -/
theorem geLoop_of_lt {bs cs : List UInt8} (hlen : bs.length = cs.length)
    (h : fromBe bs < fromBe cs) : geLoop bs cs = false := by
  induction bs generalizing cs with
  | nil =>
    have hnil : cs = [] := List.length_eq_zero_iff.1 hlen.symm
    subst hnil
    exact absurd h (lt_irrefl _)
  | cons b bs ih =>
    obtain ⟨c, cs, rfl⟩ := List.exists_cons_of_length_pos (by rw [← hlen, List.length_cons]; omega)
    rw [List.length_cons, List.length_cons, Nat.succ_inj] at hlen
    have hbs := fromBe_lt bs
    have hcs := fromBe_lt cs
    rw [fromBe_cons, fromBe_cons, hlen] at h
    rw [hlen] at hbs
    have hle : ¬ c < b := by
      intro hlt
      have hstep : 256 ^ cs.length * (c.toNat + 1) ≤ 256 ^ cs.length * b.toNat :=
        Nat.mul_le_mul_left _ (UInt8.lt_iff_toNat_lt.1 hlt)
      rw [Nat.mul_succ] at hstep
      omega
    rw [geLoop, if_neg hle]
    split
    · rfl
    · rename_i hge
      have hsame : b = c := by
        rw [← UInt8.toNat_inj]
        rw [UInt8.lt_iff_toNat_lt] at hle hge
        omega
      subst hsame
      exact ih hlen (by omega)

/-- The bytes of the constant are the field's order. -/
theorem fromLe_pLe : fromLe pLe = fieldOrder := by decide +kernel

/-- **A reduced coordinate passes.** -/
theorem leIntGeP_of_lt {b : Block UInt8 32} (h : fromLe b.val < fieldOrder) : leIntGeP b = false := by
  obtain ⟨n, -, hvalue⟩ := fromLe_last b
  have hlast : (lastByte b).toNat < 2 ^ 7 := by
    rw [hvalue, fieldOrder] at h
    omega
  have htop : lastByte b &&& 0x80 = 0 := and_eq_zero_of_lt hlast _ (by decide)
  rw [leIntGeP, if_neg (not_not.2 htop)]
  refine geLoop_of_lt ?_ ?_
  · rw [List.length_reverse, List.length_reverse, Block.length_val]
    rfl
  · rw [fromBe, fromBe, List.reverse_reverse, List.reverse_reverse, fromLe_pLe]
    exact h

/-! ### Scalars -/

/-- The group's order leaves the highest three bits of its bytes empty. -/
theorem order_lt : order < 2 ^ 253 := by decide +kernel

theorem scalarOfBytes_toBytes (s : Scalar) : scalarOfBytes s.toBytes.val = s := by
  have hlt : s.val < 256 ^ 32 :=
    (ZMod.val_lt s).trans (order_lt.trans (by decide +kernel))
  show ((fromLe (le 32 s.val : List UInt8) : ℕ) : Scalar) = s
  rw [fromLe_le, Nat.mod_eq_of_lt hlt, ZMod.natCast_zmod_val]

/-- **A reduced scalar passes** the check of its excess bits. -/
theorem lastByte_toBytes (s : Scalar) : lastByte s.toBytes &&& 0b11100000 = 0 := by
  obtain ⟨n, -, hvalue⟩ := fromLe_last s.toBytes
  have hlt := (ZMod.val_lt s).trans order_lt
  have hle : fromLe s.toBytes.val ≤ s.val := by
    show fromLe (le 32 s.val : List UInt8) ≤ s.val
    rw [fromLe_le]
    exact Nat.mod_le _ _
  refine and_eq_zero_of_lt (m := 5) ?_ _ (by decide)
  omega

/-- The clamped bytes of a secret. -/
theorem clampMontgomery_val (s : Block UInt8 32) : ∃ b0 mid b31, mid.length = 30 ∧
    (clampMontgomery s).val = (b0 &&& 248) :: (mid ++ [(b31 &&& 127) ||| 64]) := by
  obtain ⟨xs, hlen, hs⟩ := exists_append_last s
  obtain ⟨b0, mid, rfl⟩ := List.exists_cons_of_length_pos (show 0 < xs.length by omega)
  rw [List.length_cons, Nat.succ_inj] at hlen
  refine ⟨b0, mid, lastByte s, hlen, ?_⟩
  have hset : ∀ (c b v : UInt8), (c :: (mid ++ [b])).set 31 v = c :: (mid ++ [v]) := by
    intro c b v
    rw [List.set_cons_succ, List.set_append_right _ _ hlen.le, hlen]
    rfl
  have hget : ∀ (c b : UInt8), (c :: (mid ++ [b])).getD 31 0 = b := by
    intro c b
    rw [List.getD_cons_succ, List.getD_append_right _ _ _ _ hlen.le, hlen]
    rfl
  unfold clampMontgomery
  dsimp only
  rw [hs, List.cons_append, List.set_cons_zero, List.getD_cons_zero, hget, hset, hget, hset]

/-- **A clamped scalar** is a multiple of eight with bit 254 as its highest. -/
theorem clampMontgomery_spec (s : Block UInt8 32) : ∃ m, fromLe (clampMontgomery s).val = 8 * m ∧
    2 ^ 251 ≤ m ∧ m < 2 ^ 252 := by
  obtain ⟨b0, mid, b31, hlen, hval⟩ := clampMontgomery_val s
  have hlow : ∀ n < 256, (n &&& 248) % 8 = 0 ∧ (n &&& 248) < 256 := by decide +kernel
  have hhigh : ∀ n < 256, 64 ≤ ((n &&& 127) ||| 64) ∧ ((n &&& 127) ||| 64) < 128 := by
    decide +kernel
  obtain ⟨hdvd, hlt0⟩ := hlow b0.toNat (UInt8.toNat_lt _)
  obtain ⟨h64, h128⟩ := hhigh b31.toNat (UInt8.toNat_lt _)
  have hmid := fromLe_lt mid
  rw [hlen] at hmid
  have hvalue : fromLe (clampMontgomery s).val = (b0.toNat &&& 248) +
      256 * (fromLe mid + 256 ^ 30 * ((b31.toNat &&& 127) ||| 64)) := by
    rw [hval, fromLe, fromLe_append, hlen]
    rfl
  refine ⟨fromLe (clampMontgomery s).val / 8, ?_, ?_, ?_⟩ <;> rw [hvalue] <;> omega

/-! ### Points -/

namespace Dalek

variable {D : Dalek} (hD : D.Lawful)

include hD

/-- Multiplying the base point by a number is adding it that many times, modulo its order. -/
theorem mulBase_natCast (n : ℕ) : D.mulBase (n : Scalar) = n • D.base := by
  rw [mulBase, ZMod.val_natCast, ← hD.addOrderOf_base, mod_addOrderOf_nsmul]

/-- Multiples of the base point add up as their scalars do. -/
theorem mulBase_add (a b : Scalar) : D.mulBase (a + b) = D.mulBase a + D.mulBase b := by
  have hcast : a + b = ((a.val + b.val : ℕ) : Scalar) := by
    rw [Nat.cast_add, ZMod.natCast_zmod_val, ZMod.natCast_zmod_val]
  rw [hcast, mulBase_natCast hD, add_nsmul]
  rfl

/-- A multiple of a multiple is the multiple by the product. -/
theorem mulBase_mul (a b : Scalar) : D.mulBase (a * b) = D.mul a (D.mulBase b) := by
  have hcast : a * b = ((a.val * b.val : ℕ) : Scalar) := by
    rw [Nat.cast_mul, ZMod.natCast_zmod_val, ZMod.natCast_zmod_val]
  rw [hcast, mulBase_natCast hD, mul, mulBase, Nat.mul_comm, mul_nsmul]

/-- The negative scalar leads to the negative point. -/
theorem mulBase_neg (a : Scalar) : D.mulBase (-a) = -D.mulBase a := by
  rw [eq_neg_iff_add_eq_zero, ← mulBase_add hD, neg_add_cancel, mulBase, ZMod.val_zero, zero_nsmul]

/-- **The point of a clamped scalar is not the identity**: eight does not divide the order. -/
theorem clamped_ne_zero (secret : Block UInt8 32) :
    fromLe (clampMontgomery secret).val • D.base ≠ 0 := by
  intro h
  obtain ⟨m, hvalue, hm, hm'⟩ := clampMontgomery_spec secret
  have hdvd : order ∣ 8 * m := by
    rw [← hD.addOrderOf_base, ← hvalue]
    exact addOrderOf_dvd_of_nsmul_eq_zero h
  have hcoprime : Nat.Coprime order 8 := by decide +kernel
  have hle := Nat.le_of_dvd (by omega) (hcoprime.dvd_of_dvd_mul_left hdvd)
  unfold order at hle
  omega

/-- The point of sign 0 that the signer works with. -/
theorem calculateKeyPair_spec (k : Scalar) :
    (calculateKeyPair D k).1 = clearSign (D.compress (D.mulBase (calculateKeyPair D k).2)) ∧
      signBit (D.compress (D.mulBase (calculateKeyPair D k).2)) = 0 ∧
      (D.mulBase (calculateKeyPair D k).2 = D.mulBase k ∨
        D.mulBase (calculateKeyPair D k).2 = -D.mulBase k) := by
  unfold calculateKeyPair
  dsimp only
  rcases signBit_eq_zero_or_one (D.compress (D.mulBase k)) with hsign | hsign
  · rw [hsign, if_neg (by decide)]
    exact ⟨rfl, hsign, .inl rfl⟩
  · rw [hsign, if_pos rfl, mulBase_neg hD, hD.clearSign_neg]
    exact ⟨rfl, hD.signBit_neg _ hsign, .inr rfl⟩

/-- **Points of sign 0 with one Montgomery coordinate are equal.** -/
theorem eq_of_toMontgomery_eq {P Q : D.Point} (hP : P ≠ 0) (hQ : Q ≠ 0)
    (hu : D.toMontgomery P = D.toMontgomery Q) (hsignP : signBit (D.compress P) = 0)
    (hsignQ : signBit (D.compress Q) = 0) : Q = P := by
  rcases hD.eq_or_eq_neg P Q hP hQ hu with rfl | rfl
  · rfl
  · have hbytes : D.compress (-P) = D.compress P :=
      eq_of_clearSign (hD.clearSign_neg P) (hsignQ.trans hsignP.symm)
    have hback := hD.decompress_compress (-P)
    rw [hbytes, hD.decompress_compress] at hback
    exact (Option.some.inj hback).symm

/-- **Signer and verifier work with the same point**: from the public key alone the verifier finds
the point of sign 0 that the signer's scalar belongs to. -/
theorem convertMont_publicKey (secret : Block UInt8 32) :
    convertMont D (publicKey D secret) =
      .ok (D.mulBase (calculateKeyPair D (scalarOfBytes (clampMontgomery secret).val)).2) := by
  have hE : D.mulBase (scalarOfBytes (clampMontgomery secret).val) =
      fromLe (clampMontgomery secret).val • D.base := mulBase_natCast hD _
  have hne : D.mulBase (scalarOfBytes (clampMontgomery secret).val) ≠ 0 := by
    rw [hE]
    exact clamped_ne_zero hD secret
  obtain ⟨Q, hQ, hQne, hQu, hQsign⟩ := hD.toEdwards_zero _ hne
  obtain ⟨-, hsign, hcases⟩ :=
    calculateKeyPair_spec hD (scalarOfBytes (clampMontgomery secret).val)
  have hsame : Q = D.mulBase (calculateKeyPair D (scalarOfBytes (clampMontgomery secret).val)).2 := by
    refine eq_of_toMontgomery_eq hD ?_ hQne ?_ hsign hQsign
    · rcases hcases with h | h <;> rw [h]
      · exact hne
      · exact neg_ne_zero.2 hne
    · rw [hQu]
      rcases hcases with h | h <;> rw [h]
      exact hD.toMontgomery_neg _
  rw [convertMont, publicKey, ← hE, hQ, hsame]

end Dalek

/-! ### Verifying -/

/-- What `verify` asks of a signature. -/
theorem verify_eq_ok {D : Dalek} (hD : D.Lawful) {sha512 : List UInt8 → Block UInt8 64}
    {pk : Block UInt8 32} {message : List UInt8} {signature : Block UInt8 64} {A R : D.Point}
    {s : Scalar}
    (hsig : signature.val = (D.compress R).val ++ s.toBytes.val) (hpk : leIntGeP pk = false)
    (hA : convertMont D pk = .ok A)
    (hcheck : D.mulBase s - D.mul (scalarOfBytes (hashPlain sha512
      ((D.compress R).val ++ (clearSign (D.compress A)).val ++ message)).val) A = R) :
    verify D sha512 pk message signature = .ok () := by
  have hr : (⟨signature.val.take 32, by simp⟩ : Block UInt8 32) = D.compress R :=
    Subtype.ext (by
      show signature.val.take 32 = _
      rw [hsig, List.take_left' (Block.length_val _)])
  have hs : (⟨signature.val.drop 32, by simp⟩ : Block UInt8 32) = s.toBytes :=
    Subtype.ext (by
      show signature.val.drop 32 = _
      rw [hsig, List.drop_left' (Block.length_val _)])
  rw [verify, hpk, if_neg (by decide), hr, hs, verifyHalves,
    if_neg (not_not.2 (lastByte_toBytes s)), hA, hD.decompress_compress, scalarOfBytes_toBytes]
  show (if D.compress R ≠ D.compress (D.mulBase s - D.mul _ A) then _ else _) = _
  rw [hcheck, if_neg (not_not.2 rfl)]

/-- **Signatures verify**, for every secret, message and nonce. -/
theorem verify_signWithNonce {D : Dalek} (hD : D.Lawful) (sha512 : List UInt8 → Block UInt8 64)
    (secret : Block UInt8 32) (message : List UInt8) (z : Block UInt8 64) :
    verify D sha512 (publicKey D secret) message (signWithNonce D sha512 secret message z) =
      .ok () := by
  have hpk : leIntGeP (publicKey D secret) = false := leIntGeP_of_lt (hD.toMontgomery_lt _)
  have hA := Dalek.convertMont_publicKey hD secret
  obtain ⟨haComp, -, -⟩ :=
    Dalek.calculateKeyPair_spec hD (scalarOfBytes (clampMontgomery secret).val)
  refine verify_eq_ok hD rfl hpk hA ?_
  -- the challenge is the same, and cancels
  rw [← haComp, Dalek.mulBase_add hD, Dalek.mulBase_mul hD]
  exact add_sub_cancel_right _ _

/-- **The signatures of the engine are correct**, when they are those of this module. -/
theorem signatureCorrect_of_lawful {D : Dalek} (hD : D.Lawful) (sha512 : List UInt8 → Block UInt8 64)
    (P : Primitives UInt8) : SignatureCorrect
      { P with
        publicKey := publicKey D
        xeddsaSign := signWithNonce D sha512
        xeddsaVerify := fun pk message signature ↦
          decide (verify D sha512 pk message signature = .ok ()) } :=
  fun secret message nonce ↦ decide_eq_true (verify_signWithNonce hD sha512 secret message nonce)

/-! ### A lawful instance -/

namespace Cyclic

/-- The smaller of the representatives of a residue and of its negative. -/
def absVal (P : Scalar) : ℕ := min P.val (-P).val

/-- The coordinate in 255 bits, and the sign of the residue. -/
def compress (P : Scalar) : Block UInt8 32 :=
  ⟨le 31 (absVal P) ++
    [UInt8.ofNat (absVal P / 256 ^ 31) ||| (if P.val ≤ (-P).val then 0 else 0x80)], by simp⟩

/-- The residue with a coordinate and a sign. -/
def decompress (bytes : Block UInt8 32) : Scalar :=
  let P : Scalar := (fromLe (clearSign bytes).val : ℕ)
  if signBit bytes = 1 then -P else P

/-- The coordinate alone. -/
def toMontgomery (P : Scalar) : Block UInt8 32 := ⟨le 32 (absVal P), length_le 32 _⟩

/-- The integers modulo the order of the base point, with a coordinate that a residue shares with its
negative. -/
def dalek : Dalek where
  Point := Scalar
  group := inferInstance
  base := 1
  compress := compress
  decompress bytes := some (decompress bytes)
  toMontgomery := toMontgomery
  toEdwards u _ := some (fromLe u.val : ℕ)

/-- A scalar and its negative have the same absolute value. -/
theorem absVal_neg (P : Scalar) : absVal (-P) = absVal P := by
  rw [absVal, absVal, neg_neg, min_comm]

theorem absVal_lt (P : Scalar) : absVal P < order := (min_le_left _ _).trans_lt (ZMod.val_lt P)

/-- The absolute value is the smaller one of a scalar and its negative. -/
theorem absVal_cast (P : Scalar) : ((absVal P : ℕ) : Scalar) = if P.val ≤ (-P).val then P else -P := by
  unfold absVal
  split
  · rename_i hle
    rw [min_eq_left hle, ZMod.natCast_zmod_val]
  · rename_i hle
    rw [min_eq_right (le_of_not_ge hle), ZMod.natCast_zmod_val]

theorem absVal_cast_eq (P : Scalar) :
    ((absVal P : ℕ) : Scalar) = P ∨ ((absVal P : ℕ) : Scalar) = -P := by
  rw [absVal_cast]
  split
  · exact .inl rfl
  · exact .inr rfl

/-- The absolute value leaves room for the sign in its last byte. -/
theorem top_lt (P : Scalar) : absVal P / 256 ^ 31 < 32 := by
  have hlt := (absVal_lt P).trans order_lt
  rw [Nat.div_lt_iff_lt_mul (Nat.pow_pos (by decide))]
  exact hlt.trans_le (by decide +kernel)

/-- The last byte of a compressed residue. -/
theorem lastByte_compress (P : Scalar) : lastByte (compress P) =
    UInt8.ofNat (absVal P / 256 ^ 31) ||| (if P.val ≤ (-P).val then 0 else 0x80) := by
  show (le 31 (absVal P) ++ [_] : List UInt8).getD 31 0 = _
  rw [List.getD_append_right _ _ _ _ (length_le 31 _).le, length_le]
  rfl

/-- The sign of a compressed scalar tells which of the two it is. -/
theorem signBit_compress (P : Scalar) :
    signBit (compress P) = if P.val ≤ (-P).val then 0 else 1 := by
  have hbits : ∀ t < 32, (UInt8.ofNat t ||| 0) >>> 7 &&& 1 = 0 ∧
      (UInt8.ofNat t ||| 0x80) >>> 7 &&& 1 = 1 := by
    decide
  obtain ⟨hzero, hone⟩ := hbits _ (top_lt P)
  rw [signBit, lastByte_compress]
  split
  · exact hzero
  · exact hone

/-- The last letter of a number written lowest first is the highest. -/
theorem le_succ_append (w n : ℕ) :
    (le (w + 1) n : List UInt8) = le w n ++ [UInt8.ofNat (n / 256 ^ w)] := by
  induction w generalizing n with
  | zero => simp [le]; rfl
  | succ w ih =>
    rw [le, ih, le, List.cons_append, Nat.div_div_eq_div_mul, pow_succ']

/-- Without the sign, a compressed scalar is its absolute value. -/
theorem clearSign_compress (P : Scalar) : (clearSign (compress P)).val = le 32 (absVal P) := by
  have hbits : ∀ t < 32, (UInt8.ofNat t ||| 0) &&& 0x7F = UInt8.ofNat t ∧
      (UInt8.ofNat t ||| 0x80) &&& 0x7F = UInt8.ofNat t := by
    decide
  obtain ⟨hzero, hone⟩ := hbits _ (top_lt P)
  have hclear := clearSign_val (b := compress P) (length_le 31 (absVal P))
    (by rw [lastByte_compress]; rfl)
  rw [hclear, lastByte_compress, le_succ_append 31]
  split
  · rw [hzero]
  · rw [hone]

theorem fromLe_absVal (P : Scalar) : fromLe (le 32 (absVal P) : List UInt8) = absVal P := by
  rw [fromLe_le]
  exact Nat.mod_eq_of_lt ((absVal_lt P).trans (order_lt.trans (by decide +kernel)))

theorem decompress_compress (P : Scalar) : decompress (compress P) = P := by
  rw [decompress, clearSign_compress, fromLe_absVal, signBit_compress, absVal_cast]
  by_cases hle : P.val ≤ (-P).val
  · rw [if_pos hle, if_pos hle, if_neg (by decide)]
  · rw [if_neg hle, if_neg hle, if_pos rfl, neg_neg]

/-- A scalar and its negative differ in the sign only. -/
theorem clearSign_neg (P : Scalar) : clearSign (compress (-P)) = clearSign (compress P) := by
  apply Subtype.ext
  rw [clearSign_compress, clearSign_compress, absVal_neg]

/-- The negative of a scalar with the sign 1 has the sign 0. -/
theorem signBit_neg (P : Scalar) (h : signBit (compress P) = 1) : signBit (compress (-P)) = 0 := by
  rw [signBit_compress] at h
  have hgt : ¬ P.val ≤ (-P).val := by
    intro hle
    rw [if_pos hle] at h
    exact absurd h (by decide)
  rw [signBit_compress, neg_neg, if_pos (le_of_not_ge hgt)]

/-- A scalar and its negative have the same coordinate. -/
theorem toMontgomery_neg (P : Scalar) : toMontgomery (-P) = toMontgomery P := by
  apply Subtype.ext
  show (le 32 (absVal (-P)) : List UInt8) = le 32 (absVal P)
  rw [absVal_neg]

/-- Coordinates are reduced, for the group's order is below the field's. -/
theorem toMontgomery_lt (P : Scalar) : fromLe (toMontgomery P).val < fieldOrder := by
  show fromLe (le 32 (absVal P) : List UInt8) < fieldOrder
  rw [fromLe_absVal]
  exact (absVal_lt P).trans (by decide +kernel)

/-- A scalar with the coordinate of another is that one or its negative. -/
theorem eq_or_eq_neg {P Q : Scalar} (h : toMontgomery P = toMontgomery Q) : Q = P ∨ Q = -P := by
  have hval := congrArg (fun b : Block UInt8 32 ↦ fromLe b.val) h
  have habs : absVal P = absVal Q := by
    rw [← fromLe_absVal P, ← fromLe_absVal Q]
    exact hval
  have hP := absVal_cast_eq P
  rw [habs] at hP
  rcases absVal_cast_eq Q with hQ | hQ <;> rcases hP with hP | hP <;> rw [hQ] at hP
  · exact .inl hP
  · exact .inr hP
  · exact .inr (neg_eq_iff_eq_neg.1 hP)
  · exact .inl (neg_injective hP)

/-- The coordinate, as a residue, has the sign 0. -/
theorem absVal_cast_spec (P : Scalar) : toMontgomery ((absVal P : ℕ) : Scalar) = toMontgomery P ∧
    signBit (compress ((absVal P : ℕ) : Scalar)) = 0 := by
  have hval : ((absVal P : ℕ) : Scalar).val = absVal P := ZMod.val_natCast_of_lt (absVal_lt P)
  have habs : absVal ((absVal P : ℕ) : Scalar) = absVal P := by
    rcases absVal_cast_eq P with h | h <;> rw [h]
    exact absVal_neg P
  have hle : ((absVal P : ℕ) : Scalar).val ≤ (-((absVal P : ℕ) : Scalar)).val := by
    rw [hval]
    conv_lhs => rw [← habs]
    exact min_le_right _ _
  constructor
  · apply Subtype.ext
    show (le 32 (absVal ((absVal P : ℕ) : Scalar)) : List UInt8) = le 32 (absVal P)
    rw [habs]
  · rw [signBit_compress, if_pos hle]

theorem absVal_cast_ne_zero {P : Scalar} (hP : P ≠ 0) : ((absVal P : ℕ) : Scalar) ≠ 0 := by
  rcases absVal_cast_eq P with h | h <;> rw [h]
  · exact hP
  · exact neg_ne_zero.2 hP

/-- **The laws hold** of the residues. -/
theorem lawful : dalek.Lawful where
  addOrderOf_base := ZMod.addOrderOf_one order
  decompress_compress P := congrArg some (decompress_compress P)
  clearSign_neg := clearSign_neg
  signBit_neg := signBit_neg
  toMontgomery_lt := toMontgomery_lt
  toMontgomery_neg := toMontgomery_neg
  eq_or_eq_neg _ _ _ _ h := eq_or_eq_neg h
  toEdwards_zero P hP := ⟨((absVal P : ℕ) : Scalar), congrArg (fun n : ℕ ↦ some (n : Scalar))
    (fromLe_absVal P), absVal_cast_ne_zero hP, absVal_cast_spec P⟩

/-- A signature of the secret `7 … 7` on three bytes. -/
theorem verify_signWithNonce_sevens :
    verify dalek (fun data ↦ List.Vector.replicate 64 (UInt8.ofNat data.length))
      (publicKey dalek (List.Vector.replicate 32 7)) [1, 2, 3]
      (signWithNonce dalek (fun data ↦ List.Vector.replicate 64 (UInt8.ofNat data.length))
        (List.Vector.replicate 32 7) [1, 2, 3] (List.Vector.replicate 64 9)) = .ok () :=
  verify_signWithNonce lawful _ _ _ _

end Cyclic

end Xeddsa

end VoiceChatCrypto
