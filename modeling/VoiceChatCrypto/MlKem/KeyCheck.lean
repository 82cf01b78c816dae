import VoiceChatCrypto.Braid.Agreement
import VoiceChatCrypto.MlKem.Encaps

/-!
# The check of an encapsulation key

`MlKemPublic::from_bytes` refuses a key that encodes a coefficient of 3329 or more, as §7.2 of the
standard asks. The incremental path takes the key in two parts: `encaps1` gets the seed and a hash of
the key, and `encaps2` the vector. It compares the hash, and **nothing else**: the vector of a peer who
hashes a key that the standard refuses is used as it is.
-/

open Alphabet

namespace VoiceChatCrypto

namespace MlKem

/-- `parse_header`. -/
def parseHeader (header : List UInt8) : Except PrimitiveError (Block UInt8 32 × Block UInt8 32) :=
  if h : header.length = 64 then
    .ok (⟨header.take 32, by simp [h]⟩, ⟨header.drop 32, by simp [h]⟩)
  else .error .invalidLength

/-- `encaps1`, with the bytes of the random number generator as an argument. -/
def encaps1 (H : Sha3) (fuel : ℕ) (header : List UInt8) (m : Block UInt8 32) :
    Option (Except PrimitiveError (EncapsSecret UInt8 × Block UInt8 960 × Block UInt8 32)) :=
  match parseHeader header with
  | .ok (rho, hek) => encaps1WithM H fuel rho hek m
  | .error e => some (.error e)

variable {H : Sha3} {fuel : ℕ} {header ekVector : List UInt8} {m k : Block UInt8 32}
  {secret : EncapsSecret UInt8} {ct1 : Block UInt8 960}

theorem parseHeader_append (rho hek : Block UInt8 32) :
    parseHeader (rho.val ++ hek.val) = .ok (rho, hek) := by
  have hlen : (rho.val ++ hek.val).length = 64 := by
    rw [List.length_append, Block.length_val, Block.length_val]
  rw [parseHeader, dif_pos hlen]
  congr 2
  · exact Subtype.ext (List.take_left' (Block.length_val rho))
  · exact Subtype.ext (List.drop_left' (Block.length_val rho))

/-- What `encaps1_with_m` keeps of the header. -/
theorem secret_of_encaps1WithM {rho hek : Block UInt8 32}
    (h : encaps1WithM H fuel rho hek m = some (.ok (secret, ct1, k))) :
    secret.rho = rho ∧ secret.hek = hek := by
  unfold encaps1WithM at h
  dsimp only at h
  rcases hct1 : pkeEncryptCt1 H fuel rho (gHash H m hek).2 m with - | ct1'
  · rw [hct1] at h
    cases h
  · rw [hct1] at h
    rcases ct1' with e | ct1'
    · cases h
    · cases h
      exact ⟨rfl, rfl⟩

/-- **What `encaps1` keeps of the header**: both halves. -/
theorem secret_of_encaps1 (h : encaps1 H fuel header m = some (.ok (secret, ct1, k))) :
    secret.rho.val = header.take 32 ∧ secret.hek.val = header.drop 32 := by
  unfold encaps1 parseHeader at h
  by_cases hlen : header.length = 64
  · rw [dif_pos hlen] at h
    obtain ⟨hrho, hhek⟩ := secret_of_encaps1WithM h
    rw [hrho, hhek]
    exact ⟨rfl, rfl⟩
  · rw [dif_neg hlen] at h
    cases h

/-- **What `encaps2` accepts**: a vector of the right length whose hash, together with `ρ`, is the
one in the header. Nothing is said of its coefficients. -/
theorem encaps2_succeeds_iff : (∃ ct2, encaps2 H secret ekVector = .ok ct2) ↔
    ekVector.length = 1152 ∧ H.sha3_256 (ekVector ++ secret.rho.val) = secret.hek := by
  unfold encaps2
  constructor
  · rintro ⟨ct2, h⟩
    split at h
    · cases h
    · rename_i hlen
      split at h
      · cases h
      · rename_i hhash
        exact ⟨not_not.1 hlen, not_not.1 hhash⟩
  · rintro ⟨hlen, hhash⟩
    rw [if_neg (not_not.2 hlen), if_neg (not_not.2 hhash)]
    exact ⟨_, rfl⟩

/-- The check of the standard looks at the vector. -/
theorem valid_append (rho : List UInt8) (hlen : ekVector.length = 1152) :
    Fips203.Valid (ekVector ++ rho) ↔ Fips203.Valid ekVector := by
  have hbit : ∀ i < 768, ∀ j < 12, Fips203.bytesToBits (ekVector ++ rho) (i * 12 + j) =
      Fips203.bytesToBits ekVector (i * 12 + j) := by
    intro i hi j hj
    rw [Fips203.bytesToBits, Fips203.bytesToBits, List.getD_append _ _ _ _ (by omega)]
  have hcoeff : ∀ i < 768,
      ∑ j ∈ Finset.range 12, Fips203.bytesToBits (ekVector ++ rho) (i * 12 + j) * 2 ^ j =
        ∑ j ∈ Finset.range 12, Fips203.bytesToBits ekVector (i * 12 + j) * 2 ^ j := by
    intro i hi
    refine Finset.sum_congr rfl fun j hj ↦ ?_
    rw [hbit i hi j (Finset.mem_range.1 hj)]
  constructor
  · intro h i hi
    rw [← hcoeff i hi]
    exact h i hi
  · intro h i hi
    rw [hcoeff i hi]
    exact h i hi

/-- `MlKemPublic::from_bytes`, when the library makes the check of the standard. -/
theorem kemPublicFromBytes_succeeds_iff {P : Primitives UInt8}
    (hkem : ∀ ek, P.kemValid ek = true ↔ Fips203.Valid ek.val) {bytes : List UInt8} :
    (∃ ek, kemPublicFromBytes P bytes = .ok ek) ↔ bytes.length = 1184 ∧ Fips203.Valid bytes := by
  unfold kemPublicFromBytes
  by_cases hlen : bytes.length = 1184
  · rw [dif_pos hlen]
    by_cases hvalid : Fips203.Valid bytes
    · rw [if_pos ((hkem ⟨bytes, hlen⟩).2 hvalid)]
      exact iff_of_true ⟨_, rfl⟩ ⟨hlen, hvalid⟩
    · rw [if_neg fun h ↦ hvalid ((hkem ⟨bytes, hlen⟩).1 h)]
      exact iff_of_false (fun ⟨_, h⟩ ↦ by cases h) fun h ↦ hvalid h.2
  · rw [dif_neg hlen]
    exact iff_of_false (fun ⟨_, h⟩ ↦ by cases h) fun h ↦ hlen h.1

/-- **When the incremental path keeps to the check of the standard**: unless the peer hands over a
vector with an unreduced coefficient and the hash of just that key. -/
theorem incremental_check_iff {P : Primitives UInt8}
    (hkem : ∀ ek, P.kemValid ek = true ↔ Fips203.Valid ek.val)
    (h1 : encaps1 H fuel header m = some (.ok (secret, ct1, k))) :
    ((∃ ct2, encaps2 H secret ekVector = .ok ct2) →
        Fips203.Valid ekVector ∧ ∃ ek, kemPublicFromBytes P (ekVector ++ header.take 32) = .ok ek) ↔
      ¬ (ekVector.length = 1152 ∧ (H.sha3_256 (ekVector ++ header.take 32)).val = header.drop 32 ∧
        ¬ Fips203.Valid ekVector) := by
  obtain ⟨hrho, hhek⟩ := secret_of_encaps1 h1
  have hrhoLen : (header.take 32).length = 32 := by rw [← hrho, Block.length_val]
  have hhash : H.sha3_256 (ekVector ++ secret.rho.val) = secret.hek ↔
      (H.sha3_256 (ekVector ++ header.take 32)).val = header.drop 32 := by
    rw [← hrho, ← hhek]
    exact Subtype.ext_iff
  rw [encaps2_succeeds_iff, hhash, kemPublicFromBytes_succeeds_iff hkem, List.length_append, hrhoLen]
  constructor
  · rintro h ⟨hlen, hsame, hinvalid⟩
    exact hinvalid (h ⟨hlen, hsame⟩).1
  · rintro h ⟨hlen, hsame⟩
    have hvalid : Fips203.Valid ekVector := by
      by_contra hinvalid
      exact h ⟨hlen, hsame, hinvalid⟩
    exact ⟨hvalid, by omega, (valid_append _ hlen).2 hvalid⟩

/-! ### A key that the standard refuses -/

/-- The check of the standard, as a function. -/
def checkKey (ek : List UInt8) : Bool := (List.range 768).all fun i ↦
  decide (∑ j ∈ Finset.range 12, Fips203.bytesToBits ek (i * 12 + j) * 2 ^ j < 3329)

theorem checkKey_eq_true_iff (ek : List UInt8) : checkKey ek = true ↔ Fips203.Valid ek := by
  simp only [checkKey, List.all_eq_true, List.mem_range, decide_eq_true_eq]
  exact Iff.rfl

/-- Primitives whose key check is that of the standard. -/
def checking : Primitives UInt8 := { Plain.primitives with kemValid := fun ek ↦ checkKey ek.val }

/-- The primitives of the example check keys as the standard does. -/
theorem checking_kemValid (ek : Block UInt8 1184) :
    checking.kemValid ek = true ↔ Fips203.Valid ek.val := by
  have hcheck : checking.kemValid ek = checkKey ek.val := by rw [checking]
  rw [hcheck, checkKey_eq_true_iff]

/-- A vector that encodes 4095 in every coefficient. -/
def unreduced : List UInt8 := List.replicate 1152 255

/-- The key of the example has a coefficient that is not reduced. -/
theorem not_valid_unreduced : ¬ Fips203.Valid unreduced := by
  intro h
  have hfirst := h 0 (by decide)
  revert hfirst
  decide +kernel

/-- The header of that key, with the seed zero. -/
def unreducedHeader : List UInt8 :=
  (List.Vector.replicate 32 (0 : UInt8)).val ++
    (squares.sha3_256 (unreduced ++ List.replicate 32 0)).val

/-- The first half of the encapsulation accepts its header. -/
theorem encaps1_unreduced : ∃ fuel secret ct1 k,
    encaps1 squares fuel unreducedHeader (List.Vector.replicate 32 7) = some (.ok (secret, ct1, k)) := by
  have hsamples : ∀ i < 3, ∀ j < 3, Fips203.Samples squares
      ((List.Vector.replicate 32 0 : Block UInt8 32).val ++ [UInt8.ofNat i, UInt8.ofNat j]) :=
    fun _ hi _ hj ↦ samples_squares hi hj
  obtain ⟨n, hmatrix⟩ := exists_matrix hsamples
  obtain ⟨ct1, hct1, -⟩ := pkeEncryptCt1_spec
    (gHash squares (List.Vector.replicate 32 7)
      (squares.sha3_256 (unreduced ++ List.replicate 32 0))).2 (List.Vector.replicate 32 7)
    (hmatrix n le_rfl)
  have hparse : encaps1 squares n unreducedHeader (List.Vector.replicate 32 7) =
      encaps1WithM squares n (List.Vector.replicate 32 0)
        (squares.sha3_256 (unreduced ++ List.replicate 32 0)) (List.Vector.replicate 32 7) := by
    rw [encaps1, unreducedHeader, parseHeader_append]
  exact ⟨n, _, _, _, hparse.trans (encaps1WithM_eq hct1)⟩

/-- **The incremental path accepts it**, and the other path does not: the header was made from the
unreduced key, so its hash fits. -/
theorem incremental_accepts_unreduced : ∃ fuel secret ct1 k ct2,
    encaps1 squares fuel unreducedHeader (List.Vector.replicate 32 7) =
        some (.ok (secret, ct1, k)) ∧
      encaps2 squares secret unreduced = .ok ct2 ∧
      ¬ Fips203.Valid unreduced ∧
      ¬ ∃ ek, kemPublicFromBytes checking (unreduced ++ unreducedHeader.take 32) = .ok ek := by
  obtain ⟨fuel, secret, ct1, k, h1⟩ := encaps1_unreduced
  obtain ⟨hrho, hhek⟩ := secret_of_encaps1 h1
  have hhash : squares.sha3_256 (unreduced ++ secret.rho.val) = secret.hek := by
    rw [hrho]
    exact Subtype.ext hhek.symm
  obtain ⟨ct2, h2⟩ := encaps2_succeeds_iff.2 ⟨List.length_replicate, hhash⟩
  refine ⟨fuel, secret, ct1, k, ct2, h1, h2, not_valid_unreduced, fun hek ↦ ?_⟩
  have hvalid := ((kemPublicFromBytes_succeeds_iff checking_kemValid).1 hek).2
  exact not_valid_unreduced ((valid_append _ List.length_replicate).1 hvalid)

/-- The theorem at a header and a vector that belong together and are not reduced. -/
theorem incremental_check_unreduced : ∃ fuel secret ct1 k,
    encaps1 squares fuel unreducedHeader (List.Vector.replicate 32 7) =
        some (.ok (secret, ct1, k)) ∧
      (((∃ ct2, encaps2 squares secret (List.replicate 1152 0) = .ok ct2) →
        Fips203.Valid (List.replicate 1152 0) ∧
          ∃ ek, kemPublicFromBytes checking (List.replicate 1152 0 ++ unreducedHeader.take 32) =
            .ok ek) ↔
      ¬ ((List.replicate 1152 (0 : UInt8)).length = 1152 ∧
        (squares.sha3_256 (List.replicate 1152 0 ++ unreducedHeader.take 32)).val =
          unreducedHeader.drop 32 ∧ ¬ Fips203.Valid (List.replicate 1152 0))) := by
  obtain ⟨fuel, secret, ct1, k, h1⟩ := encaps1_unreduced
  exact ⟨fuel, secret, ct1, k, h1, incremental_check_iff checking_kemValid h1⟩

end MlKem

end VoiceChatCrypto
