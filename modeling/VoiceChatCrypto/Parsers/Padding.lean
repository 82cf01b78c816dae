import VoiceChatCrypto.Parsers.Checked

/-!
# Padding

`pad_to_bucket` of `src/padding/mod.rs`, against `unpad`. A plaintext is written behind its length into
a buffer of the size of a bucket, which is filled up with random bytes; `unpad` reads it back, whatever
the fill.

The bucket is the **first** of the list that is large enough, where the documentation asks for the
smallest. The two agree on a list in ascending order, such as the default one; the list is the
caller's.
-/

open Alphabet Checked

namespace VoiceChatCrypto

/-- `vec![0u8; n]`: a vector of more than `isize::MAX` bytes does not exist. -/
def zeroedVec (w : PointerWidth) (n : ℕ) : Checked PrimitiveError (List UInt8) :=
  if n < 2 ^ (w.bits - 1) then ok (List.replicate n 0) else panic

/-- `out[i..i + src.len()].copy_from_slice(src)`. -/
def copyInto (out : List UInt8) (i : ℕ) (src : List UInt8) : Checked PrimitiveError (List UInt8) :=
  if i + src.length ≤ out.length then ok (out.take i ++ src ++ out.drop (i + src.length)) else panic

/-- `pad_to_bucket`, with the bytes of the random number generator as an argument. -/
def padToBucket (w : PointerWidth) (plaintext : List UInt8) (buckets : List ℕ) (fill : ℕ → UInt8) :
    Checked PrimitiveError (List UInt8) := do
  ensure (plaintext.length + 4 < 2 ^ w.bits) .invalidLength
  let needed := plaintext.length + 4
  let bucket ← ofExcept ((buckets.find? fun b ↦ needed ≤ b).elim (.error .invalidLength) .ok)
  let out ← zeroedVec w bucket
  let len := plaintext.length % 2 ^ 32
  let out ← copyInto out 0 (le 4 len)
  let out ← copyInto out 4 plaintext
  let tail ← add w.bits 4 plaintext.length
  if tail < bucket then copyInto out tail ((List.range (bucket - tail)).map fill) else return out

variable {w : PointerWidth} {buckets : List ℕ} {fill : ℕ → UInt8} {bucket : ℕ}

/-- The bucket that `pad_to_bucket` takes. -/
def firstBucket (buckets : List ℕ) (plaintext : List UInt8) : Option ℕ :=
  buckets.find? fun b ↦ plaintext.length + 4 ≤ b

/-- The bucket that is found is one of the list with room for the plaintext and its length. -/
theorem firstBucket_mem {p : List UInt8} (h : firstBucket buckets p = some bucket) :
    bucket ∈ buckets ∧ p.length + 4 ≤ bucket :=
  ⟨List.mem_of_find?_eq_some h, by simpa using List.find?_some h⟩

theorem firstBucket_eq_none {p : List UInt8} :
    firstBucket buckets p = none ↔ ∀ b ∈ buckets, b < p.length + 4 := by
  simp [firstBucket, List.find?_eq_none]

/-- A slice and four more bytes can be addressed. -/
theorem Slice.length_add_four (p : Slice w) : p.bytes.length + 4 < 2 ^ w.bits := by
  have hroom := p.roomy
  unfold Roomy at hroom
  omega

/-- The padded plaintext. -/
def paddedText (p : List UInt8) (bucket : ℕ) (fill : ℕ → UInt8) : List UInt8 :=
  le 4 (p.length % 2 ^ 32) ++ p ++ (List.range (bucket - (4 + p.length))).map fill

theorem length_paddedText {p : List UInt8} (h : p.length + 4 ≤ bucket) :
    (paddedText p bucket fill).length = bucket := by
  simp only [paddedText, List.length_append, length_le, List.length_map, List.length_range]
  omega

/-- **Writing into the buffer** leaves the length, the plaintext and the fill. -/
theorem copyInto_paddedText {p : List UInt8} (h : p.length + 4 ≤ bucket)
    (hw : p.length + 4 < 2 ^ w.bits) :
    (do
      let out ← copyInto (List.replicate bucket 0) 0 (le 4 (p.length % 2 ^ 32))
      let out ← copyInto out 4 p
      let tail ← add w.bits 4 p.length
      if tail < bucket then copyInto out tail ((List.range (bucket - tail)).map fill) else return out) =
      ok (paddedText p bucket fill) := by
  have hfirst : copyInto (List.replicate bucket 0) 0 (le 4 (p.length % 2 ^ 32)) =
      ok (le 4 (p.length % 2 ^ 32) ++ List.replicate (bucket - 4) 0) := by
    rw [copyInto, if_pos (by rw [length_le, List.length_replicate]; omega), List.take_zero,
      List.nil_append, length_le, List.drop_replicate]
  have hsecond : copyInto (le 4 (p.length % 2 ^ 32) ++ List.replicate (bucket - 4) 0) 4 p =
      ok (le 4 (p.length % 2 ^ 32) ++ p ++ List.replicate (bucket - (4 + p.length)) 0) := by
    rw [copyInto, if_pos (by rw [List.length_append, length_le, List.length_replicate]; omega),
      List.take_left' (length_le 4 _), ← List.drop_drop, List.drop_left' (length_le 4 _),
      List.drop_replicate, Nat.sub_sub]
  have hhead : (le 4 (p.length % 2 ^ 32) ++ p).length = 4 + p.length := by
    rw [List.length_append, length_le]
  rw [hfirst, ok_bind, hsecond, ok_bind, add_of_lt (by omega), ok_bind]
  split
  · rename_i htail
    rw [copyInto, if_pos (by rw [List.length_append, hhead, List.length_replicate, List.length_map,
      List.length_range]), List.take_left' hhead, List.drop_of_length_le, List.append_nil]
    · rfl
    · rw [List.length_append, hhead, List.length_replicate, List.length_map, List.length_range]
  · rename_i htail
    rw [paddedText, show bucket - (4 + p.length) = 0 by omega]
    rfl

/-- **What `pad_to_bucket` returns**, by the first bucket that fits. -/
theorem padToBucket_eq (p : Slice w) (buckets : List ℕ) (fill : ℕ → UInt8) :
    padToBucket w p.bytes buckets fill = (firstBucket buckets p.bytes).elim (err .invalidLength)
      fun bucket ↦ if bucket < 2 ^ (w.bits - 1) then ok (paddedText p.bytes bucket fill) else panic := by
  unfold padToBucket
  rw [ensure_of_pos p.length_add_four, ok_bind]
  show (ofExcept ((firstBucket buckets p.bytes).elim _ _) >>= _) = _
  cases hfirst : firstBucket buckets p.bytes with
  | none => rfl
  | some bucket =>
    show (zeroedVec w bucket >>= _) = _
    rw [zeroedVec]
    dsimp only [Option.elim_some]
    split
    · rw [ok_bind]
      exact copyInto_paddedText (firstBucket_mem hfirst).2 p.length_add_four
    · rfl

/-- **`unpad` undoes the padding**, whatever the fill. -/
theorem unpad_paddedText (p : Slice w) (hp : p.bytes.length < 2 ^ 32)
    (h : p.bytes.length + 4 ≤ bucket) : unpad w.bits (paddedText p.bytes bucket fill) = ok p.bytes := by
  have hw := p.length_add_four
  have hlen : (paddedText p.bytes bucket fill).length = bucket := length_paddedText h
  have hword : wordAt (paddedText p.bytes bucket fill) 0 4 = p.bytes.length := by
    rw [wordAt, paddedText, List.drop_zero, List.append_assoc, List.take_left' (length_le 4 _),
      fromLe_le]
    omega
  rw [unpad, ensure_of_pos (by omega), ok_bind, word_of_le (by omega) (by omega), ok_bind, hword,
    add_of_lt (by omega), ok_bind, ensure_of_pos (by omega), ok_bind, slice_of_le (by omega) (by omega),
    paddedText, List.append_assoc, List.drop_left' (length_le 4 _), Nat.add_sub_cancel_left,
    List.take_left]

/-! ### The bucket -/

/-- `b` is the smallest bucket for a plaintext. -/
def IsSmallest (buckets : List ℕ) (p : List UInt8) (b : ℕ) : Prop :=
  b ∈ buckets ∧ p.length + 4 ≤ b ∧ ∀ b' ∈ buckets, p.length + 4 ≤ b' → b ≤ b'

/-- What padding a plaintext is for: whoever sees the output learns the smallest bucket that fits,
and nothing more. -/
structure PadsWell (p : Slice w) (buckets : List ℕ) : Prop where
  /-- The output fills the smallest bucket, and the plaintext can be read back. -/
  output : ∀ fill out, padToBucket w p.bytes buckets fill = ok out →
    IsSmallest buckets p.bytes out.length ∧ unpad w.bits out = ok p.bytes
  /-- It succeeds whenever there is room. -/
  succeeds_iff : ∀ fill, (∃ out, padToBucket w p.bytes buckets fill = ok out) ↔
    ∃ b ∈ buckets, p.bytes.length + 4 ≤ b

/-- The first bucket that fits is the smallest, and not larger than memory. -/
def FirstIsSmallest (p : Slice w) (buckets : List ℕ) : Prop :=
  ∀ bucket, firstBucket buckets p.bytes = some bucket →
    IsSmallest buckets p.bytes bucket ∧ bucket < 2 ^ (w.bits - 1)

/-- **Padding works as described exactly when the first bucket with room is the smallest one.** -/
theorem padsWell_iff (p : Slice w) (hp : p.bytes.length < 2 ^ 32) (buckets : List ℕ) :
    PadsWell p buckets ↔ FirstIsSmallest p buckets := by
  constructor
  · intro h bucket hfirst
    have hfits := firstBucket_mem hfirst
    obtain ⟨out, hout⟩ := (h.succeeds_iff fun _ ↦ 0).2 ⟨bucket, hfits⟩
    have hsmallest := (h.output _ _ hout).1
    rw [padToBucket_eq, hfirst] at hout
    dsimp only [Option.elim_some] at hout
    split at hout
    · rename_i hmemory
      cases hout
      rw [length_paddedText hfits.2] at hsmallest
      exact ⟨hsmallest, hmemory⟩
    · cases hout
  · intro h
    refine ⟨fun fill out hout ↦ ?_, fun fill ↦ ⟨?_, ?_⟩⟩
    · rw [padToBucket_eq] at hout
      cases hfirst : firstBucket buckets p.bytes with
      | none =>
        rw [hfirst] at hout
        cases hout
      | some bucket =>
        obtain ⟨hsmallest, hmemory⟩ := h bucket hfirst
        rw [hfirst, Option.elim_some, if_pos hmemory] at hout
        cases hout
        rw [length_paddedText hsmallest.2.1]
        exact ⟨hsmallest, unpad_paddedText p hp hsmallest.2.1⟩
    · rintro ⟨out, hout⟩
      rw [padToBucket_eq] at hout
      cases hfirst : firstBucket buckets p.bytes with
      | none =>
        rw [hfirst] at hout
        cases hout
      | some bucket => exact ⟨bucket, firstBucket_mem hfirst⟩
    · rintro ⟨b, hb, hfits⟩
      cases hfirst : firstBucket buckets p.bytes with
      | none => exact absurd (firstBucket_eq_none.1 hfirst b hb) (by omega)
      | some bucket =>
        refine ⟨paddedText p.bytes bucket fill, ?_⟩
        rw [padToBucket_eq, hfirst, Option.elim_some, if_pos (h bucket hfirst).2]

/-- Plaintexts with one smallest bucket are padded to one length. -/
theorem PadsWell.length_eq {p q : Slice w} (hp : PadsWell p buckets) (hq : PadsWell q buckets) {b : ℕ}
    (hpb : IsSmallest buckets p.bytes b) (hqb : IsSmallest buckets q.bytes b) {fill fill' : ℕ → UInt8}
    {out out' : List UInt8} (hout : padToBucket w p.bytes buckets fill = ok out)
    (hout' : padToBucket w q.bytes buckets fill' = ok out') : out.length = out'.length := by
  obtain ⟨hmem, hfits, hle⟩ := (hp.output _ _ hout).1
  obtain ⟨hmem', hfits', hle'⟩ := (hq.output _ _ hout').1
  have hlength : out.length = b := le_antisymm (hle b hpb.1 hpb.2.1) (hpb.2.2 _ hmem hfits)
  have hlength' : out'.length = b := le_antisymm (hle' b hqb.1 hqb.2.1) (hqb.2.2 _ hmem' hfits')
  rw [hlength, hlength']

/-- **When padding hides the length and is reversible**: exactly if the first bucket that fits is the
smallest one (and not larger than memory). Plaintexts that are padded so and have one smallest bucket are
then padded to one length. -/
theorem padding_hides_length_iff (p : Slice w) (hp : p.bytes.length < 2 ^ 32) (buckets : List ℕ) :
    (PadsWell p buckets ↔ FirstIsSmallest p buckets) ∧
      ∀ (q : Slice w) (b : ℕ) (fill fill' : ℕ → UInt8) (out out' : List UInt8),
        PadsWell p buckets → PadsWell q buckets →
        IsSmallest buckets p.bytes b → IsSmallest buckets q.bytes b →
        padToBucket w p.bytes buckets fill = ok out → padToBucket w q.bytes buckets fill' = ok out' →
        out.length = out'.length :=
  ⟨padsWell_iff p hp buckets,
    fun _ _ _ _ _ _ hp hq hpb hqb hout hout' ↦ hp.length_eq hq hpb hqb hout hout'⟩

/-- A plaintext of three bytes. -/
def threeBytes : Slice .w64 := ⟨[1, 2, 3], by decide⟩

/-- Three bytes and ascending buckets: the condition holds. -/
theorem padding_hides_length_threeBytes : PadsWell threeBytes [64, 128] := by
  refine (padding_hides_length_iff threeBytes (by decide) [64, 128]).1.2 fun bucket hfirst ↦ ?_
  have hbucket : firstBucket [64, 128] threeBytes.bytes = some 64 := by decide
  rw [hbucket] at hfirst
  cases hfirst
  exact ⟨by unfold IsSmallest; decide, by decide⟩

/-- **Buckets in descending order**: three bytes are padded to 128, where 64 would do. -/
theorem descending_buckets_not_smallest : ∃ out,
    padToBucket .w64 threeBytes.bytes [128, 64] (fun _ ↦ 0) = ok out ∧ out.length = 128 ∧
      ¬ IsSmallest [128, 64] threeBytes.bytes out.length := by
  have hbucket : firstBucket [128, 64] threeBytes.bytes = some 128 := by decide
  refine ⟨paddedText threeBytes.bytes 128 fun _ ↦ 0, ?_, length_paddedText (by decide), ?_⟩
  · rw [padToBucket_eq, hbucket, Option.elim_some, if_pos (by decide)]
  · rw [length_paddedText (by decide)]
    intro h
    exact absurd (h.2.2 64 (by decide) (by decide)) (by decide)

end VoiceChatCrypto
