import Mathlib.Data.Sym.Sym2
import VoiceChatCrypto.Engine.Trust

/-!
# Safety numbers

`compute_fingerprint` of `src/fingerprint/mod.rs`: two identities are brought into an order, written one
behind the other, hashed 5200 times and shown as 60 digits. Two questions are settled here.

* **Which pairs the hashed bytes tell apart.** A device identifier is written behind its length, but the
  length is cut to 16 bits. The bytes identify the pair unless the lengths of the identifiers leave room
  for one identifier to swallow the other identity, which takes 65536 bytes.
* **Which digits depend on the hash.** The 32 bytes that are kept make seven groups of digits, not
  twelve: the digits from position 35 on are zero.

The hash function is a parameter.
-/

open Alphabet

namespace VoiceChatCrypto

/-! ### Digits -/

/-- `chunks(k)`. -/
def chunks {α : Type} (k : ℕ) (xs : List α) : List (List α) :=
  (List.range ((xs.length + k - 1) / k)).map fun i ↦ (xs.drop (k * i)).take k

/-- The five digits, with leading zeros, of a number below `100_000`: `format!` with `:05`. -/
def fiveDigits (n : ℕ) : List Char := (List.range 5).map fun i ↦ Nat.digitChar (n / 10 ^ (4 - i) % 10)

/-- The digits of one chunk. -/
def chunkDigits (chunk : List UInt8) : List Char :=
  let buf := chunk ++ List.replicate (8 - chunk.length) 0
  fiveDigits (fromLe buf % 100000)

/-- `binary_to_numeric`. -/
def binaryToNumeric (binary : Block UInt8 32) : List Char :=
  let digits := ((chunks 5 binary.val).take 12).flatMap chunkDigits
  let digits := digits.take 60
  digits ++ List.replicate (60 - digits.length) '0'

/-- The groups of `numeric_display`. -/
def displayGroups (numeric : List Char) : List (List Char) := chunks 5 numeric

/-- `numeric_display`. -/
def numericDisplay (numeric : List Char) : List Char := [' '].intercalate (displayGroups numeric)

theorem length_chunkDigits (chunk : List UInt8) : (chunkDigits chunk).length = 5 := by
  simp [chunkDigits, fiveDigits]

/-- 32 bytes are seven chunks of five, the last one short. -/
theorem length_chunks (binary : Block UInt8 32) : (chunks 5 binary.val).length = 7 := by
  simp [chunks]

/-- The digits of the seven chunks. -/
def chunksDigits (binary : Block UInt8 32) : List Char := (chunks 5 binary.val).flatMap chunkDigits

theorem length_chunksDigits (binary : Block UInt8 32) : (chunksDigits binary).length = 35 := by
  have hsum : ∀ cs : List (List UInt8), (cs.flatMap chunkDigits).length = 5 * cs.length := by
    intro cs
    induction cs with
    | nil => rfl
    | cons c cs ih =>
      rw [List.flatMap_cons, List.length_append, ih, length_chunkDigits, List.length_cons]
      ring
  rw [chunksDigits, hsum, length_chunks]

/-- **The safety number is seven groups of digits and 25 zeros.** -/
theorem binaryToNumeric_eq (binary : Block UInt8 32) :
    binaryToNumeric binary = chunksDigits binary ++ List.replicate 25 '0' := by
  have hlen := length_chunksDigits binary
  have htake : (chunks 5 binary.val).take 12 = chunks 5 binary.val :=
    List.take_of_length_le (by rw [length_chunks]; decide)
  have hdigits : (chunksDigits binary).take 60 = chunksDigits binary :=
    List.take_of_length_le (by omega)
  rw [binaryToNumeric, htake, ← chunksDigits, hdigits, hlen]

theorem length_binaryToNumeric (binary : Block UInt8 32) : (binaryToNumeric binary).length = 60 := by
  rw [binaryToNumeric_eq, List.length_append, length_chunksDigits, List.length_replicate]

theorem isDigit_digitChar : ∀ d < 10, (Nat.digitChar d).isDigit = true := by decide

theorem isDigit_binaryToNumeric (binary : Block UInt8 32) :
    ∀ c ∈ binaryToNumeric binary, c.isDigit = true := by
  intro c hc
  rw [binaryToNumeric_eq] at hc
  rcases List.mem_append.1 hc with hc | hc
  · obtain ⟨chunk, -, hc⟩ := List.mem_flatMap.1 hc
    obtain ⟨i, -, rfl⟩ := List.mem_map.1 hc
    exact isDigit_digitChar _ (Nat.mod_lt _ (by decide))
  · rw [List.eq_of_mem_replicate hc]
    rfl

/-- A binary with eleven thousand one hundred and eleven in every chunk. -/
def ones : Block UInt8 32 :=
  ⟨(List.replicate 6 [0x67, 0x2B, 0, 0, 0]).flatten ++ [0x67, 0x2B], rfl⟩

theorem chunksDigits_ones : chunksDigits ones = List.replicate 35 '1' := by decide +kernel

theorem chunksDigits_zero : chunksDigits (Block.zero 32) = List.replicate 35 '0' := by decide +kernel

/-- Two binaries whose safety numbers, both of 60 digits, differ at a position. -/
def DigitCarries (p : ℕ) : Prop :=
  ∃ x y : Block UInt8 32,
    ((binaryToNumeric x).length = 60 ∧ ∀ c ∈ binaryToNumeric x, c.isDigit = true) ∧
    ((binaryToNumeric y).length = 60 ∧ ∀ c ∈ binaryToNumeric y, c.isDigit = true) ∧
    (binaryToNumeric x)[p]? ≠ (binaryToNumeric y)[p]?

/-- Two binaries whose safety numbers differ in a group of the display. -/
def GroupCarries (g : ℕ) : Prop :=
  ∃ x y : Block UInt8 32,
    (displayGroups (binaryToNumeric x))[g]? ≠ (displayGroups (binaryToNumeric y))[g]?

/-- Behind the seven groups every safety number has the same digits. -/
theorem drop_binaryToNumeric (binary : Block UInt8 32) :
    (binaryToNumeric binary).drop 35 = List.replicate 25 '0' := by
  rw [binaryToNumeric_eq]
  exact List.drop_left' (length_chunksDigits binary)

theorem getElem?_displayGroups (binary : Block UInt8 32) {g : ℕ} (hg : g < 12) :
    (displayGroups (binaryToNumeric binary))[g]? =
      some (((binaryToNumeric binary).drop (5 * g)).take 5) := by
  rw [displayGroups, chunks, length_binaryToNumeric, List.getElem?_map, List.getElem?_range hg]
  rfl

/-- Each of the first 35 digits depends on the hash. -/
theorem digitCarries_of_lt {p : ℕ} (hp : p < 35) : DigitCarries p := by
  refine ⟨Block.zero 32, ones, ⟨length_binaryToNumeric _, isDigit_binaryToNumeric _⟩,
    ⟨length_binaryToNumeric _, isDigit_binaryToNumeric _⟩, ?_⟩
  rw [binaryToNumeric_eq, binaryToNumeric_eq, chunksDigits_zero, chunksDigits_ones,
    List.getElem?_append_left (by simpa using hp), List.getElem?_append_left (by simpa using hp),
    List.getElem?_replicate_of_lt hp, List.getElem?_replicate_of_lt hp]
  decide

theorem length_displayGroups (binary : Block UInt8 32) :
    (displayGroups (binaryToNumeric binary)).length = 12 := by
  rw [displayGroups, chunks, length_binaryToNumeric, List.length_map, List.length_range]

/-- **A digit depends on the hash exactly when it is one of the first 35.** -/
theorem digitCarries_iff (p : ℕ) : DigitCarries p ↔ p < 35 := by
  refine ⟨?_, digitCarries_of_lt⟩
  rintro ⟨x, y, -, -, hne⟩
  by_contra hle
  apply hne
  have htail : ∀ z : Block UInt8 32,
      (binaryToNumeric z)[p]? = (List.replicate 25 '0')[p - 35]? := by
    intro z
    rw [← drop_binaryToNumeric z, List.getElem?_drop, show 35 + (p - 35) = p by omega]
  rw [htail, htail]

/-- Each of the first seven groups depends on the hash. -/
theorem groupCarries_of_lt {g : ℕ} (hg : g < 7) : GroupCarries g := by
  obtain ⟨x, y, -, -, hne⟩ := digitCarries_of_lt (p := 5 * g) (by omega)
  refine ⟨x, y, fun heq ↦ hne ?_⟩
  rw [getElem?_displayGroups x (by omega), getElem?_displayGroups y (by omega)] at heq
  -- the first digit of the group
  have hfirst := congrArg (fun l : List Char ↦ l[0]?) (Option.some.inj heq)
  simpa only [List.getElem?_take_of_lt (show 0 < 5 by decide), List.getElem?_drop, Nat.add_zero]
    using hfirst

/-- **A group depends on the hash exactly when it is one of the first seven.** -/
theorem groupCarries_iff (g : ℕ) : GroupCarries g ↔ g < 7 := by
  refine ⟨?_, groupCarries_of_lt⟩
  rintro ⟨x, y, hne⟩
  by_contra hle
  apply hne
  by_cases hg : g < 12
  · have htail : ∀ z : Block UInt8 32, (binaryToNumeric z).drop (5 * g) =
        (List.replicate 25 '0').drop (5 * g - 35) := by
      intro z
      rw [← drop_binaryToNumeric z, List.drop_drop, show 35 + (5 * g - 35) = 5 * g by omega]
    rw [getElem?_displayGroups x hg, getElem?_displayGroups y hg, htail, htail]
  · -- the display has twelve groups
    rw [List.getElem?_eq_none (by rw [length_displayGroups]; omega),
      List.getElem?_eq_none (by rw [length_displayGroups]; omega)]

/-- **Which digits of the safety number depend on the fingerprint**: those of the first seven groups,
digit by digit and group by group. -/
theorem digits_carry_iff (p g : ℕ) : (DigitCarries p ↔ p < 35) ∧ (GroupCarries g ↔ g < 7) :=
  ⟨digitCarries_iff p, groupCarries_iff g⟩

/-- The thirty-sixth digit is `0` in every safety number. -/
theorem digit_thirtyFive_carries_nothing : ¬ ∀ p < 60, DigitCarries p := by
  intro h
  obtain ⟨x, y, -, -, hne⟩ := h 35 (by decide)
  apply hne
  have htail : ∀ z : Block UInt8 32, (binaryToNumeric z)[35]? = some '0' := by
    intro z
    have hdrop := congrArg (fun l : List Char ↦ l[0]?) (drop_binaryToNumeric z)
    simpa only [List.getElem?_drop, Nat.add_zero,
      List.getElem?_replicate_of_lt (show 0 < 25 by decide)] using hdrop
  rw [htail, htail]

/-! ### The fingerprint of a pair -/

/-- `SafetyFingerprint`. -/
structure SafetyFingerprint where
  /-- The first 32 bytes of the hash. -/
  binary : Block UInt8 32
  /-- The digits that users compare. -/
  numeric : List Char
  deriving DecidableEq

namespace IdentityMaterial

/-- `device_id.as_deref().unwrap_or(&[])`. -/
def device (m : IdentityMaterial UInt8) : List UInt8 := m.deviceId.getD []

/-- An identity, with an absent device identifier as an empty one. -/
def canon (m : IdentityMaterial UInt8) : Block UInt8 32 × List UInt8 := (m.identityKey, m.device)

end IdentityMaterial

/-- `canonical_order`. -/
def canonicalOrder (a b : IdentityMaterial UInt8) : IdentityMaterial UInt8 × IdentityMaterial UInt8 :=
  if a.identityKey.val < b.identityKey.val then (a, b)
  else if b.identityKey.val < a.identityKey.val then (b, a)
  else if a.device ≤ b.device then (a, b) else (b, a)

/-- A device identifier in the hashed material. -/
def idField : Option (List UInt8) → List UInt8
  | some d => le 2 (d.length % 2 ^ 16) ++ d
  | none => le 2 0

/-- The material that `compute_fingerprint` hashes. -/
def fingerprintMaterial (partyA partyB : IdentityMaterial UInt8) : List UInt8 :=
  let (first, second) := canonicalOrder partyA partyB
  ascii "VoiceChat/Fingerprint/v1" ++ first.identityKey.val ++ idField first.deviceId ++
    second.identityKey.val ++ idField second.deviceId

/-- `FINGERPRINT_ITERATIONS`. -/
def fingerprintIterations : ℕ := 5200

/-- The iterated hash of `compute_fingerprint`. -/
def stretch (sha512 : List UInt8 → Block UInt8 64) (material : List UInt8) : Block UInt8 64 :=
  (fun hash : Block UInt8 64 ↦ sha512 hash.val)^[fingerprintIterations - 1] (sha512 material)

/-- The bytes of a hash that are kept. -/
def truncateHash (hash : Block UInt8 64) : Block UInt8 32 := ⟨hash.val.take 32, by simp⟩

/-- `compute_fingerprint`. -/
def computeFingerprint (sha512 : List UInt8 → Block UInt8 64)
    (partyA partyB : IdentityMaterial UInt8) : Except PrimitiveError SafetyFingerprint :=
  let hash := stretch sha512 (fingerprintMaterial partyA partyB)
  let binary := truncateHash hash
  .ok { binary, numeric := binaryToNumeric binary }

/-! ### What the order does -/

/-- The identity of a party as it is hashed. -/
def idRecord (x : Block UInt8 32 × List UInt8) : List UInt8 :=
  x.1.val ++ le 2 (x.2.length % 2 ^ 16) ++ x.2

/-- `canonical_order`, on what it compares. -/
def sortPair (x y : Block UInt8 32 × List UInt8) :
    (Block UInt8 32 × List UInt8) × (Block UInt8 32 × List UInt8) :=
  if x.1.val < y.1.val then (x, y) else if y.1.val < x.1.val then (y, x)
  else if x.2 ≤ y.2 then (x, y) else (y, x)

/-- The material of a sorted pair. -/
def pairMaterial (x y : Block UInt8 32 × List UInt8) : List UInt8 :=
  ascii "VoiceChat/Fingerprint/v1" ++ (idRecord (sortPair x y).1 ++ idRecord (sortPair x y).2)

/-- What is hashed of an identity depends on its canonical form only. -/
theorem idField_eq (m : IdentityMaterial UInt8) :
    m.identityKey.val ++ idField m.deviceId = idRecord m.canon := by
  obtain ⟨key, id⟩ := m
  cases id with
  | none =>
    show key.val ++ le 2 0 = key.val ++ le 2 0 ++ []
    rw [List.append_nil]
  | some d => exact (List.append_assoc _ _ _).symm

/-- What is hashed of a pair depends on the two canonical forms only. -/
theorem fingerprintMaterial_eq (A B : IdentityMaterial UInt8) :
    fingerprintMaterial A B = pairMaterial A.canon B.canon := by
  have hwrite : ∀ X Y : IdentityMaterial UInt8,
      ascii "VoiceChat/Fingerprint/v1" ++ X.identityKey.val ++ idField X.deviceId ++
          Y.identityKey.val ++ idField Y.deviceId =
        ascii "VoiceChat/Fingerprint/v1" ++ (idRecord X.canon ++ idRecord Y.canon) := by
    intro X Y
    rw [← idField_eq, ← idField_eq]
    simp only [List.append_assoc]
  unfold fingerprintMaterial canonicalOrder pairMaterial sortPair IdentityMaterial.canon
  dsimp only
  split
  · exact hwrite A B
  · split
    · exact hwrite B A
    · split
      · exact hwrite A B
      · exact hwrite B A

variable {x y z w : Block UInt8 32 × List UInt8}

theorem sortPair_cases (x y : Block UInt8 32 × List UInt8) :
    sortPair x y = (x, y) ∨ sortPair x y = (y, x) := by
  unfold sortPair
  split
  · exact .inl rfl
  · split
    · exact .inr rfl
    · split
      · exact .inl rfl
      · exact .inr rfl

theorem sortPair_of_lt (h : x.1.val < y.1.val) : sortPair x y = (x, y) := if_pos h

/-- **The order of the parties is forgotten.** -/
theorem sortPair_comm (x y : Block UInt8 32 × List UInt8) : sortPair x y = sortPair y x := by
  unfold sortPair
  by_cases hlt : x.1.val < y.1.val
  · rw [if_pos hlt, if_neg (List.lt_asymm hlt), if_pos hlt]
  rw [if_neg hlt, if_neg hlt]
  by_cases hgt : y.1.val < x.1.val
  · rw [if_pos hgt, if_pos hgt]
  rw [if_neg hgt, if_neg hgt]
  -- equal keys: the identifiers decide, and equal identifiers make the pair symmetric
  have hkey : x.1.val = y.1.val := Std.le_antisymm (show x.1.val ≤ y.1.val from hgt) hlt
  by_cases hxy : x.2 ≤ y.2
  · by_cases hyx : y.2 ≤ x.2
    · have hsame : x = y := Prod.ext (Subtype.ext hkey) (Std.le_antisymm hxy hyx)
      rw [hsame]
    · rw [if_pos hxy, if_neg hyx]
  · rw [if_neg hxy, if_pos (Std.le_total.resolve_left hxy)]

theorem pairMaterial_comm (x y : Block UInt8 32 × List UInt8) :
    pairMaterial x y = pairMaterial y x := by
  rw [pairMaterial, pairMaterial, sortPair_comm]

/-- **Equal pairs have equal material.** -/
theorem pairMaterial_congr (h : s(x, y) = s(z, w)) : pairMaterial x y = pairMaterial z w := by
  rcases Sym2.eq_iff.1 h with ⟨rfl, rfl⟩ | ⟨rfl, rfl⟩
  · rfl
  · exact pairMaterial_comm x y

/-! ### What the material tells apart -/

/-- A record is its key, two bytes of length and the id. -/
theorem length_idRecord (x : Block UInt8 32 × List UInt8) : (idRecord x).length = 34 + x.2.length := by
  simp only [idRecord, List.length_append, Block.length_val, length_le]

/-- Two records one behind the other: the first key and the cut length can be read off. -/
theorem idRecord_prefix (h : idRecord x ++ idRecord y = idRecord z ++ idRecord w) :
    x.1 = z.1 ∧ x.2.length % 2 ^ 16 = z.2.length % 2 ^ 16 ∧
      x.2.length + y.2.length = z.2.length + w.2.length := by
  have hlen := congrArg List.length h
  simp only [List.length_append, length_idRecord] at hlen
  simp only [idRecord, List.append_assoc] at h
  obtain ⟨hkey, hrest⟩ := List.append_inj h (by rw [Block.length_val, Block.length_val])
  obtain ⟨hfield, -⟩ := List.append_inj hrest (by rw [length_le, length_le])
  have hvalue := congrArg (fromLe (B := UInt8)) hfield
  rw [fromLe_le, fromLe_le] at hvalue
  refine ⟨Subtype.ext hkey, ?_, by omega⟩
  omega

/-- With the full length everything can be read off. -/
theorem idRecord_inj (h : idRecord x ++ idRecord y = idRecord z ++ idRecord w)
    (hlen : x.2.length = z.2.length) : x = z ∧ y = w := by
  have hinj : ∀ {x z : Block UInt8 32 × List UInt8}, idRecord x = idRecord z → x = z := by
    intro x z h
    simp only [idRecord, List.append_assoc] at h
    obtain ⟨hkey, hrest⟩ := List.append_inj h (by rw [Block.length_val, Block.length_val])
    obtain ⟨-, hid⟩ := List.append_inj hrest (by rw [length_le, length_le])
    exact Prod.ext (Subtype.ext hkey) hid
  obtain ⟨hfirst, hsecond⟩ := List.append_inj h (by rw [length_idRecord, length_idRecord, hlen])
  exact ⟨hinj hfirst, hinj hsecond⟩

/-- No two lengths in different pairs are equal in their low 16 bits only. These bits are all that
the length field holds. -/
def LengthsApart (a b c d : ℕ) : Prop :=
  a + b = c + d → (a % 2 ^ 16 = c % 2 ^ 16 → a = c) ∧ (a % 2 ^ 16 = d % 2 ^ 16 → a = d)

/-- **Lengths apart: the material identifies the pair.** The records can then be told apart in the
hashed bytes, because their length fields differ when their lengths do. -/
theorem pair_of_material (hapart : LengthsApart x.2.length y.2.length z.2.length w.2.length)
    (h : pairMaterial x y = pairMaterial z w) : s(x, y) = s(z, w) := by
  have hrecords := List.append_cancel_left h
  obtain ⟨-, hmod, hsum⟩ := idRecord_prefix hrecords
  unfold LengthsApart at hapart
  rcases sortPair_cases x y with hxy | hxy <;> rcases sortPair_cases z w with hzw | hzw <;>
    rw [hxy, hzw] at hrecords hmod hsum <;> dsimp only at hrecords hmod hsum
  · obtain ⟨rfl, rfl⟩ := idRecord_inj hrecords (by omega)
    rfl
  · obtain ⟨rfl, rfl⟩ := idRecord_inj hrecords (by omega)
    exact Sym2.eq_swap
  · obtain ⟨rfl, rfl⟩ := idRecord_inj hrecords (by omega)
    exact Sym2.eq_swap
  · obtain ⟨rfl, rfl⟩ := idRecord_inj hrecords (by omega)
    rfl

/-! ### Identifiers that swallow an identity -/

/-- Two keys in their order. -/
def lowKey : Block UInt8 32 := ⟨List.replicate 31 0 ++ [1], rfl⟩

@[inherit_doc lowKey]
def highKey : Block UInt8 32 := ⟨1 :: List.replicate 31 0, rfl⟩

theorem lowKey_lt : lowKey.val < highKey.val := by decide

/-- An identifier of `a` bytes whose bytes from `c` on read like a key and a length `d`. -/
def spliced (a c d : ℕ) : List UInt8 :=
  List.replicate c 0 ++ (highKey.val ++ (le 2 (d % 2 ^ 16) ++ List.replicate (a - c - 34) 0))

/-- The rest of it, and the identity that follows, as one identifier. -/
def swallowed (a b c : ℕ) : List UInt8 :=
  List.replicate (a - c - 34) 0 ++ (highKey.val ++ (le 2 (b % 2 ^ 16) ++ List.replicate b 0))

section Swallow

variable {a b c d : ℕ}

/-- The id that contains the other's record has the length it should. -/
theorem length_spliced (h : c + 34 ≤ a) : (spliced a c d).length = a := by
  simp only [spliced, List.length_append, List.length_replicate, Block.length_val, length_le]
  omega

theorem length_swallowed (h : c + 34 ≤ a) : (swallowed a b c).length = a - c + b := by
  simp only [swallowed, List.length_append, List.length_replicate, Block.length_val, length_le]
  omega

/-- **The same bytes for two pairs**: the length of the first identifier is cut to that of a shorter
one, behind which the rest reads like another identity. -/
theorem pairMaterial_spliced (hlt : c < a) (hsum : a + b = c + d) (hmod : a % 2 ^ 16 = c % 2 ^ 16) :
    pairMaterial (lowKey, spliced a c d) (highKey, List.replicate b 0) =
      pairMaterial (lowKey, List.replicate c 0) (highKey, swallowed a b c) := by
  have hroom : c + 34 ≤ a := by omega
  have hd : a - c + b = d := by omega
  rw [pairMaterial, pairMaterial, sortPair_of_lt lowKey_lt, sortPair_of_lt lowKey_lt]
  simp only [idRecord, length_spliced hroom, length_swallowed hroom, List.length_replicate, hmod, hd]
  simp only [spliced, swallowed, List.append_assoc]

theorem spliced_pair_ne (hlt : c + 34 ≤ a) (hne : a ≠ c) :
    s((lowKey, spliced a c d), (highKey, List.replicate b 0)) ≠
      s((lowKey, List.replicate c 0), (highKey, swallowed a b c)) := by
  intro h
  rcases Sym2.eq_iff.1 h with ⟨hfirst, -⟩ | ⟨hfirst, -⟩
  · have hlen := congrArg (fun x ↦ x.2.length) hfirst
    dsimp only at hlen
    rw [length_spliced hlt, List.length_replicate] at hlen
    exact hne hlen
  · have hkey : lowKey.val = highKey.val := congrArg (fun x ↦ x.1.val) hfirst
    exact absurd hkey (by decide)

/-- Pairs with identifiers of these lengths that have the same material. -/
def Collide (a b c d : ℕ) : Prop :=
  ∃ x y z w : Block UInt8 32 × List UInt8, x.2.length = a ∧ y.2.length = b ∧ z.2.length = c ∧
    w.2.length = d ∧ pairMaterial x y = pairMaterial z w ∧ s(x, y) ≠ s(z, w)

/-- Ids whose lengths agree modulo `2^16` collide, when the first is the longer one. -/
theorem collide_of_lt (hlt : c < a) (hsum : a + b = c + d) (hmod : a % 2 ^ 16 = c % 2 ^ 16) :
    Collide a b c d := by
  have hroom : c + 34 ≤ a := by omega
  refine ⟨_, _, _, _, length_spliced hroom, List.length_replicate, List.length_replicate, ?_,
    pairMaterial_spliced hlt hsum hmod, spliced_pair_ne hroom hlt.ne'⟩
  exact (length_swallowed hroom).trans (by omega)

theorem collide_of_ne (hne : a ≠ c) (hsum : a + b = c + d) (hmod : a % 2 ^ 16 = c % 2 ^ 16) :
    Collide a b c d := by
  rcases Nat.lt_or_gt_of_ne hne with hlt | hgt
  · obtain ⟨x, y, z, w, hx, hy, hz, hw, hmaterial, hpair⟩ :=
      collide_of_lt (b := d) (d := b) hlt hsum.symm hmod.symm
    exact ⟨z, w, x, y, hz, hw, hx, hy, hmaterial.symm, hpair.symm⟩
  · exact collide_of_lt hgt hsum hmod

/-- **Where lengths are not apart**, two pairs have the same material: one id is made to contain the
beginning of the other record, and the length field does not tell. -/
theorem collide_of_not_apart (h : ¬ LengthsApart a b c d) : Collide a b c d := by
  unfold LengthsApart at h
  push Not at h
  obtain ⟨hsum, h⟩ := h
  by_cases hac : a % 2 ^ 16 = c % 2 ^ 16 ∧ a ≠ c
  · exact collide_of_ne hac.2 hsum hac.1
  · obtain ⟨hmod, hne⟩ := h fun hmod ↦ not_not.1 fun hne ↦ hac ⟨hmod, hne⟩
    obtain ⟨x, y, z, w, hx, hy, hz, hw, hmaterial, hpair⟩ :=
      collide_of_ne (b := b) (d := c) hne (by omega) hmod
    refine ⟨x, y, w, z, hx, hy, hw, hz, hmaterial.trans (pairMaterial_comm z w), ?_⟩
    rwa [Sym2.eq_swap (a := w)]

end Swallow

/-! ### What the fingerprint identifies -/

/-- **Equal iterated hashes of different inputs** come from two inputs of one hash that agree on the
bytes that are kept. -/
theorem exists_collision (sha512 : List UInt8 → Block UInt8 64) (n : ℕ) {u v : List UInt8} (hne : u ≠ v)
    (h : ((fun x ↦ (sha512 x).val)^[n + 1] u).take 32 = ((fun x ↦ (sha512 x).val)^[n + 1] v).take 32) :
    ∃ u' v', u' ≠ v' ∧ (sha512 u').val.take 32 = (sha512 v').val.take 32 := by
  induction n generalizing u v with
  | zero => exact ⟨u, v, hne, h⟩
  | succ n ih =>
    by_cases hsame : (sha512 u).val = (sha512 v).val
    · exact ⟨u, v, hne, by rw [hsame]⟩
    · rw [Function.iterate_succ_apply, Function.iterate_succ_apply (n := n + 1)] at h
      exact ih hsame h

/-- The iteration of the source is an iteration of the hash. -/
theorem stretch_val (sha512 : List UInt8 → Block UInt8 64) (material : List UInt8) :
    (stretch sha512 material).val = (fun x ↦ (sha512 x).val)^[fingerprintIterations] material := by
  have hiterate : ∀ n (hash : Block UInt8 64),
      ((fun hash : Block UInt8 64 ↦ sha512 hash.val)^[n] hash).val =
        (fun x ↦ (sha512 x).val)^[n] hash.val := by
    intro n
    induction n with
    | zero => exact fun _ ↦ rfl
    | succ n ih =>
      intro hash
      rw [Function.iterate_succ_apply, ih, Function.iterate_succ_apply]
  rw [stretch, hiterate, ← Function.iterate_succ_apply]
  rfl

/-- What the safety number of a pair is for: two users who compare it learn whether they see the
same two identities. -/
structure Identifies (sha512 : List UInt8 → Block UInt8 64) (A B C D : IdentityMaterial UInt8) :
    Prop where
  /-- The hashed bytes tell unordered pairs apart. -/
  material_eq_iff : fingerprintMaterial A B = fingerprintMaterial C D ↔
    s(A.canon, B.canon) = s(C.canon, D.canon)
  /-- The order of the parties does not matter. -/
  symmetric : computeFingerprint sha512 A B = computeFingerprint sha512 B A
  /-- Only the hash function confuses pairs. -/
  collision : s(A.canon, B.canon) ≠ s(C.canon, D.canon) →
    computeFingerprint sha512 A B = computeFingerprint sha512 C D →
    ∃ u v, u ≠ v ∧ (sha512 u).val.take 32 = (sha512 v).val.take 32

/-- **Where lengths tell ids apart, so does the safety number**, up to collisions of the hash. -/
theorem identifies_of_apart (sha512 : List UInt8 → Block UInt8 64) {A B C D : IdentityMaterial UInt8}
    (h : LengthsApart A.device.length B.device.length C.device.length D.device.length) :
    Identifies sha512 A B C D := by
  have hpair : fingerprintMaterial A B = fingerprintMaterial C D ↔
      s(A.canon, B.canon) = s(C.canon, D.canon) := by
    rw [fingerprintMaterial_eq, fingerprintMaterial_eq]
    exact ⟨pair_of_material h, pairMaterial_congr⟩
  refine ⟨hpair, ?_, ?_⟩
  · rw [computeFingerprint, computeFingerprint, fingerprintMaterial_eq, fingerprintMaterial_eq,
      pairMaterial_comm]
  · intro hne heq
    rw [computeFingerprint, computeFingerprint] at heq
    have hval := congrArg (fun s ↦ s.binary.val) (Except.ok.inj heq)
    obtain ⟨n, hn⟩ : ∃ n, fingerprintIterations = n + 1 := ⟨5199, rfl⟩
    simp only [truncateHash, stretch_val, hn] at hval
    exact exists_collision sha512 n (fun h ↦ hne (hpair.1 h)) hval

/-- **When the safety number identifies the pair**, for identities whose device identifiers have given
lengths: exactly if no two lengths in different pairs agree in their low 16 bits only. -/
theorem fingerprint_identifies_iff (sha512 : List UInt8 → Block UInt8 64) (a b c d : ℕ) :
    (∀ A B C D : IdentityMaterial UInt8, A.device.length = a → B.device.length = b →
      C.device.length = c → D.device.length = d → Identifies sha512 A B C D) ↔
      LengthsApart a b c d := by
  constructor
  · intro h
    by_contra hapart
    obtain ⟨x, y, z, w, hx, hy, hz, hw, hmaterial, hpair⟩ := collide_of_not_apart hapart
    have hident := h ⟨x.1, some x.2⟩ ⟨y.1, some y.2⟩ ⟨z.1, some z.2⟩ ⟨w.1, some w.2⟩ hx hy hz hw
    refine hpair (hident.material_eq_iff.1 ?_)
    rw [fingerprintMaterial_eq, fingerprintMaterial_eq]
    exact hmaterial
  · rintro h A B C D rfl rfl rfl rfl
    exact identifies_of_apart sha512 h

/-- An identity with a long identifier, and what it swallows. -/
def longParty (n : ℕ) : IdentityMaterial UInt8 := ⟨lowKey, some (spliced n 0 n)⟩

@[inherit_doc longParty]
def swallowedParty (n : ℕ) : IdentityMaterial UInt8 := ⟨highKey, some (swallowed n 0 0)⟩

/-- An id whose length is a multiple of `2^16` is written with length zero, and swallows what
follows. -/
theorem fingerprintMaterial_longParty {n : ℕ} (hn : 0 < n) (hmod : n % 2 ^ 16 = 0) :
    fingerprintMaterial (longParty n) ⟨highKey, none⟩ =
        fingerprintMaterial ⟨lowKey, none⟩ (swallowedParty n) ∧
      s((longParty n).canon, IdentityMaterial.canon ⟨highKey, none⟩) ≠
        s(IdentityMaterial.canon ⟨lowKey, none⟩, (swallowedParty n).canon) := by
  constructor
  · rw [fingerprintMaterial_eq, fingerprintMaterial_eq]
    exact pairMaterial_spliced (b := 0) hn (by omega) (by omega)
  · exact spliced_pair_ne (b := 0) (by omega) hn.ne'

/-- **Two pairs with the same material**: an identifier of 65536 bytes against one that is empty. -/
theorem long_id_swallows_identity :
    fingerprintMaterial (longParty 65536) ⟨highKey, none⟩ =
        fingerprintMaterial ⟨lowKey, none⟩ (swallowedParty 65536) ∧
      s((longParty 65536).canon, IdentityMaterial.canon ⟨highKey, none⟩) ≠
        s(IdentityMaterial.canon ⟨lowKey, none⟩, (swallowedParty 65536).canon) :=
  fingerprintMaterial_longParty (by omega) (by omega)

end VoiceChatCrypto
