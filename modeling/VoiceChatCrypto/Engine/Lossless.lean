import VoiceChatCrypto.Engine.Session

/-!
# What persistence loses

Every count and every length in the formats of the ratchets is written in four letters, and the limit
on skipped keys is written but not read back. These are the only two ways to lose something: a state
whose counts and lengths fit (`Fits`) is restored exactly by a caller who hands its limit back in, and
`LiveRatchet.restore` hands in the default.

Both exceptions are real. A reader returns no map larger than the count it read and no larger than the
bytes it was given, so a state with more of them than four letters can count never comes back.
-/

open Alphabet

namespace VoiceChatCrypto

variable {B : Type} [Alphabet B]

/-! ### What a reader can return -/

/-- A stored list of skipped keys is as long as its letters allow. -/
theorem takeSkipped_size_lt {data rest : List B} {m : Dict (Block B 32 × UInt32) (Block B 32)}
    (h : takeSkipped data = .ok (m, rest)) :
    m.size < 2 ^ 32 ∧ 68 * m.size + rest.length ≤ data.length := by
  obtain ⟨⟨count, data'⟩, hcount, h⟩ := Except.bind_eq_ok.1 h
  obtain ⟨⟨entries, data''⟩, hmany, h⟩ := Except.bind_eq_ok.1 h
  cases h
  have hread : ∀ d (e : (Block B 32 × UInt32) × Block B 32) d', readSkipped d = .ok (e, d') →
      68 + d'.length = d.length := by
    intro d e d' h
    obtain ⟨⟨pk, d₁⟩, hpk, h⟩ := Except.bind_eq_ok.1 h
    obtain ⟨⟨n, d₂⟩, hn, h⟩ := Except.bind_eq_ok.1 h
    obtain ⟨⟨msgKey, d₃⟩, hkey, h⟩ := Except.bind_eq_ok.1 h
    cases h
    have hlen := (Cursor.takeLe_lt hn).2
    rw [Cursor.takeBlock_eq_ok hpk, List.length_append, Block.length_val, ← hlen,
      Cursor.takeBlock_eq_ok hkey, List.length_append, Block.length_val]
    omega
  obtain ⟨hlt, hlen⟩ := Cursor.takeLe_lt hcount
  obtain ⟨rfl, hspent⟩ := Cursor.takeMany_length hread hmany
  have hsize := Dict.size_ofPairs_le entries
  exact ⟨by omega, by omega⟩

theorem checkPublic_ne_zero {p p' : Option (Block B 32)} (h : checkPublic p = .ok p') :
    ∀ b, p' = some b → b ≠ Block.zero 32 := by
  intro b hb
  cases p with
  | none =>
    cases h
    cases hb
  | some c =>
    obtain ⟨c', hc, h⟩ := Except.bind_eq_ok.1 h
    cases h
    cases hb
    obtain ⟨hne, rfl⟩ := publicFromBytes_eq_ok.1 hc
    exact hne

theorem takeOptionLoose_length_le {n : ℕ} {data rest : List B} {b : Option (Block B n)}
    (h : Cursor.takeOptionLoose PrimitiveError.invalidLength n data = .ok (b, rest)) :
    rest.length ≤ data.length := by
  obtain ⟨⟨tag, data'⟩, htag, h⟩ := Except.bind_eq_ok.1 h
  have hlen := (Cursor.takeLe_lt htag).2
  dsimp only at h
  split at h
  · obtain ⟨⟨b', data''⟩, hb, h⟩ := Except.bind_eq_ok.1 h
    cases h
    have hblock := congrArg List.length (Cursor.takeBlock_eq_ok hb)
    rw [List.length_append] at hblock
    dsimp only
    omega
  · cases h
    omega

/-- **What the plain reader returns fits**, has the limit it was given, and is no larger than its
input. -/
theorem DoubleRatchetState.fits_of_deserialize {maxSkip : UInt32} {data : List B}
    {s : DoubleRatchetState B} (h : deserialize maxSkip data = .ok s) :
    s.Fits ∧ s.maxSkip = maxSkip ∧ 68 * s.mkskipped.size ≤ data.length := by
  obtain ⟨⟨dhs, d₁⟩, h₁, h⟩ := Except.bind_eq_ok.1 h
  obtain ⟨⟨dhr₀, d₂⟩, h₂, h⟩ := Except.bind_eq_ok.1 h
  obtain ⟨dhr, hdhr, h⟩ := Except.bind_eq_ok.1 h
  obtain ⟨⟨rk, d₃⟩, h₃, h⟩ := Except.bind_eq_ok.1 h
  obtain ⟨⟨cks, d₄⟩, h₄, h⟩ := Except.bind_eq_ok.1 h
  obtain ⟨⟨ckr, d₅⟩, h₅, h⟩ := Except.bind_eq_ok.1 h
  obtain ⟨⟨ns, d₆⟩, h₆, h⟩ := Except.bind_eq_ok.1 h
  obtain ⟨⟨nr, d₇⟩, h₇, h⟩ := Except.bind_eq_ok.1 h
  obtain ⟨⟨pn, d₈⟩, h₈, h⟩ := Except.bind_eq_ok.1 h
  obtain ⟨⟨limit, d₉⟩, h₉, h⟩ := Except.bind_eq_ok.1 h
  obtain ⟨⟨mkskipped, rest⟩, hskipped, h⟩ := Except.bind_eq_ok.1 h
  cases h
  obtain ⟨hlt, hsize⟩ := takeSkipped_size_lt hskipped
  refine ⟨⟨checkPublic_ne_zero hdhr, hlt⟩, rfl, ?_⟩
  have k₁ := takeOptionLoose_length_le h₁
  have k₂ := takeOptionLoose_length_le h₂
  have k₃ := congrArg List.length (Cursor.takeBlock_eq_ok h₃)
  have k₄ := takeOptionLoose_length_le h₄
  have k₅ := takeOptionLoose_length_le h₅
  have k₆ := (Cursor.takeLe_lt h₆).2
  have k₇ := (Cursor.takeLe_lt h₇).2
  have k₈ := (Cursor.takeLe_lt h₈).2
  have k₉ := (Cursor.takeLe_lt h₉).2
  rw [List.length_append] at k₃
  dsimp only at *
  omega

theorem HeaderEncryptState.maxSkip_of_deserialize {maxSkip : UInt32} {data : List B}
    {s : HeaderEncryptState B} (h : deserialize maxSkip data = .ok s) : s.maxSkip = maxSkip := by
  obtain ⟨⟨dhs, d₁⟩, -, h⟩ := Except.bind_eq_ok.1 h
  obtain ⟨⟨dhr₀, d₂⟩, -, h⟩ := Except.bind_eq_ok.1 h
  obtain ⟨dhr, -, h⟩ := Except.bind_eq_ok.1 h
  -- the root key, the two chain keys and the four header keys
  iterate 7 obtain ⟨⟨_, _⟩, -, h⟩ := Except.bind_eq_ok.1 h
  -- the four counters
  iterate 4 obtain ⟨⟨_, _⟩, -, h⟩ := Except.bind_eq_ok.1 h
  obtain ⟨⟨mkskipped, rest⟩, -, h⟩ := Except.bind_eq_ok.1 h
  obtain ⟨-, rfl⟩ := Cursor.finish_eq_ok h
  rfl

/-- A string read behind its length is shorter than four letters can say. -/
theorem takeVec_length_lt {e : PrimitiveError} {l data rest : List B}
    (h : Cursor.takeVec e data = .ok (l, rest)) : l.length < 2 ^ 32 := by
  obtain ⟨⟨n, tail⟩, hn, h⟩ := Except.bind_eq_ok.1 h
  have hlen := (Cursor.take_eq_ok (show Cursor.take e n tail = .ok (l, rest) from h)).2
  have hlt := (Cursor.takeLe_lt hn).1
  omega

/-- The classical half of a hybrid is read from fewer bytes than four letters can count. -/
theorem TripleRatchetState.classical_of_deserialize {maxSkip : UInt32} {data : List B}
    {s : TripleRatchetState B} (h : deserialize maxSkip data = .ok s) :
    s.classical.maxSkip = maxSkip ∧ 68 * s.classical.mkskipped.size < 2 ^ 32 := by
  obtain ⟨⟨c, d₁⟩, hc, h⟩ := Except.bind_eq_ok.1 h
  obtain ⟨classical, hclassical, h⟩ := Except.bind_eq_ok.1 h
  obtain ⟨⟨p, d₂⟩, -, h⟩ := Except.bind_eq_ok.1 h
  obtain ⟨spqr, -, h⟩ := Except.bind_eq_ok.1 h
  obtain ⟨⟨k, d₃⟩, -, h⟩ := Except.bind_eq_ok.1 h
  obtain ⟨braid, -, h⟩ := Except.bind_eq_ok.1 h
  obtain ⟨-, rfl⟩ := Cursor.finish_eq_ok h
  obtain ⟨-, hlimit, hsize⟩ := DoubleRatchetState.fits_of_deserialize hclassical
  have hlen := takeVec_length_lt hc
  exact ⟨hlimit, by dsimp only; omega⟩

/-- **A restored ratchet has the default limit**, whatever limit was stored: `restore` passes it in,
and the blob does not contain it. -/
theorem LiveRatchet.maxSkip_of_restore {data : List B} {r : LiveRatchet B}
    (h : restore data = .ok r) : r.maxSkip = defaultMaxSkip := by
  obtain ⟨⟨tag, data'⟩, -, h⟩ := Except.bind_eq_ok.1 h
  dsimp only at h
  split at h
  · obtain ⟨s, hs, h⟩ := Except.bind_eq_ok.1 h
    cases h
    exact (DoubleRatchetState.fits_of_deserialize (liftError_eq_ok.1 hs)).2.1
  · obtain ⟨s, hs, h⟩ := Except.bind_eq_ok.1 h
    cases h
    exact (TripleRatchetState.classical_of_deserialize (liftError_eq_ok.1 hs)).1
  · obtain ⟨s, hs, h⟩ := Except.bind_eq_ok.1 h
    cases h
    exact HeaderEncryptState.maxSkip_of_deserialize (liftError_eq_ok.1 hs)
  · cases h

/-! ### What is lost -/

/-- **Ratchet persistence loses nothing that fits.** A state of any of the three ratchets comes back
from its format under its own limit, whatever the order in which its maps were written; and a live
ratchet comes back with its profile and state exactly when its limit is the default. -/
theorem ratchet_persistence (σ : Enumeration) :
    (∀ s : DoubleRatchetState B, s.Fits →
      DoubleRatchetState.deserialize s.maxSkip (s.serialize σ) = .ok s) ∧
    (∀ s : HeaderEncryptState B, s.Fits →
      HeaderEncryptState.deserialize s.maxSkip (s.serialize σ) = .ok s) ∧
    (∀ s : TripleRatchetState B, s.Fits →
      TripleRatchetState.deserialize s.classical.maxSkip (s.serialize σ) = .ok s) ∧
    ∀ r : LiveRatchet B, r.Fits →
      (LiveRatchet.restore (r.persistBlob σ) = .ok r ↔ r.maxSkip = defaultMaxSkip) := by
  refine ⟨fun s hs ↦ DoubleRatchetState.deserialize_serialize hs σ,
    fun s hs ↦ HeaderEncryptState.deserialize_serialize hs σ,
    fun s hs ↦ TripleRatchetState.deserialize_serialize hs σ, fun r hr ↦ ⟨fun h ↦ ?_, fun h ↦ ?_⟩⟩
  · exact LiveRatchet.maxSkip_of_restore h
  · exact LiveRatchet.restore_persistBlob_of_fits hr h σ

/-- So many skipped keys of one chain. -/
def manySkipped (n : ℕ) : Dict (Block UInt8 32 × UInt32) (Block UInt8 32) :=
  Dict.ofPairs ((List.range n).map fun i ↦ ((Block.zero 32, UInt32.ofNat i), Block.zero 32))

/-- The map of the example has as many keys as it should. -/
theorem size_manySkipped {n : ℕ} (h : n ≤ 2 ^ 32) : (manySkipped n).size = n := by
  rw [manySkipped, Dict.size_ofPairs, List.map_map, List.toFinset_card_of_nodup, List.length_map,
    List.length_range]
  refine (List.nodup_map_iff_inj_on List.nodup_range).2 fun i hi j hj heq ↦ ?_
  have hi' := List.mem_range.1 hi
  have hj' := List.mem_range.1 hj
  exact ofNat_u32_inj (by omega) (by omega) (congrArg Prod.snd heq)

/-- A ratchet before its first message, with a limit of its own and some skipped keys. -/
def skippedRatchet (maxSkip : UInt32) (n : ℕ) : DoubleRatchetState UInt8 :=
  { DoubleRatchetState.initBob (Block.zero 32) (Block.zero 32) maxSkip with
    mkskipped := manySkipped n }

theorem size_skippedRatchet (maxSkip : UInt32) {n : ℕ} (h : n ≤ 2 ^ 32) :
    (skippedRatchet maxSkip n).mkskipped.size = n :=
  size_manySkipped h

/-- **Three skipped keys come back**: under a limit of its own from the format of the state, and under
the default from that of a live ratchet. -/
theorem ratchet_persistence_skipped :
    (skippedRatchet 5 3).mkskipped.size = 3 ∧
      DoubleRatchetState.deserialize 5 ((skippedRatchet 5 3).serialize Enumeration.arbitrary) =
        .ok (skippedRatchet 5 3) ∧
      LiveRatchet.restore ((LiveRatchet.classical (skippedRatchet defaultMaxSkip 3)).persistBlob
        Enumeration.arbitrary) = .ok (.classical (skippedRatchet defaultMaxSkip 3)) := by
  have hfits : ∀ maxSkip, (skippedRatchet maxSkip 3).Fits := fun maxSkip ↦
    { dhr := fun b hb ↦ nomatch hb
      skipped := by rw [size_skippedRatchet maxSkip (by decide)]; decide }
  obtain ⟨hclassical, -, -, hlive⟩ := ratchet_persistence (B := UInt8) Enumeration.arbitrary
  exact ⟨size_skippedRatchet 5 (by decide), hclassical _ (hfits 5),
    (hlive (.classical (skippedRatchet defaultMaxSkip 3)) (hfits _)).2 rfl⟩

/-- **What is lost**: a limit other than the default; the skipped keys of a ratchet with 2³² of them;
and of a hybrid already with 2²⁶ of them, whose classical half is longer than its length field. -/
theorem persistence_loses :
    LiveRatchet.restore ((LiveRatchet.classical (skippedRatchet 5 0)).persistBlob
        Enumeration.arbitrary) ≠ .ok (.classical (skippedRatchet 5 0)) ∧
      DoubleRatchetState.deserialize 5 ((skippedRatchet 5 (2 ^ 32)).serialize
        Enumeration.arbitrary) ≠ .ok (skippedRatchet 5 (2 ^ 32)) ∧
      ∀ (spqr : SpqrState UInt8) (braid : BraidScka UInt8),
        TripleRatchetState.deserialize 5
            ((⟨skippedRatchet 5 (2 ^ 26), spqr, braid⟩ : TripleRatchetState UInt8).serialize
              Enumeration.arbitrary) ≠
          .ok ⟨skippedRatchet 5 (2 ^ 26), spqr, braid⟩ := by
  refine ⟨fun h ↦ ?_, fun h ↦ ?_, fun spqr braid h ↦ ?_⟩
  · exact absurd (LiveRatchet.maxSkip_of_restore h) (by decide)
  · have hsize := (DoubleRatchetState.fits_of_deserialize h).1.skipped
    rw [size_skippedRatchet 5 le_rfl] at hsize
    exact lt_irrefl _ hsize
  · have hsize := (TripleRatchetState.classical_of_deserialize h).2
    rw [size_skippedRatchet 5 (Nat.pow_le_pow_right (by decide) (by decide))] at hsize
    exact absurd hsize (by decide)

end VoiceChatCrypto
