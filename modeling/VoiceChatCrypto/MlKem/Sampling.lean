import VoiceChatCrypto.MlKem.Encoding

/-!
# Sampling

`sample_cbd2` and `sample_ntt` against `SamplePolyCBD` and `SampleNTT` of the standard. The loop of
`sample_ntt` reads the stream in pieces of 96 bytes and looks at two candidates a round, with a way out
between the two; the invariant says where in the stream it is, and that it holds the candidates that
were accepted so far in their order. Where the stream has 256 of them, the loop ends.
-/

namespace VoiceChatCrypto

namespace MlKem

open Fips203 (Zq)

/-! ### `sample_cbd2` -/

theorem length_readStream (stream : ℕ → UInt8) (pos n : ℕ) :
    (readStream stream pos n).length = n := by
  rw [readStream, List.length_map, List.length_range]

theorem byteAt_readStream (stream : ℕ → UInt8) (pos : ℕ) {n i : ℕ} (hi : i < n) :
    byteAt (readStream stream pos n) i = (stream (pos + i)).toNat := by
  rw [byteAt, readStream, List.getD_eq_getElem?_getD, List.getElem?_map,
    List.getElem?_range hi]
  rfl

/-- **`prf_eta2` is `PRF_2`.** -/
theorem prfEta2_eq (H : Sha3) (s : Block UInt8 32) (b : ℕ) :
    prfEta2 H s b = Fips203.prf H s.val b := by
  rw [prfEta2, readStream, Fips203.prf]
  simp only [Nat.zero_add]

/-- Four bits in a row, within a byte. -/
theorem nibble_bit (buf : List UInt8) (i : ℕ) {t : ℕ} (ht : t < 4) :
    (byteAt buf (4 * i / 8) >>> (4 * i % 8) &&& 0x0f) / 2 ^ t % 2 =
      Fips203.bytesToBits buf (4 * i + t) := by
  rw [Fips203.bytesToBits, show (4 * i + t) / 8 = 4 * i / 8 by omega,
    show (4 * i + t) % 8 = 4 * i % 8 + t by omega, show 0x0f = 2 ^ 4 - 1 by rfl,
    Nat.and_two_pow_sub_one_eq_mod, Nat.shiftRight_eq_div_pow, pow_add, ← Nat.div_div_eq_div_mul,
    byteAt]
  generalize (buf.getD (4 * i / 8) 0).toNat / 2 ^ (4 * i % 8) = w
  interval_cases t <;> omega

/-- A coefficient of `sample_cbd2`. -/
theorem sampleCbd2_eq (buf : List UInt8) (i : ℕ) :
    sampleCbd2 buf i = fqSub
      (Fips203.bytesToBits buf (4 * i) + Fips203.bytesToBits buf (4 * i + 1))
      (Fips203.bytesToBits buf (4 * i + 2) + Fips203.bytesToBits buf (4 * i + 3)) := by
  -- the shift is 0 or 4, so that the four bits are in one byte
  have hshift : 4 * i % 8 ≤ 4 := by omega
  have h₀ := nibble_bit buf i (t := 0) (by decide)
  have h₁ := nibble_bit buf i (t := 1) (by decide)
  have h₂ := nibble_bit buf i (t := 2) (by decide)
  have h₃ := nibble_bit buf i (t := 3) (by decide)
  rw [pow_zero, Nat.div_one, Nat.add_zero] at h₀
  rw [sampleCbd2, if_pos hshift, Nat.and_one_is_mod, h₀, and_one, h₁, and_one, h₂, and_one, h₃]

/-- **`sample_cbd2` is `SamplePolyCBD_2`.** -/
theorem sampleCbd2_spec (buf : List UInt8) :
    Reduced (sampleCbd2 buf) ∧
      Fips203.toRq (vals (sampleCbd2 buf)) = Fips203.samplePolyCbd buf := by
  have hlt : ∀ p p', Fips203.bytesToBits buf p + Fips203.bytesToBits buf p' < q := by
    intro p p'
    have h := bytesToBits_le buf p
    have h' := bytesToBits_le buf p'
    unfold q
    omega
  constructor
  · intro i _
    rw [sampleCbd2_eq]
    exact fqSub_lt (hlt _ _) (hlt _ _)
  · refine Residue.ofCoeffs_congr fun i _ ↦ ?_
    rw [vals, sampleCbd2_eq, cast_fqSub (hlt _ _) (hlt _ _)]

/-! ### `sample_ntt` -/

section SampleNtt

variable {stream : ℕ → UInt8} {t n T pos start : ℕ} {buf : List UInt8} {out : Coeffs}

/-- A candidate is accepted. -/
abbrev Accepted (stream : ℕ → UInt8) (t : ℕ) : Prop := Fips203.candidate stream t < q

/-- The accepted ones of the first `t` candidates are in the array. -/
structure Found (stream : ℕ → UInt8) (t n : ℕ) (out : Coeffs) : Prop where
  /-- The counter counts the accepted ones. -/
  count_eq : n = Nat.count (Accepted stream) t
  /-- They are in their order. -/
  out_eq : ∀ j < n, out j = Fips203.candidate stream (Nat.nth (Accepted stream) j)

/-- What the loop does with a candidate. -/
def accept (d : ℕ) (out : Coeffs) (n : ℕ) : Coeffs × ℕ :=
  if d < q then (Function.update out n d, n + 1) else (out, n)

/-- A candidate below the modulus is put into the array. -/
theorem accept_of_lt {d : ℕ} (h : d < q) : accept d out n = (Function.update out n d, n + 1) :=
  if_pos h

theorem accept_of_not_lt {d : ℕ} (h : ¬ d < q) : accept d out n = (out, n) := if_neg h

/-- **One candidate more keeps the invariant**: accepted, it is put behind the others; rejected,
nothing changes and the count stays. -/
theorem Found.accept (h : Found stream t n out) :
    Found stream (t + 1) (accept (Fips203.candidate stream t) out n).2
      (accept (Fips203.candidate stream t) out n).1 := by
  by_cases ht : Accepted stream t
  · rw [accept_of_lt ht]
    refine ⟨by rw [Nat.count_succ, if_pos ht, h.count_eq], fun j hj ↦ ?_⟩
    dsimp only at hj ⊢
    by_cases hjn : j = n
    · subst hjn
      rw [Function.update_self, h.count_eq, Nat.nth_count ht]
    · rw [Function.update_of_ne hjn]
      exact h.out_eq j (Nat.lt_of_le_of_ne (Nat.lt_succ_iff.mp hj) hjn)
  · rw [accept_of_not_lt ht]
    exact ⟨by rw [Nat.count_succ, if_neg ht, h.count_eq, Nat.add_zero], h.out_eq⟩

theorem accept_count_le (d : ℕ) (out : Coeffs) (n : ℕ) : (accept d out n).2 ≤ n + 1 := by
  by_cases h : d < q
  · rw [accept_of_lt h]
  · rw [accept_of_not_lt h]
    exact Nat.le_succ n

/-- The reader after `T` rounds: its last 96 bytes start at `base`, of which `s` triples are used. -/
def Window (stream : ℕ → UInt8) (T pos : ℕ) (buf : List UInt8) (start : ℕ) : Prop :=
  ∃ base s, s ≤ 32 ∧ 3 * T = base + 3 * s ∧ start = 3 * s ∧ pos = base + 96 ∧
    buf = readStream stream base 96

/-- After the refill there are three bytes left. -/
theorem Window.refill (h : Window stream T pos buf start) :
    ∃ base s, s < 32 ∧ 3 * T = base + 3 * s ∧
      (if start = buf.length then (pos + 96, readStream stream pos 96, 0) else (pos, buf, start)) =
        (base + 96, readStream stream base 96, 3 * s) := by
  obtain ⟨base, s, hs, hT, rfl, rfl, rfl⟩ := h
  rw [length_readStream]
  by_cases hfull : 3 * s = 96
  · rw [if_pos hfull]
    exact ⟨base + 96, 0, by decide, by omega, rfl⟩
  · rw [if_neg hfull]
    exact ⟨base, s, by omega, hT, rfl⟩

/-- The even candidates are the low twelve bits of three bytes. -/
theorem candidate_even (stream : ℕ → UInt8) (T : ℕ) :
    Fips203.candidate stream (2 * T) =
      (stream (3 * T)).toNat + (((stream (3 * T + 1)).toNat &&& 0xf) <<< 8) := by
  rw [Fips203.candidate, if_pos (by omega), show 2 * T / 2 = T by omega, show 0xf = 2 ^ 4 - 1 by rfl,
    Nat.and_two_pow_sub_one_eq_mod, Nat.shiftLeft_eq]
  omega

theorem candidate_odd (stream : ℕ → UInt8) (T : ℕ) :
    Fips203.candidate stream (2 * T + 1) =
      ((stream (3 * T + 1)).toNat >>> 4) + ((stream (3 * T + 2)).toNat <<< 4) := by
  rw [Fips203.candidate, if_neg (by omega), show (2 * T + 1) / 2 = T by omega,
    Nat.shiftRight_eq_div_pow, Nat.shiftLeft_eq]
  omega

/-- One round of the loop, over the candidates. -/
theorem sampleLoop_succ (out : Coeffs) (h : Window stream T pos buf start) (hn : n < 256) (fuel : ℕ) :
    ∃ pos' buf' start', Window stream (T + 1) pos' buf' start' ∧
      sampleLoop stream (fuel + 1) pos buf start n out =
        let first := accept (Fips203.candidate stream (2 * T)) out n
        let second := accept (Fips203.candidate stream (2 * T + 1)) first.1 first.2
        if Fips203.candidate stream (2 * T) < q ∧ first.2 = 256 then some first.1
        else sampleLoop stream fuel pos' buf' start' second.2 second.1 := by
  obtain ⟨base, s, hs, hT, hrefill⟩ := h.refill
  refine ⟨base + 96, readStream stream base 96, 3 * s + 3,
    ⟨base, s + 1, by omega, by omega, by omega, rfl, rfl⟩, ?_⟩
  rw [candidate_even, candidate_odd, show 3 * T + 1 = base + (3 * s + 1) by omega,
    show 3 * T + 2 = base + (3 * s + 2) by omega, hT, ← byteAt_readStream stream base
    (show 3 * s < 96 by omega), ← byteAt_readStream stream base (show 3 * s + 1 < 96 by omega),
    ← byteAt_readStream stream base (show 3 * s + 2 < 96 by omega)]
  rw [sampleLoop, if_pos hn, hrefill]
  dsimp only
  generalize byteAt (readStream stream base 96) (3 * s) = b0
  generalize byteAt (readStream stream base 96) (3 * s + 1) = b1
  generalize byteAt (readStream stream base 96) (3 * s + 2) = b2
  rfl

/-- **The loop ends with the first 256 accepted candidates**, where the first `2 * T'` candidates
have as many. -/
theorem sampleLoop_spec {T' : ℕ} (hmany : 256 ≤ Nat.count (Accepted stream) (2 * T')) {fuel : ℕ}
    (hwindow : Window stream T pos buf start) (hfound : Found stream (2 * T) n out) (hn : n ≤ 256)
    (hT : T ≤ T') (hfuel : T' < T + fuel) :
    ∃ out', sampleLoop stream fuel pos buf start n out = some out' ∧
      ∀ j < 256, out' j = Fips203.candidate stream (Nat.nth (Accepted stream) j) := by
  -- the rounds go up to `T'`, and there the count is full
  induction fuel generalizing T pos buf start n out with
  | zero => omega
  | succ fuel ih =>
    by_cases hfull : n < 256
    · have hlt : T < T' := by
        by_contra hge
        obtain rfl : T = T' := by omega
        have := hfound.count_eq
        omega
      obtain ⟨pos', buf', start', hwindow', hloop⟩ := sampleLoop_succ out hwindow hfull fuel
      have hfirst := hfound.accept
      have hle := accept_count_le (Fips203.candidate stream (2 * T)) out n
      rw [hloop]
      dsimp only
      split
      · rename_i hlast
        exact ⟨_, rfl, hlast.2 ▸ hfirst.out_eq⟩
      · rename_i hmore
        have hlt₁ : (accept (Fips203.candidate stream (2 * T)) out n).2 < 256 := by
          by_cases h : Fips203.candidate stream (2 * T) < q
          · exact Nat.lt_of_le_of_ne (hle.trans hfull) fun heq ↦ hmore ⟨h, heq⟩
          · rw [accept_of_not_lt h]
            exact hfull
        exact ih hwindow' hfirst.accept ((accept_count_le _ _ _).trans hlt₁) hlt (by omega)
    · obtain rfl : n = 256 := by omega
      rw [sampleLoop, if_neg hfull]
      exact ⟨out, rfl, hfound.out_eq⟩

end SampleNtt

/-- **`sample_ntt` is `SampleNTT`**, where the stream has 256 coefficients: with enough fuel it
returns, and the array is the element of `T_q`. -/
theorem sampleNtt_spec (H : Sha3) (rho : Block UInt8 32) (i j : ℕ)
    (h : Fips203.Samples H (rho.val ++ [UInt8.ofNat i, UInt8.ofNat j])) :
    ∃ n, ∀ fuel ≥ n, ∃ a, sampleNtt H fuel rho i j = some a ∧
      Fips203.toTq (vals a) =
        Fips203.sampleNtt H (rho.val ++ [UInt8.ofNat i, UInt8.ofNat j]) := by
  obtain ⟨T', hmany⟩ := h
  have hmany' : 256 ≤ Nat.count
      (Accepted (H.shake128 (rho.val ++ [UInt8.ofNat i, UInt8.ofNat j]))) (2 * T') :=
    le_trans hmany (Nat.count_monotone _ (show T' ≤ 2 * T' by omega))
  refine ⟨T' + 1, fun fuel hfuel ↦ ?_⟩
  unfold sampleNtt Fips203.sampleNtt
  generalize H.shake128 (rho.val ++ [UInt8.ofNat i, UInt8.ofNat j]) = stream at hmany' ⊢
  have hwindow : Window stream 0 96 (readStream stream 0 96) 0 :=
    ⟨0, 0, by decide, rfl, rfl, rfl, rfl⟩
  have hfound : Found stream (2 * 0) 0 fun _ ↦ 0 :=
    ⟨by rw [Nat.mul_zero, Nat.count_zero], fun j hj ↦ absurd hj (Nat.not_lt_zero j)⟩
  obtain ⟨a, ha, hvals⟩ := sampleLoop_spec hmany' hwindow hfound (Nat.zero_le 256) (Nat.zero_le T')
    (show T' < 0 + fuel by omega)
  refine ⟨a, ha, Residue.pairs_congr fun j hj ↦ ?_⟩
  rw [vals, hvals j hj]
  rfl

end MlKem

end VoiceChatCrypto
