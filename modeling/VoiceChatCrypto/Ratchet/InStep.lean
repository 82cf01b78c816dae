import VoiceChatCrypto.Braid.Agreement
import VoiceChatCrypto.Ratchet.Bounded

/-!
# SPQR and Braid epochs stay in step

A Triple Ratchet counts epochs twice: Braid in `braid.epoch`, SPQR in the epochs of its two chains
and in `next_epoch`. Braid moves when it has a key to give, from one of two arms of `receive`; SPQR
moves when it is given one, before or after the key of the message that brought it. The two agree in
every state the hybrid commits.

What makes it so is that Braid's epoch moves exactly when a key comes out (`receive_epoch`), that
SPQR opens both chains at once (`At.advanceEpoch`), and that the trial copies are committed together
or not at all. No bound on the number of epochs is needed: SPQR's counter is checked, and a message
that would overflow it is rejected with everything it brought.
-/

open Alphabet

namespace VoiceChatCrypto

variable {B : Type} [Alphabet B] {P : Primitives B}

/-! ### Braid -/

namespace BraidScka

variable {s s' : BraidScka B}

theorem encaps1IfNeeded_epoch (m : Block B 32) (s : BraidScka B) :
    (encaps1IfNeeded P m s).epoch = s.epoch := by
  unfold encaps1IfNeeded
  split
  · rfl
  · rfl

/-- Sending never moves the epoch. -/
theorem send_epoch (seed : Block B 64) (m : Block B 32) (s : BraidScka B) :
    (send P seed m s).2.epoch = s.epoch := by
  rw [← encaps1IfNeeded_epoch (P := P) m s]
  unfold send
  dsimp only
  split
  all_goals rfl

/-- The epoch moves by one when a key comes out, and otherwise stays. A Braid state that outputs a
key has entered its next epoch with it. -/
def EpochAfter (s s' : BraidScka B) (out : Option (SckaOutput B)) : Prop :=
  (out = none ∧ s'.epoch = s.epoch) ∨
    ((∃ o, out = some o) ∧ s'.epoch.toNat = s.epoch.toNat + 1)

/-- **The epoch moves exactly when a key comes out.** The two arms that give one are the
decapsulating one, which adds one to its epoch, and the encapsulating ones, which take over the epoch
of the message after checking that it is the next. -/
theorem receive_epoch {msg : BraidMessage B} {receivingEpoch : ℕ} {out : Option (SckaOutput B)}
    (h : receive P msg s = .ok ((receivingEpoch, out), s')) : EpochAfter s s' out := by
  have hsame : ∀ {a : Agent B}, EpochAfter s { s with agent := a } none := .inl ⟨rfl, rfl⟩
  cases receives_of_receive h with
  | ct2Done _ _ _ _ hdecaps =>
    obtain ⟨hlt, hepoch, -⟩ := decapsulate_eq_ok hdecaps
    refine .inr ⟨⟨_, rfl⟩, ?_⟩
    rw [hepoch, UInt64.toNat_add]
    exact Nat.mod_eq_of_lt hlt
  | hdrDone _ _ _ _ hacc =>
    obtain ⟨ekSeed, hek, rfl⟩ := acceptHeader_eq_ok hacc
    exact hsame
  | sampled _ hct2 =>
    obtain ⟨ct2, mac, rfl⟩ := sampleCt2_eq_ok hct2
    exact hsame
  | complete hnext => exact .inr ⟨⟨_, rfl⟩, hnext⟩
  | _ => exact hsame

end BraidScka

/-! ### SPQR -/

namespace SpqrState

variable {s s' : SpqrState B} {e : ℕ}

/-- Both chains exist and stand in epoch `e`, which is the last that was opened. -/
def At (e : ℕ) (s : SpqrState B) : Prop :=
  ∃ cs cr, s.sending = some cs ∧ s.receiving = some cr ∧ cs.epoch.toNat = e ∧ cr.epoch.toNat = e ∧
    s.nextEpoch.toNat = e + 1

/-- A new epoch opens both chains at once. -/
theorem At.advanceEpoch (hs : s.At e) {scka : Block B 32} {epoch : UInt32}
    (h : s.advanceEpoch P scka = .ok (epoch, s')) : s'.At (e + 1) := by
  obtain ⟨-, -, -, -, -, -, hnext⟩ := hs
  obtain ⟨-, hnext', ⟨c, hsend, hrecv, hepoch, -⟩, -, -⟩ := advanceEpoch_spec h
  refine ⟨c, c, hsend, hrecv, ?_, ?_, ?_⟩
  · rw [hepoch, hnext]
  · rw [hepoch, hnext]
  · rw [hnext', hnext]

/-- Deriving a key stays in the epoch. -/
theorem At.receiveKey (hs : s.At e) {epoch n : UInt32} {msgKey : Block B 32}
    (h : s.receiveKey P epoch n = .ok (msgKey, s')) : s'.At e := by
  obtain ⟨cs, cr, hsend, hrecv, hcs, hcr, hnext⟩ := hs
  obtain ⟨hcount, hrest, -⟩ := receiveKey_spec h
  have hsend' : s'.sending = some cs := by rw [hrest, hsend]
  have hnext' : s'.nextEpoch.toNat = e + 1 := by rw [hrest, hnext]
  rcases hcount with ⟨-, hsame⟩ | ⟨c, c', hc, hc', hepoch, hepoch', -, -⟩
  · exact ⟨cs, cr, hsend', hsame.trans hrecv, hcs, hcr, hnext'⟩
  · rw [hrecv] at hc
    cases hc
    exact ⟨cs, c', hsend', hc', hcs, by rw [hepoch', ← hepoch, hcr], hnext'⟩

/-- The first epoch is opened by the handshake. -/
theorem at_of_init {skPq scka : Block B 32} {maxSkipEpochs epoch : UInt32}
    (h : (init skPq maxSkipEpochs).advanceEpoch P scka = .ok (epoch, s)) : s.At 1 := by
  obtain ⟨-, hnext, ⟨c, hsend, hrecv, hepoch, -⟩, -, -⟩ := advanceEpoch_spec h
  exact ⟨c, c, hsend, hrecv, by rw [hepoch]; rfl, by rw [hepoch]; rfl, hnext⟩

end SpqrState

/-! ### The hybrid -/

namespace TripleRatchetState

variable {s s' : TripleRatchetState B}

/-- The SPQR sending and receiving chains exist, both stand in Braid's epoch, and the next epoch of
SPQR is the one after it. -/
def InStep (s : TripleRatchetState B) : Prop :=
  ∃ cs cr, s.spqr.sending = some cs ∧ s.spqr.receiving = some cr ∧
    cs.epoch.toNat = s.braid.epoch.toNat ∧ cr.epoch.toNat = s.braid.epoch.toNat ∧
    s.spqr.nextEpoch.toNat = s.braid.epoch.toNat + 1

/-- Being in step says where the post-quantum ratchet is. -/
theorem inStep_iff : s.InStep ↔ s.spqr.At s.braid.epoch.toNat := Iff.rfl

/-- A new state is in step: the first epoch begins at once. -/
theorem inStep_of_start {limits : Set UInt32} (hs : (system P limits).start s) : s.InStep := by
  rcases hs with ⟨dhs, sk, bobDhPublic, h⟩ | ⟨sk, bobDhKeypair, h⟩
  · obtain ⟨⟨epoch, spqr⟩, hadv, hret⟩ := Except.bind_eq_ok.1 h
    cases hret
    exact SpqrState.at_of_init hadv
  · obtain ⟨⟨epoch, spqr⟩, hadv, hret⟩ := Except.bind_eq_ok.1 h
    cases hret
    exact SpqrState.at_of_init hadv

/-- Sealing keeps a state in step, also when it fails halfway. -/
theorem afterEncrypt_inStep (hs : s.InStep) (seed : Block B 64) (m : Block B 32) :
    (afterEncrypt P seed m s).InStep := by
  obtain ⟨cs, cr, hsend, hrecv, hcs, hcr, hnext⟩ := hs
  obtain ⟨sending, hspqr, hepoch⟩ := afterEncrypt_spqr P seed m s
  have hbraid : (afterEncrypt P seed m s).braid.epoch = s.braid.epoch :=
    BraidScka.send_epoch seed m s.braid
  rw [hsend] at hepoch
  obtain ⟨cs', rfl, hcs'⟩ := Option.map_eq_some_iff.1 hepoch
  refine ⟨cs', cr, ?_, ?_, ?_, ?_, ?_⟩
  · rw [hspqr]
  · rw [hspqr, hrecv]
  · rw [hbraid, hcs', hcs]
  · rw [hbraid, hcr]
  · rw [hbraid, hspqr, hnext]

/-- **A committed message keeps the two in step.** Whether SPQR moves before the key of the message
or after it, it moves once for each key of Braid. -/
theorem tryDecrypt_inStep (hs : s.InStep) {fresh : Block B 32} {header : TripleHeader B}
    {ct ad pt : List B} (h : tryDecrypt P fresh header ct ad s = .ok (pt, s')) : s'.InStep := by
  rw [inStep_iff] at hs ⊢
  obtain ⟨spqr, pending, ecMk, pqMk, spqr', hscka, -, hpq, hfin⟩ := tryDecrypt_eq_ok h
  rcases receiveScka_eq_ok hscka with ⟨hbraid, rfl, rfl⟩ | ⟨msg, epoch, out, hrecv, hout⟩
  · -- no Braid message
    rcases hfin with ⟨-, rfl⟩ | ⟨k, e, hk, -⟩
    · rw [hbraid]
      exact hs.receiveKey hpq
    · cases hk
  rcases BraidScka.receive_epoch hrecv with ⟨rfl, hepoch⟩ | ⟨⟨o, rfl⟩, hepoch⟩
  · -- a Braid message without a key
    rcases hout with ⟨-, rfl, rfl⟩ | ⟨o, ho, -⟩
    · rcases hfin with ⟨-, rfl⟩ | ⟨k, e, hk, -⟩
      · rw [hepoch]
        exact hs.receiveKey hpq
      · cases hk
    · cases ho
  · -- a Braid message with a key
    rw [hepoch]
    rcases hout with ⟨hnone, -, -⟩ | ⟨o', -, ⟨-, rfl, e, hadv⟩ | ⟨-, rfl, rfl⟩⟩
    · cases hnone
    · rcases hfin with ⟨-, rfl⟩ | ⟨k, e', hk, -⟩
      · exact (hs.advanceEpoch hadv).receiveKey hpq
      · cases hk
    · rcases hfin with ⟨hnone, -⟩ | ⟨k, e, hk, hadv⟩
      · cases hnone
      · exact (hs.receiveKey hpq).advanceEpoch hadv

/-- **SPQR and Braid epochs stay in step**, in every state a Triple Ratchet can be driven to: by
messages sent, by anything received, accepted or not, and by writing the state out and reading it
back under any limit. -/
theorem inStep_of_reachable (hs : (system P Set.univ).Reachable s) : s.InStep := by
  refine hs.invariant (fun s ↦ inStep_of_start) ?_
  rintro s t hreach hs (⟨seed, m, rfl⟩ | ⟨fresh, header, ct, ad, rfl⟩ | ⟨σ, maxSkip, -, hload⟩)
  · exact afterEncrypt_inStep hs seed m
  · rcases decrypt_snd P fresh header ct ad s with heq | ⟨pt, htry⟩
    · rwa [heq]
    · exact tryDecrypt_inStep hs htry
  · have hcap : 2 ^ 32 - 1 < 2 ^ 32 := by norm_num
    have hw := within_of_reachable hcap (Nat.le_pred_of_lt defaultMaxSkip.toNat_lt)
      (fun m _ ↦ Nat.le_pred_of_lt m.toNat_lt) hreach
    rw [eq_of_deserialize hcap hw hload]
    exact hs

/-- The first message of the initiator is accepted. -/
theorem inStep_accepted :
    ∃ a b out a',
      initAlice Plain.primitives (Plain.pad 32 [1]) (Block.zero 32) (Plain.pad 32 [2]) = .ok a ∧
      initBob Plain.primitives (Block.zero 32) (Plain.pad 32 [2]) = .ok b ∧
      encrypt Plain.primitives (Block.zero 64) (Block.zero 32) a [] [] = .ok (out, a') ∧
      (decrypt Plain.primitives (Plain.pad 32 [3]) out.1 out.2 [] b).1 = .ok [] ∧
      (decrypt Plain.primitives (Plain.pad 32 [3]) out.1 out.2 [] b).2.InStep := by
  have hrun : (do
      let a ← initAlice Plain.primitives (Plain.pad 32 [1]) (Block.zero 32) (Plain.pad 32 [2])
      let b ← initBob Plain.primitives (Block.zero 32) (Plain.pad 32 [2])
      let (out, _) ← encrypt Plain.primitives (Block.zero 64) (Block.zero 32) a [] []
      (decrypt Plain.primitives (Plain.pad 32 [3]) out.1 out.2 [] b).1) = .ok [] := by
    decide +kernel
  obtain ⟨a, ha, hrun⟩ := Except.bind_eq_ok.1 hrun
  obtain ⟨b, hb, hrun⟩ := Except.bind_eq_ok.1 hrun
  obtain ⟨⟨out, a'⟩, hout, hdec⟩ := Except.bind_eq_ok.1 hrun
  have hstart : (system Plain.primitives Set.univ).Reachable b := .of_start (.inr ⟨_, _, hb⟩)
  exact ⟨a, b, out, a', ha, hb, hout, hdec,
    inStep_of_reachable (hstart.of_step (.inr (.inl ⟨_, _, _, _, rfl⟩)))⟩

end TripleRatchetState

end VoiceChatCrypto
