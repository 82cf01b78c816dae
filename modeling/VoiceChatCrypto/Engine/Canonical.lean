import VoiceChatCrypto.Braid.Agreement
import VoiceChatCrypto.Engine.Profiles

/-!
# One encoding for each value

The wire formats read over the code's own alphabet, where a letter is its byte value. What a decoder
accepts is then what the encoder writes, with two exceptions:

* the last byte of a prekey bundle is a flag of which only the value 1 is recognised, so that every
  other value reads as 0;
* a hybrid header may end before its tag, which reads as the tag of an absent Braid message.
-/

open Alphabet

namespace VoiceChatCrypto

variable {B : Type} [Alphabet B] {P : Primitives B}

/-! ### Sealed messages and packets -/

/-- **The wire codec is a bijection.** Sealed messages and initiation packets whose parts fit their
length fields survive the wire, and no other byte string decodes to the same value. -/
theorem wire_codec_bijective :
    (∀ s : SealedMessage UInt8, s.header.length < 2 ^ 32 → s.ciphertext.length < 2 ^ 32 →
      SealedMessage.decode s.encode = .ok s) ∧
    (∀ (data : List UInt8) (s : SealedMessage UInt8), SealedMessage.decode data = .ok s →
      s.encode = data) ∧
    (∀ p : InitiationPacket UInt8, p.kemCiphertext.length ≤ 65535 →
      p.firstMessage.encode.length < 2 ^ 32 → InitiationPacket.decode p.encode = .ok p) ∧
    ∀ (data : List UInt8) (p : InitiationPacket UInt8), InitiationPacket.decode data = .ok p →
      p.encode = data := by
  refine ⟨fun s hh hc ↦ SealedMessage.decode_encode hh hc, ?_, ?_, ?_⟩
  · exact fun data s h ↦ SealedMessage.encode_of_decode bytes_uint8 h
  · exact fun p hk hf ↦ InitiationPacket.decode_encode (by omega) hf
  · exact fun data p h ↦ InitiationPacket.encode_of_decode bytes_uint8 h

/-! ### Prekey bundles -/

/-- **A prekey bundle has one encoding exactly when its flag does.** A valid bundle survives the wire;
and a byte string that decodes is the encoding of what it decodes to if and only if its last byte is 0
or 1. -/
theorem bundle_encoding_iff (P : Primitives UInt8) :
    (∀ b : PublicPrekeyBundle UInt8, b.validate P = .ok () →
      PublicPrekeyBundle.decode P b.encode = .ok b) ∧
    ∀ (data : List UInt8) (b : PublicPrekeyBundle UInt8),
      PublicPrekeyBundle.decode P data = .ok b →
        (b.encode = data ↔ data.getLast? = some 0 ∨ data.getLast? = some 1) := by
  refine ⟨fun b h ↦ PublicPrekeyBundle.decode_encode h, fun data b h ↦ ?_⟩
  obtain ⟨flag, hlt, rfl, hone⟩ := PublicPrekeyBundle.encode_of_decode bytes_uint8 h
  have hinj : ∀ n, n < 256 → ((ofNat flag : UInt8) = ofNat n ↔ flag = n) := by
    intro n hn
    refine ⟨fun heq ↦ ?_, fun heq ↦ by rw [heq]⟩
    have hval := congrArg Alphabet.toNat heq
    rwa [toNat_ofNat, toNat_ofNat, Nat.mod_eq_of_lt hlt, Nat.mod_eq_of_lt hn] at hval
  nth_rewrite 1 [PublicPrekeyBundle.encode_eq b]
  rw [List.getLast?_concat, Option.some_inj, Option.some_inj, List.append_cancel_left_eq,
    List.cons.injEq, and_iff_left rfl, eq_comm, hone]
  show _ ↔ (ofNat flag : UInt8) = ofNat 0 ∨ (ofNat flag : UInt8) = ofNat 1
  rw [hinj 0 (by decide), hinj 1 (by decide)]
  by_cases h1 : flag = 1
  · simp [h1]
  · rw [decide_eq_false h1, hinj _ (by decide)]
    simp [h1]

namespace Plain

/-- A bundle that `primitives` validates. -/
def bundle : PublicPrekeyBundle UInt8 where
  identityKey := pad 32 [1]
  signedPrekeyId := 1
  signedPrekey := pad 32 [2]
  signedPrekeySig := pad 64 (digest ((pad 32 [1]).val ++ encodeEc (pad 32 [2]))).val
  oneTimeEc := none
  pqPrekeyId := 1
  pqPrekeyPublic := (pad 1184 [3]).val
  pqPrekeySig := pad 64 (digest ((pad 32 [1]).val ++ encodeKem (pad 1184 [3]))).val
  isPqOneTime := false

theorem validate_bundle : bundle.validate primitives = .ok () := by
  decide +kernel

end Plain

/-- **Two published forms of one bundle**: with 2 for its last byte, a bundle still decodes. -/
theorem bundle_flag_read_loosely :
    PublicPrekeyBundle.decode Plain.primitives (Plain.bundle.encode.dropLast ++ [2]) =
        .ok Plain.bundle ∧
      Plain.bundle.encode ≠ Plain.bundle.encode.dropLast ++ [2] := by
  refine ⟨PublicPrekeyBundle.decode_flag Plain.validate_bundle (show 2 < 256 by decide), ?_⟩
  rw [PublicPrekeyBundle.encode_eq, List.dropLast_concat, ne_eq, List.append_cancel_left_eq]
  decide

/-! ### Hybrid headers -/

namespace TripleRatchetState

/-- The states of a hybrid session: started on either side, then sent from, received on, and written
and read back, in any order. -/
inductive Live (P : Primitives B) : TripleRatchetState B → Prop
  | alice {dhs sk bobDhPublic : Block B 32} {s : TripleRatchetState B}
      (hpub : bobDhPublic ≠ Block.zero 32) (h : initAlice P dhs sk bobDhPublic = .ok s) : Live P s
  | bob {sk bobDhKeypair : Block B 32} {s : TripleRatchetState B}
      (h : initBob P sk bobDhKeypair = .ok s) : Live P s
  | sealed {s s' : TripleRatchetState B} {seed : Block B 64} {m : Block B 32} {pt ad : List B}
      {out : TripleHeader B × List B} (hs : Live P s) (h : s.encrypt P seed m pt ad = .ok (out, s')) :
      Live P s'
  | opened {s : TripleRatchetState B} (fresh : Block B 32) (header : TripleHeader B) (ct ad : List B)
      (hs : Live P s) (hdh : header.classical.dh ≠ Block.zero 32) :
      Live P (s.decrypt P fresh header ct ad).2
  | restored {s s' : TripleRatchetState B} {σ : Enumeration} (hs : Live P s)
      (h : deserialize defaultMaxSkip (s.serialize σ) = .ok s') : Live P s'

/-- Live states can be stored, and send whole chunks. -/
theorem Live.spec {s : TripleRatchetState B} (h : Live P s) : s.Storable ∧ s.braid.Whole := by
  induction h with
  | alice hpub h =>
    refine ⟨initAlice_storable hpub h, ?_⟩
    obtain ⟨⟨epoch, spqr⟩, -, hret⟩ := Except.bind_eq_ok.1 h
    cases hret
    exact fun enc henc ↦ by cases henc
  | bob h =>
    refine ⟨initBob_storable h, ?_⟩
    obtain ⟨⟨epoch, spqr⟩, -, hret⟩ := Except.bind_eq_ok.1 h
    cases hret
    exact fun enc henc ↦ by cases henc
  | @sealed s s' seed m pt ad out hs h ih =>
    refine ⟨encrypt_storable ih.1 h, ?_⟩
    obtain ⟨header, ct⟩ := out
    obtain ⟨-, -, -, -, -, -, -, hbraid, -⟩ := encrypt_eq_ok h
    rw [hbraid]
    exact (ih.2.send seed m).1
  | @opened s fresh header ct ad hs hdh ih =>
    -- a message that is refused leaves the state as it was
    cases htry : tryDecrypt P fresh header ct ad s with
    | error e =>
      have hsame : s.decrypt P fresh header ct ad = (.error e, s) := by rw [decrypt, htry]
      rw [hsame]
      exact ih
    | ok out =>
      have hnew : s.decrypt P fresh header ct ad = (.ok out.1, out.2) := by rw [decrypt, htry]
      rw [hnew]
      exact ⟨(tryDecrypt_storable ih.1 hdh htry).1, (decrypt_eq_ok hnew).1 ih.2⟩
  | @restored s s' σ hs h ih =>
    have hread := deserialize_serialize ih.1.fits σ
    rw [ih.1.classical.maxSkip, h] at hread
    cases hread
    exact ih

/-- The headers of a session survive the wire. -/
theorem Live.decode_encode {s s' : TripleRatchetState B} (hs : Live P s)
    (hpub : ∀ a, P.publicKey a ≠ Block.zero 32) {seed : Block B 64} {m : Block B 32}
    {pt ad ct : List B} {header : TripleHeader B}
    (h : s.encrypt P seed m pt ad = .ok ((header, ct), s')) :
    TripleHeader.decode header.encode = .ok header := by
  obtain ⟨ecHeader, ecMk, pqEpoch, pqN, pqMk, hsend, -, -, rfl, -⟩ := encrypt_eq_ok h
  obtain ⟨cks, dhs, ns, -, -, -, rfl, -, -⟩ := DoubleRatchetState.sendMessageKey_eq_ok hsend
  have hdata := (hs.spec.2.send (P := P) seed m).2
  have hwire : chunkWire = 34 := rfl
  refine TripleHeader.decode_encode rfl (hpub dhs) ?_ ?_
  · rcases hdata with ⟨-, hnone⟩ | hwhole
    · omega
    · exact hwhole.le
  · rcases hdata with ⟨hnone, -⟩ | hwhole
    · exact .inl (.inl hnone)
    · exact .inr hwhole

end TripleRatchetState

/-- **A hybrid header has one encoding**, but for the form that ends before its tag. The headers of a
session survive the wire, and a byte string that decodes is the encoding of what it decodes to, unless
it is 48 bytes long: then the encoding has the tag of an absent Braid message in addition. -/
theorem hybrid_header_encoding (P : Primitives UInt8)
    (hpub : ∀ a, P.publicKey a ≠ Block.zero 32) :
    (∀ s : TripleRatchetState UInt8, s.Live P → ∀ seed m pt ad header ct s',
      s.encrypt P seed m pt ad = .ok ((header, ct), s') →
        TripleHeader.decode header.encode = .ok header) ∧
    ∀ (data : List UInt8) (header : TripleHeader UInt8), TripleHeader.decode data = .ok header →
      (data.length ≠ 48 → header.encode = data) ∧ (data.length = 48 → header.encode = data ++ [0]) := by
  refine ⟨fun s hs seed m pt ad header ct s' h ↦ hs.decode_encode hpub h, fun data header h ↦ ?_⟩
  have hencode := TripleHeader.encode_of_decode bytes_uint8 h
  refine ⟨fun hne ↦ ?_, fun heq ↦ ?_⟩
  · rwa [if_neg hne] at hencode
  · rw [if_pos heq] at hencode
    exact hencode

namespace Plain

/-- `primitives`, with public keys that are never zero. -/
def curve : Primitives UInt8 := { primitives with publicKey := fun s ↦ pad 32 (64 :: s.val.tail) }

theorem curve_publicKey_ne_zero (a : Block UInt8 32) : curve.publicKey a ≠ Block.zero 32 := by
  intro h
  have hhead : some (64 : UInt8) = some 0 := congrArg (fun b : Block UInt8 32 ↦ b.val.head?) h
  exact absurd hhead (by decide)

/-- A hybrid header without its tag. -/
def untagged : List UInt8 := (pad 32 [1]).val ++ List.replicate 16 0

/-- What it decodes to. -/
def tagged : TripleHeader UInt8 := ⟨⟨pad 32 [1], 0, 0⟩, 0, 0, none⟩

/-- The form of 48 bytes is decoded, although nothing encodes to it. -/
theorem decode_untagged : TripleHeader.decode untagged = .ok tagged := by
  decide +kernel

end Plain

/-- The form without a tag, over primitives whose public keys are never zero. -/
theorem hybrid_header_encoding_untagged :
    (∀ a, Plain.curve.publicKey a ≠ Block.zero 32) ∧ Plain.tagged.encode = Plain.untagged ++ [0] :=
  ⟨Plain.curve_publicKey_ne_zero, ((hybrid_header_encoding Plain.curve
    Plain.curve_publicKey_ne_zero).2 Plain.untagged Plain.tagged Plain.decode_untagged).2 rfl⟩

/-- **A second form of a header**: the 48 bytes without a tag decode, and are not what is encoded. -/
theorem untagged_header_accepted :
    TripleHeader.decode Plain.untagged = .ok Plain.tagged ∧
      Plain.tagged.encode ≠ Plain.untagged := by
  refine ⟨Plain.decode_untagged, ?_⟩
  decide +kernel

end VoiceChatCrypto
