import VoiceChatCrypto.Ratchet.HeaderChains

/-!
# Persistence of the Double Ratchets

`serialize` and `deserialize` of `DoubleRatchetState` and `HeaderEncryptState`. The two formats agree
up to the header keys, the readers do not: the plain one takes any tag but 1 for an absent field and
ignores what follows its last entry, the other one is strict. Neither reads the stored skip limit
back; both take it from the caller.

A state is **storable** when its format loses nothing: a usable peer key, the limit the engine passes
back in, and no more skipped keys than that limit. Every operation keeps this, so it is proved here
once, together with what receiving may do to the sending half — nothing, or start a new chain.
-/

open Alphabet

namespace VoiceChatCrypto

variable {B : Type} [Alphabet B]

/-! ### Skipped keys -/

/-- One skipped message key. -/
def writeSkipped (e : (Block B 32 × UInt32) × Block B 32) : List B :=
  e.1.1.val ++ le 4 e.1.2.toNat ++ e.2.val

/-- Reads one skipped message key. -/
def readSkipped (data : List B) :
    Except PrimitiveError (((Block B 32 × UInt32) × Block B 32) × List B) := do
  let (pk, data) ← Cursor.takeBlock PrimitiveError.invalidLength 32 data
  let (n, data) ← Cursor.takeLe PrimitiveError.invalidLength 4 data
  let (msgKey, data) ← Cursor.takeBlock PrimitiveError.invalidLength 32 data
  return (((pk, UInt32.ofNat n), msgKey), data)

theorem readSkipped_reads (e : (Block B 32 × UInt32) × Block B 32) :
    Cursor.Reads readSkipped (writeSkipped e) e := by
  intro rest
  simp only [readSkipped, writeSkipped, List.append_assoc, Cursor.takeLe_append,
    Cursor.takeBlock_append, bind, Except.bind, pure, Except.pure, ofNat_toNat_mod]

/-- The skipped keys with their number in front, in iteration order. -/
def putSkipped (σ : Enumeration) (m : Dict (Block B 32 × UInt32) (Block B 32)) : List B :=
  le 4 m.size ++ (σ.list m).flatMap writeSkipped

/-- The reader of `putSkipped`. -/
def takeSkipped (data : List B) :
    Except PrimitiveError (Dict (Block B 32 × UInt32) (Block B 32) × List B) := do
  let (count, data) ← Cursor.takeLe PrimitiveError.invalidLength 4 data
  let (entries, data) ← Cursor.takeMany readSkipped count data
  return (Dict.ofPairs entries, data)

/-- A store of skipped keys is read back, whatever the order of writing. -/
theorem takeSkipped_append (σ : Enumeration) {m : Dict (Block B 32 × UInt32) (Block B 32)}
    (h : m.size < 2 ^ 32) (rest : List B) :
    takeSkipped (putSkipped σ m ++ rest) = .ok (m, rest) := by
  have hsize : m.size % 256 ^ 4 = m.size := Nat.mod_eq_of_lt (by omega)
  have hmany := Cursor.takeMany_append (σ.length_list m) (fun e _ ↦ readSkipped_reads e) rest
  simp only [takeSkipped, putSkipped, List.append_assoc, Cursor.takeLe_append, hsize, hmany, bind,
    Except.bind, pure, Except.pure, Enumeration.ofPairs_list]

theorem readSkipped_local : Cursor.Local (readSkipped (B := B)) := by
  intro data e rest h more
  obtain ⟨⟨pk, d₁⟩, h₁, h⟩ := Except.bind_eq_ok.1 h
  obtain ⟨⟨n, d₂⟩, h₂, h⟩ := Except.bind_eq_ok.1 h
  obtain ⟨⟨msgKey, d₃⟩, h₃, h⟩ := Except.bind_eq_ok.1 h
  cases h
  refine Except.bind_eq_ok.2 ⟨_, Cursor.takeBlock_local _ _ _ _ _ h₁ more, ?_⟩
  refine Except.bind_eq_ok.2 ⟨_, Cursor.takeLe_local _ _ _ _ _ h₂ more, ?_⟩
  exact Except.bind_eq_ok.2 ⟨_, Cursor.takeBlock_local _ _ _ _ _ h₃ more, rfl⟩

theorem takeSkipped_local : Cursor.Local (takeSkipped (B := B)) := by
  intro data m rest h more
  obtain ⟨⟨count, d₁⟩, h₁, h⟩ := Except.bind_eq_ok.1 h
  obtain ⟨⟨entries, d₂⟩, h₂, h⟩ := Except.bind_eq_ok.1 h
  cases h
  refine Except.bind_eq_ok.2 ⟨_, Cursor.takeLe_local _ _ _ _ _ h₁ more, ?_⟩
  exact Except.bind_eq_ok.2 ⟨_, Cursor.takeMany_local readSkipped_local _ _ _ _ h₂ more, rfl⟩

theorem length_putSkipped (σ : Enumeration) (m : Dict (Block B 32 × UInt32) (Block B 32)) :
    (putSkipped σ m).length = 4 + 68 * m.size := by
  have hw : ∀ e : (Block B 32 × UInt32) × Block B 32, (writeSkipped e).length = 68 := by
    intro e
    simp [writeSkipped]
  rw [putSkipped, List.length_append, length_le, Cursor.length_flatMap_eq hw, σ.length_list]

/-- An optional public key, checked as `X25519Public::from_bytes` does. -/
def checkPublic : Option (Block B 32) → Except PrimitiveError (Option (Block B 32))
  | none => .ok none
  | some b => do
    let b ← publicFromBytes b
    return some b

theorem checkPublic_eq_ok {p : Option (Block B 32)} (h : ∀ b, p = some b → b ≠ Block.zero 32) :
    checkPublic p = .ok p := by
  cases p with
  | none => rfl
  | some b =>
    rw [checkPublic, publicFromBytes_of_ne (h b rfl)]
    rfl

/-- A checked key is the key. -/
theorem eq_of_checkPublic {p q : Option (Block B 32)} (h : checkPublic p = .ok q) : q = p := by
  cases p with
  | none =>
    cases h
    rfl
  | some b =>
    obtain ⟨b', hb, hret⟩ := Except.bind_eq_ok.1 h
    cases hret
    rw [(publicFromBytes_eq_ok.1 hb).2]

/-! ### The plain ratchet -/

namespace DoubleRatchetState

/-- `serialize`. -/
def serialize (σ : Enumeration) (s : DoubleRatchetState B) : List B :=
  Cursor.putOption s.dhs ++ Cursor.putOption s.dhr ++ s.rk.val ++ Cursor.putOption s.cks ++
    Cursor.putOption s.ckr ++ le 4 s.ns.toNat ++ le 4 s.nr.toNat ++ le 4 s.pn.toNat ++
    le 4 s.maxSkip.toNat ++ putSkipped σ s.mkskipped

/-- `deserialize`. The stored limit is skipped, and so is anything behind the last entry. -/
def deserialize (maxSkip : UInt32) (data : List B) :
    Except PrimitiveError (DoubleRatchetState B) := do
  let (dhs, data) ← Cursor.takeOptionLoose PrimitiveError.invalidLength 32 data
  let (dhr, data) ← Cursor.takeOptionLoose PrimitiveError.invalidLength 32 data
  let dhr ← checkPublic dhr
  let (rk, data) ← Cursor.takeBlock PrimitiveError.invalidLength 32 data
  let (cks, data) ← Cursor.takeOptionLoose PrimitiveError.invalidLength 32 data
  let (ckr, data) ← Cursor.takeOptionLoose PrimitiveError.invalidLength 32 data
  let (ns, data) ← Cursor.takeLe PrimitiveError.invalidLength 4 data
  let (nr, data) ← Cursor.takeLe PrimitiveError.invalidLength 4 data
  let (pn, data) ← Cursor.takeLe PrimitiveError.invalidLength 4 data
  let (_, data) ← Cursor.takeLe PrimitiveError.invalidLength 4 data
  let (mkskipped, _) ← takeSkipped data
  return { dhs, dhr, rk, cks, ckr, ns := UInt32.ofNat ns, nr := UInt32.ofNat nr
           pn := UInt32.ofNat pn, mkskipped, maxSkip }

/-- States whose format loses nothing but the limit: a usable peer key, and a number of skipped keys
that fits into four letters. -/
structure Fits (s : DoubleRatchetState B) : Prop where
  /-- The peer's key is usable, or not there. -/
  dhr : ∀ b, s.dhr = some b → b ≠ Block.zero 32
  /-- The number of skipped keys fits into its field. -/
  skipped : s.mkskipped.size < 2 ^ 32

/-- **Storable states**: nothing is lost in the format, whose reader assumes the default limit. -/
structure Storable (s : DoubleRatchetState B) : Prop where
  /-- The peer's key is usable, or not there. -/
  dhr : ∀ b, s.dhr = some b → b ≠ Block.zero 32
  /-- The limit is the one the reader will assume. -/
  maxSkip : s.maxSkip = defaultMaxSkip
  /-- There are no more skipped keys than the limit allows. -/
  skipped : s.mkskipped.size ≤ 1000

theorem Storable.fits {s : DoubleRatchetState B} (hs : s.Storable) : s.Fits where
  dhr := hs.dhr
  skipped := by have := hs.skipped; omega

/-- Whatever lies behind a serialized state is ignored. -/
theorem deserialize_append {s : DoubleRatchetState B} (hs : s.Fits) (σ : Enumeration)
    (rest : List B) : deserialize s.maxSkip (serialize σ s ++ rest) = .ok s := by
  have hskipped := takeSkipped_append σ hs.skipped rest
  simp only [deserialize, serialize, List.append_assoc, Cursor.takeOptionLoose_append,
    Cursor.takeBlock_append, Cursor.takeLe_append, checkPublic_eq_ok hs.dhr, hskipped, bind,
    Except.bind, pure, Except.pure, ofNat_toNat_mod]

/-- **The ratchet survives persistence.** -/
theorem deserialize_serialize {s : DoubleRatchetState B} (hs : s.Fits) (σ : Enumeration) :
    deserialize s.maxSkip (serialize σ s) = .ok s := by
  have h := deserialize_append hs σ []
  rwa [List.append_nil] at h

/-- A skipped key takes 68 letters. -/
theorem length_serialize_le_size (s : DoubleRatchetState B) (σ : Enumeration) :
    (serialize σ s).length ≤ 2000 + 68 * s.mkskipped.size := by
  have h1 := Cursor.length_putOption_le s.dhs
  have h2 := Cursor.length_putOption_le s.dhr
  have h3 := Cursor.length_putOption_le s.cks
  have h4 := Cursor.length_putOption_le s.ckr
  simp only [serialize, List.length_append, length_le, Block.length_val, length_putSkipped]
  omega

/-- A storable state is written in at most 70000 letters. -/
theorem length_serialize_le {s : DoubleRatchetState B} (hs : s.Storable) (σ : Enumeration) :
    (serialize σ s).length ≤ 70000 := by
  have hlen := length_serialize_le_size s σ
  have hsize := hs.skipped
  omega

variable {P : Primitives B} {s s' : DoubleRatchetState B}

theorem initAlice_storable (P : Primitives B) (dhs sk : Block B 32) {bobPub : Block B 32}
    (h : bobPub ≠ Block.zero 32) : (initAlice P dhs sk bobPub defaultMaxSkip).Storable where
  dhr b hb := by
    cases hb
    exact h
  maxSkip := rfl
  skipped := by simp [initAlice]

theorem initBob_storable (sk bobDh : Block B 32) :
    (initBob sk bobDh defaultMaxSkip : DoubleRatchetState B).Storable where
  dhr b hb := by cases hb
  maxSkip := rfl
  skipped := by simp [initBob]

theorem sendMessageKey_storable (hs : s.Storable) {r : Header B × Block B 32}
    (h : sendMessageKey P s = .ok (r, s')) : s'.Storable := by
  obtain ⟨header, msgKey⟩ := r
  obtain ⟨cks, dhs, ns, -, -, -, -, -, rfl⟩ := sendMessageKey_eq_ok h
  exact ⟨hs.dhr, hs.maxSkip, hs.skipped⟩

/-- What receiving may do to the sending half: nothing, or open a new chain on the drawn secret. -/
def SendingAfter (fresh : Block B 32) (s s' : DoubleRatchetState B) : Prop :=
  (s'.dhs = s.dhs ∧ s'.ns = s.ns ∧ s'.cks = s.cks) ∨
    (s'.dhs = some fresh ∧ s'.ns = 0 ∧ s'.cks.isSome)

/-- Putting keys aside keeps a state storable, and touches nothing of the sending side. -/
theorem skipLoop_storable :
    ∀ {fuel : ℕ} {s : DoubleRatchetState B} {ckr ckr' : Block B 32}, s.Storable →
      skipLoop P fuel s ckr = .ok (s', ckr') →
      s'.Storable ∧ s'.dhs = s.dhs ∧ s'.ns = s.ns ∧ s'.cks = s.cks
  | 0, s, ckr, ckr', hs, h => by
    cases h
    exact ⟨hs, rfl, rfl, rfl⟩
  | fuel + 1, s, ckr, ckr', hs, h => by
    unfold skipLoop at h
    split at h
    · cases h
    · rename_i hlimit
      split at h
      · cases h
      · obtain ⟨nr, -, hrec⟩ := Except.bind_eq_ok.1 h
        -- the loop has room: the size is below the limit, and an insertion adds at most one
        have hlt : s.mkskipped.size < 1000 := by
          have hle := hs.skipped
          rw [hs.maxSkip, ge_iff_le, UInt32.le_iff_toNat_le, toNat_ofNat_u32 (by omega)] at hlimit
          exact not_le.1 hlimit
        rename_i dhr _
        have hins := Dict.size_insert_le s.mkskipped (dhr, s.nr) (kdfCk P ckr).2
        exact skipLoop_storable
          (s := { s with mkskipped := s.mkskipped.insert (dhr, s.nr) (kdfCk P ckr).2, nr })
          ⟨hs.dhr, hs.maxSkip, by dsimp only; omega⟩ hrec

theorem skipMessageKeys_storable (hs : s.Storable) {upTo : UInt32}
    (h : skipMessageKeys P s upTo = .ok s') :
    s'.Storable ∧ s'.dhs = s.dhs ∧ s'.ns = s.ns ∧ s'.cks = s.cks := by
  unfold skipMessageKeys at h
  split at h
  · cases h
  split at h
  · cases h
  split at h
  · cases h
    exact ⟨hs, rfl, rfl, rfl⟩
  · obtain ⟨⟨t, ckr⟩, hloop, hret⟩ := Except.bind_eq_ok.1 h
    obtain ⟨ht, hkept⟩ := skipLoop_storable hs hloop
    cases hret
    exact ⟨⟨ht.dhr, ht.maxSkip, ht.skipped⟩, hkept⟩

/-- A Diffie-Hellman step towards a usable key keeps a state storable, and starts a new sending
chain. -/
theorem dhRatchet_storable (hs : s.Storable) {fresh : Block B 32} {header : Header B}
    (hh : header.dh ≠ Block.zero 32) (h : dhRatchet P fresh header s = .ok s') :
    s'.Storable ∧ s'.dhs = some fresh ∧ s'.ns = 0 ∧ s'.cks.isSome := by
  unfold dhRatchet at h
  split at h
  · cases h
    refine ⟨⟨?_, hs.maxSkip, hs.skipped⟩, rfl, rfl, rfl⟩
    intro b hb
    cases hb
    exact hh
  · cases h

/-- A step of the receiving chain keeps a state storable. -/
theorem advanceReceiving_storable (hs : s.Storable) {msgKey : Block B 32}
    (h : advanceReceiving P s = .ok (msgKey, s')) :
    s'.Storable ∧ s'.dhs = s.dhs ∧ s'.ns = s.ns ∧ s'.cks = s.cks := by
  unfold advanceReceiving at h
  split at h
  · obtain ⟨nr, -, hret⟩ := Except.bind_eq_ok.1 h
    cases hret
    exact ⟨⟨hs.dhr, hs.maxSkip, hs.skipped⟩, rfl, rfl, rfl⟩
  · cases h

/-- **Receiving keeps a state storable**, and touches the sending half only to open a new chain. -/
theorem ratchetReceiveKey_storable (hs : s.Storable) {fresh msgKey : Block B 32} {header : Header B}
    (hh : header.dh ≠ Block.zero 32)
    (h : ratchetReceiveKey P fresh header s = .ok (msgKey, s')) :
    s'.Storable ∧ SendingAfter fresh s s' := by
  rcases ratchetReceiveKey_cases P fresh header s with ⟨mk', -, heq⟩ | ⟨-, -, heq⟩ | ⟨-, -, heq⟩
  · rw [heq] at h
    cases h
    have hle := Dict.size_erase_le s.mkskipped (header.dh, header.n)
    exact ⟨⟨hs.dhr, hs.maxSkip, hle.trans hs.skipped⟩, .inl ⟨rfl, rfl, rfl⟩⟩
  · rw [heq] at h
    obtain ⟨t, hskip, hadv⟩ := Except.bind_eq_ok.1 h
    obtain ⟨ht, h1, h2, h3⟩ := skipMessageKeys_storable hs hskip
    obtain ⟨hs', h1', h2', h3'⟩ := advanceReceiving_storable ht hadv
    exact ⟨hs', .inl ⟨h1'.trans h1, h2'.trans h2, h3'.trans h3⟩⟩
  · rw [heq] at h
    obtain ⟨t, hskip, h⟩ := Except.bind_eq_ok.1 h
    obtain ⟨u, hdh, h⟩ := Except.bind_eq_ok.1 h
    obtain ⟨v, hskip', hadv⟩ := Except.bind_eq_ok.1 h
    obtain ⟨ht, -⟩ := skipMessageKeys_storable hs hskip
    obtain ⟨hu, h1, h2, h3⟩ := dhRatchet_storable ht hh hdh
    obtain ⟨hv, k1, k2, k3⟩ := skipMessageKeys_storable hu hskip'
    obtain ⟨hs', l1, l2, l3⟩ := advanceReceiving_storable hv hadv
    refine ⟨hs', .inr ⟨l1.trans (k1.trans h1), l2.trans (k2.trans h2), ?_⟩⟩
    rw [l3, k3]
    exact h3

end DoubleRatchetState

/-! ### The header-encrypting ratchet -/

/-- A decoded header has a usable ratchet key. -/
theorem Header.dh_ne_zero_of_decode {data : List B} {h : Header B} (hd : Header.decode data = .ok h) :
    h.dh ≠ Block.zero 32 := by
  unfold Header.decode at hd
  split at hd
  · cases hd
  obtain ⟨-, -, hd⟩ := Except.bind_eq_ok.1 hd
  obtain ⟨⟨pk, rest⟩, -, hd⟩ := Except.bind_eq_ok.1 hd
  obtain ⟨dh, hpk, hd⟩ := Except.bind_eq_ok.1 hd
  obtain ⟨⟨pn, rest'⟩, -, hd⟩ := Except.bind_eq_ok.1 hd
  obtain ⟨⟨n, rest''⟩, -, hd⟩ := Except.bind_eq_ok.1 hd
  cases hd
  obtain ⟨hne, rfl⟩ := publicFromBytes_eq_ok.1 hpk
  exact hne

namespace HeaderEncryptState

/-- `serialize`. -/
def serialize (σ : Enumeration) (s : HeaderEncryptState B) : List B :=
  Cursor.putOption s.dhs ++ Cursor.putOption s.dhr ++ s.rk.val ++ Cursor.putOption s.cks ++
    Cursor.putOption s.ckr ++ Cursor.putOption s.hks ++ Cursor.putOption s.hkr ++
    Cursor.putOption s.nhks ++ Cursor.putOption s.nhkr ++ le 4 s.ns.toNat ++ le 4 s.nr.toNat ++
    le 4 s.pn.toNat ++ le 4 s.maxSkip.toNat ++ putSkipped σ s.mkskipped

/-- `deserialize`. -/
def deserialize (maxSkip : UInt32) (data : List B) :
    Except PrimitiveError (HeaderEncryptState B) := do
  let (dhs, data) ← Cursor.takeOption PrimitiveError.invalidLength 32 data
  let (dhr, data) ← Cursor.takeOption PrimitiveError.invalidLength 32 data
  let dhr ← checkPublic dhr
  let (rk, data) ← Cursor.takeBlock PrimitiveError.invalidLength 32 data
  let (cks, data) ← Cursor.takeOption PrimitiveError.invalidLength 32 data
  let (ckr, data) ← Cursor.takeOption PrimitiveError.invalidLength 32 data
  let (hks, data) ← Cursor.takeOption PrimitiveError.invalidLength 32 data
  let (hkr, data) ← Cursor.takeOption PrimitiveError.invalidLength 32 data
  let (nhks, data) ← Cursor.takeOption PrimitiveError.invalidLength 32 data
  let (nhkr, data) ← Cursor.takeOption PrimitiveError.invalidLength 32 data
  let (ns, data) ← Cursor.takeLe PrimitiveError.invalidLength 4 data
  let (nr, data) ← Cursor.takeLe PrimitiveError.invalidLength 4 data
  let (pn, data) ← Cursor.takeLe PrimitiveError.invalidLength 4 data
  let (_, data) ← Cursor.takeLe PrimitiveError.invalidLength 4 data
  let (mkskipped, data) ← takeSkipped data
  Cursor.finish PrimitiveError.invalidLength data
    { dhs, dhr, rk, cks, ckr, hks, hkr, nhks, nhkr, ns := UInt32.ofNat ns, nr := UInt32.ofNat nr
      pn := UInt32.ofNat pn, mkskipped, maxSkip }

/-- States whose format loses nothing but the limit: a usable peer key, and a number of skipped keys
that fits into four letters. -/
structure Fits (s : HeaderEncryptState B) : Prop where
  /-- The peer's key is usable, or not there. -/
  dhr : ∀ b, s.dhr = some b → b ≠ Block.zero 32
  /-- The number of skipped keys fits into its field. -/
  skipped : s.mkskipped.size < 2 ^ 32

/-- **Storable states**: nothing is lost in the format, whose reader assumes the default limit. -/
structure Storable (s : HeaderEncryptState B) : Prop where
  /-- The peer's key is usable, or not there. -/
  dhr : ∀ b, s.dhr = some b → b ≠ Block.zero 32
  /-- The limit is the one the reader will assume. -/
  maxSkip : s.maxSkip = defaultMaxSkip
  /-- There are no more skipped keys than the limit allows. -/
  skipped : s.mkskipped.size ≤ 1000

theorem Storable.fits {s : HeaderEncryptState B} (hs : s.Storable) : s.Fits where
  dhr := hs.dhr
  skipped := by have := hs.skipped; omega

/-- **The ratchet survives persistence.** -/
theorem deserialize_serialize {s : HeaderEncryptState B} (hs : s.Fits) (σ : Enumeration) :
    deserialize s.maxSkip (serialize σ s) = .ok s := by
  have hskipped := takeSkipped_append σ hs.skipped []
  rw [List.append_nil] at hskipped
  simp only [deserialize, serialize, List.append_assoc, Cursor.takeOption_append,
    Cursor.takeBlock_append, Cursor.takeLe_append, checkPublic_eq_ok hs.dhr, hskipped, bind,
    Except.bind, ofNat_toNat_mod, Cursor.finish_nil]

/-- A storable state is written in at most 70000 letters. -/
theorem length_serialize_le {s : HeaderEncryptState B} (hs : s.Storable) (σ : Enumeration) :
    (serialize σ s).length ≤ 70000 := by
  have h1 := Cursor.length_putOption_le s.dhs
  have h2 := Cursor.length_putOption_le s.dhr
  have h3 := Cursor.length_putOption_le s.cks
  have h4 := Cursor.length_putOption_le s.ckr
  have h5 := Cursor.length_putOption_le s.hks
  have h6 := Cursor.length_putOption_le s.hkr
  have h7 := Cursor.length_putOption_le s.nhks
  have h8 := Cursor.length_putOption_le s.nhkr
  have hsize := hs.skipped
  simp only [serialize, List.length_append, length_le, Block.length_val, length_putSkipped]
  omega

variable {P : Primitives B} {s s' : HeaderEncryptState B}

theorem initAlice_storable (P : Primitives B) (dhs sk hka nhkb : Block B 32) {bobPub : Block B 32}
    (h : bobPub ≠ Block.zero 32) :
    (initAlice P dhs sk bobPub hka nhkb defaultMaxSkip).Storable where
  dhr b hb := by
    cases hb
    exact h
  maxSkip := rfl
  skipped := by simp [initAlice]

theorem initBob_storable (sk bobDh hka nhkb : Block B 32) :
    (initBob sk bobDh hka nhkb defaultMaxSkip : HeaderEncryptState B).Storable where
  dhr b hb := by cases hb
  maxSkip := rfl
  skipped := by simp [initBob]

theorem encrypt_storable (hs : s.Storable) {headerNonce : Block B 12} {pt ad : List B}
    {r : List B × List B} (h : encrypt P headerNonce s pt ad = .ok (r, s')) : s'.Storable := by
  obtain ⟨encHeader, ct⟩ := r
  obtain ⟨cks, dhs, hks, ns, -, -, -, -, -, -, rfl⟩ := encrypt_eq_ok h
  exact ⟨hs.dhr, hs.maxSkip, hs.skipped⟩

/-- What receiving may do to the sending half: nothing, or open a new chain on the drawn secret. -/
def SendingAfter (fresh : Block B 32) (s s' : HeaderEncryptState B) : Prop :=
  (s'.dhs = s.dhs ∧ s'.ns = s.ns ∧ s'.cks = s.cks) ∨
    (s'.dhs = some fresh ∧ s'.ns = 0 ∧ s'.cks.isSome)

/-- Putting keys aside keeps a state storable, and touches nothing of the sending side. -/
theorem skipLoop_storable {hkr : Block B 32} :
    ∀ {fuel : ℕ} {s : HeaderEncryptState B} {ckr ckr' : Block B 32}, s.Storable →
      skipLoop P hkr fuel s ckr = .ok (s', ckr') →
      s'.Storable ∧ s'.dhs = s.dhs ∧ s'.ns = s.ns ∧ s'.cks = s.cks
  | 0, s, ckr, ckr', hs, h => by
    cases h
    exact ⟨hs, rfl, rfl, rfl⟩
  | fuel + 1, s, ckr, ckr', hs, h => by
    unfold skipLoop at h
    split at h
    · cases h
    · rename_i hlimit
      obtain ⟨nr, -, hrec⟩ := Except.bind_eq_ok.1 h
      have hlt : s.mkskipped.size < 1000 := by
        have hle := hs.skipped
        rw [hs.maxSkip, ge_iff_le, UInt32.le_iff_toNat_le, toNat_ofNat_u32 (by omega)] at hlimit
        exact not_le.1 hlimit
      have hins := Dict.size_insert_le s.mkskipped (hkr, s.nr) (kdfCkHe P ckr).2
      exact skipLoop_storable
        (s := { s with mkskipped := s.mkskipped.insert (hkr, s.nr) (kdfCkHe P ckr).2, nr })
        ⟨hs.dhr, hs.maxSkip, by dsimp only; omega⟩ hrec

theorem skipMessageKeys_storable (hs : s.Storable) {upTo : UInt32}
    (h : skipMessageKeys P s upTo = .ok s') :
    s'.Storable ∧ s'.dhs = s.dhs ∧ s'.ns = s.ns ∧ s'.cks = s.cks := by
  unfold skipMessageKeys at h
  split at h
  · cases h
  split at h
  · obtain ⟨⟨t, ckr⟩, hloop, hret⟩ := Except.bind_eq_ok.1 h
    obtain ⟨ht, hkept⟩ := skipLoop_storable hs hloop
    cases hret
    exact ⟨⟨ht.dhr, ht.maxSkip, ht.skipped⟩, hkept⟩
  · cases h
    exact ⟨hs, rfl, rfl, rfl⟩

/-- A Diffie-Hellman step towards a usable key keeps a state storable, and starts a new sending
chain. -/
theorem dhRatchet_storable (hs : s.Storable) {fresh : Block B 32} {header : Header B}
    (hh : header.dh ≠ Block.zero 32) (h : dhRatchet P fresh header s = .ok s') :
    s'.Storable ∧ s'.dhs = some fresh ∧ s'.ns = 0 ∧ s'.cks.isSome := by
  unfold dhRatchet at h
  split at h
  · cases h
    refine ⟨⟨?_, hs.maxSkip, hs.skipped⟩, rfl, rfl, rfl⟩
    intro b hb
    cases hb
    exact hh
  · cases h

/-- A step of the receiving chain keeps a state storable. -/
theorem advanceReceiving_storable (hs : s.Storable) {msgKey : Block B 32}
    (h : advanceReceiving P s = .ok (msgKey, s')) :
    s'.Storable ∧ s'.dhs = s.dhs ∧ s'.ns = s.ns ∧ s'.cks = s.cks := by
  unfold advanceReceiving at h
  split at h
  · obtain ⟨nr, -, hret⟩ := Except.bind_eq_ok.1 h
    cases hret
    exact ⟨⟨hs.dhr, hs.maxSkip, hs.skipped⟩, rfl, rfl, rfl⟩
  · cases h

theorem tryHeader_ne_zero {hk : Option (Block B 32)} {encHeader : List B} {header : Header B}
    (h : tryHeader P hk encHeader = some header) : header.dh ≠ Block.zero 32 := by
  obtain ⟨k, -, hk⟩ := Option.bind_eq_some_iff.1 h
  cases hdec : hdecrypt P k encHeader with
  | error e => rw [hdec] at hk; cases hk
  | ok header' =>
    rw [hdec] at hk
    cases hk
    obtain ⟨⟨nonce, ct⟩, -, hdec⟩ := Except.bind_eq_ok.1 hdec
    obtain ⟨plain, -, hdec⟩ := Except.bind_eq_ok.1 hdec
    exact Header.dh_ne_zero_of_decode hdec

/-- **Receiving keeps a state storable**, and touches the sending half only to open a new chain. -/
theorem receiveKey_storable (hs : s.Storable) {σ : Enumeration} {fresh msgKey : Block B 32}
    {encHeader : List B} (h : receiveKey P σ fresh encHeader s = .ok (msgKey, s')) :
    s'.Storable ∧ SendingAfter fresh s s' := by
  unfold receiveKey at h
  split at h
  · rename_i r hskipped
    cases h
    obtain ⟨hk, -, header, -, -, rfl⟩ := trySkippedLoop_eq_some hskipped
    have hle := Dict.size_erase_le s.mkskipped (hk, header.n)
    exact ⟨⟨hs.dhr, hs.maxSkip, hle.trans hs.skipped⟩, .inl ⟨rfl, rfl, rfl⟩⟩
  split at h
  · obtain ⟨t, hskip, hadv⟩ := Except.bind_eq_ok.1 h
    obtain ⟨ht, h1, h2, h3⟩ := skipMessageKeys_storable hs hskip
    obtain ⟨hs', k1, k2, k3⟩ := advanceReceiving_storable ht hadv
    exact ⟨hs', .inl ⟨k1.trans h1, k2.trans h2, k3.trans h3⟩⟩
  split at h
  · rename_i header hnext
    obtain ⟨t, hskip, h⟩ := Except.bind_eq_ok.1 h
    obtain ⟨u, hdh, h⟩ := Except.bind_eq_ok.1 h
    obtain ⟨v, hskip', hadv⟩ := Except.bind_eq_ok.1 h
    obtain ⟨ht, -⟩ := skipMessageKeys_storable hs hskip
    obtain ⟨hu, h1, h2, h3⟩ := dhRatchet_storable ht (tryHeader_ne_zero hnext) hdh
    obtain ⟨hv, k1, k2, k3⟩ := skipMessageKeys_storable hu hskip'
    obtain ⟨hs', l1, l2, l3⟩ := advanceReceiving_storable hv hadv
    refine ⟨hs', .inr ⟨l1.trans (k1.trans h1), l2.trans (k2.trans h2), ?_⟩⟩
    rw [l3, k3]
    exact h3
  · cases h

end HeaderEncryptState

end VoiceChatCrypto
