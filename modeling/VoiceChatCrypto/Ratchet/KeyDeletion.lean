import Mathlib.Data.Prod.Lex
import VoiceChatCrypto.Data.Stock
import VoiceChatCrypto.Ratchet.Bounded
import VoiceChatCrypto.Ratchet.HeaderLadder

/-!
# Used message keys are gone

A ratchet gives each message key away once. Whatever it is given, with a peer or without one, honest or
not: after a key was used for sealing or for opening, it can no longer be derived from what the state
holds, and never again from a later state. This is forward secrecy, and also the reason that nothing
is opened twice.

What a state **reveals** is everything that the key derivations give from its root key, its two chain
keys and its store, whatever the outputs of Diffie–Hellman are. Root keys form a chain that meets no
earlier link, because the secret it starts from is not itself the output of a root step. So every
message key has one place, the **depth** of the root key its chain starts from and its number on that
chain, and the receiving half of a ratchet is a source of values in the order of their places
(`Stock`). The sending chain lies one root step above the receiving chain.

Both ratchets derive roots alike and differ in how they go down a chain, which is a parameter here.
-/

open Alphabet

namespace VoiceChatCrypto

variable {B : Type} [Alphabet B] {P : Primitives B}

theorem Dict.lookup_erase {K V : Type} [DecidableEq K] (m : Dict K V) (a k : K) :
    (m.erase a).lookup k = if k = a then none else m.lookup k := by
  split
  · rename_i hk
    rw [hk, Finmap.lookup_erase]
  · rename_i hk
    rw [Finmap.lookup_erase_ne hk]

/-! ### Places -/

/-- A root key, so many steps after the secret `sk`. The exchanges that went into the steps do not
matter. -/
inductive RootAt (P : Primitives B) (sk : Block B 32) : ℕ → Block B 32 → Prop
  | start : RootAt P sk 0 sk
  | step {n : ℕ} {rk : Block B 32} (h : RootAt P sk n rk) (d : Block B 32) :
      RootAt P sk (n + 1) (kdfRk P rk d).1

theorem RootAt.trans {sk rk r : Block B 32} {m n : ℕ} (h : RootAt P sk m rk) (h' : RootAt P rk n r) :
    RootAt P sk (m + n) r := by
  induction h' with
  | start => exact h
  | step _ d ih => exact ih.step d

/-- The secret is not the output of a root step. A secret from the handshake is derived under
another label. -/
def NotDerived (P : Primitives B) (sk : Block B 32) : Prop := ∀ rk d, (kdfRk P rk d).1 ≠ sk

/-- **A root key has one depth**, when the secret is no output of a root step: steps can be taken
back one by one, and end at the secret. -/
theorem RootAt.depth_unique (hP : IdealKdf P) {sk rk : Block B 32} (hsk : NotDerived P sk) {m n : ℕ}
    (hm : RootAt P sk m rk) (hn : RootAt P sk n rk) : m = n := by
  induction hm generalizing n with
  | start =>
    generalize hrk : sk = rk at hn
    cases hn with
    | start => rfl
    | step h d => exact absurd hrk.symm (hsk _ d)
  | @step m rk h d ih =>
    generalize hrk : (kdfRk P rk d).1 = rk' at hn
    cases hn with
    | start => exact absurd hrk (hsk rk d)
    | step h' d' =>
      obtain ⟨rfl, -⟩ := kdfRk_fst_inj hP hrk
      rw [ih h']

/-- The message key `key start i` of a chain whose root key is at a depth. -/
def KeyAt (P : Primitives B) (key : Block B 32 → ℕ → Block B 32) (sk : Block B 32) (a : ℕ ×ₗ ℕ)
    (mk : Block B 32) : Prop :=
  ∃ rk d, RootAt P sk (ofLex a).1 rk ∧ mk = key (kdfRk P rk d).2 (ofLex a).2

/-- How a ratchet goes down a chain: the chain key and the message key after so many steps. -/
structure Descent (B : Type) where
  /-- The chain key after so many steps. -/
  chain : Block B 32 → ℕ → Block B 32
  /-- The message key after so many steps. -/
  key : Block B 32 → ℕ → Block B 32
  /-- No step, no change. -/
  chain_zero : ∀ ck, chain ck 0 = ck
  /-- A chain is a chain of its chain keys. -/
  chain_add : ∀ ck m n, chain ck (m + n) = chain (chain ck m) n
  /-- A message key is one of a later chain key, too. -/
  key_add : ∀ ck m n, key ck (m + n) = key (chain ck m) n

/-- A message key determines its chain and its number, that is, chains never run into one another.
-/
def Descent.Faithful (P : Primitives B) (D : Descent B) : Prop :=
  ∀ {rk rk' d d' : Block B 32} {m n : ℕ},
    D.key (kdfRk P rk d).2 m = D.key (kdfRk P rk' d').2 n → rk = rk' ∧ d = d' ∧ m = n

/-- **A message key has one place**: the chain it is on and its position there can be read off it.
-/
theorem Descent.Faithful.place_unique (hP : IdealKdf P) {D : Descent B} (hD : D.Faithful P)
    {sk : Block B 32} (hsk : NotDerived P sk) (a b : ℕ ×ₗ ℕ) (mk : Block B 32)
    (ha : KeyAt P D.key sk a mk) (hb : KeyAt P D.key sk b mk) : a = b := by
  obtain ⟨rk, d, hrk, rfl⟩ := ha
  obtain ⟨rk', d', hrk', heq⟩ := hb
  obtain ⟨rfl, -, hn⟩ := hD heq
  exact Prod.ext (hrk.depth_unique hP hsk hrk') hn

/-! ### What a state reveals -/

/-- The keys of a state: its root key, its chain keys, and the message keys it has put aside. -/
structure KeyRing (B : Type) where
  /-- The root key. -/
  rk : Block B 32
  /-- The receiving chain key. -/
  ckr : Option (Block B 32)
  /-- The sending chain key. -/
  cks : Option (Block B 32)
  /-- The message keys put aside, by ratchet key or header key and position. -/
  store : Block B 32 × UInt32 → Option (Block B 32)

/-- **What can be derived from the keys**: the stored keys, the keys down the two chains, and the keys
down every chain that a root step may open, whatever the outputs of Diffie–Hellman are. -/
inductive KeyRing.Reveals (P : Primitives B) (D : Descent B) (s : KeyRing B) : Block B 32 → Prop
  | stored {mk : Block B 32} (k : Block B 32 × UInt32) (h : s.store k = some mk) : Reveals P D s mk
  | receiving {ck : Block B 32} (h : s.ckr = some ck) (n : ℕ) : Reveals P D s (D.key ck n)
  | sending {ck : Block B 32} (h : s.cks = some ck) (n : ℕ) : Reveals P D s (D.key ck n)
  | root {i : ℕ} {r : Block B 32} (h : RootAt P s.rk i r) (d : Block B 32) (n : ℕ) :
      Reveals P D s (D.key (kdfRk P r d).2 n)

/-- **Where the keys of a state stand**: a root key at a depth, the sending chain one root step above
it, the receiving chain another one above, and a store of keys from behind the frontier. -/
structure KeyRing.Stands (P : Primitives B) (D : Descent B) (sk : Block B 32) (depth : ℕ) (F : ℕ ×ₗ ℕ)
    (nr ns : ℕ) (s : KeyRing B) : Prop where
  /-- The root key is `depth` root steps from the secret. -/
  root : RootAt P sk depth s.rk
  /-- The receiving chain starts two root steps before, and is at the frontier; or nothing has been
  received. -/
  receiving : (s.ckr = none ∧ F = toLex (depth - 1, 0) ∧ ∀ k, s.store k = none) ∨
    ∃ c r d, c + 2 = depth ∧ RootAt P sk c r ∧ s.ckr = some (D.chain (kdfRk P r d).2 nr) ∧
      F = toLex (c, nr)
  /-- The sending chain starts one root step before. -/
  sending : ∀ {ck}, s.cks = some ck → ∃ c r d, c + 1 = depth ∧ RootAt P sk c r ∧
    ck = D.chain (kdfRk P r d).2 ns
  /-- The keys put aside lie behind the frontier, each under one name. -/
  holds : Stock.Holds (KeyAt P D.key sk) F s.store

namespace KeyRing

variable {D : Descent B} {sk mk : Block B 32} {depth nr ns : ℕ} {F : ℕ ×ₗ ℕ} {s s' : KeyRing B}

/-- One state gives away no more than another: every message key that can be got from it could be
got from the other. -/
def Within (P : Primitives B) (D : Descent B) (s' s : KeyRing B) : Prop :=
  ∀ mk, s'.Reveals P D mk → s.Reveals P D mk

/-- The frontier is not beyond the sending chain. -/
theorem Stands.frontier_le (h : s.Stands P D sk depth F nr ns) {a : ℕ ×ₗ ℕ}
    (ha : depth ≤ (ofLex a).1 + 1) : F ≤ a := by
  rw [Prod.Lex.le_iff]
  rcases h.receiving with ⟨-, rfl, -⟩ | ⟨c, r, d, hc, -, -, rfl⟩
  · rcases Nat.lt_or_ge (depth - 1) (ofLex a).1 with hlt | hge
    · exact .inl hlt
    · exact .inr ⟨Nat.le_antisymm (by show depth - 1 ≤ _; omega) hge, Nat.zero_le _⟩
  · exact .inl (by show c < _; omega)

/-- **What is revealed is what the source yields**, and keys of the chain that is being sent on. -/
theorem Stands.yields (h : s.Stands P D sk depth F nr ns) (hmk : s.Reveals P D mk) :
    Stock.Yields (KeyAt P D.key sk) F s.store mk := by
  cases hmk with
  | stored k hk => exact .inl ⟨k, hk⟩
  | receiving hck n =>
    rcases h.receiving with ⟨hnone, -⟩ | ⟨c, r, d, hc, hr, hck', rfl⟩
    · rw [hnone] at hck
      cases hck
    · rw [hck'] at hck
      cases hck
      refine .inr ⟨toLex (c, nr + n), ?_, r, d, hr, (D.key_add _ _ _).symm⟩
      exact Prod.Lex.toLex_le_toLex.2 (.inr ⟨rfl, Nat.le_add_right _ _⟩)
  | sending hck n =>
    obtain ⟨c, r, d, hc, hr, rfl⟩ := h.sending hck
    refine .inr ⟨toLex (c, ns + n), h.frontier_le ?_, r, d, hr, (D.key_add _ _ _).symm⟩
    exact hc.ge
  | @root i r hr d n =>
    refine .inr ⟨toLex (depth + i, n), h.frontier_le ?_, r, d, h.root.trans hr, rfl⟩
    show depth ≤ depth + i + 1
    omega

/-- Everything a state holds comes from what another one reveals. -/
theorem within_of (hstore : ∀ {k mk}, s'.store k = some mk → s.Reveals P D mk)
    (hckr : ∀ {ck}, s'.ckr = some ck → ∀ n, s.Reveals P D (D.key ck n))
    (hcks : ∀ {ck}, s'.cks = some ck → ∀ n, s.Reveals P D (D.key ck n))
    (hrk : ∃ i, RootAt P s.rk i s'.rk) : s'.Within P D s := by
  intro mk hmk
  cases hmk with
  | stored k hk => exact hstore hk
  | receiving hck n => exact hckr hck n
  | sending hck n => exact hcks hck n
  | root hr d n =>
    obtain ⟨i, hi⟩ := hrk
    exact .root (hi.trans hr) d n

/-! ### Steps -/

/-- **A use of a key**: what the state revealed and no later state does. -/
structure Uses (P : Primitives B) (D : Descent B) (s : KeyRing B) (mk : Block B 32) (s' : KeyRing B) :
    Prop where
  /-- Nothing becomes available that was not so before. -/
  within : s'.Within P D s
  /-- The key was available. -/
  revealed : s.Reveals P D mk
  /-- It is not available any more. -/
  gone : ¬ s'.Reveals P D mk

theorem Within.trans_uses {t : KeyRing B} (h : t.Within P D s) (h' : t.Uses P D mk s') :
    s.Uses P D mk s' :=
  ⟨fun w hw ↦ h w (h'.within w hw), h mk h'.revealed, h'.gone⟩

/-- The state before anything is received. -/
theorem stands_start {rk : Block B 32} {cks : Option (Block B 32)} (h : RootAt P sk depth rk)
    (hcks : ∀ {ck}, cks = some ck → ∃ c r d, c + 1 = depth ∧ RootAt P sk c r ∧
      ck = D.chain (kdfRk P r d).2 ns) :
    Stands P D sk depth (toLex (depth - 1, 0)) nr ns ⟨rk, none, cks, fun _ ↦ none⟩ :=
  ⟨h, .inl ⟨rfl, rfl, fun _ ↦ rfl⟩, hcks, .empty _ _⟩

/-- A root step opens the next chains. -/
theorem Stands.ratchet (h : s.Stands P D sk depth F nr ns) (x y : Block B 32)
    (hs' : s' = ⟨(kdfRk P (kdfRk P s.rk x).1 y).1, some (kdfRk P s.rk x).2,
      some (kdfRk P (kdfRk P s.rk x).1 y).2, s.store⟩) :
    s'.Stands P D sk (depth + 2) (toLex (depth, 0)) 0 0 ∧ s'.Within P D s := by
  subst hs'
  have hle : F ≤ toLex (depth, 0) := h.frontier_le (Nat.le_succ _)
  refine ⟨⟨(h.root.step x).step y, .inr ⟨depth, s.rk, x, rfl, h.root, ?_, rfl⟩, ?_,
    (h.holds.fill_of_le hle).holds⟩, ?_⟩
  · rw [D.chain_zero]
  · intro ck hck
    cases hck
    exact ⟨depth + 1, _, y, rfl, h.root.step x, by rw [D.chain_zero]⟩
  · refine within_of (fun hk ↦ .stored _ hk) ?_ ?_ ⟨2, (RootAt.start.step x).step y⟩
    · intro ck hck n
      cases hck
      exact .root .start x n
    · intro ck hck n
      cases hck
      exact .root (.step .start x) y n

/-- A use of the source takes the key away. -/
theorem Stands.not_reveals {F' : ℕ ×ₗ ℕ} {m : Block B 32 × UInt32 → Option (Block B 32)}
    (h : s'.Stands P D sk depth F' nr ns) (huse : Stock.Use (KeyAt P D.key sk) F m mk F' s'.store) :
    ¬ s'.Reveals P D mk :=
  fun hmk ↦ huse.gone (h.yields hmk)

/-- The keys down a chain from a later link are keys down the chain. -/
theorem Reveals.receiving_add {ck : Block B 32} (h : s.ckr = some ck) (i n : ℕ) :
    s.Reveals P D (D.key (D.chain ck i) n) := by
  rw [← D.key_add]
  exact .receiving h _

theorem Reveals.sending_add {ck : Block B 32} (h : s.cks = some ck) (i n : ℕ) :
    s.Reveals P D (D.key (D.chain ck i) n) := by
  rw [← D.key_add]
  exact .sending h _

section Ideal

variable (hP : IdealKdf P) (hD : D.Faithful P) (hsk : NotDerived P sk)
include hP hD hsk

/-- A stored key. -/
theorem Stands.stored (h : s.Stands P D sk depth F nr ns) {k : Block B 32 × UInt32}
    (hk : s.store k = some mk) {m' : Block B 32 × UInt32 → Option (Block B 32)}
    (hm' : ∀ j, m' j = if j = k then none else s.store j) (hs' : s' = { s with store := m' }) :
    s'.Stands P D sk depth F nr ns ∧ s.Uses P D mk s' := by
  subst hs'
  have huse := h.holds.use_stored (hD.place_unique hP hsk) hk hm'
  have hstands : ({ s with store := m' } : KeyRing B).Stands P D sk depth F nr ns := by
    refine ⟨h.root, ?_, h.sending, huse.holds⟩
    rcases h.receiving with ⟨-, -, hempty⟩ | hchain
    · rw [hempty] at hk
      cases hk
    · exact .inr hchain
  refine ⟨hstands, ⟨?_, .stored k hk, hstands.not_reveals huse⟩⟩
  refine within_of ?_ (fun hck n ↦ Reveals.receiving (s := s) (D := D) hck n)
    (fun hck n ↦ Reveals.sending (s := s) (D := D) hck n) ⟨0, .start⟩
  intro j w hj
  replace hj : m' j = some w := hj
  rw [hm'] at hj
  split at hj
  · cases hj
  · exact .stored j hj

/-- **Skipping** puts the keys aside that it passes. -/
theorem Stands.skip (h : s.Stands P D sk depth F nr ns) {ck name : Block B 32} {upTo : ℕ}
    (hck : s.ckr = some ck) {m' : Block B 32 × UInt32 → Option (Block B 32)}
    (hm' : ∀ k, m' k = if k.1 = name ∧ nr ≤ k.2.toNat ∧ k.2.toNat < upTo then
      some (D.key ck (k.2.toNat - nr)) else s.store k)
    (hs' : s' = { s with ckr := some (D.chain ck (upTo - nr)), store := m' }) :
    ∃ F', s'.Stands P D sk depth F' (max nr upTo) ns ∧ s'.Within P D s := by
  subst hs'
  obtain ⟨hroot, hrecv, hsend, hholds⟩ := h
  rcases hrecv with ⟨hnone, -⟩ | ⟨c, r, d, hc, hr, hck', rfl⟩
  · rw [hnone] at hck
    cases hck
  have hckd : ck = D.chain (kdfRk P r d).2 nr := Option.some.inj (hck.symm.trans hck')
  have hadd : ∀ n, nr ≤ n → D.key ck (n - nr) = D.key (kdfRk P r d).2 n := by
    intro n hn
    rw [hckd, ← D.key_add, Nat.add_sub_cancel' hn]
  have hfill : Stock.Fill (KeyAt P D.key sk) (toLex (c, nr)) s.store (toLex (c, max nr upTo)) m' := by
    refine hholds.fill (hD.place_unique hP hsk) ?_ (fun a ↦ (name, UInt32.ofNat (ofLex a).2)) ?_
    · exact Prod.Lex.toLex_le_toLex.2 (.inr ⟨rfl, le_max_left _ _⟩)
    · intro k v hk
      rw [hm'] at hk
      split at hk
      · rename_i hnew
        obtain ⟨hname, hge, hlt⟩ := hnew
        cases hk
        refine .inr ⟨toLex (c, k.2.toNat), ?_, ?_, ⟨r, d, hr, hadd _ hge⟩, ?_⟩
        · exact Prod.Lex.toLex_le_toLex.2 (.inr ⟨rfl, hge⟩)
        · exact Prod.Lex.toLex_lt_toLex.2 (.inr ⟨rfl, hlt.trans_le (le_max_right _ _)⟩)
        · exact Prod.ext hname.symm (UInt32.toNat_inj.1 (by simp))
      · exact .inl hk
  refine ⟨toLex (c, max nr upTo), ⟨hroot, .inr ⟨c, r, d, hc, hr, ?_, rfl⟩, hsend, hfill.holds⟩, ?_⟩
  · show some (D.chain ck (upTo - nr)) = _
    rw [hckd, ← D.chain_add]
    congr 2
    omega
  · refine within_of ?_ ?_ (fun hck n ↦ Reveals.sending (s := s) (D := D) hck n) ⟨0, .start⟩
    · intro k w hk
      replace hk : m' k = some w := hk
      rw [hm'] at hk
      split at hk
      · cases hk
        exact .receiving hck _
      · exact .stored k hk
    · intro ck₁ hck₁ n
      cases hck₁
      exact .receiving_add hck _ n

/-- **The next key** of the receiving chain. -/
theorem Stands.next (h : s.Stands P D sk depth F nr ns) {ck : Block B 32} (hck : s.ckr = some ck)
    (hs' : s' = { s with ckr := some (D.chain ck 1) }) :
    ∃ F', s'.Stands P D sk depth F' (nr + 1) ns ∧ s.Uses P D (D.key ck 0) s' := by
  subst hs'
  obtain ⟨hroot, hrecv, hsend, hholds⟩ := h
  rcases hrecv with ⟨hnone, -⟩ | ⟨c, r, d, hc, hr, hck', rfl⟩
  · rw [hnone] at hck
    cases hck
  have hckd : ck = D.chain (kdfRk P r d).2 nr := Option.some.inj (hck.symm.trans hck')
  have hlt : toLex (c, nr) < toLex (c, nr + 1) :=
    Prod.Lex.toLex_lt_toLex.2 (.inr ⟨rfl, Nat.lt_succ_self _⟩)
  have hkey : KeyAt P D.key sk (toLex (c, nr)) (D.key ck 0) := by
    refine ⟨r, d, hr, ?_⟩
    rw [hckd, ← D.key_add, Nat.add_zero]
    rfl
  have huse := hholds.use_next (hD.place_unique hP hsk) hkey hlt
  have hstands : ({ s with ckr := some (D.chain ck 1) } : KeyRing B).Stands P D sk depth
      (toLex (c, nr + 1)) (nr + 1) ns := by
    refine ⟨hroot, .inr ⟨c, r, d, hc, hr, ?_, rfl⟩, hsend, huse.holds⟩
    show some (D.chain ck 1) = _
    rw [hckd, ← D.chain_add]
  refine ⟨toLex (c, nr + 1), hstands, ⟨?_, .receiving hck 0, hstands.not_reveals huse⟩⟩
  refine within_of (fun hk ↦ .stored _ hk) ?_
    (fun hck n ↦ Reveals.sending (s := s) (D := D) hck n) ⟨0, .start⟩
  intro ck₁ hck₁ n
  cases hck₁
  exact .receiving_add hck 1 n

/-- The next key of the receiving chain, after skipping to it. -/
theorem Stands.skip_next (h : s.Stands P D sk depth F nr ns) {ck name : Block B 32} {upTo : ℕ}
    (hck : s.ckr = some ck) {m' : Block B 32 × UInt32 → Option (Block B 32)}
    (hm' : ∀ k, m' k = if k.1 = name ∧ nr ≤ k.2.toNat ∧ k.2.toNat < upTo then
      some (D.key ck (k.2.toNat - nr)) else s.store k)
    (hs' : s' = { s with ckr := some (D.chain ck (max nr upTo + 1 - nr)), store := m' }) :
    ∃ F', s'.Stands P D sk depth F' (max nr upTo + 1) ns ∧
      s.Uses P D (D.key ck (max nr upTo - nr)) s' := by
  obtain ⟨F₁, h₁, hwithin⟩ := h.skip hP hD hsk hck hm' rfl
  have hchain : D.chain (D.chain ck (upTo - nr)) 1 = D.chain ck (max nr upTo + 1 - nr) := by
    rw [← D.chain_add]
    congr 1
    omega
  have hkey : D.key (D.chain ck (upTo - nr)) 0 = D.key ck (max nr upTo - nr) := by
    rw [← D.key_add]
    congr 1
    omega
  obtain ⟨F', h', huses⟩ := h₁.next hP hD hsk rfl rfl
  rw [hkey] at huses
  rw [hchain] at h' huses
  exact ⟨F', hs' ▸ h', hwithin.trans_uses (hs' ▸ huses)⟩

/-- **The next key** of the sending chain. -/
theorem Stands.send (h : s.Stands P D sk depth F nr ns) {ck : Block B 32} (hck : s.cks = some ck)
    (hs' : s' = { s with cks := some (D.chain ck 1) }) :
    s'.Stands P D sk depth F nr (ns + 1) ∧ s.Uses P D (D.key ck 0) s' := by
  subst hs'
  obtain ⟨c, r, d, hc, hr, rfl⟩ := h.sending hck
  have hkey : KeyAt P D.key sk (toLex (c, ns)) (D.key (D.chain (kdfRk P r d).2 ns) 0) := by
    refine ⟨r, d, hr, ?_⟩
    rw [← D.key_add, Nat.add_zero]
    rfl
  have hplace : ∀ {a}, KeyAt P D.key sk a (D.key (D.chain (kdfRk P r d).2 ns) 0) →
      a = toLex (c, ns) := fun ha ↦ hD.place_unique hP hsk _ _ _ ha hkey
  have hstands : ({ s with cks := some (D.chain (D.chain (kdfRk P r d).2 ns) 1) } :
      KeyRing B).Stands P D sk depth F nr (ns + 1) := by
    refine ⟨h.root, h.receiving, ?_, h.holds⟩
    intro ck' hck'
    cases hck'
    exact ⟨c, r, d, hc, hr, (D.chain_add _ _ _).symm⟩
  refine ⟨hstands, ⟨?_, .sending hck 0, ?_⟩⟩
  · refine within_of (fun hk ↦ .stored _ hk)
      (fun hck n ↦ Reveals.receiving (s := s) (D := D) hck n) ?_ ⟨0, .start⟩
    intro ck₁ hck₁ n
    cases hck₁
    exact .sending_add hck 1 n
  · -- the place of the key is taken by nothing that is left
    intro hw
    generalize hmk : D.key (D.chain (kdfRk P r d).2 ns) 0 = mk at hw hplace
    cases hw with
    | stored k hk =>
      obtain ⟨a, ha, hmk'⟩ := h.holds.behind hk
      rw [hplace hmk'] at ha
      exact absurd ha (h.frontier_le (a := toLex (c, ns)) hc.ge).not_gt
    | receiving hck₁ n =>
      rcases h.receiving with ⟨hnone, -⟩ | ⟨c', r', d', hc', hr', hck', -⟩
      · rw [hnone] at hck₁
        cases hck₁
      · obtain rfl := Option.some.inj (hck'.symm.trans hck₁)
        have hp := hplace (a := toLex (c', nr + n)) ⟨r', d', hr', (D.key_add _ _ _).symm⟩
        have := congrArg (fun a ↦ (ofLex a).1) hp
        simp only [ofLex_toLex] at this
        omega
    | sending hck₁ n =>
      cases hck₁
      have hp := hplace (a := toLex (c, ns + (1 + n)))
        ⟨r, d, hr, by rw [← D.key_add, ← D.key_add]; rfl⟩
      have := congrArg (fun a ↦ (ofLex a).2) hp
      simp only [ofLex_toLex] at this
      omega
    | @root i r' hr' d' n =>
      have hp := hplace (a := toLex (depth + i, n)) ⟨r', d', h.root.trans hr', rfl⟩
      have := congrArg (fun a ↦ (ofLex a).1) hp
      simp only [ofLex_toLex] at this
      omega

end Ideal

end KeyRing

/-! ### The plain ratchet -/

/-- The chains of the plain ratchet. -/
def doubleDescent (P : Primitives B) : Descent B :=
  ⟨chainKey P, messageKey P, fun _ ↦ rfl, chainKey_add P, messageKey_add P⟩

/-- Under ideal key derivation the classical chains do not collide. -/
theorem doubleDescent_faithful (hP : IdealKdf P) : (doubleDescent P).Faithful P :=
  fun h ↦ messageKey_inj hP h

namespace DoubleRatchetState

variable {s s' : DoubleRatchetState B} {mk fresh : Block B 32} {header : Header B}

/-- The keys that a state holds. -/
def keyRing (s : DoubleRatchetState B) : KeyRing B :=
  ⟨s.rk, s.ckr, s.cks, fun k ↦ s.mkskipped.lookup k⟩

/-- **Its keys stand where they should**, above a secret that no root step puts out. -/
structure Sound (P : Primitives B) (s : DoubleRatchetState B) : Prop where
  /-- Its keys are derived from one secret, in their places. -/
  stands : ∃ sk depth F, NotDerived P sk ∧
    s.keyRing.Stands P (doubleDescent P) sk depth F s.nr.toNat s.ns.toNat
  /-- With a receiving chain there is a peer's key to file its keys under. -/
  peer : s.ckr.isSome → s.dhr.isSome

/-- A receiving chain, with what its keys are stored under. -/
theorem Sound.exists_ckr (h : s.Sound P) (hckr : s.ckr.isSome) :
    ∃ ck d, s.ckr = some ck ∧ s.dhr = some d := by
  obtain ⟨ck, hck⟩ := Option.isSome_iff_exists.1 hckr
  obtain ⟨d, hd⟩ := Option.isSome_iff_exists.1 (h.peer hckr)
  exact ⟨ck, d, hck, hd⟩

/-- A new initiator is sound when its secret is not derived. -/
theorem sound_initAlice {sk : Block B 32} (hsk : NotDerived P sk) (dhs bobDhPublic : Block B 32)
    (maxSkip : UInt32) : (initAlice P dhs sk bobDhPublic maxSkip).Sound P := by
  refine ⟨⟨sk, 1, _, hsk, KeyRing.stands_start (.step .start _) ?_⟩, fun h ↦ Bool.noConfusion h⟩
  intro ck hck
  cases hck
  exact ⟨0, sk, _, rfl, .start, rfl⟩

/-- A new responder is sound when its secret is not derived. -/
theorem sound_initBob {sk : Block B 32} (hsk : NotDerived P sk) (bobDhKeypair : Block B 32)
    (maxSkip : UInt32) : (initBob sk bobDhKeypair maxSkip).Sound P := by
  refine ⟨⟨sk, 0, _, hsk, KeyRing.stands_start .start ?_⟩, fun h ↦ Bool.noConfusion h⟩
  intro ck hck
  cases hck

/-- A root step. -/
theorem Sound.ratchet (h : s.Sound P) (hratchet : dhRatchet P fresh header s = .ok s') :
    s'.ckr.isSome ∧ s'.Sound P ∧ s'.keyRing.Within P (doubleDescent P) s.keyRing := by
  obtain ⟨⟨sk, depth, F, hsk, hstands⟩, -⟩ := h
  cases hdhs : s.dhs with
  | none =>
    unfold dhRatchet at hratchet
    rw [hdhs] at hratchet
    cases hratchet
  | some dhs =>
    rw [dhRatchet_of_dhs hdhs] at hratchet
    cases hratchet
    obtain ⟨hstands', hwithin⟩ := hstands.ratchet (P.diffieHellman dhs header.dh)
      (P.diffieHellman fresh header.dh) rfl
    exact ⟨rfl, ⟨⟨sk, _, _, hsk, hstands'⟩, fun _ ↦ rfl⟩, hwithin⟩

section Steps

variable (hP : IdealKdf P) (h : s.Sound P)
include hP h

/-- Putting keys aside moves the frontier, and makes nothing available. -/
theorem Sound.skip {upTo : UInt32} (hskip : skipMessageKeys P s upTo = .ok s') :
    s'.Sound P ∧ s'.keyRing.Within P (doubleDescent P) s.keyRing := by
  cases hckr : s.ckr with
  | none =>
    rw [skipMessageKeys_of_ckr_none hckr hskip]
    exact ⟨h, fun _ hw ↦ hw⟩
  | some ck =>
    obtain ⟨ck', d, hck, hd⟩ := h.exists_ckr (by rw [hckr]; rfl)
    obtain ⟨sk, depth, F, hsk, hstands⟩ := h.stands
    obtain ⟨hnr, hrest, hlook⟩ := skipMessageKeys_eq_ok hd hckr hskip
    have hring : s'.keyRing = { s.keyRing with
        ckr := some (chainKey P ck (upTo.toNat - s.nr.toNat))
        store := fun k ↦ s'.mkskipped.lookup k } := by
      rw [hrest]
      rfl
    obtain ⟨F', hstands', hwithin⟩ :=
      hstands.skip hP (doubleDescent_faithful hP) hsk hckr hlook hring
    refine ⟨⟨⟨sk, depth, F', hsk, ?_⟩, ?_⟩, hwithin⟩
    · have hns : s'.ns = s.ns := by rw [hrest]
      rw [hnr, hns]
      exact hstands'
    · intro _
      rw [hrest, hd]
      rfl

/-- The next key of the receiving chain. -/
theorem Sound.advance (hckr : s.ckr.isSome) {n : UInt32}
    (hkey : (skipMessageKeys P s n >>= advanceReceiving P) = .ok (mk, s')) :
    s'.Sound P ∧ s.keyRing.Uses P (doubleDescent P) mk s'.keyRing := by
  obtain ⟨ck, d, hck, hd⟩ := h.exists_ckr hckr
  obtain ⟨sk, depth, F, hsk, hstands⟩ := h.stands
  obtain ⟨rfl, hnr, hrest, hlook⟩ := receiveOnChain_eq_ok hd hck hkey
  have hring : s'.keyRing = { s.keyRing with
      ckr := some (chainKey P ck (max s.nr.toNat n.toNat + 1 - s.nr.toNat))
      store := fun k ↦ s'.mkskipped.lookup k } := by
    rw [← hnr, hrest]
    rfl
  obtain ⟨F', hstands', huses⟩ :=
    hstands.skip_next hP (doubleDescent_faithful hP) hsk hck hlook hring
  refine ⟨⟨⟨sk, depth, F', hsk, ?_⟩, ?_⟩, huses⟩
  · have hns : s'.ns = s.ns := by rw [hrest]
    rw [hnr, hns]
    exact hstands'
  · intro _
    rw [hrest, hd]
    rfl

/-- **Receiving uses up the key** that it derives. -/
theorem Sound.receive (hkey : ratchetReceiveKey P fresh header s = .ok (mk, s')) :
    s'.Sound P ∧ s.keyRing.Uses P (doubleDescent P) mk s'.keyRing := by
  rcases ratchetReceiveKey_cases P fresh header s with
    ⟨mk', hlook, heq⟩ | ⟨-, hdhr, heq⟩ | ⟨-, -, heq⟩
  · -- stored
    rw [heq] at hkey
    cases hkey
    obtain ⟨sk, depth, F, hsk, hstands⟩ := h.stands
    obtain ⟨hstands', huses⟩ := hstands.stored hP (doubleDescent_faithful hP) hsk hlook
      (fun k ↦ Dict.lookup_erase _ _ k) rfl
    exact ⟨⟨⟨sk, depth, F, hsk, hstands'⟩, h.peer⟩, huses⟩
  · -- on the chain
    rw [heq] at hkey
    obtain ⟨ck, hck⟩ := isSome_ckr_of_receiveOnChain hkey
    exact h.advance hP (by rw [hck]; rfl) hkey
  · -- on the next chain
    rw [heq] at hkey
    obtain ⟨t, hskip, hkey⟩ := Except.bind_eq_ok.1 hkey
    obtain ⟨u, hratchet, hkey⟩ := Except.bind_eq_ok.1 hkey
    obtain ⟨ht, hwithin₁⟩ := h.skip hP hskip
    obtain ⟨hckr, hu, hwithin₂⟩ := ht.ratchet hratchet
    obtain ⟨hs', huses⟩ := hu.advance hP hckr hkey
    exact ⟨hs', hwithin₁.trans_uses (hwithin₂.trans_uses huses)⟩

/-- **Sending uses up the key** that it derives. -/
theorem Sound.send (hsend : sendMessageKey P s = .ok ((header, mk), s')) :
    s'.Sound P ∧ s.keyRing.Uses P (doubleDescent P) mk s'.keyRing := by
  obtain ⟨cks, dhs, ns, hcks, -, hns, -, rfl, rfl⟩ := sendMessageKey_eq_ok hsend
  obtain ⟨sk, depth, F, hsk, hstands⟩ := h.stands
  obtain ⟨hstands', huses⟩ := hstands.send hP (doubleDescent_faithful hP) hsk hcks rfl
  refine ⟨⟨⟨sk, depth, F, hsk, ?_⟩, h.peer⟩, huses⟩
  have hns' : ns.toNat = s.ns.toNat + 1 := checkedInc_eq_ok hns
  exact hns' ▸ hstands'

end Steps

end DoubleRatchetState

/-! ### The header-encrypting ratchet -/

/-- The chains of the header-encrypting ratchet. -/
def headerDescent (P : Primitives B) : Descent B :=
  ⟨chainKeyHe P, messageKeyHe P, fun _ ↦ rfl, chainKeyHe_add P, messageKeyHe_add P⟩

/-- Under ideal key derivation the header-encrypting chains do not collide. -/
theorem headerDescent_faithful (hP : IdealKdf P) : (headerDescent P).Faithful P :=
  fun h ↦ messageKeyHe_inj hP h

namespace HeaderEncryptState

variable {s s' : HeaderEncryptState B} {mk fresh : Block B 32} {header : Header B}

/-- The keys that a state holds. Its header keys open headers only. -/
def keyRing (s : HeaderEncryptState B) : KeyRing B :=
  ⟨s.rk, s.ckr, s.cks, fun k ↦ s.mkskipped.lookup k⟩

/-- **Its keys stand where they should**, above a secret that no root step puts out. -/
structure Sound (P : Primitives B) (s : HeaderEncryptState B) : Prop where
  /-- Its keys are derived from one secret, in their places. -/
  stands : ∃ sk depth F, NotDerived P sk ∧
    s.keyRing.Stands P (headerDescent P) sk depth F s.nr.toNat s.ns.toNat
  /-- With a receiving chain there is a header key to file its keys under. -/
  current : s.ckr.isSome → s.hkr.isSome
  /-- The next header key is always known. -/
  next : s.nhkr.isSome

/-- A receiving chain, with what its keys are stored under. -/
theorem Sound.exists_ckr (h : s.Sound P) (hckr : s.ckr.isSome) :
    ∃ ck hk, s.ckr = some ck ∧ s.hkr = some hk := by
  obtain ⟨ck, hck⟩ := Option.isSome_iff_exists.1 hckr
  obtain ⟨hk, hhk⟩ := Option.isSome_iff_exists.1 (h.current hckr)
  exact ⟨ck, hk, hck, hhk⟩

/-- A new initiator is sound when its secret is not derived. -/
theorem sound_initAlice {sk : Block B 32} (hsk : NotDerived P sk)
    (dhs bobDhPublic sharedHka sharedNhkb : Block B 32) (maxSkip : UInt32) :
    (initAlice P dhs sk bobDhPublic sharedHka sharedNhkb maxSkip).Sound P := by
  refine ⟨⟨sk, 1, _, hsk, KeyRing.stands_start (.step .start _) ?_⟩, fun h ↦ Bool.noConfusion h, rfl⟩
  intro ck hck
  cases hck
  exact ⟨0, sk, _, rfl, .start, rfl⟩

/-- A new responder is sound when its secret is not derived. -/
theorem sound_initBob {sk : Block B 32} (hsk : NotDerived P sk)
    (bobDhKeypair sharedHka sharedNhkb : Block B 32) (maxSkip : UInt32) :
    (initBob sk bobDhKeypair sharedHka sharedNhkb maxSkip).Sound P := by
  refine ⟨⟨sk, 0, _, hsk, KeyRing.stands_start .start ?_⟩, fun h ↦ Bool.noConfusion h, rfl⟩
  intro ck hck
  cases hck

/-- A root step. -/
theorem Sound.ratchet (h : s.Sound P) (hratchet : dhRatchet P fresh header s = .ok s') :
    s'.ckr.isSome ∧ s'.Sound P ∧ s'.keyRing.Within P (headerDescent P) s.keyRing := by
  obtain ⟨⟨sk, depth, F, hsk, hstands⟩, -, hnext⟩ := h
  cases hdhs : s.dhs with
  | none =>
    unfold dhRatchet at hratchet
    rw [hdhs] at hratchet
    cases hratchet
  | some dhs =>
    rw [dhRatchet_of_dhs hdhs] at hratchet
    cases hratchet
    obtain ⟨hstands', hwithin⟩ := hstands.ratchet (P.diffieHellman dhs header.dh)
      (P.diffieHellman fresh header.dh) rfl
    exact ⟨rfl, ⟨⟨sk, _, _, hsk, hstands'⟩, fun _ ↦ hnext, rfl⟩, hwithin⟩

section Steps

variable (hP : IdealKdf P) (h : s.Sound P)
include hP h

/-- Putting keys aside moves the frontier, and makes nothing available. -/
theorem Sound.skip {upTo : UInt32} (hskip : skipMessageKeys P s upTo = .ok s') :
    s'.Sound P ∧ s'.keyRing.Within P (headerDescent P) s.keyRing := by
  cases hckr : s.ckr with
  | none =>
    rw [skipMessageKeys_of_ckr_none hckr hskip]
    exact ⟨h, fun _ hw ↦ hw⟩
  | some ck =>
    obtain ⟨ck', hk, hck, hhk⟩ := h.exists_ckr (by rw [hckr]; rfl)
    obtain ⟨sk, depth, F, hsk, hstands⟩ := h.stands
    obtain ⟨hnr, hrest, hlook⟩ := skipMessageKeys_eq_ok hhk hckr hskip
    have hring : s'.keyRing = { s.keyRing with
        ckr := some (chainKeyHe P ck (upTo.toNat - s.nr.toNat))
        store := fun k ↦ s'.mkskipped.lookup k } := by
      rw [hrest]
      rfl
    obtain ⟨F', hstands', hwithin⟩ :=
      hstands.skip hP (headerDescent_faithful hP) hsk hckr hlook hring
    refine ⟨⟨⟨sk, depth, F', hsk, ?_⟩, ?_, ?_⟩, hwithin⟩
    · have hns : s'.ns = s.ns := by rw [hrest]
      rw [hnr, hns]
      exact hstands'
    · intro _
      rw [hrest, hhk]
      rfl
    · rw [hrest]
      exact h.next

/-- The next key of the receiving chain. -/
theorem Sound.advance (hckr : s.ckr.isSome) {n : UInt32}
    (hkey : (skipMessageKeys P s n >>= advanceReceiving P) = .ok (mk, s')) :
    s'.Sound P ∧ s.keyRing.Uses P (headerDescent P) mk s'.keyRing := by
  obtain ⟨ck, hk, hck, hhk⟩ := h.exists_ckr hckr
  obtain ⟨sk, depth, F, hsk, hstands⟩ := h.stands
  obtain ⟨rfl, hnr, hrest, hlook⟩ := receiveOnChain_eq_ok hhk hck hkey
  have hring : s'.keyRing = { s.keyRing with
      ckr := some (chainKeyHe P ck (max s.nr.toNat n.toNat + 1 - s.nr.toNat))
      store := fun k ↦ s'.mkskipped.lookup k } := by
    rw [← hnr, hrest]
    rfl
  obtain ⟨F', hstands', huses⟩ :=
    hstands.skip_next hP (headerDescent_faithful hP) hsk hck hlook hring
  refine ⟨⟨⟨sk, depth, F', hsk, ?_⟩, ?_, ?_⟩, huses⟩
  · have hns : s'.ns = s.ns := by rw [hrest]
    rw [hnr, hns]
    exact hstands'
  · intro _
    rw [hrest, hhk]
    rfl
  · rw [hrest]
    exact h.next

/-- **Receiving uses up the key** that it derives. -/
theorem Sound.receive {σ : Enumeration} {encHeader : List B}
    (hkey : receiveKey P σ fresh encHeader s = .ok (mk, s')) :
    s'.Sound P ∧ s.keyRing.Uses P (headerDescent P) mk s'.keyRing := by
  rcases receiveKey_cases P σ fresh encHeader s with
    ⟨hk, header, mk', -, hlook, heq⟩ | ⟨-, ⟨hk, header, -, -, heq⟩ |
      ⟨-, ⟨hk, header, -, -, heq⟩ | ⟨-, heq⟩⟩⟩
  · -- stored
    rw [heq] at hkey
    cases hkey
    obtain ⟨sk, depth, F, hsk, hstands⟩ := h.stands
    obtain ⟨hstands', huses⟩ := hstands.stored hP (headerDescent_faithful hP) hsk hlook
      (fun k ↦ Dict.lookup_erase _ _ k) rfl
    exact ⟨⟨⟨sk, depth, F, hsk, hstands'⟩, h.current, h.next⟩, huses⟩
  · -- on the chain
    rw [heq] at hkey
    obtain ⟨ck, hck⟩ := isSome_ckr_of_receiveOnChain hkey
    exact h.advance hP (by rw [hck]; rfl) hkey
  · -- on the next chain
    rw [heq] at hkey
    obtain ⟨t, hskip, hkey⟩ := Except.bind_eq_ok.1 hkey
    obtain ⟨u, hratchet, hkey⟩ := Except.bind_eq_ok.1 hkey
    obtain ⟨ht, hwithin₁⟩ := h.skip hP hskip
    obtain ⟨hckr, hu, hwithin₂⟩ := ht.ratchet hratchet
    obtain ⟨hs', huses⟩ := hu.advance hP hckr hkey
    exact ⟨hs', hwithin₁.trans_uses (hwithin₂.trans_uses huses)⟩
  · rw [heq] at hkey
    cases hkey

/-- **Sending uses up the key** that it derives. -/
theorem Sound.encrypt {headerNonce : Block B 12} {pt ad encHeader ct : List B}
    (henc : encrypt P headerNonce s pt ad = .ok ((encHeader, ct), s')) :
    s'.Sound P ∧ ∃ mk, s.keyRing.Uses P (headerDescent P) mk s'.keyRing ∧
      aeadSeal P mk (deriveNonce mk) pt (concatAdHe ad encHeader) = .ok ct := by
  obtain ⟨cks, dhs, hks, ns, hcks, -, -, hns, -, hct, rfl⟩ := encrypt_eq_ok henc
  obtain ⟨sk, depth, F, hsk, hstands⟩ := h.stands
  obtain ⟨hstands', huses⟩ := hstands.send hP (headerDescent_faithful hP) hsk hcks rfl
  refine ⟨⟨⟨sk, depth, F, hsk, ?_⟩, h.current, h.next⟩, _, huses, hct⟩
  have hns' : ns.toNat = s.ns.toNat + 1 := checkedInc_eq_ok hns
  exact hns' ▸ hstands'

end Steps

end HeaderEncryptState

end VoiceChatCrypto
