import VoiceChatCrypto.Data.Party
import VoiceChatCrypto.Data.System
import VoiceChatCrypto.Primitives.Symbolic

/-!
# Continuous key agreement by whole encapsulations

`MlKemCka` of `src/ratchet/scka.rs`: a party sends a fresh encapsulation key, its peer answers with a
ciphertext, and both have a new secret; then the next key is sent. Both parties may do this at once, in
both directions, over a network that loses and reorders messages but delivers none of them twice, and
either may be reloaded from storage at any time.

A party that has sent a key and waits for the answer may call `send` again, and then it sends the same
key once more. If it does so only after the first copy, or the answer to it, was lost, then no two
secrets are ever confused (`cka_agreement`) and another one can always be agreed on (`cka_next_secret`).
It must wait so long: an answer to the second copy finds a decapsulation key that is gone by then, or
another one (`resend_disagrees`).
-/

open Alphabet

namespace VoiceChatCrypto

variable {B : Type} [Alphabet B]

/-! ### Messages -/

/-- `SckaMessage`. -/
inductive SckaMessage (B : Type)
  | encapsulationKey (bytes : List B)
  | ciphertext (bytes : List B)
  deriving DecidableEq

namespace SckaMessage

/-- `encode`. -/
def encode : SckaMessage B → List B
  | encapsulationKey b => ofNat 1 :: b
  | ciphertext b => ofNat 2 :: b

/-- `decode`. -/
def decode (P : Primitives B) (data : List B) : Except PrimitiveError (SckaMessage B) := do
  let (tag, rest) ← Cursor.takeTag PrimitiveError.invalidLength data
  match tag with
  | 1 =>
    if data.length ≠ 1 + 1184 then throw .invalidPublicKey
    let _ ← kemPublicFromBytes P rest
    return encapsulationKey rest
  | 2 =>
    if data.length ≠ 1 + 1088 then throw .invalidKemCiphertext
    return ciphertext rest
  | _ => throw .invalidLength

/-- The messages that parties send: a valid key, or something as long as a ciphertext. -/
inductive WellFormed (P : Primitives B) : SckaMessage B → Prop
  | encapsulationKey (pk : Block B 1184) (h : P.kemValid pk = true) :
      WellFormed P (encapsulationKey pk.val)
  | ciphertext (ct : Block B 1088) : WellFormed P (ciphertext ct.val)

variable {P : Primitives B}

omit [Alphabet B] in
/-- A key that passes the check is accepted as it is. -/
theorem kemPublicFromBytes_valid {pk : Block B 1184} (h : P.kemValid pk = true) :
    kemPublicFromBytes P pk.val = .ok pk := by
  have hlen : pk.val.length = 1184 := pk.2
  rw [kemPublicFromBytes, dif_pos hlen]
  exact if_pos h

omit [Alphabet B] in
/-- A ciphertext of the right length is accepted as it is. -/
theorem kemCiphertextFromBytes_val (ct : Block B 1088) : kemCiphertextFromBytes ct.val = .ok ct := by
  have hlen : ct.val.length = 1088 := ct.2
  rw [kemCiphertextFromBytes, dif_pos hlen]
  rfl

/-- **What a party sends is read back as it was.** -/
theorem decode_encode {m : SckaMessage B} (h : m.WellFormed P) : decode P m.encode = .ok m := by
  rcases h with ⟨pk, hpk⟩ | ct
  · simp [decode, encode, kemPublicFromBytes_valid hpk, bind, Except.bind, pure, Except.pure]
  · simp [decode, encode, bind, Except.bind, pure, Except.pure]

/-- **Only what a party could have sent is read**, and it has one encoding. -/
theorem encode_of_decode (hB : Bytes B) {data : List B} {m : SckaMessage B}
    (h : decode P data = .ok m) : m.WellFormed P ∧ m.encode = data := by
  obtain ⟨⟨tag, rest⟩, htag, h⟩ := Except.bind_eq_ok.1 h
  obtain ⟨rfl, -⟩ := Cursor.takeTag_eq_ok hB htag
  dsimp only at h
  split at h
  · split at h
    · cases h
    rename_i hlen
    obtain ⟨pk, hpk, h⟩ := Except.bind_eq_ok.1 h
    obtain rfl := Except.ok.inj h
    unfold kemPublicFromBytes at hpk
    split at hpk
    · rename_i hrest
      split at hpk
      · rename_i hvalid
        exact ⟨.encapsulationKey ⟨rest, hrest⟩ hvalid, rfl⟩
      · cases hpk
    · cases hpk
  · split at h
    · cases h
    rename_i hlen
    obtain rfl := Except.ok.inj h
    have hrest : rest.length = 1088 := by
      rw [not_not, List.length_cons] at hlen
      omega
    exact ⟨.ciphertext ⟨rest, hrest⟩, rfl⟩
  · cases h

end SckaMessage

/-! ### The state -/

/-- `MlKemCka`. -/
structure MlKemCka (B : Type) where
  /-- The key pair whose public half was sent, until it is answered. -/
  pendingDk : Option (Block B 64)
  /-- The peer's key, until it is used for an answer. -/
  remoteEk : Option (Block B 1184)
  deriving DecidableEq

namespace MlKemCka

variable (P : Primitives B)

/-- `new`. -/
def new : MlKemCka B := { pendingDk := none, remoteEk := none }

/-- `send`, with the seed and the coins that it may draw. -/
def send (seed : Block B 64) (coins : Block B 32) (s : MlKemCka B) :
    Except PrimitiveError (SckaMessage B × Option (Block B 32)) × MlKemCka B :=
  match s.remoteEk with
  | some ek =>
    let s := { s with remoteEk := none }
    match kemEncapsulate P ek coins with
    | .ok (ss, ct) => (.ok (.ciphertext ct.val, some ss), s)
    | .error e => (.error e, s)
  | none =>
    match s.pendingDk with
    | none => (.ok (.encapsulationKey (P.kemPublic seed).val, none), { s with pendingDk := some seed })
    -- the same key once more
    | some dk => (.ok (.encapsulationKey (P.kemPublic dk).val, none), s)

/-- `receive`. The decapsulation key is used up before the ciphertext is looked at. -/
def receive (s : MlKemCka B) :
    SckaMessage B → Except PrimitiveError (Option (Block B 32)) × MlKemCka B
  | .encapsulationKey bytes =>
    match kemPublicFromBytes P bytes with
    | .ok pk => (.ok none, { s with remoteEk := some pk })
    | .error e => (.error e, s)
  | .ciphertext bytes =>
    match s.pendingDk with
    | none => (.error .invalidKemCiphertext, s)
    | some dk =>
      let s := { s with pendingDk := none }
      match kemCiphertextFromBytes bytes with
      | .ok ct => (.ok (some (P.kemDecapsulate dk ct)), s)
      | .error e => (.error e, s)

/-- An optional block behind a flag. -/
def writeOption {n : ℕ} : Option (Block B n) → List B
  | some b => ofNat 1 :: b.val
  | none => [ofNat 0]

/-- `serialize`. -/
def serialize (s : MlKemCka B) : List B := writeOption s.pendingDk ++ writeOption s.remoteEk

/-- `deserialize`. -/
def deserialize (data : List B) : Except PrimitiveError (MlKemCka B) := do
  let (hasDk, data) ← Cursor.takeTag PrimitiveError.invalidLength data
  let (pendingDk, data) ←
    if hasDk = 1 then do
      let (seed, data) ← Cursor.takeBlock PrimitiveError.invalidLength 64 data
      pure (some seed, data)
    else if hasDk = 0 then pure (none, data)
    else throw PrimitiveError.invalidLength
  let (hasEk, data) ← Cursor.takeTag PrimitiveError.invalidLength data
  if hasEk = 1 then
    if data.length ≠ 1184 then throw .invalidLength
    let pk ← kemPublicFromBytes P data
    return { pendingDk, remoteEk := some pk }
  else if hasEk = 0 then Cursor.finish PrimitiveError.invalidLength data { pendingDk, remoteEk := none }
  else throw .invalidLength

/-- The key that a party holds of its peer has been checked. -/
def Valid (s : MlKemCka B) : Prop := ∀ pk, s.remoteEk = some pk → P.kemValid pk = true

/-- A party that has sent its key and not heard of it since. -/
def Waits (s : MlKemCka B) : Prop := s.remoteEk = none ∧ s.pendingDk ≠ none

variable {P} {s : MlKemCka B}

/-- **A reload puts the state back.** -/
theorem deserialize_serialize (hs : s.Valid P) : deserialize P s.serialize = .ok s := by
  obtain ⟨dk, ek⟩ := s
  rcases dk with - | dk <;> rcases ek with - | ek
  · simp [deserialize, serialize, writeOption, bind, Except.bind, pure, Except.pure]
  · have hpk := SckaMessage.kemPublicFromBytes_valid (hs ek rfl)
    simp [deserialize, serialize, writeOption, hpk, bind, Except.bind, pure, Except.pure]
  · simp [deserialize, serialize, writeOption, bind, Except.bind, pure, Except.pure]
  · have hpk := SckaMessage.kemPublicFromBytes_valid (hs ek rfl)
    simp [deserialize, serialize, writeOption, hpk, bind, Except.bind, pure, Except.pure]

end MlKemCka

/-! ### Two parties -/

/-- Two parties, what is on the way from each of them, the secrets that each had from encapsulating and
from decapsulating, and how many of its answers were lost. -/
structure CkaNet (B : Type) where
  /-- The state of each party. -/
  state : Party → MlKemCka B
  /-- What is on the way from each party, in order. -/
  wire : Party → List (SckaMessage B)
  /-- The secrets that each party has made for the other's keys. -/
  made : Party → List (Block B 32)
  /-- The secrets that each party got out of the answers. -/
  got : Party → List (Block B 32)
  /-- How many answers of each party were lost. -/
  lost : Party → ℕ

/-- A result of `send`. -/
abbrev SendResult (B : Type) :=
  Except PrimitiveError (SckaMessage B × Option (Block B 32)) × MlKemCka B

/-- A result of `receive`. -/
abbrev ReceiveResult (B : Type) := Except PrimitiveError (Option (Block B 32)) × MlKemCka B

namespace CkaNet

variable (P : Primitives B)

/-- Nothing has happened yet. -/
def init : CkaNet B :=
  { state := fun _ ↦ .new, wire := fun _ ↦ [], made := fun _ ↦ [], got := fun _ ↦ [],
    lost := fun _ ↦ 0 }

/-- The encapsulation keys on a wire. -/
def keys (l : List (SckaMessage B)) : List (List B) :=
  l.filterMap fun
    | .encapsulationKey b => some b
    | .ciphertext _ => none

/-- The ciphertexts on a wire. -/
def answers (l : List (SckaMessage B)) : List (List B) :=
  l.filterMap fun
    | .encapsulationKey _ => none
    | .ciphertext b => some b

/-- After a call of `send`. -/
def afterSend (net : CkaNet B) (p : Party) (r : SendResult B) : CkaNet B :=
  match r with
  | (.ok (m, ss), s) =>
    { net with
      state := Function.update net.state p s
      wire := Function.update net.wire p (net.wire p ++ [m])
      made := Function.update net.made p (net.made p ++ ss.toList) }
  | (.error _, s) => { net with state := Function.update net.state p s }

/-- What a party makes of a message that arrives in its encoding. -/
def hear (net : CkaNet B) (p : Party) (m : SckaMessage B) : ReceiveResult B :=
  match SckaMessage.decode P m.encode with
  | .ok m => (net.state p).receive P m
  | .error e => (.error e, net.state p)

/-- After a delivery that leaves `rest` on the way. -/
def afterReceive (net : CkaNet B) (p : Party) (rest : List (SckaMessage B)) (r : ReceiveResult B) :
    CkaNet B :=
  { net with
    state := Function.update net.state p r.2
    wire := Function.update net.wire p.peer rest
    got := Function.update net.got p (net.got p ++ (r.1.toOption.bind id).toList) }

/-- After the loss of a message of `p`. -/
def afterLoss (net : CkaNet B) (p : Party) (rest : List (SckaMessage B)) (m : SckaMessage B) :
    CkaNet B :=
  { net with
    wire := Function.update net.wire p rest
    lost := Function.update net.lost p (net.lost p + (answers [m]).length) }

/-- The key of a party, or the answer to it, is gone: nobody has it and it is not on the way. -/
def Missed (net : CkaNet B) (p : Party) : Prop :=
  keys (net.wire p) = [] ∧ answers (net.wire p.peer) = [] ∧ (net.state p.peer).remoteEk = none

/-- One step: a party sends, though not a second time while the first may still be answered; a party
hears any of the messages on the way to it; a message is lost; or a party is reloaded from storage. -/
inductive Step : CkaNet B → CkaNet B → Prop
  | send (net : CkaNet B) (p : Party) (seed : Block B 64) (coins : Block B 32)
      (hwaits : (net.state p).Waits → net.Missed p) :
      Step net (net.afterSend p ((net.state p).send P seed coins))
  | deliver (net : CkaNet B) (p : Party) (m : SckaMessage B) (before after : List (SckaMessage B))
      (hwire : net.wire p.peer = before ++ m :: after) :
      Step net (net.afterReceive p (before ++ after) (net.hear P p m))
  | lose (net : CkaNet B) (p : Party) (m : SckaMessage B) (before after : List (SckaMessage B))
      (hwire : net.wire p = before ++ m :: after) :
      Step net (net.afterLoss p (before ++ after) m)
  | reload (net : CkaNet B) (p : Party) (s : MlKemCka B)
      (hload : MlKemCka.deserialize P (net.state p).serialize = .ok s) :
      Step net { net with state := Function.update net.state p s }

/-- The runs of two parties. -/
def exchange : System (CkaNet B) where
  start net := net = init
  step := Step P

/-! ### Where the key of a party is -/

/-- The secrets from decapsulating are those from encapsulating, in order, but for `n` of them. -/
def Tally (got made : List (Block B 32)) (n : ℕ) : Prop :=
  got.Sublist made ∧ made.length = got.length + n

/-- Where the key of a party is: it has none, it is on its way to the peer, the peer has it, the peer's
answer is on its way back, or one of the two was lost. With it, what the peer has of it, the two wires,
the secrets from both ends and the number of lost answers. -/
inductive Phase : Option (Block B 64) → Option (Block B 1184) → List (List B) → List (List B) →
    List (Block B 32) → List (Block B 32) → ℕ → Prop
  | idle {g m : List (Block B 32)} {n : ℕ} (h : Tally g m n) : Phase none none [] [] g m n
  | asked (dk : Block B 64) {g m : List (Block B 32)} {n : ℕ} (h : Tally g m n) :
      Phase (some dk) none [(P.kemPublic dk).val] [] g m n
  | held (dk : Block B 64) {g m : List (Block B 32)} {n : ℕ} (h : Tally g m n) :
      Phase (some dk) (some (P.kemPublic dk)) [] [] g m n
  | answered (dk : Block B 64) (coins : Block B 32) {g m : List (Block B 32)} {n : ℕ}
      (h : Tally g m n) :
      Phase (some dk) none [] [(P.kemEncapsulate (P.kemPublic dk) coins).2.val] g
        (m ++ [(P.kemEncapsulate (P.kemPublic dk) coins).1]) n
  | missed (dk : Block B 64) {g m : List (Block B 32)} {n : ℕ} (h : Tally g m n) :
      Phase (some dk) none [] [] g m n

/-- A list of one element has one place to be split at. -/
theorem singleton_eq_append_cons {α : Type*} {a b : α} {before after : List α}
    (h : [a] = before ++ b :: after) : before = [] ∧ b = a ∧ after = [] := by
  rcases before with - | ⟨c, before⟩
  · obtain ⟨rfl, rfl⟩ := List.cons.inj h
    exact ⟨rfl, rfl, rfl⟩
  · simp at h

namespace Phase

variable {P} {dk : Option (Block B 64)} {ek : Option (Block B 1184)} {ks as : List (List B)}
  {g m : List (Block B 32)} {n : ℕ}

omit [Alphabet B] in
/-- A key that the peer has. -/
theorem of_held {pk : Block B 1184} (h : Phase P dk ek ks as g m n) (hek : ek = some pk) :
    ∃ dk', dk = some dk' ∧ pk = P.kemPublic dk' ∧ ks = [] ∧ as = [] ∧ Tally g m n := by
  rcases h with h | ⟨dk, h⟩ | ⟨dk, h⟩ | ⟨dk, coins, h⟩ | ⟨dk, h⟩
  · cases hek
  · cases hek
  · obtain rfl := Option.some.inj hek
    exact ⟨dk, rfl, rfl, rfl, rfl, h⟩
  · cases hek
  · cases hek

omit [Alphabet B] in
/-- No key, so nobody has it. -/
theorem of_idle (h : Phase P dk ek ks as g m n) (hdk : dk = none) : ek = none ∧ ks = [] ∧ as = [] := by
  rcases h with h | ⟨dk, h⟩ | ⟨dk, h⟩ | ⟨dk, coins, h⟩ | ⟨dk, h⟩
  · exact ⟨rfl, rfl, rfl⟩
  · cases hdk
  · cases hdk
  · cases hdk
  · cases hdk

omit [Alphabet B] in
/-- A key on its way. -/
theorem of_asked {b : List B} {before after : List (List B)} (h : Phase P dk ek ks as g m n)
    (hks : ks = before ++ b :: after) :
    ∃ dk', dk = some dk' ∧ ek = none ∧ b = (P.kemPublic dk').val ∧ before = [] ∧ after = [] ∧
      as = [] ∧ Tally g m n := by
  rcases h with h | ⟨dk, h⟩ | ⟨dk, h⟩ | ⟨dk, coins, h⟩ | ⟨dk, h⟩
  · simp at hks
  · obtain ⟨rfl, rfl, rfl⟩ := singleton_eq_append_cons hks
    exact ⟨dk, rfl, rfl, rfl, rfl, rfl, rfl, h⟩
  · simp at hks
  · simp at hks
  · simp at hks

omit [Alphabet B] in
/-- An answer on its way. -/
theorem of_answered {b : List B} {before after : List (List B)} (h : Phase P dk ek ks as g m n)
    (has : as = before ++ b :: after) :
    ∃ dk' coins m', dk = some dk' ∧ ek = none ∧ ks = [] ∧
      b = (P.kemEncapsulate (P.kemPublic dk') coins).2.val ∧ before = [] ∧ after = [] ∧
      m = m' ++ [(P.kemEncapsulate (P.kemPublic dk') coins).1] ∧ Tally g m' n := by
  rcases h with h | ⟨dk, h⟩ | ⟨dk, h⟩ | ⟨dk, coins, h⟩ | ⟨dk, h⟩
  · simp at has
  · simp at has
  · simp at has
  · obtain ⟨rfl, rfl, rfl⟩ := singleton_eq_append_cons has
    exact ⟨dk, coins, _, rfl, rfl, rfl, rfl, rfl, rfl, rfl, h⟩
  · simp at has

omit [Alphabet B] in
/-- Otherwise there is nothing to wait for. -/
theorem tally_of_nil (h : Phase P dk ek ks as g m n) (has : as = []) : Tally g m n := by
  rcases h with h | ⟨dk, h⟩ | ⟨dk, h⟩ | ⟨dk, coins, h⟩ | ⟨dk, h⟩
  · exact h
  · exact h
  · exact h
  · cases has
  · exact h

end Phase

/-- **Coherence**: the key of each party is in one place, and the secrets of both sides agree but
for the answers that were lost. `Phase` lists the places. -/
def Coherent (net : CkaNet B) : Prop :=
  ∀ p, Phase P (net.state p).pendingDk (net.state p.peer).remoteEk (keys (net.wire p))
    (answers (net.wire p.peer)) (net.got p) (net.made p.peer) (net.lost p.peer)

variable {P} {net : CkaNet B}

theorem peer_ne (p : Party) : p.peer ≠ p := by
  rcases p with - | - <;> decide

omit [Alphabet B] in
/-- What concerns the key of one party and what concerns that of the other. -/
theorem coherent_of_both (p : Party)
    (h : Phase P (net.state p).pendingDk (net.state p.peer).remoteEk (keys (net.wire p))
      (answers (net.wire p.peer)) (net.got p) (net.made p.peer) (net.lost p.peer))
    (h' : Phase P (net.state p.peer).pendingDk (net.state p).remoteEk (keys (net.wire p.peer))
      (answers (net.wire p)) (net.got p.peer) (net.made p) (net.lost p)) : net.Coherent P := by
  intro q
  rcases Party.eq_or_eq_peer q p with rfl | rfl
  · exact h
  · rwa [Party.peer_peer]

omit [Alphabet B] in
/-- Seen from the peer, a coherent network is in a phase as well. -/
theorem Coherent.of_peer (h : net.Coherent P) (p : Party) :
    Phase P (net.state p.peer).pendingDk (net.state p).remoteEk (keys (net.wire p.peer))
      (answers (net.wire p)) (net.got p.peer) (net.made p) (net.lost p) := by
  have hphase := h p.peer
  rwa [Party.peer_peer] at hphase

omit [Alphabet B] in
theorem Coherent.valid (hK : IdealKem P) (h : net.Coherent P) (p : Party) : (net.state p).Valid P := by
  intro pk hpk
  obtain ⟨dk, -, rfl, -⟩ := (h.of_peer p).of_held hpk
  exact hK.valid dk

omit [Alphabet B] in
/-- Nothing on the way and nothing kept is coherent. -/
theorem coherent_init : (init : CkaNet B).Coherent P :=
  fun _ ↦ .idle ⟨.refl _, rfl⟩

omit [Alphabet B] in
theorem keys_append (l l' : List (SckaMessage B)) : keys (l ++ l') = keys l ++ keys l' :=
  List.filterMap_append

omit [Alphabet B] in
theorem answers_append (l l' : List (SckaMessage B)) : answers (l ++ l') = answers l ++ answers l' :=
  List.filterMap_append

/-! ### Sending -/

omit [Alphabet B] in
/-- A party that has a key of its peer answers it. -/
theorem send_held (hK : IdealKem P) {s : MlKemCka B} {dk seed : Block B 64} {coins : Block B 32}
    (hek : s.remoteEk = some (P.kemPublic dk)) :
    s.send P seed coins =
      (.ok (.ciphertext (P.kemEncapsulate (P.kemPublic dk) coins).2.val,
        some (P.kemEncapsulate (P.kemPublic dk) coins).1), { s with remoteEk := none }) := by
  unfold MlKemCka.send
  rw [hek]
  dsimp only
  rw [kemEncapsulate, if_pos (hK.valid dk)]

omit [Alphabet B] in
/-- Any other sends its own key, a fresh one or the one it has. -/
theorem send_own {s : MlKemCka B} {seed : Block B 64} {coins : Block B 32} (hek : s.remoteEk = none) :
    s.send P seed coins =
      (.ok (.encapsulationKey (P.kemPublic (s.pendingDk.getD seed)).val, none),
        { s with pendingDk := some (s.pendingDk.getD seed) }) := by
  unfold MlKemCka.send
  rw [hek]
  rcases hdk : s.pendingDk with - | dk
  · rfl
  · dsimp only
    rw [Option.getD_some, ← hdk, ← hek]

omit [Alphabet B] in
/-- **Sending keeps coherence.** -/
theorem Coherent.send (hK : IdealKem P) (h : net.Coherent P) (p : Party) (seed : Block B 64)
    (coins : Block B 32) (hwaits : (net.state p).Waits → net.Missed p) :
    (net.afterSend p ((net.state p).send P seed coins)).Coherent P := by
  have hp := h p
  have hpeer := h.of_peer p
  have hne := peer_ne p
  rcases hek : (net.state p).remoteEk with - | ek
  · -- its own key, which is nowhere else
    have hphase : (keys (net.wire p) = [] ∧ answers (net.wire p.peer) = []) ∧
        (net.state p.peer).remoteEk = none := by
      rcases hdk : (net.state p).pendingDk with - | dk
      · rw [hdk] at hp
        obtain ⟨hek', hkeys, hanswers⟩ := hp.of_idle rfl
        exact ⟨⟨hkeys, hanswers⟩, hek'⟩
      · obtain ⟨hkeys, hanswers, hek'⟩ := hwaits ⟨hek, by rw [hdk]; exact Option.some_ne_none _⟩
        exact ⟨⟨hkeys, hanswers⟩, hek'⟩
    obtain ⟨⟨hkeys, hanswers⟩, hek'⟩ := hphase
    have htally := hp.tally_of_nil hanswers
    rw [send_own hek]
    refine coherent_of_both p ?_ ?_
    · simp only [afterSend, Function.update_self, Function.update_of_ne hne, Option.toList_none,
        List.append_nil, hek', hanswers, keys_append, hkeys, List.nil_append]
      exact .asked _ htally
    · simp only [afterSend, Function.update_self, Function.update_of_ne hne, Option.toList_none,
        List.append_nil, answers_append]
      simpa [answers] using hpeer
  · obtain ⟨dk, hdk, rfl, hkeys, hanswers, htally⟩ := hpeer.of_held hek
    rw [send_held hK hek]
    refine coherent_of_both p ?_ ?_
    · simp only [afterSend, Function.update_self, Function.update_of_ne hne, keys_append]
      simpa [keys] using hp
    · simp only [afterSend, Function.update_self, Function.update_of_ne hne, hdk, hkeys,
        answers_append, hanswers, List.nil_append, Option.toList_some]
      exact .answered dk coins htally

/-! ### Hearing -/

/-- A key is taken down. -/
theorem hear_key (hK : IdealKem P) {p : Party} {dk : Block B 64} :
    net.hear P p (.encapsulationKey (P.kemPublic dk).val) =
      (.ok none, { net.state p with remoteEk := some (P.kemPublic dk) }) := by
  rw [hear, SckaMessage.decode_encode (.encapsulationKey _ (hK.valid dk))]
  dsimp only [MlKemCka.receive]
  rw [SckaMessage.kemPublicFromBytes_valid (hK.valid dk)]

/-- An answer gives the secret that was encapsulated. -/
theorem hear_answer (hK : IdealKem P) {p : Party} {dk : Block B 64} {coins : Block B 32}
    (hdk : (net.state p).pendingDk = some dk) :
    net.hear P p (.ciphertext (P.kemEncapsulate (P.kemPublic dk) coins).2.val) =
      (.ok (some (P.kemEncapsulate (P.kemPublic dk) coins).1),
        { net.state p with pendingDk := none }) := by
  rw [hear, SckaMessage.decode_encode (.ciphertext _)]
  dsimp only [MlKemCka.receive]
  rw [hdk]
  dsimp only
  rw [SckaMessage.kemCiphertextFromBytes_val]
  dsimp only
  rw [hK.decapsulate]

/-- **Hearing keeps coherence**, and is never refused. -/
theorem Coherent.deliver (hK : IdealKem P) (h : net.Coherent P) {p : Party} {m : SckaMessage B}
    {before after : List (SckaMessage B)} (hwire : net.wire p.peer = before ++ m :: after) :
    (net.afterReceive p (before ++ after) (net.hear P p m)).Coherent P ∧
      ∃ ss s, net.hear P p m = (.ok ss, s) := by
  have hp := h p
  have hpeer := h.of_peer p
  have hne := peer_ne p
  rcases m with b | b
  · have hkeys : keys (net.wire p.peer) = keys before ++ b :: keys after := by
      rw [hwire, keys_append]
      rfl
    have hanswers : answers (net.wire p.peer) = answers (before ++ after) := by
      rw [hwire, answers_append, answers_append]
      rfl
    obtain ⟨dk, hdk, hek, rfl, hbefore, hafter, hnil, htally⟩ := hpeer.of_asked hkeys
    have hrest : keys (before ++ after) = [] := by
      rw [keys_append, hbefore, hafter, List.nil_append]
    rw [hear_key hK]
    refine ⟨coherent_of_both p ?_ ?_, _, _, rfl⟩
    · simp only [afterReceive, Function.update_self, Function.update_of_ne hne,
        Function.update_of_ne hne.symm, ← hanswers]
      simpa [Except.toOption] using hp
    · simp only [afterReceive, Function.update_self, Function.update_of_ne hne,
        Function.update_of_ne hne.symm, hdk, hrest, hnil]
      exact .held dk htally
  · have hkeys : keys (net.wire p.peer) = keys (before ++ after) := by
      rw [hwire, keys_append, keys_append]
      rfl
    have hanswers : answers (net.wire p.peer) = answers before ++ b :: answers after := by
      rw [hwire, answers_append]
      rfl
    obtain ⟨dk, coins, made, hdk, hek, hnil, rfl, hbefore, hafter, hmade, hsub, hlen⟩ :=
      hp.of_answered hanswers
    have hrest : answers (before ++ after) = [] := by
      rw [answers_append, hbefore, hafter, List.nil_append]
    rw [hear_answer hK hdk]
    refine ⟨coherent_of_both p ?_ ?_, _, _, rfl⟩
    · simp only [afterReceive, Function.update_self, Function.update_of_ne hne,
        Function.update_of_ne hne.symm, hek, hnil, hrest, hmade]
      refine .idle ⟨hsub.append (.refl _), ?_⟩
      show _ = (net.got p ++ [_]).length + _
      rw [List.length_append, List.length_append, hlen]
      show _ + 1 = _ + 1 + _
      omega
    · simp only [afterReceive, Function.update_self, Function.update_of_ne hne,
        Function.update_of_ne hne.symm, ← hkeys]
      simpa using hpeer

omit [Alphabet B] in
/-- **A loss keeps coherence.** -/
theorem Coherent.lose (h : net.Coherent P) {p : Party} {m : SckaMessage B}
    {before after : List (SckaMessage B)} (hwire : net.wire p = before ++ m :: after) :
    (net.afterLoss p (before ++ after) m).Coherent P := by
  have hp := h p
  have hpeer := h.of_peer p
  have hne := peer_ne p
  rcases m with b | b
  · have hkeys : keys (net.wire p) = keys before ++ b :: keys after := by
      rw [hwire, keys_append]
      rfl
    have hanswers : answers (net.wire p) = answers (before ++ after) := by
      rw [hwire, answers_append, answers_append]
      rfl
    obtain ⟨dk, hdk, hek, rfl, hbefore, hafter, hnil, htally⟩ := hp.of_asked hkeys
    have hrest : keys (before ++ after) = [] := by
      rw [keys_append, hbefore, hafter, List.nil_append]
    refine coherent_of_both p ?_ ?_
    · simp only [afterLoss, Function.update_self, Function.update_of_ne hne, hdk, hek, hrest, hnil]
      exact .missed dk htally
    · simp only [afterLoss, Function.update_self, Function.update_of_ne hne, ← hanswers]
      exact hpeer
  · have hkeys : keys (net.wire p) = keys (before ++ after) := by
      rw [hwire, keys_append, keys_append]
      rfl
    have hanswers : answers (net.wire p) = answers before ++ b :: answers after := by
      rw [hwire, answers_append]
      rfl
    obtain ⟨dk, coins, made, hdk, hek, hnil, rfl, hbefore, hafter, hmade, hsub, hlen⟩ :=
      hpeer.of_answered hanswers
    have hrest : answers (before ++ after) = [] := by
      rw [answers_append, hbefore, hafter, List.nil_append]
    refine coherent_of_both p ?_ ?_
    · simp only [afterLoss, Function.update_self, Function.update_of_ne hne, ← hkeys]
      exact hp
    · simp only [afterLoss, Function.update_self, Function.update_of_ne hne, hdk, hek, hnil, hrest,
        hmade]
      refine .missed dk ⟨hsub.trans (List.sublist_append_left _ _), ?_⟩
      rw [List.length_append, hlen]
      rfl

/-- Writing and reading back a state keeps the invariant. -/
theorem Coherent.reload (hK : IdealKem P) (h : net.Coherent P) {p : Party} {s : MlKemCka B}
    (hload : MlKemCka.deserialize P (net.state p).serialize = .ok s) :
    ({ net with state := Function.update net.state p s } : CkaNet B) = net := by
  rw [MlKemCka.deserialize_serialize (h.valid hK p)] at hload
  obtain rfl := Except.ok.inj hload
  rw [Function.update_eq_self]

/-- **Each step keeps the invariant.** -/
theorem Coherent.step (hK : IdealKem P) (h : net.Coherent P) {net' : CkaNet B} (hstep : Step P net net') :
    net'.Coherent P := by
  rcases hstep with ⟨p, seed, coins, hwaits⟩ | ⟨p, m, before, after, hwire⟩ |
    ⟨p, m, before, after, hwire⟩ | ⟨p, s, hload⟩
  · exact h.send hK p seed coins hwaits
  · exact (h.deliver hK hwire).1
  · exact h.lose hwire
  · rwa [h.reload hK hload]

theorem coherent_of_reachable (hK : IdealKem P) (h : (exchange P).Reachable net) : net.Coherent P :=
  h.invariant (by rintro _ rfl; exact coherent_init) fun _ _ _ hcoh hstep ↦ hcoh.step hK hstep

/-! ### Agreement -/

omit [Alphabet B] in
/-- A message on a wire that is not empty of them. -/
theorem exists_of_keys {l : List (SckaMessage B)} (h : keys l ≠ []) :
    ∃ b before after, l = before ++ .encapsulationKey b :: after := by
  obtain ⟨b, hb⟩ := List.exists_mem_of_ne_nil _ h
  obtain ⟨m, hm, heq⟩ := List.mem_filterMap.1 hb
  rcases m with c | c
  · obtain ⟨before, after, hl⟩ := List.append_of_mem hm
    exact ⟨c, before, after, hl⟩
  · cases heq

omit [Alphabet B] in
theorem exists_of_answers {l : List (SckaMessage B)} (h : answers l ≠ []) :
    ∃ b before after, l = before ++ .ciphertext b :: after := by
  obtain ⟨b, hb⟩ := List.exists_mem_of_ne_nil _ h
  obtain ⟨m, hm, heq⟩ := List.mem_filterMap.1 hb
  rcases m with c | c
  · cases heq
  · obtain ⟨before, after, hl⟩ := List.append_of_mem hm
    exact ⟨c, before, after, hl⟩

omit [Alphabet B] in
/-- Where nothing was lost, both have the same secrets. -/
theorem Tally.eq {got made : List (Block B 32)} (h : Tally got made 0) : got = made :=
  h.1.eq_of_length h.2.symm

omit [Alphabet B] in
/-- What the two ends of one direction have of each other. -/
theorem Phase.count {dk : Option (Block B 64)} {ek : Option (Block B 1184)} {ks as : List (List B)}
    {g m : List (Block B 32)} {n : ℕ} (h : Phase P dk ek ks as g m n) :
    g.Sublist m ∧ m.length = g.length + n + as.length ∧ (n = 0 → g <+: m) := by
  rcases h with h | ⟨dk, h⟩ | ⟨dk, h⟩ | ⟨dk, coins, h⟩ | ⟨dk, h⟩
  · exact ⟨h.1, h.2, fun hn ↦ by subst hn; rw [h.eq]⟩
  · exact ⟨h.1, h.2, fun hn ↦ by subst hn; rw [h.eq]⟩
  · exact ⟨h.1, h.2, fun hn ↦ by subst hn; rw [h.eq]⟩
  · refine ⟨h.1.trans (List.sublist_append_left _ _), ?_, fun hn ↦ ?_⟩
    · rw [List.length_append, h.2]
      rfl
    · subst hn
      rw [h.eq]
      exact List.prefix_append _ _
  · exact ⟨h.1, h.2, fun hn ↦ by subst hn; rw [h.eq]⟩

/-! ### The next secret -/

/-- A run that adds a secret to those of `p`, and in which nothing is lost. -/
def Next (P : Primitives B) (net : CkaNet B) (p : Party) : Prop :=
  ∃ net' ss, Relation.ReflTransGen (Step P) net net' ∧ net'.got p = net.got p ++ [ss] ∧
    net'.lost = net.lost

/-- A step towards the next secret brings it closer. -/
theorem Next.of_step {p : Party} {net' : CkaNet B} (h : net'.Next P p) (hstep : Step P net net')
    (hgot : net'.got p = net.got p) (hlost : net'.lost = net.lost) : net.Next P p := by
  obtain ⟨net'', ss, hrun, hgot', hlost'⟩ := h
  exact ⟨net'', ss, .head hstep hrun, by rw [hgot', hgot], by rw [hlost', hlost]⟩

/-- The answer is there: it is heard. -/
theorem Coherent.next_of_answered (hK : IdealKem P) (h : net.Coherent P) {p : Party}
    (hanswers : answers (net.wire p.peer) ≠ []) : net.Next P p := by
  obtain ⟨b, before, after, hwire⟩ := exists_of_answers hanswers
  have hsplit : answers (net.wire p.peer) = answers before ++ b :: answers after := by
    rw [hwire, answers_append]
    rfl
  obtain ⟨dk, coins, -, hdk, -, -, rfl, -⟩ := (h p).of_answered hsplit
  refine ⟨_, (P.kemEncapsulate (P.kemPublic dk) coins).1, .single (.deliver net p _ _ _ hwire), ?_, ?_⟩
  · rw [hear_answer hK hdk]
    exact Function.update_self ..
  · rw [hear_answer hK hdk]
    rfl

/-- The peer has the key: it answers. -/
theorem Coherent.next_of_held (hK : IdealKem P) (h : net.Coherent P) {p : Party} {ek : Block B 1184}
    (seed : Block B 64) (coins : Block B 32) (hek : (net.state p.peer).remoteEk = some ek) :
    net.Next P p := by
  obtain ⟨dk, -, rfl, -⟩ := (h p).of_held hek
  have hwaits : (net.state p.peer).Waits → net.Missed p.peer := by
    rintro ⟨hnone, -⟩
    rw [hek] at hnone
    cases hnone
  have hstep : Step P net _ := .send net p.peer seed coins hwaits
  have hcoh := h.step hK hstep
  rw [send_held hK hek] at hstep hcoh
  refine (hcoh.next_of_answered hK ?_).of_step hstep rfl rfl
  show answers (Function.update net.wire p.peer _ p.peer) ≠ []
  rw [Function.update_self, answers_append]
  exact List.append_ne_nil_of_right_ne_nil _ (List.cons_ne_nil _ _)

/-- The key is on its way: it is heard. -/
theorem Coherent.next_of_asked (hK : IdealKem P) (h : net.Coherent P) {p : Party} (seed : Block B 64)
    (coins : Block B 32) (hkeys : keys (net.wire p) ≠ []) : net.Next P p := by
  obtain ⟨b, before, after, hwire⟩ := exists_of_keys hkeys
  have hsplit : keys (net.wire p) = keys before ++ b :: keys after := by
    rw [hwire, keys_append]
    rfl
  obtain ⟨dk, -, -, rfl, -⟩ := (h p).of_asked hsplit
  have hwire' : net.wire p.peer.peer = before ++ .encapsulationKey (P.kemPublic dk).val :: after := by
    rwa [Party.peer_peer]
  have hstep : Step P net _ := .deliver net p.peer _ _ _ hwire'
  have hcoh := h.step hK hstep
  rw [hear_key hK] at hstep hcoh
  have hek : (Function.update net.state p.peer
      { net.state p.peer with remoteEk := some (P.kemPublic dk) } p.peer).remoteEk =
        some (P.kemPublic dk) := by
    rw [Function.update_self]
  refine (hcoh.next_of_held hK seed coins hek).of_step hstep ?_ rfl
  exact Function.update_of_ne (peer_ne p).symm ..

/-- Nothing is left of it: it is sent. -/
theorem Coherent.next_of_missed (hK : IdealKem P) (h : net.Coherent P) {p : Party} (seed : Block B 64)
    (coins : Block B 32) (hmissed : net.Missed p) (hek : (net.state p).remoteEk = none) :
    net.Next P p := by
  have hstep : Step P net _ := .send net p seed coins fun _ ↦ hmissed
  have hcoh := h.step hK hstep
  rw [send_own hek] at hstep hcoh
  refine (hcoh.next_of_asked hK seed coins ?_).of_step hstep rfl rfl
  show keys (Function.update net.wire p _ p) ≠ []
  rw [Function.update_self, keys_append]
  exact List.append_ne_nil_of_right_ne_nil _ (List.cons_ne_nil _ _)

/-- **From every state of a run a next secret can be agreed on**, by a key, its delivery, an answer
and its delivery, whatever is on the way already. -/
theorem Coherent.next (hK : IdealKem P) (h : net.Coherent P) (p : Party) (seed : Block B 64)
    (coins : Block B 32) : net.Next P p := by
  rcases eq_or_ne (answers (net.wire p.peer)) [] with hanswers | hanswers
  swap
  · exact h.next_of_answered hK hanswers
  rcases hek : (net.state p.peer).remoteEk with - | ek
  swap
  · exact h.next_of_held hK seed coins hek
  rcases eq_or_ne (keys (net.wire p)) [] with hkeys | hkeys
  swap
  · exact h.next_of_asked hK seed coins hkeys
  rcases hown : (net.state p).remoteEk with - | ek
  · exact h.next_of_missed hK seed coins ⟨hkeys, hanswers, hek⟩ hown
  -- it owes an answer, and sends that first
  obtain ⟨dk, -, rfl, -⟩ := (h.of_peer p).of_held hown
  have hstep : Step P net _ := .send net p seed coins fun _ ↦ ⟨hkeys, hanswers, hek⟩
  have hcoh := h.step hK hstep
  rw [send_held hK hown] at hstep hcoh
  refine (hcoh.next_of_missed hK seed coins ⟨?_, ?_, ?_⟩ ?_).of_step hstep rfl rfl
  · show keys (Function.update net.wire p _ p) = []
    rw [Function.update_self, keys_append, hkeys]
    rfl
  · show answers (Function.update net.wire p _ p.peer) = []
    rw [Function.update_of_ne (peer_ne p), hanswers]
  · show (Function.update net.state p _ p.peer).remoteEk = none
    rw [Function.update_of_ne (peer_ne p), hek]
  · show (Function.update net.state p _ p).remoteEk = none
    rw [Function.update_self]

/-! ### Every run -/

/-- **A key exchange that may begin again.** In every run of two parties, whatever was lost or overtaken
on the way and whoever was reloaded, the secrets that a party had from decapsulating are those which its
peer had from encapsulating, in the same order, but for those whose ciphertext was lost or is still on its
way; and nothing that arrives is refused, nor is a call of `send`. -/
theorem cka_agreement (hK : IdealKem P) (h : (exchange P).Reachable net) (p : Party) :
    ((net.got p).Sublist (net.made p.peer) ∧
      (net.made p.peer).length =
        (net.got p).length + net.lost p.peer + (answers (net.wire p.peer)).length ∧
      (net.lost p.peer = 0 → net.got p <+: net.made p.peer)) ∧
    (∀ m ∈ net.wire p.peer, ∃ ss s, net.hear P p m = (.ok ss, s)) ∧
    ∀ seed coins, ∃ r s, (net.state p).send P seed coins = (.ok r, s) := by
  have hcoh := coherent_of_reachable hK h
  refine ⟨(hcoh p).count, ?_, ?_⟩
  · intro m hm
    obtain ⟨before, after, hwire⟩ := List.append_of_mem hm
    exact (hcoh.deliver hK hwire).2
  · intro seed coins
    rcases hek : (net.state p).remoteEk with - | ek
    · exact ⟨_, _, send_own hek⟩
    · obtain ⟨dk, -, rfl, -⟩ := (hcoh.of_peer p).of_held hek
      exact ⟨_, _, send_held hK hek⟩

/-- In the symbolic model, after a first secret. -/
theorem cka_agreement_first : ∃ net : CkaNet Sym, (exchange symbolic).Reachable net ∧
    net.got .alice ≠ [] ∧ net.got .alice <+: net.made .bob := by
  obtain ⟨net, ss, hrun, hgot, hlost⟩ :=
    coherent_init.next Symbolic.idealKem .alice (Sym.block 63 (.lit 1)) (Sym.block 31 (.lit 1))
  have hreach : (exchange symbolic).Reachable net := ⟨init, rfl, hrun⟩
  refine ⟨net, hreach, ?_, ?_⟩
  · rw [hgot]
    exact List.append_ne_nil_of_right_ne_nil _ (List.cons_ne_nil _ _)
  · exact (cka_agreement Symbolic.idealKem hreach .alice).1.2.2 (congrFun hlost .bob)

/-- **Another secret can always be agreed on.** From every state of every run, for either party, some run
goes on to a secret more, and loses nothing. -/
theorem cka_next_secret (hK : IdealKem P) (h : (exchange P).Reachable net) (p : Party) :
    ∃ net' ss, Relation.ReflTransGen (Step P) net net' ∧ net'.got p = net.got p ++ [ss] ∧
      net'.lost = net.lost :=
  (coherent_of_reachable hK h).next hK p ⟨List.replicate 64 (ofNat 0), List.length_replicate⟩
    ⟨List.replicate 32 (ofNat 0), List.length_replicate⟩

/-- In the symbolic model, from the start. -/
theorem cka_next_secret_first : ∃ (net : CkaNet Sym) (ss : Block Sym 32),
    Relation.ReflTransGen (Step symbolic) init net ∧ net.got .bob = [ss] ∧ net.lost = fun _ ↦ 0 :=
  cka_next_secret Symbolic.idealKem (.of_start rfl) .bob

/-! ### The same key again -/

/-- A call of `send` that `Step` need not allow. -/
def sendAnyway (p : Party) (seed : ℕ) (net : CkaNet Sym) : CkaNet Sym :=
  net.afterSend p ((net.state p).send symbolic (Sym.block 63 (.lit seed)) (Sym.block 31 (.lit seed)))

/-- The oldest message on the way to `p` is delivered. -/
def deliverOldest (p : Party) (net : CkaNet Sym) : CkaNet Sym :=
  match net.wire p.peer with
  | m :: rest => net.afterReceive p rest (net.hear symbolic p m)
  | [] => net

/-- A party sends its key and sends it again, its peer hears and answers both, and when the first answer
is there the party goes on to its next key. -/
def resent : CkaNet Sym :=
  init |> sendAnyway .alice 1 |> sendAnyway .alice 2 |> deliverOldest .bob |> sendAnyway .bob 3
    |> deliverOldest .bob |> sendAnyway .bob 4 |> deliverOldest .alice |> sendAnyway .alice 5
    |> deliverOldest .alice

/-- **Why a party must wait.** Nothing is lost and nothing overtaken, and yet the two ends have different
secrets. -/
theorem resend_disagrees : (resent.got .alice).length = 2 ∧ (resent.made .bob).length = 2 ∧
    resent.got .alice ≠ resent.made .bob := by
  decide +kernel

end CkaNet

end VoiceChatCrypto
