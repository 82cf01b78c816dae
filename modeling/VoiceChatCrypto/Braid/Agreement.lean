import VoiceChatCrypto.Braid.Epoch
import VoiceChatCrypto.Braid.Persist
import VoiceChatCrypto.Data.Party
import VoiceChatCrypto.Data.System

/-!
# Braid key agreement

Two Braid states initialised from one secret, and a network that delivers any message sent so far by
the peer, in any order, repeatedly or never. Either side may be written to storage and read back at
any time.

A run alternates between two phases, each with one party in the role of the decapsulator:

* in a `Round` both parties are in one epoch, and everything they hold and everything on its way is
  determined by what has been chosen in it (`Epoch`);
* in a `Turn` the decapsulator has completed the epoch and its peer has not yet heard of the next one.

A round becomes a turn when `ct2` is complete, and a turn becomes a round, with the roles exchanged,
when a message of the new epoch arrives.
-/

open Alphabet

namespace VoiceChatCrypto

variable {B : Type} [Alphabet B]

/-- Two parties, the messages they have sent and the keys they have output, in that order. -/
structure BraidNet (B : Type) [Alphabet B] where
  /-- The Braid state of each party. -/
  state : Party → BraidScka B
  /-- Everything a party has sent so far, the newest first. Nothing leaves this list: a message can
  be delivered again at any time. -/
  sent : Party → List (BraidMessage B)
  /-- The keys a party has handed to its user, the oldest first. -/
  outputs : Party → List (SckaOutput B)

namespace BraidNet

variable (P : Primitives B)

/-- `init_alice` and `init_bob` with one secret. -/
def init (k : Block B 32) : BraidNet B where
  state
    | .alice => .initAlice P k
    | .bob => .initBob P k
  sent _ := []
  outputs _ := []

/-- The run after a party has reached a state and output a key, or none. -/
def settle (net : BraidNet B) (p : Party) (out : Option (SckaOutput B)) (s : BraidScka B) :
    BraidNet B :=
  { net with
    state := Function.update net.state p s
    outputs := Function.update net.outputs p (net.outputs p ++ out.toList) }

/-- The run after a party has sent a message. -/
def post (net : BraidNet B) (p : Party) (msg : BraidMessage B) : BraidNet B :=
  { net with sent := Function.update net.sent p (msg :: net.sent p) }

/-- One step: a party sends, a message of its peer is delivered to it, or it is written and read
back. -/
inductive Step : BraidNet B → BraidNet B → Prop
  | send {net : BraidNet B} {p : Party} {seed : Block B 64} {m : Block B 32} {msg : BraidMessage B}
      {n : ℕ} {out : Option (SckaOutput B)} {s : BraidScka B}
      (h : (net.state p).send P seed m = ((msg, n, out), s)) :
      Step net ((net.post p msg).settle p out s)
  | deliver {net : BraidNet B} {p : Party} {msg : BraidMessage B} {n : ℕ}
      {out : Option (SckaOutput B)} {s : BraidScka B} (hsent : msg ∈ net.sent p.peer)
      (h : (net.state p).receive P msg = .ok ((n, out), s)) : Step net (net.settle p out s)
  | persist {net : BraidNet B} {p : Party} {s : BraidScka B}
      (h : BraidScka.deserialize (net.state p).serialize = .ok s) : Step net (net.settle p none s)

/-- The runs of Braid from a shared secret. -/
def system (k : Block B 32) : System (BraidNet B) where
  start net := net = init P k
  step := Step P

/-! ### Bookkeeping -/

section Settle

variable {net : BraidNet B} {p : Party} {out : Option (SckaOutput B)} {s : BraidScka B}
  {msg : BraidMessage B}

omit [Alphabet B] in
theorem peer_ne (p : Party) : p.peer ≠ p := by
  cases p <;> decide

@[simp] theorem settle_state : (net.settle p out s).state p = s := Function.update_self ..

@[simp] theorem settle_state_peer : (net.settle p out s).state p.peer = net.state p.peer :=
  Function.update_of_ne (peer_ne p) ..

@[simp] theorem settle_peer_state : (net.settle p.peer out s).state p = net.state p :=
  Function.update_of_ne (peer_ne p).symm ..

@[simp] theorem settle_outputs : (net.settle p out s).outputs p = net.outputs p ++ out.toList :=
  Function.update_self ..

@[simp] theorem settle_outputs_peer : (net.settle p out s).outputs p.peer = net.outputs p.peer :=
  Function.update_of_ne (peer_ne p) ..

@[simp] theorem settle_peer_outputs : (net.settle p.peer out s).outputs p = net.outputs p :=
  Function.update_of_ne (peer_ne p).symm ..

@[simp] theorem settle_sent : (net.settle p out s).sent = net.sent := rfl

@[simp] theorem post_state : (net.post p msg).state = net.state := rfl

@[simp] theorem post_outputs : (net.post p msg).outputs = net.outputs := rfl

@[simp] theorem post_sent : (net.post p msg).sent p = msg :: net.sent p := Function.update_self ..

@[simp] theorem post_sent_peer : (net.post p msg).sent p.peer = net.sent p.peer :=
  Function.update_of_ne (peer_ne p) ..

@[simp] theorem post_peer_sent : (net.post p.peer msg).sent p = net.sent p :=
  Function.update_of_ne (peer_ne p).symm ..

/-- Nothing changes when the state is the old one and nothing is output. -/
@[simp] theorem settle_self : net.settle p none (net.state p) = net := by
  simp [settle]

end Settle

/-! ### The invariant -/

/-- Keys of earlier epochs, in increasing order. An epoch appends its key at the end, and then moves
on, so that the list stays ordered. -/
structure Ordered (outs : List (SckaOutput B)) (number : UInt64) : Prop where
  /-- No epoch contributes two keys, and a later key is of a later epoch. -/
  increasing : outs.Pairwise fun o o' ↦ o.epoch.toNat < o'.epoch.toNat
  /-- The epoch that is being worked on has not contributed yet. -/
  earlier : ∀ o ∈ outs, o.epoch.toNat < number.toNat

/-- **Both parties are in one epoch.** Party `p` decapsulates in it and its peer encapsulates;
whatever either holds or has sent is determined by `g`, that is, by what has been chosen so far. -/
structure Round (net : BraidNet B) (p : Party) (g : Epoch B) : Prop where
  /-- `p` has generated the key pair of the epoch, or is about to. -/
  decapsulator : ∃ agent, net.state p = ⟨g.number, g.auth, agent⟩ ∧ Decapsulates P g agent
  /-- Its peer answers, and may already have another authenticator: it has moved on when its first
  ciphertext is made. -/
  encapsulator : ∃ auth agent, net.state p.peer = ⟨g.number, auth, agent⟩ ∧
    Encapsulates P g auth agent
  /-- Everything `p` has ever sent is a chunk of this epoch's key, or belongs to an earlier one. -/
  sent : ∀ msg ∈ net.sent p, FromDecapsulator P g msg
  /-- Everything the peer has ever sent is a chunk of this epoch's ciphertext, or belongs to an
  earlier one. -/
  sent_peer : ∀ msg ∈ net.sent p.peer, FromEncapsulator P g msg
  /-- Neither side has output a key that the other has not. -/
  outputs : net.outputs p = net.outputs p.peer
  /-- The keys output so far are of earlier epochs. -/
  ordered : Ordered (net.outputs p.peer) g.number

/-- **The decapsulator has completed the epoch, the encapsulator has not.** Party `p` has the key
and waits in the next epoch; its peer hears of that with the first message of the new epoch, and
both are in one epoch again. -/
structure Turn (net : BraidNet B) (p : Party) (g : Epoch B) (seed : Block B 64) (m : Block B 32) :
    Prop where
  /-- The decapsulator was able to advance: there is a next epoch. -/
  limit : g.number.toNat + 1 < 2 ^ 64
  /-- `p` has moved on to the next epoch, where it waits for a header. -/
  decapsulator : net.state p =
    ⟨g.number + 1, g.authAfter P seed m, .noHeaderReceived (Decoder.new (64 + 32))⟩
  /-- Its peer holds the key and still repeats the end of its ciphertext. -/
  encapsulator : ∃ enc b, net.state p.peer =
    ⟨g.number, g.authAfter P seed m, .ct2Sampled enc (g.key P seed m) b⟩
  /-- In its new epoch `p` has nothing to say yet. -/
  sent : ∀ msg ∈ net.sent p, msg.epoch.toNat ≤ g.number.toNat ∨ msg = ⟨g.number + 1, .none, []⟩
  /-- Nobody has spoken of the new epoch. -/
  sent_peer : ∀ msg ∈ net.sent p.peer, msg.epoch.toNat ≤ g.number.toNat
  /-- `p` is one key ahead, and the peer is about to output the same one. -/
  outputs : net.outputs p = net.outputs p.peer ++ [⟨g.number, g.key P seed m⟩]
  /-- The keys they share are of earlier epochs. -/
  ordered : Ordered (net.outputs p.peer) g.number

/-- **The invariant of Braid**: both parties are in one epoch, or one of them has just completed it;
in either role, which they exchange from epoch to epoch. -/
def Coherent (net : BraidNet B) : Prop :=
  ∃ p g, Round P net p g ∨ ∃ seed m, Turn P net p g seed m

variable {P} {net : BraidNet B} {p : Party} {g : Epoch B} {seed : Block B 64} {m : Block B 32}

/-- Both parties begin in a round of epoch 1, with nothing chosen. -/
theorem init_coherent (k : Block B 32) : Coherent P (init P k) := by
  refine ⟨.alice, ⟨1, Authenticator.init P 1 k, none, none, false⟩, .inl ?_⟩
  exact {
    decapsulator := ⟨_, rfl, .keysUnsampled rfl⟩
    encapsulator := ⟨_, _, rfl, .noHeaderReceived (g := ⟨1, Authenticator.init P 1 k, none, none, false⟩)
      rfl rfl (fun _ ↦ rfl) (fun _ h ↦ by cases h)⟩
    sent := fun _ h ↦ by cases h
    sent_peer := fun _ h ↦ by cases h
    outputs := rfl
    ordered := ⟨.nil, fun _ h ↦ by cases h⟩ }

/-! ### Sending -/

/-- The message that is sent, and what is left behind: nothing is output by a send, and the network
with the message on it is coherent again. -/
def Sends (P : Primitives B) (net : BraidNet B) (q : Party) (seed : Block B 64) (m : Block B 32) :
    Prop :=
  ∃ msg n s, (net.state q).send P seed m = ((msg, n, none), s) ∧
    Coherent P ((net.post q msg).settle q none s)

/-- In a round the decapsulator sends what its epoch says. -/
theorem Round.send (h : Round P net p g) (seed : Block B 64) (m : Block B 32) :
    Sends P net p seed m := by
  obtain ⟨agent, hstate, hdec⟩ := h.decapsulator
  obtain ⟨auth, agent₁, hstate₁, henc⟩ := h.encapsulator
  obtain ⟨g', agent', hg, hmessage, hcomplete, -, hdec', msg, hmsg, hsend⟩ := hdec.send seed m
  refine ⟨msg, _, _, by rw [hstate, hsend], p, g', .inl ?_⟩
  exact {
    decapsulator := ⟨agent', by rw [settle_state, hg.number, hg.auth], hdec'⟩
    encapsulator := ⟨auth, agent₁, by rw [settle_state_peer, post_state, hstate₁, hg.number],
      henc.mono hg hmessage hcomplete⟩
    sent := by
      intro msg' hmsg'
      rw [settle_sent, post_sent, List.mem_cons] at hmsg'
      rcases hmsg' with rfl | hmsg'
      · exact hmsg
      · exact (h.sent msg' hmsg').mono hg
    sent_peer := by
      intro msg' hmsg'
      rw [settle_sent, post_sent_peer] at hmsg'
      exact (h.sent_peer msg' hmsg').mono hg
    outputs := by simpa using h.outputs
    ordered := by simpa [hg.number] using h.ordered }

/-- In a round the encapsulator sends what its epoch says. -/
theorem Round.send_peer (h : Round P net p g) (seed : Block B 64) (m : Block B 32) :
    Sends P net p.peer seed m := by
  obtain ⟨agent, hstate, hdec⟩ := h.decapsulator
  obtain ⟨auth, agent₁, hstate₁, henc⟩ := h.encapsulator
  obtain ⟨g', auth', agent', hg, hseed, henc', msg, hmsg, hsend⟩ := henc.send seed m
  refine ⟨msg, _, _, by rw [hstate₁, hsend], p, g', .inl ?_⟩
  exact {
    decapsulator := ⟨agent, by rw [settle_peer_state, post_state, hstate, hg.number, hg.auth],
      hdec.mono hg hseed⟩
    encapsulator := ⟨auth', agent', by rw [settle_state, hg.number], henc'⟩
    sent := by
      intro msg' hmsg'
      rw [settle_sent, post_peer_sent] at hmsg'
      exact (h.sent msg' hmsg').mono hg
    sent_peer := by
      intro msg' hmsg'
      rw [settle_sent, post_sent, List.mem_cons] at hmsg'
      rcases hmsg' with rfl | hmsg'
      · exact hmsg
      · exact (h.sent_peer msg' hmsg').mono hg
    outputs := by simpa using h.outputs
    ordered := by simpa [hg.number] using h.ordered }

/-- The party that has completed the epoch has nothing to say yet. -/
theorem Turn.send {seed₀ : Block B 64} {m₀ : Block B 32} (h : Turn P net p g seed₀ m₀)
    (seed : Block B 64) (m : Block B 32) : Sends P net p seed m := by
  refine ⟨⟨g.number + 1, .none, []⟩, _, _, by rw [h.decapsulator]; rfl, p, g, .inr ⟨seed₀, m₀, ?_⟩⟩
  exact {
    limit := h.limit
    decapsulator := settle_state
    encapsulator := by simpa using h.encapsulator
    sent := by
      intro msg hmsg
      rw [settle_sent, post_sent, List.mem_cons] at hmsg
      rcases hmsg with rfl | hmsg
      · exact .inr rfl
      · exact h.sent msg hmsg
    sent_peer := by simpa using h.sent_peer
    outputs := by simpa using h.outputs
    ordered := by simpa using h.ordered }

/-- Its peer goes on with the old epoch. -/
theorem Turn.send_peer {seed₀ : Block B 64} {m₀ : Block B 32} (h : Turn P net p g seed₀ m₀)
    (seed : Block B 64) (m : Block B 32) : Sends P net p.peer seed m := by
  obtain ⟨enc, b, henc⟩ := h.encapsulator
  refine ⟨⟨g.number, .ct2, enc.nextChunk.1⟩, _, _, by rw [henc]; rfl, p, g, .inr ⟨seed₀, m₀, ?_⟩⟩
  exact {
    limit := h.limit
    decapsulator := by simpa using h.decapsulator
    encapsulator := ⟨enc.nextChunk.2, b, settle_state⟩
    sent := by simpa using h.sent
    sent_peer := by
      intro msg hmsg
      rw [settle_sent, post_sent, List.mem_cons] at hmsg
      rcases hmsg with rfl | hmsg
      · exact le_rfl
      · exact h.sent_peer msg hmsg
    outputs := by simpa using h.outputs
    ordered := by simpa using h.ordered }

/-- **Whatever either party sends keeps the invariant.** Four cases: a round or a turn, seen from
the decapsulator or the encapsulator. -/
theorem Coherent.send (h : Coherent P net) (q : Party) (seed : Block B 64) (m : Block B 32) :
    Sends P net q seed m := by
  obtain ⟨p, g, hround | ⟨seed₀, m₀, hturn⟩⟩ := h
  · rcases Party.eq_or_eq_peer q p with rfl | rfl
    · exact hround.send seed m
    · exact hround.send_peer seed m
  · rcases Party.eq_or_eq_peer q p with rfl | rfl
    · exact hturn.send seed m
    · exact hturn.send_peer seed m

/-! ### Delivery -/

/-- **What a delivery does.** It succeeds, and a party that completes an epoch after its peer shares
its authenticator then. -/
def Delivers (P : Primitives B) (net : BraidNet B) (q : Party) (msg : BraidMessage B) : Prop :=
  ∃ n out s, (net.state q).receive P msg = .ok ((n, out), s) ∧ Coherent P (net.settle q out s) ∧
    ∀ o, out = some o → (∃ o' ∈ net.outputs q.peer, o'.epoch = o.epoch) →
      s.auth = (net.state q.peer).auth

/-- A delivery that changes nothing. -/
theorem Coherent.delivers_of_same {q : Party} {msg : BraidMessage B} {n : ℕ} (h : Coherent P net)
    (hreceive : (net.state q).receive P msg = .ok ((n, none), net.state q)) :
    Delivers P net q msg := by
  refine ⟨n, none, net.state q, hreceive, ?_, fun o ho ↦ by cases ho⟩
  rw [settle_self]
  exact h

/-- The decapsulator goes on, or completes the epoch, or runs out of epochs. -/
theorem Round.deliver (hB : Bytes B) (hkem : Epoch.IncrementalKem P) (h : Round P net p g)
    {msg : BraidMessage B} (hmsg : msg ∈ net.sent p.peer) :
    Delivers P net p msg ∨ ¬ (net.state p).epoch.toNat + 1 < 2 ^ 64 ∧
      ∃ err, (net.state p).receive P msg = .error err := by
  obtain ⟨agent, hstate, hdec⟩ := h.decapsulator
  obtain ⟨auth, agent₁, hstate₁, henc⟩ := h.encapsulator
  obtain ⟨agent', hdec', hquiet⟩ | ⟨seed, m, hseed, hm, hcomplete, hend, hlast⟩ :=
    hdec.receive hB hkem (h.sent_peer msg hmsg)
  · refine .inl ⟨_, none, _, by rw [hstate, hquiet], ⟨p, g, .inl ?_⟩, fun o ho ↦ by cases ho⟩
    exact {
      decapsulator := ⟨agent', settle_state, hdec'⟩
      encapsulator := ⟨auth, agent₁, by rw [settle_state_peer, hstate₁], henc⟩
      sent := h.sent
      sent_peer := h.sent_peer
      outputs := by simpa using h.outputs
      ordered := by simpa using h.ordered }
  · by_cases hlimit : g.number.toNat + 1 < 2 ^ 64
    case neg =>
      rw [hstate]
      exact .inr ⟨hlimit, hlast hlimit⟩
    obtain ⟨rfl, enc, b, rfl, -⟩ := henc.exists_ct2Sampled hseed hm hcomplete
    refine .inl ⟨_, _, _, by rw [hstate, hend hlimit], ⟨p, g, .inr ⟨seed, m, ?_⟩⟩,
      fun o ho hpeer ↦ ?_⟩
    · exact {
        limit := hlimit
        decapsulator := settle_state
        encapsulator := ⟨enc, b, by rw [settle_state_peer, hstate₁]⟩
        sent := fun msg' hmsg' ↦ .inl (h.sent msg' hmsg').epoch_le
        sent_peer := fun msg' hmsg' ↦ (h.sent_peer msg' hmsg').epoch_le
        outputs := by simp [h.outputs]
        ordered := by simpa using h.ordered }
    · -- the peer has not completed this epoch
      cases ho
      obtain ⟨o', hmem, hepoch⟩ := hpeer
      have hlt := h.ordered.earlier o' hmem
      rw [hepoch] at hlt
      exact absurd hlt (lt_irrefl _)

/-- The encapsulator goes on. -/
theorem Round.deliver_peer (hB : Bytes B) (h : Round P net p g) {msg : BraidMessage B}
    (hmsg : msg ∈ net.sent p) : Delivers P net p.peer msg := by
  obtain ⟨agent, hstate, hdec⟩ := h.decapsulator
  obtain ⟨auth, agent₁, hstate₁, henc⟩ := h.encapsulator
  obtain ⟨g', agent', hg, hseed, henc', hquiet⟩ := henc.receive hB (h.sent msg hmsg)
  refine ⟨_, none, _, by rw [hstate₁, hquiet], ⟨p, g', .inl ?_⟩, fun o ho ↦ by cases ho⟩
  exact {
    decapsulator := ⟨agent, by rw [settle_peer_state, hstate, hg.number, hg.auth],
      hdec.mono hg hseed⟩
    encapsulator := ⟨auth, agent', by rw [settle_state, hg.number], henc'⟩
    sent := fun msg' hmsg' ↦ (h.sent msg' hmsg').mono hg
    sent_peer := fun msg' hmsg' ↦ (h.sent_peer msg' hmsg').mono hg
    outputs := by simpa using h.outputs
    ordered := by simpa [hg.number] using h.ordered }

theorem Turn.toNat_next (h : Turn P net p g seed m) :
    (g.number + 1).toNat = g.number.toNat + 1 := by
  rw [UInt64.toNat_add, show (1 : UInt64).toNat = 1 from rfl, Nat.mod_eq_of_lt h.limit]

/-- The party that has completed the epoch hears only old messages. -/
theorem Turn.deliver (h : Turn P net p g seed m) {msg : BraidMessage B}
    (hmsg : msg ∈ net.sent p.peer) : Delivers P net p msg := by
  refine Coherent.delivers_of_same ⟨p, g, .inr ⟨seed, m, h⟩⟩ (BraidScka.receive_old ?_)
  rw [h.decapsulator, h.toNat_next]
  exact Nat.lt_succ_of_le (h.sent_peer msg hmsg)

/-- Its peer completes the epoch when it hears of the next one, and takes the other role. -/
theorem Turn.deliver_peer (h : Turn P net p g seed m) {msg : BraidMessage B}
    (hmsg : msg ∈ net.sent p) : Delivers P net p.peer msg := by
  obtain ⟨enc, b, henc⟩ := h.encapsulator
  have hagent : (net.state p.peer).agent = .ct2Sampled enc (g.key P seed m) b := by rw [henc]
  have hepoch : (net.state p.peer).epoch = g.number := by rw [henc]
  rcases h.sent msg hmsg with hold | rfl
  · refine Coherent.delivers_of_same ⟨p, g, .inr ⟨seed, m, h⟩⟩
      (BraidScka.receive_ct2Sampled hagent ?_)
    rw [hepoch]
    exact hold
  · have hnext : (net.state p.peer).receive P ⟨g.number + 1, .none, []⟩ = _ :=
      BraidScka.receive_next hagent (by rw [hepoch]; exact h.toNat_next)
    refine ⟨_, _, _, hnext, ⟨p.peer, ⟨g.number + 1, g.authAfter P seed m, none, none, false⟩, .inl ?_⟩,
      fun o _ _ ↦ by rw [Party.peer_peer, h.decapsulator, henc]⟩
    exact {
      decapsulator := ⟨_, by rw [settle_state, henc], .keysUnsampled rfl⟩
      encapsulator := ⟨_, _, by rw [Party.peer_peer, settle_peer_state, h.decapsulator],
        .noHeaderReceived (g := ⟨g.number + 1, g.authAfter P seed m, none, none, false⟩) rfl rfl
          (fun _ ↦ rfl) (fun _ h ↦ by cases h)⟩
      sent := fun msg' hmsg' ↦ .old <| by
        rw [h.toNat_next]
        exact Nat.lt_succ_of_le (h.sent_peer msg' hmsg')
      sent_peer := by
        intro msg' hmsg'
        rw [Party.peer_peer] at hmsg'
        rcases h.sent msg' hmsg' with hold | rfl
        · refine .old ?_
          rw [h.toNat_next]
          exact Nat.lt_succ_of_le hold
        · exact .none (g := ⟨g.number + 1, g.authAfter P seed m, none, none, false⟩)
      outputs := by
        rw [Party.peer_peer, settle_outputs, settle_peer_outputs, h.outputs, hepoch]
        rfl
      ordered := by
        rw [Party.peer_peer, settle_peer_outputs, h.outputs]
        refine ⟨List.pairwise_append.2 ⟨h.ordered.increasing, List.pairwise_singleton .., ?_⟩, ?_⟩
        · intro o ho o' ho'
          rw [List.mem_singleton] at ho'
          rw [ho']
          exact h.ordered.earlier o ho
        · intro o ho
          rw [h.toNat_next]
          rcases List.mem_append.1 ho with ho | ho
          · exact Nat.lt_succ_of_lt (h.ordered.earlier o ho)
          · rw [List.mem_singleton] at ho
            rw [ho]
            exact Nat.lt_succ_self _ }

/-- **Every message of the peer, however old, keeps the invariant**, unless the receiver is at the
last epoch, where it is refused. -/
theorem Coherent.deliver (hB : Bytes B) (hkem : Epoch.IncrementalKem P) (h : Coherent P net)
    {q : Party} {msg : BraidMessage B} (hmsg : msg ∈ net.sent q.peer) :
    Delivers P net q msg ∨ ¬ (net.state q).epoch.toNat + 1 < 2 ^ 64 ∧
      ∃ err, (net.state q).receive P msg = .error err := by
  obtain ⟨p, g, hround | ⟨seed, m, hturn⟩⟩ := h
  · rcases Party.eq_or_eq_peer q p with rfl | rfl
    · exact hround.deliver hB hkem hmsg
    · rw [Party.peer_peer] at hmsg
      exact .inl (hround.deliver_peer hB hmsg)
  · rcases Party.eq_or_eq_peer q p with rfl | rfl
    · exact .inl (hturn.deliver hmsg)
    · rw [Party.peer_peer] at hmsg
      exact .inl (hturn.deliver_peer hmsg)

/-! ### Runs -/

/-- What is read back from storage is what was written. -/
def Storable (net : BraidNet B) : Prop := ∀ p, (net.state p).agent.Storable

theorem Storable.settle (h : net.Storable) {q : Party} {out : Option (SckaOutput B)}
    {s : BraidScka B} (hs : s.agent.Storable) : (net.settle q out s).Storable := by
  intro p
  rcases Party.eq_or_eq_peer p q with rfl | rfl
  · rw [settle_state]
    exact hs
  · rw [settle_state_peer]
    exact h _

theorem init_storable (k : Block B 32) : (init P k).Storable := by
  intro p
  cases p with
  | alice => trivial
  | bob => exact Decoder.new_storable (by decide)

/-- Sending and receiving keep every encoder and decoder as small as it was. -/
theorem Storable.step {net' : BraidNet B} (h : net.Storable) (hstep : Step P net net') :
    net'.Storable := by
  cases hstep with
  | @send p seed m msg n out s hsend =>
    have hs := BraidScka.send_storable (P := P) seed m (h p)
    rw [hsend] at hs
    have hpost : (net.post p msg).Storable := h
    exact hpost.settle hs
  | @deliver p msg n out s hsent hok => exact h.settle (BraidScka.receive_storable (h p) hok)
  | @persist p s hread =>
    rw [BraidScka.deserialize_serialize (h p).fits] at hread
    cases hread
    exact h.settle (h p)

theorem Coherent.step (hB : Bytes B) (hkem : Epoch.IncrementalKem P) {net' : BraidNet B}
    (h : Coherent P net) (hstorable : net.Storable) (hstep : Step P net net') :
    Coherent P net' := by
  cases hstep with
  | @send p seed m msg n out s hsend =>
    obtain ⟨msg', n', s', hsend', hcoherent⟩ := h.send p seed m
    rw [hsend] at hsend'
    cases hsend'
    exact hcoherent
  | @deliver p msg n out s hsent hok =>
    rcases h.deliver hB hkem hsent with ⟨n', out', s', hok', hcoherent, -⟩ | ⟨-, err, herr⟩
    · rw [hok] at hok'
      cases hok'
      exact hcoherent
    · rw [hok] at herr
      cases herr
  | @persist p s hread =>
    rw [BraidScka.deserialize_serialize (hstorable p).fits] at hread
    cases hread
    rw [settle_self]
    exact h

/-- **In every run both parties are in one round, or between two**, whatever is lost, repeated or
delivered late. -/
theorem system_coherent (hB : Bytes B) (hkem : Epoch.IncrementalKem P) {k : Block B 32}
    (hnet : (system P k).Reachable net) : Coherent P net ∧ net.Storable := by
  refine hnet.invariant (I := fun net ↦ Coherent P net ∧ net.Storable) ?_ ?_
  · rintro _ rfl
    exact ⟨init_coherent k, init_storable k⟩
  · rintro _ _ - ⟨h, hstorable⟩ hstep
    exact ⟨h.step hB hkem hstorable hstep, hstorable.step hstep⟩

/-! ### What a coherent state says -/

/-- A party outputs its keys in the order of their epochs, and at most one for each. -/
theorem Coherent.increasing (h : Coherent P net) (q : Party) :
    (net.outputs q).Pairwise fun o o' ↦ o.epoch.toNat < o'.epoch.toNat := by
  obtain ⟨p, g, hround | ⟨seed, m, hturn⟩⟩ := h
  · rcases Party.eq_or_eq_peer q p with rfl | rfl
    · rw [hround.outputs]
      exact hround.ordered.increasing
    · exact hround.ordered.increasing
  · rcases Party.eq_or_eq_peer q p with rfl | rfl
    · rw [hturn.outputs, List.pairwise_append]
      refine ⟨hturn.ordered.increasing, List.pairwise_singleton .., fun o ho o' ho' ↦ ?_⟩
      rw [List.mem_singleton] at ho'
      rw [ho']
      exact hturn.ordered.earlier o ho
    · exact hturn.ordered.increasing

/-- What one party has output, the other has output or is about to output. -/
theorem Coherent.exists_outputs (h : Coherent P net) :
    ∃ p, ∀ q, ∀ o ∈ net.outputs q, o ∈ net.outputs p := by
  obtain ⟨p, g, hround | ⟨seed, m, hturn⟩⟩ := h
  · refine ⟨p, fun q o ho ↦ ?_⟩
    rcases Party.eq_or_eq_peer q p with rfl | rfl
    · exact ho
    · rw [hround.outputs]
      exact ho
  · refine ⟨p, fun q o ho ↦ ?_⟩
    rcases Party.eq_or_eq_peer q p with rfl | rfl
    · exact ho
    · rw [hturn.outputs]
      exact List.mem_append_left _ ho

/-- **One key per epoch**, at whichever party: one side's outputs are the other's, with at most one
key more, of a later epoch. -/
theorem Coherent.key_eq (h : Coherent P net) {q r : Party} {o o' : SckaOutput B}
    (ho : o ∈ net.outputs q) (ho' : o' ∈ net.outputs r) (hepoch : o.epoch = o'.epoch) : o = o' := by
  obtain ⟨p, hp⟩ := h.exists_outputs
  have hnodup : ((net.outputs p).map SckaOutput.epoch).Nodup := by
    refine List.pairwise_map.2 ((h.increasing p).imp fun hlt heq ↦ ?_)
    exact absurd (congrArg UInt64.toNat heq) hlt.ne
  exact List.inj_on_of_nodup_map hnodup (hp q o ho) (hp r o' ho') hepoch

theorem Coherent.epoch_le (h : Coherent P net) (q : Party) :
    (net.state q).epoch.toNat ≤ (net.state q.peer).epoch.toNat + 1 := by
  obtain ⟨p, g, hround | ⟨seed, m, hturn⟩⟩ := h
  · obtain ⟨agent, hstate, -⟩ := hround.decapsulator
    obtain ⟨auth, agent₁, hstate₁, -⟩ := hround.encapsulator
    rcases Party.eq_or_eq_peer q p with rfl | rfl
    · rw [hstate, hstate₁]
      exact Nat.le_succ _
    · rw [Party.peer_peer, hstate, hstate₁]
      exact Nat.le_succ _
  · obtain ⟨enc, b, henc⟩ := hturn.encapsulator
    rcases Party.eq_or_eq_peer q p with rfl | rfl
    · rw [hturn.decapsulator, henc, hturn.toNat_next]
    · rw [Party.peer_peer, hturn.decapsulator, henc, hturn.toNat_next]
      show g.number.toNat ≤ g.number.toNat + 1 + 1
      omega

end BraidNet

/-! ### The theorem -/

/-- **Braid key agreement.** In every run of two Braid states initialised from one secret, over every
schedule of sending, delivery and reloading:

* below the epoch limit, no message of the peer is refused, and reloading gives the state back;
* each side outputs its keys in strictly increasing epochs, and equal epochs have equal keys;
* the two epochs differ by at most one;
* the side that completes an epoch second then has the authenticator of its peer. -/
theorem braid_key_agreement {P : Primitives UInt8} (hkem : Epoch.IncrementalKem P)
    {k : Block UInt8 32} {net : BraidNet UInt8} (hnet : (BraidNet.system P k).Reachable net) :
    (∀ p, ∀ msg ∈ net.sent p.peer, (net.state p).epoch.toNat + 1 < 2 ^ 64 →
      ∃ r, (net.state p).receive P msg = .ok r) ∧
    (∀ p, BraidScka.deserialize (net.state p).serialize = .ok (net.state p)) ∧
    (∀ p, (net.outputs p).Pairwise fun o o' ↦ o.epoch.toNat < o'.epoch.toNat) ∧
    (∀ p, ∀ o ∈ net.outputs p, ∀ o' ∈ net.outputs p.peer, o.epoch = o'.epoch → o.key = o'.key) ∧
    (∀ p, (net.state p).epoch.toNat ≤ (net.state p.peer).epoch.toNat + 1) ∧
    ∀ p, ∀ msg ∈ net.sent p.peer, ∀ n o s, (net.state p).receive P msg = .ok ((n, some o), s) →
      (∃ o' ∈ net.outputs p.peer, o'.epoch = o.epoch) → s.auth = (net.state p.peer).auth := by
  obtain ⟨hcoherent, hstorable⟩ := BraidNet.system_coherent bytes_uint8 hkem hnet
  refine ⟨?_, fun p ↦ BraidScka.deserialize_serialize (hstorable p).fits, hcoherent.increasing, ?_,
    hcoherent.epoch_le, ?_⟩
  · intro p msg hmsg hlimit
    rcases hcoherent.deliver bytes_uint8 hkem hmsg with ⟨n, out, s, hok, -⟩ | ⟨hnot, -⟩
    · exact ⟨_, hok⟩
    · exact absurd hlimit hnot
  · intro p o ho o' ho' hepoch
    rw [hcoherent.key_eq ho ho' hepoch]
  · intro p msg hmsg n o s hreceive hpeer
    rcases hcoherent.deliver bytes_uint8 hkem hmsg with ⟨n', out, s', hok, -, hauth⟩ | ⟨-, err, herr⟩
    · rw [hreceive] at hok
      cases hok
      exact hauth o rfl hpeer
    · rw [hreceive] at herr
      cases herr

/-! ### A run -/

namespace Plain

/-- Bytes, cut or filled up to a length. -/
def pad (n : ℕ) (xs : List UInt8) : Block UInt8 n := ⟨(xs ++ List.replicate n 0).take n, by simp⟩

/-- A checksum of bytes. -/
def digest (xs : List UInt8) : Block UInt8 32 :=
  pad 32 (List.replicate 32 (xs.foldl (fun h x ↦ 31 * h + x) 7))

/-- Primitives over bytes that compute and are correct, and hide nothing: the ciphertext is the
message. -/
def primitives : Primitives UInt8 where
  publicKey s := s
  diffieHellman s p := pad 32 (List.zipWith (· + ·) s.val p.val)
  hkdfBlock salt ikm info i := digest (salt ++ ikm ++ info ++ [UInt8.ofNat i])
  hmacSha256 key msg := digest (key ++ msg)
  aeadEncrypt key nonce pt ad := some (pt ++ (digest (key.val ++ nonce.val ++ pt ++ ad)).val.take 16)
  aeadDecrypt key nonce ct ad :=
    let pt := ct.take (ct.length - 16)
    if ct = pt ++ (digest (key.val ++ nonce.val ++ pt ++ ad)).val.take 16 then some pt else none
  kemPublic seed := pad 1184 seed.val
  kemValid _ := true
  kemEncapsulate pk coins := (digest (coins.val ++ (digest pk.val).val), pad 1088 coins.val)
  kemDecapsulate seed ct := digest (ct.val.take 32 ++ (digest (pad 1184 seed.val).val).val)
  sha3 := digest
  gHash m h := (digest (m.val ++ h.val), digest (h.val ++ m.val))
  pkeEncryptCt1 _ _ m := pad 960 m.val
  pkeEncryptCt2 _ coins _ := pad 128 coins.val
  xeddsaSign secret msg _ := pad 64 (digest (secret.val ++ msg)).val
  xeddsaVerify pk msg sig := decide (sig = pad 64 (digest (pk.val ++ msg)).val)

theorem take_pad {n : ℕ} {xs : List UInt8} (h : xs.length ≤ n) :
    (pad n xs).val.take xs.length = xs := by
  rw [pad, List.take_take, Nat.min_eq_left h, List.take_left]

/-- The concrete primitives of the example have the correctness that is assumed of the key
encapsulation. -/
theorem incrementalKem : Epoch.IncrementalKem primitives := by
  intro seed m ct hct
  have hm : ct.val.take 32 = m.val := by
    have htake : (pad 960 m.val).val.take m.val.length = m.val :=
      take_pad (by rw [Block.length_val]; decide)
    rw [Block.length_val] at htake
    rw [hct, List.take_append_of_le_length (by rw [Block.length_val]; decide)]
    exact htake
  show digest (ct.val.take 32 ++ (digest (pad 1184 seed.val).val).val) =
    digest (m.val ++ (digest (pad 1184 seed.val).val).val)
  rw [hm]

/-- The first message of a run. -/
def first : (BraidMessage UInt8 × ℕ × Option (SckaOutput UInt8)) × BraidScka UInt8 :=
  (BraidScka.initAlice primitives (Block.zero 32)).send primitives (Block.zero 64) (Block.zero 32)

/-- The run after the first message. -/
def net : BraidNet UInt8 :=
  ((BraidNet.init primitives (Block.zero 32)).post .alice first.1.1).settle .alice none first.2

theorem reachable_net : (BraidNet.system primitives (Block.zero 32)).Reachable net :=
  (System.Reachable.of_start rfl).of_step (BraidNet.Step.send rfl)

/-- The two ends of a run, and what they have output. -/
structure Ends where
  /-- The initiator. -/
  alice : BraidScka UInt8
  /-- The responder. -/
  bob : BraidScka UInt8
  /-- The keys of the initiator. -/
  aliceOut : List (SckaOutput UInt8)
  /-- The keys of the responder. -/
  bobOut : List (SckaOutput UInt8)

/-- Each end sends a message, and the other receives it. -/
def Ends.round (e : Ends) : Except PrimitiveError Ends := do
  let ((msg, _, out), alice) := e.alice.send primitives (Block.zero 64) (Block.zero 32)
  let ((_, out'), bob) ← e.bob.receive primitives msg
  let ((msg', _, out''), bob) := bob.send primitives (Block.zero 64) (Block.zero 32)
  let ((_, out'''), alice) ← alice.receive primitives msg'
  return { alice, bob
           aliceOut := e.aliceOut ++ out.toList ++ out'''.toList
           bobOut := e.bobOut ++ out'.toList ++ out''.toList }

/-- A number of rounds. -/
def rounds : ℕ → Except PrimitiveError Ends
  | 0 => .ok ⟨BraidScka.initAlice primitives (Block.zero 32),
      BraidScka.initBob primitives (Block.zero 32), [], []⟩
  | n + 1 => do
    let e ← rounds n
    e.round

/-- The ends of a network. -/
structure Ends.Of (e : Ends) (net : BraidNet UInt8) : Prop where
  /-- The initiator is in the state of the network. -/
  alice : net.state .alice = e.alice
  /-- So is the responder. -/
  bob : net.state .bob = e.bob
  /-- The initiator has output these keys. -/
  aliceOut : net.outputs .alice = e.aliceOut
  /-- And so has the responder. -/
  bobOut : net.outputs .bob = e.bobOut

/-- A message that is sent and arrives at once. -/
theorem exists_pass {net : BraidNet UInt8}
    (hnet : (BraidNet.system primitives (Block.zero 32)).Reachable net) (p : Party)
    {msg : BraidMessage UInt8} {n n' : ℕ} {out out' : Option (SckaOutput UInt8)}
    {s s' : BraidScka UInt8}
    (hsend : (net.state p).send primitives (Block.zero 64) (Block.zero 32) = ((msg, n, out), s))
    (hreceive : (net.state p.peer).receive primitives msg = .ok ((n', out'), s')) :
    ∃ net', (BraidNet.system primitives (Block.zero 32)).Reachable net' ∧
      net'.state p = s ∧ net'.state p.peer = s' ∧
      net'.outputs p = net.outputs p ++ out.toList ∧
      net'.outputs p.peer = net.outputs p.peer ++ out'.toList := by
  have hsent := hnet.of_step (BraidNet.Step.send hsend)
  have harrives : (((net.post p msg).settle p out s).state p.peer).receive primitives msg =
      .ok ((n', out'), s') := by
    rw [BraidNet.settle_state_peer, BraidNet.post_state]
    exact hreceive
  have hmem : msg ∈ ((net.post p msg).settle p out s).sent p.peer.peer := by
    rw [Party.peer_peer, BraidNet.settle_sent, BraidNet.post_sent]
    exact List.mem_cons_self
  exact ⟨_, hsent.of_step (BraidNet.Step.deliver hmem harrives), by simp, by simp, by simp, by simp⟩

/-- The rounds are a run. -/
theorem reachable_rounds {n : ℕ} {e : Ends} (h : rounds n = .ok e) :
    ∃ net, (BraidNet.system primitives (Block.zero 32)).Reachable net ∧ e.Of net := by
  induction n generalizing e with
  | zero =>
    cases h
    exact ⟨_, System.Reachable.of_start rfl, rfl, rfl, rfl, rfl⟩
  | succ n ih =>
    obtain ⟨e₀, he₀, hround⟩ := Except.bind_eq_ok.1 h
    obtain ⟨net, hnet, halice, hbob, haliceOut, hbobOut⟩ := ih he₀
    obtain ⟨⟨⟨n₁, out'⟩, bob₁⟩, hreceive, hround⟩ := Except.bind_eq_ok.1 hround
    obtain ⟨⟨⟨n₂, out₂⟩, alice₂⟩, hreceive', hret⟩ := Except.bind_eq_ok.1 hround
    cases hret
    rw [← hbob] at hreceive
    rw [← halice] at hreceive hreceive' ⊢
    obtain ⟨net₁, hnet₁, halice₁, hbob₁, haliceOut₁, hbobOut₁⟩ := exists_pass hnet .alice rfl hreceive
    obtain rfl : net₁.state .bob = bob₁ := hbob₁
    rw [← halice₁] at hreceive'
    obtain ⟨net₂, hnet₂, hbob₂, halice₂, hbobOut₂, haliceOut₂⟩ := exists_pass hnet₁ .bob rfl hreceive'
    refine ⟨net₂, hnet₂, halice₂, hbob₂, haliceOut₂.trans ?_, hbobOut₂.trans ?_⟩
    · show net₁.outputs .alice ++ _ = _
      rw [haliceOut₁, haliceOut]
    · show net₁.outputs .bob ++ _ = _
      rw [show net₁.outputs .bob = _ from hbobOut₁]
      show net.outputs .bob ++ _ ++ _ = _
      rw [hbobOut]

end Plain

/-- A run in which both sides have output a key of the first epoch: it is the same. -/
theorem braid_key_agreement_epoch :
    Epoch.IncrementalKem Plain.primitives ∧
    ∃ net, (BraidNet.system Plain.primitives (Block.zero 32)).Reachable net ∧
      ∃ o ∈ net.outputs .alice, ∃ o' ∈ net.outputs .bob, o.epoch = o'.epoch ∧ o.key = o'.key := by
  have hrun : (Plain.rounds 44).map (fun e ↦ (e.aliceOut.map (·.epoch), e.bobOut.map (·.epoch))) =
      .ok ([1], [1]) := by
    decide +kernel
  obtain ⟨e, he, hepochs⟩ : ∃ e, Plain.rounds 44 = .ok e ∧
      (e.aliceOut.map (·.epoch), e.bobOut.map (·.epoch)) = ([1], [1]) := by
    cases h : Plain.rounds 44 with
    | error err =>
      rw [h] at hrun
      cases hrun
    | ok e =>
      rw [h] at hrun
      exact ⟨e, rfl, Except.ok.inj hrun⟩
  obtain ⟨halice, hbob⟩ := Prod.mk.inj hepochs
  obtain ⟨o, ho, hepoch⟩ := List.map_eq_singleton_iff.1 halice
  obtain ⟨o', ho', hepoch'⟩ := List.map_eq_singleton_iff.1 hbob
  obtain ⟨net, hnet, hends⟩ := Plain.reachable_rounds he
  have hmem : o ∈ net.outputs .alice := by
    rw [hends.aliceOut, ho]
    exact List.mem_singleton_self o
  have hmem' : o' ∈ net.outputs .bob := by
    rw [hends.bobOut, ho']
    exact List.mem_singleton_self o'
  have heq : o.epoch = o'.epoch := hepoch.trans hepoch'.symm
  exact ⟨Plain.incrementalKem, net, hnet, o, hmem, o', hmem', heq,
    (braid_key_agreement Plain.incrementalKem hnet).2.2.2.1 .alice o hmem o' hmem' heq⟩

end VoiceChatCrypto
