import VoiceChatCrypto.Braid.Agreement
import VoiceChatCrypto.Ratchet.Epochs
import VoiceChatCrypto.Ratchet.InOrder
import VoiceChatCrypto.Ratchet.InStep

/-!
# The Triple Ratchet in order

A conversation of two Triple Ratchets in which each direction is a queue: nothing is lost, doubled or
overtaken. The classical ratchet and Braid follow every such conversation; SPQR does not. When Braid
completes an epoch at the decapsulator, `advance_epoch` replaces its receiving chain, and the
encapsulator stays in the old epoch until it hears from the new one. What it sends in between is
refused: a conversation delivers all its messages if and only if none of them is of an epoch that its
receiver has left.
-/

open Alphabet

namespace VoiceChatCrypto

variable {B : Type} [Alphabet B] {P : Primitives B}

/-! ### Braid -/

namespace BraidNet

variable {net : BraidNet B} {q : Party}

/-- **Where a party stands**, and what it can hear: beside its peer, ahead of it, or behind it. -/
inductive Phase (net : BraidNet B) (q : Party) : Prop
  | beside (hepoch : (net.state q.peer).epoch = (net.state q).epoch)
      (houtputs : net.outputs q = net.outputs q.peer)
      (hsent : ∀ msg ∈ net.sent q.peer, msg.epoch.toNat ≤ (net.state q).epoch.toNat)
  | ahead (hepoch : (net.state q).epoch.toNat = (net.state q.peer).epoch.toNat + 1)
      (hsent : ∀ msg ∈ net.sent q.peer, msg.epoch.toNat < (net.state q).epoch.toNat)
  | behind (hepoch : (net.state q.peer).epoch.toNat = (net.state q).epoch.toNat + 1)
      (hagent : ∃ enc ss b, (net.state q).agent = .ct2Sampled enc ss b)
      (hsent : ∀ msg ∈ net.sent q.peer, msg.epoch.toNat ≤ (net.state q).epoch.toNat + 1)

theorem Coherent.phase (h : Coherent P net) (q : Party) : Phase net q := by
  obtain ⟨p, g, hround | ⟨seed, m, hturn⟩⟩ := h
  · obtain ⟨agent, hstate, -⟩ := hround.decapsulator
    obtain ⟨auth, agent₁, hstate₁, -⟩ := hround.encapsulator
    rcases Party.eq_or_eq_peer q p with rfl | rfl
    · refine .beside (by rw [hstate, hstate₁]) hround.outputs fun msg hmsg ↦ ?_
      rw [hstate]
      exact (hround.sent_peer msg hmsg).epoch_le
    · rw [← Party.peer_peer p] at hstate
      refine .beside (by rw [hstate, hstate₁]) ?_ fun msg hmsg ↦ ?_
      · rw [Party.peer_peer, hround.outputs]
      · rw [Party.peer_peer] at hmsg
        rw [hstate₁]
        exact (hround.sent msg hmsg).epoch_le
  · obtain ⟨enc, b, henc⟩ := hturn.encapsulator
    rcases Party.eq_or_eq_peer q p with rfl | rfl
    · refine .ahead ?_ fun msg hmsg ↦ ?_
      · rw [hturn.decapsulator, henc]
        exact hturn.toNat_next
      · rw [hturn.decapsulator]
        dsimp only
        rw [hturn.toNat_next]
        exact Nat.lt_succ_of_le (hturn.sent_peer msg hmsg)
    · refine .behind ?_ ⟨enc, g.key P seed m, b, by rw [henc]⟩ fun msg hmsg ↦ ?_
      · rw [Party.peer_peer, hturn.decapsulator, henc]
        exact hturn.toNat_next
      · rw [Party.peer_peer] at hmsg
        rw [henc]
        rcases hturn.sent msg hmsg with hold | rfl
        · exact Nat.le_succ_of_le hold
        · exact hturn.toNat_next.le

/-- **The three kinds of delivery**: nothing comes of it but a chunk, the receiver completes the epoch
before its peer, or it follows its peer into the next one. -/
inductive Arrival (net : BraidNet B) (q : Party) (msg : BraidMessage B) (s : BraidScka B) :
    Option (SckaOutput B) → Prop
  | quiet (hepoch : s.epoch = (net.state q).epoch)
      (hmsg : msg.epoch.toNat ≤ (net.state q).epoch.toNat) : Arrival net q msg s none
  | finishes (o : SckaOutput B) (hepoch : s.epoch.toNat = (net.state q).epoch.toNat + 1)
      (hmsg : msg.epoch = (net.state q).epoch)
      (hpeer : (net.state q.peer).epoch = (net.state q).epoch) : Arrival net q msg s (some o)
  | follows (o : SckaOutput B) (hepoch : s.epoch.toNat = (net.state q).epoch.toNat + 1)
      (hmsg : msg.epoch.toNat = (net.state q).epoch.toNat + 1)
      (hpeer : (net.state q.peer).epoch.toNat = (net.state q).epoch.toNat + 1)
      (houtputs : net.outputs q ++ [o] = net.outputs q.peer) : Arrival net q msg s (some o)

/-- **Every message of the peer arrives in one of them**, below the epoch limit. -/
theorem Coherent.arrival (hB : Bytes B) (hkem : Epoch.IncrementalKem P) (h : Coherent P net)
    {msg : BraidMessage B} (hmsg : msg ∈ net.sent q.peer)
    (hlimit : (net.state q).epoch.toNat + 1 < 2 ^ 64) :
    ∃ n out s, (net.state q).receive P msg = .ok ((n, out), s) ∧ Coherent P (net.settle q out s) ∧
      Arrival net q msg s out := by
  rcases h.deliver hB hkem hmsg with ⟨n, out, s, hok, hnext, -⟩ | ⟨hnot, -⟩
  swap
  · exact absurd hlimit hnot
  refine ⟨n, out, s, hok, hnext, ?_⟩
  have hle : msg.epoch.toNat ≤ (net.state q).epoch.toNat + 1 := by
    cases h.phase q with
    | beside hepoch houtputs hsent => exact (hsent msg hmsg).trans (Nat.le_succ _)
    | ahead hepoch hsent => exact (hsent msg hmsg).le.trans (Nat.le_succ _)
    | behind hepoch hagent hsent => exact hsent msg hmsg
  rcases BraidScka.receive_epoch hok with ⟨rfl, hsame⟩ | ⟨⟨o, rfl⟩, hmoved⟩
  · -- without a key
    refine .quiet hsame (Nat.le_of_lt_succ (lt_of_le_of_ne hle fun heq ↦ ?_))
    cases h.phase q with
    | beside hepoch houtputs hsent => exact absurd (hsent msg hmsg) (by omega)
    | ahead hepoch hsent => exact absurd (hsent msg hmsg) (by omega)
    | behind hepoch hagent hsent =>
      obtain ⟨enc, ss, b, hagent⟩ := hagent
      have hcomplete := BraidScka.receive_next (P := P) hagent heq
      rw [hok] at hcomplete
      cases hcomplete
  · -- with a key
    cases h.phase q with
    | beside hepoch houtputs hsent =>
      cases BraidScka.receives_of_receive hok with
      | ct2Done _ hcurrent => exact .finishes o hmoved hcurrent.1 hepoch
      | complete hfuture => exact absurd (hsent msg hmsg) (by omega)
    | ahead hepoch hsent =>
      have hold := BraidScka.receive_old (P := P) (hsent msg hmsg)
      rw [hok] at hold
      cases hold
    | behind hepoch hagent hsent =>
      obtain ⟨enc, ss, b, hagent⟩ := hagent
      rcases Nat.lt_or_eq_of_le hle with hlt | heq
      · have hwaits := BraidScka.receive_ct2Sampled (P := P) hagent (Nat.le_of_lt_succ hlt)
        rw [hok] at hwaits
        cases hwaits
      · refine .follows o hmoved heq hepoch ?_
        cases hnext.phase q with
        | beside _ houtputs _ =>
          rw [settle_outputs, settle_outputs_peer] at houtputs
          exact houtputs
        | ahead hepoch' _ =>
          rw [settle_state, settle_state_peer] at hepoch'
          omega
        | behind hepoch' _ _ =>
          rw [settle_state, settle_state_peer] at hepoch'
          omega

end BraidNet

/-! ### The conversation -/

/-- A message on its way. -/
structure TripleMessage (B : Type) where
  /-- Its header. -/
  header : TripleHeader B
  /-- Its ciphertext. -/
  ciphertext : List B
  /-- What was sealed. -/
  plaintext : List B
  /-- The associated data, the same on both sides. -/
  ad : List B

/-- Two Triple Ratchets, the queue of messages to each, and the ratchet secrets drawn so far. -/
structure TripleNet (B : Type) [Alphabet B] where
  /-- The ratchet of each party. -/
  state : Party → TripleRatchetState B
  /-- The messages on the way to each party, the next one first. -/
  queue : Party → List (TripleMessage B)
  /-- The secrets drawn by either. -/
  drawn : List (Block B 32)

/-- What happens in a conversation: a party encrypts, or the next message to it is delivered. -/
inductive TripleOp (B : Type)
  | encrypt (p : Party) (seed : Block B 64) (m : Block B 32) (plaintext ad : List B)
  | deliver (p : Party) (fresh : Block B 32)

/-- A delivery: the message, the state that it finds, and what `decrypt` returns. -/
structure TripleDelivery (B : Type) [Alphabet B] where
  /-- The message that is delivered. -/
  msg : TripleMessage B
  /-- The state of its receiver. -/
  receiver : TripleRatchetState B
  /-- The plaintext, or the error. -/
  outcome : Except PrimitiveError (List B)

/-- What was sent, and what came of it. -/
def TripleDelivery.result (d : TripleDelivery B) : List B × Except PrimitiveError (List B) :=
  (d.msg.plaintext, d.outcome)

namespace TripleNet

variable (P : Primitives B)

/-- `init_alice` and `init_bob` with one secret. -/
def start (sk a b : Block B 32) : Except PrimitiveError (TripleNet B) := do
  let alice ← TripleRatchetState.initAlice P a sk (P.publicKey b)
  let bob ← TripleRatchetState.initBob P sk b
  return { state := fun p ↦ if p = .alice then alice else bob, queue := fun _ ↦ [], drawn := [a, b] }

/-- One step. An encryption succeeds, and a ratchet secret that is drawn has a public key of its own; a
delivery takes the message off the queue, whatever comes of it. -/
def exec (op : TripleOp B) (net : TripleNet B) : Option (Option (TripleDelivery B) × TripleNet B) :=
  match op with
  | .encrypt p seed m plaintext ad =>
    match (net.state p).encrypt P seed m plaintext ad with
    | .error _ => none
    | .ok ((header, ciphertext), s) =>
      some (none, { net with
        state := Function.update net.state p s
        queue := Function.update net.queue p.peer
          (net.queue p.peer ++ [{ header, ciphertext, plaintext, ad }]) })
  | .deliver p fresh =>
    match net.queue p with
    | [] => none
    | msg :: rest =>
      if P.publicKey fresh ∈ net.drawn.map P.publicKey then none
      else
        match (net.state p).decrypt P fresh msg.header msg.ciphertext msg.ad with
        | (outcome, s) =>
          some (some { msg, receiver := net.state p, outcome },
            { state := Function.update net.state p s
              queue := Function.update net.queue p rest
              drawn := fresh :: net.drawn })

/-- The deliveries of a run, which ends at the first step that cannot be taken. -/
def deliveries : List (TripleOp B) → TripleNet B → List (TripleDelivery B)
  | [], _ => []
  | op :: ops, net =>
    match net.exec P op with
    | none => []
    | some (d, net') => d.toList ++ deliveries ops net'

end TripleNet

/-- The receiving chain has moved past an epoch. Its keys were dropped with it, since none of them
had been put aside. -/
def TripleRatchetState.Past (s : TripleRatchetState B) (epoch : UInt32) : Prop :=
  ∃ e, s.spqr.receivingEpoch = some e ∧ epoch.toNat < e.toNat

/-! ### The invariant -/

/-- The root of SPQR and the first chain key of its epoch, after the keys that Braid has output. -/
def spqrRoots (P : Primitives B) (sk : Block B 32) (outs : List (SckaOutput B)) :
    Block B 32 × Block B 32 :=
  outs.foldl (fun r o ↦ (nextRoot P r.1 o.key, nextStart P r.1 o.key))
    (nextRoot P sk sk, nextStart P sk sk)

theorem spqrRoots_concat (P : Primitives B) (sk : Block B 32) (outs : List (SckaOutput B))
    (o : SckaOutput B) : spqrRoots P sk (outs ++ [o]) =
      (nextRoot P (spqrRoots P sk outs).1 o.key, nextStart P (spqrRoots P sk outs).1 o.key) := by
  rw [spqrRoots, List.foldl_append, ← spqrRoots]
  rfl

/-- A message with what went into it: the two message keys, and the Braid message. The parties do
not see parcels; the invariants of the three ratchets are stated over them. -/
structure Parcel (B : Type) where
  /-- The message. -/
  msg : TripleMessage B
  /-- The message key of the classical ratchet. -/
  ecMk : Block B 32
  /-- The message key of the post-quantum ratchet. -/
  pqMk : Block B 32
  /-- What the Braid had to send. -/
  braid : BraidMessage B

namespace Parcel

/-- What the classical ratchet reads. -/
def classical (x : Parcel B) : Header B × Block B 32 := (x.msg.header.classical, x.ecMk)

/-- What SPQR reads. -/
def pq (x : Parcel B) : PqKey B := (x.msg.header.pqEpoch, x.msg.header.pqN, x.pqMk)

/-- The message was made of these. -/
structure Genuine (P : Primitives B) (x : Parcel B) : Prop where
  /-- The header holds the Braid message. -/
  scka : x.msg.header.scka = some x.braid
  /-- The Braid message is of the epoch whose key was used. -/
  epoch : x.braid.epoch.toNat = x.msg.header.pqEpoch.toNat
  /-- The ciphertext was sealed under both keys. -/
  ciphertext : aeadSeal P (aeadFromHybrid P (kdfHybrid P x.ecMk x.pqMk)).1
    (aeadFromHybrid P (kdfHybrid P x.ecMk x.pqMk)).2 x.msg.plaintext
    (concatTripleAd x.msg.ad x.msg.header) = .ok x.msg.ciphertext

end Parcel

/-- Where a party stands on a chain of SPQR. -/
def BraidNet.chainEnd (P : Primitives B) (sk : Block B 32) (bnet : BraidNet B) (p : Party) (n : ℕ) :
    ChainEnd B :=
  { start := (spqrRoots P sk (bnet.outputs p)).2, epoch := (bnet.state p).epoch.toNat, n }

/-- **The invariant of a conversation**: that of each of the three ratchets, over one queue. -/
structure Conversing (P : Primitives B) (sk : Block B 32) (net : TripleNet B) (bnet : BraidNet B)
    (parcels : Party → List (Parcel B)) (ns nr : Party → ℕ) : Prop where
  /-- The messages on the way are those of the parcels. -/
  queue : ∀ p, net.queue p = (parcels p).map (·.msg)
  /-- The parcels tell what went into them. -/
  genuine : ∀ p, ∀ x ∈ parcels p, x.Genuine P
  /-- The classical ratchets keep their invariant. -/
  classical : ∃ L rung pos len, InOrder P L rung pos len (fun p ↦ (net.state p).classical)
    (fun p ↦ (parcels p).map (·.classical)) net.drawn
  /-- The Braids keep their invariant. -/
  coherent : bnet.Coherent P
  /-- The Braids of the parties are those of the Braid network. -/
  braid : ∀ p, bnet.state p = (net.state p).braid
  /-- Braid messages on the way were sent there. -/
  sent : ∀ p, ∀ x ∈ parcels p, x.braid ∈ bnet.sent p.peer
  /-- Each party is in the epoch of its Braid, with the roots that its outputs lead to. -/
  spqr : ∀ p, AtEpoch P (spqrRoots P sk (bnet.outputs p)).1 (spqrRoots P sk (bnet.outputs p)).2
    (bnet.state p).epoch.toNat (ns p) (nr p) (net.state p).spqr
  /-- The post-quantum keys on the way lead from the receiver's position to the sender's. -/
  inflow : ∀ p, Inflow P (bnet.chainEnd P sk p.peer (ns p.peer)) (bnet.chainEnd P sk p (nr p))
    ((parcels p).map (·.pq))

/-! ### Encryption -/

/-- A Braid message is of the epoch of its sender. -/
theorem BraidScka.send_msg_epoch (seed : Block B 64) (m : Block B 32) (s : BraidScka B) :
    (send P seed m s).1.1.epoch = s.epoch := by
  rw [← encaps1IfNeeded_epoch (P := P) m s]
  unfold send
  dsimp only
  split
  all_goals rfl

/-- A projection of an updated family. -/
theorem update_comp {α β γ : Type*} [DecidableEq α] (f : β → γ) (g : α → β) (p : α) (x : β) :
    (fun q ↦ f (Function.update g p x q)) = Function.update (fun q ↦ f (g q)) p (f x) :=
  funext fun q ↦ Function.apply_update (fun _ ↦ f) g p x q

namespace Conversing

variable {sk : Block B 32} {net : TripleNet B} {bnet : BraidNet B}
  {parcels : Party → List (Parcel B)} {ns nr : Party → ℕ} {p : Party}

/-- **Encryption** appends to the queue of the peer. -/
theorem encrypt (h : Conversing P sk net bnet parcels ns nr) {seed : Block B 64} {m : Block B 32}
    {pt ad ct : List B} {header : TripleHeader B} {s : TripleRatchetState B}
    (hok : (net.state p).encrypt P seed m pt ad = .ok ((header, ct), s)) :
    ∃ bnet' parcels' ns', Conversing P sk { net with
      state := Function.update net.state p s
      queue := Function.update net.queue p.peer (net.queue p.peer ++ [⟨header, ct, pt, ad⟩]) }
      bnet' parcels' ns' nr := by
  obtain ⟨bm, n, braid, hsend, hcoherent⟩ := h.coherent.send p seed m
  rw [h.braid p] at hsend
  obtain ⟨ecHeader, ecMk, pqEpoch, pqN, pqMk, hec, hpq, hbraid, rfl, hseal⟩ :=
    TripleRatchetState.encrypt_eq_ok hok
  have hmsg := BraidScka.send_msg_epoch (P := P) seed m (net.state p).braid
  have hepoch := BraidScka.send_epoch (P := P) seed m (net.state p).braid
  rw [hsend] at hbraid hseal hmsg hepoch
  rw [hsend]
  dsimp only at hbraid hseal hmsg hepoch ⊢
  obtain ⟨hsits, hspqr⟩ := (h.spqr p).send hpq
  obtain ⟨L, rung, pos, len, hclassical⟩ := h.classical
  obtain ⟨len', hclassical'⟩ := hclassical.send hec
  -- what is appended
  let x : Parcel B := ⟨⟨⟨ecHeader, pqEpoch, pqN, some bm⟩, ct, pt, ad⟩, ecMk, pqMk, bm⟩
  have hx : x.Genuine P := ⟨rfl, by rw [hmsg, ← h.braid p]; exact hsits.epoch.symm, hseal⟩
  have hinflow := (h.inflow p.peer).send (x := x.pq) (by rw [Party.peer_peer]; exact hsits)
  -- Braid keeps its epochs and its outputs
  have houtputs : ∀ q, ((bnet.post p bm).settle p none braid).outputs q = bnet.outputs q := by
    intro q
    rcases Party.eq_or_eq_peer q p with rfl | rfl
    · rw [BraidNet.settle_outputs, Option.toList_none, List.append_nil, BraidNet.post_outputs]
    · rw [BraidNet.settle_outputs_peer, BraidNet.post_outputs]
  have hepochs : ∀ q, (((bnet.post p bm).settle p none braid).state q).epoch =
      (bnet.state q).epoch := by
    intro q
    rcases Party.eq_or_eq_peer q p with rfl | rfl
    · rw [BraidNet.settle_state, hepoch, h.braid]
    · rw [BraidNet.settle_state_peer, BraidNet.post_state]
  have hends : ∀ q i, ((bnet.post p bm).settle p none braid).chainEnd P sk q i =
      bnet.chainEnd P sk q i := by
    intro q i
    rw [BraidNet.chainEnd, BraidNet.chainEnd, houtputs, hepochs]
  have hne := BraidNet.peer_ne p
  refine ⟨(bnet.post p bm).settle p none braid,
    Function.update parcels p.peer (parcels p.peer ++ [x]), Function.update ns p (ns p + 1), ?_⟩
  exact
    { queue := by
        intro q
        dsimp only
        rcases Party.eq_or_eq_peer q p with rfl | rfl
        · rw [Function.update_of_ne hne.symm, Function.update_of_ne hne.symm]
          exact h.queue q
        · rw [Function.update_self, Function.update_self, h.queue, List.map_append]
          rfl
      genuine := by
        intro q y hy
        rcases Party.eq_or_eq_peer q p with rfl | rfl
        · rw [Function.update_of_ne hne.symm] at hy
          exact h.genuine q y hy
        · rw [Function.update_self] at hy
          rcases List.mem_append.1 hy with hy | hy
          · exact h.genuine _ y hy
          · exact List.mem_singleton.1 hy ▸ hx
      classical := by
        refine ⟨L, rung, pos, len', ?_⟩
        dsimp only
        rw [update_comp fun s : TripleRatchetState B ↦ s.classical,
          update_comp fun xs : List (Parcel B) ↦ xs.map (·.classical), List.map_append]
        exact hclassical'
      coherent := hcoherent
      braid := by
        intro q
        dsimp only
        rcases Party.eq_or_eq_peer q p with rfl | rfl
        · rw [BraidNet.settle_state, Function.update_self, hbraid]
        · rw [BraidNet.settle_state_peer, Function.update_of_ne hne, BraidNet.post_state]
          exact h.braid _
      sent := by
        intro q y hy
        rcases Party.eq_or_eq_peer q p with rfl | rfl
        · rw [Function.update_of_ne hne.symm] at hy
          rw [BraidNet.settle_sent, BraidNet.post_sent_peer]
          exact h.sent q y hy
        · rw [Function.update_self] at hy
          rw [BraidNet.settle_sent, Party.peer_peer, BraidNet.post_sent]
          rcases List.mem_append.1 hy with hy | hy
          · have hold := h.sent _ y hy
            rw [Party.peer_peer] at hold
            exact List.mem_cons_of_mem _ hold
          · rw [List.mem_singleton.1 hy]
            exact List.mem_cons_self
      spqr := by
        intro q
        dsimp only
        rw [houtputs, hepochs]
        rcases Party.eq_or_eq_peer q p with rfl | rfl
        · rw [Function.update_self, Function.update_self]
          exact hspqr
        · rw [Function.update_of_ne hne, Function.update_of_ne hne]
          exact h.spqr _
      inflow := by
        intro q
        rw [hends, hends]
        rcases Party.eq_or_eq_peer q p with rfl | rfl
        · rw [Function.update_of_ne hne, Function.update_of_ne hne.symm]
          exact h.inflow q
        · rw [Party.peer_peer] at hinflow ⊢
          rw [Function.update_self, Function.update_self, List.map_append]
          exact hinflow }

/-! ### Delivery -/

/-- The conversation after a delivery, from the invariants of the three ratchets. -/
theorem settle (h : Conversing P sk net bnet parcels ns nr) {x : Parcel B} {xs : List (Parcel B)}
    (hparcels : parcels p = x :: xs) {fresh : Block B 32} {s : TripleRatchetState B}
    {out : Option (SckaOutput B)} {nsp nrp : ℕ}
    (hclassical : ∃ L rung pos len, InOrder P L rung pos len
      (Function.update (fun q ↦ (net.state q).classical) p s.classical)
      (Function.update (fun q ↦ (parcels q).map (·.classical)) p (xs.map (·.classical)))
      (fresh :: net.drawn))
    (hcoherent : (bnet.settle p out s.braid).Coherent P)
    (hspqr : AtEpoch P (spqrRoots P sk (bnet.outputs p ++ out.toList)).1
      (spqrRoots P sk (bnet.outputs p ++ out.toList)).2 s.braid.epoch.toNat nsp nrp s.spqr)
    (hin : Inflow P (bnet.chainEnd P sk p.peer (ns p.peer))
      ((bnet.settle p out s.braid).chainEnd P sk p nrp) (xs.map (·.pq)))
    (hout : Inflow P ((bnet.settle p out s.braid).chainEnd P sk p nsp)
      (bnet.chainEnd P sk p.peer (nr p.peer)) ((parcels p.peer).map (·.pq))) :
    Conversing P sk
      { state := Function.update net.state p s
        queue := Function.update net.queue p (xs.map (·.msg))
        drawn := fresh :: net.drawn }
      (bnet.settle p out s.braid) (Function.update parcels p xs) (Function.update ns p nsp)
      (Function.update nr p nrp) := by
  have hne := BraidNet.peer_ne p
  have hsub : ∀ y ∈ xs, y ∈ parcels p := by
    intro y hy
    rw [hparcels]
    exact List.mem_cons_of_mem _ hy
  have hend : ∀ i, (bnet.settle p out s.braid).chainEnd P sk p.peer i =
      bnet.chainEnd P sk p.peer i := by
    intro i
    rw [BraidNet.chainEnd, BraidNet.chainEnd, BraidNet.settle_outputs_peer,
      BraidNet.settle_state_peer]
  exact
    { queue := by
        intro q
        dsimp only
        rcases Party.eq_or_eq_peer q p with rfl | rfl
        · rw [Function.update_self, Function.update_self]
        · rw [Function.update_of_ne hne, Function.update_of_ne hne]
          exact h.queue _
      genuine := by
        intro q y hy
        rcases Party.eq_or_eq_peer q p with rfl | rfl
        · rw [Function.update_self] at hy
          exact h.genuine q y (hsub y hy)
        · rw [Function.update_of_ne hne] at hy
          exact h.genuine _ y hy
      classical := by
        obtain ⟨L, rung, pos, len, hclassical⟩ := hclassical
        refine ⟨L, rung, pos, len, ?_⟩
        dsimp only
        rw [update_comp fun s : TripleRatchetState B ↦ s.classical,
          update_comp fun xs : List (Parcel B) ↦ xs.map (·.classical)]
        exact hclassical
      coherent := hcoherent
      braid := by
        intro q
        dsimp only
        rcases Party.eq_or_eq_peer q p with rfl | rfl
        · rw [BraidNet.settle_state, Function.update_self]
        · rw [BraidNet.settle_state_peer, Function.update_of_ne hne]
          exact h.braid _
      sent := by
        intro q y hy
        rw [BraidNet.settle_sent]
        rcases Party.eq_or_eq_peer q p with rfl | rfl
        · rw [Function.update_self] at hy
          exact h.sent q y (hsub y hy)
        · rw [Function.update_of_ne hne] at hy
          exact h.sent _ y hy
      spqr := by
        intro q
        dsimp only
        rcases Party.eq_or_eq_peer q p with rfl | rfl
        · rw [BraidNet.settle_outputs, BraidNet.settle_state, Function.update_self,
            Function.update_self, Function.update_self]
          exact hspqr
        · rw [BraidNet.settle_outputs_peer, BraidNet.settle_state_peer, Function.update_of_ne hne,
            Function.update_of_ne hne, Function.update_of_ne hne]
          exact h.spqr _
      inflow := by
        intro q
        rcases Party.eq_or_eq_peer q p with rfl | rfl
        · rw [Function.update_self, Function.update_self, Function.update_of_ne hne, hend]
          exact hin
        · rw [Party.peer_peer, Function.update_self, Function.update_of_ne hne,
            Function.update_of_ne hne, hend]
          exact hout }

/-- What is left of a delivery once Braid has had its part: the keys of the two other ratchets, the
seal, and the advance that was put off. -/
theorem tryDecrypt_of_scka (haead : IdealAead P) {x : Parcel B} (hx : x.Genuine P)
    {s : TripleRatchetState B} {fresh : Block B 32} {classical : DoubleRatchetState B}
    {braid : BraidScka B} {spqr spqr' : SpqrState B} {pending : Option (Block B 32)}
    (hscka : s.receiveScka P x.msg.header.scka x.msg.header.pqEpoch = .ok (braid, spqr, pending))
    (hec : s.classical.ratchetReceiveKey P fresh x.msg.header.classical = .ok (x.ecMk, classical))
    (hpq : spqr.receiveKey P x.msg.header.pqEpoch x.msg.header.pqN = .ok (x.pqMk, spqr')) :
    s.tryDecrypt P fresh x.msg.header x.msg.ciphertext x.msg.ad =
      pending.elim (.ok (x.msg.plaintext, ⟨classical, spqr', braid⟩)) fun k ↦
        (spqr'.advanceEpoch P k).map fun r ↦ (x.msg.plaintext, ⟨classical, r.2, braid⟩) := by
  have hopen := haead.open_seal hx.ciphertext
  unfold TripleRatchetState.tryDecrypt
  simp only [hscka, hec, hpq, hopen, bind, Except.bind, pure, Except.pure]
  cases pending with
  | none => rfl
  | some k =>
    dsimp only [Option.elim]
    cases spqr'.advanceEpoch P k with
    | error err => rfl
    | ok r => rfl

/-- A limit reached by the classical ratchet or by SPQR. -/
theorem tryDecrypt_of_limit {x : Parcel B} {s : TripleRatchetState B} {fresh : Block B 32}
    {braid : BraidScka B} {spqr : SpqrState B} {pending : Option (Block B 32)}
    (hscka : s.receiveScka P x.msg.header.scka x.msg.header.pqEpoch = .ok (braid, spqr, pending))
    (h : s.classical.ratchetReceiveKey P fresh x.msg.header.classical = .error .limitExceeded ∨
      (∃ r, s.classical.ratchetReceiveKey P fresh x.msg.header.classical = .ok r) ∧
        spqr.receiveKey P x.msg.header.pqEpoch x.msg.header.pqN = .error .limitExceeded) :
    s.tryDecrypt P fresh x.msg.header x.msg.ciphertext x.msg.ad = .error .limitExceeded := by
  unfold TripleRatchetState.tryDecrypt
  rcases h with hec | ⟨⟨r, hec⟩, hpq⟩
  · simp only [hscka, hec, bind, Except.bind]
  · simp only [hscka, hec, hpq, bind, Except.bind]

/-- The next message is delivered, unless a limit is reached, and the conversation goes on. -/
def Delivers (P : Primitives B) (sk : Block B 32) (net : TripleNet B) (p : Party) (x : Parcel B)
    (xs : List (Parcel B)) (fresh : Block B 32) : Prop :=
  (net.state p).tryDecrypt P fresh x.msg.header x.msg.ciphertext x.msg.ad = .error .limitExceeded ∨
    ∃ s, (net.state p).tryDecrypt P fresh x.msg.header x.msg.ciphertext x.msg.ad =
        .ok (x.msg.plaintext, s) ∧
      ∃ bnet parcels ns nr, Conversing P sk
        { state := Function.update net.state p s
          queue := Function.update net.queue p (xs.map (·.msg))
          drawn := fresh :: net.drawn } bnet parcels ns nr

/-- The classical ratchet has its key, or is at its limit. -/
theorem receive_classical (hdh : DhCommutes P) (h : Conversing P sk net bnet parcels ns nr)
    {x : Parcel B} {xs : List (Parcel B)} (hparcels : parcels p = x :: xs) {fresh : Block B 32}
    (hfresh : P.publicKey fresh ∉ net.drawn.map P.publicKey) :
    (net.state p).classical.ratchetReceiveKey P fresh x.msg.header.classical =
        .error .limitExceeded ∨
      ∃ c, (net.state p).classical.ratchetReceiveKey P fresh x.msg.header.classical = .ok (x.ecMk, c) ∧
        ∃ L rung pos len, InOrder P L rung pos len
          (Function.update (fun q ↦ (net.state q).classical) p c)
          (Function.update (fun q ↦ (parcels q).map (·.classical)) p (xs.map (·.classical)))
          (fresh :: net.drawn) := by
  obtain ⟨L, rung, pos, len, hclassical⟩ := h.classical
  have hqueue : (parcels p).map (·.classical) = x.classical :: xs.map (·.classical) := by
    rw [hparcels, List.map_cons]
  rcases hclassical.receive hdh hqueue hfresh with hlimit | ⟨c, L', rung', pos', hok, hnext⟩
  · exact .inl hlimit
  · exact .inr ⟨c, hok, L', rung', pos', len, hnext⟩

section Cases

variable (hdh : DhCommutes P) (haead : IdealAead P) (h : Conversing P sk net bnet parcels ns nr)
  {x : Parcel B} {xs : List (Parcel B)} (hparcels : parcels p = x :: xs) {fresh : Block B 32}
  (hfresh : P.publicKey fresh ∉ net.drawn.map P.publicKey) {b : BraidScka B}
  {out : Option (SckaOutput B)} (hcoherent : (bnet.settle p out b).Coherent P) {spqr : SpqrState B}
include hdh haead h hparcels hfresh hcoherent

/-- A delivery after which SPQR has nothing more to do. -/
theorem deliver_settled (nsp i : ℕ)
    (hscka : (net.state p).receiveScka P x.msg.header.scka x.msg.header.pqEpoch =
      .ok (b, spqr, none))
    (hat : AtEpoch P (spqrRoots P sk (bnet.outputs p ++ out.toList)).1
      (spqrRoots P sk (bnet.outputs p ++ out.toList)).2 b.epoch.toNat nsp i spqr)
    (hsits : PqSits P (spqrRoots P sk (bnet.outputs p ++ out.toList)).2 b.epoch.toNat x.pq i)
    (hin : Inflow P (bnet.chainEnd P sk p.peer (ns p.peer))
      ((bnet.settle p out b).chainEnd P sk p (i + 1)) (xs.map (·.pq)))
    (hout : Inflow P ((bnet.settle p out b).chainEnd P sk p nsp)
      (bnet.chainEnd P sk p.peer (nr p.peer)) ((parcels p.peer).map (·.pq))) :
    Delivers P sk net p x xs fresh := by
  have hx : x.Genuine P := h.genuine p x (by rw [hparcels]; exact List.mem_cons_self)
  rcases h.receive_classical hdh hparcels hfresh with hlimit | ⟨c, hec, hclassical⟩
  · exact .inl (tryDecrypt_of_limit hscka (.inl hlimit))
  rcases hat.receive hsits with hlimit | ⟨spqr', hpq, hat'⟩
  · exact .inl (tryDecrypt_of_limit hscka (.inr ⟨⟨_, hec⟩, hlimit⟩))
  refine .inr ⟨⟨c, spqr', b⟩, tryDecrypt_of_scka haead hx hscka hec hpq, ?_⟩
  exact ⟨_, _, _, _, h.settle hparcels hclassical hcoherent hat' hin hout⟩

/-- A delivery after which SPQR opens the next epoch. -/
theorem deliver_pending {nsp i e : ℕ} {root start k : Block B 32}
    (hscka : (net.state p).receiveScka P x.msg.header.scka x.msg.header.pqEpoch =
      .ok (b, spqr, some k))
    (hat : AtEpoch P root start e nsp i spqr) (hsits : PqSits P start e x.pq i)
    (hroots : spqrRoots P sk (bnet.outputs p ++ out.toList) = (nextRoot P root k, nextStart P root k))
    (hepoch : b.epoch.toNat = e + 1)
    (hin : Inflow P (bnet.chainEnd P sk p.peer (ns p.peer))
      ((bnet.settle p out b).chainEnd P sk p 0) (xs.map (·.pq)))
    (hout : Inflow P ((bnet.settle p out b).chainEnd P sk p 0)
      (bnet.chainEnd P sk p.peer (nr p.peer)) ((parcels p.peer).map (·.pq))) :
    Delivers P sk net p x xs fresh := by
  have hx : x.Genuine P := h.genuine p x (by rw [hparcels]; exact List.mem_cons_self)
  rcases h.receive_classical hdh hparcels hfresh with hlimit | ⟨c, hec, hclassical⟩
  · exact .inl (tryDecrypt_of_limit hscka (.inl hlimit))
  rcases hat.receive hsits with hlimit | ⟨spqr', hpq, hat'⟩
  · exact .inl (tryDecrypt_of_limit hscka (.inr ⟨⟨_, hec⟩, hlimit⟩))
  have htry := tryDecrypt_of_scka haead hx hscka hec hpq
  rcases hat'.advance k with hlimit | ⟨n, spqr'', hadvance, hat''⟩
  · refine .inl ?_
    rw [htry, Option.elim, hlimit]
    rfl
  · refine .inr ⟨⟨c, spqr'', b⟩, ?_, ?_⟩
    · rw [htry, Option.elim, hadvance]
      rfl
    · refine ⟨_, _, _, _, h.settle hparcels hclassical hcoherent ?_ hin hout⟩
      rw [hroots, hepoch]
      exact hat''

end Cases

/-- The end of a party that has settled in a state. -/
theorem chainEnd_settle (sk : Block B 32) (bnet : BraidNet B) (p : Party)
    (out : Option (SckaOutput B)) (b : BraidScka B) (i : ℕ) :
    (bnet.settle p out b).chainEnd P sk p i =
      ⟨(spqrRoots P sk (bnet.outputs p ++ out.toList)).2, b.epoch.toNat, i⟩ := by
  rw [BraidNet.chainEnd, BraidNet.settle_outputs, BraidNet.settle_state]

/-- **A message that its receiver has not moved past is delivered**, unless a limit is reached. -/
theorem deliver (hB : Bytes B) (hkem : Epoch.IncrementalKem P) (hdh : DhCommutes P)
    (haead : IdealAead P) (h : Conversing P sk net bnet parcels ns nr) {x : Parcel B}
    {xs : List (Parcel B)} (hparcels : parcels p = x :: xs) {fresh : Block B 32}
    (hfresh : P.publicKey fresh ∉ net.drawn.map P.publicKey)
    (hcurrent : (bnet.state p).epoch.toNat ≤ x.msg.header.pqEpoch.toNat) :
    Delivers P sk net p x xs fresh := by
  have hmem : x ∈ parcels p := by rw [hparcels]; exact List.mem_cons_self
  have hx := h.genuine p x hmem
  have hat := h.spqr p
  have hlimit : (bnet.state p).epoch.toNat + 1 < 2 ^ 64 := by
    have := hat.nextEpoch
    have := (net.state p).spqr.nextEpoch.toNat_lt
    omega
  obtain ⟨n, out, b, hrecv, hcoherent, harrival⟩ := h.coherent.arrival hB hkem (h.sent p x hmem) hlimit
  rw [h.braid p] at hrecv
  have hhead := h.inflow p
  rw [hparcels, List.map_cons] at hhead
  have hepoch := hx.epoch
  cases harrival with
  | quiet hsame hmsg =>
    -- nothing happens to SPQR but the step of its chain
    rcases hhead.head hcurrent with ⟨hsits, hrest⟩ | ⟨hahead, hsits, -⟩
    swap
    · have := hsits.epoch
      simp only [BraidNet.chainEnd, Parcel.pq] at hahead this
      omega
    have hscka : (net.state p).receiveScka P x.msg.header.scka x.msg.header.pqEpoch =
        .ok (b, (net.state p).spqr, none) := by
      simp only [TripleRatchetState.receiveScka, hx.scka, hrecv, bind, Except.bind]
      rfl
    have hroots : bnet.outputs p ++ (none : Option (SckaOutput B)).toList = bnet.outputs p :=
      List.append_nil _
    refine deliver_settled hdh haead h hparcels hfresh hcoherent (ns p) (nr p) hscka ?_ ?_ ?_ ?_
    · rw [hroots, hsame]
      exact hat
    · rw [hroots, hsame]
      exact hsits
    · rw [chainEnd_settle, hroots, hsame]
      exact hrest
    · rw [chainEnd_settle, hroots, hsame]
      have hout := h.inflow p.peer
      rw [Party.peer_peer] at hout
      exact hout
  | finishes o hmoved hmsg hpeer =>
    -- the receiver opens the next epoch before its peer, after this message
    rcases hhead.head hcurrent with ⟨hsits, hrest⟩ | ⟨hahead, hsits, -⟩
    swap
    · have := hsits.epoch
      simp only [BraidNet.chainEnd, Parcel.pq] at hahead this
      rw [hmsg] at hepoch
      omega
    have hreceiving : (net.state p).spqr.receivingEpoch = some x.msg.header.pqEpoch :=
      (hat.receivingEpoch_eq _).2 hsits.epoch
    have hscka : (net.state p).receiveScka P x.msg.header.scka x.msg.header.pqEpoch =
        .ok (b, (net.state p).spqr, some o.key) := by
      simp only [TripleRatchetState.receiveScka, hx.scka, hrecv, hreceiving, bind, Except.bind, ne_eq,
        not_true, if_false]
      rfl
    refine deliver_pending hdh haead h hparcels hfresh hcoherent hscka hat hsits
      (spqrRoots_concat P sk _ o) hmoved ?_ ?_
    · rw [chainEnd_settle, hmoved]
      exact hrest.receiver_finishes (congrArg UInt64.toNat hpeer) _
    · rw [chainEnd_settle, hmoved]
      have hout := h.inflow p.peer
      rw [Party.peer_peer] at hout
      exact hout.sender_finishes (congrArg UInt64.toNat hpeer.symm) _
  | follows o hmoved hmsg hpeer houtputs =>
    -- the receiver opens the next epoch after its peer, before this message
    rcases hhead.head hcurrent with ⟨hsits, -⟩ | ⟨hahead, hsits, hrest⟩
    · have := hsits.epoch
      simp only [BraidNet.chainEnd, Parcel.pq] at this
      omega
    have hreceiving : (net.state p).spqr.receivingEpoch ≠ some x.msg.header.pqEpoch := by
      rw [ne_eq, hat.receivingEpoch_eq]
      omega
    have hroots : bnet.outputs p ++ (some o).toList = bnet.outputs p.peer := houtputs
    have hconcat := spqrRoots_concat P sk (bnet.outputs p) o
    rcases hat.advance o.key with hfull | ⟨e, spqr, hadvance, hat'⟩
    · refine .inl ?_
      unfold TripleRatchetState.tryDecrypt
      simp only [TripleRatchetState.receiveScka, hx.scka, hrecv, hreceiving, hfull, bind, Except.bind,
        ne_eq, not_false_eq_true, if_true]
    have hscka : (net.state p).receiveScka P x.msg.header.scka x.msg.header.pqEpoch =
        .ok (b, spqr, none) := by
      simp only [TripleRatchetState.receiveScka, hx.scka, hrecv, hreceiving, hadvance, bind,
        Except.bind, ne_eq, not_false_eq_true, if_true]
      rfl
    refine deliver_settled hdh haead h hparcels hfresh hcoherent 0 0 hscka ?_ ?_ ?_ ?_
    · rw [show bnet.outputs p ++ (some o).toList = bnet.outputs p ++ [o] from rfl, hconcat, hmoved]
      exact hat'
    · rw [hroots, hmoved, ← hpeer]
      exact hsits
    · rw [chainEnd_settle, hroots, hmoved, ← hpeer]
      exact hrest
    · rw [chainEnd_settle, hroots, hmoved, ← hpeer]
      have hout := h.inflow p.peer
      rw [Party.peer_peer] at hout
      exact hout.sender_follows hpeer

/-- **A message that its receiver has moved past is refused**: the chain of its epoch was dropped
when the next epoch began, and its key was not put aside. -/
theorem refuse (h : Conversing P sk net bnet parcels ns nr) {header : TripleHeader B}
    (hpast : header.pqEpoch.toNat < (bnet.state p).epoch.toNat) (fresh : Block B 32) (ct ad : List B)
    (r : List B × TripleRatchetState B) :
    (net.state p).tryDecrypt P fresh header ct ad ≠ .ok r := by
  intro hok
  have hat := h.spqr p
  obtain ⟨pt, s'⟩ := r
  obtain ⟨spqr, pending, ecMk, pqMk, spqr', hscka, -, hpq, -⟩ :=
    TripleRatchetState.tryDecrypt_eq_ok hok
  -- SPQR is in its epoch, or in the next one
  have hspqr : spqr = (net.state p).spqr ∨
      ∃ k e, (net.state p).spqr.advanceEpoch P k = .ok (e, spqr) := by
    rcases TripleRatchetState.receiveScka_eq_ok hscka with ⟨-, hsame, -⟩ | ⟨_, _, _, -, hout⟩
    · exact .inl hsame
    · rcases hout with ⟨-, hsame, -⟩ | ⟨o, -, ⟨-, -, e, hadvance⟩ | ⟨-, -, hsame⟩⟩
      · exact .inl hsame
      · exact .inr ⟨o.key, e, hadvance⟩
      · exact .inl hsame
  rcases hspqr with rfl | ⟨k, e, hadvance⟩
  · have := hat.epoch_of_receiveKey hpq
    omega
  · rcases hat.advance k with hfull | ⟨e', spqr'', hadvance', hat'⟩
    · rw [hadvance] at hfull
      cases hfull
    · rw [hadvance] at hadvance'
      cases hadvance'
      have := hat'.epoch_of_receiveKey hpq
      omega

/-! ### Runs -/

/-- The first epoch of SPQR, opened by the handshake. -/
theorem atEpoch_init (P : Primitives B) (sk : Block B 32) :
    ∃ n s, (SpqrState.init sk spqrMaxSkipEpochs).advanceEpoch P sk = .ok (n, s) ∧
      AtEpoch P (nextRoot P sk sk) (nextStart P sk sk) 1 0 0 s := by
  have hchain : ChainAt P (nextStart P sk sk) 1 0 ⟨1, nextStart P sk sk, 0⟩ := ⟨rfl, rfl, rfl⟩
  refine ⟨_, _, rfl, ?_⟩
  exact
    { root := rfl
      nextEpoch := rfl
      sending := ⟨_, rfl, hchain⟩
      receiving := ⟨_, rfl, hchain⟩
      skipped := by
        intro k
        have hempty : (SpqrState.init sk spqrMaxSkipEpochs : SpqrState B).skipped.lookup k = none :=
          Finmap.lookup_empty k
        dsimp only
        rw [Dict.lookup_filter, hempty, ite_self] }

/-- **A conversation starts.** -/
theorem init {a b : Block B 32} (hab : P.publicKey a ≠ P.publicKey b)
    (hstart : TripleNet.start P sk a b = .ok net) :
    Conversing P (TripleRatchetState.splitSk P sk).2 net
      (BraidNet.init P (TripleRatchetState.splitSk P sk).2) (fun _ ↦ []) (fun _ ↦ 0) fun _ ↦ 0 := by
  obtain ⟨n, spqr, hadvance, hat⟩ := atEpoch_init P (TripleRatchetState.splitSk P sk).2
  have halice : TripleRatchetState.initAlice P a sk (P.publicKey b) = .ok
      ⟨.initAlice P a (TripleRatchetState.splitSk P sk).1 (P.publicKey b) defaultMaxSkip, spqr,
        .initAlice P (TripleRatchetState.splitSk P sk).2⟩ := by
    unfold TripleRatchetState.initAlice
    dsimp only
    rw [hadvance]
    rfl
  have hbob : TripleRatchetState.initBob P sk b = .ok
      ⟨.initBob (TripleRatchetState.splitSk P sk).1 b defaultMaxSkip, spqr,
        .initBob P (TripleRatchetState.splitSk P sk).2⟩ := by
    unfold TripleRatchetState.initBob
    dsimp only
    rw [hadvance]
    rfl
  unfold TripleNet.start at hstart
  rw [halice, hbob] at hstart
  cases hstart
  exact
    { queue := fun _ ↦ rfl
      genuine := fun _ y hy ↦ absurd hy List.not_mem_nil
      classical := ⟨_, _, _, _, InOrder.init defaultMaxSkip hab rfl rfl⟩
      coherent := BraidNet.init_coherent _
      braid := by
        intro p
        cases p with
        | alice => rfl
        | bob => rfl
      sent := fun _ y hy ↦ absurd hy List.not_mem_nil
      spqr := by
        intro p
        cases p with
        | alice => exact hat
        | bob => exact hat
      inflow := by
        intro p
        cases p with
        | alice => exact .level rfl rfl le_rfl .nil
        | bob => exact .level rfl rfl le_rfl .nil }

/-- The receiving chain is past the epochs before that of Braid. -/
theorem past_iff (h : Conversing P sk net bnet parcels ns nr) (p : Party) (e : UInt32) :
    (net.state p).Past e ↔ e.toNat < (bnet.state p).epoch.toNat := by
  have hat := h.spqr p
  constructor
  · rintro ⟨e', he', hlt⟩
    rw [← (hat.receivingEpoch_eq e').1 he']
    exact hlt
  · intro hlt
    obtain ⟨c, hc, hchain⟩ := hat.receiving
    refine ⟨c.epoch, ?_, ?_⟩
    · rw [SpqrState.receivingEpoch, hc, Option.map_some]
    · rw [hchain.epoch]
      exact hlt

/-- **One delivery**, below the limits: the next message of the queue is received in all three
ratchets, unless its receiver has moved past it. -/
theorem step_deliver (hB : Bytes B) (hkem : Epoch.IncrementalKem P) (hdh : DhCommutes P)
    (haead : IdealAead P) (h : Conversing P sk net bnet parcels ns nr) {msg : TripleMessage B}
    {rest : List (TripleMessage B)} (hqueue : net.queue p = msg :: rest) {fresh : Block B 32}
    (hfresh : P.publicKey fresh ∉ net.drawn.map P.publicKey) {outcome : Except PrimitiveError (List B)}
    {s : TripleRatchetState B}
    (hdecrypt : (net.state p).decrypt P fresh msg.header msg.ciphertext msg.ad = (outcome, s))
    (hlimit : outcome ≠ .error .limitExceeded) :
    (net.state p).Past msg.header.pqEpoch ∧ outcome ≠ .ok msg.plaintext ∨
    ¬ (net.state p).Past msg.header.pqEpoch ∧ outcome = .ok msg.plaintext ∧
      ∃ bnet parcels ns nr, Conversing P sk
        { state := Function.update net.state p s
          queue := Function.update net.queue p rest
          drawn := fresh :: net.drawn } bnet parcels ns nr := by
  have hmap := h.queue p
  rw [hqueue] at hmap
  obtain ⟨x, xs, hparcels, rfl, rfl⟩ := List.map_eq_cons_iff.1 hmap.symm
  unfold TripleRatchetState.decrypt at hdecrypt
  rw [h.past_iff]
  rcases Nat.lt_or_ge x.msg.header.pqEpoch.toNat (bnet.state p).epoch.toNat with hpast | hcurrent
  · refine .inl ⟨hpast, ?_⟩
    rintro rfl
    split at hdecrypt
    · cases hdecrypt
    · exact h.refuse hpast fresh _ _ _ ‹_›
  · refine .inr ⟨hcurrent.not_gt, ?_⟩
    rcases h.deliver hB hkem hdh haead hparcels hfresh hcurrent with hfull | ⟨s', hok, hnext⟩
    · rw [hfull] at hdecrypt
      cases hdecrypt
      exact absurd rfl hlimit
    · rw [hok] at hdecrypt
      cases hdecrypt
      exact ⟨rfl, hnext⟩

/-- **One step**: it can be taken no further than the limits, keeps the conversation, or delivers a
message that the receiver has moved past, and then it fails. -/
theorem step (hB : Bytes B) (hkem : Epoch.IncrementalKem P) (hdh : DhCommutes P)
    (haead : IdealAead P) (h : Conversing P sk net bnet parcels ns nr) {op : TripleOp B}
    {d : Option (TripleDelivery B)} {net' : TripleNet B} (hexec : net.exec P op = some (d, net'))
    (hlimit : ∀ x ∈ d.toList, x.outcome ≠ .error .limitExceeded) :
    (∃ x ∈ d.toList, x.receiver.Past x.msg.header.pqEpoch ∧ x.outcome ≠ .ok x.msg.plaintext) ∨
    (∀ x ∈ d.toList, ¬ x.receiver.Past x.msg.header.pqEpoch ∧ x.outcome = .ok x.msg.plaintext) ∧
      ∃ bnet parcels ns nr, Conversing P sk net' bnet parcels ns nr := by
  cases op with
  | encrypt p seed m plaintext ad =>
    dsimp only [TripleNet.exec] at hexec
    cases hencrypt : (net.state p).encrypt P seed m plaintext ad with
    | error e =>
      rw [hencrypt] at hexec
      cases hexec
    | ok r =>
      obtain ⟨⟨header, ciphertext⟩, s⟩ := r
      rw [hencrypt] at hexec
      cases hexec
      obtain ⟨bnet', parcels', ns', hnext⟩ := h.encrypt hencrypt
      exact .inr ⟨fun x hx ↦ absurd hx List.not_mem_nil, bnet', parcels', ns', nr, hnext⟩
  | deliver p fresh =>
    dsimp only [TripleNet.exec] at hexec
    cases hqueue : net.queue p with
    | nil =>
      rw [hqueue] at hexec
      cases hexec
    | cons msg rest =>
      rw [hqueue] at hexec
      dsimp only at hexec
      by_cases hfresh : P.publicKey fresh ∈ net.drawn.map P.publicKey
      · rw [if_pos hfresh] at hexec
        cases hexec
      rw [if_neg hfresh] at hexec
      cases hexec
      rcases h.step_deliver hB hkem hdh haead hqueue hfresh rfl (hlimit _ List.mem_cons_self) with
        hrefused | ⟨hcurrent, hok, hnext⟩
      · exact .inl ⟨_, List.mem_cons_self, hrefused⟩
      · refine .inr ⟨fun x hx ↦ ?_, hnext⟩
        rw [List.mem_singleton.1 hx]
        exact ⟨hcurrent, hok⟩

/-- **A whole run**: it delivers every message if and only if no receiver has moved past one. -/
theorem deliveries_iff (hB : Bytes B) (hkem : Epoch.IncrementalKem P) (hdh : DhCommutes P)
    (haead : IdealAead P) (ops : List (TripleOp B)) (h : Conversing P sk net bnet parcels ns nr)
    (hlimit : ∀ d ∈ net.deliveries P ops, d.outcome ≠ .error .limitExceeded) :
    (∀ d ∈ net.deliveries P ops, d.outcome = .ok d.msg.plaintext) ↔
      ∀ d ∈ net.deliveries P ops, ¬ d.receiver.Past d.msg.header.pqEpoch := by
  induction ops generalizing net bnet parcels ns nr with
  | nil =>
    exact iff_of_true (fun d hd ↦ absurd hd List.not_mem_nil) fun d hd ↦ absurd hd List.not_mem_nil
  | cons op ops ih =>
    rw [TripleNet.deliveries] at hlimit ⊢
    cases hexec : net.exec P op with
    | none =>
      exact iff_of_true (fun d hd ↦ absurd hd List.not_mem_nil) fun d hd ↦ absurd hd List.not_mem_nil
    | some r =>
      obtain ⟨d, net'⟩ := r
      rw [hexec] at hlimit
      dsimp only at hlimit ⊢
      rw [List.forall_mem_append] at hlimit
      rw [List.forall_mem_append, List.forall_mem_append]
      rcases h.step hB hkem hdh haead hexec hlimit.1 with
        ⟨x, hx, hpast, hfails⟩ | ⟨hstep, bnet', parcels', ns', nr', hnext⟩
      · -- both sides fail at this delivery
        exact iff_of_false (fun hall ↦ hfails (hall.1 x hx)) fun hall ↦ hall.1 x hx hpast
      · exact and_congr (iff_of_true (fun x hx ↦ (hstep x hx).2) fun x hx ↦ (hstep x hx).1)
          (ih hnext hlimit.2)

end Conversing

/-- **A conversation in order delivers every message if and only if no message is of an epoch of SPQR
that its receiver has left**, below the limits. The decapsulator leaves an epoch when it completes it;
what the encapsulator sends before it hears from the next one is still of the old. -/
theorem fifo_delivered_iff_not_past {P : Primitives UInt8} (hkem : Epoch.IncrementalKem P)
    (hdh : DhCommutes P) (haead : IdealAead P) {sk a b : Block UInt8 32}
    (hab : P.publicKey a ≠ P.publicKey b) {net : TripleNet UInt8}
    (hstart : TripleNet.start P sk a b = .ok net) (ops : List (TripleOp UInt8))
    (hlimit : ∀ d ∈ net.deliveries P ops, d.outcome ≠ .error .limitExceeded) :
    (∀ d ∈ net.deliveries P ops, d.outcome = .ok d.msg.plaintext) ↔
      ∀ d ∈ net.deliveries P ops, ¬ d.receiver.Past d.msg.header.pqEpoch :=
  (Conversing.init hab hstart).deliveries_iff bytes_uint8 hkem hdh haead ops hlimit

namespace Plain

/-- The plain primitives, with keys and tags that are cheap to compute. -/
def quick : Primitives UInt8 :=
  { primitives with
    hkdfBlock := fun _ ikm _ i ↦ pad 32 (UInt8.ofNat i :: ikm)
    hmacSha256 := fun key msg ↦ pad 32 (msg.take 1 ++ key)
    aeadEncrypt := fun key _ pt _ ↦ some (pt ++ key.val.take 16)
    aeadDecrypt := fun key _ ct _ ↦
      let pt := ct.take (ct.length - 16)
      if ct = pt ++ key.val.take 16 then some pt else none }

/-- The primitives of the example have a correct incremental encapsulation. -/
theorem incrementalKem_quick : Epoch.IncrementalKem quick := incrementalKem

theorem dhCommutes_quick : DhCommutes quick := by
  intro a b
  show pad 32 (List.zipWith (· + ·) a.val b.val) = pad 32 (List.zipWith (· + ·) b.val a.val)
  rw [List.zipWith_comm_of_comm fun x y ↦ UInt8.add_comm x y]

theorem idealAead_quick : IdealAead quick where
  decrypt_encrypt := by
    rintro key nonce pt ad ct ⟨⟩
    have hlen : (key.val.take 16).length = 16 := by
      rw [List.length_take, Block.length_val]
      rfl
    have htake : (pt ++ key.val.take 16).take ((pt ++ key.val.take 16).length - 16) = pt :=
      List.take_left' (by rw [List.length_append, hlen, Nat.add_sub_cancel])
    show (if pt ++ key.val.take 16 = _ ++ key.val.take 16 then some _ else none) = some pt
    rw [htake, if_pos rfl]
  length_encrypt := by
    rintro key nonce pt ad ct ⟨⟩
    rw [List.length_append, List.length_take, Block.length_val]
    rfl

/-- A party sends `n` messages, with numbers from `i` on. -/
def sends (p : Party) (i n : ℕ) : List (TripleOp UInt8) :=
  (List.range' i n).map fun k ↦ .encrypt p (pad 64 [UInt8.ofNat k]) (pad 32 [UInt8.ofNat k]) [7] []

/-- `n` messages are delivered to a party. -/
def receives (p : Party) (i n : ℕ) : List (TripleOp UInt8) :=
  (List.range' i n).map fun k ↦ .deliver p (pad 32 [UInt8.ofNat k, 1])

/-- A party sends some messages, and all arrive. -/
def burst (p : Party) (i n : ℕ) : List (TripleOp UInt8) := sends p i n ++ receives p.peer i n

/-- A whole epoch of Braid in four bursts: the header, the first ciphertext, the encapsulation key, and
one message more than the second ciphertext takes. -/
def epoch : List (TripleOp UInt8) :=
  burst .alice 0 3 ++ burst .bob 3 30 ++ burst .alice 33 36 ++ burst .bob 69 6

/-- The results of a conversation. -/
def results (ops : List (TripleOp UInt8)) :
    Except PrimitiveError (List (List UInt8 × Except PrimitiveError (List UInt8))) :=
  (TripleNet.start quick (pad 32 [1]) (pad 32 [2]) (pad 32 [3])).map fun net ↦
    (net.deliveries quick ops).map TripleDelivery.result

/-- In the example the last message of an epoch is lost: 74 are read, the 75th is not. -/
theorem results_epoch : results epoch =
    .ok (List.replicate 74 ([7], .ok [7]) ++ [([7], .error .invalidLength)]) := by
  decide +kernel

theorem results_exchange : results (burst .alice 0 1 ++ burst .bob 1 1) =
    .ok (List.replicate 2 ([7], .ok [7])) := by
  decide +kernel

/-- What the example computes is a run from its start. -/
theorem results_eq_ok {ops : List (TripleOp UInt8)}
    {rs : List (List UInt8 × Except PrimitiveError (List UInt8))} (h : results ops = .ok rs) :
    ∃ net, TripleNet.start quick (pad 32 [1]) (pad 32 [2]) (pad 32 [3]) = .ok net ∧
      (net.deliveries quick ops).map TripleDelivery.result = rs := by
  unfold results at h
  cases hstart : TripleNet.start quick (pad 32 [1]) (pad 32 [2]) (pad 32 [3]) with
  | error e =>
    rw [hstart] at h
    cases h
  | ok net =>
    rw [hstart] at h
    cases h
    exact ⟨net, rfl, rfl⟩

end Plain

open Plain in
/-- The sixth message of the last burst is refused: Alice completed the epoch with the fifth, and Bob
has not heard from her. -/
theorem crossing_epoch_loses_message :
    Epoch.IncrementalKem quick ∧ DhCommutes quick ∧ IdealAead quick ∧
    quick.publicKey (pad 32 [2]) ≠ quick.publicKey (pad 32 [3]) ∧
    ∃ net, TripleNet.start quick (pad 32 [1]) (pad 32 [2]) (pad 32 [3]) = .ok net ∧
      (∀ d ∈ net.deliveries quick epoch, d.outcome ≠ .error .limitExceeded) ∧
      ¬ ∀ d ∈ net.deliveries quick epoch, d.outcome = .ok d.msg.plaintext := by
  obtain ⟨net, hstart, hresults⟩ := results_eq_ok results_epoch
  refine ⟨incrementalKem_quick, dhCommutes_quick, idealAead_quick, by decide, net, hstart, ?_, ?_⟩
  · intro d hd
    have hmem : d.result ∈ (net.deliveries quick epoch).map TripleDelivery.result :=
      List.mem_map_of_mem hd
    rw [hresults, List.mem_append, List.mem_replicate, List.mem_singleton] at hmem
    rcases hmem with ⟨-, hok⟩ | herr
    · rw [show d.outcome = .ok [7] from congrArg Prod.snd hok]
      decide
    · rw [show d.outcome = .error .invalidLength from congrArg Prod.snd herr]
      decide
  · intro hall
    have hmem : ([7], .error .invalidLength) ∈
        (net.deliveries quick epoch).map TripleDelivery.result := by
      rw [hresults]
      exact List.mem_append_right _ (List.mem_singleton_self _)
    obtain ⟨d, hd, herr⟩ := List.mem_map.1 hmem
    have hrefused : d.outcome = .error .invalidLength := congrArg Prod.snd herr
    rw [hall d hd] at hrefused
    cases hrefused

open Plain in
/-- A message each way: both arrive, and no receiver has moved past one. -/
theorem fifo_delivered_exchange :
    Epoch.IncrementalKem quick ∧ DhCommutes quick ∧ IdealAead quick ∧
    quick.publicKey (pad 32 [2]) ≠ quick.publicKey (pad 32 [3]) ∧
    ∃ net, TripleNet.start quick (pad 32 [1]) (pad 32 [2]) (pad 32 [3]) = .ok net ∧
      (net.deliveries quick (burst .alice 0 1 ++ burst .bob 1 1)).length = 2 ∧
      (∀ d ∈ net.deliveries quick (burst .alice 0 1 ++ burst .bob 1 1),
        d.outcome = .ok d.msg.plaintext) ∧
      ∀ d ∈ net.deliveries quick (burst .alice 0 1 ++ burst .bob 1 1),
        ¬ d.receiver.Past d.msg.header.pqEpoch := by
  obtain ⟨net, hstart, hresults⟩ := results_eq_ok results_exchange
  have hab : quick.publicKey (pad 32 [2]) ≠ quick.publicKey (pad 32 [3]) := by decide
  have hlength := congrArg List.length hresults
  rw [List.length_map, List.length_replicate] at hlength
  have hall : ∀ d ∈ net.deliveries quick (burst .alice 0 1 ++ burst .bob 1 1),
      d.msg.plaintext = [7] ∧ d.outcome = .ok [7] := by
    intro d hd
    have hmem := List.mem_map_of_mem (f := TripleDelivery.result) hd
    rw [hresults, List.mem_replicate] at hmem
    exact ⟨congrArg Prod.fst hmem.2, congrArg Prod.snd hmem.2⟩
  have hdelivered : ∀ d ∈ net.deliveries quick (burst .alice 0 1 ++ burst .bob 1 1),
      d.outcome = .ok d.msg.plaintext := by
    intro d hd
    rw [(hall d hd).1, (hall d hd).2]
  refine ⟨incrementalKem_quick, dhCommutes_quick, idealAead_quick, hab, net, hstart, hlength,
    hdelivered, ?_⟩
  refine (fifo_delivered_iff_not_past incrementalKem_quick dhCommutes_quick idealAead_quick hab hstart _
    fun d hd ↦ ?_).1 hdelivered
  rw [(hall d hd).2]
  decide

end VoiceChatCrypto
