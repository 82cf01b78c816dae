import Mathlib.Order.CompletePartialOrder
import VoiceChatCrypto.Data.Simulation
import VoiceChatCrypto.Engine.PrekeyUse

/-!
# Prekey consumption

`formal/tla/PrekeyConsumption.tla` says what a one-time prekey goes through: it is available, then it
is consumed by one session, and that is the end of it. The module is about a fixed set of ids and says
nothing about issuing prekeys, storing them or losing them in a crash. Here the engine is shown to
refine it, for the curve prekeys as for the PQ ones, and the gap between the two is closed by a ledger:
the ids that were issued are the ones that the store holds and the ones that packets have consumed, and
no id is both. So nothing is consumed twice, and nothing is lost either.

What is kept of a store must hold for the stored one as well, since a reload puts that one in place.
-/

open Alphabet

namespace VoiceChatCrypto

/-! ### The specification -/

/-- The variables of `PrekeyConsumption`, over arbitrary ids and sessions as in the module. -/
@[ext]
structure PrekeyConsumption (Id Sid : Type) where
  /-- The prekeys that may still be used. -/
  available : Set Id
  /-- How often each has been used. -/
  consumed : Id → ℕ
  /-- The session each was used for. -/
  sessionBound : Id → Option Sid

namespace PrekeyConsumption

variable {Id Sid : Type} {ids : Set Id} {s t : PrekeyConsumption Id Sid}

/-- `Init`, for the prekeys `ids`. -/
def init (ids : Set Id) : PrekeyConsumption Id Sid :=
  { available := ids, consumed := fun _ ↦ 0, sessionBound := fun _ ↦ none }

/-- Every prekey is untouched, or it was consumed once, for one session, and is not available any
more. -/
def Sound (s : PrekeyConsumption Id Sid) : Prop :=
  ∀ id, (s.consumed id = 0 ∧ s.sessionBound id = none) ∨
    (s.consumed id = 1 ∧ id ∉ s.available ∧ s.sessionBound id ≠ none)

theorem Sound.atMostOnce (h : s.Sound) (id : Id) : s.consumed id ≤ 1 := by
  rcases h id with ⟨hzero, -⟩ | ⟨hone, -⟩ <;> omega

theorem Sound.consumedNotAvailable (h : s.Sound) {id : Id} (hpos : 0 < s.consumed id) :
    id ∉ s.available := by
  rcases h id with ⟨hzero, -⟩ | ⟨-, hnot, -⟩
  · omega
  · exact hnot

theorem Sound.availableUnconsumed (h : s.Sound) {id : Id} (hid : id ∈ s.available) :
    s.consumed id = 0 := by
  rcases h id with ⟨hzero, -⟩ | ⟨-, hnot, -⟩
  · exact hzero
  · exact absurd hid hnot

variable [DecidableEq Id]

/-- `Next`. -/
inductive Next : PrekeyConsumption Id Sid → PrekeyConsumption Id Sid → Prop
  /-- `Consume`: the prekey must be available. -/
  | consume (s : PrekeyConsumption Id Sid) (id : Id) (sid : Sid) (havailable : id ∈ s.available)
      (hconsumed : s.consumed id = 0) :
      Next s
        { available := s.available \ {id}
          consumed := Function.update s.consumed id 1
          sessionBound := Function.update s.sessionBound id (some sid) }
  /-- `DoubleConsumeAttempt`: another attempt is rejected. -/
  | doubleConsumeAttempt (s : PrekeyConsumption Id Sid) (id : Id) (h : id ∉ s.available) : Next s s

variable (Sid) in
/-- `Spec`, for the prekeys `ids`. -/
def spec (ids : Set Id) : System (PrekeyConsumption Id Sid) where
  start s := s = init ids
  step := Next

/-- One step keeps the invariant. -/
theorem Sound.next (h : s.Sound) (hstep : Next s t) : t.Sound := by
  cases hstep with
  | consume id sid havailable hconsumed =>
    intro id'
    by_cases hid : id' = id
    · subst hid
      simp
    · simp only [Function.update_of_ne hid]
      exact (h id').imp_right fun ⟨hone, hnot, hbound⟩ ↦ ⟨hone, fun hmem ↦ hnot hmem.1, hbound⟩
  | doubleConsumeAttempt id hid => exact h

/-- **The invariant holds of the specification**, in every state that consumptions of available ids
lead to. -/
theorem sound (h : (spec Sid ids).Reachable s) : s.Sound := by
  refine h.invariant (I := Sound) ?_ fun _ _ _ hs hstep ↦ hs.next hstep
  rintro _ rfl id
  exact .inl ⟨rfl, rfl⟩

/-- The state after a list of consumptions. -/
def after (ids : Set Id) (l : List (Id × Sid)) : PrekeyConsumption Id Sid :=
  { available := ids \ {id | id ∈ l.map Prod.fst}
    consumed := fun id ↦ (l.map Prod.fst).count id
    sessionBound := fun id ↦ l.lookup id }

/-- Before any consumption the specification is in its initial state. -/
theorem after_nil : after ids ([] : List (Id × Sid)) = init ids := by
  ext id <;> simp [after, init]

/-- A further consumption is a step, if the prekey is still available. -/
theorem next_after_concat {l : List (Id × Sid)} {id : Id} {sid : Sid} (hid : id ∈ ids)
    (hnew : id ∉ l.map Prod.fst) : Next (after ids l) (after ids (l ++ [(id, sid)])) := by
  have hstep : Next (after ids l) _ :=
    .consume (after ids l) id sid ⟨hid, hnew⟩ (List.count_eq_zero.2 hnew)
  have hnone : l.lookup id = none := by
    rw [List.lookup_eq_none_iff]
    rintro ⟨id', sid'⟩ hmem
    rw [bne_iff_ne]
    rintro rfl
    exact hnew (List.mem_map_of_mem (f := Prod.fst) hmem)
  convert hstep using 1
  refine PrekeyConsumption.ext (Set.ext fun id' ↦ ?_) (funext fun id' ↦ ?_) (funext fun id' ↦ ?_)
  · simp only [after, List.map_append, List.map_singleton, List.mem_append, List.mem_singleton,
      Set.mem_sdiff, Set.mem_ofPred_eq, Set.mem_singleton_iff, not_or, and_assoc]
  · by_cases heq : id' = id
    · subst heq
      simp [after, List.count_append, List.count_eq_zero.2 hnew]
    · simp [after, List.count_append, Function.update_of_ne heq, Ne.symm heq]
  · show (l ++ [(id, sid)]).lookup id' = Function.update (fun id ↦ l.lookup id) id (some sid) id'
    rw [List.lookup_append]
    by_cases heq : id' = id
    · subst heq
      rw [hnone, Function.update_self, List.lookup_cons_self, Option.none_or]
    · have hlast : [(id, sid)].lookup id' = none := by
        rw [List.lookup_cons, beq_eq_false_iff_ne.2 heq]
        rfl
      rw [hlast, Option.or_none, Function.update_of_ne heq]

end PrekeyConsumption

variable {B : Type} [Alphabet B] {P : Primitives B}

/-! ### The ledger of a store -/

/-- The two kinds of one-time prekeys. -/
inductive PrekeyKind
  | ec
  | pq

namespace PrekeyStore

/-- The next id of a kind. -/
def nextId (s : PrekeyStore B) : PrekeyKind → UInt32
  | .ec => s.nextEc
  | .pq => s.nextPq

/-- The one-time prekeys that a store holds. -/
def held (s : PrekeyStore B) : PrekeyKind → Set UInt32
  | .ec => {id | s.oneTimeEc.lookup id ≠ none}
  | .pq => {id | s.oneTimePq.lookup id ≠ none}

/-- The ids that have been issued. Id 1 is not among them: it names the long-lived prekeys. -/
def issued (s : PrekeyStore B) (kind : PrekeyKind) : Set UInt32 :=
  {id | 2 ≤ id.toNat ∧ id.toNat < (s.nextId kind).toNat}

/-- **The ledger**: the ids issued are those held and those used up, and none is both. -/
structure Ledger (s : PrekeyStore B) (kind : PrekeyKind) (used : Set UInt32) : Prop where
  /-- Every id that was issued is held or used up. -/
  complete : s.issued kind = s.held kind ∪ used
  /-- No id is both. -/
  disjoint : Disjoint (s.held kind) used

variable {s t : PrekeyStore B} {kind : PrekeyKind} {used : Set UInt32}

omit [Alphabet B] in
/-- The ledger depends on counters and held ids only. -/
theorem Ledger.of_eq (h : s.Ledger kind used) (hnext : t.nextId kind = s.nextId kind)
    (hheld : t.held kind = s.held kind) : t.Ledger kind used where
  complete := by rw [issued, hnext, hheld, ← h.complete, issued]
  disjoint := hheld ▸ h.disjoint

omit [Alphabet B] in
/-- Issuing the next prekey. -/
theorem Ledger.issue (h : s.Ledger kind used) (htwo : 2 ≤ (s.nextId kind).toNat)
    (hnext : (t.nextId kind).toNat = (s.nextId kind).toNat + 1)
    (hheld : t.held kind = insert (s.nextId kind) (s.held kind)) : t.Ledger kind used where
  complete := by
    rw [hheld, Set.insert_union, ← h.complete]
    ext id
    have hid : id = s.nextId kind ↔ id.toNat = (s.nextId kind).toNat := UInt32.toNat_inj.symm
    simp only [issued, Set.mem_insert_iff, Set.mem_ofPred_eq, hid]
    omega
  disjoint := by
    rw [hheld, Set.disjoint_insert_left]
    refine ⟨fun hmem ↦ ?_, h.disjoint⟩
    have hissued : s.nextId kind ∈ s.issued kind := h.complete ▸ Set.mem_union_right _ hmem
    exact lt_irrefl _ hissued.2

omit [Alphabet B] in
/-- Using up a prekey that is held, or none. -/
theorem Ledger.consume (h : s.Ledger kind used) (named : Option UInt32)
    (hmem : ∀ id, named = some id → id ∈ s.held kind) (hnext : t.nextId kind = s.nextId kind)
    (hheld : t.held kind = s.held kind \ {id | named = some id}) :
    t.Ledger kind (used ∪ {id | named = some id}) where
  complete := by
    rw [issued, hnext, hheld]
    show s.issued kind = _
    rw [h.complete]
    ext id
    have := hmem id
    simp only [Set.mem_union, Set.mem_sdiff, Set.mem_ofPred_eq]
    tauto
  disjoint := by
    rw [hheld, Set.disjoint_union_right]
    exact ⟨h.disjoint.mono_left Set.sdiff_subset, Set.disjoint_sdiff_left⟩

/-- A property of valid stores that issuing a prekey keeps. -/
structure Issuing (Q : PrekeyStore B → Prop) : Prop where
  /-- It is a property of valid stores. -/
  valid : ∀ s, Q s → s.Valid
  /-- A one-time EC prekey under the next id keeps it. -/
  ec : ∀ (s : PrekeyStore B) (next : UInt32) (secret : Block B 32), Q s →
    next.toNat = s.nextEc.toNat + 1 → Q { s with
      nextEc := next, oneTimeEc := s.oneTimeEc.insert s.nextEc { id := s.nextEc, secret } }
  /-- So does a one-time KEM key under the next id. -/
  pq : ∀ (s : PrekeyStore B) (next : UInt32) (key : PqPrekey B), Q s → key.id = s.nextPq →
    next.toNat = s.nextPq.toNat + 1 →
      Q { s with nextPq := next, oneTimePq := s.oneTimePq.insert s.nextPq key }

variable {Q : PrekeyStore B → Prop}

omit [Alphabet B] in
/-- The loop over one-time EC prekeys keeps what issuing one does. -/
theorem Issuing.replenishEc (hQ : Issuing Q) (draw : ℕ → Block B 32) (count fuel k : ℕ)
    (hs : Q s) : Q (PrekeyStore.replenishEc draw count fuel k s).2 := by
  induction fuel generalizing k s with
  | zero => exact hs
  | succ fuel ih =>
    rw [PrekeyStore.replenishEc]
    split
    · cases hinc : checkedInc s.nextEc with
      | error err => exact hs
      | ok next =>
        have hnext := checkedInc_eq_ok hinc
        have htwo := (hQ.valid s hs).two_le_nextEc
        have hge : ¬ next < 2 := by
          rw [UInt32.lt_iff_toNat_lt]
          show ¬ next.toNat < 2
          omega
        dsimp only
        rw [if_neg hge]
        exact ih (k + 1) (hQ.ec s next (draw k) hs hnext)
    · exact hs

theorem Issuing.replenishPq (hQ : Issuing Q) (identity : IdentityKeyPair B)
    (seed nonce : ℕ → Block B 64) (count fuel k : ℕ) (hs : Q s) :
    Q (PrekeyStore.replenishPq P identity seed nonce count fuel k s).2 := by
  induction fuel generalizing k s with
  | zero => exact hs
  | succ fuel ih =>
    rw [PrekeyStore.replenishPq]
    split
    · cases hinc : checkedInc s.nextPq with
      | error err => exact hs
      | ok next =>
        have hnext := checkedInc_eq_ok hinc
        have htwo := (hQ.valid s hs).two_le_nextPq
        have hge : ¬ next < 2 := by
          rw [UInt32.lt_iff_toNat_lt]
          show ¬ next.toNat < 2
          omega
        dsimp only
        rw [if_neg hge]
        exact ih (k + 1) (hQ.pq s next _ hs rfl hnext)
    · exact hs

/-- **Replenishing issues prekeys and does nothing else**, whether it finishes or not. -/
theorem Issuing.replenish (hQ : Issuing Q) (identity : IdentityKeyPair B) (draws : PrekeyDraws B)
    (ecCount pqCount : ℕ) (hs : Q s) :
    Q (PrekeyStore.replenish P identity draws ecCount pqCount s).2 := by
  have hec := hQ.replenishEc draws.ec ecCount (2 ^ 32 - s.nextEc.toNat) 0 hs
  unfold PrekeyStore.replenish
  split
  · rename_i heq
    rwa [heq] at hec
  · rename_i heq
    rw [heq] at hec
    exact hQ.replenishPq identity draws.pq draws.nonce pqCount _ 0 hec

omit [Alphabet B] in
theorem keys_insert {V : Type} (d : Dict UInt32 V) (id : UInt32) (v : V) :
    {id' | (d.insert id v).lookup id' ≠ none} = insert id {id' | d.lookup id' ≠ none} := by
  ext id'
  by_cases hid : id' = id
  · simp [hid]
  · simp [hid, Finmap.lookup_insert_of_ne]

omit [Alphabet B] in
theorem keys_erase {V : Type} (d : Dict UInt32 V) (id : UInt32) :
    {id' | (d.erase id).lookup id' ≠ none} = {id' | d.lookup id' ≠ none} \ {id} := by
  ext id'
  by_cases hid : id' = id
  · simp [hid]
  · simp [hid, Finmap.lookup_erase_ne]

omit [Alphabet B] in
/-- The ledger of a valid store is kept. -/
theorem issuing_ledger (kind : PrekeyKind) (used : Set UInt32) :
    Issuing fun s : PrekeyStore B ↦ s.Valid ∧ s.Ledger kind used where
  valid _ hs := hs.1
  ec s next secret hs hnext := by
    refine ⟨(issueEc hs.1 hnext secret).1, ?_⟩
    cases kind with
    | ec => exact hs.2.issue hs.1.two_le_nextEc hnext (keys_insert _ _ _)
    | pq => exact hs.2.of_eq rfl rfl
  pq s next key hs hkey hnext := by
    refine ⟨(issuePq hs.1 hnext key hkey).1, ?_⟩
    cases kind with
    | ec => exact hs.2.of_eq rfl rfl
    | pq => exact hs.2.issue hs.1.two_le_nextPq hnext (keys_insert _ _ _)

end PrekeyStore

/-! ### What a packet uses up -/

/-- The one-time prekey that a packet names. -/
def InitiationPacket.oneTime (m : InitiationPacket B) : PrekeyKind → Option UInt32
  | .ec => m.usedEcOpkId
  | .pq => if m.pqPrekeyId = 1 then none else some m.pqPrekeyId

omit [Alphabet B] in
/-- Using up what a packet names takes it out of the store. -/
theorem held_consumedBy {s : PrekeyStore B} (hs : s.Valid) (m : InitiationPacket B)
    (kind : PrekeyKind) :
    (Engine.consumedBy m s).held kind = s.held kind \ {id | m.oneTime kind = some id} := by
  cases kind with
  | ec =>
    show {id | (Engine.consumedBy m s).oneTimeEc.lookup id ≠ none} = _
    unfold Engine.consumedBy
    rcases hid : m.usedEcOpkId with - | id
    · simp [PrekeyStore.held, InitiationPacket.oneTime, hid]
    · simp [PrekeyStore.keys_erase, PrekeyStore.held, InitiationPacket.oneTime, hid]
  | pq =>
    show {id | (if m.pqPrekeyId = s.lastResortPq.id then s.oneTimePq
      else s.oneTimePq.erase m.pqPrekeyId).lookup id ≠ none} = _
    rw [hs.lastResort_id]
    split
    · rename_i hone
      simp [PrekeyStore.held, InitiationPacket.oneTime, hone]
    · rename_i hone
      simp [PrekeyStore.keys_erase, PrekeyStore.held, InitiationPacket.oneTime, hone]

/-- A packet that gets an answer names prekeys that the store holds. -/
theorem Engine.Answers.held {e : Engine B} {m : InitiationPacket B} {shared : PqxdhSharedSecret B}
    {r : LiveRatchet B} (h : Engine.Answers P m e shared r) (hs : e.prekeys.Valid)
    {kind : PrekeyKind} {id : UInt32} (hid : m.oneTime kind = some id) : id ∈ e.prekeys.held kind := by
  cases kind with
  | ec =>
    obtain ⟨k, hk⟩ := h.ec id hid
    show e.prekeys.oneTimeEc.lookup id ≠ none
    simp [hk]
  | pq =>
    rw [InitiationPacket.oneTime] at hid
    split at hid
    · cases hid
    · rename_i hone
      obtain rfl := Option.some.inj hid
      obtain ⟨k, hk⟩ := h.pq (by rwa [hs.lastResort_id])
      show e.prekeys.oneTimePq.lookup m.pqPrekeyId ≠ none
      simp [hk]

/-- The prekey that a call has used up, and the session that has used it. -/
def Event.consumption (kind : PrekeyKind) (ev : Event B) : Option (UInt32 × SessionId B) :=
  match ev.call, ev.outcome with
  | .processInbound m _ _, .ok (.processed sid _) => (m.oneTime kind).map fun id ↦ (id, sid)
  | _, _ => none

/-- The prekeys that a run has used up. -/
def Run.consumptions (kind : PrekeyKind) (r : Run B) : List (UInt32 × SessionId B) :=
  r.log.filterMap (Event.consumption kind)

/-- The ids of those prekeys. -/
def Run.used (kind : PrekeyKind) (r : Run B) : Set UInt32 :=
  {id | id ∈ (r.consumptions kind).map Prod.fst}

/-- The ids that one-time prekeys can have. -/
def prekeyIds : Set UInt32 := {id | 2 ≤ id.toNat}

/-- **The abstraction of a run.** -/
def Run.prekeyConsumption (kind : PrekeyKind) (r : Run B) : PrekeyConsumption UInt32 (SessionId B) :=
  .after prekeyIds (r.consumptions kind)

/-! ### Memory and storage -/

namespace Engine

variable {e e' : Engine B} {d : Draws B} {c : Call B} {out : Except CryptoError (Output B)}
  {Q : PrekeyStore B → Prop}

/-- The store in memory and the stored one satisfy `Q`. -/
structure Keeps (Q : PrekeyStore B → Prop) (e : Engine B) : Prop where
  /-- The store in memory satisfies it. -/
  memory : Q e.prekeys
  /-- So does the store that the blob was written from. -/
  stored : ∀ blob, e.storage.committed.lookup keyPrekeys = some blob →
    ∃ s σ, Q s ∧ blob = s.serialize σ

/-- An engine with the same prekeys in memory and in storage satisfies the same. -/
theorem Keeps.of_eq (h : e.Keeps Q) (hprekeys : e'.prekeys = e.prekeys)
    (hstored : e'.storage.committed.lookup keyPrekeys = e.storage.committed.lookup keyPrekeys) :
    e'.Keeps Q where
  memory := hprekeys ▸ h.memory
  stored := hstored ▸ h.stored

/-- The store has just been written. -/
theorem Keeps.written {σ : Enumeration} (hmemory : Q e.prekeys)
    (hstored : e.storage.committed.lookup keyPrekeys = some (e.prekeys.serialize σ)) :
    e.Keeps Q where
  memory := hmemory
  stored _ hblob := ⟨e.prekeys, σ, hmemory, Option.some.inj (hblob.symm.trans hstored)⟩

/-- A reload puts a store with `Q` in place. -/
theorem Keeps.reloaded (h : e.Keeps Q) (hvalid : ∀ s, Q s → s.Valid) {prekeys : PrekeyStore B}
    (hp : prekeys = e.prekeys ∨ e.Reloaded keyPrekeys PrekeyStore.deserialize e.prekeys prekeys) :
    Q prekeys := by
  rcases hp with rfl | ⟨-, rfl⟩ | ⟨blob, hblob, hdec⟩
  · exact h.memory
  · exact h.memory
  · obtain ⟨s, σ, hs, rfl⟩ := h.stored blob hblob
    rw [PrekeyStore.deserialize_serialize (hvalid s hs) σ] at hdec
    cases hdec
    exact hs

/-- **What issuing keeps, every call keeps** that accepts no packet. -/
theorem Effect.keeps (hQ : PrekeyStore.Issuing Q) (h : Effect P d e c out e') (hk : e.Keeps Q)
    (hnone : ∀ m, ¬ Accepts c out m) : e'.Keeps Q := by
  cases h with
  | refused c err => exact hk
  | replenishStopped n err prekeys h =>
    have hreplenish := hQ.replenish (P := P) e.identity d.prekeys n n hk.memory
    rw [h] at hreplenish
    exact ⟨hreplenish, hk.stored⟩
  | replenished n prekeys h =>
    have hreplenish := hQ.replenish (P := P) e.identity d.prekeys n n hk.memory
    rw [h] at hreplenish
    exact .written hreplenish (deviceBlobs_commitDevice ({ e with prekeys } : Engine B) d.order).2.1
  | establishStopped bundle conv pt ad i r err hi henc => exact hk.of_eq rfl rfl
  | established bundle conv pt ad i r r' header ct hi henc =>
    exact hk.of_eq rfl (deviceBlobs_commitSession _ _ _ _).2.1
  | processClosed m conv ad shared r err hans => exact hk.of_eq rfl rfl
  | processed m conv ad pt shared r r' hans hreplay hdec =>
    exact absurd ⟨conv, ad, _, pt, rfl, rfl⟩ (hnone m)
  | sealed c sid pt ad s r header ct hc hs henc =>
    exact hk.of_eq rfl (deviceBlobs_commitSession _ _ _ _).2.1
  | opened sid m ad pt s r hs hreplay hdec =>
    exact hk.of_eq rfl (deviceBlobs_commitSession _ _ _ _).2.1
  | acknowledged remote dev =>
    exact .written hk.memory (deviceBlobs_commitDevice (e.acknowledged ⟨remote, dev⟩) d.order).2.1
  | forgot sid =>
    exact hk.of_eq rfl (Finmap.lookup_erase_ne (deviceKey_ne_sid sid (by simp)))
  | cleared =>
    exact ⟨hk.memory, fun _ hblob ↦ by cases (Finmap.lookup_empty _).symm.trans hblob⟩
  | reloadStopped err identity prekeys hi hp => exact ⟨hk.reloaded hQ.valid hp, hk.stored⟩
  | reloaded identity prekeys sessions hi hp hs =>
    exact ⟨hk.reloaded hQ.valid (.inr hp), hk.stored⟩

/-- **An accepted packet** uses up what it names, in memory and in storage. -/
theorem Effect.accepted {m : InitiationPacket B} (h : Effect P d e c out e') (hm : Accepts c out m) :
    (∃ shared r, Answers P m e shared r) ∧ e'.prekeys = consumedBy m e.prekeys ∧
      ∃ σ, e'.storage.committed.lookup keyPrekeys = some (e'.prekeys.serialize σ) := by
  obtain ⟨conv, ad, sid, pt, rfl, rfl⟩ := hm
  cases h with
  | processed m conv ad pt shared r r' hans hreplay hdec =>
    exact ⟨⟨shared, r, hans⟩, rfl, _, (deviceBlobs_commitHandshake _ _ _ _).2.1⟩

end Engine

/-! ### Runs -/

variable {allow : Run B → Call B → Draws B → Prop} {r : Run B} {kind : PrekeyKind}

/-- The ledger of a run balances, in memory and in storage: the ids issued are those still held and
those that accepted packets have used up. -/
def Run.Balanced (kind : PrekeyKind) (r : Run B) : Prop :=
  r.engine.Keeps fun s ↦ s.Valid ∧ s.Ledger kind (r.used kind)

theorem Run.consumptions_extend (P : Primitives B) (kind : PrekeyKind) (r : Run B) (d : Draws B)
    (c : Call B) : (r.extend P d c).consumptions kind = r.consumptions kind ++
      (Event.consumption kind ⟨r.engine, c, d, (r.engine.call P d c).1⟩).toList := by
  show (r.log ++ [_]).filterMap (Event.consumption kind) = _
  rw [List.filterMap_append]
  rfl

/-- A call that accepts no packet uses nothing up. -/
theorem Event.consumption_eq_none {ev : Event B}
    (h : ∀ m, ¬ Engine.Accepts ev.call ev.outcome m) : ev.consumption kind = none := by
  unfold consumption
  split
  · rename_i m conv ad sid pt hcall hout
    exact absurd ⟨conv, ad, sid, pt, hcall, hout⟩ (h m)
  · rfl

/-- A call that accepts a packet uses up what the packet names. -/
theorem Event.consumption_of_accepts (kind : PrekeyKind) {ev : Event B} {m : InitiationPacket B}
    (h : Engine.Accepts ev.call ev.outcome m) :
    ∃ sid, ev.consumption kind = (m.oneTime kind).map fun id ↦ (id, sid) := by
  obtain ⟨conv, ad, sid, pt, hcall, hout⟩ := h
  exact ⟨sid, by simp only [consumption, hcall, hout]⟩

/-- **One call is one step of the specification at most**, and the ledger balances after it. -/
theorem Run.Balanced.extend (h : r.Balanced kind) (hidle : r.engine.storage.staged = none)
    (d : Draws B) (c : Call B) :
    (r.extend P d c).Balanced kind ∧
      ((r.extend P d c).prekeyConsumption kind = r.prekeyConsumption kind ∨
        (r.prekeyConsumption kind).Next ((r.extend P d c).prekeyConsumption kind)) := by
  have heffect := Engine.call_effect (P := P) hidle d c
  have hlog := r.consumptions_extend P kind d c
  by_cases hacc : ∃ m, Engine.Accepts c (r.engine.call P d c).1 m
  · obtain ⟨m, hm⟩ := hacc
    obtain ⟨⟨shared, ratchet, hans⟩, hprekeys, σ, hstored⟩ := heffect.accepted hm
    obtain ⟨sid, hsid⟩ : ∃ sid, Event.consumption kind ⟨r.engine, c, d, (r.engine.call P d c).1⟩ =
        (m.oneTime kind).map fun id ↦ (id, sid) := Event.consumption_of_accepts kind hm
    obtain ⟨hvalid, hledger⟩ := h.memory
    have hheld : ∀ id, m.oneTime kind = some id → id ∈ r.engine.prekeys.held kind :=
      fun id ↦ hans.held hvalid
    have hnext : (Engine.consumedBy m r.engine.prekeys).nextId kind =
        r.engine.prekeys.nextId kind := by
      cases kind <;> rfl
    have hused : (r.extend P d c).used kind = r.used kind ∪ {id | m.oneTime kind = some id} := by
      ext id
      simp only [used, hlog, hsid, List.map_append, List.mem_append, Set.mem_union, Set.mem_ofPred_eq]
      cases m.oneTime kind <;> simp [eq_comm]
    have hkept := hledger.consume (m.oneTime kind) hheld hnext (held_consumedBy hvalid m kind)
    refine ⟨.written ?_ hstored, ?_⟩
    · rw [hused]
      show (r.engine.call P d c).2.prekeys.Valid ∧ (r.engine.call P d c).2.prekeys.Ledger kind _
      rw [hprekeys]
      exact ⟨(consumedBy_extends hvalid m).1, hkept⟩
    · rw [prekeyConsumption, hlog, hsid]
      rcases hid : m.oneTime kind with - | id
      · exact .inl (by rw [Option.map_none, Option.toList_none, List.append_nil]; rfl)
      · refine .inr (PrekeyConsumption.next_after_concat ?_ ?_)
        · have hissued : id ∈ r.engine.prekeys.issued kind :=
            hledger.complete ▸ Set.mem_union_left _ (hheld id hid)
          exact hissued.1
        · exact Set.disjoint_left.1 hledger.disjoint (hheld id hid)
  · have hnone := not_exists.1 hacc
    have hev : Event.consumption kind ⟨r.engine, c, d, (r.engine.call P d c).1⟩ = none :=
      Event.consumption_eq_none hnone
    rw [hev, Option.toList_none, List.append_nil] at hlog
    have hused : (r.extend P d c).used kind = r.used kind := by
      rw [used, used, hlog]
    refine ⟨?_, .inl (by rw [prekeyConsumption, hlog]; rfl)⟩
    rw [Balanced, hused]
    exact heffect.keeps (PrekeyStore.issuing_ledger kind _) h hnone

/-- The ledger balances in every run. -/
theorem balanced (hr : (device P allow).Reachable r) (kind : PrekeyKind) : r.Balanced kind := by
  refine hr.invariant (I := Run.Balanced kind) ?_ ?_
  · intro s hs
    obtain ⟨config, d, rfl⟩ := eq_newDevice_of_start hs
    have hblobs := Engine.deviceBlobs_commitDevice (Engine.blank P config d) d.order
    have hempty : ∀ key : UInt32, key ∉ (Engine.newDevice P config d).prekeys.held kind := by
      intro key hkey
      cases kind <;> exact hkey (Finmap.lookup_empty key)
    refine .written ⟨PrekeyStore.new_valid P _ _ _ _ _, ?_, ?_⟩ hblobs.2.1
    · ext id
      have hnext : ((Engine.newDevice P config d).prekeys.nextId kind).toNat = 2 := by
        cases kind <;> rfl
      have hused : id ∉ Run.used kind (⟨Engine.newDevice P config d, []⟩ : Run B) := List.not_mem_nil
      refine ⟨fun hid ↦ ?_, fun hid ↦ (hid.elim (hempty id) hused).elim⟩
      have hlt : id.toNat < 2 := hnext ▸ hid.2
      exact absurd hid.1 (Nat.not_le.2 hlt)
    · exact Set.disjoint_left.2 fun id hid ↦ absurd hid (hempty id)
  · rintro s t hreach hs ⟨c, d, -, rfl⟩
    exact (hs.extend (device_idle hreach) d c).1

/-- A packet that names a prekey which is not there is refused. -/
theorem Engine.process_unheld {e : Engine B} (hidle : e.storage.staged = none)
    (hvalid : e.prekeys.Valid) {m : InitiationPacket B} {id : UInt32} (hid : m.oneTime kind = some id)
    (hheld : id ∉ e.prekeys.held kind) (conv ad : List B) (d : Draws B) :
    ∃ err, e.processInboundSession P m conv ad d = (.error err, e) := by
  rcases Engine.process_cases (P := P) hidle m conv ad d with hrefused | ⟨shared, r, hans, -⟩
  · exact hrefused
  · exact absurd (hans.held hvalid hid) hheld

/-- The specification simulates the engine. -/
theorem simulates_prekeyConsumption (P : Primitives B) (allow : Run B → Call B → Draws B → Prop)
    (kind : PrekeyKind) : System.Simulation (device P allow)
      (PrekeyConsumption.spec (SessionId B) prekeyIds) fun r s ↦ s = r.prekeyConsumption kind where
  start r hr := by
    obtain ⟨config, d, rfl⟩ := eq_newDevice_of_start hr
    exact ⟨_, .of_start PrekeyConsumption.after_nil, rfl⟩
  step r r' t hr ht heq hstep := by
    obtain ⟨c, d, -, rfl⟩ := hstep
    subst heq
    rcases ((balanced hr kind).extend (device_idle hr) d c).2 with hsame | hnext
    · exact ⟨_, .refl, hsame.symm⟩
    · exact ⟨_, .single hnext, rfl⟩

/-- **The engine refines the specification.** At every point of every run, and for both kinds of
one-time prekeys: what the run has consumed is a sound state of `PrekeyConsumption`, which each call
leaves as it is or moves by one step; the store holds exactly the prekeys that have been issued and are
still available; and an attempt to consume one that is not available is rejected without effect. -/
theorem refines_prekeyConsumption (hr : (device P allow).Reachable r) (kind : PrekeyKind) :
    (PrekeyConsumption.spec (SessionId B) prekeyIds).Reachable (r.prekeyConsumption kind) ∧
    (r.prekeyConsumption kind).Sound ∧
    (∀ d c, (r.extend P d c).prekeyConsumption kind = r.prekeyConsumption kind ∨
      (r.prekeyConsumption kind).Next ((r.extend P d c).prekeyConsumption kind)) ∧
    r.engine.prekeys.held kind = r.engine.prekeys.issued kind ∩ (r.prekeyConsumption kind).available ∧
    (∀ id, 0 < (r.prekeyConsumption kind).consumed id → id ∈ r.engine.prekeys.issued kind) ∧
    ∀ m id, m.oneTime kind = some id → id ∉ (r.prekeyConsumption kind).available →
      ∀ conv ad d, ∃ err, r.engine.call P d (.processInbound m conv ad) = (.error err, r.engine) := by
  have hbalanced := balanced hr kind
  obtain ⟨hvalid, hledger⟩ := hbalanced.memory
  obtain ⟨s, hs, rfl⟩ := (simulates_prekeyConsumption P allow kind).exists_reachable hr
  have hheld : r.engine.prekeys.held kind =
      r.engine.prekeys.issued kind ∩ (r.prekeyConsumption kind).available := by
    have hids : r.engine.prekeys.issued kind ⊆ prekeyIds := fun id hid ↦ hid.1
    show _ = r.engine.prekeys.issued kind ∩ (prekeyIds \ r.used kind)
    rw [← Set.inter_sdiff_assoc, Set.inter_eq_left.2 hids, hledger.complete, Set.union_sdiff_right]
    exact (sdiff_eq_left.2 hledger.disjoint).symm
  refine ⟨hs, PrekeyConsumption.sound hs, fun d c ↦ (hbalanced.extend (device_idle hr) d c).2, hheld,
    fun id hpos ↦ ?_, fun m id hid havailable conv ad d ↦ ?_⟩
  · have hused : id ∈ r.used kind := List.count_pos_iff.1 hpos
    exact hledger.complete ▸ Set.mem_union_right _ hused
  · have hnot : id ∉ r.engine.prekeys.held kind := fun hmem ↦ havailable (hheld ▸ hmem).2
    obtain ⟨err, heq⟩ := Engine.process_unheld (P := P) (device_idle hr) hvalid hid hnot conv ad d
    exact ⟨err, by simp only [Engine.call, Engine.report, heq, Except.map]⟩

/-- A run of device 2 that has accepted a packet. -/
noncomputable def Symbolic.accepted (r : Run Sym) (m : InitiationPacket Sym) : Run Sym :=
  r.extend symbolic (Symbolic.draws 3) (.processInbound m [] [])

open Symbolic in
/-- Device 2 issues a prekey of each kind and accepts a packet that names both, which is a step of the
specification; any further packet that names one of them is rejected. -/
theorem refines_prekeyConsumption_accepted :
    (issued .classicalV1).consumptions .ec = [] ∧
    (accepted (issued .classicalV1) (oneTimePacket .classicalV1)).consumptions .ec =
      [(2, secretOf 15 136)] ∧
    (accepted (issued .classicalV1) (oneTimePacket .classicalV1)).consumptions .pq =
      [(2, secretOf 15 136)] ∧
    ∀ kind, (PrekeyConsumption.spec (SessionId Sym) prekeyIds).Reachable
        ((accepted (issued .classicalV1) (oneTimePacket .classicalV1)).prekeyConsumption kind) ∧
      ∀ m, m.oneTime kind = some 2 → ∀ conv ad d, ∃ err,
        (accepted (issued .classicalV1) (oneTimePacket .classicalV1)).engine.call symbolic d
          (.processInbound m conv ad) =
            (.error err, (accepted (issued .classicalV1) (oneTimePacket .classicalV1)).engine) := by
  have hec : (accepted (issued .classicalV1) (oneTimePacket .classicalV1)).consumptions .ec =
      [(2, secretOf 15 136)] := by decide +kernel
  have hpq : (accepted (issued .classicalV1) (oneTimePacket .classicalV1)).consumptions .pq =
      [(2, secretOf 15 136)] := by decide +kernel
  refine ⟨by decide +kernel, hec, hpq, fun kind ↦ ?_⟩
  obtain ⟨hreach, -, -, -, -, hrejected⟩ := refines_prekeyConsumption (P := symbolic)
    (r := accepted (issued .classicalV1) (oneTimePacket .classicalV1))
    (reachable_extend (reachable_issued .classicalV1) trivial) kind
  refine ⟨hreach, fun m hm ↦ hrejected m 2 hm fun havailable ↦ havailable.2 ?_⟩
  cases kind
  · exact hec ▸ List.mem_singleton_self _
  · exact hpq ▸ List.mem_singleton_self _

end VoiceChatCrypto
