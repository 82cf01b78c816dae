import VoiceChatCrypto.Primitives.Basic
import Mathlib.Data.Finset.Dedup

/-!
# The replay cache

`ReplayCache` of `src/replay/mod.rs`: a bounded first-in-first-out set of message keys. The set and
the queue are kept side by side, and agree in every cache that `check_and_insert` builds (`Valid`).
Only the queue is written to storage.
-/

open Alphabet

namespace VoiceChatCrypto

variable {B : Type} [Alphabet B]

/-- `ReplayKey`. -/
structure ReplayKey (B : Type) where
  /-- The conversation, or the session where there is none. -/
  conversationId : List B
  /-- The device; the engine puts its own name here. -/
  senderDeviceId : List B
  /-- What tells the messages of a session apart. -/
  messageId : List B
  deriving DecidableEq

/-- `ReplayCache`. -/
structure ReplayCache (B : Type) [Alphabet B] where
  /-- How many keys are retained. -/
  capacity : ℕ
  /-- Keys in the order of their insertion. -/
  order : List (ReplayKey B)
  /-- The same keys, for the look-up. -/
  present : Finset (ReplayKey B)

namespace ReplayCache

/-- `new`. -/
def new (capacity : ℕ) : ReplayCache B := { capacity, order := [], present := ∅ }

/-- `contains`. -/
def contains (c : ReplayCache B) (key : ReplayKey B) : Bool := key ∈ c.present

/-- The cache after making room for one more key. -/
def evict (c : ReplayCache B) : ReplayCache B :=
  if c.order.length ≥ c.capacity then
    match c.order with
    | old :: order => { c with order, present := c.present.erase old }
    | [] => c
  else c

/-- `check_and_insert`: whether the key was there, and the cache afterwards. -/
def checkAndInsert (c : ReplayCache B) (key : ReplayKey B) : Bool × ReplayCache B :=
  if c.contains key then (true, c)
  else (false, { c.evict with
    present := insert key c.evict.present, order := c.evict.order ++ [key] })

/-- One key. -/
def writeKey (k : ReplayKey B) : List B :=
  Cursor.putVec k.conversationId ++ Cursor.putVec k.senderDeviceId ++ Cursor.putVec k.messageId

/-- Reads one key. -/
def readKey (data : List B) : Except PrimitiveError (ReplayKey B × List B) := do
  let (conversationId, data) ← Cursor.takeVec PrimitiveError.invalidLength data
  let (senderDeviceId, data) ← Cursor.takeVec PrimitiveError.invalidLength data
  let (messageId, data) ← Cursor.takeVec PrimitiveError.invalidLength data
  return ({ conversationId, senderDeviceId, messageId }, data)

/-- `serialize`. -/
def serialize (c : ReplayCache B) : List B :=
  ascii "VCREPL01" ++ le 4 c.capacity ++ le 4 c.order.length ++ c.order.flatMap writeKey

/-- `deserialize`. -/
def deserialize (data : List B) : Except PrimitiveError (ReplayCache B) := do
  let data ← Cursor.expect PrimitiveError.invalidLength (ascii "VCREPL01") data
  let (capacity, data) ← Cursor.takeLe PrimitiveError.invalidLength 4 data
  let (n, data) ← Cursor.takeLe PrimitiveError.invalidLength 4 data
  if capacity = 0 then throw .invalidLength
  let (order, data) ← Cursor.takeMany readKey n data
  Cursor.finish PrimitiveError.invalidLength data { capacity, order, present := order.toFinset }

/-! ### The invariant -/

/-- **The cache invariant**: the set is the queue, and the queue fits. Eviction and insertion keep
the two together. -/
structure Valid (c : ReplayCache B) : Prop where
  /-- There is room for a key. -/
  pos : 0 < c.capacity
  /-- The capacity can be stored. -/
  lt : c.capacity < 2 ^ 32
  /-- The queue does not exceed the capacity. -/
  length_le : c.order.length ≤ c.capacity
  /-- No key is queued twice. -/
  nodup : c.order.Nodup
  /-- The set holds what is queued. -/
  present : c.present = c.order.toFinset

theorem new_valid {capacity : ℕ} (h : 0 < capacity) (h' : capacity < 2 ^ 32) :
    (new capacity : ReplayCache B).Valid :=
  ⟨h, h', Nat.zero_le _, List.nodup_nil, rfl⟩

variable {c : ReplayCache B}

/-- The look-up in the set is a look-up in the queue. -/
theorem Valid.contains_iff (hc : c.Valid) {key : ReplayKey B} :
    c.contains key = true ↔ key ∈ c.order := by
  rw [contains, decide_eq_true_iff, hc.present, List.mem_toFinset]

/-- Making room: the oldest key goes, if the cache is full. -/
theorem Valid.evict (hc : c.Valid) :
    c.evict.Valid ∧ c.evict.capacity = c.capacity ∧ c.evict.order.length < c.capacity ∧
      ∃ dropped, c.order = dropped ++ c.evict.order := by
  unfold ReplayCache.evict
  split
  · rename_i hfull
    split
    · rename_i old order horder
      have hlen := hc.length_le
      have hnodup := hc.nodup
      rw [horder] at hlen hnodup
      rw [List.length_cons] at hlen
      obtain ⟨hnot, hnd⟩ := List.nodup_cons.1 hnodup
      refine ⟨⟨hc.pos, hc.lt, by dsimp only; omega, hnd, ?_⟩, rfl, by dsimp only; omega,
        [old], horder⟩
      dsimp only
      rw [hc.present, horder, List.toFinset_cons, Finset.erase_insert]
      rwa [List.mem_toFinset]
    · rename_i hnil
      have := hc.pos
      rw [hnil, List.length_nil] at hfull
      omega
  · exact ⟨hc, rfl, by omega, [], rfl⟩

/-- **Inserting a new key** keeps the invariant; the queue loses at most its head and gains the key. -/
theorem Valid.checkAndInsert (hc : c.Valid) {key : ReplayKey B} (h : c.contains key = false) :
    (c.checkAndInsert key).1 = false ∧ (c.checkAndInsert key).2.Valid ∧
      (c.checkAndInsert key).2.capacity = c.capacity ∧
      ∀ k ∈ (c.checkAndInsert key).2.order, k = key ∨ k ∈ c.order := by
  obtain ⟨he, hcap, hlen, dropped, hdropped⟩ := hc.evict
  have hnew : key ∉ c.order := by
    rw [← hc.contains_iff, h]
    simp
  have hnew' : key ∉ c.evict.order := by
    intro hmem
    apply hnew
    rw [hdropped]
    exact List.mem_append_right _ hmem
  unfold ReplayCache.checkAndInsert
  rw [h]
  refine ⟨rfl, ⟨he.pos, he.lt, ?_, ?_, ?_⟩, hcap, ?_⟩
  · show (c.evict.order ++ [key]).length ≤ c.evict.capacity
    rw [List.length_append, List.length_singleton, hcap]
    omega
  · exact List.nodup_append.2 ⟨he.nodup, List.nodup_singleton _, by
      rintro a ha b hb rfl
      exact hnew' (List.mem_singleton.1 hb ▸ ha)⟩
  · show insert key c.evict.present = (c.evict.order ++ [key]).toFinset
    rw [he.present, List.toFinset_append, Finset.union_comm]
    rfl
  · intro k hk
    rcases List.mem_append.1 hk with hk | hk
    · exact .inr (hdropped ▸ List.mem_append_right _ hk)
    · exact .inl (List.mem_singleton.1 hk)

/-! ### Round trip -/

/-- A key whose strings fit their 32-bit lengths. -/
structure KeyFits (k : ReplayKey B) : Prop where
  /-- The first string fits its prefix. -/
  conversationId : k.conversationId.length < 2 ^ 32
  /-- So does the second. -/
  senderDeviceId : k.senderDeviceId.length < 2 ^ 32
  /-- And the third. -/
  messageId : k.messageId.length < 2 ^ 32

theorem readKey_reads {k : ReplayKey B} (hk : KeyFits k) : Cursor.Reads readKey (writeKey k) k := by
  intro rest
  have h1 := Cursor.takeVec_reads PrimitiveError.invalidLength hk.conversationId
  have h2 := Cursor.takeVec_reads PrimitiveError.invalidLength hk.senderDeviceId
  have h3 := Cursor.takeVec_reads PrimitiveError.invalidLength hk.messageId
  simp only [readKey, writeKey, List.append_assoc, h1 _, h2 _, h3 _, bind, Except.bind, pure,
    Except.pure]

/-- **The cache survives persistence**, its order included. -/
theorem deserialize_serialize (hc : c.Valid) (hfits : ∀ k ∈ c.order, KeyFits k) :
    deserialize c.serialize = .ok c := by
  have hcap : c.capacity % 256 ^ 4 = c.capacity := Nat.mod_eq_of_lt (by have := hc.lt; omega)
  have hlen : c.order.length % 256 ^ 4 = c.order.length := by
    have := hc.lt
    have := hc.length_le
    exact Nat.mod_eq_of_lt (by omega)
  have hmany := Cursor.takeMany_append (p := readKey) (w := writeKey) (l := c.order) rfl
    (fun k hk ↦ readKey_reads (hfits k hk)) []
  rw [List.append_nil] at hmany
  have hpos : ¬ c.capacity = 0 := by
    have := hc.pos
    omega
  simp only [deserialize, serialize, List.append_assoc, Cursor.expect_append, Cursor.takeLe_append,
    hcap, hlen, hpos, if_false, hmany, bind, Except.bind, Cursor.finish_nil]
  rw [← hc.present]

end ReplayCache

end VoiceChatCrypto
