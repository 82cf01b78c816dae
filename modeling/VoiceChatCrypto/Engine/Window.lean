import Mathlib.Data.List.DropRight
import VoiceChatCrypto.Data.System
import VoiceChatCrypto.Engine.Replay

/-!
# The replay cache as a sliding window

What the cache is for, said without its two structures: of the keys it has let through, it refuses
exactly the last `capacity`. A run is any sequence of `check_and_insert` calls and reloads from
storage, with the answers written down beside the cache; `admitted` reads the keys off the answers
that were `false`.

The invariant is one equation, `Slides.order_eq`: the queue *is* the end of the admitted keys. The
set agrees with the queue by `ReplayCache.Valid`, so the answer to a key is read off the window.
-/

open Alphabet

namespace VoiceChatCrypto

variable {B : Type} [Alphabet B]

namespace ReplayCache

/-- What can happen to a cache. -/
inductive Call (B : Type)
  | checkAndInsert (key : ReplayKey B)
  /-- The cache is written to storage and read back. -/
  | reload

/-- One call, with its answer appended to the answers given so far. -/
def perform : ReplayCache B × List (ReplayKey B × Bool) → Call B →
    Except PrimitiveError (ReplayCache B × List (ReplayKey B × Bool))
  | (c, answers), .checkAndInsert key =>
    return ((c.checkAndInsert key).2, answers ++ [(key, (c.checkAndInsert key).1)])
  | (c, answers), .reload => do
    let c ← deserialize c.serialize
    return (c, answers)

/-- A run of a new cache: the cache at its end, and every answer in order. -/
def run (capacity : ℕ) (calls : List (Call B)) :
    Except PrimitiveError (ReplayCache B × List (ReplayKey B × Bool)) :=
  calls.foldlM perform (new capacity, [])

/-- The keys that were answered `false`, in order. -/
def admitted (answers : List (ReplayKey B × Bool)) : List (ReplayKey B) :=
  (answers.filter fun a ↦ !a.2).map Prod.fst

omit [Alphabet B] in
theorem admitted_concat_true (answers : List (ReplayKey B × Bool)) (key : ReplayKey B) :
    admitted (answers ++ [(key, true)]) = admitted answers := by
  rw [admitted, List.filter_append, List.map_append]
  exact List.append_nil _

omit [Alphabet B] in
theorem admitted_concat_false (answers : List (ReplayKey B × Bool)) (key : ReplayKey B) :
    admitted (answers ++ [(key, false)]) = admitted answers ++ [key] := by
  rw [admitted, List.filter_append, List.map_append]
  rfl

/-- An answer is right after the answers before it: it is `true` for the last `capacity` keys that were
let through, and for no others. -/
def Right (capacity : ℕ) (past : List (ReplayKey B × Bool)) (a : ReplayKey B × Bool) :
    Prop :=
  a.2 = true ↔ a.1 ∈ (admitted past).rtake capacity

/-- **The window invariant**: the queue is the end of the admitted keys. Every key that was let
through pushes out the one that was let through `capacity` keys before. -/
structure Slides (capacity : ℕ) (c : ReplayCache B) (answers : List (ReplayKey B × Bool)) :
    Prop where
  /-- The cache is one that its own operations have made. -/
  valid : c.Valid
  /-- Its capacity is the one given. -/
  capacity_eq : c.capacity = capacity
  /-- Its keys can be stored. -/
  fits : ∀ k ∈ c.order, KeyFits k
  /-- Its queue holds the keys that were admitted last. -/
  order_eq : c.order = (admitted answers).rtake capacity
  /-- Every answer so far was the right one. -/
  right : Run.Throughout (Right capacity) answers

variable {c : ReplayCache B} {answers : List (ReplayKey B × Bool)} {capacity : ℕ}

/-- Room for one more key is the window less its oldest place. -/
theorem evict_order (keys : List (ReplayKey B)) {n : ℕ} (hcap : c.capacity = n + 1)
    (h : c.order = keys.rtake (n + 1)) : c.evict.order = keys.rtake n := by
  have hlen : c.order.length = min keys.length (n + 1) := by
    rw [h, List.rtake, List.length_drop]
    omega
  unfold evict
  split
  · rename_i hfull
    split
    · rename_i old order horder
      -- a full cache: the window starts one place later
      show order = keys.rtake n
      have htail : order = c.order.tail := by rw [horder, List.tail_cons]
      rw [htail, h, List.rtake, List.rtake, List.tail_drop]
      congr 1
      omega
    · rename_i hnil
      rw [hnil, List.length_nil] at hfull
      omega
  · -- a cache with room holds every key so far
    rw [h, List.rtake, List.rtake]
    congr 1
    omega

/-- The answer to a key is read off the window. -/
theorem Slides.answer (h : Slides capacity c answers) (key : ReplayKey B) :
    Right capacity answers (key, (c.checkAndInsert key).1) := by
  show (c.checkAndInsert key).1 = true ↔ key ∈ (admitted answers).rtake capacity
  rw [← h.order_eq, ← h.valid.contains_iff, ReplayCache.checkAndInsert]
  cases c.contains key with
  | true => exact Iff.rfl
  | false => exact Iff.rfl

/-- One `check_and_insert`, on a key of the window or outside it. -/
theorem Slides.checkAndInsert (h : Slides capacity c answers) {key : ReplayKey B}
    (hkey : KeyFits key) :
    Slides capacity (c.checkAndInsert key).2
      (answers ++ [(key, (c.checkAndInsert key).1)]) := by
  have hright := Run.throughout_concat.2 ⟨h.right, h.answer key⟩
  cases hc : c.contains key with
  | true =>
    have heq : c.checkAndInsert key = (true, c) := if_pos hc
    rw [heq] at hright ⊢
    refine ⟨h.valid, h.capacity_eq, h.fits, ?_, hright⟩
    rw [admitted_concat_true]
    exact h.order_eq
  | false =>
    obtain ⟨hans, hvalid, hcap, hmem⟩ := h.valid.checkAndInsert hc
    refine ⟨hvalid, hcap.trans h.capacity_eq, ?_, ?_, hright⟩
    · intro k hk
      rcases hmem k hk with rfl | hk
      · exact hkey
      · exact h.fits k hk
    · obtain ⟨n, hn⟩ := Nat.exists_eq_add_one.2 h.valid.pos
      have hevict := evict_order (admitted answers) hn (by rw [h.order_eq, ← h.capacity_eq, hn])
      have horder : (c.checkAndInsert key).2.order = c.evict.order ++ [key] := by
        rw [ReplayCache.checkAndInsert, hc]
        rfl
      rw [hans, admitted_concat_false, horder, hevict, ← h.capacity_eq, hn,
        List.rtake_concat_succ]

/-- One call: it succeeds, and the window slides. -/
theorem Slides.perform (h : Slides capacity c answers) (call : Call B)
    (hcall : ∀ key, call = .checkAndInsert key → KeyFits key) :
    ∃ c' answers', ReplayCache.perform (c, answers) call = .ok (c', answers') ∧
      Slides capacity c' answers' := by
  cases call with
  | checkAndInsert key => exact ⟨_, _, rfl, h.checkAndInsert (hcall key rfl)⟩
  | reload =>
    refine ⟨c, answers, ?_, h⟩
    rw [ReplayCache.perform, deserialize_serialize h.valid h.fits]
    rfl

/-- A whole run. -/
theorem Slides.foldlM (calls : List (Call B)) (h : Slides capacity c answers)
    (hcalls : ∀ key, .checkAndInsert key ∈ calls → KeyFits key) :
    ∃ c' answers', calls.foldlM ReplayCache.perform (c, answers) = .ok (c', answers') ∧
      Slides capacity c' answers' := by
  induction calls generalizing c answers with
  | nil => exact ⟨c, answers, rfl, h⟩
  | cons call calls ih =>
    obtain ⟨c₁, answers₁, hcall, h₁⟩ := h.perform call
      fun key heq ↦ hcalls key (heq ▸ List.mem_cons_self)
    obtain ⟨c₂, answers₂, hrest, h₂⟩ := ih h₁ fun key hkey ↦ hcalls key (List.mem_cons_of_mem _ hkey)
    refine ⟨c₂, answers₂, ?_, h₂⟩
    rw [List.foldlM_cons, hcall]
    exact hrest

/-- **The replay cache is an exact sliding window.** Every run of a new cache succeeds, reloads
included. Each of its answers, and the answer to any key at its end, is `true` exactly if the key is
one of the last `capacity` keys that were let through; the queue holds no key twice, it holds the keys
of the set and no others, and it never outgrows the capacity. -/
theorem run_slides (capacity : ℕ) (hpos : 0 < capacity) (hlt : capacity < 2 ^ 32)
    (calls : List (Call B)) (hcalls : ∀ key, .checkAndInsert key ∈ calls → KeyFits key) :
    ∃ c answers, run capacity calls = .ok (c, answers) ∧
      Run.Throughout (Right capacity) answers ∧
      (∀ key, (c.checkAndInsert key).1 = true ↔ key ∈ (admitted answers).rtake capacity) ∧
      c.order.Nodup ∧ (∀ key, key ∈ c.order ↔ key ∈ c.present) ∧ c.order.length ≤ capacity := by
  have hnew : Slides capacity (new capacity : ReplayCache B) [] := by
    refine ⟨new_valid hpos hlt, rfl, ?_, ?_, Run.throughout_nil⟩
    · intro k hk
      cases hk
    · rw [admitted, List.filter_nil, List.map_nil, List.rtake_nil]
      rfl
  obtain ⟨c, answers, hrun, h⟩ := hnew.foldlM calls hcalls
  refine ⟨c, answers, hrun, h.right, h.answer, h.valid.nodup, ?_, h.capacity_eq ▸ h.valid.length_le⟩
  intro key
  rw [h.valid.present, List.mem_toFinset]

/-- A key of one conversation and one device, for message `n`. -/
def messageKey (n : UInt8) : ReplayKey UInt8 := ⟨[7], [1], [n]⟩

/-- A cache of one place: the first message is evicted by the second and let through again after a
reload. -/
theorem run_slides_one :
    ∃ c answers, run 1 [.checkAndInsert (messageKey 1), .checkAndInsert (messageKey 2), .reload,
        .checkAndInsert (messageKey 1)] = .ok (c, answers) ∧
      Run.Throughout (Right 1) answers ∧
      (∀ key, (c.checkAndInsert key).1 = true ↔ key ∈ (admitted answers).rtake 1) ∧
      c.order.Nodup ∧ (∀ key, key ∈ c.order ↔ key ∈ c.present) ∧ c.order.length ≤ 1 := by
  refine run_slides 1 (by decide) (by decide) _ ?_
  intro key hkey
  have hlen : key = messageKey 1 ∨ key = messageKey 2 := by
    simp only [List.mem_cons, Call.checkAndInsert.injEq, reduceCtorEq, List.not_mem_nil] at hkey
    tauto
  rcases hlen with rfl | rfl
  · exact ⟨by decide, by decide, by decide⟩
  · exact ⟨by decide, by decide, by decide⟩

end ReplayCache

end VoiceChatCrypto
