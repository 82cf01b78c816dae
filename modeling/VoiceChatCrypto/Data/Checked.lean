import VoiceChatCrypto.Data.Alphabet

/-!
# Checked computations

What a program does on a machine word of `w` bits: it returns, it fails with an error of its own, or it
**panics**, because a sum overflows, a slice is out of range or a conversion fails. The first two are
results of a function; the third is not.

`Checked ε α` keeps the three apart. An index parser is written over it with the operations of this
module, each of which panics exactly where the machine does. `Safe c Q` says that `c` does not panic,
and that `Q` holds of what it returns; it has one rule for each operation and one for sequencing.
-/

open Alphabet

/-- The outcome of a computation that may panic. A panic is not an error: it cannot be caught, and
what the computation was about to write is lost. -/
inductive Checked (ε α : Type)
  | ok (a : α)
  | err (e : ε)
  | panic

namespace Checked

variable {B ε α β : Type}

/-- Sequencing: errors and panics end a computation. -/
protected def bind (x : Checked ε α) (f : α → Checked ε β) : Checked ε β :=
  match x with
  | ok a => f a
  | err e => err e
  | panic => panic

instance instMonad : Monad (Checked ε) where
  pure := ok
  bind := Checked.bind

@[simp] theorem ok_bind (a : α) (f : α → Checked ε β) : (ok a >>= f) = f a := rfl

@[simp] theorem err_bind (e : ε) (f : α → Checked ε β) : (err e >>= f) = err e := rfl

@[simp] theorem panic_bind (f : α → Checked ε β) : ((panic : Checked ε α) >>= f) = panic := rfl

theorem bind_assoc {γ : Type} (x : Checked ε α) (f : α → Checked ε β) (g : β → Checked ε γ) :
    (x >>= f) >>= g = x >>= fun a ↦ f a >>= g := by
  cases x <;> rfl

instance instLawfulMonad : LawfulMonad (Checked ε) :=
  LawfulMonad.mk' _ (fun x ↦ by cases x <;> rfl) (fun _ _ ↦ rfl) bind_assoc

/-! ### Operations -/

/-- Goes on if a condition holds, and fails otherwise. -/
def ensure (c : Prop) [Decidable c] (e : ε) : Checked ε Unit := if c then ok () else err e

/-- The outcome of a computation that does not panic. -/
def ofExcept : Except ε α → Checked ε α
  | .ok a => ok a
  | .error e => err e

/-- A computation that has no errors of its own, in a place that has. -/
def lift : Checked Empty α → Checked ε α
  | ok a => ok a
  | panic => panic

@[simp] theorem lift_ok (a : α) : (lift (ok a) : Checked ε α) = ok a := rfl

@[simp] theorem lift_panic : (lift (panic : Checked Empty α) : Checked ε α) = panic := rfl

/-- Addition of machine words of `w` bits, with overflow checks. -/
def add (w a b : ℕ) : Checked ε ℕ := if a + b < 2 ^ w then ok (a + b) else panic

/-- Subtraction of machine words. -/
def sub (a b : ℕ) : Checked ε ℕ := if b ≤ a then ok (a - b) else panic

/-- Multiplication of machine words of `w` bits. -/
def mul (w a b : ℕ) : Checked ε ℕ := if a * b < 2 ^ w then ok (a * b) else panic

/-- `a << n` on machine words of `w` bits: the bits that leave the word are lost, but the amount has to
be below the width. -/
def shl (w a n : ℕ) : Checked ε ℕ := if n < w then ok ((a <<< n) % 2 ^ w) else panic

/-- `a >> n` on machine words of `w` bits. -/
def shr (w a n : ℕ) : Checked ε ℕ := if n < w then ok (a >>> n) else panic

/-- `data[i..j]`. -/
def slice (data : List B) (i j : ℕ) : Checked ε (List B) :=
  if i ≤ j ∧ j ≤ data.length then ok ((data.drop i).take (j - i)) else panic

/-- `data[i]`. -/
def index (data : List B) (i : ℕ) : Checked ε B :=
  match data[i]? with
  | some b => ok b
  | none => panic

/-- `data[i] = b`. -/
def write (data : List B) (i : ℕ) (b : B) : Checked ε (List B) :=
  if i < data.length then ok (data.set i b) else panic

/-- The conversion of a slice into an array: `try_into().unwrap()`, and `copy_from_slice` into one. -/
def array (n : ℕ) (bs : List B) : Checked ε (Block B n) :=
  if h : bs.length = n then ok ⟨bs, h⟩ else panic

/-- The little-endian integer of `k` letters at an offset. -/
def wordAt [Alphabet B] (data : List B) (i k : ℕ) : ℕ := fromLe ((data.drop i).take k)

/-- `from_le_bytes(data[i..i + k].try_into().unwrap())`. -/
def word [Alphabet B] (w : ℕ) (data : List B) (i k : ℕ) : Checked ε ℕ := do
  let j ← add w i k
  let s ← slice data i j
  let bs ← array k s
  return fromLe bs.val

/-- The next `n` letters from index `i` on, and the index behind them: `take(&mut i, n)`. -/
def take (w : ℕ) (e : ε) (data : List B) (i n : ℕ) : Checked ε (List B × ℕ) := do
  let j ← add w i n
  ensure (j ≤ data.length) e
  let s ← slice data i j
  let j ← add w i n
  return (s, j)

section Equations

variable {w : ℕ} {data : List B} {i j n : ℕ}

theorem ensure_of_pos {c : Prop} [Decidable c] (h : c) (e : ε) : ensure c e = ok () := if_pos h

theorem ensure_of_neg {c : Prop} [Decidable c] (h : ¬ c) (e : ε) : ensure c e = err e := if_neg h

theorem add_of_lt {a b : ℕ} (h : a + b < 2 ^ w) : (add w a b : Checked ε ℕ) = ok (a + b) := if_pos h

/-- A sum that does not fit panics: the source is built with overflow checks. -/
theorem add_of_le {a b : ℕ} (h : 2 ^ w ≤ a + b) : (add w a b : Checked ε ℕ) = panic :=
  if_neg (by omega)

theorem sub_of_le {a b : ℕ} (h : b ≤ a) : (sub a b : Checked ε ℕ) = ok (a - b) := if_pos h

theorem mul_of_lt {a b : ℕ} (h : a * b < 2 ^ w) : (mul w a b : Checked ε ℕ) = ok (a * b) := if_pos h

theorem shl_of_lt {a : ℕ} (h : n < w) : (shl w a n : Checked ε ℕ) = ok ((a <<< n) % 2 ^ w) := if_pos h

theorem shr_of_lt {a : ℕ} (h : n < w) : (shr w a n : Checked ε ℕ) = ok (a >>> n) := if_pos h

theorem write_of_lt {b : B} (h : i < data.length) :
    (write data i b : Checked ε (List B)) = ok (data.set i b) :=
  if_pos h

theorem slice_of_le (hij : i ≤ j) (hj : j ≤ data.length) :
    (slice data i j : Checked ε (List B)) = ok ((data.drop i).take (j - i)) :=
  if_pos ⟨hij, hj⟩

theorem slice_zero (hj : j ≤ data.length) :
    (slice data 0 j : Checked ε (List B)) = ok (data.take j) :=
  slice_of_le (Nat.zero_le j) hj

/-- An index within the bounds is read; the default of `getD` does not matter. -/
theorem index_of_lt (h : i < data.length) (z : B) :
    (index data i : Checked ε B) = ok (data.getD i z) := by
  rw [index, List.getD, List.getElem?_eq_getElem h]
  rfl

theorem index_of_le (h : data.length ≤ i) : (index data i : Checked ε B) = panic := by
  rw [index, List.getElem?_eq_none h]

theorem array_of_length {bs : List B} (h : bs.length = n) :
    (array n bs : Checked ε (Block B n)) = ok ⟨bs, h⟩ :=
  dif_pos h

theorem array_bind_of_length {bs : List B} (h : bs.length = n) (f : Block B n → Checked ε β) :
    (array n bs >>= f) = f ⟨bs, h⟩ := by
  rw [array_of_length h]
  rfl

/-- A slice within the bounds has the length asked for. -/
theorem length_slice (h : i + n ≤ data.length) : ((data.drop i).take n).length = n := by
  rw [List.length_take, List.length_drop]
  omega

theorem wordAt_lt [Alphabet B] (data : List B) (i k : ℕ) : wordAt data i k < 256 ^ k := by
  refine (fromLe_lt _).trans_le (Nat.pow_le_pow_right (by omega) ?_)
  exact List.length_take_le _ _

/-- A word within the bounds is read without overflow of its end. -/
theorem word_of_le [Alphabet B] (hw : i + n < 2 ^ w) (hle : i + n ≤ data.length) :
    (word w data i n : Checked ε ℕ) = ok (wordAt data i n) := by
  unfold word
  rw [add_of_lt hw, ok_bind, slice_of_le (Nat.le_add_right i n) hle, ok_bind,
    Nat.add_sub_cancel_left, array_of_length (length_slice hle)]
  rfl

/-- Where the end does not overflow, `take` reads the bytes or ends in its error. -/
theorem take_of_lt {e : ε} (h : i + n < 2 ^ w) : take w e data i n =
    if i + n ≤ data.length then ok ((data.drop i).take n, i + n) else err e := by
  unfold take
  rw [add_of_lt h, ok_bind]
  split
  · rename_i hle
    rw [ensure_of_pos hle, ok_bind, slice_of_le (Nat.le_add_right i n) hle, Nat.add_sub_cancel_left]
    rfl
  · rename_i hle
    rw [ensure_of_neg hle, err_bind]

/-- Where the end overflows, `take` panics before it compares anything. -/
theorem take_of_le {e : ε} (h : 2 ^ w ≤ i + n) : take w e data i n = panic := by
  unfold take
  rw [add_of_le h, panic_bind]

end Equations

/-! ### Where a sequence panics -/

section NoPanic

variable {w : ℕ} {data : List B} {i j n : ℕ}

theorem pure_ne_panic (a : α) : (pure a : Checked ε α) ≠ panic := fun h ↦ by cases h

theorem err_ne_panic (e : ε) : (err e : Checked ε α) ≠ panic := fun h ↦ by cases h

/-- A continuation that never panics does not matter. -/
theorem bind_ne_panic_iff {x : Checked ε α} {f : α → Checked ε β} (hf : ∀ a, f a ≠ panic) :
    (x >>= f) ≠ panic ↔ x ≠ panic := by
  cases x with
  | ok a => exact iff_of_true (hf a) fun h ↦ by cases h
  | err e => exact iff_of_true (err_ne_panic e) (err_ne_panic e)
  | panic => exact iff_of_false (fun h ↦ h rfl) fun h ↦ h rfl

theorem ensure_bind_ne_panic {c : Prop} [Decidable c] {e : ε} {f : Unit → Checked ε β} :
    (ensure c e >>= f) ≠ panic ↔ (c → f () ≠ panic) := by
  by_cases hc : c
  · rw [ensure_of_pos hc, ok_bind, forall_prop_of_true hc]
  · rw [ensure_of_neg hc, err_bind]
    exact iff_of_true (err_ne_panic e) fun h ↦ absurd h hc

/-- What follows an addition is reached when the sum fits. -/
theorem add_bind_ne_panic {a b : ℕ} {f : ℕ → Checked ε β} :
    (add w a b >>= f) ≠ panic ↔ a + b < 2 ^ w ∧ f (a + b) ≠ panic := by
  by_cases h : a + b < 2 ^ w
  · rw [add_of_lt h, ok_bind, and_iff_right h]
  · rw [add_of_le (by omega), panic_bind]
    exact iff_of_false (fun hp ↦ hp rfl) fun hf ↦ h hf.1

/-- What follows a slice is reached when it is within the bounds. -/
theorem slice_bind_ne_panic {f : List B → Checked ε β} :
    (slice data i j >>= f) ≠ panic ↔
      (i ≤ j ∧ j ≤ data.length) ∧ f ((data.drop i).take (j - i)) ≠ panic := by
  unfold slice
  split
  · rename_i h
    rw [ok_bind, and_iff_right h]
  · rename_i h
    rw [panic_bind]
    exact iff_of_false (fun hp ↦ hp rfl) fun hf ↦ h hf.1

/-- What follows the conversion to an array is reached when the length is right. -/
theorem array_bind_ne_panic {bs : List B} {f : Block B n → Checked ε β} :
    (array n bs >>= f) ≠ panic ↔ ∃ h : bs.length = n, f ⟨bs, h⟩ ≠ panic := by
  by_cases h : bs.length = n
  · rw [array_of_length h]
    exact ⟨fun hf ↦ ⟨h, hf⟩, fun ⟨_, hf⟩ ↦ hf⟩
  · rw [array, dif_neg h, panic_bind]
    exact iff_of_false (fun hp ↦ hp rfl) fun ⟨hf, _⟩ ↦ h hf

/-- What follows a word is reached when its end neither overflows nor lies out of bounds. -/
theorem word_bind_ne_panic [Alphabet B] {f : ℕ → Checked ε β} :
    (word w data i n >>= f) ≠ panic ↔
      i + n < 2 ^ w ∧ i + n ≤ data.length ∧ f (wordAt data i n) ≠ panic := by
  by_cases hw : i + n < 2 ^ w
  · by_cases hle : i + n ≤ data.length
    · rw [word_of_le hw hle, ok_bind, and_iff_right hw, and_iff_right hle]
    · have hpanic : (word w data i n : Checked ε ℕ) = panic := by
        rw [word, add_of_lt hw, ok_bind, slice, if_neg (fun h ↦ hle h.2), panic_bind]
      rw [hpanic, panic_bind]
      exact iff_of_false (fun hp ↦ hp rfl) fun hf ↦ hle hf.2.1
  · have hpanic : (word w data i n : Checked ε ℕ) = panic := by
      rw [word, add_of_le (by omega), panic_bind]
    rw [hpanic, panic_bind]
    exact iff_of_false (fun hp ↦ hp rfl) fun hf ↦ hw hf.1

/-- What follows `take` is reached when there is enough left, and need not be looked at otherwise;
the end must not overflow in either case. -/
theorem take_bind_ne_panic {e : ε} {f : List B × ℕ → Checked ε β} :
    (take w e data i n >>= f) ≠ panic ↔
      i + n < 2 ^ w ∧ (i + n ≤ data.length → f ((data.drop i).take n, i + n) ≠ panic) := by
  by_cases hw : i + n < 2 ^ w
  · rw [take_of_lt hw, and_iff_right hw]
    split
    · rename_i hle
      rw [ok_bind, forall_prop_of_true hle]
    · rename_i hle
      rw [err_bind]
      exact iff_of_true (err_ne_panic e) fun h ↦ absurd h hle
  · rw [take_of_le (by omega), panic_bind]
    exact iff_of_false (fun hp ↦ hp rfl) fun hf ↦ hw hf.1

end NoPanic

/-! ### Safety -/

/-- `c` does not panic, and what it returns satisfies `Q`. Nothing is said of the errors it may end
with. -/
def Safe (c : Checked ε α) (Q : α → Prop) : Prop :=
  match c with
  | ok a => Q a
  | err _ => True
  | panic => False

namespace Safe

variable {w : ℕ} {data : List B} {i j n : ℕ} {c : Checked ε α} {Q Q' : α → Prop} {R : β → Prop}

theorem ne_panic (h : Safe c Q) : c ≠ panic := by
  rintro rfl
  exact h

/-- A safe computation yields whatever follows from what it yields. -/
theorem mono (h : Safe c Q) (hQ : ∀ a, Q a → Q' a) : Safe c Q' := by
  cases c with
  | ok a => exact hQ a h
  | err e => trivial
  | panic => exact h

/-- **Sequencing.** -/
theorem bind {f : α → Checked ε β} (h : Safe c Q) (hf : ∀ a, Q a → Safe (f a) R) :
    Safe (c >>= f) R := by
  cases c with
  | ok a => exact hf a h
  | err e => trivial
  | panic => exact h.elim

theorem ensure (c : Prop) [Decidable c] (e : ε) : Safe (ensure c e) fun _ ↦ c := by
  unfold Checked.ensure
  split
  · assumption
  · trivial

theorem ofExcept (x : Except ε α) : Safe (ofExcept x) fun _ ↦ True := by
  cases x <;> trivial

theorem add {a b : ℕ} (h : a + b < 2 ^ w) : Safe (add w a b : Checked ε ℕ) fun s ↦ s = a + b := by
  rw [add_of_lt h]
  rfl

theorem slice (hij : i ≤ j) (hj : j ≤ data.length) :
    Safe (slice data i j : Checked ε (List B)) fun s ↦ s.length = j - i := by
  rw [slice_of_le hij hj]
  exact length_slice (by omega)

theorem index (h : i < data.length) : Safe (index data i : Checked ε B) fun _ ↦ True := by
  rw [Checked.index, List.getElem?_eq_getElem h]
  trivial

theorem array {bs : List B} (h : bs.length = n) :
    Safe (array n bs : Checked ε (Block B n)) fun _ ↦ True := by
  rw [array_of_length h]
  trivial

theorem word [Alphabet B] (hw : i + n < 2 ^ w) (hle : i + n ≤ data.length) :
    Safe (word w data i n : Checked ε ℕ) fun v ↦ v < 256 ^ n := by
  rw [word_of_le hw hle]
  have h := fromLe_lt ((data.drop i).take n)
  rw [length_slice hle] at h
  exact h

/-- **A read that does not overflow** does not panic, and ends inside the string. -/
theorem take {e : ε} (h : i + n < 2 ^ w) :
    Safe (take w e data i n) fun out ↦ out.1.length = n ∧ out.2 ≤ data.length := by
  rw [take_of_lt h]
  split
  · rename_i hle
    exact ⟨length_slice hle, hle⟩
  · trivial

end Safe

/-! ### Loops -/

/-- One round for each element: what the rounds return, in order. -/
def each (f : α → Checked ε β) : List α → Checked ε (List β)
  | [] => ok []
  | a :: as => do
    let b ← f a
    let bs ← each f as
    return b :: bs

/-- **Rounds that all return** do what the corresponding map does. -/
theorem each_eq_ok {f : α → Checked ε β} {g : α → β} {as : List α} (h : ∀ a ∈ as, f a = ok (g a)) :
    each f as = ok (as.map g) := by
  induction as with
  | nil => rfl
  | cons a as ih =>
    rw [each, h a List.mem_cons_self, ok_bind, ih fun b hb ↦ h b (List.mem_cons_of_mem _ hb)]
    rfl

/-- **A loop on a state** whose rounds all return, with an invariant that the rounds need. -/
theorem foldlM_eq_ok {σ : Type} {f : σ → α → Checked ε σ} {g : σ → α → σ} {I : σ → Prop} {as : List α}
    (h : ∀ s, I s → ∀ a ∈ as, f s a = ok (g s a) ∧ I (g s a)) {s : σ} (hs : I s) :
    as.foldlM f s = ok (as.foldl g s) ∧ I (as.foldl g s) := by
  induction as generalizing s with
  | nil => exact ⟨rfl, hs⟩
  | cons a as ih =>
    obtain ⟨hround, hnext⟩ := h s hs a List.mem_cons_self
    rw [List.foldlM_cons, hround, ok_bind, List.foldl_cons]
    exact ih (fun s hs b hb ↦ h s hs b (List.mem_cons_of_mem _ hb)) hnext

/-- **One round that panics** is enough, if rounds have no errors of their own. -/
theorem each_eq_panic {f : α → Checked Empty β} {as : List α} (h : ∃ a ∈ as, f a = panic) :
    each f as = panic := by
  induction as with
  | nil =>
    obtain ⟨a, ha, -⟩ := h
    exact absurd ha List.not_mem_nil
  | cons a as ih =>
    obtain ⟨b, hb, hpanic⟩ := h
    unfold each
    cases hfa : f a with
    | err e => exact e.elim
    | panic => rfl
    | ok v =>
      have htail : b ∈ as := by
        refine (List.mem_cons.1 hb).resolve_left fun heq ↦ ?_
        rw [heq, hfa] at hpanic
        cases hpanic
      rw [ok_bind, ih ⟨b, htail, hpanic⟩]
      rfl

/-! ### Failures that leave a state

A method that changes its object in place leaves something behind when it fails. Its outcome is a
`Checked (ε × σ) (α × σ)`: an error comes with the state it leaves, a result with the state it
returns. -/

section InPlace

variable {σ γ : Type}

/-- A failure of `c` leaves the state `s`. -/
def leaving (s : σ) : Checked ε α → Checked (ε × σ) α
  | ok a => ok a
  | err e => err (e, s)
  | panic => panic

@[simp] theorem leaving_ok (s : σ) (a : α) : leaving s (ok a : Checked ε α) = ok a := rfl

/-- The state behind a call, if the process lives to see it. -/
def state : Checked (ε × σ) (α × σ) → Option σ
  | ok a => some a.2
  | err e => some e.2
  | panic => none

/-- `c` does not panic; `Q` holds of what it returns, and `E` of what it fails with. -/
def Ends (c : Checked ε α) (Q : α → Prop) (E : ε → Prop) : Prop :=
  match c with
  | ok a => Q a
  | err e => E e
  | panic => False

namespace Ends

variable {c : Checked ε α} {Q Q' : α → Prop} {R : β → Prop} {E : ε → Prop}

/-- **Sequencing.** -/
theorem bind {f : α → Checked ε β} (h : Ends c Q E) (hf : ∀ a, Q a → Ends (f a) R E) :
    Ends (c >>= f) R E := by
  cases c with
  | ok a => exact hf a h
  | err e => exact h
  | panic => exact h.elim

theorem ensure {c : Prop} [Decidable c] {e : ε} (h : ¬ c → E e) :
    Ends (Checked.ensure c e) (fun _ ↦ c) E := by
  unfold Checked.ensure
  split
  · assumption
  · exact h ‹_›

/-- A computation that does not panic, with the state its failure leaves. -/
theorem leaving {E : ε × σ → Prop} {s : σ} (h : Safe c Q) (hE : ∀ e, E (e, s)) :
    Ends (c.leaving s) Q E := by
  cases c with
  | ok a => exact h
  | err e => exact hE e
  | panic => exact h

/-- **Where a call ends**, its object is as the two conditions say. -/
theorem state {c : Checked (ε × σ) (α × σ)} {I : σ → Prop} (h : Ends c (fun r ↦ I r.2) fun e ↦ I e.2) :
    ∃ s, c.state = some s ∧ I s := by
  cases c with
  | ok r => exact ⟨r.2, rfl, h⟩
  | err e => exact ⟨e.2, rfl, h⟩
  | panic => exact h.elim

end Ends

/-- Unless `c` panics, it returns or fails as `x` does. This compares a function that writes in
place with a pure one. -/
def Follows (c : Checked (ε × σ) α) (x : Except ε α) : Prop :=
  match c with
  | ok a => x = .ok a
  | err e => x = .error e.1
  | panic => True

namespace Follows

variable {c : Checked (ε × σ) α} {x : Except ε α}

/-- **Sequencing.** -/
theorem bind {f : α → Checked (ε × σ) γ} {g : α → Except ε γ} (h : Follows c x)
    (hf : ∀ a, Follows (f a) (g a)) : Follows (c >>= f) (x >>= g) := by
  cases c with
  | ok a =>
    have hx : x = .ok a := h
    subst hx
    exact hf a
  | err e =>
    have hx : x = .error e.1 := h
    subst hx
    exact rfl
  | panic => trivial

theorem leaving (s : σ) (x : Except ε α) : Follows ((ofExcept x).leaving s) x := by
  cases x <;> rfl

end Follows

end InPlace

end Checked
