import VoiceChatCrypto.Data.Alphabet

/-!
# Cursor parsers

A parser takes the unread rest of its input and returns a value together with what is left, or an
error: the `take(&mut i, n)` idiom, with the index replaced by the suffix it points at.

`Reads p bs a` says that `p` reads `a` from `bs` **and leaves everything after it alone**. It is the
form in which round trips compose: a format that is a concatenation of fields is read by the
sequence of their parsers, with no bookkeeping of offsets.
-/

open Alphabet

/-! ### Taking fallible computations apart -/

/-- A sequence succeeds when both parts do, the second on the outcome of the first. -/
theorem Except.bind_eq_ok {ε α β : Type} {x : Except ε α} {f : α → Except ε β} {b : β} :
    x >>= f = .ok b ↔ ∃ a, x = .ok a ∧ f a = .ok b := by
  cases x with
  | error e => simp [bind, Except.bind]
  | ok a => simp [bind, Except.bind]

/-- A sequence fails with the error of the part that failed first. -/
theorem Except.bind_eq_error {ε α β : Type} {x : Except ε α} {f : α → Except ε β} {e : ε} :
    x >>= f = .error e ↔ x = .error e ∨ ∃ a, x = .ok a ∧ f a = .error e := by
  cases x with
  | error e => simp [bind, Except.bind]
  | ok a => simp [bind, Except.bind]

namespace Cursor

variable {B ε α β : Type}

/-- The next `n` letters, or the error `e` when fewer are left. -/
def take (e : ε) (n : ℕ) (data : List B) : Except ε (List B × List B) :=
  if data.length < n then .error e else .ok (data.take n, data.drop n)

/-- The next `n` letters as an array. -/
def takeBlock (e : ε) (n : ℕ) (data : List B) : Except ε (Block B n × List B) :=
  if h : data.length < n then .error e
  else .ok (⟨data.take n, by rw [List.length_take]; omega⟩, data.drop n)

/-- `n` values of one parser in a row. -/
def takeMany (p : List B → Except ε (α × List B)) : ℕ → List B → Except ε (List α × List B)
  | 0, data => .ok ([], data)
  | n + 1, data => do
    let (a, data) ← p data
    let (as, data) ← takeMany p n data
    return (a :: as, data)

/-- Skips a fixed string, or fails. -/
def expect [DecidableEq B] (e : ε) (magic data : List B) : Except ε (List B) :=
  if data.take magic.length = magic then .ok (data.drop magic.length) else .error e

@[simp] theorem expect_append [DecidableEq B] (e : ε) (magic rest : List B) :
    expect e magic (magic ++ rest) = .ok rest := by
  simp [expect]

/-- What passes the comparison begins with the expected letters. -/
theorem expect_eq_ok [DecidableEq B] {e : ε} {magic data rest : List B}
    (h : expect e magic data = .ok rest) : data = magic ++ rest := by
  unfold expect at h
  split at h
  · rename_i htake
    cases h
    nth_rewrite 1 [← List.take_append_drop magic.length data]
    rw [htake]
  · cases h

/-- Fails unless everything was read. -/
def finish (e : ε) (data : List B) (a : α) : Except ε α :=
  match data with
  | [] => .ok a
  | _ :: _ => .error e

@[simp] theorem finish_nil (e : ε) (a : α) : finish e ([] : List B) a = .ok a := rfl

theorem finish_eq_ok {e : ε} {data : List B} {a b : α} (h : finish e data a = .ok b) :
    data = [] ∧ a = b := by
  cases data with
  | nil =>
    cases h
    exact ⟨rfl, rfl⟩
  | cons x xs => cases h

/-- `p` reads `a` from `bs` and leaves what follows untouched, so that readers can be put one after
the other. -/
def Reads (p : List B → Except ε (α × List B)) (bs : List B) (a : α) : Prop :=
  ∀ rest, p (bs ++ rest) = .ok (a, rest)

@[simp] theorem take_append {e : ε} {n : ℕ} {bs rest : List B} (h : bs.length = n) :
    take e n (bs ++ rest) = .ok (bs, rest) := by
  subst h
  simp [take]

@[simp] theorem takeBlock_append (e : ε) {n : ℕ} (b : Block B n) (rest : List B) :
    takeBlock e n (b.val ++ rest) = .ok (b, rest) := by
  have h : ¬ (b.val ++ rest).length < n := by simp [b.2]
  have hdrop : (b.val ++ rest).drop n = rest := List.drop_left' b.2
  simp only [takeBlock, h, dite_false, hdrop]
  congr 2
  exact Subtype.ext (List.take_left' b.2)

/-- A successful `take` splits its input. -/
theorem take_eq_ok {e : ε} {n : ℕ} {data bs rest : List B} (h : take e n data = .ok (bs, rest)) :
    data = bs ++ rest ∧ bs.length = n := by
  unfold take at h
  split at h
  · cases h
  · cases h
    refine ⟨(List.take_append_drop n data).symm, ?_⟩
    rw [List.length_take]
    omega

theorem takeBlock_eq_ok {e : ε} {n : ℕ} {data rest : List B} {b : Block B n}
    (h : takeBlock e n data = .ok (b, rest)) : data = b.val ++ rest := by
  unfold takeBlock at h
  split at h
  · cases h
  · cases h
    exact (List.take_append_drop n data).symm

/-- A list of values is read by as many runs of the parser of one value. -/
theorem takeMany_reads {p : List B → Except ε (α × List B)} {enc : α → List B} {as : List α}
    (h : ∀ a ∈ as, Reads p (enc a) a) : Reads (takeMany p as.length) (as.flatMap enc) as := by
  induction as with
  | nil => intro rest; rfl
  | cons a as ih =>
    intro rest
    have ha := h a (by simp) (as.flatMap enc ++ rest)
    have has := ih (fun x hx ↦ h x (by simp [hx])) rest
    simp only [List.length_cons, takeMany, List.flatMap_cons, List.append_assoc, ha, bind,
      Except.bind, has, pure, Except.pure]

/-- **A list is read back** when each of its elements is. -/
theorem takeMany_append {p : List B → Except ε (α × List B)} {w : α → List B} {l : List α}
    {n : ℕ} (hn : l.length = n) (h : ∀ a ∈ l, Reads p (w a) a) (rest : List B) :
    takeMany p n (l.flatMap w ++ rest) = .ok (l, rest) := by
  subst hn
  exact takeMany_reads h rest

/-- Values that take `w` letters each: as many as asked for, and as many letters gone. -/
theorem takeMany_length {p : List B → Except ε (α × List B)} {w : ℕ}
    (hp : ∀ data a rest, p data = .ok (a, rest) → w + rest.length = data.length) {n : ℕ}
    {data rest : List B} {as : List α} (h : takeMany p n data = .ok (as, rest)) :
    as.length = n ∧ w * n + rest.length = data.length := by
  induction n generalizing data as with
  | zero =>
    cases h
    exact ⟨rfl, by omega⟩
  | succ n ih =>
    obtain ⟨⟨a, data'⟩, ha, h⟩ := Except.bind_eq_ok.1 h
    obtain ⟨⟨as', rest'⟩, has, h⟩ := Except.bind_eq_ok.1 h
    cases h
    obtain ⟨rfl, hlen⟩ := ih has
    have hstep := hp _ _ _ ha
    refine ⟨rfl, ?_⟩
    rw [Nat.mul_succ]
    omega

/-- Every value of a list was read by the parser of one value, and there are as many as asked for. -/
theorem takeMany_eq_ok {p : List B → Except ε (α × List B)} {n : ℕ} {data rest : List B} {as : List α}
    (h : takeMany p n data = .ok (as, rest)) :
    as.length = n ∧ ∀ a ∈ as, ∃ before after, p before = .ok (a, after) := by
  induction n generalizing data as with
  | zero =>
    cases h
    exact ⟨rfl, fun a ha ↦ by cases ha⟩
  | succ n ih =>
    obtain ⟨⟨a, data'⟩, ha, h⟩ := Except.bind_eq_ok.1 h
    obtain ⟨⟨as', rest'⟩, has, h⟩ := Except.bind_eq_ok.1 h
    cases h
    obtain ⟨hlen, hmem⟩ := ih has
    refine ⟨congrArg (· + 1) hlen, fun a' ha' ↦ ?_⟩
    rcases List.mem_cons.1 ha' with rfl | ha'
    · exact ⟨data, data', ha⟩
    · exact hmem a' ha'

/-- Entries of one width make a string of that many times the width. -/
theorem length_flatMap_eq {w : ℕ} {f : α → List B} (h : ∀ a, (f a).length = w) (as : List α) :
    (as.flatMap f).length = w * as.length := by
  induction as with
  | nil => rfl
  | cons a as ih =>
    rw [List.flatMap_cons, List.length_append, ih, h, List.length_cons, Nat.mul_succ, Nat.add_comm]

/-- `p` decides on what it reads: it does the same in front of more input, and leaves that too. -/
def Local (p : List B → Except ε (α × List B)) : Prop :=
  ∀ data a rest, p data = .ok (a, rest) → ∀ more, p (data ++ more) = .ok (a, rest ++ more)

/-- A sequence of readers that look at their own letters only does so too. -/
theorem Local.bind {p : List B → Except ε (α × List B)} {f : α → List B → Except ε (β × List B)}
    (hp : Local p) (hf : ∀ a, Local (f a)) : Local fun data ↦ p data >>= fun r ↦ f r.1 r.2 := by
  intro data b rest h more
  obtain ⟨⟨a, data'⟩, ha, hb⟩ := Except.bind_eq_ok.1 h
  exact Except.bind_eq_ok.2 ⟨_, hp _ _ _ ha more, hf a _ _ _ hb more⟩

/-- A function of what was read looks at no further letters. -/
theorem Local.map {p : List B → Except ε (α × List B)} (hp : Local p) (f : α → β) :
    Local fun data ↦ p data >>= fun r ↦ pure (f r.1, r.2) := by
  intro data b rest h more
  obtain ⟨⟨a, data'⟩, ha, hret⟩ := Except.bind_eq_ok.1 h
  cases hret
  exact Except.bind_eq_ok.2 ⟨_, hp _ _ _ ha more, rfl⟩

theorem take_local (e : ε) (n : ℕ) : Local (take (B := B) e n) := by
  intro data a rest h more
  obtain ⟨rfl, hlen⟩ := take_eq_ok h
  rw [List.append_assoc]
  exact take_append hlen

theorem takeBlock_local (e : ε) (n : ℕ) : Local (takeBlock (B := B) e n) := by
  intro data a rest h more
  rw [takeBlock_eq_ok h, List.append_assoc]
  exact takeBlock_append e a _

/-- A repeated reader looks at its own letters only when each round does. -/
theorem takeMany_local {p : List B → Except ε (α × List B)} (hp : Local p) (n : ℕ) :
    Local (takeMany p n) := by
  induction n with
  | zero =>
    intro data a rest h more
    cases h
    rfl
  | succ n ih => exact hp.bind fun a ↦ ih.map _

/-- If the input of a parser ends early, what it leaves ends early by as much. -/
theorem Local.rest_append {p : List B → Except ε (α × List B)} (hp : Local p)
    {data rest more bs tail : List B} {a b : α} (h : p data = .ok (a, rest)) (hbs : Reads p bs b)
    (heq : data ++ more = bs ++ tail) : rest ++ more = tail := by
  have hmore := hp _ _ _ h more
  rw [heq, hbs tail] at hmore
  cases hmore
  rfl

section Integers

variable [Alphabet B]

/-- A little-endian integer of `w` letters. -/
def takeLe (e : ε) (w : ℕ) (data : List B) : Except ε (ℕ × List B) := do
  let (bs, data) ← take e w data
  return (fromLe bs, data)

@[simp] theorem takeLe_append (e : ε) (w n : ℕ) (rest : List B) :
    takeLe e w (le w n ++ rest) = .ok (n % 256 ^ w, rest) := by
  simp [takeLe, bind, Except.bind, pure, Except.pure]

/-- **An integer has one encoding.** -/
theorem takeLe_eq_ok (hB : Bytes B) {e : ε} {w n : ℕ} {data rest : List B}
    (h : takeLe e w data = .ok (n, rest)) : data = le w n ++ rest ∧ n < 256 ^ w := by
  obtain ⟨⟨bs, tail⟩, htake, h⟩ := Except.bind_eq_ok.1 h
  cases h
  obtain ⟨rfl, rfl⟩ := take_eq_ok htake
  exact ⟨by rw [le_fromLe hB], fromLe_lt bs⟩

/-- An integer is below what its width can hold, and takes that many letters. -/
theorem takeLe_lt {e : ε} {w n : ℕ} {data rest : List B} (h : takeLe e w data = .ok (n, rest)) :
    n < 256 ^ w ∧ w + rest.length = data.length := by
  obtain ⟨⟨bs, tail⟩, htake, h⟩ := Except.bind_eq_ok.1 h
  cases h
  obtain ⟨rfl, rfl⟩ := take_eq_ok htake
  exact ⟨fromLe_lt bs, by rw [List.length_append]⟩

theorem takeLe_local (e : ε) (w : ℕ) : Local (takeLe (B := B) e w) := (take_local e w).map _

/-- A single tag letter, as its byte value. -/
def takeTag (e : ε) (data : List B) : Except ε (ℕ × List B) := takeLe e 1 data

@[simp] theorem takeTag_cons (e : ε) (n : ℕ) (rest : List B) :
    takeTag e (ofNat n :: rest) = .ok (n % 256, rest) := by
  have h := takeLe_append (B := B) e 1 n rest
  simpa [takeTag, le] using h

theorem takeTag_eq_ok (hB : Bytes B) {e : ε} {n : ℕ} {data rest : List B}
    (h : takeTag e data = .ok (n, rest)) : data = ofNat n :: rest ∧ n < 256 :=
  takeLe_eq_ok hB h

/-- A string with a 32-bit length in front of it, as `put_slice` writes it. The length is truncated
to 32 bits. -/
def putVec (bs : List B) : List B := le 4 bs.length ++ bs

/-- The reader of `putVec`. -/
def takeVec (e : ε) (data : List B) : Except ε (List B × List B) := do
  let (n, data) ← takeLe e 4 data
  take e n data

/-- A string of fewer than `2^32` letters is read back from its prefixed form. -/
theorem takeVec_reads (e : ε) {l : List B} (h : l.length < 2 ^ 32) :
    Reads (takeVec e) (putVec l) l := by
  intro rest
  have hn : l.length % 256 ^ 4 = l.length := Nat.mod_eq_of_lt (by omega)
  simp only [takeVec, putVec, List.append_assoc, takeLe_append, bind, Except.bind, hn]
  exact take_append rfl

/-- Only the prefixed form of a string is read as that string. -/
theorem takeVec_eq_ok (hB : Bytes B) {e : ε} {l data rest : List B}
    (h : takeVec e data = .ok (l, rest)) : data = putVec l ++ rest := by
  obtain ⟨⟨n, tail⟩, hn, h⟩ := Except.bind_eq_ok.1 h
  have htake : take e n tail = .ok (l, rest) := h
  obtain ⟨rfl, -⟩ := takeLe_eq_ok hB hn
  obtain ⟨rfl, rfl⟩ := take_eq_ok htake
  rw [putVec, List.append_assoc]

/-- A string whose length is truncated is read as one of its initial segments. -/
theorem takeVec_of_putVec {e : ε} {l l' data rest : List B}
    (h : takeVec e (putVec l ++ rest) = .ok (l', data)) :
    ∃ more, l' ++ more = l ∧ (more = [] → data = rest) := by
  simp only [takeVec, putVec, List.append_assoc, takeLe_append, bind, Except.bind] at h
  obtain ⟨happ, hlen⟩ := take_eq_ok h
  have hle : l'.length ≤ l.length := hlen.trans_le (Nat.mod_le _ _)
  obtain ⟨more, rfl⟩ := (List.prefix_of_prefix_length_le ⟨data, happ.symm⟩ ⟨rest, rfl⟩ hle)
  refine ⟨more, rfl, ?_⟩
  rintro rfl
  rw [List.append_nil, List.append_cancel_left_eq] at happ
  exact happ.symm

@[simp] theorem length_putVec (bs : List B) : (putVec bs).length = 4 + bs.length := by
  simp [putVec]

/-- An optional array behind a presence tag. -/
def putOption {n : ℕ} (b : Option (Block B n)) : List B :=
  match b with
  | none => [ofNat 0]
  | some b => ofNat 1 :: b.val

/-- A reader of `putOption` for which every tag but 1 means absence. -/
def takeOptionLoose (e : ε) (n : ℕ) (data : List B) : Except ε (Option (Block B n) × List B) := do
  let (tag, data) ← takeTag e data
  if tag = 1 then
    let (b, data) ← takeBlock e n data
    return (some b, data)
  else return (none, data)

theorem takeOptionLoose_local (e : ε) (n : ℕ) : Local (takeOptionLoose (B := B) e n) := by
  intro data a rest h more
  obtain ⟨⟨tag, data'⟩, htag, h⟩ := Except.bind_eq_ok.1 h
  refine Except.bind_eq_ok.2 ⟨_, takeLe_local e 1 _ _ _ htag more, ?_⟩
  dsimp only at h ⊢
  by_cases hone : tag = 1
  · rw [if_pos hone] at h ⊢
    exact (takeBlock_local e n).map some _ _ _ h more
  · rw [if_neg hone] at h ⊢
    cases h
    rfl

/-- A reader of `putOption` that accepts the two tags only. -/
def takeOption (e : ε) (n : ℕ) (data : List B) : Except ε (Option (Block B n) × List B) := do
  let (tag, data) ← takeTag e data
  if tag = 0 then return (none, data)
  else if tag = 1 then
    let (b, data) ← takeBlock e n data
    return (some b, data)
  else throw e

@[simp] theorem takeOptionLoose_append (e : ε) {n : ℕ} (b : Option (Block B n)) (rest : List B) :
    takeOptionLoose e n (putOption b ++ rest) = .ok (b, rest) := by
  cases b with
  | none => simp [takeOptionLoose, putOption, bind, Except.bind, pure, Except.pure]
  | some b => simp [takeOptionLoose, putOption, bind, Except.bind, pure, Except.pure]

@[simp] theorem takeOption_append (e : ε) {n : ℕ} (b : Option (Block B n)) (rest : List B) :
    takeOption e n (putOption b ++ rest) = .ok (b, rest) := by
  cases b with
  | none => simp [takeOption, putOption, bind, Except.bind, pure, Except.pure]
  | some b => simp [takeOption, putOption, bind, Except.bind, pure, Except.pure]

/-- An option of a block takes one letter more than the block, at most. -/
theorem length_putOption_le {n : ℕ} (b : Option (Block B n)) : (putOption b).length ≤ n + 1 := by
  cases b with
  | none => simp [putOption]
  | some b => simp [putOption]

end Integers

end Cursor
