import Mathlib.LinearAlgebra.Lagrange
import VoiceChatCrypto.Braid.Field

/-!
# Any `k` chunks give the message

The Reed–Solomon code of `src/ratchet/braid/rs.rs` is correct: a decoder that has been given chunks of
one message, in any order and with repetitions, holds that message or none. Both ways of decoding are
covered, from all systematic chunks and by interpolation.

`lagrange_eval` is Mathlib's interpolation polynomial over the field of `Field.lean`, as long as its
points differ. The chunk indices are 16-bit words and the points their successors, so they differ
whenever the indices do.

Interpolation goes through the byte values of letters, so it needs an alphabet whose letters are
determined by their values (`Bytes`). The systematic part does not.
-/

open Alphabet Polynomial

namespace VoiceChatCrypto

/-! ### Interpolation -/

section Interpolation

variable {k : ℕ} {xAt yAt : ℕ → UInt16}

/-- The points of an interpolation are distinct, so that no factor of the Lagrange product divides
by zero. -/
def Distinct (k : ℕ) (xAt : ℕ → UInt16) : Prop := Set.InjOn xAt (Finset.range k)

/-- Distinct points differ by something that can be inverted. -/
theorem Distinct.ne (h : Distinct k xAt) {i j : ℕ} (hi : i < k) (hj : j < k) (hij : i ≠ j) :
    xAt i ^^^ xAt j ≠ 0 := by
  intro hzero
  exact hij (h (Finset.mem_coe.2 (Finset.mem_range.2 hi)) (Finset.mem_coe.2 (Finset.mem_range.2 hj))
    (UInt16.xor_eq_zero_iff.1 hzero))

/-- One Lagrange factor is the value of a basis polynomial. -/
theorem lagrangeFactor_eq (h : Distinct k xAt) (x : UInt16) {i : ℕ} (hi : i < k) :
    ∃ li, lagrangeFactor k xAt x i = some li ∧
      Gf.of li = (Lagrange.basis (Finset.range k) (fun i ↦ Gf.of (xAt i)) i).eval (Gf.of x) := by
  -- the first `n` rounds of the loop
  have hloop : ∀ n ≤ k, ∃ li, (List.range n).foldlM (fun li j ↦
      if i = j then some li
      else if xAt i ^^^ xAt j = 0 then none
      else some (gfMul li (gfMul (x ^^^ xAt j) (gfInv (xAt i ^^^ xAt j))))) 1 = some li ∧
      Gf.of li = ∏ j ∈ Finset.range n, if i = j then 1 else
        (Lagrange.basisDivisor (Gf.of (xAt i)) (Gf.of (xAt j))).eval (Gf.of x) := by
    intro n
    induction n with
    | zero => exact fun _ ↦ ⟨1, rfl, rfl⟩
    | succ n ih =>
      intro hn
      obtain ⟨li, hli, hval⟩ := ih (by omega)
      rw [List.range_succ, List.foldlM_append, hli, Finset.prod_range_succ, ← hval]
      by_cases hin : i = n
      · exact ⟨li, by simp [hin], by simp [hin]⟩
      · have hne := h.ne hi hn hin
        refine ⟨gfMul li (gfMul (x ^^^ xAt n) (gfInv (xAt i ^^^ xAt n))), ?_, ?_⟩
        · simp only [List.foldlM_cons, List.foldlM_nil, hin, if_false, hne, Option.bind_eq_bind,
            Option.bind_some, Option.pure_def]
        · rw [if_neg hin, Gf.of_gfMul, Gf.of_gfMul, Gf.of_gfInv hne, Gf.of_xor, Gf.of_xor,
            Lagrange.basisDivisor, eval_mul, eval_C, eval_sub, eval_X, eval_C, Gf.sub_eq_add,
            Gf.sub_eq_add, mul_comm (Gf.of x + Gf.of (xAt n))]
  obtain ⟨li, hli, hval⟩ := hloop k (le_refl k)
  refine ⟨li, hli, ?_⟩
  rw [hval, Lagrange.basis, eval_prod]
  have herase := Finset.prod_erase (Finset.range k) (a := i) (f := fun j ↦ if i = j then 1 else
    (Lagrange.basisDivisor (Gf.of (xAt i)) (Gf.of (xAt j))).eval (Gf.of x)) (if_pos rfl)
  rw [← herase]
  refine Finset.prod_congr rfl fun j hj ↦ ?_
  rw [if_neg (Finset.ne_of_mem_erase hj).symm]

/-- **`lagrange_eval` evaluates the interpolation polynomial** of Mathlib, when its points are
distinct; the check for equal points then never fires. -/
theorem lagrangeEval_eq (h : Distinct k xAt) (yAt : ℕ → UInt16) (x : UInt16) :
    Gf.of (lagrangeEval k xAt yAt x) = (Lagrange.interpolate (Finset.range k)
      (fun i ↦ Gf.of (xAt i)) fun i ↦ Gf.of (yAt i)).eval (Gf.of x) := by
  have hloop : ∀ n ≤ k, ∃ acc, (List.range n).foldlM (fun acc i ↦
      (lagrangeFactor k xAt x i).map fun li ↦ acc ^^^ gfMul (yAt i) li) 0 = some acc ∧
      Gf.of acc = ∑ i ∈ Finset.range n, Gf.of (yAt i) *
        (Lagrange.basis (Finset.range k) (fun i ↦ Gf.of (xAt i)) i).eval (Gf.of x) := by
    intro n
    induction n with
    | zero => exact fun _ ↦ ⟨0, rfl, rfl⟩
    | succ n ih =>
      intro hn
      obtain ⟨acc, hacc, hval⟩ := ih (by omega)
      obtain ⟨li, hli, hbasis⟩ := lagrangeFactor_eq h x hn
      refine ⟨acc ^^^ gfMul (yAt n) li, ?_, ?_⟩
      · simp [List.range_succ, List.foldlM_append, hacc, hli]
      · rw [Finset.sum_range_succ, ← hval, ← hbasis]
        rfl
  obtain ⟨acc, hacc, hval⟩ := hloop k (le_refl k)
  rw [lagrangeEval, hacc, Option.getD_some, hval, Lagrange.interpolate_apply, eval_finsetSum]
  refine Finset.sum_congr rfl fun i _ ↦ ?_
  rw [eval_mul, eval_C]

/-- Distinct points are an injective family, as the interpolation lemmas of Mathlib want it. -/
theorem Distinct.injOn (h : Distinct k xAt) :
    Set.InjOn (fun i ↦ Gf.of (xAt i)) (Finset.range k) := h

/-- At a point of the interpolation, the value there. -/
theorem lagrangeEval_node (h : Distinct k xAt) (yAt : ℕ → UInt16) {i : ℕ} (hi : i < k) :
    lagrangeEval k xAt yAt (xAt i) = yAt i :=
  (lagrangeEval_eq h yAt (xAt i)).trans
    (Lagrange.eval_interpolate_at_node _ h.injOn (Finset.mem_range.2 hi))

/-- **Interpolating values of an interpolation gives it back**, whatever the points. -/
theorem lagrangeEval_lagrangeEval {xAt' : ℕ → UInt16} (h : Distinct k xAt) (h' : Distinct k xAt')
    (yAt : ℕ → UInt16) {yAt' : ℕ → UInt16}
    (hy : ∀ i < k, yAt' i = lagrangeEval k xAt yAt (xAt' i)) (x : UInt16) :
    lagrangeEval k xAt' yAt' x = lagrangeEval k xAt yAt x := by
  have hdegree : (Lagrange.interpolate (Finset.range k) (fun i ↦ Gf.of (xAt i))
      fun i ↦ Gf.of (yAt i)).degree < (Finset.range k).card :=
    Lagrange.degree_interpolate_lt _ h.injOn
  have hvalues : ∀ i ∈ Finset.range k, (Lagrange.interpolate (Finset.range k)
      (fun i ↦ Gf.of (xAt i)) fun i ↦ Gf.of (yAt i)).eval (Gf.of (xAt' i)) = Gf.of (yAt' i) := by
    intro i hi
    rw [← lagrangeEval_eq h, hy i (Finset.mem_range.1 hi)]
  have hpoly := Lagrange.eq_interpolate_of_eval_eq _ h'.injOn hdegree hvalues
  refine (lagrangeEval_eq h' yAt' x).trans ?_
  rw [← hpoly]
  exact (lagrangeEval_eq h yAt x).symm

end Interpolation

/-! ### Symbols -/

variable {B : Type} [Alphabet B]

/-- Where letters are bytes, a symbol is the number it stands for. -/
theorem symbolOf_symbolValue (hB : Bytes B) (s : B × B) : symbolOf (symbolValue s) = s := by
  have h1 := toNat_lt s.1
  have h2 := toNat_lt s.2
  have hval : (symbolValue s).toNat = 256 * toNat s.1 + toNat s.2 := by
    rw [symbolValue, UInt16.toNat_ofNat']
    omega
  have hhigh : (ofNat ((256 * toNat s.1 + toNat s.2) / 256) : B) = s.1 := by
    rw [show (256 * toNat s.1 + toNat s.2) / 256 = toNat s.1 by omega, hB]
  have hlow : (ofNat (256 * toNat s.1 + toNat s.2) : B) = s.2 := by
    rw [← hB (ofNat _), toNat_ofNat, show (256 * toNat s.1 + toNat s.2) % 256 = toNat s.2 by omega, hB]
  rw [symbolOf, hval, hhigh, hlow]

theorem symbolValue_symbolOf (v : UInt16) : symbolValue (symbolOf v : B × B) = v := by
  have hv := v.toNat_lt
  apply UInt16.toNat_inj.1
  rw [symbolValue, symbolOf, toNat_ofNat, toNat_ofNat, UInt16.toNat_ofNat']
  omega

theorem toSymbols_drop (l : List B) (h : l.length % 2 = 0) (n : ℕ) :
    toSymbols (l.drop (2 * n)) = (toSymbols l).drop n := by
  induction l using toSymbols.induct generalizing n with
  | case1 => simp [toSymbols]
  | case2 a => simp at h
  | case3 a b bs ih =>
    cases n with
    | zero => rfl
    | succ n =>
      have heven : bs.length % 2 = 0 := by
        simp only [List.length_cons] at h
        omega
      exact ih heven n

theorem toSymbols_take (l : List B) (h : l.length % 2 = 0) (n : ℕ) :
    toSymbols (l.take (2 * n)) = (toSymbols l).take n := by
  induction l using toSymbols.induct generalizing n with
  | case1 => simp [toSymbols]
  | case2 a => simp at h
  | case3 a b bs ih =>
    cases n with
    | zero => rfl
    | succ n =>
      have heven : bs.length % 2 = 0 := by
        simp only [List.length_cons] at h
        omega
      have hrest := ih heven n
      rw [toSymbols, List.take_succ_cons, ← hrest]
      rfl

omit [Alphabet B] in
/-- The letters of a sequence of symbols, one by one. -/
theorem getD_ofSymbols (ss : List (B × B)) (n : ℕ) (z : B) :
    ((ofSymbols ss).getD (2 * n) z, (ofSymbols ss).getD (2 * n + 1) z) = ss.getD n (z, z) := by
  induction ss generalizing n with
  | nil => simp [ofSymbols]
  | cons s ss ih =>
    cases n with
    | zero => rfl
    | succ n => exact ih n

/-! ### Rows -/

/-- A message of `k` whole chunks. All messages of the protocol are; the general case is reduced to
this one by filling up. -/
structure Chunked (k : ℕ) (msg : List B) : Prop where
  /-- The last chunk is full. -/
  length : msg.length = 32 * k
  /-- There is at least one chunk. -/
  pos : 0 < k
  /-- Each chunk has an index of its own. -/
  le : k ≤ 65536

/-- The symbols of chunk `idx` of a message. -/
def row (msg : List B) (idx : UInt16) : List B := (Encoder.new msg).symbolRow idx

/-- Chunk `idx` of a message, as it is sent. -/
def chunk (msg : List B) (idx : UInt16) : List B := be 2 idx.toNat ++ row msg idx

/-- The points of the systematic chunks. -/
def systematicPoint (i : ℕ) : UInt16 := evalPoint (UInt16.ofNat i)

/-- Column `col` of a message. -/
def column (msg : List B) (col i : ℕ) : UInt16 :=
  symbolValue ((toSymbols msg).getD (i * syms + col) (ofNat 0, ofNat 0))

variable {k : ℕ} {msg : List B}

omit [Alphabet B] in
theorem Chunked.even (h : Chunked k msg) : msg.length % 2 = 0 := by
  have := h.length
  omega

omit [Alphabet B] in
theorem Chunked.chunkCount (h : Chunked k msg) : chunkCount msg.length = k := by
  have := h.length
  have := h.pos
  unfold VoiceChatCrypto.chunkCount
  omega

/-- The encoder of a message of whole chunks needs no padding. -/
theorem Chunked.encoder (h : Chunked k msg) :
    Encoder.new msg = { data := toSymbols msg, kChunks := k, next := 0 } := by
  have hpad : k * chunkData - msg.length = 0 := by
    have := h.length
    unfold chunkData
    omega
  unfold Encoder.new
  simp only [h.chunkCount, hpad, List.replicate_zero, List.append_nil]

/-- Different indices are evaluated at different points. -/
theorem evalPoint_inj {a b : UInt16} (h : evalPoint a = evalPoint b) : a = b := by
  unfold evalPoint at h
  simpa using h

/-- The points of the message's own chunks are distinct. -/
theorem distinct_systematicPoint (hk : k ≤ 65536) : Distinct k systematicPoint := by
  intro i hi j hj heq
  have hi := Finset.mem_range.1 (Finset.mem_coe.1 hi)
  have hj := Finset.mem_range.1 (Finset.mem_coe.1 hj)
  have hval := congrArg UInt16.toNat (evalPoint_inj heq)
  rw [UInt16.toNat_ofNat', UInt16.toNat_ofNat'] at hval
  omega

/-- The symbols of a piece of the message. -/
theorem Chunked.ofSymbols_piece (h : Chunked k msg) (i : ℕ) :
    ofSymbols (((toSymbols msg).drop (i * syms)).take syms) = (msg.drop (32 * i)).take 32 := by
  have hdrop : (msg.drop (2 * (i * syms))).length % 2 = 0 := by
    have := h.length
    rw [List.length_drop]
    unfold syms
    omega
  have htake : ((msg.drop (2 * (i * syms))).take (2 * syms)).length % 2 = 0 := by
    rw [List.length_take]
    unfold syms at hdrop ⊢
    omega
  rw [← toSymbols_drop msg h.even, ← toSymbols_take _ hdrop, ofSymbols_toSymbols htake]
  congr 2
  unfold syms
  omega

/-- A systematic row is a piece of the message. -/
theorem Chunked.row_of_lt (h : Chunked k msg) {idx : UInt16} (hidx : idx.toNat < k) :
    row msg idx = (msg.drop (32 * idx.toNat)).take 32 := by
  rw [row, h.encoder, Encoder.symbolRow, if_pos hidx]
  exact h.ofSymbols_piece _

/-- **Every row is a value of the columns' polynomials**, the systematic ones too. -/
theorem Chunked.row_value (h : Chunked k msg) (idx : UInt16) {col : ℕ} (hcol : col < syms) :
    symbolValue ((row msg idx).getD (2 * col) (ofNat 0), (row msg idx).getD (2 * col + 1) (ofNat 0)) =
      lagrangeEval k systematicPoint (column msg col) (evalPoint idx) := by
  rw [row, h.encoder, Encoder.symbolRow]
  split
  · rename_i hidx
    have hnode := lagrangeEval_node (distinct_systematicPoint h.le) (column msg col) hidx
    rw [systematicPoint, UInt16.ofNat_toNat] at hnode
    rw [getD_ofSymbols, hnode, column]
    congr 1
    rw [List.getD_eq_getElem?_getD, List.getD_eq_getElem?_getD, List.getElem?_take,
      if_pos hcol, List.getElem?_drop]
  · rw [getD_ofSymbols, List.getD_eq_getElem?_getD, List.getElem?_map, List.getElem?_range hcol]
    exact symbolValue_symbolOf _

/-- Every row has the length of a chunk, also of a message that is not a multiple of it. -/
theorem length_row (msg : List B) (idx : UInt16) : (row msg idx).length = 32 := by
  have hlen := Encoder.length_nextChunk (e := { Encoder.new msg with next := idx })
    (Encoder.new_whole msg)
  rw [Encoder.nextChunk, List.length_append, length_be] at hlen
  have hwire : chunkWire = 34 := rfl
  rw [hwire] at hlen
  exact Nat.add_left_cancel hlen

omit [Alphabet B] in
/-- The pieces of a message, put together. -/
theorem flatMap_pieces (n : ℕ) :
    ((List.range n).flatMap fun i ↦ (msg.drop (32 * i)).take 32) = msg.take (32 * n) := by
  induction n with
  | zero => rfl
  | succ n ih =>
    rw [List.range_succ, List.flatMap_append, ih, List.flatMap_singleton, Nat.mul_succ,
      List.take_add]

/-! ### Encoding and decoding -/

namespace Encoder

/-- An encoder that has been set up for a message. Its position may be anywhere, for it moves on
with every chunk. -/
def Carries (e : Encoder B) (msg : List B) : Prop :=
  e.data = (new msg).data ∧ e.kChunks = (new msg).kChunks

theorem new_carries (msg : List B) : (new msg).Carries msg := ⟨rfl, rfl⟩

/-- An encoder of a message yields the message's chunk, and still carries it. -/
theorem Carries.nextChunk {e : Encoder B} (h : e.Carries msg) :
    e.nextChunk.1 = chunk msg e.next ∧ e.nextChunk.2.Carries msg := by
  obtain ⟨data, kChunks, next⟩ := e
  obtain ⟨hdata, hk⟩ := h
  cases hdata
  cases hk
  exact ⟨rfl, rfl, rfl⟩

end Encoder

namespace Decoder

/-- A decoder that has been given chunks of a message, in any order and with repetitions, and
nothing else. -/
structure Collects (d : Decoder B) (msg : List B) : Prop where
  /-- The decoder knows how long the message is. -/
  messageLen : d.messageLen = msg.length
  /-- It knows how many chunks are enough. -/
  kChunks : d.kChunks = chunkCount msg.length
  /-- Everything it holds is a row of the message, under the row's index. -/
  got : ∀ e ∈ d.got.entries, e.2.val = row msg e.1
  /-- What it has decoded is the message. -/
  decoded : ∀ m, d.decoded = some m → m = msg

/-- A new decoder holds nothing that is not of the message. -/
theorem new_collects (msg : List B) : (new msg.length : Decoder B).Collects msg where
  messageLen := rfl
  kChunks := rfl
  got := nofun
  decoded := nofun

variable {d : Decoder B}

theorem mem_of_find {K V : Type} [LinearOrder K] {k : K} {v : V} {es : List (K × V)}
    (h : BTree.find k es = some v) : (k, v) ∈ es := by
  induction es with
  | nil => cases h
  | cons e es ih =>
    unfold BTree.find at h
    split at h
    · rename_i heq
      cases h
      rw [← heq]
      exact List.mem_cons_self
    · exact List.mem_cons_of_mem _ (ih h)

omit [Alphabet B] in
theorem flatMap_of_mapM {α β : Type} {l : List α} {f : α → Option β} {ps : List β}
    {v : β → List B} {g : α → List B} (h : ∀ a ∈ l, ∀ b, f a = some b → v b = g a)
    (hm : l.mapM f = some ps) : ps.flatMap v = l.flatMap g := by
  induction l generalizing ps with
  | nil =>
    cases hm
    rfl
  | cons a l ih =>
    rw [List.mapM_cons] at hm
    obtain ⟨b, hb, hm⟩ := Option.bind_eq_some_iff.1 hm
    obtain ⟨bs, hbs, hm⟩ := Option.bind_eq_some_iff.1 hm
    cases hm
    rw [List.flatMap_cons, List.flatMap_cons, h a List.mem_cons_self b hb,
      ih (fun a ha ↦ h a (List.mem_cons_of_mem _ ha)) hbs]

/-- All systematic chunks give the message. -/
theorem Collects.systematic (hd : d.Collects msg) (h : Chunked k msg) {m : List B}
    (hm : d.systematic = some m) : m = msg := by
  unfold Decoder.systematic at hm
  obtain ⟨ps, hps, rfl⟩ := Option.map_eq_some_iff.1 hm
  have hk : d.kChunks = k := hd.kChunks.trans h.chunkCount
  have hpiece : ∀ i ∈ List.range d.kChunks, ∀ p : Block B 32,
      d.got.get? (UInt16.ofNat i) = some p → p.val = (msg.drop (32 * i)).take 32 := by
    intro i hi p hp
    rw [hk, List.mem_range] at hi
    have hval : (UInt16.ofNat i).toNat = i := by
      have := h.le
      rw [UInt16.toNat_ofNat']
      omega
    have hrow := hd.got _ (mem_of_find hp)
    rw [hrow, h.row_of_lt (by rw [hval]; exact hi), hval]
  rw [flatMap_of_mapM hpiece hps, flatMap_pieces, hk, hd.messageLen, ← h.length, List.take_length,
    List.take_length]

section Interpolated

variable {pts : List (UInt16 × Block B 32)}

/-- The points of a list of chunks. -/
def pointAt (pts : List (UInt16 × Block B 32)) (t : ℕ) : UInt16 :=
  (pts[t]?.map fun p ↦ evalPoint p.1).getD 0

/-- Column `col` of a list of chunks. -/
def columnAt (pts : List (UInt16 × Block B 32)) (col t : ℕ) : UInt16 :=
  (pts[t]?.map fun p ↦ symbolValue (p.2.val.getD (2 * col) (ofNat 0),
    p.2.val.getD (2 * col + 1) (ofNat 0))).getD 0

omit [Alphabet B] in
/-- The points a decoder interpolates from are distinct, for its indices are sorted. -/
theorem distinct_pointAt (hsorted : pts.Pairwise fun a b ↦ a.1 < b.1) :
    Distinct pts.length (pointAt pts) := by
  intro s hs t ht heq
  have hs := Finset.mem_range.1 (Finset.mem_coe.1 hs)
  have ht := Finset.mem_range.1 (Finset.mem_coe.1 ht)
  rw [pointAt, pointAt, List.getElem?_eq_getElem hs, List.getElem?_eq_getElem ht] at heq
  have hkey := evalPoint_inj heq
  have hlt := List.pairwise_iff_getElem.1 hsorted
  rcases Nat.lt_trichotomy s t with h | h | h
  · exact absurd hkey (hlt s t hs ht h).ne
  · exact h
  · exact absurd hkey.symm (hlt t s ht hs h).ne

/-- **Each received symbol is a value of the interpolation polynomial of its column.** -/
theorem columnAt_eq (h : Chunked k msg) (hrows : ∀ e ∈ pts, e.2.val = row msg e.1) {col t : ℕ}
    (hcol : col < syms) (ht : t < pts.length) : columnAt pts col t =
      lagrangeEval k systematicPoint (column msg col) (pointAt pts t) := by
  rw [columnAt, pointAt, List.getElem?_eq_getElem ht, Option.map_some, Option.map_some,
    Option.getD_some, Option.getD_some, hrows _ (List.getElem_mem ht), h.row_value _ hcol]

/-- Interpolating chunks gives the symbols of the message. -/
theorem lagrangeEval_columnAt (h : Chunked k msg) (hlen : pts.length = k)
    (hsorted : pts.Pairwise fun a b ↦ a.1 < b.1) (hrows : ∀ e ∈ pts, e.2.val = row msg e.1)
    {col i : ℕ} (hcol : col < syms) (hi : i < k) :
    lagrangeEval k (pointAt pts) (columnAt pts col) (systematicPoint i) = column msg col i := by
  have hdistinct : Distinct k (pointAt pts) := hlen ▸ distinct_pointAt hsorted
  have hsystematic : Distinct k systematicPoint := distinct_systematicPoint h.le
  rw [lagrangeEval_lagrangeEval hsystematic hdistinct (column msg col)
    fun t ht ↦ columnAt_eq h hrows hcol (by omega)]
  exact lagrangeEval_node hsystematic _ hi

end Interpolated

/-- **Any `k` chunks give the message**, by interpolation: each column of symbols is a polynomial of
degree below `k`, and `k` of its values determine it. -/
theorem Collects.interpolated (hB : Bytes B) (hd : d.Collects msg) (h : Chunked k msg)
    (hsize : d.kChunks ≤ d.got.size) : d.interpolated = msg := by
  have hk : d.kChunks = k := hd.kChunks.trans h.chunkCount
  have hlen : (d.got.entries.take k).length = k := by
    rw [hk] at hsize
    rw [List.length_take]
    exact Nat.min_eq_left hsize
  have hsorted : (d.got.entries.take k).Pairwise fun a b ↦ a.1 < b.1 :=
    d.got.sorted.sublist (List.take_sublist _ _)
  have hrows : ∀ e ∈ d.got.entries.take k, e.2.val = row msg e.1 :=
    fun e he ↦ hd.got e (List.mem_of_mem_take he)
  have hpiece : ∀ i ∈ List.range k, ofSymbols ((List.range syms).map fun col ↦ (symbolOf
      (lagrangeEval k (pointAt (d.got.entries.take k)) (columnAt (d.got.entries.take k) col)
        (systematicPoint i)) : B × B)) = (msg.drop (32 * i)).take 32 := by
    intro i hi
    have hi := List.mem_range.1 hi
    rw [← h.ofSymbols_piece]
    congr 1
    have hsymbols : (toSymbols msg).length = syms * k := by
      have := length_toSymbols h.even
      have := h.length
      unfold syms
      omega
    apply List.ext_getElem
    · rw [List.length_map, List.length_range, List.length_take, List.length_drop, hsymbols]
      unfold syms
      omega
    · intro col hcol hcol'
      rw [List.length_map, List.length_range] at hcol
      have hbound : i * syms + col < (toSymbols msg).length := by
        rw [hsymbols]
        unfold syms at hcol ⊢
        omega
      rw [List.getElem_map, List.getElem_range, lagrangeEval_columnAt h hlen hsorted hrows hcol hi,
        column, symbolOf_symbolValue hB, List.getElem_take, List.getElem_drop,
        List.getD_eq_getElem?_getD, List.getElem?_eq_getElem hbound, Option.getD_some]
  have hrows' : d.interpolated = (((List.range k).map fun i ↦ ofSymbols ((List.range syms).map
      fun col ↦ (symbolOf (lagrangeEval k (pointAt (d.got.entries.take k))
        (columnAt (d.got.entries.take k) col) (systematicPoint i)) : B × B))).flatMap id).take
          d.messageLen := by
    rw [← hk]
    rfl
  rw [hrows', List.flatMap_map]
  have hjoin := List.flatMap_congr hpiece
  simp only [id] at hjoin ⊢
  rw [hjoin, flatMap_pieces, hd.messageLen, ← h.length, List.take_length, List.take_length]

/-- **With enough chunks, what is decoded is the message**, directly or by interpolation. -/
theorem Collects.tryDecode (hB : Bytes B) (hd : d.Collects msg) (h : Chunked k msg)
    (hsize : d.kChunks ≤ d.got.size) : d.tryDecode.Collects msg := by
  unfold Decoder.tryDecode
  split
  · rename_i m hm
    refine ⟨hd.messageLen, hd.kChunks, hd.got, fun m' hm' ↦ ?_⟩
    cases hm'
    exact hd.systematic h hm
  · rw [if_neg (by omega)]
    refine ⟨hd.messageLen, hd.kChunks, hd.got, fun m' hm' ↦ ?_⟩
    cases hm'
    exact hd.interpolated hB h hsize

/-- **A decoder that is given chunks of a message** has that message or none, and never fails. -/
theorem Collects.addChunk (hB : Bytes B) (hd : d.Collects msg) (h : Chunked k msg) (idx : UInt16) :
    ∃ d', d.addChunk (chunk msg idx) = .ok d' ∧ d'.Collects msg := by
  refine ⟨_, addChunk_be d idx ⟨row msg idx, length_row msg idx⟩, ?_⟩
  have hgot : ∀ e ∈ (d.got.insert idx ⟨row msg idx, length_row msg idx⟩).entries,
      e.2.val = row msg e.1 := by
    intro e he
    rcases BTree.mem_place he with rfl | he
    · rfl
    · exact hd.got e he
  dsimp only
  split
  · rename_i hfull
    exact Collects.tryDecode hB ⟨hd.messageLen, hd.kChunks, hgot, hd.decoded⟩ h hfull.1
  · exact ⟨hd.messageLen, hd.kChunks, hgot, hd.decoded⟩

end Decoder

end VoiceChatCrypto
