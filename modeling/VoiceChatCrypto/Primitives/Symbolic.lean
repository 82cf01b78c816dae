import VoiceChatCrypto.Primitives.Ideal

/-!
# Symbolic primitives

A model of the idealised primitives in which everything computes: letters are binary trees over the
natural numbers, a derived key is the tree of its inputs, and Diffie–Hellman multiplies. It
witnesses that the assumptions of `Primitives/Ideal.lean` can be met together, and it is what the
concrete runs of this development are evaluated on.
-/

open Alphabet

namespace VoiceChatCrypto

/-- Symbolic letters. A block is filled with the term it was computed from, so that the ideal
assumptions hold without a computation. -/
inductive Sym
  | lit (n : ℕ)
  | pair (a b : Sym)
  deriving DecidableEq

/-- Byte values are the literals below 256. -/
instance : Alphabet Sym where
  decEq := inferInstance
  ofNat n := .lit (n % 256)
  toNat
    | .lit n => n % 256
    | .pair _ _ => 0
  toNat_lt b := by
    cases b with
    | lit n => exact Nat.mod_lt _ (by decide)
    | pair a b => exact (by decide : 0 < 256)
  toNat_ofNat n := Nat.mod_mod n 256

namespace Sym

/-- A string as one letter. -/
def ofList : List Sym → Sym
  | [] => .lit 0
  | x :: xs => .pair x (ofList xs)

theorem ofList_injective : Function.Injective ofList := by
  intro xs ys h
  induction xs generalizing ys with
  | nil =>
    cases ys with
    | nil => rfl
    | cons y ys => cases h
  | cons x xs ih =>
    cases ys with
    | nil => cases h
    | cons y ys =>
      simp only [ofList, Sym.pair.injEq] at h
      rw [h.1, ih h.2]

/-- A tagged tuple of strings as one letter. -/
def node (tag : ℕ) (xs : List (List Sym)) : Sym := .pair (.lit tag) (ofList (xs.map ofList))

/-- Constructor and arguments can be read off a word. -/
theorem node_inj {tag tag' : ℕ} {xs ys : List (List Sym)} (h : node tag xs = node tag' ys) :
    tag = tag' ∧ xs = ys := by
  simp only [node, Sym.pair.injEq, Sym.lit.injEq] at h
  exact ⟨h.1, List.map_injective_iff.2 ofList_injective (ofList_injective h.2)⟩

/-- An array that starts with the given letter. -/
def block (n : ℕ) (x : Sym) : Block Sym (n + 1) :=
  ⟨x :: List.replicate n (.lit 0), by simp⟩

theorem block_injective (n : ℕ) : Function.Injective (block n) := by
  intro x y h
  have hval := congrArg Subtype.val h
  exact (List.cons.inj hval).1

/-- A positive number read off a secret. -/
def exponent : List Sym → ℕ
  | .lit n :: _ => n + 1
  | _ => 1

/-- Exponents are positive, so that no public key is zero. -/
theorem exponent_pos (xs : List Sym) : 0 < exponent xs := by
  unfold exponent
  split <;> omega

/-- The number in a public key. -/
def point : List Sym → Option ℕ
  | .pair (.lit 3) (.lit n) :: _ => some n
  | _ => none

/-- The ciphertext of a plaintext: a tag that names everything, then the plaintext. -/
def ciphertext (key : Block Sym 32) (nonce : Block Sym 12) (pt ad : List Sym) : List Sym :=
  node 5 [key.val, nonce.val, pt, ad] :: (List.replicate 15 (.lit 0) ++ pt)

/-- The KEM secret named by a ciphertext for a key. -/
def decapsulate (pk : List Sym) : List Sym → Block Sym 32
  | .pair (.lit 8) (.pair pk' coins) :: _ =>
    if pk' = ofList pk then block 31 (.pair (.lit 7) (.pair pk' coins)) else block 31 (.lit 7)
  | _ => block 31 (.lit 7)

end Sym

open VoiceChatCrypto.Sym in
/-- The symbolic primitives. -/
def symbolic : Primitives Sym where
  publicKey s := block 31 (.pair (.lit 3) (.lit (exponent s.val)))
  diffieHellman s p :=
    match point p.val with
    | some n => block 31 (.pair (.lit 4) (.lit (exponent s.val * n)))
    | none => block 31 (.lit 4)
  hkdfBlock salt ikm info i := block 31 (node 1 [salt, ikm, info, [.lit i]])
  hmacSha256 key msg := block 31 (node 2 [key, msg])
  aeadEncrypt key nonce pt ad := some (ciphertext key nonce pt ad)
  aeadDecrypt key nonce ct ad :=
    if ct = ciphertext key nonce (ct.drop 16) ad then some (ct.drop 16) else none
  kemPublic seed := block 1183 (node 6 [seed.val])
  kemValid _ := true
  kemEncapsulate pk coins :=
    (block 31 (node 7 [pk.val, coins.val]), block 1087 (node 8 [pk.val, coins.val]))
  kemDecapsulate seed ct := decapsulate (block 1183 (node 6 [seed.val])).val ct.val
  sha3 msg := block 31 (node 9 [msg])
  gHash m h := (block 31 (node 10 [m.val, h.val]), block 31 (node 11 [m.val, h.val]))
  pkeEncryptCt1 rho r m := block 959 (node 12 [rho.val, r.val, m.val])
  pkeEncryptCt2 t r m := block 127 (node 13 [t, r.val, m.val])
  xeddsaSign secret msg _ := block 63 (node 14 [(block 31 (.pair (.lit 3)
    (.lit (exponent secret.val)))).val, msg])
  xeddsaVerify pk msg sig := decide (sig = block 63 (node 14 [pk.val, msg]))

namespace Symbolic

open VoiceChatCrypto.Sym

/-- The symbolic key derivation is injective, as its terms are. -/
theorem idealKdf : IdealKdf symbolic where
  hkdf_inj _ _ h := by
    obtain ⟨-, hargs⟩ := node_inj (block_injective 31 h)
    simp only [List.cons.injEq, Sym.lit.injEq, and_true] at hargs
    exact hargs
  hmac_inj _ _ h := by
    obtain ⟨-, hargs⟩ := node_inj (block_injective 31 h)
    simp only [List.cons.injEq, and_true] at hargs
    exact hargs
  hkdf_ne_hmac _ _ _ _ _ _ h := by
    obtain ⟨htag, -⟩ := node_inj (block_injective 31 h)
    cases htag

/-- Symbolic exponents commute under multiplication. -/
theorem idealDh : IdealDh symbolic where
  comm a b := by
    show block 31 (.pair (.lit 4) (.lit (exponent a.val * exponent b.val))) =
      block 31 (.pair (.lit 4) (.lit (exponent b.val * exponent a.val)))
    rw [Nat.mul_comm]
  inj {a x y} h := by
    have hlit := block_injective 31 h
    simp only [Sym.pair.injEq, Sym.lit.injEq, true_and] at hlit
    have hxy := Nat.eq_of_mul_eq_mul_left (exponent_pos a.val) hlit
    show block 31 (.pair (.lit 3) (.lit (exponent x.val))) =
      block 31 (.pair (.lit 3) (.lit (exponent y.val)))
    rw [hxy]
  publicKey_ne_zero a h := by
    have hhead := List.cons.inj (congrArg Subtype.val h)
    exact Sym.noConfusion hhead.1

/-- Symbolic encryption keeps its arguments inside the ciphertext, where decryption finds them. -/
theorem idealAead : IdealAead symbolic where
  decrypt_encrypt {key nonce pt ad ct} h := by
    cases h
    have hdrop : (ciphertext key nonce pt ad).drop 16 = pt := by
      simp [ciphertext]
    simp only [symbolic, hdrop, if_true]
  length_encrypt {key nonce pt ad ct} h := by
    cases h
    simp only [ciphertext, List.length_cons, List.length_append, List.length_replicate]
    omega

theorem openLength : OpenLength symbolic := by
  intro key nonce pt ad ct h
  simp only [symbolic] at h
  split at h
  · rename_i heq
    cases h
    have hlen := congrArg List.length heq
    simp only [ciphertext, List.length_cons, List.length_append, List.length_replicate] at hlen
    omega
  · cases h

theorem oneKey : OneKey symbolic := by
  intro key key' nonce nonce' pt pt' ad ad' ct hseal hopen
  cases hseal
  simp only [symbolic] at hopen
  split at hopen
  · rename_i heq
    obtain ⟨-, hargs⟩ := node_inj (List.cons.inj heq).1
    exact Subtype.ext (List.cons.inj hargs).1
  · cases hopen

theorem idealKem : IdealKem symbolic where
  valid _ := rfl
  decapsulate _ _ := if_pos rfl

theorem signatureCorrect : SignatureCorrect symbolic :=
  fun _ _ _ ↦ decide_eq_true rfl

theorem sealTotal : SealTotal symbolic := fun _ _ _ _ ↦ ⟨_, rfl⟩

end Symbolic

end VoiceChatCrypto
