import VoiceChatCrypto.Engine.Stored

/-!
# One-time prekeys over whole runs

A one-time prekey is gone once a packet has used it, also after a crash. What makes that true is not
the store in memory alone: a reload puts the *stored* store back, so the argument is about both. Every
reachable engine has a **base**, the store a reload would put in place, and the store in memory extends
it. Whatever has been published or used up is settled in the base already, and the base itself only
moves forward.
-/

open Alphabet

namespace VoiceChatCrypto

variable {B : Type} [Alphabet B] {P : Primitives B}

/-! ### Publishing and using up, as seen from a store -/

/-- The packet that a call accepted. -/
def Event.Accepted (ev : Event B) (m : InitiationPacket B) : Prop :=
  ∃ conv ad sid pt, ev.call = .processInbound m conv ad ∧ ev.outcome = .ok (.processed sid pt)

/-- The bundle that a call returned. -/
def Event.Returned (ev : Event B) (b : PublicPrekeyBundle B) : Prop :=
  ev.outcome = .ok (.bundle b)

/-- The engine that a call left behind. -/
def Event.after (P : Primitives B) (ev : Event B) : Engine B :=
  (ev.before.call P ev.draws ev.call).2

/-- The one-time prekeys of the bundle `b`, taken from the store `t`, have been issued, and in `s`
their ids name the same prekeys or nothing. -/
structure PublishedIn (P : Primitives B) (b : PublicPrekeyBundle B) (t s : PrekeyStore B) : Prop where
  /-- The one-time EC prekey was issued, and its id names nothing else. -/
  ec : ∀ id pk, b.oneTimeEc = some (id, pk) → ∃ k, t.oneTimeEc.lookup id = some k ∧
    P.publicKey k.secret = pk ∧ id.toNat < s.nextEc.toNat ∧
    ∀ k', s.oneTimeEc.lookup id = some k' → k' = k
  /-- So was the one-time KEM key, if the bundle has one. -/
  pq : b.isPqOneTime = true → ∃ k, t.oneTimePq.lookup b.pqPrekeyId = some k ∧
    (P.kemPublic k.secret).val = b.pqPrekeyPublic ∧ b.pqPrekeyId.toNat < s.nextPq.toNat ∧
    ∀ k', s.oneTimePq.lookup b.pqPrekeyId = some k' → k' = k

/-- The store `s` has the private half of everything in the bundle `b`, and the identity key has signed
what `validate` checks. -/
structure Offers (P : Primitives B) (identity : IdentityKeyPair B) (s : PrekeyStore B)
    (b : PublicPrekeyBundle B) : Prop where
  /-- The bundle is of this identity. -/
  identityKey : b.identityKey = identity.publicKey P
  /-- It names the signed prekey. -/
  signedPrekeyId : b.signedPrekeyId = s.signed.id
  /-- It shows its public half. -/
  signedPrekey : b.signedPrekey = P.publicKey s.signed.secret
  /-- The identity key has signed it. -/
  signedPrekeySig : ∃ nonce, b.signedPrekeySig = identity.sign P nonce (encodeEc b.signedPrekey)
  /-- The store has the one-time EC prekey, if there is one. -/
  ec : ∀ id pk, b.oneTimeEc = some (id, pk) →
    ∃ k, s.oneTimeEc.lookup id = some k ∧ P.publicKey k.secret = pk
  /-- The store has the KEM key, signed: a one-time key under its id, or the last-resort key. -/
  pq : ∃ k, b.pqPrekeyId = k.id ∧ b.pqPrekeyPublic = (P.kemPublic k.secret).val ∧
    (∃ nonce, b.pqPrekeySig = identity.sign P nonce (encodeKem (P.kemPublic k.secret))) ∧
    (b.isPqOneTime = true → s.oneTimePq.lookup k.id = some k) ∧
    (b.isPqOneTime = false → k = s.lastResortPq)

/-- The one-time prekeys that `m` names have been issued, and are gone from `s`. -/
structure UsedIn (m : InitiationPacket B) (s : PrekeyStore B) : Prop where
  /-- The one-time EC prekey is gone, and its id will not be issued again. -/
  ec : ∀ id, m.usedEcOpkId = some id →
    id.toNat < s.nextEc.toNat ∧ s.oneTimeEc.lookup id = none
  /-- The same for the KEM key, unless it is the last-resort one. -/
  pq : m.pqPrekeyId ≠ 1 →
    m.pqPrekeyId.toNat < s.nextPq.toNat ∧ s.oneTimePq.lookup m.pqPrekeyId = none

/-- Two packets name no one-time prekey in common. Id 1 is the last-resort prekey. -/
structure Apart (m m' : InitiationPacket B) : Prop where
  /-- They name different one-time EC prekeys. -/
  ec : ∀ id, m.usedEcOpkId = some id → m'.usedEcOpkId ≠ some id
  /-- And different one-time KEM keys. -/
  pq : m.pqPrekeyId ≠ 1 → m'.pqPrekeyId ≠ m.pqPrekeyId

/-- The packet `m` names no one-time prekey of the bundle `b`. -/
structure InitiationPacket.Spares (m : InitiationPacket B) (b : PublicPrekeyBundle B) : Prop where
  /-- It does not name the one-time EC prekey. -/
  ec : ∀ id pk, b.oneTimeEc = some (id, pk) → m.usedEcOpkId ≠ some id
  /-- Nor the one-time KEM key. -/
  pq : b.isPqOneTime = true → m.pqPrekeyId ≠ b.pqPrekeyId

omit [Alphabet B] in
/-- What is missing before is missing after, if nothing comes in. -/
theorem lookup_eq_none_of_extends {K V : Type} [DecidableEq K] {s t : Dict K V} {id : K}
    (h : ∀ k, t.lookup id = some k → s.lookup id = some k) (hs : s.lookup id = none) :
    t.lookup id = none := by
  cases ht : t.lookup id with
  | none => rfl
  | some k =>
    rw [h k ht] at hs
    cases hs

omit [Alphabet B] in
theorem PublishedIn.mono {b : PublicPrekeyBundle B} {t s s' : PrekeyStore B}
    (h : PublishedIn P b t s) (hext : s.Extends s') : PublishedIn P b t s' where
  ec id pk hid := by
    obtain ⟨k, hk, hpk, hlt, hsame⟩ := h.ec id pk hid
    exact ⟨k, hk, hpk, hlt.trans_le hext.nextEc, fun k' hk' ↦ hsame k' (hext.ec id k' hlt hk')⟩
  pq hone := by
    obtain ⟨k, hk, hpk, hlt, hsame⟩ := h.pq hone
    exact ⟨k, hk, hpk, hlt.trans_le hext.nextPq, fun k' hk' ↦ hsame k' (hext.pq _ k' hlt hk')⟩

omit [Alphabet B] in
theorem UsedIn.mono {m : InitiationPacket B} {s s' : PrekeyStore B} (h : UsedIn m s)
    (hext : s.Extends s') : UsedIn m s' where
  ec id hid := by
    obtain ⟨hlt, hnone⟩ := h.ec id hid
    exact ⟨hlt.trans_le hext.nextEc, lookup_eq_none_of_extends (fun k ↦ hext.ec id k hlt) hnone⟩
  pq hid := by
    obtain ⟨hlt, hnone⟩ := h.pq hid
    exact ⟨hlt.trans_le hext.nextPq, lookup_eq_none_of_extends (fun k ↦ hext.pq _ k hlt) hnone⟩

omit [Alphabet B] in
/-- A new bundle names prekeys of the store it was taken from. -/
theorem publishedIn_publicBundle {s : PrekeyStore B} (hs : s.Valid) (σ : Enumeration)
    (identity : IdentityKeyPair B) : PublishedIn P (s.publicBundle P σ identity) s s where
  ec id pk hid := by
    obtain ⟨⟨i, k⟩, hfirst, heq⟩ := Option.map_eq_some_iff.1 hid
    cases heq
    have hk := σ.lookup_of_first? hfirst
    obtain ⟨rfl, -, hlt⟩ := hs.ec i k hk
    refine ⟨k, hk, rfl, hlt, fun k' hk' ↦ ?_⟩
    rw [hk] at hk'
    cases hk'
    rfl
  pq hone := by
    unfold PrekeyStore.publicBundle at hone ⊢
    cases hfirst : σ.first? s.oneTimePq with
    | none =>
      rw [hfirst] at hone
      cases hone
    | some entry =>
      obtain ⟨i, k⟩ := entry
      have hk := σ.lookup_of_first? hfirst
      obtain ⟨rfl, -, hlt⟩ := hs.pq i k hk
      refine ⟨k, hk, rfl, hlt, fun k' hk' ↦ ?_⟩
      dsimp only [Option.map_some, Option.getD_some] at hk'
      rw [hk] at hk'
      cases hk'
      rfl

/-- A new bundle is one that its store can answer for. -/
theorem offers_publicBundle {identity : IdentityKeyPair B} {s : PrekeyStore B}
    (hs : s.Certified P identity) (σ : Enumeration) :
    Offers P identity s (s.publicBundle P σ identity) where
  identityKey := rfl
  signedPrekeyId := rfl
  signedPrekey := rfl
  signedPrekeySig := hs.signed_sig
  ec id pk hid := by
    obtain ⟨k, hk, hpk, -⟩ := (publishedIn_publicBundle (P := P) hs.toValid σ identity).ec id pk hid
    exact ⟨k, hk, hpk⟩
  pq := by
    unfold PrekeyStore.publicBundle
    cases hfirst : σ.first? s.oneTimePq with
    | none => exact ⟨s.lastResortPq, rfl, rfl, hs.lastResort_sig, fun h ↦ (by cases h), fun _ ↦ rfl⟩
    | some entry =>
      obtain ⟨i, k⟩ := entry
      have hk := σ.lookup_of_first? hfirst
      obtain ⟨rfl, -, -⟩ := hs.pq i k hk
      exact ⟨k, rfl, rfl, hs.pq_sig _ k hk, fun _ ↦ hk, fun h ↦ by cases h⟩

/-- A store that has kept what a bundle names still offers it. -/
theorem Offers.mono {identity : IdentityKeyPair B} {s s' : PrekeyStore B} {b : PublicPrekeyBundle B}
    (h : Offers P identity s b) (hsigned : s'.signed = s.signed)
    (hlast : s'.lastResortPq = s.lastResortPq)
    (hec : ∀ id pk k, b.oneTimeEc = some (id, pk) → s.oneTimeEc.lookup id = some k →
      s'.oneTimeEc.lookup id = some k)
    (hpq : ∀ k, b.isPqOneTime = true → s.oneTimePq.lookup b.pqPrekeyId = some k →
      s'.oneTimePq.lookup b.pqPrekeyId = some k) : Offers P identity s' b where
  identityKey := h.identityKey
  signedPrekeyId := hsigned ▸ h.signedPrekeyId
  signedPrekey := hsigned ▸ h.signedPrekey
  signedPrekeySig := h.signedPrekeySig
  ec id pk hid := by
    obtain ⟨k, hk, hpk⟩ := h.ec id pk hid
    exact ⟨k, hec id pk k hid hk, hpk⟩
  pq := by
    obtain ⟨k, hid, hpk, hsig, hone, hlr⟩ := h.pq
    refine ⟨k, hid, hpk, hsig, fun h1 ↦ ?_, fun h0 ↦ hlast ▸ hlr h0⟩
    rw [← hid] at hone ⊢
    exact hpq k h1 (hone h1)

/-- A store that has used up nothing. -/
theorem Offers.grow {identity : IdentityKeyPair B} {s s' : PrekeyStore B} {b : PublicPrekeyBundle B}
    (h : Offers P identity s b) (hgrows : s.Grows s') : Offers P identity s' b :=
  h.mono hgrows.signed hgrows.lastResort (fun id _ k _ ↦ hgrows.ec_kept id k)
    fun k _ ↦ hgrows.pq_kept _ k

omit [Alphabet B] in
/-- Using up what a packet names. -/
theorem consumedBy_extends {s : PrekeyStore B} (hs : s.Valid) (m : InitiationPacket B) :
    (Engine.consumedBy m s).Valid ∧ s.Extends (Engine.consumedBy m s) := by
  -- the curve prekey first, whichever it leaves the store with
  have hpq : ∀ {t : PrekeyStore B}, t.Valid ∧ s.Extends t →
      ({ t with oneTimePq := if m.pqPrekeyId = s.lastResortPq.id then t.oneTimePq
          else t.oneTimePq.erase m.pqPrekeyId } : PrekeyStore B).Valid ∧
        s.Extends { t with oneTimePq := if m.pqPrekeyId = s.lastResortPq.id then t.oneTimePq
          else t.oneTimePq.erase m.pqPrekeyId } := by
    rintro t ⟨hv, hext⟩
    by_cases hlr : m.pqPrekeyId = s.lastResortPq.id
    · rw [if_pos hlr]
      exact ⟨hv, hext⟩
    · rw [if_neg hlr]
      obtain ⟨hv', hext'⟩ := PrekeyStore.erasePq hv m.pqPrekeyId
      exact ⟨hv', hext.trans hext'⟩
  unfold Engine.consumedBy
  cases m.usedEcOpkId with
  | none => exact hpq ⟨hs, .refl s⟩
  | some id => exact hpq (PrekeyStore.eraseEc hs id)

omit [Alphabet B] in
theorem lookup_of_lookup_consumedBy {s : PrekeyStore B} (m : InitiationPacket B) (id : UInt32)
    (k : PqPrekey B) (h : (Engine.consumedBy m s).oneTimePq.lookup id = some k) :
    s.oneTimePq.lookup id = some k := by
  unfold Engine.consumedBy at h
  dsimp only at h
  split at h
  · exact h
  · exact (PrekeyStore.lookup_of_lookup_erase h).2

namespace Engine

variable {e e' : Engine B} {S : PrekeyStore B} {d : Draws B}

/-- Packets that get an answer name prekeys of the store, which are then used up. -/
theorem Answers.usedIn {m : InitiationPacket B} {shared : PqxdhSharedSecret B} {r : LiveRatchet B}
    (h : Answers P m e shared r) (hs : e.prekeys.Valid) : UsedIn m (consumedBy m e.prekeys) where
  ec id hid := by
    obtain ⟨k, hk⟩ := h.ec id hid
    refine ⟨(hs.ec id k hk).2.2, ?_⟩
    simp only [consumedBy, hid]
    exact Finmap.lookup_erase _ _
  pq hid := by
    have hlr : m.pqPrekeyId ≠ e.prekeys.lastResortPq.id := by rwa [hs.lastResort_id]
    obtain ⟨k, hk⟩ := h.pq hlr
    refine ⟨(hs.pq _ k hk).2.2, ?_⟩
    simp only [consumedBy, if_neg hlr]
    exact Finmap.lookup_erase _ _

/-- A packet that gets an answer names nothing that was used up before. -/
theorem Answers.apart {m m' : InitiationPacket B} {shared : PqxdhSharedSecret B}
    {r : LiveRatchet B} (h : Answers P m e shared r) (hs : e.prekeys.Valid)
    (hused : UsedIn m' e.prekeys) : Apart m' m where
  ec id hid hid' := by
    obtain ⟨k, hk⟩ := h.ec id hid'
    rw [(hused.ec id hid).2] at hk
    cases hk
  pq hid heq := by
    obtain ⟨k, hk⟩ := h.pq (by rwa [hs.lastResort_id, heq])
    rw [heq, (hused.pq hid).2] at hk
    cases hk

/-! ### The base of an engine -/

/-- What a packet does not name is still there after it has been answered. -/
theorem offers_consumedBy {m : InitiationPacket B} {b : PublicPrekeyBundle B}
    {identity : IdentityKeyPair B} {s : PrekeyStore B} (h : Offers P identity s b)
    (hm : m.Spares b) : Offers P identity (consumedBy m s) b := by
  refine h.mono rfl rfl (fun id pk k hid hk ↦ ?_) fun k hone hk ↦ ?_
  · unfold consumedBy
    cases hused : m.usedEcOpkId with
    | none => exact hk
    | some id' =>
      have hne : id ≠ id' := fun heq ↦ hm.ec id pk hid (heq ▸ hused)
      exact (Finmap.lookup_erase_ne hne).trans hk
  · show (if m.pqPrekeyId = s.lastResortPq.id then s.oneTimePq
      else s.oneTimePq.erase m.pqPrekeyId).lookup b.pqPrekeyId = some k
    split
    · exact hk
    · rw [Finmap.lookup_erase_ne (hm.pq hone).symm]
      exact hk

/-- A reload of `e` puts `S` in place. The store in memory extends it and has used up nothing, and the
identity key, which has signed both, is the stored one. -/
structure Backed (P : Primitives B) (e : Engine B) (S : PrekeyStore B) : Prop where
  /-- The base is what is stored, or the store in memory when nothing is. -/
  base : (e.storage.committed.lookup keyPrekeys = none ∧ S = e.prekeys) ∨
    ∃ σ, e.storage.committed.lookup keyPrekeys = some (S.serialize σ)
  /-- The stored identity key is the one in use. -/
  identity : ∀ blob, e.storage.committed.lookup keyIdentity = some blob →
    blob = e.identity.serialize
  /-- The prekeys in memory carry signatures of the identity key. -/
  certified : e.prekeys.Certified P e.identity
  /-- So do those in the base. -/
  base_certified : S.Certified P e.identity
  /-- Whatever is in the base is in memory. -/
  grows : S.Grows e.prekeys

theorem Backed.valid (h : e.Backed P S) : e.prekeys.Valid := h.certified.toValid

/-- An engine with the same identity and prekeys, in memory and in storage, has the same base. -/
theorem Backed.of_eq (h : e.Backed P S) (hidentity : e'.identity = e.identity)
    (hprekeys : e'.prekeys = e.prekeys)
    (hkey : e'.storage.committed.lookup keyIdentity = e.storage.committed.lookup keyIdentity)
    (hstored : e'.storage.committed.lookup keyPrekeys = e.storage.committed.lookup keyPrekeys) :
    e'.Backed P S where
  base := by
    rw [hstored, hprekeys]
    exact h.base
  identity := by
    rw [hkey, hidentity]
    exact h.identity
  certified := by
    rw [hprekeys, hidentity]
    exact h.certified
  base_certified := hidentity ▸ h.base_certified
  grows := hprekeys ▸ h.grows

/-- A store that has just been written, or has no copy, is its own base. -/
theorem Backed.self (hcert : e.prekeys.Certified P e.identity)
    (hkey : ∀ blob, e.storage.committed.lookup keyIdentity = some blob →
      blob = e.identity.serialize)
    (hstored : e.storage.committed.lookup keyPrekeys = none ∨
      ∃ σ, e.storage.committed.lookup keyPrekeys = some (e.prekeys.serialize σ)) :
    e.Backed P e.prekeys :=
  ⟨hstored.imp (⟨·, rfl⟩) id, hkey, hcert, hcert, .refl _⟩

/-- The device blobs have just been written. -/
theorem Backed.written (hcert : e.prekeys.Certified P e.identity) {σ : Enumeration}
    (hkey : e.storage.committed.lookup keyIdentity = some e.identity.serialize)
    (hstored : e.storage.committed.lookup keyPrekeys = some (e.prekeys.serialize σ)) :
    e.Backed P e.prekeys :=
  .self hcert (fun _ hblob ↦ Option.some.inj (hblob.symm.trans hkey)) (.inr ⟨σ, hstored⟩)

/-- A reload finds the identity it had. -/
theorem Backed.identity_of_reloaded (h : e.Backed P S) {identity : IdentityKeyPair B}
    (hi : identity = e.identity ∨
      e.Reloaded keyIdentity IdentityKeyPair.deserialize e.identity identity) :
    identity = e.identity := by
  rcases hi with rfl | ⟨-, rfl⟩ | ⟨blob, hblob, hdec⟩
  · rfl
  · rfl
  · rw [h.identity blob hblob, IdentityKeyPair.deserialize_serialize] at hdec
    cases hdec
    rfl

/-- What a reload puts in place is the base. -/
theorem Backed.of_reloaded (h : e.Backed P S) {prekeys : PrekeyStore B}
    (hp : prekeys = e.prekeys ∨ e.Reloaded keyPrekeys PrekeyStore.deserialize e.prekeys prekeys) :
    prekeys = e.prekeys ∨
      prekeys = S ∧ ∃ σ, e.storage.committed.lookup keyPrekeys = some (S.serialize σ) := by
  rcases hp with rfl | ⟨-, rfl⟩ | ⟨blob, hblob, hdec⟩
  · exact .inl rfl
  · exact .inl rfl
  · rcases h.base with ⟨hnone, -⟩ | ⟨σ, hsome⟩
    · rw [hnone] at hblob
      cases hblob
    · rw [hsome] at hblob
      cases hblob
      rw [PrekeyStore.deserialize_serialize h.base_certified.toValid σ] at hdec
      cases hdec
      exact .inr ⟨rfl, σ, hsome⟩

/-- The engine a reload leaves behind, as far as prekeys go. -/
theorem Backed.reload (h : e.Backed P S) {prekeys : PrekeyStore B}
    (hp : prekeys = e.prekeys ∨ e.Reloaded keyPrekeys PrekeyStore.deserialize e.prekeys prekeys)
    (hidentity : e'.identity = e.identity) (hprekeys : e'.prekeys = prekeys)
    (hstorage : e'.storage = e.storage) : e'.Backed P S := by
  rcases h.of_reloaded hp with rfl | ⟨rfl, σ, hσ⟩
  · exact h.of_eq hidentity hprekeys (by rw [hstorage]) (by rw [hstorage])
  · have hcert : e'.prekeys.Certified P e'.identity := by
      rw [hprekeys, hidentity]
      exact h.base_certified
    have hkey : ∀ blob, e'.storage.committed.lookup keyIdentity = some blob →
        blob = e'.identity.serialize := by
      rw [hstorage, hidentity]
      exact h.identity
    rw [← hprekeys] at hσ ⊢
    exact .self hcert hkey (.inr ⟨σ, by rw [hstorage, hσ]⟩)

/-- The packet that a call accepted, from the call and its result. -/
def Accepts (c : Call B) (out : Except CryptoError (Output B)) (m : InitiationPacket B) : Prop :=
  ∃ conv ad sid pt, c = .processInbound m conv ad ∧ out = .ok (.processed sid pt)

/-- What a call does to prekeys: the base moves forward to `S'`, and what the call published or used
up is settled there. -/
structure Advances (P : Primitives B) (e : Engine B) (S : PrekeyStore B) (c : Call B)
    (out : Except CryptoError (Output B)) (e' : Engine B) (S' : PrekeyStore B) : Prop where
  /-- The identity key does not change. -/
  identity : e'.identity = e.identity
  /-- The new base is what a reload would now put in place. -/
  backed : e'.Backed P S'
  /-- The new base comes after the old one. -/
  forward : S.Extends S'
  /-- A bundle that the call does not use is still offered. -/
  kept : ∀ b, Offers P e.identity S b → (∀ m, Accepts c out m → m.Spares b) →
    Offers P e.identity S' b
  /-- A bundle that the call returns is published and offered. -/
  published : ∀ b, out = .ok (.bundle b) →
    PublishedIn P b e'.prekeys S' ∧ Offers P e.identity S' b
  /-- A packet that the call accepts has used its prekeys up, and was answered. -/
  used : ∀ m, Accepts c out m → UsedIn m S' ∧ ∃ shared r, Answers P m e shared r

/-- A call that neither returns a bundle nor accepts a packet needs to keep the base only. -/
theorem Advances.quiet {c : Call B} {out : Except CryptoError (Output B)} {S' : PrekeyStore B}
    (hidentity : e'.identity = e.identity) (hbacked : e'.Backed P S') (hforward : S.Grows S')
    (hbundle : ∀ b, out ≠ .ok (.bundle b))
    (hprocessed : ∀ sid pt, out ≠ .ok (.processed sid pt)) : Advances P e S c out e' S' where
  identity := hidentity
  backed := hbacked
  forward := hforward.toExtends
  kept _ hb _ := hb.grow hforward
  published b h := absurd h (hbundle b)
  used m h := by
    obtain ⟨conv, ad, sid, pt, -, hout⟩ := h
    exact absurd hout (hprocessed sid pt)

/-- **Every call moves the base forward.** The base is the store that a reload would put in place; a
call that commits prekeys makes the store in memory the base. -/
theorem Effect.advances {c : Call B} {out : Except CryptoError (Output B)}
    (h : Effect P d e c out e') (hb : e.Backed P S) : ∃ S', Advances P e S c out e' S' := by
  cases h with
  | refused c err =>
    exact ⟨S, .quiet rfl hb (.refl S) (by simp) (by simp)⟩
  | replenishStopped n err prekeys h =>
    have hgrows := PrekeyStore.replenish_grows P e.identity d.prekeys n n hb.valid
    have hcert := PrekeyStore.replenish_certified P e.identity d.prekeys n n hb.certified
    rw [h] at hgrows hcert
    rcases hb.base with ⟨hnone, rfl⟩ | hsome
    · exact ⟨prekeys, .quiet rfl (.self hcert hb.identity (.inl hnone)) hgrows.2 (by simp)
        (by simp)⟩
    · exact ⟨S, .quiet rfl ⟨.inr hsome, hb.identity, hcert, hb.base_certified,
        hb.grows.trans hgrows.2⟩ (.refl S) (by simp) (by simp)⟩
  | replenished n prekeys h =>
    have hgrows := PrekeyStore.replenish_grows P e.identity d.prekeys n n hb.valid
    have hcert := PrekeyStore.replenish_certified P e.identity d.prekeys n n hb.certified
    rw [h] at hgrows hcert
    have hblobs := deviceBlobs_commitDevice ({ e with prekeys } : Engine B) d.order
    refine ⟨prekeys, rfl, .written hcert hblobs.1 hblobs.2.1,
      hb.grows.toExtends.trans hgrows.2.toExtends,
      fun b hoff _ ↦ (hoff.grow hb.grows).grow hgrows.2, fun b hout ↦ ?_, fun m hm ↦ ?_⟩
    · cases hout
      exact ⟨publishedIn_publicBundle hgrows.1 d.order e.identity,
        offers_publicBundle hcert d.order⟩
    · obtain ⟨_, _, _, _, hc, -⟩ := hm
      cases hc
  | establishStopped bundle conv pt ad i r err hi henc =>
    exact ⟨S, .quiet rfl (hb.of_eq rfl rfl rfl rfl) (.refl S) (by simp) (by simp)⟩
  | established bundle conv pt ad i r r' header ct hi henc =>
    have hblobs := deviceBlobs_commitSession ((e.openSession d.sessionId r bundle.identityKey conv
      i.shared.ad).withRatchet d.sessionId (e.outboundSession bundle conv i r) r') d.order d.sessionId
      { e.outboundSession bundle conv i r with ratchet := r' }
    exact ⟨S, .quiet rfl (hb.of_eq rfl rfl hblobs.1 hblobs.2.1) (.refl S) (by simp) (by simp)⟩
  | processClosed m conv ad shared r err hans =>
    exact ⟨S, .quiet rfl (hb.of_eq rfl rfl rfl rfl) (.refl S) (by simp) (by simp)⟩
  | processed m conv ad pt shared r r' hans hreplay hdec =>
    obtain ⟨hvalid, hext⟩ := consumedBy_extends hb.valid m
    have hblobs := deviceBlobs_commitHandshake (e.answered m d.sessionId
      (e.inboundSession m conv shared r) r') d.order d.sessionId
      { e.inboundSession m conv shared r with ratchet := r' }
    have hcert : (consumedBy m e.prekeys).Certified P e.identity :=
      hb.certified.of_sub hvalid rfl rfl (lookup_of_lookup_consumedBy m)
    refine ⟨consumedBy m e.prekeys, rfl, .written hcert hblobs.1 hblobs.2.1,
      hb.grows.toExtends.trans hext, fun b hoff hspares ↦ ?_, ?_, fun m' hm' ↦ ?_⟩
    · exact offers_consumedBy (hoff.grow hb.grows) (hspares m ⟨conv, ad, _, pt, rfl, rfl⟩)
    · intro b hout
      cases hout
    · obtain ⟨_, _, _, _, hc, -⟩ := hm'
      cases hc
      exact ⟨hans.usedIn hb.valid, shared, r, hans⟩
  | sealed c sid pt ad s r header ct hc hs henc =>
    have hblobs := deviceBlobs_commitSession (e.withRatchet sid s r) d.order sid
      { s with ratchet := r }
    exact ⟨S, .quiet rfl (hb.of_eq rfl rfl hblobs.1 hblobs.2.1) (.refl S) (by simp) (by simp)⟩
  | opened sid m ad pt s r hs hreplay hdec =>
    have hblobs := deviceBlobs_commitSession (e.received sid s r m) d.order sid
      { s with ratchet := r }
    exact ⟨S, .quiet rfl (hb.of_eq rfl rfl hblobs.1 hblobs.2.1) (.refl S) (by simp) (by simp)⟩
  | acknowledged remote dev =>
    have hblobs := deviceBlobs_commitDevice (e.acknowledged ⟨remote, dev⟩) d.order
    exact ⟨e.prekeys, .quiet rfl (.written hb.certified hblobs.1 hblobs.2.1) hb.grows (by simp)
      (by simp)⟩
  | forgot sid =>
    have hkey : (keyIdentity : List B) ≠ sid.val := deviceKey_ne_sid sid (by simp)
    have hsid : (keyPrekeys : List B) ≠ sid.val := deviceKey_ne_sid sid (by simp)
    exact ⟨S, .quiet rfl (hb.of_eq rfl rfl (Finmap.lookup_erase_ne hkey)
      (Finmap.lookup_erase_ne hsid)) (.refl S) (by simp) (by simp)⟩
  | cleared =>
    have hnone : ∀ key : List B, (∅ : Dict (List B) (List B)).lookup key = none :=
      fun _ ↦ Finmap.lookup_empty _
    exact ⟨e.prekeys, .quiet rfl (.self hb.certified (fun blob hblob ↦ by
      cases (hnone _).symm.trans hblob) (.inl (hnone _))) hb.grows (by simp) (by simp)⟩
  | reloadStopped err identity prekeys hi hp =>
    have hsame := hb.identity_of_reloaded hi
    exact ⟨S, .quiet hsame (hb.reload hp hsame rfl rfl) (.refl S) (by simp) (by simp)⟩
  | reloaded identity prekeys sessions hi hp hs =>
    have hsame := hb.identity_of_reloaded (.inr hi)
    exact ⟨S, .quiet hsame (hb.reload (.inr hp) hsame rfl rfl) (.refl S) (by simp) (by simp)⟩

end Engine

/-! ### Over a run -/

/-- **The invariant of a run**: everything published and used up so far is settled in the base, no two
accepted packets share a one-time prekey, and a bundle that no packet has used since is still offered. -/
structure Run.Settled (P : Primitives B) (r : Run B) (S : PrekeyStore B) : Prop where
  /-- The base is what a reload would put in place. -/
  backed : r.engine.Backed P S
  /-- Every bundle returned so far is settled in the base. -/
  published : ∀ ev ∈ r.log, ∀ b, ev.Returned b → PublishedIn P b (ev.after P).prekeys S
  /-- A bundle is offered until a packet uses it. -/
  offered : ∀ before ev since b, r.log = before ++ ev :: since → ev.Returned b →
    (∀ ev' ∈ since, ∀ m, ev'.Accepted m → m.Spares b) → Offers P r.engine.identity S b
  /-- Every packet accepted so far has used its prekeys up. -/
  used : ∀ ev ∈ r.log, ∀ m, ev.Accepted m → UsedIn m S
  /-- No two accepted packets share a one-time prekey. -/
  apart : r.log.Pairwise fun ev ev' ↦ ∀ m m', ev.Accepted m → ev'.Accepted m' → Apart m m'

variable {allow : Run B → Call B → Draws B → Prop} {r : Run B}

/-- **Each call keeps the invariant**, for a base that has moved forward. -/
theorem Run.Settled.extend {S : PrekeyStore B} (h : r.Settled P S)
    (hidle : r.engine.storage.staged = none) (d : Draws B) (c : Call B) :
    ∃ S', (r.extend P d c).Settled P S' := by
  obtain ⟨S', hadv⟩ := (Engine.call_effect (P := P) hidle d c).advances h.backed
  refine ⟨S', hadv.backed, ?_, ?_, ?_, ?_⟩
  · intro ev hev b hb
    rcases List.mem_append.1 hev with hev | hev
    · exact (h.published ev hev b hb).mono hadv.forward
    · cases List.mem_singleton.1 hev
      exact (hadv.published b hb).1
  · -- the bundle was returned by this very call, or by an earlier one
    intro before ev since b hlog hb hspares
    have hidentity : (r.extend P d c).engine.identity = r.engine.identity := hadv.identity
    rw [hidentity]
    rcases List.eq_nil_or_concat since with rfl | ⟨since', last, rfl⟩
    · obtain ⟨-, hev⟩ := List.append_inj' hlog rfl
      cases hev
      exact (hadv.published b hb).2
    · rw [List.concat_eq_append, ← List.cons_append, ← List.append_assoc] at hlog
      rw [List.concat_eq_append] at hspares
      obtain ⟨hinit, hlast⟩ := List.append_inj' hlog rfl
      cases hlast
      refine hadv.kept b (h.offered before ev since' b hinit hb fun ev' hev' ↦
        hspares ev' (List.mem_append_left _ hev')) fun m hm ↦ ?_
      exact hspares _ (List.mem_append_right _ (List.mem_singleton_self _)) m hm
  · rintro ev hev m hm
    rcases List.mem_append.1 hev with hev | hev
    · exact (h.used ev hev m hm).mono hadv.forward
    · cases List.mem_singleton.1 hev
      exact (hadv.used m hm).1
  · refine List.pairwise_append.2 ⟨h.apart, List.pairwise_singleton _ _, ?_⟩
    rintro ev hev ev' hev' m m' hm hm'
    cases List.mem_singleton.1 hev'
    obtain ⟨-, shared, ratchet, hans⟩ := hadv.used m' hm'
    exact hans.apart h.backed.valid ((h.used ev hev m hm).mono h.backed.grows.toExtends)

/-- Every reachable run is settled. -/
theorem exists_settled (hr : (device P allow).Reachable r) : ∃ S, r.Settled P S := by
  refine System.Reachable.invariant (I := fun r ↦ ∃ S, r.Settled P S) ?_ ?_ hr
  · intro s hs
    obtain ⟨config, d, rfl⟩ := eq_newDevice_of_start hs
    have hcert := PrekeyStore.new_certified P ⟨d.identity⟩ d.signedPrekey d.signedNonce d.lastResort
      d.lastResortNonce
    have hblobs := Engine.deviceBlobs_commitDevice (Engine.blank P config d) d.order
    exact ⟨_, .written hcert hblobs.1 hblobs.2.1, by simp, by simp, by simp, List.Pairwise.nil⟩
  · rintro s t hreach ⟨S, hS⟩ ⟨c, d, -, rfl⟩
    exact hS.extend (device_idle hreach) d c

/-! ### Symbolic runs -/

namespace Symbolic

/-- Device 2 after it has issued one prekey of each kind. -/
noncomputable def issued (profile : CryptoProfile) : Run Sym :=
  Run.extend symbolic ⟨engine 2 profile, []⟩ (draws 2) (.generateBundle 1)

/-- The bundle of device 2 with those prekeys, which have id 2. -/
noncomputable def oneTimeBundle (profile : CryptoProfile) : PublicPrekeyBundle Sym :=
  let pq := PqPrekey.generate symbolic (engine 2 profile).identity 2 ((draws 2).prekeys.pq 0)
    ((draws 2).prekeys.nonce 0)
  { bundle (engine 2 profile) with
    oneTimeEc := some (2, symbolic.publicKey ((draws 2).prekeys.ec 0))
    pqPrekeyId := 2
    pqPrekeyPublic := (symbolic.kemPublic pq.secret).val
    pqPrekeySig := pq.signature
    isPqOneTime := true }

/-- The packet of device 1 for that bundle. -/
noncomputable def oneTimePacket (profile : CryptoProfile) : InitiationPacket Sym :=
  packetOf ((engine 1 profile).establishOutboundSession symbolic (oneTimeBundle profile) [] [] []
    (draws 1)).1

/-- A run of device 2 that receives a packet twice. -/
noncomputable def twice (r : Run Sym) (m : InitiationPacket Sym) : Run Sym :=
  (r.extend symbolic (draws 3) (.processInbound m [] [])).extend symbolic (draws 4)
    (.processInbound m [] [])

theorem reachable_issued (profile : CryptoProfile) :
    (device symbolic anyCall).Reachable (issued profile) :=
  reachable_extend (reachable_newDevice symbolic anyCall ⟨[], profile⟩ (deviceDraws 2)) trivial

theorem reachable_twice {r : Run Sym} (hr : (device symbolic anyCall).Reachable r)
    (m : InitiationPacket Sym) : (device symbolic anyCall).Reachable (twice r m) :=
  reachable_extend (reachable_extend hr trivial) trivial

/-- Both copies are accepted, if both calls succeed. -/
theorem accepted_twice {e : Engine Sym} {m : InitiationPacket Sym} {sid sid' : SessionId Sym}
    {pt pt' : List Sym}
    (h : (e.call symbolic (draws 3) (.processInbound m [] [])).1 = .ok (.processed sid pt))
    (h' : ((e.call symbolic (draws 3) (.processInbound m [] [])).2.call symbolic (draws 4)
      (.processInbound m [] [])).1 = .ok (.processed sid' pt')) :
    ∃ first second, (twice ⟨e, []⟩ m).log = [first, second] ∧
      first.call = .processInbound m [] [] ∧ second.call = .processInbound m [] [] ∧
      first.Accepted m ∧ second.Accepted m :=
  ⟨_, _, rfl, rfl, rfl, ⟨[], [], sid, pt, rfl, h⟩, ⟨[], [], sid', pt', rfl, h'⟩⟩

end Symbolic

/-! ### What the invariant says -/

/-- **One-time prekeys are used at most once and ids are never reissued.** In every run: two accepted
packets never name the same one-time prekey; an id that was published names the prekey it named then,
or nothing; and the store is well formed. -/
theorem one_time_prekeys_once (hr : (device P anyCall).Reachable r) :
    (r.log.Pairwise fun ev ev' ↦ ∀ m m', ev.Accepted m → ev'.Accepted m' →
      (∀ id, m.usedEcOpkId = some id → m'.usedEcOpkId ≠ some id) ∧
      (m.pqPrekeyId ≠ r.engine.prekeys.lastResortPq.id → m'.pqPrekeyId ≠ m.pqPrekeyId)) ∧
    (∀ ev ∈ r.log, ∀ b, ev.Returned b →
      (∀ id pk, b.oneTimeEc = some (id, pk) →
        ∃ k, (ev.after P).prekeys.oneTimeEc.lookup id = some k ∧ P.publicKey k.secret = pk ∧
          ∀ k', r.engine.prekeys.oneTimeEc.lookup id = some k' → k' = k) ∧
      (b.isPqOneTime = true →
        ∃ k, (ev.after P).prekeys.oneTimePq.lookup b.pqPrekeyId = some k ∧
          (P.kemPublic k.secret).val = b.pqPrekeyPublic ∧
          ∀ k', r.engine.prekeys.oneTimePq.lookup b.pqPrekeyId = some k' → k' = k)) ∧
    (∀ id k, r.engine.prekeys.oneTimeEc.lookup id = some k →
      k.id = id ∧ 2 ≤ id ∧ id < r.engine.prekeys.nextEc) ∧
    (∀ id k, r.engine.prekeys.oneTimePq.lookup id = some k →
      k.id = id ∧ 2 ≤ id ∧ id < r.engine.prekeys.nextPq ∧
        id ≠ r.engine.prekeys.lastResortPq.id) := by
  obtain ⟨S, hS⟩ := exists_settled hr
  have hvalid := hS.backed.valid
  refine ⟨hS.apart.imp fun {ev ev'} hapart m m' hm hm' ↦ ?_, fun ev hev b hb ↦ ?_, ?_, ?_⟩
  · rw [hvalid.lastResort_id]
    exact ⟨(hapart m m' hm hm').ec, (hapart m m' hm hm').pq⟩
  · have hpub := (hS.published ev hev b hb).mono hS.backed.grows.toExtends
    refine ⟨fun id pk hid ↦ ?_, fun hone ↦ ?_⟩
    · obtain ⟨k, hk, hpk, -, hsame⟩ := hpub.ec id pk hid
      exact ⟨k, hk, hpk, hsame⟩
    · obtain ⟨k, hk, hpk, -, hsame⟩ := hpub.pq hone
      exact ⟨k, hk, hpk, hsame⟩
  · intro id k hk
    obtain ⟨hid, htwo, hlt⟩ := hvalid.ec id k hk
    exact ⟨hid, UInt32.le_iff_toNat_le.2 htwo, UInt32.lt_iff_toNat_lt.2 hlt⟩
  · intro id k hk
    obtain ⟨hid, htwo, hlt⟩ := hvalid.pq id k hk
    refine ⟨hid, UInt32.le_iff_toNat_le.2 htwo, UInt32.lt_iff_toNat_lt.2 hlt, ?_⟩
    rw [hvalid.lastResort_id]
    rintro rfl
    exact absurd htwo (by decide)

open Symbolic in
/-- Device 2 issues prekeys and accepts a packet that uses them; the second copy of it is refused. -/
theorem one_time_prekeys_once_twice :
    ((issued .classicalV1).engine.call symbolic (Symbolic.draws 3)
      (.processInbound (oneTimePacket .classicalV1) [] [])).1 =
        .ok (.processed (secretOf 15 136) []) ∧
    (oneTimePacket .classicalV1).usedEcOpkId = some 2 ∧
    (oneTimePacket .classicalV1).pqPrekeyId = 2 ∧
    ((twice (issued .classicalV1) (oneTimePacket .classicalV1)).log.Pairwise fun ev ev' ↦
      ∀ m m', ev.Accepted m → ev'.Accepted m' →
        (∀ id, m.usedEcOpkId = some id → m'.usedEcOpkId ≠ some id) ∧
        (m.pqPrekeyId ≠ (twice (issued .classicalV1)
          (oneTimePacket .classicalV1)).engine.prekeys.lastResortPq.id →
            m'.pqPrekeyId ≠ m.pqPrekeyId)) :=
  ⟨by decide +kernel, by decide +kernel, by decide +kernel,
    (one_time_prekeys_once (reachable_twice (reachable_issued .classicalV1) _)).1⟩

/-- The packet names a prekey that its receiver uses up; one that names the last-resort key alone
does not. -/
def InitiationPacket.NamesOneTime (m : InitiationPacket B) (s : PrekeyStore B) : Prop :=
  m.usedEcOpkId ≠ none ∨ m.pqPrekeyId ≠ s.lastResortPq.id

/-- **A packet that names a one-time prekey is accepted at most once**, whatever happens in between,
in whatever conversation and with whatever associated data it is presented. -/
theorem packet_accepted_once (hr : (device P anyCall).Reachable r) (m : InitiationPacket B)
    (hm : m.NamesOneTime r.engine.prekeys) :
    r.log.Pairwise fun ev ev' ↦ ¬ (ev.Accepted m ∧ ev'.Accepted m) := by
  obtain ⟨S, hS⟩ := exists_settled hr
  refine hS.apart.imp fun {ev ev'} hapart ↦ ?_
  rintro ⟨hev, hev'⟩
  have h := hapart m m hev hev'
  rw [InitiationPacket.NamesOneTime, hS.backed.valid.lastResort_id] at hm
  rcases hm with hec | hpq
  · obtain ⟨id, hid⟩ := Option.ne_none_iff_exists'.1 hec
    exact h.ec id hid hid
  · exact h.pq hpq rfl

open Symbolic in
/-- The first copy is accepted, so the second is not. -/
theorem packet_accepted_once_twice :
    ((issued .classicalV1).engine.call symbolic (Symbolic.draws 3)
      (.processInbound (oneTimePacket .classicalV1) [] [])).1 =
        .ok (.processed (secretOf 15 136) []) ∧
    (oneTimePacket .classicalV1).NamesOneTime
      (twice (issued .classicalV1) (oneTimePacket .classicalV1)).engine.prekeys ∧
    (twice (issued .classicalV1) (oneTimePacket .classicalV1)).log.Pairwise fun ev ev' ↦
      ¬ (ev.Accepted (oneTimePacket .classicalV1) ∧ ev'.Accepted (oneTimePacket .classicalV1)) := by
  have hec : (oneTimePacket .classicalV1).usedEcOpkId ≠ none := by decide +kernel
  exact ⟨by decide +kernel, .inl hec,
    packet_accepted_once (reachable_twice (reachable_issued .classicalV1) _) _ (.inl hec)⟩

open Symbolic in
/-- **A packet that uses the last-resort prekey and no one-time prekey is accepted twice.** Its replay
key contains the session id, which is drawn anew each time. -/
theorem packet_accepted_twice :
    ∃ (r : Run Sym) (m : InitiationPacket Sym), (device symbolic anyCall).Reachable r ∧
      ∃ first second, r.log = [first, second] ∧ first.call = .processInbound m [] [] ∧
        second.call = .processInbound m [] [] ∧ first.Accepted m ∧ second.Accepted m := by
  have hfirst : ((engine 2 .classicalV1).call symbolic (Symbolic.draws 3)
      (.processInbound (packet .classicalV1) [] [])).1 = .ok (.processed (secretOf 15 136) []) := by
    decide +kernel
  have hsecond : (((engine 2 .classicalV1).call symbolic (Symbolic.draws 3)
      (.processInbound (packet .classicalV1) [] [])).2.call symbolic (Symbolic.draws 4)
      (.processInbound (packet .classicalV1) [] [])).1 = .ok (.processed (secretOf 15 146) []) := by
    decide +kernel
  exact ⟨_, packet .classicalV1,
    reachable_twice (reachable_newDevice symbolic anyCall ⟨[], .classicalV1⟩ (deviceDraws 2)) _,
    accepted_twice hfirst hsecond⟩

end VoiceChatCrypto
