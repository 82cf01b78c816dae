import VoiceChatCrypto.Data.System

/-!
# Simulations

A system **simulates** another one along a relation of states when every step of the latter can be
matched by any number of its own, none included. Then every reachable state is related to a reachable
one, and what is known of the abstract system can be read off the concrete one.

The relation and not a function connects the two levels, because the concrete state is spread over
places that the abstract one does not tell apart, and keeps things that it forgets.
-/

namespace System

variable {σ τ : Type*} {S : System σ} {A : System τ} {R : σ → τ → Prop} {s : σ}

/-- **A forward simulation**: starting states are related to reachable ones, and a step from related
states leads to related states. -/
structure Simulation (S : System σ) (A : System τ) (R : σ → τ → Prop) : Prop where
  /-- Every starting state is related to some reachable state of the other system. -/
  start : ∀ s, S.start s → ∃ t, A.Reachable t ∧ R s t
  /-- Every step from related reachable states is matched by some steps of the other system, or by
  none. -/
  step : ∀ s s' t, S.Reachable s → A.Reachable t → R s t → S.step s s' →
    ∃ t', Relation.ReflTransGen A.step t t' ∧ R s' t'

/-- What is reached from a reachable state is reachable. -/
theorem Reachable.of_steps {t t' : τ} (ht : A.Reachable t) (h : Relation.ReflTransGen A.step t t') :
    A.Reachable t' := by
  obtain ⟨t₀, hstart, hrun⟩ := ht
  exact ⟨t₀, hstart, hrun.trans h⟩

/-- **Every reachable state is related to a reachable one**, by induction along the run; invariants
of the one system thereby hold of the other. -/
theorem Simulation.exists_reachable (h : Simulation S A R) (hs : S.Reachable s) :
    ∃ t, A.Reachable t ∧ R s t := by
  refine hs.invariant (I := fun s ↦ ∃ t, A.Reachable t ∧ R s t) h.start ?_
  rintro s s' hs ⟨t, ht, hR⟩ hstep
  obtain ⟨t', hrun, hR'⟩ := h.step s s' t hs ht hR hstep
  exact ⟨t', ht.of_steps hrun, hR'⟩

end System
