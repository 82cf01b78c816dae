import Mathlib.Order.WellFounded
import VoiceChatCrypto.Data.System

/-!
# Potentials

Amortised accounting for a transition system. A state says how much work was done so far and how much
was paid for, and a potential says how much of what was paid is still left. When no step does more work
than it pays for or takes out of the potential, the work of a run is bounded by its payments; and steps
that do work and pay nothing come to an end.
-/

namespace System

variable {σ : Type*} {S : System σ}

/-- **A potential** for the work that the states of a system count. -/
structure Potential (S : System σ) (work paid : σ → ℕ) where
  /-- What is left. -/
  left : σ → ℕ
  /-- In the beginning, what has been done and what is left are paid for. -/
  start : ∀ s, S.start s → work s + left s ≤ paid s
  /-- A step may use what is left, and must be paid for whatever it adds beyond. -/
  step : ∀ s t, S.step s t → work t + left t + paid s ≤ work s + left s + paid t

variable {work paid : σ → ℕ}

/-- **The work of a run is paid for**: what has been done and what is left never exceed what has
come in. -/
theorem Potential.work_add_left_le (p : Potential S work paid) {s : σ} (hs : S.Reachable s) :
    work s + p.left s ≤ paid s := by
  refine hs.invariant (I := fun s ↦ work s + p.left s ≤ paid s) p.start ?_
  intro s t _ ih hstep
  have := p.step s t hstep
  omega

/-- **Unpaid work comes to an end**: without payments, a run does only finitely many steps that
count as work. -/
theorem Potential.wellFounded (p : Potential S work paid) :
    WellFounded fun t s ↦ S.step s t ∧ paid t = paid s ∧ work s < work t := by
  refine Subrelation.wf ?_ (measure p.left).wf
  rintro t s ⟨hstep, hpaid, hwork⟩
  have := p.step s t hstep
  show p.left t < p.left s
  omega

end System
