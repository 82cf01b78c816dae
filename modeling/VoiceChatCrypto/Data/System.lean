import Mathlib.Data.List.Induction
import Mathlib.Logic.Relation

/-!
# Transition systems

A system is a set of starting states and one step; its reachable states are those at the end of a
finite run. Every safety statement of this development is an instance of one rule,
`System.Reachable.invariant`: what holds at the start and survives a step holds in every reachable
state.

A run that has to *remember* something — the messages sent so far, the calls that succeeded — keeps
it in the state. The step relation then says exactly what is recorded, and a statement about two
moments of a run becomes a statement about one reachable state.

Where the operations are functions, a run is a list of them. `Run.visits` pairs each with the state it
starts from, and `Run.Throughout` says something of every operation and its whole past.
-/

/-- A transition system: nondeterministic, and without labels. A step that should be visible is
recorded in the state. -/
structure System (σ : Type*) where
  /-- The states a run may start in. -/
  start : σ → Prop
  /-- One step. -/
  step : σ → σ → Prop

namespace System

variable {σ : Type*} {S : System σ} {s t : σ}

/-- The states at the end of a finite run. Invariants are proved of them once and for all by
`Reachable.invariant`. -/
def Reachable (S : System σ) (s : σ) : Prop :=
  ∃ s₀, S.start s₀ ∧ Relation.ReflTransGen S.step s₀ s

theorem Reachable.of_start (h : S.start s) : S.Reachable s :=
  ⟨s, h, .refl⟩

theorem Reachable.of_step (hs : S.Reachable s) (h : S.step s t) : S.Reachable t := by
  obtain ⟨s₀, hstart, hrun⟩ := hs
  exact ⟨s₀, hstart, hrun.tail h⟩

/-- **The invariant rule.** What holds at the start and survives every step taken from a reachable
state holds in every reachable state. -/
theorem Reachable.invariant {I : σ → Prop} (hstart : ∀ s, S.start s → I s)
    (hstep : ∀ s t, S.Reachable s → I s → S.step s t → I t) (hs : S.Reachable s) : I s := by
  obtain ⟨s₀, h₀, hrun⟩ := hs
  induction hrun with
  | refl => exact hstart _ h₀
  | tail hrun h ih => exact hstep _ _ ⟨s₀, h₀, hrun⟩ ih h

end System

namespace Run

variable {σ ω : Type*} {step : ω → σ → σ}

/-- The state at the end of a run. -/
def last (step : ω → σ → σ) (s : σ) (ops : List ω) : σ := ops.foldl (fun s op ↦ step op s) s

/-- The operations of a run, each with the state it starts from. -/
def visits (step : ω → σ → σ) : σ → List ω → List (σ × ω)
  | _, [] => []
  | s, op :: ops => (s, op) :: visits step (step op s) ops

/-- The last operation of a run is applied to the outcome of the others. -/
theorem last_concat (s : σ) (ops : List ω) (op : ω) :
    last step s (ops ++ [op]) = step op (last step s ops) := by
  rw [last, List.foldl_append, List.foldl_cons, List.foldl_nil, last]

/-- A run visits one state more than the run before its last operation. -/
theorem visits_concat (s : σ) (ops : List ω) (op : ω) :
    visits step s (ops ++ [op]) = visits step s ops ++ [(last step s ops, op)] := by
  induction ops generalizing s with
  | nil => rfl
  | cons op' ops ih =>
    rw [List.cons_append, visits, ih, visits, List.cons_append]
    rfl

/-- What holds of every operation of a run and what came before it. A condition on the steps of a
run is of this kind. -/
def Throughout (R : List (σ × ω) → σ × ω → Prop) (vs : List (σ × ω)) : Prop :=
  ∀ past v rest, vs = past ++ v :: rest → R past v

variable {R : List (σ × ω) → σ × ω → Prop} {vs : List (σ × ω)} {v : σ × ω}

theorem throughout_nil : Throughout R [] := by
  intro past v rest h
  cases past <;> cases h

/-- One operation at a time. -/
theorem throughout_concat : Throughout R (vs ++ [v]) ↔ Throughout R vs ∧ R vs v := by
  constructor
  · intro h
    refine ⟨fun past w rest heq ↦ h past w (rest ++ [v]) ?_, h vs v [] rfl⟩
    rw [heq, List.append_assoc, List.cons_append]
  · rintro ⟨hvs, hv⟩ past w rest heq
    rcases List.eq_nil_or_concat rest with rfl | ⟨rest', w', rfl⟩
    · obtain ⟨rfl, hw⟩ := List.append_inj' heq rfl
      cases hw
      exact hv
    · rw [List.concat_eq_append, ← List.cons_append, ← List.append_assoc] at heq
      obtain ⟨rfl, -⟩ := List.append_inj' heq rfl
      exact hvs past w rest' rfl

/-- **Step by step equivalence.** Two properties that agree on every operation of a run whose past
satisfies them throughout hold throughout the same runs. -/
theorem throughout_congr {R' : List (σ × ω) → σ × ω → Prop} {s : σ}
    (h : ∀ ops op, Throughout R (visits step s ops) → Throughout R' (visits step s ops) →
      (R (visits step s ops) (last step s ops, op) ↔ R' (visits step s ops) (last step s ops, op)))
    (ops : List ω) :
    Throughout R (visits step s ops) ↔ Throughout R' (visits step s ops) := by
  induction ops using List.reverseRecOn with
  | nil => exact ⟨fun _ ↦ throughout_nil, fun _ ↦ throughout_nil⟩
  | append_singleton ops op ih =>
    rw [visits_concat, throughout_concat, throughout_concat, ih]
    refine and_congr_right fun hR' ↦ ?_
    exact h ops op (ih.2 hR') hR'

/-- What holds in every state of a run: at its start, and after each operation. -/
theorem forall_last_iff {Q : σ → Prop} {s : σ} (ops : List ω) :
    (∀ past rest, ops = past ++ rest → Q (last step s past)) ↔
      Q s ∧ Throughout (fun _ v ↦ Q (step v.2 v.1)) (visits step s ops) := by
  induction ops using List.reverseRecOn with
  | nil =>
    constructor
    · exact fun h ↦ ⟨h [] [] rfl, throughout_nil⟩
    · rintro ⟨hs, -⟩ past rest h
      obtain ⟨rfl, -⟩ := List.append_eq_nil_iff.1 h.symm
      exact hs
  | append_singleton ops op ih =>
    rw [visits_concat, throughout_concat, ← and_assoc, ← ih]
    have hlast : step op (last step s ops) = last step s (ops ++ [op]) := (last_concat s ops op).symm
    dsimp only
    rw [hlast]
    constructor
    · intro h
      refine ⟨fun past rest heq ↦ h past (rest ++ [op]) ?_, h (ops ++ [op]) [] ?_⟩
      · rw [heq, List.append_assoc]
      · rw [List.append_nil]
    · rintro ⟨hops, hop⟩ past rest heq
      rcases List.eq_nil_or_concat rest with rfl | ⟨rest', op', rfl⟩
      · rw [List.append_nil] at heq
        exact heq ▸ hop
      · rw [List.concat_eq_append, ← List.append_assoc] at heq
        exact hops past rest' (List.append_inj' heq rfl).1

end Run
