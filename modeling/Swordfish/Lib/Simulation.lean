import Swordfish.Lib.Run

/-!
# Two components that a relation keeps in step

A relation between the states of two components that every operation keeps: both take the step,
to related states, or both refuse it with the same failure. Runs are then related too.
-/

namespace Run

variable {σ τ ο ε : Type}

/-- Both results are related states, or both are the same failure. -/
def Agree (R : σ → τ → Prop) : Except ε σ → Except ε τ → Prop
  | .ok s, .ok t => R s t
  | .error e, .error e' => e = e'
  | _, _ => False

/-- Every operation keeps the relation. -/
def InStep (R : σ → τ → Prop) (step : σ → ο → Except ε σ) (step' : τ → ο → Except ε τ) : Prop :=
  ∀ s t o, R s t → Agree R (step s o) (step' t o)

variable {R : σ → τ → Prop} {step : σ → ο → Except ε σ} {step' : τ → ο → Except ε τ}

theorem agree_iff {r : Except ε σ} {r' : Except ε τ} :
    Agree R r r' ↔
      (∃ s t, r = .ok s ∧ r' = .ok t ∧ R s t) ∨ ∃ e, r = .error e ∧ r' = .error e := by
  cases r with
  | ok s => cases r' <;> simp [Agree]
  | error e => cases r' <;> simp [Agree, eq_comm]

theorem Agree.mono {S : σ → τ → Prop} {r : Except ε σ} {r' : Except ε τ} (h : Agree R r r')
    (hRS : ∀ s t, R s t → S s t) : Agree S r r' := by
  rcases agree_iff.mp h with ⟨s, t, rfl, rfl, hR⟩ | ⟨e, rfl, rfl⟩
  · exact hRS s t hR
  · exact rfl

/-- Runs of components that are in step agree. -/
theorem InStep.exec (h : InStep R step step') {s : σ} {t : τ} (hR : R s t) (os : List ο) :
    Agree R (Run.exec step s os) (Run.exec step' t os) := by
  induction os generalizing s t with
  | nil => exact hR
  | cons o os ih =>
    rw [Run.exec, Run.exec]
    rcases agree_iff.mp (h s t o hR) with ⟨s', t', hs, ht, hR'⟩ | ⟨e, hs, ht⟩
    · rw [hs, ht]
      exact ih hR'
    · rw [hs, ht]
      exact rfl

end Run
