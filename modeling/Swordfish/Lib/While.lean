import Mathlib.Logic.Function.Iterate
import Mathlib.Tactic.Common

/-!
# Loops that may not end

`while (cond) body` over a state, run for at most a given number of rounds. The two rules of the
loop are a measure that every round lowers, under which it ends, and an invariant that keeps the
condition true, under which it does not.
-/

namespace While

variable {σ : Type} (cond : σ → Prop) [DecidablePred cond] (body : σ → σ)

/-- The state in which the loop ends, when it ends within the rounds given. -/
def exec : Nat → σ → Option σ
  | 0, s => if cond s then none else some s
  | n + 1, s => if cond s then exec n (body s) else some s

/-- How many rounds the loop takes, of those given. -/
def rounds : Nat → σ → Nat
  | 0, _ => 0
  | n + 1, s => if cond s then rounds n (body s) + 1 else 0

/-- The loop ends. -/
def Ends (s : σ) : Prop := ∃ n t, exec cond body n s = some t

variable {cond body} {s t : σ}

theorem exec_of_not_cond (h : ¬ cond s) (n : Nat) : exec cond body n s = some s := by
  cases n <;> simp [exec, h]

theorem exec_succ_of_cond (h : cond s) (n : Nat) :
    exec cond body (n + 1) s = exec cond body n (body s) := by
  simp [exec, h]

/-- A loop ends after the first number of rounds that makes its condition false. -/
theorem exec_eq_some_iff {n : Nat} :
    exec cond body n s = some t ↔
      ∃ k ≤ n, (∀ j < k, cond (body^[j] s)) ∧ ¬ cond (body^[k] s) ∧ t = body^[k] s := by
  constructor
  · intro h
    induction n generalizing s with
    | zero =>
      simp only [exec] at h
      split at h
      · cases h
      · rename_i hcond
        cases h
        exact ⟨0, Nat.le_refl 0, fun j hj => absurd hj (Nat.not_lt_zero j), hcond, rfl⟩
    | succ n ih =>
      simp only [exec] at h
      split at h
      · rename_i hcond
        obtain ⟨k, hk, hbefore, hlast, heq⟩ := ih h
        refine ⟨k + 1, Nat.succ_le_succ hk, fun j hj => ?_, hlast, heq⟩
        cases j with
        | zero => exact hcond
        | succ j => exact hbefore j (Nat.lt_of_succ_lt_succ hj)
      · rename_i hcond
        cases h
        exact ⟨0, Nat.zero_le _, fun j hj => absurd hj (Nat.not_lt_zero j), hcond, rfl⟩
  · rintro ⟨k, hk, hbefore, hlast, rfl⟩
    induction k generalizing n s with
    | zero => exact exec_of_not_cond hlast n
    | succ k ih =>
      obtain ⟨m, rfl⟩ := Nat.exists_eq_add_of_le' hk
      have hfirst : cond s := hbefore 0 (Nat.succ_pos k)
      rw [← Nat.add_assoc, exec_succ_of_cond hfirst]
      exact ih (Nat.le_add_left k m) (fun j hj => hbefore (j + 1) (Nat.succ_lt_succ hj)) hlast

/-- Where the loop ends, its body has been run once for every round it took. -/
theorem exec_eq_iterate {n : Nat} (h : exec cond body n s = some t) :
    t = body^[rounds cond body n s] s := by
  induction n generalizing s with
  | zero =>
    simp only [exec] at h
    split at h
    · cases h
    · cases h
      rfl
  | succ n ih =>
    simp only [exec] at h
    split at h
    · rename_i hcond
      rw [rounds, if_pos hcond, Function.iterate_succ_apply]
      exact ih h
    · rename_i hcond
      cases h
      rw [rounds, if_neg hcond]
      rfl

/-- A loop ends when every round lowers a measure of the states that satisfy an invariant. -/
theorem ends_of_measure {I : σ → Prop} (measure : σ → Nat) (keep : ∀ s, I s → cond s → I (body s))
    (lower : ∀ s, I s → cond s → measure (body s) < measure s) (hs : I s) : Ends cond body s := by
  induction hn : measure s using Nat.strongRecOn generalizing s with
  | ind n ih =>
    by_cases hcond : cond s
    · have hlt : measure (body s) < n := hn ▸ lower s hs hcond
      obtain ⟨k, t, ht⟩ := ih _ hlt (keep s hs hcond) rfl
      exact ⟨k + 1, t, (exec_succ_of_cond hcond k).trans ht⟩
    · exact ⟨0, s, exec_of_not_cond hcond 0⟩

/-- A loop does not end when an invariant of its body keeps its condition true. -/
theorem not_ends_of_invariant {I : σ → Prop} (keep : ∀ s, I s → I (body s))
    (stay : ∀ s, I s → cond s) (hs : I s) : ¬ Ends cond body s := by
  rintro ⟨n, t, h⟩
  induction n generalizing s with
  | zero =>
    rw [exec, if_pos (stay s hs)] at h
    cases h
  | succ n ih =>
    rw [exec_succ_of_cond (stay s hs)] at h
    exact ih (keep s hs) h

end While
