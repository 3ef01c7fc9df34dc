import Mathlib.Algebra.GroupWithZero.Nat
import Mathlib.Data.List.Induction
import Mathlib.Tactic.Common

/-!
# Runs of a fallible step function

A component is a state type with a step function that may fail. A run feeds it a list of
operations; `exec` is the state after the run. The rules below are the ones every invariant
proof over runs needs: splitting a run, induction on its last step, a condition that every step
of the run meets in the state it starts from (`Every`), what is observed at each step (`observe`,
and `total` for a quantity summed over the steps), what some run leads to (`Reaches`), and what
some choice of tasks leads to whatever they are done with (`Attains`).
-/

namespace Run

variable {σ ο ε β : Type} (step : σ → ο → Except ε σ)

/-- The state after the operations, or the first failure. -/
def exec (s : σ) : List ο → Except ε σ
  | [] => .ok s
  | o :: os =>
      match step s o with
      | .ok t => exec t os
      | .error e => .error e

/-- Every step of the run meets `C` in the state it starts from. -/
def Every (C : σ → ο → Prop) (s : σ) : List ο → Prop
  | [] => True
  | o :: os =>
      C s o ∧
        match step s o with
        | .ok t => Every C t os
        | .error _ => True

/-- What `f` reads at each step, in the state the step starts from. -/
def observe (f : σ → ο → β) (s : σ) : List ο → List β
  | [] => []
  | o :: os =>
      f s o ::
        match step s o with
        | .ok t => observe f t os
        | .error _ => []

/-- The sum over the steps of a quantity read in the state the step starts from. -/
def total (f : σ → ο → Nat) (s : σ) (os : List ο) : Nat := (observe step f s os).sum

/-- `Every` is decidable when its condition is, so that a concrete run can be checked. -/
instance decidableEvery (C : σ → ο → Prop) [∀ s o, Decidable (C s o)] :
    ∀ (s : σ) (os : List ο), Decidable (Every step C s os)
  | _, [] => isTrue trivial
  | s, o :: os =>
      have : Decidable
          (match step s o with
            | .ok t => Every step C t os
            | .error _ => True) :=
        match step s o with
        | .ok t => decidableEvery C t os
        | .error _ => isTrue trivial
      inferInstanceAs (Decidable (C s o ∧ _))

/-- The run does not fail, and its last state satisfies `P`. -/
def Yields (P : σ → Prop) (s : σ) (os : List ο) : Prop :=
  match exec step s os with
  | .ok t => P t
  | .error _ => False

/-- Some run does not fail and ends in a state that satisfies `P`. -/
def Reaches (s : σ) (P : σ → Prop) : Prop := ∃ os t, exec step s os = .ok t ∧ P t

/-- `Yields` is decidable when its condition is, so that a concrete run can be checked. -/
instance decidableYields (P : σ → Prop) [DecidablePred P] (s : σ) (os : List ο) :
    Decidable (Yields step P s os) :=
  match h : exec step s os with
  | .ok t => decidable_of_iff (P t) (by simp [Yields, h])
  | .error e => isFalse (by simp [Yields, h])

variable {step}

@[simp] theorem exec_nil (s : σ) : exec step s [] = .ok s := rfl

theorem exec_cons_ok {s u : σ} {o : ο} {os : List ο} :
    exec step s (o :: os) = .ok u ↔ ∃ t, step s o = .ok t ∧ exec step t os = .ok u := by
  simp only [exec]
  cases step s o with
  | ok t => simp
  | error e => simp

/-- Steps that never fail make runs that never fail. -/
theorem exec_total (h : ∀ s o, ∃ t, step s o = .ok t) (s : σ) (os : List ο) :
    ∃ t, exec step s os = .ok t := by
  induction os generalizing s with
  | nil => exact ⟨s, rfl⟩
  | cons o os ih =>
    obtain ⟨t, ht⟩ := h s o
    obtain ⟨u, hu⟩ := ih t
    exact ⟨u, exec_cons_ok.mpr ⟨t, ht, hu⟩⟩

/-- A projection that every step commutes with, every run commutes with. -/
theorem exec_map {τ : Type} {step' : τ → ο → Except ε τ} {f : σ → τ}
    (h : ∀ s o, (step s o).map f = step' (f s) o) (s : σ) (os : List ο) :
    (exec step s os).map f = exec step' (f s) os := by
  induction os generalizing s with
  | nil => rfl
  | cons o os ih =>
    rw [exec, exec, ← h]
    cases step s o with
    | ok t => exact ih t
    | error e => rfl

theorem yields_iff {P : σ → Prop} {s : σ} {os : List ο} :
    Yields step P s os ↔ ∃ t, exec step s os = .ok t ∧ P t := by
  unfold Yields
  cases exec step s os with
  | ok t => simp
  | error e => simp

theorem exec_append_ok {s u : σ} {xs ys : List ο} :
    exec step s (xs ++ ys) = .ok u ↔ ∃ t, exec step s xs = .ok t ∧ exec step t ys = .ok u := by
  induction xs generalizing s with
  | nil => simp
  | cons x xs ih =>
    simp only [List.cons_append, exec_cons_ok, ih]
    constructor
    · rintro ⟨t, ht, m, hm, hu⟩
      exact ⟨m, ⟨t, ht, hm⟩, hu⟩
    · rintro ⟨m, ⟨t, ht, hm⟩, hu⟩
      exact ⟨t, ht, m, hm, hu⟩

theorem exec_concat_ok {s u : σ} {xs : List ο} {o : ο} :
    exec step s (xs ++ [o]) = .ok u ↔ ∃ t, exec step s xs = .ok t ∧ step t o = .ok u := by
  rw [exec_append_ok]
  simp only [exec_cons_ok, exec_nil, Except.ok.injEq, exists_eq_right]

/-- Induction on the last step of a run, with the run so far at hand. -/
theorem exec_induction {s : σ} {P : List ο → σ → Prop} (init : P [] s)
    (next : ∀ os t o u, exec step s os = .ok t → P os t → step t o = .ok u → P (os ++ [o]) u) :
    ∀ {os : List ο} {u : σ}, exec step s os = .ok u → P os u := by
  intro os
  induction os using List.reverseRecOn with
  | nil =>
    intro u h
    cases h
    exact init
  | append_singleton os o ih =>
    intro u h
    obtain ⟨t, ht, hstep⟩ := exec_concat_ok.mp h
    exact next os t o u ht (ih ht) hstep

/-- What every step keeps, every run keeps. -/
theorem exec_invariant {I : σ → Prop} (next : ∀ s o t, I s → step s o = .ok t → I t)
    {s u : σ} {os : List ο} (hs : I s) (h : exec step s os = .ok u) : I u :=
  exec_induction (P := fun _ t => I t) hs (fun _ t o u _ ht hu => next t o u ht hu) h

theorem every_cons {C : σ → ο → Prop} {s t : σ} {o : ο} {os : List ο} (h : step s o = .ok t) :
    Every step C s (o :: os) ↔ C s o ∧ Every step C t os := by
  simp only [Every, h]

theorem every_append {C : σ → ο → Prop} {s t : σ} {xs ys : List ο}
    (h : exec step s xs = .ok t) :
    Every step C s (xs ++ ys) ↔ Every step C s xs ∧ Every step C t ys := by
  induction xs generalizing s with
  | nil =>
    cases h
    simp [Every]
  | cons x xs ih =>
    obtain ⟨m, hm, hrest⟩ := exec_cons_ok.mp h
    rw [List.cons_append, every_cons hm, every_cons hm, ih hrest, and_assoc]

theorem every_concat {C : σ → ο → Prop} {s t : σ} {xs : List ο} {o : ο}
    (h : exec step s xs = .ok t) :
    Every step C s (xs ++ [o]) ↔ Every step C s xs ∧ C t o := by
  rw [every_append h]
  simp only [Every]
  cases step t o <;> simp

/-- A condition on every step, in terms of the prefixes of the run. -/
theorem every_iff {C : σ → ο → Prop} {s : σ} {os : List ο} :
    Every step C s os ↔
      ∀ xs o ys t, os = xs ++ o :: ys → exec step s xs = .ok t → C t o := by
  constructor
  · rintro h xs o ys t rfl ht
    exact ((every_append ht).mp h).2.1
  · intro h
    induction os generalizing s with
    | nil => trivial
    | cons o os ih =>
      refine ⟨h [] o os s rfl rfl, ?_⟩
      cases hstep : step s o with
      | error e => trivial
      | ok m =>
        refine ih ?_
        intro xs p ys t hsplit ht
        exact h (o :: xs) p ys t (by rw [hsplit]; rfl) (exec_cons_ok.mpr ⟨m, hstep, ht⟩)

/-- A run with a step that does not meet a condition, split at that step. -/
theorem not_every_iff {C : σ → ο → Prop} {s : σ} {os : List ο} :
    ¬ Every step C s os ↔
      ∃ xs o ys t, os = xs ++ o :: ys ∧ exec step s xs = .ok t ∧ ¬ C t o := by
  rw [every_iff]
  push Not
  rfl

/-- A run whose steps meet a condition, inducted on its last step. -/
theorem every_induction {C : σ → ο → Prop} {s : σ} {P : List ο → σ → Prop} (init : P [] s)
    (next : ∀ os t o u, exec step s os = .ok t → P os t → C t o → step t o = .ok u →
      P (os ++ [o]) u) :
    ∀ {os : List ο} {u : σ}, exec step s os = .ok u → Every step C s os → P os u := by
  intro os u h
  refine exec_induction (P := fun os t => Every step C s os → P os t) (fun _ => init) ?_ h
  intro os t o u ht ih hu hevery
  obtain ⟨hbefore, hlast⟩ := (every_concat ht).mp hevery
  exact next os t o u ht (ih hbefore) hlast hu

theorem every_and {C D : σ → ο → Prop} {s : σ} {os : List ο} :
    Every step (fun s o => C s o ∧ D s o) s os ↔ Every step C s os ∧ Every step D s os := by
  induction os generalizing s with
  | nil => simp [Every]
  | cons o os ih =>
    simp only [Every]
    cases step s o with
    | ok t =>
      simp only [ih]
      exact and_and_and_comm
    | error e => simp

/-- A condition on the states that a run goes through, its last one included, holds after the first
step. -/
theorem every_state_next {I : σ → Prop} {s t u : σ} {o : ο} {os : List ο} (hstep : step s o = .ok t)
    (hrest : exec step t os = .ok u) (h : Every step (fun s _ => I s) s (o :: os)) (hu : I u) :
    I t ∧ Every step (fun s _ => I s) t os := by
  have hlater := ((every_cons hstep).mp h).2
  refine ⟨?_, hlater⟩
  cases os with
  | nil =>
    cases hrest
    exact hu
  | cons o os => exact hlater.1

theorem every_congr {C D : σ → ο → Prop} (h : ∀ s o, C s o ↔ D s o) {s : σ} {os : List ο} :
    Every step C s os ↔ Every step D s os := by
  have heq : C = D := funext (fun s => funext (fun o => propext (h s o)))
  rw [heq]

theorem observe_append {f : σ → ο → β} {s t : σ} {xs ys : List ο}
    (h : exec step s xs = .ok t) :
    observe step f s (xs ++ ys) = observe step f s xs ++ observe step f t ys := by
  induction xs generalizing s with
  | nil =>
    cases h
    rfl
  | cons x xs ih =>
    obtain ⟨m, hm, hrest⟩ := exec_cons_ok.mp h
    simp only [List.cons_append, observe, hm, ih hrest]

theorem observe_concat {f : σ → ο → β} {s t : σ} {xs : List ο} {o : ο}
    (h : exec step s xs = .ok t) :
    observe step f s (xs ++ [o]) = observe step f s xs ++ [f t o] := by
  rw [observe_append h]
  simp only [observe]
  cases step t o <;> rfl

/-- What every step passes on in order, every run passes on: of what a state holds (`c`) and what
the steps take in (`f`), what they give out (`g`) comes first. -/
theorem observe_conserves {c : σ → List β} {f g : σ → ο → List β}
    (h : ∀ s o t, step s o = .ok t → c s ++ f s o = g s o ++ c t) {s u : σ} {os : List ο}
    (hrun : exec step s os = .ok u) :
    c s ++ (observe step f s os).flatten = (observe step g s os).flatten ++ c u := by
  refine exec_induction (P := fun os t =>
    c s ++ (observe step f s os).flatten = (observe step g s os).flatten ++ c t) ?_ ?_ hrun
  · exact List.append_nil (c s)
  · intro os t o u ht ih hu
    rw [observe_concat ht, observe_concat ht, List.flatten_concat, List.flatten_concat,
      ← List.append_assoc, ih, List.append_assoc, List.append_assoc, h t o u hu]

theorem total_concat {f : σ → ο → Nat} {s t : σ} {xs : List ο} {o : ο}
    (h : exec step s xs = .ok t) :
    total step f s (xs ++ [o]) = total step f s xs + f t o := by
  rw [total, observe_concat h, List.sum_append, List.sum_singleton]
  rfl

/-- Counting by a potential: when a step costs, together with the potential it leaves, no more than
the potential it finds and what the step is granted, so does a whole run. -/
theorem total_le_of_potential {I : σ → Prop} {f g : σ → ο → Nat} {potential : σ → Nat}
    (next : ∀ s o t, I s → step s o = .ok t →
      I t ∧ f s o + potential t ≤ potential s + g s o)
    {s u : σ} {os : List ο} (hs : I s) (h : exec step s os = .ok u) :
    total step f s os + potential u ≤ potential s + total step g s os := by
  suffices hrun : I u ∧
      total step f s os + potential u ≤ potential s + total step g s os from hrun.2
  refine exec_induction (P := fun os t =>
    I t ∧ total step f s os + potential t ≤ potential s + total step g s os) ?_ ?_ h
  · refine ⟨hs, ?_⟩
    show 0 + potential s ≤ potential s + 0
    omega
  · intro os t o u ht ih hstep
    obtain ⟨hu, hcost⟩ := next t o u ih.1 hstep
    refine ⟨hu, ?_⟩
    have hsofar := ih.2
    rw [total_concat ht, total_concat ht]
    omega

/-- A sum of naturals is zero exactly when every step adds nothing. -/
theorem total_eq_zero_iff {f : σ → ο → Nat} {s : σ} {os : List ο} :
    total step f s os = 0 ↔ Every step (fun s o => f s o = 0) s os := by
  induction os generalizing s with
  | nil => exact iff_of_true rfl trivial
  | cons o os ih =>
    simp only [total, observe, Every, List.sum_cons, Nat.add_eq_zero_iff]
    cases step s o with
    | ok t => exact and_congr_right (fun _ => ih)
    | error e => simp

/-- What lowers a measure with each step happens as often as the measure allows. -/
theorem total_le_of_measure {I : σ → Prop} {f : σ → ο → Nat} {measure : σ → Nat}
    (next : ∀ s o t, I s → step s o = .ok t → I t ∧ f s o + measure t ≤ measure s)
    {s u : σ} {os : List ο} (hs : I s) (h : exec step s os = .ok u) :
    total step f s os ≤ measure s := by
  have hnone : ∀ os s, total step (fun _ _ => 0) s os = 0 := by
    intro os s
    rw [total_eq_zero_iff, every_iff]
    intro xs o ys t hsplit ht
    rfl
  have hcost := total_le_of_potential (g := fun _ _ => 0) next hs h
  rw [hnone] at hcost
  omega

theorem Reaches.refl {s : σ} {P : σ → Prop} (h : P s) : Reaches step s P := ⟨[], s, rfl, h⟩

theorem Reaches.next {s t : σ} {o : ο} {P : σ → Prop} (hstep : step s o = .ok t)
    (h : Reaches step t P) : Reaches step s P := by
  obtain ⟨os, u, hrun, hu⟩ := h
  exact ⟨o :: os, u, exec_cons_ok.mpr ⟨t, hstep, hrun⟩, hu⟩

theorem Reaches.trans {s : σ} {P Q : σ → Prop} (h : Reaches step s P)
    (hnext : ∀ t, P t → Reaches step t Q) : Reaches step s Q := by
  obtain ⟨os, t, hrun, ht⟩ := h
  obtain ⟨os', u, hrun', hu⟩ := hnext t ht
  exact ⟨os ++ os', u, exec_append_ok.mpr ⟨t, hrun, hrun'⟩, hu⟩

theorem Reaches.mono {s : σ} {P Q : σ → Prop} (h : Reaches step s P) (hPQ : ∀ t, P t → Q t) :
    Reaches step s Q :=
  h.trans (fun t ht => .refl (hPQ t ht))

/-- The component that takes some operations only. -/
def only (A : ο → Prop) [DecidablePred A] (e : ε) (step : σ → ο → Except ε σ) (s : σ) (o : ο) :
    Except ε σ :=
  if A o then step s o else .error e

theorem exec_only_ok {A : ο → Prop} [DecidablePred A] {e : ε} {s t : σ} {os : List ο} :
    exec (only A e step) s os = .ok t ↔ (∀ o ∈ os, A o) ∧ exec step s os = .ok t := by
  induction os generalizing s with
  | nil => simp
  | cons o os ih =>
    rw [exec_cons_ok, exec_cons_ok, List.forall_mem_cons, only]
    by_cases ho : A o
    · rw [if_pos ho]
      constructor
      · rintro ⟨u, hu, hrun⟩
        exact ⟨⟨ho, (ih.mp hrun).1⟩, u, hu, (ih.mp hrun).2⟩
      · rintro ⟨⟨-, hos⟩, u, hu, hrun⟩
        exact ⟨u, hu, ih.mpr ⟨hos, hrun⟩⟩
    · rw [if_neg ho]
      constructor
      · rintro ⟨u, hu, -⟩
        cases hu
      · exact fun h => absurd h.1.1 ho

/-- The component gets from `s` to a state that satisfies `P` when the next task can be chosen, but
not what it is done with: `op task k` is the operation of the task when it is done with `k`. -/
inductive Attains {τ κ : Type} (step : σ → ο → Except ε σ) (op : τ → κ → ο) (P : σ → Prop) :
    σ → Prop
  | here {s : σ} (h : P s) : Attains step op P s
  | next {s : σ} (task : τ) (after : κ → σ) (hstep : ∀ k, step s (op task k) = .ok (after k))
      (h : ∀ k, Attains step op P (after k)) : Attains step op P s

section
variable {τ κ : Type} {op : τ → κ → ο} {P : σ → Prop}

/-- Whatever the tasks are done with, some sequence of them gets there. -/
theorem Attains.exec {s : σ} (h : Attains step op P s) (ks : Nat → κ) (start : Nat) :
    ∃ (tasks : List τ) (u : σ),
      exec step s ((tasks.zipIdx start).map (fun p => op p.1 (ks p.2))) = .ok u ∧ P u := by
  induction h generalizing start with
  | here h => exact ⟨[], _, rfl, h⟩
  | next task after hstep _ ih =>
    obtain ⟨tasks, u, hrun, hu⟩ := ih (ks start) (start + 1)
    refine ⟨task :: tasks, u, ?_, hu⟩
    rw [List.zipIdx_cons, List.map_cons]
    exact exec_cons_ok.mpr ⟨after (ks start), hstep (ks start), hrun⟩

end

end Run
