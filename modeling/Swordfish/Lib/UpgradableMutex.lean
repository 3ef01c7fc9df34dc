import Mathlib.Data.List.Basic
import Mathlib.Logic.Function.Basic
import Mathlib.Logic.Relation
import Mathlib.Tactic.Common

/-!
# Threads and upgradable mutexes

An upgradable mutex has any number of sharable owners, at most one upgradable owner, who may
coexist with sharable owners, and an exclusive owner, who excludes all others. It does not know
who its owners are: a thread that already owns it is treated like any other. A thread is the list
of the instructions it still has to execute, and the ownerships it has; a step of the machine is
the next instruction of some thread, in any order of the threads.
-/

namespace UpgradableMutex

/-- The three kinds of ownership. -/
inductive Mode where
  | sharable
  | upgradable
  | exclusive
  deriving DecidableEq, Repr

/-- An instruction of a thread: `body` is anything that takes and gives back no lock. -/
inductive Instr (μ : Type) where
  | lock (m : μ) (mode : Mode)
  | unlock (m : μ) (mode : Mode)
  | body
  deriving DecidableEq, Repr

/-- A thread, with its ownerships the newest first. -/
structure Thread (μ : Type) where
  todo : List (Instr μ)
  held : List (μ × Mode)

variable {μ ι : Type}

/-- A new owner in this mode is compatible with these ownerships. -/
def Compatible (held : List (μ × Mode)) (m : μ) : Mode → Prop
  | .sharable => (m, .exclusive) ∉ held
  | .upgradable => (m, .upgradable) ∉ held ∧ (m, .exclusive) ∉ held
  | .exclusive => ∀ mode, (m, mode) ∉ held

/-- The mutex grants the lock: it is compatible with what all threads own. -/
def Grants (s : ι → Thread μ) (m : μ) (mode : Mode) : Prop := ∀ i, Compatible (s i).held m mode

variable [DecidableEq μ]

/-- The ownerships after the instructions. -/
def after (held : List (μ × Mode)) : List (Instr μ) → List (μ × Mode)
  | [] => held
  | .lock m mode :: xs => after ((m, mode) :: held) xs
  | .unlock m mode :: xs => after (held.erase (m, mode)) xs
  | .body :: xs => after held xs

variable [DecidableEq ι]

/-- The next instruction of a thread; a `lock` waits until the mutex grants it. -/
inductive Step (s : ι → Thread μ) : (ι → Thread μ) → Prop
  | lock {i : ι} {m : μ} {mode : Mode} {rest : List (Instr μ)}
      (htodo : (s i).todo = .lock m mode :: rest) (hgrants : Grants s m mode) :
      Step s (Function.update s i ⟨rest, (m, mode) :: (s i).held⟩)
  | unlock {i : ι} {m : μ} {mode : Mode} {rest : List (Instr μ)}
      (htodo : (s i).todo = .unlock m mode :: rest) :
      Step s (Function.update s i ⟨rest, (s i).held.erase (m, mode)⟩)
  | body {i : ι} {rest : List (Instr μ)} (htodo : (s i).todo = .body :: rest) :
      Step s (Function.update s i ⟨rest, (s i).held⟩)

/-- The threads before their first instruction. -/
def start (prog : ι → List (Instr μ)) : ι → Thread μ := fun i => ⟨prog i, []⟩

/-- The states that the threads can reach. -/
def Reachable (prog : ι → List (Instr μ)) : (ι → Thread μ) → Prop :=
  Relation.ReflTransGen Step (start prog)

/-- What holds at the start and is kept by every step holds of every reachable state. -/
theorem Reachable.invariant {prog : ι → List (Instr μ)} {I : (ι → Thread μ) → Prop}
    (hstart : I (start prog)) (hstep : ∀ s t, I s → Step s t → I t) {s : ι → Thread μ}
    (h : Reachable prog s) : I s := by
  induction h with
  | refl => exact hstart
  | tail _ hst ih => exact hstep _ _ ih hst

/-! ## Ownerships of reachable states -/

/-- A thread has executed a prefix of its program, and owns what the prefix leaves it. -/
def Follows (prog : ι → List (Instr μ)) (s : ι → Thread μ) : Prop :=
  ∀ i, ∃ done, prog i = done ++ (s i).todo ∧ (s i).held = after [] done

theorem after_append (held : List (μ × Mode)) (xs ys : List (Instr μ)) :
    after held (xs ++ ys) = after (after held xs) ys := by
  induction xs generalizing held with
  | nil => rfl
  | cons x xs ih =>
    cases x with
    | lock m mode => exact ih _
    | unlock m mode => exact ih _
    | body => exact ih _

theorem Follows.update {prog : ι → List (Instr μ)} {s : ι → Thread μ} (h : Follows prog s) {i : ι}
    {x : Instr μ} {rest : List (Instr μ)} (htodo : (s i).todo = x :: rest) :
    Follows prog (Function.update s i ⟨rest, after (s i).held [x]⟩) := by
  intro j
  rcases eq_or_ne j i with rfl | hne
  · obtain ⟨done, hprog, hheld⟩ := h j
    refine ⟨done ++ [x], ?_, ?_⟩
    · rw [hprog, htodo, Function.update_self, List.append_assoc]
      rfl
    · rw [Function.update_self, after_append, ← hheld]
  · rw [Function.update_of_ne hne]
    exact h j

theorem Reachable.follows {prog : ι → List (Instr μ)} {s : ι → Thread μ}
    (h : Reachable prog s) : Follows prog s := by
  refine h.invariant (fun i => ⟨[], rfl, rfl⟩) (fun s t hs hst => ?_)
  cases hst with
  | lock htodo hgrants => exact hs.update htodo
  | unlock htodo => exact hs.update htodo
  | body htodo => exact hs.update htodo

/-- What a list of instructions leaves to a thread, it had before or has locked. -/
theorem mem_after {held : List (μ × Mode)} {xs : List (Instr μ)} {m : μ} {mode : Mode}
    (h : (m, mode) ∈ after held xs) : (m, mode) ∈ held ∨ .lock m mode ∈ xs := by
  induction xs generalizing held with
  | nil => exact Or.inl h
  | cons x xs ih =>
    have hrest : (m, mode) ∈ after (after held [x]) xs := by cases x <;> exact h
    rcases ih hrest with hheld | hlocked
    · cases x with
      | lock m' mode' =>
        rcases List.mem_cons.mp hheld with heq | hold
        · cases heq
          exact Or.inr List.mem_cons_self
        · exact Or.inl hold
      | unlock m' mode' => exact Or.inl (List.mem_of_mem_erase hheld)
      | body => exact Or.inl hheld
    · exact Or.inr (List.mem_cons_of_mem _ hlocked)

/-- A thread owns only what its program locks. -/
theorem Reachable.lock_mem {prog : ι → List (Instr μ)} {s : ι → Thread μ} (h : Reachable prog s)
    {i : ι} {m : μ} {mode : Mode} (hheld : (m, mode) ∈ (s i).held) : .lock m mode ∈ prog i := by
  obtain ⟨done, hprog, heq⟩ := h.follows i
  rw [heq] at hheld
  rcases mem_after hheld with hnil | hlocked
  · cases hnil
  · rw [hprog]
    exact List.mem_append_left _ hlocked

/-- What a thread owns after a step, it owned before, or the step granted it to that thread. -/
theorem Step.held {s t : ι → Thread μ} (h : Step s t) {i : ι} {m : μ} {mode : Mode}
    (hi : (m, mode) ∈ (t i).held) :
    (m, mode) ∈ (s i).held ∨ Grants s m mode ∧ ∀ j ≠ i, (t j).held = (s j).held := by
  cases h with
  | @lock k m' mode' rest htodo hgrants =>
    rcases eq_or_ne i k with rfl | hik
    · rw [Function.update_self] at hi
      rcases List.mem_cons.mp hi with heq | hold
      · cases heq
        exact Or.inr ⟨hgrants, fun j hne => by rw [Function.update_of_ne hne]⟩
      · exact Or.inl hold
    · rw [Function.update_of_ne hik] at hi
      exact Or.inl hi
  | @unlock k m' mode' rest htodo =>
    rcases eq_or_ne i k with rfl | hik
    · rw [Function.update_self] at hi
      exact Or.inl (List.mem_of_mem_erase hi)
    · rw [Function.update_of_ne hik] at hi
      exact Or.inl hi
  | @body k rest htodo =>
    rcases eq_or_ne i k with rfl | hik
    · rw [Function.update_self] at hi
      exact Or.inl hi
    · rw [Function.update_of_ne hik] at hi
      exact Or.inl hi

/-- No two threads are upgradable owners of one mutex. -/
def UpgradableUnique (s : ι → Thread μ) : Prop :=
  ∀ m i j, i ≠ j → (m, .upgradable) ∈ (s i).held → (m, .upgradable) ∉ (s j).held

theorem Reachable.upgradable_unique {prog : ι → List (Instr μ)} {s : ι → Thread μ}
    (h : Reachable prog s) : UpgradableUnique s := by
  refine h.invariant (fun m i j _ hi => by cases hi) (fun s t hs hst m i j hij hi hj => ?_)
  rcases hst.held hi with hi' | ⟨hgrants, hsame⟩
  · rcases hst.held hj with hj' | ⟨hgrants, -⟩
    · exact hs m i j hij hi' hj'
    · exact (hgrants i).1 hi'
  · rw [hsame j hij.symm] at hj
    exact (hgrants j).1 hj

/-! ## A thread that runs alone -/

/-- A thread with these ownerships can execute the instructions while the other threads own
nothing that is in its way: it never waits for itself, and takes no exclusive ownership. -/
def Clear (held : List (μ × Mode)) : List (Instr μ) → Prop
  | [] => True
  | .lock m mode :: xs => mode ≠ .exclusive ∧ Compatible held m mode ∧ Clear ((m, mode) :: held) xs
  | .unlock m mode :: xs => Clear (held.erase (m, mode)) xs
  | .body :: xs => Clear held xs

theorem clear_append {held : List (μ × Mode)} {xs ys : List (Instr μ)} :
    Clear held (xs ++ ys) ↔ Clear held xs ∧ Clear (after held xs) ys := by
  induction xs generalizing held with
  | nil => simp [Clear, after]
  | cons x xs ih =>
    cases x with
    | lock m mode =>
      simp only [List.cons_append, Clear, after, ih, and_assoc]
    | unlock m mode => exact ih
    | body => exact ih

omit [DecidableEq μ] in
/-- Sharable owners stand in the way of no sharable and no upgradable one. -/
theorem compatible_of_sharable {held : List (μ × Mode)} (h : ∀ p ∈ held, p.2 = .sharable) (m : μ)
    {mode : Mode} (hmode : mode ≠ .exclusive) : Compatible held m mode := by
  have hnot : ∀ mode' ≠ Mode.sharable, (m, mode') ∉ held := fun mode' hne hmem => hne (h _ hmem)
  cases mode with
  | sharable => exact hnot _ (by decide)
  | upgradable => exact ⟨hnot _ (by decide), hnot _ (by decide)⟩
  | exclusive => exact absurd rfl hmode

/-- While the other threads are sharable owners at most, a thread can run ahead alone. -/
theorem run_alone {s : ι → Thread μ} {i : ι} (xs ys : List (Instr μ))
    (htodo : (s i).todo = xs ++ ys) (hclear : Clear (s i).held xs)
    (hothers : ∀ j ≠ i, ∀ p ∈ (s j).held, p.2 = .sharable) :
    Relation.ReflTransGen Step s (Function.update s i ⟨ys, after (s i).held xs⟩) := by
  induction xs generalizing s with
  | nil =>
    have hsame : Function.update s i ⟨ys, after (s i).held []⟩ = s := by
      refine Function.update_eq_self_iff.mpr ?_
      rw [after]
      exact congrArg (fun todo => Thread.mk todo (s i).held) htodo.symm
    rw [hsame]
  | cons x xs ih =>
    have hstep : Step s (Function.update s i ⟨xs ++ ys, after (s i).held [x]⟩) ∧
        Clear (after (s i).held [x]) xs := by
      cases x with
      | lock m mode =>
        obtain ⟨hmode, hcompatible, hrest⟩ := hclear
        refine ⟨.lock htodo (fun j => ?_), hrest⟩
        rcases eq_or_ne j i with rfl | hne
        · exact hcompatible
        · exact compatible_of_sharable (hothers j hne) m hmode
      | unlock m mode => exact ⟨.unlock htodo, hclear⟩
      | body => exact ⟨.body htodo, hclear⟩
    have hrest := ih (s := Function.update s i ⟨xs ++ ys, after (s i).held [x]⟩)
      (by rw [Function.update_self]) (by rw [Function.update_self]; exact hstep.2)
      (fun j hne p hp => hothers j hne p (by rwa [Function.update_of_ne hne] at hp))
    rw [Function.update_self, Function.update_idem] at hrest
    have hafter : after (s i).held (x :: xs) = after (after (s i).held [x]) xs :=
      after_append _ [x] xs
    rw [hafter]
    exact .head hstep.1 hrest

end UpgradableMutex
