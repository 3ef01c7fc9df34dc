import Mathlib.Data.List.Count
import Mathlib.Tactic.Common

/-!
# Lifetimes of objects

A log tells which objects were made, called and deleted. `Clean` is what a manual deallocation
promises of it: no object is deleted twice, and none is called after it has been deleted. `Legal`
says the same of what a log goes on with, one event after the other, so that a step of a program
is checked against the log so far.
-/

namespace Lifetime

/-- What happens to an object. -/
inductive Event (α : Type) where
  | created (a : α)
  | called (a : α)
  | deleted (a : α)
  deriving DecidableEq, Repr

variable {α : Type}

/-- The event may come after the log: what it uses has not been deleted. -/
def Allowed (log : List (Event α)) : Event α → Prop
  | .created _ => True
  | .called a | .deleted a => .deleted a ∉ log

/-- The log may go on with the events. -/
def Legal (log : List (Event α)) : List (Event α) → Prop
  | [] => True
  | e :: es => Allowed log e ∧ Legal (log ++ [e]) es

/-- No object is deleted twice, and none is called after it has been deleted. -/
structure Clean [DecidableEq α] (log : List (Event α)) : Prop where
  deleted_once : ∀ a, log.count (.deleted a) ≤ 1
  called_live : ∀ before a after, log = before ++ .called a :: after → .deleted a ∉ before

variable [DecidableEq α] {log : List (Event α)}

theorem clean_nil : Clean ([] : List (Event α)) where
  deleted_once a := by simp
  called_live before a after h := by simp at h

/-- What happened before is clean as well. -/
theorem Clean.of_append {events : List (Event α)} (h : Clean (log ++ events)) : Clean log where
  deleted_once a := by
    have hcount := h.deleted_once a
    rw [List.count_append] at hcount
    omega
  called_live before a after heq := by
    refine h.called_live before a (after ++ events) ?_
    rw [heq, List.append_assoc, List.cons_append]

theorem Clean.of_prefix {log' : List (Event α)} (h : Clean log') (hlog : log <+: log') :
    Clean log := by
  obtain ⟨events, rfl⟩ := hlog
  exact h.of_append

theorem Clean.allowed {e : Event α} (h : Clean (log ++ [e])) : Allowed log e := by
  cases e with
  | created a => trivial
  | called a => exact h.called_live log a [] rfl
  | deleted a =>
    have hcount := h.deleted_once a
    rw [List.count_append, List.count_singleton_self] at hcount
    exact List.count_eq_zero.mp (by omega)

theorem Clean.concat {e : Event α} (h : Clean log) (he : Allowed log e) : Clean (log ++ [e]) where
  deleted_once a := by
    rw [List.count_append]
    by_cases heq : e = .deleted a
    · subst heq
      rw [List.count_eq_zero.mpr he]
      simp
    · rw [List.count_singleton, if_neg (by simpa using heq)]
      exact h.deleted_once a
  called_live before a after heq := by
    rcases List.eq_nil_or_concat after with rfl | ⟨rest, last, rfl⟩
    · obtain ⟨rfl, hlast⟩ := List.append_inj' heq rfl
      cases hlast
      exact he
    · rw [List.concat_eq_append, ← List.cons_append, ← List.append_assoc] at heq
      exact h.called_live before a rest (List.append_inj' heq rfl).1

theorem clean_concat {e : Event α} : Clean (log ++ [e]) ↔ Clean log ∧ Allowed log e :=
  ⟨fun h => ⟨h.of_append, h.allowed⟩, fun h => h.1.concat h.2⟩

/-- A clean log stays clean as long as it goes on with what is allowed. -/
theorem clean_append {events : List (Event α)} :
    Clean (log ++ events) ↔ Clean log ∧ Legal log events := by
  induction events generalizing log with
  | nil => simp [Legal]
  | cons e es ih =>
    rw [Legal, List.append_cons, ih, clean_concat, and_assoc]

end Lifetime
